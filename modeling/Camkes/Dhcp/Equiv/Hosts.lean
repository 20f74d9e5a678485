import Camkes.Dhcp.Equiv.Leases

/-!
# Which addresses are handed out

The server's subnet has the host addresses 192.168.1.1, its own, up to 192.168.1.254.  `discover`
also offers the broadcast address when it gets to it, and `request` assigns whatever is free.  As
long as neither happens, the table holds host addresses only and nothing else is handed out.
-/

namespace Camkes.Dhcp

open CArray Machine

variable {s s' : System} {server server' : Server} {i : ClientId} {ip siaddr reply : UInt32}

/-! ### Host addresses -/

/-- A host address other than the server's: 192.168.1.2 up to 192.168.1.254. -/
def IsHost (ip : UInt32) : Prop := 0xc0a80102 ≤ ip ∧ ip ≤ 0xc0a801fe

instance (ip : UInt32) : Decidable (IsHost ip) := inferInstanceAs (Decidable (_ ∧ _))

/-- What is offered or acknowledged is a host address. -/
def Obs.HandsOutHost : Obs → Prop
  | .offered _ offer _ => IsHost offer
  | .replied _ ip => ip = 0 ∨ IsHost ip

/-- All addresses from the next one up to 192.168.1.254 are unsuitable, and the broadcast address is
not. -/
def OffersBroadcast (server : Server) : Prop :=
  (∀ k < 255 - server.nextOfferOctet.toNat,
    unsuitable server.routingTable (offerOf (octetAt server k)) = true) ∧
    unsuitable server.routingTable (offerOf 255) = false

/-- The call does not get to the broadcast address, or it requests a host address, or one that is
never assigned. -/
def StaysInside (s : System) : Event → Prop
  | .discover _ => ¬ OffersBroadcast s.server
  | .request _ ip siaddr => siaddr = myIp → ip = 0 ∨ ip = myIp ∨ IsHost ip

instance (server : Server) : Decidable (OffersBroadcast server) :=
  inferInstanceAs (Decidable ((∀ _ < _, _) ∧ _))

instance (s : System) (e : Event) : Decidable (StaysInside s e) :=
  match e with
  | .discover _ => inferInstanceAs (Decidable (¬ _))
  | .request _ _ _ => inferInstanceAs (Decidable (_ → _))

/-- Which offers are addresses of hosts. -/
theorem isHost_offerOf (octet : UInt8) :
    IsHost (offerOf octet) ↔ octet ≠ 0 ∧ octet ≠ 1 ∧ octet ≠ 255 := by
  have hlt := octet.toNat_lt
  have hlow : (0xc0a80102 : UInt32).toNat = 0xc0a80102 := rfl
  have hhigh : (0xc0a801fe : UInt32).toNat = 0xc0a801fe := rfl
  have h0 : (0 : UInt8).toNat = 0 := rfl
  have h1 : (1 : UInt8).toNat = 1 := rfl
  have h255 : (255 : UInt8).toNat = 255 := rfl
  rw [IsHost, UInt32.le_iff_toNat_le, UInt32.le_iff_toNat_le, toNat_offerOf, hlow, hhigh, ne_eq,
    ne_eq, ne_eq, ← UInt8.toNat_inj, ← UInt8.toNat_inj, ← UInt8.toNat_inj, h0, h1, h255]
  omega

/-! ### Discovery -/

theorem toNat_octetAt (server : Server) (k : ℕ) :
    (octetAt server k).toNat = (server.nextOfferOctet.toNat + k) % 256 := by
  rw [octetAt, UInt8.toNat_add, UInt8.toNat_ofNat', Nat.add_mod_mod]

/-- The loop ends at the broadcast address exactly when it has rejected all before it. -/
theorem octetAt_eq_255_iff {k : ℕ} (hk : k < 7)
    (hsuitable : unsuitable server.routingTable (offerOf (octetAt server k)) = false)
    (hbefore : ∀ j < k, unsuitable server.routingTable (offerOf (octetAt server j)) = true) :
    octetAt server k = 255 ↔ OffersBroadcast server := by
  have hnext := server.nextOfferOctet.toNat_lt
  have hwhere : ∀ j, octetAt server j = 255 ↔
      (server.nextOfferOctet.toNat + j) % 256 = 255 := by
    intro j
    rw [← UInt8.toNat_inj, toNat_octetAt]
    rfl
  constructor
  · intro heq
    have hplace := (hwhere k).mp heq
    refine ⟨fun j hj => hbefore j (by omega), ?_⟩
    rwa [← heq]
  · rintro ⟨hall, hbroadcast⟩
    have hlast : octetAt server (255 - server.nextOfferOctet.toNat) = 255 :=
      (hwhere _).mpr (by omega)
    rcases Nat.lt_trichotomy k (255 - server.nextOfferOctet.toNat) with hlt | heq | hgt
    · rw [hall k hlt] at hsuitable
      cases hsuitable
    · rw [heq]
      exact hlast
    · have hrejected := hbefore _ hgt
      rw [hlast, hbroadcast] at hrejected
      cases hrejected

/-- **An offer** is a host address unless it is the broadcast address. -/
theorem isHost_offer_iff {k : ℕ} (hk : k < 7)
    (hsuitable : unsuitable server.routingTable (offerOf (octetAt server k)) = false)
    (hbefore : ∀ j < k, unsuitable server.routingTable (offerOf (octetAt server j)) = true) :
    IsHost (offerOf (octetAt server k)) ↔ ¬ OffersBroadcast server := by
  rw [← octetAt_eq_255_iff hk hsuitable hbefore, isHost_offerOf]
  obtain ⟨hzero, hmy, -⟩ := unsuitable_eq_false_iff.mp hsuitable
  have h0 : octetAt server k ≠ 0 := fun h => hzero (by rw [h]; rfl)
  have h1 : octetAt server k ≠ 1 := fun h => hmy (by rw [h]; rfl)
  exact ⟨fun h => h.2.2, fun h => ⟨h0, h1, h⟩⟩

/-! ### Requests -/

/-- The assigned addresses are host addresses. -/
def HoldsHosts (server : Server) : Prop :=
  ∀ i, server.routingTable.get i = 0 ∨ IsHost (server.routingTable.get i)

/-- A client keeps its address, which is a host address, or gets the one it asks for. -/
theorem HoldsHosts.assign (h : HoldsHosts server)
    (hreq : clientRequest i server ip siaddr = some (reply, server'))
    (hinside : siaddr = myIp → ip = 0 ∨ ip = myIp ∨ IsHost ip) :
    HoldsHosts server' ∧ (reply = 0 ∨ IsHost reply) := by
  by_cases hsiaddr : siaddr = myIp
  · rcases clientRequest_cases hreq with ⟨rfl, hreply⟩ | ⟨rfl, hmy, hzero, -, rfl⟩
    · refine ⟨h, ?_⟩
      rcases hreply with rfl | rfl
      · exact Or.inl rfl
      · exact h i
    · have hhost := ((hinside hsiaddr).resolve_left hzero).resolve_left hmy
      have hafter : HoldsHosts { server with routingTable := put server.routingTable i reply } :=
        forall_get_put (P := fun ip => ip = 0 ∨ IsHost ip) h i (Or.inr hhost)
      exact ⟨hafter, Or.inr hhost⟩
  · rw [clientRequest_eq, if_pos hsiaddr] at hreq
    obtain ⟨rfl, rfl⟩ := Prod.mk.inj (Option.some.inj hreq)
    exact ⟨h, Or.inl rfl⟩

/-- A request for any other address is granted. -/
theorem HoldsHosts.inside_of_reply (h : HoldsHosts server)
    (hreq : clientRequest i server ip siaddr = some (reply, server'))
    (hreply : reply = 0 ∨ IsHost reply) : siaddr = myIp → ip = 0 ∨ ip = myIp ∨ IsHost ip := by
  intro hsiaddr
  by_contra hnot
  rw [not_or, not_or] at hnot
  obtain ⟨hzero, hmy, hhost⟩ := hnot
  have hfree : ∀ j, ip ≠ server.routingTable.get j := by
    rintro j rfl
    exact (h j).elim hzero hhost
  rw [clientRequest_eq, if_neg (not_not.mpr hsiaddr), if_neg (hfree i).symm,
    if_pos ⟨hmy, hzero, hfree⟩] at hreq
  obtain ⟨rfl, -⟩ := Prod.mk.inj (Option.some.inj hreq)
  exact hreply.elim hzero hhost

/-! ### Runs -/

/-- Everything that has been handed out is a host address. -/
def AllHosts (s : System) : Prop := ∀ o ∈ s.trace, o.HandsOutHost

theorem allHosts_concat {trace : List Obs} {o : Obs} :
    AllHosts { server, trace := trace ++ [o] } ↔ (∀ o ∈ trace, o.HandsOutHost) ∧ o.HandsOutHost :=
  List.forall_mem_append.trans (and_congr_right fun _ => List.forall_mem_singleton)

/-- A step hands out the address of a host if and only if it stays inside. -/
theorem allHosts_step {e : Event} (h : HoldsHosts s.server) (hall : AllHosts s)
    (hstep : machine.step s e = some s') :
    (StaysInside s e → HoldsHosts s'.server ∧ AllHosts s') ∧ (AllHosts s' → StaysInside s e) := by
  cases e with
  | discover i =>
    obtain ⟨k, hk, heq, hsuitable, hbefore⟩ := step_discover s i
    obtain rfl := Option.some.inj (heq.symm.trans hstep)
    have hoffer := isHost_offer_iff hk hsuitable hbefore
    constructor
    · exact fun hinside => ⟨h, allHosts_concat.mpr ⟨hall, hoffer.mpr hinside⟩⟩
    · exact fun hall' => hoffer.mp (allHosts_concat.mp hall').2
  | request i ip siaddr =>
    obtain ⟨⟨reply, server'⟩, hreq, hs'⟩ := Option.bind_eq_some_iff.mp hstep
    obtain rfl := Option.some.inj hs'
    constructor
    · intro hinside
      obtain ⟨hhosts, hreply⟩ := h.assign hreq hinside
      exact ⟨hhosts, allHosts_concat.mpr ⟨hall, hreply⟩⟩
    · exact fun hall' => h.inside_of_reply hreq (allHosts_concat.mp hall').2

/-- **Host addresses**: up to every step of a run only host addresses have been handed out exactly
when `discover` never gets to the broadcast address and no address outside of the hosts is
requested from this server. -/
theorem allHosts_iff_staysInside {ts : List (Transition System Event)}
    (hrun : machine.Run .init ts s) :
    (∀ t ∈ ts, AllHosts t.after) ↔ ∀ t ∈ ts, StaysInside t.before t.event := by
  have hinit : HoldsHosts .init := fun i => Or.inl (get_replicate 0 i)
  refine hrun.forall_after_iff (I := fun s => HoldsHosts s.server ∧ AllHosts s) ⟨hinit, nofun⟩ ?_ ?_
  · rintro s e s' ⟨h, hall⟩ _ hstep hinside
    have hafter := (allHosts_step h hall hstep).1 hinside
    exact ⟨hafter, hafter.2⟩
  · rintro s e s' ⟨h, hall⟩ _ hstep hall'
    exact (allHosts_step h hall hstep).2 hall'

/-- A client accepts its offer, and asks for the server's address and another server. -/
theorem allHosts_iff_staysInside_accepted : ∃ ts s, machine.Run .init ts s ∧
    events ts = [.discover 0, .request 0 0xc0a80102 myIp, .request 1 myIp myIp,
      .request 1 0x0a000001 0x0a000002, .discover 1] ∧
    s.trace = [.offered 0 0xc0a80102 myIp, .replied 0 0xc0a80102, .replied 1 0, .replied 1 0,
      .offered 1 0xc0a80103 myIp] ∧ ∀ t ∈ ts, AllHosts t.after := by
  obtain ⟨ts, s, hrun, hevents, hp⟩ := exists_run_of_exec machine .init
    [.discover 0, .request 0 0xc0a80102 myIp, .request 1 myIp myIp,
      .request 1 0x0a000001 0x0a000002, .discover 1]
    (fun r => r.2.trace = [.offered 0 0xc0a80102 myIp, .replied 0 0xc0a80102, .replied 1 0,
      .replied 1 0, .offered 1 0xc0a80103 myIp] ∧ ∀ t ∈ r.1, StaysInside t.before t.event)
    (by decide +kernel)
  obtain ⟨htrace, hinside⟩ := of_decide_eq_true hp
  exact ⟨ts, s, hrun, hevents, htrace, (allHosts_iff_staysInside hrun).mpr hinside⟩

/-- After 253 other offers the broadcast address is offered; an address outside of the subnet and
the broadcast address are assigned. -/
theorem not_allHosts_broadcast : ∃ ts s, machine.Run .init ts s ∧
    events ts = List.replicate 254 (.discover 0) ++
      [.request 0 0x0a000001 myIp, .request 1 0xc0a801ff myIp] ∧
    s.trace.drop 253 = [.offered 0 0xc0a801ff myIp, .replied 0 0x0a000001,
      .replied 1 0xc0a801ff] ∧ ¬ ∀ t ∈ ts, AllHosts t.after := by
  obtain ⟨ts, s, hrun, hevents, hp⟩ := exists_run_of_exec machine .init
    (List.replicate 254 (.discover 0) ++ [.request 0 0x0a000001 myIp, .request 1 0xc0a801ff myIp])
    (fun r => r.2.trace.drop 253 = [.offered 0 0xc0a801ff myIp, .replied 0 0x0a000001,
      .replied 1 0xc0a801ff] ∧ r.1.getLast?.any fun t => .replied 0 0x0a000001 ∈ t.after.trace)
    (by decide +kernel)
  obtain ⟨htrace, hany⟩ := of_decide_eq_true hp
  refine ⟨ts, s, hrun, hevents, htrace, fun h => ?_⟩
  obtain ⟨t, hlast, hmem⟩ := (Option.any_eq_true _ _).mp hany
  have ht := List.mem_of_getLast? hlast
  have hhost : (0x0a000001 : UInt32) = 0 ∨ IsHost 0x0a000001 := h t ht _ (of_decide_eq_true hmem)
  exact absurd hhost (by decide)

end Camkes.Dhcp
