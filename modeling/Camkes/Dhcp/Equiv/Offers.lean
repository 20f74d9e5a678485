import Camkes.Data.WrapCounter
import Camkes.Dhcp.Equiv.Leases

/-!
# Offers do not repeat

`next_offer_octet` is a counter that wraps around, and each offer is from 1 to 7 places after the
one before, whatever happens to the table in between.  So 36 offers in a row are less than one turn
apart.
-/

namespace Camkes.Dhcp

open Machine

variable {s s' : System} {server : Server} {trace : List Obs}

/-- The addresses that have been offered, in order. -/
def offers (trace : List Obs) : List UInt32 :=
  trace.filterMap fun
    | .offered _ offer _ => some offer
    | .replied _ _ => none

theorem offers_offered (trace : List Obs) (i : ClientId) (offer siaddr : UInt32) :
    offers (trace ++ [.offered i offer siaddr]) = offers trace ++ [offer] :=
  List.filterMap_append

theorem offers_replied (trace : List Obs) (i : ClientId) (ip : UInt32) :
    offers (trace ++ [.replied i ip]) = offers trace :=
  List.filterMap_append.trans (List.append_nil _)

/-! ### Places -/

/-- The address at a place of the counter. -/
def offerAt (place : ℕ) : UInt32 := offerOf (UInt8.ofNat place)

theorem mod_eq_of_offerAt_eq {p q : ℕ} (h : offerAt p = offerAt q) : p % 256 = q % 256 := by
  have hoctet := congrArg UInt8.toNat (offerOf_injective h)
  rwa [UInt8.toNat_ofNat', UInt8.toNat_ofNat'] at hoctet

/-- The offers are at places that advance by 7 at most, and the counter is behind the last. -/
def Placed (s : System) : Prop :=
  ∃ places next, Advances 7 places ∧ offers s.trace = places.map offerAt ∧
    s.server.nextOfferOctet = UInt8.ofNat next ∧ ∀ last ∈ places.getLast?, next = last + 1

theorem placed_start (server : Server) : Placed { server, trace := [] } :=
  ⟨[], server.nextOfferOctet.toNat, advances_nil 7, rfl, UInt8.ofNat_toNat.symm, nofun⟩

/-- An offer is at most seven places behind the one before it. -/
theorem Placed.discover (h : Placed s) (i : ClientId) {k : ℕ} (hk : k < 7) :
    Placed (s.offer i k) := by
  obtain ⟨places, next, hadv, hoffers, hnext, hlast⟩ := h
  have hplace : octetAt s.server k = UInt8.ofNat (next + k) := by
    rw [octetAt, hnext, UInt8.ofNat_add]
  refine ⟨places ++ [next + k], next + k + 1, hadv.concat ?_, ?_, ?_, ?_⟩
  · intro last hmem
    have hlast := hlast last hmem
    omega
  · rw [System.offer, offers_offered, hoffers, hplace, List.map_append]
    rfl
  · show octetAt s.server k + 1 = _
    rw [hplace, UInt8.ofNat_add (next + k)]
    rfl
  · intro last hmem
    rw [List.getLast?_concat] at hmem
    rw [Option.some.inj hmem]

/-- Every step keeps the offers in their places. -/
theorem Placed.of_step {e : Event} (h : Placed s) (hstep : machine.step s e = some s') :
    Placed s' := by
  cases e with
  | discover i =>
    obtain ⟨k, hk, heq, -⟩ := step_discover s i
    obtain rfl := Option.some.inj (heq.symm.trans hstep)
    exact h.discover i hk
  | request i ip siaddr =>
    obtain ⟨⟨reply, server'⟩, hreq, hs'⟩ := Option.bind_eq_some_iff.mp hstep
    obtain rfl := Option.some.inj hs'
    have hoctet : server'.nextOfferOctet = s.server.nextOfferOctet := by
      rcases clientRequest_cases hreq with ⟨rfl, -⟩ | ⟨-, -, -, -, rfl⟩
      · rfl
      · rfl
    obtain ⟨places, next, hadv, hoffers, hnext, hlast⟩ := h
    refine ⟨places, next, hadv, ?_, hoctet.trans hnext, hlast⟩
    rw [offers_replied]
    exact hoffers

/-! ### Runs -/

/-- **Discovery**: for every content of the variables `discover` returns after seven rounds at most,
with an address of the subnet that does not end in 0, is not the server's and is not in the table,
and leaves the counter behind it; and in every run, of requests with any arguments between the calls
of `discover`, at most 36 offers in a row are distinct. -/
theorem discover_fresh {start : Server} {ts : List (Transition System Event)}
    (hrun : machine.Run { server := start, trace := [] } ts s) :
    (∀ server : Server, ∃ offer server', offerLoop server 7 = some (offer, server') ∧
      discover server = some (offer, myIp, server') ∧
      offer >>> 8 = myIp >>> 8 ∧ offer &&& 0xff ≠ 0 ∧ offer ≠ myIp ∧
      (∀ i, offer ≠ server.routingTable.get i) ∧
      server'.nextOfferOctet = offer.toUInt8 + 1) ∧
    ∀ window, window <:+: offers s.trace → window.length ≤ 36 → window.Nodup := by
  constructor
  · intro server
    obtain ⟨k, -, hloop, hdiscover, hsuitable, -⟩ := discover_spec server
    obtain ⟨hzero, hmy, htable⟩ := unsuitable_eq_false_iff.mp hsuitable
    refine ⟨_, _, hloop, hdiscover, offerOf_shiftRight _, hzero, hmy, htable, ?_⟩
    rw [toUInt8_offerOf]
  · intro window hwindow hlen
    obtain ⟨places, next, hadv, hoffers, -⟩ :=
      hrun.invariant (placed_start start) fun _ _ _ h _ hstep => h.of_step hstep
    rw [hoffers, List.infix_map_iff] at hwindow
    obtain ⟨part, hpart, rfl⟩ := hwindow
    rw [List.length_map] at hlen
    exact (hadv.window hpart).nodup_map (n := 256) (fun _ _ => mod_eq_of_offerAt_eq) (by omega)

/-- A client is given the address that would be offered next, and the counter wraps around. -/
theorem discover_fresh_wrapped : ∃ ts s,
    machine.Run { server := { Server.init with nextOfferOctet := 254 }, trace := [] } ts s ∧
    events ts = [.discover 0, .request 1 0xc0a801ff myIp, .discover 2, .discover 0] ∧
    offers s.trace = [0xc0a801fe, 0xc0a80102, 0xc0a80103] ∧ (offers s.trace).Nodup := by
  obtain ⟨ts, s, hrun, hevents, hp⟩ := exists_run_of_exec machine
    { server := { Server.init with nextOfferOctet := 254 }, trace := [] }
    [.discover 0, .request 1 0xc0a801ff myIp, .discover 2, .discover 0]
    (fun r => offers r.2.trace = [0xc0a801fe, 0xc0a80102, 0xc0a80103]) (by decide +kernel)
  have hoffers := of_decide_eq_true hp
  have hlen : (offers s.trace).length ≤ 36 := by
    rw [hoffers]
    decide
  exact ⟨ts, s, hrun, hevents, hoffers,
    (discover_fresh hrun).2 _ (List.infix_refl _) hlen⟩

end Camkes.Dhcp
