import Camkes.Data.Leases
import Camkes.Dhcp.Equiv.Discover

/-!
# The routing table is an exclusive assignment of addresses

The non-zero entries of `routing_table` are leases of addresses other than the server's
(`Represents`), and each entry is the last address that its client was given.  A request leaves
everything as it is or grants a free address (`clientRequest_cases`).
-/

namespace Camkes.Dhcp

open CArray Machine

variable {s s' : Server} {i : ClientId} {ip siaddr reply : UInt32} {trace : List Obs}

/-! ### Requests -/

/-- The four functions are `request` for their own client. -/
theorem clientRequest_eq (i : ClientId) :
    clientRequest i s ip siaddr =
      if siaddr ≠ myIp then some (0, s)
      else if s.routingTable.get i = ip then some (ip, s)
      else if ip ≠ myIp ∧ ip ≠ 0 ∧ ∀ j, ip ≠ s.routingTable.get j then
        some (ip, { s with routingTable := put s.routingTable i ip })
      else some (0, s) := by
  simp only [forall_ne_get_iff]
  match i with
  | 0 => rfl
  | 1 => rfl
  | 2 => rfl
  | 3 => rfl

/-- **What a request does**: nothing, with the reply 0 or the client's own address; or it gives the
client a free address. -/
theorem clientRequest_cases (h : clientRequest i s ip siaddr = some (reply, s')) :
    s' = s ∧ (reply = 0 ∨ reply = s.routingTable.get i) ∨
    reply = ip ∧ ip ≠ myIp ∧ ip ≠ 0 ∧ (∀ j, ip ≠ s.routingTable.get j) ∧
      s' = { s with routingTable := put s.routingTable i ip } := by
  rw [clientRequest_eq] at h
  split_ifs at h with hsiaddr hown hfree
  · obtain ⟨rfl, rfl⟩ := Prod.mk.inj (Option.some.inj h)
    exact Or.inl ⟨rfl, Or.inl rfl⟩
  · obtain ⟨rfl, rfl⟩ := Prod.mk.inj (Option.some.inj h)
    exact Or.inl ⟨rfl, Or.inr hown.symm⟩
  · obtain ⟨rfl, rfl⟩ := Prod.mk.inj (Option.some.inj h)
    obtain ⟨hmy, hzero, hnot⟩ := hfree
    exact Or.inr ⟨rfl, hmy, hzero, hnot, rfl⟩
  · obtain ⟨rfl, rfl⟩ := Prod.mk.inj (Option.some.inj h)
    exact Or.inl ⟨rfl, Or.inl rfl⟩

theorem clientRequest_isSome (s : Server) (i : ClientId) (ip siaddr : UInt32) :
    (clientRequest i s ip siaddr).isSome := by
  rw [clientRequest_eq]
  split_ifs <;> rfl

/-- A DHCPNAK changes nothing. -/
theorem eq_of_reply_eq_zero (h : clientRequest i s ip siaddr = some (0, s')) : s' = s := by
  rcases clientRequest_cases h with ⟨hs, -⟩ | ⟨hip, -, hzero, -⟩
  · exact hs
  · exact absurd hip.symm hzero

/-! ### Leases -/

/-- What an entry of the table means. -/
def leaseOf (entry : UInt32) : Option UInt32 := if entry = 0 then none else some entry

theorem leaseOf_eq_some {entry ip : UInt32} : leaseOf entry = some ip ↔ entry = ip ∧ ip ≠ 0 := by
  unfold leaseOf
  split_ifs with hzero
  · simp only [false_iff]
    rintro ⟨rfl, hne⟩
    exact hne hzero
  · rw [Option.some.injEq]
    constructor
    · rintro rfl
      exact ⟨rfl, hzero⟩
    · exact fun h => h.1

/-- The table as an assignment of addresses to clients. -/
def Represents (routingTable : Vector UInt32 4) (l : Leases ClientId (· ≠ myIp)) : Prop :=
  ∀ i, l.held i = leaseOf (routingTable.get i)

theorem represents_init : Represents Server.init.routingTable .none := by
  intro i
  rw [Server.init, get_replicate]
  rfl

/-- Giving a client a free address is a grant. -/
theorem Represents.put {routingTable : Vector UInt32 4} {l : Leases ClientId (· ≠ myIp)}
    (h : Represents routingTable l) (i : ClientId) (hmy : ip ≠ myIp) (hzero : ip ≠ 0)
    (hnot : ∀ j, ip ≠ routingTable.get j) :
    ∃ l' : Leases ClientId (· ≠ myIp), Represents (CArray.put routingTable i ip) l' := by
  have hfree : ∀ j, l.held j ≠ some ip := by
    intro j hj
    rw [h j, leaseOf_eq_some] at hj
    exact hnot j hj.1.symm
  refine ⟨l.grant i ip hmy hfree, ?_⟩
  intro j
  rw [Leases.held_grant, get_put]
  by_cases hj : j = i
  · rw [if_pos hj, if_pos hj.symm]
    exact (leaseOf_eq_some.mpr ⟨rfl, hzero⟩).symm
  · rw [if_neg hj, if_neg (Ne.symm hj)]
    exact h j

/-! ### The invariant -/

/-- The table is an assignment of addresses, the one that the clients know of. -/
structure Inv (s : System) : Prop where
  leases : ∃ l : Leases ClientId (· ≠ myIp), Represents s.server.routingTable l
  lastReply_eq : ∀ i, lastReply i s.trace = s.server.routingTable.get i

theorem inv_init : Inv .init where
  leases := ⟨.none, represents_init⟩
  lastReply_eq i := (get_replicate 0 i).symm

theorem lastReply_offered (i j : ClientId) (offer siaddr : UInt32) :
    lastReply i (trace ++ [.offered j offer siaddr]) = lastReply i trace :=
  List.foldl_append

theorem lastReply_replied (i j : ClientId) (ip : UInt32) :
    lastReply i (trace ++ [.replied j ip]) =
      if j = i ∧ ip ≠ 0 then ip else lastReply i trace :=
  List.foldl_append

/-- A request keeps the leases in step with the replies. -/
theorem Inv.request {s : System} (h : Inv s) (hreq : clientRequest i s.server ip siaddr =
    some (reply, s')) : Inv { server := s', trace := s.trace ++ [.replied i reply] } := by
  rcases clientRequest_cases hreq with ⟨rfl, hreply⟩ | ⟨rfl, hmy, hzero, hnot, rfl⟩
  · refine ⟨h.leases, ?_⟩
    intro j
    rw [lastReply_replied, h.lastReply_eq]
    split_ifs with hj
    · obtain ⟨rfl, hne⟩ := hj
      exact hreply.resolve_left hne
    · rfl
  · obtain ⟨l, hl⟩ := h.leases
    refine ⟨hl.put i hmy hzero hnot, ?_⟩
    intro j
    rw [lastReply_replied, h.lastReply_eq, get_put]
    simp only [hzero, ne_eq, not_false_eq_true, and_true]

/-- Every call keeps the leases in step with the replies. -/
theorem preserves_inv : machine.Preserves Inv := by
  intro s e h _
  cases e with
  | discover i =>
    obtain ⟨k, -, hstep, -⟩ := step_discover s i
    refine ⟨s.offer i k, hstep, h.leases, ?_⟩
    intro j
    rw [System.offer, lastReply_offered]
    exact h.lastReply_eq j
  | request i ip siaddr =>
    obtain ⟨⟨reply, s'⟩, hreq⟩ :=
      Option.isSome_iff_exists.mp (clientRequest_isSome s.server i ip siaddr)
    refine ⟨{ server := s', trace := s.trace ++ [.replied i reply] }, ?_, h.request hreq⟩
    show s.step (.request i ip siaddr) = _
    simp only [System.step, hreq, Option.bind_eq_bind, Option.bind_some]

/-! ### Runs -/

/-- **Lease safety**: after every run, the non-zero entries of the table are distinct and none is
the server's own address, each client's entry is the last non-zero reply that it received, a request
answered with 0 changes nothing, and every further call returns. -/
theorem leases_safe {ts : List (Transition System Event)} {s : System}
    (hrun : machine.Run .init ts s) :
    (∀ i j, i ≠ j → s.server.routingTable.get i ≠ 0 →
      s.server.routingTable.get i ≠ s.server.routingTable.get j) ∧
    (∀ i, s.server.routingTable.get i ≠ myIp) ∧
    (∀ i, lastReply i s.trace = s.server.routingTable.get i) ∧
    (∀ i ip siaddr s', clientRequest i s.server ip siaddr = some (0, s') → s' = s.server) ∧
    ∀ e, (machine.step s e).isSome := by
  have h := preserves_inv.run inv_init hrun
  obtain ⟨l, hl⟩ := h.leases
  refine ⟨?_, ?_, h.lastReply_eq, fun _ _ _ _ => eq_of_reply_eq_zero, ?_⟩
  · intro i j hne hzero heq
    have hi : l.held i = some (s.server.routingTable.get i) := by
      rw [hl i, leaseOf_eq_some]
      exact ⟨rfl, hzero⟩
    have hj : l.held j = some (s.server.routingTable.get i) := by
      rw [hl j, ← heq, leaseOf_eq_some]
      exact ⟨rfl, hzero⟩
    exact hne (l.held_inj i j _ hi hj)
  · intro i hmy
    have hi : l.held i = some myIp := by
      rw [hl i, hmy, leaseOf_eq_some]
      exact ⟨rfl, by decide⟩
    exact l.held_ok i myIp hi rfl
  · exact fun e => preserves_inv.safe inv_init ts s e hrun trivial

/-- A client takes the address offered to another one, then changes to a new one; the first address
is free again. -/
theorem leases_safe_changed : ∃ ts s, machine.Run .init ts s ∧
    events ts = [.discover 0, .request 1 0xc0a80102 myIp, .request 0 0xc0a80102 myIp,
      .request 1 0xc0a80109 myIp, .request 0 0xc0a80102 myIp, .request 2 5 7] ∧
    s.trace = [.offered 0 0xc0a80102 myIp, .replied 1 0xc0a80102, .replied 0 0,
      .replied 1 0xc0a80109, .replied 0 0xc0a80102, .replied 2 0] ∧
    ∀ i, lastReply i s.trace = s.server.routingTable.get i := by
  obtain ⟨ts, s, hrun, hevents, hp⟩ := exists_run_of_exec machine .init
    [.discover 0, .request 1 0xc0a80102 myIp, .request 0 0xc0a80102 myIp,
      .request 1 0xc0a80109 myIp, .request 0 0xc0a80102 myIp, .request 2 5 7]
    (fun r => r.2.trace = [.offered 0 0xc0a80102 myIp, .replied 1 0xc0a80102, .replied 0 0,
      .replied 1 0xc0a80109, .replied 0 0xc0a80102, .replied 2 0]) (by decide +kernel)
  exact ⟨ts, s, hrun, hevents, of_decide_eq_true hp, (leases_safe hrun).2.2.1⟩

end Camkes.Dhcp
