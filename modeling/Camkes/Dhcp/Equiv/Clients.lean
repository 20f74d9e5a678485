import Camkes.Dhcp.Client
import Camkes.Dhcp.Equiv.Offers
import Camkes.Machine.Progress
import Mathlib.Data.Fintype.Card

/-!
# Every client gets an address

The `k`-th client that asks for an offer is offered the address 192.168.1.`(k + 2)`, and gets it:
the four offers are different, so no request is rejected, and no client goes round its loop twice
(`clients_spec`).
-/

namespace Camkes.Dhcp

open CArray Machine

variable {s s' : Network} {i j : ClientId} {ip serverIp : UInt32}
  {ts : List (Transition Network ClientId)}

/-- The clients that have asked, in order. -/
def askers (trace : List Obs) : List ClientId :=
  trace.filterMap fun
    | .offered i _ _ => some i
    | .replied _ _ => none

/-- What the `k`-th client gets. -/
def leaseAt (k : ℕ) : UInt32 := offerAt (k + 2)

theorem askers_offered (trace : List Obs) (i : ClientId) (offer siaddr : UInt32) :
    askers (trace ++ [.offered i offer siaddr]) = askers trace ++ [i] :=
  List.filterMap_append

theorem askers_replied (trace : List Obs) (i : ClientId) (ip : UInt32) :
    askers (trace ++ [.replied i ip]) = askers trace :=
  List.filterMap_append.trans (List.append_nil _)

theorem leaseAt_injOn {k l : ℕ} (hk : k < 4) (hl : l < 4) (h : leaseAt k = leaseAt l) : k = l := by
  have hmod := mod_eq_of_offerAt_eq h
  omega

theorem leaseAt_suitable : ∀ k < 4, leaseAt k &&& 0xff ≠ 0 ∧ leaseAt k ≠ myIp ∧ leaseAt k ≠ 0 := by
  decide

/-! ### The invariant -/

/-- The entry of a client in the table, and what it has been offered. -/
def ClientAt.Agrees (lease entry : UInt32) (asked : Bool) : ClientAt → Prop
  | discover => asked = false ∧ entry = 0
  | request potentialIp serverIp =>
    asked = true ∧ entry = 0 ∧ potentialIp = lease ∧ serverIp = myIp
  | acquired ip => asked = true ∧ entry = lease ∧ ip = lease

/-- The server's table and counter, and what each client has got, follow from the order in which the
clients have asked. -/
structure Network.Inv (s : Network) : Prop where
  nodup : (askers s.trace).Nodup
  agrees : ∀ i, (s.clients i).Agrees (leaseAt ((askers s.trace).idxOf i))
    (s.server.routingTable.get i) (i ∈ askers s.trace)
  octet : s.server.nextOfferOctet =
    if (askers s.trace).length = 0 then 0 else UInt8.ofNat ((askers s.trace).length + 2)
  offers_eq : offers s.trace = (List.range (askers s.trace).length).map leaseAt
  replied : ∀ i ip, Obs.replied i ip ∈ s.trace → s.clients i = .acquired ip

namespace Network.Inv

variable (h : s.Inv)
include h

theorem length_lt (hi : i ∉ askers s.trace) : (askers s.trace).length < 4 := by
  have hle := (List.nodup_cons.mpr ⟨hi, h.nodup⟩).length_le_card
  simp only [List.length_cons, Fintype.card_fin] at hle
  omega

/-- A client's entry of the table is empty or its lease. -/
theorem get_eq (i : ClientId) : s.server.routingTable.get i = 0 ∨
    i ∈ askers s.trace ∧ s.server.routingTable.get i = leaseAt ((askers s.trace).idxOf i) := by
  have hi := h.agrees i
  cases hpc : s.clients i with
  | discover =>
    rw [hpc] at hi
    exact .inl hi.2
  | request _ _ =>
    rw [hpc] at hi
    exact .inl hi.2.1
  | acquired _ =>
    rw [hpc] at hi
    exact .inr ⟨of_decide_eq_true hi.1, hi.2.1⟩

theorem idxOf_lt (hi : i ∈ askers s.trace) : (askers s.trace).idxOf i < 4 := by
  have hle := h.nodup.length_le_card
  have hlt := List.idxOf_lt_length_of_mem hi
  simp only [Fintype.card_fin] at hle
  omega

/-- A lease is free until its client gets it. -/
theorem ne_get {k : ℕ} (hk : k < 4)
    (hfree : ∀ j ∈ askers s.trace, (askers s.trace).idxOf j = k → s.server.routingTable.get j = 0)
    (j : ClientId) : leaseAt k ≠ s.server.routingTable.get j := by
  intro heq
  obtain ⟨-, -, hzero⟩ := leaseAt_suitable k hk
  rcases h.get_eq j with hj | ⟨hmem, hj⟩
  · exact hzero (heq.trans hj)
  · have hidx := leaseAt_injOn hk (h.idxOf_lt hmem) (heq.trans hj)
    exact hzero (heq.trans (hfree j hmem hidx.symm))

end Network.Inv

/-! ### Offers -/

/-- When the next address is suitable, `discover` offers it in the first round. -/
theorem discover_of_suitable {s : Server}
    (h : unsuitable s.routingTable (offerOf s.nextOfferOctet) = false) :
    discover s = some (offerOf s.nextOfferOctet, myIp,
      { s with nextOfferOctet := s.nextOfferOctet + 1 }) := by
  have hloop : offerLoop s 256 = some (offerOf s.nextOfferOctet,
      { s with nextOfferOctet := s.nextOfferOctet + 1 }) := by
    rw [offerLoop]
    simp [h]
  rw [discover, hloop]
  rfl

theorem discover_init : discover .init =
    some (leaseAt 0, myIp, { Server.init with nextOfferOctet := UInt8.ofNat 3 }) := by
  decide

/-- The offer to the next client. -/
theorem Network.Inv.discover (h : s.Inv) (hi : i ∉ askers s.trace) :
    Dhcp.discover s.server = some (leaseAt (askers s.trace).length, myIp,
      { s.server with nextOfferOctet := UInt8.ofNat ((askers s.trace).length + 3) }) := by
  have hoctet := h.octet
  by_cases hzero : (askers s.trace).length = 0
  · have hserver : s.server = .init := by
      have htable : s.server.routingTable = Vector.replicate 4 0 := by
        refine Vector.ext fun j hj => ?_
        rw [Vector.getElem_replicate]
        rcases h.get_eq ⟨j, hj⟩ with hget | ⟨hmem, -⟩
        · exact hget
        · rw [List.length_eq_zero_iff.mp hzero] at hmem
          cases hmem
      rw [if_pos hzero] at hoctet
      cases hs : s.server with
      | mk octet table =>
        rw [hs] at hoctet htable
        rw [show octet = 0 from hoctet, show table = Vector.replicate 4 0 from htable]
        rfl
    rw [hserver, hzero]
    exact discover_init
  · have hlt := h.length_lt hi
    rw [if_neg hzero] at hoctet
    obtain ⟨hnet, hmy, -⟩ := leaseAt_suitable _ hlt
    have hfree := h.ne_get hlt fun j hj heq =>
      absurd heq (Nat.ne_of_lt (List.idxOf_lt_length_of_mem hj))
    have hoffer : offerOf s.server.nextOfferOctet = leaseAt (askers s.trace).length := by
      rw [hoctet]
      rfl
    have hsuitable :
        unsuitable s.server.routingTable (offerOf s.server.nextOfferOctet) = false := by
      rw [hoffer, unsuitable_eq_false_iff]
      exact ⟨hnet, hmy, hfree⟩
    rw [discover_of_suitable hsuitable, hoffer, hoctet]
    congr 1
    rw [UInt8.ofNat_add, UInt8.ofNat_add, UInt8.add_assoc]
    rfl

/-! ### Steps -/

/-- Client `i` is offered the `k`-th lease. -/
def Network.offer (s : Network) (i : ClientId) (k : ℕ) : Network where
  server := { s.server with nextOfferOctet := UInt8.ofNat (k + 3) }
  clients := Function.update s.clients i (.request (leaseAt k) myIp)
  trace := s.trace ++ [.offered i (leaseAt k) myIp]

/-- Client `i` gets its lease. -/
def Network.grant (s : Network) (i : ClientId) (lease : UInt32) : Network where
  server := { s.server with routingTable := put s.server.routingTable i lease }
  clients := Function.update s.clients i (.acquired lease)
  trace := s.trace ++ [.replied i lease]

/-- What a call of client `i` does. -/
inductive Network.Call (s : Network) (i : ClientId) : Network → Prop
  | offer (hpc : s.clients i = .discover) (hnew : i ∉ askers s.trace) :
      Call s i (s.offer i (askers s.trace).length)
  | grant {lease : UInt32} (hpc : s.clients i = .request lease myIp) (hold : i ∈ askers s.trace)
      (hlease : lease = leaseAt ((askers s.trace).idxOf i)) : Call s i (s.grant i lease)

/-- A client that can go on makes one of the two calls, and the server answers as it should. -/
theorem Network.Inv.exists_call (h : s.Inv) (hok : network.ok s i) :
    ∃ s', network.step s i = some s' ∧ Call s i s' := by
  have hagree := h.agrees i
  cases hpc : s.clients i with
  | discover =>
    rw [hpc] at hagree
    have hnew : i ∉ askers s.trace := of_decide_eq_false hagree.1
    refine ⟨_, ?_, .offer hpc hnew⟩
    show s.step i = _
    rw [Network.step]
    simp only [hpc, h.discover hnew]
    rfl
  | request potentialIp serverIp =>
    rw [hpc] at hagree
    obtain ⟨hasked, hentry, rfl, rfl⟩ := hagree
    have hold : i ∈ askers s.trace := of_decide_eq_true hasked
    have hlt := h.idxOf_lt hold
    obtain ⟨-, hmy, hzero⟩ := leaseAt_suitable _ hlt
    have hfree := h.ne_get hlt fun j hj heq => by
      rw [(List.idxOf_inj hj).mp heq, hentry]
    refine ⟨_, ?_, .grant hpc hold rfl⟩
    show s.step i = _
    rw [Network.step]
    simp only [hpc, clientRequest_eq]
    rw [if_neg (by simp), if_neg (hfree i).symm, if_pos ⟨hmy, hzero, hfree⟩]
    simp only [Option.bind_eq_bind, Option.bind_some, if_neg hzero]
    rfl
  | acquired ip =>
    have hrun : (s.clients i).running = true := hok
    rw [hpc] at hrun
    cases hrun

/-- The other clients keep what they have got. -/
theorem Network.Inv.agrees_append (h : s.Inv) (hj : j ≠ i) :
    (s.clients j).Agrees (leaseAt ((askers s.trace ++ [i]).idxOf j))
      (s.server.routingTable.get j) (j ∈ askers s.trace ++ [i]) := by
  have hagree := h.agrees j
  by_cases hmem : j ∈ askers s.trace
  · rw [List.idxOf_append, if_pos hmem]
    simpa [hmem] using hagree
  · have hfalse : decide (j ∈ askers s.trace) = false := decide_eq_false hmem
    rw [hfalse] at hagree
    cases hpc : s.clients j with
    | discover =>
      rw [hpc] at hagree
      exact ⟨by simp [hmem, hj], hagree.2⟩
    | request _ _ =>
      rw [hpc] at hagree
      cases hagree.1
    | acquired _ =>
      rw [hpc] at hagree
      cases hagree.1

/-- An offer to a client that has not asked keeps the invariant. -/
theorem Network.Inv.offer (h : s.Inv) (hpc : s.clients i = .discover) (hnew : i ∉ askers s.trace) :
    (s.offer i (askers s.trace).length).Inv := by
  have haskers : askers (s.offer i (askers s.trace).length).trace = askers s.trace ++ [i] :=
    askers_offered ..
  refine ⟨?_, fun j => ?_, ?_, ?_, fun j ip hmem => ?_⟩
  · rw [haskers, List.nodup_append]
    refine ⟨h.nodup, List.nodup_singleton i, ?_⟩
    rintro a ha b hb rfl
    rw [List.mem_singleton.mp hb] at ha
    exact hnew ha
  · rw [haskers]
    show (Function.update s.clients i _ j).Agrees _ (s.server.routingTable.get j) _
    by_cases hj : j = i
    · subst hj
      have hentry := h.agrees j
      rw [hpc] at hentry
      rw [Function.update_self, List.idxOf_append, if_neg hnew]
      exact ⟨by simp, hentry.2, by simp, rfl⟩
    · rw [Function.update_of_ne hj]
      exact h.agrees_append hj
  · rw [haskers, List.length_append, if_neg (by simp)]
    rfl
  · rw [haskers, List.length_append, List.length_singleton, List.range_succ, List.map_append,
      ← h.offers_eq]
    exact offers_offered ..
  · have hold : Obs.replied j ip ∈ s.trace := by simpa [Network.offer] using hmem
    have hj : j ≠ i := by
      rintro rfl
      have hacq := h.replied j ip hold
      rw [hpc] at hacq
      cases hacq
    show Function.update s.clients i _ j = _
    rw [Function.update_of_ne hj]
    exact h.replied j ip hold

/-- Granting a client what it has been offered keeps the invariant. -/
theorem Network.Inv.grant {lease : UInt32} (h : s.Inv) (hpc : s.clients i = .request lease myIp)
    (hold : i ∈ askers s.trace) (hlease : lease = leaseAt ((askers s.trace).idxOf i)) :
    (s.grant i lease).Inv := by
  have haskers : askers (s.grant i lease).trace = askers s.trace := askers_replied ..
  refine ⟨?_, fun j => ?_, ?_, ?_, fun j ip hmem => ?_⟩
  · rw [haskers]
    exact h.nodup
  · rw [haskers]
    show (Function.update s.clients i _ j).Agrees _ ((put s.server.routingTable i lease).get j) _
    rw [get_put]
    by_cases hj : j = i
    · subst hj
      rw [Function.update_self, if_pos rfl]
      exact ⟨decide_eq_true hold, hlease, hlease⟩
    · rw [Function.update_of_ne hj, if_neg (Ne.symm hj)]
      exact h.agrees j
  · rw [haskers]
    exact h.octet
  · rw [haskers, ← h.offers_eq]
    exact offers_replied ..
  · show Function.update s.clients i _ j = _
    rcases List.mem_append.mp hmem with hbefore | hnow
    · have hj : j ≠ i := by
        rintro rfl
        have hacq := h.replied j ip hbefore
        rw [hpc] at hacq
        cases hacq
      rw [Function.update_of_ne hj]
      exact h.replied j ip hbefore
    · obtain ⟨rfl, rfl⟩ := Obs.replied.inj (List.mem_singleton.mp hnow)
      exact Function.update_self ..

theorem Network.Inv.call (h : s.Inv) (hs : s.Call i s') : s'.Inv := by
  cases hs with
  | offer hpc hnew => exact h.offer hpc hnew
  | grant hpc hold hlease => exact h.grant hpc hold hlease

theorem network_inv_init : Network.init.Inv where
  nodup := List.nodup_nil
  agrees i := ⟨rfl, by revert i; decide⟩
  octet := rfl
  offers_eq := rfl
  replied _ _ h := by cases h

/-- Every step of a client keeps the invariant. -/
theorem preserves_network_inv : network.Preserves Network.Inv := by
  intro s i h hok
  obtain ⟨s', hstep, hcall⟩ := h.exists_call hok
  exact ⟨s', hstep, h.call hcall⟩

/-! ### Runs -/

/-- The calls that a client has left. -/
def ClientAt.remaining : ClientAt → ℕ
  | discover => 2
  | request _ _ => 1
  | acquired _ => 0

def Network.remaining (s : Network) : ℕ := ∑ i, (s.clients i).remaining

/-- Every call is one of the two that its client makes. -/
theorem Network.Call.remaining_eq (hs : s.Call i s') : s'.remaining + 1 = s.remaining := by
  cases hs with
  | offer hpc hnew =>
    have hsum := sum_update ClientAt.remaining s.clients i
      (.request (leaseAt (askers s.trace).length) myIp)
    rw [hpc] at hsum
    show ∑ j, (Function.update s.clients i _ j).remaining + 1 = ∑ j, (s.clients j).remaining
    exact Nat.succ.inj hsum
  | @grant lease hpc hold hlease =>
    have hsum := sum_update ClientAt.remaining s.clients i (.acquired lease)
    rw [hpc] at hsum
    exact hsum

/-- There are eight calls in all. -/
theorem length_of_network_run (hrun : network.Run .init ts s) :
    ts.length + s.remaining = 8 := by
  induction hrun with
  | nil => decide
  | @snoc ts s i s' hrun hok hstep ih =>
    have hinv := preserves_network_inv.run network_inv_init hrun
    obtain ⟨s'', hstep', hcall⟩ := hinv.exists_call hok
    rw [hstep] at hstep'
    obtain rfl := Option.some.inj hstep'
    have hrem := hcall.remaining_eq
    rw [List.length_append, List.length_singleton]
    omega

theorem toNat_leaseAt {k : ℕ} (hk : k < 4) : (leaseAt k).toNat = 0xc0a80102 + k := by
  rw [leaseAt, offerAt, toNat_offerOf, UInt8.toNat_ofNat', Nat.mod_eq_of_lt (by omega)]
  omega

/-- **Assignment**: in any order of the calls, no call fails and no request is rejected: each client
makes two calls, so after eight calls all are done.  The `k`-th client that asks gets the address
192.168.1.`(k + 2)`. -/
theorem clients_spec (hrun : network.Run .init ts s) :
    (∀ i, network.ok s i → (network.step s i).isSome) ∧ ts.length + s.remaining = 8 ∧
    (askers s.trace).Nodup ∧
    (∀ i ip, Obs.replied i ip ∈ s.trace → s.clients i = .acquired ip) ∧
    (∀ i ip, s.clients i = .acquired ip → i ∈ askers s.trace ∧
      ip.toNat = 0xc0a80102 + (askers s.trace).idxOf i) := by
  have h := preserves_network_inv.run network_inv_init hrun
  refine ⟨fun i hok => ?_, length_of_network_run hrun, h.nodup, h.replied, fun i ip hpc => ?_⟩
  · obtain ⟨s', hstep, -⟩ := h.exists_call hok
    rw [hstep]
    rfl
  · have hagree := h.agrees i
    rw [hpc] at hagree
    obtain ⟨hasked, -, rfl⟩ := hagree
    have hmem : i ∈ askers s.trace := of_decide_eq_true hasked
    exact ⟨hmem, toNat_leaseAt (h.idxOf_lt hmem)⟩

/-- The last client is the first to ask, and the last to get its address. -/
theorem clients_spec_last : ∃ ts s, network.Run .init ts s ∧
    Machine.events ts = [3, 0, 1, 2, 2, 1, 0, 3] ∧ s.remaining = 0 ∧
    ∃ ip, s.clients 3 = .acquired ip ∧ ip.toNat = 0xc0a80102 := by
  obtain ⟨ts, s, hrun, hevents, hlast⟩ := Machine.exists_run_of_exec network .init
    [3, 0, 1, 2, 2, 1, 0, 3]
    (fun r => r.2.clients 3 = .acquired (leaseAt 0) ∧ (askers r.2.trace).idxOf 3 = 0) (by decide)
  obtain ⟨hpc, hfirst⟩ := of_decide_eq_true hlast
  obtain ⟨-, hlength, -, -, hacquired⟩ := clients_spec hrun
  have hlen := congrArg List.length hevents
  rw [Machine.events, List.length_map] at hlen
  have height : ts.length = 8 := hlen
  obtain ⟨-, hip⟩ := hacquired 3 _ hpc
  rw [hfirst] at hip
  exact ⟨ts, s, hrun, hevents, by omega, _, hpc, hip⟩

end Camkes.Dhcp
