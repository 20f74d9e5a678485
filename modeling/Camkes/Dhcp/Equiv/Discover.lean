import Camkes.Dhcp.Server
import Mathlib.Data.List.Nodup

/-!
# `discover` returns

Seven offers in a row are distinct, and an offer is rejected only if it is one of six addresses: the
one that ends in 0, the server's own, and the four in the table.  So the loop of `discover` ends
after seven rounds at most (`offerLoop_isSome`).
-/

namespace Camkes.Dhcp

variable {s : Server}

/-! ### Offers -/

theorem toUInt8_offerOf (octet : UInt8) : (offerOf octet).toUInt8 = octet := by
  unfold offerOf
  rw [UInt32.toUInt8_or, UInt8.toUInt8_toUInt32]
  exact UInt8.zero_or

theorem offerOf_injective : Function.Injective offerOf :=
  Function.LeftInverse.injective toUInt8_offerOf

theorem toNat_offerOf (octet : UInt8) : (offerOf octet).toNat = 0xc0a80100 + octet.toNat := by
  have hor : 0xc0a80100 ||| octet.toNat = 0xc0a80100 + octet.toNat := by
    have hadd := Nat.two_pow_add_eq_or_of_lt (i := 8) octet.toNat_lt 0xc0a801
    simpa using hadd.symm
  rw [offerOf, UInt32.toNat_or, UInt8.toNat_toUInt32]
  exact hor

/-- What is offered is in the subnet of the server. -/
theorem offerOf_shiftRight (octet : UInt8) : offerOf octet >>> 8 = myIp >>> 8 := by
  have hlt := octet.toNat_lt
  have hoctet : (0xc0a80100 + octet.toNat) / 256 = 0xc0a801 := by omega
  have hmy : (myIp >>> 8).toNat = 0xc0a801 := by decide
  apply UInt32.toNat_inj.mp
  rw [hmy, UInt32.toNat_shiftRight, toNat_offerOf]
  simpa [Nat.shiftRight_eq_div_pow] using hoctet

theorem eq_zero_of_offerOf_and {octet : UInt8} (h : offerOf octet &&& 0xff = 0) : octet = 0 := by
  have h8 := congrArg UInt32.toUInt8 h
  rw [UInt32.toUInt8_and, toUInt8_offerOf] at h8
  have hand : octet &&& -1 = octet := UInt8.and_neg_one
  exact hand.symm.trans h8

/-- The addresses that can be rejected. -/
def rejected (routingTable : Vector UInt32 4) : List UInt32 :=
  offerOf 0 :: myIp :: routingTable.toList

/-- An address that is not suitable is one of six. -/
theorem mem_rejected {routingTable : Vector UInt32 4} {octet : UInt8}
    (h : unsuitable routingTable (offerOf octet) = true) :
    offerOf octet ∈ rejected routingTable := by
  unfold unsuitable at h
  simp only [Bool.or_eq_true, decide_eq_true_eq] at h
  have hget : ∀ i : Fin 4, routingTable.get i ∈ routingTable.toList := fun i =>
    Vector.mem_toList_iff.mpr (Vector.getElem_mem i.isLt)
  rw [rejected, List.mem_cons, List.mem_cons]
  rcases h with ((((h | h) | h) | h) | h) | h
  · exact Or.inl (congrArg offerOf (eq_zero_of_offerOf_and h))
  · exact Or.inr (Or.inl h)
  · exact Or.inr (Or.inr (h ▸ hget 0))
  · exact Or.inr (Or.inr (h ▸ hget 1))
  · exact Or.inr (Or.inr (h ▸ hget 2))
  · exact Or.inr (Or.inr (h ▸ hget 3))

theorem forall_ne_get_iff {routingTable : Vector UInt32 4} {ip : UInt32} :
    (∀ i, ip ≠ routingTable.get i) ↔ ip ≠ routingTable.get 0 ∧ ip ≠ routingTable.get 1 ∧
      ip ≠ routingTable.get 2 ∧ ip ≠ routingTable.get 3 := by
  simp [Fin.forall_fin_succ]

/-- Which addresses are suitable. -/
theorem unsuitable_eq_false_iff {routingTable : Vector UInt32 4} {offer : UInt32} :
    unsuitable routingTable offer = false ↔
      offer &&& 0xff ≠ 0 ∧ offer ≠ myIp ∧ ∀ i, offer ≠ routingTable.get i := by
  rw [forall_ne_get_iff, unsuitable]
  simp only [Bool.or_eq_false_iff, decide_eq_false_iff_not, and_assoc, ne_eq]

/-! ### The loop -/

/-- The `k`-th octet after the next one. -/
def octetAt (s : Server) (k : ℕ) : UInt8 := s.nextOfferOctet + UInt8.ofNat k

theorem octetAt_succ (s : Server) (k : ℕ) :
    octetAt s (k + 1) = octetAt { s with nextOfferOctet := s.nextOfferOctet + 1 } k := by
  unfold octetAt
  rw [UInt8.add_assoc, UInt8.add_comm 1, ← UInt8.ofNat_one, ← UInt8.ofNat_add]

/-- A loop that has not ended has rejected all its offers. -/
theorem unsuitable_of_offerLoop_eq_none {rounds : ℕ} (h : offerLoop s rounds = none) :
    ∀ k < rounds, unsuitable s.routingTable (offerOf (octetAt s k)) = true := by
  induction rounds generalizing s with
  | zero => exact fun k hk => absurd hk (Nat.not_lt_zero k)
  | succ rounds ih =>
    rw [offerLoop] at h
    split_ifs at h with hfirst
    intro k hk
    cases k with
    | zero =>
      have hzero : octetAt s 0 = s.nextOfferOctet := UInt8.add_zero _
      rw [hzero]
      exact hfirst
    | succ k =>
      rw [octetAt_succ]
      exact ih h k (by omega)

theorem octetAt_inj {j k : ℕ} (hj : j < 256) (hk : k < 256) (h : octetAt s j = octetAt s k) :
    j = k := by
  have hnat : UInt8.ofNat j = UInt8.ofNat k := UInt8.add_right_inj _ |>.mp h
  have hmod := congrArg UInt8.toNat hnat
  rw [UInt8.toNat_ofNat', UInt8.toNat_ofNat'] at hmod
  omega

/-- **The loop ends** after seven rounds at most. -/
theorem offerLoop_isSome (s : Server) : (offerLoop s 7).isSome := by
  by_contra hnone
  rw [Option.not_isSome_iff_eq_none] at hnone
  have hall := unsuitable_of_offerLoop_eq_none hnone
  let offers := (List.range 7).map fun k => offerOf (octetAt s k)
  have hnodup : offers.Nodup := by
    apply List.Nodup.map_on _ List.nodup_range
    intro j hj k hk heq
    rw [List.mem_range] at hj hk
    exact octetAt_inj (by omega) (by omega) (offerOf_injective heq)
  have hsub : offers ⊆ rejected s.routingTable := by
    intro offer hoffer
    rcases List.mem_map.mp hoffer with ⟨k, hk, rfl⟩
    exact mem_rejected (hall k (List.mem_range.mp hk))
  have hlen := hnodup.length_le_of_subset hsub
  have hseven : offers.length = 7 := by rw [List.length_map, List.length_range]
  have hsix : (rejected s.routingTable).length = 6 := by
    rw [rejected, List.length_cons, List.length_cons, Vector.length_toList]
  omega

/-- More fuel than enough changes nothing. -/
theorem offerLoop_mono {r : UInt32 × Server} {m n : ℕ} (hle : m ≤ n)
    (h : offerLoop s m = some r) : offerLoop s n = some r := by
  induction m generalizing s n with
  | zero => cases h
  | succ m ih =>
    cases n with
    | zero => omega
    | succ n =>
      rw [offerLoop] at h ⊢
      split_ifs at h ⊢
      · exact ih (by omega) h
      · exact h

/-- **What the loop does**: it rejects some offers, and ends with the first one that is suitable. -/
theorem offerLoop_spec {offer : UInt32} {s' : Server} {rounds : ℕ}
    (h : offerLoop s rounds = some (offer, s')) :
    ∃ k < rounds, offer = offerOf (octetAt s k) ∧ unsuitable s.routingTable offer = false ∧
      (∀ j < k, unsuitable s.routingTable (offerOf (octetAt s j)) = true) ∧
      s' = { s with nextOfferOctet := octetAt s k + 1 } := by
  have hzero : octetAt s 0 = s.nextOfferOctet := UInt8.add_zero _
  induction rounds generalizing s with
  | zero => cases h
  | succ rounds ih =>
    rw [offerLoop] at h
    split_ifs at h with hfirst
    · obtain ⟨k, hk, hoffer, hsuitable, hbefore, hs'⟩ := ih h (UInt8.add_zero _)
      rw [← octetAt_succ] at hoffer hs'
      refine ⟨k + 1, by omega, hoffer, hsuitable, ?_, hs'⟩
      intro j hj
      cases j with
      | zero =>
        rw [hzero]
        exact hfirst
      | succ j =>
        rw [octetAt_succ]
        exact hbefore j (by omega)
    · obtain ⟨hoffer, hs'⟩ := Prod.mk.inj (Option.some.inj h)
      rw [hoffer, Bool.not_eq_true] at hfirst
      refine ⟨0, by omega, ?_, hfirst, nofun, ?_⟩
      · rw [hzero]
        exact hoffer.symm
      · rw [hzero]
        exact hs'.symm

/-- `discover` returns after seven rounds at most, and leaves the table alone. -/
theorem discover_spec (s : Server) :
    ∃ k < 7, let s' : Server := { s with nextOfferOctet := octetAt s k + 1 }
      offerLoop s 7 = some (offerOf (octetAt s k), s') ∧
      discover s = some (offerOf (octetAt s k), myIp, s') ∧
      unsuitable s.routingTable (offerOf (octetAt s k)) = false ∧
      ∀ j < k, unsuitable s.routingTable (offerOf (octetAt s j)) = true := by
  obtain ⟨⟨offer, s'⟩, hseven⟩ := Option.isSome_iff_exists.mp (offerLoop_isSome s)
  obtain ⟨k, hk, rfl, hsuitable, hbefore, rfl⟩ := offerLoop_spec hseven
  refine ⟨k, hk, hseven, ?_, hsuitable, hbefore⟩
  rw [discover, offerLoop_mono (by omega) hseven]
  rfl

/-- The state after `discover` has rejected `k` addresses. -/
def System.offer (s : System) (i : ClientId) (k : ℕ) : System where
  server := { s.server with nextOfferOctet := octetAt s.server k + 1 }
  trace := s.trace ++ [.offered i (offerOf (octetAt s.server k)) myIp]

/-- A step of `discover` offers the first suitable address, and there is one among the next seven.
-/
theorem step_discover (s : System) (i : ClientId) :
    ∃ k < 7, s.step (.discover i) = some (s.offer i k) ∧
      unsuitable s.server.routingTable (offerOf (octetAt s.server k)) = false ∧
      ∀ j < k, unsuitable s.server.routingTable (offerOf (octetAt s.server j)) = true := by
  obtain ⟨k, hk, -, hdiscover, hsuitable, hbefore⟩ := discover_spec s.server
  refine ⟨k, hk, ?_, hsuitable, hbefore⟩
  simp only [System.step, hdiscover, Option.bind_eq_bind, Option.bind_some]
  rfl

end Camkes.Dhcp
