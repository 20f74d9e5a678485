import Camkes.Data.CArray

/-!
# Cyclic arrays with one slot kept free

An array `a` of `n` slots with an index `head` of the next slot to fill and an index `tail` of the
oldest slot in use is a queue: `contents a head tail` lists the slots from `tail` up to `head`,
modulo `n`.  `head = tail` means empty and `(head + 1) % n = tail` means full, so at most `n - 1`
slots are in use.

The index arithmetic is done once, on `count n head tail`, the number of slots in use
(`count_eq_zero_iff`, `succ_eq_tail_iff`, `count_succ_head`, `count_succ_tail`); storing at `head`
and advancing it appends (`contents_push`), reading at `tail` and advancing it removes the first
element (`contents_pop`).
-/

namespace Camkes.Ring

variable {α : Type*} {n : ℕ}

/-! ### Counting the slots in use -/

/-- The number of slots in use. -/
def count (n head tail : ℕ) : ℕ := (head + n - tail) % n

theorem succ_mod {i : ℕ} (hi : i < n) : (i + 1) % n = if i + 1 = n then 0 else i + 1 := by
  split_ifs with h
  · rw [h, Nat.mod_self]
  · exact Nat.mod_eq_of_lt (by omega)

theorem count_eq {head tail : ℕ} (hh : head < n) (ht : tail < n) :
    count n head tail = if tail ≤ head then head - tail else head + n - tail := by
  unfold count
  split_ifs with h
  · rw [show head + n - tail = head - tail + n by omega, Nat.add_mod_right]
    exact Nat.mod_eq_of_lt (by omega)
  · exact Nat.mod_eq_of_lt (by omega)

theorem count_self (i : ℕ) : count n i i = 0 := by
  rw [count, Nat.add_sub_cancel_left, Nat.mod_self]

theorem count_lt {head : ℕ} (hh : head < n) (tail : ℕ) : count n head tail < n :=
  Nat.mod_lt _ (by omega)

theorem succ_lt {i : ℕ} (hi : i < n) : (i + 1) % n < n :=
  Nat.mod_lt _ (by omega)

/-- Empty means that the indices agree. -/
theorem count_eq_zero_iff {head tail : ℕ} (hh : head < n) (ht : tail < n) :
    count n head tail = 0 ↔ head = tail := by
  rw [count_eq hh ht]
  split_ifs <;> omega

/-- Full means that all slots but one are in use. -/
theorem succ_eq_tail_iff {head tail : ℕ} (hh : head < n) (ht : tail < n) :
    (head + 1) % n = tail ↔ count n head tail = n - 1 := by
  rw [succ_mod hh, count_eq hh ht]
  split_ifs <;> omega

theorem count_succ_head {head tail : ℕ} (hh : head < n) (ht : tail < n)
    (h : (head + 1) % n ≠ tail) : count n ((head + 1) % n) tail = count n head tail + 1 := by
  rw [count_eq (succ_lt hh) ht, count_eq hh ht]
  rw [succ_mod hh] at h ⊢
  split_ifs at h ⊢ <;> omega

theorem count_succ_tail {head tail : ℕ} (hh : head < n) (ht : tail < n) (h : head ≠ tail) :
    count n head tail = count n head ((tail + 1) % n) + 1 := by
  rw [count_eq hh ht, count_eq hh (succ_lt ht), succ_mod ht]
  split_ifs <;> omega

/-! ### The slots in use -/

/-- Slot `i` is one of the slots in use. -/
def Occupied (n head tail i : ℕ) : Prop := ∃ k < count n head tail, (tail + k) % n = i

theorem add_mod_eq {tail k : ℕ} (ht : tail < n) (hk : k < n) :
    (tail + k) % n = if tail + k < n then tail + k else tail + k - n := by
  split_ifs with h
  · exact Nat.mod_eq_of_lt h
  · rw [Nat.mod_eq_sub_mod (by omega)]
    exact Nat.mod_eq_of_lt (by omega)

/-- The next slot to fill is not in use. -/
theorem not_occupied_head {head tail : ℕ} (hh : head < n) (ht : tail < n) :
    ¬ Occupied n head tail head := by
  rintro ⟨k, hk, hik⟩
  have hkn := Nat.lt_trans hk (count_lt hh tail)
  rw [count_eq hh ht] at hk
  rw [add_mod_eq ht hkn] at hik
  split_ifs at hk hik <;> omega

/-- The next slot to read is in use, unless the ring is empty. -/
theorem occupied_tail {head tail : ℕ} (hh : head < n) (ht : tail < n) (h : head ≠ tail) :
    Occupied n head tail tail :=
  ⟨0, Nat.pos_of_ne_zero ((count_eq_zero_iff hh ht).not.mpr h), by
    rw [Nat.add_zero, Nat.mod_eq_of_lt ht]⟩

theorem add_count_mod {head tail : ℕ} (hh : head < n) (ht : tail < n) :
    (tail + count n head tail) % n = head := by
  rw [add_mod_eq ht (count_lt hh tail), count_eq hh ht]
  split_ifs <;> omega

/-- Filling the slot at `head` puts that slot, and no other, in use. -/
theorem occupied_succ_head {head tail i : ℕ} (hh : head < n) (ht : tail < n)
    (h : (head + 1) % n ≠ tail) :
    Occupied n ((head + 1) % n) tail i ↔ Occupied n head tail i ∨ i = head := by
  unfold Occupied
  rw [count_succ_head hh ht h]
  constructor
  · rintro ⟨k, hk, hik⟩
    rcases Nat.lt_succ_iff_lt_or_eq.mp hk with hlt | rfl
    · exact Or.inl ⟨k, hlt, hik⟩
    · exact Or.inr (hik.symm.trans (add_count_mod hh ht))
  · rintro (⟨k, hk, hik⟩ | rfl)
    · exact ⟨k, Nat.lt_trans hk (Nat.lt_succ_self _), hik⟩
    · exact ⟨_, Nat.lt_succ_self _, add_count_mod hh ht⟩

/-- Advancing past the slot at `tail` frees that slot, and no other. -/
theorem occupied_succ_tail {head tail i : ℕ} (hh : head < n) (ht : tail < n) (h : head ≠ tail) :
    Occupied n head ((tail + 1) % n) i ↔ Occupied n head tail i ∧ i ≠ tail := by
  have hc := count_succ_tail hh ht h
  have hlt := count_lt hh tail
  unfold Occupied
  constructor
  · rintro ⟨k, hk, hik⟩
    rw [Nat.mod_add_mod, Nat.add_assoc, Nat.add_comm 1 k] at hik
    refine ⟨⟨k + 1, by omega, hik⟩, ?_⟩
    rw [← hik, add_mod_eq ht (by omega)]
    split_ifs <;> omega
  · rintro ⟨⟨k, hk, hik⟩, hne⟩
    have hk0 : k ≠ 0 := by
      rintro rfl
      exact hne (by rw [← hik, Nat.add_zero, Nat.mod_eq_of_lt ht])
    obtain ⟨j, rfl⟩ := Nat.exists_eq_succ_of_ne_zero hk0
    refine ⟨j, by omega, ?_⟩
    rw [Nat.mod_add_mod, Nat.add_assoc, Nat.add_comm 1 j]
    exact hik

/-! ### The contents, oldest first -/

/-- The elements of the slots in use, oldest first. -/
def contents [Fact (0 < n)] (a : Vector α n) (head tail : ℕ) : List α :=
  (List.range (count n head tail)).map fun k =>
    a[(⟨(tail + k) % n, Nat.mod_lt _ Fact.out⟩ : Fin n)]

variable [Fact (0 < n)]

theorem length_contents (a : Vector α n) (head tail : ℕ) :
    (contents a head tail).length = count n head tail := by
  rw [contents, List.length_map, List.length_range]

theorem contents_self (a : Vector α n) (i : ℕ) : contents a i i = [] := by
  rw [contents, count_self, List.range_zero, List.map_nil]

/-- The array is empty exactly if the indices are the same. -/
theorem contents_eq_nil_iff (a : Vector α n) {head tail : ℕ} (hh : head < n) (ht : tail < n) :
    contents a head tail = [] ↔ head = tail := by
  rw [← List.length_eq_zero_iff, length_contents, count_eq_zero_iff hh ht]

/-- Storing in a slot that is not in use leaves the contents alone. -/
theorem contents_set {a : Vector α n} {head tail i : ℕ} (hi : i < n) (x : α)
    (h : ¬ Occupied n head tail i) : contents (a.set i x hi) head tail = contents a head tail := by
  apply List.map_congr_left
  intro k hk
  rw [List.mem_range] at hk
  have hne : i ≠ (tail + k) % n := fun he => h ⟨k, hk, he.symm⟩
  exact Vector.getElem_set_ne hi _ hne

/-- **Push**: storing at `head` and advancing it appends. -/
theorem contents_push (a : Vector α n) {head tail : ℕ} (hh : head < n) (ht : tail < n)
    (h : (head + 1) % n ≠ tail) (x : α) :
    contents (a.set head x hh) ((head + 1) % n) tail = contents a head tail ++ [x] := by
  rw [← contents_set hh x (not_occupied_head hh ht)]
  unfold contents
  rw [count_succ_head hh ht h, List.range_succ, List.map_append, List.map_singleton]
  congr 2
  simp only [Fin.getElem_fin, add_count_mod hh ht, Vector.getElem_set_self]

/-- Advancing `head` appends what is stored there. -/
theorem contents_succ_head (a : Vector α n) {head tail : ℕ} (hh : head < n) (ht : tail < n)
    (h : (head + 1) % n ≠ tail) :
    contents a ((head + 1) % n) tail = contents a head tail ++ [a[head]] := by
  have hpush := contents_push a hh ht h a[head]
  rwa [Vector.set_getElem_self] at hpush

/-- **Pop**: reading at `tail` and advancing it removes the oldest element. -/
theorem contents_pop (a : Vector α n) {head tail : ℕ} (hh : head < n) (ht : tail < n)
    (h : head ≠ tail) :
    contents a head tail = a[tail] :: contents a head ((tail + 1) % n) := by
  unfold contents
  rw [count_succ_tail hh ht h, List.range_succ_eq_map, List.map_cons, List.map_map]
  congr 1
  · simp only [Fin.getElem_fin, Nat.add_zero, Nat.mod_eq_of_lt ht]
  · apply List.map_congr_left
    intro k _
    simp only [Function.comp, Fin.getElem_fin, Nat.succ_eq_add_one, Nat.mod_add_mod,
      Nat.add_assoc, Nat.add_comm 1 k]

end Camkes.Ring
