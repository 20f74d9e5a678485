import Camkes.Multiplier.Calculate

/-!
# When `calculate` is correct

Its three loops compute a product, a copy, and a product in place.  They cannot count beyond
`INT_MAX`, and the length of `inplace` is set to one also when it has no element, so `calculate` is
correct for the other arrays only (`aCalculate_correct_iff`).
-/

namespace Camkes.Multiplier

variable {m n : ℕ}

theorem mulInt_of_fits {x y : ℤ} (h : Fits (x * y)) : mulInt x y = some (x * y) := if_pos h

theorem prod_take_succ {l : List ℤ} {i : ℕ} (hi : i < l.length) :
    (l.take (i + 1)).prod = (l.take i).prod * l[i] := by
  rw [List.take_add_one, List.getElem?_eq_getElem hi, Option.toList_some, List.prod_append,
    List.prod_singleton]

/-! ### The total -/

/-- One round multiplies by the next element. -/
theorem multiply_eq {operands : Vector ℤ m} (h : PartialProductsFit operands.toList) {i : ℕ}
    (hi : i < m) :
    multiply operands (operands.toList.take i).prod i =
      some (operands.toList.take (i + 1)).prod := by
  have hlen : i < operands.toList.length := by simpa using hi
  have hfits := h (i + 1) hlen
  rw [prod_take_succ hlen, Vector.getElem_toList] at hfits
  rw [multiply, Vector.getElem?_eq_getElem hi, prod_take_succ hlen, Vector.getElem_toList]
  exact mulInt_of_fits hfits

/-- The first loop computes the product. -/
theorem countLoop_multiply {operands : Vector ℤ m} (h : PartialProductsFit operands.toList)
    (hm : m ≤ intMax) :
    countLoop intMax m (multiply operands) 0 1 = some (operands.toList.prod, m) := by
  obtain ⟨total, hloop, htotal⟩ := exists_countLoop (f := multiply operands) (s := 1)
    (P := fun i total => total = (operands.toList.take i).prod) hm (Nat.zero_le m) rfl (by
      rintro i total - hi rfl
      exact ⟨_, multiply_eq h hi, rfl⟩)
  rw [List.take_of_length_le (by simp)] at htotal
  rw [hloop, htotal]

/-! ### The copy -/

/-- One round of the second loop copies the next element. -/
theorem exists_stash {inplace other : Vector ℤ n} {i : ℕ} (hi : i < n)
    (h : ∀ k : Fin n, k < i → other.get k = inplace.get k) :
    ∃ other', stash inplace other i = some other' ∧
      ∀ k : Fin n, k < i + 1 → other'.get k = inplace.get k := by
  refine ⟨CArray.put other ⟨i, hi⟩ inplace[i], ?_, ?_⟩
  · rw [stash, Vector.getElem?_eq_getElem hi]
    exact CArray.store_fin other ⟨i, hi⟩ inplace[i]
  · intro k hk
    rw [CArray.get_put]
    split_ifs with hik
    · rw [← hik]
      rfl
    · refine h k ?_
      have hne : i ≠ k := fun heq => hik (Fin.ext heq)
      omega

/-- The second loop copies the array. -/
theorem countLoop_stash (inplace other : Vector ℤ n) (hn : n ≤ intMax) :
    countLoop intMax n (stash inplace) 0 other = some (inplace, n) := by
  obtain ⟨copy, hloop, hcopy⟩ := exists_countLoop (f := stash inplace) (s := other)
    (P := fun i copy => ∀ k : Fin n, k < i → copy.get k = inplace.get k) hn (Nat.zero_le n)
    (fun k hk => absurd hk (Nat.not_lt_zero _)) (fun i copy _ hi h => exists_stash hi h)
  have heq : copy = inplace := Vector.ext fun k hk => hcopy ⟨k, hk⟩ hk
  rw [hloop, heq]

/-! ### The product in place -/

/-- The first element is the product of the first `i`, and the others are as they were. -/
structure Multiplied (inplace : Vector ℤ n) (i : ℕ) (a : Vector ℤ n) : Prop where
  first : a[0]? = some (inplace.toList.take i).prod
  rest : ∀ k, 0 < k → a[k]? = inplace[k]?

theorem multiplied_one {inplace : Vector ℤ n} (hpos : 0 < n) : Multiplied inplace 1 inplace where
  first := by
    rw [prod_take_succ (by simpa using hpos), Vector.getElem_toList, List.take_zero, List.prod_nil,
      Int.one_mul, Vector.getElem?_eq_getElem hpos]
  rest _ _ := rfl

/-- One round of the third loop makes the next partial product. -/
theorem exists_multiplyInplace {inplace a : Vector ℤ n} (h : PartialProductsFit inplace.toList)
    {i : ℕ} (hpos : 0 < i) (hi : i < n) (ha : Multiplied inplace i a) :
    ∃ a', multiplyInplace a i = some a' ∧ Multiplied inplace (i + 1) a' := by
  have hlen : i < inplace.toList.length := by simpa using hi
  have hfits := h (i + 1) hlen
  have hprod := prod_take_succ hlen
  rw [Vector.getElem_toList] at hprod
  rw [hprod] at hfits
  refine ⟨a.set 0 ((inplace.toList.take i).prod * inplace[i]), ?_, ?_, fun k hk => ?_⟩
  · unfold multiplyInplace
    rw [ha.first, ha.rest i hpos, Vector.getElem?_eq_getElem hi]
    simp only [Option.bind_eq_bind, Option.bind_some, mulInt_of_fits hfits]
    exact CArray.store_of_lt a _ _
  · rw [hprod, Vector.getElem?_set_self (by omega)]
  · rw [Vector.getElem?_set_ne (by omega) (by omega)]
    exact ha.rest k hk

/-- The third loop makes the partial products. -/
theorem exists_countLoop_multiplyInplace {inplace : Vector ℤ n}
    (h : PartialProductsFit inplace.toList) (hpos : 0 < n) (hn : n ≤ intMax) :
    ∃ a, countLoop intMax n multiplyInplace 1 inplace = some (a, n) ∧
      a[0]? = some inplace.toList.prod := by
  obtain ⟨a, hloop, ha⟩ := exists_countLoop hn hpos (multiplied_one hpos)
    (fun i a hi hin ha => exists_multiplyInplace h hi hin ha)
  have hfirst := ha.first
  rw [List.take_of_length_le (by simp)] at hfirst
  exact ⟨a, hloop, hfirst⟩

/-! ### The procedure -/

/-- **The procedure** does what it is to do exactly for lengths that an `int` can reach, if there is
an element for the product of `inplace`. -/
theorem aCalculate_correct_iff (malloc : Option (Vector ℤ n)) (operands : Vector ℤ m)
    (inplace : Vector ℤ n) (hoperands : PartialProductsFit operands.toList)
    (hinplace : PartialProductsFit inplace.toList) (hmalloc : 0 < n → malloc ≠ none) :
    (∃ r, aCalculate malloc operands inplace = some r ∧ r.Correct operands inplace) ↔
      m ≤ intMax ∧ 0 < n ∧ n ≤ intMax := by
  constructor
  · rintro ⟨r, hr, hcorrect⟩
    have hpos : 0 < n := by
      by_contra hzero
      have hnone : r.inplace[0]? = none := Vector.getElem?_eq_none (by omega)
      rw [hcorrect.inplace] at hnone
      cases hnone
    unfold aCalculate at hr
    refine ⟨?_, hpos, ?_⟩
    · by_contra hm
      rw [countLoop_eq_none (Nat.zero_le _) (by omega)] at hr
      cases hr
    · by_contra hn
      obtain ⟨total, -, hr⟩ := Option.bind_eq_some_iff.mp hr
      obtain ⟨other, -, hr⟩ := Option.bind_eq_some_iff.mp hr
      rw [countLoop_eq_none (Nat.zero_le _) (by omega)] at hr
      cases hr
  · rintro ⟨hm, hpos, hn⟩
    obtain ⟨other, hother⟩ := Option.ne_none_iff_exists'.mp (hmalloc hpos)
    obtain ⟨a, hloop, ha⟩ := exists_countLoop_multiplyInplace hinplace hpos hn
    refine ⟨⟨operands.toList.prod, n, inplace, 1, a⟩, ?_, ⟨rfl, ⟨rfl, rfl⟩, rfl, ha⟩⟩
    unfold aCalculate
    simp only [countLoop_multiply hoperands hm, hother, countLoop_stash inplace other hn, hloop,
      Option.bind_eq_bind, Option.bind_some]

theorem aCalculate_correct_two :
    (∃ r, aCalculate (some (Vector.replicate 2 0)) (Vector.replicate 3 5) (Vector.replicate 2 7) =
        some r ∧ r.Correct (Vector.replicate 3 5) (Vector.replicate 2 7)) ↔
      3 ≤ intMax ∧ 0 < 2 ∧ 2 ≤ intMax :=
  aCalculate_correct_iff _ _ _ (by decide) (by decide) (fun _ => Option.some_ne_none _)

/-- There is no element for the product of an empty array, whether or not `malloc(0)` is `NULL`. -/
theorem aCalculate_empty :
    PartialProductsFit [5] ∧ PartialProductsFit [] ∧
      ∀ malloc : Option (Vector ℤ 0),
        ¬ ∃ r, aCalculate malloc (Vector.replicate 1 5) (Vector.replicate 0 0) = some r ∧
          r.Correct (Vector.replicate 1 5) (Vector.replicate 0 0) := by
  refine ⟨by decide, by decide, ?_⟩
  rintro malloc ⟨r, -, hcorrect⟩
  have hinplace := hcorrect.inplace
  rw [Vector.getElem?_eq_none (Nat.le_refl 0)] at hinplace
  cases hinplace

end Camkes.Multiplier
