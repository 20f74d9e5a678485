import Mathlib.Data.List.TakeWhile
import Mathlib.Order.Bounds.Basic
import Mathlib.Tactic.Common

/-!
# Lists with a sentinel

A list is cut after the first `z` in it (`cut`), and a `z` is added if there is none.

`IsSearch z l f` says that `f` looks for `z` in `l` with an increasing index.  Such a search finds
the least position (`eq_some_iff`, `eq_none_iff`), so two of them are the same function
(`unique`), and the list can be cut at what it finds (`take_succ_eq_cut`).
-/

namespace Camkes.Sentinel

variable {α β : Type*} {z : α} {l : List α}

/-! ### The search -/

/-- The positions of `z` from `n` on. -/
def occurrences (z : α) (l : List α) (n : ℕ) : Set ℕ := {i | n ≤ i ∧ l[i]? = some z}

structure IsSearch (z : α) (l : List α) (f : ℕ → Option ℕ) : Prop where
  of_le : ∀ n, l.length ≤ n → f n = none
  of_eq : ∀ n, l[n]? = some z → f n = some n
  of_ne : ∀ n, n < l.length → l[n]? ≠ some z → f n = f (n + 1)

namespace IsSearch

variable {f g : ℕ → Option ℕ}

/-- A recursion on the index is a search. -/
theorem of_rec [DecidableEq α] (hf : ∀ n, f n =
    if h : l.length ≤ n then none
    else if l.get ⟨n, Nat.lt_of_not_ge h⟩ = z then some n else f (n + 1)) : IsSearch z l f where
  of_le n hn := by
    rw [hf, dif_pos hn]
  of_eq n hz := by
    obtain ⟨hlt, hget⟩ := List.getElem?_eq_some_iff.mp hz
    rw [hf, dif_neg (Nat.not_le_of_lt hlt)]
    exact if_pos hget
  of_ne n hlt hne := by
    rw [hf, dif_neg (Nat.not_le_of_lt hlt), if_neg]
    exact fun hget => hne (List.getElem?_eq_some_iff.mpr ⟨hlt, hget⟩)

/-- The search from `n` on, as far as it has `d` places left. -/
theorem search_aux (hf : IsSearch z l f) (d : ℕ) : ∀ n, l.length ≤ n + d →
    (∀ m, f n = some m → IsLeast (occurrences z l n) m) ∧
      (f n = none → occurrences z l n = ∅) := by
  induction d with
  | zero =>
    intro n hn
    rw [hf.of_le n hn]
    refine ⟨fun m h => absurd h.symm (Option.some_ne_none m), fun _ => ?_⟩
    apply Set.eq_empty_of_forall_notMem
    rintro i ⟨hi, hz⟩
    have hlt := (List.getElem?_eq_some_iff.mp hz).1
    omega
  | succ d ih =>
    intro n hn
    by_cases hz : l[n]? = some z
    · rw [hf.of_eq n hz]
      refine ⟨fun m hm => ?_, fun h => absurd h (Option.some_ne_none n)⟩
      rw [← Option.some.inj hm]
      exact ⟨⟨Nat.le_refl n, hz⟩, fun i hi => hi.1⟩
    · rcases Nat.lt_or_ge n l.length with hlt | hge
      · -- `n` itself is no occurrence
        have hnext : occurrences z l n = occurrences z l (n + 1) := by
          ext i
          refine and_congr_left fun hi => ⟨fun hni => ?_, fun hni => by omega⟩
          have hne : n ≠ i := by
            rintro rfl
            exact hz hi
          omega
        rw [hf.of_ne n hlt hz, hnext]
        exact ih (n + 1) (by omega)
      · exact ih n (by omega)

/-- A search finds nothing exactly if there is no occurrence. -/
theorem eq_none_iff (hf : IsSearch z l f) (n : ℕ) :
    f n = none ↔ occurrences z l n = ∅ := by
  have h := hf.search_aux l.length n (by omega)
  refine ⟨h.2, fun hempty => ?_⟩
  cases hfn : f n with
  | none => rfl
  | some m =>
    have hm := (h.1 m hfn).1
    rw [hempty] at hm
    exact absurd hm (Set.notMem_empty m)

/-- A search finds the first occurrence. -/
theorem eq_some_iff (hf : IsSearch z l f) (n m : ℕ) :
    f n = some m ↔ IsLeast (occurrences z l n) m := by
  have h := hf.search_aux l.length n (by omega)
  refine ⟨h.1 m, fun hleast => ?_⟩
  cases hfn : f n with
  | none =>
    have hm := hleast.1
    rw [h.2 hfn] at hm
    exact absurd hm (Set.notMem_empty m)
  | some k => rw [(h.1 k hfn).unique hleast]

/-- There is one search only. -/
theorem unique (hf : IsSearch z l f) (hg : IsSearch z l g) : f = g := by
  funext n
  cases hgn : g n with
  | none => exact (hf.eq_none_iff n).mpr ((hg.eq_none_iff n).mp hgn)
  | some m => exact (hf.eq_some_iff n m).mpr ((hg.eq_some_iff n m).mp hgn)

/-- A search for `z` is one for its image, if nothing else has this image. -/
theorem map {e : α → β} (he : ∀ a, e a = e z → a = z) (hf : IsSearch z l f) :
    IsSearch (e z) (l.map e) f := by
  have hiff : ∀ n : ℕ, (l.map e)[n]? = some (e z) ↔ l[n]? = some z := by
    intro n
    rw [List.getElem?_map, Option.map_eq_some_iff]
    constructor
    · rintro ⟨a, ha, haz⟩
      rw [ha, he a haz]
    · exact fun h => ⟨z, h, rfl⟩
  refine ⟨fun n hn => hf.of_le n ?_, fun n hn => hf.of_eq n ?_, fun n hn hne => hf.of_ne n ?_ ?_⟩
  · rwa [List.length_map] at hn
  · rwa [hiff] at hn
  · rwa [List.length_map] at hn
  · rwa [Ne, hiff] at hne

/-- The search from the beginning succeeds if there is a `z` at all. -/
theorem exists_eq_some_iff (hf : IsSearch z l f) : (∃ m, f 0 = some m) ↔ z ∈ l := by
  rw [← Option.isSome_iff_exists, ← Option.ne_none_iff_isSome, Ne, hf.eq_none_iff,
    ← Ne, ← Set.nonempty_iff_ne_empty, List.mem_iff_getElem?]
  exact ⟨fun ⟨i, hi⟩ => ⟨i, hi.2⟩, fun ⟨i, hi⟩ => ⟨i, ⟨Nat.zero_le i, hi⟩⟩⟩

end IsSearch

/-! ### The cut -/

section Cut

variable [DecidableEq α]

theorem takeWhile_of_notMem (h : z ∉ l) : l.takeWhile (· ≠ z) = l := by
  rw [List.takeWhile_eq_self_iff]
  intro a ha
  simpa using ne_of_mem_of_not_mem ha h

theorem takeWhile_append_cons (h : z ∉ l) (rest : List α) :
    (l ++ z :: rest).takeWhile (· ≠ z) = l := by
  rw [List.takeWhile_append_of_pos, List.takeWhile_cons_of_neg (by simp), List.append_nil]
  intro a ha
  simpa using ne_of_mem_of_not_mem ha h

theorem notMem_takeWhile (z : α) (l : List α) : z ∉ l.takeWhile (· ≠ z) := by
  intro h
  simpa using List.mem_takeWhile_imp h

/-- `l` before the first `z`, and one `z`. -/
def cut (z : α) (l : List α) : List α := l.takeWhile (· ≠ z) ++ [z]

theorem cut_of_notMem (h : z ∉ l) : cut z l = l ++ [z] := by
  rw [cut, takeWhile_of_notMem h]

theorem cut_append_cons (h : z ∉ l) (rest : List α) : cut z (l ++ z :: rest) = l ++ [z] := by
  rw [cut, takeWhile_append_cons h]

@[simp] theorem cut_cut (z : α) (l : List α) : cut z (cut z l) = cut z l :=
  cut_append_cons (notMem_takeWhile z l) []

@[simp] theorem count_cut (z : α) (l : List α) : (cut z l).count z = 1 := by
  rw [cut, List.count_append, List.count_eq_zero_of_not_mem (notMem_takeWhile z l),
    List.count_singleton_self]

@[simp] theorem getLast?_cut (z : α) (l : List α) : (cut z l).getLast? = some z :=
  List.getLast?_concat

/-- What stands behind a `z` is cut off. -/
theorem cut_append_of_mem (h : z ∈ l) (rest : List α) : cut z (l ++ rest) = cut z l := by
  obtain ⟨s, t, rfl, hs⟩ := List.eq_append_cons_of_mem h
  rw [List.append_assoc, List.cons_append, cut_append_cons hs, cut_append_cons hs]

/-- Cutting commutes with a map that keeps the sentinel apart. -/
theorem map_cut [DecidableEq β] {e : α → β} (he : ∀ a, e a = e z → a = z) (l : List α) :
    (cut z l).map e = cut (e z) (l.map e) := by
  have hpred : (fun b => decide (b ≠ e z)) ∘ e = fun a => decide (a ≠ z) := by
    funext a
    exact decide_eq_decide.mpr (not_congr ⟨he a, congrArg e⟩)
  rw [cut, cut, List.map_append, List.takeWhile_map, hpred]
  rfl

/-- The list up to what a search finds. -/
theorem IsSearch.take_succ_eq_cut {f : ℕ → Option ℕ} (hf : IsSearch z l f) {m : ℕ}
    (hm : f 0 = some m) : l.take (m + 1) = cut z l := by
  have hleast := (hf.eq_some_iff 0 m).mp hm
  obtain ⟨hlt, hz⟩ := List.getElem?_eq_some_iff.mp hleast.1.2
  have hbefore : z ∉ l.take m := by
    intro hmem
    obtain ⟨i, hi, hiz⟩ := List.mem_iff_getElem.mp hmem
    rw [List.length_take] at hi
    rw [List.getElem_take] at hiz
    have hle : m ≤ i := hleast.2 ⟨Nat.zero_le i, List.getElem?_eq_some_iff.mpr ⟨by omega, hiz⟩⟩
    omega
  have hsplit : l = l.take m ++ z :: l.drop (m + 1) := by
    rw [← hz, List.getElem_cons_drop, List.take_append_drop]
  have hcut := cut_append_cons hbefore (l.drop (m + 1))
  rw [← hsplit] at hcut
  rw [hcut, List.take_add_one, hleast.1.2, Option.toList_some]

theorem IsSearch.append_eq_cut {f : ℕ → Option ℕ} (hf : IsSearch z l f) (hm : f 0 = none) :
    l ++ [z] = cut z l := by
  refine (cut_of_notMem fun hz => ?_).symm
  obtain ⟨m, hsome⟩ := hf.exists_eq_some_iff.mpr hz
  rw [hm] at hsome
  cases hsome

end Cut

end Camkes.Sentinel
