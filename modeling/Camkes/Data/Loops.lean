import Mathlib.Data.List.Basic
import Mathlib.Tactic.Common

/-!
# Loops that may fail

Rules for loops over lists in the `Option` monad.

* `exists_mapM`: a loop succeeds if its body does for each element;
* `getElem?_of_mapM`: the results of a loop are those of its body;
* `exists_foldlM`: a loop succeeds if its body does and keeps an invariant, which may mention the
  elements that have been dealt with.
-/

namespace Camkes

variable {α β σ : Type*} {l : List α}

/-- What the body says about each element and its result holds for the whole loop. -/
theorem exists_mapM {f : α → Option β} {P : α → β → Prop}
    (h : ∀ a ∈ l, ∃ b, f a = some b ∧ P a b) :
    ∃ bs, l.mapM f = some bs ∧ List.Forall₂ P l bs := by
  induction l with
  | nil => exact ⟨[], rfl, .nil⟩
  | cons a l ih =>
    obtain ⟨b, hb, hp⟩ := h a (List.mem_cons_self ..)
    obtain ⟨bs, hbs, hps⟩ := ih fun a' ha' => h a' (List.mem_cons_of_mem a ha')
    refine ⟨b :: bs, ?_, .cons hp hps⟩
    rw [List.mapM_cons, hb, hbs]
    rfl

theorem exists_of_forall₂ {P : α → β → Prop} {bs : List β} (h : List.Forall₂ P l bs) {b : β}
    (hb : b ∈ bs) : ∃ a ∈ l, P a b := by
  induction h with
  | nil => cases hb
  | @cons a b' l bs hp _ ih =>
    rcases List.mem_cons.mp hb with rfl | hb
    · exact ⟨a, List.mem_cons_self .., hp⟩
    · obtain ⟨a', ha', hp'⟩ := ih hb
      exact ⟨a', List.mem_cons_of_mem a ha', hp'⟩

/-- An element of the results belongs to the element at its place. -/
theorem getElem?_of_mapM {f : α → Option β} {l' : List β} (h : l.mapM f = some l') (i : ℕ) :
    l'[i]? = (l[i]?).bind f := by
  induction l generalizing l' i with
  | nil =>
    obtain rfl := Option.some.inj h
    rfl
  | cons a l ih =>
    rw [List.mapM_cons] at h
    obtain ⟨b, hb, hrest⟩ := Option.bind_eq_some_iff.mp h
    obtain ⟨l₁, hl₁, hl'⟩ := Option.bind_eq_some_iff.mp hrest
    obtain rfl := Option.some.inj hl'
    cases i with
    | zero => exact hb.symm
    | succ i => exact ih hl₁ i

/-- **Invariants of loops**: `P done s` is the invariant for the elements `done` and the state `s`,
where `a` is next and `rest` comes after it. -/
theorem exists_foldlM {f : σ → α → Option σ} {P : List α → σ → Prop} {s : σ} (h : P [] s)
    (hstep : ∀ done a rest s, l = done ++ a :: rest → P done s →
      ∃ s', f s a = some s' ∧ P (done ++ [a]) s') :
    ∃ s', l.foldlM f s = some s' ∧ P l s' := by
  suffices hrest : ∀ rest done s, l = done ++ rest → P done s →
      ∃ s', rest.foldlM f s = some s' ∧ P l s' from hrest l [] s rfl h
  intro rest
  induction rest with
  | nil =>
    intro done s hl h
    rw [List.append_nil] at hl
    exact ⟨s, rfl, by rwa [hl]⟩
  | cons a rest ih =>
    intro done s hl h
    obtain ⟨s₁, hs₁, hdone⟩ := hstep done a rest s hl h
    obtain ⟨s', hs', hp⟩ := ih (done ++ [a]) s₁ (by rw [hl, List.append_cons]) hdone
    refine ⟨s', ?_, hp⟩
    rw [List.foldlM_cons, hs₁]
    exact hs'

/-- In a loop over a range, the next element counts those before it. -/
theorem eq_length_of_range {n i : ℕ} {done rest : List ℕ} (h : List.range n = done ++ i :: rest) :
    i = done.length ∧ done.length < n := by
  have hlen := congrArg List.length h
  rw [List.length_range, List.length_append, List.length_cons] at hlen
  have hget : (List.range n)[done.length]? = some i := by
    rw [h, List.getElem?_append_right (Nat.le_refl _), Nat.sub_self, List.getElem?_cons_zero]
  rw [List.getElem?_range (by omega)] at hget
  exact ⟨(Option.some.inj hget).symm, by omega⟩

end Camkes
