import Mathlib.Data.List.Basic
import Mathlib.Tactic.Common

/-!
# Properties of every entry of a history

A program that logs what it does is judged entry by entry: whether an entry is right depends on the
entries before it.  `Along R trace` says that `R before a` holds for every entry `a` of the trace,
where `before` is the part of the trace before `a`.  It can be checked as the trace grows
(`along_concat`, `Along.append_of`).

`Always P trace` says that `P` has held at all times: of the empty trace and after each entry.
-/

namespace Camkes

variable {α : Type*} {R : List α → α → Prop} {trace more : List α}

/-- Every entry of the trace is right after the entries before it. -/
def Along (R : List α → α → Prop) (trace : List α) : Prop :=
  ∀ before a, before ++ [a] <+: trace → R before a

theorem along_nil : Along R [] := by
  intro before a h
  simp at h

/-- A trace grows by an entry that is right where it comes. -/
theorem along_concat {a : α} : Along R (trace ++ [a]) ↔ Along R trace ∧ R trace a := by
  constructor
  · intro h
    exact ⟨fun before b hb => h before b (hb.trans (List.prefix_append ..)),
      h trace a (List.prefix_refl _)⟩
  · rintro ⟨h, ha⟩ before b hb
    rcases List.prefix_concat_iff.mp hb with heq | hb
    · obtain ⟨rfl, hlast⟩ := List.append_inj' heq rfl
      obtain rfl := (List.cons.inj hlast).1
      exact ha
    · exact h before b hb

/-- The entry after a part of the trace is right. -/
theorem Along.of_mem {a : α} (h : Along R (trace ++ a :: more)) : R trace a :=
  h trace a ⟨more, by rw [List.append_assoc, List.singleton_append]⟩

/-- Entries that are right wherever they come can be added. -/
theorem Along.append (h : Along R trace) (hmore : ∀ a ∈ more, ∀ before, R before a) :
    Along R (trace ++ more) := by
  induction more generalizing trace with
  | nil => rwa [List.append_nil]
  | cons a more ih =>
    rw [← List.singleton_append, ← List.append_assoc]
    refine ih (along_concat.mpr ⟨h, hmore a (List.mem_cons_self ..) _⟩) ?_
    exact fun b hb => hmore b (List.mem_cons_of_mem _ hb)

/-- What holds of each new entry may be added. -/
theorem Along.append_of (h : Along R trace)
    (hmore : ∀ before a, before ++ [a] <+: more → R (trace ++ before) a) :
    Along R (trace ++ more) := by
  intro before a hb
  rcases List.prefix_or_prefix_of_prefix hb (List.prefix_append trace more) with hle | hle
  · exact h before a hle
  · obtain ⟨rest, hrest⟩ := hle
    rcases List.eq_nil_or_concat rest with rfl | ⟨rest, b, rfl⟩
    · rw [List.append_nil] at hrest
      exact h before a (hrest ▸ List.prefix_refl _)
    · rw [List.concat_eq_append, ← List.append_assoc] at hrest
      obtain ⟨rfl, hlast⟩ := List.append_inj' hrest rfl
      obtain rfl := (List.cons.inj hlast).1
      rw [List.append_assoc] at hb
      exact hmore rest b ((List.prefix_append_right_inj trace).mp hb)

/-- Along a trace, what is not in a part of it comes after that part. -/
theorem prefix_of_notMem {before : List α} {a : α} (h : before ++ [a] <+: trace ++ more)
    (ha : a ∉ trace) : trace <+: before := by
  have hbefore := List.IsPrefix.trans (List.prefix_append before [a]) h
  rcases List.prefix_or_prefix_of_prefix h (List.prefix_append trace more) with hle | hle
  · exact absurd (hle.subset (by simp)) ha
  · rcases List.prefix_concat_iff.mp hle with heq | hle
    · exact absurd (heq ▸ List.mem_append_right before (List.mem_singleton_self a)) ha
    · exact hle

/-- What has happened only after a part of the trace has been preceded by that part. -/
theorem prefix_of_mem {before : List α} {a : α} (h : before <+: trace ++ a :: more)
    (hmem : a ∈ before) (ha : a ∉ trace) : trace ++ [a] <+: before := by
  have hsplit : trace ++ [a] <+: trace ++ a :: more :=
    (List.prefix_append_right_inj trace).mpr ⟨more, rfl⟩
  rcases List.prefix_or_prefix_of_prefix h hsplit with hle | hle
  · rcases List.prefix_concat_iff.mp hle with rfl | hle
    · exact List.prefix_refl _
    · exact absurd (hle.subset hmem) ha
  · exact hle

/-! ### At all times -/

variable {P : List α → Prop}

/-- `P` has held all along the trace. -/
def Always (P : List α → Prop) (trace : List α) : Prop := ∀ before, before <+: trace → P before

theorem always_nil : Always P [] ↔ P [] := by
  constructor
  · intro h
    exact h [] (List.prefix_refl _)
  · rintro h before hb
    rwa [List.prefix_nil.mp hb]

theorem Always.now (h : Always P trace) : P trace := h trace (List.prefix_refl _)

theorem Always.concat (h : Always P trace) {a : α} (ha : P (trace ++ [a])) :
    Always P (trace ++ [a]) := by
  intro before hb
  rcases List.prefix_concat_iff.mp hb with rfl | hb
  · exact ha
  · exact h before hb

/-- What holds along a trace, and then along what comes after it, holds along the whole. -/
theorem Always.append (h : Always P trace)
    (hmore : Always (fun before => P (trace ++ before)) more) :
    Always P (trace ++ more) := by
  intro before hb
  rcases List.prefix_or_prefix_of_prefix hb (List.prefix_append trace more) with hle | hle
  · exact h before hle
  · obtain ⟨rest, rfl⟩ := hle
    exact hmore rest ((List.prefix_append_right_inj trace).mp hb)

end Camkes
