import Mathlib.Data.List.Basic
import Mathlib.Tactic.Common

/-!
# Words at the start of a buffer

`matchWord words buf` is the first of the words that the buffer starts with.  No word may be the
start of another one (`PrefixFree`), so there is only one (`matchWord_eq_some_iff`).

The buffer may hold more than the bytes that are meant.  `Completes words bytes rest` says that the
bytes are the first part of a word and that `rest` starts with the remaining part: exactly then the
bytes followed by `rest` do not match the same word as the bytes alone (`matchWord_append_eq_iff`).
-/

namespace Camkes

variable {α : Type*} [DecidableEq α] {words : List (List α)} {w buf bytes rest : List α}

/-- No word is the start of another one. -/
def PrefixFree (words : List (List α)) : Prop := ∀ v ∈ words, ∀ w ∈ words, v <+: w → v = w

instance (words : List (List α)) : Decidable (PrefixFree words) :=
  inferInstanceAs (Decidable (∀ _ ∈ _, ∀ _ ∈ _, _ → _))

/-- The word that the buffer starts with. -/
def matchWord (words : List (List α)) (buf : List α) : Option (List α) :=
  words.find? fun w => w.isPrefixOf buf

theorem mem_of_matchWord (h : matchWord words buf = some w) : w ∈ words ∧ w <+: buf := by
  have hw := List.find?_some h
  exact ⟨List.mem_of_find?_eq_some h, List.isPrefixOf_iff_prefix.mp hw⟩

/-- When no word begins with another one, the word that is matched is the one at the beginning. -/
theorem matchWord_eq_some_iff (hfree : PrefixFree words) :
    matchWord words buf = some w ↔ w ∈ words ∧ w <+: buf := by
  constructor
  · exact mem_of_matchWord
  · rintro ⟨hmem, hw⟩
    have hsome : (matchWord words buf).isSome :=
      List.find?_isSome.mpr ⟨w, hmem, List.isPrefixOf_iff_prefix.mpr hw⟩
    obtain ⟨v, hv⟩ := Option.isSome_iff_exists.mp hsome
    obtain ⟨hvmem, hvbuf⟩ := mem_of_matchWord hv
    rcases List.prefix_or_prefix_of_prefix hvbuf hw with hvw | hwv
    · rw [hv, hfree v hvmem w hmem hvw]
    · rw [hv, hfree w hmem v hvmem hwv]

/-- No word is matched exactly if there is none at the beginning. -/
theorem matchWord_eq_none_iff : matchWord words buf = none ↔ ∀ w ∈ words, ¬ w <+: buf := by
  simp only [matchWord, List.find?_eq_none, List.isPrefixOf_iff_prefix]

/-- The bytes are the first part of a word, and `rest` starts with the remaining part. -/
def Completes (words : List (List α)) (bytes rest : List α) : Prop :=
  ∃ w ∈ words, bytes.length < w.length ∧ bytes <+: w ∧ w <+: bytes ++ rest

instance (words : List (List α)) (bytes rest : List α) : Decidable (Completes words bytes rest) :=
  inferInstanceAs (Decidable (∃ _ ∈ _, _ ∧ _ ∧ _))

/-- A completed word is matched, and the bytes alone match none. -/
theorem Completes.matchWord_eq_none (hfree : PrefixFree words) (h : Completes words bytes rest) :
    matchWord words bytes = none ∧ matchWord words (bytes ++ rest) ≠ none := by
  obtain ⟨w, hmem, hlt, hstart, hw⟩ := h
  constructor
  · rw [matchWord_eq_none_iff]
    intro v hv hvbytes
    obtain rfl := hfree v hv w hmem (hvbytes.trans hstart)
    have hle := hvbytes.length_le
    omega
  · rw [(matchWord_eq_some_iff hfree).mpr ⟨hmem, hw⟩]
    exact Option.some_ne_none w

/-- **When the rest does not matter**: when it completes no word. -/
theorem matchWord_append_eq_iff (hfree : PrefixFree words) :
    matchWord words (bytes ++ rest) = matchWord words bytes ↔ ¬ Completes words bytes rest := by
  constructor
  · intro heq hcompletes
    obtain ⟨hnone, hsome⟩ := hcompletes.matchWord_eq_none hfree
    exact hsome (heq.trans hnone)
  · intro hnot
    cases hlong : matchWord words (bytes ++ rest) with
    | none =>
      rw [matchWord_eq_none_iff] at hlong
      exact (matchWord_eq_none_iff.mpr fun w hw hbytes =>
        hlong w hw (hbytes.trans (List.prefix_append ..))).symm
    | some w =>
      obtain ⟨hmem, hw⟩ := mem_of_matchWord hlong
      rcases List.prefix_or_prefix_of_prefix hw (List.prefix_append bytes rest) with hle | hle
      · exact ((matchWord_eq_some_iff hfree).mpr ⟨hmem, hle⟩).symm
      · by_cases hlt : bytes.length < w.length
        · exact absurd ⟨w, hmem, hlt, hle, hw⟩ hnot
        · obtain rfl := hle.eq_of_length_le (by omega)
          exact ((matchWord_eq_some_iff hfree).mpr ⟨hmem, List.prefix_refl _⟩).symm

/-- The same for anything that is done about the word that is matched. -/
theorem act_append_eq_iff {β : Type*} {act : List α → List β} (hfree : PrefixFree words)
    (hcongr : ∀ buf buf', matchWord words buf = matchWord words buf' → act buf = act buf')
    (hnil : ∀ buf, act buf = [] ↔ matchWord words buf = none) :
    act (bytes ++ rest) = act bytes ↔ ¬ Completes words bytes rest := by
  constructor
  · intro heq hcompletes
    obtain ⟨hnone, hsome⟩ := hcompletes.matchWord_eq_none hfree
    rw [(hnil bytes).mpr hnone] at heq
    exact hsome ((hnil _).mp heq)
  · exact fun hnot => hcongr _ _ ((matchWord_append_eq_iff hfree).mpr hnot)

end Camkes
