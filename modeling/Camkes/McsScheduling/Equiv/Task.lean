import Camkes.Data.Stack
import Camkes.McsScheduling.Task

/-!
# The slices of a task
-/

namespace Camkes.McsScheduling

open CArray Stack

variable {first ts : UInt64} {s s' : State} {counts : List UInt64}

/-! ### Cycle counts -/

theorem toNat_sub_of_lt {a b : UInt64} (h : a < b) : (b - a).toNat = b.toNat - a.toNat :=
  UInt64.toNat_sub_of_le _ _ (UInt64.le_of_lt h)

/-- A sum that fits into 64 bits is what the loop computes. -/
theorem toNat_foldl_add (l : List UInt64) (a : UInt64)
    (h : a.toNat + (l.map UInt64.toNat).sum < 2 ^ 64) :
    (l.foldl (fun util ccount => util + ccount) a).toNat =
      a.toNat + (l.map UInt64.toNat).sum := by
  induction l generalizing a with
  | nil => rfl
  | cons b l ih =>
    rw [List.map_cons, List.sum_cons] at h ⊢
    have hadd : (a + b).toNat = a.toNat + b.toNat := by
      rw [UInt64.toNat_add]
      omega
    rw [List.foldl_cons, ih (a + b) (by omega), hadd]
    omega

/-! ### The invariant of the loop -/

/-- The slices so far, the current slice, and what is recorded of the time until the last
reading. -/
structure State.Inv (first : UInt64) (s : State) : Prop where
  pcount_le : s.pcount ≤ testSize
  start : s.tss[0]? = some first
  slices : ∀ k (h : k + 1 < testSize), k < s.pcount →
    s.tss[k].toNat + s.ccounts[k].toNat + magicCycles.toNat ≤ s.tss[k + 1].toNat
  current : ∀ h : s.pcount < testSize, s.tss[s.pcount].toNat + s.ccount.toNat = s.prev.toNat
  sum_le : first.toNat + ((contents s.ccounts s.pcount).map UInt64.toNat).sum + s.ccount.toNat ≤
    s.prev.toNat

/-- A pass in the current slice. -/
theorem State.Inv.slice (h : s.Inv first) (hlt : s.pcount < testSize) (hts : s.prev < ts)
    (hdiff : ts - s.prev < magicCycles) :
    ∃ s', s.step ts = some s' ∧ s'.Inv first ∧ s'.prev = ts := by
  have hcurrent := h.current hlt
  have hsum := h.sum_le
  have hsub := toNat_sub_of_lt hts
  rw [UInt64.lt_iff_toNat_lt] at hts
  have hbound := ts.toNat_lt
  -- the slice is not longer than the time so far
  have hadd : (s.ccount + (ts - s.prev)).toNat = s.ccount.toNat + (ts.toNat - s.prev.toNat) := by
    rw [UInt64.toNat_add, hsub]
    omega
  refine ⟨{ s with ccount := s.ccount + (ts - s.prev), prev := ts }, ?_, ?_, rfl⟩
  · rw [State.step, if_pos (UInt64.lt_iff_toNat_lt.mpr hts), if_pos hdiff]
  · refine ⟨h.pcount_le, h.start, h.slices, fun _ => ?_, ?_⟩
    · show s.tss[s.pcount].toNat + (s.ccount + (ts - s.prev)).toNat = ts.toNat
      omega
    · show first.toNat + ((contents s.ccounts s.pcount).map UInt64.toNat).sum +
        (s.ccount + (ts - s.prev)).toNat ≤ ts.toNat
      omega

/-- The start of the next slice, if there is one. -/
theorem exists_next_tss (tss : Vector UInt64 testSize) (pcount : ℕ) (ts : UInt64) :
    ∃ tss', (if pcount < testSize then store tss pcount ts else some tss) = some tss' ∧
      (∀ h : pcount < testSize, tss'[pcount] = ts) ∧
      ∀ k (h : k < testSize), k ≠ pcount → tss'[k] = tss[k] := by
  by_cases hlt : pcount < testSize
  · refine ⟨tss.set pcount ts hlt, ?_, fun _ => Vector.getElem_set_self .., fun k h hk => ?_⟩
    · rw [if_pos hlt, store_of_lt]
    · exact Vector.getElem_set_ne _ _ hk.symm
  · exact ⟨tss, if_neg hlt, fun h => absurd h hlt, fun _ _ _ => rfl⟩

/-- A pass that ends the current slice. -/
theorem State.Inv.preempted (h : s.Inv first) (hlt : s.pcount < testSize) (hts : s.prev < ts)
    (hdiff : ¬ ts - s.prev < magicCycles) :
    ∃ s', s.step ts = some s' ∧ s'.Inv first ∧ s'.prev = ts := by
  have hcurrent := h.current hlt
  have hsum := h.sum_le
  have hgap : s.prev.toNat + magicCycles.toNat ≤ ts.toNat := by
    have hsub := toNat_sub_of_lt hts
    rw [UInt64.lt_iff_toNat_lt] at hts hdiff
    omega
  obtain ⟨tss, htss, hnext, hothers⟩ := exists_next_tss s.tss (s.pcount + 1) ts
  have hcontents : contents (s.ccounts.set s.pcount s.ccount hlt) (s.pcount + 1) =
      contents s.ccounts s.pcount ++ [s.ccount] := by
    rw [contents_succ _ hlt, contents_set, Vector.getElem_set_self]
  refine ⟨⟨s.ccounts.set s.pcount s.ccount hlt, tss, ts, 0, s.pcount + 1⟩, ?_, ?_, rfl⟩
  · rw [State.step, if_pos hts]
    simp only [if_neg hdiff, store_of_lt _ hlt, Option.bind_eq_bind, Option.bind_some]
    by_cases hp : s.pcount + 1 < testSize
    · rw [if_pos hp] at htss ⊢
      rw [htss, Option.bind_some]
    · rw [if_neg hp] at htss ⊢
      rw [Option.some.inj htss]
  · refine ⟨hlt, ?_, fun k hk hkp => ?_, fun hp => ?_, ?_⟩
    · have hzero : 0 < testSize := Nat.zero_lt_of_lt hlt
      rw [Vector.getElem?_eq_getElem hzero, hothers 0 hzero (by omega),
        ← Vector.getElem?_eq_getElem hzero]
      exact h.start
    · show tss[k].toNat + (s.ccounts.set s.pcount s.ccount hlt)[k].toNat + magicCycles.toNat ≤
        tss[k + 1].toNat
      rw [hothers k (by omega) (by have : k < s.pcount + 1 := hkp; omega)]
      by_cases hkeq : k = s.pcount
      · -- the slice that ends now
        subst hkeq
        rw [Vector.getElem_set_self, hnext hk]
        omega
      · rw [Vector.getElem_set_ne _ _ (Ne.symm hkeq), hothers (k + 1) hk (by omega)]
        have hkp' : k < s.pcount + 1 := hkp
        exact h.slices k hk (by omega)
    · show tss[s.pcount + 1].toNat + (0 : UInt64).toNat = ts.toNat
      rw [hnext hp]
      rfl
    · show first.toNat + ((contents (s.ccounts.set s.pcount s.ccount hlt)
        (s.pcount + 1)).map UInt64.toNat).sum + 0 ≤ ts.toNat
      rw [hcontents, List.map_append, List.sum_append, List.map_singleton, List.sum_singleton]
      omega

/-- **The step**: a pass of the loop keeps the invariant. -/
theorem State.Inv.step (h : s.Inv first) (hlt : s.pcount < testSize) (hts : s.prev < ts) :
    ∃ s', s.step ts = some s' ∧ s'.Inv first ∧ s'.prev = ts := by
  by_cases hdiff : ts - s.prev < magicCycles
  · exact h.slice hlt hts hdiff
  · exact h.preempted hlt hts hdiff

theorem State.inv_start (ccounts : Vector UInt64 testSize) {tss : Vector UInt64 testSize}
    (first : UInt64) (h : tss[0]? = some first) :
    State.Inv first { ccounts, tss, prev := first, ccount := 0, pcount := 0 } where
  pcount_le := Nat.zero_le _
  start := h
  slices := fun k _ hk => absurd hk (Nat.not_lt_zero k)
  current := fun hlt => by
    rw [Vector.getElem?_eq_getElem hlt] at h
    show tss[0].toNat + 0 = first.toNat
    rw [Option.some.inj h, Nat.add_zero]
  sum_le := Nat.le_refl _

/-! ### The report -/

/-- After the last slice the share of the time can be computed. -/
theorem State.Inv.report (h : s.Inv first) (hpcount : ¬ s.pcount < testSize) (hts : s.prev < ts)
    (hspan : (ts.toNat - first.toNat) * 100 < 2 ^ 64) :
    ∃ r, s.report ts = some r ∧ r.Correct first := by
  have hall : s.pcount = testSize := Nat.le_antisymm h.pcount_le (Nat.le_of_not_lt hpcount)
  have hcontents : contents s.ccounts s.pcount = s.ccounts.toList := by
    rw [contents, hall]
    exact List.take_of_length_le (Nat.le_of_eq Vector.length_toList)
  have hsum := h.sum_le
  rw [hcontents] at hsum
  rw [UInt64.lt_iff_toNat_lt] at hts
  have hfirst : first < ts := UInt64.lt_iff_toNat_lt.mpr (by omega)
  have hsub := toNat_sub_of_lt hfirst
  have helapsed : ts - first ≠ 0 := by
    intro hzero
    rw [hzero, UInt64.toNat_zero] at hsub
    omega
  obtain ⟨util, hfold⟩ :
      ∃ util, s.ccounts.toList.foldl (fun util ccount => util + ccount) 0 = util := ⟨_, rfl⟩
  have hutil : util.toNat = (s.ccounts.toList.map UInt64.toNat).sum := by
    rw [← hfold, toNat_foldl_add _ _ (by rw [UInt64.toNat_zero]; omega), UInt64.toNat_zero,
      Nat.zero_add]
  have hlt : util.toNat * 100 < 2 ^ 64 := by
    rw [hutil]
    omega
  have hmul : (util * 100).toNat = util.toNat * 100 := by
    rw [UInt64.toNat_mul]
    exact Nat.mod_eq_of_lt hlt
  have hpercent : (util * 100 / (ts - first)).toNat =
      util.toNat * 100 / (ts.toNat - first.toNat) := by
    rw [UInt64.toNat_div, hmul, hsub]
  refine ⟨{ tss := s.tss, ccounts := s.ccounts, ts, util, percent := util * 100 / (ts - first) },
    ?_, ?_⟩
  · rw [State.report, h.start, Option.bind_eq_bind, Option.bind_some, hfold]
    exact if_neg helapsed
  · exact {
      start := h.start
      slices := fun k hk => h.slices k hk (by omega)
      elapsed := hfirst
      sum_le := by
        show (s.ccounts.toList.map UInt64.toNat).sum ≤ ts.toNat - first.toNat
        omega
      util := hutil
      util_lt := hlt
      percent := hpercent
      percent_le := by
        show (util * 100 / (ts - first)).toNat ≤ 100
        rw [hpercent, hutil]
        exact Nat.div_le_of_le_mul (Nat.mul_le_mul_right 100 (by omega)) }

/-! ### The loop -/

/-- **The loop** from a state with the invariant. -/
theorem State.Inv.loop (h : s.Inv first) (hinc : (s.prev :: counts).Pairwise (· < ·))
    (hspan : ∀ ts ∈ counts, (ts.toNat - first.toNat) * 100 < 2 ^ 64) :
    s.loop counts ≠ .failed ∧ ∀ r, s.loop counts = .done r → r.Correct first := by
  induction counts generalizing s with
  | nil =>
    rw [State.loop]
    exact ⟨nofun, nofun⟩
  | cons ts counts ih =>
    have hts : s.prev < ts := List.rel_of_pairwise_cons hinc (List.mem_cons_self ..)
    by_cases hlt : s.pcount < testSize
    · obtain ⟨s', hs', hinv, hprev⟩ := h.step hlt hts
      rw [State.loop, if_pos hlt, hs']
      refine ih hinv ?_ fun ts hmem => hspan ts (List.mem_cons_of_mem _ hmem)
      rw [hprev]
      exact hinc.of_cons
    · obtain ⟨r, hr, hcorrect⟩ := h.report hlt hts (hspan ts (List.mem_cons_self ..))
      rw [State.loop, if_neg hlt, hr]
      refine ⟨nofun, fun r' hr' => ?_⟩
      cases hr'
      exact hcorrect

/-- **The task**: with increasing readings over less than 2^64 / 100 cycles it does not fail, and
what it prints is correct. -/
theorem run_correct (ccounts tss : Vector UInt64 testSize)
    (hinc : (first :: counts).Pairwise (· < ·))
    (hspan : ∀ ts ∈ counts, (ts.toNat - first.toNat) * 100 < 2 ^ 64) :
    run ccounts tss (first :: counts) ≠ .failed ∧
      ∀ r, run ccounts tss (first :: counts) = .done r → r.Correct first := by
  have hzero : 0 < testSize := by decide
  rw [run, store_of_lt tss hzero]
  have hstart : (tss.set 0 first hzero)[0]? = some first := by
    rw [Vector.getElem?_eq_getElem hzero, Vector.getElem_set_self]
  exact (State.inv_start ccounts first hstart).loop hinc hspan

/-- The task has 400 of 1000 cycles. -/
def shared : List UInt64 :=
  (List.range 61).map fun k => .ofNat ((k + 1) / 2 * 1000 + (k + 1) % 2 * 400)

def sharedOutcome : Outcome :=
  run (Vector.replicate testSize 0) (Vector.replicate testSize 0) (0 :: shared)

def Outcome.report? : Outcome → Option Report
  | done r => some r
  | _ => none

theorem span_shared : ∀ ts ∈ shared, (ts.toNat - (0 : UInt64).toNat) * 100 < 2 ^ 64 := by
  intro ts hts
  obtain ⟨k, hk, rfl⟩ := List.mem_map.mp hts
  rw [List.mem_range] at hk
  have hle := Nat.mod_le ((k + 1) / 2 * 1000 + (k + 1) % 2 * 400) (2 ^ 64)
  rw [UInt64.toNat_ofNat', UInt64.toNat_zero]
  omega

theorem run_correct_shared :
    (sharedOutcome ≠ .failed ∧ ∀ r, sharedOutcome = .done r → r.Correct 0) ∧
      sharedOutcome.report?.map Report.percent = some 39 :=
  ⟨run_correct _ _ (by decide) span_shared, by decide⟩

end Camkes.McsScheduling
