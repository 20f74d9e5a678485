import Camkes.PicotcpSingle.SetupEth0
import Camkes.PicotcpSingle.Equiv.EthBuf

/-!
# When `setup_eth0` handles failed allocations

`setupMeetsSpec_iff`: the allocation loops fail as they should exactly when the first allocation
that fails, if there is one, has a block.  A `ps_dma_alloc` that returns `NULL` is not noticed: the
test after it looks at the address of the `eth_buf_t`.
-/

namespace Camkes.PicotcpSingle.Ethdriver

/-- `memset` and `ps_dma_pin` are only called on blocks. -/
def NoNull (calls : List DmaCall) : Prop := ∀ c ∈ calls, c ≠ .memset none ∧ c ≠ .pin none

theorem NoNull.append {calls calls' : List DmaCall} (h : NoNull calls) (h' : NoNull calls') :
    NoNull (calls ++ calls') :=
  fun c hc => (List.mem_append.mp hc).elim (h c) (h' c)

/-- The call that fails when the allocation `k` does. -/
def failingCall (dma : Allocation → Dma) (k : Allocation) : DmaCall :=
  if (dma k).alloc then .pin (some k) else .alloc k

/-- All buffers are free, and have a block and its physical address. -/
structure BufPool.Stocked {n : ℕ} (p : BufPool n) : Prop where
  holds : p.Holds (List.finRange n)
  buf_ne : ∀ i, (p.bufs.get i).buf ≠ none
  phys_ne : ∀ i, (p.bufs.get i).phys ≠ 0

/-- The allocation `k` is the first that fails. -/
structure FirstFailure (dma : Allocation → Dma) (k : Allocation) : Prop where
  before : ∀ j < k, (dma j).Succeeds
  fails : ¬ (dma k).Succeeds

/-- What the allocation loops should do: never use a `NULL` block, return `-1` right after the first
call that fails, and fill both pools if none does. -/
structure SetupMeetsSpec (dma : Allocation → Dma) : Prop where
  noNull : NoNull (setupEth0 dma).1
  failed : ∀ k, FirstFailure dma k →
    (setupEth0 dma).2 = .error .failed ∧ (setupEth0 dma).1.getLast? = some (failingCall dma k)
  stocked : (∀ k, (dma k).Succeeds) →
    ∃ pools, (setupEth0 dma).2 = .ok pools ∧ pools.rx.Stocked ∧ pools.tx.Stocked

/-! ### One loop -/

variable {n : ℕ} {dma : Allocation → Dma} {no : Fin n → Allocation}

theorem bodyCalls_of_alloc {k : Allocation} (h : (dma k).alloc = true) :
    bodyCalls dma k = [.alloc k, .memset (some k), .pin (some k)] := by
  simp only [bodyCalls, allocated?, h, if_true]

theorem bodyCalls_of_null {k : Allocation} (h : (dma k).alloc = false) :
    bodyCalls dma k = [.alloc k, .memset none] := by
  simp [bodyCalls, allocated?, h]

theorem noNull_bodyCalls {k : Allocation} (h : (dma k).alloc = true) :
    NoNull (bodyCalls dma k) := by
  rw [bodyCalls_of_alloc h]
  intro c hc
  simp only [List.mem_cons, List.not_mem_nil, or_false] at hc
  rcases hc with rfl | rfl | rfl
  · simp
  · simp
  · simp

/-- How the body fails. -/
def bodyError (d : Dma) : SetupError := if d.alloc then .failed else .fault

/-- The error of a failing iteration. -/
theorem allocBuf_of_fails {i : Fin n} (h : ¬ (dma (no i)).Succeeds) (p : BufPool n) :
    allocBuf (dma ∘ no) p i = .error (bodyError (dma (no i))) := by
  by_cases halloc : (dma (no i)).alloc = true
  · have hphys : (dma (no i)).phys = 0 := by
      by_contra hne
      exact h ⟨halloc, hne⟩
    simp [allocBuf, bodyError, halloc, hphys]
  · simp [allocBuf, bodyError, halloc]

theorem allocLoop_cons {p p' : BufPool n} {i : Fin n} (h : allocBuf (dma ∘ no) p i = .ok p')
    (is : List (Fin n)) :
    allocLoop dma no p (i :: is) =
      (bodyCalls dma (no i) ++ (allocLoop dma no p' is).1, (allocLoop dma no p' is).2) := by
  rw [allocLoop, h]

theorem allocLoop_cons_of_error {p : BufPool n} {i : Fin n} {err : SetupError}
    (h : allocBuf (dma ∘ no) p i = .error err) (is : List (Fin n)) :
    allocLoop dma no p (i :: is) = (bodyCalls dma (no i), .error err) := by
  rw [allocLoop, h]

/-- A loop that does not fail goes on with the rest of the buffers. -/
theorem allocLoop_append {p p' : BufPool n} {is : List (Fin n)} {calls : List DmaCall}
    (h : allocLoop dma no p is = (calls, .ok p')) (js : List (Fin n)) :
    allocLoop dma no p (is ++ js) =
      (calls ++ (allocLoop dma no p' js).1, (allocLoop dma no p' js).2) := by
  induction is generalizing p calls with
  | nil =>
    rw [allocLoop, Prod.mk.injEq] at h
    obtain ⟨rfl, hp⟩ := h
    obtain rfl := Except.ok.inj hp
    rfl
  | cons i is ih =>
    rw [List.cons_append]
    cases hbody : allocBuf (dma ∘ no) p i with
    | error err =>
      rw [allocLoop_cons_of_error hbody] at h
      cases (Prod.mk.inj h).2
    | ok p₁ =>
      rw [allocLoop_cons hbody] at h ⊢
      obtain ⟨hcalls, hp⟩ := Prod.mk.inj h
      rw [ih (Prod.ext rfl hp), ← hcalls, List.append_assoc]

/-- The first `k` rounds, when they do not fail. -/
theorem allocLoop_take {k : ℕ} (hk : k ≤ n) (h : ∀ i : Fin n, i.val < k → (dma (no i)).Succeeds) :
    ∃ calls, NoNull calls ∧ allocLoop dma no .boot ((List.finRange n).take k) =
      (calls, .ok (allocated (dma ∘ no) k)) := by
  induction k with
  | zero =>
    refine ⟨[], ?_, ?_⟩
    · intro c hc
      cases hc
    · rw [List.take_zero, allocated_zero]
      rfl
  | succ k ih =>
    obtain ⟨calls, hnull, hloop⟩ := ih (by omega) fun i hi => h i (by omega)
    have hsucc := h ⟨k, hk⟩ (Nat.lt_succ_self k)
    have hround : allocBuf (dma ∘ no) (allocated (dma ∘ no) k) ⟨k, hk⟩ =
        .ok (allocated (dma ∘ no) (k + 1)) := allocBuf_allocated hsucc
    have hlast : allocLoop dma no (allocated (dma ∘ no) k) [⟨k, hk⟩] =
        (bodyCalls dma (no ⟨k, hk⟩), .ok (allocated (dma ∘ no) (k + 1))) := by
      rw [allocLoop_cons hround, allocLoop, List.append_nil]
    have htake : (List.finRange n).take (k + 1) = (List.finRange n).take k ++ [⟨k, hk⟩] := by
      have hlen : k < (List.finRange n).length := by rwa [List.length_finRange]
      rw [List.take_add_one, List.getElem?_eq_getElem hlen, List.getElem_finRange]
      rfl
    refine ⟨calls ++ bodyCalls dma (no ⟨k, hk⟩), hnull.append (noNull_bodyCalls hsucc.1), ?_⟩
    rw [htake, allocLoop_append hloop, hlast]

theorem allocLoop_of_succeeds (h : ∀ i, (dma (no i)).Succeeds) :
    ∃ calls, NoNull calls ∧
      allocLoop dma no .boot (List.finRange n) = (calls, .ok (.full (dma ∘ no))) := by
  have htake := allocLoop_take (Nat.le_refl n) fun i _ => h i
  rwa [List.take_of_length_le (by simp), allocated_self] at htake

/-- The loop ends in the round of the first buffer that fails. -/
theorem allocLoop_of_fails {i : Fin n} (hbefore : ∀ j < i, (dma (no j)).Succeeds)
    (hfails : ¬ (dma (no i)).Succeeds) :
    ∃ calls, NoNull calls ∧ allocLoop dma no .boot (List.finRange n) =
      (calls ++ bodyCalls dma (no i), .error (bodyError (dma (no i)))) := by
  obtain ⟨calls, hnull, hloop⟩ := allocLoop_take i.isLt.le fun j hj => hbefore j hj
  refine ⟨calls, hnull, ?_⟩
  have hdrop : List.finRange n =
      (List.finRange n).take i ++ i :: (List.finRange n).drop (i + 1) := by
    have hlen : i.val < (List.finRange n).length := by
      rw [List.length_finRange]
      exact i.isLt
    have hcons := List.drop_eq_getElem_cons hlen
    rw [List.getElem_finRange] at hcons
    exact (List.take_append_drop i.val _).symm.trans (congrArg _ hcons)
  rw [hdrop, allocLoop_append hloop, allocLoop_cons_of_error (allocBuf_of_fails hfails _)]

/-! ### Both loops -/

/-- A pool that has been filled is stocked. -/
theorem BufPool.stocked_full {d : Fin n → Dma} (h : ∀ i, (d i).Succeeds) :
    (BufPool.full d).Stocked := by
  refine ⟨.full d, fun i => ?_, fun i => ?_⟩
  · rw [get_full]
    exact Option.some_ne_none _
  · rw [get_full]
    exact (h i).2

/-- When every allocation succeeds so does the setup. -/
theorem setupEth0_of_succeeds (h : ∀ k, (dma k).Succeeds) :
    NoNull (setupEth0 dma).1 ∧
      ∃ pools, (setupEth0 dma).2 = .ok pools ∧ pools.rx.Stocked ∧ pools.tx.Stocked := by
  have hrxAll : ∀ i : Fin rxBufs, (dma (Fin.castAdd txBufs i)).Succeeds := fun i => h _
  have htxAll : ∀ i : Fin txBufs, (dma (Fin.natAdd rxBufs i)).Succeeds := fun i => h _
  obtain ⟨calls, hnull, hrx⟩ := allocLoop_of_succeeds hrxAll
  obtain ⟨calls', hnull', htx⟩ := allocLoop_of_succeeds htxAll
  unfold setupEth0
  rw [hrx, htx]
  refine ⟨hnull.append hnull', _, rfl, ?_, ?_⟩
  · exact BufPool.stocked_full hrxAll
  · exact BufPool.stocked_full htxAll

/-- Setup ends with the first allocation that fails. -/
theorem setupEth0_of_fails {k : Allocation} (h : FirstFailure dma k) :
    ∃ calls, NoNull calls ∧
      setupEth0 dma = (calls ++ bodyCalls dma k, .error (bodyError (dma k))) := by
  obtain ⟨hbefore, hfails⟩ := h
  cases k using Fin.addCases with
  | left i =>
    obtain ⟨calls, hnull, hrx⟩ := allocLoop_of_fails
      (fun j hj => hbefore (Fin.castAdd txBufs j) hj) hfails
    refine ⟨calls, hnull, ?_⟩
    unfold setupEth0
    rw [hrx]
  | right i =>
    have hrxAll : ∀ j : Fin rxBufs, (dma (Fin.castAdd txBufs j)).Succeeds := by
      intro j
      apply hbefore
      rw [Fin.lt_def, Fin.val_castAdd, Fin.val_natAdd]
      omega
    obtain ⟨calls, hnull, hrx⟩ := allocLoop_of_succeeds hrxAll
    have htxBefore : ∀ j < i, (dma (Fin.natAdd rxBufs j)).Succeeds := by
      intro j hj
      apply hbefore
      rw [Fin.lt_def, Fin.val_natAdd, Fin.val_natAdd]
      exact Nat.add_lt_add_left hj rxBufs
    obtain ⟨calls', hnull', htx⟩ := allocLoop_of_fails htxBefore hfails
    refine ⟨calls ++ calls', hnull.append hnull', ?_⟩
    unfold setupEth0
    rw [hrx, htx, List.append_assoc]
    rfl

/-- Of the allocations that fail one is the first. -/
theorem exists_firstFailure (h : ¬ ∀ k, (dma k).Succeeds) : ∃ k, FirstFailure dma k := by
  obtain ⟨k, hk⟩ := not_forall.mp h
  induction k using WellFoundedLT.induction with
  | ind k ih =>
    by_cases hbefore : ∀ j < k, (dma j).Succeeds
    · exact ⟨k, hbefore, hk⟩
    · push Not at hbefore
      obtain ⟨j, hj, hfails⟩ := hbefore
      exact ih j hj hfails

/-- **Failed allocations**: setup does what it should exactly when the first allocation that fails,
if there is one, has got a block. -/
theorem setupMeetsSpec_iff (dma : Allocation → Dma) :
    SetupMeetsSpec dma ↔ ∀ k, (∀ j < k, (dma j).Succeeds) → (dma k).alloc = true := by
  constructor
  · intro h k hbefore
    by_contra hnull
    rw [Bool.not_eq_true] at hnull
    have hfirst : FirstFailure dma k := ⟨hbefore, fun hsucc => by simp [hsucc.1] at hnull⟩
    obtain ⟨calls, -, hsetup⟩ := setupEth0_of_fails hfirst
    have hcalls := h.noNull
    rw [hsetup, bodyCalls_of_null hnull] at hcalls
    exact (hcalls (.memset none) (by simp)).1 rfl
  · intro h
    by_cases hall : ∀ k, (dma k).Succeeds
    · obtain ⟨hnull, hpools⟩ := setupEth0_of_succeeds hall
      exact ⟨hnull, fun k hk => absurd (hall k) hk.fails, fun _ => hpools⟩
    · obtain ⟨k, hk⟩ := exists_firstFailure hall
      have halloc := h k hk.before
      obtain ⟨calls, hnull, hsetup⟩ := setupEth0_of_fails hk
      refine ⟨?_, ?_, fun hsucc => absurd hsucc hall⟩
      · rw [hsetup]
        exact hnull.append (noNull_bodyCalls halloc)
      · intro k' hk'
        have hkk' : k' = k := by
          rcases lt_trichotomy k' k with hlt | heq | hgt
          · exact absurd (hk.before k' hlt) hk'.fails
          · exact heq
          · exact absurd (hk'.before k hgt) hk.fails
        subst hkk'
        rw [hsetup, bodyCalls_of_alloc halloc]
        simp [bodyError, failingCall, halloc]

/-- No DMA memory at all. -/
def noDma (_ : Allocation) : Dma where
  alloc := false
  phys := 0

/-- When `ps_dma_alloc` returns `NULL` for the first buffer, `memset` is called on it. -/
theorem not_setupMeetsSpec_noDma : ¬ SetupMeetsSpec noDma := by
  intro h
  have hfirst : FirstFailure noDma ⟨0, by decide⟩ :=
    ⟨fun j hj => absurd hj (Nat.not_lt_zero j), fun hsucc => Bool.noConfusion hsucc.1⟩
  obtain ⟨calls, -, hsetup⟩ := setupEth0_of_fails hfirst
  have hcalls := h.noNull
  rw [hsetup, bodyCalls_of_null rfl] at hcalls
  exact (hcalls (.memset none) (by simp)).1 rfl

end Camkes.PicotcpSingle.Ethdriver
