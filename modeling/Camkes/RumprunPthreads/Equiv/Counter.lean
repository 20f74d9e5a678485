import Camkes.RumprunPthreads.Equiv.Steps

/-!
# The counter of `rumprun_pthreads`

`Inv` is what holds in every reachable state: the mutex guards the critical sections, the counter is
what the threads have added to it, and `watch_count` only waits for a signal that is still to come.
-/

namespace Camkes.RumprunPthreads

open Locking (Guards)

variable {n limit : ℕ} {s s' : State} {k : Fin 2}

/-! ### What has been added -/

/-- How often a thread has incremented the counter. -/
def IncAt.added (n : ℕ) : IncAt → ℕ
  | unborn => 0
  | lock i | load i | store i _ => i
  | test i | signal i | unlock i => i + 1
  | exited => n

def WatchAt.added : WatchAt → ℕ
  | unlock | exited => 125
  | _ => 0

def State.incsAdded (n : ℕ) (s : State) : ℕ := (s.incs 0).added n + (s.incs 1).added n

/-- The number of the round is in range. -/
def IncAt.InRange (n : ℕ) : IncAt → Prop
  | lock i | load i | store i _ | test i | signal i | unlock i => i < n
  | _ => True

/-- `watch_count` has left its loop. -/
def WatchAt.passed : WatchAt → Bool
  | load | store _ | unlock | exited => true
  | _ => false

/-- Between the increment and the signal. -/
def IncAt.signalling : IncAt → Bool
  | test _ | signal _ => true
  | _ => false

/-- Behind round `i`, `i + 1` has been added. -/
theorem loopHead_added_succ {i : ℕ} (hi : i < n) :
    (loopHead n (i + 1)).added n = i + 1 := by
  rw [loopHead]
  split_ifs with h
  · rfl
  · show n = i + 1
    omega

theorem loopHead_inRange (n i : ℕ) : (loopHead n i).InRange n := by
  rw [loopHead]
  split_ifs with h
  · exact h
  · trivial

theorem condSignal_added (w : WatchAt) : (condSignal w).added = w.added := by
  cases w <;> rfl

theorem condSignal_passed (w : WatchAt) : (condSignal w).passed = w.passed := by
  cases w <;> rfl

theorem condSignal_ne_wait {w : WatchAt} (h : condSignal w = .wait ∨ condSignal w = .waiting) :
    w = .wait := by
  cases w <;> simp_all [condSignal]

theorem condSignal_eq_store_iff {w : WatchAt} {v : ℕ} : condSignal w = .store v ↔ w = .store v := by
  cases w <;> simp [condSignal]

theorem IncAt.inside_of_signalling {p : IncAt} (h : p.signalling = true) : p.inside = true := by
  cases p <;> simp_all [IncAt.signalling, IncAt.inside]

/-! ### What the steps of `inc_count` do -/

theorem eq_zero_or_one (k : Fin 2) : k = 0 ∨ k = 1 := by
  revert k
  decide

namespace IncStep

variable (hs : IncStep n limit s k s')
include hs

theorem incs_of_ne {j : Fin 2} (hj : j ≠ k) : s'.incs j = s.incs j := by
  cases hs <;> simp [hj]

theorem main_eq : s'.main = s.main := by
  cases hs <;> rfl

theorem watch_added : s'.watch.added = s.watch.added := by
  cases hs with
  | signal => exact condSignal_added s.watch
  | _ => rfl

theorem watch_passed : s'.watch.passed = s.watch.passed := by
  cases hs with
  | signal => exact condSignal_passed s.watch
  | _ => rfl

theorem watch_eq_store_iff {v : ℕ} : s'.watch = .store v ↔ s.watch = .store v := by
  cases hs with
  | signal => exact condSignal_eq_store_iff
  | _ => rfl

theorem inRange (hrange : (s.incs k).InRange n) : (s'.incs k).InRange n := by
  cases hs with
  | unlock hpc =>
    show ((s.setInc k _).incs k).InRange n
    simp [loopHead_inRange]
  | _ hpc =>
    rw [hpc] at hrange
    simpa [IncAt.InRange] using hrange

/-- The thread adds to the counter what it has added. -/
theorem count_add (hrange : (s.incs k).InRange n)
    (hread : ∀ i v, s.incs k = .store i v → v = s.count) :
    s'.count + (s.incs k).added n = s.count + (s'.incs k).added n := by
  cases hs with
  | store hpc =>
    have hv := hread _ _ hpc
    simp [hpc, IncAt.added]
    omega
  | unlock hpc =>
    rw [hpc] at hrange
    have hi := loopHead_added_succ hrange
    simp [hpc, hi]
    rfl
  | _ hpc => simp [hpc, IncAt.added]

/-- What a step of one `inc_count` adds is what the two have added more. -/
theorem incsAdded_add :
    s'.incsAdded n + (s.incs k).added n = s.incsAdded n + (s'.incs k).added n := by
  rcases eq_zero_or_one k with rfl | rfl
  · rw [State.incsAdded, State.incsAdded, hs.incs_of_ne (j := 1) (by decide)]
    omega
  · rw [State.incsAdded, State.incsAdded, hs.incs_of_ne (j := 0) (by decide)]
    omega

/-- Only a thread inside its critical section changes the counter. -/
theorem inside_of_count_ne (hne : s'.count ≠ s.count) : (s.incs k).inside = true := by
  cases hs with
  | store hpc =>
    rw [hpc]
    rfl
  | _ => exact absurd rfl hne

/-- The value that the thread has read. -/
theorem eq_of_store {i v : ℕ} (h : s'.incs k = .store i v) : v = s'.count := by
  cases hs with
  | load hpc =>
    simp at h
    exact h.2.symm
  | unlock hpc =>
    simp [loopHead] at h
    split_ifs at h
  | _ hpc => simp at h

/-- An `inc_count` never takes back what it has added. -/
theorem added_le (hrange : (s.incs k).InRange n) :
    (s.incs k).added n ≤ (s'.incs k).added n := by
  cases hs with
  | unlock hpc =>
    rw [hpc] at hrange
    have hi := loopHead_added_succ hrange
    simp [hpc, hi]
    exact Nat.le.refl
  | _ hpc => simp [hpc, IncAt.added]

end IncStep

theorem WatchStep.incs_eq (hs : WatchStep limit s s') : s'.incs = s.incs := by
  cases hs <;> rfl

theorem WatchStep.main_eq (hs : WatchStep limit s s') : s'.main = s.main := by
  cases hs <;> rfl

/-! ### The invariant -/

/-- The mutex guards the critical sections, the counter is what the threads have added, a thread
that has read it has read its value, and no signal is lost. -/
structure Counter (n limit : ℕ) (s : State) : Prop where
  guards : Guards s.owner s.inside
  count_eq : s.count = s.incsAdded n + s.watch.added
  inRange : ∀ k, (s.incs k).InRange n
  inc_read : ∀ k i v, s.incs k = .store i v → v = s.count
  watch_read : ∀ v, s.watch = .store v → v = s.count
  limit_le : s.watch.passed = true → limit ≤ s.incsAdded n
  -- a thread that waits has not missed the signal
  wakeup : s.watch = .wait ∨ s.watch = .waiting →
    s.count < limit ∨ s.count = limit ∧ ∃ k, (s.incs k).signalling = true

namespace Counter

variable (h : Counter n limit s)
include h

theorem inc_inside_unique {j : Fin 2} (hj : (s.incs j).inside = true)
    (hk : (s.incs k).inside = true) : j = k := by
  have hj' : s.inside (.inc j) = true := hj
  have hk' : s.inside (.inc k) = true := hk
  exact Thread.inc.inj (h.guards.eq_of_inside hj' hk')

theorem watch_inside_eq_false (hk : (s.incs k).inside = true) : s.watch.inside = false := by
  rw [Bool.eq_false_iff]
  intro hw
  have hw' : s.inside .watch = true := hw
  have hk' : s.inside (.inc k) = true := hk
  cases h.guards.eq_of_inside hw' hk'

theorem inc_inside_eq_false (hw : s.watch.inside = true) (k : Fin 2) :
    (s.incs k).inside = false := by
  rw [Bool.eq_false_iff]
  intro hk
  rw [h.watch_inside_eq_false hk] at hw
  cases hw

theorem limit_le_count (hp : s.watch.passed = true) : limit ≤ s.count := by
  have hle := h.limit_le hp
  rw [h.count_eq]
  omega

theorem incsAdded_le (hs : IncStep n limit s k s') : s.incsAdded n ≤ s'.incsAdded n := by
  have hadd := hs.incsAdded_add
  have hle := hs.added_le (h.inRange k)
  omega

theorem signalling_of_inside (hk : (s.incs k).inside = true) {j : Fin 2}
    (hj : (s.incs j).signalling = true) : (s.incs k).signalling = true := by
  rwa [← h.inc_inside_unique (IncAt.inside_of_signalling hj) hk]

/-- An increment is not missed by a waiting thread. -/
theorem wakeup_incStep (hs : IncStep n limit s k s')
    (hw : s'.watch = .wait ∨ s'.watch = .waiting) :
    s'.count < limit ∨ s'.count = limit ∧ ∃ j, (s'.incs j).signalling = true := by
  cases hs with
  | @lock i hpc free =>
    rcases h.wakeup hw with hlt | ⟨-, j, hj⟩
    · exact .inl hlt
    · have hfalse : (s.incs j).inside = false := h.guards.inside_eq_false free (.inc j)
      rw [IncAt.inside_of_signalling hj] at hfalse
      cases hfalse
  | @load i hpc =>
    rcases h.wakeup hw with hlt | ⟨-, j, hj⟩
    · exact .inl hlt
    · have hk := h.signalling_of_inside (k := k) (by rw [hpc]; rfl) hj
      rw [hpc] at hk
      cases hk
  | @store i v hpc =>
    have hv := h.inc_read k i v hpc
    subst hv
    have hlt : s.count < limit := by
      rcases h.wakeup hw with hlt | ⟨-, j, hj⟩
      · exact hlt
      · have hk := h.signalling_of_inside (k := k) (by rw [hpc]; rfl) hj
        rw [hpc] at hk
        cases hk
    show s.count + 1 < limit ∨ s.count + 1 = limit ∧ _
    by_cases heq : s.count + 1 = limit
    · exact .inr ⟨heq, k, by simp [IncAt.signalling]⟩
    · exact .inl (by omega)
  | @reached i hpc heq => exact .inr ⟨heq, k, by simp [IncAt.signalling]⟩
  | @skip i hpc hne =>
    rcases h.wakeup hw with hlt | ⟨heq, -⟩
    · exact .inl hlt
    · exact absurd heq hne
  | signal hpc =>
    -- a waiting thread has been woken, and one before the wait would hold the mutex
    have hwait : s.watch = .wait := condSignal_ne_wait hw
    have hfalse := h.watch_inside_eq_false (k := k) (by rw [hpc]; rfl)
    rw [hwait] at hfalse
    cases hfalse
  | @unlock i hpc =>
    rcases h.wakeup hw with hlt | ⟨-, j, hj⟩
    · exact .inl hlt
    · have hk := h.signalling_of_inside (k := k) (by rw [hpc]; rfl) hj
      rw [hpc] at hk
      cases hk

/-- A step of `inc_count` keeps the counter what the threads have added: between its read and its
write nobody else is inside. -/
theorem incStep (hs : IncStep n limit s k s') : Counter n limit s' where
  guards := guards_incStep h.guards hs
  count_eq := by
    have hcount := h.count_eq
    have hadd := hs.count_add (h.inRange k) (h.inc_read k)
    have hsum := hs.incsAdded_add
    rw [hs.watch_added]
    omega
  inRange j := by
    by_cases hj : j = k
    · subst hj
      exact hs.inRange (h.inRange j)
    · rw [hs.incs_of_ne hj]
      exact h.inRange j
  inc_read j i v hpc := by
    by_cases hj : j = k
    · subst hj
      exact hs.eq_of_store hpc
    · rw [hs.incs_of_ne hj] at hpc
      have hv := h.inc_read j i v hpc
      by_cases hc : s'.count = s.count
      · rw [hc, hv]
      · exact absurd (h.inc_inside_unique (by rw [hpc]; rfl) (hs.inside_of_count_ne hc)) hj
  watch_read v hpc := by
    rw [hs.watch_eq_store_iff] at hpc
    have hv := h.watch_read v hpc
    by_cases hc : s'.count = s.count
    · rw [hc, hv]
    · have hfalse := h.watch_inside_eq_false (hs.inside_of_count_ne hc)
      rw [hpc] at hfalse
      cases hfalse
  limit_le hp := by
    rw [hs.watch_passed] at hp
    exact Nat.le_trans (h.limit_le hp) (h.incsAdded_le hs)
  wakeup := h.wakeup_incStep hs

/-- A step of `watch_count` keeps the counter what the threads have added. -/
theorem watchStep (hs : WatchStep limit s s') : Counter n limit s' where
  guards := guards_watchStep h.guards hs
  count_eq := by
    have hcount := h.count_eq
    cases hs with
    | store hpc =>
      have hv := h.watch_read _ hpc
      rw [hpc] at hcount
      show _ + 125 = s.incsAdded n + 125
      rw [hv, hcount]
      rfl
    | _ hpc =>
      rw [hpc] at hcount
      exact hcount
  inRange := by
    rw [hs.incs_eq]
    exact h.inRange
  inc_read j i v hpc := by
    rw [hs.incs_eq] at hpc
    have hv := h.inc_read j i v hpc
    cases hs with
    | store hw =>
      have hfalse := h.inc_inside_eq_false (by rw [hw]; rfl) j
      rw [hpc] at hfalse
      cases hfalse
    | _ => exact hv
  watch_read v hpc := by
    cases hs with
    | load =>
      cases hpc
      rfl
    | _ => cases hpc
  limit_le hp := by
    rw [State.incsAdded, hs.incs_eq]
    cases hs with
    | pass hpc hle =>
      have hcount := h.count_eq
      rw [hpc] at hcount
      exact Nat.le_trans hle (Nat.le_of_eq hcount)
    | load hpc => exact h.limit_le (by rw [hpc]; rfl)
    | store hpc => exact h.limit_le (by rw [hpc]; rfl)
    | unlock hpc => exact h.limit_le (by rw [hpc]; rfl)
    | _ => cases hp
  wakeup hw := by
    cases hs with
    | goWait hpc hlt => exact .inl hlt
    | wait hpc => exact h.wakeup (.inl hpc)
    | _ => simp at hw

/-- Waking up for no reason changes no counter. -/
theorem spurious (hpc : s.watch = .waiting) : Counter n limit { s with watch := .woken } where
  guards := by
    refine h.guards.move (t := .watch) (fun u hu => ?_) (.keep rfl ?_)
    · cases u with
      | watch => exact absurd rfl hu
      | inc j => rfl
    · simp [State.inside, WatchAt.inside, hpc]
  count_eq := by
    have hcount := h.count_eq
    rw [hpc] at hcount
    exact hcount
  inRange := h.inRange
  inc_read := h.inc_read
  watch_read v hw := by cases hw
  limit_le hp := by cases hp
  wakeup hw := by simp at hw

end Counter

end Camkes.RumprunPthreads
