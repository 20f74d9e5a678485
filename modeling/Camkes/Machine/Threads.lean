import Camkes.Machine.Basic
import Camkes.Machine.Prog

/-!
# Threads on a shared memory

The threads of `machine` run programs of atomic accesses on a shared memory, in any order.  A thread
that cannot go on (it is finished, has failed, or has to wait) leaves the state as it is when it is
its turn.  A thread for which `loop` has a program starts with that one again when it is finished.

Where threads pass control to each other only one of them can go on at a time.  `Path` is the way
that such threads take; `Path.of_run` says that every interleaving is on it, and `path_exec` makes a
path of a program that runs while all other threads wait.
-/

namespace Camkes.Threads

variable {τ ι β ο α : Type}

structure State (τ ι β ο α : Type) where
  mem : ι → β
  -- what is left to run
  rest : τ → Prog ι β ο α
  -- the accesses so far
  log : List (τ × Access ι β ο)

/-- A finished program is started again if there is a loop. -/
def resume (loop : Option (Prog ι β ο α)) : Prog ι β ο α → Prog ι β ο α
  | .done a => loop.getD (.done a)
  | p => p

@[simp] theorem resume_none (p : Prog ι β ο α) : resume none p = p := by
  cases p with
  | done => rfl
  | _ => rfl

section Machine

variable [DecidableEq τ] [DecidableEq ι] (loop : τ → Option (Prog ι β ο α))

/-- The state after an access of the thread `t`. -/
def State.advance (s : State τ ι β ο α) (t : τ) (a : Access ι β ο) (mem : ι → β)
    (k : Prog ι β ο α) : State τ ι β ο α where
  mem := mem
  rest := Function.update s.rest t (resume (loop t) k)
  log := s.log ++ [(t, a)]

/-- It is the turn of the thread `t`. -/
def step (s : State τ ι β ο α) (t : τ) : State τ ι β ο α :=
  match (s.rest t).next s.mem with
  | some (a, mem, k) => s.advance loop t a mem k
  | none => s

/-- Any thread may have its turn at any time. -/
def machine : Machine (State τ ι β ο α) τ where
  ok _ _ := True
  step s t := some (step loop s t)

variable {loop} {s s₀ s₁ sₙ : State τ ι β ο α}

/-- The thread `t` cannot go on. -/
def State.Parked (s : State τ ι β ο α) (t : τ) : Prop := (s.rest t).next s.mem = none

theorem step_of_parked {t : τ} (h : s.Parked t) : step loop s t = s := by
  rw [step, h]

theorem step_of_next {t : τ} {a : Access ι β ο} {mem : ι → β} {k : Prog ι β ο α}
    (h : (s.rest t).next s.mem = some (a, mem, k)) : step loop s t = s.advance loop t a mem k := by
  rw [step, h]

/-! ### One thread at a time -/

/-- A way from one state to another on which only one thread can go on at a time. -/
inductive Path (loop : τ → Option (Prog ι β ο α)) :
    State τ ι β ο α → State τ ι β ο α → Prop
  | refl (s : State τ ι β ο α) : Path loop s s
  | turn {s s' : State τ ι β ο α} (t : τ) (active : ¬ s.Parked t)
      (others : ∀ u ≠ t, s.Parked u) (rest : Path loop (step loop s t) s') : Path loop s s'

namespace Path

theorem trans (h : Path loop s₀ s₁) (h' : Path loop s₁ sₙ) : Path loop s₀ sₙ := by
  induction h with
  | refl => exact h'
  | turn t active others _ ih => exact .turn t active others (ih h')

/-- A path can be run. -/
theorem exists_run (h : Path loop s₀ s₁) : ∃ ts, (machine loop).Run s₀ ts s₁ := by
  induction h with
  | refl => exact ⟨[], .nil⟩
  | turn t _ _ _ ih =>
    obtain ⟨ts, hrun⟩ := ih
    exact ⟨_, Machine.Run.append (.snoc .nil trivial rfl) hrun⟩

/-- Where no thread can go on a path ends. -/
theorem eq_of_parked (h : Path loop s₀ s₁) (hparked : ∀ t, s₀.Parked t) : s₀ = s₁ := by
  cases h with
  | refl => rfl
  | turn t active => exact absurd (hparked t) active

/-- A turn is the next on the path, or does nothing. -/
theorem step (h : Path loop s₀ sₙ) (hend : ∀ t, sₙ.Parked t) (t : τ) :
    Path loop (Threads.step loop s₀ t) sₙ := by
  by_cases hparked : s₀.Parked t
  · rwa [step_of_parked hparked]
  · cases h with
    | refl => exact absurd (hend t) hparked
    | turn u _ others rest =>
      have htu : t = u := by
        by_contra hne
        exact hparked (others t hne)
      rwa [htu]

/-- **Every interleaving is on the path.** -/
theorem of_run (h : Path loop s₀ sₙ) (hend : ∀ t, sₙ.Parked t)
    {ts : List (Transition (State τ ι β ο α) τ)} (hrun : (machine loop).Run s₀ ts s) :
    Path loop s sₙ := by
  refine hrun.invariant (P := fun s => Path loop s sₙ) h fun s t s' hs _ hstep => ?_
  obtain rfl := Option.some.inj hstep
  exact hs.step hend t

/-- A thread that has failed stays so. -/
theorem rest_eq_fault {t : τ} (h : Path loop s₀ s₁) (hfault : s₀.rest t = .fault) :
    s₁.rest t = .fault := by
  induction h with
  | refl => exact hfault
  | @turn s s' u active _ _ ih =>
    have htu : t ≠ u := by
      rintro rfl
      apply active
      rw [State.Parked, hfault, Prog.next]
    refine ih ?_
    cases hnext : (s.rest u).next s.mem with
    | none => exact absurd hnext active
    | some r =>
      obtain ⟨a, mem, k⟩ := r
      rw [step_of_next hnext]
      exact (Function.update_of_ne htu _ _).trans hfault

/-- The log grows along a path. -/
theorem log_prefix (h : Path loop s₀ s₁) : s₀.log <+: s₁.log := by
  induction h with
  | refl => exact List.prefix_refl _
  | @turn s s' t active _ _ ih =>
    refine List.IsPrefix.trans ?_ ih
    cases hnext : (s.rest t).next s.mem with
    | none => exact absurd hnext active
    | some r =>
      obtain ⟨a, mem, k⟩ := r
      rw [step_of_next hnext]
      exact List.prefix_append _ _

end Path

theorem resume_of_next {p : Prog ι β ο α} {m : ι → β} {r : Access ι β ο × (ι → β) × Prog ι β ο α}
    (h : p.next m = some r) (again : Option (Prog ι β ο α)) : resume again p = p := by
  cases p with
  | done => cases h
  | _ => rfl

/-- The state in which `t` has run a program, and goes on with what the program returned. -/
def State.ran (s : State τ ι β ο α) (loop : τ → Option (Prog ι β ο α)) (t : τ) {γ : Type}
    (o : Prog.Outcome ι β ο γ) (f : γ → Prog ι β ο α) : State τ ι β ο α where
  mem := o.mem
  rest := Function.update s.rest t (resume (loop t) (f o.value))
  log := s.log ++ o.log.map (t, ·)

section Exec

variable {γ : Type} {t : τ} {p : Prog ι β ο γ} {f : γ → Prog ι β ο α} {o : Prog.Outcome ι β ο γ}

theorem ran_of_nil (hrest : s.rest t = resume (loop t) (p >>= f)) (hexec : p.exec s.mem = some o)
    (hlog : o.log = []) : s.ran loop t o f = s := by
  rcases Prog.exec_cases hexec with ⟨rfl, ho⟩ | ⟨a, m₁, k, o₁, _, _, rfl⟩
  · have hmem : o.mem = s.mem := by rw [ho]
    rw [State.ran, hlog, hmem, List.map_nil, List.append_nil]
    rw [Prog.done_bind] at hrest
    rw [← hrest, Function.update_eq_self]
  · cases hlog

/-- **A program that runs while the others wait**: it may store to a cell that another thread waits
for in its last access only. -/
theorem path_exec (hrest : s.rest t = resume (loop t) (p >>= f)) (hexec : p.exec s.mem = some o)
    (hothers : ∀ u ≠ t, s.Parked u)
    (hcells : ∀ u ≠ t, ∀ i ∈ (s.rest u).waitsFor, ∀ a ∈ o.log.dropLast, a.written ≠ some i) :
    Path loop s (s.ran loop t o f) := by
  obtain ⟨log, c, mem⟩ := o
  induction log generalizing s p with
  | nil =>
    rw [ran_of_nil hrest hexec rfl]
    exact .refl s
  | cons a log ih =>
    rcases Prog.exec_cases hexec with ⟨_, ho⟩ | ⟨b, m₁, k, o₁, hnext, hk, ho⟩
    · cases (Prog.Outcome.mk.inj ho).1
    obtain ⟨log₁, c₁, mem₁⟩ := o₁
    obtain ⟨rfl, rfl⟩ := List.cons.inj (Prog.Outcome.mk.inj ho).1
    obtain ⟨rfl, rfl⟩ := (Prog.Outcome.mk.inj ho).2
    have hbind := Prog.next_bind hnext f
    rw [← resume_of_next hbind (loop t), ← hrest] at hbind
    -- the rest of the program starts in the state after the first access
    have hrest₁ : (s.advance loop t a m₁ (k >>= f)).rest t = resume (loop t) (k >>= f) :=
      Function.update_self ..
    have hran : (s.advance loop t a m₁ (k >>= f)).ran loop t ⟨log, c, mem⟩ f =
        s.ran loop t ⟨a :: log, c, mem⟩ f := by
      simp [State.ran, State.advance]
    refine .turn t (fun h => ?_) hothers ?_
    · rw [State.Parked, hbind] at h
      cases h
    · rw [step_of_next hbind, ← hran]
      cases log with
      | nil =>
        rw [ran_of_nil hrest₁ hk rfl]
        exact .refl _
      | cons b log =>
        have hother : ∀ u ≠ t, (s.advance loop t a m₁ (k >>= f)).rest u = s.rest u :=
          fun u hu => Function.update_of_ne hu _ _
        refine ih hrest₁ (fun u hu => ?_) hk fun u hu i hi b hb => ?_
        · rw [State.Parked, hother u hu]
          exact Prog.next_eq_none (hothers u hu) fun i hi =>
            Prog.next_frame hnext (hcells u hu i hi a (List.mem_cons_self ..))
        · rw [hother u hu] at hi
          exact hcells u hu i hi b (List.mem_cons_of_mem a hb)

/-- The same from the specification of the program. -/
theorem path_executes {c : γ} {m' : ι → β} {effs : List (Access ι β ο)}
    (hrest : s.rest t = resume (loop t) (p >>= f)) (hexec : Executes p s.mem c m' effs)
    (hothers : ∀ u ≠ t, s.Parked u)
    (hcells : ∀ u ≠ t, ∀ i ∈ (s.rest u).waitsFor, ∀ a ∈ effs, a.written ≠ some i) :
    ∃ log, effects log = effs ∧ Path loop s
      { mem := m'
        rest := Function.update s.rest t (resume (loop t) (f c))
        log := s.log ++ log.map (t, ·) } := by
  obtain ⟨log, hlog, rfl⟩ := hexec
  refine ⟨log, rfl, path_exec hrest hlog hothers fun u hu i hi a ha hwritten => ?_⟩
  exact hcells u hu i hi a (mem_effects_of_written (List.dropLast_subset _ ha) hwritten) hwritten

end Exec

/-- A write, which may be to a cell that another thread waits for. -/
theorem path_write (loop : τ → Option (Prog ι β ο α)) {t : τ} {i : ι} {v : β}
    {k : Prog ι β ο α} (hrest : s.rest t = .write i v k)
    (hothers : ∀ u ≠ t, s.Parked u) :
    Path loop s (s.advance loop t (.write i v) (Function.update s.mem i v) k) := by
  have hnext : (s.rest t).next s.mem = some (.write i v, Function.update s.mem i v, k) := by
    rw [hrest, Prog.next]
  refine .turn t (fun h => ?_) hothers ?_
  · rw [State.Parked, hnext] at h
    cases h
  · rw [step_of_next hnext]
    exact .refl _

end Machine

end Camkes.Threads
