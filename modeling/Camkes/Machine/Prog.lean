import Mathlib.Logic.Function.Basic
import Mathlib.Data.List.Basic
import Mathlib.Tactic.Common

/-!
# Programs of atomic accesses

A `Prog ι β ο α` works on a memory `ι → β` of cells, one access at a time, and returns an `α`.  It
may wait until a cell has a value, like a loop that polls a flag, or a `wait` on a binary semaphore,
which then stores to the cell in the same access.  It may have an output, and it may `fault`, where
the program that it models has undefined behaviour.

* `Prog.next` is the next access of a program, and `Prog.exec` runs a program that is alone;
* `Executes` says what a program does when it is alone, and has rules for the constructors and for
  `>>=`; of the accesses it only keeps the `effects`, which are those that are not reads.
-/

namespace Camkes

variable {ι β ο α γ : Type} {i : ι}

/-- An access, with the value that was read or stored. -/
inductive Access (ι β ο : Type)
  | read (i : ι) (v : β)
  | write (i : ι) (v : β)
  -- the end of waiting for a cell
  | pass (i : ι) (w : Option β)
  | output (o : ο)
  deriving DecidableEq

namespace Access

/-- The cell that an access stores to. -/
def written : Access ι β ο → Option ι
  | read _ _ => none
  | write i _ => some i
  | pass i w => w.map fun _ => i
  | output _ => none

/-- Whether an access is more than a read. -/
def isEffect : Access ι β ο → Bool
  | read _ _ => false
  | _ => true

/-- The output of an access, if it is one. -/
def output? : Access ι β ο → Option ο
  | output o => some o
  | _ => none

end Access

/-- The accesses that are more than reads. -/
def effects (log : List (Access ι β ο)) : List (Access ι β ο) := log.filter Access.isEffect

@[simp] theorem effects_append (log log' : List (Access ι β ο)) :
    effects (log ++ log') = effects log ++ effects log' :=
  List.filter_append ..

/-- An access that stores is an effect. -/
theorem mem_effects_of_written {log : List (Access ι β ο)} {a : Access ι β ο} (ha : a ∈ log)
    (hi : a.written = some i) : a ∈ effects log := by
  refine List.mem_filter.mpr ⟨ha, ?_⟩
  cases a with
  | read => cases hi
  | write => rfl
  | pass => rfl
  | output => rfl

/-- The outputs are effects. -/
theorem filterMap_output?_effects (log : List (Access ι β ο)) :
    (effects log).filterMap Access.output? = log.filterMap Access.output? := by
  induction log with
  | nil => rfl
  | cons a log ih =>
    cases a with
    | read i v => exact ih
    | write i v => exact ih
    | pass i w => exact ih
    | output o => exact congrArg (o :: ·) ih

inductive Prog (ι β ο α : Type)
  | done (a : α)
  | fault
  | read (i : ι) (k : β → Prog ι β ο α)
  | write (i : ι) (v : β) (k : Prog ι β ο α)
  -- wait for a value with `p` in the cell, and then store `w` to it if there is one
  | await (i : ι) (p : β → Bool) (w : Option β) (k : Prog ι β ο α)
  | output (o : ο) (k : Prog ι β ο α)

namespace Prog

protected def bind : Prog ι β ο α → (α → Prog ι β ο γ) → Prog ι β ο γ
  | done a, f => f a
  | fault, _ => fault
  | read i k, f => read i fun v => (k v).bind f
  | write i v k, f => write i v (k.bind f)
  | await i p w k, f => await i p w (k.bind f)
  | output o k, f => output o (k.bind f)

instance instMonad : Monad (Prog ι β ο) where
  pure := done
  bind := Prog.bind

@[simp] theorem done_bind (a : α) (f : α → Prog ι β ο γ) : (done a : Prog ι β ο α) >>= f = f a :=
  rfl

/-- Returning at the end changes nothing. -/
theorem bind_done (p : Prog ι β ο α) : p >>= done = p := by
  show p.bind done = p
  induction p with
  | done => rfl
  | fault => rfl
  | read i k ih => exact congrArg (read i) (funext ih)
  | write i v k ih => exact congrArg (write i v) ih
  | await i p w k ih => exact congrArg (await i p w) ih
  | output o k ih => exact congrArg (output o) ih

theorem bind_assoc {δ : Type} (p : Prog ι β ο α) (f : α → Prog ι β ο γ)
    (g : γ → Prog ι β ο δ) : p >>= f >>= g = p >>= fun a => f a >>= g := by
  show (p.bind f).bind g = p.bind fun a => (f a).bind g
  induction p with
  | done => rfl
  | fault => rfl
  | read i k ih => exact congrArg (read i) (funext ih)
  | write i v k ih => exact congrArg (write i v) ih
  | await i p w k ih => exact congrArg (await i p w) ih
  | output o k ih => exact congrArg (output o) ih

instance instLawfulMonad : LawfulMonad (Prog ι β ο) :=
  LawfulMonad.mk' _ bind_done (fun _ _ => rfl) bind_assoc

end Prog

section Memory

variable [DecidableEq ι] {m m' : ι → β} {p : Prog ι β ο α}

/-- The memory after something may have been stored to the cell `i`. -/
def stored (m : ι → β) (i : ι) : Option β → ι → β
  | none => m
  | some v => Function.update m i v

namespace Prog

/-- The next access, the memory after it, and the rest of the program.  There is none if the program
is finished, has failed, or has to wait. -/
def next : Prog ι β ο α → (ι → β) → Option (Access ι β ο × (ι → β) × Prog ι β ο α)
  | done _, _ => none
  | fault, _ => none
  | read i k, m => some (.read i (m i), m, k (m i))
  | write i v k, m => some (.write i v, Function.update m i v, k)
  | await i p w k, m => if p (m i) then some (.pass i w, stored m i w, k) else none
  | output o k, m => some (.output o, m, k)

theorem next_await {a : Access ι β ο} {q : β → Bool} {w : Option β} {k k' : Prog ι β ο α}
    (h : (await i q w k).next m = some (a, m', k')) :
    q (m i) = true ∧ a = .pass i w ∧ m' = stored m i w ∧ k' = k := by
  rw [next] at h
  split_ifs at h with hq
  cases h
  exact ⟨hq, rfl, rfl, rfl⟩

/-- The cell that the program waits for. -/
def waitsFor : Prog ι β ο α → Option ι
  | await i _ _ _ => some i
  | _ => none

/-- An access changes no cell but the one that it stores to. -/
theorem next_frame {a : Access ι β ο} {k : Prog ι β ο α} (h : p.next m = some (a, m', k))
    (hi : a.written ≠ some i) : m' i = m i := by
  cases p with
  | done => cases h
  | fault => cases h
  | read j k => cases h; rfl
  | write j v k =>
    cases h
    refine Function.update_of_ne (fun hij => hi ?_) _ _
    rw [hij, Access.written]
  | await j p w k =>
    obtain ⟨-, rfl, rfl, -⟩ := next_await h
    cases w with
    | none => rfl
    | some v =>
      refine Function.update_of_ne (fun hij => hi ?_) _ _
      rw [hij, Access.written, Option.map_some]
  | output o k => cases h; rfl

/-- A program that has to wait does so until its cell changes. -/
theorem next_eq_none (h : p.next m = none) (hcell : ∀ i ∈ p.waitsFor, m' i = m i) :
    p.next m' = none := by
  cases p with
  | done => rfl
  | fault => rfl
  | read => cases h
  | write => cases h
  | await i p w k =>
    rw [next] at h
    split_ifs at h with hp
    rw [next, hcell i rfl, if_neg hp]
  | output => cases h

/-! ### A program that is alone -/

/-- What a program that is alone has done at its end. -/
structure Outcome (ι β ο α : Type) where
  log : List (Access ι β ο)
  value : α
  mem : ι → β

def Outcome.cons (a : Access ι β ο) (o : Outcome ι β ο α) : Outcome ι β ο α :=
  { o with log := a :: o.log }

/-- A program that is alone fails when it has to wait, as it would wait forever. -/
def exec : Prog ι β ο α → (ι → β) → Option (Outcome ι β ο α)
  | done a, m => some { log := [], value := a, mem := m }
  | fault, _ => none
  | read i k, m => ((k (m i)).exec m).map (.cons (.read i (m i)))
  | write i v k, m => (k.exec (Function.update m i v)).map (.cons (.write i v))
  | await i p w k, m => if p (m i) then (k.exec (stored m i w)).map (.cons (.pass i w)) else none
  | output o k, m => (k.exec m).map (.cons (.output o))

/-- A run is over, or begins with the next access. -/
theorem exec_cases {o : Outcome ι β ο α} (h : p.exec m = some o) :
    (p = done o.value ∧ o = { log := [], value := o.value, mem := m }) ∨
      ∃ a m₁ k o₁, p.next m = some (a, m₁, k) ∧ k.exec m₁ = some o₁ ∧ o = o₁.cons a := by
  cases p with
  | done a =>
    obtain rfl := Option.some.inj h
    exact Or.inl ⟨rfl, rfl⟩
  | fault => cases h
  | read i k =>
    obtain ⟨o₁, ho₁, ho⟩ := Option.map_eq_some_iff.mp h
    exact Or.inr ⟨_, _, _, o₁, rfl, ho₁, ho.symm⟩
  | write i v k =>
    obtain ⟨o₁, ho₁, ho⟩ := Option.map_eq_some_iff.mp h
    exact Or.inr ⟨_, _, _, o₁, rfl, ho₁, ho.symm⟩
  | await i p w k =>
    rw [exec] at h
    split_ifs at h with hp
    obtain ⟨o₁, ho₁, ho⟩ := Option.map_eq_some_iff.mp h
    exact Or.inr ⟨_, _, _, o₁, if_pos hp, ho₁, ho.symm⟩
  | output o k =>
    obtain ⟨o₁, ho₁, ho⟩ := Option.map_eq_some_iff.mp h
    exact Or.inr ⟨_, _, _, o₁, rfl, ho₁, ho.symm⟩

/-- Executing a program begins with its next access. -/
theorem exec_of_next {a : Access ι β ο} {k : Prog ι β ο α} (h : p.next m = some (a, m', k)) :
    p.exec m = (k.exec m').map (.cons a) := by
  cases p with
  | done => cases h
  | fault => cases h
  | read => cases h; rfl
  | write => cases h; rfl
  | await i p w k =>
    obtain ⟨hp, rfl, rfl, rfl⟩ := next_await h
    exact if_pos hp
  | output => cases h; rfl

/-- The next access of a sequence is that of its first part. -/
theorem next_bind {a : Access ι β ο} {k : Prog ι β ο α} (h : p.next m = some (a, m', k))
    (f : α → Prog ι β ο γ) : (p >>= f).next m = some (a, m', k >>= f) := by
  cases p with
  | done => cases h
  | fault => cases h
  | read => cases h; rfl
  | write => cases h; rfl
  | await i p w k =>
    obtain ⟨hp, rfl, rfl, rfl⟩ := next_await h
    exact if_pos hp
  | output => cases h; rfl

/-- Executing a sequence is executing its parts. -/
theorem exec_bind {f : α → Prog ι β ο γ} {o : Outcome ι β ο α} {o' : Outcome ι β ο γ}
    (h : p.exec m = some o) (h' : (f o.value).exec o.mem = some o') :
    (p >>= f).exec m = some { o' with log := o.log ++ o'.log } := by
  obtain ⟨log, a, mem⟩ := o
  induction log generalizing p m with
  | nil =>
    rcases exec_cases h with ⟨rfl, ho⟩ | ⟨_, _, _, _, _, _, ho⟩
    · obtain ⟨-, rfl⟩ := (Outcome.mk.inj ho).2
      exact h'
    · cases (Outcome.mk.inj ho).1
  | cons b log ih =>
    rcases exec_cases h with ⟨_, ho⟩ | ⟨b, m₁, k, ⟨log, a, mem⟩, hnext, hk, ho⟩
    · cases (Outcome.mk.inj ho).1
    · cases ho
      rw [exec_of_next (next_bind hnext f), ih hk h']
      rfl

end Prog

/-! ### Specifications -/

/-- Alone, the program goes from `m` to `m'` with these effects and returns `a`. -/
def Executes (p : Prog ι β ο α) (m : ι → β) (a : α) (m' : ι → β) (effs : List (Access ι β ο)) :
    Prop :=
  ∃ log, p.exec m = some { log, value := a, mem := m' } ∧ effects log = effs

namespace Executes

variable {a : α} {effs effs' : List (Access ι β ο)}

theorem done (a : α) (m : ι → β) : Executes (ο := ο) (.done a) m a m [] := ⟨[], rfl, rfl⟩

theorem bind {f : α → Prog ι β ο γ} {c : γ} {m'' : ι → β} (h : Executes p m a m' effs)
    (h' : Executes (f a) m' c m'' effs') : Executes (p >>= f) m c m'' (effs ++ effs') := by
  obtain ⟨log, hexec, rfl⟩ := h
  obtain ⟨log', hexec', rfl⟩ := h'
  exact ⟨log ++ log', Prog.exec_bind hexec hexec', effects_append log log'⟩

/-- A program without effects comes first. -/
theorem bind_of_nil {f : α → Prog ι β ο γ} {c : γ} {m'' : ι → β} (h : Executes p m a m' [])
    (h' : Executes (f a) m' c m'' effs) : Executes (p >>= f) m c m'' effs :=
  h.bind h'

theorem map (h : Executes p m a m' effs) (f : α → γ) : Executes (f <$> p) m (f a) m' effs := by
  have hbind : Executes (p >>= fun a => .done (f a)) m (f a) m' (effs ++ []) := h.bind (done _ m')
  rwa [List.append_nil] at hbind

/-- A cell that no effect stores to keeps its value. -/
theorem frame (h : Executes p m a m' effs) (hi : ∀ e ∈ effs, e.written ≠ some i) : m' i = m i := by
  obtain ⟨log, hexec, rfl⟩ := h
  induction log generalizing p m with
  | nil =>
    rcases Prog.exec_cases hexec with ⟨_, ho⟩ | ⟨_, _, _, _, _, _, ho⟩
    · rw [(Prog.Outcome.mk.inj ho).2.2]
    · cases (Prog.Outcome.mk.inj ho).1
  | cons b log ih =>
    rcases Prog.exec_cases hexec with ⟨_, ho⟩ | ⟨b, m₁, k, ⟨log, a, m'⟩, hnext, hk, ho⟩
    · cases (Prog.Outcome.mk.inj ho).1
    · cases ho
      have hb : b.written ≠ some i := fun hw =>
        hi b (mem_effects_of_written (List.mem_cons_self ..) hw) hw
      have hrest : ∀ e ∈ effects log, e.written ≠ some i := by
        intro e he
        have hmem := List.mem_cons_of_mem b (List.mem_of_mem_filter he)
        exact fun hw => hi e (mem_effects_of_written hmem hw) hw
      rw [ih hk hrest, Prog.next_frame hnext hb]

theorem read {k : β → Prog ι β ο α} (h : Executes (k (m i)) m a m' effs) :
    Executes (.read i k) m a m' effs := by
  obtain ⟨log, hexec, rfl⟩ := h
  refine ⟨.read i (m i) :: log, ?_, rfl⟩
  rw [Prog.exec, hexec]
  rfl

theorem write {v : β} {k : Prog ι β ο α} (h : Executes k (Function.update m i v) a m' effs) :
    Executes (.write i v k) m a m' (.write i v :: effs) := by
  obtain ⟨log, hexec, rfl⟩ := h
  refine ⟨.write i v :: log, ?_, rfl⟩
  rw [Prog.exec, hexec]
  rfl

theorem await {q : β → Bool} {w : Option β} {k : Prog ι β ο α} (hq : q (m i) = true)
    (h : Executes k (stored m i w) a m' effs) :
    Executes (.await i q w k) m a m' (.pass i w :: effs) := by
  obtain ⟨log, hexec, rfl⟩ := h
  refine ⟨.pass i w :: log, ?_, rfl⟩
  rw [Prog.exec, if_pos hq, hexec]
  rfl

theorem output {o : ο} {k : Prog ι β ο α} (h : Executes k m a m' effs) :
    Executes (.output o k) m a m' (.output o :: effs) := by
  obtain ⟨log, hexec, rfl⟩ := h
  refine ⟨.output o :: log, ?_, rfl⟩
  rw [Prog.exec, hexec]
  rfl

end Executes

end Memory

end Camkes
