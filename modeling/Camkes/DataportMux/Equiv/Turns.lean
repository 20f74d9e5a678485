import Camkes.DataportMux.Basic

/-!
# Turns on the dataport

A component that has its turn keeps it until it has incremented the value, so no compare-and-swap
fails (`increments_in_turn`).  The value may pass the limit, by less than the number of components:
each may have checked the limit before and increments the value once more, but not the one whose
increment gets there (`Inv.turn_ended`).
-/

namespace Camkes.DataportMux

variable {n limit : ℕ} {s s' : State n} {c d : Fin n} {ts : List (Transition (State n) (Fin n))}

/-! ### Steps -/

@[simp] theorem goto_pc (s : State n) (c d : Fin n) (p : At) :
    (s.goto c p).pc d = if d = c then p else s.pc d :=
  Function.update_apply ..

@[simp] theorem goto_value (s : State n) (c : Fin n) (p : At) : (s.goto c p).value = s.value := rfl

@[simp] theorem goto_log (s : State n) (c : Fin n) (p : At) : (s.goto c p).log = s.log := rfl

/-- What a component does in its turn. -/
inductive Step (limit : ℕ) (s : State n) (c : Fin n) : State n → Prop
  | enter (hpc : s.pc c = .outer) (hlt : s.value < limit) : Step limit s c (s.goto c .wait)
  | leave (hpc : s.pc c = .outer) (hle : limit ≤ s.value) : Step limit s c (s.goto c .finish)
  | turn (hpc : s.pc c = .wait) (hturn : s.value % n = c) : Step limit s c (s.goto c .read)
  | read (hpc : s.pc c = .read) : Step limit s c (s.goto c (.print s.value))
  | print {v : ℕ} (hpc : s.pc c = .print v) :
      Step limit s c { s.goto c (.swap v) with log := s.log ++ [.myTurn c v] }
  | swap (hpc : s.pc c = .swap s.value) :
      Step limit s c { s.goto c .outer with value := s.value + 1 }
  | last (hpc : s.pc c = .finish) (hlast : (c : ℕ) + 1 = n) :
      Step limit s c { s.goto c .done with log := s.log ++ [.weAreDone c] }
  | finish (hpc : s.pc c = .finish) (hlast : (c : ℕ) + 1 ≠ n) : Step limit s c (s.goto c .done)

/-- What a step of a component can do. -/
theorem step_of_machine (hok : (machine n limit).ok s c)
    (h : (machine n limit).step s c = some s') : Step limit s c s' := by
  have hok' : s.ok c := hok
  have h' : s.step limit c = some s' := h
  rw [State.step] at h'
  rw [State.ok] at hok'
  cases hpc : s.pc c with
  | outer =>
    simp only [hpc] at h'
    rw [← Option.some.inj h']
    split_ifs with hlt
    · exact .enter hpc hlt
    · exact .leave hpc (Nat.le_of_not_lt hlt)
  | wait =>
    simp only [hpc] at h' hok'
    rw [← Option.some.inj h']
    exact .turn hpc hok'
  | read =>
    simp only [hpc] at h'
    rw [← Option.some.inj h']
    exact .read hpc
  | print v =>
    simp only [hpc] at h'
    rw [← Option.some.inj h']
    exact .print hpc
  | swap v =>
    simp only [hpc] at h'
    split_ifs at h' with heq
    subst heq
    rw [← Option.some.inj h']
    exact .swap hpc
  | finish =>
    simp only [hpc] at h'
    split_ifs at h' with hlast
    · rw [← Option.some.inj h']
      exact .last hpc hlast
    · rw [← Option.some.inj h']
      exact .finish hpc hlast
  | done =>
    simp only [hpc] at hok'

/-! ### The invariant -/

/-- It is the component's turn. -/
def At.holds : At → Bool
  | read | print _ | swap _ => true
  | _ => false

/-- The value that the component has read. -/
def At.oldval : At → Option ℕ
  | print v | swap v => some v
  | _ => none

/-- In the loop. -/
def At.looping : At → Bool
  | wait | read | print _ | swap _ => true
  | _ => false

def At.swapping : At → Bool
  | swap _ => true
  | _ => false

/-- The turn that gets the value to the limit. -/
def lastTurn (n limit : ℕ) : ℕ := (limit + n - 1) % n

/-- The first `k` turns. -/
def turns (n k : ℕ) : List Line := (List.range k).map fun v => .myTurn (v % n) v

def Line.isTurn : Line → Bool
  | myTurn _ _ => true
  | _ => false

/-- Whose turn it is follows from the value: only that component is behind its test, what it has
read is the value, the components end after the limit, and the lines printed are those of the turns
so far. -/
structure Inv (limit : ℕ) (s : State n) : Prop where
  turn : ∀ c, (s.pc c).holds = true → s.value % n = c
  oldval_eq : ∀ c v, (s.pc c).oldval = some v → v = s.value
  ended : ∀ c, s.pc c = .finish ∨ s.pc c = .done → limit ≤ s.value
  turn_ended : limit ≤ s.value → ∀ c : Fin n, (c : ℕ) = lastTurn n limit →
    (s.pc c).looping = false
  le : s.value ≤ limit + (n - 1)
  printed : (∀ c, (s.pc c).swapping = false) → s.log.filter Line.isTurn = turns n s.value
  printing : ∀ c, (s.pc c).swapping = true → s.log.filter Line.isTurn = turns n (s.value + 1)

theorem turns_succ (n k : ℕ) : turns n (k + 1) = turns n k ++ [.myTurn (k % n) k] := by
  simp [turns, List.range_succ]

theorem At.holds_of_swapping {p : At} (h : p.swapping = true) : p.holds = true := by
  cases p <;> simp_all [At.holds, At.swapping]

theorem At.looping_of_holds {p : At} (h : p.holds = true) : p.looping = true := by
  cases p <;> simp_all [At.holds, At.looping]

theorem At.holds_of_oldval {p : At} {v : ℕ} (h : p.oldval = some v) : p.holds = true := by
  cases p <;> simp_all [At.holds, At.oldval]

namespace Inv

variable (h : Inv limit s)
include h

/-- One component has its turn at a time. -/
theorem eq_of_holds (hc : (s.pc c).holds = true) (hd : (s.pc d).holds = true) : c = d :=
  Fin.ext ((h.turn c hc).symm.trans (h.turn d hd))

theorem swapping_eq_false (hc : (s.pc c).holds = true) (hnot : (s.pc c).swapping = false)
    (d : Fin n) : (s.pc d).swapping = false := by
  rw [Bool.eq_false_iff]
  intro hd
  rw [h.eq_of_holds (At.holds_of_swapping hd) hc, hnot] at hd
  cases hd

/-- The component whose turn it is has not left the loop for good. -/
theorem value_lt (hc : (s.pc c).holds = true) : s.value < limit + (n - 1) := by
  have hle := h.le
  have hturn := h.turn c hc
  refine Nat.lt_of_le_of_ne hle fun heq => ?_
  have hpos : 0 < n := Fin.pos c
  have hlast : (c : ℕ) = lastTurn n limit := by
    rw [lastTurn, ← hturn, heq]
    congr 1
    omega
  have hfalse := h.turn_ended (by omega) c hlast
  rw [At.looping_of_holds hc] at hfalse
  cases hfalse

/-- A step that leaves the value alone and prints no turn. -/
theorem goto {p : At} (hpc : s'.pc = Function.update s.pc c p) (hvalue : s'.value = s.value)
    (hlog : s'.log.filter Line.isTurn = s.log.filter Line.isTurn)
    (hturn : p.holds = true → s.value % n = c) (hold : ∀ v, p.oldval = some v → v = s.value)
    (hended : p = .finish ∨ p = .done → limit ≤ s.value)
    (hloop : limit ≤ s.value → p.looping = true → (s.pc c).looping = true)
    (hswap : p.swapping = (s.pc c).swapping) : Inv limit s' := by
  have hself : s'.pc c = p := by rw [hpc, Function.update_self]
  have hother : ∀ d ≠ c, s'.pc d = s.pc d := by
    intro d hd
    rw [hpc, Function.update_of_ne hd]
  have hswapping : ∀ d, (s'.pc d).swapping = (s.pc d).swapping := by
    intro d
    by_cases hd : d = c
    · rw [hd, hself, hswap]
    · rw [hother d hd]
  exact {
    turn := by
      intro d hd
      rw [hvalue]
      by_cases hdc : d = c
      · subst hdc
        rw [hself] at hd
        exact hturn hd
      · rw [hother d hdc] at hd
        exact h.turn d hd
    oldval_eq := by
      intro d v hv
      rw [hvalue]
      by_cases hdc : d = c
      · subst hdc
        rw [hself] at hv
        exact hold v hv
      · rw [hother d hdc] at hv
        exact h.oldval_eq d v hv
    ended := by
      intro d hd
      rw [hvalue]
      by_cases hdc : d = c
      · subst hdc
        rw [hself] at hd
        exact hended hd
      · rw [hother d hdc] at hd
        exact h.ended d hd
    turn_ended := by
      intro hle d hd
      rw [hvalue] at hle
      have hfalse := h.turn_ended hle d hd
      by_cases hdc : d = c
      · subst hdc
        rw [hself, Bool.eq_false_iff]
        intro hp
        rw [hloop hle hp] at hfalse
        cases hfalse
      · rwa [hother d hdc]
    le := by
      rw [hvalue]
      exact h.le
    printed := by
      intro hnot
      rw [hlog, hvalue]
      exact h.printed fun d => (hswapping d).symm.trans (hnot d)
    printing := by
      intro d hd
      rw [hlog, hvalue]
      exact h.printing d ((hswapping d).symm.trans hd) }

/-- Printing the turn keeps the invariant. -/
theorem print {v : ℕ} (hpc : s.pc c = .print v) :
    Inv limit { s.goto c (.swap v) with log := s.log ++ [.myTurn c v] } := by
  have hv : v = s.value := h.oldval_eq c v (by rw [hpc]; rfl)
  subst hv
  have hholds : (s.pc c).holds = true := by rw [hpc]; rfl
  have hturn := h.turn c hholds
  have hlog : (s.log ++ [Line.myTurn c s.value]).filter Line.isTurn = turns n (s.value + 1) := by
    have hprinted := h.printed (h.swapping_eq_false hholds (by rw [hpc]; rfl))
    simp [hprinted, turns_succ, hturn, Line.isTurn]
  refine { turn := fun d hd => ?_, oldval_eq := fun d v hv => ?_, ended := fun d hd => ?_,
           turn_ended := fun hle d hd => ?_, le := h.le, printed := fun hnot => ?_,
           printing := fun _ _ => hlog }
  · by_cases hdc : d = c
    · rw [hdc]
      exact hturn
    · exact h.turn d (by simpa [hdc] using hd)
  · by_cases hdc : d = c
    · subst hdc
      simp [At.oldval] at hv
      exact hv.symm
    · exact h.oldval_eq d v (by simpa [hdc] using hv)
  · by_cases hdc : d = c
    · simp [hdc] at hd
    · exact h.ended d (by simpa [hdc] using hd)
  · have hfalse := h.turn_ended hle d hd
    by_cases hdc : d = c
    · rw [hdc, hpc] at hfalse
      cases hfalse
    · simpa [hdc] using hfalse
  · have hc := hnot c
    simp [At.swapping] at hc

/-- The increment succeeds and makes it the next component's turn. -/
theorem swap (hpc : s.pc c = .swap s.value) :
    Inv limit { s.goto c .outer with value := s.value + 1 } := by
  have hholds : (s.pc c).holds = true := by rw [hpc]; rfl
  -- nobody else has its turn
  have hnot : ∀ d, ((s.goto c .outer).pc d).holds = false := by
    intro d
    by_cases hdc : d = c
    · simp [hdc, At.holds]
    · rw [Bool.eq_false_iff]
      intro hd
      simp [hdc] at hd
      exact hdc (h.eq_of_holds hd hholds)
  have hfalse {d : Fin n} {P : Prop} (hd : ((s.goto c .outer).pc d).holds = true) : P := by
    rw [hnot d] at hd
    cases hd
  refine { turn := fun d hd => hfalse hd, oldval_eq := fun d v hv => hfalse (At.holds_of_oldval hv),
           ended := fun d hd => ?_, turn_ended := fun hle d hd => ?_,
           le := h.value_lt hholds, printed := fun _ => h.printing c (by rw [hpc]; rfl),
           printing := fun d hd => hfalse (At.holds_of_swapping hd) }
  · by_cases hdc : d = c
    · simp [hdc] at hd
    · exact Nat.le_succ_of_le (h.ended d (by simpa [hdc] using hd))
  · by_cases hdc : d = c
    · simp [hdc, At.looping]
    · have hpos : 0 < n := Fin.pos c
      have hne : limit ≠ s.value + 1 := by
        rintro rfl
        refine hdc (Fin.ext ?_)
        rw [hd, lastTurn, show s.value + 1 + n - 1 = s.value + n by omega, Nat.add_mod_right]
        exact h.turn c hholds
      have hle' : limit ≤ s.value + 1 := hle
      simpa [hdc] using h.turn_ended (by omega) d hd

/-- Every step keeps the invariant. -/
theorem step (hs : Step limit s c s') : Inv limit s' := by
  cases hs with
  | enter hpc hlt =>
    exact h.goto (p := .wait) rfl rfl rfl (fun hp => by cases hp) (fun _ hv => by cases hv)
      (by simp) (fun hle => absurd hlt (Nat.not_lt_of_le hle)) (by rw [hpc]; rfl)
  | leave hpc hle =>
    exact h.goto (p := .finish) rfl rfl rfl (fun hp => by cases hp) (fun _ hv => by cases hv)
      (fun _ => hle) (fun _ hp => by cases hp) (by rw [hpc]; rfl)
  | turn hpc hturn =>
    exact h.goto (p := .read) rfl rfl rfl (fun _ => hturn) (fun _ hv => by cases hv)
      (by simp) (fun _ _ => by rw [hpc]; rfl) (by rw [hpc]; rfl)
  | read hpc =>
    exact h.goto (p := .print s.value) rfl rfl rfl (fun _ => h.turn c (by rw [hpc]; rfl))
      (fun _ hv => (Option.some.inj hv).symm) (by simp) (fun _ _ => by rw [hpc]; rfl)
      (by rw [hpc]; rfl)
  | print hpc => exact h.print hpc
  | swap hpc => exact h.swap hpc
  | last hpc hlast =>
    exact h.goto (p := .done) rfl rfl (by simp [Line.isTurn]) (fun hp => by cases hp)
      (fun _ hv => by cases hv) (fun _ => h.ended c (.inl hpc)) (fun _ hp => by cases hp)
      (by rw [hpc]; rfl)
  | finish hpc hlast =>
    exact h.goto (p := .done) rfl rfl rfl (fun hp => by cases hp)
      (fun _ hv => by cases hv) (fun _ => h.ended c (.inl hpc)) (fun _ hp => by cases hp)
      (by rw [hpc]; rfl)

end Inv

theorem inv_init (n limit : ℕ) : Inv limit (.init n) where
  turn _ h := by cases h
  oldval_eq _ _ h := by cases h
  ended _ h := by simp [State.init] at h
  turn_ended _ _ _ := rfl
  le := Nat.zero_le _
  printed _ := rfl
  printing _ h := by cases h

/-- The invariant holds in every reachable state. -/
theorem inv_of_run (hrun : (machine n limit).Run (.init n) ts s) : Inv limit s :=
  hrun.invariant (inv_init n limit) fun _ _ _ h hok hstep => h.step (step_of_machine hok hstep)

/-- No step fails: the compare-and-swap finds the value it expects. -/
theorem Inv.isSome_step (h : Inv limit s) (c : Fin n) : (s.step limit c).isSome := by
  rw [State.step]
  split
  · rfl
  · rfl
  · rfl
  · rfl
  · rename_i v hpc
    rw [if_pos (h.oldval_eq c v (by rw [hpc]; rfl)).symm]
    rfl
  · split_ifs <;> rfl
  · rfl

/-- **Safety**: no compare-and-swap fails.  The components increment the value in turn, each saying
so before, and at most `limit + n - 1` times. -/
theorem increments_in_turn (hrun : (machine n limit).Run (.init n) ts s) :
    (∀ c, ((machine n limit).step s c).isSome) ∧ s.value ≤ limit + (n - 1) ∧
    ∃ k, (k = s.value ∨ k = s.value + 1) ∧ s.log.filter Line.isTurn = turns n k := by
  have h := inv_of_run hrun
  refine ⟨h.isSome_step, h.le, ?_⟩
  by_cases hswap : ∃ c, (s.pc c).swapping = true
  · obtain ⟨c, hc⟩ := hswap
    exact ⟨s.value + 1, .inr rfl, h.printing c hc⟩
  · have hnot : ∀ c, (s.pc c).swapping = false := fun c =>
      (Bool.eq_false_iff).mpr fun hc => hswap ⟨c, hc⟩
    exact ⟨s.value, .inl rfl, h.printed hnot⟩

/-- Both components check the limit 2 before the first increment, so the value gets to 3. -/
def overshoot : List (Fin 2) := [0, 1, 0, 0, 0, 0, 0, 1, 1, 1, 1, 1, 1, 0, 0, 0, 0, 0, 0]

theorem increments_in_turn_overshoot : ∃ ts s, (machine 2 2).Run (.init 2) ts s ∧
    Machine.events ts = overshoot ∧ s.value = 3 ∧ s.value ≤ 2 + (2 - 1) ∧
    (∀ c, ((machine 2 2).step s c).isSome) := by
  obtain ⟨ts, s, hrun, hevents, hvalue⟩ := Machine.exists_run_of_exec (machine 2 2) (.init 2)
    overshoot (fun r => r.2.value = 3) (by decide)
  obtain ⟨hsome, hle, -⟩ := increments_in_turn hrun
  exact ⟨ts, s, hrun, hevents, of_decide_eq_true hvalue, hle, hsome⟩

end Camkes.DataportMux
