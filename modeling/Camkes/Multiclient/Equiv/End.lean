import Camkes.Multiclient.Equiv.Clients
import Mathlib.Data.Fintype.EquivFin

/-!
# The end of `multiclient`

In any interleaving each client that is through has printed the whole string (`clients_print_str`),
and every run ends with all of them through (`clients_end`).
-/

namespace Camkes.Multiclient

variable {n : ℕ} {s s' : State n} {c d : Fin n} {e : Event n} {data : Vector UInt8 bufSize}
  {ts : List (Transition (State n) (Event n))}

/-! ### Events -/

/-- How often the event has been emitted. -/
def State.emitted (s : State n) : ℕ :=
  match s.server with
  | .ret _ => s.count + 1
  | _ => s.count

/-- No client has more events than the server has emitted, and each has one after the first. -/
structure Events (s : State n) : Prop where
  le : ∀ c, s.received c + (s.pending c).toNat ≤ s.emitted
  pos : 0 < s.emitted → ∀ c, 0 < s.received c + (s.pending c).toNat

theorem events_init (n : ℕ) (data : Vector UInt8 bufSize) : Events (.init n data) where
  le _ := Nat.le_refl _
  pos h := absurd h (lt_irrefl _)

/-- Every step keeps count of the events. -/
theorem Events.step (h : Events s) (hs : Step s e s') : Events s' := by
  have hle := h.le
  have hpos := h.pos
  rw [State.emitted] at hle hpos
  cases hs with
  | @callback c hc hpending =>
    have hsum (d : Fin n) : Function.update s.received c (s.received c + 1) d +
        (Function.update s.pending c false d).toNat = s.received d + (s.pending d).toNat := by
      by_cases hd : d = c
      · subst hd
        simp [hpending]
      · simp [hd]
    constructor
    · intro d
      exact (hsum d).trans_le (h.le d)
    · intro hemitted d
      exact (h.pos hemitted d).trans_eq (hsum d).symm
  | emit hs =>
    rw [hs] at hle
    constructor
    · intro d
      have hd : s.received d + (s.pending d).toNat ≤ s.count := hle d
      show s.received d + 1 ≤ s.count + 1
      omega
    · intro hemitted d
      exact Nat.succ_pos _
  | ret hs =>
    rw [hs] at hle hpos
    exact ⟨hle, hpos⟩
  | serve hs =>
    rw [hs] at hle hpos
    exact ⟨hle, hpos⟩
  | copy hs =>
    rw [hs] at hle hpos
    exact ⟨hle, hpos⟩
  | terminate hs =>
    rw [hs] at hle hpos
    exact ⟨hle, hpos⟩
  | _ => exact ⟨h.le, h.pos⟩

/-- The events are counted in every reachable state. -/
theorem events_of_run (hrun : (machine n).Run (.init n data) ts s) : Events s :=
  hrun.invariant (events_init n data) fun _ _ _ h hok hstep => h.step (step_of_machine hok hstep)

/-! ### How much is left to do -/

def ServerAt.remaining : ServerAt n → ℕ
  | idle => 0
  | copy _ i => str.length - i + (n + 3)
  | emit _ => n + 2
  | ret _ => 1

/-- With what the server does for the client. -/
def ClientAt.remaining (n : ℕ) : ClientAt → ℕ
  | register => 2 * str.length + n + 8
  | call => 2 * str.length + n + 7
  | called => 2 * str.length + n + 6
  | served => str.length + 2
  | printInt _ => str.length + 2
  | print _ out => str.length + 1 - out.length
  | done _ _ => 0

/-- A bound of the steps that are left. -/
def State.remaining (s : State n) : ℕ :=
  s.server.remaining + ∑ c, (s.client c).remaining n + ∑ c, (s.pending c).toNat

theorem remaining_goto {p : ClientAt} (hp : p.remaining n < (s.client c).remaining n) :
    (s.goto c p).remaining < s.remaining := by
  have hsum : ∑ d, ((s.goto c p).client d).remaining n + (s.client c).remaining n =
      ∑ d, (s.client d).remaining n + p.remaining n :=
    Machine.sum_update (ClientAt.remaining n) s.client c p
  show s.server.remaining + ∑ d, ((s.goto c p).client d).remaining n +
      ∑ d, (s.pending d).toNat < s.remaining
  rw [State.remaining]
  omega

/-- Every step brings the end nearer. -/
theorem remaining_lt (h : Inv s) (hs : Step s e s') : s'.remaining < s.remaining := by
  cases hs with
  | register hc => exact remaining_goto (by simp [hc, ClientAt.remaining])
  | call hc => exact remaining_goto (by simp [hc, ClientAt.remaining])
  | printInt hc => exact remaining_goto (by simp [hc, ClientAt.remaining])
  | print hc =>
    have hle := (h.prefix_of_print hc).length_le
    refine remaining_goto ?_
    simp only [hc, ClientAt.remaining, List.length_append, List.length_singleton]
    omega
  | finish hc =>
    have hle := (h.prefix_of_print hc).length_le
    refine remaining_goto ?_
    simp only [hc, ClientAt.remaining]
    omega
  | @callback c hc hpending =>
    have hsum : ∑ d, (Function.update s.pending c false d).toNat + (s.pending c).toNat =
        ∑ d, (s.pending d).toNat + 0 := Machine.sum_update Bool.toNat s.pending c false
    rw [hpending] at hsum
    show s.server.remaining + ∑ d, (s.client d).remaining n +
      ∑ d, (Function.update s.pending c false d).toNat < s.remaining
    rw [State.remaining]
    simp only [Bool.toNat_true] at hsum
    omega
  | @serve c hs hc =>
    have hsum : ∑ d, ((s.goto c .served).client d).remaining n + (s.client c).remaining n =
        ∑ d, (s.client d).remaining n + (str.length + 2) :=
      Machine.sum_update (ClientAt.remaining n) s.client c .served
    have hcalled : (s.client c).remaining n = 2 * str.length + n + 6 := by
      rw [hc]
      rfl
    have hidle : s.server.remaining = 0 := by
      rw [hs]
      rfl
    show str.length - 0 + (n + 3) + ∑ d, ((s.goto c .served).client d).remaining n +
      ∑ d, (s.pending d).toNat < s.remaining
    rw [State.remaining]
    omega
  | @copy c i b hs hb hi hne =>
    have hlt := lt_length_str hb hne
    have hcopy : s.server.remaining = str.length - i + (n + 3) := by
      rw [hs]
      rfl
    show str.length - (i + 1) + (n + 3) + ∑ d, (s.client d).remaining n +
      ∑ d, (s.pending d).toNat < s.remaining
    rw [State.remaining]
    omega
  | @terminate c i hs hb =>
    have hcopy : s.server.remaining = str.length - i + (n + 3) := by
      rw [hs]
      rfl
    show n + 2 + ∑ d, (s.client d).remaining n + ∑ d, (s.pending d).toNat < s.remaining
    rw [State.remaining]
    omega
  | @emit c hs =>
    have hemit : s.server.remaining = n + 2 := by
      rw [hs]
      rfl
    have hall : ∑ _ : Fin n, true.toNat = n := by simp
    show 1 + ∑ d, (s.client d).remaining n + ∑ _ : Fin n, true.toNat < s.remaining
    rw [State.remaining]
    omega
  | @ret c hs =>
    have hsum : ∑ d, ((s.goto c (.printInt s.count)).client d).remaining n +
        (s.client c).remaining n = ∑ d, (s.client d).remaining n + (str.length + 2) :=
      Machine.sum_update (ClientAt.remaining n) s.client c (.printInt s.count)
    have hserved : (s.client c).remaining n = str.length + 2 := by
      have hguards := (h.guards c).mp (by rw [hs]; rfl)
      cases hc : s.client c <;> simp_all [ClientAt.isServed, ClientAt.remaining]
    have hret : s.server.remaining = 1 := by
      rw [hs]
      rfl
    show 0 + ∑ d, ((s.goto c (.printInt s.count)).client d).remaining n +
      ∑ d, (s.pending d).toNat < s.remaining
    rw [State.remaining]
    omega

theorem decreases (n : ℕ) :
    (machine n).Decreases Inv (fun _ => true) State.remaining 0 where
  preserved _ _ _ h hok hstep := h.step (step_of_machine hok hstep)
  lt_of_work _ _ _ h hok hstep _ := remaining_lt h (step_of_machine hok hstep)
  le_of_not_work _ _ _ _ _ _ hnot := by cases hnot

/-- The bound of the steps of a whole run. -/
theorem remaining_init (n : ℕ) (data : Vector UInt8 bufSize) :
    (State.init n data).remaining = n * (n + 70) := by
  show 0 + ∑ _ : Fin n, (2 * str.length + n + 8) + ∑ _ : Fin n, 0 = n * (n + 70)
  have hlen : str.length = 31 := by decide
  rw [Finset.sum_const_zero, Finset.sum_const, Finset.card_univ, Fintype.card_fin, smul_eq_mul,
    hlen, Nat.zero_add, Nat.add_zero]
  congr 1
  omega

/-! ### The end -/

/-- When nobody can go on, every client is through. -/
theorem Inv.done_of_stuck (h : Inv s) (hstuck : ∀ e, ¬ s.ok e) :
    s.server = .idle ∧ ∀ c, ∃ j text, s.client c = .done j text := by
  have hidle : s.server = .idle := by
    by_contra hs
    exact hstuck .server hs
  refine ⟨hidle, fun c => ?_⟩
  have hclient : ¬ s.ok (.client c) := hstuck (.client c)
  rw [State.ok] at hclient
  cases hc : s.client c with
  | called => exact absurd ⟨hidle, hc⟩ (hstuck (.serve c))
  | served =>
    have hcurrent := (h.guards c).mpr (by show (s.client c).isServed = true; rw [hc]; rfl)
    rw [hidle] at hcurrent
    cases hcurrent
  | done j text => exact ⟨j, text, rfl⟩
  | _ =>
    rw [hc] at hclient
    exact absurd trivial hclient

/-- When every client is through, all numbers have been given out. -/
theorem Inv.count_of_done (h : Inv s) (hidle : s.server = .idle)
    (hdone : ∀ c, ∃ j text, s.client c = .done j text) : s.count = n := by
  have hbegun := h.begun
  have hone (c : Fin n) : (s.client c).begun = 1 := by
    obtain ⟨j, text, hc⟩ := hdone c
    rw [hc]
    rfl
  rw [hidle] at hbegun
  simp only [hone, Finset.sum_const, Finset.card_univ, Fintype.card_fin, smul_eq_mul, mul_one]
    at hbegun
  exact hbegun.symm

/-- Different numbers below `n` are all numbers below `n`. -/
theorem Numbered.exists_of_lt {number : Fin n → Option ℕ} {j : ℕ} (h : Numbered number n)
    (hsome : ∀ c, (number c).isSome) (hj : j < n) : ∃ c, number c = some j := by
  have hex (c : Fin n) : ∃ k : Fin n, number c = some (k : ℕ) := by
    obtain ⟨k, hk⟩ := Option.isSome_iff_exists.mp (hsome c)
    exact ⟨⟨k, h.lt c k hk⟩, hk⟩
  choose f hf using hex
  have hinj : Function.Injective f := fun c d hcd => h.inj c d (f c) (hf c) (hcd ▸ hf d)
  obtain ⟨c, hc⟩ := Finite.surjective_of_injective hinj ⟨j, hj⟩
  exact ⟨c, by rw [hf c, hc]⟩

/-- There is a run to the end. -/
theorem exists_run_stuck (n : ℕ) (data : Vector UInt8 bufSize) :
    ∃ ts s, (machine n).Run (.init n data) ts s ∧ ∀ e, ¬ (machine n).ok s e := by
  have hprogress (s : State n) (h : Inv s) (hgoal : ¬ ∀ e, ¬ (machine n).ok s e) :
      ∃ e, true = true ∧ (machine n).ok s e ∧ ((machine n).step s e).isSome := by
    obtain ⟨e, hok⟩ := not_forall_not.mp hgoal
    exact ⟨e, rfl, hok, h.isSome_step e⟩
  obtain ⟨ts, s, hrun, hstuck, -⟩ := (decreases n).exists_run hprogress (inv_init n data)
  exact ⟨ts, s, hrun, hstuck⟩

/-- **What the clients print**: no step fails, each client that is through has printed the whole
string, and the replies of the server are different numbers. -/
theorem clients_print_str (hrun : (machine n).Run (.init n data) ts s) :
    (∀ e, ((machine n).step s e).isSome) ∧
    (∀ c j text, s.client c = .done j text → text = str) ∧
    Numbered (fun c => (s.client c).reply) s.count ∧ s.count ≤ n := by
  have h := inv_of_run hrun
  refine ⟨h.isSome_step, fun c j text hc => ?_, h.numbered, h.count_le⟩
  have hreads := h.reads c
  rwa [hc] at hreads

theorem clients_print_str_three : ∃ ts s,
    (machine 3).Run (.init 3 (Vector.replicate bufSize 0xFF)) ts s ∧
    (∀ e, ¬ (machine 3).ok s e) ∧ ∀ c j text, s.client c = .done j text → text = str := by
  obtain ⟨ts, s, hrun, hstuck⟩ := exists_run_stuck 3 (Vector.replicate bufSize 0xFF)
  exact ⟨ts, s, hrun, hstuck, (clients_print_str hrun).2.1⟩

/-- **Termination**: a run has at most `n * (n + 70)` steps.  If nobody can go on, the clients have
printed the string and the numbers from 0 to `n - 1`, and for the event one line at least and `n` at
most. -/
theorem clients_end (hrun : (machine n).Run (.init n data) ts s) :
    ts.length ≤ n * (n + 70) ∧
    ((∀ e, ¬ (machine n).ok s e) →
      (∀ c, ∃ j, s.client c = .done j str) ∧ (∀ j < n, ∃ c, s.client c = .done j str) ∧
      ∀ c, 1 ≤ s.received c ∧ s.received c ≤ n) := by
  have h := inv_of_run hrun
  constructor
  · have hle := (decreases n).countP_add_le (inv_init n data) hrun
    rw [remaining_init, List.countP_true, Machine.events, List.length_map] at hle
    omega
  · intro hstuck
    obtain ⟨hidle, hdone⟩ := h.done_of_stuck hstuck
    have hcount := h.count_of_done hidle hdone
    have hstr (c : Fin n) : ∃ j, s.client c = .done j str := by
      obtain ⟨j, text, hc⟩ := hdone c
      have hreads := h.reads c
      rw [hc] at hreads
      have htext : text = str := hreads
      exact ⟨j, htext ▸ hc⟩
    refine ⟨hstr, fun j hj => ?_, fun c => ?_⟩
    · have hnumbered := h.numbered
      rw [hcount] at hnumbered
      have hsome (c : Fin n) : ((s.client c).reply).isSome := by
        obtain ⟨j, hc⟩ := hstr c
        rw [hc]
        rfl
      obtain ⟨c, hc⟩ := hnumbered.exists_of_lt hsome hj
      obtain ⟨k, hk⟩ := hstr c
      rw [hk] at hc
      exact ⟨c, Option.some.inj hc ▸ hk⟩
    · have hevents := events_of_run hrun
      have hemitted : s.emitted = n := by
        rw [State.emitted, hidle, hcount]
      have hpending : s.pending c = false := by
        obtain ⟨j, hc⟩ := hstr c
        rw [Bool.eq_false_iff]
        intro hpending
        exact hstuck (.callback c) ⟨by rw [hc]; exact ClientAt.noConfusion, hpending⟩
      have hle := hevents.le c
      have hpos := hevents.pos (by rw [hemitted]; exact c.pos) c
      rw [hpending, hemitted] at hle
      rw [hpending] at hpos
      exact ⟨hpos, hle⟩

/-- The last number with three clients. -/
theorem clients_end_three : ∃ ts s,
    (machine 3).Run (.init 3 (Vector.replicate bufSize 0xFF)) ts s ∧ ts.length ≤ 219 ∧
    ∃ c, s.client c = .done 2 str := by
  obtain ⟨ts, s, hrun, hstuck⟩ := exists_run_stuck 3 (Vector.replicate bufSize 0xFF)
  obtain ⟨hle, hend⟩ := clients_end hrun
  exact ⟨ts, s, hrun, hle, (hend hstuck).2.1 2 (by decide)⟩

end Camkes.Multiclient
