import Camkes.Terminal.Equiv.PutChar

/-!
# Which characters have the right colour

`Prepared d own pending` says of what the thread of domain `d` has still to print that every
character in a region comes after the colour of `d`, where `own` says whether that colour has been
printed already.  So at such a character the colour of the terminal is the right one exactly when
the last colour or reset was printed by that thread.
-/

namespace Camkes.Terminal

open Machine

variable {d : Domain} {own : Bool} {pending more : List Printf} {W H : ℤ}

/-! ### Regions -/

theorem colour_inj {d e : Domain} (h : d.region.colour = e.region.colour) : d = e := by
  cases d <;> cases e <;> first | rfl | cases h

/-- The regions are disjoint. -/
theorem contains_inj {d e : Domain} {x y : ℤ} (h : d.region.contains x y)
    (h' : e.region.contains x y) : e = d := by
  cases d <;> cases e <;> simp only [Region.contains, Domain.region] at h h' <;>
    first | rfl | omega

/-! ### What a thread has still to print -/

/-- Every character in a region is in the region of `d`, and printed in its colour. -/
def Prepared (d : Domain) : Bool → List Printf → Prop
  | _, [] => True
  | _, .colour c :: pending => c = d.region.colour ∧ Prepared d true pending
  | _, .reset :: pending => Prepared d false pending
  | own, .writeChar x y _ :: pending =>
    (∀ e : Domain, e.region.contains x y → e = d ∧ own = true) ∧ Prepared d own pending

/-- A character outside of both regions. -/
def Outside (p : Printf) : Prop :=
  ∃ x y c, p = .writeChar x y c ∧ ∀ d : Domain, ¬ d.region.contains x y

/-- What is printed outside the regions can come first. -/
theorem prepared_outside (h : ∀ p ∈ pending, Outside p) (hmore : Prepared d own more) :
    Prepared d own (pending ++ more) := by
  induction pending with
  | nil => exact hmore
  | cons p pending ih =>
    obtain ⟨x, y, c, rfl, hout⟩ := h p (List.mem_cons_self ..)
    refine ⟨fun e he => absurd he (hout e), ?_⟩
    exact ih fun q hq => h q (List.mem_cons_of_mem _ hq)

/-- A character of a border outside the regions. -/
theorem outside_borderChar {i j : ℤ} {c : UInt8} (h : ∀ d : Domain, ¬ d.region.contains i j) :
    ∀ p ∈ borderChar W H i j c, Outside p := by
  intro p hp
  unfold borderChar at hp
  split_ifs at hp
  · obtain rfl := List.mem_singleton.mp hp
    exact ⟨i, j, c, rfl, h⟩
  · cases hp

/-- The borders lie outside of both regions. -/
theorem outside_borderChars (d : Domain) : ∀ p ∈ borderChars W H d.region, Outside p := by
  intro p hp
  simp only [borderChars, List.mem_append, List.mem_flatMap, List.mem_range] at hp
  rcases hp with ((((((hp | hp) | hp) | hp) | ⟨k, hk, hp⟩) | ⟨k, hk, hp⟩) | ⟨k, hk, hp⟩) |
    ⟨k, hk, hp⟩
  all_goals
    refine outside_borderChar (fun e he => ?_) p hp
    cases d <;> cases e <;> simp only [Region.contains, Domain.region] at * <;> omega

theorem prepared_borderise (hmore : Prepared d false more) :
    Prepared d own (borderise W H d.region ++ more) := by
  rw [borderise, List.cons_append, List.cons_append, List.append_assoc]
  exact ⟨rfl, prepared_outside (outside_borderChars d) hmore⟩

theorem prepared_drawn (border : Bool) (hmore : ∀ own, Prepared d own more) :
    Prepared d own (drawn W H d.region border ++ more) := by
  unfold drawn
  split_ifs
  · exact hmore own
  · exact prepared_borderise (hmore false)

/-- Everything that `put_char` prints is prepared, whatever has been printed before. -/
theorem prepared_putChar (border : Bool) (x y : ℤ) (data : UInt8) :
    Prepared d own (putChar W H d.region border x y data).2.1 := by
  by_cases haccepted : Accepted W H d.region x y data
  · rw [putChar_of_accepted haccepted]
    refine prepared_drawn border fun own' => ⟨rfl, fun e he => ?_, trivial⟩
    have hd : d.region.contains (d.region.x + x) (d.region.y + y) := by
      have hbounds := haccepted.2
      unfold Region.contains
      omega
    exact ⟨contains_inj hd he, rfl⟩
  · rw [putChar_of_not_accepted haccepted]
    have hnothing : Prepared d own (drawn W H d.region border ++ []) :=
      prepared_drawn border fun _ => trivial
    rwa [List.append_nil] at hnothing

theorem Domain.prepared_putChar (d : Domain) (border : Bool) (x y : ℤ) (data : UInt8) :
    Prepared d own (d.putChar W H border x y data).2.1 := by
  cases d with
  | domain1 => exact Terminal.prepared_putChar border x y data
  | domain2 => exact Terminal.prepared_putChar border x y data

/-! ### The terminal -/

/-- The invariant, where `own d` says whether the last colour or reset of the thread of `d` was its
colour. -/
structure Inv (own : Domain → Bool) (s : System) : Prop where
  prepared : ∀ d, Prepared d (own d) (s.thread d).pending
  colour : s.colour = s.lastAttribute.bind fun d => if own d then some d.region.colour else none

variable {own : Domain → Bool} {s : System}

theorem setThread_self (s : System) (d : Domain) (thread : Thread) :
    (s.setThread d thread).thread d = thread :=
  Function.update_self ..

theorem setThread_of_ne {e : Domain} (h : e ≠ d) (s : System) (thread : Thread) :
    (s.setThread d thread).thread e = s.thread e :=
  Function.update_of_ne h ..

@[simp] theorem output_thread (s : System) (d : Domain) (p : Printf) :
    (s.output d p).thread = s.thread := by
  cases p <;> rfl

theorem inv_init : Inv (fun _ => false) .init := ⟨fun _ => trivial, rfl⟩

/-- The start of a call keeps the invariant. -/
theorem Inv.call (h : Inv own s) (d : Domain) (x y : ℤ) (data : UInt8) :
    Inv own (s.setThread d
      { border := (d.putChar W H (s.thread d).border x y data).1
        pending := (d.putChar W H (s.thread d).border x y data).2.1 }) := by
  refine ⟨fun e => ?_, h.colour⟩
  by_cases he : e = d
  · subst he
    rw [setThread_self]
    exact e.prepared_putChar (s.thread e).border x y data
  · rw [setThread_of_ne he]
    exact h.prepared e

/-- A thread goes on after a `printf` that leaves it prepared. -/
theorem Inv.prepared_update (h : Inv own s) (d : Domain) (b : Bool) {pending : List Printf}
    (hp : Prepared d b pending) (p : Printf) (e : Domain) :
    Prepared e (Function.update own d b e)
      (((s.setThread d { s.thread d with pending }).output d p).thread e).pending := by
  rw [output_thread]
  by_cases he : e = d
  · subst he
    rw [setThread_self, Function.update_self]
    exact hp
  · rw [setThread_of_ne he, Function.update_of_ne he]
    exact h.prepared e

/-- Printing the next piece keeps the invariant. -/
theorem Inv.print (h : Inv own s) {p : Printf} (hpending : (s.thread d).pending = p :: pending) :
    ∃ own', Inv own' ((s.setThread d { s.thread d with pending }).output d p) := by
  have hprepared := h.prepared d
  rw [hpending] at hprepared
  cases p with
  | colour c =>
    obtain ⟨rfl, hrest⟩ := hprepared
    refine ⟨Function.update own d true, h.prepared_update d true hrest _, ?_⟩
    show some _ = ite _ _ _
    rw [Function.update_self, if_pos rfl]
  | reset =>
    refine ⟨Function.update own d false, h.prepared_update d false hprepared _, ?_⟩
    show none = ite _ _ _
    rw [Function.update_self]
    rfl
  | writeChar x y c =>
    obtain ⟨-, hrest⟩ := hprepared
    have hinv := h.prepared_update d (own d) hrest (.writeChar x y c)
    rw [Function.update_eq_self] at hinv
    exact ⟨own, hinv, h.colour⟩

/-- The character that a thread is about to print gets the right colour exactly when its own
attribute is the last. -/
theorem Inv.rightColour_iff (h : Inv own s) {x y : ℤ} {c : UInt8}
    (hpending : (s.thread d).pending = .writeChar x y c :: pending) :
    Shown.RightColour { x, y, c, colour := s.colour } ↔
      (d.region.contains x y → s.lastAttribute = some d) := by
  have hprepared := h.prepared d
  rw [hpending] at hprepared
  obtain ⟨hregion, -⟩ := hprepared
  constructor
  · intro hright hcontains
    have hcolour : s.colour = some d.region.colour := hright d hcontains
    rw [h.colour, Option.bind_eq_some_iff] at hcolour
    obtain ⟨e, he, hattr⟩ := hcolour
    split_ifs at hattr
    rw [he, colour_inj (Option.some.inj hattr)]
  · intro hlast e he
    obtain ⟨rfl, hown⟩ := hregion e he
    show s.colour = _
    rw [h.colour, hlast he, Option.bind_some, if_pos hown]

/-! ### Runs -/

/-- **Colour attribution**: in an interleaving of any calls, every character in the region of a
domain has that domain's colour exactly when no thread prints a colour or a reset between the
colour and the character of a call of the other. -/
theorem rightColour_iff_unmixed {ts : List (Transition System Event)} {s : System}
    (hrun : (machine W H).Run .init ts s) :
    (∀ ch ∈ s.shown, ch.RightColour) ↔ ∀ t ∈ ts, unmixed t.before t.event := by
  refine hrun.forall_log_iff (I := fun s => ∃ own, Inv own s) ⟨_, inv_init⟩ rfl ?_
  rintro s e s' ⟨own, h⟩ hok hstep
  cases e with
  | call d x y data =>
    obtain rfl := Option.some.inj hstep
    exact ⟨⟨own, h.call d x y data⟩, [], (List.append_nil _).symm, by simp [unmixed]⟩
  | print d =>
    cases hpending : (s.thread d).pending with
    | nil => exact absurd hpending hok
    | cons p pending =>
      have hs' : s' = (s.setThread d { s.thread d with pending }).output d p := by
        have hstep' : System.step W H s (.print d) = some s' := hstep
        simp only [System.step, hpending] at hstep'
        exact (Option.some.inj hstep').symm
      subst hs'
      refine ⟨h.print hpending, ?_⟩
      cases p with
      | writeChar x y c =>
        refine ⟨[{ x, y, c, colour := s.colour }], rfl, ?_⟩
        rw [List.forall_mem_singleton, h.rightColour_iff hpending]
        simp only [unmixed, hpending, List.head?_cons, Option.some.injEq, Printf.writeChar.injEq]
        constructor
        · rintro hlast x' y' c' ⟨rfl, rfl, rfl⟩
          exact hlast
        · intro hlast
          exact hlast x y c ⟨rfl, rfl, rfl⟩
      | _ =>
        refine ⟨[], (List.append_nil _).symm, ?_⟩
        simp [unmixed, hpending]

/-- A test for `unmixed`. -/
def checkUnmixed (s : System) : Event → Bool
  | .call _ _ _ _ => true
  | .print d =>
    match (s.thread d).pending with
    | .writeChar x y _ :: _ => !d.region.contains x y || s.lastAttribute = some d
    | _ => true

theorem unmixed_of_check {s : System} {e : Event} (h : checkUnmixed s e = true) : unmixed s e := by
  cases e with
  | call d x y data => trivial
  | print d =>
    intro x y c hhead hcontains
    obtain ⟨pending, hpending⟩ := List.head?_eq_some_iff.mp hhead
    simp only [checkUnmixed, hpending, Bool.or_eq_true, Bool.not_eq_true',
      decide_eq_false_iff_not, decide_eq_true_eq] at h
    exact h.resolve_left (fun hnot => hnot hcontains)

/-- Each client writes one character on a terminal of 80 columns and 40 rows, the second one while
the first one's border is being drawn. -/
def takeTurns : List Event :=
  Event.call .domain1 0 0 97 :: List.replicate 30 (Event.print .domain1) ++
    Event.call .domain2 0 0 98 :: List.replicate 59 (Event.print .domain2) ++
    List.replicate 29 (Event.print .domain1)

theorem rightColour_iff_unmixed_takeTurns : ∃ ts s, (machine 80 40).Run .init ts s ∧
    events ts = takeTurns ∧ s.shown.length = 110 ∧ ∀ ch ∈ s.shown, ch.RightColour := by
  obtain ⟨ts, s, hrun, hevents, hp⟩ := exists_run_of_exec (machine 80 40) .init takeTurns
    (fun r => r.2.shown.length = 110 && r.1.all fun t => checkUnmixed t.before t.event)
    (by decide +kernel)
  simp only [Bool.and_eq_true, decide_eq_true_eq, List.all_eq_true] at hp
  exact ⟨ts, s, hrun, hevents, hp.1,
    (rightColour_iff_unmixed hrun).mpr fun t ht => unmixed_of_check (hp.2 t ht)⟩

/-- The second client is served between the colour and the character of the first one. -/
def interrupt : List Event :=
  Event.call .domain1 0 0 97 :: List.replicate 57 (Event.print .domain1) ++
    Event.call .domain2 0 0 98 :: List.replicate 59 (Event.print .domain2) ++
    [Event.print .domain1]

/-- The first client's character is displayed without its colour. -/
theorem not_rightColour_interrupt : ∃ ts s, (machine 80 40).Run .init ts s ∧
    events ts = interrupt ∧ { x := 3, y := 3, c := 97, colour := none : Shown } ∈ s.shown ∧
      ¬ ∀ ch ∈ s.shown, ch.RightColour := by
  obtain ⟨ts, s, hrun, hevents, hp⟩ := exists_run_of_exec (machine 80 40) .init interrupt
    (fun r => { x := 3, y := 3, c := 97, colour := none : Shown } ∈ r.2.shown) (by decide +kernel)
  have hmem := of_decide_eq_true hp
  refine ⟨ts, s, hrun, hevents, hmem, ?_⟩
  intro hright
  have hcolour := hright _ hmem .domain1 (by decide)
  cases hcolour

end Camkes.Terminal
