import Camkes.Aeroplage.System
import Mathlib.Data.List.Induction

/-!
# Domain separation

`System.total d` lists the characters that have been written for domain `d`, are on their way to the
screen, or will be routed to `d` when the switch reads them.  No step of any component changes it,
as long as no character is zero, which `VESADriver` takes for an empty buffer.  So whatever the
interleaving, what is written for `d` is what `switchDemux` routes to `d`, and that depends only on
what the stream of characters looks like to `d`.
-/

namespace Camkes.Aeroplage

open Machine

variable {codeToChar : List ℤ → UInt8} {s s' : System} {d : Domain}

/-! ### The characters of the driver -/

/-- A character that is sent is not NUL. -/
theorem transmit_ne_zero (k : KeyboardDriver) (c : ℤ) :
    0 ∉ (k.transmit codeToChar c).2.toList := by
  unfold KeyboardDriver.transmit
  simp only
  split_ifs with h
  · rw [Option.toList_some, List.mem_singleton]
    exact fun h₀ => h h₀.symm
  · exact List.not_mem_nil

theorem scancode_ne_zero (k : KeyboardDriver) (c : ℤ) :
    0 ∉ (k.scancode codeToChar c).2.toList := by
  unfold KeyboardDriver.scancode
  split_ifs
  any_goals exact List.not_mem_nil
  exact transmit_ne_zero _ c

/-- The driver never transmits a zero. -/
theorem emitted_ne_zero (k : KeyboardDriver) (scancodes : List ℤ) :
    0 ∉ emitted codeToChar k scancodes := by
  induction scancodes generalizing k with
  | nil => exact List.not_mem_nil
  | cons c scancodes ih =>
    rw [emitted, List.mem_append, not_or]
    exact ⟨scancode_ne_zero k c, ih _⟩

/-! ### Sides -/

theorem setSide_self (s : System) (d : Domain) (side : Side) : (s.setSide d side).side d = side :=
  Function.update_self ..

theorem setSide_of_ne {e : Domain} (h : d ≠ e) (s : System) (side : Side) :
    (s.setSide e side).side d = s.side d :=
  Function.update_of_ne h ..

/-! ### What belongs to a domain -/

/-- The characters of domain `d`, in order. -/
def System.total (codeToChar : List ℤ → UInt8) (d : Domain) (s : System) : List UInt8 :=
  (s.side d).written ++
    ((s.side d).inFlight ++ switchDemux.routed d s.selected (s.unswitched codeToChar))

theorem total_init (scancodes : List ℤ) :
    (System.init scancodes).total codeToChar d =
      switchDemux.routed d .low (emitted codeToChar .init scancodes) := rfl

theorem total_of_processed (h : s.Processed) :
    s.total codeToChar d = (s.side d).written := by
  simp only [System.total, System.unswitched, h.scancodes, h.text, h.switch, h.side, emitted,
    Option.toList_none, List.append_nil, Demux.routed_nil]

/-- Steps that only move characters within a part leave the total alone. -/
theorem total_congr (hwritten : (s'.side d).written = (s.side d).written)
    (hflight : (s'.side d).inFlight = (s.side d).inFlight) (hselected : s'.selected = s.selected)
    (hswitch : s'.unswitched codeToChar = s.unswitched codeToChar) :
    s'.total codeToChar d = s.total codeToChar d := by
  rw [System.total, System.total, hwritten, hflight, hselected, hswitch]

/-! ### Steps -/

/-- Decoding a scancode changes nothing of what a domain gets. -/
theorem total_stepKeyboardDriver (h : stepKeyboardDriver codeToChar s = some s') :
    s'.total codeToChar d = s.total codeToChar d := by
  unfold stepKeyboardDriver at h
  cases hscan : s.scancodes with
  | nil =>
    rw [hscan] at h
    cases h
  | cons c scancodes =>
    rw [hscan] at h
    obtain rfl := Option.some.inj h
    refine total_congr rfl rfl rfl ?_
    simp only [System.unswitched, hscan, emitted, List.append_assoc]

/-- The switch hands a character to its output, or obeys it. -/
theorem total_handleChar {c : UInt8} (hc : s.switch = some c) (h : stepSwitch s = some s') :
    s'.total codeToChar d = s.total codeToChar d := by
  have hrest : s.unswitched codeToChar =
      c :: (s.text ++ emitted codeToChar s.driver s.scancodes) := by
    rw [System.unswitched, hc]
    rfl
  unfold stepSwitch at h
  rw [hc] at h
  rcases hhandle : handleChar s.selected c with ⟨selected, - | e⟩
  · -- a TAB: data for nobody
    have hne : switchDemux.dest s.selected c ≠ some d := by
      show (handleChar s.selected c).2 ≠ some d
      rw [hhandle]
      exact nofun
    have hnext : switchDemux.next s.selected c = selected := congrArg Prod.fst hhandle
    simp only [hhandle] at h
    obtain rfl := Option.some.inj h
    rw [System.total, System.total, hrest, Demux.routed_cons_of_ne _ hne, hnext]
    rfl
  · have hdest : switchDemux.dest s.selected c = some e := congrArg Prod.snd hhandle
    have hselected : selected = s.selected := by
      have hnext := switchDemux.next_of_dest hdest
      rw [← hnext]
      exact (congrArg Prod.fst hhandle).symm
    simp only [hhandle] at h
    obtain rfl := Option.some.inj h
    subst hselected
    rw [System.total, System.total, hrest]
    by_cases hd : d = e
    · subst hd
      rw [setSide_self, Demux.routed_cons_of_dest _ hdest]
      simp only [Side.inFlight, List.append_assoc, List.singleton_append]
      rfl
    · have hne : switchDemux.dest s.selected c ≠ some d := by
        rw [hdest]
        exact fun he => hd (Option.some.inj he).symm
      rw [setSide_of_ne hd, Demux.routed_cons_of_ne _ hne, switchDemux.next_of_dest hdest]
      rfl

/-- A step of the switch changes nothing of what a domain gets. -/
theorem total_stepSwitch (h : stepSwitch s = some s') :
    s'.total codeToChar d = s.total codeToChar d := by
  cases hc : s.switch with
  | some c => exact total_handleChar hc h
  | none =>
    unfold stepSwitch at h
    rw [hc] at h
    cases htext : s.text with
    | nil =>
      rw [htext] at h
      cases h
    | cons c text =>
      rw [htext] at h
      obtain rfl := Option.some.inj h
      refine total_congr rfl rfl rfl ?_
      simp only [System.unswitched, hc, htext]
      rfl

/-- `MockLinux` passes the characters on in order. -/
theorem total_stepMockLinux {e : Domain} (h : stepMockLinux e s = some s') :
    s'.total codeToChar d = s.total codeToChar d := by
  unfold stepMockLinux at h
  by_cases hd : d = e
  · subst hd
    cases hlinux : (s.side d).linux with
    | none =>
      cases htext : (s.side d).text with
      | nil =>
        simp only [hlinux, htext] at h
        cases h
      | cons c text =>
        simp only [hlinux, htext] at h
        obtain rfl := Option.some.inj h
        refine total_congr ?_ ?_ rfl rfl
        · rw [setSide_self]
        · rw [setSide_self]
          simp only [Side.inFlight, hlinux, htext]
          rfl
    | some c =>
      simp only [hlinux] at h
      obtain rfl := Option.some.inj h
      refine total_congr ?_ ?_ rfl rfl
      · rw [setSide_self]
      · rw [setSide_self]
        simp only [Side.inFlight, hlinux, List.append_assoc]
        rfl
  · obtain ⟨side, rfl⟩ : ∃ side, s' = s.setSide e side := by
      cases hlinux : (s.side e).linux with
      | none =>
        cases htext : (s.side e).text with
        | nil =>
          simp only [hlinux, htext] at h
          cases h
        | cons c text =>
          simp only [hlinux, htext] at h
          exact ⟨_, (Option.some.inj h).symm⟩
      | some c =>
        simp only [hlinux] at h
        exact ⟨_, (Option.some.inj h).symm⟩
    refine total_congr ?_ ?_ rfl rfl
    · rw [setSide_of_ne hd]
    · rw [setSide_of_ne hd]

/-- `VESADriver` writes every character that is not zero. -/
theorem total_stepVesaDriver (hzero : ∀ e, 0 ∉ (s.side e).video)
    (h : stepVesaDriver s = some s') : s'.total codeToChar d = s.total codeToChar d := by
  obtain rfl := Option.some.inj h
  by_cases hd : d = s.polls
  · subst hd
    rw [System.total, System.total, setSide_self]
    cases hvideo : (s.side s.polls).video with
    | nil =>
      simp only [Side.inFlight, hvideo]
      rfl
    | cons c video =>
      have hc : c ≠ 0 := by
        rintro rfl
        apply hzero s.polls
        rw [hvideo]
        exact List.mem_cons_self ..
      simp only [Side.inFlight, hvideo, if_pos hc, List.append_assoc]
      rfl
  · refine total_congr ?_ ?_ rfl rfl
    · rw [setSide_of_ne hd]
    · rw [setSide_of_ne hd]

/-! ### Runs -/

/-- What has been written for a domain, is on its way or will be routed there is what the stream of
scancodes has for it. -/
def Conserves (codeToChar : List ℤ → UInt8) (scancodes : List ℤ) (s : System) : Prop :=
  ∀ d, s.total codeToChar d = switchDemux.routed d .low (emitted codeToChar .init scancodes)

variable {scancodes : List ℤ}

/-- No NUL waits for the VESA driver, which would take it for an empty buffer. -/
theorem Conserves.video_ne_zero (h : Conserves codeToChar scancodes s) (e : Domain) :
    0 ∉ (s.side e).video := by
  intro hzero
  have htotal : 0 ∈ s.total codeToChar e := by
    rw [System.total, Side.inFlight]
    exact List.mem_append_right _ (List.mem_append_left _ (List.mem_append_left _ hzero))
  rw [h e] at htotal
  exact emitted_ne_zero _ scancodes (switchDemux.mem_of_mem_routed htotal)

/-- No step changes what a domain gets in the end. -/
theorem Conserves.step (h : Conserves codeToChar scancodes s) {e : Event}
    (hstep : s.step codeToChar e = some s') : Conserves codeToChar scancodes s' := by
  intro d
  rw [← h d]
  cases e with
  | keyboardDriver => exact total_stepKeyboardDriver hstep
  | switch => exact total_stepSwitch hstep
  | mockLinux e => exact total_stepMockLinux hstep
  | vesaDriver => exact total_stepVesaDriver h.video_ne_zero hstep

/-- **What is written for a domain** after the whole stream has been processed, in any
interleaving. -/
theorem written_eq_routed {ts : List (Transition System Event)}
    (hrun : (machine codeToChar).Run (.init scancodes) ts s) (hdone : s.Processed) (d : Domain) :
    (s.side d).written = switchDemux.routed d .low (emitted codeToChar .init scancodes) := by
  have hinv : Conserves codeToChar scancodes s :=
    hrun.invariant (fun _ => total_init scancodes) fun _ _ _ h _ hstep => h.step hstep
  rw [← hinv d, total_of_processed hdone]

/-- The domain that is selected after these characters, which are 9 for TAB. -/
def selectedAfter (cs : List UInt8) : Domain := if cs.count 9 % 2 = 0 then .low else .high

/-- Which domain is selected: each TAB selects the other one. -/
theorem foldl_next_eq (cs : List UInt8) : cs.foldl switchDemux.next .low = selectedAfter cs := by
  induction cs using List.reverseRecOn with
  | nil => rfl
  | append_singleton cs c ih =>
    rw [List.foldl_append, ih]
    show (handleChar (selectedAfter cs) c).1 = _
    simp only [handleChar, switchChar, selectedAfter, List.count_append, List.count_singleton,
      beq_iff_eq]
    rcases Nat.mod_two_eq_zero_or_one (cs.count 9) with hmod | hmod
    · by_cases hc : c = 9
      · simp [hc, hmod, Nat.add_mod]
      · simp [hc, hmod]
    · by_cases hc : c = 9
      · simp [hc, hmod, Nat.add_mod]
      · simp [hc, hmod]

/-- What is visible to a domain is the stream without the characters other than TAB that come while
the other domain is selected. -/
theorem visible_concat (d : Domain) (cs : List UInt8) (c : UInt8) :
    switchDemux.visible d .low (cs ++ [c]) = switchDemux.visible d .low cs ++
      if c = 9 ∨ selectedAfter cs = d then [c] else [] := by
  rw [Demux.visible_append, foldl_next_eq, List.append_cancel_left_eq]
  generalize selectedAfter cs = selected
  show (if (handleChar selected c).2 = none ∨ (handleChar selected c).2 = some d then [c]
    else []) = _
  by_cases hc : c = 9
  · cases selected <;> simp [handleChar, switchChar, hc]
  · cases selected <;> simp [handleChar, switchChar, hc]

/-- **Domain separation**: when two streams of scancodes give the same characters, up to the
characters other than TAB that the switch receives while the other domain is selected, then any two
interleavings that process them write the same characters for this domain. -/
theorem domains_separated (codeToChar : List ℤ → UInt8) (d : Domain) {scancodes scancodes' : List ℤ}
    {ts ts' : List (Transition System Event)} {s s' : System}
    (h : switchDemux.visible d .low (emitted codeToChar .init scancodes) =
      switchDemux.visible d .low (emitted codeToChar .init scancodes'))
    (hrun : (machine codeToChar).Run (.init scancodes) ts s) (hdone : s.Processed)
    (hrun' : (machine codeToChar).Run (.init scancodes') ts' s') (hdone' : s'.Processed) :
    (s.side d).written = (s'.side d).written := by
  rw [written_eq_routed hrun hdone, written_eq_routed hrun' hdone']
  exact switchDemux.routed_congr h

/-- The characters of three keys in scancode set 2. -/
def threeKeys (passed : List ℤ) : UInt8 :=
  if passed.getLast? = some 0x1c then 97
  else if passed.getLast? = some 0x32 then 98
  else if passed.getLast? = some 0x0d then 9
  else 0

/-- The keys `a`, TAB, `b`, TAB, `a` are released. -/
def typeSecret : List ℤ := [0xf0, 0x1c, 0xf0, 0x0d, 0xf0, 0x32, 0xf0, 0x0d, 0xf0, 0x1c]

/-- The same without the `b`. -/
def typeNoSecret : List ℤ := [0xf0, 0x1c, 0xf0, 0x0d, 0xf0, 0x0d, 0xf0, 0x1c]

def secretSchedule : List Event :=
  List.replicate 10 Event.keyboardDriver ++ List.replicate 10 Event.switch ++
    List.replicate 4 (Event.mockLinux .low) ++ List.replicate 2 (Event.mockLinux .high) ++
    List.replicate 3 Event.vesaDriver

/-- The first `a` is on the screen before the next key is released. -/
def noSecretSchedule : List Event :=
  [Event.keyboardDriver, Event.keyboardDriver, Event.switch, Event.switch,
    Event.mockLinux .low, Event.mockLinux .low, Event.vesaDriver] ++
  List.replicate 6 Event.keyboardDriver ++ List.replicate 6 Event.switch ++
    [Event.mockLinux .low, Event.vesaDriver, Event.mockLinux .low, Event.vesaDriver]

/-- A schedule after which nothing is left to do, found by running it. -/
theorem exists_processed (scancodes : List ℤ) (es : List Event)
    (h : ((machine threeKeys).exec (.init scancodes) es).any fun r =>
      r.2.scancodes.isEmpty && r.2.text.isEmpty && r.2.switch.isNone &&
        (r.2.side .low).inFlight.isEmpty && (r.2.side .high).inFlight.isEmpty) :
    ∃ ts s, (machine threeKeys).Run (.init scancodes) ts s ∧ s.Processed := by
  obtain ⟨ts, s, hrun, -, hp⟩ := exists_run_of_exec _ _ es _ h
  simp only [Bool.and_eq_true, List.isEmpty_iff, Option.isNone_iff_eq_none] at hp
  obtain ⟨⟨⟨⟨hscancodes, htext⟩, hswitch⟩, hlow⟩, hhigh⟩ := hp
  refine ⟨ts, s, hrun, hscancodes, htext, hswitch, ?_⟩
  rintro (_ | _)
  · exact hlow
  · exact hhigh

theorem domains_separated_secret : ∃ ts s ts' s',
    (machine threeKeys).Run (.init typeSecret) ts s ∧
    (machine threeKeys).Run (.init typeNoSecret) ts' s' ∧
    (s.side .low).written = (s'.side .low).written ∧ (s.side .low).written = [97, 97] := by
  obtain ⟨ts, s, hrun, hdone⟩ := exists_processed typeSecret secretSchedule (by decide +kernel)
  obtain ⟨ts', s', hrun', hdone'⟩ := exists_processed typeNoSecret noSecretSchedule
    (by decide +kernel)
  have hsame := domains_separated threeKeys .low (by decide +kernel) hrun hdone hrun' hdone'
  refine ⟨ts, s, ts', s', hrun, hrun', hsame, ?_⟩
  rw [written_eq_routed hrun hdone]
  decide +kernel

end Camkes.Aeroplage
