import Camkes.Aeroplage.Basic
import Mathlib.Tactic.Common

/-!
# Keys and scancodes

The keyboard sends a few scancodes for each key that goes down or up (`Token`).  The driver keeps
track of them in three variables.  Between two tokens `escapeCode` and `breakCode` are zero
(`KeyboardDriver.Ready`); `escapeState` may not be, but then nothing reads it before it is set.
-/

namespace Camkes.Aeroplage

variable {codeToChar : List ℤ → UInt8} {k k' : KeyboardDriver}

/-! ### Tokens -/

/-- A scancode that starts nothing. -/
abbrev Scancode := {c : ℤ // c ≠ 0xf0 ∧ c ≠ 0xe0 ∧ c ≠ 0xe1}

/-- What the keyboard sends for a key. -/
inductive Token
  | make (c : Scancode)
  | breakKey (c : Scancode)
  | extendedMake (c : Scancode)
  | extendedBreak (c : Scancode)
  | pauseMake (a b : Scancode)
  | pauseBreak (a b : Scancode)

def Token.scancodes : Token → List ℤ
  | .make c => [c.val]
  | .breakKey c => [0xf0, c.val]
  | .extendedMake c => [0xe0, c.val]
  | .extendedBreak c => [0xe0, 0xf0, c.val]
  | .pauseMake a b => [0xe1, a.val, b.val]
  | .pauseBreak a b => [0xe1, 0xf0, a.val, 0xf0, b.val]

/-- The code of a plain break. -/
def Token.plainBreak : Token → List ℤ
  | .breakKey c => [c.val]
  | .make _ | .extendedMake _ | .extendedBreak _ | .pauseMake _ _ | .pauseBreak _ _ => []

/-- The scancodes of some tokens. -/
def scancodesOf (tokens : List Token) : List ℤ := tokens.flatMap Token.scancodes

/-- The codes of the plain breaks among some tokens. -/
def plainBreaks (tokens : List Token) : List ℤ := tokens.flatMap Token.plainBreak

/-! ### Runs of the driver -/

/-- The driver after a stream of scancodes. -/
def KeyboardDriver.run (codeToChar : List ℤ → UInt8) (k : KeyboardDriver) (scancodes : List ℤ) :
    KeyboardDriver :=
  scancodes.foldl (fun k c => (k.scancode codeToChar c).1) k

/-- What the calls of `sel4keyboard_code_to_char` for the codes return, after calls for `passed`. -/
def results (codeToChar : List ℤ → UInt8) (passed : List ℤ) : List ℤ → List UInt8
  | [] => []
  | c :: codes => codeToChar (passed ++ [c]) :: results codeToChar (passed ++ [c]) codes

theorem run_append (k : KeyboardDriver) (cs ds : List ℤ) :
    k.run codeToChar (cs ++ ds) = (k.run codeToChar cs).run codeToChar ds :=
  List.foldl_append

theorem emitted_append (k : KeyboardDriver) (cs ds : List ℤ) :
    emitted codeToChar k (cs ++ ds) =
      emitted codeToChar k cs ++ emitted codeToChar (k.run codeToChar cs) ds := by
  induction cs generalizing k with
  | nil => rfl
  | cons c cs ih =>
    show _ ++ emitted codeToChar _ (cs ++ ds) = _ ++ _ ++ _
    rw [ih, List.append_assoc]
    rfl

theorem results_append (passed cs ds : List ℤ) :
    results codeToChar passed (cs ++ ds) =
      results codeToChar passed cs ++ results codeToChar (passed ++ cs) ds := by
  induction cs generalizing passed with
  | nil => rw [List.append_nil]; rfl
  | cons c cs ih =>
    rw [List.cons_append, results, results, ih, List.append_assoc, List.singleton_append]
    rfl

/-! ### Scancodes -/

@[simp] theorem scancode_f0 (k : KeyboardDriver) :
    k.scancode codeToChar 0xf0 = ({ k with breakCode := 0xf0 }, none) := rfl

@[simp] theorem scancode_e0 (k : KeyboardDriver) :
    k.scancode codeToChar 0xe0 = ({ k with escapeCode := 0xe0, escapeState := 0 }, none) := rfl

@[simp] theorem scancode_e1 (k : KeyboardDriver) :
    k.scancode codeToChar 0xe1 = ({ k with escapeCode := 0xe1, escapeState := 0 }, none) := rfl

/-- What the driver does with any other scancode. -/
theorem scancode_val (k : KeyboardDriver) (c : Scancode) :
    k.scancode codeToChar c.val =
      if k.escapeCode = 0xe1 then
        if k.escapeState + 1 = 2 then
          ({ k with escapeState := k.escapeState + 1, escapeCode := 0, breakCode := 0 }, none)
        else ({ k with escapeState := k.escapeState + 1 }, none)
      else if k.escapeCode = 0xe0 then ({ k with breakCode := 0, escapeCode := 0 }, none)
      else if k.breakCode = 0 then ({ k with breakCode := 0, escapeCode := 0 }, none)
      else { k with breakCode := 0, escapeCode := 0 }.transmit codeToChar c.val := by
  obtain ⟨c, hf0, he0, he1⟩ := c
  rw [KeyboardDriver.scancode, if_neg hf0, if_neg (not_or.mpr ⟨he0, he1⟩)]

/-! ### Equivalence -/

/-- Whatever comes, the two drivers pass and transmit the same. -/
def Equivalent (codeToChar : List ℤ → UInt8) (k k' : KeyboardDriver) : Prop :=
  ∀ scancodes, (k.run codeToChar scancodes).passed = (k'.run codeToChar scancodes).passed ∧
    emitted codeToChar k scancodes = emitted codeToChar k' scancodes

/-- The driver with its three variables set to zero. -/
def KeyboardDriver.zeroed (k : KeyboardDriver) : KeyboardDriver :=
  { k with escapeCode := 0, escapeState := 0, breakCode := 0 }

/-- The two drivers differ at most in `escapeState`, and not where it counts. -/
structure Similar (k k' : KeyboardDriver) : Prop where
  passed_eq : k.passed = k'.passed
  escapeCode_eq : k.escapeCode = k'.escapeCode
  breakCode_eq : k.breakCode = k'.breakCode
  escapeState_eq : k.escapeCode = 0xe1 → k.escapeState = k'.escapeState

variable (codeToChar) in
/-- Similar drivers do the same with a scancode and stay similar. -/
theorem Similar.scancode (h : Similar k k') (c : ℤ) :
    Similar (k.scancode codeToChar c).1 (k'.scancode codeToChar c).1 ∧
      (k.scancode codeToChar c).2 = (k'.scancode codeToChar c).2 := by
  obtain ⟨escapeCode, escapeState, breakCode, passed⟩ := k
  obtain ⟨escapeCode', escapeState', breakCode', passed'⟩ := k'
  obtain ⟨rfl, rfl, rfl, hstate⟩ := h
  by_cases he1 : escapeCode = 0xe1
  · obtain rfl := hstate he1
    exact ⟨⟨rfl, rfl, rfl, fun _ => rfl⟩, rfl⟩
  · -- `escapeState` is not read
    unfold KeyboardDriver.scancode
    simp only [if_neg he1]
    split_ifs
    · exact ⟨⟨rfl, rfl, rfl, fun h => absurd h he1⟩, rfl⟩
    · exact ⟨⟨rfl, rfl, rfl, fun _ => rfl⟩, rfl⟩
    · exact ⟨⟨rfl, rfl, rfl, nofun⟩, rfl⟩
    · exact ⟨⟨rfl, rfl, rfl, nofun⟩, rfl⟩
    · exact ⟨⟨rfl, rfl, rfl, nofun⟩, rfl⟩

/-- States that differ only in what is overwritten behave in the same way. -/
theorem Similar.equivalent (h : Similar k k') : Equivalent codeToChar k k' := by
  intro scancodes
  induction scancodes generalizing k k' with
  | nil => exact ⟨h.passed_eq, rfl⟩
  | cons c scancodes ih =>
    obtain ⟨hsimilar, hout⟩ := h.scancode codeToChar c
    obtain ⟨hpassed, hemitted⟩ := ih hsimilar
    refine ⟨hpassed, ?_⟩
    rw [emitted, emitted, hout, hemitted]

/-! ### Token boundaries -/

/-- No token has been started. -/
@[mk_iff]
structure KeyboardDriver.Ready (k : KeyboardDriver) : Prop where
  escapeCode_eq : k.escapeCode = 0
  breakCode_eq : k.breakCode = 0

/-- Between tokens, the state is as good as the initial one. -/
theorem KeyboardDriver.Ready.equivalent_zeroed (h : k.Ready) :
    Equivalent codeToChar k k.zeroed := by
  have hsimilar : Similar k k.zeroed := by
    refine ⟨rfl, h.escapeCode_eq, h.breakCode_eq, fun he1 => ?_⟩
    rw [h.escapeCode_eq] at he1
    cases he1
  exact hsimilar.equivalent

/-- A plain break: the code is passed on, and a result other than zero is transmitted. -/
theorem scancode_break (escapeState : ℤ) (passed : List ℤ) (c : Scancode) :
    KeyboardDriver.scancode codeToChar
        { escapeCode := 0, escapeState, breakCode := 0xf0, passed } c.val =
      ({ escapeCode := 0, escapeState, breakCode := 0, passed := passed ++ [c.val] },
        if codeToChar (passed ++ [c.val]) ≠ 0 then some (codeToChar (passed ++ [c.val]))
        else none) := by
  rw [scancode_val]
  rfl

variable (codeToChar) in
/-- **A token** is read to its end, and only a plain break has its code passed on. -/
theorem KeyboardDriver.Ready.token (h : k.Ready) (t : Token) :
    (k.run codeToChar t.scancodes).Ready ∧
      (k.run codeToChar t.scancodes).passed = k.passed ++ t.plainBreak ∧
      emitted codeToChar k t.scancodes =
        (results codeToChar k.passed t.plainBreak).filter (· ≠ 0) := by
  obtain ⟨escapeCode, escapeState, breakCode, passed⟩ := k
  obtain ⟨rfl, rfl⟩ := h
  cases t with
  | make c =>
    simp [ready_iff, run, emitted, results, Token.scancodes, Token.plainBreak, scancode_val]
  | breakKey c =>
    refine ⟨?_, ?_, ?_⟩
    · simp [ready_iff, run, Token.scancodes, scancode_break]
    · simp [run, Token.scancodes, Token.plainBreak, scancode_break]
    · by_cases hzero : codeToChar (passed ++ [c.val]) = 0
      · simp [emitted, results, Token.scancodes, Token.plainBreak, scancode_break, hzero]
      · simp [emitted, results, Token.scancodes, Token.plainBreak, scancode_break, hzero]
  | extendedMake c =>
    simp [ready_iff, run, emitted, results, Token.scancodes, Token.plainBreak, scancode_val]
  | extendedBreak c =>
    simp [ready_iff, run, emitted, results, Token.scancodes, Token.plainBreak, scancode_val]
  | pauseMake a b =>
    -- `a` is the first of the two scancodes to ignore, and `b` the second
    simp [ready_iff, run, emitted, results, Token.scancodes, Token.plainBreak, scancode_val]
  | pauseBreak a b =>
    simp [ready_iff, run, emitted, results, Token.scancodes, Token.plainBreak, scancode_val]

variable (codeToChar) in
/-- The same for any tokens. -/
theorem KeyboardDriver.Ready.tokens (h : k.Ready) (tokens : List Token) :
    (k.run codeToChar (scancodesOf tokens)).Ready ∧
      (k.run codeToChar (scancodesOf tokens)).passed = k.passed ++ plainBreaks tokens ∧
      emitted codeToChar k (scancodesOf tokens) =
        (results codeToChar k.passed (plainBreaks tokens)).filter (· ≠ 0) := by
  induction tokens generalizing k with
  | nil => exact ⟨h, (List.append_nil _).symm, rfl⟩
  | cons t tokens ih =>
    obtain ⟨hready, hpassed, hemitted⟩ := h.token codeToChar t
    obtain ⟨hready', hpassed', hemitted'⟩ := ih hready
    have hscancodes : scancodesOf (t :: tokens) = t.scancodes ++ scancodesOf tokens := rfl
    have hbreaks : plainBreaks (t :: tokens) = t.plainBreak ++ plainBreaks tokens := rfl
    rw [hscancodes, hbreaks, run_append]
    refine ⟨hready', ?_, ?_⟩
    · rw [hpassed', hpassed, List.append_assoc]
    · rw [emitted_append, hemitted, hemitted', hpassed, results_append, List.filter_append]

theorem ready_init : KeyboardDriver.init.Ready := ⟨rfl, rfl⟩

/-- **The scancode parser**: for any tokens, `sel4keyboard_code_to_char` is called on the codes of
the plain breaks in order, its non-zero results are transmitted, and after each token the variables
are as good as zero. -/
theorem scancodes_parsed (codeToChar : List ℤ → UInt8) (tokens : List Token) :
    (KeyboardDriver.init.run codeToChar (scancodesOf tokens)).passed = plainBreaks tokens ∧
      emitted codeToChar .init (scancodesOf tokens) =
        (results codeToChar [] (plainBreaks tokens)).filter (· ≠ 0) ∧
      ∀ boundary, let k := KeyboardDriver.init.run codeToChar (scancodesOf (tokens.take boundary))
        Equivalent codeToChar k k.zeroed := by
  obtain ⟨-, hpassed, hemitted⟩ := ready_init.tokens codeToChar tokens
  refine ⟨hpassed, hemitted, fun boundary => ?_⟩
  exact (ready_init.tokens codeToChar (tokens.take boundary)).1.equivalent_zeroed

end Camkes.Aeroplage
