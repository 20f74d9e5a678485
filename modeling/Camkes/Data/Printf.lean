import Camkes.Data.CArray
import Mathlib.Algebra.BigOperators.Group.List.Basic
import Mathlib.Algebra.Ring.Nat

/-!
# Formatted text

`Printf.format fmt args` is the text for a format string with the conversions `%s` and `%x`.  It is
`none` if the arguments are not those of the conversions, and for any other conversion.

The text is as long as the format string, with the text of an argument for the two characters of
each conversion (`length_format`).
-/

namespace Camkes.Printf

/-- An argument, with its conversion. -/
inductive Arg
  | s (text : List Char)
  | x (value : UInt32)
  deriving DecidableEq

/-- `%x`. -/
def hex (value : UInt32) : List Char := Nat.toDigits 16 value.toNat

/-- What is printed for an argument. -/
def Arg.text : Arg → List Char
  | s text => text
  | x value => hex value

/-- The conversion that takes the argument. -/
def Arg.conversion : Arg → Char
  | s _ => 's'
  | x _ => 'x'

def format : List Char → List Arg → Option (List Char)
  | [], args => if args = [] then some [] else none
  | '%' :: d :: fmt, arg :: args =>
    if d = arg.conversion then (format fmt args).map (arg.text ++ ·) else none
  | '%' :: _, _ => none
  | c :: fmt, args => (format fmt args).map (c :: ·)

/-- `'\0'`. -/
def nul : Char := Char.ofNat 0

/-- `sprintf(buf, fmt, …)`, which fails (`none`) outside `buf`. -/
def sprintf {n : ℕ} (buf : Vector Char n) (fmt : List Char) (args : List Arg) :
    Option (Vector Char n) := do
  let text ← format fmt args
  CArray.memcpy buf (text ++ [nul])

variable {fmt text : List Char} {args : List Arg}

/-- How many hexadecimal digits a number takes. -/
theorem length_hex_le_iff (value : UInt32) {k : ℕ} (hk : 0 < k) :
    (hex value).length ≤ k ↔ value.toNat < 16 ^ k :=
  Nat.length_toDigits_le_iff (by decide) hk

theorem length_hex_le (value : UInt32) : (hex value).length ≤ 8 :=
  (length_hex_le_iff value (by decide)).mpr value.toNat_lt

/-! ### Reading hexadecimal digits -/

/-- The number that a hexadecimal digit stands for. -/
def unhexDigit (c : Char) : ℕ := if c.toNat ≤ 57 then c.toNat - 48 else c.toNat - 87

/-- The number that hexadecimal digits stand for. -/
def unhex (digits : List Char) : ℕ := digits.foldl (fun v c => v * 16 + unhexDigit c) 0

theorem unhexDigit_digitChar : ∀ d < 16, unhexDigit d.digitChar = d := by decide

/-- Digits are read back. -/
theorem unhex_toDigits (n : ℕ) : unhex (Nat.toDigits 16 n) = n := by
  induction n using Nat.strong_induction_on with
  | _ n ih =>
    rw [Nat.toDigits_eq_if (by decide)]
    by_cases hn : n < 16
    · rw [if_pos hn]
      show 0 * 16 + unhexDigit n.digitChar = n
      rw [unhexDigit_digitChar n hn]
      omega
    · rw [if_neg hn, unhex, List.foldl_append]
      show unhex (Nat.toDigits 16 (n / 16)) * 16 + unhexDigit (n % 16).digitChar = n
      rw [ih (n / 16) (by omega), unhexDigit_digitChar _ (Nat.mod_lt n (by decide))]
      omega

/-- Zeros in front do not count. -/
theorem unhex_replicate_append (k : ℕ) (digits : List Char) :
    unhex (List.replicate k '0' ++ digits) = unhex digits := by
  induction k with
  | zero => rfl
  | succ k ih => exact ih

/-! ### Padded and decimal numbers -/

/-- `%0kx` -/
def hexPad (k : ℕ) (x : UInt32) : List Char :=
  List.replicate (k - (hex x).length) '0' ++ hex x

/-- `%u` -/
def unsigned (x : UInt32) : List Char := Nat.toDigits 10 x.toNat

theorem length_hexPad {k : ℕ} (hk : 0 < k) {x : UInt32} (hx : x.toNat < 16 ^ k) :
    (hexPad k x).length = k := by
  have hle := (length_hex_le_iff x hk).mpr hx
  rw [hexPad, List.length_append, List.length_replicate]
  omega

theorem hexPad_injective (k : ℕ) : Function.Injective (hexPad k) := by
  intro x y h
  have hread : ∀ x, unhex (hexPad k x) = x.toNat := fun x => by
    rw [hexPad, unhex_replicate_append, hex, unhex_toDigits]
  rw [← UInt32.toNat_inj, ← hread x, h, hread]

theorem unsigned_injective : Function.Injective unsigned := by
  intro x y h
  have hread : ∀ x, Nat.ofDigitChars 10 (unsigned x) 0 = x.toNat := fun x =>
    Nat.ofDigitChars_ten_toDigits
  rw [← UInt32.toNat_inj, ← hread x, h, hread]

/-- How many decimal digits a number takes. -/
theorem length_unsigned_le_iff (x : UInt32) {k : ℕ} (hk : 0 < k) :
    (unsigned x).length ≤ k ↔ x.toNat < 10 ^ k :=
  Nat.length_toDigits_le_iff (by decide) hk

theorem notMem_unsigned {c : Char} (hc : c.isDigit = false) (x : UInt32) : c ∉ unsigned x := by
  intro hmem
  have hdigit := Nat.isDigit_of_mem_toDigits (by decide) (by decide) hmem
  rw [hc] at hdigit
  cases hdigit

/-- What stands before a separator can be told from what comes after it. -/
theorem append_sep_inj {sep : Char} {l l' r r' : List Char} (hl : sep ∉ l) (hl' : sep ∉ l') :
    l ++ sep :: r = l' ++ sep :: r' ↔ l = l' ∧ r = r' := by
  refine ⟨fun h => ?_, fun ⟨hl, hr⟩ => by rw [hl, hr]⟩
  induction l generalizing l' with
  | nil =>
    cases l' with
    | nil => exact ⟨rfl, (List.cons.inj h).2⟩
    | cons c l' => exact absurd (List.mem_cons.mpr (.inl (List.cons.inj h).1)) hl'
  | cons c l ih =>
    cases l' with
    | nil => exact absurd (List.mem_cons.mpr (.inl (List.cons.inj h).1.symm)) hl
    | cons c' l' =>
      obtain ⟨rfl, hrest⟩ := List.cons.inj h
      obtain ⟨rfl, hr⟩ := ih (fun hm => hl (.tail _ hm)) (fun hm => hl' (.tail _ hm)) hrest
      exact ⟨rfl, hr⟩

/-! ### Lengths -/

/-- How long a formatted text is. -/
theorem length_format (h : format fmt args = some text) :
    text.length + 2 * args.length = fmt.length + (args.map fun arg => arg.text.length).sum := by
  fun_induction format fmt args generalizing text with
  | case1 =>
    obtain rfl := Option.some.inj h
    rfl
  | case2 args hargs => cases h
  | case3 fmt arg args ih =>
    obtain ⟨rest, hrest, rfl⟩ := Option.map_eq_some_iff.mp h
    have hlen := ih hrest
    simp only [List.length_append, List.length_cons, List.map_cons, List.sum_cons]
    omega
  | case4 d fmt arg args hd => cases h
  | case5 fmt args hconv => cases h
  | case6 c fmt args hconv hpercent ih =>
    obtain ⟨rest, hrest, rfl⟩ := Option.map_eq_some_iff.mp h
    have hlen := ih hrest
    simp only [List.length_cons]
    omega

/-- A text that fits with its NUL is stored. -/
theorem exists_sprintf {n : ℕ} (buf : Vector Char n) (h : format fmt args = some text)
    (hlen : text.length < n) :
    ∃ buf', sprintf buf fmt args = some buf' ∧
      CArray.slice buf' 0 (text.length + 1) = some (text ++ [nul]) := by
  have hlength : (text ++ [nul]).length = text.length + 1 := List.length_append
  have hfits : (text ++ [nul]).length ≤ n := by omega
  obtain ⟨buf', hcopy, -⟩ := CArray.memcpy_eq_some buf hfits
  refine ⟨buf', ?_, ?_⟩
  · rw [sprintf, h]
    exact hcopy
  · rw [← hlength]
    exact CArray.slice_memcpy_self hcopy

end Camkes.Printf
