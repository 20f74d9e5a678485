import Mathlib.Data.List.Basic
import Mathlib.Tactic.Common

/-!
# Null termination in the CakeML filter

The theory of the filter defines how a CakeML string is cut at its first NUL, so that C code can
read it, and does the same for a list of bytes.

The characters of HOL have codes below 256.  A CakeML string is a literal, that is the list of its
characters.
-/

namespace Camkes.CakemlRegex

/-! ### Characters, strings and words -/

/-- A character, with its code `ORD`. -/
structure HolChar where
  ord : ℕ
  ord_lt : ord < 256
deriving DecidableEq

/-- `CHR`, for the codes that it is specified for. -/
def chr (n : ℕ) (h : n < 256) : HolChar := ⟨n, h⟩

/-- `CHR 0`. -/
def nul : HolChar := chr 0 (by decide)

structure MlString where
  explode : List HolChar
deriving DecidableEq

namespace MlString

def strlen (s : MlString) : ℕ := s.explode.length

def strsub (s : MlString) (n : ℕ) (h : n < s.strlen) : HolChar := s.explode.get ⟨n, h⟩

def strcat (s₁ s₂ : MlString) : MlString := ⟨s₁.explode ++ s₂.explode⟩

def str (c : HolChar) : MlString := ⟨[c]⟩

end MlString

/-- `SEG m k l`: the `m` elements of `l` from position `k` on. -/
def seg {α : Type*} : ℕ → ℕ → List α → List α
  | 0, _, _ => []
  | m + 1, 0, x :: l => x :: seg m 0 l
  | m + 1, k + 1, _ :: l => seg (m + 1) k l
  | _ + 1, _, [] => []

def MlString.substring (s : MlString) (off len : ℕ) : MlString :=
  if off + len ≤ s.explode.length then ⟨seg len off s.explode⟩
  else if off ≤ s.explode.length then ⟨s.explode.drop off⟩
  else ⟨[]⟩

/-- `CHR ∘ w2n`. -/
def charOfWord (w : UInt8) : HolChar := chr w.toNat w.toNat_lt

/-- `n2w ∘ ORD`. -/
def wordOfChar (c : HolChar) : UInt8 := UInt8.ofNat c.ord

def chars (l : List UInt8) : MlString := ⟨l.map charOfWord⟩

def bytes (s : MlString) : List UInt8 := s.explode.map wordOfChar

/-! ### Strings -/

def nullIndex (s : MlString) (n : ℕ) : Option ℕ :=
  if h : n ≥ s.strlen then none
  else if s.strsub n (Nat.lt_of_not_ge h) = nul then some n
  else nullIndex s (n + 1)
termination_by s.strlen + 1 - n

def cutAtNull (s : MlString) : MlString :=
  match nullIndex s 0 with
  | none => s.strcat (MlString.str nul)
  | some n => s.substring 0 (n + 1)

def NullTerminated (s : MlString) : Prop := ∃ m, nullIndex s 0 = some m

/-! ### Lists of bytes -/

def nullIndexW (s : List UInt8) (n : ℕ) : Option ℕ :=
  if h : n ≥ s.length then none
  else if s.get ⟨n, Nat.lt_of_not_ge h⟩ = 0 then some n
  else nullIndexW s (n + 1)
termination_by s.length + 1 - n

def cutAtNullW (s : List UInt8) : List UInt8 :=
  match nullIndexW s 0 with
  | none => s ++ [0]
  | some n => seg (n + 1) 0 s

def NullTerminatedW (s : List UInt8) : Prop := ∃ m, nullIndexW s 0 = some m

end Camkes.CakemlRegex
