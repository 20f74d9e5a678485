import Mathlib.Data.Nat.Notation
import Mathlib.Tactic.Common

/-!
# Polled devices

A program that reads a status register again and again sees a list of readings.  `await` drops
them up to the first one that is `ready`, and `none` says that it still waits.  An `Out` is what a
program has written, with the readings that are left; `putAll` waits before each element that it
writes.

What has been written after some readings is as many elements as readings were ready
(`putAll_eq`).  `upTo a` is a list up to the first `a`, for a program that stops there.
-/

namespace Camkes.Polling

variable {α ρ : Type*} {ready : ρ → Bool}

/-- What is left of the readings after the first one that is ready. -/
def await (ready : ρ → Bool) : List ρ → Option (List ρ)
  | [] => none
  | r :: rs => if ready r then some rs else await ready rs

/-- After `k` times waiting. -/
def afterReady (ready : ρ → Bool) : ℕ → List ρ → Option (List ρ)
  | 0, rs => some rs
  | k + 1, rs => (await ready rs).bind (afterReady ready k)

/-- What has been written, and the readings that are left unless the program waits. -/
abbrev Out (α ρ : Type*) := List α × Option (List ρ)

def Out.bind (r : Out α ρ) (f : List ρ → Out α ρ) : Out α ρ :=
  match r with
  | (l, none) => (l, none)
  | (l, some rs) => (l ++ (f rs).1, (f rs).2)

/-- Wait, and then put one element out. -/
def put (ready : ρ → Bool) (a : α) (rs : List ρ) : Out α ρ :=
  match await ready rs with
  | some rs => ([a], some rs)
  | none => ([], none)

/-- Put out one element after the other. -/
def putAll (ready : ρ → Bool) : List α → List ρ → Out α ρ
  | [], rs => ([], some rs)
  | a :: l, rs => (put ready a rs).bind (putAll ready l)

theorem Out.bind_assoc (r : Out α ρ) (f g : List ρ → Out α ρ) :
    (r.bind f).bind g = r.bind fun rs => (f rs).bind g := by
  obtain ⟨l, rest⟩ := r
  cases rest with
  | none => rfl
  | some rs =>
    show Out.bind (l ++ (f rs).1, (f rs).2) g = (l ++ ((f rs).bind g).1, ((f rs).bind g).2)
    cases hf : f rs with
    | mk l' rest' =>
      cases rest' with
      | none => rfl
      | some rs' => simp [Out.bind]

theorem Out.bind_nil (r : Out α ρ) : r.bind (fun rs => ([], some rs)) = r := by
  obtain ⟨l, rest⟩ := r
  cases rest with
  | none => rfl
  | some rs =>
    show (l ++ [], some rs) = (l, some rs)
    rw [List.append_nil]

/-- First some elements, then more. -/
theorem putAll_append (l l' : List α) (rs : List ρ) :
    putAll ready (l ++ l') rs = (putAll ready l rs).bind (putAll ready l') := by
  induction l generalizing rs with
  | nil => rfl
  | cons a l ih =>
    have hih : putAll ready (l ++ l') = fun rs => (putAll ready l rs).bind (putAll ready l') :=
      funext ih
    rw [List.cons_append, putAll, putAll, hih, Out.bind_assoc]

theorem putAll_singleton (a : α) (rs : List ρ) : putAll ready [a] rs = put ready a rs :=
  Out.bind_nil _

/-- The wait never ends exactly if no reading is ready. -/
theorem await_eq_none_iff {rs : List ρ} : await ready rs = none ↔ rs.countP ready = 0 := by
  induction rs with
  | nil => simp [await]
  | cons r rs ih =>
    rw [await, List.countP_cons]
    split_ifs with hr
    · simp
    · simpa using ih

/-- Waiting uses up one reading that is ready. -/
theorem countP_of_await {rs rest : List ρ} (h : await ready rs = some rest) :
    rs.countP ready = rest.countP ready + 1 := by
  induction rs with
  | nil => cases h
  | cons r rs ih =>
    rw [await] at h
    rw [List.countP_cons]
    split_ifs at h with hr
    · obtain rfl := Option.some.inj h
      rw [if_pos hr]
    · rw [if_neg hr]
      exact ih h

/-- **Polled output** -/
theorem putAll_eq (l : List α) (rs : List ρ) :
    putAll ready l rs = (l.take (rs.countP ready), afterReady ready l.length rs) := by
  induction l generalizing rs with
  | nil =>
    rw [List.take_nil]
    rfl
  | cons a l ih =>
    rw [putAll, put, List.length_cons, afterReady]
    cases h : await ready rs with
    | none =>
      rw [await_eq_none_iff.mp h]
      rfl
    | some rest =>
      rw [countP_of_await h, List.take_succ_cons]
      show ([a] ++ (putAll ready l rest).1, (putAll ready l rest).2) = _
      rw [ih]
      rfl

/-- A list up to the first `a`, that one included. -/
def upTo [DecidableEq α] (a : α) (l : List α) : List α := l.take (l.idxOf a + 1)

theorem upTo_cons [DecidableEq α] (a b : α) (l : List α) :
    upTo a (b :: l) = if b = a then [b] else b :: upTo a l := by
  rw [upTo, List.idxOf_cons]
  split_ifs with hb
  · simp [hb]
  · have hne : (b == a) = false := by simp [hb]
    rw [hne]
    rfl

end Camkes.Polling
