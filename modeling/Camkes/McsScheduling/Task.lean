import Camkes.Data.CArray
import Mathlib.Algebra.BigOperators.Group.List.Basic
import Mathlib.Algebra.Ring.Nat

/-!
# The task of `mcs-scheduling`

A task reads the cycle counter again and again.  A long time between two readings means that it was
preempted, and begins a new slice: `tss` are the first readings of the slices, and `ccounts` how
long they are.  After `TEST_SIZE` slices the task prints which share of the time it has used.

The readings of `sel4bench_get_cycle_count` are a list.
-/

namespace Camkes.McsScheduling

open CArray

/-- `TEST_SIZE`. -/
def testSize : ℕ := 30

/-- `MAGIC_CYCLES`. -/
def magicCycles : UInt64 := 500

structure State where
  ccounts : Vector UInt64 testSize
  tss : Vector UInt64 testSize
  prev : UInt64
  ccount : UInt64
  pcount : ℕ

/-- A pass of the loop.  It fails if the assertion does or if a store is out of bounds. -/
def State.step (s : State) (ts : UInt64) : Option State :=
  if s.prev < ts then
    let diff := ts - s.prev
    if diff < magicCycles then
      some { s with ccount := s.ccount + diff, prev := ts }
    else do
      let ccounts ← store s.ccounts s.pcount s.ccount
      let pcount := s.pcount + 1
      let tss ← if pcount < testSize then store s.tss pcount ts else some s.tss
      some { ccounts, tss, prev := ts, ccount := 0, pcount }
  else none

/-- What is printed after the loop. -/
structure Report where
  tss : Vector UInt64 testSize
  ccounts : Vector UInt64 testSize
  -- the last reading
  ts : UInt64
  util : UInt64
  percent : UInt64

/-- It fails if the division is by zero. -/
def State.report (s : State) (ts : UInt64) : Option Report := do
  let start ← s.tss[0]?
  let util := s.ccounts.toList.foldl (fun util ccount => util + ccount) 0
  if ts - start = 0 then none
  else some { tss := s.tss, ccounts := s.ccounts, ts, util, percent := util * 100 / (ts - start) }

inductive Outcome
  -- the next reading has not been made
  | running
  | failed
  | done (r : Report)

/-- The loop, and what follows it. -/
def State.loop (s : State) : List UInt64 → Outcome
  | [] => .running
  | ts :: counts =>
    if s.pcount < testSize then
      match s.step ts with
      | some s => s.loop counts
      | none => .failed
    else
      match s.report ts with
      | some r => .done r
      | none => .failed

/-- The arrays are not initialized. -/
def run (ccounts tss : Vector UInt64 testSize) : List UInt64 → Outcome
  | [] => .running
  | prev :: counts =>
    match store tss 0 prev with
    | some tss => State.loop { ccounts, tss, prev, ccount := 0, pcount := 0 } counts
    | none => .failed

/-! ### What is recorded -/

/-- The slices are in order and apart from each other, and the share of the time that they are is
computed from them without overflow. -/
structure Report.Correct (r : Report) (first : UInt64) : Prop where
  start : r.tss[0]? = some first
  slices : ∀ k (h : k + 1 < testSize),
    r.tss[k].toNat + r.ccounts[k].toNat + magicCycles.toNat ≤ r.tss[k + 1].toNat
  elapsed : first < r.ts
  sum_le : (r.ccounts.toList.map UInt64.toNat).sum ≤ r.ts.toNat - first.toNat
  util : r.util.toNat = (r.ccounts.toList.map UInt64.toNat).sum
  util_lt : r.util.toNat * 100 < 2 ^ 64
  percent : r.percent.toNat = r.util.toNat * 100 / (r.ts.toNat - first.toNat)
  percent_le : r.percent.toNat ≤ 100

end Camkes.McsScheduling
