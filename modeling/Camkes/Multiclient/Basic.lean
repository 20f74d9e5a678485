import Camkes.Data.CArray
import Camkes.Machine.Basic
import Mathlib.Logic.Function.Basic

/-!
# The clients of `multiclient`

The echo server answers one call of `s_echo_int` after the other: it copies its string to the
dataport, which all clients share, emits an event to them, and returns how many calls there have
been before.  A client calls it, and prints the reply and the string in the dataport; its callback
prints a line for the event and registers itself again.

The components run in any order.  Every access to the dataport is a step of its own.  The number `n`
of clients (3) is a parameter.
-/

namespace Camkes.Multiclient

/-- The size of the dataport. -/
def bufSize : ℕ := 4096

def str : List UInt8 := "This string is in the dataport.".toList.map Char.toUInt8

/-- The bytes that `strcpy` copies. -/
def strz : List UInt8 := str ++ [0]

/-- Where the server is; it serves one client at a time. -/
inductive ServerAt (n : ℕ)
  | idle
  -- in `strcpy`
  | copy (c : Fin n) (i : ℕ)
  | emit (c : Fin n)
  | ret (c : Fin n)
  deriving DecidableEq

/-- Where a client is in `run`. -/
inductive ClientAt
  | register
  | call
  | called
  | served
  | printInt (j : ℕ)
  -- `printf` has read this much of the string
  | print (j : ℕ) (out : List UInt8)
  -- with what it has printed
  | done (j : ℕ) (text : List UInt8)
  deriving DecidableEq

structure State (n : ℕ) where
  data : Vector UInt8 bufSize
  count : ℕ
  server : ServerAt n
  client : Fin n → ClientAt
  -- the event has been emitted and not been handled yet
  pending : Fin n → Bool
  -- the lines that the callback has printed
  received : Fin n → ℕ

inductive Event (n : ℕ)
  | client (c : Fin n)
  | callback (c : Fin n)
  -- the server receives the call of a client
  | serve (c : Fin n)
  | server
  deriving DecidableEq

variable {n : ℕ}

def State.init (n : ℕ) (data : Vector UInt8 bufSize) : State n where
  data := data
  count := 0
  server := .idle
  client _ := .register
  pending _ := false
  received _ := 0

def State.goto (s : State n) (c : Fin n) (p : ClientAt) : State n :=
  { s with client := Function.update s.client c p }

def State.ok (s : State n) : Event n → Prop
  | .client c =>
    match s.client c with
    | .called | .served | .done _ _ => False
    | _ => True
  | .callback c => s.client c ≠ .register ∧ s.pending c = true
  | .serve c => s.server = .idle ∧ s.client c = .called
  | .server => s.server ≠ .idle

def State.clientStep (s : State n) (c : Fin n) : Option (State n) :=
  match s.client c with
  | .register => some (s.goto c .call)
  | .call => some (s.goto c .called)
  | .printInt j => some (s.goto c (.print j []))
  | .print j out => do
    let b ← s.data[out.length]?
    some (s.goto c (if b = 0 then .done j out else .print j (out ++ [b])))
  | _ => some s

def State.serverStep (s : State n) : Option (State n) :=
  match s.server with
  | .idle => some s
  | .copy c i => do
    let b ← strz[i]?
    let data ← CArray.store s.data i b
    some { s with data := data, server := if b = 0 then .emit c else .copy c (i + 1) }
  | .emit c => some { s with pending := fun _ => true, server := .ret c }
  | .ret c => some { s.goto c (.printInt s.count) with count := s.count + 1, server := .idle }

def State.step (s : State n) : Event n → Option (State n)
  | .client c => s.clientStep c
  | .callback c =>
    some { s with
      pending := Function.update s.pending c false
      received := Function.update s.received c (s.received c + 1) }
  | .serve c => some { s.goto c .served with server := .copy c 0 }
  | .server => s.serverStep

def machine (n : ℕ) : Machine (State n) (Event n) where
  ok := State.ok
  step := State.step

end Camkes.Multiclient
