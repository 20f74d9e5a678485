import Camkes.Data.CArray
import Camkes.Machine.Basic

/-!
# The sender and the client of `global_async`

The sender writes random strings to a dataport, one after the other.  It signals each to the client
and waits for the answer; the client waits for the signal, prints the string in the dataport and
answers.

Every access to the dataport is a step of its own, in any order between the two.  A notification is
an object of seL4: a signal sets it, and `seL4_Wait` waits until it is set and clears it.
-/

namespace Camkes.GlobalAsync

def sendDataLength : ℕ := 20

/-- The size of the dataport. -/
def bufSize : ℕ := 4096

/-- The strings that the sender sends. -/
def rounds : ℕ := 10

inductive Party
  | sender
  | client
  deriving DecidableEq

/-- Where the sender is in `sending_data_loop`. -/
inductive SenderAt
  -- in `create_random_string`
  | create (i j : ℕ)
  | terminate (i : ℕ)
  | emit (i : ℕ)
  | wait (i : ℕ)
  | done
  deriving DecidableEq

/-- Where the client is in `notification_event_loop`. -/
inductive ClientAt
  | wait
  -- in `printf`, which has read this much of the string
  | print (out : List UInt8)
  | reply
  deriving DecidableEq

structure State where
  data : Vector UInt8 bufSize
  -- the calls of `rand`
  calls : ℕ
  clientReady : Bool
  senderReady : Bool
  sender : SenderAt
  client : ClientAt
  printed : List (List UInt8)

def State.init (data : Vector UInt8 bufSize) : State where
  data := data
  calls := 0
  clientReady := false
  senderReady := false
  sender := .create 0 0
  client := .wait
  printed := []

/-- `'0' + (rand() % 72)` -/
def randomChar (r : ℕ) : UInt8 := '0'.toUInt8 + (r % 72).toUInt8

def State.ok (s : State) : Party → Prop
  | .sender =>
    match s.sender with
    | .wait _ => s.senderReady = true
    | .done => False
    | _ => True
  | .client =>
    match s.client with
    | .wait => s.clientReady = true
    | _ => True

/-- `rand` are the values that `rand` returns, one after the other. -/
def State.senderStep (rand : ℕ → ℕ) (s : State) : Option State :=
  match s.sender with
  | .create i j => do
    let data ← CArray.store s.data j (randomChar (rand s.calls))
    some { s with
      data := data
      calls := s.calls + 1
      sender := if j + 1 < sendDataLength then .create i (j + 1) else .terminate i }
  | .terminate i => do
    let data ← CArray.store s.data sendDataLength 0
    some { s with data := data, sender := .emit i }
  | .emit i => some { s with clientReady := true, sender := .wait i }
  | .wait i =>
    some { s with
      senderReady := false
      sender := if i + 1 < rounds then .create (i + 1) 0 else .done }
  | .done => some s

def State.clientStep (s : State) : Option State :=
  match s.client with
  | .wait => some { s with clientReady := false, client := .print [] }
  | .print out => do
    let c ← s.data[out.length]?
    if c = 0 then some { s with client := .reply, printed := s.printed ++ [out] }
    else some { s with client := .print (out ++ [c]) }
  | .reply => some { s with senderReady := true, client := .wait }

def machine (rand : ℕ → ℕ) : Machine State Party where
  ok := State.ok
  step s
    | .sender => s.senderStep rand
    | .client => s.clientStep

end Camkes.GlobalAsync
