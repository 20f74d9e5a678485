import Camkes.EthdriverUboot.ClientRx
import Camkes.Machine.Basic
import Mathlib.Logic.Function.Basic

/-!
# The U-Boot Ethernet driver component and the clients that wait for it

A client waits for its notification and then calls `client_rx` until that returns a value that is
not positive.  A notification is kept until its client takes it: a call that returns such a value
emits before the client starts to wait.

The component starts before `server_init`, with clients that wait or call already.
-/

namespace Camkes.EthdriverUboot

/-- The component, and what its clients are doing. -/
structure Wakeup where
  drv : Ethdriver
  uboot : List Packet
  -- `client_emit` has been called for client `i` since it last took a notification
  notified : ℕ → Bool
  -- client `i` is in its calling loop, and does not wait
  calling : ℕ → Bool

inductive WakeupEvent
  -- a frame reaches the U-Boot driver
  | arrive (packet : Packet)
  -- `server_init`
  | init
  -- client `i` takes its notification
  | wake (i : ℕ)
  -- client `i` calls `client_rx`
  | rx (i : ℕ)
  deriving DecidableEq

def Wakeup.boot (notified calling : ℕ → Bool) : Wakeup where
  drv := .boot
  uboot := []
  notified
  calling

/-- The notifications of the clients after some effects.  `client_emit` knows a client by its badge,
as an `unsigned int`. -/
def emitAll (t : Template) (notified : ℕ → Bool) (effects : List Effect) (i : ℕ) : Bool :=
  notified i || (t.badges[i]?).any fun badge => effects.contains (.clientEmit badge.toUInt32)

def Wakeup.step (t : Template) (w : Wakeup) : WakeupEvent → Option Wakeup
  | .arrive packet => some { w with uboot := w.uboot ++ [packet] }
  | .init =>
    let (drv, effects) := serverInit t
    some { w with drv, notified := emitAll t w.notified effects }
  | .wake i =>
    some { w with
      notified := Function.update w.notified i false
      calling := Function.update w.calling i true }
  | .rx i => do
    let badge ← t.badges[i]?
    let r ← clientRx w.drv w.uboot badge.toUInt32
    some {
      drv := r.drv
      uboot := r.uboot
      notified := emitAll t w.notified r.effects
      calling := Function.update w.calling i (r.ret > 0) }

/-- Any frames arrive, the component is initialised once, and the clients wait and call in any
order. -/
def wakeupMachine (t : Template) : Machine Wakeup WakeupEvent where
  ok w
    | .arrive _ => True
    | .init => w.drv.doneInit = false
    | .wake i => i < t.badges.length ∧ w.calling i = false ∧ w.notified i = true
    | .rx i => i < t.badges.length ∧ w.calling i = true
  step := Wakeup.step t

instance decidable_wakeupMachine_ok (t : Template) (w : Wakeup) (e : WakeupEvent) :
    Decidable ((wakeupMachine t).ok w e) :=
  match e with
  | .arrive _ => inferInstanceAs (Decidable True)
  | .init => inferInstanceAs (Decidable (_ = _))
  | .wake _ => inferInstanceAs (Decidable (_ ∧ _ ∧ _))
  | .rx _ => inferInstanceAs (Decidable (_ ∧ _))

end Camkes.EthdriverUboot
