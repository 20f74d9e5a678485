import Camkes.PicotcpTcpEcho.Dispatch
import Mathlib.Data.List.Induction
import Mathlib.Tactic.Common

/-!
# Which events the Echo component looks at

`handle_picoserver_notification` polls twice after an event that it hands to a handler, so the event
after it is lost.  `handlePicoserverNotification_eq_iff` says that it does what `dispatchEach` does
exactly when no event before the last one is for one of the four sockets: then no event before the
last one changes the sockets or is followed by a second poll.
-/

namespace Camkes.PicotcpTcpEcho

variable {s : State} {e : PicoserverEvent}

theorem length_dispatchEach (s : State) (queue : List PicoserverEvent) :
    (dispatchEach s queue).2.length = queue.length := by
  induction queue generalizing s with
  | nil => rfl
  | cons e queue ih =>
    rw [dispatchEach, List.length_cons, List.length_cons, ih]

theorem handleLoop_cons (s : State) (e : PicoserverEvent) (queue : List PicoserverEvent) :
    handleLoop s (e :: queue) =
      let rest := handleLoop (dispatch s e).1 (if isRegistered s e then poll queue else queue)
      (rest.1, (dispatch s e).2 :: rest.2) := by
  rw [handleLoop]

/-- The loop looks at an event at most once. -/
theorem length_handleLoop_le (s : State) (queue : List PicoserverEvent) :
    (handleLoop s queue).2.length ≤ queue.length := by
  induction queue using List.twoStepInduction generalizing s with
  | nil =>
    rw [handleLoop]
    exact Nat.le_refl _
  | singleton e =>
    have hnil : (if isRegistered s e then poll [] else []) = [] := by
      split_ifs <;> rfl
    rw [handleLoop_cons, hnil, handleLoop]
    exact Nat.le_refl _
  | cons_cons e d queue ih ih' =>
    rw [handleLoop_cons]
    simp only [List.length_cons]
    split_ifs
    · have hle := ih (dispatch s e).1
      rw [poll, List.tail_cons]
      omega
    · have hle := ih' d (dispatch s e).1
      rw [List.length_cons] at hle
      omega

/-- An event for another socket changes nothing. -/
theorem dispatch_of_not_registered (h : isRegistered s e = false) :
    dispatch s e = (s, .unregistered e) := by
  simp only [isRegistered, Bool.or_eq_false_iff] at h
  rw [dispatch, h.1, h.2]
  rfl

/-- The event after one that has been handled is lost. -/
theorem handleLoop_ne_of_registered (h : isRegistered s e = true) (d : PicoserverEvent)
    (queue : List PicoserverEvent) :
    handleLoop s (e :: d :: queue) ≠ dispatchEach s (e :: d :: queue) := by
  intro heq
  have hlen : (handleLoop s (e :: d :: queue)).2.length = queue.length + 2 := by
    rw [heq, length_dispatchEach, List.length_cons, List.length_cons]
  rw [handleLoop_cons, if_pos h, poll, List.tail_cons, List.length_cons] at hlen
  have hle := length_handleLoop_le (dispatch s e).1 queue
  omega

/-- **Event dispatch of the Echo component**: one notification hands every pending event of the four
sockets to its handler once, in order, and loses none, exactly when no event but the last one is for
one of the four sockets. -/
theorem handlePicoserverNotification_eq_iff (s : State) (queue : List PicoserverEvent) :
    handlePicoserverNotification s queue = dispatchEach s queue ↔
      ∀ e ∈ queue.dropLast, isRegistered s e = false := by
  unfold handlePicoserverNotification
  induction queue with
  | nil =>
    rw [handleLoop]
    exact iff_of_true rfl (by simp)
  | cons e queue ih =>
    cases queue with
    | nil =>
      have hnil : (if isRegistered s e then poll [] else []) = [] := by
        split_ifs <;> rfl
      rw [handleLoop_cons, hnil, handleLoop]
      exact iff_of_true rfl (by simp)
    | cons d queue =>
      rw [List.dropLast_cons_cons, List.forall_mem_cons]
      cases h : isRegistered s e with
      | true =>
        apply iff_of_false (handleLoop_ne_of_registered h d queue)
        rintro ⟨hfalse, -⟩
        cases hfalse
      | false =>
        rw [← ih, handleLoop_cons, dispatchEach, dispatch_of_not_registered h, if_neg (by simp [h])]
        constructor
        · intro heq
          obtain ⟨hs, hds⟩ := Prod.mk.inj heq
          exact ⟨rfl, Prod.ext hs (List.cons.inj hds).2⟩
        · rintro ⟨-, heq⟩
          simp only [heq]

/-- A new connection for the utilisation server and one for the echo server are pending. -/
def twoConnections : List PicoserverEvent :=
  [{ socketFd := 1, events := { Events.none with conn := true }, events_ne := by decide
     replies := { accept := 3, recv := [], total := 0, idle := 0 } },
   { socketFd := 2, events := { Events.none with conn := true }, events_ne := by decide
     replies := { accept := 4, recv := [], total := 0, idle := 0 } }]

/-- The variables after `setup_utilization_socket` and `setup_tcp_echo_socket`, with one buffer. -/
def afterSetup : State where
  utilizSocket := 1
  peerSocket := -1
  socketIn := 2
  tcpEchoClient := 0
  rxBufPool := [{ id := 0, totalLen := 0, doneLen := 0, socketFd := -1 }]
  echoRecvBuf := List.replicate 0x1000 0

/-- The connection to the echo server is not accepted. -/
theorem twoConnections_lost :
    handlePicoserverNotification afterSetup twoConnections ≠
        dispatchEach afterSetup twoConnections ∧
      (handlePicoserverNotification afterSetup twoConnections).1.tcpEchoClient = 0 ∧
      (dispatchEach afterSetup twoConnections).1.tcpEchoClient = 4 := by
  decide +kernel

end Camkes.PicotcpTcpEcho
