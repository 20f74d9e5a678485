import Camkes.PicotcpTcpEcho.Cleanup
import Camkes.PicotcpTcpEcho.Equiv.Dispatch

/-!
# Which sockets of the echo server are closed

An event of an accepted socket gets to the handler only if the socket is the current client's
(`step_of_current`, `step_of_ne`).  So a client that has been replaced by a new connection finishes
without being closed.
-/

namespace Camkes.PicotcpTcpEcho

open Machine

variable {s s' : CleanupSystem} {e : PicoserverEvent}

/-! ### Events -/

/-- The sockets that matter to the dispatcher are apart, and `socket_in` is not a descriptor of the
utilisation server. -/
structure Apart (s : CleanupSystem) : Prop where
  socketIn : s.state.socketIn ≠ s.state.utilizSocket ∧ s.state.socketIn ≠ s.state.peerSocket
  accepted : ∀ socket ∈ s.accepted, 0 ≤ socket ∧ s.state.Foreign socket

theorem isUtiliz_of_ne {state : State} (h : e.socketFd ≠ state.utilizSocket)
    (h' : e.socketFd ≠ state.peerSocket) : isUtiliz state e = false :=
  decide_eq_false (not_or.mpr ⟨h, h'⟩)

/-- **A new connection** becomes the current client. -/
theorem step_of_connects (h : Apart s) (hconnects : s.Connects e) :
    s.step e = some {
      state := (echoConn s.state e.socketFd e.replies).1
      accepted := e.replies.accept :: s.accepted
      finished := s.finished
      calls := s.calls ++ (echoConn s.state e.socketFd e.replies).2 } := by
  obtain ⟨hin, ⟨hconn, hclose, hfin⟩, -⟩ := hconnects
  have hutiliz : isUtiliz s.state e = false :=
    isUtiliz_of_ne (hin ▸ h.socketIn.1) (hin ▸ h.socketIn.2)
  have hecho : isEcho s.state e = true := decide_eq_true (Or.inl hin)
  simp [CleanupSystem.step, dispatch, hutiliz, hecho, handleTcpEchoNotification, hconn, hclose,
    hfin, Dispatch.calls]

/-- **An event of the current client** gets to the handler. -/
theorem step_of_current (h : Apart s) (hhappens : s.Happens e)
    (hcurrent : e.socketFd = s.state.tcpEchoClient) :
    s.step e = some {
      state := if e.events.fin then { s.state with tcpEchoClient := -1 } else s.state
      accepted := s.accepted
      finished := if e.events.fin then e.socketFd :: s.finished else s.finished
      calls := s.calls ++ ((if e.events.close then [.echoControlShutdown e.socketFd] else []) ++
        if e.events.fin then [.echoControlClose e.socketFd] else []) } := by
  obtain ⟨hmem, hconn⟩ := hhappens
  obtain ⟨-, hutilizSocket, hpeer, -⟩ := h.accepted _ hmem
  have hutiliz : isUtiliz s.state e = false := isUtiliz_of_ne hutilizSocket hpeer
  have hecho : isEcho s.state e = true := decide_eq_true (Or.inr hcurrent)
  cases hfin : e.events.fin <;>
    simp [CleanupSystem.step, dispatch, hutiliz, hecho, handleTcpEchoNotification, hconn, hfin,
      Dispatch.calls, hcurrent]

/-- **An event of any other client** is dropped. -/
theorem step_of_ne (h : Apart s) (hhappens : s.Happens e)
    (hne : e.socketFd ≠ s.state.tcpEchoClient) :
    s.step e = some { s with
      finished := if e.events.fin then e.socketFd :: s.finished else s.finished } := by
  obtain ⟨hmem, hconn⟩ := hhappens
  obtain ⟨-, hutilizSocket, hpeer, hin⟩ := h.accepted _ hmem
  have hutiliz : isUtiliz s.state e = false := isUtiliz_of_ne hutilizSocket hpeer
  have hecho : isEcho s.state e = false := decide_eq_false (not_or.mpr ⟨hin, hne⟩)
  have hdrop : dispatch s.state e = (s.state, .unregistered e) :=
    dispatch_of_not_registered (by simp [isRegistered, hutiliz, hecho])
  simp [CleanupSystem.step, hdrop, Dispatch.calls, hconn]

/-- Accepting a connection closes none. -/
theorem close_notMem_echoConn (state : State) (socket fd : ℤ) (r : Replies) :
    ¬ .echoControlClose fd ∈ (echoConn state socket r).2 := by
  have hrefill : ∀ pool, Call.echoControlClose fd ∉ refill r.accept pool := by
    intro pool
    induction pool with
    | nil => exact List.not_mem_nil
    | cons buf pool ih => simp [refill, ih]
  simp [echoConn, hrefill]

/-! ### The invariant -/

/-- Only sockets that have finished have been closed. -/
structure CleanupInv (s : CleanupSystem) : Prop extends Apart s where
  finished : ∀ socket, .echoControlClose socket ∈ s.calls → socket ∈ s.finished

theorem CleanupInv.connect (h : CleanupInv s) (hconnects : s.Connects e)
    (hstep : s.step e = some s') :
    CleanupInv s' ∧ s'.state.tcpEchoClient ≠ -1 ∧ (s.AllClosed → s'.AllClosed) := by
  rw [step_of_connects h.toApart hconnects] at hstep
  obtain rfl := Option.some.inj hstep
  obtain ⟨-, -, hnonneg, -, hforeign⟩ := hconnects
  refine ⟨⟨⟨h.socketIn, ?_⟩, ?_⟩, ?_, ?_⟩
  · exact List.forall_mem_cons.mpr ⟨⟨hnonneg, hforeign⟩, h.accepted⟩
  · intro socket hclose
    exact h.finished socket ((List.mem_append.mp hclose).resolve_right
      (close_notMem_echoConn s.state e.socketFd socket e.replies))
  · show e.replies.accept ≠ -1
    omega
  · exact fun hall socket hfin => List.mem_append_left _ (hall socket hfin)

/-- What an event of an accepted socket does to the three. -/
theorem happens_effect (h : Apart s) (hhappens : s.Happens e) (hstep : s.step e = some s') :
    Apart s' ∧
    (∀ socket, .echoControlClose socket ∈ s'.calls ↔ .echoControlClose socket ∈ s.calls ∨
      (e.events.fin = true ∧ e.socketFd = s.state.tcpEchoClient) ∧ socket = e.socketFd) ∧
    (∀ socket, socket ∈ s'.finished ↔
      socket ∈ s.finished ∨ e.events.fin = true ∧ socket = e.socketFd) ∧
    ClearsOwn ⟨s, e, s'⟩ := by
  by_cases hcurrent : e.socketFd = s.state.tcpEchoClient
  · rw [step_of_current h hhappens hcurrent] at hstep
    obtain rfl := Option.some.inj hstep
    cases hfin : e.events.fin with
    | false =>
      refine ⟨⟨h.socketIn, h.accepted⟩, fun socket => ?_, fun socket => ?_,
        fun hne hclear => absurd hclear hne⟩
      · cases hclose : e.events.close <;> simp
      · simp
    | true =>
      refine ⟨⟨h.socketIn, h.accepted⟩, fun socket => ?_, fun socket => ?_,
        fun _ _ => ⟨hfin, hcurrent⟩⟩
      · cases hclose : e.events.close <;> simp [hcurrent]
      · simp [or_comm]
  · rw [step_of_ne h hhappens hcurrent] at hstep
    obtain rfl := Option.some.inj hstep
    refine ⟨⟨h.socketIn, h.accepted⟩, fun socket => ?_, fun socket => ?_,
      fun hne hclear => absurd hclear hne⟩
    · simp [hcurrent]
    · cases hfin : e.events.fin <;> simp [or_comm]

/-- **An event of an accepted socket** keeps all closed exactly when the socket does not finish, or
has finished before, or is the current client's. -/
theorem CleanupInv.happen (h : CleanupInv s) (hhappens : s.Happens e)
    (hstep : s.step e = some s') :
    CleanupInv s' ∧ ClearsOwn ⟨s, e, s'⟩ ∧
      (s.AllClosed → (s'.AllClosed ↔ s.FinishesCurrent e)) := by
  obtain ⟨hapart, hcalls, hfinished, hclears⟩ := happens_effect h.toApart hhappens hstep
  refine ⟨⟨hapart, fun socket hclose => ?_⟩, hclears, fun hall => ⟨?_, ?_⟩⟩
  · rw [hfinished]
    exact ((hcalls socket).mp hclose).imp (h.finished socket) fun hnow => ⟨hnow.1.1, hnow.2⟩
  · intro hall' hfin hfirst
    have hclose := hall' e.socketFd ((hfinished _).mpr (Or.inr ⟨hfin, rfl⟩))
    rcases (hcalls _).mp hclose with hbefore | ⟨⟨-, hcurrent⟩, -⟩
    · exact absurd (h.finished _ hbefore) hfirst
    · exact hcurrent
  · intro hcurrent socket hsocket
    rw [hcalls]
    rcases (hfinished socket).mp hsocket with hbefore | ⟨hfin, rfl⟩
    · exact Or.inl (hall socket hbefore)
    · by_cases hbefore : e.socketFd ∈ s.finished
      · exact Or.inl (hall _ hbefore)
      · exact Or.inr ⟨⟨hfin, hcurrent hfin hbefore⟩, rfl⟩

theorem CleanupInv.of_step (h : CleanupInv s) (hok : cleanupMachine.ok s e)
    (hstep : cleanupMachine.step s e = some s') :
    CleanupInv s' ∧ ClearsOwn ⟨s, e, s'⟩ ∧
      (s.AllClosed → (s'.AllClosed ↔ s.FinishesCurrent e)) := by
  rcases hok with hconnects | hhappens
  · obtain ⟨hinv, hclient, hall⟩ := h.connect hconnects hstep
    refine ⟨hinv, fun _ hclear => absurd hclear hclient, fun hbefore => ?_⟩
    refine iff_of_true (hall hbefore) fun hfin => ?_
    rw [hconnects.2.1.2.2] at hfin
    cases hfin
  · exact h.happen hhappens hstep

/-! ### Runs -/

/-- **Connection cleanup**: up to every step of a run every socket that has finished has been
closed, and `tcp_echo_client` has become -1 only when its own socket finished, exactly when every
socket that finishes is the current client's. -/
theorem allClosed_iff_finishesCurrent {state : State}
    (hin : state.socketIn ≠ state.utilizSocket ∧ state.socketIn ≠ state.peerSocket)
    {ts : List (Transition CleanupSystem PicoserverEvent)}
    (hrun : cleanupMachine.Run (.start state) ts s) :
    (∀ t ∈ ts, t.after.AllClosed ∧ ClearsOwn t) ↔
      ∀ t ∈ ts, t.before.FinishesCurrent t.event := by
  have h₀ : CleanupInv (.start state) := ⟨⟨hin, nofun⟩, nofun⟩
  have hclears : ∀ t ∈ ts, ClearsOwn t := by
    intro t ht
    obtain ⟨hinv, hok, hstep, -⟩ :=
      hrun.forall_mem h₀ (fun _ _ _ h hok hstep => (h.of_step hok hstep).1) t ht
    exact (hinv.of_step hok hstep).2.1
  have hiff : (∀ t ∈ ts, t.after.AllClosed) ↔ ∀ t ∈ ts, t.before.FinishesCurrent t.event := by
    refine hrun.forall_after_iff (I := fun s => CleanupInv s ∧ s.AllClosed) ⟨h₀, nofun⟩ ?_ ?_
    · rintro s e s' ⟨h, hall⟩ hok hstep hcurrent
      obtain ⟨hinv, -, hiff⟩ := h.of_step hok hstep
      exact ⟨⟨hinv, (hiff hall).mpr hcurrent⟩, (hiff hall).mpr hcurrent⟩
    · rintro s e s' ⟨h, hall⟩ hok hstep hall'
      exact ((h.of_step hok hstep).2.2 hall).mp hall'
  rw [← hiff]
  exact forall₂_congr fun t ht => and_iff_left (hclears t ht)

/-- An event of a socket; a connection gets the descriptor `accept`. -/
def socketEvent (socketFd : ℤ) (events : Events) (events_ne : events ≠ .none) (accept : ℤ) :
    PicoserverEvent where
  socketFd
  events
  events_ne
  replies := { accept, recv := [], total := 0, idle := 0 }

/-- A client connects and gets this descriptor. -/
def connected (accept : ℤ) : PicoserverEvent :=
  socketEvent 2 { Events.none with conn := true } conn_ne_none accept

/-- A client goes. -/
def closedAndFinished (socket : ℤ) : PicoserverEvent :=
  socketEvent socket { Events.none with close := true, fin := true } (by decide) (-1)

theorem allClosed_iff_finishesCurrent_oneByOne : ∃ ts s,
    cleanupMachine.Run (.start afterSetup) ts s ∧
    events ts = [connected 4, closedAndFinished 4, connected 5, closedAndFinished 5] ∧
    s.finished = [5, 4] ∧ ∀ t ∈ ts, t.after.AllClosed ∧ ClearsOwn t := by
  obtain ⟨ts, s, hrun, hevents, hp⟩ := exists_run_of_exec cleanupMachine (.start afterSetup)
    [connected 4, closedAndFinished 4, connected 5, closedAndFinished 5]
    (fun r => r.2.finished = [5, 4] ∧ ∀ t ∈ r.1, t.before.FinishesCurrent t.event)
    (by decide +kernel)
  obtain ⟨hfinished, hcurrent⟩ := of_decide_eq_true hp
  exact ⟨ts, s, hrun, hevents, hfinished,
    (allClosed_iff_finishesCurrent (by decide) hrun).mpr hcurrent⟩

/-- The first client goes after a second one has come: its socket is not closed. -/
theorem not_allClosed_replaced : ∃ ts s,
    cleanupMachine.Run (.start afterSetup) ts s ∧
    events ts = [connected 4, connected 5, closedAndFinished 4] ∧
    s.finished = [4] ∧ ¬ .echoControlClose 4 ∈ s.calls ∧
    ¬ ∀ t ∈ ts, t.after.AllClosed ∧ ClearsOwn t := by
  obtain ⟨ts, s, hrun, hevents, hp⟩ := exists_run_of_exec cleanupMachine (.start afterSetup)
    [connected 4, connected 5, closedAndFinished 4]
    (fun r => (r.2.finished = [4] ∧ ¬ .echoControlClose 4 ∈ r.2.calls) ∧
      r.1.any fun t => ¬ t.after.AllClosed) (by decide +kernel)
  obtain ⟨⟨hfinished, hnot⟩, hany⟩ := of_decide_eq_true hp
  refine ⟨ts, s, hrun, hevents, hfinished, hnot, fun h => ?_⟩
  obtain ⟨t, ht, hopen⟩ := List.any_eq_true.mp hany
  exact of_decide_eq_true hopen (h t ht).1

end Camkes.PicotcpTcpEcho
