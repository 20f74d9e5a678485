import Camkes.SecurityDemo.Connections

/-!
# Which connection the Transmitter transmits to

A connection that is accepted is the newest open one, and the handler stores it.  When a connection
ends the handler stores -1, whatever else is open; this is right exactly when nothing else is
(`tracked_step`).
-/

namespace Camkes.SecurityDemo

open Machine
open PicotcpTcpEcho (Events)

variable {socketIn : ℤ} {s s' : ConnSystem} {e : PicoserverEvent}

/-! ### Events -/

/-- **A new connection** is stored. -/
theorem ConnSystem.Connects.step_eq (h : s.Connects socketIn e) (hin : socketIn ≠ 0)
    (herr : e.events.err = false) :
    ∃ socket, s.Fresh socketIn socket ∧
      s.step e = some { s with ethSocket := socket, accepted := socket :: s.accepted } := by
  obtain ⟨rfl, ⟨hconn, hclose, hfin⟩, hpeer, hfresh⟩ := h
  obtain ⟨socket, hsocket⟩ := Option.isSome_iff_exists.mp hpeer
  refine ⟨socket, hfresh socket hsocket, ?_⟩
  simp [ConnSystem.step, handleEvent, handleConn, hconn, hclose, hfin, herr, hsocket, hin]

/-- The state after an event on a connection. -/
def ConnSystem.after (s : ConnSystem) (e : PicoserverEvent) : ConnSystem where
  ethSocket := if e.events.close = true ∨ e.events.fin = true then -1 else s.ethSocket
  accepted := s.accepted
  closed := if e.events.close then e.socketFd :: s.closed else s.closed
  finished := if e.events.fin then e.socketFd :: s.finished else s.finished

/-- **An event on a connection** clears `eth_socket` if the connection ends. -/
theorem ConnSystem.Happens.step_eq (h : s.Happens e) (herr : e.events.err = false) :
    s.step e = some (s.after e) := by
  obtain ⟨-, hconn, -, -⟩ := h
  cases hclose : e.events.close <;> cases hfin : e.events.fin <;>
    simp [ConnSystem.step, ConnSystem.after, handleEvent, handleConn, hconn, hclose, hfin, herr]

/-! ### The invariant -/

/-- Only accepted connections end, and descriptors are not negative. -/
structure ConnInv (s : ConnSystem) : Prop where
  closed : s.closed ⊆ s.accepted
  finished : s.finished ⊆ s.accepted
  nonneg : ∀ socket ∈ s.accepted, 0 ≤ socket

theorem connInv_init : ConnInv .init where
  closed := List.nil_subset _
  finished := List.nil_subset _
  nonneg := nofun

theorem mem_opened {socket : ℤ} :
    socket ∈ s.opened ↔ socket ∈ s.accepted ∧ socket ∉ s.closed ∧ socket ∉ s.finished := by
  simp [ConnSystem.opened]

/-- Nothing is open exactly when the newest open connection is -1. -/
theorem ConnInv.head?_opened (h : ConnInv s) :
    s.opened.head?.getD (-1) = -1 ↔ s.opened = [] := by
  cases hopened : s.opened with
  | nil => exact iff_of_true rfl rfl
  | cons socket rest =>
    have hmem : socket ∈ s.opened := hopened ▸ List.mem_cons_self ..
    have hnonneg := h.nonneg socket (mem_opened.mp hmem).1
    refine iff_of_false ?_ (List.cons_ne_nil _ _)
    show socket ≠ -1
    omega

/-- A new connection is tracked, and keeps the invariant. -/
theorem ConnInv.connect (h : ConnInv s) {socket : ℤ} (hfresh : s.Fresh socketIn socket) :
    ConnInv { s with ethSocket := socket, accepted := socket :: s.accepted } ∧
      ConnSystem.Tracked { s with ethSocket := socket, accepted := socket :: s.accepted } := by
  obtain ⟨hnonneg, -, hnew⟩ := hfresh
  constructor
  · have hsub : s.accepted ⊆ socket :: s.accepted := List.subset_cons_self ..
    exact ⟨List.Subset.trans h.closed hsub, List.Subset.trans h.finished hsub,
      List.forall_mem_cons.mpr ⟨hnonneg, h.nonneg⟩⟩
  · have hopen : socket ∉ s.closed ∧ socket ∉ s.finished :=
      ⟨fun hmem => hnew (h.closed hmem), fun hmem => hnew (h.finished hmem)⟩
    have hhead :
        ConnSystem.opened { s with ethSocket := socket, accepted := socket :: s.accepted } =
          socket :: s.opened :=
      List.filter_cons_of_pos (decide_eq_true hopen)
    rw [ConnSystem.Tracked, hhead]
    rfl

/-- The end of a connection keeps the invariant. -/
theorem ConnInv.after (h : ConnInv s) (hmem : e.socketFd ∈ s.accepted) : ConnInv (s.after e) := by
  refine ⟨?_, ?_, h.nonneg⟩
  · show (if _ then _ else _) ⊆ s.accepted
    split_ifs
    · exact List.cons_subset.mpr ⟨hmem, h.closed⟩
    · exact h.closed
  · show (if _ then _ else _) ⊆ s.accepted
    split_ifs
    · exact List.cons_subset.mpr ⟨hmem, h.finished⟩
    · exact h.finished

/-- A connection that ends is no longer open. -/
theorem mem_opened_after (hends : e.events.close = true ∨ e.events.fin = true) {socket : ℤ} :
    socket ∈ (s.after e).opened ↔ socket ∈ s.opened ∧ socket ≠ e.socketFd := by
  rw [mem_opened, mem_opened]
  cases hclose : e.events.close <;> cases hfin : e.events.fin <;>
    simp only [ConnSystem.after, hclose, hfin, if_true, if_false, Bool.false_eq_true,
      List.mem_cons] at hends ⊢ <;> tauto

/-- After a connection has ended, the right socket is tracked if and only if no other one is open.
-/
theorem ConnInv.tracked_after (h : ConnInv s) (htracked : s.Tracked)
    (hmem : e.socketFd ∈ s.accepted) : (s.after e).Tracked ↔ s.EndsLast e := by
  by_cases hends : e.events.close = true ∨ e.events.fin = true
  · have hsocket : (s.after e).ethSocket = -1 := if_pos hends
    rw [ConnSystem.Tracked, hsocket, eq_comm, (h.after hmem).head?_opened,
      List.eq_nil_iff_forall_not_mem]
    simp only [mem_opened_after hends, ConnSystem.EndsLast, not_and_not_right]
    exact ⟨fun hall _ => hall, fun hall => hall hends⟩
  · have hafter : s.after e = s := by
      rw [not_or] at hends
      simp [ConnSystem.after, hends]
    rw [hafter]
    exact iff_of_true htracked fun hends' => absurd hends' hends

/-- **What an event keeps**: `eth_socket` is the newest open connection afterwards exactly when no
other connection is open when one ends. -/
theorem tracked_step (hin : socketIn ≠ 0) (h : ConnInv s) (htracked : s.Tracked)
    (hok : (connMachine socketIn).ok s e) (hstep : (connMachine socketIn).step s e = some s') :
    ConnInv s' ∧ (s'.Tracked ↔ s.EndsLast e) := by
  obtain ⟨herr, hconnects | hhappens⟩ := hok
  · obtain ⟨socket, hfresh, heq⟩ := hconnects.step_eq hin herr
    obtain rfl := Option.some.inj (heq.symm.trans hstep)
    obtain ⟨hinv, hright⟩ := h.connect hfresh
    obtain ⟨-, ⟨-, hclose, hfin⟩, -⟩ := hconnects
    refine ⟨hinv, iff_of_true hright ?_⟩
    rintro (hends | hends)
    · rw [hclose] at hends
      cases hends
    · rw [hfin] at hends
      cases hends
  · have heq := hhappens.step_eq herr
    obtain rfl := Option.some.inj (heq.symm.trans hstep)
    exact ⟨h.after hhappens.1, h.tracked_after htracked hhappens.1⟩

/-! ### Runs -/

/-- Handling a queue and then one more event. -/
theorem handlePicoserverNotification_concat {ethSocket : ℤ} {queue : List PicoserverEvent}
    {r r' : ℤ × List ControlCall} (h : handlePicoserverNotification ethSocket queue = some r)
    (he : handleEvent r.1 e = some r') :
    handlePicoserverNotification ethSocket (queue ++ [e]) = some (r'.1, r.2 ++ r'.2) := by
  induction queue generalizing ethSocket r with
  | nil =>
    obtain rfl := Option.some.inj h
    simp [handlePicoserverNotification, he]
  | cons d queue ih =>
    obtain ⟨first, hfirst, hqueue⟩ := Option.bind_eq_some_iff.mp h
    obtain ⟨rest, hrest, hr⟩ : ∃ rest, handlePicoserverNotification first.1 queue = some rest ∧
        some (rest.1, first.2 ++ rest.2) = some r := Option.bind_eq_some_iff.mp hqueue
    obtain rfl := Option.some.inj hr
    have hlast := ih hrest he
    simp only [List.cons_append, handlePicoserverNotification, hfirst, hlast, Option.bind_eq_bind,
      Option.bind_some, List.append_assoc]

/-- The events of a run may all be pending when the Transmitter is notified. -/
theorem ethSocket_of_run {ts : List (Transition ConnSystem PicoserverEvent)}
    (hrun : (connMachine socketIn).Run .init ts s) :
    ∃ calls, handlePicoserverNotification (-1) (events ts) = some (s.ethSocket, calls) := by
  induction hrun with
  | nil => exact ⟨[], rfl⟩
  | snoc _ _ hstep ih =>
    obtain ⟨calls, hqueue⟩ := ih
    obtain ⟨r, hr, hs'⟩ := Option.bind_eq_some_iff.mp hstep
    obtain rfl := Option.some.inj hs'
    refine ⟨calls ++ r.2, ?_⟩
    rw [events_append]
    exact handlePicoserverNotification_concat hqueue hr

/-- **Connection tracking**: after every event of a run `eth_socket` is the newest connection that
has not ended, or -1, exactly when no connection ends while another one is open. -/
theorem tracked_iff_endsLast (hin : socketIn ≠ 0)
    {ts : List (Transition ConnSystem PicoserverEvent)}
    (hrun : (connMachine socketIn).Run .init ts s) :
    (∀ t ∈ ts, t.after.Tracked) ↔ ∀ t ∈ ts, t.before.EndsLast t.event := by
  refine hrun.forall_after_iff (I := fun s => ConnInv s ∧ s.Tracked) ⟨connInv_init, rfl⟩ ?_ ?_
  · rintro s e s' ⟨h, htracked⟩ hok hstep hlast
    obtain ⟨hinv, hiff⟩ := tracked_step hin h htracked hok hstep
    exact ⟨⟨hinv, hiff.mpr hlast⟩, hiff.mpr hlast⟩
  · rintro s e s' ⟨h, htracked⟩ hok hstep hright
    exact (tracked_step hin h htracked hok hstep).2.mp hright

/-- A connection that is accepted on socket 1. -/
def connected (socket : ℤ) : PicoserverEvent where
  socketFd := 1
  events := { Events.none with conn := true }
  peer := some socket

/-- The other end has closed, and the connection is over. -/
def ended (socket : ℤ) : List PicoserverEvent :=
  [{ socketFd := socket, events := { Events.none with close := true }, peer := none },
    { socketFd := socket, events := { Events.none with fin := true }, peer := none }]

/-- One client after the other. -/
def oneByOne : List PicoserverEvent := connected 2 :: ended 2 ++ [connected 3]

theorem tracked_iff_endsLast_oneByOne : ∃ ts s, (connMachine 1).Run .init ts s ∧
    events ts = oneByOne ∧ s.ethSocket = 3 ∧ ∀ t ∈ ts, t.after.Tracked := by
  obtain ⟨ts, s, hrun, hevents, hp⟩ := exists_run_of_exec (connMachine 1) .init oneByOne
    (fun r => r.2.ethSocket = 3 ∧ ∀ t ∈ r.1, t.before.EndsLast t.event) (by decide +kernel)
  obtain ⟨hsocket, hlast⟩ := of_decide_eq_true hp
  exact ⟨ts, s, hrun, hevents, hsocket, (tracked_iff_endsLast (by decide) hrun).mpr hlast⟩

/-- A second client comes before the first one goes. -/
def overlapping : List PicoserverEvent := connected 2 :: connected 3 :: ended 2

/-- The second client is still connected, and `eth_socket` is -1. -/
theorem not_tracked_overlapping : ∃ ts s, (connMachine 1).Run .init ts s ∧
    events ts = overlapping ∧ s.opened = [3] ∧ s.ethSocket = -1 ∧
    ¬ ∀ t ∈ ts, t.after.Tracked := by
  obtain ⟨ts, s, hrun, hevents, hp⟩ := exists_run_of_exec (connMachine 1) .init overlapping
    (fun r => (r.2.opened = [3] ∧ r.2.ethSocket = -1) ∧ r.1.any fun t => ¬ t.after.Tracked)
    (by decide +kernel)
  obtain ⟨⟨hopened, hsocket⟩, hany⟩ := of_decide_eq_true hp
  refine ⟨ts, s, hrun, hevents, hopened, hsocket, fun h => ?_⟩
  obtain ⟨t, ht, hnot⟩ := List.any_eq_true.mp hany
  exact of_decide_eq_true hnot (h t ht)

end Camkes.SecurityDemo
