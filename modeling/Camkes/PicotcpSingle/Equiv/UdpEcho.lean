import Camkes.PicotcpSingle.UdpEcho

/-!
# What the UDP echo server sends

While no call of the handler disturbs a datagram that waits, the trace and the static variables
agree (`Inv`): the datagrams that are owed an answer are none, or the one in the packet buffer.
`receiveLoop_spec` is the induction over the rounds of the receive loop.  A call that does disturb a
waiting datagram receives over it (`receiveLoop_over`), so `echoes_iff` gives the exact condition.
-/

namespace Camkes.PicotcpSingle.UdpEcho

open CArray Machine

/-! ### Unanswered datagrams -/

@[simp] theorem unanswered_received (trace : List Action) (pendingLen : ℤ) (d : Datagram) :
    unanswered (trace ++ [.received pendingLen d]) = unanswered trace ++ [d] :=
  List.foldl_append

@[simp] theorem unanswered_sent (trace : List Action) (d : Datagram) :
    unanswered (trace ++ [.sent d]) = (unanswered trace).erase d :=
  List.foldl_append

/-- The unanswered datagrams that are not empty.  Empty ones are never answered. -/
def owed (trace : List Action) : List Datagram := (unanswered trace).filter (·.payload ≠ [])

theorem owed_received_empty {d : Datagram} (hd : d.payload = []) (trace : List Action)
    (pendingLen : ℤ) : owed (trace ++ [.received pendingLen d]) = owed trace := by
  rw [owed, unanswered_received, List.filter_append, List.filter_singleton]
  simp [owed, hd]

theorem owed_received {d : Datagram} (hd : d.payload ≠ []) (trace : List Action)
    (pendingLen : ℤ) : owed (trace ++ [.received pendingLen d]) = owed trace ++ [d] := by
  rw [owed, unanswered_received, List.filter_append, List.filter_singleton]
  simp [owed, hd]

theorem owed_sent (trace : List Action) (d : Datagram) :
    owed (trace ++ [.sent d]) = (owed trace).erase d := by
  rw [owed, unanswered_sent, owed, List.erase_filter]

/-- Sending the one datagram that is owed is right, and settles it. -/
theorem echoes_sent {trace : List Action} (h : Echoes trace) {d : Datagram}
    (hd : owed trace = [d]) : Echoes (trace ++ [.sent d]) ∧ owed (trace ++ [.sent d]) = [] := by
  constructor
  · have hmem : d ∈ owed trace := hd ▸ List.mem_singleton_self d
    exact along_concat.mpr ⟨h, List.mem_of_mem_filter hmem⟩
  · rw [owed_sent, hd, List.erase_cons_head]

/-! ### The invariant -/

/-- The datagram that waits in the packet buffer, if there is one. -/
def Waits (s : State) : Option Datagram → Prop
  | none => s.pendingLen = -1
  | some d => s.pendingLen = d.payload.length ∧ outgoing s d.payload.length = some d ∧
      d.payload ≠ []

/-- The trace is right, and what is owed is what waits. -/
structure Inv (s : State) (trace : List Action) : Prop where
  echoes : Echoes trace
  waits : ∃ w, Waits s w ∧ owed trace = w.toList

/-- Without a pending datagram, none is owed. -/
theorem Inv.of_pendingLen {s : State} {trace : List Action} (h : Inv s trace)
    (hp : s.pendingLen = -1) : owed trace = [] := by
  obtain ⟨w, hw, howed⟩ := h.waits
  cases w with
  | none => exact howed
  | some d =>
    have hlen : s.pendingLen = d.payload.length := hw.1
    omega

theorem Inv.of_pendingLen_ne {s : State} {trace : List Action} (h : Inv s trace)
    (hp : s.pendingLen ≠ -1) : ∃ d, Waits s (some d) ∧ owed trace = [d] := by
  obtain ⟨w, hw, howed⟩ := h.waits
  cases w with
  | none => exact absurd hw hp
  | some d => exact ⟨d, hw, howed⟩

theorem inv_of_owed_nil {s : State} (hp : s.pendingLen = -1) {trace : List Action}
    (h : Echoes trace) (howed : owed trace = []) : Inv s trace :=
  ⟨h, none, hp, howed⟩

/-- The number of read events to serve does not matter. -/
theorem Inv.withQueued {s : State} {trace : List Action} (h : Inv s trace) (n : UInt64) :
    Inv { s with rxQueued := n } trace := by
  obtain ⟨w, hw, howed⟩ := h.waits
  refine ⟨h.echoes, w, ?_, howed⟩
  cases w with
  | none => exact hw
  | some d => exact hw

/-! ### Receiving -/

/-- What is left of a datagram that is longer than `UDP_READ_SIZE`. -/
def Datagram.cut (d : Datagram) : Datagram := { d with payload := d.payload.take udpReadSize }

/-- A received datagram is in the buffer, ready to be sent back. -/
theorem recvfrom_datagram (s : State) (d : Datagram) :
    ∃ s', recvfrom s (.datagram d) =
        some (s', (d.cut.payload.length : ℤ), [Action.received s.pendingLen d.cut]) ∧
      s'.pendingLen = s.pendingLen ∧ outgoing s' d.cut.payload.length = some d.cut := by
  have hlen : d.cut.payload.length ≤ packetSize := by
    apply Nat.le_trans (List.length_take_le _ _)
    decide
  obtain ⟨buf, hbuf, -⟩ := memcpy_eq_some s.udpDataPacket hlen
  refine ⟨{ s with udpDataPacket := buf, udpOrig := d.addr, udpRemotePort := d.port }, ?_, rfl, ?_⟩
  · simp only [recvfrom]
    rw [show List.take udpReadSize d.payload = d.cut.payload from rfl, hbuf]
    rfl
  · simp only [outgoing, Int.toNat_natCast, slice_memcpy_self hbuf]
    rfl

/-- With nothing waiting, the receive loop answers datagrams in turn until one has to wait. -/
theorem receiveLoop_spec {s : State} (hp : s.pendingLen = -1) {trace : List Action}
    (h : Echoes trace) (howed : owed trace = []) (rounds : List (RecvFrom × SendTo)) :
    ∃ s' acts, receiveLoop s rounds = some (s', acts) ∧ Inv s' (trace ++ acts) := by
  induction rounds generalizing s trace with
  | nil =>
    have hinv : Inv s (trace ++ []) := by
      rw [List.append_nil]
      exact inv_of_owed_nil hp h howed
    rw [receiveLoop]
    split_ifs
    · exact ⟨s, [], rfl, hinv⟩
    · exact ⟨_, [], rfl, hinv.withQueued _⟩
  | cons round rounds ih =>
    obtain ⟨recv, send⟩ := round
    have hinv : Inv s (trace ++ []) := by
      rw [List.append_nil]
      exact inv_of_owed_nil hp h howed
    rw [receiveLoop]
    split_ifs with hq
    · exact ⟨s, [], rfl, hinv⟩
    · cases recv with
      | error => exact ⟨_, [], rfl, hinv.withQueued _⟩
      | nothing => exact ⟨_, [], rfl, hinv.withQueued _⟩
      | datagram d =>
        obtain ⟨s₁, hrecv, hp₁, hout⟩ := recvfrom_datagram s d
        have h₁ : Echoes (trace ++ [.received s.pendingLen d.cut]) := along_concat.mpr ⟨h, hp⟩
        simp only [hrecv, Option.bind_eq_bind, Option.bind_some]
        by_cases hd : d.cut.payload = []
        · -- an empty datagram is received and not answered
          rw [if_pos (by simp [hd])]
          have howed₁ : owed (trace ++ [.received s.pendingLen d.cut]) = [] := by
            rw [owed_received_empty hd, howed]
          exact ⟨_, _, rfl, (inv_of_owed_nil (hp₁.trans hp) h₁ howed₁).withQueued _⟩
        · have howed₁ : owed (trace ++ [.received s.pendingLen d.cut]) = [d.cut] := by
            rw [owed_received hd, howed, List.nil_append]
          have hne : ¬ ((d.cut.payload.length : ℤ) = -1 ∨ (d.cut.payload.length : ℤ) = 0) := by
            have hpos := List.length_pos_iff.mpr hd
            omega
          have hout' : outgoing { s₁ with rxQueued := s₁.rxQueued - 1 } d.cut.payload.length =
              some d.cut := hout
          rw [if_neg hne, hout', Option.bind_some]
          cases send with
          | error => exact ⟨_, _, rfl, h₁, some d.cut, ⟨rfl, hout, hd⟩, howed₁⟩
          | full => exact ⟨_, _, rfl, h₁, some d.cut, ⟨rfl, hout, hd⟩, howed₁⟩
          | sent =>
            obtain ⟨h₂, howed₂⟩ := echoes_sent h₁ howed₁
            have hp₂ : ({ s₁ with rxQueued := s₁.rxQueued - 1 } : State).pendingLen = -1 :=
              hp₁.trans hp
            obtain ⟨s', acts, hloop, hinv'⟩ := ih hp₂ h₂ howed₂
            refine ⟨s', [.received s.pendingLen d.cut] ++ .sent d.cut :: acts, ?_, ?_⟩
            · simp only [hloop, Option.bind_some]
            · rw [List.append_assoc, List.append_assoc, List.singleton_append] at hinv'
              rwa [List.singleton_append]

/-- Without a read event to serve, or without a datagram to receive, the loop changes only the
number of read events. -/
theorem receiveLoop_quiet {s : State} {rounds : List (RecvFrom × SendTo)}
    (h : s.rxQueued = 0 ∨ ∀ d send more, rounds ≠ (.datagram d, send) :: more) :
    ∃ n, receiveLoop s rounds = some ({ s with rxQueued := n }, []) := by
  rcases rounds with - | ⟨⟨recv, send⟩, rounds⟩
  · rw [receiveLoop]
    split_ifs
    · exact ⟨s.rxQueued, rfl⟩
    · exact ⟨_, rfl⟩
  · rw [receiveLoop]
    split_ifs with hq
    · exact ⟨s.rxQueued, rfl⟩
    · cases recv with
      | error => exact ⟨_, rfl⟩
      | nothing => exact ⟨_, rfl⟩
      | datagram d => exact absurd rfl (h.resolve_left hq d send rounds)

/-- With a read event to serve and a datagram to receive, the loop receives it, whether or not
another one waits. -/
theorem receiveLoop_over {s s' : State} (hq : s.rxQueued ≠ 0) {d : Datagram} {send : SendTo}
    {rounds : List (RecvFrom × SendTo)} {acts : List Action}
    (h : receiveLoop s ((.datagram d, send) :: rounds) = some (s', acts)) :
    ∃ more, acts = .received s.pendingLen d.cut :: more := by
  obtain ⟨s₁, hrecv, -, hout⟩ := recvfrom_datagram s d
  rw [receiveLoop, if_neg hq] at h
  simp only [hrecv, Option.bind_eq_bind, Option.bind_some] at h
  by_cases hret : (d.cut.payload.length : ℤ) = -1 ∨ (d.cut.payload.length : ℤ) = 0
  · rw [if_pos hret] at h
    obtain ⟨-, rfl⟩ := Prod.mk.inj (Option.some.inj h)
    exact ⟨[], rfl⟩
  · rw [if_neg hret] at h
    have hout' : outgoing { s₁ with rxQueued := s₁.rxQueued - 1 } d.cut.payload.length =
        some d.cut := hout
    rw [hout', Option.bind_some] at h
    cases send with
    | error =>
      obtain ⟨-, rfl⟩ := Prod.mk.inj (Option.some.inj h)
      exact ⟨[], rfl⟩
    | full =>
      obtain ⟨-, rfl⟩ := Prod.mk.inj (Option.some.inj h)
      exact ⟨[], rfl⟩
    | sent =>
      obtain ⟨⟨s₂, more⟩, -, hres⟩ := Option.bind_eq_some_iff.mp h
      obtain ⟨-, rfl⟩ := Prod.mk.inj (Option.some.inj hres)
      exact ⟨_, rfl⟩

/-! ### The handler -/

theorem pendingLen_countRead (s : State) (events : SockEvents) :
    (countRead s events).pendingLen = s.pendingLen := by
  unfold countRead
  split_ifs <;> rfl

theorem Inv.withRead {s : State} {trace : List Action} (h : Inv s trace) (events : SockEvents) :
    Inv (countRead s events) trace := by
  unfold countRead
  split_ifs
  · exact h.withQueued _
  · exact h

theorem offersDatagram_of_eq {c : Call} {d : Datagram} {send : SendTo}
    {more : List (RecvFrom × SendTo)} (h : c.rounds = (.datagram d, send) :: more) :
    c.offersDatagram = true := by
  rw [Call.offersDatagram, h]

/-- A call that disturbs no waiting datagram keeps the invariant. -/
theorem Inv.handle {s : State} {trace : List Action} (h : Inv s trace) {c : Call}
    (hc : Undisturbed s c) :
    ∃ s' acts, handleUdpPicoserverNotification s c = some (s', acts) ∧ Inv s' (trace ++ acts) := by
  have hinv := h.withRead c.events
  have hpl := pendingLen_countRead s c.events
  unfold Undisturbed at hc
  rw [← hpl] at hc
  unfold handleUdpPicoserverNotification
  generalize countRead s c.events = s₁ at hinv hpl hc
  by_cases hp : s₁.pendingLen = -1
  · -- nothing waits
    rw [if_neg (fun hand => hand.2 hp)]
    exact receiveLoop_spec hp hinv.echoes (hinv.of_pendingLen hp) c.rounds
  · obtain ⟨d, ⟨hlen, hout, hd⟩, howed⟩ := hinv.of_pendingLen_ne hp
    by_cases hwr : c.events.wr
    · -- a datagram waits and may be sent now
      rw [if_pos ⟨hwr, hp⟩, hlen, hout]
      have hstays : Inv s₁ (trace ++ []) := by rwa [List.append_nil]
      cases hsend : c.resend with
      | error => exact ⟨s₁, [], rfl, hstays⟩
      | full => exact ⟨s₁, [], rfl, hstays⟩
      | sent =>
        obtain ⟨h₂, howed₂⟩ := echoes_sent hinv.echoes howed
        obtain ⟨s', acts, hloop, hinv'⟩ :=
          receiveLoop_spec (s := { s₁ with pendingLen := -1 }) rfl h₂ howed₂ c.rounds
        refine ⟨s', .sent d :: acts, ?_, ?_⟩
        · simp only [Option.bind_eq_bind, Option.bind_some, hloop]
        · rwa [List.append_assoc, List.singleton_append] at hinv'
    · -- a datagram waits on
      rw [if_neg (fun hand => hwr hand.1)]
      have hquiet : s₁.rxQueued = 0 ∨
          ∀ d send more, c.rounds ≠ (.datagram d, send) :: more := by
        rcases hc with hp' | hwr' | hq | hoffer
        · exact absurd hp' hp
        · exact absurd hwr' hwr
        · exact Or.inl hq
        · apply Or.inr
          intro d send more heq
          rw [offersDatagram_of_eq heq] at hoffer
          cases hoffer
      obtain ⟨n, hloop⟩ := receiveLoop_quiet hquiet
      refine ⟨_, [], hloop, ?_⟩
      rw [List.append_nil]
      exact hinv.withQueued n

/-- A call that disturbs a waiting datagram receives another one over it. -/
theorem handle_disturbed {s s' : State} {c : Call} (hc : ¬ Undisturbed s c) {acts : List Action}
    (h : handleUdpPicoserverNotification s c = some (s', acts)) :
    s.pendingLen ≠ -1 ∧ ∃ d more, acts = .received s.pendingLen d :: more := by
  simp only [Undisturbed, not_or] at hc
  obtain ⟨hp, hwr, hq, hoffer⟩ := hc
  refine ⟨hp, ?_⟩
  have hd : ∃ d send more, c.rounds = (.datagram d, send) :: more := by
    unfold Call.offersDatagram at hoffer
    split at hoffer
    · exact ⟨_, _, _, by assumption⟩
    · exact absurd rfl hoffer
  obtain ⟨d, send, rounds, hrounds⟩ := hd
  unfold handleUdpPicoserverNotification at h
  rw [if_neg (fun hand => hwr hand.1), hrounds] at h
  obtain ⟨more, rfl⟩ := receiveLoop_over hq h
  rw [pendingLen_countRead]
  exact ⟨_, _, rfl⟩

/-! ### Runs -/

theorem inv_init : Inv State.init [] := inv_of_owed_nil rfl along_nil rfl

/-- **The UDP echo server**: all along a run the datagrams that are sent answer received datagrams,
each once, and none is received while another one waits, exactly when no call of the handler in the
run disturbs a datagram that waits. -/
theorem echoes_iff {ts : List (Transition System Call)} {s : System}
    (hrun : machine.Run .init ts s) :
    (∀ t ∈ ts, Echoes t.after.trace) ↔ ∀ t ∈ ts, Undisturbed t.before.server t.event := by
  refine hrun.forall_after_iff (I := fun s => Inv s.server s.trace)
    (P := fun s => Echoes s.trace) (C := fun s c => Undisturbed s.server c) inv_init ?_ ?_
  · intro s c s' hinv _ hstep hc
    obtain ⟨server, acts, hhandle, hinv'⟩ := hinv.handle hc
    have hs' : System.step s c = some { server, trace := s.trace ++ acts } := by
      simp only [System.step, hhandle, Option.bind_eq_bind, Option.bind_some]
    obtain rfl := Option.some.inj (hstep.symm.trans hs')
    exact ⟨hinv', hinv'.echoes⟩
  · intro s c s' hinv _ hstep hechoes
    by_contra hc
    obtain ⟨⟨server, acts⟩, hhandle, hs'⟩ := Option.bind_eq_some_iff.mp hstep
    obtain rfl := Option.some.inj hs'
    obtain ⟨hp, d, more, rfl⟩ := handle_disturbed hc hhandle
    exact hp hechoes.of_mem

/-- A read event. -/
def readEvent : SockEvents := { SockEvents.none with rd := true }

/-- A write event. -/
def writeEvent : SockEvents := { SockEvents.none with wr := true }

/-- A datagram has to wait, is sent at the next write event, and another one comes after it. -/
def waitsThenSent : List Call :=
  [⟨readEvent, .sent, [(.datagram ⟨[1, 2, 3], 10, 7⟩, .full)]⟩, ⟨writeEvent, .sent, []⟩,
    ⟨readEvent, .sent, [(.datagram ⟨[4], 20, 7⟩, .sent)]⟩]

theorem echoes_waitsThenSent : ∃ ts s, machine.Run .init ts s ∧ events ts = waitsThenSent ∧
    (∀ t ∈ ts, Undisturbed t.before.server t.event) ∧ ∀ t ∈ ts, Echoes t.after.trace := by
  obtain ⟨ts, s, hrun, hevents, hund⟩ := exists_run_of_exec machine .init waitsThenSent
    (fun r => ∀ t ∈ r.1, Undisturbed t.before.server t.event) (by decide +kernel)
  have hund' := of_decide_eq_true hund
  exact ⟨ts, s, hrun, hevents, hund', (echoes_iff hrun).mpr hund'⟩

/-- A datagram has to wait, and a shorter one from another sender comes before the next write
event. -/
def readWhileWaiting : List Call :=
  [⟨readEvent, .sent, [(.datagram ⟨[1, 2, 3], 10, 7⟩, .full)]⟩,
    ⟨readEvent, .sent, [(.datagram ⟨[4], 20, 7⟩, .sent)]⟩, ⟨writeEvent, .sent, []⟩]

/-- The buffer and the origin are overwritten, so the second sender is sent bytes of the first. -/
theorem not_echoes_readWhileWaiting : ∃ ts s, machine.Run .init ts s ∧
    events ts = readWhileWaiting ∧
    s.trace = [.received (-1) ⟨[1, 2, 3], 10, 7⟩, .received 3 ⟨[4], 20, 7⟩,
      .sent ⟨[4], 20, 7⟩, .sent ⟨[4, 2, 3], 20, 7⟩] ∧
    ¬ Echoes s.trace := by
  obtain ⟨ts, s, hrun, hevents, hp⟩ := exists_run_of_exec machine .init readWhileWaiting
    (fun r => r.2.trace = [.received (-1) ⟨[1, 2, 3], 10, 7⟩, .received 3 ⟨[4], 20, 7⟩,
      .sent ⟨[4], 20, 7⟩, .sent ⟨[4, 2, 3], 20, 7⟩]) (by decide +kernel)
  have htrace := of_decide_eq_true hp
  refine ⟨ts, s, hrun, hevents, htrace, fun h => ?_⟩
  rw [htrace] at h
  -- the last reply is no datagram that was ever received
  have hreply := h [.received (-1) ⟨[1, 2, 3], 10, 7⟩, .received 3 ⟨[4], 20, 7⟩,
    .sent ⟨[4], 20, 7⟩] (.sent ⟨[4, 2, 3], 20, 7⟩) (List.prefix_refl _)
  exact absurd hreply (by decide)

end Camkes.PicotcpSingle.UdpEcho
