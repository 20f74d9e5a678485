import Camkes.PicotcpSingle.Equiv.Utilization
import Camkes.PicotcpSingle.UtilizationReads

/-!
# Stale commands

The handlers match the buffer, and what an event delivers is only its beginning.  No command is the
start of another one, so the buffer is matched as the delivered bytes alone would be exactly when
what is left behind them completes no command (`NothingStale`).
-/

namespace Camkes.PicotcpSingle.Utilization

open Machine
open PicotcpTcpEcho (Answered Answers answeredMessages answered_iff msgMatch_iff bytesOf msgMatch
  bytesOf_hello bytesOf_load bytesOf_setup bytesOf_start bytesOf_stop take_append_drop_of_le
  nonempty_utilizAnswers readEvent)

variable {buf buf' : List UInt8} {e : ReadEvent}

/-! ### Commands -/

theorem commandWords_eq : commandWords = [[72, 69, 76, 76, 79, 10],
    [76, 79, 65, 68, 32, 99, 112, 117, 95, 116, 97, 114, 103, 101, 116, 95, 108, 117, 107, 101, 109,
      10], [83, 69, 84, 85, 80, 32, 97, 114, 103, 115, 58, 58, 34, 34, 10],
    [83, 84, 65, 82, 84, 10], [83, 84, 79, 80, 10]] := by
  rw [commandWords, bytesOf_hello, bytesOf_load, bytesOf_setup, bytesOf_start, bytesOf_stop]

theorem prefixFree_commandWords : PrefixFree commandWords := by
  rw [commandWords_eq]
  decide

theorem msgMatch_iff_matchWord {msg : String} (hmsg : bytesOf msg ∈ commandWords) :
    msgMatch buf msg = true ↔ matchWord commandWords buf = some (bytesOf msg) := by
  rw [matchWord_eq_some_iff prefixFree_commandWords, msgMatch_iff]
  exact (and_iff_right hmsg).symm

theorem bytesOf_mem_commandWords :
    bytesOf "HELLO\n" ∈ commandWords ∧ bytesOf "LOAD cpu_target_lukem\n" ∈ commandWords ∧
      bytesOf "SETUP args::\"\"\n" ∈ commandWords ∧ bytesOf "START\n" ∈ commandWords ∧
        bytesOf "STOP\n" ∈ commandWords := by
  simp [commandWords]

/-- Buffers that start with the same command match the same messages. -/
theorem msgMatch_congr (h : matchWord commandWords buf = matchWord commandWords buf') :
    msgMatch buf "HELLO\n" = msgMatch buf' "HELLO\n" ∧
      msgMatch buf "LOAD cpu_target_lukem\n" = msgMatch buf' "LOAD cpu_target_lukem\n" ∧
      msgMatch buf "SETUP args::\"\"\n" = msgMatch buf' "SETUP args::\"\"\n" ∧
      msgMatch buf "START\n" = msgMatch buf' "START\n" ∧
      msgMatch buf "STOP\n" = msgMatch buf' "STOP\n" := by
  have hsame : ∀ msg, bytesOf msg ∈ commandWords → msgMatch buf msg = msgMatch buf' msg := by
    intro msg hmsg
    rw [Bool.eq_iff_iff, msgMatch_iff_matchWord hmsg, msgMatch_iff_matchWord hmsg, h]
  obtain ⟨h₁, h₂, h₃, h₄, h₅⟩ := bytesOf_mem_commandWords
  exact ⟨hsame _ h₁, hsame _ h₂, hsame _ h₃, hsame _ h₄, hsame _ h₅⟩

/-- The buffer starts with a message that a server does something about. -/
theorem answered_iff_matchWord :
    Answered buf ↔ matchWord commandWords buf ≠ none := by
  have hwords : commandWords = answeredMessages.map bytesOf := rfl
  rw [ne_eq, matchWord_eq_none_iff, hwords, List.forall_mem_map]
  simp only [Answered, msgMatch_iff, not_forall, not_not, exists_prop]

/-! ### READ events -/

variable {γ : Type} {a : Answers γ}

theorem act_congr (h : matchWord commandWords buf = matchWord commandWords buf') :
    a.act buf = a.act buf' := by
  obtain ⟨h₁, h₂, h₃, h₄, h₅⟩ := msgMatch_congr h
  rw [Answers.act, Answers.act, h₁, h₂, h₃, h₄, h₅]

/-- What is received fits into the buffer. -/
theorem length_bytes_le (hfits : e.received.Fits) : e.received.bytes.length ≤ 0x1000 := by
  cases hreceived : e.received with
  | error => exact Nat.zero_le _
  | nothing => exact Nat.zero_le _
  | chunk bytes =>
    rw [hreceived] at hfits
    exact hfits.2

/-- A server all of whose answers satisfy `p` does what the delivered bytes ask for exactly when
nothing stale completes a command. -/
theorem filter_read_eq_iff {p : γ → Bool} {recv : γ} (hrecv : p recv = false)
    (hfilter : a.filter p = a) (hne : a.Nonempty) (hfits : e.received.Fits) (buf : List UInt8) :
    ([] ++ recv :: a.act (e.received.bytes.take 0x1000 ++
        buf.drop (e.received.bytes.take 0x1000).length) ++ []).filter p =
      a.act e.received.bytes ↔ NothingStale buf e := by
  rw [Answers.filter_read hrecv, hfilter, take_append_drop_of_le (length_bytes_le hfits)]
  refine act_append_eq_iff prefixFree_commandWords (fun _ _ h => act_congr h) fun buf => ?_
  rw [Answers.act_eq_nil_iff hne, answered_iff_matchWord, ne_eq, not_not]

/-- **A READ event** is answered as the delivered bytes ask for exactly when nothing stale completes
a command. -/
theorem handleRead_eq_iff (socket : ℕ) (utilzMesg : List UInt8) (hfits : e.received.Fits) :
    ActsOnDelivered socket (e, (handleRead socket utilzMesg e).2) ↔ NothingStale utilzMesg e := by
  have hrecv : Call.isAction (.picoSocketRecv socket) = false := rfl
  exact filter_read_eq_iff hrecv rfl (nonempty_answers socket e.replies) hfits utilzMesg

/-- One read acts on what it has delivered if and only if nothing stale is matched in the buffer. -/
theorem handleUtilizRead_eq_iff (socket : ℤ) (s : PicotcpTcpEcho.State)
    (hfits : e.received.Fits) :
    UtilizActsOnDelivered socket (e, (PicotcpTcpEcho.handleUtilizRead socket s e).2) ↔
      NothingStale s.echoRecvBuf e := by
  let r := (readEvent socket e.received.bytes (e.total, e.idle)).replies
  have hrecv : PicotcpTcpEcho.Call.isUtilizAction (.echoRecvRecv socket) = false := rfl
  exact filter_read_eq_iff hrecv rfl (nonempty_utilizAnswers socket r) hfits s.echoRecvBuf

/-! ### Runs -/

/-- What a server does about each event is right exactly when it is right at each step. -/
theorem forall_log_iff {σ γ : Type} {handle : σ → ReadEvent → σ × List γ}
    {Right : ReadEvent × List γ → Prop} {Cond : σ → ReadEvent → Prop} {init : σ}
    (hright : ∀ state e, e.received.Fits → (Right (e, (handle state e).2) ↔ Cond state e))
    {ts : List (Transition (Served σ γ) ReadEvent)} {s : Served σ γ}
    (hrun : (readMachine handle).Run { state := init, log := [] } ts s) :
    (∀ entry ∈ s.log, Right entry) ↔ ∀ t ∈ ts, Cond t.before.state t.event := by
  have hempty : Served.log { state := init, log := ([] : List (ReadEvent × List γ)) } = [] := rfl
  refine hrun.forall_log_iff (C := fun s e => Cond s.state e) (I := fun _ => True) trivial hempty ?_
  intro s e s' _ hfits hstep
  obtain rfl := Option.some.inj hstep
  refine ⟨trivial, [(e, (handle s.state e).2)], rfl, ?_⟩
  rw [List.forall_mem_singleton]
  exact hright s.state e hfits

/-- **No stale commands**: in a run of READ events of either server, each event is answered as its
own bytes ask for exactly when at no event the bytes are, with what earlier events have left behind
them in the buffer, a longer command. -/
theorem actsOnDelivered_iff_nothingStale (socket : ℕ) (socketFd : ℤ) {utilzMesg : List UInt8}
    {ts : List (Transition (Served (List UInt8) Call) ReadEvent)} {s : Served (List UInt8) Call}
    (hrun : (readMachine (handleRead socket)).Run { state := utilzMesg, log := [] } ts s)
    {state : PicotcpTcpEcho.State}
    {us : List (Transition (Served PicotcpTcpEcho.State PicotcpTcpEcho.Call) ReadEvent)}
    {u : Served PicotcpTcpEcho.State PicotcpTcpEcho.Call}
    (hrun' : (readMachine (PicotcpTcpEcho.handleUtilizRead socketFd)).Run
      { state, log := [] } us u) :
    ((∀ entry ∈ s.log, ActsOnDelivered socket entry) ↔
      ∀ t ∈ ts, NothingStale t.before.state t.event) ∧
    ((∀ entry ∈ u.log, UtilizActsOnDelivered socketFd entry) ↔
      ∀ t ∈ us, NothingStale t.before.state.echoRecvBuf t.event) := by
  constructor
  · exact forall_log_iff (fun buf _ hfits => handleRead_eq_iff socket buf hfits) hrun
  · exact forall_log_iff (fun state _ hfits => handleUtilizRead_eq_iff socketFd state hfits) hrun'

/-- An event that delivers these bytes. -/
def delivers (bytes : List UInt8) : ReadEvent where
  received := .chunk bytes
  total := 0
  idle := 0

/-- A failing receive call. -/
def fails : ReadEvent where
  received := .error
  total := 0
  idle := 0

/-- `STOP`. -/
def stop : List UInt8 := [83, 84, 79, 80, 10]

/-- Each command is delivered at once, and something else after it. -/
def freshReads : List ReadEvent :=
  [delivers hello, delivers stop, delivers [10], fails, delivers [81]]

theorem actsOnDelivered_iff_nothingStale_fresh :
    ∃ ts s us u,
      (readMachine (handleRead 4)).Run { state := List.replicate 0x1000 0, log := [] } ts s ∧
      (readMachine (PicotcpTcpEcho.handleUtilizRead 4)).Run
        { state := (PicotcpTcpEcho.utilizInit helloState).1, log := [] } us u ∧
      events ts = freshReads ∧ events us = freshReads ∧
      (∀ entry ∈ s.log, ActsOnDelivered 4 entry) ∧
      ∀ entry ∈ u.log, UtilizActsOnDelivered 4 entry := by
  obtain ⟨ts, s, hrun, hevents, hp⟩ := exists_run_of_exec (readMachine (handleRead 4))
    { state := List.replicate 0x1000 0, log := [] } freshReads
    (fun r => ∀ t ∈ r.1, NothingStale t.before.state t.event) (by decide +kernel)
  obtain ⟨us, u, hrun', hevents', hp'⟩ :=
    exists_run_of_exec (readMachine (PicotcpTcpEcho.handleUtilizRead 4))
      { state := (PicotcpTcpEcho.utilizInit helloState).1, log := [] } freshReads
      (fun r => ∀ t ∈ r.1, NothingStale t.before.state.echoRecvBuf t.event) (by decide +kernel)
  obtain ⟨h, h'⟩ := actsOnDelivered_iff_nothingStale 4 4 hrun hrun'
  exact ⟨ts, s, us, u, hrun, hrun', hevents, hevents', h.mpr (of_decide_eq_true hp),
    h'.mpr (of_decide_eq_true hp')⟩

/-- After `HELLO` has been answered the receive call fails. -/
def staleReads : List ReadEvent := [delivers hello, fails]

/-- Both servers answer `HELLO` again. -/
theorem not_actsOnDelivered_stale :
    (∃ ts s, (readMachine (handleRead 4)).Run { state := List.replicate 0x1000 0, log := [] } ts s ∧
      events ts = staleReads ∧
      s.log = [(delivers hello, [.picoSocketSend (some 4) "200 OK (Ready to go)\n"]),
        (fails, [.picoSocketSend (some 4) "200 OK (Ready to go)\n"])] ∧
      ¬ ∀ entry ∈ s.log, ActsOnDelivered 4 entry) ∧
    ∃ us u, (readMachine (PicotcpTcpEcho.handleUtilizRead 4)).Run
        { state := (PicotcpTcpEcho.utilizInit helloState).1, log := [] } us u ∧
      events us = staleReads ∧
      u.log = [(delivers hello, [.echoSendSend 4 "200 OK (Ready to go)\n"]),
        (fails, [.echoSendSend 4 "200 OK (Ready to go)\n"])] ∧
      ¬ ∀ entry ∈ u.log, UtilizActsOnDelivered 4 entry := by
  constructor
  · obtain ⟨ts, s, hrun, hevents, hp⟩ := exists_run_of_exec (readMachine (handleRead 4))
      { state := List.replicate 0x1000 0, log := [] } staleReads
      (fun r => r.2.log = [(delivers hello, [.picoSocketSend (some 4) "200 OK (Ready to go)\n"]),
        (fails, [.picoSocketSend (some 4) "200 OK (Ready to go)\n"])]) (by decide +kernel)
    have hlog := of_decide_eq_true hp
    refine ⟨ts, s, hrun, hevents, hlog, fun h => ?_⟩
    rw [hlog] at h
    have hstale := h _ (List.mem_cons_of_mem _ (List.mem_singleton_self _))
    exact List.cons_ne_nil _ _ hstale
  · obtain ⟨us, u, hrun, hevents, hp⟩ :=
      exists_run_of_exec (readMachine (PicotcpTcpEcho.handleUtilizRead 4))
        { state := (PicotcpTcpEcho.utilizInit helloState).1, log := [] } staleReads
        (fun r => r.2.log = [(delivers hello, [.echoSendSend 4 "200 OK (Ready to go)\n"]),
          (fails, [.echoSendSend 4 "200 OK (Ready to go)\n"])]) (by decide +kernel)
    have hlog := of_decide_eq_true hp
    refine ⟨us, u, hrun, hevents, hlog, fun h => ?_⟩
    rw [hlog] at h
    have hstale := h _ (List.mem_cons_of_mem _ (List.mem_singleton_self _))
    exact List.cons_ne_nil _ _ hstale

end Camkes.PicotcpSingle.Utilization
