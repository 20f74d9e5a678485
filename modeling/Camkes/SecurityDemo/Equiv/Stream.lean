import Camkes.SecurityDemo.Equiv.EthSend
import Camkes.SecurityDemo.Stream

/-!
# The Ethernet stream and the log file

While what is sent is what was collected, each of the two streams and what is pending for it are the
consumed characters without those that found its buffer full (`StreamInv`).  A call of
`transmit_pending_eth_buffer` sends what was collected exactly when `strncpy` cuts nothing off; the
log path has no such condition.
-/

namespace Camkes.SecurityDemo

open CArray Machine

variable {s s' : StreamSystem} {t : Transmitter} {trace : List StreamObs}

/-! ### Traces -/

/-- The consumed characters, without those that found `eth_pending_tx_buf` full. -/
def toEth (trace : List StreamObs) : List UInt8 :=
  trace.filterMap fun
    | .consumed ethPendingLength _ c => if ethPendingLength = ethTxBufLen then none else some c
    | .sent _ => none

/-- The same for `mmc_pending_tx_buf`. -/
def toLog (trace : List StreamObs) : List UInt8 :=
  trace.filterMap fun
    | .consumed _ mmcPendingLength c => if mmcPendingLength = mmcTxBufLen then none else some c
    | .sent _ => none

theorem toEth_append (trace more : List StreamObs) :
    toEth (trace ++ more) = toEth trace ++ toEth more :=
  List.filterMap_append

theorem toLog_append (trace more : List StreamObs) :
    toLog (trace ++ more) = toLog trace ++ toLog more :=
  List.filterMap_append

theorem ethStream_append (trace more : List StreamObs) :
    ethStream (trace ++ more) = ethStream trace ++ ethStream more :=
  List.flatMap_append

theorem collected_append (trace : List StreamObs) (o : StreamObs) (more : List StreamObs) :
    collected (trace ++ o :: more) = collected (trace ++ [o] ++ more) := by
  rw [List.append_assoc, List.singleton_append]

theorem toEth_consumed (ethLen mmcLen : ℕ) (c : UInt8) (trace : List StreamObs) :
    toEth (.consumed ethLen mmcLen c :: trace) =
      (if ethLen = ethTxBufLen then [] else [c]) ++ toEth trace := by
  unfold toEth
  refine filterMap_cons_ite ?_ trace
  rfl

theorem toLog_consumed (ethLen mmcLen : ℕ) (c : UInt8) (trace : List StreamObs) :
    toLog (.consumed ethLen mmcLen c :: trace) =
      (if mmcLen = mmcTxBufLen then [] else [c]) ++ toLog trace := by
  unfold toLog
  refine filterMap_cons_ite ?_ trace
  rfl

/-- A consumed character is collected, unless the buffer is full. -/
theorem collected_consumed (trace : List StreamObs) (ethLen mmcLen : ℕ) (c : UInt8) :
    collected (trace ++ [.consumed ethLen mmcLen c]) =
      collected trace ++ if ethLen = ethTxBufLen then [] else [c] := by
  have hlast : collected (trace ++ [.consumed ethLen mmcLen c]) =
      if ethLen = ethTxBufLen then collected trace else collected trace ++ [c] :=
    List.foldl_append
  rw [hlast]
  split_ifs
  · exact (List.append_nil _).symm
  · rfl

theorem collected_sent (trace : List StreamObs) (bytes : List UInt8) :
    collected (trace ++ [.sent bytes]) = [] :=
  List.foldl_append

/-- Without a full buffer, the same characters go both ways. -/
theorem toEth_eq_toLog (h : NoneDiscarded trace) : toEth trace = toLog trace := by
  refine List.filterMap_congr fun o ho => ?_
  cases o with
  | consumed ethLen mmcLen c =>
    obtain ⟨heth, hmmc⟩ := h ethLen mmcLen c ho
    simp only [if_neg heth, if_neg hmmc]
  | sent bytes => rfl

/-! ### Receiving -/

/-- What goes to the log is what the machine of the log file says. -/
theorem toLog_consumedWith (t : Transmitter) (accesses : List Obs) :
    toLog (consumedWith t accesses) = logged (consumedIn t.mmc accesses) := by
  induction accesses generalizing t with
  | nil => rfl
  | cons a accesses ih =>
    cases a with
    | read i c => rw [consumedWith, consumedIn, toLog_consumed, logged_consumed, ih]
    | submitted c => exact ih t
    | wrote i => exact ih t

theorem ethStream_consumedWith (t : Transmitter) (accesses : List Obs) :
    ethStream (consumedWith t accesses) = [] := by
  induction accesses generalizing t with
  | nil => rfl
  | cons a accesses ih =>
    cases a with
    | read i c => exact ih _
    | submitted c => exact ih t
    | wrote i => exact ih t

/-- A critical section collects the characters that it stores for the Ethernet. -/
theorem collected_consumedWith (trace : List StreamObs) (t : Transmitter) (accesses : List Obs) :
    collected (trace ++ consumedWith t accesses) =
      collected trace ++ toEth (consumedWith t accesses) := by
  induction accesses generalizing t trace with
  | nil => exact (congrArg collected (List.append_nil _)).trans (List.append_nil _).symm
  | cons a accesses ih =>
    cases a with
    | read i c =>
      rw [consumedWith, collected_append, ih, collected_consumed, toEth_consumed,
        List.append_assoc]
    | submitted c => exact ih trace t
    | wrote i => exact ih trace t

/-- Consuming characters sends nothing. -/
theorem sendsCollected_consumedWith (h : SendsCollected trace) (t : Transmitter)
    (accesses : List Obs) : SendsCollected (trace ++ consumedWith t accesses) := by
  induction accesses generalizing t trace with
  | nil => rwa [consumedWith, List.append_nil]
  | cons a accesses ih =>
    cases a with
    | read i c =>
      rw [consumedWith, ← List.singleton_append, ← List.append_assoc]
      exact ih (along_concat.mpr ⟨h, trivial⟩) _
    | submitted c => exact ih h t
    | wrote i => exact ih h t

/-- **The loop** stores what it consumes, except what it finds no room for. -/
theorem contents_receiveLoop_eth (buf : DataportBuffer) (h : t.eth.length ≤ ethTxBufLen) :
    (receiveLoop t buf).1.eth.contents =
      t.eth.contents ++ toEth (consumedWith t (receiveLoop t buf).2.2) := by
  induction t, buf using receiveLoop.induct with
  | case1 t buf hempty =>
    rw [receiveLoop, if_pos hempty]
    exact (List.append_nil _).symm
  | case2 t buf hempty c =>
    rename_i ih
    have hcontents := ih (length_store_le h c)
    rw [receiveLoop, if_neg hempty, consumedWith, toEth_consumed, ← List.append_assoc,
      ← contents_store h]
    exact hcontents

/-! ### The invariant -/

/-- The streams agree with the trace. -/
structure StreamInv (s : StreamSystem) : Prop where
  log : LogInv s.log
  logged_eq : logged s.log.trace = toLog s.trace
  collected_eq : collected s.trace = s.log.transmitter.eth.contents
  sends : SendsCollected s.trace
  stream_eq : ethStream s.trace ++ s.log.transmitter.eth.contents = toEth s.trace

theorem streamInv_init (file : List UInt8) : StreamInv (.init file) where
  log := logInv_init file
  logged_eq := rfl
  collected_eq := rfl
  sends := along_nil
  stream_eq := rfl

/-- What holds between the two buffers while everything sent is text. -/
theorem StreamInv.sendsTyped (h : StreamInv s) : SendsTyped s := by
  refine ⟨h.sends, fun hnone => ⟨?_, fun hlt => (h.log.file hlt).2⟩⟩
  calc ethStream s.trace ++ s.log.transmitter.eth.contents
      = toEth s.trace := h.stream_eq
    _ = toLog s.trace := toEth_eq_toLog hnone
    _ = logged s.log.trace := h.logged_eq.symm
    _ = written s.log.trace ++ s.log.transmitter.mmc.contents := h.log.logged

/-- A critical section keeps the two streams in step. -/
theorem StreamInv.receive (h : StreamInv s) (hstep : s.step .receive = some s') :
    StreamInv s' := by
  obtain rfl := Option.some.inj hstep
  have hinv := preserves_logInv.of_step (s := s.log) (e := .receive) h.log trivial rfl
  have heth := contents_receiveLoop_eth s.log.buf h.log.eth_le
  refine ⟨hinv, ?_, ?_, sendsCollected_consumedWith h.sends _ _, ?_⟩
  · show logged (s.log.trace ++ consumedIn _ _) = toLog (s.trace ++ consumedWith _ _)
    rw [logged_append, toLog_append, toLog_consumedWith, h.logged_eq]
    rfl
  · show collected (s.trace ++ consumedWith _ _) = _
    rw [collected_consumedWith, h.collected_eq]
    exact heth.symm
  · show ethStream (s.trace ++ consumedWith _ _) ++ _ = toEth (s.trace ++ consumedWith _ _)
    rw [ethStream_append, ethStream_consumedWith, List.append_nil, toEth_append, ← h.stream_eq,
      List.append_assoc]
    exact congrArg (ethStream s.trace ++ ·) heth

/-- **One call of `transmit_pending_eth_buffer`** sends what was collected exactly when `strncpy`
copies all of it. -/
theorem StreamInv.transmit (h : StreamInv s) (hstep : s.step .transmit = some s') :
    (SendsText s .transmit → StreamInv s') ∧ (SendsCollected s'.trace → SendsText s .transmit) := by
  obtain ⟨eth', buf', htransmit, hnil⟩ := transmit_spec h.log.eth_le s.ethSendBuf
  have hs' : some {
      log := { s.log with transmitter := { s.log.transmitter with eth := eth' } }
      ethSendBuf := buf'
      trace := s.trace ++ [.sent (CString.strncpy s.log.transmitter.eth.contents)] } = some s' := by
    rw [← hstep]
    simp only [StreamSystem.step, htransmit, Option.bind_eq_bind, Option.bind_some]
  obtain rfl := Option.some.inj hs'
  have hcontents : eth'.contents = [] := by
    rw [Pending.contents, hnil]
    exact List.take_zero
  have htext : SendsText s .transmit ↔
      CString.strncpy s.log.transmitter.eth.contents = s.log.transmitter.eth.contents :=
    (CString.strncpy_eq_self_iff _).symm
  rw [htext]
  constructor
  · intro hall
    refine ⟨⟨h.log.mmc_le, hnil ▸ Nat.zero_le _, h.log.logged, h.log.file⟩, ?_, ?_, ?_, ?_⟩
    · rw [toLog_append, h.logged_eq]
      exact (List.append_nil _).symm
    · rw [collected_sent, hcontents]
    · exact along_concat.mpr ⟨h.sends, by rw [h.collected_eq, hall]⟩
    · rw [hcontents, List.append_nil, ethStream_append, hall, toEth_append, ← h.stream_eq]
      simp [ethStream, toEth]
  · intro hsends
    have hlast := (along_concat.mp hsends).2
    exact hlast.trans h.collected_eq

/-- A write to the log file leaves the other way alone. -/
theorem write_frame {log log' : LogSystem} {ret : ℤ} {damage : List UInt8}
    (hstep : log.step (.write ret damage) = some log') :
    log'.transmitter.eth = log.transmitter.eth ∧ logged log'.trace = logged log.trace := by
  obtain ⟨⟨mmc, totalBytesWritten, cmd⟩, -, hlog'⟩ := Option.bind_eq_some_iff.mp hstep
  obtain rfl := Option.some.inj hlog'
  exact ⟨rfl, (logged_append _ _).trans (List.append_nil _)⟩

/-- A step keeps sending what was typed if and only if it sends text. -/
theorem StreamInv.of_step {e : LogEvent} (h : StreamInv s) (hok : streamMachine.ok s e)
    (hstep : streamMachine.step s e = some s') :
    (SendsText s e → StreamInv s' ∧ SendsTyped s') ∧ (SendsTyped s' → SendsText s e) := by
  cases e with
  | submit c =>
    obtain rfl := Option.some.inj hstep
    have hlog := preserves_logInv.of_step (s := s.log) (e := .submit c) h.log trivial rfl
    have hinv : StreamInv { s with log := _ } :=
      ⟨hlog, h.logged_eq, h.collected_eq, h.sends, h.stream_eq⟩
    exact ⟨fun _ => ⟨hinv, hinv.sendsTyped⟩, fun _ => trivial⟩
  | receive =>
    have hinv := h.receive hstep
    exact ⟨fun _ => ⟨hinv, hinv.sendsTyped⟩, fun _ => trivial⟩
  | transmit =>
    obtain ⟨hall, hsends⟩ := h.transmit hstep
    exact ⟨fun htext => ⟨hall htext, (hall htext).sendsTyped⟩, fun htyped => hsends htyped.1⟩
  | write ret damage =>
    have hwrite : (s.log.step (.write ret damage)).bind (fun log => some { s with log }) =
        some s' := hstep
    obtain ⟨log, hlog, hs'⟩ := Option.bind_eq_some_iff.mp hwrite
    obtain rfl := Option.some.inj hs'
    obtain ⟨heth, hlogged⟩ := write_frame hlog
    have hloginv := preserves_logInv.of_step (e := .write ret damage) h.log hok hlog
    have hinv : StreamInv { s with log } := by
      refine ⟨hloginv, hlogged.trans h.logged_eq, ?_, h.sends, ?_⟩
      · rw [heth]
        exact h.collected_eq
      · rw [heth]
        exact h.stream_eq
    exact ⟨fun _ => ⟨hinv, hinv.sendsTyped⟩, fun _ => trivial⟩

/-! ### Runs -/

/-- **What was typed is sent**: up to every step of a run, each call of `eth_send_send` finds the
characters collected for it in the dataport, and the Ethernet stream and the log file carry the same
bytes, exactly when no call is made with another byte than NUL behind a NUL. -/
theorem sendsTyped_iff_sendsText {file : List UInt8} {ts : List (Transition StreamSystem LogEvent)}
    (hrun : streamMachine.Run (.init file) ts s) :
    (∀ t ∈ ts, SendsTyped t.after) ↔ ∀ t ∈ ts, SendsText t.before t.event := by
  refine hrun.forall_after_iff (streamInv_init file) ?_ ?_
  · exact fun _ _ _ h hok hstep => (h.of_step hok hstep).1
  · exact fun _ _ _ h hok hstep => (h.of_step hok hstep).2

/-- Two characters are typed, and a third one after they have been sent and logged. -/
def typesText : List LogEvent :=
  [.submit 97, .submit 98, .receive, .transmit, .write 0 [], .submit 99, .receive, .transmit]

theorem sendsTyped_iff_sendsText_text : ∃ ts s, streamMachine.Run (.init []) ts s ∧
    events ts = typesText ∧ ethStream s.trace = [110, 111, 112] ∧ s.log.file = [110, 111] ∧
    ∀ t ∈ ts, SendsTyped t.after := by
  obtain ⟨ts, s, hrun, hevents, hp⟩ := exists_run_of_exec streamMachine (.init []) typesText
    (fun r => (ethStream r.2.trace = [110, 111, 112] ∧ r.2.log.file = [110, 111]) ∧
      ∀ t ∈ r.1, SendsText t.before t.event) (by decide +kernel)
  obtain ⟨⟨hstream, hfile⟩, htext⟩ := of_decide_eq_true hp
  exact ⟨ts, s, hrun, hevents, hstream, hfile, (sendsTyped_iff_sendsText hrun).mpr htext⟩

/-- A NUL is typed between two letters. -/
def typesNul : List LogEvent :=
  [.submit 97, .submit 0, .submit 98, .receive, .write 0 [], .transmit]

/-- The second letter is logged, and a NUL is sent in its place. -/
theorem not_sendsTyped_nul : ∃ ts s, streamMachine.Run (.init []) ts s ∧ events ts = typesNul ∧
    s.log.file = [110, 0, 111] ∧ ethStream s.trace = [110, 0, 0] ∧
    ¬ ∀ t ∈ ts, SendsTyped t.after := by
  obtain ⟨ts, s, hrun, hevents, hp⟩ := exists_run_of_exec streamMachine (.init []) typesNul
    (fun r => (r.2.log.file = [110, 0, 111] ∧ ethStream r.2.trace = [110, 0, 0]) ∧
      r.1.any fun t => t.after.trace =
        [.consumed 0 0 110, .consumed 1 1 0, .consumed 2 2 111] ++ [.sent [110, 0, 0]])
    (by decide +kernel)
  obtain ⟨⟨hfile, hstream⟩, hany⟩ := of_decide_eq_true hp
  refine ⟨ts, s, hrun, hevents, hfile, hstream, fun h => ?_⟩
  obtain ⟨t, ht, htrace⟩ := List.any_eq_true.mp hany
  have hsends := (h t ht).1
  rw [of_decide_eq_true htrace] at hsends
  have hsent : [110, 0, 0] = collected _ := (along_concat.mp hsends).2
  exact absurd hsent (by decide)

end Camkes.SecurityDemo
