import Camkes.Picoserver.Equiv.Echo
import Camkes.Picoserver.Listener

/-!
# What the Listener prints

`printer_spec`: the handler gets through the events exactly when each message that it receives has a
NUL or leaves room for one, no connection fails and there is no error; then it prints each message
up to its first NUL, without bytes of the messages before.

`listener_prints_clients`: behind Echo, the Listener prints what the clients of Echo have sent, in
whatever pieces it arrives.
-/

namespace Camkes.Picoserver

open CArray

variable {p : Printer} {e : PrinterEvent} {es : List PrinterEvent}

theorem exists_ok_of_bind {α β : Type} {x : Except Failure α} {f : α → Except Failure β} {r : β}
    (h : (x >>= f) = .ok r) : ∃ a, x = .ok a ∧ f a = .ok r := by
  cases x with
  | error f => cases h
  | ok a => exact ⟨a, rfl, h⟩

/-- There is a NUL in the buffer behind the message. -/
def Received.Terminated (received : Received) : Prop :=
  0 ∈ received.data ∨ received.data.length < shmemSize

theorem Received.length_data_le (received : Received) : received.data.length ≤ shmemSize := by
  cases received with
  | error => exact Nat.zero_le _
  | bytes bs h => exact h

/-- The string that is printed. -/
def Received.text (received : Received) : List UInt8 := received.data.takeWhile (· ≠ 0)

/-- The event does not make the handler give up. -/
structure PrinterEvent.Fine (p : Printer) (e : PrinterEvent) : Prop where
  accepted : e.conn = true → p.accepts e.socket = true → e.peerResult ≠ -1
  err_eq : e.err = false
  terminated : e.read = true → e.received.Terminated

/-- What is printed for an event. -/
def PrinterEvent.lines (p : Printer) (e : PrinterEvent) : List Line :=
  (if e.conn && p.accepts e.socket then [.established e.peerAddr e.socket] else []) ++
    (if e.read then [p.message e.socket e.received.text] else []) ++
    (if e.close then [.closing e.socket] else []) ++ (if e.fin then [.closed e.socket] else [])

/-- The receive buffer between two events. -/
abbrev zeroBuf : Buf := Vector.replicate shmemSize 0

namespace Printer

/-- A message with a NUL is printed up to it, and the buffer is cleared. -/
theorem readBranch_of_terminated (h : e.received.Terminated) :
    p.readBranch e zeroBuf = some ([p.message e.socket e.received.text], zeroBuf) := by
  obtain ⟨buf, hbuf, hlist⟩ := memcpy_eq_some zeroBuf e.received.length_data_le
  have hread : CString.read buf.toList = some e.received.text := by
    rw [hlist, Vector.toList_replicate, List.drop_replicate, CString.read_append_replicate,
      if_pos (h.imp_right Nat.sub_pos_of_lt)]
    rfl
  simp only [readBranch, hbuf, hread, Option.bind_eq_bind, Option.bind_some]

/-- A message without a NUL is read beyond the buffer. -/
theorem readBranch_of_not_terminated (h : ¬ e.received.Terminated) :
    p.readBranch e zeroBuf = none := by
  obtain ⟨buf, hbuf, hlist⟩ := memcpy_eq_some zeroBuf e.received.length_data_le
  have hread : CString.read buf.toList = none := by
    rw [hlist, Vector.toList_replicate, List.drop_replicate, CString.read_append_replicate,
      if_neg (mt (Or.imp_right Nat.lt_of_sub_pos) h)]
  simp only [readBranch, hbuf, hread, Option.bind_eq_bind, Option.bind_some, Option.bind_none]

/-- A fine event prints its lines and leaves the buffer clear. -/
theorem handleEvent_of_fine (h : e.Fine p) :
    p.handleEvent zeroBuf e = .ok (e.lines p, zeroBuf) := by
  obtain ⟨haccepted, herr, hterminated⟩ := h
  have hguard : (e.conn && p.accepts e.socket && decide (e.peerResult = -1)) = false := by
    simp
    exact haccepted
  unfold handleEvent PrinterEvent.lines
  simp only [hguard, herr]
  cases hread : e.read with
  | false => rfl
  | true =>
    rw [readBranch_of_terminated (hterminated hread)]
    rfl

/-- An event that is handled without a failure is fine. -/
theorem fine_of_handleEvent {r : List Line × Buf} (h : p.handleEvent zeroBuf e = .ok r) :
    e.Fine p := by
  unfold handleEvent at h
  cases hguard : e.conn && p.accepts e.socket && decide (e.peerResult = -1) with
  | true =>
    simp only [hguard] at h
    cases h
  | false =>
    simp only [hguard] at h
    cases herr : e.err with
    | true =>
      simp only [herr] at h
      cases hread : e.read <;> cases hbranch : p.readBranch e zeroBuf <;>
        simp only [hread, hbranch] at h <;> cases h
    | false =>
      refine ⟨?_, herr, fun hread => ?_⟩
      · simpa using hguard
      · by_contra hnot
        simp only [hread, readBranch_of_not_terminated hnot] at h
        cases h

/-- Fine events print their lines, one event after the other. -/
theorem handlePicoserverNotification_of_fine (h : ∀ e ∈ es, e.Fine p) :
    p.handlePicoserverNotification zeroBuf es =
      .ok (es.flatMap (PrinterEvent.lines p), zeroBuf) := by
  induction es with
  | nil => rfl
  | cons e es ih =>
    rw [handlePicoserverNotification, handleEvent_of_fine (h e (List.mem_cons_self ..))]
    show (p.handlePicoserverNotification zeroBuf es).bind _ = _
    rw [ih fun e' he' => h e' (List.mem_cons_of_mem e he')]
    rfl

/-- Events that are all handled are all fine. -/
theorem fine_of_handlePicoserverNotification {r : List Line × Buf}
    (h : p.handlePicoserverNotification zeroBuf es = .ok r) : ∀ e ∈ es, e.Fine p := by
  induction es generalizing r with
  | nil => simp
  | cons e es ih =>
    obtain ⟨r', hevent, hes⟩ := exists_ok_of_bind h
    have hfine := fine_of_handleEvent hevent
    rw [handleEvent_of_fine hfine] at hevent
    obtain rfl := Except.ok.inj hevent
    obtain ⟨r'', hrest, -⟩ := exists_ok_of_bind hes
    exact List.forall_mem_cons.mpr ⟨hfine, ih hrest⟩

end Printer

/-- **Printing** -/
theorem printer_spec (p : Printer) (es : List PrinterEvent) :
    ((∃ r, p.handlePicoserverNotification zeroBuf es = .ok r) ↔ ∀ e ∈ es, e.Fine p) ∧
    ((∀ e ∈ es, e.Fine p) → p.handlePicoserverNotification zeroBuf es =
      .ok (es.flatMap (PrinterEvent.lines p), zeroBuf)) :=
  ⟨⟨fun ⟨_, h⟩ => p.fine_of_handlePicoserverNotification h,
    fun h => ⟨_, p.handlePicoserverNotification_of_fine h⟩⟩,
    fun h => p.handlePicoserverNotification_of_fine h⟩

/-! ### Echo and the Listener -/

def Call.sent : Call → List UInt8
  | send _ bytes => bytes
  | _ => []

def Line.text : Line → List UInt8
  | message _ text | lengthMessage _ text => text
  | _ => []

/-- What a client of Echo has sent in one piece, up to its first NUL. -/
def ServerEvent.text (e : ServerEvent) : List UInt8 := if e.read then e.received.text else []

/-- What the Listener receives. -/
def PrinterEvent.bytes (e : PrinterEvent) : List UInt8 := if e.read then e.received.data else []

/-- What Echo sends for a message is its text, and the buffers are clear again. -/
theorem readBranch_eq_some {received : Received} {sent : List UInt8} {b : Bufs}
    (h : readBranch received .zero = some (sent, b)) : sent = received.text ∧ b = .zero := by
  cases received with
  | error =>
    rw [readBranch_error] at h
    cases h
  | bytes bs hle =>
    rw [readBranch_bytes, CString.read_append_replicate] at h
    split_ifs at h
    · obtain ⟨hsent, hb⟩ := Prod.mk.inj (Option.some.inj h)
      exact ⟨hsent.symm, hb.symm⟩
    · cases h

/-- The calls that send nothing. -/
theorem flatMap_sent_ite (c : Prop) [Decidable c] {call : Call} (h : call.sent = []) :
    (if c then [call] else []).flatMap Call.sent = [] := by
  split_ifs
  · simp [h]
  · rfl

/-- What Echo sends for an event that it handles. -/
theorem handleEvent_eq_ok {listenerSocket : ℤ} {e : ServerEvent} {calls : List Call} {b : Bufs}
    (h : handleEvent listenerSocket .zero e = .ok (calls, b)) :
    calls.flatMap Call.sent = e.text ∧ b = .zero := by
  unfold handleEvent at h
  cases hguard : e.conn && decide (e.socket ≠ listenerSocket) && decide (e.peerResult = -1) with
  | true =>
    simp only [hguard] at h
    cases h
  | false =>
    cases herr : e.err with
    | true =>
      simp only [hguard, herr] at h
      cases hread : e.read <;> cases hbranch : readBranch e.received .zero <;>
        simp only [hread, hbranch] at h <;> cases h
    | false =>
      simp only [hguard, herr] at h
      cases hread : e.read with
      | false =>
        simp only [hread] at h
        obtain ⟨rfl, rfl⟩ := Prod.mk.inj (Except.ok.inj h)
        rw [List.flatMap_append, List.flatMap_append, flatMap_sent_ite _ rfl,
          flatMap_sent_ite _ rfl, ServerEvent.text, hread]
        exact ⟨rfl, rfl⟩
      | true =>
        cases hbranch : readBranch e.received .zero with
        | none =>
          simp only [hread, hbranch] at h
          cases h
        | some r =>
          obtain ⟨sent, b'⟩ := r
          obtain ⟨rfl, rfl⟩ := readBranch_eq_some hbranch
          simp only [hread, hbranch] at h
          obtain ⟨rfl, rfl⟩ := Prod.mk.inj (Except.ok.inj h)
          rw [List.flatMap_append, List.flatMap_append, flatMap_sent_ite _ rfl,
            flatMap_sent_ite _ rfl, ServerEvent.text, hread]
          exact ⟨by simp [Call.sent], rfl⟩

/-- What Echo sends for events that it handles. -/
theorem handlePicoserverNotification_eq_ok {listenerSocket : ℤ} {es : List ServerEvent}
    {calls : List Call} {b : Bufs}
    (h : handlePicoserverNotification listenerSocket .zero es = .ok (calls, b)) :
    calls.flatMap Call.sent = es.flatMap ServerEvent.text := by
  induction es generalizing calls b with
  | nil =>
    cases h
    rfl
  | cons e es ih =>
    obtain ⟨⟨eventCalls, b'⟩, hevent, hes⟩ := exists_ok_of_bind h
    obtain ⟨hsent, rfl⟩ := handleEvent_eq_ok hevent
    obtain ⟨r, hrest, hcalls⟩ := exists_ok_of_bind hes
    obtain ⟨rfl, -⟩ := Prod.mk.inj (Except.ok.inj hcalls)
    rw [List.flatMap_append, List.flatMap_cons, hsent, ih hrest]

theorem Received.zero_notMem_text (received : Received) : 0 ∉ received.text := by
  intro h
  have hne := List.mem_takeWhile_imp h
  simp at hne

/-- What the Listener prints for an event is its text. -/
theorem flatMap_text_lines (e : PrinterEvent) :
    (e.lines listener).flatMap Line.text = if e.read then e.received.text else [] := by
  rw [PrinterEvent.lines, List.flatMap_append, List.flatMap_append, List.flatMap_append]
  have hnone (c : Prop) [Decidable c] (l : Line) (hl : l.text = []) :
      (if c then [l] else []).flatMap Line.text = [] := by
    split_ifs
    · simp [hl]
    · rfl
  rw [hnone _ (.established e.peerAddr e.socket) rfl, hnone _ (.closing e.socket) rfl,
    hnone _ (.closed e.socket) rfl]
  split_ifs
  · simp [Line.text, listener]
  · rfl

/-- **From the clients to the console** -/
theorem listener_prints_clients {listenerSocket : ℤ} {es : List ServerEvent} {calls : List Call}
    {b : Bufs} {ls : List PrinterEvent}
    (hecho : handlePicoserverNotification listenerSocket .zero es = .ok (calls, b))
    (hstream : ls.flatMap PrinterEvent.bytes = calls.flatMap Call.sent)
    (hfine : ∀ e ∈ ls, e.Fine listener) :
    ∃ lines, listener.handlePicoserverNotification zeroBuf ls = .ok (lines, zeroBuf) ∧
      lines.flatMap Line.text = es.flatMap ServerEvent.text := by
  rw [handlePicoserverNotification_eq_ok hecho] at hstream
  refine ⟨_, Printer.handlePicoserverNotification_of_fine hfine, ?_⟩
  rw [← hstream, List.flatMap_assoc]
  refine List.flatMap_congr fun e he => ?_
  -- no NUL arrives
  have hzero : 0 ∉ e.bytes := by
    intro hmem
    have hbytes : 0 ∈ es.flatMap ServerEvent.text := hstream ▸ List.mem_flatMap.mpr ⟨e, he, hmem⟩
    obtain ⟨e', -, hmem'⟩ := List.mem_flatMap.mp hbytes
    rw [ServerEvent.text] at hmem'
    split_ifs at hmem'
    · exact e'.received.zero_notMem_text hmem'
    · cases hmem'
  rw [flatMap_text_lines]
  rw [PrinterEvent.bytes] at hzero ⊢
  split_ifs at hzero ⊢
  · exact Sentinel.takeWhile_of_notMem hzero
  · rfl

/-- Two clients, whose messages arrive in one piece. -/
theorem listener_prints_clients_merged : ∃ lines,
    listener.handlePicoserverNotification zeroBuf
      [⟨1, false, true, false, false, false, 0, 0, .bytes [72, 105, 33] (by decide)⟩] =
        .ok (lines, zeroBuf) ∧ lines.flatMap Line.text = [72, 105, 33] := by
  have hecho : handlePicoserverNotification 0 .zero
      [⟨2, false, true, false, false, 0, .bytes [72, 105] (by decide)⟩,
        ⟨3, false, true, false, false, 0, .bytes [33] (by decide)⟩] =
      .ok ([.recv 2, .send 0 [72, 105], .recv 3, .send 0 [33]], .zero) := by
    rw [handlePicoserverNotification_of_fine]
    · rfl
    · simp only [List.forall_mem_cons]
      refine ⟨⟨by decide, rfl, fun _ => ⟨by simp, by decide, by decide⟩⟩,
        ⟨by decide, rfl, fun _ => ⟨by simp, by decide, by decide⟩⟩, by simp⟩
  refine listener_prints_clients hecho rfl ?_
  intro e he
  obtain rfl := List.mem_singleton.mp he
  exact ⟨by decide, rfl, fun _ => .inr (by decide)⟩

end Camkes.Picoserver
