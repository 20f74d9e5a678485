import Camkes.Picoserver.Echo

/-!
# What Echo forwards

`forwards_iff`: the READ branch forwards what it has received exactly when the server did not return
an error and received less than a full buffer without a NUL.  `ret` is also the length of the
`strncpy`, so that an error copies 2⁶⁴ - 1 bytes.

The buffers are zero before every event (`handlePicoserverNotification_of_fine`).
-/

namespace Camkes.Picoserver

open CArray

/-- The READ branch stays within the buffers and sends what has been received. -/
def Forwards (received : Received) : Prop :=
  ∃ b, readBranch received .zero = some (received.data, b)

/-- A string of C that leaves room for its NUL. -/
structure Received.Plain (received : Received) : Prop where
  ne_error : received ≠ .error
  zero_notMem : 0 ∉ received.data
  length_lt : received.data.length < shmemSize

/-! ### The READ branch -/

/-- `strncpy` to a buffer of NULs. -/
theorem strncpy_zero {src : Buf} {n : ℕ} {bytes : List UInt8} (h : slice src 0 n = some bytes) :
    ∃ dest, strncpy Bufs.zero.echoSendBuf src n = some dest ∧
      dest.toList = CString.strncpy bytes ++ List.replicate (shmemSize - n) 0 := by
  have hlen := length_of_slice h
  have hle : (CString.strncpy bytes).length ≤ shmemSize := by
    rw [CString.length_strncpy, hlen]
    by_contra hlt
    rw [slice, if_neg (by omega)] at h
    cases h
  obtain ⟨dest, hdest, hlist⟩ := memcpy_eq_some Bufs.zero.echoSendBuf hle
  refine ⟨dest, ?_, ?_⟩
  · rw [strncpy, h]
    exact hdest
  · rw [hlist, CString.length_strncpy, hlen, Bufs.zero, Vector.toList_replicate,
      List.drop_replicate]

theorem strncpy_eq_none (dest src : Buf) {n : ℕ} (h : shmemSize < n) :
    strncpy dest src n = none := by
  have hslice : slice src 0 n = none := if_neg (by omega)
  rw [strncpy, hslice]
  rfl

/-- The string at the beginning of the buffer is sent. -/
theorem slice_read {buf : Buf} {s : List UInt8} (h : CString.read buf.toList = some s) :
    slice buf 0 s.length = some s := by
  unfold CString.read at h
  split_ifs at h
  obtain rfl := Option.some.inj h
  have hprefix := List.takeWhile_prefix (p := (· ≠ 0)) (l := buf.toList)
  have hle := hprefix.length_le
  rw [Vector.length_toList] at hle
  rw [slice_of_le _ (by omega), List.drop_zero, ← List.prefix_iff_eq_take.mp hprefix]

theorem readBranch_error : readBranch .error .zero = none := by
  have hempty : ([] : List UInt8).length ≤ shmemSize := Nat.zero_le _
  obtain ⟨recvBuf, hrecv, -⟩ := memcpy_eq_some Bufs.zero.echoRecvBuf hempty
  have hlen : shmemSize < sizeT (-1) := by decide
  simp only [readBranch, Received.data, Received.ret, hrecv, strncpy_eq_none _ _ hlen,
    Option.bind_eq_bind, Option.bind_some, Option.bind_none]

/-- What is sent is the string at the beginning of the receive buffer. -/
theorem readBranch_bytes (bs : List UInt8) (hle : bs.length ≤ shmemSize) :
    readBranch (.bytes bs hle) .zero =
      (CString.read (bs ++ List.replicate (shmemSize - bs.length) 0)).map (·, .zero) := by
  obtain ⟨recvBuf, hrecv, -⟩ := memcpy_eq_some Bufs.zero.echoRecvBuf hle
  obtain ⟨sendBuf, hsend, hlist⟩ := strncpy_zero (slice_memcpy_self hrecv)
  have hret : sizeT bs.length = bs.length := by
    unfold shmemSize at hle
    unfold sizeT
    omega
  have hread := CString.read_strncpy_append bs (shmemSize - bs.length)
  rw [← hlist] at hread
  simp only [readBranch, Received.data, Received.ret, hrecv, hret, hsend, strlen, hread,
    Option.bind_eq_bind, Option.bind_some]
  cases hs : CString.read (bs ++ List.replicate (shmemSize - bs.length) 0) with
  | none => rfl
  | some s =>
    simp only [Option.map_some, Option.bind_some, slice_read (hread.trans hs)]

/-- A message without NUL that leaves room is forwarded as it is. -/
theorem readBranch_of_plain {received : Received} (h : received.Plain) :
    readBranch received .zero = some (received.data, .zero) := by
  cases received with
  | error => exact absurd rfl h.ne_error
  | bytes bs hle =>
    have hroom : 0 < shmemSize - bs.length := Nat.sub_pos_of_lt h.length_lt
    rw [readBranch_bytes,
      (CString.read_append_replicate_iff bs _).mpr ⟨h.zero_notMem, hroom⟩]
    rfl

/-- **Forwarding**: what has been received is sent exactly when it is a string that leaves room for
its NUL. -/
theorem forwards_iff (received : Received) : Forwards received ↔ received.Plain := by
  constructor
  · rintro ⟨b, hb⟩
    cases received with
    | error =>
      rw [readBranch_error] at hb
      cases hb
    | bytes bs hle =>
      rw [readBranch_bytes] at hb
      obtain ⟨s, hs, heq⟩ := Option.map_eq_some_iff.mp hb
      obtain rfl : s = bs := (Prod.mk.inj heq).1
      obtain ⟨hzero, hroom⟩ := (CString.read_append_replicate_iff s _).mp hs
      exact ⟨by simp, hzero, show s.length < shmemSize by omega⟩
  · intro h
    exact ⟨.zero, readBranch_of_plain h⟩

/-- On an error `strncpy` writes out of bounds. -/
theorem not_forwards_error : ¬ Forwards .error := by
  rintro ⟨b, hb⟩
  rw [readBranch_error] at hb
  cases hb

/-! ### The handler -/

/-- The event does not make the handler give up, and what it receives can be forwarded. -/
structure ServerEvent.Fine (listenerSocket : ℤ) (e : ServerEvent) : Prop where
  accepted : e.conn = true → e.socket ≠ listenerSocket → e.peerResult ≠ -1
  err_eq : e.err = false
  plain : e.read = true → e.received.Plain

/-- The calls for an event when everything is forwarded. -/
def ServerEvent.calls (listenerSocket : ℤ) (e : ServerEvent) : List Call :=
  (if e.conn && decide (e.socket ≠ listenerSocket) then [.accept e.socket] else []) ++
    (if e.read then [.recv e.socket, .send listenerSocket e.received.data] else []) ++
    (if e.close then [.shutdown e.socket] else [])

/-- The calls that a fine event makes. -/
theorem handleEvent_of_fine {listenerSocket : ℤ} {e : ServerEvent} (h : e.Fine listenerSocket) :
    handleEvent listenerSocket .zero e = .ok (e.calls listenerSocket, .zero) := by
  obtain ⟨haccepted, herr, hplain⟩ := h
  have hguard : (e.conn && decide (e.socket ≠ listenerSocket) && decide (e.peerResult = -1)) =
      false := by
    simp
    exact haccepted
  unfold handleEvent ServerEvent.calls
  simp only [hguard, herr]
  cases hread : e.read with
  | false => rfl
  | true =>
    rw [readBranch_of_plain (hplain hread)]
    rfl

/-- **Every event**: the buffers are zero before each event, and everything is forwarded. -/
theorem handlePicoserverNotification_of_fine {listenerSocket : ℤ} {es : List ServerEvent}
    (h : ∀ e ∈ es, e.Fine listenerSocket) :
    handlePicoserverNotification listenerSocket .zero es =
      .ok (es.flatMap (ServerEvent.calls listenerSocket), .zero) := by
  induction es with
  | nil => rfl
  | cons e es ih =>
    rw [handlePicoserverNotification, handleEvent_of_fine (h e (List.mem_cons_self ..))]
    show (handlePicoserverNotification listenerSocket .zero es).bind _ = _
    rw [ih fun e' he' => h e' (List.mem_cons_of_mem e he')]
    rfl

end Camkes.Picoserver
