import Camkes.PicotcpSingle.TcpEchoErrors

/-!
# One call of the TCP echo server

The loops are verified on one slot, for any outcomes of the calls to the stack: what
`pico_socket_send` takes of a payload moves from the packet buffer to the network (`sendLoop_spec`,
`flushLoop_spec`), and one round on a read event replaces the buffer (`receiveLoop_data`).  `serve`
is what a call does to the slot of its socket, and `handle_of_open` says that a call on an open
connection does no more than that.
-/

namespace Camkes.PicotcpSingle.TcpEcho

open CArray

/-! ### Bytes on one connection -/

/-- The bytes on a connection after more of them have passed. -/
def Conn.ios (c : Conn) (xs : List Io) : Conn := xs.foldl Conn.io c

@[simp] theorem Conn.ios_nil (c : Conn) : c.ios [] = c := rfl

@[simp] theorem Conn.ios_cons (c : Conn) (x : Io) (xs : List Io) :
    c.ios (x :: xs) = (c.io x).ios xs := rfl

@[simp] theorem Conn.ios_append (c : Conn) (xs ys : List Io) :
    c.ios (xs ++ ys) = (c.ios xs).ios ys :=
  List.foldl_append

@[simp] theorem receivedBytes_nil : receivedBytes [] = [] := rfl

@[simp] theorem receivedBytes_received (bytes : List UInt8) (xs : List Io) :
    receivedBytes (.received bytes :: xs) = bytes ++ receivedBytes xs := rfl

@[simp] theorem receivedBytes_append (xs ys : List Io) :
    receivedBytes (xs ++ ys) = receivedBytes xs ++ receivedBytes ys :=
  List.flatMap_append

@[simp] theorem sentBytes_nil : sentBytes [] = [] := rfl

@[simp] theorem sentBytes_sent (bytes : List UInt8) (xs : List Io) :
    sentBytes (.sent bytes :: xs) = bytes ++ sentBytes xs := rfl

@[simp] theorem sentBytes_append (xs ys : List Io) :
    sentBytes (xs ++ ys) = sentBytes xs ++ sentBytes ys :=
  List.flatMap_append

/-- What a connection has received after some calls, appended to what it had. -/
theorem Conn.ios_received (c : Conn) (xs : List Io) :
    (c.ios xs).received = c.received ++ receivedBytes xs := by
  induction xs generalizing c with
  | nil => rw [ios_nil, receivedBytes_nil, List.append_nil]
  | cons x xs ih =>
    rw [ios_cons, ih]
    cases x with
    | received bytes => rw [receivedBytes_received, ← List.append_assoc]; rfl
    | sent bytes => rfl

/-- What a connection has sent after some calls, appended to what it had. -/
theorem Conn.ios_sent (c : Conn) (xs : List Io) : (c.ios xs).sent = c.sent ++ sentBytes xs := by
  induction xs generalizing c with
  | nil => rw [ios_nil, sentBytes_nil, List.append_nil]
  | cons x xs ih =>
    rw [ios_cons, ih]
    cases x with
    | received bytes => rfl
    | sent bytes => rw [sentBytes_sent, ← List.append_assoc]; rfl

/-- Nothing has been received. -/
def OnlySent (xs : List Io) : Prop := ∀ x ∈ xs, ∃ bytes, x = .sent bytes

theorem onlySent_nil : OnlySent [] := by
  intro x hx
  cases hx

theorem OnlySent.cons {xs : List Io} (h : OnlySent xs) (bytes : List UInt8) :
    OnlySent (.sent bytes :: xs) := by
  intro x hx
  rcases List.mem_cons.mp hx with rfl | hx
  · exact ⟨bytes, rfl⟩
  · exact h x hx

theorem OnlySent.receivedBytes_eq {xs : List Io} (h : OnlySent xs) : receivedBytes xs = [] := by
  refine List.flatMap_eq_nil_iff.mpr fun x hx => ?_
  obtain ⟨bytes, rfl⟩ := h x hx
  rfl

/-! ### Connections in a trace -/

theorem connOf_append_accepted (s s' : Sock) (trace : List Action) :
    connOf s (trace ++ [.accepted s']) = if s' = s then .empty else connOf s trace :=
  List.foldl_append

theorem connOf_append_shutdown (s s' : Sock) (trace : List Action) :
    connOf s (trace ++ [.shutdown s']) = connOf s trace :=
  List.foldl_append

/-- Calls for one socket belong to its own connection only. -/
theorem connOf_append_io (s s' : Sock) (trace : List Action) (xs : List Io) :
    connOf s (trace ++ xs.map (.io s')) =
      if s' = s then (connOf s trace).ios xs else connOf s trace := by
  induction xs generalizing trace with
  | nil =>
    rw [List.map_nil, List.append_nil, Conn.ios_nil, ite_self]
  | cons x xs ih =>
    have hx : connOf s (trace ++ [.io s' x]) =
        if s' = s then (connOf s trace).io x else connOf s trace := List.foldl_append
    rw [List.map_cons, ← List.singleton_append, ← List.append_assoc, ih, hx]
    split_ifs
    · rfl
    · rfl

/-! ### Sending -/

/-- What is left in a packet buffer to be sent. -/
def Slot.pending? (slot : Slot) : Option (List UInt8) :=
  slice slot.dataPacket slot.sentPayload slot.remainingPayload

/-- The results of sending `rest`, which ends `limit` bytes into the packet buffer. -/
inductive SendResult (slot : Slot) (rest : List UInt8) (limit : ℕ) :
    SendEnd → Slot → List Io → Prop
  | complete {xs : List Io} : sentBytes xs = rest → SendResult slot rest limit .complete slot xs
  | blocked {xs : List Io} {ret done : ℕ} {rest' : List UInt8} :
      0 < ret → done + ret = limit → (slot.block ret done).pending? = some rest' →
      rest = sentBytes xs ++ rest' → SendResult slot rest limit .blocked (slot.block ret done) xs
  | failed {xs : List Io} {rest' : List UInt8} :
      rest = sentBytes xs ++ rest' → SendResult slot rest limit .failed slot xs

/-- What is sent first is in front. -/
theorem SendResult.cons {slot slot' : Slot} {rest : List UInt8} {limit : ℕ} {e : SendEnd}
    {xs : List Io} (n : ℕ) (h : SendResult slot (rest.drop n) limit e slot' xs) :
    SendResult slot rest limit e slot' (.sent (rest.take n) :: xs) := by
  have hsplit : ∀ {rest'}, rest.drop n = sentBytes xs ++ rest' →
      rest = sentBytes (.sent (rest.take n) :: xs) ++ rest' := by
    intro rest' hrest
    rw [sentBytes_sent, List.append_assoc, ← hrest, List.take_append_drop]
  cases h with
  | complete hxs =>
    apply SendResult.complete
    rw [sentBytes_sent, hxs, List.take_append_drop]
  | blocked hret hlimit hs hrest => exact .blocked hret hlimit hs (hsplit hrest)
  | failed hrest => exact .failed (hsplit hrest)

theorem take_length_eq_zero {rest : List UInt8} (h : 0 < rest.length) {n : ℕ} :
    (rest.take n).length = 0 ↔ n = 0 := by
  rw [List.length_take]
  omega

theorem drop_take_length (rest : List UInt8) (n : ℕ) :
    rest.drop (rest.take n).length = rest.drop n := by
  rw [List.length_take]
  rcases Nat.le_total n rest.length with h | h
  · rw [Nat.min_eq_left h]
  · rw [Nat.min_eq_right h, List.drop_length, List.drop_eq_nil_of_le h]

theorem sub_take_length {rest : List UInt8} {ret : ℕ} (h : rest.length = ret) (n : ℕ) :
    ret - (rest.take n).length = ret - n := by
  rw [List.length_take]
  omega

/-- What can be sent of a payload after the first `n` bytes of it. -/
theorem slice_after_send {slot : Slot} {done ret : ℕ} {rest : List UInt8}
    (hs : slice slot.dataPacket done ret = some rest) (n : ℕ) :
    slice slot.dataPacket (done + (rest.take n).length) (ret - (rest.take n).length) =
      some (rest.drop n) := by
  have hle : (rest.take n).length ≤ ret := by
    rw [← length_of_slice hs]
    exact List.length_take_le' ..
  obtain ⟨-, hs'⟩ := slice_split hle hs
  rwa [drop_take_length] at hs'

/-- The loop of sends on a read event never fails: it only sends, and ends as `SendResult` says. -/
theorem sendLoop_spec (slot : Slot) {ret done : ℕ} {rest : List UInt8}
    (hs : slice slot.dataPacket done ret = some rest) (sends : List Send) :
    ∃ slot' xs, sendLoop slot ret done sends = some (slot', xs) ∧ OnlySent xs ∧
      (takesBytes sends = false → xs = []) ∧
      SendResult slot rest (done + ret) (sendEnd ret sends) slot' xs := by
  have hlength := length_of_slice hs
  have hdone : ¬ret > 0 → rest = [] := fun hret =>
    List.eq_nil_of_length_eq_zero (by omega)
  induction sends generalizing ret done rest with
  | nil =>
    rw [sendLoop, sendEnd]
    split_ifs with hret
    · exact ⟨_, [], rfl, onlySent_nil, fun _ => rfl, .blocked hret rfl hs rfl⟩
    · exact ⟨slot, [], rfl, onlySent_nil, fun _ => rfl, .complete (hdone hret).symm⟩
  | cons send sends ih =>
    cases send with
    | error =>
      rw [sendLoop, sendEnd]
      split_ifs with hret
      · exact ⟨slot, [], rfl, onlySent_nil, fun _ => rfl, .failed rfl⟩
      · exact ⟨slot, [], rfl, onlySent_nil, fun _ => rfl, .complete (hdone hret).symm⟩
    | sent n =>
      rw [sendLoop, sendEnd]
      by_cases hret : ret > 0
      · have htake := take_length_eq_zero (hlength.symm ▸ hret) (n := n)
        simp only [if_pos hret, hs, Option.bind_eq_bind, Option.bind_some, htake]
        by_cases hn : n = 0
        · rw [if_pos hn, if_pos hn]
          exact ⟨_, [], rfl, onlySent_nil, fun _ => rfl, .blocked hret rfl hs rfl⟩
        · rw [if_neg hn, if_neg hn]
          have hs' := slice_after_send hs n
          have hlength' := length_of_slice hs'
          obtain ⟨slot', xs, hloop, honly, -, hres⟩ := ih hs' hlength' fun hret' =>
            List.eq_nil_of_length_eq_zero (by omega)
          refine ⟨slot', .sent (rest.take n) :: xs, by rw [hloop]; rfl, honly.cons _, ?_, ?_⟩
          · intro htakes
            simp [takesBytes, hn] at htakes
          have hlimit : done + (rest.take n).length + (ret - (rest.take n).length) =
              done + ret := by
            have hle : (rest.take n).length ≤ rest.length := List.length_take_le' ..
            omega
          rw [hlimit, sub_take_length hlength] at hres
          exact hres.cons n
      · rw [if_neg hret, if_neg hret]
        exact ⟨slot, [], rfl, onlySent_nil, fun _ => rfl, .complete (hdone hret).symm⟩

/-! ### Flushing -/

/-- The results of a flush of `rest`.  The slot is still marked as pending, also when nothing is
left. -/
structure FlushResult (slot : Slot) (rest : List UInt8) (e : SendEnd) (slot' : Slot)
    (xs : List Io) : Prop where
  onlySent : OnlySent xs
  writePending : slot'.writePending = true
  limit : slot'.sentPayload + slot'.remainingPayload = slot.sentPayload + slot.remainingPayload
  pending : ∃ rest', slot'.pending? = some rest' ∧ rest = sentBytes xs ++ rest'
  complete : slot'.remainingPayload = 0 ↔ e = .complete

/-- A flush that stops before the first send. -/
theorem FlushResult.stop {slot : Slot} (hw : slot.writePending = true) {rest : List UInt8}
    (hs : slot.pending? = some rest) {e : SendEnd}
    (hrem : slot.remainingPayload = 0 ↔ e = .complete) : FlushResult slot rest e slot [] where
  onlySent := onlySent_nil
  writePending := hw
  limit := rfl
  pending := ⟨_, hs, rfl⟩
  complete := hrem

/-- A flush goes on after a send. -/
theorem FlushResult.cons {slot slot' : Slot} {rest : List UInt8} {e : SendEnd} {xs : List Io}
    {n : ℕ} (hlength : rest.length = slot.remainingPayload)
    (h : FlushResult { slot with
        remainingPayload := slot.remainingPayload - (rest.take n).length
        sentPayload := slot.sentPayload + (rest.take n).length } (rest.drop n) e slot' xs) :
    FlushResult slot rest e slot' (.sent (rest.take n) :: xs) where
  onlySent := h.onlySent.cons _
  writePending := h.writePending
  limit := by
    have hle : (rest.take n).length ≤ rest.length := List.length_take_le' ..
    have hlimit := h.limit
    simp only at hlimit
    omega
  pending := by
    obtain ⟨rest', hs', hrest⟩ := h.pending
    refine ⟨rest', hs', ?_⟩
    rw [sentBytes_sent, List.append_assoc, ← hrest, List.take_append_drop]
  complete := h.complete

/-- The loop of sends on a write event never fails when the bytes that are left lie in the packet
buffer, and ends as `FlushResult` says. -/
theorem flushLoop_spec {slot : Slot} (hw : slot.writePending = true) {rest : List UInt8}
    (hs : slot.pending? = some rest) (sends : List Send) :
    ∃ slot' xs, flushLoop slot sends = some (slot', xs) ∧ (takesBytes sends = false → xs = []) ∧
      FlushResult slot rest (sendEnd slot.remainingPayload sends) slot' xs := by
  induction sends generalizing slot rest with
  | nil =>
    rw [flushLoop, sendEnd]
    refine ⟨slot, [], rfl, fun _ => rfl, .stop hw hs ?_⟩
    split_ifs with hrem
    · exact iff_of_false (by omega) id
    · exact iff_of_true (by omega) rfl
  | cons send sends ih =>
    rw [flushLoop.eq_def, sendEnd.eq_def]
    by_cases hrem : slot.remainingPayload > 0
    · have hne : ∀ {e : SendEnd}, e ≠ .complete → (slot.remainingPayload = 0 ↔ e = .complete) :=
        fun he => iff_of_false (by omega) he
      cases send with
      | error =>
        simp only [if_pos hrem]
        exact ⟨slot, [], rfl, fun _ => rfl, .stop hw hs (hne nofun)⟩
      | sent n =>
        have hs₀ : slice slot.dataPacket slot.sentPayload slot.remainingPayload = some rest := hs
        have hlength := length_of_slice hs₀
        have htake := take_length_eq_zero (hlength.symm ▸ hrem) (n := n)
        simp only [if_pos hrem, hs₀, Option.bind_eq_bind, Option.bind_some, htake]
        by_cases hn : n = 0
        · rw [if_pos hn, if_pos hn]
          refine ⟨_, [], rfl, fun _ => rfl, ?_⟩
          have hmarked : ({ slot with writePending := true } : Slot) = slot := by rw [← hw]
          rw [hmarked]
          exact .stop hw hs (hne nofun)
        · rw [if_neg hn, if_neg hn]
          let slot₁ : Slot := { slot with
            remainingPayload := slot.remainingPayload - (rest.take n).length
            sentPayload := slot.sentPayload + (rest.take n).length }
          have hw₁ : slot₁.writePending = true := hw
          have hs₁ : slot₁.pending? = some (rest.drop n) := slice_after_send hs₀ n
          obtain ⟨slot', xs, hloop, -, hres⟩ := ih hw₁ hs₁
          refine ⟨slot', .sent (rest.take n) :: xs, by rw [hloop]; rfl, ?_, ?_⟩
          · intro htakes
            simp [takesBytes, hn] at htakes
          · rw [← sub_take_length hlength]
            exact hres.cons hlength
    · simp only [if_neg hrem]
      exact ⟨slot, [], rfl, fun _ => rfl, .stop hw hs (iff_of_true (by omega) rfl)⟩

/-! ### Receiving -/

theorem receiveLoop_pending {slot : Slot} (hw : slot.writePending = true) (rounds : List Round) :
    receiveLoop slot rounds = some (slot, []) := by
  cases rounds with
  | nil => rfl
  | cons round rounds => rw [receiveLoop, if_pos hw]

/-- The runs of the loop.  A round replaces what the packet buffer holds. -/
inductive Receives : Slot → List Round → Slot → List Io → Prop
  | nil {slot : Slot} : Receives slot [] slot []
  | pending {slot : Slot} {rounds : List Round} :
      slot.writePending = true → Receives slot rounds slot []
  | error {slot : Slot} {sends : List Send} {rounds : List Round} :
      Receives slot (⟨.error, sends⟩ :: rounds) slot []
  | empty {slot : Slot} {data : List UInt8} {sends : List Send} {rounds : List Round} :
      (data.take tcpReadSize).length = 0 → Receives slot (⟨.data data, sends⟩ :: rounds) slot []
  | data {slot slot₁ slot₂ slot' : Slot} {data : List UInt8} {sends : List Send}
      {rounds : List Round} {xs ys : List Io} :
      (data.take tcpReadSize).length ≠ 0 → slot.writePending = false →
      slot₁.writePending = false → OnlySent xs → (takesBytes sends = false → xs = []) →
      SendResult slot₁ (data.take tcpReadSize) (data.take tcpReadSize).length
        (sendEnd (data.take tcpReadSize).length sends) slot₂ xs →
      Receives slot₂ rounds slot' ys →
      Receives slot (⟨.data data, sends⟩ :: rounds) slot'
        (.received (data.take tcpReadSize) :: (xs ++ ys))

/-- The loop never fails. -/
theorem receiveLoop_spec (slot : Slot) (rounds : List Round) :
    ∃ slot' xs, receiveLoop slot rounds = some (slot', xs) ∧ Receives slot rounds slot' xs := by
  induction rounds generalizing slot with
  | nil => exact ⟨slot, [], rfl, .nil⟩
  | cons round rounds ih =>
    cases hw : slot.writePending with
    | true => exact ⟨slot, [], receiveLoop_pending hw _, .pending hw⟩
    | false =>
      obtain ⟨recv, sends⟩ := round
      rw [receiveLoop, if_neg (by simp [hw])]
      cases recv with
      | error => exact ⟨slot, [], rfl, .error⟩
      | data data =>
        simp only
        split_ifs with hlen
        · exact ⟨slot, [], rfl, .empty hlen⟩
        · have hle : (data.take tcpReadSize).length ≤ packetSize :=
            Nat.le_trans (List.length_take_le ..) (by decide)
          obtain ⟨buf, hbuf, -⟩ := memcpy_eq_some slot.dataPacket hle
          obtain ⟨slot₂, xs, hsend, honly, htakes, hres⟩ :=
            sendLoop_spec { slot with dataPacket := buf } (slice_memcpy_self hbuf) sends
          obtain ⟨slot', ys, hloop, hrest⟩ := ih slot₂
          rw [Nat.zero_add] at hres
          have hw₁ : ({ slot with dataPacket := buf } : Slot).writePending = false := hw
          refine ⟨slot', .received (data.take tcpReadSize) :: (xs ++ ys), ?_,
            .data hlen hw hw₁ honly htakes hres hrest⟩
          simp only [hbuf, hsend, hloop, Option.bind_eq_bind, Option.bind_some]

/-! ### A call on an open connection -/

/-- What a write event does to a slot.  It also returns whether the read event bit is set now. -/
def serveWrite (slot : Slot) (rd : Bool) (sends : List Send) : Option (Slot × Bool × List Io) :=
  if slot.writePending then do
    let (slot, xs) ← flushLoop slot sends
    if slot.remainingPayload = 0 then some ({ slot with writePending := false }, true, xs)
    else some (slot, rd, xs)
  else some (slot, rd, [])

/-- What a call does to the slot of its socket. -/
def serve (slot : Slot) (c : Call) : Option (Slot × List Io) := do
  let (slot, rd, flushed) ← (
    if c.events.wr then serveWrite slot c.events.rd c.flush else some (slot, c.events.rd, []))
  let (slot, read) ← (if rd then receiveLoop slot c.rounds else some (slot, []))
  some (slot, flushed ++ read)

/-- The runs of a call.  While a send is pending a read event does nothing; a flush after which
nothing is left goes on to receive. -/
inductive Serves (slot : Slot) (c : Call) : Slot → List Io → Prop
  | idle : slot.writePending = false → c.events.rd = false → Serves slot c slot []
  | receive {slot' : Slot} {xs : List Io} :
      slot.writePending = false → c.events.rd = true → Receives slot c.rounds slot' xs →
      Serves slot c slot' xs
  | wait : slot.writePending = true → c.events.wr = false → Serves slot c slot []
  | flush {slot' : Slot} {rest : List UInt8} {xs : List Io} :
      slot.writePending = true → c.events.wr = true → slot.pending? = some rest →
      (takesBytes c.flush = false → xs = []) →
      FlushResult slot rest (sendEnd slot.remainingPayload c.flush) slot' xs →
      slot'.remainingPayload ≠ 0 → Serves slot c slot' xs
  | flushed {slot₁ slot' : Slot} {rest : List UInt8} {xs ys : List Io} :
      slot.writePending = true → c.events.wr = true → slot.pending? = some rest →
      (takesBytes c.flush = false → xs = []) →
      FlushResult slot rest (sendEnd slot.remainingPayload c.flush) slot₁ xs →
      slot₁.remainingPayload = 0 →
      Receives { slot₁ with writePending := false } c.rounds slot' ys →
      Serves slot c slot' (xs ++ ys)

/-- A call fails only if a pending send is outside of the packet buffer. -/
theorem serve_spec {slot : Slot} (hs : slot.writePending = true → ∃ rest, slot.pending? = some rest)
    (c : Call) : ∃ slot' xs, serve slot c = some (slot', xs) ∧ Serves slot c slot' xs := by
  unfold serve serveWrite
  cases hw : slot.writePending with
  | false =>
    simp only [Bool.false_eq_true, if_false, ite_self, Option.bind_eq_bind, Option.bind_some,
      List.nil_append]
    cases hrd : c.events.rd with
    | false => exact ⟨slot, [], rfl, .idle hw hrd⟩
    | true =>
      obtain ⟨slot', xs, hloop, hrec⟩ := receiveLoop_spec slot c.rounds
      exact ⟨slot', xs, by rw [if_pos rfl, hloop]; rfl, .receive hw hrd hrec⟩
  | true =>
    -- a read event alone does nothing to a slot that is still pending
    have hread : ∀ {slot : Slot}, slot.writePending = true → ∀ rd : Bool,
        (if rd then receiveLoop slot c.rounds else some (slot, [])) = some (slot, []) := by
      intro slot hw rd
      rw [receiveLoop_pending hw, ite_self]
    cases hwr : c.events.wr with
    | false =>
      refine ⟨slot, [], ?_, .wait hw hwr⟩
      simp only [Bool.false_eq_true, if_false, Option.bind_eq_bind, Option.bind_some, hread hw,
        List.append_nil]
    | true =>
      obtain ⟨rest, hs⟩ := hs hw
      obtain ⟨slot₁, xs, hflush, htakes, hres⟩ := flushLoop_spec hw hs c.flush
      simp only [if_true, hflush, Option.bind_eq_bind, Option.bind_some]
      by_cases hrem : slot₁.remainingPayload = 0
      · obtain ⟨slot', ys, hloop, hrec⟩ :=
          receiveLoop_spec { slot₁ with writePending := false } c.rounds
        refine ⟨slot', xs ++ ys, ?_, .flushed hw hwr hs htakes hres hrem hrec⟩
        simp only [if_pos hrem, Option.bind_some, if_true, hloop]
      · refine ⟨slot₁, xs, ?_, .flush hw hwr hs htakes hres hrem⟩
        simp only [if_neg hrem, Option.bind_some, hread hres.writePending, List.append_nil]

/-! ### Finding clients -/

variable {st : State}

theorem connected_of_findClient {s : Sock} {i : ClientId} (h : findClient st s = some i) :
    st.connected.get i = some s := by
  unfold findClient at h
  split_ifs at h
  simpa using List.find?_some h

/-- No client is connected to a socket that is not open. -/
theorem connected_ne_of_not_open {s : Sock} (hs : s ≠ st.socketIn) (h : isOpen st s = false)
    (i : ClientId) : st.connected.get i ≠ some s := by
  have hnone : (List.finRange maxTcpClients).find?
      (fun i => st.connected.get i = some s) = none := by
    rw [isOpen, findClient, if_neg hs] at h
    simpa using h
  have hall := List.find?_eq_none.mp hnone i (List.mem_finRange i)
  simpa using hall

/-- The client that is found for a new connection is not connected. -/
theorem findFree_spec {i : ClientId} (h : findFree st = some i) : st.connected.get i = none := by
  unfold findFree at h
  simpa using List.find?_some h

/-- What `expected` says about the two kinds of sockets. -/
theorem expected_iff {c : Call} : expected st c = true ↔ c.events.err = false ∧
    acceptsNew st c.accept = true ∧
    (findClient st c.socket = none →
      c.events.rd = false ∧ c.events.wr = false ∧ c.events.fin = false) ∧
    ∀ i, findClient st c.socket = some i → c.events.conn = false := by
  unfold expected isOpen
  cases findClient st c.socket with
  | none => simp [and_assoc]
  | some i => simp [and_assoc]

/-! ### The handler -/

/-- `pico_socket_shutdown` on a close event. -/
def closeActions (c : Call) : List Action :=
  if c.events.close then [.shutdown c.socket] else []

/-- On a socket with a slot, the handler is `serve` on that slot; a FIN frees the slot. -/
theorem handle_of_open {c : Call} {i : ClientId} (hfind : findClient st c.socket = some i)
    (hconn : c.events.conn = false) (herr : c.events.err = false) :
    handleTcpPicoserverNotification st c = (serve (st.slots.get i) c).map fun r =>
      ({ st with
        connected := if c.events.fin then put st.connected i none else st.connected
        slots := put st.slots i r.1 }, r.2.map (.io c.socket) ++ closeActions c) := by
  have hwrite : (if c.events.wr then handleWrite st (some i) c.socket c.events.rd c.flush
      else some (st, c.events.rd, [])) =
      (if c.events.wr then serveWrite (st.slots.get i) c.events.rd c.flush
        else some (st.slots.get i, c.events.rd, [])).map fun r =>
          ({ st with slots := put st.slots i r.1 }, r.2.1, r.2.2.map (.io c.socket)) := by
    split_ifs
    · simp only [handleWrite, serveWrite, Option.bind_eq_bind, Option.bind_some]
      split_ifs
      · cases flushLoop (st.slots.get i) c.flush with
        | none => rfl
        | some r =>
          simp only [Option.bind_some]
          split_ifs
          · rfl
          · rfl
      · simp only [Option.map_some, put_get, List.map_nil]
    · simp only [Option.map_some, put_get, List.map_nil]
  unfold handleTcpPicoserverNotification serve
  simp only [hfind, hconn, herr, hwrite, Option.bind_eq_bind, Bool.false_eq_true, if_false,
    Option.bind_some]
  cases (if c.events.wr then serveWrite (st.slots.get i) c.events.rd c.flush
    else some (st.slots.get i, c.events.rd, [])) with
  | none => rfl
  | some r =>
    obtain ⟨slot, rd, flushed⟩ := r
    have hread : (if rd then handleRead { st with slots := put st.slots i slot } (some i) c.socket
        c.rounds else some ({ st with slots := put st.slots i slot }, [])) =
        (if rd then receiveLoop slot c.rounds else some (slot, [])).map fun r =>
          ({ st with slots := put st.slots i r.1 }, r.2.map (.io c.socket)) := by
      split_ifs
      · simp only [handleRead, Option.bind_eq_bind, Option.bind_some, get_put_self, put_put]
        cases receiveLoop slot c.rounds with
        | none => rfl
        | some r => rfl
      · rfl
    simp only [Option.map_some, Option.bind_some, hread]
    cases (if rd then receiveLoop slot c.rounds else some (slot, [])) with
    | none => rfl
    | some r =>
      simp only [Option.map_some, Option.bind_some, handleFin, List.nil_append, List.map_append,
        closeActions]
      split_ifs
      all_goals rfl

/-- A new connection is reported for a socket that is not open, and takes a free slot if there is
one. -/
theorem handle_of_not_open {c : Call} (hfind : findClient st c.socket = none)
    (hrd : c.events.rd = false) (hwr : c.events.wr = false) (hfin : c.events.fin = false)
    (herr : c.events.err = false) :
    handleTcpPicoserverNotification st c =
      match (if c.events.conn then findFree st else none) with
      | none => some (st, closeActions c)
      | some i =>
        some ({ st with
          connected := put st.connected i c.accept
          slots := put st.slots i { st.slots.get i with writePending := false } },
          c.accept.toList.map .accepted ++ closeActions c) := by
  unfold handleTcpPicoserverNotification handleConn
  simp only [hfind, hrd, hwr, hfin, herr, Option.bind_eq_bind, Bool.false_eq_true, if_false,
    Option.bind_some, Option.isSome_none, closeActions]
  cases c.events.conn with
  | false => rfl
  | true =>
    simp only [if_true]
    cases findFree st with
    | none => rfl
    | some i =>
      simp only [Option.bind_some, List.append_nil]

/-- No two slots are for the same socket. -/
def Distinct (st : State) : Prop :=
  ∀ (i j : ClientId) (s : Sock), st.connected.get i = some s → st.connected.get j = some s → i = j

theorem distinct_init (socketIn : Sock) : Distinct (.init socketIn) := by
  intro i j s hi
  rw [State.init, get_replicate] at hi
  cases hi

theorem not_connected_of_acceptsNew {accept : Option Sock} (hnew : acceptsNew st accept) {s : Sock}
    (hs : accept = some s) (j : ClientId) : st.connected.get j ≠ some s := by
  subst hs
  simp only [acceptsNew, Option.all_some, Bool.and_eq_true, decide_eq_true_eq,
    Bool.not_eq_true'] at hnew
  exact connected_ne_of_not_open hnew.1 hnew.2 j

/-- Accepting a new socket keeps the clients' sockets different. -/
theorem Distinct.accept (h : Distinct st) {accept : Option Sock} (hnew : acceptsNew st accept)
    (i : ClientId) (slots : Vector Slot maxTcpClients) :
    Distinct { st with connected := put st.connected i accept, slots } := by
  intro j k s hj hk
  rw [get_put] at hj hk
  split_ifs at hj hk with hij hik hik
  · exact hij.symm.trans hik
  · exact absurd hk (not_connected_of_acceptsNew hnew hj k)
  · exact absurd hj (not_connected_of_acceptsNew hnew hk j)
  · exact h j k s hj hk

theorem Distinct.fin (h : Distinct st) (i : ClientId) (slots : Vector Slot maxTcpClients) :
    Distinct { st with connected := put st.connected i none, slots } := by
  intro j k s hj hk
  rw [get_put] at hj hk
  split_ifs at hj hk
  exact h j k s hj hk

/-- The runs of the handler on expected events. -/
inductive Handles (st : State) (c : Call) : State → List Action → Prop
  | refused : findClient st c.socket = none → Handles st c st (closeActions c)
  | accepted {i : ClientId} : findClient st c.socket = none → st.connected.get i = none →
      Handles st c
        { st with
          connected := put st.connected i c.accept
          slots := put st.slots i { st.slots.get i with writePending := false } }
        (c.accept.toList.map .accepted ++ closeActions c)
  | served {i : ClientId} {slot : Slot} {xs : List Io} : st.connected.get i = some c.socket →
      findClient st c.socket = some i → Serves (st.slots.get i) c slot xs →
      Handles st c
        { st with
          connected := if c.events.fin then put st.connected i none else st.connected
          slots := put st.slots i slot }
        (xs.map (.io c.socket) ++ closeActions c)

/-- An expected call fails only if the pending send of its socket is outside of the packet
buffer. -/
theorem handle_spec {c : Call} (hexp : expected st c)
    (hs : ∀ i, st.connected.get i = some c.socket → (st.slots.get i).writePending = true →
      ∃ rest, (st.slots.get i).pending? = some rest) :
    ∃ st' acts, handleTcpPicoserverNotification st c = some (st', acts) ∧
      Handles st c st' acts := by
  obtain ⟨herr, -, hclosed, hopen⟩ := expected_iff.mp hexp
  cases hfind : findClient st c.socket with
  | none =>
    obtain ⟨hrd, hwr, hfin⟩ := hclosed hfind
    rw [handle_of_not_open hfind hrd hwr hfin herr]
    cases hfree : (if c.events.conn then findFree st else none) with
    | none => exact ⟨st, _, rfl, .refused hfind⟩
    | some i =>
      split_ifs at hfree
      exact ⟨_, _, rfl, .accepted hfind (findFree_spec hfree)⟩
  | some i =>
    have hi := connected_of_findClient hfind
    obtain ⟨slot, xs, hserve, hserves⟩ := serve_spec (hs i hi) c
    refine ⟨_, _, ?_, .served hi hfind hserves⟩
    rw [handle_of_open hfind (hopen i hfind) herr, hserve]
    rfl

theorem step_of_handle {s : System} {c : Call} {st' : State} {acts : List Action}
    (h : handleTcpPicoserverNotification s.server c = some (st', acts)) :
    s.step c = some { server := st', trace := s.trace ++ acts } := by
  simp only [System.step, h, Option.bind_eq_bind, Option.bind_some]

/-- A call of the handler keeps the clients' sockets different. -/
theorem Handles.distinct {c : Call} {st' : State} {acts : List Action} (h : Handles st c st' acts)
    (hd : Distinct st) (hnew : acceptsNew st c.accept) : Distinct st' := by
  cases h with
  | refused _ => exact hd
  | accepted _ _ => exact hd.accept hnew _ _
  | served _ _ _ =>
    split_ifs
    · exact hd.fin _ _
    · exact hd

/-! ### Bounds -/

/-- A pending send is not empty, and part of what one call of `pico_socket_recv` can store. -/
def Slot.Bounded (slot : Slot) : Prop :=
  slot.writePending = true →
    0 < slot.remainingPayload ∧ slot.sentPayload + slot.remainingPayload ≤ tcpReadSize

theorem bounded_of_not_pending {slot : Slot} (hw : slot.writePending = false) : slot.Bounded := by
  intro hw'
  rw [hw] at hw'
  cases hw'

theorem Slot.Bounded.pending {slot : Slot} (h : slot.Bounded) (hw : slot.writePending = true) :
    ∃ rest, slot.pending? = some rest := by
  have hle : slot.sentPayload + slot.remainingPayload ≤ packetSize :=
    Nat.le_trans (h hw).2 (by decide)
  exact ⟨_, slice_of_le _ hle⟩

/-- The loop of sends leaves the slot bounded. -/
theorem SendResult.bounded {slot slot' : Slot} {rest : List UInt8} {limit : ℕ} {e : SendEnd}
    {xs : List Io} (h : SendResult slot rest limit e slot' xs) (hw : slot.writePending = false)
    (hlimit : limit ≤ tcpReadSize) : slot'.Bounded := by
  cases h with
  | complete _ => exact bounded_of_not_pending hw
  | blocked hret heq _ _ => exact fun _ => ⟨hret, Nat.le_trans (Nat.le_of_eq heq) hlimit⟩
  | failed _ => exact bounded_of_not_pending hw

/-- Receiving and sending keep the slot bounded. -/
theorem Receives.bounded {slot slot' : Slot} {rounds : List Round} {xs : List Io}
    (h : Receives slot rounds slot' xs) (hb : slot.Bounded) : slot'.Bounded := by
  induction h with
  | nil => exact hb
  | pending => exact hb
  | error => exact hb
  | empty => exact hb
  | data _ _ hw₁ _ _ hres _ ih => exact ih (hres.bounded hw₁ (List.length_take_le ..))

/-- The events of one call keep the slot bounded. -/
theorem Serves.bounded {slot slot' : Slot} {c : Call} {xs : List Io} (h : Serves slot c slot' xs)
    (hb : slot.Bounded) : slot'.Bounded := by
  cases h with
  | idle _ _ => exact hb
  | receive _ _ hrec => exact hrec.bounded hb
  | wait _ _ => exact hb
  | flush hw _ _ _ hres hrem =>
    intro _
    rw [hres.limit]
    exact ⟨Nat.pos_of_ne_zero hrem, (hb hw).2⟩
  | flushed _ _ _ _ _ _ hrec => exact hrec.bounded (bounded_of_not_pending rfl)

theorem Handles.bounded {c : Call} {st' : State} {acts : List Action} (h : Handles st c st' acts)
    (hb : ∀ i, (st.slots.get i).Bounded) (i : ClientId) : (st'.slots.get i).Bounded := by
  cases h with
  | refused _ => exact hb i
  | accepted _ _ => exact forall_get_put hb _ (bounded_of_not_pending rfl) i
  | served _ _ hserves => exact forall_get_put hb _ (hserves.bounded (hb _)) i

theorem bounded_init (socketIn : Sock) (i : ClientId) :
    ((State.init socketIn).slots.get i).Bounded := by
  rw [State.init, get_replicate]
  exact bounded_of_not_pending rfl

end Camkes.PicotcpSingle.TcpEcho
