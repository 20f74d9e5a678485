import Camkes.PicotcpTcpEcho.Payload
import Camkes.PicotcpTcpEcho.Equiv.Async

/-!
# Payloads keep their sockets

A buffer that PicoServer completes is put on the transmit queue as it is, with its `done_len` for
its `total_len` (`AsyncMsg.echoed`), or not at all: a buffer that is tagged with another socket goes
back without its bytes.  So, for each socket, the payloads that were queued, followed by those that
wait on the used ring, are part of the payloads received, in order (`Attributed.order`).  No buffer
is filled while it waits there or is on the transmit queue, as no buffer is in two places.
-/

namespace Camkes.PicotcpTcpEcho

open Machine

variable {a a' : Async} {m : AsyncMsg}

/-! ### What the handlers put where -/

/-- Nothing is put on the transmit queue, and nothing taken from the receive queue. -/
def Keeps (a a' : Async) : Prop :=
  a.rxVirtqueue <+: a'.rxVirtqueue ∧ a'.txVirtqueue = a.txVirtqueue

/-- The message that echoes the bytes of a completed buffer. -/
def AsyncMsg.echoed (m : AsyncMsg) : AsyncMsg :=
  { m with msg := { m.msg with totalLen := m.msg.doneLen, doneLen := 0 } }

theorem Keeps.trans {a'' : Async} (h : Keeps a a') (h' : Keeps a' a'') : Keeps a a'' :=
  ⟨h.1.trans h'.1, h'.2.trans h.2⟩

theorem keeps_addRx (h : a.addRx m = some a') : Keeps a a' := by
  unfold Async.addRx virtqueueAddAvailableBuf at h
  split_ifs at h
  · obtain rfl := Option.some.inj h
    exact ⟨List.prefix_append .., rfl⟩
  · cases h

/-- Adding to the transmit queue appends to it. -/
theorem addTx_spec (h : a.addTx m = some a') :
    a'.rxVirtqueue = a.rxVirtqueue ∧ a'.txVirtqueue = a.txVirtqueue ++ [m] := by
  unfold Async.addTx virtqueueAddAvailableBuf at h
  split_ifs at h
  · obtain rfl := Option.some.inj h
    exact ⟨rfl, rfl⟩
  · cases h

theorem keeps_pool (h : a.pool m = some a') : Keeps a a' := by
  unfold Async.pool at h
  split_ifs at h
  obtain rfl := Option.some.inj h
  exact ⟨List.prefix_rfl, rfl⟩

/-- A completed buffer is echoed, or nothing is put on the transmit queue. -/
def Echoes (a : Async) (m : AsyncMsg) (a' : Async) : Prop :=
  Keeps a a' ∨ m.msg.doneLen ≠ -1 ∧ a'.rxVirtqueue = a.rxVirtqueue ∧
    a'.txVirtqueue = a.txVirtqueue ++ [m.echoed]

theorem echoes_tcpReceivedFor (h : tcpReceivedFor a m = some a') : Echoes a m a' := by
  unfold tcpReceivedFor at h
  split_ifs at h with hdone
  · exact Or.inl (keeps_addRx h)
  · exact Or.inr ⟨fun hm => hdone (Or.inl hm), addTx_spec h⟩

/-- A buffer that is tagged with another socket goes back. -/
theorem keeps_tcpReceivedFor_retagged (h : tcpReceivedFor a
    { m with msg := { m.msg with socketFd := a.app.tcpEchoClient, doneLen := -1 } } = some a') :
    Keeps a a' := by
  rcases echoes_tcpReceivedFor h with h | ⟨hne, -⟩
  · exact h
  · exact absurd rfl hne

/-- What `async_event` does with a completed receive buffer. -/
theorem asyncReceived_spec (h : asyncReceived a m = some a') : Echoes a m a' := by
  unfold asyncReceived udpSocketHandleAsyncReceived tcpSocketHandleAsyncReceived at h
  split_ifs at h with hudp hdone htcp hfd hclient
  · exact Or.inl (keeps_addRx h)
  · exact Or.inr ⟨fun hm => hdone (Or.inl hm), addTx_spec h⟩
  · exact Or.inl (keeps_pool h)
  · exact Or.inl (keeps_tcpReceivedFor_retagged h)
  · exact echoes_tcpReceivedFor h
  · obtain rfl := Option.some.inj h
    exact Or.inl ⟨List.prefix_rfl, rfl⟩

/-- A buffer that has been sent is not sent again. -/
theorem asyncSent_spec (h : asyncSent a m = some a') : Keeps a a' := by
  unfold asyncSent udpSocketHandleAsyncSent tcpSocketHandleAsyncSent at h
  simp only at h
  split_ifs at h
  · exact keeps_addRx h
  · exact keeps_pool h
  · exact keeps_addRx h
  · exact keeps_addRx h
  · obtain rfl := Option.some.inj h
    exact ⟨List.prefix_rfl, rfl⟩

/-- The calls of the handlers keep what is on both queues. -/
theorem performCalls_spec {calls : List Call} (h : performCalls a calls = some a') :
    Keeps a a' := by
  induction calls generalizing a with
  | nil =>
    obtain rfl := Option.some.inj h
    exact ⟨List.prefix_rfl, rfl⟩
  | cons c calls ih =>
    cases c with
    | addAvailableBuf msg =>
      obtain ⟨a₁, hadd, hrest⟩ := Option.bind_eq_some_iff.mp h
      exact (keeps_addRx hadd).trans (ih hrest)
    | _ => exact ih h

theorem keeps_notification {e : PicoserverEvent} (h : a.step (.notification e) = some a') :
    Keeps a a' :=
  performCalls_spec (a := { a with app := (handleTcpEchoNotification a.app e).1 }) h

/-! ### Taking a completed buffer -/

/-- The completed buffer is found among the buffers that are lent. -/
theorem getElem?_findIdx {queue : List AsyncMsg} (h : m.key ∈ queue.map AsyncMsg.key) :
    ∃ m₀, queue[queue.findIdx (·.key = m.key)]? = some m₀ ∧ m₀.key = m.key := by
  obtain ⟨m₁, hm₁, hkey₁⟩ := List.mem_map.mp h
  have hlt : queue.findIdx (·.key = m.key) < queue.length :=
    List.findIdx_lt_length_of_exists ⟨m₁, hm₁, decide_eq_true hkey₁⟩
  have hkey := List.findIdx_getElem (w := hlt)
  exact ⟨_, List.getElem?_eq_getElem hlt, of_decide_eq_true hkey⟩

/-- Taking a buffer leaves the others on the queue. -/
theorem mem_map_eraseIdx {queue : List AsyncMsg} {k : ℕ} (h : queue[k]? = some m)
    {key : ℕ × ℕ} (hkey : key ∈ queue.map AsyncMsg.key) (hne : key ≠ m.key) :
    key ∈ (queue.eraseIdx k).map AsyncMsg.key := by
  have hcount := count_map_eraseIdx h key
  rw [List.count_cons_of_ne hne.symm] at hcount
  rw [← List.count_pos_iff, ← hcount]
  exact List.count_pos_iff.mpr hkey

/-- What `async_event` does with a completed buffer: the lent buffer `m₀` has become `m`. -/
theorem received_spec {m₀ : AsyncMsg} {k : ℕ} (hk : a.rxVirtqueue[k]? = some m₀)
    (hkey : m₀.key = m.key)
    (h : a.step (.received k m.msg.doneLen m.msg.socketFd) = some a') :
    ∃ a₁, a₁.rxVirtqueue = a.rxVirtqueue.eraseIdx k ∧ a₁.txVirtqueue = a.txVirtqueue ∧
      Echoes a₁ m a' := by
  have hget : getMsgFromQueue a.rxVirtqueue k m.msg.doneLen m.msg.socketFd =
      some ({ m₀ with msg := { m₀.msg with doneLen := m.msg.doneLen, socketFd := m.msg.socketFd } },
        a.rxVirtqueue.eraseIdx k) := by
    unfold getMsgFromQueue
    rw [hk]
    rfl
  simp only [Async.step, hget, Option.bind_eq_bind, Option.bind_some] at h
  refine ⟨{ a with rxVirtqueue := a.rxVirtqueue.eraseIdx k }, rfl, rfl, ?_⟩
  have hid : m₀.msg.id = m.msg.id := congrArg Prod.fst hkey
  have hcookie : m₀.clientCookie = m.clientCookie := congrArg Prod.snd hkey
  have hechoed : ({ m₀ with
      msg := { m₀.msg with doneLen := m.msg.doneLen, socketFd := m.msg.socketFd } } :
        AsyncMsg).echoed = m.echoed := by
    simp only [AsyncMsg.echoed, hid, hcookie]
  have hspec := asyncReceived_spec h
  unfold Echoes at hspec ⊢
  rwa [hechoed] at hspec

/-- A completed transmit buffer leaves its queue, and everything else stays. -/
theorem sent_spec {k : ℕ} {doneLen socketFd : ℤ}
    (h : a.step (.sent k doneLen socketFd) = some a') :
    a.rxVirtqueue <+: a'.rxVirtqueue ∧ a'.txVirtqueue = a.txVirtqueue.eraseIdx k := by
  obtain ⟨⟨m, queue⟩, hget, hsent⟩ := Option.bind_eq_some_iff.mp h
  obtain ⟨m₀, -, hm⟩ := Option.bind_eq_some_iff.mp hget
  obtain ⟨rfl, rfl⟩ := Prod.mk.inj (Option.some.inj hm)
  exact asyncSent_spec hsent

/-! ### Payloads of a socket -/

variable {buf : ℕ × ℕ → List UInt8} {used : List AsyncMsg} {socket : ℤ}

theorem receivedOn_append (l l' : List (ℤ × List UInt8)) (socket : ℤ) :
    receivedOn (l ++ l') socket = receivedOn l socket ++ receivedOn l' socket := by
  rw [receivedOn, List.filter_append, List.map_append]
  rfl

theorem queuedOn_append (l l' : List Queued) (socket : ℤ) :
    queuedOn (l ++ l') socket = queuedOn l socket ++ queuedOn l' socket := by
  rw [queuedOn, List.filter_append, List.map_append]
  rfl

theorem pendingOn_append (buf : ℕ × ℕ → List UInt8) (l l' : List AsyncMsg) (socket : ℤ) :
    pendingOn buf (l ++ l') socket = pendingOn buf l socket ++ pendingOn buf l' socket := by
  rw [pendingOn, List.filter_append, List.map_append]
  rfl

theorem mem_receivedOn {l : List (ℤ × List UInt8)} {bytes : List UInt8}
    (h : bytes ∈ receivedOn l socket) : (socket, bytes) ∈ l := by
  obtain ⟨⟨fd, b⟩, hmem, rfl⟩ := List.mem_map.mp h
  obtain ⟨hl, hfd⟩ := List.mem_filter.mp hmem
  obtain rfl : fd = socket := of_decide_eq_true hfd
  exact hl

theorem mem_queuedOn {l : List Queued} {q : Queued} (h : q ∈ l) :
    q.payload ∈ queuedOn l q.msg.msg.socketFd :=
  List.mem_map_of_mem (List.mem_filter.mpr ⟨h, decide_eq_true rfl⟩)

theorem payload_update_of_ne {key : ℕ × ℕ} (h : m.key ≠ key) (bytes : List UInt8) (len : ℤ) :
    payload (Function.update buf key bytes) m len = payload buf m len := by
  rw [payload, Function.update_of_ne h]
  rfl

/-- Filling a buffer that is not on the used ring changes no payload there. -/
theorem pendingOn_update {key : ℕ × ℕ} (h : key ∉ used.map AsyncMsg.key) (bytes : List UInt8)
    (socket : ℤ) : pendingOn (Function.update buf key bytes) used socket =
      pendingOn buf used socket := by
  apply List.map_congr_left
  intro m hm
  have hne : m.key ≠ key := fun heq =>
    h (heq ▸ List.mem_map_of_mem (List.mem_filter.mp hm).1)
  exact payload_update_of_ne hne bytes _

/-- The payload at the head of the used ring becomes a queued payload. -/
theorem pendingOn_cons (h : m.msg.doneLen ≠ -1) :
    pendingOn buf (m :: used) socket =
      queuedOn [⟨m.echoed, payload buf m m.msg.doneLen⟩] socket ++
        pendingOn buf used socket := by
  rw [← List.singleton_append, pendingOn_append]
  congr 1
  unfold pendingOn queuedOn
  by_cases hfd : m.msg.socketFd = socket
  · simp [AsyncMsg.echoed, hfd, h]
  · simp [AsyncMsg.echoed, hfd]

/-- The payload at the head of the used ring is dropped. -/
theorem pendingOn_sublist_cons (buf : ℕ × ℕ → List UInt8) (m : AsyncMsg) (used : List AsyncMsg)
    (socket : ℤ) : (pendingOn buf used socket).Sublist (pendingOn buf (m :: used) socket) :=
  ((List.sublist_cons_self m used).filter _).map _

/-- A buffer that is filled carries the bytes that were received. -/
theorem payload_fill (m : AsyncMsg) (bytes old : List UInt8) :
    payload (Function.update buf m.key (bytes ++ old)) m bytes.length = bytes := by
  rw [payload, Function.update_self, Int.toNat_natCast, List.take_left]

/-! ### The invariant -/

/-- No buffer is made twice. -/
theorem nodup_allBufs : allBufs.Nodup := by
  have hinj : ∀ cookie : ℕ, Function.Injective fun id : ℕ => (id, cookie) :=
    fun cookie i j h => congrArg Prod.fst h
  apply List.Nodup.append
  · exact List.nodup_range.map (hinj _)
  · exact List.Nodup.map (hinj _) List.nodup_range'
  · intro key htcp hudp
    obtain ⟨i, -, rfl⟩ := List.mem_map.mp htcp
    obtain ⟨j, -, hj⟩ := List.mem_map.mp hudp
    have hcookie : udpSocketsAsyncId = tcpSocketsAsyncId := congrArg Prod.snd hj
    exact absurd hcookie (by decide)

/-- A buffer that is lent for receiving is not on the transmit queue. -/
theorem Holds.key_ne {m' : AsyncMsg} (h : Holds a []) (hm : m ∈ a.rxVirtqueue)
    (hm' : m' ∈ a.txVirtqueue) : m'.key ≠ m.key := by
  have hnodup : a.placed.Nodup := (List.Perm.nodup_iff h).mpr nodup_allBufs
  have hqueues := (List.nodup_append.mp hnodup).2.1
  have hne := (List.nodup_append.mp hqueues).2.2
  exact (hne _ (List.mem_map_of_mem hm) _ (List.mem_map_of_mem hm')).symm

/-- Where the payloads are, and that they keep their sockets. -/
structure Attributed (t : Transfer) : Prop where
  holds : Holds t.async []
  -- buffers wait on the used ring once, and are lent until they are taken
  nodup : (t.rxUsed.map AsyncMsg.key).Nodup
  lent : ∀ m ∈ t.rxUsed, m.key ∈ t.async.rxVirtqueue.map AsyncMsg.key
  filled : ∀ m ∈ t.rxUsed, m.msg.doneLen ≠ -1 →
    m.msg.doneLen = (payload t.buf m m.msg.doneLen).length
  order : ∀ socket, (queuedOn t.queued socket ++ pendingOn t.buf t.rxUsed socket).Sublist
    (receivedOn t.received socket)
  lengths : ∀ q ∈ t.queued, q.msg.msg.totalLen = q.payload.length ∧ q.msg.msg.doneLen = 0
  carried : ∀ m ∈ t.async.txVirtqueue, ⟨m, payload t.buf m m.msg.totalLen⟩ ∈ t.queued

variable {t t' : Transfer} {rest : List AsyncMsg}

/-- After the setup nothing has been received and nothing is queued. -/
theorem attributed_start (h : Holds a []) (buf : ℕ × ℕ → List UInt8) (htx : a.txVirtqueue = []) :
    Attributed (Transfer.start a buf) where
  holds := h
  nodup := List.nodup_nil
  lent := fun _ hm => absurd hm List.not_mem_nil
  filled := fun _ hm => absurd hm List.not_mem_nil
  order := fun _ => List.Sublist.refl []
  lengths := fun _ hq => absurd hq List.not_mem_nil
  carried := fun _ hm => absurd (htx ▸ hm) List.not_mem_nil

/-! ### Steps -/

/-- A buffer that has just been completed waits on the used ring. -/
theorem Attributed.used_concat (h : Attributed t) (hm : m ∈ t.async.rxVirtqueue)
    (hfree : m.key ∉ t.rxUsed.map AsyncMsg.key) (doneLen : ℤ) :
    ((t.rxUsed ++ [m.complete doneLen]).map AsyncMsg.key).Nodup ∧
      ∀ u ∈ t.rxUsed ++ [m.complete doneLen], u.key ∈ t.async.rxVirtqueue.map AsyncMsg.key := by
  constructor
  · rw [List.map_append, List.nodup_append]
    refine ⟨h.nodup, List.nodup_singleton _, ?_⟩
    intro k hk k' hk' heq
    rw [heq, List.mem_singleton.mp hk'] at hk
    exact hfree hk
  · have hkey : m.key ∈ t.async.rxVirtqueue.map AsyncMsg.key := List.mem_map_of_mem hm
    simp only [List.forall_mem_append, List.forall_mem_singleton]
    exact ⟨h.lent, hkey⟩

/-- PicoServer completes a buffer with bytes of the buffer's socket. -/
theorem Attributed.complete (h : Attributed t) (hm : m ∈ t.async.rxVirtqueue)
    (hfree : m.key ∉ t.rxUsed.map AsyncMsg.key) (result : Option (List UInt8)) :
    Attributed (t.complete m result) := by
  cases result with
  | none =>
    obtain ⟨hnodup, hlent⟩ := h.used_concat hm hfree (-1)
    refine ⟨h.holds, hnodup, hlent, ?_, ?_, h.lengths, h.carried⟩
    · show ∀ u ∈ t.rxUsed ++ [m.complete (-1)], _
      simp only [List.forall_mem_append, List.forall_mem_singleton]
      exact ⟨h.filled, fun hne => absurd rfl hne⟩
    · intro socket
      have hnone : pendingOn t.buf [m.complete (-1)] socket = [] := by
        simp [pendingOn, AsyncMsg.complete]
      show (_ ++ pendingOn t.buf (t.rxUsed ++ [m.complete (-1)]) socket).Sublist _
      rw [pendingOn_append, hnone, List.append_nil]
      exact h.order socket
  | some bytes =>
    obtain ⟨hnodup, hlent⟩ := h.used_concat hm hfree bytes.length
    let buf := Function.update t.buf m.key (bytes ++ (t.buf m.key).drop bytes.length)
    have hbuf : ∀ u : AsyncMsg, u.key ≠ m.key → ∀ len, payload buf u len = payload t.buf u len :=
      fun u hu len => payload_update_of_ne hu _ len
    have hfill : payload buf (m.complete bytes.length) bytes.length = bytes := payload_fill m _ _
    refine ⟨h.holds, hnodup, hlent, ?_, ?_, h.lengths, ?_⟩
    · show ∀ u ∈ t.rxUsed ++ [m.complete bytes.length], u.msg.doneLen ≠ -1 →
        u.msg.doneLen = (payload buf u u.msg.doneLen).length
      simp only [List.forall_mem_append, List.forall_mem_singleton]
      constructor
      · intro u hu hne
        rw [hbuf u fun heq => hfree (heq ▸ List.mem_map_of_mem hu)]
        exact h.filled u hu hne
      · intro _
        show (bytes.length : ℤ) = (payload buf (m.complete bytes.length) bytes.length).length
        rw [hfill]
    · intro socket
      have hnew : pendingOn buf [m.complete bytes.length] socket =
          receivedOn [(m.msg.socketFd, bytes)] socket := by
        have hne : (bytes.length : ℤ) ≠ -1 := by omega
        unfold pendingOn receivedOn
        by_cases hfd : m.msg.socketFd = socket
        · simp [AsyncMsg.complete, hfd, hne]
          exact hfill
        · simp [AsyncMsg.complete, hfd]
      show (_ ++ pendingOn buf (t.rxUsed ++ [m.complete bytes.length]) socket).Sublist
        (receivedOn (t.received ++ [(m.msg.socketFd, bytes)]) socket)
      rw [pendingOn_append, pendingOn_update hfree, hnew, receivedOn_append, ← List.append_assoc]
      exact (h.order socket).append (List.Sublist.refl _)
    · intro u hu
      show ⟨u, payload buf u u.msg.totalLen⟩ ∈ t.queued
      rw [hbuf u (h.holds.key_ne hm hu)]
      exact h.carried u hu

/-- The payload at the head of the used ring may be dropped. -/
theorem Attributed.drop (h : Attributed t) (hused : t.rxUsed = m :: rest) :
    Attributed { t with rxUsed := rest } := by
  have hmem : ∀ u ∈ rest, u ∈ t.rxUsed := fun u hu => hused ▸ List.mem_cons_of_mem m hu
  have hnodup := h.nodup
  rw [hused] at hnodup
  refine ⟨h.holds, hnodup.of_cons, fun u hu => h.lent u (hmem u hu),
    fun u hu => h.filled u (hmem u hu), ?_, h.lengths, h.carried⟩
  intro socket
  have horder := h.order socket
  rw [hused] at horder
  exact ((List.Sublist.refl _).append (pendingOn_sublist_cons _ _ _ _)).trans horder

/-- The component may move buffers that are not on the used ring. -/
theorem Attributed.move (h : Attributed t) (hholds : Holds a' [])
    (hlent : ∀ u ∈ t.rxUsed, u.key ∈ a'.rxVirtqueue.map AsyncMsg.key)
    (htx : ∀ u ∈ a'.txVirtqueue, u ∈ t.async.txVirtqueue) : Attributed { t with async := a' } :=
  ⟨hholds, h.nodup, hlent, h.filled, h.order, h.lengths, fun u hu => h.carried u (htx u hu)⟩

/-- The payload at the head of the used ring may be queued. -/
theorem Attributed.echo (h : Attributed t) (hused : t.rxUsed = m :: rest)
    (hne : m.msg.doneLen ≠ -1) (hholds : Holds a' [])
    (hlent : ∀ u ∈ rest, u.key ∈ a'.rxVirtqueue.map AsyncMsg.key)
    (htx : a'.txVirtqueue = t.async.txVirtqueue ++ [m.echoed]) :
    Attributed { t with
      async := a'
      rxUsed := rest
      queued := t.queued ++ [⟨m.echoed, payload t.buf m m.msg.doneLen⟩] } := by
  have hrest := h.drop hused
  have hhead : m ∈ t.rxUsed := by
    rw [hused]
    exact List.mem_cons_self
  refine ⟨hholds, hrest.nodup, hlent, hrest.filled, ?_, ?_, ?_⟩
  · intro socket
    have horder := h.order socket
    rw [hused, pendingOn_cons hne, ← List.append_assoc, ← queuedOn_append] at horder
    exact horder
  · simp only [List.forall_mem_append, List.forall_mem_singleton]
    exact ⟨h.lengths, h.filled m hhead hne, rfl⟩
  · show ∀ u ∈ a'.txVirtqueue, _
    rw [htx]
    simp only [List.forall_mem_append, List.forall_mem_singleton]
    exact ⟨fun u hu => List.mem_append_left _ (h.carried u hu),
      List.mem_append_right _ (List.mem_singleton.mpr rfl)⟩

/-- A step of the component that puts `new` on the transmit queue. -/
theorem run_spec {e : AsyncEvent} (h : t.run e = some t') :
    ∃ a', t.async.step e = some a' ∧ ∀ new, a'.txVirtqueue = t.async.txBefore e ++ new →
      t' = { t with
        async := a'
        queued := t.queued ++ new.map fun m => ⟨m, payload t.buf m m.msg.totalLen⟩ } := by
  obtain ⟨a', hstep, ht'⟩ := Option.bind_eq_some_iff.mp h
  refine ⟨a', hstep, fun new hnew => ?_⟩
  have hdrop : a'.txVirtqueue.drop (t.async.txBefore e).length = new := by
    rw [hnew, List.drop_left]
  simp only [hdrop, Option.some.injEq] at ht'
  exact ht'.symm

/-- A step of the component that puts nothing on the transmit queue. -/
theorem run_of_eq {e : AsyncEvent} (h : t.run e = some t') (hstep : t.async.step e = some a')
    (htx : a'.txVirtqueue = t.async.txBefore e) : t' = { t with async := a' } := by
  obtain ⟨b, hb, hspec⟩ := run_spec h
  obtain rfl := Option.some.inj (hstep.symm.trans hb)
  have ht' := hspec [] (by rw [htx, List.append_nil])
  rwa [List.map_nil, List.append_nil] at ht'

/-- A notification sends nothing. -/
theorem Attributed.notification (h : Attributed t) {e : PicoserverEvent}
    (hrun : t.run (.notification e) = some t') : Attributed t' := by
  obtain ⟨a', hstep, -⟩ := run_spec hrun
  have hholds := preserves_holds.of_step (e := .notification e) h.holds trivial hstep
  have hkeeps := keeps_notification hstep
  rw [run_of_eq hrun hstep hkeeps.2]
  apply h.move hholds
  · exact fun u hu => (hkeeps.1.map AsyncMsg.key).subset (h.lent u hu)
  · exact fun u hu => hkeeps.2 ▸ hu

/-- A buffer that comes back from the transmit queue sends nothing. -/
theorem Attributed.sent (h : Attributed t) {k : ℕ} {doneLen socketFd : ℤ}
    (hk : k < t.async.txVirtqueue.length)
    (hrun : t.run (.sent k doneLen socketFd) = some t') : Attributed t' := by
  obtain ⟨a', hstep, -⟩ := run_spec hrun
  have hholds := preserves_holds.of_step (e := .sent k doneLen socketFd) h.holds hk hstep
  obtain ⟨hrx, htx⟩ := sent_spec hstep
  rw [run_of_eq hrun hstep htx]
  apply h.move hholds
  · exact fun u hu => (hrx.map AsyncMsg.key).subset (h.lent u hu)
  · intro u hu
    rw [htx] at hu
    exact List.mem_of_mem_eraseIdx hu

/-- A completed buffer is queued with the socket and the bytes it was completed with. -/
theorem Attributed.received (h : Attributed t) (hused : t.rxUsed = m :: rest) {k : ℕ}
    {m₀ : AsyncMsg} (hget : t.async.rxVirtqueue[k]? = some m₀) (hkey : m₀.key = m.key)
    (hrun : { t with rxUsed := rest }.run (.received k m.msg.doneLen m.msg.socketFd) = some t') :
    Attributed t' := by
  have hnodup := h.nodup
  rw [hused, List.map_cons, List.nodup_cons] at hnodup
  obtain ⟨a', hstep, hspec⟩ := run_spec hrun
  have hholds : Holds a' [] :=
    preserves_holds.of_step (e := .received k m.msg.doneLen m.msg.socketFd) h.holds
      (List.getElem?_eq_some_iff.mp hget).1 hstep
  obtain ⟨a₁, hrx₁, htx₁, hechoes⟩ := received_spec hget hkey hstep
  -- the buffers that wait behind `m` are still lent
  have hlent : ∀ u ∈ rest, u.key ∈ a₁.rxVirtqueue.map AsyncMsg.key := by
    intro u hu
    rw [hrx₁]
    apply mem_map_eraseIdx hget (h.lent u (hused ▸ List.mem_cons_of_mem m hu))
    intro heq
    rw [hkey] at heq
    exact hnodup.1 (heq ▸ List.mem_map_of_mem hu)
  rcases hechoes with hkeeps | ⟨hne, hrx, htx⟩
  · have htx : a'.txVirtqueue = t.async.txVirtqueue := hkeeps.2.trans htx₁
    rw [run_of_eq hrun hstep htx]
    apply (h.drop hused).move hholds
    · exact fun u hu => (hkeeps.1.map AsyncMsg.key).subset (hlent u hu)
    · exact fun u hu => htx ▸ hu
  · rw [htx₁] at htx
    rw [hspec [m.echoed] htx]
    exact h.echo hused hne hholds (fun u hu => hrx ▸ hlent u hu) htx

/-- Every step keeps the payloads attributed. -/
theorem attributed_step {e : TransferEvent} (h : Attributed t) (hok : transferMachine.ok t e)
    (hstep : t.step e = some t') : Attributed t' := by
  cases e with
  | notification e => exact h.notification hstep
  | complete k result =>
    obtain ⟨m, hget, hm⟩ := Option.bind_eq_some_iff.mp hstep
    obtain rfl := Option.some.inj hm
    obtain ⟨m', hget', hfree⟩ := hok
    obtain rfl := Option.some.inj (hget.symm.trans hget')
    exact h.complete (List.mem_of_getElem? hget) hfree result
  | received =>
    cases hused : t.rxUsed with
    | nil =>
      simp only [Transfer.step, hused] at hstep
      exact Option.some.inj hstep ▸ h
    | cons m rest =>
      have hhead : m ∈ t.rxUsed := by
        rw [hused]
        exact List.mem_cons_self
      obtain ⟨m₀, hget, hkey⟩ := getElem?_findIdx (h.lent m hhead)
      simp only [Transfer.step, hused] at hstep
      exact h.received hused hget hkey hstep
  | sent k doneLen =>
    obtain ⟨m, -, hrun⟩ := Option.bind_eq_some_iff.mp hstep
    exact h.sent hok hrun

/-! ### Runs -/

theorem txVirtqueue_setup {utilizSocket socketIn udpSocket : ℤ}
    (h : setup utilizSocket socketIn udpSocket = some a) : a.txVirtqueue = [] := by
  simp only [setup, Option.bind_eq_bind, Option.bind_eq_some_iff, Option.some.injEq] at h
  obtain ⟨queue, -, rfl⟩ := h
  rfl

/-- **Payload attribution**: in every run, every message that is put on the transmit queue carries
bytes received on the socket it is tagged with, with their number for its `total_len` and a
`done_len` of 0; it still carries them while it is on the queue; and the payloads queued for a
socket are in the order in which they were received. -/
theorem payloads_attributed {utilizSocket socketIn udpSocket : ℤ} {a₀ : Async}
    {buf : ℕ × ℕ → List UInt8} {ts : List (Transition Transfer TransferEvent)} {t : Transfer}
    (hsetup : setup utilizSocket socketIn udpSocket = some a₀)
    (hrun : transferMachine.Run (Transfer.start a₀ buf) ts t) :
    (∀ q ∈ t.queued, (q.msg.msg.socketFd, q.payload) ∈ t.received ∧
      q.msg.msg.totalLen = q.payload.length ∧ q.msg.msg.doneLen = 0) ∧
    (∀ m ∈ t.async.txVirtqueue, ⟨m, payload t.buf m m.msg.totalLen⟩ ∈ t.queued) ∧
    ∀ socket, (queuedOn t.queued socket).Sublist (receivedOn t.received socket) := by
  have h₀ := attributed_start (holds_setup hsetup) buf (txVirtqueue_setup hsetup)
  have h := hrun.invariant h₀ fun _ _ _ => attributed_step
  have horder : ∀ socket, (queuedOn t.queued socket).Sublist (receivedOn t.received socket) :=
    fun socket => (List.sublist_append_left _ _).trans (h.order socket)
  refine ⟨fun q hq => ⟨?_, h.lengths q hq⟩, h.carried, horder⟩
  exact mem_receivedOn ((horder _).subset (mem_queuedOn hq))

/-- The component after its setup. -/
def asyncStart : Async where
  app := {
    utilizSocket := 1
    peerSocket := -1
    socketIn := 2
    tcpEchoClient := 0
    rxBufPool := setupTcpBufs numTcpBufs
    echoRecvBuf := List.replicate 0x1000 0 }
  rxVirtqueue := (List.range (numUdpBufs - 1)).map (udpBuf 3)
  txVirtqueue := []

/-- The component after a client has connected on socket 7. -/
def Async.conn (a : Async) : Async where
  app := { a.app with tcpEchoClient := 7, rxBufPool := [] }
  rxVirtqueue := a.rxVirtqueue ++ a.app.rxBufPool.map (refilled 7)
  txVirtqueue := a.txVirtqueue

theorem Holds.step_conn (h : Holds a []) : a.step (.notification connEvent) = some a.conn := by
  let a₁ : Async := { a with app := a.conn.app }
  have hholds : Holds a₁ (a.app.rxBufPool.map poolKey) := by
    apply h.of_count
    intro b
    simp only [count_placed, List.count_nil, a₁, Async.conn, List.map_nil]
    omega
  show performCalls a₁ (PicotcpTcpEcho.refill 7 a.app.rxBufPool ++ [] ++ []) = _
  rw [List.append_nil, List.append_nil]
  exact (hholds.refill 7).1

theorem setup_asyncStart : setup 1 2 3 = some asyncStart := setup_eq 1 2 3

theorem step_conn (h : Holds t.async []) :
    t.step (.notification connEvent) = some { t with async := t.async.conn } := by
  simp only [Transfer.step, Transfer.run, h.step_conn, Option.bind_eq_bind, Option.bind_some,
    Async.txBefore, Async.conn, List.drop_length, List.map_nil, List.append_nil]

/-- The client sends five bytes, which are handled before and after a second client connects on
socket 8. -/
def twoClients : List TransferEvent :=
  [.complete 509 (some [104, 101]), .complete 510 (some [108, 108, 111]), .received,
    .notification { connEvent with replies := { connEvent.replies with accept := 8 } }, .received,
    .sent 0 2]

theorem payloads_attributed_twoClients : ∃ a₀ ts t, setup 1 2 3 = some a₀ ∧
    transferMachine.Run (Transfer.start a₀ fun _ => []) ts t ∧
    events ts = .notification connEvent :: twoClients ∧
    t.queued.map Queued.payload = [[104, 101]] ∧
    ∀ socket, (queuedOn t.queued socket).Sublist (receivedOn t.received socket) := by
  let t₀ := Transfer.start asyncStart fun _ => []
  have hconn : transferMachine.step t₀ (.notification connEvent) =
      some { t₀ with async := asyncStart.conn } := step_conn (holds_setup setup_asyncStart)
  obtain ⟨ts, t, hrun, hevents, hqueued⟩ := exists_run_of_exec transferMachine
    { t₀ with async := asyncStart.conn } twoClients
    (fun r => r.2.queued.map Queued.payload = [[104, 101]]) (by decide +kernel)
  have hrun' := Run.append (Run.snoc Run.nil trivial hconn) hrun
  refine ⟨asyncStart, _, t, setup_asyncStart, hrun', ?_, of_decide_eq_true hqueued,
    (payloads_attributed setup_asyncStart hrun').2.2⟩
  rw [events_append, hevents]
  rfl

end Camkes.PicotcpTcpEcho
