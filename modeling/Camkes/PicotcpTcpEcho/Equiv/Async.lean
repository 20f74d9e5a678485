import Camkes.PicotcpTcpEcho.Async
import Mathlib.Data.List.Count
import Mathlib.Data.List.Nodup
import Mathlib.Data.List.Perm.Basic

/-!
# The Echo component loses no buffer

`Async.placed` lists the buffers in all places.  `Holds a held` says that they are, together with
the buffers `held` that a handler has in hand, the buffers made at setup.  Every handler takes one
buffer in hand and puts it into one place; then there is room for it, as all buffers together fit on
one virtqueue, and those of the TCP server fit in the pool.
-/

namespace Camkes.PicotcpTcpEcho

open Machine

/-! ### Places -/

/-- The buffers of the two servers. -/
def allBufs : List (ℕ × ℕ) :=
  (List.range numTcpBufs).map (·, tcpSocketsAsyncId) ++
    (List.range' numTcpBufs (numUdpBufs - 1)).map (·, udpSocketsAsyncId)

/-- A pooled buffer; the pool has buffers of the TCP server only. -/
def poolKey (msg : TxMsg) : ℕ × ℕ := (msg.id, tcpSocketsAsyncId)

/-- The buffers in the pool and on the virtqueues. -/
def Async.placed (a : Async) : List (ℕ × ℕ) :=
  a.app.rxBufPool.map poolKey ++ (a.rxVirtqueue.map AsyncMsg.key ++ a.txVirtqueue.map AsyncMsg.key)

/-- The buffers in all places and those in hand are the buffers made at setup. -/
def Holds (a : Async) (held : List (ℕ × ℕ)) : Prop := (held ++ a.placed).Perm allBufs

variable {a a' : Async} {held : List (ℕ × ℕ)} {m : AsyncMsg}

theorem length_allBufs : allBufs.length = 1019 := by
  rw [allBufs, List.length_append, List.length_map, List.length_map, List.length_range,
    List.length_range']
  rfl

theorem countP_tcp_allBufs : allBufs.countP (·.2 = tcpSocketsAsyncId) = numTcpBufs := by
  have htcp : ∀ l : List ℕ, (l.map (·, tcpSocketsAsyncId)).countP (·.2 = tcpSocketsAsyncId) =
      l.length := by
    intro l
    rw [List.countP_map]
    exact List.countP_eq_length.mpr fun _ _ => by simp
  have hudp : ∀ l : List ℕ, (l.map (·, udpSocketsAsyncId)).countP (·.2 = tcpSocketsAsyncId) =
      0 := by
    intro l
    rw [List.countP_map]
    exact List.countP_eq_zero.mpr fun _ _ => by simp [udpSocketsAsyncId, tcpSocketsAsyncId]
  rw [allBufs, List.countP_append, htcp, hudp, List.length_range, Nat.add_zero]

/-- All buffers together fit on one virtqueue. -/
theorem Holds.length_eq (h : Holds a held) :
    held.length + (a.app.rxBufPool.length + (a.rxVirtqueue.length + a.txVirtqueue.length)) =
      1019 := by
  have hlen := List.Perm.length_eq h
  rw [length_allBufs] at hlen
  simpa only [Async.placed, List.length_append, List.length_map] using hlen

/-- The buffers of the TCP server fit in the pool. -/
theorem Holds.length_pool_le (h : Holds a held) :
    held.countP (·.2 = tcpSocketsAsyncId) + a.app.rxBufPool.length ≤ numTcpBufs := by
  have hcount := List.Perm.countP_eq (·.2 = tcpSocketsAsyncId) h
  have hpool : (a.app.rxBufPool.map poolKey).countP (·.2 = tcpSocketsAsyncId) =
      a.app.rxBufPool.length := by
    rw [List.countP_map]
    exact List.countP_eq_length.mpr fun _ _ => by simp [poolKey]
  rw [countP_tcp_allBufs, List.countP_append, Async.placed, List.countP_append, hpool] at hcount
  omega

theorem count_placed (a : Async) (b : ℕ × ℕ) :
    a.placed.count b = (a.app.rxBufPool.map poolKey).count b +
      ((a.rxVirtqueue.map AsyncMsg.key).count b + (a.txVirtqueue.map AsyncMsg.key).count b) := by
  rw [Async.placed, List.count_append, List.count_append]

/-- Buffers that only change places are still all there. -/
theorem Holds.of_count {held' : List (ℕ × ℕ)} (h : Holds a held)
    (hcount : ∀ b, held'.count b + a'.placed.count b = held.count b + a.placed.count b) :
    Holds a' held' := by
  apply List.Perm.trans _ h
  rw [List.perm_iff_count]
  intro b
  rw [List.count_append, List.count_append]
  exact hcount b

/-! ### Putting a buffer down -/

/-- There is room on the virtqueues for a buffer in hand. -/
theorem Holds.length_lt (h : Holds a (m.key :: held)) :
    a.rxVirtqueue.length < picotcpSocketAsyncQueueLen ∧
      a.txVirtqueue.length < picotcpSocketAsyncQueueLen := by
  have hlen := h.length_eq
  rw [List.length_cons] at hlen
  unfold picotcpSocketAsyncQueueLen
  omega

theorem count_map_concat (queue : List AsyncMsg) (m : AsyncMsg) (b : ℕ × ℕ) :
    ((queue ++ [m]).map AsyncMsg.key).count b =
      (queue.map AsyncMsg.key).count b + [m.key].count b := by
  rw [List.map_append, List.count_append]
  rfl

theorem count_cons_eq (b k : ℕ × ℕ) (keys : List (ℕ × ℕ)) :
    (k :: keys).count b = keys.count b + [k].count b := by
  rw [← List.singleton_append, List.count_append, Nat.add_comm]

theorem virtqueueAddAvailableBuf_of_lt {queue : List AsyncMsg}
    (h : queue.length < picotcpSocketAsyncQueueLen) (m : AsyncMsg) :
    virtqueueAddAvailableBuf queue m = some (queue ++ [m]) :=
  if_pos h

/-- A buffer in hand fits on the receive queue. -/
theorem Holds.addRx (h : Holds a (m.key :: held)) :
    a.addRx m = some { a with rxVirtqueue := a.rxVirtqueue ++ [m] } ∧
      Holds { a with rxVirtqueue := a.rxVirtqueue ++ [m] } held := by
  constructor
  · rw [Async.addRx, virtqueueAddAvailableBuf_of_lt h.length_lt.1]
    rfl
  · apply h.of_count
    intro b
    simp only [count_placed, count_map_concat, count_cons_eq b m.key held]
    omega

/-- A buffer in hand fits on the transmit queue. -/
theorem Holds.addTx (h : Holds a (m.key :: held)) :
    a.addTx m = some { a with txVirtqueue := a.txVirtqueue ++ [m] } ∧
      Holds { a with txVirtqueue := a.txVirtqueue ++ [m] } held := by
  constructor
  · rw [Async.addTx, virtqueueAddAvailableBuf_of_lt h.length_lt.2]
    rfl
  · apply h.of_count
    intro b
    simp only [count_placed, count_map_concat, count_cons_eq b m.key held]
    omega

/-- A buffer of the TCP server in hand fits in the pool. -/
theorem Holds.pool (h : Holds a [m.key]) (hm : m.clientCookie = tcpSocketsAsyncId) :
    ∃ a', a.pool m = some a' ∧ Holds a' [] := by
  have hle := h.length_pool_le
  have hkey : poolKey m.msg = m.key := by
    rw [poolKey, AsyncMsg.key, hm]
  have hone : [m.key].countP (·.2 = tcpSocketsAsyncId) = 1 := by
    rw [List.countP_singleton]
    exact if_pos (decide_eq_true hm)
  have hroom : a.app.rxBufPool.length < numTcpBufs := by omega
  refine ⟨_, if_pos hroom, h.of_count fun b => ?_⟩
  simp only [count_placed, List.map_cons, hkey, count_cons_eq b m.key (List.map _ _),
    List.count_nil]
  omega

/-! ### Taking a buffer -/

theorem count_map_eraseIdx {queue : List AsyncMsg} {k : ℕ} (h : queue[k]? = some m)
    (b : ℕ × ℕ) : (queue.map AsyncMsg.key).count b =
      (m.key :: (queue.eraseIdx k).map AsyncMsg.key).count b := by
  obtain ⟨hk, hget⟩ := List.getElem?_eq_some_iff.mp h
  have hperm : (m :: queue.eraseIdx k).Perm queue := by
    rw [← hget]
    exact List.getElem_cons_eraseIdx_perm hk
  rw [← List.map_cons]
  exact (List.Perm.count_eq (hperm.map AsyncMsg.key) b).symm

/-- `get_msg_from_queue` takes one buffer from the queue and leaves the others. -/
theorem getMsgFromQueue_spec {queue : List AsyncMsg} {k : ℕ} (hk : k < queue.length)
    (doneLen socketFd : ℤ) :
    ∃ m, getMsgFromQueue queue k doneLen socketFd = some (m, queue.eraseIdx k) ∧
      ∀ b, (queue.map AsyncMsg.key).count b =
        [m.key].count b + ((queue.eraseIdx k).map AsyncMsg.key).count b := by
  obtain ⟨m, hm⟩ : ∃ m, queue[k]? = some m := ⟨_, List.getElem?_eq_getElem hk⟩
  refine ⟨{ m with msg := { m.msg with doneLen, socketFd } }, ?_, ?_⟩
  · unfold getMsgFromQueue
    rw [hm]
    rfl
  · intro b
    rw [count_map_eraseIdx hm, ← List.singleton_append, List.count_append]
    rfl

/-! ### Handlers -/

/-- A buffer in hand that goes back to the receive queue. -/
theorem Holds.exists_addRx (h : Holds a [m.key]) {m' : AsyncMsg} (hkey : m'.key = m.key) :
    ∃ a', a.addRx m' = some a' ∧ Holds a' [] := by
  rw [← hkey] at h
  exact ⟨_, h.addRx⟩

/-- A buffer in hand that goes to the transmit queue. -/
theorem Holds.exists_addTx (h : Holds a [m.key]) {m' : AsyncMsg} (hkey : m'.key = m.key) :
    ∃ a', a.addTx m' = some a' ∧ Holds a' [] := by
  rw [← hkey] at h
  exact ⟨_, h.addTx⟩

theorem Holds.tcpReceivedFor (h : Holds a [m.key]) :
    ∃ a', tcpReceivedFor a m = some a' ∧ Holds a' [] := by
  unfold PicotcpTcpEcho.tcpReceivedFor
  split_ifs
  · exact h.exists_addRx rfl
  · exact h.exists_addTx rfl

/-- A received buffer gets a place again, and there is room for it. -/
theorem Holds.asyncReceived (h : Holds a [m.key])
    (hm : m.clientCookie = tcpSocketsAsyncId ∨ m.clientCookie = udpSocketsAsyncId) :
    ∃ a', asyncReceived a m = some a' ∧ Holds a' [] := by
  unfold PicotcpTcpEcho.asyncReceived udpSocketHandleAsyncReceived tcpSocketHandleAsyncReceived
  split_ifs with hudp hdone htcp hfd hclient
  · exact h.exists_addRx rfl
  · exact h.exists_addTx rfl
  · exact h.pool htcp
  · have hkey : ({ m with msg := { m.msg with socketFd := a.app.tcpEchoClient, doneLen := -1 } } :
        AsyncMsg).key = m.key := rfl
    rw [← hkey] at h
    exact h.tcpReceivedFor
  · exact h.tcpReceivedFor
  · rcases hm with hm | hm
    · exact absurd hm htcp
    · exact absurd hm hudp

/-- A buffer that has been sent gets a place again, and there is room for it. -/
theorem Holds.asyncSent (h : Holds a [m.key])
    (hm : m.clientCookie = tcpSocketsAsyncId ∨ m.clientCookie = udpSocketsAsyncId) :
    ∃ a', asyncSent a m = some a' ∧ Holds a' [] := by
  unfold PicotcpTcpEcho.asyncSent udpSocketHandleAsyncSent tcpSocketHandleAsyncSent
  simp only
  split_ifs with hudp htcp hfd hclient
  · exact h.exists_addRx rfl
  · have hkey : ({ m with msg := { m.msg with totalLen := tcpReadSize, doneLen := 0 } } :
        AsyncMsg).key = m.key := rfl
    rw [← hkey] at h
    exact h.pool htcp
  · exact h.exists_addRx rfl
  · exact h.exists_addRx rfl
  · rcases hm with hm | hm
    · exact absurd hm htcp
    · exact absurd hm hudp

/-- A buffer that is in hand belongs to one of the servers. -/
theorem Holds.cookie (h : Holds a [m.key]) :
    m.clientCookie = tcpSocketsAsyncId ∨ m.clientCookie = udpSocketsAsyncId := by
  have hmem : m.key ∈ allBufs := (List.Perm.mem_iff h).mp (List.mem_cons_self ..)
  rw [allBufs, List.mem_append, List.mem_map, List.mem_map] at hmem
  rcases hmem with ⟨i, -, hi⟩ | ⟨i, -, hi⟩
  · exact Or.inl (congrArg Prod.snd hi).symm
  · exact Or.inr (congrArg Prod.snd hi).symm

/-! ### Notifications -/

theorem performCalls_append (a : Async) (calls more : List Call) :
    performCalls a (calls ++ more) = (performCalls a calls).bind (performCalls · more) := by
  induction calls generalizing a with
  | nil => rfl
  | cons c calls ih =>
    cases c with
    | addAvailableBuf msg =>
      simp only [List.cons_append, performCalls, ih, Option.bind_eq_bind, Option.bind_assoc]
    | _ => exact ih a

/-- A pooled buffer that is lent for a client. -/
def refilled (client : ℤ) (msg : TxMsg) : AsyncMsg :=
  { msg := { msg with totalLen := tcpReadSize, doneLen := 0, socketFd := client }
    clientCookie := tcpSocketsAsyncId }

/-- The pooled buffers all fit on the receive queue. -/
theorem Holds.refill {pool : List TxMsg} (h : Holds a (pool.map poolKey)) (client : ℤ) :
    performCalls a (refill client pool) =
        some { a with rxVirtqueue := a.rxVirtqueue ++ pool.map (refilled client) } ∧
      Holds { a with rxVirtqueue := a.rxVirtqueue ++ pool.map (refilled client) } [] := by
  induction pool generalizing a with
  | nil =>
    simp only [PicotcpTcpEcho.refill, performCalls, List.map_nil, List.append_nil]
    exact ⟨trivial, h⟩
  | cons msg pool ih =>
    have hm : Holds a ((refilled client msg).key :: pool.map poolKey) := h
    obtain ⟨hadd, hrest⟩ := hm.addRx
    have hpool := ih hrest
    simp only [List.append_assoc, List.singleton_append] at hpool
    rw [PicotcpTcpEcho.refill, performCalls, List.map_cons]
    constructor
    · show (a.addRx (refilled client msg)).bind _ = _
      rw [hadd]
      exact hpool.1
    · exact hpool.2

/-- Calls that add no buffer leave the virtqueues alone. -/
theorem performCalls_of_no_add {calls : List Call}
    (h : ∀ c ∈ calls, ∀ msg, c ≠ .addAvailableBuf msg) : performCalls a calls = some a := by
  induction calls with
  | nil => rfl
  | cons c calls ih =>
    have hc := h c (List.mem_cons_self ..)
    have hrest := ih fun d hd => h d (List.mem_cons_of_mem _ hd)
    cases c with
    | addAvailableBuf msg => exact absurd rfl (hc msg)
    | _ => exact hrest

/-- **What a notification does**: a new connection empties the pool into the receive queue; closing
and finishing touch no buffer. -/
theorem handleTcpEchoNotification_spec (s : State) (e : PicoserverEvent) :
    ∃ more, (∀ c ∈ more, ∀ msg, c ≠ .addAvailableBuf msg) ∧
      if e.events.conn then
        (handleTcpEchoNotification s e).1.rxBufPool = [] ∧
          (handleTcpEchoNotification s e).2 = .echoControlAccept e.socketFd ::
            .echoControlSetAsync e.replies.accept ::
              (refill e.replies.accept s.rxBufPool ++ more)
      else
        (handleTcpEchoNotification s e).1.rxBufPool = s.rxBufPool ∧
          (handleTcpEchoNotification s e).2 = more := by
  let close := if e.events.close then [Call.echoControlShutdown e.socketFd] else []
  have hclose : ∀ c ∈ close, ∀ msg, c ≠ .addAvailableBuf msg := by
    intro c hc msg
    simp only [close] at hc
    split_ifs at hc
    · rw [List.mem_singleton.mp hc]
      exact Call.noConfusion
    · cases hc
  have hmore : ∀ client : ℤ, ∀ c ∈ close ++ [Call.echoControlClose client],
      ∀ msg, c ≠ .addAvailableBuf msg := by
    intro client c hc msg
    rcases List.mem_append.mp hc with hc | hc
    · exact hclose c hc msg
    · rw [List.mem_singleton.mp hc]
      exact Call.noConfusion
  unfold handleTcpEchoNotification echoConn
  by_cases hconn : e.events.conn
  · by_cases hfin : e.events.fin
    · refine ⟨close ++ [.echoControlClose e.replies.accept], hmore _, ?_⟩
      simp only [hconn, hfin, if_true, List.cons_append, List.append_assoc, close, and_self]
    · refine ⟨close, hclose, ?_⟩
      simp only [hconn, hfin, if_true, Bool.false_eq_true, if_false, List.cons_append,
        List.append_nil, close, and_self]
  · by_cases hfin : e.events.fin
    · refine ⟨close ++ [.echoControlClose s.tcpEchoClient], hmore _, ?_⟩
      simp only [hconn, hfin, if_true, Bool.false_eq_true, if_false, List.nil_append, close,
        and_self]
    · refine ⟨close, hclose, ?_⟩
      simp only [hconn, hfin, Bool.false_eq_true, if_false, List.nil_append, List.append_nil,
        close, and_self]

/-- A notification never fails and loses no buffer. -/
theorem Holds.notification (h : Holds a []) (e : PicoserverEvent) :
    ∃ a', a.step (.notification e) = some a' ∧ Holds a' [] := by
  obtain ⟨more, hmore, hspec⟩ := handleTcpEchoNotification_spec a.app e
  let a₁ : Async := { a with app := (handleTcpEchoNotification a.app e).1 }
  show ∃ a', performCalls a₁ (handleTcpEchoNotification a.app e).2 = some a' ∧ Holds a' []
  split_ifs at hspec
  · obtain ⟨hpool, hcalls⟩ := hspec
    have h₁ : Holds a₁ (a.app.rxBufPool.map poolKey) := by
      apply h.of_count
      intro b
      simp only [count_placed, a₁, hpool, List.map_nil, List.count_nil]
      omega
    obtain ⟨hrefill, ha'⟩ := h₁.refill e.replies.accept
    refine ⟨_, ?_, ha'⟩
    have hperform := performCalls_append a₁
      (PicotcpTcpEcho.refill e.replies.accept a.app.rxBufPool) more
    rw [hrefill, Option.bind_some, performCalls_of_no_add hmore] at hperform
    rw [hcalls]
    exact hperform
  · obtain ⟨hpool, hcalls⟩ := hspec
    refine ⟨a₁, ?_, ?_⟩
    · rw [hcalls]
      exact performCalls_of_no_add hmore
    · apply h.of_count
      intro b
      simp only [count_placed, a₁, hpool]

/-! ### Setup -/

/-- A buffer that is lent for datagrams. -/
def udpBuf (udpSocket : ℤ) (n : ℕ) : AsyncMsg :=
  { msg :=
      { id := numTcpBufs + n, totalLen := udpReadSize, doneLen := 0, socketFd := udpSocket }
    clientCookie := udpSocketsAsyncId }

/-- The setup loop of the UDP server lends `n` buffers if the queue has room for them. -/
theorem setupUdpBufs_eq (udpSocket : ℤ) {n : ℕ} (h : n ≤ picotcpSocketAsyncQueueLen) :
    setupUdpBufs udpSocket n = some ((List.range n).map (udpBuf udpSocket)) := by
  induction n with
  | zero => rfl
  | succ n ih =>
    have hlen : ((List.range n).map (udpBuf udpSocket)).length < picotcpSocketAsyncQueueLen := by
      rw [List.length_map, List.length_range]
      omega
    rw [setupUdpBufs, ih (by omega), List.range_succ, List.map_append]
    exact virtqueueAddAvailableBuf_of_lt hlen (udpBuf udpSocket n)

theorem map_udpBuf (udpSocket : ℤ) (n : ℕ) :
    ((List.range n).map (udpBuf udpSocket)).map AsyncMsg.key =
      (List.range' numTcpBufs n).map (·, udpSocketsAsyncId) := by
  rw [List.range'_eq_map_range, List.map_map, List.map_map]
  rfl

theorem map_setupTcpBufs (n : ℕ) :
    (setupTcpBufs n).map poolKey = ((List.range n).map (·, tcpSocketsAsyncId)).reverse := by
  induction n with
  | zero => rfl
  | succ n ih =>
    rw [setupTcpBufs, List.map_cons, ih, List.range_succ, List.map_append, List.reverse_append]
    rfl

/-- `setup` succeeds, with all buffers of the UDP server on the receive queue and those of the TCP
server in the pool. -/
theorem setup_eq (utilizSocket socketIn udpSocket : ℤ) :
    setup utilizSocket socketIn udpSocket = some {
      app := {
        utilizSocket
        peerSocket := -1
        socketIn
        tcpEchoClient := 0
        rxBufPool := setupTcpBufs numTcpBufs
        echoRecvBuf := List.replicate 0x1000 0 }
      rxVirtqueue := (List.range (numUdpBufs - 1)).map (udpBuf udpSocket)
      txVirtqueue := [] } := by
  have hle : numUdpBufs - 1 ≤ picotcpSocketAsyncQueueLen := by decide
  rw [setup, setupUdpBufs_eq udpSocket hle]
  rfl

/-- The setup does not fail and gives every buffer its first place. -/
theorem setup_spec (utilizSocket socketIn udpSocket : ℤ) :
    ∃ a, setup utilizSocket socketIn udpSocket = some a ∧ Holds a [] ∧
      a.rxVirtqueue.length = numUdpBufs - 1 := by
  refine ⟨_, setup_eq utilizSocket socketIn udpSocket, ?_, ?_⟩
  · unfold Holds Async.placed
    simp only [List.nil_append, List.map_nil, List.append_nil, map_udpBuf, map_setupTcpBufs]
    exact (List.reverse_perm _).append_right _
  · rw [List.length_map, List.length_range]

theorem holds_setup {utilizSocket socketIn udpSocket : ℤ}
    (h : setup utilizSocket socketIn udpSocket = some a) : Holds a [] := by
  obtain ⟨b, hb, hholds, -⟩ := setup_spec utilizSocket socketIn udpSocket
  obtain rfl := Option.some.inj (h.symm.trans hb)
  exact hholds

/-! ### The machine -/

/-- Every event keeps every buffer in exactly one place. -/
theorem preserves_holds : asyncMachine.Preserves fun a => Holds a [] := by
  intro a e h hok
  cases e with
  | notification e => exact h.notification e
  | sent k doneLen socketFd =>
    obtain ⟨m, hget, hcount⟩ := getMsgFromQueue_spec hok doneLen socketFd
    have hheld : Holds { a with txVirtqueue := a.txVirtqueue.eraseIdx k } [m.key] := by
      apply h.of_count
      intro b
      simp only [count_placed, hcount b, List.count_nil]
      omega
    obtain ⟨a', hsent, ha'⟩ := hheld.asyncSent hheld.cookie
    refine ⟨a', ?_, ha'⟩
    show a.step (.sent k doneLen socketFd) = _
    simp only [Async.step, hget, Option.bind_eq_bind, Option.bind_some, hsent]
  | received k doneLen socketFd =>
    obtain ⟨m, hget, hcount⟩ := getMsgFromQueue_spec hok doneLen socketFd
    have hheld : Holds { a with rxVirtqueue := a.rxVirtqueue.eraseIdx k } [m.key] := by
      apply h.of_count
      intro b
      simp only [count_placed, hcount b, List.count_nil]
      omega
    obtain ⟨a', hreceived, ha'⟩ := hheld.asyncReceived hheld.cookie
    refine ⟨a', ?_, ha'⟩
    show a.step (.received k doneLen socketFd) = _
    simp only [Async.step, hget, Option.bind_eq_bind, Option.bind_some, hreceived]

/-! ### Counting places -/

theorem count_map_self (cookie : ℕ) (ids : List ℕ) (id : ℕ) :
    (ids.map (·, cookie)).count (id, cookie) = ids.count id :=
  List.count_map_of_injective ids (·, cookie) (fun _ _ h => congrArg Prod.fst h) id

/-- No buffer of one server is listed for another. -/
theorem count_map_of_ne {cookie cookie' : ℕ} (h : cookie' ≠ cookie) (ids : List ℕ) (id : ℕ) :
    (ids.map (·, cookie')).count (id, cookie) = 0 := by
  apply List.count_eq_zero_of_not_mem
  intro hmem
  obtain ⟨i, -, hi⟩ := List.mem_map.mp hmem
  exact h (congrArg Prod.snd hi)

theorem count_tcp_allBufs {id : ℕ} (h : id < numTcpBufs) :
    allBufs.count (id, tcpSocketsAsyncId) = 1 := by
  have hudp : udpSocketsAsyncId ≠ tcpSocketsAsyncId := by decide
  rw [allBufs, List.count_append, count_map_of_ne hudp, Nat.add_zero, count_map_self]
  exact List.count_eq_one_of_mem List.nodup_range (List.mem_range.mpr h)

theorem count_udp_allBufs {id : ℕ} (h : numTcpBufs ≤ id)
    (h' : id < numTcpBufs + (numUdpBufs - 1)) : allBufs.count (id, udpSocketsAsyncId) = 1 := by
  have htcp : tcpSocketsAsyncId ≠ udpSocketsAsyncId := by decide
  rw [allBufs, List.count_append, count_map_of_ne htcp, Nat.zero_add, count_map_self]
  apply List.count_eq_one_of_mem List.nodup_range'
  rw [List.mem_range'_1]
  exact ⟨h, h'⟩

theorem map_poolKey (pool : List TxMsg) :
    pool.map poolKey = (pool.map TxMsg.id).map (·, tcpSocketsAsyncId) := by
  rw [List.map_map]
  rfl

/-! ### Runs -/

theorem Holds.count_placed_eq (h : Holds a []) (b : ℕ × ℕ) :
    a.placed.count b = allBufs.count b := List.Perm.count_eq h b

theorem Holds.tcpPlaces_eq (h : Holds a []) {id : ℕ} (hid : id < numTcpBufs) :
    tcpPlaces a id = 1 := by
  have hcount := h.count_placed_eq (id, tcpSocketsAsyncId)
  rw [count_tcp_allBufs hid, count_placed, map_poolKey, count_map_self] at hcount
  unfold tcpPlaces
  omega

/-- A buffer of the UDP server is in exactly one place. -/
theorem Holds.udpPlaces_eq (h : Holds a []) {id : ℕ} (hid : numTcpBufs ≤ id)
    (hid' : id < numTcpBufs + (numUdpBufs - 1)) : udpPlaces a id = 1 := by
  have hcount := h.count_placed_eq (id, udpSocketsAsyncId)
  have htcp : tcpSocketsAsyncId ≠ udpSocketsAsyncId := by decide
  rw [count_udp_allBufs hid hid', count_placed, map_poolKey, count_map_of_ne htcp] at hcount
  unfold udpPlaces
  omega

/-- **Buffer conservation**: after every run, each buffer of the TCP server is in exactly one of the
pool, the receive queue and the transmit queue, each buffer of the UDP server is on exactly one of
the virtqueues, the pool does not overflow, and no further step fails; in particular there is room
for every buffer that is added to a virtqueue. -/
theorem buffers_conserved {utilizSocket socketIn udpSocket : ℤ} {a₀ a : Async}
    {ts : List (Transition Async AsyncEvent)}
    (hsetup : setup utilizSocket socketIn udpSocket = some a₀) (hrun : asyncMachine.Run a₀ ts a) :
    (∀ id < numTcpBufs, tcpPlaces a id = 1) ∧
    (∀ id, numTcpBufs ≤ id → id < numTcpBufs + (numUdpBufs - 1) → udpPlaces a id = 1) ∧
    a.app.rxBufPool.length ≤ numTcpBufs ∧
    ∀ e, asyncMachine.ok a e → (asyncMachine.step a e).isSome := by
  have h₀ := holds_setup hsetup
  have h := preserves_holds.run h₀ hrun
  have hle := h.length_pool_le
  rw [List.countP_nil, Nat.zero_add] at hle
  exact ⟨fun _ => h.tcpPlaces_eq, fun _ => h.udpPlaces_eq, hle,
    fun e he => preserves_holds.safe h₀ ts a e hrun he⟩

/-- Events of the listening socket 2, and of a client on socket 7. -/
def connEvent : PicoserverEvent where
  socketFd := 2
  events := { Events.none with conn := true }
  events_ne := conn_ne_none
  replies := { accept := 7, recv := [], total := 0, idle := 0 }

def finEvent : PicoserverEvent where
  socketFd := 7
  events := { Events.none with fin := true }
  events_ne := by decide
  replies := { accept := -1, recv := [], total := 0, idle := 0 }

/-- A datagram is received, a client connects to the TCP server and finishes. -/
theorem buffers_conserved_client : ∃ a₀ ts a, setup 1 2 3 = some a₀ ∧ asyncMachine.Run a₀ ts a ∧
    events ts = [.received 0 60 3, .notification connEvent, .notification finEvent] ∧
    ∀ id < numTcpBufs, tcpPlaces a id = 1 := by
  obtain ⟨a₀, hsetup, h₀, hlen⟩ := setup_spec 1 2 3
  have hok : asyncMachine.ok a₀ (.received 0 60 3) := by
    show 0 < a₀.rxVirtqueue.length
    rw [hlen]
    decide
  obtain ⟨a₁, hreceived, h₁⟩ := preserves_holds a₀ (.received 0 60 3) h₀ hok
  obtain ⟨a₂, hconn, h₂⟩ := h₁.notification connEvent
  obtain ⟨a₃, hfin, -⟩ := h₂.notification finEvent
  have hany : ∀ a e, asyncMachine.ok a (.notification e) := fun _ _ => trivial
  have hrun₁ := Run.snoc Run.nil hok hreceived
  have hrun₂ := Run.snoc hrun₁ (hany a₁ connEvent) hconn
  have hrun₃ := Run.snoc hrun₂ (hany a₂ finEvent) hfin
  exact ⟨a₀, _, a₃, hsetup, hrun₃, rfl, (buffers_conserved hsetup hrun₃).1⟩

end Camkes.PicotcpTcpEcho
