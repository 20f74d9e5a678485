import Camkes.Data.History
import Camkes.Data.Ring
import Camkes.PicotcpSingle.EthRx
import Camkes.PicotcpSingle.Equiv.EthBuf

/-!
# Ownership of receive buffers and order of delivery

`RxInv` says who owns the buffers: those in the pool, those in the ring and those held by the driver
are together all buffers, each once.  As a pending buffer is not held, the hardware does not write
to it, so its frame is still the completed one; the frames of the ring are the queue that the trace
asks for (`framesOf`).  Each callback and each round of `pollLoop` moves a buffer from one place to
another.
-/

namespace Camkes.PicotcpSingle.Ethdriver

open CArray Machine BoundedFifo

instance : Fact (0 < rxBufs) := ⟨by decide⟩

/-! ### Traces -/

theorem framesOf_append (trace more : List RxObs) :
    framesOf (trace ++ more) = more.foldl (fun q o => match o with
      | .completed frame => q.offer frame
      | .stackRecv _ err => if err > 0 then q.take else q
      | .polled _ _ => q) (framesOf trace) :=
  List.foldl_append

theorem framesOf_completed (trace : List RxObs) (frame : Frame) :
    framesOf (trace ++ [.completed frame]) = (framesOf trace).offer frame :=
  framesOf_append trace _

theorem framesOf_stackRecv (trace : List RxObs) (frame : Frame) (err : ℤ) :
    framesOf (trace ++ [.stackRecv frame err]) =
      if err > 0 then (framesOf trace).take else framesOf trace :=
  framesOf_append trace _

theorem framesOf_polled (trace : List RxObs) (loopScore ret : ℤ) :
    framesOf (trace ++ [.polled loopScore ret]) = framesOf trace :=
  framesOf_append trace _

@[simp] theorem delivered_append (trace more : List RxObs) :
    delivered (trace ++ more) = delivered trace ++ delivered more :=
  List.filterMap_append

theorem delivered_stackRecv (frame : Frame) (err : ℤ) :
    delivered [.stackRecv frame err] = if err > 0 then [frame] else [] := by
  simp only [delivered, List.filterMap_cons, List.filterMap_nil]
  split_ifs <;> rfl

/-- `pico_stack_recv` is called with the oldest frame of the queue. -/
def OffersOldest (trace : List RxObs) : Prop :=
  Along (fun before o => ∀ frame err, o = .stackRecv frame err →
    (framesOf before).queue.head? = some frame) trace

theorem taken_completed {trace : List RxObs} (h : (framesOf trace).taken = delivered trace)
    (frame : Frame) :
    (framesOf (trace ++ [.completed frame])).taken = delivered (trace ++ [.completed frame]) := by
  rw [framesOf_completed, taken_offer, h, delivered_append]
  exact (List.append_nil _).symm

theorem OffersOldest.completed {trace : List RxObs} (h : OffersOldest trace) (frame : Frame) :
    OffersOldest (trace ++ [.completed frame]) := by
  refine along_concat.mpr ⟨h, ?_⟩
  intro _ _ heq
  cases heq

/-! ### The invariant -/

/-- The buffers of `pool`, `ring` and `held` are all buffers, and the ring holds the frames that the
trace asks for. -/
structure RxInv (rx : Rx) (held pool ring : List RxPtr) (trace : List RxObs) : Prop where
  holds : rx.free.Holds pool
  head_lt : rx.pendingRxHead < rxBufs
  tail_lt : rx.pendingRxTail < rxBufs
  ring_eq : Ring.contents rx.pendingRx rx.pendingRxHead rx.pendingRxTail = ring.map some
  perm : (pool ++ ring ++ held).Perm (List.finRange rxBufs)
  phys : ∀ b, (rx.free.bufs.get b).phys ≠ 0
  queue : (framesOf trace).queue = ring.map fun b => (rx.free.bufs.get b).frame
  taken : (framesOf trace).taken = delivered trace
  oldest : OffersOldest trace

variable {rx : Rx} {held pool ring : List RxPtr} {trace : List RxObs}

theorem RxInv.count_eq (h : RxInv rx held pool ring trace) :
    Ring.count rxBufs rx.pendingRxHead rx.pendingRxTail = ring.length := by
  rw [← Ring.length_contents rx.pendingRx, h.ring_eq, List.length_map]

theorem RxInv.length_eq (h : RxInv rx held pool ring trace) :
    pool.length + ring.length + held.length = rxBufs := by
  have hlen := h.perm.length_eq
  rwa [List.length_append, List.length_append, List.length_finRange] at hlen

theorem RxInv.nodup (h : RxInv rx held pool ring trace) : (pool ++ ring ++ held).Nodup :=
  h.perm.nodup_iff.mpr (List.nodup_finRange rxBufs)

/-- A buffer that the driver holds is not pending. -/
theorem RxInv.not_mem_ring (h : RxInv rx held pool ring trace) {b : RxPtr} (hb : b ∈ held) :
    b ∉ ring := by
  intro hr
  exact (List.nodup_append.mp h.nodup).2.2 b (List.mem_append_right _ hr) b hb rfl

/-- The frames of the ring do not depend on a buffer that is not in it. -/
theorem map_frame_put {bufs : Vector EthBuf rxBufs} {b : RxPtr} (hb : b ∉ ring) (x : EthBuf) :
    (ring.map fun c => ((put bufs b x).get c).frame) = ring.map fun c => (bufs.get c).frame := by
  apply List.map_congr_left
  intro c hc
  have hne : b ≠ c := by
    rintro rfl
    exact hb hc
  rw [get_put, if_neg hne]

/-! ### Callbacks of the driver -/

/-- A request for a buffer is refused, or the top of the pool is handed over. -/
theorem ethAllocateRxBuf_spec (h : RxInv rx held pool ring trace) (size : ℕ) :
    ethAllocateRxBuf rx size = some (rx, 0, none) ∨
      ∃ pool' b rx', ethAllocateRxBuf rx size = some (rx', (rx.free.bufs.get b).phys, some b) ∧
        RxInv rx' (b :: held) pool' ring trace := by
  unfold ethAllocateRxBuf
  split_ifs with hsize hnum
  · exact Or.inl rfl
  · exact Or.inl rfl
  · right
    obtain ⟨pool', b, rfl⟩ := h.holds.exists_top hnum
    obtain ⟨htop, hrest⟩ := h.holds.pop
    refine ⟨pool', b, { rx with free := { rx.free with num := rx.free.num - 1 } }, ?_, ?_⟩
    · simp only [htop, Option.bind_eq_bind, Option.bind_some]
    · have hperm : (pool' ++ ring ++ b :: held).Perm (List.finRange rxBufs) := by
        refine List.Perm.trans ?_ h.perm
        rw [List.append_assoc, List.append_assoc, List.append_assoc, List.singleton_append]
        exact List.perm_middle.append_left pool'
      exact { h with holds := hrest, perm := hperm }

theorem RxInv.perm_filter_held (h : RxInv rx held pool ring trace) {cookies : List RxPtr}
    (hc : cookies.Nodup) (hsub : ∀ b ∈ cookies, b ∈ held) :
    (cookies ++ held.filter (· ∉ cookies)).Perm held :=
  perm_append_filter hc (List.nodup_append.mp h.nodup).2.1 hsub

/-- Buffers that the driver gives back go from `held` to the pool. -/
theorem RxInv.returned (h : RxInv rx held pool ring trace) {cookies : List RxPtr}
    (hc : cookies.Nodup) (hsub : ∀ b ∈ cookies, b ∈ held) :
    ∃ free', putBack rx.free cookies = some free' ∧
      RxInv { rx with free := free' } (held.filter (· ∉ cookies)) (pool ++ cookies) ring trace := by
  have hheld := h.perm_filter_held hc hsub
  have hlen := hheld.length_eq
  have htotal := h.length_eq
  rw [List.length_append] at hlen
  obtain ⟨free', hput, hbufs, hholds⟩ := h.holds.foldlM_push cookies (by omega)
  refine ⟨free', hput, ?_⟩
  have hperm : (pool ++ cookies ++ ring ++ held.filter (· ∉ cookies)).Perm
      (List.finRange rxBufs) := by
    have hmove : (pool ++ cookies ++ ring ++ held.filter (· ∉ cookies)).Perm
        (pool ++ ring ++ (cookies ++ held.filter (· ∉ cookies))) := by
      simp only [List.append_assoc]
      exact (List.perm_append_comm_assoc ..).append_left pool
    exact (hmove.trans (hheld.append_left (pool ++ ring))).trans h.perm
  have hphys : ∀ b, (free'.bufs.get b).phys ≠ 0 := by
    rw [hbufs]
    exact h.phys
  have hqueue : (framesOf trace).queue = ring.map fun b => (free'.bufs.get b).frame := by
    rw [hbufs]
    exact h.queue
  exact { h with holds := hholds, perm := hperm, phys := hphys, queue := hqueue }

/-- The buffer of a single frame goes from `held` to the end of the ring, and its frame to the end
of the queue. -/
theorem RxInv.queued (h : RxInv rx held pool ring trace) {b : RxPtr} (hb : b ∈ held) (len : ℕ)
    (hfull : (rx.pendingRxHead + 1) % rxBufs ≠ rx.pendingRxTail) :
    ∃ rx', queueRx rx b len = some rx' ∧
      RxInv rx' (held.filter (· ∉ [b])) pool (ring ++ [b])
        (trace ++ [.completed { buf := (rx.free.bufs.get b).buf, len }]) := by
  have hring := h.not_mem_ring hb
  have hheld := h.perm_filter_held (List.nodup_singleton b) (by simpa using hb)
  have hcount : ring.length < rxBufs - 1 := by
    have hne := (Ring.succ_eq_tail_iff h.head_lt h.tail_lt).not.mp hfull
    have hlt := Ring.count_lt h.head_lt rx.pendingRxTail
    rw [h.count_eq] at hne hlt
    omega
  let x : EthBuf := { rx.free.bufs.get b with len }
  have hphys : ∀ c, ((put rx.free.bufs b x).get c).phys ≠ 0 :=
    forall_get_put (P := fun buf : EthBuf => buf.phys ≠ 0) h.phys b (h.phys b)
  refine ⟨_, by rw [queueRx, store_of_lt _ h.head_lt]; rfl, ?_⟩
  constructor
  · exact ⟨h.holds.num_le, h.holds.contents_eq⟩
  · exact Ring.succ_lt h.head_lt
  · exact h.tail_lt
  · show Ring.contents _ _ _ = _
    rw [Ring.contents_push _ h.head_lt h.tail_lt hfull, h.ring_eq, List.map_append,
      List.map_singleton]
  · have hmove : (pool ++ (ring ++ [b]) ++ held.filter (· ∉ [b])).Perm (pool ++ ring ++ held) := by
      simp only [List.append_assoc]
      exact (hheld.append_left ring).append_left pool
    exact hmove.trans h.perm
  · exact hphys
  · rw [framesOf_completed, queue_offer, offerQueue_of_lt (by rwa [h.queue, List.length_map]),
      h.queue, List.map_append, List.map_singleton]
    show _ = (ring.map fun c => ((put rx.free.bufs b x).get c).frame) ++
      [((put rx.free.bufs b x).get b).frame]
    rw [map_frame_put hring, get_put, if_pos rfl]
    rfl
  · exact taken_completed h.taken _
  · exact h.oldest.completed _

/-- The frame of a buffer that finds the ring full is dropped. -/
theorem RxInv.dropped (h : RxInv rx held pool ring trace)
    (hfull : (rx.pendingRxHead + 1) % rxBufs = rx.pendingRxTail) (frame : Frame) :
    RxInv rx held pool ring (trace ++ [.completed frame]) := by
  have hcount : rxBufs - 1 ≤ ring.length := by
    rw [← h.count_eq, (Ring.succ_eq_tail_iff h.head_lt h.tail_lt).mp hfull]
  have hqueue : (framesOf (trace ++ [.completed frame])).queue = (framesOf trace).queue := by
    rw [framesOf_completed, queue_offer, offerQueue_of_le]
    rwa [h.queue, List.length_map]
  refine { h with queue := hqueue.trans h.queue, taken := ?_, oldest := ?_ }
  · exact taken_completed h.taken _
  · exact h.oldest.completed _

/-- Completing buffers: a single one is queued if there is room; all others go to the pool. -/
theorem ethRxComplete_spec (h : RxInv rx held pool ring trace) {bufs : List (RxPtr × ℕ)}
    (hnodup : (bufs.map Prod.fst).Nodup) (hsub : ∀ p ∈ bufs, p.1 ∈ held) :
    ∃ rx' pool' ring', ethRxComplete rx bufs = some rx' ∧
      RxInv rx' (held.filter (· ∉ bufs.map Prod.fst)) pool' ring'
        (trace ++ completedFrame rx bufs) := by
  have hsub' : ∀ b ∈ bufs.map Prod.fst, b ∈ held := by
    intro b hb
    obtain ⟨p, hp, rfl⟩ := List.mem_map.mp hb
    exact hsub p hp
  obtain ⟨free', hput, hback⟩ := h.returned hnodup hsub'
  unfold ethRxComplete
  split
  · rename_i b len
    split_ifs with hfull
    · refine ⟨_, _, _, ?_, hback.dropped hfull _⟩
      rw [List.map_singleton] at hput
      rw [hput]
      rfl
    · obtain ⟨rx', hqueue, hinv⟩ := h.queued (hsub (b, len) (List.mem_singleton_self _)) len hfull
      exact ⟨rx', _, _, hqueue, hinv⟩
  · rename_i hsingle
    have hnone : completedFrame rx bufs = [] := by
      unfold completedFrame
      split
      · exact absurd rfl (hsingle _ _)
      · rfl
    rw [hput, hnone, List.append_nil]
    exact ⟨_, _, _, rfl, hback⟩

/-- The hardware writes to a buffer that is not pending. -/
theorem RxInv.dmaWrite (h : RxInv rx held pool ring trace) {b : RxPtr} (hb : b ∈ held)
    (block : Block) :
    RxInv { rx with free := { rx.free with
      bufs := put rx.free.bufs b { rx.free.bufs.get b with buf := some block } } }
      held pool ring trace := by
  let x : EthBuf := { rx.free.bufs.get b with buf := some block }
  have hphys : ∀ c, ((put rx.free.bufs b x).get c).phys ≠ 0 :=
    forall_get_put (P := fun buf : EthBuf => buf.phys ≠ 0) h.phys b (h.phys b)
  refine { h with holds := ⟨h.holds.num_le, h.holds.contents_eq⟩, phys := hphys, queue := ?_ }
  exact h.queue.trans (map_frame_put (h.not_mem_ring hb) _).symm

/-! ### Polling -/

theorem append_recvTrace_nil (trace : List RxObs) : trace ++ recvTrace [] = trace :=
  List.append_nil trace

/-- The slot at the tail of a ring that is not empty has the oldest buffer. -/
theorem RxInv.oldest_buf (h : RxInv rx held pool ring trace)
    (hne : rx.pendingRxHead ≠ rx.pendingRxTail) :
    ∃ b ring', ring = b :: ring' ∧ rx.pendingRx[rx.pendingRxTail]? = some (some b) ∧
      Ring.contents rx.pendingRx rx.pendingRxHead ((rx.pendingRxTail + 1) % rxBufs) =
        ring'.map some := by
  have hpop := Ring.contents_pop rx.pendingRx h.head_lt h.tail_lt hne
  rw [h.ring_eq] at hpop
  cases ring with
  | nil => cases hpop
  | cons b ring' =>
    obtain ⟨hslot, hrest⟩ := List.cons.inj hpop
    refine ⟨b, ring', rfl, ?_, hrest.symm⟩
    rw [Vector.getElem?_eq_getElem h.tail_lt, ← hslot]

/-- A call of `pico_stack_recv` that does not accept the frame changes nothing. -/
theorem RxInv.refused (h : RxInv rx held pool ring trace) {frame : Frame} {err : ℤ}
    (hhead : (framesOf trace).queue.head? = some frame) (herr : err ≤ 0) :
    RxInv rx held pool ring (trace ++ [.stackRecv frame err]) := by
  have hframes : framesOf (trace ++ [.stackRecv frame err]) = framesOf trace := by
    rw [framesOf_stackRecv, if_neg (by omega)]
  refine { h with queue := hframes ▸ h.queue, taken := ?_, oldest := ?_ }
  · rw [hframes, delivered_append, delivered_stackRecv, if_neg (by omega), List.append_nil, h.taken]
  · refine along_concat.mpr ⟨h.oldest, fun _ _ heq => ?_⟩
    cases heq
    exact hhead

/-- The buffer of an accepted frame goes from the ring to the pool. -/
theorem RxInv.accepted {b : RxPtr} (h : RxInv rx held pool (b :: ring) trace)
    (hrest : Ring.contents rx.pendingRx rx.pendingRxHead ((rx.pendingRxTail + 1) % rxBufs) =
      ring.map some) {err : ℤ} (herr : 0 < err) :
    ∃ free', rx.free.push b = some free' ∧
      RxInv { rx with free := free', pendingRxTail := (rx.pendingRxTail + 1) % rxBufs } held
        (pool ++ [b]) ring (trace ++ [.stackRecv (rx.free.bufs.get b).frame err]) := by
  have hlen := h.length_eq
  rw [List.length_cons] at hlen
  obtain ⟨free', hpush, hbufs, hholds⟩ := h.holds.push b (by omega)
  have hframes : framesOf (trace ++ [.stackRecv (rx.free.bufs.get b).frame err]) =
      (framesOf trace).take := by
    rw [framesOf_stackRecv, if_pos herr]
  refine ⟨free', hpush, ?_⟩
  constructor
  · exact hholds
  · exact h.head_lt
  · exact Ring.succ_lt h.tail_lt
  · exact hrest
  · have hmove : pool ++ [b] ++ ring ++ held = pool ++ (b :: ring) ++ held := by
      rw [List.append_assoc pool, List.singleton_append]
    rw [hmove]
    exact h.perm
  · show ∀ c, (free'.bufs.get c).phys ≠ 0
    rw [hbufs]
    exact h.phys
  · show _ = ring.map fun c => (free'.bufs.get c).frame
    rw [hframes, queue_take, h.queue, hbufs]
    rfl
  · rw [hframes, taken_take, h.queue, h.taken, delivered_append, delivered_stackRecv, if_pos herr]
    rfl
  · refine along_concat.mpr ⟨h.oldest, fun _ _ heq => ?_⟩
    cases heq
    rw [h.queue]
    rfl

/-- **The loop** keeps the invariant, and it has delivered as many frames as it has used up of the
loop score. -/
theorem pollLoop_spec (h : RxInv rx held pool ring trace) (results : List ℤ) (loopScore : ℕ) :
    ∃ rx' left calls pool' ring', pollLoop rx results loopScore = some (rx', left, calls) ∧
      RxInv rx' held pool' ring' (trace ++ recvTrace calls) ∧
      left + (delivered (recvTrace calls)).length = loopScore := by
  induction loopScore generalizing rx pool ring trace results with
  | zero => exact ⟨rx, 0, [], pool, ring, rfl, by rwa [append_recvTrace_nil], rfl⟩
  | succ loopScore ih =>
    rw [pollLoop]
    split_ifs with hempty
    · exact ⟨rx, _, [], pool, ring, rfl, by rwa [append_recvTrace_nil], rfl⟩
    · obtain ⟨b, ring', rfl, hslot, hrest⟩ := h.oldest_buf hempty
      rw [hslot]
      simp only [Option.bind_eq_bind, Option.bind_some]
      have hhead : (framesOf trace).queue.head? = some (rx.free.bufs.get b).frame := by
        rw [h.queue]
        rfl
      split_ifs with herr
      · refine ⟨rx, _, _, pool, b :: ring', rfl, h.refused hhead herr, ?_⟩
        have hnone : delivered [.stackRecv (rx.free.bufs.get b).frame (results.headD 0)] = [] := by
          rw [delivered_stackRecv, if_neg (by omega)]
        show _ + (delivered [_]).length = _
        rw [hnone]
        rfl
      · obtain ⟨free', hpush, hinv⟩ := h.accepted hrest (Int.not_le.mp herr)
        obtain ⟨rx', left, calls, pool', ring'', hloop, hinv', hleft⟩ := ih hinv results.tail
        let call : Frame × ℤ := ((rx.free.bufs.get b).frame, results.headD 0)
        refine ⟨rx', left, call :: calls, pool', ring'', ?_, ?_, ?_⟩
        · rw [hpush, Option.bind_some, hloop]
          rfl
        · rwa [List.append_assoc] at hinv'
        · have hcons : ∀ o calls, delivered (recvTrace (o :: calls)) =
              delivered [.stackRecv o.1 o.2] ++ delivered (recvTrace calls) :=
            fun o calls => delivered_append [_] _
          rw [hcons, List.length_append, delivered_stackRecv, if_pos (Int.not_le.mp herr)]
          show _ + (1 + _) = _
          omega

/-- `pico_eth_poll` keeps the invariant and returns its loop score less the frames delivered. -/
theorem picoEthPoll_spec (h : RxInv rx held pool ring trace) (loopScore : ℤ) (results : List ℤ) :
    ∃ rx' ret calls pool' ring', picoEthPoll rx loopScore results = some (rx', ret, calls) ∧
      RxInv rx' held pool' ring' (trace ++ recvTrace calls) ∧
      ((delivered (recvTrace calls)).length : ℤ) = loopScore - ret := by
  unfold picoEthPoll
  split_ifs with hpos
  · obtain ⟨rx', left, calls, pool', ring', hloop, hinv, hleft⟩ :=
      pollLoop_spec h results loopScore.toNat
    refine ⟨rx', left, calls, pool', ring', ?_, hinv, by omega⟩
    rw [hloop]
    rfl
  · refine ⟨rx, loopScore, [], pool, ring, rfl, by rwa [append_recvTrace_nil], ?_⟩
    rw [Int.sub_self]
    rfl

/-- The end of a poll changes no place of a buffer. -/
theorem RxInv.polled (h : RxInv rx held pool ring trace) (loopScore ret : ℤ) :
    RxInv rx held pool ring (trace ++ [.polled loopScore ret]) := by
  have hframes := framesOf_polled trace loopScore ret
  refine { h with queue := hframes ▸ h.queue, taken := ?_, oldest := ?_ }
  · rw [hframes, h.taken, delivered_append]
    exact (List.append_nil _).symm
  · exact along_concat.mpr ⟨h.oldest, fun _ _ heq => by cases heq⟩

/-! ### Runs -/

/-- After setup all buffers are free. -/
theorem RxInv.init {dma : Fin rxBufs → Dma} {free : BufPool rxBufs}
    (hsetup : setupRxBufs dma = .ok free) :
    RxInv (.init free) [] (List.finRange rxBufs) [] [] := by
  obtain ⟨hsucc, rfl⟩ := allocBufs_eq_ok_iff.mp hsetup
  constructor
  · exact .full dma
  · show 0 < rxBufs
    decide
  · show 0 < rxBufs
    decide
  · show Ring.contents _ 0 0 = _
    rw [Ring.contents_self, List.map_nil]
  · simp
  · intro b
    show ((BufPool.full dma).bufs.get b).phys ≠ 0
    rw [get_full]
    exact (hsucc b).2
  · rfl
  · rfl
  · exact along_nil

/-- Every buffer is in one place, and the frames of the ring are those that the trace asks for. -/
def RxSystem.Good (s : RxSystem) : Prop := ∃ pool ring, RxInv s.rx s.held pool ring s.trace

/-- What one poll does to the system. -/
theorem step_poll {s : RxSystem} (h : s.Good) (loopScore : ℤ) (results : List ℤ) :
    ∃ s' ret calls, s.step (.poll loopScore results) = some s' ∧ s'.Good ∧
      s'.trace = s.trace ++ recvTrace calls ++ [.polled loopScore ret] ∧
      ((delivered (recvTrace calls)).length : ℤ) = loopScore - ret := by
  obtain ⟨pool, ring, h⟩ := h
  obtain ⟨rx', ret, calls, pool', ring', hpoll, hinv, hlen⟩ := picoEthPoll_spec h loopScore results
  let s' : RxSystem :=
    { s with rx := rx', trace := s.trace ++ recvTrace calls ++ [.polled loopScore ret] }
  refine ⟨s', ret, calls, ?_, ⟨pool', ring', hinv.polled loopScore ret⟩, rfl, hlen⟩
  simp only [RxSystem.step, hpoll, Option.bind_eq_bind, Option.bind_some]
  rfl

/-- Every event keeps every buffer in exactly one place. -/
theorem preserves_rx : rxMachine.Preserves RxSystem.Good := by
  intro s e hgood hok
  cases e with
  | allocate size =>
    obtain ⟨pool, ring, h⟩ := hgood
    rcases ethAllocateRxBuf_spec h size with hnone | ⟨pool', b, rx', hsome, h'⟩
    · refine ⟨s, ?_, pool, ring, h⟩
      show s.step (.allocate size) = _
      simp only [RxSystem.step, hnone, Option.bind_eq_bind, Option.bind_some, if_true]
    · refine ⟨{ s with rx := rx', held := b :: s.held }, ?_, pool', ring, h'⟩
      show s.step (.allocate size) = _
      simp only [RxSystem.step, hsome, Option.bind_eq_bind, Option.bind_some, if_neg (h.phys b)]
      rfl
  | dmaWrite b block =>
    obtain ⟨pool, ring, h⟩ := hgood
    exact ⟨_, rfl, pool, ring, h.dmaWrite hok block⟩
  | complete bufs =>
    obtain ⟨pool, ring, h⟩ := hgood
    obtain ⟨rx', pool', ring', hcomplete, h'⟩ := ethRxComplete_spec h hok.1 hok.2
    let s' : RxSystem :=
      { rx := rx', held := s.held.filter (· ∉ bufs.map Prod.fst),
        trace := s.trace ++ completedFrame s.rx bufs }
    refine ⟨s', ?_, pool', ring', h'⟩
    show s.step (.complete bufs) = _
    simp only [RxSystem.step, hcomplete, Option.bind_eq_bind, Option.bind_some]
    rfl
  | poll loopScore results =>
    obtain ⟨s', -, -, hstep, hgood', -⟩ := step_poll hgood loopScore results
    exact ⟨s', hstep, hgood'⟩

variable {dma : Fin rxBufs → Dma} {free : BufPool rxBufs} {ts : List (Transition RxSystem RxEvent)}
  {s : RxSystem}

theorem good_init (hsetup : setupRxBufs dma = .ok free) : (RxSystem.init free).Good :=
  ⟨_, _, RxInv.init hsetup⟩

/-- **Ownership of receive buffers**: in every state of a run, each buffer is in the pool, pending
or held by the driver, in one of these places and once; the numbers stay in range; and whatever the
driver does next, no access is out of bounds. -/
theorem rxBufs_partitioned (hsetup : setupRxBufs dma = .ok free)
    (hrun : rxMachine.Run (.init free) ts s) :
    (∃ pool ring,
      Stack.contents s.rx.free.pool s.rx.free.num = pool.map some ∧
      Ring.contents s.rx.pendingRx s.rx.pendingRxHead s.rx.pendingRxTail = ring.map some ∧
      (pool ++ ring ++ s.held).Perm (List.finRange rxBufs) ∧
      ∀ b ∈ s.held, b ∉ pool ∧ b ∉ ring) ∧
    s.rx.free.num ≤ rxBufs ∧ s.rx.pendingRxHead < rxBufs ∧ s.rx.pendingRxTail < rxBufs ∧
    ∀ e, rxMachine.ok s e → (rxMachine.step s e).isSome := by
  obtain ⟨pool, ring, h⟩ := preserves_rx.run (good_init hsetup) hrun
  refine ⟨⟨pool, ring, h.holds.contents_eq, h.ring_eq, h.perm, ?_⟩, h.holds.num_le, h.head_lt,
    h.tail_lt, fun e => preserves_rx.safe (good_init hsetup) ts s e hrun⟩
  intro b hb
  have hdisj := (List.nodup_append.mp h.nodup).2.2
  exact ⟨fun hp => hdisj b (List.mem_append_left _ hp) b hb rfl, h.not_mem_ring hb⟩

/-- The driver takes three buffers, completes two with frames and then gives the third one back. -/
theorem rxBufs_partitioned_threeBuffers : ∃ ts s,
    rxMachine.Run (.init (.full dmaMemory)) ts s ∧
    events ts = [.allocate 2048, .allocate 2048, .allocate 2048,
      .complete [(⟨509, by decide⟩, 60)], .complete [(⟨508, by decide⟩, 61)], .poll 1 [1],
      .complete []] ∧
    s.held = [⟨507, by decide⟩] ∧
    (∃ pool ring,
      Stack.contents s.rx.free.pool s.rx.free.num = pool.map some ∧
      Ring.contents s.rx.pendingRx s.rx.pendingRxHead s.rx.pendingRxTail = ring.map some ∧
      (pool ++ ring ++ s.held).Perm (List.finRange rxBufs) ∧
      ∀ b ∈ s.held, b ∉ pool ∧ b ∉ ring) := by
  obtain ⟨ts, s, hrun, hevents, hheld⟩ := exists_run_of_exec rxMachine (.init (.full dmaMemory))
    [.allocate 2048, .allocate 2048, .allocate 2048,
      .complete [(⟨509, by decide⟩, 60)], .complete [(⟨508, by decide⟩, 61)], .poll 1 [1],
      .complete []]
    (fun r => r.2.held = [⟨507, by decide⟩]) (by decide +kernel)
  exact ⟨ts, s, hrun, hevents, of_decide_eq_true hheld,
    (rxBufs_partitioned (allocBufs_dmaMemory (by decide)) hrun).1⟩

/-- **Order of delivery**: the frames that `pico_stack_recv` accepts are a prefix of the frames that
were queued, as they were when completed; a frame that it refuses stays the oldest one; and a poll
delivers as many frames as it uses up of the loop score. -/
theorem delivered_prefix_accepted (hsetup : setupRxBufs dma = .ok free)
    (hrun : rxMachine.Run (.init free) ts s) :
    delivered s.trace <+: (framesOf s.trace).accepted ∧ OffersOldest s.trace ∧
    ∀ t ∈ ts, ∀ loopScore results, t.event = .poll loopScore results → ∃ ret calls,
      t.after.trace = t.before.trace ++ recvTrace calls ++ [.polled loopScore ret] ∧
      ((delivered (recvTrace calls)).length : ℤ) = loopScore - ret := by
  obtain ⟨pool, ring, h⟩ := preserves_rx.run (good_init hsetup) hrun
  refine ⟨?_, h.oldest, ?_⟩
  · rw [← h.taken]
    exact taken_prefix_accepted _
  · intro t ht loopScore results hevent
    obtain ⟨hgood, -, hstep, -⟩ := hrun.forall_mem (good_init hsetup)
      (fun _ _ _ hs hok hstep => preserves_rx.of_step hs hok hstep) t ht
    obtain ⟨s', ret, calls, hpoll, -, htrace, hlen⟩ := step_poll hgood loopScore results
    rw [hevent] at hstep
    obtain rfl := Option.some.inj (hstep.symm.trans hpoll)
    exact ⟨ret, calls, htrace, hlen⟩

/-- Two frames arrive; `pico_stack_recv` accepts the first and refuses the second, which is offered
again by the next poll. -/
theorem delivered_prefix_accepted_twoFrames : ∃ ts s,
    rxMachine.Run (.init (.full dmaMemory)) ts s ∧
    events ts = [.allocate 2048, .allocate 2048,
      .dmaWrite ⟨509, by decide⟩ (Vector.replicate bufSize 7), .complete [(⟨509, by decide⟩, 60)],
      .complete [(⟨508, by decide⟩, 61)], .poll 2 [1, 0], .poll 5 [1]] ∧
    (delivered s.trace).map Frame.len = [60, 61] ∧
    delivered s.trace <+: (framesOf s.trace).accepted ∧ OffersOldest s.trace := by
  obtain ⟨ts, s, hrun, hevents, hlens⟩ := exists_run_of_exec rxMachine (.init (.full dmaMemory))
    [.allocate 2048, .allocate 2048,
      .dmaWrite ⟨509, by decide⟩ (Vector.replicate bufSize 7), .complete [(⟨509, by decide⟩, 60)],
      .complete [(⟨508, by decide⟩, 61)], .poll 2 [1, 0], .poll 5 [1]]
    (fun r => (delivered r.2.trace).map Frame.len = [60, 61]) (by decide +kernel)
  have h := delivered_prefix_accepted (allocBufs_dmaMemory (by decide)) hrun
  exact ⟨ts, s, hrun, hevents, of_decide_eq_true hlens, h.1, h.2.1⟩

end Camkes.PicotcpSingle.Ethdriver
