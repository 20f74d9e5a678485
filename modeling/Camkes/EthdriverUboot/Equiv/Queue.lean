import Camkes.EthdriverUboot.Equiv.ClientRx
import Camkes.EthdriverUboot.System

/-!
# The receive queues refine bounded FIFO queues

`Inv` ties a state of the system to its trace: the cyclic array of client `i` holds the queue
`fifoOf clients i trace`, what was copied to the dataport of `i` is what was taken from that queue,
and every call has returned by the queue it found.  Frames that arrive do not touch the trace
(`Inv.arrive`); a call of `client_rx` appends the frames it takes and then its own result
(`Inv.rx`), which `clientRx_spec` matches with the arrays.
-/

namespace Camkes.EthdriverUboot

open BoundedFifo Machine

/-! ### How a trace acts on the queues -/

variable {clients : List Client} {i : ℕ}

@[simp] theorem fifoOf_append (trace more : List Obs) :
    fifoOf clients i (trace ++ more) = more.foldl (fifoStep clients i) (fifoOf clients i trace) :=
  List.foldl_append

@[simp] theorem copiedTo_append (badge : UInt64) (trace more : List Obs) :
    copiedTo badge (trace ++ more) = copiedTo badge trace ++ copiedTo badge more :=
  List.filterMap_append

theorem fifoStep_free (q : BoundedFifo Packet (clientRxBufs - 1)) (packet : Packet) :
    fifoStep clients i q (.effect (.ubootEthFreePacket packet)) =
      if routedTo clients packet i then q.offer packet else q := rfl

theorem fifoStep_returned (q : BoundedFifo Packet (clientRxBufs - 1)) (j : ℕ) (ret len : ℤ) :
    fifoStep clients i q (.returned j ret len) = if j = i then q.take else q := rfl

/-- Frames that are freed advance the queue as `offerRouted` says and take nothing from it. -/
theorem foldl_fifoStep_frees (packets : List Packet) (q : BoundedFifo Packet (clientRxBufs - 1)) :
    (((packets.map Effect.ubootEthFreePacket).map Obs.effect).foldl (fifoStep clients i) q).queue =
        packets.foldl (offerRouted clients i) q.queue ∧
      (((packets.map Effect.ubootEthFreePacket).map Obs.effect).foldl
        (fifoStep clients i) q).taken = q.taken := by
  induction packets generalizing q with
  | nil => exact ⟨rfl, rfl⟩
  | cons packet packets ih =>
    simp only [List.map_cons, List.foldl_cons, fifoStep_free, offerRouted, ih]
    split_ifs
    · rw [queue_offer, taken_offer]
      exact ⟨rfl, rfl⟩
    · exact ⟨rfl, rfl⟩

theorem copiedTo_frees (badge : UInt64) (packets : List Packet) :
    copiedTo badge ((packets.map Effect.ubootEthFreePacket).map Obs.effect) = [] := by
  simp [copiedTo]

/-- The effects of handing over a frame leave the queues alone. -/
theorem foldl_fifoStep_outcome (badge : UInt64) (q : List Packet)
    (fifo : BoundedFifo Packet (clientRxBufs - 1)) :
    ((rxOutcome badge q).2.2.map Obs.effect).foldl (fifoStep clients i) fifo = fifo := by
  rcases q with - | ⟨frame, - | ⟨_, _⟩⟩ <;> rfl

/-- They copy the oldest frame, to the dataport of the caller alone. -/
theorem copiedTo_outcome (badge b : UInt64) (q : List Packet) :
    copiedTo badge ((rxOutcome b q).2.2.map Obs.effect) =
      if b = badge then q.head?.toList else [] := by
  rcases q with - | ⟨frame, - | ⟨_, _⟩⟩ <;> simp [rxOutcome, copiedTo] <;> split_ifs <;> simp_all

theorem rxOutcome_eq_rxReturn (badge : UInt64) (q : List Packet) :
    ((rxOutcome badge q).1, (rxOutcome badge q).2.1) = rxReturn q := by
  rcases q with - | ⟨frame, - | ⟨_, _⟩⟩ <;> rfl

/-! ### The invariant -/

/-- The state of a system with the clients `clients` agrees with its trace. -/
structure Inv (clients : List Client) (s : System) : Prop where
  doneInit : s.drv.doneInit = true
  keys : s.drv.clients.map Client.key = clients.map Client.key
  wf : ∀ client ∈ s.drv.clients, client.WF
  uboot : ∀ packet ∈ s.uboot, packet.length ≤ bufSize
  queue : ∀ i < clients.length, pendingAt s.drv.clients i = (fifoOf clients i s.trace).queue
  taken : ∀ i client, clients[i]? = some client →
    copiedTo client.clientId s.trace = (fifoOf clients i s.trace).taken
  returns : ReturnsRight clients s.trace

/-- The arrival of a frame keeps the invariant. -/
theorem Inv.arrive {s : System} (h : Inv clients s) {packet : Packet}
    (hp : packet.length ≤ bufSize) : Inv clients { s with uboot := s.uboot ++ [packet] } where
  doneInit := h.doneInit
  keys := h.keys
  wf := h.wf
  uboot p hmem := by
    rcases List.mem_append.mp hmem with hmem | hmem
    · exact h.uboot p hmem
    · obtain rfl := List.mem_singleton.mp hmem
      exact hp
  queue := h.queue
  taken := h.taken
  returns := h.returns

theorem ReturnsRight.append_effects {trace : List Obs} (h : ReturnsRight clients trace)
    (effects : List Effect) : ReturnsRight clients (trace ++ effects.map .effect) := by
  apply Along.append h
  intro o ho before i ret len hret
  obtain ⟨e, -, rfl⟩ := List.mem_map.mp ho
  cases hret

theorem ReturnsRight.append_returned {trace : List Obs} (h : ReturnsRight clients trace) {j : ℕ}
    {r l : ℤ} (hr : (r, l) = rxReturn (fifoOf clients j trace).queue) :
    ReturnsRight clients (trace ++ [.returned j r l]) := by
  refine along_concat.mpr ⟨h, fun i ret len hret => ?_⟩
  cases hret
  exact hr

theorem leftBy_subset (uboot : List Packet) : leftBy uboot ⊆ uboot := fun _ h =>
  (List.dropWhile_suffix _).subset (List.mem_of_mem_tail h)

/-- What a call appends to the trace. -/
def callTrace (badge : UInt64) (i : ℕ) (packets q : List Packet) : List Obs :=
  (packets.map Effect.ubootEthFreePacket ++ (rxOutcome badge q).2.2).map .effect ++
    [.returned i (rxOutcome badge q).1 (rxOutcome badge q).2.1]

/-- The queue of client `i` after the frames of a call have been offered to it. -/
theorem queue_fifoOf_frees (trace : List Obs) (packets : List Packet) :
    (fifoOf clients i (trace ++ (packets.map Effect.ubootEthFreePacket).map .effect)).queue =
      packets.foldl (offerRouted clients i) (fifoOf clients i trace).queue := by
  rw [fifoOf_append, (foldl_fifoStep_frees packets _).1]

theorem fifoOf_callTrace (trace : List Obs) (badge : UInt64) (j : ℕ) (packets q : List Packet) :
    fifoOf clients i (trace ++ callTrace badge j packets q) =
      let fifo := fifoOf clients i (trace ++ (packets.map Effect.ubootEthFreePacket).map .effect)
      if j = i then fifo.take else fifo := by
  rw [callTrace, fifoOf_append, fifoOf_append, List.foldl_append, List.map_append,
    List.foldl_append, foldl_fifoStep_outcome, List.foldl_cons, List.foldl_nil, fifoStep_returned]

/-- A call copies the oldest frame of its client to the dataport of that client. -/
theorem copiedTo_callTrace (trace : List Obs) (b badge : UInt64) (j : ℕ)
    (packets q : List Packet) :
    copiedTo badge (trace ++ callTrace b j packets q) =
      copiedTo badge trace ++ if b = badge then q.head?.toList else [] := by
  have hret : ∀ ret len, copiedTo badge [.returned j ret len] = [] := fun _ _ => rfl
  rw [callTrace, copiedTo_append, copiedTo_append, List.map_append, copiedTo_append,
    copiedTo_frees, copiedTo_outcome, hret, List.nil_append, List.append_nil]

/-- The trace of a call returns what the FIFO queue says. -/
theorem ReturnsRight.callTrace {trace : List Obs} (h : ReturnsRight clients trace)
    (badge : UInt64) (packets : List Packet) :
    ReturnsRight clients (trace ++ callTrace badge i packets
      (packets.foldl (offerRouted clients i) (fifoOf clients i trace).queue)) := by
  rw [EthdriverUboot.callTrace, ← List.append_assoc]
  apply (h.append_effects _).append_returned
  rw [rxOutcome_eq_rxReturn, List.map_append, ← List.append_assoc, fifoOf_append,
    foldl_fifoStep_outcome, queue_fifoOf_frees]

/-- A call succeeds, and its trace entries say what it did. -/
theorem step_rx {s : System} (h : Inv clients s) (hg : GoodBadges clients) {i : ℕ}
    (hi : i < clients.length) :
    ∃ cs', s.step (.rx i) = some
        { drv := { doneInit := true, clients := cs' }
          uboot := leftBy s.uboot
          trace := s.trace ++ callTrace clients[i].clientId i (takenBy s.uboot)
            ((takenBy s.uboot).foldl (offerRouted clients i) (fifoOf clients i s.trace).queue) } ∧
      Advances s.drv.clients cs' fun j q =>
        let q' := (takenBy s.uboot).foldl (offerRouted clients j) q
        if j = i then q'.tail else q' := by
  obtain ⟨⟨doneInit, cs⟩, uboot, trace⟩ := s
  obtain rfl : doneInit = true := h.doneInit
  have hkeys : cs.map Client.key = clients.map Client.key := h.keys
  have hi' : i < cs.length := length_of_keys hkeys ▸ hi
  have hci : cs[i]? = some cs[i] := List.getElem?_eq_getElem hi'
  have hroute : offerRouted cs = offerRouted clients := funext (offerRouted_congr hkeys)
  have hid := clientId_of_keys hkeys (List.getElem?_eq_getElem hi) hci
  obtain ⟨cs', hrx, hadv⟩ := clientRx_spec h.wf (goodBadges_congr hkeys hg) h.uboot hci
  rw [hroute] at hrx hadv
  rw [h.queue i hi, hid] at hrx
  refine ⟨cs', ?_, hadv⟩
  simp only [System.step, hci, hid, hrx, Option.bind_eq_bind, Option.bind_some, callTrace]

/-- **A call keeps the invariant.** -/
theorem Inv.rx {s : System} (h : Inv clients s) (hg : GoodBadges clients) {i : ℕ}
    (hi : i < s.drv.clients.length) : ∃ s', s.step (.rx i) = some s' ∧ Inv clients s' := by
  have hlen := length_of_keys h.keys
  have hi' : i < clients.length := hlen ▸ hi
  obtain ⟨cs', hstep, hadv⟩ := step_rx h hg hi'
  refine ⟨_, hstep, rfl, hadv.keys.trans h.keys, hadv.wf,
    fun p hp => h.uboot p (leftBy_subset _ hp), ?_, ?_, h.returns.callTrace _ _⟩
  · intro j hj
    rw [hadv.queues j (hlen ▸ hj), h.queue j hj, fifoOf_callTrace]
    simp only [eq_comm (a := j)]
    split_ifs
    · rw [queue_take, queue_fifoOf_frees]
    · rw [queue_fifoOf_frees]
  · intro j client hj
    rw [copiedTo_callTrace, h.taken j client hj, fifoOf_callTrace]
    have htaken : (fifoOf clients j (s.trace ++
        ((takenBy s.uboot).map Effect.ubootEthFreePacket).map .effect)).taken =
          (fifoOf clients j s.trace).taken := by
      rw [fifoOf_append, (foldl_fifoStep_frees _ _).2]
    obtain ⟨hjlt, rfl⟩ := List.getElem?_eq_some_iff.mp hj
    simp only [hg.clientId_inj hi' hjlt]
    split_ifs with hij
    · subst hij
      rw [taken_take, htaken, queue_fifoOf_frees]
    · rw [htaken, List.append_nil]

/-! ### Arrival order -/

@[simp] theorem freed_append (trace more : List Obs) :
    freed (trace ++ more) = freed trace ++ freed more :=
  List.filterMap_append

@[simp] theorem arrived_append (es es' : List Event) :
    arrived (es ++ es') = arrived es ++ arrived es' :=
  List.filterMap_append

/-- A call frees the frames it takes from the driver. -/
theorem freed_callTrace (badge : UInt64) (i : ℕ) (packets q : List Packet) :
    freed (callTrace badge i packets q) = packets := by
  have hframes : freed ((packets.map Effect.ubootEthFreePacket).map .effect) = packets := by
    induction packets with
    | nil => rfl
    | cons packet packets ih => exact congrArg (packet :: ·) ih
  have hrest : freed ((rxOutcome badge q).2.2.map .effect) = [] := by
    rcases q with - | ⟨frame, - | ⟨_, _⟩⟩ <;> rfl
  rw [callTrace, freed_append, List.map_append, freed_append, hframes, hrest, List.append_nil]
  exact List.append_nil packets

/-- The receive loop takes the frames in order, and skips only reports of no frame. -/
theorem takenBy_append_leftBy (uboot : List Packet) :
    takenBy uboot ++ (leftBy uboot).filter (·.length ≠ 0) = uboot.filter (·.length ≠ 0) := by
  induction uboot with
  | nil => rfl
  | cons packet uboot ih =>
    by_cases hp : packet.length = 0
    · obtain ⟨hT, hL⟩ := takenBy_cons_of_eq hp uboot
      rw [hT, hL, List.filter_cons_of_neg (by simpa using hp), List.nil_append]
    · obtain ⟨hT, hL⟩ := takenBy_cons_of_ne hp uboot
      rw [hT, hL, List.filter_cons_of_pos (by simpa using hp), List.cons_append, ih]

/-! ### Runs after initialisation -/

variable {t : Template}

/-- The second loop of `server_init` changes the MAC of each client and nothing else. -/
theorem assignMacs_cons (t : Template) (client : Client) (clients : List Client) (n : ℕ) :
    ∃ mac n', (assignMacs t (client :: clients) n).1 =
      { client with mac } :: (assignMacs t clients n').1 := by
  rw [assignMacs]
  split_ifs
  · exact ⟨_, n, rfl⟩
  · exact ⟨_, n + 1, rfl⟩
  · exact ⟨_, n + 1, rfl⟩

/-- Assigning the addresses leaves the badges. -/
theorem assignMacs_clientIds (t : Template) (clients : List Client) (n : ℕ) :
    (assignMacs t clients n).1.map Client.clientId = clients.map Client.clientId := by
  induction clients generalizing n with
  | nil => rfl
  | cons client clients ih =>
    obtain ⟨mac, n', h⟩ := assignMacs_cons t client clients n
    rw [h, List.map_cons, List.map_cons, ih]

theorem assignMacs_forall {P : Client → Prop} (hP : ∀ client mac, P client → P { client with mac })
    (t : Template) {clients : List Client} (h : ∀ client ∈ clients, P client) (n : ℕ) :
    ∀ client ∈ (assignMacs t clients n).1, P client := by
  induction clients generalizing n with
  | nil => exact h
  | cons client clients ih =>
    obtain ⟨mac, n', heq⟩ := assignMacs_cons t client clients n
    intro c hc
    rw [heq] at hc
    rcases List.mem_cons.mp hc with rfl | hc
    · exact hP _ _ (h client (List.mem_cons_self ..))
    · exact ih (fun c hc => h c (List.mem_cons_of_mem _ hc)) n' c hc

theorem serverInit_clientIds (t : Template) :
    (serverInit t).1.clients.map Client.clientId = t.badges := by
  apply (assignMacs_clientIds t _ 0).trans
  rw [List.map_map]
  exact List.map_id t.badges

/-- Nothing is pending for a client after `server_init`. -/
theorem serverInit_client (t : Template) {client : Client}
    (h : client ∈ (serverInit t).1.clients) : client.WF ∧ client.pending = [] := by
  refine assignMacs_forall (P := fun c => c.WF ∧ c.pending = []) ?_ t (fun c hc => ?_) 0 client h
  · rintro c mac ⟨hwf, hpend⟩
    exact ⟨⟨hwf.head_lt, hwf.tail_lt, hwf.len_le⟩, hpend⟩
  · obtain ⟨badge, -, rfl⟩ := List.mem_map.mp hc
    exact ⟨fresh_wf badge, fresh_pending badge⟩

theorem serverInit_goodBadges (hnodup : t.badges.Nodup) (hint : ∀ b ∈ t.badges, FitsInt b) :
    GoodBadges (serverInit t).1.clients where
  nodup := by rwa [serverInit_clientIds]
  fitsInt client hmem := hint _ (serverInit_clientIds t ▸ List.mem_map_of_mem hmem)

/-- `server_init` logs messages and emits notifications; it frees and copies no frame. -/
theorem serverInit_effects (t : Template) {e : Effect} (h : e ∈ (serverInit t).2) :
    (∃ m, e = .zfLogf m) ∨ ∃ badge, e = .clientEmit badge := by
  have hassign : ∀ (cs : List Client) (n : ℕ), ∀ e ∈ (assignMacs t cs n).2, ∃ m, e = .zfLogf m := by
    intro cs
    induction cs with
    | nil => intro n e he; cases he
    | cons c cs ih =>
      intro n e he
      rw [assignMacs] at he
      split_ifs at he
      · exact ih _ e he
      · rcases List.mem_cons.mp he with rfl | he
        · exact ⟨_, rfl⟩
        · exact ih _ e he
      · exact ih _ e he
  unfold serverInit at h
  simp only [List.mem_append, List.mem_map] at h
  rcases h with ((h | h) | h) | ⟨c, -, rfl⟩
  · split_ifs at h
    · exact Or.inl ⟨_, List.mem_singleton.mp h⟩
    · cases h
  · split_ifs at h
    · exact Or.inl ⟨_, List.mem_singleton.mp h⟩
    · cases h
  · exact Or.inl (hassign _ _ e h)
  · exact Or.inr ⟨_, rfl⟩

/-- At first every queue is empty. -/
theorem fifoOf_init (t : Template) (clients : List Client) (i : ℕ) :
    fifoOf clients i (System.init t).trace = .empty := by
  have h : ∀ effects : List Effect, effects ⊆ (serverInit t).2 →
      fifoOf clients i (effects.map .effect) = .empty := by
    intro effects
    induction effects using List.reverseRecOn with
    | nil => intro _; rfl
    | append_singleton effects e ih =>
      intro hsub
      obtain ⟨hsub, he⟩ := List.append_subset.mp hsub
      rw [List.map_append, fifoOf_append, ih hsub]
      rcases serverInit_effects t (he (List.mem_singleton_self e)) with ⟨m, rfl⟩ | ⟨b, rfl⟩
      · rfl
      · rfl
  exact h _ (List.Subset.refl _)

/-- `server_init` leaves nothing in the trace but messages and notifications. -/
theorem filterMap_init {α : Type*} (t : Template) {f : Obs → Option α}
    (hlog : ∀ m, f (.effect (.zfLogf m)) = none)
    (hemit : ∀ badge, f (.effect (.clientEmit badge)) = none) :
    (System.init t).trace.filterMap f = [] := by
  apply List.filterMap_eq_nil_iff.mpr
  intro o ho
  obtain ⟨e, he, rfl⟩ := List.mem_map.mp ho
  rcases serverInit_effects t he with ⟨m, rfl⟩ | ⟨badge, rfl⟩
  · exact hlog m
  · exact hemit badge

theorem freed_init (t : Template) : freed (System.init t).trace = [] :=
  filterMap_init t (fun _ => rfl) fun _ => rfl

theorem copiedTo_init (t : Template) (badge : UInt64) :
    copiedTo badge (System.init t).trace = [] :=
  filterMap_init t (fun _ => rfl) fun _ => rfl

/-- The invariant holds after `server_init`. -/
theorem Inv.init (t : Template) : Inv (serverInit t).1.clients (System.init t) where
  doneInit := rfl
  keys := rfl
  wf client hmem := (serverInit_client t hmem).1
  uboot packet hmem := by cases hmem
  queue i hi := by
    rw [fifoOf_init]
    exact (pendingAt_eq (List.getElem?_eq_getElem hi)).trans
      (serverInit_client t (List.getElem_mem hi)).2
  taken i client _ := by
    rw [fifoOf_init, copiedTo_init]
    rfl
  returns := by
    have hnil : ReturnsRight (serverInit t).1.clients [] := along_nil
    exact hnil.append_effects (serverInit t).2

/-- Along runs in which no frame is longer than `BUF_SIZE` the invariant is preserved. -/
theorem preserves_inv {okPacket : Packet → Prop} (hok : ∀ p, okPacket p → p.length ≤ bufSize)
    (hg : GoodBadges clients) : (machine okPacket).Preserves (Inv clients) := by
  intro s e hs he
  cases e with
  | arrive packet => exact ⟨_, rfl, hs.arrive (hok packet he)⟩
  | rx i => exact hs.rx hg he

/-- The frames taken from the U-Boot driver, followed by those that wait in it, are the frames that
have arrived. -/
theorem freed_append_uboot (hg : GoodBadges (serverInit t).1.clients)
    {ts : List (Transition System Event)} {s : System}
    (hrun : (machine fun p => p.length ≤ bufSize).Run (System.init t) ts s) :
    freed s.trace ++ s.uboot.filter (·.length ≠ 0) =
      (arrived (events ts)).filter (·.length ≠ 0) := by
  have hpres : (machine fun p => p.length ≤ bufSize).Preserves (Inv (serverInit t).1.clients) :=
    preserves_inv (fun _ h => h) hg
  induction hrun with
  | nil => rw [freed_init]; rfl
  | @snoc ts s e s' hrun hok hstep ih =>
    rw [events_append, arrived_append, List.filter_append, ← ih, List.append_assoc]
    cases e with
    | arrive packet =>
      obtain rfl := Option.some.inj hstep
      exact congrArg (freed s.trace ++ ·) (List.filter_append ..)
    | rx i =>
      have hinv := hpres.run (Inv.init t) hrun
      have hi : i < (serverInit t).1.clients.length := length_of_keys hinv.keys ▸ hok
      obtain ⟨cs', hs', -⟩ := step_rx hinv hg hi
      obtain rfl := Option.some.inj (hstep.symm.trans hs')
      show freed (s.trace ++ _) ++ (leftBy s.uboot).filter _ = _ ++ (s.uboot.filter _ ++ [])
      rw [freed_append, freed_callTrace, List.append_assoc, takenBy_append_leftBy, List.append_nil]

/-- **The receive queues of `client_rx`**: after any run, the frames taken from the U-Boot driver
are the first of those that arrived, in order.  For every client, the indices of its cyclic array
are in range, the array holds the client's queue of at most 127 frames, and the frames copied to its
dataport are those taken from that queue (so they, followed by the pending ones, are the frames
accepted by it).  All calls have returned by the queue they found, and no further call fails. -/
theorem clientRx_refines_fifo (t : Template) (hnodup : t.badges.Nodup)
    (hlt : ∀ b ∈ t.badges, b.toNat < 0x80000000) {ts : List (Transition System Event)} {s : System}
    (hrun : (machine fun p => p.length ≤ bufSize).Run (System.init t) ts s) :
    freed s.trace ++ s.uboot.filter (·.length ≠ 0) =
      (arrived (events ts)).filter (·.length ≠ 0) ∧
    (∀ i client, s.drv.clients[i]? = some client →
      client.pendingRxHead < clientRxBufs ∧ client.pendingRxTail < clientRxBufs ∧
      client.pending = (fifoOf (serverInit t).1.clients i s.trace).queue ∧
      copiedTo client.clientId s.trace = (fifoOf (serverInit t).1.clients i s.trace).taken) ∧
    ReturnsRight (serverInit t).1.clients s.trace ∧
    ∀ e, (machine fun p => p.length ≤ bufSize).ok s e → (s.step e).isSome := by
  have hg := serverInit_goodBadges hnodup fun b hb => fitsInt_of_lt (hlt b hb)
  have hpres : (machine fun p => p.length ≤ bufSize).Preserves (Inv (serverInit t).1.clients) :=
    preserves_inv (fun _ h => h) hg
  have hinv := hpres.run (Inv.init t) hrun
  refine ⟨freed_append_uboot hg hrun, fun i client hi => ?_, hinv.returns, fun e he => ?_⟩
  · have hlt' : i < (serverInit t).1.clients.length :=
      length_of_keys hinv.keys ▸ (List.getElem?_eq_some_iff.mp hi).1
    have hwf := hinv.wf client (List.mem_of_getElem? hi)
    have hid := clientId_of_keys hinv.keys (List.getElem?_eq_getElem hlt') hi
    refine ⟨hwf.head_lt, hwf.tail_lt, ?_, ?_⟩
    · rw [← pendingAt_eq hi, hinv.queue i hlt']
    · rw [hid, hinv.taken i _ (List.getElem?_eq_getElem hlt')]
  · exact hpres.safe (Inv.init t) ts s e hrun he

/-- Clients with these badges, whose MACs differ in the last byte. -/
def withBadges (badges : List UInt64) : Template where
  badges
  clientHasMac _ := true
  clientGetMac id := #v[2, 0, 0, 0, 0, id.toUInt8]
  initialiseUbootDrivers := 0
  ubootEthInit := 0
  ubootEthGetEthaddr := Vector.replicate 6 0

/-- The results of the calls, with the callers. -/
def results (trace : List Obs) : List (ℕ × ℤ × ℤ) :=
  trace.filterMap fun
    | .returned i ret len => some (i, ret, len)
    | _ => none

/-- A frame for the client with badge 1, and a broadcast frame. -/
def twoFrames : List Packet := [[2, 0, 0, 0, 0, 1, 7], .replicate 6 0xff]

/-- Two clients call in turn; the first one has both frames pending, and the second one only the
broadcast frame. -/
theorem two_clients_refine_fifo : ∃ ts s,
    (machine fun p => p.length ≤ bufSize).Run (System.init (withBadges [1, 2])) ts s ∧
    events ts = twoFrames.map .arrive ++ [.rx 0, .rx 1, .rx 0, .rx 1] ∧
    freed s.trace = twoFrames ∧
    copiedTo 1 s.trace = [[2, 0, 0, 0, 0, 1, 7], .replicate 6 0xff] ∧
    copiedTo 2 s.trace = [.replicate 6 0xff] ∧
    results s.trace = [(0, 1, 7), (1, 0, 6), (0, 0, 6), (1, -1, 0)] ∧
    (∀ i client, s.drv.clients[i]? = some client →
      client.pending = (fifoOf (serverInit (withBadges [1, 2])).1.clients i s.trace).queue ∧
      copiedTo client.clientId s.trace =
        (fifoOf (serverInit (withBadges [1, 2])).1.clients i s.trace).taken) ∧
    ReturnsRight (serverInit (withBadges [1, 2])).1.clients s.trace := by
  obtain ⟨ts, s, hrun, hevents, hp⟩ := exists_run_of_exec
    (machine fun p => p.length ≤ bufSize) (System.init (withBadges [1, 2]))
    (twoFrames.map .arrive ++ [.rx 0, .rx 1, .rx 0, .rx 1])
    (fun r => freed r.2.trace = twoFrames ∧
      copiedTo 1 r.2.trace = [[2, 0, 0, 0, 0, 1, 7], .replicate 6 0xff] ∧
      copiedTo 2 r.2.trace = [.replicate 6 0xff] ∧
      results r.2.trace = [(0, 1, 7), (1, 0, 6), (0, 0, 6), (1, -1, 0)]) (by decide +kernel)
  obtain ⟨hfreed, hcopied, hcopied', hresults⟩ := of_decide_eq_true hp
  obtain ⟨-, hclients, hreturns, -⟩ := clientRx_refines_fifo (withBadges [1, 2])
    (by decide +kernel) (by simp [withBadges]) hrun
  exact ⟨ts, s, hrun, hevents, hfreed, hcopied, hcopied', hresults,
    fun i client hi => (hclients i client hi).2.2, hreturns⟩

end Camkes.EthdriverUboot
