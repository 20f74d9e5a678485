import Camkes.Data.BoundedFifo
import Camkes.Data.Ring
import Camkes.EthdriverUboot.ClientRx
import Mathlib.Data.List.Forall2
import Mathlib.Data.List.Induction
import Mathlib.Data.List.Nodup

/-!
# What `client_rx` does to the queues of the clients

`Client.pending` reads the cyclic array of a client as a list of frames, oldest first.  Each part of
`client_rx` advances the pending lists of all clients by a function (`Advances`):

* `pendRx_spec`, `copyRx_spec`: a received frame is offered to the clients it is routed to;
* `drain_spec`: the receive loop offers all frames up to the first report of no frame;
* `deliverRx_spec`: the call then removes the caller's oldest pending frame and returns by the
  number of frames that were pending (`rxOutcome`).

`clientRx_spec` puts them together.
-/

namespace Camkes.EthdriverUboot

open CArray BoundedFifo

/-! ### The queue of one client -/

/-- The bytes of a received frame. -/
def RxFrame.bytes (frame : RxFrame) : Packet := frame.buf.toList.take frame.len

/-- The slots in use, oldest first. -/
def Client.frames (client : Client) : List RxFrame :=
  Ring.contents client.pendingRx client.pendingRxHead client.pendingRxTail

/-- The frames pending for a client, oldest first. -/
def Client.pending (client : Client) : List Packet := client.frames.map RxFrame.bytes

/-- The cyclic array of a client is in order: indices in range, no frame longer than its slot. -/
structure Client.WF (client : Client) : Prop where
  head_lt : client.pendingRxHead < clientRxBufs
  tail_lt : client.pendingRxTail < clientRxBufs
  len_le : ∀ frame ∈ client.frames, frame.len ≤ bufSize

/-- What identifies a client and never changes. -/
def Client.key (client : Client) : Mac × UInt64 := (client.mac, client.clientId)

theorem length_bytes {frame : RxFrame} (h : frame.len ≤ bufSize) :
    frame.bytes.length = frame.len := by
  rw [RxFrame.bytes, List.length_take, Vector.length_toList, Nat.min_eq_left h]

theorem length_pending (client : Client) :
    client.pending.length =
      Ring.count clientRxBufs client.pendingRxHead client.pendingRxTail := by
  rw [Client.pending, List.length_map, Client.frames, Ring.length_contents]

theorem fresh_pending (badge : UInt64) : (Client.fresh badge).pending = [] := by
  rw [Client.pending, Client.frames]
  exact congrArg _ (Ring.contents_self _ 0)

theorem fresh_wf (badge : UInt64) : (Client.fresh badge).WF where
  head_lt := (Fact.out : 0 < clientRxBufs)
  tail_lt := (Fact.out : 0 < clientRxBufs)
  len_le frame h := by
    rw [Client.frames] at h
    simp only [Client.fresh, Ring.contents_self, List.not_mem_nil] at h

/-- **Push**: a frame is appended unless 127 frames are pending, in which case it is dropped. -/
theorem pendRx_spec {client : Client} (hc : client.WF) {packet : Packet}
    (hp : packet.length ≤ bufSize) :
    ∃ client', pendRx packet client = some client' ∧ client'.WF ∧ client'.key = client.key ∧
      client'.pending = offerQueue (clientRxBufs - 1) client.pending packet := by
  have hh := hc.head_lt
  have ht := hc.tail_lt
  have hlen := length_pending client
  unfold pendRx
  by_cases hfull : (client.pendingRxHead + 1) % clientRxBufs = client.pendingRxTail
  · have hcount := (Ring.succ_eq_tail_iff hh ht).mp hfull
    refine ⟨client, if_neg (not_not.mpr hfull), hc, rfl, ?_⟩
    exact (offerQueue_of_le (Nat.le_of_eq (hlen.trans hcount).symm) _).symm
  · rw [if_pos hfull]
    have hcount : Ring.count clientRxBufs client.pendingRxHead client.pendingRxTail
        < clientRxBufs - 1 := by
      have hlt := Ring.count_lt hh client.pendingRxTail
      have hne := (Ring.succ_eq_tail_iff hh ht).not.mp hfull
      omega
    obtain ⟨buf, hbuf, hlist⟩ :=
      memcpy_eq_some (client.pendingRx[client.pendingRxHead]).buf hp
    refine ⟨{ client with
      pendingRx := client.pendingRx.set client.pendingRxHead { buf, len := packet.length }
      pendingRxHead := (client.pendingRxHead + 1) % clientRxBufs }, ?_, ?_, rfl, ?_⟩
    · simp only [Vector.getElem?_eq_getElem hh, hbuf, store_of_lt _ hh, Option.bind_eq_bind,
        Option.bind_some]
    · refine ⟨Ring.succ_lt hh, ht, ?_⟩
      intro frame hframe
      rw [Client.frames, Ring.contents_push _ hh ht hfull] at hframe
      rcases List.mem_append.mp hframe with hold | hnew
      · exact hc.len_le frame hold
      · obtain rfl := List.mem_singleton.mp hnew
        exact hp
    · rw [offerQueue_of_lt (by rw [hlen]; exact hcount)]
      unfold Client.pending Client.frames
      rw [Ring.contents_push _ hh ht hfull, List.map_append, List.map_singleton]
      congr 2
      rw [RxFrame.bytes, hlist, List.take_left]

/-! ### The queues of all clients -/

/-- The frames pending for client `i`. -/
def pendingAt (clients : List Client) (i : ℕ) : List Packet :=
  (clients[i]?).elim [] Client.pending

/-- The pending list of every client `i` advances by `f i`. -/
structure Advances (clients clients' : List Client) (f : ℕ → List Packet → List Packet) : Prop where
  keys : clients'.map Client.key = clients.map Client.key
  wf : ∀ client ∈ clients', client.WF
  queues : ∀ i < clients.length, pendingAt clients' i = f i (pendingAt clients i)

variable {clients clients' clients'' : List Client}

theorem length_of_keys (h : clients'.map Client.key = clients.map Client.key) :
    clients'.length = clients.length := by
  simpa using congrArg List.length h

theorem Advances.refl (h : ∀ client ∈ clients, client.WF) :
    Advances clients clients fun _ q => q :=
  ⟨rfl, h, fun _ _ => rfl⟩

theorem Advances.trans {f g : ℕ → List Packet → List Packet} (h₁ : Advances clients clients' f)
    (h₂ : Advances clients' clients'' g) :
    Advances clients clients'' fun i q => g i (f i q) where
  keys := h₂.keys.trans h₁.keys
  wf := h₂.wf
  queues i hi := by rw [h₂.queues i (by rwa [length_of_keys h₁.keys]), h₁.queues i hi]

theorem Advances.congr {f g : ℕ → List Packet → List Packet} (h : Advances clients clients' f)
    (hfg : ∀ i < clients.length, f i (pendingAt clients i) = g i (pendingAt clients i)) :
    Advances clients clients' g :=
  ⟨h.keys, h.wf, fun i hi => (h.queues i hi).trans (hfg i hi)⟩

theorem pendingAt_eq {i : ℕ} {client : Client} (h : clients[i]? = some client) :
    pendingAt clients i = client.pending := by
  rw [pendingAt, h, Option.elim_some]

/-- Replacing one client by one with the same key advances that client's queue alone. -/
theorem Advances.set {i : ℕ} {client client' : Client} {f : List Packet → List Packet}
    (h : ∀ client ∈ clients, client.WF) (hi : clients[i]? = some client) (hwf : client'.WF)
    (hkey : client'.key = client.key) (hq : client'.pending = f client.pending) :
    Advances clients (clients.set i client') fun j q => if j = i then f q else q where
  keys := by
    rw [List.map_set, hkey]
    apply List.ext_getElem?
    intro j
    rw [List.getElem?_set]
    split_ifs with hij hlt
    · subst hij
      rw [List.getElem?_map, hi, Option.map_some]
    · subst hij
      exact (List.getElem?_eq_none (Nat.not_lt.mp hlt)).symm
    · rfl
  wf c hc := by
    rcases List.mem_or_eq_of_mem_set hc with hmem | rfl
    · exact h c hmem
    · exact hwf
  queues j hj := by
    simp only [pendingAt, List.getElem?_set]
    by_cases hij : i = j
    · subst hij
      rw [if_pos rfl, if_pos hj, if_pos rfl, hi, Option.elim_some, Option.elim_some, hq]
    · rw [if_neg hij, if_neg (Ne.symm hij)]

/-! ### Keys determine routing and callers -/

/-- Where an attribute of the entries is distinct, it determines the index. -/
theorem getElem_inj_of_nodup_map {α β : Type*} {f : α → β} {l : List α} (h : (l.map f).Nodup)
    {i j : ℕ} (hi : i < l.length) (hj : j < l.length) : f l[i] = f l[j] ↔ i = j := by
  have hi' : i < (l.map f).length := by rwa [List.length_map]
  have hj' : j < (l.map f).length := by rwa [List.length_map]
  have hinj : (l.map f)[i] = (l.map f)[j] ↔ i = j := List.Nodup.getElem_inj_iff h
  simpa only [List.getElem_map] using hinj

theorem clientId_of_keys (h : clients'.map Client.key = clients.map Client.key) {i : ℕ}
    {client client' : Client} (hi : clients[i]? = some client) (hi' : clients'[i]? = some client') :
    client'.clientId = client.clientId := by
  have hkey := congrArg (fun keys : List (Mac × UInt64) => keys[i]?) h
  simp only [List.getElem?_map, hi, hi', Option.map_some, Option.some.injEq] at hkey
  exact congrArg Prod.snd hkey

/-- Which client a frame is for depends on the addresses only. -/
theorem detectClient_congr (h : clients'.map Client.key = clients.map Client.key)
    (packet : Packet) : detectClient clients' packet = detectClient clients packet := by
  have hfind : ∀ cs : List Client, (cs.findIdx? fun client => client.mac.toList = packet.take 6) =
      (cs.map Client.key).findIdx? fun key => key.1.toList = packet.take 6 := by
    intro cs
    rw [List.findIdx?_map]
    rfl
  rw [detectClient, detectClient, hfind clients', hfind clients, h]

theorem routedTo_congr (h : clients'.map Client.key = clients.map Client.key) (packet : Packet)
    (i : ℕ) : routedTo clients' packet i = routedTo clients packet i := by
  rw [routedTo, routedTo, detectClient_congr h]

/-- A badge below `0x80000000` survives the way through `unsigned int` and `int`. -/
theorem fitsInt_of_lt {badge : UInt64} (h : badge.toNat < 0x80000000) : FitsInt badge := by
  have hbv : badge.toBitVec.toNat < 0x80000000 := h
  apply UInt64.toBitVec_inj.mp
  apply BitVec.eq_of_toNat_eq
  have hmsb : (BitVec.setWidth 32 badge.toBitVec).msb = false := by
    rw [BitVec.msb_eq_false_iff_two_mul_lt, BitVec.toNat_setWidth]
    omega
  simp only [senderWord, Int64.toBitVec_toUInt64, Int32.toBitVec_toInt64, UInt32.toBitVec_toInt32,
    UInt64.toBitVec_toUInt32]
  rw [BitVec.toNat_signExtend, hmsb]
  simp only [BitVec.toNat_setWidth, Bool.false_eq_true, if_false]
  omega

/-- The loop over the clients finds the last one with the caller's badge. -/
theorem findSender_append_singleton (clients : List Client) (client : Client) (sender : UInt32) :
    findSender (clients ++ [client]) sender =
      if client.clientId = senderWord sender then some clients.length
      else findSender clients sender := by
  simp only [findSender, List.zipIdx_append, List.foldl_append, List.zipIdx_cons, List.zipIdx_nil,
    List.foldl_cons, List.foldl_nil, Nat.zero_add]

/-- A client that is found has the caller's badge. -/
theorem clientId_of_findSender {clients : List Client} {sender : UInt32} {i : ℕ}
    (h : findSender clients sender = some i) :
    ∃ client, clients[i]? = some client ∧ client.clientId = senderWord sender := by
  induction clients using List.reverseRecOn with
  | nil => cases h
  | append_singleton cs last ih =>
    rw [findSender_append_singleton] at h
    split_ifs at h with hid
    · obtain rfl := Option.some.inj h
      exact ⟨last, List.getElem?_concat_length, hid⟩
    · obtain ⟨client, hi, hclient⟩ := ih h
      have hlt := (List.getElem?_eq_some_iff.mp hi).1
      exact ⟨client, by rw [List.getElem?_append_left hlt, hi], hclient⟩

/-- With distinct badges that fit an `int`, a caller is found under its own index. -/
theorem findSender_eq {clients : List Client} (hids : (clients.map Client.clientId).Nodup)
    (hint : ∀ client ∈ clients, FitsInt client.clientId) {i : ℕ} {client : Client}
    (hi : clients[i]? = some client) :
    findSender clients client.clientId.toUInt32 = some i := by
  induction clients using List.reverseRecOn with
  | nil => cases hi
  | append_singleton cs last ih =>
    have hmem : client ∈ cs ++ [last] := List.mem_of_getElem? hi
    rw [findSender_append_singleton, hint client hmem]
    rw [List.map_append, List.map_singleton, List.nodup_append] at hids
    rcases Nat.lt_trichotomy i cs.length with hlt' | rfl | hgt
    · rw [List.getElem?_append_left hlt'] at hi
      have hne : last.clientId ≠ client.clientId := fun he =>
        hids.2.2 _ (List.mem_map_of_mem (List.mem_of_getElem? hi)) _ (List.mem_singleton_self _)
          he.symm
      rw [if_neg hne]
      exact ih hids.1 (fun c hc => hint c (List.mem_append_left _ hc)) hi
    · rw [List.getElem?_append_right (Nat.le_refl _), Nat.sub_self] at hi
      obtain rfl : last = client := by simpa using hi
      rw [if_pos rfl]
    · rw [List.getElem?_eq_none (by simp; omega)] at hi
      cases hi

/-! ### The receive loop -/

/-- A frame is offered to the queue of client `i` if it is routed to that client. -/
def offerRouted (clients : List Client) (i : ℕ) (q : List Packet) (packet : Packet) :
    List Packet :=
  if routedTo clients packet i then offerQueue (clientRxBufs - 1) q packet else q

theorem offerRouted_congr (h : clients'.map Client.key = clients.map Client.key) (i : ℕ) :
    offerRouted clients' i = offerRouted clients i := by
  funext q packet
  unfold offerRouted
  rw [routedTo_congr h]

/-- Storing a frame for every client never fails, and offers it to every queue. -/
theorem mapM_pendRx (h : ∀ client ∈ clients, client.WF) {packet : Packet}
    (hp : packet.length ≤ bufSize) :
    ∃ clients', clients.mapM (pendRx packet) = some clients' ∧
      Advances clients clients' fun _ q => offerQueue (clientRxBufs - 1) q packet := by
  induction clients with
  | nil => exact ⟨[], rfl, rfl, by simp, by simp⟩
  | cons client clients ih =>
    obtain ⟨client', hclient', hwf, hkey, hq⟩ := pendRx_spec (h client (List.mem_cons_self ..)) hp
    obtain ⟨rest, hrest, hadv⟩ := ih fun c hc => h c (List.mem_cons_of_mem _ hc)
    refine ⟨client' :: rest, ?_, ?_, ?_, ?_⟩
    · rw [List.mapM_cons, hclient', hrest]
      rfl
    · rw [List.map_cons, List.map_cons, hkey, hadv.keys]
    · intro c hc
      rcases List.mem_cons.mp hc with rfl | hc
      · exact hwf
      · exact hadv.wf c hc
    · intro i hi
      cases i with
      | zero => exact hq
      | succ i => exact hadv.queues i (Nat.lt_of_succ_lt_succ hi)

/-- The index `detect_client` finds is the index of a client. -/
theorem detectClient_lt {packet : Packet} {i : ℕ} (h : detectClient clients packet = some i) :
    i < clients.length := by
  unfold detectClient at h
  split_ifs at h
  exact (List.findIdx?_eq_some_iff_getElem.mp h).1

/-- Storing a frame never fails, and offers it to the queues it is routed to. -/
theorem copyRx_spec (h : ∀ client ∈ clients, client.WF) {packet : Packet}
    (hp : packet.length ≤ bufSize) :
    ∃ clients', copyRx clients packet = some clients' ∧
      Advances clients clients' fun i q => offerRouted clients i q packet := by
  unfold copyRx offerRouted routedTo
  cases hd : detectClient clients packet with
  | none =>
    by_cases hall : (isBroadcast packet || isMulticast packet) = true
    · obtain ⟨clients', hclients', hadv⟩ := mapM_pendRx h hp
      simp only [hall, if_true]
      exact ⟨clients', hclients', hadv⟩
    · simp only [hall]
      exact ⟨clients, rfl, Advances.refl h⟩
  | some i =>
    have hi := List.getElem?_eq_getElem (detectClient_lt hd)
    have hmem := List.getElem_mem (detectClient_lt hd)
    obtain ⟨client', hclient', hwf, hkey, hq⟩ := pendRx_spec (h _ hmem) hp
    refine ⟨clients.set i client', by simp only [hi, hclient', Option.bind_eq_bind,
      Option.bind_some], ?_⟩
    refine (Advances.set (f := fun q => offerQueue (clientRxBufs - 1) q packet) h hi hwf hkey
      hq).congr fun j _ => ?_
    simp only [beq_iff_eq]

/-- The frames taken by the receive loop: those before the first report of no frame. -/
def takenBy (uboot : List Packet) : List Packet := uboot.takeWhile fun packet => packet.length ≠ 0

/-- The frames left in the U-Boot driver after the receive loop. -/
def leftBy (uboot : List Packet) : List Packet :=
  (uboot.dropWhile fun packet => packet.length ≠ 0).tail

theorem takenBy_cons_of_eq {packet : Packet} (h : packet.length = 0) (uboot : List Packet) :
    takenBy (packet :: uboot) = [] ∧ leftBy (packet :: uboot) = uboot := by
  constructor
  · exact List.takeWhile_cons_of_neg (by simp [h])
  · rw [leftBy, List.dropWhile_cons_of_neg (by simp [h]), List.tail_cons]

theorem takenBy_cons_of_ne {packet : Packet} (h : packet.length ≠ 0) (uboot : List Packet) :
    takenBy (packet :: uboot) = packet :: takenBy uboot ∧
      leftBy (packet :: uboot) = leftBy uboot := by
  constructor
  · exact List.takeWhile_cons_of_pos (by simpa using h)
  · rw [leftBy, List.dropWhile_cons_of_pos (by simpa using h), ← leftBy]

/-- The loop takes every frame up to the first report of no frame, offers it to the clients it is
routed to and frees it. -/
theorem drain_spec (h : ∀ client ∈ clients, client.WF) {uboot : List Packet}
    (hp : ∀ packet ∈ uboot, packet.length ≤ bufSize) :
    ∃ clients', drain clients uboot =
        some (clients', leftBy uboot, (takenBy uboot).map .ubootEthFreePacket) ∧
      Advances clients clients' fun i q => (takenBy uboot).foldl (offerRouted clients i) q := by
  induction uboot generalizing clients with
  | nil => exact ⟨clients, rfl, Advances.refl h⟩
  | cons packet uboot ih =>
    rw [drain]
    by_cases hempty : packet.length = 0
    · obtain ⟨hT, hL⟩ := takenBy_cons_of_eq hempty uboot
      rw [if_pos hempty, hT, hL]
      exact ⟨clients, rfl, Advances.refl h⟩
    · obtain ⟨hT, hL⟩ := takenBy_cons_of_ne hempty uboot
      rw [if_neg hempty, if_neg (Nat.not_lt.mpr (hp packet (List.mem_cons_self ..)))]
      obtain ⟨cs, hcs, hadv⟩ := copyRx_spec h (hp packet (List.mem_cons_self ..))
      obtain ⟨cs', hcs', hadv'⟩ := ih hadv.wf fun p hmem => hp p (List.mem_cons_of_mem _ hmem)
      refine ⟨cs', by simp [hcs, hcs', hT, hL], (hadv.trans hadv').congr fun i _ => ?_⟩
      rw [hT, List.foldl_cons, offerRouted_congr hadv.keys]

/-! ### Handing the oldest frame to the caller -/

/-- The result of a call for the frames pending at the caller: the return value, `*len` and the
effects. -/
def rxOutcome (badge : UInt64) : List Packet → ℤ × ℤ × List Effect
  | [] => (-1, 0, [.clientEmit badge.toUInt32])
  | [frame] => (0, frame.length, [.memcpyDataport badge frame, .clientEmit badge.toUInt32])
  | frame :: _ :: _ => (1, frame.length, [.memcpyDataport badge frame])

theorem clientIds_of_keys (h : clients'.map Client.key = clients.map Client.key) :
    clients'.map Client.clientId = clients.map Client.clientId := by
  have hsnd := congrArg (List.map Prod.snd) h
  rwa [List.map_map, List.map_map] at hsnd

/-- The badges of the clients are distinct and fit an `int`. -/
structure GoodBadges (clients : List Client) : Prop where
  nodup : (clients.map Client.clientId).Nodup
  fitsInt : ∀ client ∈ clients, FitsInt client.clientId

theorem goodBadges_congr (h : clients'.map Client.key = clients.map Client.key)
    (hg : GoodBadges clients) : GoodBadges clients' := by
  have hids := clientIds_of_keys h
  refine ⟨hids ▸ hg.nodup, fun client hmem => ?_⟩
  have hid : client.clientId ∈ clients.map Client.clientId :=
    hids ▸ List.mem_map_of_mem hmem
  obtain ⟨c, hc, he⟩ := List.mem_map.mp hid
  exact he ▸ hg.fitsInt c hc

theorem GoodBadges.clientId_inj (hg : GoodBadges clients) {i j : ℕ} (hi : i < clients.length)
    (hj : j < clients.length) : clients[i].clientId = clients[j].clientId ↔ i = j :=
  getElem_inj_of_nodup_map hg.nodup hi hj

/-- A client without its oldest pending frame. -/
theorem Client.WF.pop {client client' : Client} (hwf : client.WF)
    (ht : client.pendingRxTail < clientRxBufs)
    (hempty : client.pendingRxHead ≠ client.pendingRxTail)
    (hclient' : client' =
      { client with pendingRxTail := (client.pendingRxTail + 1) % clientRxBufs }) :
    client'.WF ∧ (client.pendingRx[client.pendingRxTail]).len ≤ bufSize ∧
      client.pending = (client.pendingRx[client.pendingRxTail]).bytes :: client'.pending ∧
      ((client.pendingRxTail + 1) % clientRxBufs = client.pendingRxHead ↔
        client'.pending = []) := by
  subst hclient'
  have hh := hwf.head_lt
  have hpop := Ring.contents_pop client.pendingRx hh ht hempty
  set client' := { client with pendingRxTail := (client.pendingRxTail + 1) % clientRxBufs }
  have hframes : client.frames = client.pendingRx[client.pendingRxTail] :: client'.frames := hpop
  have hwf' : client'.WF :=
    ⟨hh, Ring.succ_lt ht, fun f hf => hwf.len_le f (hframes ▸ List.mem_cons_of_mem _ hf)⟩
  refine ⟨hwf', hwf.len_le _ (hframes ▸ List.mem_cons_self ..), ?_, ?_⟩
  · rw [Client.pending, hframes, List.map_cons, Client.pending]
  · rw [Client.pending, List.map_eq_nil_iff, Client.frames,
      Ring.contents_eq_nil_iff _ hwf'.head_lt hwf'.tail_lt]
    exact eq_comm

/-- **Pop**: the oldest pending frame of the client that is found is copied to its dataport. -/
theorem deliverRx_found (h : ∀ client ∈ clients, client.WF) {sender : UInt32} {i : ℕ}
    (hfind : findSender clients sender = some i) {client : Client}
    (hi : clients[i]? = some client) :
    ∃ clients', deliverRx clients sender =
        some ((rxOutcome client.clientId client.pending).1,
          (rxOutcome client.clientId client.pending).2.1, clients',
          (rxOutcome client.clientId client.pending).2.2) ∧
      Advances clients clients' fun j q => if j = i then q.tail else q := by
  have hwf := h client (List.mem_of_getElem? hi)
  have ht := hwf.tail_lt
  simp only [deliverRx, hfind, hi, Option.bind_eq_bind, Option.bind_some]
  by_cases hempty : client.pendingRxHead = client.pendingRxTail
  · have hpend : client.pending = [] := by
      rw [Client.pending, Client.frames, (Ring.contents_eq_nil_iff _ hwf.head_lt ht).mpr hempty,
        List.map_nil]
    refine ⟨clients, by simp [hempty, hpend, rxOutcome], (Advances.refl h).congr fun j _ => ?_⟩
    split_ifs with hj
    · subst hj
      rw [pendingAt_eq hi, hpend, List.tail_nil]
    · rfl
  · obtain ⟨hwf', hlen, hpend, hlast⟩ := hwf.pop ht hempty rfl
    refine ⟨_, ?_, Advances.set h hi hwf' rfl (by rw [hpend, List.tail_cons])⟩
    rw [if_neg hempty]
    have hslice : slice (client.pendingRx[client.pendingRxTail]).buf 0
        (client.pendingRx[client.pendingRxTail]).len =
          some (client.pendingRx[client.pendingRxTail]).bytes := by
      rw [slice_of_le _ ((Nat.zero_add _).symm ▸ hlen)]
      rfl
    simp only [Vector.getElem?_eq_getElem ht, Option.bind_some, hslice]
    rw [hpend]
    have hb := length_bytes hlen
    cases hl : Client.pending { client with
        pendingRxTail := (client.pendingRxTail + 1) % clientRxBufs } with
    | nil =>
      rw [if_pos (hlast.mpr hl)]
      simp only [rxOutcome, hb]
    | cons q qs =>
      rw [if_neg (hlast.not.mpr (hl ▸ List.cons_ne_nil q qs))]
      simp only [rxOutcome, hb]

/-- Delivering a frame never fails: it takes the oldest one of the caller's queue. -/
theorem deliverRx_spec (h : ∀ client ∈ clients, client.WF) (hg : GoodBadges clients) {i : ℕ}
    {client : Client} (hi : clients[i]? = some client) :
    ∃ clients', deliverRx clients client.clientId.toUInt32 =
        some ((rxOutcome client.clientId client.pending).1,
          (rxOutcome client.clientId client.pending).2.1, clients',
          (rxOutcome client.clientId client.pending).2.2) ∧
      Advances clients clients' fun j q => if j = i then q.tail else q :=
  deliverRx_found h (findSender_eq hg.nodup hg.fitsInt hi) hi

/-! ### The whole call -/

/-- **`client_rx` after initialisation**: the queues of all clients take in the received frames,
then the caller's queue loses its oldest frame, and the result is that of `rxOutcome`. -/
theorem clientRx_spec (h : ∀ client ∈ clients, client.WF) (hg : GoodBadges clients)
    {uboot : List Packet} (hp : ∀ packet ∈ uboot, packet.length ≤ bufSize) {i : ℕ}
    {client : Client} (hi : clients[i]? = some client) :
    ∃ clients', clientRx { doneInit := true, clients } uboot client.clientId.toUInt32 =
        (let out := rxOutcome client.clientId
          ((takenBy uboot).foldl (offerRouted clients i) (pendingAt clients i))
        some { ret := out.1, len := out.2.1, drv := { doneInit := true, clients := clients' },
               uboot := leftBy uboot,
               effects := (takenBy uboot).map .ubootEthFreePacket ++ out.2.2 }) ∧
      Advances clients clients' fun j q =>
        let q' := (takenBy uboot).foldl (offerRouted clients j) q
        if j = i then q'.tail else q' := by
  obtain ⟨cs, hcs, hadv⟩ := drain_spec h hp
  have hlen : i < clients.length := (List.getElem?_eq_some_iff.mp hi).1
  have hlen' : i < cs.length := by rwa [length_of_keys hadv.keys]
  have hi' := List.getElem?_eq_getElem hlen'
  have hid := clientId_of_keys hadv.keys hi hi'
  obtain ⟨cs', hcs', hadv'⟩ := deliverRx_spec hadv.wf (goodBadges_congr hadv.keys hg) hi'
  rw [hid] at hcs'
  have hq := hadv.queues i hlen
  rw [pendingAt_eq hi'] at hq
  rw [hq] at hcs'
  refine ⟨cs', ?_, hadv.trans hadv'⟩
  simp only [clientRx, Bool.not_true, Bool.false_eq_true, if_false, hcs, hcs', Option.bind_eq_bind,
    Option.bind_some]

end Camkes.EthdriverUboot
