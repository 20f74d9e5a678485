import Camkes.EthdriverUboot.Dataports
import Camkes.EthdriverUboot.Equiv.Isolation
import Camkes.Machine.Unwinding

/-!
# Isolation of the clients in both directions

`Isolation` is about `client_rx` alone.  Here the clients also send, and read and write their
dataports in between.  What client `i` sees is a function of the `Port` that belongs to it: its
queue, the contents of its dataport, and what it has seen (`unwinds`).  So the other clients cannot
change what `i` receives or sends (`seenBy_filter_concerns`), and a received frame is sent back as
it is, whatever they do in the meantime (`sent_received`).
-/

namespace Camkes.EthdriverUboot

open CArray BoundedFifo Machine

variable {clients : List Client} {i j : ℕ} {s : Component}

/-! ### The component without its dataports -/

/-- What `client_rx` has logged. -/
def rxTrace (log : List Entry) : List Obs :=
  log.filterMap fun
    | .rx o => some o
    | _ => none

def Component.toSystem (s : Component) : System where
  drv := s.drv
  uboot := s.uboot
  trace := rxTrace s.log

@[simp] theorem rxTrace_append (log more : List Entry) :
    rxTrace (log ++ more) = rxTrace log ++ rxTrace more :=
  List.filterMap_append

@[simp] theorem rxTrace_map (trace : List Obs) : rxTrace (trace.map .rx) = trace := by
  rw [rxTrace, List.filterMap_map]
  exact List.filterMap_some

/-- A client sees of a call of `client_rx` what it observes. -/
theorem filter_seenBy_map (badge : UInt64) (i : ℕ) (trace : List Obs) :
    (trace.map Entry.rx).filter (Entry.seenBy badge i) = (observe badge i trace).map .rx := by
  rw [List.filter_map, observe]
  congr 1
  apply List.filter_congr
  intro o _
  cases o with
  | effect e => cases e <;> rfl
  | returned => rfl

/-- A step of the system without dataports is one call of `client_rx` for a client of the table. -/
theorem step_rx_inv {s s' : System} (h : s.step (.rx i) = some s') :
    ∃ client r, s.drv.clients[i]? = some client ∧
      clientRx s.drv s.uboot client.clientId.toUInt32 = some r ∧
      s' = { drv := r.drv, uboot := r.uboot, trace := s.trace ++ r.trace i } := by
  obtain ⟨client, hclient, h⟩ := Option.bind_eq_some_iff.mp h
  obtain ⟨r, hr, h⟩ := Option.bind_eq_some_iff.mp h
  exact ⟨client, r, hclient, hr, (Option.some.inj h).symm⟩

/-! ### What each function does to the port of its caller -/

theorem effects_of_trace {r : RxResult} {badge : UInt64} {packets q : List Packet}
    (h : r.trace i = callTrace badge i packets q) :
    r.effects = packets.map .ubootEthFreePacket ++ (rxOutcome badge q).2.2 := by
  have hinj : Function.Injective Obs.effect := fun _ _ heq => Obs.effect.inj heq
  exact List.map_injective_iff.mpr hinj (List.append_inj_left' h rfl)

/-- A dataport after a call of `client_rx` by its client, with these frames in the queue. -/
def received (q : List Packet) (dataport : Dataport) : Dataport :=
  match q with
  | [] => dataport
  | frame :: _ => (memcpy dataport frame).getD dataport

/-- Freeing packets writes to no dataport. -/
theorem foldlM_frees (dataports : UInt64 → Dataport) (packets : List Packet)
    (effects : List Effect) :
    (packets.map Effect.ubootEthFreePacket ++ effects).foldlM copyToDataport dataports =
      effects.foldlM copyToDataport dataports := by
  induction packets with
  | nil => rfl
  | cons packet packets ih => exact ih

/-- What a call returns to its client is copied to the dataport of that client, and to no other. -/
theorem foldlM_outcome (dataports : UInt64 → Dataport) (badge : UInt64) {q : List Packet}
    (hq : ∀ packet ∈ q, packet.length ≤ bufSize) :
    (rxOutcome badge q).2.2.foldlM copyToDataport dataports =
      some (Function.update dataports badge (received q (dataports badge))) := by
  rcases q with - | ⟨frame, rest⟩
  · rw [received, Function.update_eq_self]
    rfl
  · have hle : frame.length ≤ shmemSize :=
      Nat.le_trans (hq frame (List.mem_cons_self ..)) (by decide)
    obtain ⟨dataport, hcopy, -⟩ := memcpy_eq_some (dataports badge) hle
    have hreceived : received (frame :: rest) (dataports badge) = dataport := by
      rw [received, hcopy, Option.getD_some]
    rw [hreceived]
    cases rest <;> simp [rxOutcome, copyToDataport, hcopy]

/-- A queue gets no frame but those it is offered. -/
theorem mem_foldl_offerRouted {packets q : List Packet} {packet : Packet}
    (h : packet ∈ packets.foldl (offerRouted clients i) q) : packet ∈ packets ∨ packet ∈ q := by
  induction packets generalizing q with
  | nil => exact Or.inr h
  | cons p packets ih =>
    rcases ih h with hmem | hmem
    · exact Or.inl (List.mem_cons_of_mem _ hmem)
    · unfold offerRouted offerQueue at hmem
      split_ifs at hmem
      · rcases List.mem_append.mp hmem with hold | hnew
        · exact Or.inr hold
        · obtain rfl := List.mem_singleton.mp hnew
          exact Or.inl (List.mem_cons_self ..)
      · exact Or.inr hmem
      · exact Or.inr hmem

/-- A frame in the pending array fits into one of its buffers. -/
theorem length_le_of_mem_pendingAt {cs : List Client} {packet : Packet}
    (h : packet ∈ pendingAt cs i) : packet.length ≤ bufSize := by
  rw [pendingAt] at h
  cases hi : cs[i]? with
  | none => simp [hi] at h
  | some client =>
    rw [hi, Option.elim_some, Client.pending] at h
    obtain ⟨frame, -, rfl⟩ := List.mem_map.mp h
    rw [RxFrame.bytes, List.length_take, Vector.length_toList]
    exact Nat.min_le_right ..

/-- What `client_tx` makes of the dataport of its caller. -/
def txOutcome (dataport : Dataport) (len ubootEthSend : ℤ) : TxResult :=
  if len < 12 then { ret := -1, sent := none }
  else
    { ret := if ubootEthSend = 0 then ethifTxComplete else ethifTxFailed
      sent := some (dataport.toList.take (min len bufSize).toNat) }

/-! ### The invariant -/

/-- The invariant of `Isolation`. -/
def ComponentInv (clients : List Client) (s : Component) : Prop := FrameInv clients s.toSystem

namespace ComponentInv

variable (h : ComponentInv clients s)
include h

theorem length_eq : s.drv.clients.length = clients.length := length_of_keys h.1.keys

/-- The table keeps the address and the badge of each client. -/
theorem exists_client (hj : j < clients.length) :
    ∃ client, s.drv.clients[j]? = some client ∧ client.mac = clients[j].mac ∧
      client.clientId = clients[j].clientId := by
  have hlt : j < s.drv.clients.length := h.length_eq ▸ hj
  have hkey := congrArg (fun keys : List (Mac × UInt64) => keys[j]?) h.1.keys
  simp only [List.getElem?_map, List.getElem?_eq_getElem hj, Option.map_some] at hkey
  rw [show s.toSystem.drv.clients[j]? = some s.drv.clients[j] from List.getElem?_eq_getElem hlt,
    Option.map_some, Option.some_inj] at hkey
  exact ⟨_, List.getElem?_eq_getElem hlt, congrArg Prod.fst hkey, congrArg Prod.snd hkey⟩

theorem findSender (hg : GoodBadges clients) (hj : j < clients.length) :
    findSender s.drv.clients clients[j].clientId.toUInt32 = some j := by
  have hg' : GoodBadges s.drv.clients := goodBadges_congr h.1.keys hg
  obtain ⟨client, hclient, -, hid⟩ := h.exists_client hj
  rw [← hid]
  exact findSender_eq hg'.nodup hg'.fitsInt hclient

/-- `client_tx` reads only the dataport of its caller. -/
theorem clientTx_eq (hg : GoodBadges clients) (hj : j < clients.length)
    (dataports : UInt64 → Dataport) (len ubootEthSend : ℤ) :
    clientTx s.drv dataports clients[j].clientId.toUInt32 len ubootEthSend =
      some (txOutcome (dataports clients[j].clientId) len ubootEthSend) := by
  have hinit : s.drv.doneInit = true := h.1.doneInit
  obtain ⟨client, hclient, -, hid⟩ := h.exists_client hj
  have hmin : (if len > bufSize then (bufSize : ℤ) else len) = min len bufSize := by
    split_ifs <;> omega
  have hbuf : bufSize = 2048 := rfl
  have hshmem : shmemSize = 4096 := rfl
  rw [clientTx, hinit, hmin, txOutcome]
  simp only [Bool.not_true, Bool.false_eq_true, if_false]
  by_cases hshort : len < 12
  · rw [if_pos hshort, if_pos (by omega)]
  · have hle : 0 + (min len bufSize).toNat ≤ shmemSize := by omega
    rw [if_neg hshort, if_neg (by omega), h.findSender hg hj]
    simp only [Option.bind_eq_bind, Option.bind_some, hclient, hid, slice_of_le _ hle,
      List.drop_zero]
    by_cases hsend : ubootEthSend = 0
    · rw [if_neg (by omega), if_pos hsend]
    · rw [if_pos (by omega), if_neg hsend]

theorem clientMac_eq (hg : GoodBadges clients) (hj : j < clients.length) :
    clientMac s.drv clients[j].clientId.toUInt32 = some clients[j].mac := by
  have hinit : s.drv.doneInit = true := h.1.doneInit
  obtain ⟨client, hclient, hmac, -⟩ := h.exists_client hj
  rw [clientMac, h.findSender hg hj]
  simp only [Option.bind_eq_bind, Option.bind_some, hclient, hinit, if_true, hmac]

end ComponentInv

/-! ### The port of a client -/

/-- What belongs to one client. -/
structure Port where
  -- the frames that it is going to receive
  queue : List Packet
  dataport : Dataport
  -- what its client has seen
  seen : List Entry

/-- The port of client `i`. -/
def portOf (clients : List Client) (client : Client) (i : ℕ) (s : Component) : Port where
  queue := (viewOf clients client.clientId i s.toSystem).queue
  dataport := s.dataports client.clientId
  seen := s.log.filter (Entry.seenBy client.clientId i)

/-- What an action that concerns client `i` does to its port. -/
def Port.step (client : Client) (i : ℕ) (p : Port) : Action → Port
  | .event (.arrive packet) => { p with queue := offerQueue (clientRxBufs - 1) p.queue packet }
  | .event (.rx _) =>
    { queue := p.queue.tail
      dataport := received p.queue p.dataport
      seen := p.seen ++ (callTrace client.clientId i [] p.queue).map .rx }
  | .read _ off => { p with seen := p.seen ++ [.read i (p.dataport.get off)] }
  | .write _ off c => { p with dataport := put p.dataport off c }
  | .tx _ len ubootEthSend =>
    { p with seen := p.seen ++ [.tx i (txOutcome p.dataport len ubootEthSend)] }
  | .mac _ => { p with seen := p.seen ++ [.mac i client.mac] }

/-- An entry that is no part of `client_rx` leaves the queue and the dataport as they are. -/
theorem portOf_log (client : Client) {e : Entry} (he : rxTrace [e] = []) :
    portOf clients client i { s with log := s.log ++ [e] } =
      if e.seenBy client.clientId i then
        { portOf clients client i s with seen := (portOf clients client i s).seen ++ [e] }
      else portOf clients client i s := by
  have hsystem : ({ s with log := s.log ++ [e] } : Component).toSystem = s.toSystem := by
    rw [Component.toSystem, rxTrace_append, he, List.append_nil]
    rfl
  unfold portOf
  rw [hsystem, List.filter_append, List.filter_cons]
  split_ifs
  · rfl
  · rw [List.filter_nil, List.append_nil]

theorem update_dataport (dataports : UInt64 → Dataport) (badge badge' : UInt64)
    (dataport : Dataport) :
    Function.update dataports badge dataport badge' =
      if badge = badge' then dataport else dataports badge' := by
  rw [Function.update_apply]
  simp only [eq_comm]

/-- A write to a dataport changes the port of its own client only. -/
theorem portOf_write (client : Client) (badge : UInt64) (dataport : Dataport) :
    portOf clients client i { s with dataports := Function.update s.dataports badge dataport } =
      if badge = client.clientId then { portOf clients client i s with dataport := dataport }
      else portOf clients client i s := by
  show Port.mk _ (Function.update s.dataports badge dataport client.clientId) _ = _
  rw [update_dataport]
  split_ifs
  · rfl
  · rfl

namespace ComponentInv

variable (h : ComponentInv clients s)
include h

/-- Every frame in the queue of a client fits into a buffer. -/
theorem length_le_of_mem_queue (hj : j < clients.length) {packet : Packet}
    (hmem : packet ∈ (viewOf clients clients[j].clientId j s.toSystem).queue) :
    packet.length ≤ bufSize := by
  rcases mem_foldl_offerRouted hmem with hdriver | hpending
  · exact h.1.uboot packet hdriver
  · rw [← h.1.queue j hj] at hpending
    exact length_le_of_mem_pendingAt hpending

/-- A call of `client_rx`. -/
theorem step_rx (hg : GoodBadges clients) (hj : j < clients.length) {q : List Packet}
    (hq : q = (viewOf clients clients[j].clientId j s.toSystem).queue) :
    ∃ s', s.step (.event (.rx j)) = some s' ∧ s.toSystem.step (.rx j) = some s'.toSystem ∧
      s'.log = s.log ++ (callTrace clients[j].clientId j s.uboot q).map .rx ∧
      s'.dataports = Function.update s.dataports clients[j].clientId
        (received q (s.dataports clients[j].clientId)) := by
  obtain ⟨cs', hstep, -⟩ := EthdriverUboot.step_rx h.1 hg hj
  obtain ⟨client, r, hclient, hr, hs'⟩ := step_rx_inv hstep
  have htrace : r.trace j = callTrace clients[j].clientId j s.uboot q := by
    have htaken : takenBy s.toSystem.uboot = s.uboot := (takenBy_eq_self h.2).1
    have happend := List.append_cancel_left (congrArg System.trace hs')
    rw [htaken] at happend
    rw [hq]
    exact happend.symm
  have hcopy : r.effects.foldlM copyToDataport s.dataports =
      some (Function.update s.dataports clients[j].clientId
        (received q (s.dataports clients[j].clientId))) := by
    rw [effects_of_trace htrace, foldlM_frees]
    apply foldlM_outcome
    intro packet hmem
    exact h.length_le_of_mem_queue hj (hq ▸ hmem)
  have hclient' : s.drv.clients[j]? = some client := hclient
  have hr' : clientRx s.drv s.uboot client.clientId.toUInt32 = some r := hr
  have hstep' : s.step (.event (.rx j)) = some
      { drv := r.drv, uboot := r.uboot
        dataports := Function.update s.dataports clients[j].clientId
          (received q (s.dataports clients[j].clientId))
        log := s.log ++ (r.trace j).map .rx } := by
    simp only [Component.step, hclient', hr', hcopy, Option.bind_eq_bind, Option.bind_some]
  refine ⟨_, hstep', ?_, ?_, rfl⟩
  · rw [hstep, hs']
    simp [Component.toSystem]
  · rw [htrace]

/-- The arrival of a frame keeps the invariant. -/
theorem step_arrive {packet : Packet} (hframe : IsFrame packet) :
    ComponentInv clients { s with uboot := s.uboot ++ [packet] } := by
  refine ⟨h.1.arrive hframe.2, ?_⟩
  intro p hp
  rcases List.mem_append.mp hp with hp | hp
  · exact h.2 p hp
  · obtain rfl := List.mem_singleton.mp hp
    exact hframe.1

theorem of_toSystem_eq {s' : Component} (hs' : s'.toSystem = s.toSystem) :
    ComponentInv clients s' := by
  rw [ComponentInv, hs']
  exact h

theorem of_log {e : Entry} (he : rxTrace [e] = []) :
    ComponentInv clients { s with log := s.log ++ [e] } := by
  apply h.of_toSystem_eq
  rw [Component.toSystem, rxTrace_append, he, List.append_nil]
  rfl

/-- An action that only adds to the log what the client that does it sees. -/
theorem step_log (hj : j < clients.length) {a : Action} {e : Entry}
    (hstep : s.step a = some { s with log := s.log ++ [e] }) (he : rxTrace [e] = [])
    (hseen : ∀ client : Client, e.seenBy client.clientId i = decide (j = i))
    (hport : j = i → (portOf clients clients[j] i s).step clients[j] i a =
      { portOf clients clients[j] i s with seen := (portOf clients clients[j] i s).seen ++ [e] })
    (hi : i < clients.length) :
    ∃ s', s.step a = some s' ∧ ComponentInv clients s' ∧
      portOf clients clients[i] i s' =
        if j = i then (portOf clients clients[i] i s).step clients[i] i a
        else portOf clients clients[i] i s := by
  refine ⟨_, hstep, h.of_log he, ?_⟩
  rw [portOf_log _ he, hseen]
  simp only [decide_eq_true_eq]
  split_ifs with hji
  · subst hji
    exact (hport rfl).symm
  · rfl

/-- A call of `client_tx` only logs its result. -/
theorem step_tx (hg : GoodBadges clients) (hj : j < clients.length) (len ubootEthSend : ℤ) :
    s.step (.tx j len ubootEthSend) = some
      { s with log := s.log ++
                [.tx j (txOutcome (s.dataports clients[j].clientId) len ubootEthSend)] } := by
  obtain ⟨client, hclient, -, hid⟩ := h.exists_client hj
  simp only [Component.step, hclient, hid, h.clientTx_eq hg hj, Option.bind_eq_bind,
    Option.bind_some]

/-- **The port of a client** is changed by the actions that concern it, and by no others. -/
theorem step_portOf (hg : GoodBadges clients) (hi : i < clients.length) {a : Action}
    (ha : (componentMachine IsFrame).ok s a) :
    ∃ s', s.step a = some s' ∧ ComponentInv clients s' ∧
      portOf clients clients[i] i s' =
        if a.concerns clients i then (portOf clients clients[i] i s).step clients[i] i a
        else portOf clients clients[i] i s := by
  cases a with
  | event e =>
    cases e with
    | arrive packet =>
      refine ⟨_, rfl, h.step_arrive ha, ?_⟩
      show Port.mk (viewOf clients clients[i].clientId i
        { s.toSystem with uboot := s.toSystem.uboot ++ [packet] }).queue _ _ = _
      rw [viewOf_arrive, Action.concerns]
      by_cases hrouted : routedTo clients packet i = true
      · rw [if_pos hrouted, if_pos hrouted]
        rfl
      · rw [if_neg hrouted, if_neg hrouted]
        rfl
    | rx j =>
      have hj : j < clients.length := h.length_eq ▸ ha
      obtain ⟨s', hstep, hsystem, hlog, hdataports⟩ := h.step_rx hg hj rfl
      have hview := (viewOf_rx h.1 h.2 hg hi hj hsystem).2
      refine ⟨s', hstep, (preserves_frameInv hg).of_step (e := .rx j) h ha hsystem, ?_⟩
      unfold portOf
      rw [hview, hdataports, hlog, update_dataport, List.filter_append, filter_seenBy_map,
        observe_callTrace hg hi hj]
      simp only [hg.clientId_inj hj hi, Action.concerns, decide_eq_true_eq]
      split_ifs with hji
      · subst hji
        rfl
      · rw [List.map_nil, List.append_nil]
  | read j off =>
    have hj : j < clients.length := h.length_eq ▸ ha
    obtain ⟨client, hclient, -, hid⟩ := h.exists_client hj
    have hstep : s.step (.read j off) = some
        { s with log := s.log ++ [.read j ((s.dataports clients[j].clientId).get off)] } := by
      simp only [Component.step, hclient, hid, Option.bind_eq_bind, Option.bind_some]
    simp only [Action.concerns, decide_eq_true_eq]
    exact h.step_log hj hstep rfl (fun _ => rfl) (fun hji => by subst hji; rfl) hi
  | write j off c =>
    have hj : j < clients.length := h.length_eq ▸ ha
    obtain ⟨client, hclient, -, hid⟩ := h.exists_client hj
    have hstep : s.step (.write j off c) = some
        { s with dataports := Function.update s.dataports clients[j].clientId
                  (put (s.dataports clients[j].clientId) off c) } := by
      simp only [Component.step, hclient, hid, Option.bind_eq_bind, Option.bind_some]
    refine ⟨_, hstep, h.of_toSystem_eq rfl, ?_⟩
    rw [portOf_write]
    simp only [hg.clientId_inj hj hi, Action.concerns, decide_eq_true_eq]
    split_ifs with hji
    · subst hji
      rfl
    · rfl
  | tx j len ubootEthSend =>
    have hj : j < clients.length := h.length_eq ▸ ha
    simp only [Action.concerns, decide_eq_true_eq]
    exact h.step_log hj (h.step_tx hg hj len ubootEthSend) rfl (fun _ => rfl)
      (fun hji => by subst hji; rfl) hi
  | mac j =>
    have hj : j < clients.length := h.length_eq ▸ ha
    obtain ⟨client, hclient, -, hid⟩ := h.exists_client hj
    have hstep : s.step (.mac j) = some
        { s with log := s.log ++ [.mac j clients[j].mac] } := by
      simp only [Component.step, hclient, hid, h.clientMac_eq hg hj, Option.bind_eq_bind,
        Option.bind_some]
    simp only [Action.concerns, decide_eq_true_eq]
    exact h.step_log hj hstep rfl (fun _ => rfl) (fun hji => by subst hji; rfl) hi

end ComponentInv

/-! ### Isolation -/

/-- The actions of other clients leave the port of a client as it is, and its own actions change it
by what is in it. -/
theorem unwinds (hg : GoodBadges clients) (hi : i < clients.length) :
    (componentMachine IsFrame).Unwinds (ComponentInv clients) (portOf clients clients[i] i)
      (Action.concerns clients i) (Port.step clients[i] i) :=
  fun _ _ h hok => h.step_portOf hg hi hok

/-- What the environment may do depends on the number of clients only. -/
theorem ComponentInv.ok {s' : Component} (h : ComponentInv clients s) (h' : ComponentInv clients s')
    {a : Action} (ha : (componentMachine IsFrame).ok s a) : (componentMachine IsFrame).ok s' a := by
  have hlen : s'.drv.clients.length = s.drv.clients.length := h'.length_eq.trans h.length_eq.symm
  cases a with
  | event e =>
    cases e with
    | arrive => exact ha
    | rx => exact Nat.lt_of_lt_of_eq ha hlen.symm
  | _ => exact Nat.lt_of_lt_of_eq ha hlen.symm

/-- The invariant holds after `server_init`, whatever the dataports contain. -/
theorem ComponentInv.init (t : Template) (dataports : UInt64 → Dataport) :
    ComponentInv (serverInit t).1.clients (Component.init t dataports) := by
  have hsystem : (Component.init t dataports).toSystem = System.init t := by
    show System.mk _ _ (rxTrace (((serverInit t).2.map Obs.effect).map Entry.rx)) = _
    rw [rxTrace_map]
    rfl
  rw [ComponentInv, hsystem]
  exact FrameInv.init t

/-- **Isolation in both directions**: what a client sees, and what is in its dataport, is the same
without the actions of the other clients and the frames for them, and whatever is in the other
dataports at the start. -/
theorem seenBy_filter_concerns (t : Template) (hnodup : t.badges.Nodup)
    (hint : ∀ b ∈ t.badges, FitsInt b) {i : ℕ} {client : Client}
    (hi : (serverInit t).1.clients[i]? = some client) {dataports dataports' : UInt64 → Dataport}
    (hsame : dataports' client.clientId = dataports client.clientId)
    {ts : List (Transition Component Action)} {s : Component}
    (hrun : (componentMachine IsFrame).Run (Component.init t dataports) ts s) :
    ∃ ts' s', (componentMachine IsFrame).Run (Component.init t dataports') ts' s' ∧
      events ts' = (events ts).filter (Action.concerns (serverInit t).1.clients i) ∧
      s'.log.filter (Entry.seenBy client.clientId i) =
        s.log.filter (Entry.seenBy client.clientId i) ∧
      s'.dataports client.clientId = s.dataports client.clientId := by
  have hg := serverInit_goodBadges hnodup hint
  obtain ⟨hilt, rfl⟩ := List.getElem?_eq_some_iff.mp hi
  have hport : portOf (serverInit t).1.clients (serverInit t).1.clients[i] i
      (Component.init t dataports') =
        portOf (serverInit t).1.clients (serverInit t).1.clients[i] i
          (Component.init t dataports) := by
    show Port.mk _ (dataports' _) _ = Port.mk _ (dataports _) _
    rw [hsame]
    rfl
  obtain ⟨ts', s', hrun', hevents, hview⟩ := (unwinds hg hilt).exists_run
    (fun _ _ _ h h' ha => h.ok h' ha) hrun (.init t dataports) (.init t dataports') hport
  exact ⟨ts', s', hrun', hevents, congrArg Port.seen hview, congrArg Port.dataport hview⟩

/-- The component with two clients; there is nothing in the dataports. -/
def twoClients : Component := .init (withBadges [1, 2]) fun _ => .replicate _ 0

def firstByte : Fin shmemSize := ⟨0, by decide⟩

theorem fitsInt_one_two : ∀ b ∈ (withBadges [1, 2]).badges, FitsInt b := fun b hb =>
  fitsInt_of_lt (by rcases List.mem_pair.mp hb with rfl | rfl <;> decide)

/-- What client `0` sends does not depend on what client `1` writes. -/
theorem seenBy_two_clients : ∃ ts s, (componentMachine IsFrame).Run twoClients ts s ∧
    events ts = [.write 1 firstByte 7, .tx 0 60 0] ∧
    ∃ ts' s', (componentMachine IsFrame).Run twoClients ts' s' ∧
      events ts' = (events ts).filter
        (Action.concerns (serverInit (withBadges [1, 2])).1.clients 0) ∧
      s'.log.filter (Entry.seenBy 1 0) = s.log.filter (Entry.seenBy 1 0) ∧
      s'.dataports 1 = s.dataports 1 := by
  obtain ⟨client, hi, hid⟩ : ∃ client,
      (serverInit (withBadges [1, 2])).1.clients[0]? = some client ∧ client.clientId = 1 :=
    ⟨_, rfl, rfl⟩
  obtain ⟨ts, s, hrun, hevents, -⟩ := exists_run_of_exec (componentMachine IsFrame) twoClients
    [.write 1 firstByte 7, .tx 0 60 0] (fun _ => true) (by decide +kernel)
  have h := @seenBy_filter_concerns (withBadges [1, 2]) (by decide +kernel) fitsInt_one_two 0
    client hi (fun _ => .replicate _ 0) (fun _ => .replicate _ 0) rfl ts s hrun
  rw [hid] at h
  exact ⟨ts, s, hrun, hevents, h⟩

/-! ### Sending back what has been received -/

/-- After a call that returns a frame, the dataport begins with it. -/
theorem prefix_received {q : List Packet} {frame : Packet} (hq : q.head? = some frame)
    (hle : frame.length ≤ bufSize) (dataport : Dataport) :
    frame <+: (received q dataport).toList := by
  obtain ⟨rest, rfl⟩ := List.head?_eq_some_iff.mp hq
  have hle' : frame.length ≤ shmemSize := Nat.le_trans hle (by decide)
  obtain ⟨dataport', hcopy, hlist⟩ := memcpy_eq_some dataport hle'
  rw [received, hcopy, Option.getD_some, hlist]
  exact List.prefix_append ..

/-- What `client_tx` sends from a dataport that begins with a frame. -/
theorem txOutcome_of_prefix {dataport : Dataport} {frame : Packet} (h : frame <+: dataport.toList)
    (hge : 12 ≤ frame.length) (hle : frame.length ≤ bufSize) (ubootEthSend : ℤ) :
    txOutcome dataport frame.length ubootEthSend =
      { ret := if ubootEthSend = 0 then ethifTxComplete else ethifTxFailed
        sent := some frame } := by
  have hmin : (min (frame.length : ℤ) bufSize).toNat = frame.length := by omega
  rw [txOutcome, if_neg (by omega), hmin, ← List.prefix_iff_eq_take.mp h]

/-- Other clients leave the dataport of client `i` alone. -/
theorem dataport_run (hg : GoodBadges clients) (hi : i < clients.length) {s' : Component}
    {ts : List (Transition Component Action)} (h : ComponentInv clients s)
    (hrun : (componentMachine IsFrame).Run s ts s')
    (hothers : ∀ a ∈ events ts, a.client? ≠ some i) :
    s'.dataports clients[i].clientId = s.dataports clients[i].clientId := by
  have hts : ∀ t ∈ ts, t.event.client? ≠ some i := fun t ht =>
    hothers t.event (List.mem_map_of_mem ht)
  have hinv := hrun.invariant_of_forall
    (P := fun s' => ComponentInv clients s' ∧
      s'.dataports clients[i].clientId = s.dataports clients[i].clientId)
    (C := fun _ a => a.client? ≠ some i) hts ⟨h, rfl⟩ ?_
  · exact hinv.2
  · intro s₁ a s₂ ⟨h₁, hsame⟩ hok hclient hstep
    have hport := congrArg Port.dataport ((unwinds hg hi).view_eq h₁ hok hstep)
    refine ⟨(unwinds hg hi).preserves.of_step h₁ hok hstep, Eq.trans ?_ hsame⟩
    rw [show s₂.dataports clients[i].clientId = _ from hport]
    split_ifs with hconcerns
    · -- only a frame that arrives concerns a client and is not its own action
      cases a with
      | event e =>
        cases e with
        | arrive => rfl
        | rx j => exact absurd (congrArg some (of_decide_eq_true hconcerns)) hclient
      | _ => exact absurd (congrArg some (of_decide_eq_true hconcerns)) hclient
    · rfl

theorem getLast?_callTrace (log : List Entry) (badge : UInt64) (i : ℕ) (packets q : List Packet) :
    (log ++ (callTrace badge i packets q).map Entry.rx).getLast? =
      some (.rx (.returned i (rxOutcome badge q).1 (rxOutcome badge q).2.1)) := by
  rw [callTrace, List.map_append, ← List.append_assoc]
  exact List.getLast?_concat

theorem mem_callTrace {badge : UInt64} {i : ℕ} {packets q : List Packet} {e : Effect}
    (h : e ∈ (rxOutcome badge q).2.2) :
    Entry.rx (.effect e) ∈ (callTrace badge i packets q).map Entry.rx := by
  apply List.mem_map_of_mem
  rw [callTrace]
  apply List.mem_append_left
  apply List.mem_map_of_mem
  exact List.mem_append_right _ h

/-- A call that does not return -1 has copied a frame. -/
theorem rxOutcome_of_nonneg {badge : UInt64} {q : List Packet} (h : 0 ≤ (rxOutcome badge q).1) :
    ∃ frame, q.head? = some frame ∧ (rxOutcome badge q).2.1 = frame.length ∧
      .memcpyDataport badge frame ∈ (rxOutcome badge q).2.2 := by
  rcases q with - | ⟨frame, - | ⟨next, rest⟩⟩
  · cases h
  · exact ⟨frame, rfl, rfl, List.mem_cons_self ..⟩
  · exact ⟨frame, rfl, rfl, List.mem_cons_self ..⟩

/-- **A frame can be sent back as it is**: when `client_rx` has left a frame in the dataport of
client `i`, `client_tx` with its length sends that frame, whatever the other clients have done in
between. -/
theorem sent_received (t : Template) (hnodup : t.badges.Nodup) (hint : ∀ b ∈ t.badges, FitsInt b)
    {i : ℕ} {client : Client} (hi : (serverInit t).1.clients[i]? = some client)
    {dataports : UInt64 → Dataport} {ts ts' : List (Transition Component Action)}
    {s s₁ s₂ : Component} {ret len : ℤ}
    (hrun : (componentMachine IsFrame).Run (Component.init t dataports) ts s)
    (hrx : s.step (.event (.rx i)) = some s₁)
    (hreturned : s₁.log.getLast? = some (.rx (.returned i ret len))) (hret : 0 ≤ ret)
    (hlen : 12 ≤ len) (hrun' : (componentMachine IsFrame).Run s₁ ts' s₂)
    (hothers : ∀ a ∈ events ts', a.client? ≠ some i) (ubootEthSend : ℤ) :
    ∃ frame, frame.length = len ∧
      .rx (.effect (.memcpyDataport client.clientId frame)) ∈ s₁.log.drop s.log.length ∧
      ∃ s₃, s₂.step (.tx i len ubootEthSend) = some s₃ ∧
        s₃.log = s₂.log ++ [.tx i
          { ret := if ubootEthSend = 0 then ethifTxComplete else ethifTxFailed
            sent := some frame }] := by
  have hg := serverInit_goodBadges hnodup hint
  obtain ⟨hilt, rfl⟩ := List.getElem?_eq_some_iff.mp hi
  have hinv := (unwinds hg hilt).preserves.run (.init t dataports) hrun
  have hok : i < s.drv.clients.length := hinv.length_eq.symm ▸ hilt
  have hinv₁ := (unwinds hg hilt).preserves.of_step (e := .event (.rx i)) hinv hok hrx
  have hinv₂ := (unwinds hg hilt).preserves.run hinv₁ hrun'
  obtain ⟨s₁', hrx', -, hlog, hdataports⟩ := hinv.step_rx hg hilt rfl
  obtain rfl := Option.some.inj (hrx.symm.trans hrx')
  rw [hlog, getLast?_callTrace, Option.some_inj] at hreturned
  obtain ⟨-, rfl, rfl⟩ := Obs.returned.inj (Entry.rx.inj hreturned)
  obtain ⟨frame, hhead, hlength, hmem⟩ := rxOutcome_of_nonneg hret
  have hle : frame.length ≤ bufSize := hinv.length_le_of_mem_queue hilt (List.mem_of_head? hhead)
  have hprefix := prefix_received hhead hle (s.dataports (serverInit t).1.clients[i].clientId)
  have hsame := dataport_run hg hilt hinv₁ hrun' hothers
  rw [hdataports, Function.update_self] at hsame
  refine ⟨frame, hlength.symm, ?_, _, hinv₂.step_tx hg hilt _ ubootEthSend, ?_⟩
  · rw [hlog, List.drop_left]
    exact mem_callTrace hmem
  · rw [hlength] at hlen ⊢
    rw [hsame, txOutcome_of_prefix hprefix (by omega) hle]

/-- A frame for client `0`. -/
def frameForZero : Packet := [2, 0, 0, 0, 0, 1] ++ List.replicate 54 0

/-- Client `0` sends its frame back after client `1` has written to its own dataport. -/
theorem sent_received_two_clients : ∃ s ts s₁ ts' s₂,
    (componentMachine IsFrame).Run twoClients ts s ∧ events ts = [.event (.arrive frameForZero)] ∧
    s.step (.event (.rx 0)) = some s₁ ∧ (componentMachine IsFrame).Run s₁ ts' s₂ ∧
    events ts' = [.write 1 firstByte 7] ∧
    ∃ frame : Packet, (frame.length : ℤ) = 60 ∧
      .rx (.effect (.memcpyDataport 1 frame)) ∈ s₁.log.drop s.log.length ∧
      ∃ s₃, s₂.step (.tx 0 60 0) = some s₃ ∧
        s₃.log = s₂.log ++ [.tx 0 { ret := ethifTxComplete, sent := some frame }] := by
  obtain ⟨client, hi, hid⟩ : ∃ client,
      (serverInit (withBadges [1, 2])).1.clients[0]? = some client ∧ client.clientId = 1 :=
    ⟨_, rfl, rfl⟩
  obtain ⟨ts, s, hrun, hevents, hs⟩ := exists_run_of_exec (componentMachine IsFrame) twoClients
    [.event (.arrive frameForZero)]
    (fun r => (r.2.step (.event (.rx 0))).any fun s₁ =>
      s₁.log.getLast? = some (.rx (.returned 0 0 60)) ∧
        ((componentMachine IsFrame).exec s₁ [.write 1 firstByte 7]).isSome)
    (by decide +kernel)
  obtain ⟨s₁, hrx, hs₁⟩ := (Option.any_eq_true _ _).mp hs
  obtain ⟨hreturned, hexec⟩ := of_decide_eq_true hs₁
  obtain ⟨⟨ts', s₂⟩, hexec⟩ := Option.isSome_iff_exists.mp hexec
  obtain ⟨hrun', hevents'⟩ := run_of_exec hexec
  have hothers : ∀ a ∈ events ts', a.client? ≠ some 0 := by
    rw [hevents']
    simp [Action.client?]
  have h := sent_received (withBadges [1, 2]) (by decide +kernel) fitsInt_one_two hi hrun hrx
    hreturned (by decide) (by decide) hrun' hothers 0
  rw [hid] at h
  exact ⟨s, ts, s₁, ts', s₂, hrun, hevents, hrx, hrun', hevents', h⟩

end Camkes.EthdriverUboot
