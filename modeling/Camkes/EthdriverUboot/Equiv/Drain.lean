import Camkes.EthdriverUboot.Equiv.Isolation

/-!
# Draining the U-Boot driver

A frame that is too long is freed, and then the receive loop ends: it leaves the frames after it in
the U-Boot driver (`drain_append_tooLong`).  So a call takes all frames, and treats the others as if
the too long ones had not been there (`DrainsAll`), exactly when only the last frame may be too long
(`drainsAll_iff`).  This holds in every state after initialisation, for every caller that is found.
-/

namespace Camkes.EthdriverUboot

open Machine

/-! ### What draining is -/

/-- The frames that are freed. -/
def frees (effects : List Effect) : List Packet :=
  effects.filterMap fun
    | .ubootEthFreePacket packet => some packet
    | _ => none

/-- What the clients get to see. -/
def seenByClients (effects : List Effect) : List Effect :=
  effects.filter fun
    | .ubootEthFreePacket _ => false
    | _ => true

/-- One call takes and frees all frames, each once, and does for the others what it does when the
too long ones are not there. -/
def DrainsAll (drv : Ethdriver) (frames : List Packet) (sender : UInt32) : Prop :=
  ∃ r, clientRx drv frames sender = some r ∧ r.uboot = [] ∧ frees r.effects = frames ∧
    ∃ r', clientRx drv (frames.filter (·.length ≤ bufSize)) sender = some r' ∧
      r.ret = r'.ret ∧ r.len = r'.len ∧ r.drv = r'.drv ∧
      seenByClients r.effects = seenByClients r'.effects

variable {clients : List Client} {pre post frames : List Packet}

theorem frees_append (effects more : List Effect) :
    frees (effects ++ more) = frees effects ++ frees more :=
  List.filterMap_append

theorem frees_map (packets : List Packet) :
    frees (packets.map .ubootEthFreePacket) = packets := by
  induction packets with
  | nil => rfl
  | cons packet packets ih => exact congrArg (packet :: ·) ih

theorem frees_rxOutcome (badge : UInt64) (q : List Packet) :
    frees (rxOutcome badge q).2.2 = [] := by
  rcases q with - | ⟨frame, - | ⟨_, _⟩⟩ <;> rfl

theorem seenByClients_append (effects more : List Effect) :
    seenByClients (effects ++ more) = seenByClients effects ++ seenByClients more :=
  List.filter_append ..

theorem seenByClients_map (packets : List Packet) :
    seenByClients (packets.map .ubootEthFreePacket) = [] := by
  induction packets with
  | nil => rfl
  | cons packet packets ih => exact ih

/-! ### The receive loop -/

/-- The loop ends at the first frame that is too long. -/
theorem drain_append_tooLong (hpre : ∀ p ∈ pre, IsFrame p) {big : Packet}
    (hbig : bufSize < big.length) :
    drain clients (pre ++ big :: post) =
      (drain clients pre).map fun r => (r.1, post, r.2.2 ++ [.ubootEthFreePacket big]) := by
  induction pre generalizing clients with
  | nil =>
    have hne : big.length ≠ 0 := by omega
    have hdrain : drain clients (big :: post) =
        some (clients, post, [.ubootEthFreePacket big]) := by
      rw [drain, if_neg hne, if_pos hbig]
    rw [List.nil_append, hdrain]
    rfl
  | cons packet pre ih =>
    obtain ⟨hpos, hle⟩ := hpre packet List.mem_cons_self
    have hne : packet.length ≠ 0 := by omega
    have hrest : ∀ p ∈ pre, IsFrame p := fun p hp => hpre p (List.mem_cons_of_mem _ hp)
    rw [List.cons_append, drain, drain, if_neg hne, if_neg hne, if_neg (Nat.not_lt.mpr hle),
      if_neg (Nat.not_lt.mpr hle)]
    cases copyRx clients packet with
    | none => rfl
    | some cs =>
      simp only [Option.bind_eq_bind, Option.bind_some, ih hrest]
      cases drain cs pre with
      | none => rfl
      | some r => rfl

/-- Frames of which none is too long are all taken and freed. -/
theorem drain_frames (h : ∀ client ∈ clients, client.WF) (hframes : ∀ p ∈ frames, IsFrame p) :
    ∃ clients', drain clients frames =
        some (clients', [], frames.map .ubootEthFreePacket) ∧
      clients'.map Client.key = clients.map Client.key ∧ ∀ client ∈ clients', client.WF := by
  obtain ⟨clients', hdrain, hadv⟩ := drain_spec h fun p hp => (hframes p hp).2
  obtain ⟨hT, hL⟩ := takenBy_eq_self fun p hp => (hframes p hp).1
  rw [hT, hL] at hdrain
  exact ⟨clients', hdrain, hadv.keys, hadv.wf⟩

/-- Whatever the U-Boot driver holds, the loop keeps the arrays of the clients in order. -/
theorem drain_wf (h : ∀ client ∈ clients, client.WF) (uboot : List Packet) :
    ∃ clients' left effects, drain clients uboot = some (clients', left, effects) ∧
      ∀ client ∈ clients', client.WF := by
  induction uboot generalizing clients with
  | nil => exact ⟨_, _, _, rfl, h⟩
  | cons packet uboot ih =>
    rw [drain]
    split_ifs with hempty hbig
    · exact ⟨_, _, _, rfl, h⟩
    · exact ⟨_, _, _, rfl, h⟩
    · obtain ⟨cs, hcs, hadv⟩ := copyRx_spec h (Nat.not_lt.mp hbig)
      obtain ⟨cs', left, effects, hrest, hwf⟩ := ih hadv.wf
      refine ⟨cs', left, .ubootEthFreePacket packet :: effects, ?_, hwf⟩
      simp only [hcs, hrest, Option.bind_eq_bind, Option.bind_some]

/-! ### The caller -/

/-- The caller is found among the clients. -/
theorem findSender_lt {sender : UInt32} {i : ℕ} (h : findSender clients sender = some i) :
    i < clients.length := by
  obtain ⟨client, hget, -⟩ := clientId_of_findSender h
  exact (List.getElem?_eq_some_iff.mp hget).1

/-- The sender is found by its badge only. -/
theorem findSender_congr {clients' : List Client}
    (h : clients'.map Client.key = clients.map Client.key) (sender : UInt32) :
    findSender clients' sender = findSender clients sender := by
  have hids : ∀ cs : List Client, findSender cs sender =
      (cs.map Client.clientId).zipIdx.foldl
        (fun found ci => if ci.1 = senderWord sender then some ci.2 else found) none := by
    intro cs
    rw [List.zipIdx_map, List.foldl_map]
    rfl
  rw [hids, hids, clientIds_of_keys h]

/-- A caller that is found gets an answer, whatever is pending for it. -/
theorem deliverRx_of_found (h : ∀ client ∈ clients, client.WF) {sender : UInt32} {i : ℕ}
    (hi : findSender clients sender = some i) :
    ∃ ret len clients' effects, deliverRx clients sender = some (ret, len, clients', effects) ∧
      frees effects = [] ∧ ∀ client ∈ clients', client.WF := by
  have hget := List.getElem?_eq_getElem (findSender_lt hi)
  obtain ⟨clients', hdeliver, hadv⟩ := deliverRx_found h hi hget
  exact ⟨_, _, clients', _, hdeliver, frees_rxOutcome _ _, hadv.wf⟩

/-! ### One call -/

/-- No frame but the last is too long. -/
def TooLongLast (frames : List Packet) : Prop := ∀ p ∈ frames.dropLast, p.length ≤ bufSize

/-- No frame is too long, or there is a first one that is. -/
theorem eq_append_tooLong (frames : List Packet) :
    (∀ p ∈ frames, p.length ≤ bufSize) ∨
      ∃ pre big post, frames = pre ++ big :: post ∧ (∀ p ∈ pre, p.length ≤ bufSize) ∧
        bufSize < big.length := by
  induction frames with
  | nil => exact Or.inl fun p hp => absurd hp List.not_mem_nil
  | cons packet frames ih =>
    by_cases hp : packet.length ≤ bufSize
    · rcases ih with hall | ⟨pre, big, post, rfl, hpre, hbig⟩
      · exact Or.inl (List.forall_mem_cons.mpr ⟨hp, hall⟩)
      · exact Or.inr ⟨packet :: pre, big, post, rfl, List.forall_mem_cons.mpr ⟨hp, hpre⟩, hbig⟩
    · exact Or.inr ⟨[], packet, frames, rfl, fun p hp => absurd hp List.not_mem_nil,
        Nat.lt_of_not_le hp⟩

theorem tooLongLast_concat {big : Packet} (hpre : ∀ p ∈ pre, p.length ≤ bufSize) :
    TooLongLast (pre ++ [big]) := by
  unfold TooLongLast
  rwa [List.dropLast_concat]

theorem not_tooLongLast {big : Packet} (hbig : bufSize < big.length) (hpost : post ≠ []) :
    ¬ TooLongLast (pre ++ big :: post) := by
  intro h
  have hmem : big ∈ (pre ++ big :: post).dropLast := by
    rw [List.dropLast_append_of_ne_nil (List.cons_ne_nil _ _), List.dropLast_cons_of_ne_nil hpost]
    exact List.mem_append_right _ List.mem_cons_self
  exact Nat.not_le.mpr hbig (h big hmem)

theorem filter_frames (h : ∀ p ∈ frames, p.length ≤ bufSize) :
    frames.filter (·.length ≤ bufSize) = frames :=
  List.filter_eq_self.mpr fun p hp => decide_eq_true (h p hp)

/-- What a call does with frames of which none is too long, and a frame that is too long after
them. -/
theorem clientRx_frames (h : ∀ client ∈ clients, client.WF) (hpre : ∀ p ∈ pre, IsFrame p)
    {sender : UInt32} (hsender : (findSender clients sender).isSome) :
    ∃ ret len clients' effects, frees effects = [] ∧
      clientRx { doneInit := true, clients } pre sender = some {
        ret, len, drv := { doneInit := true, clients := clients' }, uboot := []
        effects := pre.map .ubootEthFreePacket ++ effects } ∧
      ∀ big post, bufSize < big.length →
        clientRx { doneInit := true, clients } (pre ++ big :: post) sender = some {
          ret, len, drv := { doneInit := true, clients := clients' }, uboot := post
          effects := (pre ++ [big]).map .ubootEthFreePacket ++ effects } := by
  obtain ⟨cs, hdrain, hkeys, hwf⟩ := drain_frames h hpre
  obtain ⟨i, hi⟩ := Option.isSome_iff_exists.mp hsender
  rw [← findSender_congr hkeys] at hi
  obtain ⟨ret, len, cs', effects, hdeliver, hfrees, -⟩ := deliverRx_of_found hwf hi
  refine ⟨ret, len, cs', effects, hfrees, ?_, fun big post hbig => ?_⟩
  · simp only [clientRx, Bool.not_true, Bool.false_eq_true, if_false, hdrain, hdeliver,
      Option.bind_eq_bind, Option.bind_some]
  · simp only [clientRx, Bool.not_true, Bool.false_eq_true, if_false,
      drain_append_tooLong hpre hbig, hdrain, Option.map_some, hdeliver, Option.bind_eq_bind,
      Option.bind_some, List.map_append, List.map_singleton]

/-- **Draining**: after initialisation, a call takes all frames exactly when no frame but the last
is too long. -/
theorem drainsAll_of_wf (h : ∀ client ∈ clients, client.WF) (hpos : ∀ p ∈ frames, 0 < p.length)
    {sender : UInt32} (hsender : (findSender clients sender).isSome) :
    DrainsAll { doneInit := true, clients } frames sender ↔ TooLongLast frames := by
  rcases eq_append_tooLong frames with hall | ⟨pre, big, post, rfl, hpre, hbig⟩
  · have hframes : ∀ p ∈ frames, IsFrame p := fun p hp => ⟨hpos p hp, hall p hp⟩
    obtain ⟨ret, len, cs, effects, hfrees, hrx, -⟩ := clientRx_frames h hframes hsender
    have hcond : TooLongLast frames := fun p hp => hall p (List.dropLast_subset _ hp)
    refine iff_of_true ⟨_, hrx, rfl, ?_, _, ?_, rfl, rfl, rfl, rfl⟩ hcond
    · rw [frees_append, frees_map, hfrees, List.append_nil]
    · rw [filter_frames hall]
      exact hrx
  · have hframes : ∀ p ∈ pre, IsFrame p := fun p hp =>
      ⟨hpos p (List.mem_append_left _ hp), hpre p hp⟩
    obtain ⟨ret, len, cs, effects, hfrees, hrx, hbigrx⟩ := clientRx_frames h hframes hsender
    have hrx' := hbigrx big post hbig
    cases post with
    | nil =>
      have hfilter : (pre ++ [big]).filter (·.length ≤ bufSize) = pre := by
        rw [List.filter_append, filter_frames hpre,
          List.filter_cons_of_neg (by simpa using hbig), List.filter_nil, List.append_nil]
      refine iff_of_true ⟨_, hrx', rfl, ?_, _, (congrArg (clientRx _ · sender) hfilter).trans hrx,
        rfl, rfl, rfl, ?_⟩ (tooLongLast_concat hpre)
      · rw [frees_append, frees_map, hfrees, List.append_nil]
      · simp only [seenByClients_append, seenByClients_map, List.nil_append]
    | cons q post =>
      refine iff_of_false ?_ (not_tooLongLast hbig (List.cons_ne_nil _ _))
      rintro ⟨r, hr, hnil, -⟩
      obtain rfl := Option.some.inj (hrx'.symm.trans hr)
      cases hnil

/-! ### Runs -/

/-- The component is initialised, and the arrays of the clients are in order. -/
def Ready (s : System) : Prop := s.drv.doneInit = true ∧ ∀ client ∈ s.drv.clients, client.WF

theorem ready_init (t : Template) : Ready (System.init t) :=
  ⟨rfl, fun _ hc => (serverInit_client t hc).1⟩

theorem Ready.step {s s' : System} {e : Event} (h : Ready s) (hstep : s.step e = some s') :
    Ready s' := by
  obtain ⟨⟨doneInit, clients⟩, uboot, trace⟩ := s
  obtain ⟨rfl, hwf⟩ : doneInit = true ∧ ∀ client ∈ clients, client.WF := h
  cases e with
  | arrive packet =>
    obtain rfl := Option.some.inj hstep
    exact ⟨rfl, hwf⟩
  | rx i =>
    simp only [System.step, clientRx, Bool.not_true, Bool.false_eq_true, if_false,
      Option.bind_eq_bind, Option.bind_eq_some_iff, Option.some.injEq] at hstep
    obtain ⟨client, -, r, ⟨⟨cs, left, effects⟩, hdrain, ⟨ret, len, cs', out⟩, hdeliver, rfl⟩,
      rfl⟩ := hstep
    obtain ⟨cs₁, left₁, effects₁, hdrain₁, hwf₁⟩ := drain_wf hwf uboot
    obtain ⟨rfl, -, -⟩ : cs₁ = cs ∧ left₁ = left ∧ effects₁ = effects := by
      simpa using hdrain₁.symm.trans hdrain
    obtain ⟨j, hj, -⟩ := Option.bind_eq_some_iff.mp hdeliver
    obtain ⟨ret₂, len₂, cs₂, out₂, hdeliver₂, -, hwf₂⟩ := deliverRx_of_found hwf₁ hj
    obtain ⟨-, -, rfl, -⟩ : ret₂ = ret ∧ len₂ = len ∧ cs₂ = cs' ∧ out₂ = out := by
      simpa using hdeliver₂.symm.trans hdeliver
    exact ⟨rfl, hwf₂⟩

/-- **Draining in every reachable state**: a call of `client_rx` with these frames in the U-Boot
driver takes all of them, as if the too long ones had not been there, exactly when no frame but the
last is too long. -/
theorem drainsAll_iff (t : Template) {ts : List (Transition System Event)} {s : System}
    (hrun : (machine fun p => 0 < p.length).Run (System.init t) ts s) {sender : UInt32}
    (hsender : (findSender s.drv.clients sender).isSome) {frames : List Packet}
    (hpos : ∀ p ∈ frames, 0 < p.length) :
    DrainsAll s.drv frames sender ↔ TooLongLast frames := by
  obtain ⟨hinit, hwf⟩ := hrun.invariant (ready_init t) fun _ _ _ h _ hstep => h.step hstep
  obtain ⟨⟨doneInit, clients⟩, uboot, trace⟩ := s
  obtain rfl : doneInit = true := hinit
  exact drainsAll_of_wf hwf hpos hsender

/-- A frame that is too long, and one for the client with badge 1. -/
def longFrame : Packet := List.replicate 2049 0

def frameFor1 : Packet := [2, 0, 0, 0, 0, 1]

/-- A frame that is too long does no harm behind all others. -/
theorem drainsAll_longLast :
    DrainsAll (serverInit (withBadges [1])).1 [frameFor1, longFrame] 1 := by
  have hpos : ∀ p ∈ [frameFor1, longFrame], 0 < p.length := by decide +kernel
  refine (drainsAll_iff (withBadges [1]) Run.nil ?_ hpos).mpr ?_
  · decide +kernel
  · show ∀ p ∈ [frameFor1], p.length ≤ bufSize
    decide

/-- In front of a frame for the caller it makes `client_rx` report that there is no frame. -/
theorem not_drainsAll_longFirst :
    (clientRx (serverInit (withBadges [1])).1 [longFrame, frameFor1] 1).any (fun r =>
      r.ret = -1 ∧ r.uboot = [frameFor1]) = true ∧
    ¬ DrainsAll (serverInit (withBadges [1])).1 [longFrame, frameFor1] 1 := by
  have hrx : (clientRx (serverInit (withBadges [1])).1 [longFrame, frameFor1] 1).any (fun r =>
      r.ret = -1 ∧ r.uboot = [frameFor1]) = true := by
    decide +kernel
  refine ⟨hrx, ?_⟩
  rintro ⟨r, hr, hnil, -⟩
  rw [hr, Option.any_some, hnil] at hrx
  have hcons : [] = [frameFor1] := (of_decide_eq_true hrx).2
  exact List.cons_ne_nil _ _ hcons.symm

end Camkes.EthdriverUboot
