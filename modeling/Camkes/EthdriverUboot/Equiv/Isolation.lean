import Camkes.EthdriverUboot.Equiv.Queue

/-!
# Isolation of the clients

What client `i` observes (`observe`: its own results, the bytes copied to its dataport and its
notifications) is a function of the events that concern it (`concerns`: its own calls and the frames
routed to it).  The state behind that function is a `View`, whose queue takes in a routed frame as
soon as it arrives.  In the component the frame first waits in the U-Boot driver and reaches the
array of `i` when some client calls, but between two calls of `i` that array only grows, so it does
not matter who drains the driver and when: offering the waiting frames to the array of `i` always
gives the queue of the view (`viewOf_rx`).
-/

namespace Camkes.EthdriverUboot

open BoundedFifo Machine

/-! ### Observations -/

/-- The entries of a trace that the client `i` with this badge observes. -/
def observe (badge : UInt64) (i : ℕ) (trace : List Obs) : List Obs :=
  trace.filter fun
    | .effect (.memcpyDataport b _) => b = badge
    | .effect (.clientEmit b) => b = badge.toUInt32
    | .effect _ => false
    | .returned j _ _ => j = i

/-- The events that concern client `i`. -/
def concerns (clients : List Client) (i : ℕ) : Event → Bool
  | .arrive packet => routedTo clients packet i
  | .rx j => j = i

variable {clients : List Client} {i : ℕ}

@[simp] theorem observe_append (badge : UInt64) (i : ℕ) (trace more : List Obs) :
    observe badge i (trace ++ more) = observe badge i trace ++ observe badge i more :=
  List.filter_append ..

theorem observe_frees (badge : UInt64) (i : ℕ) (packets : List Packet) :
    observe badge i ((packets.map Effect.ubootEthFreePacket).map .effect) = [] := by
  simp [observe]

theorem toUInt32_inj {b b' : UInt64} (h : FitsInt b) (h' : FitsInt b') :
    b.toUInt32 = b'.toUInt32 ↔ b = b' := by
  refine ⟨fun he => ?_, congrArg _⟩
  exact h.symm.trans ((congrArg senderWord he).trans h')

/-- A call is observed by its caller alone. -/
theorem observe_callTrace (hg : GoodBadges clients) {i j : ℕ} (hi : i < clients.length)
    (hj : j < clients.length) (packets q : List Packet) :
    observe clients[i].clientId i (callTrace clients[j].clientId j packets q) =
      if j = i then callTrace clients[i].clientId i [] q else [] := by
  have hbadge := hg.clientId_inj hj hi
  have hemit := (toUInt32_inj (hg.fitsInt _ (List.getElem_mem hj))
    (hg.fitsInt _ (List.getElem_mem hi))).trans hbadge
  rw [callTrace, observe_append, List.map_append, observe_append, observe_frees, List.nil_append]
  split_ifs with hji
  · subst hji
    rcases q with - | ⟨frame, - | ⟨_, _⟩⟩ <;> simp [observe, rxOutcome, callTrace]
  · rcases q with - | ⟨frame, - | ⟨_, _⟩⟩ <;> simp [observe, rxOutcome, hbadge, hemit, hji]

/-! ### The view of one client -/

/-- A client's queue and what it has observed. -/
structure View where
  queue : List Packet
  seen : List Obs

/-- What an event that concerns client `i` does to its view. -/
def View.step (badge : UInt64) (i : ℕ) (v : View) : Event → View
  | .arrive packet => { v with queue := offerQueue (clientRxBufs - 1) v.queue packet }
  | .rx _ => { queue := v.queue.tail, seen := v.seen ++ callTrace badge i [] v.queue }

/-- The view of client `i` in a state: the frames in the U-Boot driver count as offered. -/
def viewOf (clients : List Client) (badge : UInt64) (i : ℕ) (s : System) : View where
  queue := s.uboot.foldl (offerRouted clients i) (fifoOf clients i s.trace).queue
  seen := observe badge i s.trace

/-- The arrival of a frame adds it to what waits in the driver. -/
theorem viewOf_arrive (badge : UInt64) (s : System) (packet : Packet) :
    viewOf clients badge i { s with uboot := s.uboot ++ [packet] } =
      if routedTo clients packet i then
        (viewOf clients badge i s).step badge i (.arrive packet)
      else viewOf clients badge i s := by
  simp only [viewOf, View.step, List.foldl_append, List.foldl_cons, List.foldl_nil, offerRouted]
  split_ifs <;> rfl

/-- Frames that are not empty are all taken. -/
theorem takenBy_eq_self {uboot : List Packet} (h : ∀ p ∈ uboot, 0 < p.length) :
    takenBy uboot = uboot ∧ leftBy uboot = [] := by
  induction uboot with
  | nil => exact ⟨rfl, rfl⟩
  | cons packet uboot ih =>
    have hp : packet.length ≠ 0 := Nat.pos_iff_ne_zero.mp (h packet (List.mem_cons_self ..))
    obtain ⟨hT, hL⟩ := takenBy_cons_of_ne hp uboot
    obtain ⟨hT', hL'⟩ := ih fun p hp => h p (List.mem_cons_of_mem _ hp)
    rw [hT, hL, hT', hL']
    exact ⟨rfl, rfl⟩

/-- Whoever calls, the call moves the frames of the U-Boot driver to where the view already has
them; only a call of `i` itself changes the view of `i`. -/
theorem viewOf_rx {s s' : System} (h : Inv clients s) (hpos : ∀ p ∈ s.uboot, 0 < p.length)
    (hg : GoodBadges clients) {i j : ℕ} (hi : i < clients.length) (hj : j < clients.length)
    (hstep : s.step (.rx j) = some s') :
    s'.uboot = [] ∧ viewOf clients clients[i].clientId i s' =
      if j = i then (viewOf clients clients[i].clientId i s).step clients[i].clientId i (.rx j)
      else viewOf clients clients[i].clientId i s := by
  obtain ⟨cs', hs', -⟩ := step_rx h hg hj
  obtain ⟨hT, hL⟩ := takenBy_eq_self hpos
  rw [hT, hL] at hs'
  obtain rfl := Option.some.inj (hstep.symm.trans hs')
  refine ⟨rfl, ?_⟩
  simp only [viewOf, View.step, List.foldl_nil, fifoOf_callTrace, observe_append,
    observe_callTrace hg hi hj]
  split_ifs with hji
  · subst hji
    rw [queue_take, queue_fifoOf_frees]
  · rw [queue_fifoOf_frees, List.append_nil]

/-! ### Runs -/

/-- The frames of a lossless U-Boot driver. -/
def IsFrame (packet : Packet) : Prop := 0 < packet.length ∧ packet.length ≤ bufSize

instance : DecidablePred IsFrame := fun _ => inferInstanceAs (Decidable (_ ∧ _))

/-- The invariant of `Queue`, with frames that are not empty. -/
def FrameInv (clients : List Client) (s : System) : Prop :=
  Inv clients s ∧ ∀ p ∈ s.uboot, 0 < p.length

/-- Every event keeps the invariant, and the frames in the driver fit into a buffer. -/
theorem preserves_frameInv (hg : GoodBadges clients) :
    (machine IsFrame).Preserves (FrameInv clients) := by
  rintro s e ⟨hinv, hpos⟩ he
  cases e with
  | arrive packet =>
    refine ⟨_, rfl, hinv.arrive he.2, fun p hp => ?_⟩
    rcases List.mem_append.mp hp with hp | hp
    · exact hpos p hp
    · obtain rfl := List.mem_singleton.mp hp
      exact he.1
  | rx j =>
    obtain ⟨s', hstep, hinv'⟩ := hinv.rx hg he
    have hj : j < clients.length := length_of_keys hinv.keys ▸ he
    obtain ⟨hnil, -⟩ := viewOf_rx hinv hpos hg hj hj hstep
    exact ⟨s', hstep, hinv', by simp [hnil]⟩

theorem FrameInv.init (t : Template) : FrameInv (serverInit t).1.clients (System.init t) :=
  ⟨Inv.init t, by simp [System.init]⟩

/-- What the environment may do depends on the number of clients only. -/
theorem FrameInv.ok {s : System} (h : FrameInv clients s) {t : Template}
    (ht : (serverInit t).1.clients = clients) {e : Event}
    (he : (machine IsFrame).ok (System.init t) e) : (machine IsFrame).ok s e := by
  cases e with
  | arrive packet => exact he
  | rx j =>
    have hlen : s.drv.clients.length = clients.length := length_of_keys h.1.keys
    show j < s.drv.clients.length
    rw [hlen, ← ht]
    exact he

/-- One event changes the view of client `i` if it concerns `i`, and only then. -/
theorem viewOf_step (hg : GoodBadges clients) {s s' : System} (h : FrameInv clients s)
    (hi : i < clients.length) {e : Event} (hok : (machine IsFrame).ok s e)
    (hstep : (machine IsFrame).step s e = some s') :
    viewOf clients clients[i].clientId i s' =
      if concerns clients i e then
        (viewOf clients clients[i].clientId i s).step clients[i].clientId i e
      else viewOf clients clients[i].clientId i s := by
  cases e with
  | arrive packet =>
    obtain rfl := Option.some.inj hstep
    exact viewOf_arrive ..
  | rx j =>
    have hj : j < clients.length := length_of_keys h.1.keys ▸ hok
    rw [(viewOf_rx h.1 h.2 hg hi hj hstep).2]
    simp only [concerns, decide_eq_true_eq]

/-- **The view of a client is a function of the events that concern it.** -/
theorem viewOf_reach {t : Template} (ht : (serverInit t).1.clients = clients)
    (hg : GoodBadges clients) {s : System} (h : FrameInv clients s) (hi : i < clients.length)
    {es : List Event} (hes : ∀ e ∈ es, (machine IsFrame).ok (System.init t) e) :
    viewOf clients clients[i].clientId i ((machine IsFrame).reach s es) =
      (es.filter (concerns clients i)).foldl (View.step clients[i].clientId i)
        (viewOf clients clients[i].clientId i s) := by
  induction es generalizing s with
  | nil => rfl
  | cons e es ih =>
    have hok := h.ok ht (hes e (List.mem_cons_self ..))
    obtain ⟨s', hstep, h'⟩ := preserves_frameInv hg s e h hok
    rw [reach_cons_of_step hstep, ih h' fun e' he' => hes e' (List.mem_cons_of_mem _ he'),
      viewOf_step hg h hi hok hstep, List.filter_cons]
    split_ifs
    · rfl
    · rfl

/-- **Client isolation**: deleting the calls of the other clients and the frames that are not routed
to client `i` leaves all that `i` observes unchanged. -/
theorem observe_filter_concerns (t : Template) (hnodup : t.badges.Nodup)
    (hint : ∀ b ∈ t.badges, FitsInt b) {i : ℕ} {client : Client}
    (hi : (serverInit t).1.clients[i]? = some client) {es : List Event}
    (hes : ∀ e ∈ es, (machine IsFrame).ok (System.init t) e) :
    observe client.clientId i ((machine IsFrame).reach (System.init t)
        (es.filter (concerns (serverInit t).1.clients i))).trace =
      observe client.clientId i ((machine IsFrame).reach (System.init t) es).trace := by
  have hg := serverInit_goodBadges hnodup hint
  obtain ⟨hilt, rfl⟩ := List.getElem?_eq_some_iff.mp hi
  have h := viewOf_reach rfl hg (FrameInv.init t) hilt hes
  have hes' : ∀ e ∈ es.filter (concerns (serverInit t).1.clients i),
      (machine IsFrame).ok (System.init t) e := fun e he => hes e (List.mem_of_mem_filter he)
  have h' := viewOf_reach rfl hg (FrameInv.init t) hilt hes'
  rw [List.filter_filter] at h'
  simp only [Bool.and_self] at h'
  exact congrArg View.seen (h'.trans h.symm)

/-- A frame for client `0`, which calls after client `1`. -/
def otherCallsFirst : List Event := [.arrive [2, 0, 0, 0, 0, 1], .rx 1, .rx 0]

/-- Client `0` gets its frame whether or not client `1` calls. -/
theorem observe_two_clients :
    observe 1 0 ((machine IsFrame).reach (System.init (withBadges [1, 2]))
        (otherCallsFirst.filter (concerns (serverInit (withBadges [1, 2])).1.clients 0))).trace =
      observe 1 0
        ((machine IsFrame).reach (System.init (withBadges [1, 2])) otherCallsFirst).trace := by
  obtain ⟨client, hi, hid⟩ : ∃ client,
      (serverInit (withBadges [1, 2])).1.clients[0]? = some client ∧ client.clientId = 1 :=
    ⟨_, rfl, rfl⟩
  have hes : ∀ e ∈ otherCallsFirst, (machine IsFrame).ok (System.init (withBadges [1, 2])) e := by
    decide +kernel
  have hint : ∀ b ∈ (withBadges [1, 2]).badges, FitsInt b := fun b hb =>
    fitsInt_of_lt (by rcases List.mem_pair.mp hb with rfl | rfl <;> decide)
  have h := observe_filter_concerns (withBadges [1, 2]) (by decide +kernel) hint hi hes
  rwa [hid] at h

/-- A client whose badge does not fit an `int` is not found when it calls: the assertion fails, and
no call of any client is answered after it. -/
theorem observe_wide_badge :
    (withBadges [1, 0x80000000]).badges.Nodup ∧
    ((serverInit (withBadges [1, 0x80000000])).1.clients.map Client.mac).Nodup ∧
    (∀ e ∈ otherCallsFirst,
      (machine IsFrame).ok (System.init (withBadges [1, 0x80000000])) e) ∧
    observe 1 0 ((machine IsFrame).reach (System.init (withBadges [1, 0x80000000]))
        (otherCallsFirst.filter
          (concerns (serverInit (withBadges [1, 0x80000000])).1.clients 0))).trace ≠
      observe 1 0
        ((machine IsFrame).reach (System.init (withBadges [1, 0x80000000]))
          otherCallsFirst).trace := by
  decide +kernel

end Camkes.EthdriverUboot
