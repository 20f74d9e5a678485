import Camkes.Data.History
import Camkes.PicotcpSingle.Equiv.TcpEcho

/-!
# What is sent is a prefix of what is received, unless a send fails

No call fails, whatever the stack answers (`preserves_bounded`).  The bytes sent on a connection
stay a prefix of the bytes received on it as long as nothing is sent after a loss
(`sent_prefix_received`).  Bytes are lost only by a send that fails on a read event: a failure of
`pico_socket_recv`, or of a send on a write event, is harmless (`callInOrder_of_roundsSucceed`).
-/

namespace Camkes.PicotcpSingle.TcpEcho

open CArray Machine

/-! ### Order on one connection -/

/-- What has been sent is a prefix of what has been received. -/
def Conn.InOrder (c : Conn) : Prop := c.sent <+: c.received

/-- It is so while these bytes pass. -/
def Conn.InOrderAlong (c : Conn) (xs : List Io) : Prop := Always (fun ys => (c.ios ys).InOrder) xs

theorem Conn.InOrder.nil {c : Conn} (h : c.InOrder) : c.InOrderAlong [] :=
  always_nil.mpr h

theorem Conn.InOrderAlong.append {c : Conn} {xs ys : List Io} (h : c.InOrderAlong xs)
    (h' : (c.ios xs).InOrderAlong ys) : c.InOrderAlong (xs ++ ys) := by
  refine Always.append h fun zs hzs => ?_
  show (c.ios (xs ++ zs)).InOrder
  rw [Conn.ios_append]
  exact h' zs hzs

theorem Conn.InOrder.received {c : Conn} (h : c.InOrder) (bytes : List UInt8) :
    (c.io (.received bytes)).InOrder :=
  h.trans (List.prefix_append ..)

theorem Conn.InOrder.cons_received {c : Conn} (h : c.InOrder) {bytes : List UInt8} {xs : List Io}
    (h' : (c.io (.received bytes)).InOrderAlong xs) : c.InOrderAlong (.received bytes :: xs) := by
  have hfirst : c.InOrderAlong [.received bytes] := by
    intro ys hys
    rcases List.prefix_cons_iff.mp hys with rfl | ⟨zs, rfl, hzs⟩
    · exact h
    · obtain rfl := List.prefix_nil.mp hzs
      exact h.received bytes
  exact hfirst.append h'

/-- The front of what is left may be sent. -/
theorem OnlySent.inOrderAlong {xs : List Io} (honly : OnlySent xs) {c : Conn}
    {rest rest' : List UInt8} (hc : c.received = c.sent ++ rest)
    (hrest : rest = sentBytes xs ++ rest') : c.InOrderAlong xs := by
  rintro ys ⟨zs, rfl⟩
  have honly' : OnlySent ys := fun x hx => honly x (List.mem_append_left _ hx)
  rw [sentBytes_append, List.append_assoc] at hrest
  have heq := honly'.received_eq hc hrest
  rw [Conn.InOrder, heq]
  exact List.prefix_append ..

/-! ### The loops -/

/-- A loop of sends has sent the beginning of what it was given. -/
theorem SendResult.split {slot slot' : Slot} {rest : List UInt8} {limit : ℕ} {e : SendEnd}
    {xs : List Io} (h : SendResult slot rest limit e slot' xs) :
    ∃ rest', rest = sentBytes xs ++ rest' := by
  cases h with
  | complete hxs => exact ⟨[], by rw [hxs, List.append_nil]⟩
  | blocked _ _ _ hrest => exact ⟨_, hrest⟩
  | failed hrest => exact ⟨_, hrest⟩

/-- `lost` tells whether the slot still accounts for all bytes when the loop starts. -/
theorem Receives.inOrderAlong {slot slot' : Slot} {rounds : List Round} {xs : List Io}
    (h : Receives slot rounds slot' xs) {lost : Bool} (hok : slot.writePending = false →
      roundsInOrder lost rounds) {c : Conn} (hc : c.InOrder)
    (hecho : lost = false → slot.Echoes c) : c.InOrderAlong xs := by
  induction h generalizing lost c with
  | nil => exact hc.nil
  | pending => exact hc.nil
  | error => exact hc.nil
  | empty => exact hc.nil
  | @data slot slot₁ slot₂ slot' data sends rounds xs ys hlen hw hw₁ honly htakes hres hrest ih =>
    have hok := hok hw
    simp only [roundsInOrder, if_neg hlen, Bool.and_eq_true, Bool.not_eq_true'] at hok
    obtain ⟨hquiet, hok⟩ := hok
    let c₁ := c.io (.received (data.take tcpReadSize))
    have hc₁ : c₁.InOrder := hc.received _
    have hreceived : lost = false → c₁.received = c₁.sent ++ data.take tcpReadSize := by
      intro hlost
      show c.received ++ _ = c.sent ++ _
      rw [(hecho hlost).eq hw]
    have hxs : c₁.InOrderAlong xs := by
      cases lost with
      | false =>
        obtain ⟨rest', hrest'⟩ := hres.split
        exact honly.inOrderAlong (hreceived rfl) hrest'
      | true =>
        rw [htakes hquiet]
        exact hc₁.nil
    refine hc.cons_received (hxs.append ?_)
    cases hend : sendEnd (data.take tcpReadSize).length sends with
    | complete =>
      rw [hend] at hok hres
      exact ih (fun _ => hok) hxs.now fun hlost => hres.echoes nofun honly hw₁ (hreceived hlost)
    | blocked =>
      rw [hend] at hres
      have hw₂ : slot₂.writePending = true := by
        cases hres with
        | blocked _ _ _ _ => rfl
      have hlost : true = false → slot₂.Echoes (c₁.ios xs) := nofun
      exact ih (fun h => absurd hw₂ (by simp [h])) hxs.now hlost
    | failed =>
      rw [hend] at hok
      exact ih (fun _ => hok) hxs.now nofun

/-- Flushing pending bytes keeps the order, unless bytes before them have been lost. -/
theorem flush_inOrderAlong {slot slot' : Slot} {rest : List UInt8} {e : SendEnd}
    {sends : List Send} {xs : List Io} (hrest : slot.pending? = some rest)
    (hw : slot.writePending = true) (htakes : takesBytes sends = false → xs = []) {lost : Bool}
    (hquiet : (lost && takesBytes sends) = false) (h : FlushResult slot rest e slot' xs)
    {c : Conn} (hc : c.InOrder) (hecho : lost = false → slot.Echoes c) : c.InOrderAlong xs := by
  cases lost with
  | false =>
    obtain ⟨rest', -, hsplit⟩ := h.pending
    exact h.onlySent.inOrderAlong ((hecho rfl).received_eq hw hrest) hsplit
  | true =>
    rw [htakes hquiet]
    exact hc.nil

/-- A call that does not send behind lost bytes keeps the order. -/
theorem Serves.inOrderAlong {slot slot' : Slot} {c : Call} {xs : List Io}
    (h : Serves slot c slot' xs) {lost : Bool} (hok : slotInOrder slot lost c) {s : Conn}
    (hs : s.InOrder) (hecho : lost = false → slot.Echoes s) : s.InOrderAlong xs := by
  unfold slotInOrder at hok
  cases h with
  | idle _ _ => exact hs.nil
  | receive hw hrd hrec =>
    refine hrec.inOrderAlong (fun _ => ?_) hs hecho
    simpa [hw, hrd] using hok
  | wait _ _ => exact hs.nil
  | flush hw hwr hrest htakes hres hrem =>
    simp only [hw, if_true, hwr, Bool.not_true, Bool.false_or, Bool.and_eq_true,
      Bool.not_eq_true'] at hok
    exact flush_inOrderAlong hrest hw htakes hok.1 hres hs hecho
  | @flushed slot₁ slot' rest xs ys hw hwr hrest htakes hres hrem hrec =>
    simp only [hw, if_true, hwr, Bool.not_true, Bool.false_or, Bool.and_eq_true,
      Bool.not_eq_true'] at hok
    have hxs := flush_inOrderAlong hrest hw htakes hok.1 hres hs hecho
    have hrounds : roundsInOrder lost c.rounds := by
      have hend := hres.complete.mp hrem
      simpa [hend] using hok.2
    refine hxs.append (hrec.inOrderAlong (fun _ => hrounds) hxs.now fun hlost => ?_)
    exact (hres.echoes ((hecho hlost).received_eq hw hrest)).clear hres.writePending hrem

/-! ### Traces -/

/-- At all times, what has been sent on a socket is a prefix of what has been received on it. -/
def InOrderTrace (trace : List Action) : Prop :=
  Always (fun before => ∀ sock, (connOf sock before).InOrder) trace

variable {st : State} {trace : List Action}

theorem inOrderTrace_nil : InOrderTrace [] :=
  always_nil.mpr fun _ => List.prefix_refl _

/-- Calls that keep the order of a connection keep that of the trace. -/
theorem InOrderTrace.io (h : InOrderTrace trace) {s : Sock} {xs : List Io}
    (hxs : (connOf s trace).InOrderAlong xs) : InOrderTrace (trace ++ xs.map (.io s)) := by
  refine Always.append h fun acts hacts sock => ?_
  obtain ⟨ys, hys, rfl⟩ := List.prefix_map_iff.mp hacts
  rw [connOf_append_io]
  split_ifs with hsock
  · subst hsock
    exact hxs ys hys
  · exact h.now sock

/-- Accepting a connection keeps the order of all. -/
theorem InOrderTrace.accepted (h : InOrderTrace trace) (s : Sock) :
    InOrderTrace (trace ++ [.accepted s]) := by
  refine Always.concat h fun sock => ?_
  rw [connOf_append_accepted]
  split_ifs
  · exact List.prefix_refl _
  · exact h.now sock

/-- Closing keeps the order of all. -/
theorem InOrderTrace.close (h : InOrderTrace trace) (c : Call) :
    InOrderTrace (trace ++ closeActions c) := by
  unfold closeActions
  split_ifs
  · refine Always.concat h fun sock => ?_
    rw [connOf_append_shutdown]
    exact h.now sock
  · rwa [List.append_nil]

/-! ### Runs -/

/-- A call of the handler that does not send behind lost bytes keeps the order of all connections.
-/
theorem Handles.inOrder {s : System} {c : Call} {st' : State} {acts : List Action}
    (h : Handles s.server c st' acts) (hok : callInOrder s c) (hs : InOrderTrace s.trace) :
    InOrderTrace (s.trace ++ acts) := by
  unfold callInOrder at hok
  cases h with
  | refused _ => exact hs.close c
  | accepted _ _ =>
    rw [← List.append_assoc]
    cases c.accept with
    | none => exact (by rwa [Option.toList_none, List.map_nil, List.append_nil] :
        InOrderTrace (s.trace ++ _)).close c
    | some sock => exact (hs.accepted sock).close c
  | served hi hfind hserves =>
    rw [hfind] at hok
    rw [← List.append_assoc]
    refine (hs.io (hserves.inOrderAlong hok (hs.now _) fun hlost => ?_)).close c
    simpa using hlost

/-- Every call keeps every slot bounded, errors included. -/
theorem preserves_bounded :
    errorMachine.Preserves fun s => ∀ i, (s.server.slots.get i).Bounded := by
  intro s c hb hexp
  obtain ⟨st', acts, hhandle, hhandles⟩ := handle_spec hexp fun i _ hw => (hb i).pending hw
  exact ⟨_, step_of_handle hhandle, hhandles.bounded hb⟩

/-- No call fails, whatever the stack answers. -/
theorem errors_safe (socketIn : Sock) : errorMachine.Safe (.init socketIn) :=
  preserves_bounded.safe (bounded_init socketIn)

/-- **Prefix property under errors**: if no bytes are sent on a connection after a send of received
data has failed on it, then at all times the bytes sent on a connection are a prefix of the bytes
received on it. -/
theorem sent_prefix_received (socketIn : Sock) {ts : List (Transition System Call)} {s : System}
    (hrun : errorMachine.Run (.init socketIn) ts s)
    (hts : ∀ t ∈ ts, callInOrder t.before t.event) :
    ∀ before, before <+: s.trace → ∀ sock,
      (connOf sock before).sent <+: (connOf sock before).received := by
  have hinv : (∀ i, (s.server.slots.get i).Bounded) ∧ InOrderTrace s.trace := by
    refine hrun.invariant_of_forall
      (P := fun s => (∀ i, (s.server.slots.get i).Bounded) ∧ InOrderTrace s.trace)
      (C := fun s c => callInOrder s c) hts ⟨bounded_init socketIn, inOrderTrace_nil⟩ ?_
    rintro s c s' ⟨hb, hs⟩ hexp hok hstep
    obtain ⟨st', acts, hhandle, hhandles⟩ := handle_spec hexp fun i _ hw => (hb i).pending hw
    obtain rfl := Option.some.inj (hstep.symm.trans (step_of_handle hhandle))
    exact ⟨hhandles.bounded hb, hhandles.inOrder hok hs⟩
  exact hinv.2

/-- A send on a write event fails, and the call to receive after it. -/
def harmlessErrors : List Call :=
  [{ events := { SockEvents.none with conn := true }, socket := 100, accept := some 1, flush := []
     rounds := [] },
   { events := { SockEvents.none with rd := true }, socket := 1, accept := none, flush := []
     rounds := [⟨.data [1, 2, 3], [.sent 1]⟩] },
   { events := { SockEvents.none with wr := true }, socket := 1, accept := none
     flush := [.sent 1, .error], rounds := [] },
   { events := { SockEvents.none with wr := true }, socket := 1, accept := none
     flush := [.sent 1], rounds := [⟨.error, []⟩] }]

theorem sent_prefix_received_harmlessErrors : ∃ ts s, errorMachine.Run (.init 100) ts s ∧
    events ts = harmlessErrors ∧ (connOf 1 s.trace).sent = [1, 2, 3] ∧
    ∀ before, before <+: s.trace → ∀ sock,
      (connOf sock before).sent <+: (connOf sock before).received := by
  obtain ⟨ts, s, hrun, hevents, hp⟩ := exists_run_of_exec errorMachine (.init 100) harmlessErrors
    (fun r => (r.1.all fun t => callInOrder t.before t.event) ∧
      (connOf 1 r.2.trace).sent = [1, 2, 3]) (by decide +kernel)
  obtain ⟨hok, hsent⟩ := of_decide_eq_true hp
  exact ⟨ts, s, hrun, hevents, hsent, sent_prefix_received 100 hrun (List.all_eq_true.mp hok)⟩

/-- A send of received data fails after one of three bytes; then more data comes. -/
def failedSend : List Call :=
  [{ events := { SockEvents.none with conn := true }, socket := 100, accept := some 1, flush := []
     rounds := [] },
   { events := { SockEvents.none with rd := true }, socket := 1, accept := none, flush := []
     rounds := [⟨.data [1, 2, 3], [.sent 1, .error]⟩, ⟨.data [4], [.sent 1]⟩] }]

/-- The bytes 1 and 4 are sent, of 1, 2, 3 and 4 received. -/
theorem not_sent_prefix_received : ∃ ts s, errorMachine.Run (.init 100) ts s ∧
    events ts = failedSend ∧ (connOf 1 s.trace).received = [1, 2, 3, 4] ∧
    (connOf 1 s.trace).sent = [1, 4] ∧
    ¬(connOf 1 s.trace).sent <+: (connOf 1 s.trace).received := by
  obtain ⟨ts, s, hrun, hevents, hp⟩ := exists_run_of_exec errorMachine (.init 100) failedSend
    (fun r => (connOf 1 r.2.trace).received = [1, 2, 3, 4] ∧ (connOf 1 r.2.trace).sent = [1, 4])
    (by decide +kernel)
  obtain ⟨hreceived, hsent⟩ := of_decide_eq_true hp
  refine ⟨ts, s, hrun, hevents, hreceived, hsent, ?_⟩
  rw [hreceived, hsent]
  decide

/-! ### Failures that are harmless -/

/-- Without an error of a send nothing is lost. -/
theorem roundsInOrder_of_roundsSucceed {rounds : List Round} (h : roundsSucceed rounds) :
    roundsInOrder false rounds := by
  induction rounds with
  | nil => rfl
  | cons round rounds ih =>
    obtain ⟨recv, sends⟩ := round
    cases recv with
    | error => rfl
    | data data =>
      simp only [roundsSucceed] at h
      simp only [roundsInOrder, Bool.false_and, Bool.not_false, Bool.true_and]
      split_ifs at h ⊢
      · rfl
      · cases hend : sendEnd (data.take tcpReadSize).length sends with
        | complete =>
          rw [hend] at h
          exact ih h
        | blocked => rfl
        | failed =>
          rw [hend] at h
          cases h

/-- Only a send of received data can lose bytes. -/
theorem callInOrder_of_roundsSucceed {s : System} (h : Inv s.server s.trace) {c : Call}
    (hok : roundsSucceed c.rounds) : callInOrder s c := by
  unfold callInOrder
  cases hfind : findClient s.server c.socket with
  | none => rfl
  | some i =>
    have hecho := h.echoes i c.socket (connected_of_findClient hfind)
    simp [slotInOrder, hecho, roundsInOrder_of_roundsSucceed hok]

/-- The prefix property holds, whatever `pico_socket_recv` returns and with any outcomes of the
sends on write events, as long as no send of received data fails. -/
theorem sent_prefix_of_roundsSucceed (socketIn : Sock) {ts : List (Transition System Call)}
    {s : System} (hrun : errorMachine.Run (.init socketIn) ts s)
    (hts : ∀ t ∈ ts, roundsSucceed t.event.rounds) :
    ∀ before, before <+: s.trace → ∀ sock,
      (connOf sock before).sent <+: (connOf sock before).received := by
  have hinv : ∀ t ∈ ts, Inv t.before.server t.before.trace := by
    refine hrun.before_of_forall (P := fun s => Inv s.server s.trace)
      (C := fun _ c => roundsSucceed c.rounds) hts (inv_init socketIn) ?_
    intro s c s' h hexp hok hstep
    obtain ⟨st', acts, hhandle, h'⟩ := h.handle hexp hok
    obtain rfl := Option.some.inj (hstep.symm.trans (step_of_handle hhandle))
    exact h'
  refine sent_prefix_received socketIn hrun fun t ht => ?_
  exact callInOrder_of_roundsSucceed (hinv t ht) (hts t ht)

end Camkes.PicotcpSingle.TcpEcho
