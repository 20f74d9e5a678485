import Camkes.PicotcpSingle.Equiv.TcpEchoStep

/-!
# The TCP echo server loses nothing

`Inv` says that the open connections are distinct and that each slot accounts for all bytes received
on its connection (`Slot.Echoes`).  A call keeps it as long as no send fails on a read event
(`Inv.handle`): what `pico_socket_send` takes of a payload moves from the buffer to the network, and
the handler changes the slot of one connection and the bytes of that connection only
(`Inv.withSlot`).
-/

namespace Camkes.PicotcpSingle.TcpEcho

open CArray Machine

/-! ### The bytes of a slot -/

theorem echoes_of_eq {slot : Slot} (hw : slot.writePending = false) {c : Conn}
    (h : c.sent = c.received) : slot.Echoes c := by
  rw [Slot.Echoes, if_neg (by simp [hw])]
  exact h

theorem Slot.Echoes.eq {slot : Slot} {c : Conn} (h : slot.Echoes c)
    (hw : slot.writePending = false) : c.sent = c.received := by
  rwa [Slot.Echoes, if_neg (by simp [hw])] at h

theorem Slot.Echoes.pending {slot : Slot} {c : Conn} (h : slot.Echoes c)
    (hw : slot.writePending = true) :
    ∃ rest, slice slot.dataPacket slot.sentPayload slot.remainingPayload = some rest ∧
      c.received = c.sent ++ rest := by
  rwa [Slot.Echoes, if_pos hw] at h

theorem Slot.Echoes.received_eq {slot : Slot} {c : Conn} (h : slot.Echoes c)
    (hw : slot.writePending = true) {rest : List UInt8} (hs : slot.pending? = some rest) :
    c.received = c.sent ++ rest := by
  obtain ⟨rest', hs', hc⟩ := h.pending hw
  obtain rfl : rest = rest' := Option.some.inj (hs.symm.trans hs')
  exact hc

theorem echoes_of_pending {slot : Slot} {c : Conn} (hw : slot.writePending = true)
    {rest : List UInt8}
    (hs : slice slot.dataPacket slot.sentPayload slot.remainingPayload = some rest)
    (hc : c.received = c.sent ++ rest) : slot.Echoes c := by
  rw [Slot.Echoes, if_pos hw]
  exact ⟨rest, hs, hc⟩

/-- Bytes that have been sent since, from a slot that accounted for all bytes. -/
theorem OnlySent.received_eq {xs : List Io} (honly : OnlySent xs) {c : Conn}
    {rest rest' : List UInt8} (hc : c.received = c.sent ++ rest)
    (hrest : rest = sentBytes xs ++ rest') :
    (c.ios xs).received = (c.ios xs).sent ++ rest' := by
  rw [Conn.ios_received, Conn.ios_sent, honly.receivedBytes_eq, hc, hrest, List.append_nil,
    List.append_assoc]

/-- Sends without an error lose nothing of what has just been received. -/
theorem SendResult.echoes {slot slot' : Slot} {rest : List UInt8} {limit : ℕ} {e : SendEnd}
    {xs : List Io} (h : SendResult slot rest limit e slot' xs) (he : e ≠ .failed)
    (honly : OnlySent xs) (hw : slot.writePending = false) {c : Conn}
    (hc : c.received = c.sent ++ rest) : slot'.Echoes (c.ios xs) := by
  cases h with
  | complete hxs =>
    have hrest : rest = sentBytes xs ++ [] := by rw [hxs, List.append_nil]
    have heq := honly.received_eq hc hrest
    rw [List.append_nil] at heq
    exact echoes_of_eq hw heq.symm
  | blocked _ _ hs hrest => exact echoes_of_pending rfl hs (honly.received_eq hc hrest)
  | failed _ => exact absurd rfl he

theorem FlushResult.echoes {slot slot' : Slot} {rest : List UInt8} {e : SendEnd} {xs : List Io}
    (h : FlushResult slot rest e slot' xs) {c : Conn} (hc : c.received = c.sent ++ rest) :
    slot'.Echoes (c.ios xs) := by
  obtain ⟨rest', hs, hrest⟩ := h.pending
  exact echoes_of_pending h.writePending hs (h.onlySent.received_eq hc hrest)

/-- Everything that was pending has been sent. -/
theorem Slot.Echoes.clear {slot : Slot} {c : Conn} (h : slot.Echoes c)
    (hw : slot.writePending = true) (hrem : slot.remainingPayload = 0) :
    ({ slot with writePending := false } : Slot).Echoes c := by
  obtain ⟨rest, hs, hc⟩ := h.pending hw
  have hnil : rest = [] := List.eq_nil_of_length_eq_zero ((length_of_slice hs).trans hrem)
  rw [hnil, List.append_nil] at hc
  exact echoes_of_eq rfl hc.symm

/-- Receiving and sending without an error of a send loses nothing. -/
theorem Receives.echoes {slot slot' : Slot} {rounds : List Round} {xs : List Io}
    (h : Receives slot rounds slot' xs) (hok : roundsSucceed rounds) {c : Conn}
    (hecho : slot.Echoes c) : slot'.Echoes (c.ios xs) := by
  induction h generalizing c with
  | nil => exact hecho
  | pending => exact hecho
  | error => exact hecho
  | empty => exact hecho
  | @data slot slot₁ slot₂ slot' data sends rounds xs ys hlen hw hw₁ honly _ hres hrest ih =>
    simp only [roundsSucceed, if_neg hlen] at hok
    have hc : (c.io (.received (data.take tcpReadSize))).received =
        (c.io (.received (data.take tcpReadSize))).sent ++ data.take tcpReadSize := by
      show c.received ++ _ = c.sent ++ _
      rw [hecho.eq hw]
    rw [Conn.ios_cons, Conn.ios_append]
    cases hend : sendEnd (data.take tcpReadSize).length sends with
    | complete =>
      rw [hend] at hok hres
      exact ih hok (hres.echoes nofun honly hw₁ hc)
    | blocked =>
      rw [hend] at hres
      have hecho₂ := hres.echoes nofun honly hw₁ hc
      cases hres with
      | blocked _ _ _ _ =>
        cases hrest with
        | nil => exact hecho₂
        | pending _ => exact hecho₂
        | error => exact hecho₂
        | empty _ => exact hecho₂
        | data _ hw₂ => cases hw₂
    | failed =>
      rw [hend] at hok
      cases hok

/-- The events of one call lose nothing if no send fails. -/
theorem Serves.echoes {slot slot' : Slot} {c : Call} {xs : List Io} (h : Serves slot c slot' xs)
    (hok : roundsSucceed c.rounds) {s : Conn} (hecho : slot.Echoes s) :
    slot'.Echoes (s.ios xs) := by
  cases h with
  | idle _ _ => exact hecho
  | receive _ _ hrec => exact hrec.echoes hok hecho
  | wait _ _ => exact hecho
  | flush hw _ hs _ hres _ => exact hres.echoes (hecho.received_eq hw hs)
  | flushed hw _ hs _ hres hrem hrec =>
    rw [Conn.ios_append]
    exact hrec.echoes hok ((hres.echoes (hecho.received_eq hw hs)).clear hres.writePending hrem)

/-! ### The invariant -/

variable {st : State} {trace : List Action}

/-- The open connections are distinct, and each slot accounts for the bytes of its connection. -/
structure Inv (st : State) (trace : List Action) : Prop where
  inj : ∀ (i j : ClientId) (s : Sock), st.connected.get i = some s →
    st.connected.get j = some s → i = j
  echoes : ∀ (i : ClientId) (s : Sock), st.connected.get i = some s →
    (st.slots.get i).Echoes (connOf s trace)

theorem inv_init (socketIn : Sock) : Inv (.init socketIn) [] where
  inj := distinct_init socketIn
  echoes i s hi := by
    rw [State.init, get_replicate] at hi
    cases hi

/-- Bytes that pass the connection of one slot concern that slot only. -/
theorem Inv.withSlot (h : Inv st trace) {i : ClientId} {s : Sock} (hi : st.connected.get i = some s)
    {slot : Slot} {xs : List Io} (hecho : slot.Echoes ((connOf s trace).ios xs)) :
    Inv { st with slots := put st.slots i slot } (trace ++ xs.map (.io s)) where
  inj := h.inj
  echoes j s' hj := by
    rw [get_put, connOf_append_io]
    by_cases hij : i = j
    · subst hij
      obtain rfl : s = s' := Option.some.inj (hi.symm.trans hj)
      rwa [if_pos rfl, if_pos rfl]
    · have hne : s ≠ s' := by
        rintro rfl
        exact hij (h.inj i j s hi hj)
      rw [if_neg hij, if_neg hne]
      exact h.echoes j s' hj

/-- A new connection starts with nothing received, in a slot with nothing pending. -/
theorem Inv.conn (h : Inv st trace) {accept : Option Sock} (hnew : acceptsNew st accept)
    {i : ClientId} :
    Inv { st with
        connected := put st.connected i accept
        slots := put st.slots i { st.slots.get i with writePending := false } }
      (trace ++ accept.toList.map .accepted) := by
  constructor
  · exact Distinct.accept h.inj hnew i _
  · intro j s hj
    rw [get_put] at hj ⊢
    split_ifs at hj ⊢ with hij
    · subst hj
      apply echoes_of_eq rfl
      rw [Option.toList_some, List.map_singleton, connOf_append_accepted, if_pos rfl]
      rfl
    · cases accept with
      | none => simpa using h.echoes j s hj
      | some s' =>
        have hne : s' ≠ s := by
          rintro rfl
          exact not_connected_of_acceptsNew hnew rfl j hj
        rw [Option.toList_some, List.map_singleton, connOf_append_accepted, if_neg hne]
        exact h.echoes j s hj

theorem Inv.shutdown (h : Inv st trace) (s : Sock) : Inv st (trace ++ [.shutdown s]) where
  inj := h.inj
  echoes i s' hi := by
    rw [connOf_append_shutdown]
    exact h.echoes i s' hi

/-- Freeing a slot leaves the other connections. -/
theorem Inv.fin (h : Inv st trace) (i : ClientId) :
    Inv { st with connected := put st.connected i none } trace where
  inj := Distinct.fin h.inj i _
  echoes j s hj := by
    rw [get_put] at hj
    split_ifs at hj
    exact h.echoes j s hj

/-! ### The handler -/

theorem inv_close (h : Inv st trace) (c : Call) : Inv st (trace ++ closeActions c) := by
  unfold closeActions
  split_ifs
  · exact h.shutdown c.socket
  · rwa [List.append_nil]

/-- **One call of the handler keeps the invariant** if no send fails on a read event. -/
theorem Inv.handle (h : Inv st trace) {c : Call} (hexp : expected st c)
    (hok : roundsSucceed c.rounds) :
    ∃ st' acts, handleTcpPicoserverNotification st c = some (st', acts) ∧
      Inv st' (trace ++ acts) := by
  have hpending : ∀ i, st.connected.get i = some c.socket →
      (st.slots.get i).writePending = true → ∃ rest, (st.slots.get i).pending? = some rest :=
    fun i hi hw => ((h.echoes i c.socket hi).pending hw).imp fun rest hrest => hrest.1
  obtain ⟨st', acts, hhandle, hhandles⟩ := handle_spec hexp hpending
  refine ⟨st', acts, hhandle, ?_⟩
  cases hhandles with
  | refused _ => exact inv_close h c
  | accepted _ _ =>
    rw [← List.append_assoc]
    exact inv_close (h.conn (expected_iff.mp hexp).2.1) c
  | served hi _ hserves =>
    have h' := inv_close (h.withSlot hi (hserves.echoes hok (h.echoes _ _ hi))) c
    rw [← List.append_assoc]
    split_ifs
    · exact h'.fin _
    · exact h'

theorem sendEnd_ne_failed {sends : List Send} (h : .error ∉ sends) (len : ℕ) :
    sendEnd len sends ≠ .failed := by
  induction sends generalizing len with
  | nil =>
    intro hend
    rw [sendEnd] at hend
    split_ifs at hend
  | cons send sends ih =>
    cases send with
    | error => exact absurd (List.mem_cons_self ..) h
    | sent n =>
      intro hend
      rw [sendEnd] at hend
      split_ifs at hend
      exact ih (fun hmem => h (List.mem_cons_of_mem _ hmem)) _ hend

theorem roundsSucceed_of_no_error {rounds : List Round}
    (h : ∀ round ∈ rounds, .error ∉ round.sends) : roundsSucceed rounds := by
  induction rounds with
  | nil => rfl
  | cons round rounds ih =>
    obtain ⟨recv, sends⟩ := round
    cases recv with
    | error => rfl
    | data data =>
      simp only [roundsSucceed]
      split_ifs
      · rfl
      · have hne := sendEnd_ne_failed (h _ (List.mem_cons_self ..)) (data.take tcpReadSize).length
        cases hend : sendEnd (data.take tcpReadSize).length sends with
        | complete => exact ih fun round hmem => h round (List.mem_cons_of_mem _ hmem)
        | blocked => rfl
        | failed => exact absurd hend hne

theorem roundsSucceed_of_sendsSucceed {c : Call} (h : sendsSucceed c) : roundsSucceed c.rounds := by
  simp only [sendsSucceed, Bool.and_eq_true, List.all_eq_true, Bool.not_eq_true',
    List.contains_eq_mem, decide_eq_false_iff_not] at h
  exact roundsSucceed_of_no_error h.2

/-! ### Runs -/

/-- Every call keeps all connections echoed. -/
theorem preserves_inv : machine.Preserves fun s => Inv s.server s.trace := by
  intro s c hinv hok
  obtain ⟨st', acts, hhandle, hinv'⟩ :=
    hinv.handle hok.1 (roundsSucceed_of_sendsSucceed hok.2)
  exact ⟨_, step_of_handle hhandle, hinv'⟩

/-- **The TCP echo server is lossless**: after any run without failing sends, for every open
connection the bytes received are the bytes sent, followed by the pending part of the packet buffer
of its slot; and no further call fails. -/
theorem echo_lossless (socketIn : Sock) {ts : List (Transition System Call)} {s : System}
    (hrun : machine.Run (.init socketIn) ts s) :
    (∀ (i : ClientId) (sock : Sock), s.server.connected.get i = some sock →
      (s.server.slots.get i).Echoes (connOf sock s.trace)) ∧
    ∀ c, machine.ok s c → (machine.step s c).isSome :=
  ⟨(preserves_inv.run (inv_init socketIn) hrun).echoes,
    fun c hc => preserves_inv.safe (inv_init socketIn) ts s c hrun hc⟩

/-- A connection is accepted, the send of what it has received blocks after two bytes, and the rest
goes out at the next write event. -/
def blockedSend : List Call :=
  [{ events := { SockEvents.none with conn := true }, socket := 100, accept := some 1, flush := []
     rounds := [] },
   { events := { SockEvents.none with rd := true }, socket := 1, accept := none, flush := []
     rounds := [⟨.data [1, 2, 3], [.sent 2]⟩] },
   { events := { SockEvents.none with wr := true }, socket := 1, accept := none
     flush := [.sent 1400], rounds := [⟨.data [4], [.sent 1]⟩] }]

theorem echo_lossless_blockedSend : ∃ ts s, machine.Run (.init 100) ts s ∧
    events ts = blockedSend ∧
    s.trace = [.accepted 1, .io 1 (.received [1, 2, 3]), .io 1 (.sent [1, 2]), .io 1 (.sent [3]),
      .io 1 (.received [4]), .io 1 (.sent [4])] ∧
    ∀ (i : ClientId) (sock : Sock), s.server.connected.get i = some sock →
      (s.server.slots.get i).Echoes (connOf sock s.trace) := by
  obtain ⟨ts, s, hrun, hevents, hp⟩ := exists_run_of_exec machine (.init 100) blockedSend
    (fun r => r.2.trace = [.accepted 1, .io 1 (.received [1, 2, 3]), .io 1 (.sent [1, 2]),
      .io 1 (.sent [3]), .io 1 (.received [4]), .io 1 (.sent [4])]) (by decide +kernel)
  exact ⟨ts, s, hrun, hevents, of_decide_eq_true hp, (echo_lossless 100 hrun).1⟩

end Camkes.PicotcpSingle.TcpEcho
