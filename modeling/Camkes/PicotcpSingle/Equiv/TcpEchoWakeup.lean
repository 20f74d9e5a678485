import Camkes.PicotcpSingle.Equiv.TcpEchoStep
import Camkes.PicotcpSingle.TcpEchoWakeup

/-!
# The TCP echo server strands no input

`WakeupInv` says that what is unread on a socket is announced by a read event that is still to come,
unless a send is pending on it.  The loop on a read event ends with nothing unread or with a pending
send (`Receives.drains`), and a pending send ends with that loop (`Serves.drains`).

`Held` says that nothing has been received on a socket before the pending bytes were sent.
`Progress` follows these bytes along a run.
-/

namespace Camkes.PicotcpSingle.TcpEcho

open CArray Machine

variable {st st' : State}

/-! ### Draining a socket -/

/-- The loop on a read event ends with a pending send, or with nothing unread. -/
theorem Receives.drains {slot slot' : Slot} {rounds : List Round} {xs : List Io}
    (h : Receives slot rounds slot' xs) {unread : List UInt8}
    (hun : receivesUnread unread rounds) :
    slot'.writePending = true ∨ receivedBytes xs = unread := by
  induction h generalizing unread with
  | nil =>
    simp only [receivesUnread, decide_eq_true_eq] at hun
    exact .inr hun.symm
  | pending hw => exact .inl hw
  | error => cases hun
  | @empty slot data sends rounds hlen =>
    simp only [receivesUnread, Bool.and_eq_true, decide_eq_true_eq] at hun
    rw [List.take_of_length_le hun.1.1.2] at hlen
    exact absurd (List.eq_nil_of_length_eq_zero hlen) hun.1.1.1
  | @data slot slot₁ slot₂ slot' data sends rounds xs ys hlen _ _ honly _ _ _ ih =>
    simp only [receivesUnread, Bool.and_eq_true, decide_eq_true_eq,
      List.isPrefixOf_iff_prefix] at hun
    obtain ⟨⟨⟨-, hmax⟩, rest, rfl⟩, hrest⟩ := hun
    rw [List.drop_left] at hrest
    refine (ih hrest).imp_right fun hys => ?_
    rw [receivedBytes_received, receivedBytes_append, honly.receivedBytes_eq, hys,
      List.take_of_length_le hmax, List.nil_append]

/-- A call that leaves bytes unread leaves a send pending, or has nothing to do. -/
theorem Serves.drains {slot slot' : Slot} {c : Call} {xs : List Io} (h : Serves slot c slot' xs)
    {unread : List UInt8} (hun : receivesUnread unread c.rounds) :
    slot'.writePending = true ∨ receivedBytes xs = unread ∨
      slot.writePending = false ∧ c.events.rd = false ∧ xs = [] := by
  cases h with
  | idle hw hrd => exact .inr (.inr ⟨hw, hrd, rfl⟩)
  | receive _ _ hrec => exact (hrec.drains hun).imp_right .inl
  | wait hw _ => exact .inl hw
  | flush _ _ _ _ hres _ => exact .inl hres.writePending
  | flushed _ _ _ _ hres _ hrec =>
    refine (hrec.drains hun).imp_right fun hys => .inl ?_
    rw [receivedBytes_append, hres.onlySent.receivedBytes_eq, hys, List.nil_append]

/-! ### The bytes of one socket in a call -/

@[simp] theorem ioOf_append (s : Sock) (acts more : List Action) :
    ioOf s (acts ++ more) = ioOf s acts ++ ioOf s more :=
  List.filterMap_append

@[simp] theorem ioOf_close (s : Sock) (c : Call) : ioOf s (closeActions c) = [] := by
  unfold closeActions
  split_ifs
  · rfl
  · rfl

@[simp] theorem ioOf_accepted (s : Sock) (accept : Option Sock) :
    ioOf s (accept.toList.map .accepted) = [] := by
  cases accept with
  | none => rfl
  | some _ => rfl

theorem ioOf_io (s s' : Sock) (xs : List Io) :
    ioOf s (xs.map (.io s')) = if s' = s then xs else [] := by
  unfold ioOf
  rw [List.filterMap_map]
  split_ifs with h
  · simp [h]
  · simp [h]

theorem ioOf_io_self (s : Sock) (xs : List Io) : ioOf s (xs.map (.io s)) = xs := by
  rw [ioOf_io, if_pos rfl]

/-! ### Nothing is stranded -/

/-- What holds of the server on its edge-triggered sockets: a client has one slot, the pending bytes
are within the buffer, and unread bytes have an event to come or wait behind a pending send. -/
structure WakeupInv (w : Wakeup) : Prop where
  distinct : Distinct w.server
  bounded : ∀ i, (w.server.slots.get i).Bounded
  due : ∀ s, w.unread s ≠ [] → w.rdDue s = true ∨
    ∃ i, w.server.connected.get i = some s ∧ (w.server.slots.get i).writePending = true

theorem wakeupInv_init (socketIn : Sock) : WakeupInv (.init socketIn) where
  distinct := distinct_init socketIn
  bounded := bounded_init socketIn
  due _ h := absurd rfl h

/-- Bytes that arrive raise an event. -/
theorem WakeupInv.arrive {w : Wakeup} (h : WakeupInv w) (s : Sock) (bytes : List UInt8) :
    WakeupInv { w with
      unread := Function.update w.unread s (w.unread s ++ bytes)
      rdDue := Function.update w.rdDue s true } where
  distinct := h.distinct
  bounded := h.bounded
  due s' hs' := by
    by_cases heq : s' = s
    · subst heq
      exact .inl (Function.update_self ..)
    · simp only [Function.update_of_ne heq] at hs' ⊢
      exact h.due s' hs'

/-- The slots that a call is not for are untouched. -/
theorem Handles.other {c : Call} {acts : List Action} (h : Handles st c st' acts) {i : ClientId}
    {s : Sock} (hi : st.connected.get i = some s) (hne : findClient st c.socket ≠ some i) :
    st'.connected.get i = some s ∧ st'.slots.get i = st.slots.get i := by
  cases h with
  | refused _ => exact ⟨hi, rfl⟩
  | @accepted j _ hj =>
    have hij : j ≠ i := by
      rintro rfl
      rw [hj] at hi
      cases hi
    exact ⟨by rw [get_put, if_neg hij, hi], by rw [get_put, if_neg hij]⟩
  | @served j slot xs _ hfind _ =>
    have hij : j ≠ i := by
      rintro rfl
      exact hne hfind
    refine ⟨?_, by rw [get_put, if_neg hij]⟩
    split_ifs
    · rw [get_put, if_neg hij, hi]
    · exact hi

theorem findClient_ne {c : Call} {i : ClientId} {s : Sock} (hi : st.connected.get i = some s)
    (hs : s ≠ c.socket) : findClient st c.socket ≠ some i := fun h =>
  hs (Option.some.inj (hi.symm.trans (connected_of_findClient h)))

/-- A call for one socket leaves the others with their event or their pending send. -/
theorem WakeupInv.due_other {w : Wakeup} (h : WakeupInv w) {c : Call} {acts : List Action}
    (hhandles : Handles w.server c st' acts) {s : Sock} (hs : w.unread s ≠ [])
    (hne : ∀ i, w.server.connected.get i = some s → findClient w.server c.socket ≠ some i) :
    w.rdDue s = true ∨
      ∃ i, st'.connected.get i = some s ∧ (st'.slots.get i).writePending = true := by
  refine (h.due s hs).imp_right fun ⟨i, hi, hw⟩ => ⟨i, ?_⟩
  obtain ⟨hi', hslot⟩ := hhandles.other hi (hne i hi)
  exact ⟨hi', by rw [hslot, hw]⟩

/-- After a call on an open connection with bytes left unread, a send is pending on it, or the call
has had nothing to do. -/
theorem WakeupInv.due_served {w : Wakeup} (h : WakeupInv w) {c : Call}
    (hun : receivesUnread (w.unread c.socket) c.rounds) {i : ClientId} {slot : Slot} {xs : List Io}
    (hi : w.server.connected.get i = some c.socket)
    (hserves : Serves (w.server.slots.get i) c slot xs)
    (hleft : (w.unread c.socket).drop (receivedBytes xs).length ≠ []) :
    slot.writePending = true ∨ c.events.rd = false ∧ w.rdDue c.socket = true := by
  rcases hserves.drains hun with hw | hall | ⟨hw, hrd, rfl⟩
  · exact .inl hw
  · rw [hall, List.drop_length] at hleft
    exact absurd rfl hleft
  · refine .inr ⟨hrd, (h.due _ hleft).resolve_right ?_⟩
    rintro ⟨j, hj, hw'⟩
    obtain rfl := h.distinct i j _ hi hj
    rw [hw] at hw'
    cases hw'

/-- After a call, unread bytes have an event that is due or a pending send. -/
theorem WakeupInv.handle {w : Wakeup} (h : WakeupInv w) {c : Call} (hexp : expected w.server c)
    (hun : receivesUnread (w.unread c.socket) c.rounds) {acts : List Action}
    (hhandles : Handles w.server c st' acts) :
    WakeupInv {
      server := st'
      trace := w.trace ++ acts
      unread := Function.update w.unread c.socket (if c.events.fin then []
        else (w.unread c.socket).drop (receivedIn c.socket acts).length)
      rdDue := Function.update w.rdDue c.socket
        (w.rdDue c.socket && !c.events.rd && !c.events.fin) } where
  distinct := hhandles.distinct h.distinct (expected_iff.mp hexp).2.1
  bounded := hhandles.bounded h.bounded
  due s hs := by
    by_cases heq : s = c.socket
    · subst heq
      simp only [Function.update_self] at hs ⊢
      obtain ⟨hfin, hs⟩ : c.events.fin = false ∧
          (w.unread c.socket).drop (receivedIn c.socket acts).length ≠ [] := by
        cases hfin : c.events.fin with
        | true => exact absurd (if_pos hfin) hs
        | false => exact ⟨rfl, by simpa [hfin] using hs⟩
      rw [hfin, Bool.not_false, Bool.and_true]
      cases hfind : findClient w.server c.socket with
      | none =>
        have hunread : w.unread c.socket ≠ [] := by
          intro hnil
          rw [hnil, List.drop_nil] at hs
          exact hs rfl
        have hrd := ((expected_iff.mp hexp).2.2.1 hfind).1
        rw [hrd, Bool.not_false, Bool.and_true]
        exact h.due_other hhandles hunread fun i _ => by rw [hfind]; nofun
      | some i =>
        cases hhandles with
        | refused hnot => cases hnot.symm.trans hfind
        | accepted hnot _ => cases hnot.symm.trans hfind
        | @served j slot xs hj _ hserves =>
          rw [receivedIn, ioOf_append, ioOf_io_self, ioOf_close, List.append_nil] at hs
          rcases h.due_served hun hj hserves hs with hw | ⟨hrd, hdue⟩
          · refine .inr ⟨j, ?_, by rw [get_put_self, hw]⟩
            rw [hfin, if_neg Bool.false_ne_true, hj]
          · exact .inl (by rw [hdue, hrd]; rfl)
    · simp only [Function.update_of_ne heq] at hs ⊢
      exact h.due_other hhandles hs fun i hi => findClient_ne hi heq

/-- In every reachable state, unread bytes have an event that is due or a pending send. -/
theorem preserves_wakeupInv : wakeupMachine.Preserves WakeupInv := by
  intro w e h hok
  cases e with
  | arrive s bytes => exact ⟨_, rfl, h.arrive s bytes⟩
  | call c =>
    obtain ⟨st', acts, hhandle, hhandles⟩ :=
      handle_spec hok.1 fun i _ hw => (h.bounded i).pending hw
    refine ⟨_, ?_, h.handle hok.1 hok.2 hhandles⟩
    show w.step (.call c) = _
    simp only [Wakeup.step, hhandle, Option.bind_eq_bind, Option.bind_some]

/-! ### Holding back while a send is pending -/

section Held

variable {sock : Sock} {rest : List UInt8} {acts more : List Action}

theorem sentIn_append (s : Sock) (acts more : List Action) :
    sentIn s (acts ++ more) = sentIn s acts ++ sentIn s more := by
  rw [sentIn, ioOf_append, sentBytes_append]
  rfl

/-- What is received later on another socket does not matter. -/
theorem Held.quiet (h : Held sock rest more)
    (hacts : ∀ bytes, .io sock (.received bytes) ∉ acts) : Held sock rest (more ++ acts) :=
  Along.append h fun _ ha _ bytes heq => absurd (heq ▸ ha) (hacts bytes)

/-- After the pending bytes have been sent, anything may be received. -/
theorem Held.done (h : Held sock rest more)
    (hdone : .accepted sock ∈ more ∨ rest <+: sentIn sock more) :
    Held sock rest (more ++ acts) := by
  refine Along.append_of h fun before _ _ bytes _ => ?_
  refine hdone.imp (fun hmem => List.mem_append_left _ hmem) fun hsent => ?_
  rw [sentIn_append]
  exact hsent.trans (List.prefix_append ..)

/-- How far the pending bytes `rest` of a connection have come. -/
inductive Progress (sock : Sock) (rest : List UInt8) (st : State) (more : List Action) : Prop
  | accepted : .accepted sock ∈ more → Progress sock rest st more
  | sent : rest <+: sentIn sock more → Progress sock rest st more
  | closed : (∀ i, st.connected.get i ≠ some sock) → Progress sock rest st more
  | pending {i : ClientId} {left : List UInt8} : st.connected.get i = some sock →
      (st.slots.get i).writePending = true → (st.slots.get i).pending? = some left →
      rest = sentIn sock more ++ left → Progress sock rest st more

theorem not_received_close (c : Call) (bytes : List UInt8) :
    .io sock (.received bytes) ∉ closeActions c := by
  unfold closeActions
  split_ifs
  · simp
  · simp

theorem not_received_onlySent {xs : List Io} (h : OnlySent xs) (s : Sock) (bytes : List UInt8) :
    .io sock (.received bytes) ∉ xs.map (Action.io s) := by
  intro hmem
  obtain ⟨x, hx, heq⟩ := List.mem_map.mp hmem
  obtain ⟨b, rfl⟩ := h x hx
  cases heq

/-- A call that is not for the socket receives nothing on it. -/
theorem Handles.quiet {c : Call} (h : Handles st c st' acts)
    (hne : ∀ i, st.connected.get i = some sock → findClient st c.socket ≠ some i)
    (bytes : List UInt8) : .io sock (.received bytes) ∉ acts := by
  cases h with
  | refused _ => exact not_received_close c bytes
  | accepted _ _ =>
    rw [List.mem_append, not_or]
    exact ⟨by simp, not_received_close c bytes⟩
  | @served i _ xs hi hfind _ =>
    rw [List.mem_append, not_or]
    refine ⟨fun hmem => ?_, not_received_close c bytes⟩
    obtain ⟨x, -, heq⟩ := List.mem_map.mp hmem
    obtain ⟨rfl, -⟩ := Action.io.inj heq
    exact hne i hi hfind

/-- It sends nothing on it either. -/
theorem Handles.sentIn_nil {c : Call} (h : Handles st c st' acts)
    (hne : ∀ i, st.connected.get i = some sock → findClient st c.socket ≠ some i) :
    sentIn sock acts = [] := by
  cases h with
  | refused _ => rw [sentIn, ioOf_close, sentBytes_nil]
  | accepted _ _ =>
    rw [sentIn, ioOf_append, ioOf_accepted, ioOf_close, List.nil_append, sentBytes_nil]
  | @served i _ xs hi hfind _ =>
    have hsock : c.socket ≠ sock := by
      rintro rfl
      exact hne i hi hfind
    rw [sentIn, ioOf_append, ioOf_io, if_neg hsock, ioOf_close, List.nil_append, sentBytes_nil]

/-- A socket that is not connected stays so, unless it is accepted. -/
theorem Handles.closed {c : Call} (h : Handles st c st' acts)
    (hclosed : ∀ i, st.connected.get i ≠ some sock) :
    .accepted sock ∈ acts ∨ ∀ i, st'.connected.get i ≠ some sock := by
  cases h with
  | refused _ => exact .inr hclosed
  | @accepted j _ _ =>
    by_cases hsock : c.accept = some sock
    · refine .inl (List.mem_append_left _ ?_)
      rw [hsock]
      exact List.mem_singleton.mpr rfl
    · exact .inr (forall_get_put (P := fun o => o ≠ some sock) hclosed j hsock)
  | served _ _ _ =>
    refine .inr fun i => ?_
    split_ifs
    · have hnone : (none : Option Sock) ≠ some sock := nofun
      exact forall_get_put (P := fun o => o ≠ some sock) hclosed _ hnone i
    · exact hclosed i

/-- After a call on the connection of a pending send, which has been closed or not. -/
theorem progress_fin {c : Call} {i : ClientId} {slot : Slot} (hd : Distinct st)
    (hi : st.connected.get i = some sock)
    (h : c.events.fin = false → Progress sock rest
      { st with connected := st.connected, slots := put st.slots i slot } more) :
    Progress sock rest
      { st with
        connected := if c.events.fin then put st.connected i none else st.connected
        slots := put st.slots i slot } more := by
  cases hfin : c.events.fin with
  | false => exact h hfin
  | true =>
    refine .closed fun j hj => ?_
    simp only [if_true] at hj
    rw [get_put] at hj
    split_ifs at hj with hij
    exact hij (hd i j sock hi hj)

/-- When a pending send of a connection is served, what it held is sent first. -/
theorem Handles.pending_served {c : Call} {i : ClientId} {left : List UInt8}
    (hh : Handles st c st' acts) (hd : Distinct st) (hfind : findClient st c.socket = some i)
    (h : Held c.socket rest more) (hw : (st.slots.get i).writePending = true)
    (hs : (st.slots.get i).pending? = some left) (hrest : rest = sentIn c.socket more ++ left) :
    Held c.socket rest (more ++ acts) ∧ Progress c.socket rest st' (more ++ acts) := by
  cases hh with
  | refused hnot => cases hnot.symm.trans hfind
  | accepted hnot _ => cases hnot.symm.trans hfind
  | @served j slot xs hj hfind' hserves =>
    obtain rfl : i = j := Option.some.inj (hfind.symm.trans hfind')
    have hsent : ∀ xs : List Io, sentIn c.socket (xs.map (.io c.socket) ++ closeActions c) =
        sentBytes xs := by
      intro xs
      rw [sentIn, ioOf_append, ioOf_io_self, ioOf_close, List.append_nil]
    have hquiet : ∀ {xs : List Io}, OnlySent xs →
        ∀ bytes, .io c.socket (.received bytes) ∉ xs.map (.io c.socket) ++ closeActions c := by
      intro xs honly bytes
      rw [List.mem_append, not_or]
      exact ⟨not_received_onlySent honly _ bytes, not_received_close c bytes⟩
    cases hserves with
    | idle hw' _ => cases hw.symm.trans hw'
    | receive hw' _ _ => cases hw.symm.trans hw'
    | wait _ _ =>
      have hleft : ((put st.slots i (st.slots.get i)).get i).pending? = some left := by
        rw [get_put_self, hs]
      refine ⟨h.quiet (hquiet onlySent_nil), progress_fin hd hj fun _ => .pending hj ?_ hleft ?_⟩
      · rw [get_put_self, hw]
      · rw [sentIn_append, hsent, sentBytes_nil, List.append_nil, hrest]
    | flush _ _ hs' _ hres _ =>
      obtain rfl := Option.some.inj (hs.symm.trans hs')
      obtain ⟨left', hleft, hsplit⟩ := hres.pending
      have hleft' : ((put st.slots i slot).get i).pending? = some left' := by
        rw [get_put_self, hleft]
      refine ⟨h.quiet (hquiet hres.onlySent), progress_fin hd hj fun _ => .pending hj ?_ hleft' ?_⟩
      · rw [get_put_self, hres.writePending]
      · rw [sentIn_append, hsent, List.append_assoc, ← hsplit, hrest]
    | @flushed slot₁ slot' rest' xs ys _ _ hs' _ hres hrem _ =>
      obtain rfl := Option.some.inj (hs.symm.trans hs')
      obtain ⟨left', hleft, hsplit⟩ := hres.pending
      -- nothing is left, so all of it has been sent
      have hnil : left' = [] := List.eq_nil_of_length_eq_zero ((length_of_slice hleft).trans hrem)
      rw [hnil, List.append_nil] at hsplit
      have hdone : rest <+: sentIn c.socket (more ++ xs.map (.io c.socket)) := by
        refine ⟨[], ?_⟩
        rw [List.append_nil, sentIn_append, hrest, hsplit]
        exact congrArg (_ ++ sentBytes ·) (ioOf_io_self c.socket xs).symm
      have hheld : Held c.socket rest (more ++ xs.map (.io c.socket)) :=
        h.quiet (not_received_onlySent hres.onlySent _)
      rw [List.map_append, List.append_assoc, ← List.append_assoc]
      refine ⟨hheld.done (.inr hdone), .sent ?_⟩
      rw [sentIn_append]
      exact hdone.trans (List.prefix_append ..)

/-- **One call**: what is pending goes out before anything more is received. -/
theorem Progress.handle {c : Call} (hd : Distinct st) (hh : Handles st c st' acts)
    (h : Held sock rest more) (hp : Progress sock rest st more) :
    Held sock rest (more ++ acts) ∧ Progress sock rest st' (more ++ acts) := by
  cases hp with
  | accepted hmem => exact ⟨h.done (.inl hmem), .accepted (List.mem_append_left _ hmem)⟩
  | sent hsent =>
    refine ⟨h.done (.inr hsent), .sent ?_⟩
    rw [sentIn_append]
    exact hsent.trans (List.prefix_append ..)
  | closed hclosed =>
    refine ⟨h.quiet (hh.quiet fun i hi => absurd hi (hclosed i)), ?_⟩
    rcases hh.closed hclosed with hmem | hclosed'
    · exact .accepted (List.mem_append_right _ hmem)
    · exact .closed hclosed'
  | @pending i left hi hw hs hrest =>
    by_cases hfind : findClient st c.socket = some i
    · obtain rfl : c.socket = sock :=
        Option.some.inj ((connected_of_findClient hfind).symm.trans hi)
      exact hh.pending_served hd hfind h hw hs hrest
    · -- the call is for another connection
      have hne : ∀ j, st.connected.get j = some sock → findClient st c.socket ≠ some j := by
        intro j hj
        obtain rfl := hd i j sock hi hj
        exact hfind
      obtain ⟨hi', hslot⟩ := hh.other hi hfind
      have hs' : (st'.slots.get i).pending? = some left := by rw [hslot, hs]
      refine ⟨h.quiet (hh.quiet hne), .pending hi' ?_ hs' ?_⟩
      · rw [hslot, hw]
      · rw [sentIn_append, hh.sentIn_nil hne, List.append_nil, hrest]

end Held

/-! ### Runs -/

/-- The pending bytes of a connection go out before anything more is received on it. -/
theorem WakeupInv.held {w w' : Wakeup} (h : WakeupInv w) {us : List (Transition Wakeup WakeupEvent)}
    (hrun : wakeupMachine.Run w us w') {i : ClientId} {sock : Sock} {rest : List UInt8}
    (hi : w.server.connected.get i = some sock)
    (hw : (w.server.slots.get i).writePending = true)
    (hs : (w.server.slots.get i).pending? = some rest) :
    ∃ more, w'.trace = w.trace ++ more ∧ Held sock rest more := by
  have hstart : Progress sock rest w.server [] := .pending hi hw hs rfl
  have hinv : WakeupInv w' ∧ ∃ more, w'.trace = w.trace ++ more ∧ Held sock rest more ∧
      Progress sock rest w'.server more := by
    refine hrun.invariant (P := fun w' => WakeupInv w' ∧ ∃ more, w'.trace = w.trace ++ more ∧
      Held sock rest more ∧ Progress sock rest w'.server more)
      ⟨h, [], (List.append_nil _).symm, along_nil, hstart⟩ ?_
    rintro w₁ e w₂ ⟨h₁, more, htrace, hheld, hprogress⟩ hok hstep
    refine ⟨preserves_wakeupInv.of_step h₁ hok hstep, ?_⟩
    cases e with
    | arrive s bytes =>
      obtain rfl := Option.some.inj hstep
      exact ⟨more, htrace, hheld, hprogress⟩
    | call c =>
      obtain ⟨st', acts, hhandle, hhandles⟩ :=
        handle_spec hok.1 fun i _ hw => (h₁.bounded i).pending hw
      have hstep' : w₁.step (.call c) = some w₂ := hstep
      simp only [Wakeup.step, hhandle, Option.bind_eq_bind, Option.bind_some] at hstep'
      obtain rfl := Option.some.inj hstep'
      obtain ⟨hheld', hprogress'⟩ := hprogress.handle h₁.distinct hhandles hheld
      exact ⟨more ++ acts, by rw [← List.append_assoc, ← htrace], hheld', hprogress'⟩
  obtain ⟨-, more, htrace, hheld, -⟩ := hinv
  exact ⟨more, htrace, hheld⟩

/-- **The TCP echo server never strands input**: after any run, an open connection with unread bytes
has a read event that is still to come, or a send pending; a pending send is within the bytes of one
receive, and nothing more is received on its connection before it has been sent, however the run
goes on; and no further step fails. -/
theorem never_strands_input (socketIn : Sock) {ts : List (Transition Wakeup WakeupEvent)}
    {w : Wakeup} (hrun : wakeupMachine.Run (.init socketIn) ts w) :
    (∀ i sock, w.server.connected.get i = some sock → w.unread sock ≠ [] →
      w.rdDue sock = true ∨ (w.server.slots.get i).writePending = true) ∧
    (∀ i, (w.server.slots.get i).writePending = true →
      0 < (w.server.slots.get i).remainingPayload ∧
      (w.server.slots.get i).sentPayload + (w.server.slots.get i).remainingPayload ≤
        tcpReadSize) ∧
    (∀ i sock, w.server.connected.get i = some sock →
      (w.server.slots.get i).writePending = true →
      ∃ rest, slice (w.server.slots.get i).dataPacket (w.server.slots.get i).sentPayload
          (w.server.slots.get i).remainingPayload = some rest ∧
        ∀ us w', wakeupMachine.Run w us w' →
          ∃ more, w'.trace = w.trace ++ more ∧ Held sock rest more) ∧
    ∀ e, wakeupMachine.ok w e → (wakeupMachine.step w e).isSome := by
  have h := preserves_wakeupInv.run (wakeupInv_init socketIn) hrun
  refine ⟨?_, h.bounded, ?_, ?_⟩
  · intro i sock hi hun
    refine (h.due sock hun).imp_right ?_
    rintro ⟨j, hj, hw⟩
    obtain rfl := h.distinct i j sock hi hj
    exact hw
  · intro i sock hi hw
    obtain ⟨rest, hs⟩ := (h.bounded i).pending hw
    exact ⟨rest, hs, fun us w' hrun' => h.held hrun' hi hw hs⟩
  · intro e hok
    exact preserves_wakeupInv.safe (wakeupInv_init socketIn) ts w e hrun hok

/-- The client id that the first connection gets. -/
def firstClient : ClientId := ⟨0, by decide⟩

/-- The send of three bytes blocks.  The read event for a fourth byte comes while it is pending. -/
def swallowedEvent : List WakeupEvent :=
  [.call { events := { SockEvents.none with conn := true }, socket := 100, accept := some 1
           flush := [], rounds := [] },
   .arrive 1 [1, 2, 3],
   .call { events := { SockEvents.none with rd := true }, socket := 1, accept := none
           flush := [], rounds := [⟨.data [1, 2, 3], [.sent 2]⟩] },
   .arrive 1 [4],
   .call { events := { SockEvents.none with rd := true }, socket := 1, accept := none
           flush := [], rounds := [⟨.data [4], [.sent 1]⟩] }]

theorem never_strands_input_swallowedEvent : ∃ ts w, wakeupMachine.Run (.init 100) ts w ∧
    events ts = swallowedEvent ∧ w.unread 1 = [4] ∧ w.rdDue 1 = false ∧
    w.server.connected.get firstClient = some 1 ∧
      (w.server.slots.get firstClient).writePending = true := by
  obtain ⟨ts, w, hrun, hevents, hp⟩ := exists_run_of_exec wakeupMachine (.init 100) swallowedEvent
    (fun r => r.2.unread 1 = [4] ∧ r.2.rdDue 1 = false ∧
      r.2.server.connected.get firstClient = some 1)
    (by decide +kernel)
  obtain ⟨hun, hdue, hi⟩ := of_decide_eq_true hp
  refine ⟨ts, w, hrun, hevents, hun, hdue, hi, ?_⟩
  refine ((never_strands_input 100 hrun).1 firstClient 1 hi (by rw [hun]; nofun)).resolve_left ?_
  rw [hdue]
  exact Bool.false_ne_true

end Camkes.PicotcpSingle.TcpEcho
