import Camkes.PicotcpSingle.TcpEchoIndex

/-!
# Which calls index out of range

`toOption_handleChecked` connects the handler with checked indices to the handler.  A call that is
not an error event uses an index out of range exactly when it has a read or a write event for a
socket without a slot (`handleChecked_index_iff`): the assertions guard the other two uses of the
client id.
-/

namespace Camkes.PicotcpSingle.TcpEcho

open CArray Machine

variable {st : State}

/-! ### The client id -/

theorem clientIdOf_of_find {s : Sock} {i : ClientId} (h : findClient st s = some i) :
    clientIdOf st s = i := by
  rw [clientIdOf, h]

theorem clientIdOf_of_not_find {s : Sock} (h : findClient st s = none) : clientIdOf st s = -1 := by
  rw [clientIdOf, h]

theorem checkIndex_fin (i : ClientId) : checkIndex i = .ok i := by
  have hi := i.isLt
  rw [checkIndex, dif_pos (by omega)]
  rfl

theorem checkIndex_neg_one : checkIndex (-1) = .error (.index (-1)) := rfl

theorem fin_ne_neg_one (i : ClientId) : ((i : ℕ) : ℤ) ≠ -1 := by omega

/-! ### The results of the checked handler -/

theorem ok_bind.{u} {ε : Type*} {α β : Type u} (a : α) (f : α → Except ε β) :
    (Except.ok a >>= f) = f a := rfl

theorem toOption_bind.{u} {ε : Type*} {α β : Type u} (x : Except ε α) (f : α → Except ε β) :
    (x >>= f).toOption = x.toOption.bind fun a => (f a).toOption := by
  cases x with
  | error e => rfl
  | ok a => rfl

@[simp] theorem toOption_orFault {α : Type*} (f : Fault) (x : Option α) :
    (orFault f x).toOption = x := by
  cases x with
  | none => rfl
  | some a => rfl

@[simp] theorem toOption_ok {ε α : Type*} (a : α) : (Except.ok a : Except ε α).toOption = some a :=
  rfl

@[simp] theorem toOption_error {ε α : Type*} (e : ε) : (.error e : Except ε α).toOption = none :=
  rfl

/-- **The checked handler computes what the handler computes**, and fails where the handler does. -/
theorem toOption_handleChecked (st : State) (c : Call) :
    (handleChecked st c).toOption = handleTcpPicoserverNotification st c := by
  unfold handleChecked handleTcpPicoserverNotification
  cases hfind : findClient st c.socket with
  | none =>
    simp only [clientIdOf_of_not_find hfind, checkIndex_neg_one, toOption_bind, apply_ite
      Except.toOption, toOption_orFault, toOption_ok, toOption_error, Option.bind_eq_bind,
      if_true, handleWrite, handleRead, handleFin, Option.bind_none]
  | some i =>
    simp only [clientIdOf_of_find hfind, checkIndex_fin, toOption_bind, apply_ite
      Except.toOption, toOption_orFault, toOption_ok, toOption_error, Option.bind_eq_bind,
      if_neg (fin_ne_neg_one i), Option.bind_some, handleConn, Option.isSome_some, if_true]

/-! ### Index faults -/

/-- The result is not an access out of range. -/
def InRange {α : Type*} (x : Except Fault α) : Prop := ∀ i, x ≠ .error (.index i)

theorem inRange_ok {α : Type*} (a : α) : InRange (.ok a) := by
  intro i h
  cases h

theorem inRange_assertion {α : Type*} : InRange (.error .assertion : Except Fault α) := by
  intro i h
  cases h

theorem inRange_orFault {α : Type*} {f : Fault} (hf : ∀ i, f ≠ .index i) (x : Option α) :
    InRange (orFault f x) := by
  intro i h
  cases x with
  | none => exact hf i (Except.error.inj h)
  | some a => cases h

theorem InRange.bind.{u} {α β : Type u} {x : Except Fault α} {f : α → Except Fault β}
    (hx : InRange x) (hf : ∀ a, InRange (f a)) : InRange (x >>= f) := by
  cases x with
  | error e => exact fun i h => hx i (congrArg _ (Except.error.inj h))
  | ok a => exact hf a

theorem InRange.ite {α : Type*} {p : Prop} [Decidable p] {x y : Except Fault α} (hx : InRange x)
    (hy : InRange y) : InRange (if p then x else y) := by
  split_ifs
  · exact hx
  · exact hy

/-- With a slot, every access is in range. -/
theorem inRange_of_open {c : Call} {i : ClientId} (h : findClient st c.socket = some i) :
    InRange (handleChecked st c) := by
  unfold handleChecked
  simp only [clientIdOf_of_find h, checkIndex_fin, if_neg (fin_ne_neg_one i), ok_bind]
  have hassert : ∀ j, Fault.assertion ≠ .index j := nofun
  have hpacket : ∀ j, Fault.packet ≠ .index j := nofun
  apply InRange.bind (.ite inRange_assertion (inRange_ok _))
  rintro ⟨st₁, conn⟩
  apply InRange.bind (.ite (inRange_orFault hpacket _) (inRange_ok _))
  rintro ⟨st₂, rd, flushed⟩
  apply InRange.bind (.ite (inRange_orFault hpacket _) (inRange_ok _))
  rintro ⟨st₃, read⟩
  apply InRange.bind (.ite (inRange_orFault hassert _) (inRange_ok _))
  intro st₄
  exact .ite inRange_assertion (inRange_ok _)

/-- Without a free slot a connection is accepted and nothing is indexed. -/
theorem handleConn_none (st : State) (accept : Option Sock) :
    ∃ r, handleConn st none accept = some r := by
  unfold handleConn
  rw [if_neg (by simp)]
  cases findFree st with
  | none => exact ⟨_, rfl⟩
  | some i => exact ⟨_, rfl⟩

/-- Without a slot, the first read or write event uses the index -1. -/
theorem inRange_of_not_open {c : Call} (h : findClient st c.socket = none) :
    InRange (handleChecked st c) ↔ c.events.rd = false ∧ c.events.wr = false := by
  have hconn : ∃ r, (if c.events.conn then orFault .assertion (handleConn st none c.accept)
      else .ok (st, [])) = Except.ok r := by
    split_ifs
    · obtain ⟨r, hr⟩ := handleConn_none st c.accept
      exact ⟨r, by rw [hr]; rfl⟩
    · exact ⟨_, rfl⟩
  obtain ⟨⟨st', conn⟩, hconn⟩ := hconn
  unfold handleChecked
  simp only [clientIdOf_of_not_find h, checkIndex_neg_one, if_true, hconn, ok_bind]
  constructor
  · intro hrange
    cases hwr : c.events.wr with
    | true =>
      rw [hwr] at hrange
      exact absurd rfl (hrange (-1))
    | false =>
      cases hrd : c.events.rd with
      | true =>
        rw [hwr, hrd] at hrange
        exact absurd rfl (hrange (-1))
      | false => exact ⟨rfl, rfl⟩
  · rintro ⟨hrd, hwr⟩
    simp only [hrd, hwr, Bool.false_eq_true, if_false, ok_bind]
    apply InRange.bind (.ite inRange_assertion (inRange_ok _))
    intro st₄
    exact .ite inRange_assertion (inRange_ok _)

/-- **A call uses an index out of range exactly when it has a read or write event for a socket
without a slot.** -/
theorem inRange_handleChecked (st : State) (c : Call) :
    InRange (handleChecked st c) ↔ dataEventHasSlot st c := by
  cases hfind : findClient st c.socket with
  | none =>
    rw [inRange_of_not_open hfind]
    simp [dataEventHasSlot, isOpen, hfind]
  | some i =>
    refine iff_of_true (inRange_of_open hfind) ?_
    simp [dataEventHasSlot, isOpen, hfind]

/-! ### Runs -/

/-- A call uses valid indices if and only if its data events are for a socket with a slot. -/
theorem indicesValid_step {s : Checked} (c : Call) :
    (s.step c).indicesValid ↔ dataEventHasSlot s.server c := by
  rw [← inRange_handleChecked]
  unfold Checked.step
  cases hres : handleChecked s.server c with
  | ok r =>
    refine iff_of_true ?_ (inRange_ok r)
    intro i h
    cases h
  | error f =>
    constructor
    · intro h i hi
      exact h i (congrArg some (Except.error.inj hi))
    · intro h i hi
      exact h i (congrArg Except.error (Option.some.inj hi))

/-- **Index safety of the TCP echo server**: in a run with any events but errors, of any sockets,
every access to a per-client array uses an index in range exactly when every read and every write
event is for a socket that has a slot when it comes. -/
theorem indices_valid_iff (socketIn : Sock) {ts : List (Transition Checked Call)} {s : Checked}
    (hrun : checkedMachine.Run (.init socketIn) ts s) :
    (∀ t ∈ ts, t.after.indicesValid) ↔ ∀ t ∈ ts, dataEventHasSlot t.before.server t.event := by
  refine hrun.forall_after_iff (I := fun _ => True) (P := Checked.indicesValid)
    (C := fun s c => dataEventHasSlot s.server c) trivial ?_ ?_
  · intro s c s' _ _ hstep hslot
    obtain rfl := Option.some.inj hstep
    exact ⟨trivial, (indicesValid_step c).mpr hslot⟩
  · intro s c s' _ _ hstep hvalid
    obtain rfl := Option.some.inj hstep
    exact (indicesValid_step c).mp hvalid

/-- A read event of a connected client. -/
def connectAndSend : List Call :=
  [{ events := { SockEvents.none with conn := true }, socket := 100, accept := some 1, flush := []
     rounds := [] },
   { events := { SockEvents.none with rd := true }, socket := 1, accept := none, flush := []
     rounds := [⟨.data [1, 2, 3], [.sent 3]⟩] }]

theorem indices_valid_iff_connectAndSend : ∃ ts s,
    checkedMachine.Run (.init 100) ts s ∧ events ts = connectAndSend ∧
      ∀ t ∈ ts, t.after.indicesValid := by
  obtain ⟨ts, s, hrun, hevents, hp⟩ := exists_run_of_exec checkedMachine (.init 100) connectAndSend
    (fun r => r.1.all fun t => dataEventHasSlot t.before.server t.event) (by decide +kernel)
  refine ⟨ts, s, hrun, hevents, (indices_valid_iff 100 hrun).mpr ?_⟩
  simpa only [List.all_eq_true] using hp

/-- Six clients connect.  The sixth finds no slot; then it sends. -/
def refusedClientSends : List Call :=
  [1, 2, 3, 4, 5, 6].map (fun sock =>
    { events := { SockEvents.none with conn := true }, socket := 100, accept := some sock
      flush := [], rounds := [] }) ++
  [{ events := { SockEvents.none with rd := true }, socket := 6, accept := none, flush := []
     rounds := [⟨.data [1], [.sent 1]⟩] }]

/-- A client connects and closes its connection; then a write event comes. -/
def writeEventAfterFin : List Call :=
  [{ events := { SockEvents.none with conn := true }, socket := 100, accept := some 1, flush := []
     rounds := [] },
   { events := { SockEvents.none with fin := true }, socket := 1, accept := none, flush := []
     rounds := [] },
   { events := { SockEvents.none with wr := true }, socket := 1, accept := none, flush := []
     rounds := [] }]

/-- Both runs read `write_pending[-1]`. -/
theorem not_indices_valid :
    (∃ ts s, checkedMachine.Run (.init 100) ts s ∧ events ts = refusedClientSends ∧
      s.fault = some (.index (-1))) ∧
    ∃ ts s, checkedMachine.Run (.init 100) ts s ∧ events ts = writeEventAfterFin ∧
      s.fault = some (.index (-1)) := by
  constructor
  · obtain ⟨ts, s, hrun, hevents, hp⟩ := exists_run_of_exec checkedMachine (.init 100)
      refusedClientSends (fun r => r.2.fault = some (.index (-1))) (by decide +kernel)
    exact ⟨ts, s, hrun, hevents, of_decide_eq_true hp⟩
  · obtain ⟨ts, s, hrun, hevents, hp⟩ := exists_run_of_exec checkedMachine (.init 100)
      writeEventAfterFin (fun r => r.2.fault = some (.index (-1))) (by decide +kernel)
    exact ⟨ts, s, hrun, hevents, of_decide_eq_true hp⟩

end Camkes.PicotcpSingle.TcpEcho
