import Camkes.Data.Ring
import Camkes.SecurityDemo.System

/-!
# The dataport buffer refines a bounded FIFO queue

The wrapping indices are the indices of a `Ring` with 256 slots (`toNat_succ`).  `Inv` ties the
buffer to the trace: its contents are the queue that the trace asks for, and its slots in use are
those that the trace leaves unread.  A submitted character and a round of `receiveLoop` both keep
it.
-/

namespace Camkes.SecurityDemo

open BoundedFifo CArray Machine

instance fact_size_pos : Fact (0 < 256) := ⟨by decide⟩

/-! ### Indices -/

theorem toNat_succ (i : UInt8) : (i + 1).toNat = (i.toNat + 1) % 256 := by
  rw [UInt8.toNat_add, UInt8.toNat_one]

/-- The characters in the buffer, oldest first. -/
def DataportBuffer.contents (buf : DataportBuffer) : List UInt8 :=
  Ring.contents buf.data buf.head.toNat buf.tail.toNat

/-- Slot `i` is in use. -/
def DataportBuffer.Occupied (buf : DataportBuffer) (i : UInt8) : Prop :=
  Ring.Occupied 256 buf.head.toNat buf.tail.toNat i.toNat

variable {buf : DataportBuffer} {trace : List Obs}

/-- The test for a full buffer: 255 characters wait. -/
theorem succ_head_eq_tail_iff (buf : DataportBuffer) :
    buf.head + 1 = buf.tail ↔ buf.contents.length = 255 := by
  rw [DataportBuffer.contents, Ring.length_contents, ← UInt8.toNat_inj, toNat_succ]
  exact Ring.succ_eq_tail_iff buf.head.toNat_lt buf.tail.toNat_lt

/-! ### Characters -/

/-- An upper-case letter is moved by 13 within the upper case. -/
theorem encrypted_upper {c : UInt8} (h : 65 ≤ c.toNat ∧ c.toNat ≤ 90) :
    (encrypted c).toNat = 65 + (c.toNat - 65 + 13) % 26 := by
  rw [encrypted, if_pos h, rotated, UInt8.toNat_ofNat']
  omega

/-- A lower-case letter is moved by 13 within the lower case. -/
theorem encrypted_lower {c : UInt8} (h : 97 ≤ c.toNat ∧ c.toNat ≤ 122) :
    (encrypted c).toNat = 97 + (c.toNat - 97 + 13) % 26 := by
  rw [encrypted, if_neg (by omega), if_pos h, rotated, UInt8.toNat_ofNat']
  omega

/-- Other characters stay. -/
theorem encrypted_other {c : UInt8} (h : ¬ (65 ≤ c.toNat ∧ c.toNat ≤ 90))
    (h' : ¬ (97 ≤ c.toNat ∧ c.toNat ≤ 122)) : encrypted c = c := by
  rw [encrypted, if_neg h, if_neg h']

/-- `rot_13` computes the encryption. -/
theorem rot13_eq (c : UInt8) : rot13 c = encrypted c := by
  have hlower : c ≥ lcA ∧ c ≤ lcZ ↔ 97 ≤ c.toNat ∧ c.toNat ≤ 122 := Iff.rfl
  have hupper : c ≥ ucA ∧ c ≤ ucZ ↔ 65 ≤ c.toNat ∧ c.toNat ≤ 90 := Iff.rfl
  have hlower' : c ≥ lcA + 13 ↔ 110 ≤ c.toNat := Iff.rfl
  have hupper' : c ≥ ucA + 13 ∧ c ≤ ucZ ↔ 78 ≤ c.toNat ∧ c.toNat ≤ 90 := Iff.rfl
  have hthirteen : (13 : UInt8).toNat = 13 := rfl
  have hlt := c.toNat_lt
  simp only [rot13, hlower, hupper, hlower', hupper', ← UInt8.toNat_inj]
  by_cases hu : 65 ≤ c.toNat ∧ c.toNat ≤ 90
  · rw [encrypted_upper hu, if_pos (Or.inr hu)]
    split_ifs
    · rw [UInt8.toNat_sub, hthirteen]
      omega
    · rw [UInt8.toNat_add, hthirteen]
      omega
  by_cases hl : 97 ≤ c.toNat ∧ c.toNat ≤ 122
  · rw [encrypted_lower hl, if_pos (Or.inl hl)]
    split_ifs
    · rw [UInt8.toNat_sub, hthirteen]
      omega
    · rw [UInt8.toNat_add, hthirteen]
      omega
  · rw [encrypted_other hu hl, if_neg (not_or_intro hl hu)]

/-! ### Traces -/

theorem fifoOf_append (trace more : List Obs) :
    fifoOf (trace ++ more) = more.foldl fifoStep (fifoOf trace) :=
  List.foldl_append

theorem fifoOf_submitted (trace : List Obs) (c : UInt8) :
    fifoOf (trace ++ [Obs.submitted c]) = (fifoOf trace).offer (encrypted c) :=
  fifoOf_append trace _

theorem fifoOf_wrote (trace : List Obs) (i : UInt8) :
    fifoOf (trace ++ [Obs.wrote i]) = fifoOf trace :=
  fifoOf_append trace _

theorem fifoOf_read (trace : List Obs) (i c : UInt8) :
    fifoOf (trace ++ [Obs.read i c]) = (fifoOf trace).take :=
  fifoOf_append trace _

@[simp] theorem removed_append (trace more : List Obs) :
    removed (trace ++ more) = removed trace ++ removed more :=
  List.filterMap_append

theorem unread_submitted (i : UInt8) (trace : List Obs) (c : UInt8) :
    unread i (trace ++ [Obs.submitted c]) = unread i trace :=
  List.foldl_append

theorem unread_wrote (i : UInt8) (trace : List Obs) (j : UInt8) :
    unread i (trace ++ [Obs.wrote j]) = if j = i then true else unread i trace :=
  List.foldl_append

theorem unread_read (i : UInt8) (trace : List Obs) (j c : UInt8) :
    unread i (trace ++ [Obs.read j c]) = if j = i then false else unread i trace :=
  List.foldl_append

/-! ### The invariant -/

/-- The buffer agrees with the trace. -/
structure Inv (buf : DataportBuffer) (trace : List Obs) : Prop where
  queue : (fifoOf trace).queue = buf.contents
  taken : (fifoOf trace).taken = removed trace
  unread_iff : ∀ i, unread i trace = true ↔ buf.Occupied i
  safe : SlotsSafe trace

/-- At first the buffer is empty. -/
theorem inv_init : Inv .init [] where
  queue := by
    show _ = Ring.contents _ 0 0
    rw [Ring.contents_self]
    rfl
  taken := rfl
  unread_iff i := by
    apply iff_of_false Bool.false_ne_true
    rintro ⟨k, hk, -⟩
    exact Nat.not_lt_zero k hk
  safe := along_nil

/-- **A submitted character** is offered to the queue. -/
theorem Inv.submit (h : Inv buf trace) (c : UInt8) :
    Inv (clearTextHandleCharacter buf c).1
      (trace ++ .submitted c :: (clearTextHandleCharacter buf c).2) := by
  have hh := buf.head.toNat_lt
  have ht := buf.tail.toNat_lt
  have hsafe : SlotsSafe (trace ++ [Obs.submitted c]) := along_concat.mpr ⟨h.safe, trivial⟩
  have htaken : (fifoOf (trace ++ [Obs.submitted c])).taken =
      removed (trace ++ [Obs.submitted c]) := by
    rw [fifoOf_submitted, taken_offer, h.taken, removed_append]
    exact (List.append_nil _).symm
  have hlen : buf.contents.length ≤ 255 := by
    rw [← h.queue]
    exact (fifoOf trace).length_queue_le
  unfold clearTextHandleCharacter
  split_ifs with hfull
  · rw [succ_head_eq_tail_iff] at hfull
    refine ⟨?_, htaken, ?_, hsafe⟩
    · rw [fifoOf_submitted, queue_offer, h.queue, offerQueue_of_le (by omega)]
    · intro i
      rw [unread_submitted]
      exact h.unread_iff i
  · have hne : (buf.head.toNat + 1) % 256 ≠ buf.tail.toNat := by
      rw [← toNat_succ]
      exact fun he => hfull (UInt8.toNat_inj.mp he)
    rw [succ_head_eq_tail_iff] at hfull
    have happend : trace ++ [Obs.submitted c, Obs.wrote buf.head] =
        trace ++ [Obs.submitted c] ++ [Obs.wrote buf.head] := by
      rw [List.append_assoc]
      rfl
    have hfree : unread buf.head (trace ++ [Obs.submitted c]) = false := by
      rw [unread_submitted, ← Bool.not_eq_true, h.unread_iff]
      exact Ring.not_occupied_head hh ht
    rw [happend]
    refine ⟨?_, ?_, ?_, along_concat.mpr ⟨hsafe, hfree⟩⟩
    · rw [fifoOf_wrote, fifoOf_submitted, queue_offer, h.queue, offerQueue_of_lt (by omega)]
      show _ = Ring.contents _ (buf.head + 1).toNat _
      rw [toNat_succ, rot13_eq]
      exact (Ring.contents_push buf.data hh ht hne (encrypted c)).symm
    · rw [fifoOf_wrote, htaken, removed_append (trace ++ _)]
      exact (List.append_nil _).symm
    · intro i
      rw [unread_wrote, unread_submitted]
      show _ ↔ Ring.Occupied 256 (buf.head + 1).toNat _ _
      rw [toNat_succ, Ring.occupied_succ_head hh ht hne]
      rw [UInt8.toNat_inj, eq_comm (a := i)]
      split_ifs with hi
      · exact iff_of_true rfl (Or.inr hi)
      · rw [h.unread_iff]
        exact (or_iff_left hi).symm

/-- **A round of the loop** takes the oldest character. -/
theorem Inv.read (h : Inv buf trace) (hempty : buf.head ≠ buf.tail) :
    Inv { buf with tail := buf.tail + 1 }
      (trace ++ [Obs.read buf.tail (buf.data.get (slot buf.tail))]) := by
  have hh := buf.head.toNat_lt
  have ht := buf.tail.toNat_lt
  have hne : buf.head.toNat ≠ buf.tail.toNat := fun he => hempty (UInt8.toNat_inj.mp he)
  have hpop : buf.contents = buf.data.get (slot buf.tail) ::
      ({ buf with tail := buf.tail + 1 } : DataportBuffer).contents := by
    show _ = _ :: Ring.contents _ _ (buf.tail + 1).toNat
    rw [toNat_succ]
    exact Ring.contents_pop buf.data hh ht hne
  have hqueue := h.queue.trans hpop
  refine ⟨?_, ?_, ?_, along_concat.mpr ⟨h.safe, ?_⟩⟩
  · rw [fifoOf_read, queue_take, hqueue, List.tail_cons]
  · rw [fifoOf_read, taken_take, hqueue, h.taken, removed_append]
    rfl
  · intro i
    rw [unread_read]
    show _ ↔ Ring.Occupied 256 _ (buf.tail + 1).toNat _
    rw [toNat_succ, Ring.occupied_succ_tail hh ht hne, ne_eq, UInt8.toNat_inj]
    split_ifs with hi
    · exact iff_of_false not_false fun ho => ho.2 hi.symm
    · rw [h.unread_iff]
      exact (and_iff_left fun he => hi he.symm).symm
  · exact (h.unread_iff _).mpr (Ring.occupied_tail hh ht hne)

/-- **The loop** empties the buffer. -/
theorem receiveLoop_spec (h : Inv buf trace) (t : Transmitter) :
    Inv (receiveLoop t buf).2.1 (trace ++ (receiveLoop t buf).2.2) ∧
      (receiveLoop t buf).2.1.contents = [] := by
  induction t, buf using receiveLoop.induct generalizing trace with
  | case1 t buf hempty =>
    rw [receiveLoop, if_pos hempty, List.append_nil]
    refine ⟨h, ?_⟩
    rw [DataportBuffer.contents, hempty, Ring.contents_self]
  | case2 t buf hempty c =>
    rename_i ih
    have hround := ih (h.read hempty)
    rw [List.append_assoc] at hround
    rw [receiveLoop, if_neg hempty]
    exact hround

/-! ### Runs -/

/-- Every critical section keeps the buffer what the queue says. -/
theorem preserves_inv : machine.Preserves fun s => Inv s.buf s.trace := by
  intro s e h _
  cases e with
  | submit c => exact ⟨_, rfl, h.submit c⟩
  | receive => exact ⟨_, rfl, (receiveLoop_spec h s.transmitter).1⟩

/-- **Refinement**: after every run, the characters removed and those still in the buffer are the
characters that were submitted while fewer than 255 waited, in order, with each letter moved by 13
places in its alphabet (`encrypted`); and no unread slot has been overwritten and no other slot
read. -/
theorem dataport_refines_fifo {ts : List (Transition System Event)} {s : System}
    (hrun : machine.Run .init ts s) :
    removed s.trace ++ s.buf.contents = (fifoOf s.trace).accepted ∧
      s.buf.contents = (fifoOf s.trace).queue ∧ SlotsSafe s.trace := by
  have h := preserves_inv.run inv_init hrun
  refine ⟨?_, h.queue.symm, h.safe⟩
  rw [← h.taken, ← h.queue]
  exact (fifoOf s.trace).taken_append_queue

/-- An `a` that is typed is received as `n`, and a `z` waits as `m`.  When 200 characters are typed
and received, 255 of the next 300 fit, which wrap around. -/
theorem dataport_refines_fifo_wrapped :
    (∃ ts s, machine.Run .init ts s ∧ events ts = [.submit 97, .receive, .submit 122] ∧
      removed s.trace = [110] ∧ s.buf.contents = [109] ∧ (fifoOf s.trace).accepted = [110, 109]) ∧
    ∃ ts s, machine.Run .init ts s ∧
      events ts = .replicate 200 (.submit 97) ++ [.receive] ++ .replicate 300 (.submit 122) ∧
      s.buf.head = 199 ∧ s.buf.tail = 200 ∧
      removed s.trace ++ s.buf.contents = (fifoOf s.trace).accepted ∧ SlotsSafe s.trace := by
  constructor
  · obtain ⟨ts, s, hrun, hevents, hs⟩ := exists_run_of_exec machine .init
      [.submit 97, .receive, .submit 122]
      (fun r => removed r.2.trace = [110] ∧ r.2.buf.contents = [109]) (by decide +kernel)
    obtain ⟨hremoved, hcontents⟩ := of_decide_eq_true hs
    have h := (dataport_refines_fifo hrun).1
    rw [hremoved, hcontents] at h
    exact ⟨ts, s, hrun, hevents, hremoved, hcontents, h.symm⟩
  · obtain ⟨ts, s, hrun, hevents, hs⟩ := exists_run_of_exec machine .init
      (.replicate 200 (.submit 97) ++ [.receive] ++ .replicate 300 (.submit 122))
      (fun r => r.2.buf.head = 199 ∧ r.2.buf.tail = 200) (by decide +kernel)
    obtain ⟨hhead, htail⟩ := of_decide_eq_true hs
    have h := dataport_refines_fifo hrun
    exact ⟨ts, s, hrun, hevents, hhead, htail, h.1, h.2.2⟩

end Camkes.SecurityDemo
