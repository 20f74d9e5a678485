import Camkes.Data.Loops
import Camkes.Serialserver.Loopback

/-!
# The buffers of `handle_read_callback`
-/

namespace Camkes.Serialserver.Loopback

variable {s : Client} {c : Completion} {cs : List Completion} {len : UInt32}

/-! ### One completion -/

/-- Without a buffer nothing happens. -/
theorem handleReadCallback_of_allocates_eq_false (h : c.allocates = false) (s : Client) :
    handleReadCallback s c = some s ∧ c.gathered = none := by
  cases c with
  | dequeueFailed => exact ⟨rfl, rfl⟩
  | noMemory => exact ⟨rfl, rfl⟩
  | allocated => cases h

/-- `write_output` writes out the whole of its buffer. -/
theorem writeOutput_spec {s : Client} {p size : ℕ} {bytes : List UInt8}
    (hread : s.heap.read p = some bytes) (hlen : bytes.length = size) (sent : Bool) :
    writeOutput s p size sent = some
      { heap := s.heap
        writes := s.writes ++ [bytes]
        notified := s.notified + sent.toNat } := by
  have hsize : size ≤ bytes.length := Nat.le_of_eq hlen.symm
  have htake : bytes.take size = bytes := List.take_of_length_le (Nat.le_of_eq hlen)
  simp only [writeOutput, hread, Option.bind_eq_bind, Option.bind_some, if_pos hsize, htake]
  cases sent with
  | true => rfl
  | false => rfl

/-- **A failed gather**: the freed buffer is used by `write_output`. -/
theorem handleReadCallback_failed (s : Client) {bytes : List UInt8}
    (hle : bytes.length ≤ len.toNat) (sent : Bool) :
    handleReadCallback s (.allocated len (.failed bytes hle) sent) = none := by
  have hblock := Heap.read_alloc_self s.heap (List.replicate len.toNat 0)
  have hfit : bytes.length ≤ (List.replicate len.toNat (0 : UInt8)).length := by
    rwa [List.length_replicate]
  obtain ⟨heap₁, hstore, hread, -, -⟩ := Heap.store_spec hblock hfit
  obtain ⟨heap₂, hfree, hfreed⟩ := Heap.free_spec hread
  simp only [handleReadCallback, Gather.bytes, Gather.ok, hstore, hfree, writeOutput, hfreed,
    Option.bind_eq_bind, Option.bind_some, Option.bind_none, Bool.false_eq_true, if_false]

/-- **A successful gather**: the data is written out, and the buffer is still there afterwards. -/
theorem handleReadCallback_copied (s : Client) (bytes : Vector UInt8 len.toNat) (sent : Bool) :
    ∃ heap p, handleReadCallback s (.allocated len (.copied bytes) sent) = some
        { heap
          writes := s.writes ++ [bytes.toList]
          notified := s.notified + sent.toNat } ∧
      heap.numLive = s.heap.numLive + 1 ∧ ¬ s.heap.Live p ∧
      ∀ q, heap.Live q ↔ s.heap.Live q ∨ q = p := by
  have hblock := Heap.read_alloc_self s.heap (List.replicate len.toNat 0)
  have hlen : bytes.toList.length = len.toNat := Vector.length_toList
  have hfit : bytes.toList.length ≤ (List.replicate len.toNat (0 : UInt8)).length :=
    Nat.le_of_eq (hlen.trans List.length_replicate.symm)
  obtain ⟨heap, hstore, hread, hothers, hnum⟩ := Heap.store_spec hblock hfit
  rw [hlen, List.drop_replicate, Nat.sub_self, List.replicate_zero, List.append_nil] at hread
  refine ⟨heap, (s.heap.alloc (List.replicate len.toNat 0)).2, ?_, ?_, ?_, fun q => ?_⟩
  · have hwrite := writeOutput_spec (s := { s with heap }) hread hlen sent
    simpa only [handleReadCallback, Gather.bytes, Gather.ok, hstore, Option.bind_eq_bind,
      Option.bind_some, if_true] using hwrite
  · rw [hnum, Heap.numLive_alloc]
  · exact Heap.not_live_alloc _ _
  · by_cases hq : q = (s.heap.alloc (List.replicate len.toNat 0)).2
    · rw [hq]
      exact iff_of_true (Heap.live_of_read hread) (Or.inr rfl)
    · rw [Heap.Live, hothers q hq, Heap.read_alloc_of_ne _ _ hq, ← Heap.Live]
      exact (or_iff_left hq).symm

/-- **What a completion does**, if its gather does not fail. -/
theorem handleReadCallback_spec (h : c.gatherFails = false) (s : Client) :
    ∃ s', handleReadCallback s c = some s' ∧ s'.writes = s.writes ++ c.gathered.toList ∧
      s'.heap.numLive = s.heap.numLive + c.allocates.toNat := by
  cases hallocates : c.allocates with
  | false =>
    obtain ⟨hs, hgathered⟩ := handleReadCallback_of_allocates_eq_false hallocates s
    refine ⟨s, hs, ?_, rfl⟩
    rw [hgathered, Option.toList_none, List.append_nil]
  | true =>
    cases c with
    | dequeueFailed => cases hallocates
    | noMemory => cases hallocates
    | allocated len gather sent =>
      cases gather with
      | failed => cases h
      | copied bytes =>
        obtain ⟨heap, p, hs', hnum, -⟩ := handleReadCallback_copied s bytes sent
        exact ⟨_, hs', rfl, hnum⟩

/-- A completion is handled as it should be only if there is no buffer. -/
theorem handled_iff : (∃ s', handleReadCallback s c = some s' ∧ Handled s c s') ↔
    c.allocates = false := by
  constructor
  · rintro ⟨s', hs', hhandled⟩
    cases c with
    | dequeueFailed => rfl
    | noMemory => rfl
    | allocated len gather sent =>
      cases gather with
      | failed bytes hle =>
        rw [handleReadCallback_failed] at hs'
        cases hs'
      | copied bytes =>
        obtain ⟨heap, p, hs'', -, hfresh, hlive⟩ := handleReadCallback_copied s bytes sent
        obtain rfl := Option.some.inj (hs'.symm.trans hs'')
        exact absurd ((hhandled.live p).mp ((hlive p).mpr (Or.inr rfl))) hfresh
  · intro h
    obtain ⟨hs, hgathered⟩ := handleReadCallback_of_allocates_eq_false h s
    refine ⟨s, hs, ?_, fun _ => Iff.rfl⟩
    rw [hgathered, Option.toList_none, List.append_nil]

/-! ### Sequences of completions -/

theorem filterMap_gathered_singleton (c : Completion) :
    [c].filterMap Completion.gathered = c.gathered.toList := by
  cases hgathered : c.gathered with
  | none => rw [List.filterMap_cons_none hgathered, List.filterMap_nil, Option.toList_none]
  | some bytes => rw [List.filterMap_cons_some hgathered, List.filterMap_nil, Option.toList_some]

/-- **The leak**: where no gather fails all data is written out in order, and each completion that
gets a buffer leaves one behind. -/
theorem handleReadCallbacks_spec (s : Client) (h : ∀ c ∈ cs, c.gatherFails = false) :
    ∃ s', handleReadCallbacks s cs = some s' ∧
      s'.writes = s.writes ++ cs.filterMap Completion.gathered ∧
      s'.heap.numLive = s.heap.numLive + cs.countP Completion.allocates := by
  refine exists_foldlM (P := fun done (s' : Client) =>
    s'.writes = s.writes ++ done.filterMap Completion.gathered ∧
      s'.heap.numLive = s.heap.numLive + done.countP Completion.allocates) ?_ ?_
  · exact ⟨(List.append_nil _).symm, rfl⟩
  · intro done c rest s₁ hcs ⟨hwrites₁, hnum₁⟩
    have hc : c ∈ cs := by
      rw [hcs]
      exact List.mem_append_right _ (List.mem_cons_self ..)
    obtain ⟨s₂, hs₂, hwrites₂, hnum₂⟩ := handleReadCallback_spec (h c hc) s₁
    refine ⟨s₂, hs₂, ?_, ?_⟩
    · rw [hwrites₂, hwrites₁, List.filterMap_append, filterMap_gathered_singleton,
        List.append_assoc]
    · rw [hnum₂, hnum₁, List.countP_append, List.countP_singleton, ← Nat.add_assoc]
      cases c.allocates with
      | true => rfl
      | false => rfl

/-- **A sequence of completions** is handled as it should be exactly if no completion gets a
buffer. -/
theorem allHandled_iff (s : Client) (cs : List Completion) :
    AllHandled s cs ↔ ∀ c ∈ cs, c.allocates = false := by
  induction cs generalizing s with
  | nil => simp [AllHandled]
  | cons c cs ih =>
    rw [AllHandled, List.forall_mem_cons]
    constructor
    · rintro ⟨s', hs', hhandled, hrest⟩
      exact ⟨handled_iff.mp ⟨s', hs', hhandled⟩, (ih s').mp hrest⟩
    · rintro ⟨hc, hrest⟩
      obtain ⟨s', hs', hhandled⟩ := handled_iff.mpr hc
      exact ⟨s', hs', hhandled, (ih s').mpr hrest⟩

/-- One byte is read: the buffer is used when it has been freed if the gather fails, and it is not
freed if the gather succeeds. -/
theorem not_allHandled_oneByte :
    ¬ AllHandled ⟨.empty, [], 0⟩ [.allocated 1 (.failed [] (by decide)) true] ∧
      ¬ AllHandled ⟨.empty, [], 0⟩ [.allocated 1 (.copied #v[97]) true] := by
  constructor
  · rintro ⟨s', hs', -⟩
    rw [handleReadCallback_failed] at hs'
    cases hs'
  · rintro ⟨s', hs', hhandled, -⟩
    exact absurd (handled_iff.mp ⟨s', hs', hhandled⟩) (by decide)

end Camkes.Serialserver.Loopback
