import Camkes.Data.Stack
import Camkes.SecurityDemo.LogFile

/-!
# The log file is what was consumed

`LogInv` says that what was written and what is pending are together what was to be logged, and,
as long as `total_bytes_written` has not wrapped around, that the file begins with what was written.
A failed write keeps both: it changes the file only behind what was written.
-/

namespace Camkes.SecurityDemo

open CArray Machine

/-! ### The pending buffer -/

/-- The pending characters. -/
def Pending.contents {n : ℕ} (p : Pending n) : List UInt8 := Stack.contents p.buf p.length

theorem length_store_le {n : ℕ} {p : Pending n} (h : p.length ≤ n) (c : UInt8) :
    (p.store c).length ≤ n := by
  unfold Pending.store
  split_ifs with hlt
  · exact hlt
  · exact h

/-- A character is appended, unless the buffer is full. -/
theorem contents_store {n : ℕ} {p : Pending n} (h : p.length ≤ n) (c : UInt8) :
    (p.store c).contents = p.contents ++ if p.length = n then [] else [c] := by
  unfold Pending.store
  by_cases hfull : p.length = n
  · rw [dif_neg (by omega), if_pos hfull, List.append_nil]
  · have hlt : p.length < n := by omega
    rw [dif_pos hlt, if_neg hfull, Pending.contents, Stack.contents_succ _ hlt,
      Stack.contents_set _ hlt, Vector.getElem_set_self]
    rfl

theorem slice_contents {n : ℕ} {p : Pending n} (h : p.length ≤ n) :
    slice p.buf 0 p.length = some p.contents := by
  rw [slice_of_le _ (by omega), List.drop_zero]
  rfl

/-- Clearing the pending characters never fails. -/
theorem clear_eq_some {n : ℕ} {p : Pending n} (h : p.length ≤ n) :
    ∃ p', p.clear = some p' ∧ p'.length = 0 := by
  have hle : (List.replicate p.length (0 : UInt8)).length ≤ n := by rwa [List.length_replicate]
  obtain ⟨buf, hbuf, -⟩ := memcpy_eq_some p.buf hle
  refine ⟨{ buf, length := 0 }, ?_, rfl⟩
  unfold Pending.clear
  rw [hbuf]
  rfl

/-! ### Traces -/

@[simp] theorem logged_append (trace more : List LogObs) :
    logged (trace ++ more) = logged trace ++ logged more :=
  List.filterMap_append

@[simp] theorem written_append (trace more : List LogObs) :
    written (trace ++ more) = written trace ++ written more :=
  List.flatMap_append

/-- An entry that is left out under a condition. -/
theorem filterMap_cons_ite {α β : Type*} {f : α → Option β} {p : Prop} [Decidable p] {a : α}
    {b : β} (h : f a = if p then none else some b) (l : List α) :
    (a :: l).filterMap f = (if p then [] else [b]) ++ l.filterMap f := by
  by_cases hp : p
  · rw [if_pos hp] at h ⊢
    exact List.filterMap_cons_none h
  · rw [if_neg hp] at h ⊢
    exact List.filterMap_cons_some h

theorem logged_consumed (len : ℕ) (c : UInt8) (trace : List LogObs) :
    logged (.consumed len c :: trace) =
      (if len = mmcTxBufLen then [] else [c]) ++ logged trace := by
  unfold logged
  refine filterMap_cons_ite ?_ trace
  rfl

theorem written_consumedIn (mmc : Pending mmcTxBufLen) (accesses : List Obs) :
    written (consumedIn mmc accesses) = [] := by
  induction accesses generalizing mmc with
  | nil => rfl
  | cons a accesses ih =>
    cases a with
    | read i c => exact ih (mmc.store c)
    | submitted c => exact ih mmc
    | wrote i => exact ih mmc

/-- **The loop** stores what it consumes, except what it finds no room for. -/
theorem receiveLoop_mmc {t : Transmitter} (buf : DataportBuffer)
    (h : t.mmc.length ≤ mmcTxBufLen) :
    (receiveLoop t buf).1.mmc.length ≤ mmcTxBufLen ∧
      (receiveLoop t buf).1.mmc.contents =
        t.mmc.contents ++ logged (consumedIn t.mmc (receiveLoop t buf).2.2) := by
  induction t, buf using receiveLoop.induct with
  | case1 t buf hempty =>
    rw [receiveLoop, if_pos hempty]
    exact ⟨h, (List.append_nil _).symm⟩
  | case2 t buf hempty c =>
    rename_i ih
    obtain ⟨hle, hcontents⟩ := ih (length_store_le h c)
    rw [receiveLoop, if_neg hempty]
    refine ⟨hle, ?_⟩
    rw [consumedIn, logged_consumed, ← List.append_assoc, ← contents_store h]
    exact hcontents

/-! ### The invariant -/

/-- The two buffers are within their bounds, and the file with the log buffer behind it holds all
that has been logged. -/
structure LogInv (s : LogSystem) : Prop where
  mmc_le : s.transmitter.mmc.length ≤ mmcTxBufLen
  eth_le : s.transmitter.eth.length ≤ ethTxBufLen
  logged : logged s.trace = written s.trace ++ s.transmitter.mmc.contents
  -- `total_bytes_written` counts modulo 2³²
  file : (written s.trace).length < UInt32.size →
    s.totalBytesWritten.toNat = (written s.trace).length ∧
      s.file.take (written s.trace).length = written s.trace

theorem logInv_init (file : List UInt8) : LogInv (.init file) where
  mmc_le := Nat.zero_le _
  eth_le := Nat.zero_le _
  logged := rfl
  file _ := ⟨rfl, rfl⟩

/-- What a successful write stores is what the file holds up to its end. -/
theorem take_fatwrite_of_nonneg {file : List UInt8} {cmd : Fatwrite} {ret : ℤ}
    {damage before : List UInt8} (hret : ret ≥ 0) (hoff : cmd.offset.toNat = before.length)
    (h : file.take before.length = before) :
    (fatwrite file cmd ret damage).take (before ++ cmd.bytes).length = before ++ cmd.bytes := by
  have hpad : (file.rightpad before.length 0).take before.length = before := by
    have hle : before.length ≤ file.length := by
      have hlen := congrArg List.length h
      rw [List.length_take] at hlen
      omega
    rw [List.rightpad, List.take_append_of_le_length hle, h]
  unfold fatwrite
  rw [if_pos hret, hoff, hpad]
  exact List.take_left

/-- A failed write leaves the file alone up to its offset. -/
theorem take_fatwrite_of_neg {file : List UInt8} {cmd : Fatwrite} {ret : ℤ}
    {damage before : List UInt8} (hret : ¬ ret ≥ 0) (hoff : cmd.offset.toNat = before.length)
    (h : file.take before.length = before) :
    (fatwrite file cmd ret damage).take before.length = before := by
  unfold fatwrite
  rw [if_neg hret, hoff, h]
  exact List.take_left

/-- A successful write moves the pending characters to the file. -/
theorem LogInv.write_of_nonneg {s : LogSystem} (h : LogInv s) {ret : ℤ} (hret : ret ≥ 0)
    (damage : List UInt8) : ∃ s', s.step (.write ret damage) = some s' ∧ LogInv s' := by
  have hslice := slice_contents h.mmc_le
  obtain ⟨cleared, hclear, hlen⟩ := clear_eq_some h.mmc_le
  have hnil : cleared.contents = [] := by
    rw [Pending.contents, hlen]
    exact List.take_zero
  let cmd : Fatwrite := ⟨s.transmitter.mmc.contents, s.totalBytesWritten⟩
  let s' : LogSystem := { s with
    transmitter := { s.transmitter with mmc := cleared }
    totalBytesWritten := s.totalBytesWritten + UInt32.ofNat s.transmitter.mmc.length
    file := fatwrite s.file cmd ret damage
    trace := s.trace ++ [.fatwrite cmd ret] }
  have hwritten : written s'.trace = written s.trace ++ s.transmitter.mmc.contents := by
    rw [written_append]
    simp only [written, List.flatMap_cons, List.flatMap_nil, if_pos hret, List.append_nil]
    rfl
  refine ⟨s', ?_, ?_, h.eth_le, ?_, ?_⟩
  · simp only [LogSystem.step, writePendingMmcLog, hslice, hclear, if_pos hret,
      Option.bind_eq_bind, Option.bind_some]
    rfl
  · rw [hlen]
    exact Nat.zero_le _
  · rw [hwritten, hnil, List.append_nil, ← h.logged, logged_append]
    exact List.append_nil _
  · intro hlt
    have hmmc : s.transmitter.mmc.contents.length = s.transmitter.mmc.length :=
      Stack.length_contents _ h.mmc_le
    rw [hwritten] at hlt ⊢
    rw [List.length_append, hmmc] at hlt
    obtain ⟨htotal, hfile⟩ := h.file (by omega)
    have hnew : s'.file.take (written s.trace ++ cmd.bytes).length =
        written s.trace ++ cmd.bytes := take_fatwrite_of_nonneg hret htotal hfile
    refine ⟨?_, hnew⟩
    show (s.totalBytesWritten + UInt32.ofNat s.transmitter.mmc.length).toNat = _
    rw [UInt32.toNat_add, htotal, UInt32.toNat_ofNat', List.length_append, hmmc, Nat.add_mod_mod]
    exact Nat.mod_eq_of_lt hlt

/-- A failed write leaves them pending. -/
theorem LogInv.write_of_neg {s : LogSystem} (h : LogInv s) {ret : ℤ} (hret : ¬ ret ≥ 0)
    (damage : List UInt8) : ∃ s', s.step (.write ret damage) = some s' ∧ LogInv s' := by
  have hslice := slice_contents h.mmc_le
  let cmd : Fatwrite := ⟨s.transmitter.mmc.contents, s.totalBytesWritten⟩
  let s' : LogSystem := { s with
    file := fatwrite s.file cmd ret damage
    trace := s.trace ++ [.fatwrite cmd ret] }
  have hwritten : written s'.trace = written s.trace := by
    rw [written_append]
    simp only [written, List.flatMap_cons, List.flatMap_nil, if_neg hret, List.append_nil]
  refine ⟨s', ?_, h.mmc_le, h.eth_le, ?_, ?_⟩
  · simp only [LogSystem.step, writePendingMmcLog, hslice, if_neg hret, Option.bind_eq_bind,
      Option.bind_some]
    rfl
  · rw [hwritten, ← h.logged, logged_append]
    exact List.append_nil _
  · intro hlt
    rw [hwritten] at hlt ⊢
    obtain ⟨htotal, hfile⟩ := h.file hlt
    exact ⟨htotal, take_fatwrite_of_neg hret htotal hfile⟩

/-! ### Runs -/

/-- The Ethernet buffer is never exceeded either. -/
theorem receiveLoop_eth {t : Transmitter} (buf : DataportBuffer)
    (h : t.eth.length ≤ ethTxBufLen) : (receiveLoop t buf).1.eth.length ≤ ethTxBufLen := by
  induction t, buf using receiveLoop.induct with
  | case1 t buf hempty =>
    rw [receiveLoop, if_pos hempty]
    exact h
  | case2 t buf hempty c =>
    rename_i ih
    rw [receiveLoop, if_neg hempty]
    exact ih (length_store_le h c)

/-- Every event keeps the file what has been logged. -/
theorem preserves_logInv : logMachine.Preserves LogInv := by
  intro s e h _
  cases e with
  | submit c => exact ⟨_, rfl, h.mmc_le, h.eth_le, h.logged, h.file⟩
  | receive =>
    obtain ⟨hle, hcontents⟩ := receiveLoop_mmc s.buf h.mmc_le
    refine ⟨_, rfl, hle, receiveLoop_eth s.buf h.eth_le, ?_, ?_⟩
    · rw [logged_append, written_append, written_consumedIn, List.append_nil, h.logged,
        List.append_assoc]
      exact congrArg (written s.trace ++ ·) hcontents.symm
    · rw [written_append, written_consumedIn, List.append_nil]
      exact h.file
  | transmit =>
    obtain ⟨eth, hclear, hlen⟩ := clear_eq_some h.eth_le
    refine ⟨{ s with transmitter := { s.transmitter with eth } }, ?_, h.mmc_le, ?_, h.logged,
      h.file⟩
    · show s.step .transmit = _
      simp only [LogSystem.step, hclear, Option.bind_eq_bind, Option.bind_some]
    · rw [hlen]
      exact Nat.zero_le _
  | write ret damage =>
    by_cases hret : ret ≥ 0
    · exact h.write_of_nonneg hret damage
    · exact h.write_of_neg hret damage

/-- **The log file is exact**: after every run in which fewer than 2³² bytes are written, the first
`total_bytes_written` bytes of the file, followed by the pending characters, are the consumed
characters without those consumed while the pending buffer was full; and no further step fails. -/
theorem logFile_exact (file : List UInt8) {ts : List (Transition LogSystem LogEvent)}
    {s : LogSystem} (hrun : logMachine.Run (.init file) ts s)
    (hlt : (written s.trace).length < UInt32.size) :
    s.file.take s.totalBytesWritten.toNat ++
        s.transmitter.mmc.buf.toList.take s.transmitter.mmc.length = logged s.trace ∧
      ∀ e, logMachine.ok s e → (logMachine.step s e).isSome := by
  have h := preserves_logInv.run (logInv_init file) hrun
  obtain ⟨htotal, hfile⟩ := h.file hlt
  refine ⟨?_, fun e he => preserves_logInv.safe (logInv_init file) ts s e hrun he⟩
  rw [htotal, hfile, h.logged]
  rfl

/-- Three characters are typed and received, the write of them fails half way, and the retry writes
a fourth one with them. -/
theorem logFile_exact_retry : ∃ ts s, logMachine.Run (.init [7, 7, 7, 7, 7]) ts s ∧
    events ts = [.submit 97, .submit 98, .submit 99, .receive, .write (-1) [110, 111, 7],
      .submit 100, .receive, .write 0 [], .submit 101, .receive] ∧
    s.file = [110, 111, 112, 113] ∧
    s.file.take s.totalBytesWritten.toNat ++
        s.transmitter.mmc.buf.toList.take s.transmitter.mmc.length = logged s.trace := by
  obtain ⟨ts, s, hrun, hevents, hp⟩ := exists_run_of_exec logMachine (.init [7, 7, 7, 7, 7])
    [.submit 97, .submit 98, .submit 99, .receive, .write (-1) [110, 111, 7],
      .submit 100, .receive, .write 0 [], .submit 101, .receive]
    (fun r => r.2.file = [110, 111, 112, 113] ∧ (written r.2.trace).length < UInt32.size)
    (by decide +kernel)
  obtain ⟨hfile, hlt⟩ := of_decide_eq_true hp
  exact ⟨ts, s, hrun, hevents, hfile, (logFile_exact _ hrun hlt).1⟩

end Camkes.SecurityDemo
