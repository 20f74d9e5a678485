import Camkes.GlobalAsync.Basic
import Mathlib.Order.Nat

/-!
# The strings of `global_async`

In any interleaving the client prints the strings of the sender one after the other, each as a whole
(`strings_in_order`), and every run ends with all of them printed (`all_strings_printed`).

The signals let only one of the two go on at a time, so the number of steps determines where they
are (`Phase`).
-/

namespace Camkes.GlobalAsync

variable {rand : ℕ → ℕ} {data : Vector UInt8 bufSize} {s : State} {p : Party} {i j k : ℕ}
  {ts : List (Transition State Party)}

/-- The string number `i`. -/
def randomString (rand : ℕ → ℕ) (i : ℕ) : List UInt8 :=
  (List.range sendDataLength).map fun j => randomChar (rand (sendDataLength * i + j))

/-- The first `i` strings. -/
def strings (rand : ℕ → ℕ) (i : ℕ) : List (List UInt8) := (List.range i).map (randomString rand)

/-! ### A string in the dataport -/

/-- No random character is NUL. -/
theorem randomChar_ne_zero (r : ℕ) : randomChar r ≠ 0 := by
  have hlt : r % 72 < 72 := Nat.mod_lt _ (by decide)
  intro h
  have hnat := congrArg UInt8.toNat h
  have hzero : '0'.toUInt8.toNat = 48 := rfl
  rw [randomChar, UInt8.toNat_add, hzero, Nat.toUInt8, UInt8.toNat_ofNat'] at hnat
  simp at hnat
  omega

theorem length_randomString (rand : ℕ → ℕ) (i : ℕ) :
    (randomString rand i).length = sendDataLength := by
  rw [randomString, List.length_map, List.length_range]

theorem take_randomString_succ (hj : j < sendDataLength) :
    (randomString rand i).take (j + 1) =
      (randomString rand i).take j ++ [randomChar (rand (sendDataLength * i + j))] := by
  rw [List.take_add_one, randomString, List.getElem?_map, List.getElem?_range hj]
  rfl

theorem length_take_randomString (hj : j ≤ sendDataLength) :
    ((randomString rand i).take j).length = j := by
  rw [List.length_take, length_randomString, Nat.min_eq_left hj]

theorem strings_succ (rand : ℕ → ℕ) (i : ℕ) :
    strings rand (i + 1) = strings rand i ++ [randomString rand i] := by
  rw [strings, List.range_succ, List.map_append]
  rfl

/-! ### The phases of a round -/

/-- The steps of a round. -/
def roundLength : ℕ := 2 * sendDataLength + 6

/-- Where the two are after `k` steps. -/
inductive Phase (rand : ℕ → ℕ) (k : ℕ) : State → Prop
  | create {data : Vector UInt8 bufSize} {calls i j : ℕ} (hk : k = roundLength * i + j)
      (hi : i < rounds) (hj : j < sendDataLength) (hcalls : calls = sendDataLength * i + j)
      (hdata : (randomString rand i).take j <+: data.toList) :
      Phase rand k ⟨data, calls, false, false, .create i j, .wait, strings rand i⟩
  | terminate {data : Vector UInt8 bufSize} {calls i : ℕ}
      (hk : k = roundLength * i + sendDataLength) (hi : i < rounds)
      (hcalls : calls = sendDataLength * (i + 1)) (hdata : randomString rand i <+: data.toList) :
      Phase rand k ⟨data, calls, false, false, .terminate i, .wait, strings rand i⟩
  | emit {data : Vector UInt8 bufSize} {calls i : ℕ}
      (hk : k = roundLength * i + (sendDataLength + 1)) (hi : i < rounds)
      (hcalls : calls = sendDataLength * (i + 1))
      (hdata : randomString rand i ++ [0] <+: data.toList) :
      Phase rand k ⟨data, calls, false, false, .emit i, .wait, strings rand i⟩
  | emitted {data : Vector UInt8 bufSize} {calls i : ℕ}
      (hk : k = roundLength * i + (sendDataLength + 2)) (hi : i < rounds)
      (hcalls : calls = sendDataLength * (i + 1))
      (hdata : randomString rand i ++ [0] <+: data.toList) :
      Phase rand k ⟨data, calls, true, false, .wait i, .wait, strings rand i⟩
  | print {data : Vector UInt8 bufSize} {calls i : ℕ} {out rest : List UInt8}
      (hk : k = roundLength * i + (sendDataLength + 3 + out.length)) (hi : i < rounds)
      (hcalls : calls = sendDataLength * (i + 1))
      (hdata : randomString rand i ++ [0] <+: data.toList)
      (hout : randomString rand i = out ++ rest) :
      Phase rand k ⟨data, calls, false, false, .wait i, .print out, strings rand i⟩
  | reply {data : Vector UInt8 bufSize} {calls i : ℕ}
      (hk : k = roundLength * i + (2 * sendDataLength + 4)) (hi : i < rounds)
      (hcalls : calls = sendDataLength * (i + 1)) :
      Phase rand k ⟨data, calls, false, false, .wait i, .reply, strings rand (i + 1)⟩
  | replied {data : Vector UInt8 bufSize} {calls i : ℕ}
      (hk : k = roundLength * i + (2 * sendDataLength + 5)) (hi : i < rounds)
      (hcalls : calls = sendDataLength * (i + 1)) :
      Phase rand k ⟨data, calls, false, true, .wait i, .wait, strings rand (i + 1)⟩
  | done {data : Vector UInt8 bufSize} {calls : ℕ} (hk : k = roundLength * rounds) :
      Phase rand k ⟨data, calls, false, false, .done, .wait, strings rand rounds⟩

theorem phase_init (rand : ℕ → ℕ) (data : Vector UInt8 bufSize) : Phase rand 0 (.init data) :=
  .create (show 0 = roundLength * 0 + 0 from rfl) (show 0 < rounds by decide)
    (show 0 < sendDataLength by decide) rfl List.nil_prefix

/-- The sender writes a character. -/
theorem create_store (hj : j < sendDataLength)
    (hdata : (randomString rand i).take j <+: data.toList) :
    ∃ data', CArray.store data j (randomChar (rand (sendDataLength * i + j))) = some data' ∧
      (randomString rand i).take (j + 1) <+: data'.toList := by
  have hlt : j < bufSize := hj.trans (by decide)
  have hlen : ((randomString rand i).take j).length = j := length_take_randomString hj.le
  refine ⟨_, CArray.store_of_lt _ hlt _, ?_⟩
  rw [take_randomString_succ hj]
  have hset := CArray.append_prefix_set hdata (by rwa [hlen])
    (randomChar (rand (sendDataLength * i + j)))
  simpa only [hlen] using hset

/-- The sender writes the NUL. -/
theorem terminate_store (hdata : randomString rand i <+: data.toList) :
    ∃ data', CArray.store data sendDataLength 0 = some data' ∧
      randomString rand i ++ [0] <+: data'.toList := by
  have hlt : sendDataLength < bufSize := by decide
  have hlen := length_randomString rand i
  refine ⟨_, CArray.store_of_lt _ hlt _, ?_⟩
  have hset := CArray.append_prefix_set hdata (by rwa [hlen]) 0
  simpa only [hlen] using hset

/-- The only step that is possible leads to the next phase. -/
theorem Phase.step (h : Phase rand k s) (hok : s.ok p) :
    ∃ s', (machine rand).step s p = some s' ∧ Phase rand (k + 1) s' := by
  cases h with
  | @create data calls i j hk hi hj hcalls hdata =>
    cases p with
    | sender =>
      obtain ⟨data', hstore, hdata'⟩ := create_store hj hdata
      simp only [machine, State.senderStep, hcalls, hstore]
      refine ⟨_, rfl, ?_⟩
      split_ifs with hnext
      · exact .create (by omega) hi hnext rfl hdata'
      · have hlast : j + 1 = sendDataLength := by omega
        rw [hlast, List.take_of_length_le (length_randomString rand i).le] at hdata'
        refine .terminate (by omega) hi ?_ hdata'
        rw [Nat.mul_succ]
        omega
    | client => cases hok
  | terminate hk hi hcalls hdata =>
    cases p with
    | sender =>
      obtain ⟨data', hstore, hdata'⟩ := terminate_store hdata
      simp only [machine, State.senderStep, hstore]
      exact ⟨_, rfl, .emit (by omega) hi hcalls hdata'⟩
    | client => cases hok
  | emit hk hi hcalls hdata =>
    cases p with
    | sender => exact ⟨_, rfl, .emitted (by omega) hi hcalls hdata⟩
    | client => cases hok
  | emitted hk hi hcalls hdata =>
    cases p with
    | sender => cases hok
    | client =>
      refine ⟨_, rfl, .print ?_ hi hcalls hdata (List.nil_append _).symm⟩
      rw [hk]
      rfl
  | @print data calls i out rest hk hi hcalls hdata hout =>
    cases p with
    | sender => cases hok
    | client =>
      cases rest with
      | nil =>
        -- the NUL
        rw [List.append_nil] at hout
        have hlen := length_randomString rand i
        rw [hout] at hdata hlen
        have hget := CArray.getElem?_length_of_append hdata
        simp only [machine, State.clientStep, hget]
        refine ⟨_, rfl, ?_⟩
        rw [← hout, ← strings_succ]
        exact .reply (by omega) hi hcalls
      | cons c rest =>
        have hc : c ≠ 0 := by
          have hmem : c ∈ randomString rand i := by simp [hout]
          obtain ⟨m, -, rfl⟩ := List.mem_map.mp hmem
          exact randomChar_ne_zero _
        have hdata' := hdata
        rw [hout, List.append_assoc, List.cons_append] at hdata'
        have hget := CArray.getElem?_length_of_append hdata'
        simp only [machine, State.clientStep, hget]
        refine ⟨_, if_neg hc, .print ?_ hi hcalls hdata (List.append_cons out c rest ▸ hout)⟩
        rw [hk, List.length_append, List.length_singleton]
        omega
  | reply hk hi hcalls =>
    cases p with
    | sender => cases hok
    | client => exact ⟨_, rfl, .replied (by omega) hi hcalls⟩
  | @replied data calls i hk hi hcalls =>
    cases p with
    | sender =>
      have hnext : i + 1 < rounds ∨ i + 1 = rounds := by omega
      refine ⟨_, rfl, ?_⟩
      rcases hnext with hnext | hlast
      · rw [if_pos hnext]
        refine .create ?_ hnext (by decide) hcalls List.nil_prefix
        rw [hk, Nat.mul_succ]
        rfl
      · rw [if_neg (by omega), hlast]
        refine .done ?_
        rw [hk, ← hlast, Nat.mul_succ]
        rfl
    | client => cases hok
  | done hk =>
    cases p with
    | sender => cases hok
    | client => cases hok

/-- After `k` steps the two parties are in phase `k`. -/
theorem phase_of_run (hrun : (machine rand).Run (.init data) ts s) : Phase rand ts.length s := by
  induction hrun with
  | nil => exact phase_init rand data
  | snoc hrun hok hstep ih =>
    obtain ⟨s', hs', h⟩ := ih.step hok
    rw [hstep] at hs'
    obtain rfl := Option.some.inj hs'
    rwa [List.length_append, List.length_singleton]

/-- A round that has begun is not over. -/
theorem round_lt (hi : i < rounds) (hj : j < roundLength) :
    roundLength * i + j < roundLength * rounds := by
  have hmul := Nat.mul_le_mul_left roundLength (show i + 1 ≤ rounds from hi)
  rw [Nat.mul_succ] at hmul
  omega

/-- Somebody can go on until the last phase, and then nobody. -/
theorem Phase.lt_or_done (h : Phase rand k s) :
    k < roundLength * rounds ∧ (∃ p, s.ok p) ∨
    k = roundLength * rounds ∧ (∀ p, ¬ s.ok p) ∧ s.sender = .done ∧
      s.printed = strings rand rounds := by
  have hround : roundLength = 2 * sendDataLength + 6 := rfl
  cases h with
  | create hk hi hj => exact .inl ⟨hk ▸ round_lt hi (by omega), .sender, trivial⟩
  | terminate hk hi => exact .inl ⟨hk ▸ round_lt hi (by omega), .sender, trivial⟩
  | emit hk hi => exact .inl ⟨hk ▸ round_lt hi (by omega), .sender, trivial⟩
  | emitted hk hi => exact .inl ⟨hk ▸ round_lt hi (by omega), .client, rfl⟩
  | @print _ _ i out rest hk hi _ _ hout =>
    have hlen := length_randomString rand i
    rw [hout, List.length_append] at hlen
    exact .inl ⟨hk ▸ round_lt hi (by omega), .client, trivial⟩
  | reply hk hi => exact .inl ⟨hk ▸ round_lt hi (by omega), .client, trivial⟩
  | replied hk hi => exact .inl ⟨hk ▸ round_lt hi (by omega), .sender, rfl⟩
  | done hk =>
    refine .inr ⟨hk, fun p => ?_, rfl, rfl⟩
    cases p
    · exact id
    · exact Bool.false_ne_true

/-- There is a run of every length up to the last phase. -/
theorem exists_run_length (rand : ℕ → ℕ) (data : Vector UInt8 bufSize)
    (hk : k ≤ roundLength * rounds) :
    ∃ ts s, (machine rand).Run (.init data) ts s ∧ ts.length = k := by
  induction k with
  | zero => exact ⟨[], _, .nil, rfl⟩
  | succ k ih =>
    obtain ⟨ts, s, hrun, rfl⟩ := ih (Nat.le_of_succ_le hk)
    have h := phase_of_run hrun
    rcases h.lt_or_done with ⟨-, p, hok⟩ | ⟨heq, -⟩
    · obtain ⟨s', hs', -⟩ := h.step hok
      exact ⟨_, s', .snoc hrun hok hs', List.length_append⟩
    · omega

/-! ### The main results -/

/-- **No string is torn**: no step fails, and the client has printed the strings in order. -/
theorem strings_in_order (hrun : (machine rand).Run (.init data) ts s) :
    (∀ p, s.ok p → ((machine rand).step s p).isSome) ∧
    s.printed = strings rand s.printed.length ∧ s.printed.length ≤ rounds := by
  have h := phase_of_run hrun
  refine ⟨fun p hok => ?_, ?_⟩
  · obtain ⟨s', hs', -⟩ := h.step hok
    rw [hs']
    rfl
  · obtain ⟨m, hm, hprinted⟩ : ∃ m ≤ rounds, s.printed = strings rand m := by
      cases h with
      | done => exact ⟨_, le_rfl, rfl⟩
      | reply hk hi => exact ⟨_, hi, rfl⟩
      | replied hk hi => exact ⟨_, hi, rfl⟩
      | _ hk hi => exact ⟨_, hi.le, rfl⟩
    have hlen : s.printed.length = m := by
      rw [hprinted, strings, List.length_map, List.length_range]
    rw [hlen]
    exact ⟨hprinted, hm⟩

/-- A run to the middle of the seventh string. -/
theorem strings_in_order_seven : ∃ ts s,
    (machine id).Run (.init (Vector.replicate bufSize 0xFF)) ts s ∧ ts.length = 300 ∧
    s.printed = strings id s.printed.length := by
  obtain ⟨ts, s, hrun, hlen⟩ := exists_run_length id (Vector.replicate bufSize 0xFF)
    (show 300 ≤ roundLength * rounds by decide)
  exact ⟨ts, s, hrun, hlen, (strings_in_order hrun).2.1⟩

/-- **Termination**: a run ends after 460 steps, not before, and then the sender has returned and
all strings have been printed. -/
theorem all_strings_printed (hrun : (machine rand).Run (.init data) ts s) :
    ts.length ≤ roundLength * rounds ∧
    ((∀ p, ¬ s.ok p) ↔ ts.length = roundLength * rounds) ∧
    (ts.length = roundLength * rounds → s.sender = .done ∧ s.printed = strings rand rounds) := by
  rcases (phase_of_run hrun).lt_or_done with ⟨hlt, p, hok⟩ | ⟨heq, hstuck, hend⟩
  · refine ⟨hlt.le, ⟨fun hstuck => absurd hok (hstuck p), fun heq => ?_⟩, fun heq => ?_⟩
    · exact absurd heq hlt.ne
    · exact absurd heq hlt.ne
  · exact ⟨heq.le, iff_of_true hstuck heq, fun _ => hend⟩

theorem all_strings_printed_end : ∃ ts s,
    (machine id).Run (.init (Vector.replicate bufSize 0xFF)) ts s ∧ (∀ p, ¬ s.ok p) ∧
    s.printed = strings id rounds := by
  obtain ⟨ts, s, hrun, hlen⟩ := exists_run_length id (Vector.replicate bufSize 0xFF)
    (Nat.le_refl (roundLength * rounds))
  obtain ⟨-, hstuck, hend⟩ := all_strings_printed hrun
  exact ⟨ts, s, hrun, hstuck.mpr hlen, (hend hlen).2⟩

end Camkes.GlobalAsync
