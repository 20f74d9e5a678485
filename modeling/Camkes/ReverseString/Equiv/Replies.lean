import Camkes.ReverseString.Equiv.Exchange

/-!
# The message loop

`path_messageLoop`: the replies to chunks without a NUL or a `%` that are shorter than the buffer,
whatever is in the two buffers at first.
-/

namespace Camkes.ReverseString.TcpServer

open Threads

/-- What the `reverse_string` server makes of a string.  It does not see what is behind the first
`maxLen` characters. -/
def reversed (s : List UInt8) : List UInt8 := (s.take maxLen).reverse ++ s.drop maxLen

/-- A chunk that is its own format string, with room for the NUL. -/
structure Chunk.Plain (c : Chunk) : Prop where
  zero_notMem : 0 ∉ c.bytes
  percent_notMem : percent ∉ c.bytes
  lt_bufSize : c.bytes.length < bufSize

variable {s : List UInt8} {m mem : Cell → UInt8} {chunk : Chunk} {chunks : List Chunk}

theorem reversed_of_le (h : s.length ≤ maxLen) : reversed s = s.reverse := by
  rw [reversed, List.take_of_length_le h, List.drop_of_length_le h, List.append_nil]

theorem length_reversed (s : List UInt8) : (reversed s).length = s.length := by
  rw [reversed, List.length_append, List.length_reverse, ← List.length_append,
    List.take_append_drop]

/-! ### Paths -/

/-- A round of the message loop. -/
theorem path_chunk (hzero : 0 ∉ chunk.bytes) (hlt : chunk.bytes.length < bufSize)
    (hformat : format chunk.bytes = some s) (hidle : Idle m) (buf : Buf) (chunks : List Chunk)
    (before : Log) :
    ∃ buf' m' log rest, Idle m' ∧
      sent log = [(reversed s ++ 0 :: rest).take chunk.bytes.length] ∧
      Path loop (stateOf m (messageLoop buf (chunk :: chunks)) serverRound before)
        (stateOf m' (messageLoop buf' chunks) serverRound (before ++ log)) := by
  obtain ⟨buf', hprepare⟩ := prepare_of_lt buf hlt hzero
  rw [hformat, Option.map_some] at hprepare
  have hs : 0 ∉ s := fun h => hzero (mem_of_mem_format hformat h)
  obtain ⟨m', log, rest, hidle', hsent, hpath⟩ :=
    path_exchange hs (length_format hformat).1 hlt hidle (messageLoop buf' chunks) before
  refine ⟨buf', m', log, rest, hidle', ?_, ?_⟩
  · rw [hsent, reversed, List.append_assoc]
  · rw [messageLoop, hprepare]
    exact hpath

/-- **The replies** to the chunks that come first. -/
theorem path_messageLoop (hplain : ∀ c ∈ chunks, c.Plain) (hidle : Idle m) (buf : Buf)
    (more : List Chunk) (before : Log) :
    ∃ buf' m' log, Idle m' ∧ sent log = chunks.map (reversed ·.bytes) ∧
      Path loop (stateOf m (messageLoop buf (chunks ++ more)) serverRound before)
        (stateOf m' (messageLoop buf' more) serverRound (before ++ log)) := by
  induction chunks generalizing m buf before with
  | nil =>
    refine ⟨buf, m, [], hidle, rfl, ?_⟩
    rw [List.append_nil]
    exact .refl _
  | cons chunk chunks ih =>
    obtain ⟨hchunk, hchunks⟩ := List.forall_mem_cons.mp hplain
    obtain ⟨buf₁, m₁, log₁, rest, hidle₁, hsent₁, hpath₁⟩ :=
      path_chunk hchunk.zero_notMem hchunk.lt_bufSize (format_of_notMem hchunk.percent_notMem)
        hidle buf (chunks ++ more) before
    obtain ⟨buf₂, m₂, log₂, hidle₂, hsent₂, hpath₂⟩ := ih hchunks hidle₁ buf₁ (before ++ log₁)
    refine ⟨buf₂, m₂, log₁ ++ log₂, hidle₂, ?_, ?_⟩
    · have hlen := length_reversed chunk.bytes
      rw [sent_append, hsent₁, hsent₂, List.take_left' hlen]
      rfl
    · rw [← List.append_assoc]
      exact hpath₁.trans hpath₂

/-- At the end of the connection nobody can go on. -/
theorem parked_end (hidle : Idle m) (buf : Buf) (log : Log) (p : Party) :
    State.Parked (stateOf m (messageLoop buf []) serverRound log) p := by
  cases p with
  | client => rfl
  | server => exact serverRound_next hidle.ev

/-- **Plain chunks** are answered in every run. -/
theorem run_of_plain (hplain : ∀ c ∈ chunks, c.Plain) (hidle : Idle mem) (buf : Buf)
    {ts : List (Transition System Party)} {st : System}
    (hrun : machine.Run (start buf mem chunks) ts st) :
    (∀ p, st.rest p ≠ .fault) ∧ sent st.log <+: chunks.map (reversed ·.bytes) ∧
      ∃ ts' st', machine.Run st ts' st' ∧ sent st'.log = chunks.map (reversed ·.bytes) := by
  obtain ⟨buf', m', log, hidle', hsent, hpath⟩ := path_messageLoop hplain hidle buf [] []
  rw [List.append_nil, List.nil_append] at hpath
  have hrest := hpath.of_run (parked_end hidle' buf' log) hrun
  refine ⟨fun p hfault => ?_, ?_, ?_⟩
  · have hend := hrest.rest_eq_fault hfault
    cases p with
    | client => cases hend
    | server => cases hend
  · rw [← hsent]
    exact hrest.log_prefix.filterMap _
  · obtain ⟨ts', hrun'⟩ := hrest.exists_run
    exact ⟨ts', _, hrun', hsent⟩

/-! ### Undefined behaviour -/

/-- The first chunk that is not plain, and the state in which it is received. -/
theorem exists_first_not_plain (h : ¬ ∀ c ∈ chunks, c.Plain) (hidle : Idle mem) (buf : Buf) :
    ∃ before c after, chunks = before ++ c :: after ∧ ¬ c.Plain ∧
      ∃ buf' m' log, Idle m' ∧ sent log = before.map (reversed ·.bytes) ∧
        Path loop (start buf mem chunks)
          (stateOf m' (messageLoop buf' (c :: after)) serverRound log) := by
  classical
  cases hfind : chunks.find? (¬ ·.Plain) with
  | none =>
    rw [List.find?_eq_none] at hfind
    refine absurd (fun c hc => ?_) h
    simpa using hfind c hc
  | some c =>
    obtain ⟨hc, before, after, rfl, hbefore⟩ := List.find?_eq_some_iff_append.mp hfind
    refine ⟨before, c, after, rfl, of_decide_eq_true hc, ?_⟩
    have hplain : ∀ b ∈ before, b.Plain := fun b hb => by simpa using hbefore b hb
    exact path_messageLoop hplain hidle buf (c :: after) []

/-- A chunk that cannot be prepared. -/
theorem messageLoop_of_none {buf : Buf} (h : prepare buf chunk.bytes = none) :
    messageLoop buf (chunk :: chunks) = .fault := by
  rw [messageLoop, h]

theorem start_of_none {buf : Buf} (h : prepare buf chunk.bytes = none) :
    (start buf mem (chunk :: chunks)).rest .client = .fault :=
  messageLoop_of_none h

/-- **The bounds**: the stores of every run are inside of the buffers exactly if there is no chunk
that fills `buf`, as `buf[read] = 0` is behind `buf` then. -/
theorem inBounds_iff (buf : Buf) (hidle : Idle mem) (hzero : ∀ c ∈ chunks, 0 ∉ c.bytes)
    (hpercent : ∀ c ∈ chunks, percent ∉ c.bytes) :
    (∀ ts st, machine.Run (start buf mem chunks) ts st → ∀ p, st.rest p ≠ .fault) ↔
      ∀ c ∈ chunks, c.bytes.length < bufSize := by
  constructor
  · intro hdefined
    by_contra hlt
    have hplain : ¬ ∀ c ∈ chunks, c.Plain := fun h => hlt fun c hc => (h c hc).lt_bufSize
    obtain ⟨before, c, after, rfl, hc, buf', m', log, -, -, hpath⟩ :=
      exists_first_not_plain hplain hidle buf
    have hmem : c ∈ before ++ c :: after := List.mem_append_right _ (List.mem_cons_self ..)
    have hfull : c.bytes.length = bufSize := by
      refine Nat.le_antisymm c.length_le ?_
      by_contra hlt
      exact hc ⟨hzero c hmem, hpercent c hmem, by omega⟩
    obtain ⟨ts, hrun⟩ := hpath.exists_run
    exact hdefined ts _ hrun .client (messageLoop_of_none (prepare_of_full buf' hfull))
  · intro hlt ts st hrun
    exact (run_of_plain (fun c hc => ⟨hzero c hc, hpercent c hc, hlt c hc⟩) hidle buf hrun).1

/-- `"ab"`. -/
def ab : Chunk := ⟨[97, 98], by decide, by decide⟩

theorem inBounds_ab :
    (∀ ts st, machine.Run (start (Vector.replicate bufSize 0) (fun _ => 0) [ab]) ts st →
        ∀ p, st.rest p ≠ .fault) ↔
      ∀ c ∈ [ab], c.bytes.length < bufSize :=
  inBounds_iff _ ⟨rfl, rfl⟩ (by decide) (by decide)

/-- A `recv` that fills `buf`. -/
def full : Chunk where
  bytes := List.replicate bufSize 97
  ne_nil := by
    rw [Ne, List.replicate_eq_nil_iff]
    decide
  length_le := by
    rw [List.length_replicate]

theorem not_inBounds_full :
    ¬ ∀ ts st, machine.Run (start (Vector.replicate bufSize 0) (fun _ => 0) [full]) ts st →
      ∀ p, st.rest p ≠ .fault := by
  intro h
  have hprepare : prepare (Vector.replicate bufSize 0) full.bytes = none :=
    prepare_of_full _ List.length_replicate
  exact h [] _ .nil .client (start_of_none hprepare)

/-! ### Conversions -/

/-- At any time the replies so far are chunks in reverse, and the others can be sent. -/
def RepliesReversed (buf : Buf) (mem : Cell → UInt8) (chunks : List Chunk) : Prop :=
  ∀ ts st, machine.Run (start buf mem chunks) ts st →
    (∀ p, st.rest p ≠ .fault) ∧ sent st.log <+: chunks.map (·.bytes.reverse) ∧
      ∃ ts' st', machine.Run st ts' st' ∧ sent st'.log = chunks.map (·.bytes.reverse)

theorem map_reversed (h : ∀ c ∈ chunks, c.bytes.length ≤ maxLen) :
    chunks.map (reversed ·.bytes) = chunks.map (·.bytes.reverse) :=
  List.map_congr_left fun c hc => reversed_of_le (h c hc)

/-- The reply to a chunk with a `%%` has a NUL where the formatted string is at its end. -/
theorem zero_mem_reply (rest : List UInt8) (hformat : format chunk.bytes = some s)
    (hpercent : percent ∈ chunk.bytes) :
    0 ∈ (reversed s ++ 0 :: rest).take chunk.bytes.length := by
  have hlt := (length_format hformat).2 hpercent
  rw [← length_reversed s] at hlt
  obtain ⟨n, hn⟩ := Nat.exists_eq_add_of_lt hlt
  rw [hn, Nat.add_assoc, List.take_length_add_append, List.take_succ_cons]
  exact List.mem_append_right _ (List.mem_cons_self ..)

/-- **A conversion** has no argument, or the reply has a NUL. -/
theorem prepare_or_path_percent (hzero : 0 ∉ chunk.bytes) (hlt : chunk.bytes.length < bufSize)
    (hpercent : percent ∈ chunk.bytes) (hidle : Idle m) (buf : Buf) (chunks : List Chunk)
    (before : Log) :
    prepare buf chunk.bytes = none ∨ ∃ st reply, 0 ∈ reply ∧
      sent st.log = sent before ++ [reply] ∧
      Path loop (stateOf m (messageLoop buf (chunk :: chunks)) serverRound before) st := by
  cases hformat : format chunk.bytes with
  | none =>
    obtain ⟨buf', hprepare⟩ := prepare_of_lt buf hlt hzero
    rw [hformat, Option.map_none] at hprepare
    exact Or.inl hprepare
  | some s =>
    obtain ⟨buf', m', log, rest, -, hsent, hpath⟩ :=
      path_chunk hzero hlt hformat hidle buf chunks before
    refine Or.inr ⟨_, _, zero_mem_reply rest hformat hpercent, ?_, hpath⟩
    rw [sent_append, hsent]

/-- **The replies** are the reversed chunks exactly if no chunk has a `%`. -/
theorem repliesReversed_iff (buf : Buf) (hidle : Idle mem)
    (hle : ∀ c ∈ chunks, c.bytes.length ≤ maxLen) (hzero : ∀ c ∈ chunks, 0 ∉ c.bytes) :
    RepliesReversed buf mem chunks ↔ ∀ c ∈ chunks, percent ∉ c.bytes := by
  have hbound : maxLen < bufSize := by decide
  constructor
  · intro hreplies
    by_contra hpercent
    have hplain : ¬ ∀ c ∈ chunks, c.Plain := fun h => hpercent fun c hc => (h c hc).percent_notMem
    obtain ⟨before, c, after, rfl, hc, buf', m', log, hidle', hsent, hpath⟩ :=
      exists_first_not_plain hplain hidle buf
    have hmem : c ∈ before ++ c :: after := List.mem_append_right _ (List.mem_cons_self ..)
    have hlt : c.bytes.length < bufSize := (hle c hmem).trans_lt hbound
    have hcpercent : percent ∈ c.bytes := by
      by_contra hnot
      exact hc ⟨hzero c hmem, hnot, hlt⟩
    rcases prepare_or_path_percent (hzero c hmem) hlt hcpercent hidle' buf' after log with
      hprepare | ⟨st, reply, hreply, hsent', hpath'⟩
    · obtain ⟨ts, hrun⟩ := hpath.exists_run
      exact (hreplies ts _ hrun).1 .client (messageLoop_of_none hprepare)
    · obtain ⟨ts, hrun⟩ := (hpath.trans hpath').exists_run
      have hbefore : ∀ b ∈ before, b.bytes.length ≤ maxLen :=
        fun b hb => hle b (List.mem_append_left _ hb)
      -- the reply should be `c` in reverse, which has no NUL
      have hreplies' := (hreplies ts _ hrun).2.1
      rw [hsent', hsent, map_reversed hbefore, List.map_append, List.prefix_append_right_inj,
        List.map_cons, List.cons_prefix_cons] at hreplies'
      rw [hreplies'.1, List.mem_reverse] at hreply
      exact hzero c hmem hreply
  · intro hpercent ts st hrun
    have hplain : ∀ c ∈ chunks, c.Plain :=
      fun c hc => ⟨hzero c hc, hpercent c hc, (hle c hc).trans_lt hbound⟩
    rw [← map_reversed hle]
    exact run_of_plain hplain hidle buf hrun

theorem repliesReversed_ab :
    RepliesReversed (Vector.replicate bufSize 0) (fun _ => 0) [ab] ↔
      ∀ c ∈ [ab], percent ∉ c.bytes :=
  repliesReversed_iff _ ⟨rfl, rfl⟩ (by decide) (by decide)

/-- `"%%"`. -/
def percents : Chunk := ⟨[percent, percent], by decide, by decide⟩

/-- The reply to `"%%"` is `"%"` and a NUL. -/
theorem not_repliesReversed_percents :
    ¬ RepliesReversed (Vector.replicate bufSize 0) (fun _ => 0) [percents] := by
  intro hreplies
  have hformat : format percents.bytes = some [percent] := by decide
  obtain ⟨buf', m', log, rest, -, hsent, hpath⟩ :=
    path_chunk (m := fun _ => 0) (show 0 ∉ percents.bytes by decide) (by decide) hformat
      ⟨rfl, rfl⟩ (Vector.replicate bufSize 0) [] []
  obtain ⟨ts, hrun⟩ := hpath.exists_run
  have hreplies' := (hreplies ts _ hrun).2.1
  rw [List.nil_append, hsent] at hreplies'
  have hreply := (List.cons_prefix_cons.mp hreplies').1
  cases hreply

end Camkes.ReverseString.TcpServer
