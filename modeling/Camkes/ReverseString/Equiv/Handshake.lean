import Camkes.Data.History
import Camkes.ReverseString.Equiv.Phases

/-!
# The handshake in every interleaving

`handshake_spec`: the server touches the string only when the client has written all of it, the
client does so only before it sets the flag or when the server has made its last swap, and when both
have returned the string is reversed.
-/

namespace Camkes.ReverseString

open Threads

variable {s : List UInt8} {mem : Cell → UInt8}

/-! ### The order of the accesses -/

abbrev Log := List (Party × Access Cell UInt8 (List UInt8))

/-- An access to a byte other than the flag. -/
def touchesString : Access Cell UInt8 (List UInt8) → Bool
  | .read i _ => i ≠ flag
  | .write i _ => i ≠ flag
  | _ => false

/-- A write to a byte other than the flag. -/
def isStringWrite : Access Cell UInt8 (List UInt8) → Bool
  | .write i _ => i ≠ flag
  | _ => false

/-- The writes of a party to the string. -/
def stringWrites (p : Party) (log : Log) : List (Access Cell UInt8 (List UInt8)) :=
  (log.filter fun e => e.1 = p ∧ isStringWrite e.2).map Prod.snd

/-- The access `e` comes at the right time: the server touches the string only when the client has
written all of it, and the client touches it only before it sets the flag, or when the server has
made its last swap. -/
structure InOrder (s : List UInt8) (before : Log) (e : Party × Access Cell UInt8 (List UInt8)) :
    Prop where
  server : e.1 = .server → touchesString e.2 → stringWrites .client before = copied s
  server_writes : e.1 = .server → isStringWrite e.2 →
    (stringWrites .server before).length < 2 * (s.length / 2)
  client : e.1 = .client → touchesString e.2 → (.client, .write flag 1) ∉ before ∨
    (stringWrites .server before).length = 2 * (s.length / 2)
  client_writes : e.1 = .client → isStringWrite e.2 →
    stringWrites .client (before ++ [e]) <+: copied s

theorem stringWrites_append (p : Party) (log log' : Log) :
    stringWrites p (log ++ log') = stringWrites p log ++ stringWrites p log' := by
  simp [stringWrites]

theorem stringWrites_mono (p : Party) {log log' : Log} (h : log <+: log') :
    stringWrites p log <+: stringWrites p log' := by
  obtain ⟨more, rfl⟩ := h
  rw [stringWrites_append]
  exact List.prefix_append ..

theorem stringWrites_map (p : Party) (log : List (Access Cell UInt8 (List UInt8))) :
    stringWrites p (log.map (p, ·)) = (effects log).filter isStringWrite := by
  have heffect : ∀ a : Access Cell UInt8 (List UInt8),
      isStringWrite a = (isStringWrite a && a.isEffect) := by
    intro a
    cases a with
    | write i v => exact (Bool.and_true _).symm
    | _ => rfl
  rw [effects, List.filter_filter, ← funext heffect]
  simp [stringWrites, List.filter_map, Function.comp_def]

theorem stringWrites_map_of_ne {p q : Party} (h : q ≠ p)
    (log : List (Access Cell UInt8 (List UInt8))) : stringWrites p (log.map (q, ·)) = [] := by
  simp [stringWrites, List.filter_map, Function.comp_def, h]

theorem stringWrites_flag (p q : Party) (v : UInt8) :
    stringWrites p [(q, .write flag v)] = [] := by
  simp [stringWrites, isStringWrite]

theorem filter_isStringWrite {cells : List Cell} {effs : List (Access Cell UInt8 (List UInt8))}
    (h : WritesTo cells effs) (hflag : flag ∉ cells) : effs.filter isStringWrite = effs := by
  refine List.filter_eq_self.mpr fun a ha => ?_
  obtain ⟨i, hi, v, rfl⟩ := h a ha
  simpa [isStringWrite] using ne_of_mem_of_not_mem hi hflag

theorem eq_of_prefix {α : Type} {l l' : List α} (h : l <+: l') (h' : l' <+: l) : l = l' :=
  h.eq_of_length (Nat.le_antisymm h.length_le h'.length_le)

section Whole

variable {sent served received effs : List (Access Cell UInt8 (List UInt8))}

/-- The accesses of the client until it sets the flag. -/
def sentLog (sent : List (Access Cell UInt8 (List UInt8))) : Log :=
  sent.map (.client, ·) ++ [(.client, .write flag 1)]

/-- The accesses of the server. -/
def servedLog (served : List (Access Cell UInt8 (List UInt8))) : Log :=
  served.map (.server, ·) ++ [(.server, .write flag 0)]

/-- The client writes the string once, as it is copied. -/
theorem stringWrites_sentLog (hlen : s.length < maxLen)
    (hsent : effects sent = copied s ++ [.output s]) :
    stringWrites .client (sentLog sent) = copied s := by
  have hroom : s.length + 1 ≤ endIdx := Nat.add_le_of_le_sub (by decide) hlen.le
  have hout : [.output s].filter isStringWrite = [] := rfl
  rw [sentLog, stringWrites_append, stringWrites_flag, List.append_nil, stringWrites_map, hsent,
    List.filter_append, filter_isStringWrite (writesTo_copied s) (flag_notMem_take hroom), hout,
    List.append_nil]

/-- The server writes what it swaps. -/
theorem stringWrites_servedLog (hlen : s.length < maxLen)
    (hserved : effects served = .pass flag none :: .output s :: effs)
    (hwrites : WritesTo (buffer.take s.length) effs) :
    stringWrites .server (servedLog served) = effs := by
  have hroom : s.length ≤ endIdx := hlen.le.trans (Nat.sub_le endIdx 1)
  have hfilter := filter_isStringWrite hwrites (flag_notMem_take hroom)
  rw [servedLog, stringWrites_append, stringWrites_flag, List.append_nil, stringWrites_map, hserved]
  exact hfilter

theorem fst_of_mem_sentLog {e : Party × Access Cell UInt8 (List UInt8)} (h : e ∈ sentLog sent) :
    e.1 = .client := by
  simp only [sentLog, List.mem_append, List.mem_map, List.mem_singleton] at h
  rcases h with ⟨a, -, rfl⟩ | rfl
  · rfl
  · rfl

theorem fst_of_mem_servedLog {e : Party × Access Cell UInt8 (List UInt8)}
    (h : e ∈ servedLog served) : e.1 = .server := by
  simp only [servedLog, List.mem_append, List.mem_map, List.mem_singleton] at h
  rcases h with ⟨a, -, rfl⟩ | rfl
  · rfl
  · rfl

/-- The client sets the flag only at the end of what it sends. -/
theorem flag_notMem_sent (hlen : s.length < maxLen)
    (hsent : effects sent = copied s ++ [.output s]) :
    (Party.client, Access.write flag 1) ∉ sent.map (Party.client, ·) := by
  have hroom : s.length + 1 ≤ endIdx := Nat.add_le_of_le_sub (by decide) hlen.le
  intro h
  obtain ⟨a, ha, heq⟩ := List.mem_map.mp h
  obtain rfl : a = .write flag 1 := (Prod.mk.inj heq).2
  have heff := mem_effects_of_written ha rfl
  rw [hsent] at heff
  rcases List.mem_append.mp heff with hmem | hmem
  · exact (writesTo_copied s).written_ne (flag_notMem_take hroom) hmem rfl
  · cases List.mem_singleton.mp hmem

/-- On the whole way the client writes what it copies. -/
theorem stringWrites_client_whole (hlen : s.length < maxLen)
    (hsent : effects sent = copied s ++ [.output s])
    (hreceived : effects received = [.pass flag none, .output s.reverse]) :
    stringWrites .client (sentLog sent ++ (servedLog served ++ received.map (.client, ·))) =
      copied s := by
  rw [stringWrites_append, stringWrites_append, stringWrites_sentLog hlen hsent, servedLog,
    stringWrites_append, stringWrites_map_of_ne (by decide), stringWrites_flag, stringWrites_map,
    hreceived]
  exact List.append_nil _

/-- On the whole way the server writes what its loop does. -/
theorem stringWrites_server_whole (hlen : s.length < maxLen)
    (hserved : effects served = .pass flag none :: .output s :: effs)
    (hwrites : WritesTo (buffer.take s.length) effs) :
    stringWrites .server (sentLog sent ++ (servedLog served ++ received.map (.client, ·))) =
      effs := by
  rw [stringWrites_append, stringWrites_append, stringWrites_servedLog hlen hserved hwrites,
    sentLog, stringWrites_append, stringWrites_map_of_ne (by decide), stringWrites_flag,
    stringWrites_map_of_ne (by decide)]
  exact List.append_nil _

/-- On the whole way every access comes at the right time. -/
theorem along_whole (hlen : s.length < maxLen) (hsent : effects sent = copied s ++ [.output s])
    (hserved : effects served = .pass flag none :: .output s :: effs)
    (hreceived : effects received = [.pass flag none, .output s.reverse])
    (hcount : effs.length = 2 * (s.length / 2)) (hwrites : WritesTo (buffer.take s.length) effs) :
    Along (InOrder s) (sentLog sent ++ (servedLog served ++ received.map (.client, ·))) := by
  have hsentWrites := stringWrites_sentLog hlen hsent
  have hservedWrites := stringWrites_servedLog hlen hserved hwrites
  have hclient : stringWrites .client
      (sentLog sent ++ (servedLog served ++ received.map (.client, ·))) = copied s :=
    stringWrites_client_whole hlen hsent hreceived
  have hserver : stringWrites .server
      (sentLog sent ++ (servedLog served ++ received.map (.client, ·))) = effs :=
    stringWrites_server_whole hlen hserved hwrites
  intro before e hprefix
  have hbefore := List.IsPrefix.trans (List.prefix_append before [e]) hprefix
  refine ⟨fun hp _ => ?_, fun hp he => ?_, fun hp _ => ?_, fun _ _ => ?_⟩
  · -- the server is not in what the client has sent
    have hafter : sentLog sent <+: before := by
      refine prefix_of_notMem hprefix fun hmem => ?_
      rw [fst_of_mem_sentLog hmem] at hp
      cases hp
    have hle := stringWrites_mono .client hafter
    have hge := stringWrites_mono .client hbefore
    rw [hsentWrites] at hle
    rw [hclient] at hge
    exact eq_of_prefix hge hle
  · -- this write is one of those of the server
    have hle := (stringWrites_mono .server hprefix).length_le
    rw [hserver, hcount, stringWrites_append, List.length_append] at hle
    have hone : (stringWrites .server [e]).length = 1 := by
      simp [stringWrites, hp, he]
    omega
  · by_cases hset : (Party.client, Access.write flag 1) ∈ before
    · -- what comes after the flag and is not of the server comes after the server
      have hsentBefore : sentLog sent <+: before := by
        rw [sentLog, List.append_assoc] at hbefore
        exact prefix_of_mem hbefore hset (flag_notMem_sent hlen hsent)
      obtain ⟨before, rfl⟩ := hsentBefore
      rw [List.append_assoc, List.prefix_append_right_inj] at hprefix
      have hafter : servedLog served <+: before := by
        refine prefix_of_notMem hprefix fun hmem => ?_
        rw [fst_of_mem_servedLog hmem] at hp
        cases hp
      have hle := (stringWrites_mono .server hafter).length_le
      have hge := (stringWrites_mono .server hbefore).length_le
      rw [hservedWrites, hcount] at hle
      rw [hserver, hcount] at hge
      refine Or.inr (Nat.le_antisymm hge (hle.trans ?_))
      rw [stringWrites_append, List.length_append]
      exact Nat.le_add_left ..
    · exact Or.inl hset
  · have hle := stringWrites_mono .client hprefix
    rwa [hclient] at hle

end Whole

/-! ### Every interleaving -/

/-- **The whole way**: the accesses of the client until it sets the flag, those of the server, and
those of the client after it. -/
theorem exists_path (hs : 0 ∉ s) (hlen : s.length < maxLen) (hflag : mem flag = 0) :
    ∃ sₙ, Path noLoop (start s mem) sₙ ∧ Finished sₙ ∧ Along (InOrder s) sₙ.log ∧
      buffer.map sₙ.mem = s.reverse ++ (written s mem).drop s.length ∧ sₙ.mem flag = 0 := by
  have hend : s.length < endIdx := hlen.trans_le (Nat.sub_le endIdx 1)
  obtain ⟨sent, m₁, hsent, hbuf₁, hflag₁, hpath₁⟩ := path_send hs hlen hflag
  rw [written, set_append_cons hend] at hbuf₁
  obtain ⟨served, effs, m₂, hserved, hcount, hwrites, hbuf₂, hflag₂, hpath₂⟩ :=
    path_serve hs hlen hbuf₁ hflag₁ (sentLog sent)
  rw [set_append_cons (by rwa [List.length_reverse]), List.length_reverse, List.set_set,
    set_drop_flag hlen hflag] at hbuf₂
  obtain ⟨received, hreceived, hpath₃⟩ := path_receive (by rwa [List.mem_reverse]) hbuf₂ hflag₂ _
  refine ⟨_, (hpath₁.trans hpath₂).trans hpath₃, fun p => ?_, ?_, ?_, hflag₂⟩
  · cases p with
    | client => rfl
    | server => rfl
  · have halong := along_whole hlen hsent hserved hreceived hcount hwrites
    rwa [servedLog, ← List.append_assoc, ← List.append_assoc] at halong
  · rw [hbuf₂, written, List.drop_left]

theorem parked_of_finished {st : System} (h : Finished st) (p : Party) : st.Parked p := by
  rw [State.Parked, h p]
  rfl

/-- **The handshake**: in every interleaving the accesses come in the right order, and when both
have returned the string is reversed, the flag is zero, and the rest of the buffer is as the client
has left it. -/
theorem handshake_spec {s : List UInt8} {mem : Cell → UInt8} (hs : 0 ∉ s)
    (hlen : s.length < maxLen) (hflag : mem flag = 0) {ts : List (Transition System Party)}
    {st : System} (hrun : handshake.Run (start s mem) ts st) :
    Along (InOrder s) st.log ∧
      (Finished st →
        buffer.map st.mem = s.reverse ++ (written s mem).drop s.length ∧ st.mem flag = 0) := by
  obtain ⟨sₙ, hpath, hfin, halong, hbuf, hzero⟩ := exists_path hs hlen hflag
  have hrest : Path noLoop st sₙ := hpath.of_run (parked_of_finished hfin) hrun
  refine ⟨fun before e hb => ?_, fun hst => ?_⟩
  · exact halong before e (List.IsPrefix.trans hb hrest.log_prefix)
  · obtain rfl := hrest.eq_of_parked (parked_of_finished hst)
    exact ⟨hbuf, hzero⟩

/-- From every state that is reached both can still return. -/
theorem handshake_finishes {s : List UInt8} {mem : Cell → UInt8} (hs : 0 ∉ s)
    (hlen : s.length < maxLen) (hflag : mem flag = 0) {ts : List (Transition System Party)}
    {st : System} (hrun : handshake.Run (start s mem) ts st) :
    ∃ ts' st', handshake.Run st ts' st' ∧ Finished st' := by
  obtain ⟨sₙ, hpath, hfin, -⟩ := exists_path hs hlen hflag
  obtain ⟨ts', hrun'⟩ := (hpath.of_run (parked_of_finished hfin) hrun).exists_run
  exact ⟨ts', sₙ, hrun', hfin⟩

theorem handshake_spec_ab :
    ∃ ts st, handshake.Run (start [97, 98] fun _ => 0) ts st ∧ Finished st ∧
      Along (InOrder [97, 98]) st.log ∧
      buffer.map st.mem = [98, 97] ++ (written [97, 98] fun _ => 0).drop 2 ∧ st.mem flag = 0 := by
  have hfinish : ∃ ts st, handshake.Run (start [97, 98] fun _ => 0) ts st ∧ Finished st :=
    handshake_finishes (by decide) (by decide) rfl .nil
  obtain ⟨ts, st, hrun, hfin⟩ := hfinish
  obtain ⟨halong, hend⟩ := handshake_spec (by decide) (by decide) rfl hrun
  exact ⟨ts, st, hrun, hfin, halong, hend hfin⟩

/-- The client reads the string only after the last swap. -/
def ReadsAfterSwaps (s : List UInt8) (before : Log)
    (e : Party × Access Cell UInt8 (List UInt8)) : Prop :=
  ∀ i v, e = (.client, .read i v) → i ≠ flag →
    (stringWrites .server before).length = 2 * (s.length / 2)

/-- Before the client sets the flag it prints the string, which reads it. -/
theorem exists_early_read (s : List UInt8) (mem : Cell → UInt8) (hlen : s.length < maxLen)
    (hflag : mem flag = 0) :
    ∃ ts st before i v, handshake.Run (start s mem) ts st ∧
      st.log = before ++ [(.client, .read i v)] ∧ i ≠ flag ∧ stringWrites .server before = [] := by
  obtain ⟨m, hwrite⟩ := rewrites_snprintf hlen mem
  have hstart : client s = resume (noLoop .client) (snprintf buffer maxLen s >>= fun _ =>
      printString buffer >>= fun _ => .write flag 1 receive) := by
    rw [resume_none, client_eq, Prog.bind_assoc]
  obtain ⟨log, -, hpath⟩ := path_client hstart hwrite.executes (server_next hflag)
    (forall_waitsFor rfl (copied_written_ne hlen)) []
  rw [resume_none, List.nil_append] at hpath
  obtain ⟨ts, hrun⟩ := hpath.exists_run
  -- the first access of `printf` is a read of the first byte
  obtain ⟨cells, hbuffer⟩ : ∃ cells, buffer = ⟨0, by decide⟩ :: cells := by
    have hfirst := getElem?_buffer (i := 0) (by decide)
    cases hbuffer : buffer with
    | nil =>
      rw [hbuffer] at hfirst
      cases hfirst
    | cons c cells =>
      rw [hbuffer] at hfirst
      exact ⟨cells, congrArg (· :: cells) (Option.some.inj hfirst)⟩
  obtain ⟨k, hk⟩ : ∃ k,
      (Prog.readString buffer : Prog Cell UInt8 (List UInt8) (List UInt8)).next m =
        some (.read ⟨0, by decide⟩ (m ⟨0, by decide⟩), m, k) := by
    rw [hbuffer]
    exact ⟨_, rfl⟩
  have hread := Prog.next_bind (Prog.next_bind hk fun s => .output s (.done ())) fun _ =>
    .write flag 1 receive
  have hstep : step noLoop (stateOf m (printString buffer >>= fun _ => .write flag 1 receive) server
      (log.map (.client, ·))) .client = _ := step_of_next hread
  refine ⟨_, _, log.map (.client, ·), _, _, .snoc hrun trivial (congrArg some hstep), rfl, ?_, ?_⟩
  · intro heq
    cases congrArg Fin.val heq
  · exact stringWrites_map_of_ne (by decide) log

/-- Before the client sets the flag it reads the string, and there has not been a swap. -/
theorem not_readsAfterSwaps :
    ¬ ∀ ts st, handshake.Run (start [97, 98] fun _ => 0) ts st →
      Along (ReadsAfterSwaps [97, 98]) st.log := by
  intro h
  obtain ⟨ts, st, before, i, v, hrun, hlog, hi, hnone⟩ :=
    exists_early_read [97, 98] (fun _ => 0) (by decide) rfl
  have halong := h ts st hrun
  rw [hlog] at halong
  have hswaps := (along_concat.mp halong).2 i v rfl hi
  rw [hnone] at hswaps
  cases hswaps

end Camkes.ReverseString
