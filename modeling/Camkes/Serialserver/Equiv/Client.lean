import Camkes.Serialserver.Client

/-!
# When the getchar clients read what was stored

A client that finds the buffer empty waits once and then reads, without looking at the buffer again.
The notification may still be set for a character that it has read before, without waiting, so the
wait may return while the buffer is empty.  `readsExactly_iff` says that this is the only thing that
can go wrong: in a run, all states reached are right exactly when every wait that returns finds a
character.
-/

namespace Camkes.Serialserver

open CArray Machine

variable {s s' : System} {kind : Kind} {e : Event}

/-! ### What is unread -/

theorem unread_append (clientAt : ClientAt) (contents more : List UInt8) :
    clientAt.unread contents more = clientAt.unread contents [] ++ more := by
  unfold ClientAt.unread
  rw [List.append_nil]

/-- A character that moves into the buffer stays unread. -/
theorem unread_push {clientAt : ClientAt} {contents : List UInt8}
    (h : clientAt = .advancing → contents ≠ []) (c : UInt8) :
    clientAt.unread (contents ++ [c]) [] = clientAt.unread contents [c] := by
  unfold ClientAt.unread
  split_ifs with hadv
  · rw [List.tail_append_of_ne_nil (h hadv), List.append_nil]
  · rw [List.append_nil]

theorem unread_of_ne {clientAt : ClientAt} (h : clientAt ≠ .advancing)
    (contents inFlight : List UInt8) :
    clientAt.unread contents inFlight = contents ++ inFlight := by
  unfold ClientAt.unread
  rw [if_neg h]

/-- There is a character in the buffer exactly if its indices differ. -/
theorem contents_ne_nil_iff {s : System} (hh : s.head < getcharBuf) (ht : s.tail < getcharBuf) :
    s.contents ≠ [] ↔ s.head ≠ s.tail := by
  unfold System.contents
  rw [ne_eq, Ring.contents_eq_nil_iff s.buf ht hh]
  exact not_congr eq_comm

/-! ### The invariant -/

/-- The indices are in the buffer, the client reads exactly what has been stored, and a character
that is being stored has room. -/
structure Inv (s : System) : Prop where
  head_lt : s.head < getcharBuf
  tail_lt : s.tail < getcharBuf
  reads : s.ReadsExactly
  -- a character stored behind `tail` will not fill the buffer
  room : ∀ c, s.serverAt = .stored c →
    (s.tail + 1) % getcharBuf ≠ s.head ∧ s.buf[s.tail]? = some c

theorem inv_init : Inv .init where
  head_lt := by decide
  tail_lt := by decide
  reads := by
    refine ⟨?_, ?_⟩
    · show ClientAt.test.unread (Ring.contents _ 0 0) [] = []
      rw [Ring.contents_self]
      rfl
    · rintro (h | h)
      · cases h
      · cases h
  room c h := by cases h

/-! ### Steps of the server -/

/-- Storing a character adds it to what is unread. -/
theorem Inv.store (h : Inv s) {c : UInt8} (hidle : s.serverAt = .idle)
    (hroom : (s.tail + 1) % getcharBuf ≠ s.head) (hstep : s.step (.store c) = some s') :
    Inv s' := by
  have hstore : CArray.store s.buf s.tail c = some (s.buf.set s.tail c h.tail_lt) :=
    store_of_lt s.buf h.tail_lt c
  simp only [System.step, hstore, Option.bind_eq_bind, Option.bind_some, Option.some.injEq] at hstep
  subst hstep
  obtain ⟨hchars, hne⟩ := h.reads
  refine ⟨h.head_lt, h.tail_lt, ⟨?_, hne⟩, ?_⟩
  · show s.chars ++ s.clientAt.unread (Ring.contents (s.buf.set s.tail c h.tail_lt) s.tail s.head)
      [c] = s.stored ++ [c]
    rw [Ring.contents_set h.tail_lt c (Ring.not_occupied_head h.tail_lt h.head_lt),
      unread_append, ← List.append_assoc, ← hchars, System.unread, hidle]
    rfl
  · intro d hd
    obtain rfl := ServerAt.stored.inj hd
    refine ⟨hroom, ?_⟩
    show (s.buf.set s.tail c h.tail_lt)[s.tail]? = some c
    rw [Vector.getElem?_eq_getElem h.tail_lt, Vector.getElem_set_self]

/-- Advancing `tail` leaves what is unread. -/
theorem Inv.advance (h : Inv s) {c : UInt8} (hstored : s.serverAt = .stored c) :
    Inv { s with tail := (s.tail + 1) % getcharBuf, serverAt := .advanced } := by
  obtain ⟨hroom, hget⟩ := h.room c hstored
  obtain ⟨hchars, hne⟩ := h.reads
  have hcontents : Ring.contents s.buf ((s.tail + 1) % getcharBuf) s.head = s.contents ++ [c] := by
    rw [Vector.getElem?_eq_getElem h.tail_lt] at hget
    rw [Ring.contents_succ_head s.buf h.tail_lt h.head_lt hroom, Option.some.inj hget]
    rfl
  refine ⟨h.head_lt, Ring.succ_lt h.tail_lt, ⟨?_, fun _ => Ne.symm hroom⟩, fun d hd => by cases hd⟩
  show s.chars ++ s.clientAt.unread (Ring.contents s.buf ((s.tail + 1) % getcharBuf) s.head) [] =
    s.stored
  -- while the client is about to advance `head`, the first character is an older one
  have hnonempty : s.clientAt = .advancing → s.contents ≠ [] := fun hadv =>
    (contents_ne_nil_iff h.head_lt h.tail_lt).mpr (hne (Or.inr hadv))
  rw [hcontents, unread_push hnonempty, ← hchars, System.unread, hstored]
  rfl

theorem Inv.signal (h : Inv s) (hadvanced : s.serverAt = .advanced) :
    Inv { s with notification := true, serverAt := .idle } := by
  obtain ⟨hchars, hne⟩ := h.reads
  refine ⟨h.head_lt, h.tail_lt, ⟨?_, hne⟩, fun d hd => by cases hd⟩
  rw [← hchars, System.unread, System.unread, hadvanced]
  rfl

/-! ### Steps of the client -/

/-- What advancing `head` changes. -/
theorem advanceHead_eq (h : s.advanceHead = some s') : ∃ line i printed,
    s' = { s with head := (s.head + 1) % getcharBuf, clientAt := .test, line, i, printed } := by
  unfold System.advanceHead System.endLine at h
  obtain ⟨c, -, h⟩ := Option.bind_eq_some_iff.mp h
  split_ifs at h
  · exact ⟨_, _, _, (Option.some.inj h).symm⟩
  · obtain ⟨line, -, h⟩ := Option.bind_eq_some_iff.mp h
    exact ⟨_, _, _, (Option.some.inj h).symm⟩
  · obtain ⟨line, -, h⟩ := Option.bind_eq_some_iff.mp h
    exact ⟨_, _, _, (Option.some.inj h).symm⟩

theorem Inv.contents_eq (h : Inv s) (hne : s.head ≠ s.tail) : ∃ c, s.buf[s.head]? = some c ∧
    s.contents = c :: Ring.contents s.buf s.tail ((s.head + 1) % getcharBuf) :=
  ⟨_, Vector.getElem?_eq_getElem h.head_lt,
    Ring.contents_pop s.buf h.tail_lt h.head_lt (Ne.symm hne)⟩

/-- The character that is read is the next one. -/
theorem Inv.read (h : Inv s) (hat : s.clientAt = .reading) (hstep : s.stepClient = some s') :
    Inv s' := by
  unfold System.stepClient at hstep
  rw [hat] at hstep
  obtain ⟨c, hc, hstep⟩ := Option.bind_eq_some_iff.mp hstep
  obtain ⟨line, -, hstep⟩ := Option.bind_eq_some_iff.mp hstep
  obtain rfl := Option.some.inj hstep
  obtain ⟨hchars, hne⟩ := h.reads
  have hempty := hne (Or.inl hat)
  obtain ⟨d, hd, hcontents⟩ := h.contents_eq hempty
  obtain rfl := Option.some.inj (hc.symm.trans hd)
  refine ⟨h.head_lt, h.tail_lt, ⟨?_, fun _ => hempty⟩, h.room⟩
  show s.chars ++ [c] ++ (s.contents.tail ++ s.serverAt.inFlight) = s.stored
  rw [← hchars, System.unread, hat, unread_of_ne (by decide), hcontents, List.append_assoc]
  rfl

/-- Advancing `head` takes the character that has been read. -/
theorem Inv.advanceHead (h : Inv s) (hat : s.clientAt = .advancing)
    (hstep : s.stepClient = some s') : Inv s' := by
  unfold System.stepClient at hstep
  rw [hat] at hstep
  obtain ⟨line, i, printed, rfl⟩ := advanceHead_eq hstep
  obtain ⟨hchars, hne⟩ := h.reads
  have hempty := hne (Or.inr hat)
  obtain ⟨c, -, hcontents⟩ := h.contents_eq hempty
  refine ⟨Ring.succ_lt h.head_lt, h.tail_lt, ⟨?_, ?_⟩, ?_⟩
  · show s.chars ++ (Ring.contents s.buf s.tail ((s.head + 1) % getcharBuf) ++
      s.serverAt.inFlight) = s.stored
    rw [← hchars, System.unread, hat, hcontents]
    rfl
  · rintro (hread | hadv)
    · cases hread
    · cases hadv
  · intro c hstored
    obtain ⟨hroom, hget⟩ := h.room c hstored
    refine ⟨?_, hget⟩
    have hcount := Ring.count_succ_tail h.tail_lt h.head_lt (Ne.symm hempty)
    have hlt := Ring.count_lt h.tail_lt s.head
    rw [ne_eq, Ring.succ_eq_tail_iff h.tail_lt (Ring.succ_lt h.head_lt)]
    omega

/-- The client moves on without touching what it shares with the server. -/
theorem Inv.move (h : Inv s) {clientAt : ClientAt} {notification : Bool}
    (hat : s.clientAt ≠ .advancing) (hat' : clientAt ≠ .advancing)
    (hne : clientAt = .reading → s.head ≠ s.tail) :
    Inv { s with clientAt, notification } := by
  obtain ⟨hchars, -⟩ := h.reads
  refine ⟨h.head_lt, h.tail_lt, ⟨?_, ?_⟩, h.room⟩
  · show s.chars ++ clientAt.unread s.contents s.serverAt.inFlight = s.stored
    rw [← hchars, System.unread, unread_of_ne hat, unread_of_ne hat']
  · rintro (hread | hadv)
    · exact hne hread
    · exact absurd hadv hat'

/-- A step of a client that waits for a character keeps the invariant. -/
theorem Inv.client (h : Inv s) (hwait : waitsForCharacter s .client)
    (hstep : s.stepClient = some s') : Inv s' := by
  cases hat : s.clientAt with
  | test =>
    unfold System.stepClient at hstep
    rw [hat] at hstep
    obtain rfl := Option.some.inj hstep
    apply h.move (by rw [hat]; decide)
    · split_ifs <;> decide
    · split_ifs with hempty
      · exact fun hread => by cases hread
      · exact fun _ => hempty
  | waiting =>
    unfold System.stepClient at hstep
    rw [hat] at hstep
    simp only at hstep
    split_ifs at hstep with hset
    · obtain rfl := Option.some.inj hstep
      exact h.move (by rw [hat]; decide) (by decide) fun _ => hwait rfl hat hset
    · obtain rfl := Option.some.inj hstep
      exact h
  | reading => exact h.read hat hstep
  | advancing => exact h.advanceHead hat hstep

/-! ### Runs -/

/-- Every step that waits for a character keeps the invariant. -/
theorem Inv.of_step (h : Inv s) (hok : (machine kind).ok s e)
    (hstep : (machine kind).step s e = some s') (hwait : waitsForCharacter s e) : Inv s' := by
  cases e with
  | store c => exact h.store hok.1 hok.2 hstep
  | advance =>
    obtain ⟨c, hc⟩ := hok
    obtain rfl := Option.some.inj hstep
    exact h.advance hc
  | signal =>
    obtain rfl := Option.some.inj hstep
    exact h.signal hok
  | client => exact h.client hwait hstep

/-- A wait that returns with the buffer empty lets the client read an empty buffer. -/
theorem waitsForCharacter_of_readsExactly (hstep : (machine kind).step s e = some s')
    (h : s'.ReadsExactly) : waitsForCharacter s e := by
  rintro rfl hat hset
  have hclient : s.stepClient = some s' := hstep
  unfold System.stepClient at hclient
  rw [hat] at hclient
  simp only [hset, if_true, Option.some.injEq] at hclient
  subst hclient
  exact h.2 (Or.inl rfl)

/-- **Getchar clients**: in a run of either client, the characters read are those stored, in order,
each once, and the client is never about to read or to skip a slot of an empty buffer, exactly when
every wait that returns finds the buffer not empty. -/
theorem readsExactly_iff (kind : Kind) {ts : List (Transition System Event)} {s : System}
    (hrun : (machine kind).Run .init ts s) :
    (∀ t ∈ ts, t.after.ReadsExactly) ↔ ∀ t ∈ ts, waitsForCharacter t.before t.event := by
  apply hrun.forall_after_iff inv_init
  · intro s e s' h hok hstep hwait
    have h' := h.of_step hok hstep hwait
    exact ⟨h', h'.reads⟩
  · intro s e s' _ _ hstep hreads
    exact waitsForCharacter_of_readsExactly hstep hreads

/-- The client waits, is signalled a character and reads it. -/
theorem readsExactly_signalled : ∃ ts s, (machine .polling).Run .init ts s ∧
    events ts = [.client, .client, .store 65, .advance, .signal, .client, .client, .client] ∧
    s.chars = [65] ∧ ∀ t ∈ ts, t.after.ReadsExactly := by
  obtain ⟨ts, s, hrun, hevents, hp⟩ := exists_run_of_exec (machine .polling) .init
    [.client, .client, .store 65, .advance, .signal, .client, .client, .client]
    (fun r => r.2.chars = [65] && r.1.all fun t => waitsForCharacter t.before t.event)
    (by decide +kernel)
  rw [Bool.and_eq_true] at hp
  refine ⟨ts, s, hrun, hevents, of_decide_eq_true hp.1, ?_⟩
  apply (readsExactly_iff .polling hrun).mpr
  exact fun t ht => of_decide_eq_true (List.all_eq_true.mp hp.2 t ht)

/-- The client reads a character before the server signals it, and takes the signal for another
one. -/
def leftoverSignal : List Event :=
  [.store 65, .advance, .client, .client, .client, .client, .signal, .client, .client]

theorem exists_run_leftoverSignal (kind : Kind) : ∃ ts s, (machine kind).Run .init ts s ∧
    events ts = leftoverSignal ∧ s.stored = [65] ∧ s.chars = [65, 0] := by
  obtain ⟨ts, s, hrun, hevents, hp⟩ := exists_run_of_exec (machine kind) .init leftoverSignal
    (fun r => r.2.stored = [65] ∧ r.2.chars = [65, 0]) (by cases kind <;> decide +kernel)
  exact ⟨ts, s, hrun, hevents, of_decide_eq_true hp⟩

/-- One character has been stored, and either client has read two. -/
theorem not_readsExactly_leftoverSignal :
    (∃ ts s, (machine .polling).Run .init ts s ∧ events ts = leftoverSignal ∧
      s.stored = [65] ∧ s.chars = [65, 0]) ∧
    ∃ ts s, (machine .interrupt).Run .init ts s ∧ events ts = leftoverSignal ∧
      s.stored = [65] ∧ s.chars = [65, 0] :=
  ⟨exists_run_leftoverSignal .polling, exists_run_leftoverSignal .interrupt⟩

end Camkes.Serialserver
