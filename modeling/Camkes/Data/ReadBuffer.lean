import Mathlib.Data.List.Basic
import Mathlib.Tactic.Common

/-!
# Servers that match each read

A `Reader` receives a stream in reads.  A read overwrites the start of a buffer, and the server does
something about it exactly when the buffer is `answered`: when it starts with a command.  What
earlier reads have put behind the new bytes stays in the buffer.

`SplitFree R init stream` says that what the server does about `stream` does not depend on how the
stream is split into reads, whatever has been read before.  When commands have at least two letters
and no second letter is a first letter, this holds only of the streams that cannot make the server
do anything and of those that cannot be split (`splitFree_iff`): any first letter in a longer stream
can be completed by what is left in the buffer when it comes alone, and is not when it is read
together with its neighbour.
-/

namespace Camkes

variable {α σ β : Type*} {answered : List α → Prop}

/-- A server with a buffer of `size` items, and what it does about a read. -/
structure Reader (α σ β : Type*) (answered : List α → Prop) where
  size : ℕ
  buf : σ → List α
  read : σ → List α → σ × List β
  buf_read : ∀ s bytes, bytes.length ≤ size →
    buf (read s bytes).1 = bytes ++ (buf s).drop bytes.length
  read_eq_nil : ∀ s bytes, (read s bytes).2 = [] ↔ ¬ answered (buf (read s bytes).1)

namespace Reader

/-- Some reads in a row. -/
def run (R : Reader α σ β answered) (s : σ) : List (List α) → σ × List β
  | [] => (s, [])
  | bytes :: reads =>
    let r := R.read s bytes
    let rest := run R r.1 reads
    (rest.1, r.2 ++ rest.2)

/-- The reads get something, and not more than the buffer holds. -/
def Fits (R : Reader α σ β answered) (reads : List (List α)) : Prop :=
  ∀ bytes ∈ reads, bytes ≠ [] ∧ bytes.length ≤ R.size

/-- The stream is split into these reads. -/
def Splits (R : Reader α σ β answered) (stream : List α) (reads : List (List α)) : Prop :=
  reads.flatten = stream ∧ R.Fits reads

/-- After any earlier reads, what is done about the stream does not depend on its splitting. -/
def SplitFree (R : Reader α σ β answered) (init : σ) (stream : List α) : Prop :=
  ∀ earlier reads reads', R.Fits earlier → R.Splits stream reads → R.Splits stream reads' →
    (R.run (R.run init earlier).1 reads).2 = (R.run (R.run init earlier).1 reads').2

/-- The letters `first` begin commands; no second letter of a command is among them. -/
structure Commands (answered : List α → Prop) (first : α → Prop) (size : ℕ) : Prop where
  head : ∀ {buf}, answered buf → ∃ b rest, buf = b :: rest ∧ first b
  second : ∀ {c b rest}, answered (c :: b :: rest) → ¬ first b
  -- a command that begins with this letter, and what does with another second letter
  command : ∀ {b}, first b → ∃ e tail, tail.length + 2 ≤ size ∧
    ∀ rest, answered (b :: e :: (tail ++ rest)) ∧
      ∀ c, c ≠ e → ¬ answered (b :: c :: (tail ++ rest))

variable {R : Reader α σ β answered} {init s : σ} {stream : List α}

theorem run_cons (bytes : List α) (reads : List (List α)) :
    (R.run s (bytes :: reads)).2 = (R.read s bytes).2 ++ (R.run (R.read s bytes).1 reads).2 := rfl

theorem run_append (reads more : List (List α)) :
    (R.run s (reads ++ more)).2 = (R.run s reads).2 ++ (R.run (R.run s reads).1 more).2 := by
  induction reads generalizing s with
  | nil => rfl
  | cons bytes reads ih => rw [List.cons_append, run_cons, ih, run_cons, List.append_assoc]; rfl

/-! ### Reads of one item -/

/-- The stream read item by item. -/
def singles (xs : List α) : List (List α) := xs.map fun x => [x]

theorem flatten_singles (xs : List α) : (singles xs).flatten = xs := by
  induction xs with
  | nil => rfl
  | cons x xs ih => exact congrArg (x :: ·) ih

theorem fits_append {reads more : List (List α)} :
    R.Fits (reads ++ more) ↔ R.Fits reads ∧ R.Fits more :=
  List.forall_mem_append

theorem fits_singles (hsize : 1 ≤ R.size) (xs : List α) : R.Fits (singles xs) := by
  intro bytes hbytes
  obtain ⟨x, -, rfl⟩ := List.mem_map.mp hbytes
  exact ⟨List.cons_ne_nil _ _, hsize⟩

theorem fits_two (hsize : 2 ≤ R.size) (c b : α) : R.Fits [[c, b]] := by
  intro bytes hbytes
  obtain rfl := List.mem_singleton.mp hbytes
  exact ⟨List.cons_ne_nil _ _, hsize⟩

theorem buf_read_single (hsize : 1 ≤ R.size) {y : α} {t : List α} (h : R.buf s = y :: t) (x : α) :
    R.buf (R.read s [x]).1 = x :: t := by
  rw [R.buf_read s [x] hsize, h]
  rfl

theorem buf_read_two (hsize : 2 ≤ R.size) {y z : α} {t : List α} (h : R.buf s = y :: z :: t)
    (c b : α) : R.buf (R.read s [c, b]).1 = c :: b :: t := by
  rw [R.buf_read s [c, b] hsize, h]
  rfl

/-- Reads of one item leave the buffer alone behind its first place. -/
theorem buf_run_singles (hsize : 1 ≤ R.size) (xs : List α) {y : α} {t : List α}
    (h : R.buf s = y :: t) : ∃ x, R.buf (R.run s (singles xs)).1 = x :: t := by
  induction xs generalizing s y with
  | nil => exact ⟨y, h⟩
  | cons x xs ih => exact ih (buf_read_single hsize h x)

/-- Reads of one item are not answered when none of them can complete a command. -/
theorem run_singles_eq_nil (hsize : 1 ≤ R.size) {xs : List α} {y : α} {t : List α}
    (h : R.buf s = y :: t) (hquiet : ∀ x ∈ xs, ¬ answered (x :: t)) :
    (R.run s (singles xs)).2 = [] := by
  induction xs generalizing s y with
  | nil => rfl
  | cons x xs ih =>
    have hbuf := buf_read_single hsize h x
    have hx : (R.read s [x]).2 = [] := by
      rw [R.read_eq_nil, hbuf]
      exact hquiet x (List.mem_cons_self ..)
    have hxs := ih hbuf fun z hz => hquiet z (List.mem_cons_of_mem _ hz)
    show (R.read s [x]).2 ++ (R.run (R.read s [x]).1 (singles xs)).2 = []
    rw [hx, hxs]
    rfl

/-! ### Streams with no way to be split, or with no command -/

theorem splits_nil {reads : List (List α)} (h : R.Splits [] reads) : reads = [] := by
  obtain ⟨hflat, hfits⟩ := h
  rcases reads with - | ⟨bytes, reads⟩
  · rfl
  · have hbytes := (List.append_eq_nil_iff.mp hflat).1
    exact absurd hbytes (hfits bytes (List.mem_cons_self ..)).1

theorem splits_singleton {x : α} {reads : List (List α)} (h : R.Splits [x] reads) :
    reads = [[x]] := by
  obtain ⟨hflat, hfits⟩ := h
  rcases reads with - | ⟨bytes, reads⟩
  · cases hflat
  · have hne := (hfits bytes (List.mem_cons_self ..)).1
    obtain ⟨y, bytes, rfl⟩ := List.exists_cons_of_ne_nil hne
    obtain ⟨rfl, hrest⟩ := List.cons.inj hflat
    obtain ⟨rfl, hrest⟩ := List.append_eq_nil_iff.mp hrest
    have hfits' : R.Fits reads := fun b hb => hfits b (List.mem_cons_of_mem _ hb)
    rw [splits_nil ⟨hrest, hfits'⟩]

theorem splitFree_of_length_le (h : stream.length ≤ 1) : R.SplitFree init stream := by
  intro earlier reads reads' _ hreads hreads'
  rcases stream with - | ⟨x, - | ⟨y, stream⟩⟩
  · rw [splits_nil hreads, splits_nil hreads']
  · rw [splits_singleton hreads, splits_singleton hreads']
  · simp at h

/-- Without the first letter of a command nothing is answered. -/
theorem run_eq_nil {first : α → Prop} (hcmd : Commands answered first R.size)
    (hstream : ∀ b ∈ stream, ¬ first b) {reads : List (List α)} (h : R.Splits stream reads) :
    (R.run s reads).2 = [] := by
  obtain ⟨rfl, hfits⟩ := h
  induction reads generalizing s with
  | nil => rfl
  | cons bytes reads ih =>
    obtain ⟨hne, hlen⟩ := hfits bytes (List.mem_cons_self ..)
    obtain ⟨x, bytes, rfl⟩ := List.exists_cons_of_ne_nil hne
    have hx : (R.read s (x :: bytes)).2 = [] := by
      rw [R.read_eq_nil, R.buf_read s _ hlen]
      intro hanswered
      obtain ⟨b, rest, hbuf, hb⟩ := hcmd.head hanswered
      obtain ⟨rfl, -⟩ := List.cons.inj hbuf
      exact hstream x (List.mem_cons_self ..) hb
    have hrest := @ih (R.read s (x :: bytes)).1
      (fun b hb => hfits b (List.mem_cons_of_mem _ hb))
      fun b hb => hstream b (List.mem_append_right _ hb)
    rw [run_cons, hx, hrest]
    rfl

/-! ### Streams that can be split -/

/-- A read that fills the buffer. -/
theorem exists_earlier (hinit : (R.buf init).length ≤ R.size) {full : List α}
    (hfull : full.length = R.size) (hne : full ≠ []) :
    ∃ earlier, R.Fits earlier ∧ R.buf (R.run init earlier).1 = full := by
  refine ⟨[full], ?_, ?_⟩
  · intro bytes hbytes
    obtain rfl := List.mem_singleton.mp hbytes
    exact ⟨hne, Nat.le_of_eq hfull⟩
  · show R.buf (R.read init full).1 = full
    rw [R.buf_read init full (Nat.le_of_eq hfull), hfull, List.drop_eq_nil_of_le hinit,
      List.append_nil]

/-- Behind any two items, the rest of a command fits in the buffer. -/
theorem exists_buf (hinit : (R.buf init).length ≤ R.size) {tail : List α}
    (htail : tail.length + 2 ≤ R.size) (y z : α) :
    ∃ earlier rest, R.Fits earlier ∧
      R.buf (R.run init earlier).1 = y :: z :: (tail ++ rest) := by
  let rest := List.replicate (R.size - (tail.length + 2)) y
  have hlen : (y :: z :: (tail ++ rest)).length = R.size := by
    simp only [rest, List.length_cons, List.length_append, List.length_replicate]
    omega
  obtain ⟨earlier, hfits, hbuf⟩ := exists_earlier hinit hlen (List.cons_ne_nil _ _)
  exact ⟨earlier, rest, hfits, hbuf⟩

/-- A first letter with something before it is answered when it comes alone, and is not when it is
read together with the item before it. -/
theorem not_splitFree_append {first : α → Prop} (hcmd : Commands answered first R.size)
    (hinit : (R.buf init).length ≤ R.size) {u v : List α} {c b : α} (hb : first b) :
    ¬ R.SplitFree init (u ++ c :: b :: v) := by
  obtain ⟨e, tail, hsize, hword⟩ := hcmd.command hb
  obtain ⟨earlier, rest, hearlier, hbuf⟩ := exists_buf hinit hsize b e
  have hone : 1 ≤ R.size := by omega
  have htwo : 2 ≤ R.size := by omega
  intro hfree
  have hsame := hfree earlier (singles u ++ singles (c :: b :: v))
    (singles u ++ ([[c, b]] ++ singles v)) hearlier
    ⟨by rw [List.flatten_append, flatten_singles, flatten_singles],
      fits_append.mpr ⟨fits_singles hone _, fits_singles hone _⟩⟩
    ⟨by rw [List.flatten_append, List.flatten_append, flatten_singles, flatten_singles]; rfl,
      fits_append.mpr ⟨fits_singles hone _,
        fits_append.mpr ⟨fits_two htwo c b, fits_singles hone _⟩⟩⟩
  rw [run_append, run_append] at hsame
  have hrest := List.append_cancel_left hsame
  obtain ⟨y, hy⟩ := buf_run_singles hone u hbuf
  -- together: `b` comes second, and stays there
  have htogether : (R.run (R.run (R.run init earlier).1 (singles u)).1
      ([[c, b]] ++ singles v)).2 = [] := by
    have hcb := buf_read_two htwo hy c b
    have hquiet : ∀ x ∈ v, ¬ answered (x :: b :: (tail ++ rest)) := fun _ _ h => hcmd.second h hb
    have hv := run_singles_eq_nil hone hcb hquiet
    have hread : (R.read (R.run (R.run init earlier).1 (singles u)).1 [c, b]).2 = [] := by
      rw [R.read_eq_nil, hcb]
      exact fun h => hcmd.second h hb
    rw [List.singleton_append, run_cons, hread, hv]
    rfl
  rw [htogether] at hrest
  -- alone: `b` completes the command in the buffer
  have hc := buf_read_single hone hy c
  have hcb := buf_read_single hone hc b
  have halone := (List.append_eq_nil_iff.mp (List.append_eq_nil_iff.mp hrest).2).1
  rw [R.read_eq_nil, hcb] at halone
  exact halone (hword rest).1

/-- A first letter with only other items after it is answered by one of the two splittings. -/
theorem not_splitFree_cons {first : α → Prop} (hcmd : Commands answered first R.size)
    (hinit : (R.buf init).length ≤ R.size) {v : List α} {c b : α} (hb : first b)
    (hv : ∀ x ∈ c :: v, ¬ first x) : ¬ R.SplitFree init (b :: c :: v) := by
  obtain ⟨e, tail, hsize, hword⟩ := hcmd.command hb
  have hone : 1 ≤ R.size := by omega
  have htwo : 2 ≤ R.size := by omega
  have hquiet : ∀ t : List α, ∀ x ∈ c :: v, ¬ answered (x :: t) := by
    intro t x hx hanswered
    obtain ⟨x', rest, hbuf, hx'⟩ := hcmd.head hanswered
    obtain ⟨rfl, -⟩ := List.cons.inj hbuf
    exact hv x hx hx'
  -- the two splittings, from a buffer whose second item is `z`
  have hsplit : ∀ z rest, (∃ earlier, R.Fits earlier ∧
      R.buf (R.run init earlier).1 = b :: z :: (tail ++ rest)) → R.SplitFree init (b :: c :: v) →
      (answered (b :: z :: (tail ++ rest)) ↔ answered (b :: c :: (tail ++ rest))) := by
    rintro z rest ⟨earlier, hearlier, hbuf⟩ hfree
    have hsame := hfree earlier ([[b]] ++ singles (c :: v)) ([[b, c]] ++ singles v) hearlier
      ⟨by rw [List.flatten_append, flatten_singles]; rfl,
        fits_append.mpr ⟨fits_singles hone [b], fits_singles hone _⟩⟩
      ⟨by rw [List.flatten_append, flatten_singles]; rfl,
        fits_append.mpr ⟨fits_two htwo b c, fits_singles hone _⟩⟩
    have hbz := buf_read_single hone hbuf b
    have hbc := buf_read_two htwo hbuf b c
    have hquiet' := fun x hx => hquiet (c :: (tail ++ rest)) x (List.mem_cons_of_mem _ hx)
    rw [List.singleton_append, List.singleton_append, run_cons, run_cons,
      run_singles_eq_nil hone hbz (hquiet _), run_singles_eq_nil hone hbc hquiet',
      List.append_nil, List.append_nil] at hsame
    have halone := R.read_eq_nil (R.run init earlier).1 [b]
    have htogether := R.read_eq_nil (R.run init earlier).1 [b, c]
    rw [hbz] at halone
    rw [hbc, ← hsame] at htogether
    exact not_iff_not.mp (halone.symm.trans htogether)
  intro hfree
  by_cases hce : c = e
  · -- together they begin the command, and alone `b` does not
    subst hce
    obtain ⟨earlier, rest, hearlier, hbuf⟩ := exists_buf hinit hsize b b
    have hanswered := (hsplit b rest ⟨earlier, hearlier, hbuf⟩ hfree).mpr (hword rest).1
    exact hcmd.second hanswered hb
  · -- alone `b` completes the command in the buffer, which `c` would spoil
    obtain ⟨earlier, rest, hearlier, hbuf⟩ := exists_buf hinit hsize b e
    have hanswered := (hsplit e rest ⟨earlier, hearlier, hbuf⟩ hfree).mp (hword rest).1
    exact (hword rest).2 c hce hanswered

/-- **Which streams may be split**: those of at most one item, and those without first letters. -/
theorem splitFree_iff {first : α → Prop} (hcmd : Commands answered first R.size)
    (hinit : (R.buf init).length ≤ R.size) :
    R.SplitFree init stream ↔ stream.length ≤ 1 ∨ ∀ b ∈ stream, ¬ first b := by
  constructor
  · intro hfree
    by_contra hcond
    rw [not_or] at hcond
    obtain ⟨hlen, hfirst⟩ := hcond
    push Not at hfirst
    obtain ⟨b, hmem, hb⟩ := hfirst
    obtain ⟨u, v, rfl⟩ := List.append_of_mem hmem
    rcases List.eq_nil_or_concat u with rfl | ⟨u, c, rfl⟩
    · rcases v with - | ⟨c, v⟩
      · simp at hlen
      · by_cases hv : ∀ x ∈ c :: v, ¬ first x
        · exact not_splitFree_cons hcmd hinit hb hv hfree
        · -- a later first letter has `b` or an item after it in front
          push Not at hv
          obtain ⟨x, hx, hfx⟩ := hv
          obtain ⟨w, rest, hw⟩ := List.append_of_mem hx
          have hstream : [] ++ b :: c :: v = (b :: w).dropLast ++ (b :: w).getLast
              (List.cons_ne_nil _ _) :: x :: rest := by
            rw [List.nil_append, hw, ← List.cons_append]
            conv_lhs => rw [← List.dropLast_append_getLast (List.cons_ne_nil b w)]
            rw [List.append_assoc]
            rfl
          rw [hstream] at hfree
          exact not_splitFree_append hcmd hinit hfx hfree
    · rw [List.concat_eq_append, List.append_assoc] at hfree
      exact not_splitFree_append hcmd hinit hb hfree
  · rintro (hlen | hfirst) earlier reads reads' hearlier hreads hreads'
    · exact splitFree_of_length_le hlen earlier reads reads' hearlier hreads hreads'
    · rw [run_eq_nil hcmd hfirst hreads, run_eq_nil hcmd hfirst hreads']

end Reader

end Camkes
