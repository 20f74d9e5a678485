import Camkes.Data.CString
import Camkes.Data.Reversal
import Camkes.Machine.Prog
import Mathlib.Data.List.Nodup

/-!
# Programs on a buffer

A buffer in the memory of a program is the list of its cells, and an access beyond its end is a
fault.  Here are the functions of C that access a buffer cell by cell, and what they do to its
contents.
-/

namespace Camkes

variable {ι β ο α γ : Type}

namespace Prog

/-- `buf[i]`. -/
def load (buf : List ι) (i : ℕ) : Prog ι β ο β :=
  match buf[i]? with
  | some cell => .read cell .done
  | none => .fault

/-- `buf[i] = v`. -/
def store (buf : List ι) (i : ℕ) (v : β) : Prog ι β ο Unit :=
  match buf[i]? with
  | some cell => .write cell v (.done ())
  | none => .fault

/-- Store elements from the beginning of the buffer on. -/
def storeAll : List ι → List β → Prog ι β ο Unit
  | _, [] => .done ()
  | [], _ :: _ => .fault
  | cell :: buf, v :: vs => .write cell v (storeAll buf vs)

/-- Read the first `n` elements of the buffer. -/
def readBytes : List ι → ℕ → Prog ι β ο (List β)
  | _, 0 => .done []
  | [], _ + 1 => .fault
  | cell :: buf, n + 1 => .read cell fun v => (v :: ·) <$> readBytes buf n

/-- Read the string at the beginning of the buffer. -/
def readString : List ι → Prog ι UInt8 ο (List UInt8)
  | [] => .fault
  | cell :: buf => .read cell fun c => if c = 0 then .done [] else (c :: ·) <$> readString buf

/-- `strnlen(buf, n)`, where `n` is the number of cells. -/
def strnlen : List ι → Prog ι UInt8 ο ℕ
  | [] => .done 0
  | cell :: buf => .read cell fun c => if c = 0 then .done 0 else (· + 1) <$> strnlen buf

/-- `tmp = buf[i]; buf[i] = buf[j]; buf[j] = tmp`. -/
def swap (buf : List ι) (i j : ℕ) : Prog ι β ο Unit := do
  let tmp ← load buf i
  let x ← load buf j
  store buf i x
  store buf j tmp

/-- `for (i = 0; i < m; i++)` swap `buf[i]` and `buf[last - i]`. -/
def swapLoop (buf : List ι) (last m : ℕ) : Prog ι β ο Unit :=
  forM (List.range m) fun i => swap buf i (last - i)

theorem store_eq {buf : List ι} {i : ℕ} {cell : ι} (hcell : buf[i]? = some cell) (v : β) :
    (store buf i v : Prog ι β ο Unit) = .write cell v (.done ()) := by
  rw [store, hcell]

theorem swapLoop_succ (buf : List ι) (last m : ℕ) :
    (swapLoop buf last (m + 1) : Prog ι β ο Unit) =
      swapLoop buf last m >>= fun _ => swap buf m (last - m) := by
  rw [swapLoop, List.range_succ, List.forM_append]
  refine congrArg (_ >>= ·) (funext fun _ => ?_)
  show swap buf m (last - m) >>= (fun _ => .done ()) = _
  exact bind_done _

end Prog

/-! ### Reading -/

section Reading

variable [DecidableEq ι] {m : ι → β} {buf : List ι}

theorem Executes.load {i : ℕ} (hi : i < buf.length) :
    Executes (ο := ο) (Prog.load buf i) m (m buf[i]) m [] := by
  have hdone : Executes (ο := ο) (.done (m buf[i])) m (m buf[i]) m [] := .done _ m
  rw [Prog.load, List.getElem?_eq_getElem hi]
  exact hdone.read

/-- Reading the first bytes of the buffer. -/
theorem Executes.readBytes {n : ℕ} (hn : n ≤ buf.length) :
    Executes (ο := ο) (Prog.readBytes buf n) m ((buf.map m).take n) m [] := by
  induction n generalizing buf with
  | zero =>
    rw [Prog.readBytes]
    exact .done _ _
  | succ n ih =>
    cases buf with
    | nil => cases hn
    | cons cell buf => exact .read ((ih (Nat.le_of_succ_le_succ hn)).map _)

/-- Reading the string at the beginning of the buffer. -/
theorem Executes.readString {m : ι → UInt8} {s : List UInt8}
    (h : CString.read (buf.map m) = some s) :
    Executes (ο := ο) (Prog.readString buf) m s m [] := by
  induction buf generalizing s with
  | nil => cases h
  | cons cell buf ih =>
    rw [List.map_cons] at h
    refine .read ?_
    by_cases hc : m cell = 0
    · rw [hc, CString.read_cons_zero] at h
      obtain rfl := Option.some.inj h
      rw [if_pos hc]
      exact .done _ _
    · rw [CString.read_cons_of_ne hc] at h
      obtain ⟨s', hs', rfl⟩ := Option.map_eq_some_iff.mp h
      rw [if_neg hc]
      exact (ih hs').map _

/-- Counting the bytes before the first NUL. -/
theorem Executes.strnlen (m : ι → UInt8) (buf : List ι) :
    Executes (ο := ο) (Prog.strnlen buf) m ((buf.map m).takeWhile (· ≠ 0)).length m [] := by
  induction buf with
  | nil => exact .done _ _
  | cons cell buf ih =>
    refine .read ?_
    by_cases hc : m cell = 0
    · rw [if_pos hc, List.map_cons, List.takeWhile_cons_of_neg (by simpa using hc)]
      exact .done _ _
    · rw [if_neg hc, List.map_cons, List.takeWhile_cons_of_pos (by simpa using hc)]
      exact ih.map _

end Reading

/-! ### Writing -/

/-- All of these accesses are writes to these cells. -/
def WritesTo (cells : List ι) (effs : List (Access ι β ο)) : Prop :=
  ∀ a ∈ effs, ∃ i ∈ cells, ∃ v, a = .write i v

theorem WritesTo.written_ne {cells : List ι} {effs : List (Access ι β ο)} (h : WritesTo cells effs)
    {i : ι} (hi : i ∉ cells) {a : Access ι β ο} (ha : a ∈ effs) : a.written ≠ some i := by
  obtain ⟨j, hj, v, rfl⟩ := h a ha
  intro heq
  obtain rfl := Option.some.inj heq
  exact hi hj

/-- The writes of `storeAll`. -/
theorem writesTo_zip (buf : List ι) (vs : List β) :
    WritesTo (ο := ο) (buf.take vs.length) ((buf.zip vs).map fun x => .write x.1 x.2) := by
  intro a ha
  obtain ⟨⟨i, v⟩, hmem, rfl⟩ := List.mem_map.mp ha
  rw [List.zip_eq_zip_take_min] at hmem
  have hi := (List.of_mem_zip hmem).1
  rw [← List.take_take] at hi
  exact ⟨i, List.mem_of_mem_take hi, v, rfl⟩

/-- Alone, the program changes the contents of the buffer to `xs`, and nothing else. -/
structure Rewrites [DecidableEq ι] (buf : List ι) (p : Prog ι β ο α) (m : ι → β) (a : α)
    (xs : List β) (m' : ι → β) (effs : List (Access ι β ο)) : Prop where
  executes : Executes p m a m' effs
  contents : buf.map m' = xs
  frame : ∀ i ∉ buf, m' i = m i

section Writing

variable [DecidableEq ι] {m m' : ι → β} {buf : List ι} {xs : List β}

/-- One program that rewrites the buffer after another. -/
theorem Rewrites.bind {p : Prog ι β ο α} {f : α → Prog ι β ο γ} {a : α} {c : γ} {m'' : ι → β}
    {ys : List β} {effs effs' : List (Access ι β ο)} (h : Rewrites buf p m a xs m' effs)
    (h' : Rewrites buf (f a) m' c ys m'' effs') :
    Rewrites buf (p >>= f) m c ys m'' (effs ++ effs') where
  executes := h.executes.bind h'.executes
  contents := h'.contents
  frame i hi := (h'.frame i hi).trans (h.frame i hi)

/-- A program that stores nothing. -/
theorem Executes.rewrites {p : Prog ι β ο α} {a : α} {effs : List (Access ι β ο)}
    (h : Executes p m a m effs) (buf : List ι) : Rewrites buf p m a (buf.map m) m effs :=
  ⟨h, rfl, fun _ _ => rfl⟩

/-- A store changes one element of the contents. -/
theorem map_update (hnodup : buf.Nodup) {i : ℕ} {cell : ι} (hcell : buf[i]? = some cell) (v : β) :
    buf.map (Function.update m cell v) = (buf.map m).set i v := by
  obtain ⟨hi, rfl⟩ := List.getElem?_eq_some_iff.mp hcell
  apply List.ext_getElem
  · simp
  · intro k hk _
    rw [List.length_map] at hk
    rw [List.getElem_map, List.getElem_set, List.getElem_map]
    split_ifs with hik
    · subst hik
      exact Function.update_self ..
    · refine Function.update_of_ne (fun heq => hik ?_) _ _
      exact ((List.Nodup.getElem_inj_iff hnodup).mp heq).symm

/-- A store rewrites one element. -/
theorem Rewrites.store (hnodup : buf.Nodup) {i : ℕ} {cell : ι} (hcell : buf[i]? = some cell)
    (v : β) :
    Rewrites (ο := ο) buf (Prog.store buf i v) m () ((buf.map m).set i v)
      (Function.update m cell v) [.write cell v] := by
  refine ⟨?_, map_update hnodup hcell v, fun j hj => ?_⟩
  · rw [Prog.store_eq hcell]
    exact .write (.done _ _)
  · refine Function.update_of_ne (fun heq => hj ?_) _ _
    rw [heq]
    exact List.mem_of_getElem? hcell

/-- A sequence of stores rewrites the beginning. -/
theorem Rewrites.storeAll {vs : List β} (hnodup : buf.Nodup) (hle : vs.length ≤ buf.length) :
    ∃ m', Rewrites (ο := ο) buf (Prog.storeAll buf vs) m () (vs ++ (buf.map m).drop vs.length) m'
      ((buf.zip vs).map fun x => .write x.1 x.2) := by
  induction buf generalizing vs m with
  | nil =>
    obtain rfl := List.length_eq_zero_iff.mp (Nat.le_zero.mp hle)
    exact ⟨m, Executes.rewrites (.done _ _) []⟩
  | cons cell buf ih =>
    cases vs with
    | nil => exact ⟨m, Executes.rewrites (.done _ _) _⟩
    | cons v vs =>
      obtain ⟨hcell, hrest⟩ := List.nodup_cons.mp hnodup
      obtain ⟨m', h⟩ := ih (m := Function.update m cell v) hrest (Nat.le_of_succ_le_succ hle)
      have hmap : buf.map (Function.update m cell v) = buf.map m := by
        refine List.map_congr_left fun i hi => Function.update_of_ne (fun heq => hcell ?_) _ _
        rwa [← heq]
      have hv : m' cell = v := by
        rw [h.frame cell hcell, Function.update_self]
      refine ⟨m', .write h.executes, ?_, fun i hi => ?_⟩
      · rw [List.map_cons, h.contents, hmap, hv]
        rfl
      · rw [List.mem_cons, not_or] at hi
        rw [h.frame i hi.2, Function.update_of_ne hi.1]

/-- A swap rewrites two elements. -/
theorem Rewrites.swap (hnodup : buf.Nodup) {i j : ℕ} (hi : i < buf.length) (hj : j < buf.length) :
    ∃ m', Rewrites (ο := ο) buf (Prog.swap buf i j) m () (swapAt (buf.map m) i j) m'
      [.write buf[i] (m buf[j]), .write buf[j] (m buf[i])] := by
  have hfirst := Rewrites.store (ο := ο) (m := m) hnodup (List.getElem?_eq_getElem hi) (m buf[j])
  have hsecond := Rewrites.store (ο := ο) (m := Function.update m buf[i] (m buf[j])) hnodup
    (List.getElem?_eq_getElem hj) (m buf[i])
  have hboth : Rewrites buf (Prog.store buf i (m buf[j]) >>= fun _ => Prog.store buf j (m buf[i]))
      m () _ _ _ := hfirst.bind hsecond
  refine ⟨_, ?_, ?_, hboth.frame⟩
  · exact .bind_of_nil (.load hi) (.bind_of_nil (.load hj) hboth.executes)
  · rw [hsecond.contents, hfirst.contents, swapAt_of_lt (by simpa) (by simpa), List.getElem_map,
      List.getElem_map]

/-- The loop swaps the contents as `mirrorSwaps` does, with two writes each time. -/
theorem Rewrites.swapLoop (hnodup : buf.Nodup) (last n : ℕ) (hlast : last < buf.length)
    (hn : n ≤ last + 1) :
    ∃ m' effs, Rewrites (ο := ο) buf (Prog.swapLoop buf last n) m ()
        (mirrorSwaps (buf.map m) last n) m' effs ∧
      effs.length = 2 * n ∧ WritesTo (buf.take (last + 1)) effs := by
  induction n with
  | zero => exact ⟨m, [], Executes.rewrites (.done _ _) buf, rfl, fun a ha => by cases ha⟩
  | succ n ih =>
    obtain ⟨m₁, effs, hloop, hlen, hwrites⟩ := ih (by omega)
    have hi : n < buf.length := by omega
    have hj : last - n < buf.length := by omega
    obtain ⟨m', hswap⟩ := Rewrites.swap (ο := ο) (m := m₁) hnodup hi hj
    rw [hloop.contents, ← mirrorSwaps_succ] at hswap
    have hboth : Rewrites buf (Prog.swapLoop buf last n >>= fun _ => Prog.swap buf n (last - n))
        m () _ _ _ := hloop.bind hswap
    rw [← Prog.swapLoop_succ] at hboth
    refine ⟨m', _, hboth, ?_, ?_⟩
    · rw [List.length_append, hlen]
      rfl
    · have hmem : ∀ k, k ≤ last → ∀ hk : k < buf.length, buf[k] ∈ buf.take (last + 1) := by
        intro k hle hk
        exact List.mem_take_iff_getElem.mpr ⟨k, by omega, rfl⟩
      intro a ha
      rcases List.mem_append.mp ha with ha | ha
      · exact hwrites a ha
      · simp only [List.mem_cons, List.not_mem_nil, or_false] at ha
        rcases ha with rfl | rfl
        · exact ⟨_, hmem n (by omega) hi, _, rfl⟩
        · exact ⟨_, hmem (last - n) (by omega) hj, _, rfl⟩

end Writing

end Camkes
