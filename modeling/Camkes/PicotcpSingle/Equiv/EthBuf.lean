import Camkes.Data.Loops
import Camkes.PicotcpSingle.EthBuf
import Mathlib.Data.List.Nodup

/-!
# What the allocation loops set up, and pools as lists

`allocBufs_eq_ok_iff`: an allocation loop finishes exactly when no allocation fails, and then every
buffer has a block of zeros and its physical address, and the pool holds every buffer once.

`BufPool.Holds` reads a pool as a list of buffers, for both directions.
-/

namespace Camkes.PicotcpSingle.Ethdriver

open CArray

variable {n : ℕ} {dma : Fin n → Dma}

/-- Neither call for this buffer fails. -/
def Dma.Succeeds (d : Dma) : Prop := d.alloc = true ∧ d.phys ≠ 0

/-- An allocated buffer. -/
def Dma.ethBuf (d : Dma) : EthBuf where
  buf := some (Vector.replicate bufSize 0)
  phys := d.phys
  len := 0

/-- The state of an allocation loop after `k` rounds. -/
def allocated (dma : Fin n → Dma) (k : ℕ) : BufPool n where
  bufs := Vector.ofFn fun i =>
    if i.val < k then (dma i).ethBuf else { buf := none, phys := 0, len := 0 }
  num := k
  pool := Vector.ofFn fun i => if i.val < k then some i else none

/-- All buffers are allocated and free. -/
def BufPool.full (dma : Fin n → Dma) : BufPool n where
  bufs := tabulate fun i => (dma i).ethBuf
  num := n
  pool := tabulate some

theorem allocated_zero (dma : Fin n → Dma) : allocated dma 0 = .boot := by
  have hbufs : ∀ x : EthBuf,
      Vector.ofFn (fun i : Fin n => if i.val < 0 then (dma i).ethBuf else x) =
        Vector.replicate n x := by
    intro x
    ext i hi
    simp
  have hpool : Vector.ofFn (fun i : Fin n => if i.val < 0 then some i else none) =
      Vector.replicate n none := by
    ext i hi
    simp
  rw [allocated, BufPool.boot, hbufs, hpool]

theorem allocated_self (dma : Fin n → Dma) : allocated dma n = .full dma := by
  rw [allocated, BufPool.full, tabulate_eq, tabulate_eq]
  congr 1
  · simp only [Fin.is_lt, if_true]
  · simp only [Fin.is_lt, if_true]

/-- One round of the loop. -/
theorem allocBuf_allocated {i : Fin n} (h : (dma i).Succeeds) :
    allocBuf dma (allocated dma i) i = .ok (allocated dma (i + 1)) := by
  obtain ⟨halloc, hphys⟩ := h
  have hstep : ∀ {α : Type} (f g : Fin n → α), (fun j => if i = j then f i else
      if j.val < i.val then f j else g j) = fun j => if j.val < i.val + 1 then f j else g j := by
    intro α f g
    funext j
    by_cases hij : i = j
    · subst hij
      rw [if_pos rfl, if_pos (Nat.lt_succ_self _)]
    · have hne : j.val ≠ i.val := fun hv => hij (Fin.ext hv.symm)
      rw [if_neg hij]
      simp only [Nat.lt_succ_iff_lt_or_eq, hne, or_false]
  have hget : (allocated dma i).bufs.get i = { buf := none, phys := 0, len := 0 } := by
    show (Vector.ofFn _)[i] = _
    rw [Fin.getElem_fin, Vector.getElem_ofFn]
    exact if_neg (Nat.lt_irrefl _)
  have hbufs := put_ofFn (fun j : Fin n => if j.val < i.val then (dma j).ethBuf else
    { buf := none, phys := 0, len := 0 }) i (dma i).ethBuf
  have hpool := put_ofFn (fun j : Fin n => if j.val < i.val then some j else none) i (some i)
  rw [hstep (fun j => (dma j).ethBuf)] at hbufs
  rw [hstep some] at hpool
  have hbuf : ((allocated dma i).bufs.get i).setup (dma i).phys = (dma i).ethBuf := by
    rw [hget]
    rfl
  rw [allocBuf, if_neg (by simp [halloc]), if_neg hphys]
  simp only [hbuf]
  simp only [BufPool.push, allocated, store_fin, hbufs, hpool, Option.bind_eq_bind,
    Option.bind_some]

/-- An iteration whose allocation fails returns an error. -/
theorem allocBuf_of_not_succeeds {i : Fin n} (h : ¬ (dma i).Succeeds) (p : BufPool n) :
    ∃ err, allocBuf dma p i = .error err := by
  unfold allocBuf
  split_ifs with halloc hphys
  · exact ⟨_, rfl⟩
  · exact ⟨_, rfl⟩
  · exact absurd ⟨by simpa using halloc, hphys⟩ h

/-- The rest of the loop, from round `k` on. -/
theorem foldlM_allocBuf_iff (m k : ℕ) (hk : k + m = n) (p : BufPool n) :
    ((List.finRange n).drop k).foldlM (allocBuf dma) (allocated dma k) = .ok p ↔
      (∀ i : Fin n, k ≤ i.val → (dma i).Succeeds) ∧ p = .full dma := by
  induction m generalizing k with
  | zero =>
    obtain rfl : k = n := by omega
    rw [List.drop_of_length_le (by simp), List.foldlM_nil, allocated_self]
    constructor
    · intro h
      exact ⟨fun i hi => absurd i.isLt (Nat.not_lt.mpr hi), (Except.ok.inj h).symm⟩
    · rintro ⟨-, rfl⟩
      rfl
  | succ m ih =>
    have hkn : k < n := by omega
    have hdrop : (List.finRange n).drop k = ⟨k, hkn⟩ :: (List.finRange n).drop (k + 1) := by
      rw [List.drop_eq_getElem_cons (by simpa using hkn), List.getElem_finRange]
      rfl
    rw [hdrop, List.foldlM_cons]
    by_cases hsucc : (dma ⟨k, hkn⟩).Succeeds
    · have hround : allocBuf dma (allocated dma k) ⟨k, hkn⟩ = .ok (allocated dma (k + 1)) :=
        allocBuf_allocated hsucc
      rw [hround]
      apply (ih (k + 1) (by omega)).trans
      refine and_congr_left fun _ => ⟨fun h i hi => ?_, fun h i hi => h i (by omega)⟩
      by_cases hik : k = i.val
      · subst hik
        exact hsucc
      · exact h i (by omega)
    · obtain ⟨err, herr⟩ := allocBuf_of_not_succeeds hsucc (allocated dma k)
      rw [herr]
      constructor
      · intro h
        cases h
      · rintro ⟨h, -⟩
        exact absurd (h ⟨k, hkn⟩ (Nat.le_refl _)) hsucc

/-- **Setup**: the loop finishes exactly when no allocation fails, with all buffers in the pool. -/
theorem allocBufs_eq_ok_iff {p : BufPool n} :
    allocBufs dma = .ok p ↔ (∀ i, (dma i).Succeeds) ∧ p = .full dma := by
  have h : _ ↔ (∀ i : Fin n, 0 ≤ i.val → (dma i).Succeeds) ∧ p = .full dma :=
    foldlM_allocBuf_iff n 0 (Nat.zero_add n) p
  rw [List.drop_zero, allocated_zero] at h
  rw [allocBufs, h]
  simp only [Nat.zero_le, forall_const]

/-- DMA memory that starts at the address 0x1000. -/
def dmaMemory (i : Fin n) : Dma where
  alloc := true
  phys := .ofNat (0x1000 + i * bufSize)

theorem allocBufs_dmaMemory (hn : n ≤ 0x1000) :
    allocBufs (n := n) dmaMemory = .ok (.full dmaMemory) := by
  refine allocBufs_eq_ok_iff.mpr ⟨fun i => ⟨rfl, fun h => ?_⟩, rfl⟩
  have hnat := congrArg UInt64.toNat h
  have hi := i.isLt
  simp only [dmaMemory, UInt64.toNat_ofNat', UInt64.toNat_zero, bufSize] at hnat
  omega

/-! ### The pool -/

/-- Elements taken out of a list, followed by what is left, are the list. -/
theorem perm_append_filter {α : Type*} [DecidableEq α] {taken xs : List α} (ht : taken.Nodup)
    (hx : xs.Nodup) (hsub : ∀ b ∈ taken, b ∈ xs) : (taken ++ xs.filter (· ∉ taken)).Perm xs := by
  have hnodup : (taken ++ xs.filter (· ∉ taken)).Nodup := by
    refine List.nodup_append.mpr ⟨ht, hx.filter _, ?_⟩
    rintro b hb c hmem rfl
    simp only [List.mem_filter, decide_eq_true_eq] at hmem
    exact hmem.2 hb
  apply (List.perm_ext_iff_of_nodup hnodup hx).mpr
  intro b
  simp only [List.mem_append, List.mem_filter, decide_eq_true_eq]
  constructor
  · rintro (hb | ⟨hb, -⟩)
    · exact hsub b hb
    · exact hb
  · intro hb
    by_cases hbt : b ∈ taken
    · exact Or.inl hbt
    · exact Or.inr ⟨hb, hbt⟩

/-- The pool holds the buffers `xs`, the top last. -/
structure BufPool.Holds (p : BufPool n) (xs : List (Fin n)) : Prop where
  num_le : p.num ≤ n
  contents_eq : Stack.contents p.pool p.num = xs.map some

namespace BufPool.Holds

variable {p : BufPool n} {xs : List (Fin n)} {b : Fin n}

theorem num_eq (h : p.Holds xs) : p.num = xs.length := by
  rw [← Stack.length_contents p.pool h.num_le, h.contents_eq, List.length_map]

/-- A buffer can be pushed while the pool does not hold all of them. -/
theorem push (h : p.Holds xs) (b : Fin n) (hlt : xs.length < n) :
    ∃ p', p.push b = some p' ∧ p'.bufs = p.bufs ∧ p'.Holds (xs ++ [b]) := by
  have hnum : p.num < n := by rwa [h.num_eq]
  obtain ⟨pool, hstore, hpool⟩ := Stack.contents_store p.pool hnum (some b)
  refine ⟨{ p with pool, num := p.num + 1 }, ?_, rfl, hnum, ?_⟩
  · rw [BufPool.push, hstore]
    rfl
  · rw [hpool, h.contents_eq, List.map_append, List.map_singleton]

/-- Buffers are pushed one after the other. -/
theorem foldlM_push (h : p.Holds xs) (bs : List (Fin n)) (hle : xs.length + bs.length ≤ n) :
    ∃ p', bs.foldlM BufPool.push p = some p' ∧ p'.bufs = p.bufs ∧ p'.Holds (xs ++ bs) := by
  have hnil : p.bufs = p.bufs ∧ p.Holds (xs ++ []) := ⟨rfl, by rwa [List.append_nil]⟩
  refine exists_foldlM (P := fun done (p' : BufPool n) =>
    p'.bufs = p.bufs ∧ p'.Holds (xs ++ done)) hnil ?_
  intro done b rest p₁ hbs ⟨hbufs₁, h₁⟩
  have hlt : (xs ++ done).length < n := by
    rw [hbs, List.length_append, List.length_cons] at hle
    rw [List.length_append]
    omega
  obtain ⟨p₂, hpush, hbufs₂, h₂⟩ := h₁.push b hlt
  exact ⟨p₂, hpush, hbufs₂.trans hbufs₁, by rwa [← List.append_assoc]⟩

/-- The slot below `num` has the top, and decrementing `num` removes it. -/
theorem pop (h : p.Holds (xs ++ [b])) :
    p.pool[p.num - 1]? = some (some b) ∧ ({ p with num := p.num - 1 } : BufPool n).Holds xs := by
  have hnum := h.num_eq
  have hle := h.num_le
  rw [List.length_append, List.length_singleton] at hnum
  have hcont := h.contents_eq
  rw [hnum, List.map_append, List.map_singleton] at hcont
  obtain ⟨htop, hrest⟩ := Stack.getElem?_of_contents hcont (by omega)
  rw [hnum, Nat.add_sub_cancel]
  exact ⟨htop, show xs.length ≤ n by omega, hrest⟩

/-- A pool that is not empty has a top. -/
theorem exists_top (h : p.Holds xs) (hnum : p.num ≠ 0) : ∃ ys b, xs = ys ++ [b] := by
  apply (List.eq_nil_or_concat' xs).resolve_left
  rintro rfl
  exact hnum h.num_eq

theorem full (dma : Fin n → Dma) : (BufPool.full dma).Holds (List.finRange n) := by
  have hlist : (BufPool.full dma).pool.toList = (List.finRange n).map some := by
    rw [BufPool.full, toList_tabulate, List.ofFn_eq_map]
  refine ⟨Nat.le_refl n, ?_⟩
  rw [Stack.contents, hlist]
  exact List.take_of_length_le (by simp [BufPool.full])

end BufPool.Holds

theorem get_full (dma : Fin n → Dma) (i : Fin n) :
    (BufPool.full dma).bufs.get i = (dma i).ethBuf :=
  get_tabulate _ i

end Camkes.PicotcpSingle.Ethdriver
