import Mathlib.Data.List.Basic
import Mathlib.Tactic.Common

/-!
# Heaps of blocks

A heap is a list of the blocks that have been allocated, each with its contents until it is freed.
A pointer is the number of its block.  Blocks are not used again after they have been freed, so an
access through a dangling pointer fails, and so does a second `free`.

* `read_alloc_self`, `read_alloc_of_ne`, `store_spec`: what allocating and storing do to each block;
* `numLive_alloc`: how many blocks are live;
* `free_spec`: a freed block cannot be read any more.
-/

namespace Camkes

variable {α : Type*}

structure Heap (α : Type*) where
  blocks : List (Option (List α))

namespace Heap

variable {h h' : Heap α} {p q : ℕ} {block : List α}

/-- Nothing has been allocated. -/
def empty : Heap α := ⟨[]⟩

/-- A new block, and the pointer to it. -/
def alloc (h : Heap α) (block : List α) : Heap α × ℕ :=
  (⟨h.blocks ++ [some block]⟩, h.blocks.length)

/-- The contents of a block that has not been freed. -/
def read (h : Heap α) (p : ℕ) : Option (List α) := h.blocks[p]?.join

/-- Store to the beginning of a block. -/
def store (h : Heap α) (p : ℕ) (xs : List α) : Option (Heap α) := do
  let block ← h.read p
  if xs.length ≤ block.length then
    some ⟨h.blocks.set p (some (xs ++ block.drop xs.length))⟩
  else none

/-- A block can be freed once. -/
def free (h : Heap α) (p : ℕ) : Option (Heap α) := do
  let _ ← h.read p
  some ⟨h.blocks.set p none⟩

/-- The block has been allocated and not freed. -/
def Live (h : Heap α) (p : ℕ) : Prop := (h.read p).isSome

/-- The number of live blocks. -/
def numLive (h : Heap α) : ℕ := h.blocks.countP Option.isSome

theorem getElem?_of_read (hp : h.read p = some block) : h.blocks[p]? = some (some block) :=
  Option.join_eq_some_iff.mp hp

theorem live_of_read (hp : h.read p = some block) : h.Live p := by
  rw [Live, hp]
  rfl

/-! ### Allocating -/

@[simp] theorem read_alloc_self (h : Heap α) (block : List α) :
    (h.alloc block).1.read (h.alloc block).2 = some block := by
  simp [alloc, read]

/-- The new block is none of those that there were. -/
theorem not_live_alloc (h : Heap α) (block : List α) : ¬ h.Live (h.alloc block).2 := by
  simp [alloc, Live, read]

/-- An allocation leaves the other blocks. -/
theorem read_alloc_of_ne (h : Heap α) (block : List α) (hp : p ≠ (h.alloc block).2) :
    (h.alloc block).1.read p = h.read p := by
  show (h.blocks ++ [some block])[p]?.join = h.blocks[p]?.join
  rcases Nat.lt_or_gt_of_ne hp with hlt | hgt
  · rw [List.getElem?_append_left hlt]
  · have hlen : h.blocks.length < p := hgt
    rw [List.getElem?_eq_none (Nat.le_of_lt hlen), List.getElem?_eq_none]
    simp
    omega

@[simp] theorem numLive_alloc (h : Heap α) (block : List α) :
    (h.alloc block).1.numLive = h.numLive + 1 := by
  simp [alloc, numLive]

/-! ### Storing -/

theorem store_of_le {xs : List α} (hp : h.read p = some block) (hle : xs.length ≤ block.length) :
    h.store p xs = some ⟨h.blocks.set p (some (xs ++ block.drop xs.length))⟩ := by
  rw [store, hp, Option.bind_eq_bind, Option.bind_some, if_pos hle]

/-- **What is stored** can be read. -/
theorem store_spec {xs : List α} (hp : h.read p = some block) (hle : xs.length ≤ block.length) :
    ∃ h', h.store p xs = some h' ∧ h'.read p = some (xs ++ block.drop xs.length) ∧
      (∀ q ≠ p, h'.read q = h.read q) ∧ h'.numLive = h.numLive := by
  obtain ⟨hlt, hblock⟩ := List.getElem?_eq_some_iff.mp (getElem?_of_read hp)
  refine ⟨_, store_of_le hp hle, ?_, fun q hq => ?_, ?_⟩
  · rw [read, List.getElem?_set_self hlt, Option.join_some]
  · rw [read, List.getElem?_set_ne hq.symm, read]
  · have hpos : 0 < h.blocks.countP Option.isSome := by
      refine List.countP_pos_iff.mpr ⟨_, List.getElem_mem hlt, ?_⟩
      rw [hblock]
      rfl
    rw [numLive, numLive, List.countP_set hlt, hblock]
    show h.blocks.countP Option.isSome - 1 + 1 = _
    omega

/-! ### Freeing -/

/-- **A freed block** cannot be read any more. -/
theorem free_spec (hp : h.read p = some block) :
    ∃ h', h.free p = some h' ∧ h'.read p = none := by
  obtain ⟨hlt, -⟩ := List.getElem?_eq_some_iff.mp (getElem?_of_read hp)
  refine ⟨⟨h.blocks.set p none⟩, ?_, ?_⟩
  · rw [free, hp]
    rfl
  · rw [read, List.getElem?_set_self hlt, Option.join_some]

end Heap

end Camkes
