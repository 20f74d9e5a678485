import Mathlib.Data.List.Basic
import Mathlib.Tactic.Common

/-!
# Fixed-size arrays with checked accesses

A C array of `n` elements is a `Vector α n`.  An access of C is not checked, so a model has to say
what happens out of bounds: `store`, `memcpy` and `slice` return `none` there (and so does the
library's `a[i]?`).  A program written with them in the `Option` monad returns a result exactly when
all of its accesses are in bounds.
-/

namespace Camkes.CArray

variable {α : Type*} {n : ℕ}

/-! ### Storing one element -/

/-- `a[i] = x`. -/
def store (a : Vector α n) (i : ℕ) (x : α) : Option (Vector α n) :=
  if h : i < n then some (a.set i x h) else none

theorem store_of_lt (a : Vector α n) {i : ℕ} (h : i < n) (x : α) :
    store a i x = some (a.set i x h) := by
  rw [store, dif_pos h]

/-- `a[i] = x` for an index that is known to be in range. -/
def put (a : Vector α n) (i : Fin n) (x : α) : Vector α n := a.set i x i.isLt

theorem get_put (a : Vector α n) (i j : Fin n) (x : α) :
    (put a i x).get j = if i = j then x else a.get j := by
  show (a.set i x)[j] = if i = j then x else a[j]
  simp only [Fin.getElem_fin, Vector.getElem_set, Fin.ext_iff]

theorem get_put_self (a : Vector α n) (i : Fin n) (x : α) : (put a i x).get i = x := by
  rw [get_put, if_pos rfl]

theorem put_get (a : Vector α n) (i : Fin n) : put a i (a.get i) = a := by
  ext j hj
  show (a.set i a[i])[j] = a[j]
  rw [Vector.getElem_set]
  split_ifs with h
  · subst h
    rfl
  · rfl

theorem put_put (a : Vector α n) (i : Fin n) (x y : α) : put (put a i x) i y = put a i y := by
  ext j hj
  simp only [put, Vector.getElem_set]
  split_ifs
  · rfl
  · rfl

/-- What an array begins with gets longer by one element. -/
theorem append_prefix_set {a : Vector α n} {l : List α} (h : l <+: a.toList) (hl : l.length < n)
    (x : α) : l ++ [x] <+: (a.set l.length x hl).toList := by
  obtain ⟨r, hr⟩ := h
  have hlen : l.length + r.length = n := by
    rw [← List.length_append, hr, Vector.length_toList]
  cases r with
  | nil =>
    rw [List.length_nil] at hlen
    omega
  | cons y r =>
    rw [Vector.toList_set, ← hr, List.set_append_right _ _ (Nat.le_refl _), Nat.sub_self]
    exact ⟨r, by simp⟩

theorem getElem?_length_of_append {a : Vector α n} {l r : List α} {x : α}
    (h : l ++ x :: r <+: a.toList) : a[l.length]? = some x := by
  obtain ⟨r', hr⟩ := h
  rw [← Vector.getElem?_toList, ← hr]
  simp

/-- To store what is already there changes nothing. -/
theorem set_eq_self {a : Vector α n} {l : List α} {i : ℕ} {x : α} (h : l <+: a.toList)
    (hx : l[i]? = some x) (hi : i < n) : a.set i x hi = a := by
  obtain ⟨r, hr⟩ := h
  have hlt : i < l.length := (List.getElem?_eq_some_iff.mp hx).1
  have hget : a[i]? = some x := by
    rw [← Vector.getElem?_toList, ← hr, List.getElem?_append_left hlt, hx]
  rw [Vector.getElem?_eq_getElem hi] at hget
  rw [← Option.some.inj hget, Vector.set_getElem_self]

/-- What holds of all elements still does after one is replaced by another with it. -/
theorem forall_get_put {P : α → Prop} {a : Vector α n} (h : ∀ j, P (a.get j)) (i : Fin n) {x : α}
    (hx : P x) (j : Fin n) : P ((put a i x).get j) := by
  rw [get_put]
  split_ifs
  · exact hx
  · exact h j

theorem put_ofFn (f : Fin n → α) (i : Fin n) (x : α) :
    put (Vector.ofFn f) i x = Vector.ofFn fun j => if i = j then x else f j := by
  ext j hj
  simp only [put, Vector.getElem_set, Vector.getElem_ofFn, Fin.ext_iff]

theorem store_fin (a : Vector α n) (i : Fin n) (x : α) : store a i x = some (put a i x) :=
  store_of_lt a i.isLt x

theorem get_replicate (x : α) (i : Fin n) : (Vector.replicate n x).get i = x := by
  show (Vector.replicate n x)[i] = x
  simp only [Fin.getElem_fin, Vector.getElem_replicate]

/-- `Vector.ofFn`, made from a list, which evaluates faster. -/
def tabulate (f : Fin n → α) : Vector α n := ⟨(List.ofFn f).toArray, by simp⟩

theorem tabulate_eq (f : Fin n → α) : tabulate f = Vector.ofFn f := by
  ext i hi
  simp only [tabulate, Vector.getElem_mk, List.getElem_toArray, List.getElem_ofFn,
    Vector.getElem_ofFn]

theorem get_tabulate (f : Fin n → α) (i : Fin n) : (tabulate f).get i = f i := by
  show (tabulate f)[i] = f i
  rw [tabulate_eq, Fin.getElem_fin, Vector.getElem_ofFn]

theorem toList_tabulate (f : Fin n → α) : (tabulate f).toList = List.ofFn f := rfl

/-! ### Copying and reading blocks -/

/-- `memcpy(a, xs, xs.length)`: the elements of `xs` replace the first elements of `a`. -/
def memcpy (a : Vector α n) (xs : List α) : Option (Vector α n) :=
  if h : xs.length ≤ n then
    some ⟨(xs ++ a.toList.drop xs.length).toArray, by simp; omega⟩
  else none

/-- The `len` elements of `a` that start at index `off`. -/
def slice (a : Vector α n) (off len : ℕ) : Option (List α) :=
  if off + len ≤ n then some ((a.toList.drop off).take len) else none

theorem memcpy_eq_some (a : Vector α n) {xs : List α} (h : xs.length ≤ n) :
    ∃ a', memcpy a xs = some a' ∧ a'.toList = xs ++ a.toList.drop xs.length := by
  refine ⟨_, dif_pos h, ?_⟩
  rw [← Vector.toList_toArray]

theorem slice_of_le (a : Vector α n) {off len : ℕ} (h : off + len ≤ n) :
    slice a off len = some ((a.toList.drop off).take len) :=
  if_pos h

/-- A slice has the length it is read with. -/
theorem length_of_slice {a : Vector α n} {off len : ℕ} {xs : List α}
    (h : slice a off len = some xs) : xs.length = len := by
  unfold slice at h
  split_ifs at h with hle
  obtain rfl := Option.some.inj h
  simp
  omega

/-- **What was copied can be read back**, whole or in parts. -/
theorem slice_memcpy {a a' : Vector α n} {xs : List α} (h : memcpy a xs = some a')
    {off len : ℕ} (hle : off + len ≤ xs.length) :
    slice a' off len = some ((xs.drop off).take len) := by
  have hn : xs.length ≤ n := by
    by_contra hlt
    rw [memcpy, dif_neg hlt] at h
    cases h
  obtain ⟨b, hb, hlist⟩ := memcpy_eq_some a hn
  obtain rfl : a' = b := Option.some.inj (h.symm.trans hb)
  rw [slice_of_le _ (by omega), hlist, List.drop_append_of_le_length (by omega),
    List.take_append_of_le_length (by simp; omega)]

theorem slice_memcpy_self {a a' : Vector α n} {xs : List α} (h : memcpy a xs = some a') :
    slice a' 0 xs.length = some xs := by
  rw [slice_memcpy h (by omega), List.drop_zero, List.take_length]

/-- A block read in two pieces: the first `k` elements, then the rest. -/
theorem slice_split {a : Vector α n} {off len k : ℕ} {xs : List α} (hk : k ≤ len)
    (h : slice a off len = some xs) :
    slice a off k = some (xs.take k) ∧ slice a (off + k) (len - k) = some (xs.drop k) := by
  unfold slice at h
  split_ifs at h with hle
  obtain rfl := Option.some.inj h
  constructor
  · rw [slice_of_le _ (by omega), List.take_take, Nat.min_eq_left hk]
  · rw [slice_of_le _ (by omega), List.drop_take, List.drop_drop]

end Camkes.CArray
