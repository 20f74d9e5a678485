import Camkes.ReverseString.Equiv.Process
import Camkes.ReverseString.Pipeline

/-!
# What comes out of the pipelines

A pipeline appends "world", cuts the string at 127 characters, and makes it upper case (`piped`);
what comes out is the reversal of that if Reverse reverses it (`printed_multiassembly`).  Behind two
pipelines it is the argument in upper case between "DLROW" and "WORLD"
(`printed_hierarchicalComponents`), or not, depending on one pair of characters.
-/

namespace Camkes.ReverseString

variable {s : List UInt8} {buf buf' : Vector UInt8 appendBufSize} {str : Str}

/-! ### Each component -/

theorem Str.ofPassed_val (h : 0 ∉ s) : Str.ofPassed s = ⟨s, h⟩ :=
  Subtype.ext (Sentinel.takeWhile_of_notMem h)

/-- A string in upper case. -/
def upper (s : List UInt8) : List UInt8 := s.map upperChar

theorem isLower_iff (c : UInt8) :
    'a'.toUInt8 ≤ c ∧ c ≤ 'z'.toUInt8 ↔ 97 ≤ c.toNat ∧ c.toNat ≤ 122 := Iff.rfl

/-- Only the letters `a` to `z` are changed, to the ones 32 below. -/
theorem toNat_upperChar (c : UInt8) :
    (upperChar c).toNat = if 97 ≤ c.toNat ∧ c.toNat ≤ 122 then c.toNat - 32 else c.toNat := by
  have hdist : toUpperDist.toNat = 224 := by decide
  rw [upperChar]
  simp only [isLower_iff]
  split_ifs
  · rw [UInt8.toNat_add, hdist]
    omega
  · rfl

theorem upperChar_eq_zero_iff (c : UInt8) : upperChar c = 0 ↔ c = 0 := by
  rw [← UInt8.toNat_inj, ← UInt8.toNat_inj, toNat_upperChar]
  show _ = 0 ↔ _ = 0
  split_ifs
  · omega
  · rfl

theorem upperChar_upperChar (c : UInt8) : upperChar (upperChar c) = upperChar c := by
  rw [← UInt8.toNat_inj, toNat_upperChar (upperChar c), toNat_upperChar]
  split_ifs
  · omega
  · rfl
  · rfl

theorem zero_notMem_upper (h : 0 ∉ s) : 0 ∉ upper s := by
  intro hmem
  obtain ⟨c, hc, hzero⟩ := List.mem_map.mp hmem
  exact h ((upperChar_eq_zero_iff c).mp hzero ▸ hc)

/-- The loop of UpperCase changes the characters before the NUL and stops there. -/
theorem upperLoop_eq (h : 0 ∉ s) (rest : List UInt8) :
    upperLoop (s ++ 0 :: rest) = some (upper s ++ 0 :: rest) := by
  induction s with
  | nil => rfl
  | cons c s ih =>
    rw [List.mem_cons, not_or] at h
    rw [List.cons_append, upperLoop, if_neg (Ne.symm h.1), ih h.2]
    rfl

theorem upperCase_eq (str : Str) : UpperCase.iProcess str = some (upper str.val) := by
  rw [UpperCase.iProcess, upperLoop_eq str.property]
  exact CString.read_append_zero (zero_notMem_upper str.property) []

theorem zero_notMem_stringToAppend : 0 ∉ stringToAppend := by decide

/-- What Append makes of its argument. -/
def appended (s : List UInt8) : List UInt8 := (s ++ stringToAppend).take (appendBufSize - 1)

theorem zero_notMem_appended (h : 0 ∉ s) : 0 ∉ appended s := by
  intro hmem
  rcases List.mem_append.mp (List.mem_of_mem_take hmem) with hs | hworld
  · exact h hs
  · exact zero_notMem_stringToAppend hworld

theorem length_stringToAppend : stringToAppend.length = 5 := by decide

/-- Append passes on its argument followed by `world`, cut to fit its buffer. -/
theorem append_eq (buf : Vector UInt8 appendBufSize) (hlen : str.val.length + 5 < 2 ^ 31) :
    Append.iProcess buf str = some (appended str.val) := by
  have hint : (str.val ++ stringToAppend).length < 2 ^ 31 := by
    rwa [List.length_append, length_stringToAppend]
  have hle : (appended str.val ++ [0]).length ≤ appendBufSize := by
    have hpos : 0 < appendBufSize := by decide
    rw [List.length_append, List.length_singleton, appended, List.length_take]
    omega
  obtain ⟨buf', hbuf, hlist⟩ := CArray.memcpy_eq_some buf hle
  have hsnprintf : Append.snprintf buf str.val = some buf' := by
    rw [Append.snprintf, if_pos hint]
    exact hbuf
  rw [Append.iProcess, hsnprintf]
  show CString.read buf'.toList = _
  rw [hlist, List.append_assoc, List.singleton_append]
  exact CString.read_append_zero (zero_notMem_appended str.property) _

/-! ### A pipeline -/

/-- The string that Reverse gets. -/
def piped (s : List UInt8) : List UInt8 := upper (appended s)

theorem zero_notMem_piped (h : 0 ∉ s) : 0 ∉ piped s := zero_notMem_upper (zero_notMem_appended h)

theorem length_piped (s : List UInt8) : (piped s).length = min 127 (s.length + 5) := by
  rw [piped, upper, List.length_map, appended, List.length_take, List.length_append,
    length_stringToAppend]
  rfl

/-- No component of a pipeline has a fault, and it passes on what Reverse makes of `piped`. -/
theorem pipeline_eq (buf : Vector UInt8 appendBufSize) (hlen : str.val.length + 5 < 2 ^ 31) :
    pipeline buf str = some (processed (piped str.val)) := by
  have happended := zero_notMem_appended str.property
  rw [pipeline, append_eq buf hlen]
  show (UpperCase.iProcess (.ofPassed (appended str.val))).bind _ = _
  rw [Str.ofPassed_val happended, upperCase_eq]
  show process (.ofPassed (piped str.val)) = _
  rw [Str.ofPassed_val (zero_notMem_piped str.property), process_eq]

theorem zero_notMem_processed_piped (str : Str) : 0 ∉ processed (piped str.val) :=
  zero_notMem_processed (zero_notMem_piped str.property)

theorem length_processed (s : List UInt8) : (processed s).length = s.length :=
  length_mirrorSwaps ..

theorem multiassembly_eq (buf : Vector UInt8 appendBufSize) (hlen : str.val.length + 5 < 2 ^ 31) :
    Multiassembly.printed buf str = some (processed (piped str.val)) := by
  rw [Multiassembly.printed, pipeline_eq buf hlen]
  show some (Str.ofPassed (processed (piped str.val))).val = _
  rw [Str.ofPassed_val (zero_notMem_processed_piped str)]

/-- `hierarchical-components` prints what its two pipelines pass on. -/
theorem hierarchicalComponents_eq (buf buf' : Vector UInt8 appendBufSize)
    (hlen : str.val.length + 5 < 2 ^ 31) :
    HierarchicalComponents.printed buf buf' str =
      some (processed (piped (processed (piped str.val)))) := by
  have hzero := zero_notMem_processed_piped str
  have hlen' : (processed (piped str.val)).length + 5 < 2 ^ 31 := by
    rw [length_processed, length_piped]
    omega
  rw [HierarchicalComponents.printed, pipeline_eq buf hlen]
  show (pipeline buf' (.ofPassed (processed (piped str.val)))).bind _ = _
  rw [Str.ofPassed_val hzero, pipeline_eq buf' hlen']
  show some (Str.ofPassed _).val = _
  rw [Str.ofPassed_val (zero_notMem_processed_piped ⟨_, hzero⟩)]

/-- **One pipeline.**  There is no fault, and what the server gets is the reversal when the string
that Reverse gets has no two different characters in its middle. -/
theorem printed_multiassembly (buf : Vector UInt8 appendBufSize) (str : Str)
    (hlen : str.val.length + 5 < 2 ^ 31) :
    (∃ out, Multiassembly.printed buf str = some out ∧
        out.length = min 127 (str.val.length + 5)) ∧
      (Multiassembly.printed buf str = some (piped str.val).reverse ↔
        Mirrored (piped str.val)) := by
  rw [multiassembly_eq buf hlen]
  constructor
  · refine ⟨_, rfl, ?_⟩
    rw [length_processed, length_piped]
  · rw [Option.some_inj, processed_eq_reverse_iff]

/-! ### Two pipelines -/

theorem mirrored_of_odd (hle : s.length ≤ 2 ^ 31) (hodd : s.length % 2 = 1) : Mirrored s := by
  rw [Mirrored, if_pos hle]
  exact Or.inl hodd

theorem mirrored_iff_of_even (hle : s.length ≤ 2 ^ 31) (heven : s.length % 2 = 0) :
    Mirrored s ↔ s[s.length / 2 - 1]? = s[s.length / 2]? := by
  rw [Mirrored, if_pos hle]
  simp [heven]

theorem processed_of_odd (hle : s.length ≤ 2 ^ 31) (hodd : s.length % 2 = 1) :
    processed s = s.reverse :=
  (processed_eq_reverse_iff s).mpr (mirrored_of_odd hle hodd)

theorem upper_append (s t : List UInt8) : upper (s ++ t) = upper s ++ upper t := List.map_append

theorem length_upper (s : List UInt8) : (upper s).length = s.length := List.length_map ..

/-- A string that is not cut. -/
theorem piped_of_le (hle : s.length ≤ 122) : piped s = upper (s ++ stringToAppend) := by
  rw [piped, appended, List.take_of_length_le]
  rw [List.length_append, length_stringToAppend]
  show _ ≤ 127
  omega

theorem mem_of_mem_processed {c : UInt8} (h : c ∈ processed s) : c ∈ s := by
  rcases Nat.eq_zero_or_pos s.length with hzero | hpos
  · obtain rfl := List.length_eq_zero_iff.mp hzero
    exact h
  · exact mem_of_mem_mirrorSwaps (lastIdx_lt hpos) (two_mul_rounds_le _) h

theorem upper_of_forall (h : ∀ c ∈ s, upperChar c = c) : upper s = s :=
  (List.map_congr_left h).trans (List.map_id' s)

theorem upperChar_of_mem_upper {c : UInt8} (h : c ∈ upper s) : upperChar c = c := by
  obtain ⟨d, -, rfl⟩ := List.mem_map.mp h
  exact upperChar_upperChar d

/-- Reverse does not change the case. -/
theorem upper_processed_upper (s : List UInt8) :
    upper (processed (upper s)) = processed (upper s) := by
  apply upper_of_forall
  intro c hc
  exact upperChar_of_mem_upper (mem_of_mem_processed hc)

theorem getElem?_between (a b c : List UInt8) {k : ℕ} (hk : k < b.length) :
    (a ++ b.reverse ++ c)[a.length + k]? = b[b.length - 1 - k]? := by
  have hrev : k < b.reverse.length := by rwa [List.length_reverse]
  rw [List.append_assoc, List.getElem?_append_right (by omega), Nat.add_sub_cancel_left,
    List.getElem?_append_left hrev, List.getElem?_reverse hk]

/-- What two pipelines are meant to make of a string. -/
def framed (s : List UInt8) : List UInt8 :=
  (upper stringToAppend).reverse ++ upper s ++ upper stringToAppend

theorem framed_eq (s : List UInt8) :
    framed s = ((upper (s ++ stringToAppend)).reverse ++ upper stringToAppend).reverse := by
  rw [List.reverse_append, List.reverse_reverse, upper_append, framed, List.append_assoc]

/-- With an even number of characters the first reversal is right, and in the middle of the second
there are the same two characters as in the middle of the argument. -/
theorem processed_even_iff (hle : s.length ≤ 117) (heven : s.length % 2 = 0) :
    processed ((upper (s ++ stringToAppend)).reverse ++ upper stringToAppend) = framed s ↔
      Mirrored (upper s) := by
  have hworld : (upper stringToAppend).length = 5 := by decide
  have hrev : (upper stringToAppend).reverse.length = 5 := by decide
  have hlen : ((upper stringToAppend).reverse ++ (upper s).reverse ++ upper stringToAppend).length =
      s.length + 10 := by
    rw [List.length_append, List.length_append, List.length_reverse, List.length_reverse,
      length_upper s, hworld]
    omega
  have hupper := length_upper s
  rw [framed_eq, processed_eq_reverse_iff, upper_append, List.reverse_append,
    mirrored_iff_of_even (by omega) (by omega), mirrored_iff_of_even (by omega) (by omega), hlen,
    hupper]
  rcases Nat.eq_zero_or_pos s.length with hzero | hpos
  · obtain rfl := List.length_eq_zero_iff.mp hzero
    decide
  · have hleft := getElem?_between (upper stringToAppend).reverse (upper s) (upper stringToAppend)
      (k := s.length / 2 - 1) (by omega)
    have hright := getElem?_between (upper stringToAppend).reverse (upper s) (upper stringToAppend)
      (k := s.length / 2) (by omega)
    have hidx : (s.length + 10) / 2 - 1 = 5 + (s.length / 2 - 1) := by omega
    have hidx' : (s.length + 10) / 2 = 5 + s.length / 2 := by omega
    have hmid : s.length - 1 - (s.length / 2 - 1) = s.length / 2 := by omega
    have hmid' : s.length - 1 - s.length / 2 = s.length / 2 - 1 := by omega
    rw [hrev, hupper, hmid] at hleft
    rw [hrev, hupper, hmid'] at hright
    rw [hidx, hidx', hleft, hright]
    exact eq_comm

/-- With an odd number of characters the second reversal is right. -/
theorem processed_odd_iff (hle : s.length ≤ 117) (hodd : s.length % 2 = 1) :
    processed (processed (upper (s ++ stringToAppend)) ++ upper stringToAppend) = framed s ↔
      Mirrored (upper (s ++ stringToAppend)) := by
  have hworld : (upper stringToAppend).length = 5 := by decide
  have hlen : (processed (upper (s ++ stringToAppend)) ++ upper stringToAppend).length =
      s.length + 10 := by
    rw [List.length_append, length_processed, length_upper, List.length_append,
      length_stringToAppend, hworld]
  rw [processed_of_odd (by omega) (by omega), framed_eq, List.reverse_inj,
    List.append_left_inj, processed_eq_reverse_iff]

/-- The string whose middle decides what two pipelines make of `s`. -/
def decisive (s : List UInt8) : List UInt8 :=
  if s.length % 2 = 0 then upper s else upper (s ++ stringToAppend)

theorem length_framed (s : List UInt8) : (framed s).length = s.length + 10 := by
  have hworld : (upper stringToAppend).length = 5 := by decide
  rw [framed, List.length_append, List.length_append, List.length_reverse, length_upper s, hworld]
  omega

/-- A string that neither of the pipelines cuts. -/
theorem processed_twice_iff (hle : s.length ≤ 117) :
    processed (piped (processed (piped s))) = framed s ↔ Mirrored (decisive s) := by
  have hlen : (upper (s ++ stringToAppend)).length = s.length + 5 := by
    rw [length_upper, List.length_append, length_stringToAppend]
  have hshort : (processed (upper (s ++ stringToAppend))).length ≤ 122 := by
    rw [length_processed, hlen]
    omega
  have hfirst : piped s = upper (s ++ stringToAppend) := piped_of_le (by omega)
  rw [hfirst, piped_of_le hshort, upper_append (processed _), upper_processed_upper, decisive]
  split_ifs with heven
  · rw [processed_of_odd (s := upper (s ++ stringToAppend)) (by omega) (by omega)]
    exact processed_even_iff hle heven
  · exact processed_odd_iff hle (by omega)

/-- **Two pipelines.**  The argument comes out in upper case between "DLROW" and "WORLD" exactly
when it has at most 117 characters, and the two characters in the middle of a string are the same:
of the argument when its length is even, and otherwise of what the first Reverse gets. -/
theorem printed_hierarchicalComponents (buf buf' : Vector UInt8 appendBufSize) (str : Str)
    (hlen : str.val.length + 5 < 2 ^ 31) :
    HierarchicalComponents.printed buf buf' str = some (framed str.val) ↔
      str.val.length ≤ 117 ∧ Mirrored (decisive str.val) := by
  rw [hierarchicalComponents_eq buf buf' hlen, Option.some_inj]
  constructor
  · intro h
    have hlength := congrArg List.length h
    rw [length_processed, length_piped, length_processed, length_piped, length_framed] at hlength
    have hle : str.val.length ≤ 117 := by omega
    exact ⟨hle, (processed_twice_iff hle).mp h⟩
  · intro ⟨hle, hmirrored⟩
    exact (processed_twice_iff hle).mpr hmirrored

/-- The string that the clients pass, "hello ". -/
def hello : Str := ⟨"hello ".toList.map Char.toUInt8, by decide⟩

theorem printed_multiassembly_hello :
    (∃ out, Multiassembly.printed (.replicate _ 0) hello = some out ∧ out.length = 11) ∧
      (Multiassembly.printed (.replicate _ 0) hello = some (piped hello.val).reverse ↔
        Mirrored (piped hello.val)) :=
  printed_multiassembly (.replicate _ 0) hello (by decide)

theorem printed_hierarchicalComponents_hello :
    HierarchicalComponents.printed (.replicate _ 0) (.replicate _ 0) hello =
      some ("DLROWHELLO WORLD".toList.map Char.toUInt8) :=
  (printed_hierarchicalComponents (.replicate _ 0) (.replicate _ 0) hello (by decide)).mpr
    ⟨by decide, by simp [Mirrored, decisive, upper, hello, upperChar]⟩

end Camkes.ReverseString
