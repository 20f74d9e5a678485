import Camkes.Fdtgen.Equiv.Dump

/-!
# The dump of a device tree

`dumpBlob_of_flattened`: `dump_blob` prints the source text of the device tree that a blob has been
made of.  The encoding of a tree is a sequence of tokens (`tokensAt_of_encode`, by induction on the
tree), and the lines for these tokens are the text of the tree (`renderTokens_tokens`).
-/

namespace Camkes.Fdtgen

open WhileLoop (Exits)

variable {b : Block} {version pStrings p q : UInt32} {l : List UInt8} {a : ℕ} {old : Bool}

/-! ### Text -/

/-- The second half of some tokens is printed at the depth the first half has led to. -/
theorem renderTokens_append (d : ℤ) (ts ts' : List Token) :
    renderTokens d (ts ++ ts') =
      renderTokens d ts ++ renderTokens (ts.foldl Token.depth d) ts' := by
  induction ts generalizing d with
  | nil => rfl
  | cons t ts ih =>
    rw [List.cons_append, renderTokens, ih, renderTokens, List.append_assoc]
    rfl

/-- The tokens of a tree nest. -/
theorem foldl_depth_tokens (c : Contents) (d : ℤ) : c.tokens.foldl Token.depth d = d := by
  induction c generalizing d with
  | nil => rfl
  | nop rest ih => exact ih d
  | prop nameoff name value rest ih => exact ih d
  | node name body rest ihb ihr =>
    rw [Contents.tokens, List.foldl_cons, List.foldl_append, ihb, List.foldl_cons]
    show rest.tokens.foldl Token.depth (d + 1 - 1) = d
    rw [Int.add_sub_cancel, ihr]

theorem blanks_eq (d : ℕ) : blanks (d * shift) = List.replicate (4 * d) ' ' := by
  have habs : ((d : ℤ) * shift).natAbs = 4 * d := by
    rw [shift]
    omega
  rw [blanks, habs]

/-- The lines of the tokens are the text of the tree. -/
theorem renderTokens_tokens (c : Contents) (d : ℕ) : renderTokens d c.tokens = c.render d := by
  induction c generalizing d with
  | nil => rfl
  | nop rest ih =>
    rw [Contents.tokens, renderTokens, Token.render, blanks_eq, Contents.render, ← ih]
    rfl
  | prop nameoff name value rest ih =>
    rw [Contents.tokens, renderTokens, Token.render, blanks_eq, Contents.render, ← ih]
    rfl
  | node name body rest ihb ihr =>
    have hup : Token.depth d (.beginNode name.bytes) = ((d + 1 : ℕ) : ℤ) := rfl
    have hdown : ((d + 1 : ℕ) : ℤ) - 1 = d := by omega
    rw [Contents.tokens, renderTokens, renderTokens_append, hup, foldl_depth_tokens, renderTokens,
      Token.render, Token.render, Token.depth, hdown, blanks_eq, Contents.render, ihb, ihr]
    simp only [List.append_assoc]

/-! ### Addresses -/

/-- The address `p` is aligned as the number `a` is. -/
def Aligned (p : UInt32) (a : ℕ) : Prop := p.toNat % 8 = a % 8 ∧ a % 4 = 0

theorem Aligned.add (h : Aligned p a) {n : ℕ} (hn : n % 4 = 0) :
    Aligned (p + UInt32.ofNat n) (a + n) := by
  obtain ⟨hp, ha⟩ := h
  refine ⟨?_, by omega⟩
  rw [UInt32.toNat_add, UInt32.toNat_ofNat']
  omega

theorem length_padding (n k : ℕ) : (padding n k).length = (n + (k - 1)) / k * k - n :=
  List.length_replicate

/-- The next aligned address comes after the padding. -/
theorem Aligned.palign_four (h : Aligned p a) (n : ℕ) :
    palign (p + UInt32.ofNat n) 4 = p + UInt32.ofNat (n + (padding n 4).length) := by
  obtain ⟨k, hk, hdvd, heq⟩ := palign_four_eq (p + UInt32.ofNat n)
  obtain ⟨hp, ha⟩ := h
  have hk' : k = (padding n 4).length := by
    rw [UInt32.toNat_add, UInt32.toNat_ofNat'] at hdvd
    rw [length_padding]
    omega
  rw [heq, add_ofNat_add, hk']

/-- `PALIGN` to 8 skips the padding of the encoding. -/
theorem Aligned.palign_eight (h : Aligned p a) {n : ℕ} (hn : n % 4 = 0) :
    palign (p + UInt32.ofNat n) 8 = p + UInt32.ofNat (n + (padding (a + n) 8).length) := by
  obtain ⟨k, hk, hdvd, heq⟩ := palign_eight_eq (p + UInt32.ofNat n)
  obtain ⟨hp, ha⟩ := h
  have hk' : k = (padding (a + n) 8).length := by
    rw [UInt32.toNat_add, UInt32.toNat_ofNat'] at hdvd
    rw [length_padding]
    omega
  rw [heq, add_ofNat_add, hk']

/-! ### Tokens in an encoding -/

theorem prefix_mem_four {x : ℕ} (h : cell x ++ l <+: b.mem p) : l <+: b.mem (p + 4) := by
  have htail := (Block.append_prefix_mem_iff.mp h).2
  rwa [length_cell] at htail

theorem length_encodeBegin (name : Name) :
    (encodeBegin name).length =
      4 + name.bytes.length + 1 + (padding (4 + name.bytes.length + 1) 4).length := by
  simp only [encodeBegin, List.length_append, length_cell, List.length_singleton, length_padding]
  omega

/-- The encoding of the beginning of a node is read as that token. -/
theorem tokenAt_beginNode {name : Name} (ha : Aligned p a)
    (h : encodeBegin name ++ l <+: b.mem p) :
    TokenAt b version pStrings p (.beginNode name.bytes)
      (p + UInt32.ofNat (encodeBegin name).length) := by
  simp only [encodeBegin, List.append_assoc] at h
  have hname : cstring b (p + 4) = some name.bytes := by
    obtain ⟨t, ht⟩ := prefix_mem_four h
    rw [cstring, ← ht, List.append_assoc, List.singleton_append, List.cons_append]
    exact CString.read_append_zero name.notMem _
  have haddr : p + 4 + UInt32.ofNat name.bytes.length + 1 =
      p + UInt32.ofNat (4 + name.bytes.length + 1) := by
    rw [← add_ofNat_add, ← add_ofNat_add]
    rfl
  have hq := ha.palign_four (4 + name.bytes.length + 1)
  rw [← haddr, ← length_encodeBegin] at hq
  rw [← hq]
  exact .beginNode (getCell_of_cell h (by decide)) hname

/-- How far it is to the value of a property. -/
def valueOffset (old : Bool) (a len : ℕ) : ℕ :=
  12 + (if old ∧ 8 ≤ len then padding (a + 12) 8 else []).length

/-- The value of a property begins where the encoding puts it. -/
theorem Aligned.valueAt_eq (ha : Aligned p a) (len : ℕ) :
    valueAt version (p + 4 + 4 + 4) len =
      p + UInt32.ofNat (valueOffset (version < 16) a len) := by
  have htwelve : p + 4 + 4 + 4 = p + UInt32.ofNat 12 := by
    rw [UInt32.add_assoc, UInt32.add_assoc]
    rfl
  rw [valueAt, htwelve, valueOffset]
  by_cases hv : version < 16 ∧ 8 ≤ len
  · rw [if_pos hv, if_pos (by simpa using hv)]
    exact ha.palign_eight (by decide)
  · rw [if_neg hv, if_neg (by simpa using hv)]
    rfl

theorem length_encodeProp (ha : Aligned p a) (nameoff : UInt32) (value : Value) :
    (encodeProp old a nameoff value).length =
      valueOffset old a value.bytes.length + value.bytes.length +
        (padding (valueOffset old a value.bytes.length + value.bytes.length) 4).length := by
  have ha4 := ha.2
  simp only [encodeProp, valueOffset, List.length_append, length_cell]
  split_ifs
  · simp only [length_padding]
    omega
  · simp only [length_padding, List.length_nil]
    omega

/-- The encoding of a property is read as that token. -/
theorem tokenAt_prop {nameoff : UInt32} {name : Name} {value : Value} (ha : Aligned p a)
    (h : encodeProp (version < 16) a nameoff value ++ l <+: b.mem p)
    (hname : cstring b (pStrings + nameoff) = some name.bytes) :
    TokenAt b version pStrings p (.prop name.bytes value.bytes)
      (p + UInt32.ofNat (encodeProp (version < 16) a nameoff value).length) := by
  have hlt := value.length_lt
  have hdata : value.bytes <+: b.mem (valueAt version (p + 4 + 4 + 4) value.bytes.length) := by
    simp only [encodeProp, List.append_assoc] at h
    have htail := prefix_mem_four (prefix_mem_four (prefix_mem_four h))
    rw [ha.valueAt_eq, valueOffset, ← add_ofNat_add]
    have hvalue := (Block.append_prefix_mem_iff.mp htail).2
    rw [UInt32.add_assoc p, UInt32.add_assoc p] at hvalue
    exact (List.prefix_append _ _).trans hvalue
  have hq := ha.palign_four
    (valueOffset (version < 16) a value.bytes.length + value.bytes.length)
  rw [← length_encodeProp ha, ← add_ofNat_add, ← ha.valueAt_eq] at hq
  rw [← hq]
  simp only [encodeProp, List.append_assoc] at h
  have hlen := getCell_of_cell (prefix_mem_four h) (by omega)
  have hoff := getCell_of_cell (prefix_mem_four (prefix_mem_four h)) nameoff.toNat_lt
  rw [UInt32.ofNat_toNat] at hoff
  exact .prop (getCell_of_cell h (by decide)) hlen hoff hname hlt hdata

/-! ### Trees -/

theorem length_encodeBegin_mod (name : Name) : (encodeBegin name).length % 4 = 0 := by
  rw [length_encodeBegin, length_padding]
  omega

theorem length_encodeProp_mod (old : Bool) (ha : Aligned p a) (nameoff : UInt32) (value : Value) :
    (encodeProp old a nameoff value).length % 4 = 0 := by
  rw [length_encodeProp ha, length_padding]
  omega

/-- The encoding of a tree takes whole cells. -/
theorem length_encode_mod (old : Bool) (ha : Aligned p a) (c : Contents) :
    (c.encode old a).length % 4 = 0 := by
  induction c generalizing p a with
  | nil => rfl
  | nop rest ih =>
    have hrest := ih (ha.add (n := 4) (by decide))
    rw [Contents.encode, List.length_append, length_cell]
    omega
  | prop nameoff name value rest ih =>
    have hentry := length_encodeProp_mod old ha nameoff value
    have hrest := ih (ha.add hentry)
    rw [Contents.encode, List.length_append]
    omega
  | node name body rest ihb ihr =>
    have hhead := length_encodeBegin_mod name
    have hinner := ihb (ha.add hhead)
    have hrest := ihr (((ha.add hhead).add hinner).add (n := 4) (by decide))
    simp only [Contents.encode, List.length_append, length_cell]
    omega

/-- **The encoding of a tree** is the sequence of its tokens. -/
theorem tokensAt_of_encode (c : Contents) (ha : Aligned p a)
    (h : c.encode (version < 16) a ++ l <+: b.mem p) (hnames : c.HasNames b pStrings) :
    TokensAt b version pStrings p c.tokens
      (p + UInt32.ofNat (c.encode (version < 16) a).length) := by
  induction c generalizing p a l with
  | nil =>
    have hzero : p + UInt32.ofNat 0 = p := UInt32.add_zero p
    rw [Contents.encode, List.length_nil, hzero]
    exact .nil p
  | nop rest ih =>
    rw [Contents.encode, List.append_assoc] at h
    rw [Contents.encode, List.length_append, length_cell, ← add_ofNat_add]
    exact .cons (.nop (getCell_of_cell h (by decide)))
      (ih (ha.add (n := 4) (by decide)) (prefix_mem_four h) hnames)
  | prop nameoff name value rest ih =>
    obtain ⟨hname, hnames⟩ := hnames
    simp only [Contents.encode, List.append_assoc] at h
    have hrest := (Block.append_prefix_mem_iff.mp h).2
    have haligned := ha.add (length_encodeProp_mod (version < 16) ha nameoff value)
    simp only [Contents.encode, List.length_append]
    rw [← add_ofNat_add]
    exact .cons (tokenAt_prop ha h hname) (ih haligned hrest hnames)
  | node name body rest ihb ihr =>
    obtain ⟨hbody, hnames⟩ := hnames
    simp only [Contents.encode, List.append_assoc] at h
    have hinner := (Block.append_prefix_mem_iff.mp h).2
    have hend := (Block.append_prefix_mem_iff.mp hinner).2
    have hhead := ha.add (length_encodeBegin_mod name)
    have htail := hhead.add (length_encode_mod (version < 16) hhead body)
    simp only [Contents.encode, List.length_append, length_cell]
    rw [← add_ofNat_add, ← add_ofNat_add, ← add_ofNat_add]
    refine .cons (tokenAt_beginNode ha h) ((ihb hhead hinner hbody).append ?_)
    exact .cons (.endNode (getCell_of_cell hend (by decide)))
      (ihr (htail.add (n := 4) (by decide)) (prefix_mem_four hend) hnames)

/-! ### The dump -/

/-- **The dump of a device tree** is the text of its header, of the reservations and of the tree. -/
theorem dumpBlob_of_flattened {f : FdtHeader} {entries : List (UInt64 × UInt64)} {tree : Contents}
    (hf : Flattened b f entries tree) :
    ∃ n, ∀ rounds ≥ n, dumpBlob b rounds =
      .done ⟨f.render ++ entries.flatMap renderReservation ++ tree.render 0, []⟩ := by
  obtain ⟨hh, hheader⟩ := header_iff.mpr ⟨f, hf.header, rfl, rfl⟩
  have haligned : Aligned (b.base + f.offDtStruct) (b.base + f.offDtStruct).toNat := by
    have hbase := b.aligned
    have hoff := hf.offDtStruct_aligned
    refine ⟨rfl, ?_⟩
    rw [UInt32.toNat_add]
    omega
  have hts := tokensAt_of_encode tree haligned hf.struct hf.names
  have hend := getCell_of_cell (l := []) (x := 9) (by
    rw [List.append_nil]
    exact (Block.append_prefix_mem_iff.mp hf.struct).2) (by decide)
  have hrender : renderTokens 0 tree.tokens = tree.render 0 := renderTokens_tokens tree 0
  have hstruct : Exits (structBody b f.version (b.base + f.offDtStrings))
      ⟨b.base + f.offDtStruct, 0, []⟩ ⟨tree.render 0, []⟩ := by
    rw [← hrender]
    exact struct_exits_of_tokensAt hts hend .normally
  have hrsvmap : Exits (rsvmapBody b) (b.base + f.offMemRsvmap, [])
      (entries.flatMap renderReservation) :=
    rsvmap_exits_iff.mpr ⟨entries, hf.entries_ne, hf.rsvmap, rfl⟩
  obtain ⟨n, hn⟩ := WhileLoop.exists_forall_run_eq_done hstruct
  obtain ⟨m, hm⟩ := WhileLoop.exists_forall_run_eq_done hrsvmap
  refine ⟨max n m, fun rounds hrounds => ?_⟩
  have hn' := hn rounds (by omega)
  have hm' := hm rounds (by omega)
  rw [dumpBlob, hh, WhileLoop.ofOption_some, WhileLoop.done_bind, hheader,
    WhileLoop.ofOption_some, WhileLoop.done_bind]
  simp only [FdtHeader.variables]
  rw [hm', WhileLoop.done_bind, hn', WhileLoop.done_bind]

/-- A blob of version 17 with a reservation and two nodes. -/
def exampleBlob : Block where
  base := 0x2000
  bytes :=
    -- the header
    [0xd0, 0x0d, 0xfe, 0xed, 0, 0, 0, 185, 0, 0, 0, 72, 0, 0, 0, 168, 0, 0, 0, 40,
      0, 0, 0, 17, 0, 0, 0, 16, 0, 0, 0, 0, 0, 0, 0, 17, 0, 0, 0, 96] ++
    -- the memory reservation block
    [0, 0, 0, 0, 0x10, 0, 0, 0, 0, 0, 0, 0, 0, 0, 0x40, 0, 0, 0, 0, 0, 0, 0, 0, 0, 0, 0, 0, 0,
      0, 0, 0, 0] ++
    -- the structure block: the root node with `model`, a NOP, and the node `cpu`
    [0, 0, 0, 1, 0, 0, 0, 0] ++
    [0, 0, 0, 3, 0, 0, 0, 4, 0, 0, 0, 0, 97, 0, 98, 0] ++
    [0, 0, 0, 4] ++
    [0, 0, 0, 1, 99, 112, 117, 0] ++
    [0, 0, 0, 3, 0, 0, 0, 8, 0, 0, 0, 6, 0, 0, 0, 1, 128, 0, 0, 0] ++
    [0, 0, 0, 3, 0, 0, 0, 3, 0, 0, 0, 10, 1, 2, 255, 0] ++
    [0, 0, 0, 3, 0, 0, 0, 0, 0, 0, 0, 14] ++
    [0, 0, 0, 2, 0, 0, 0, 2, 0, 0, 0, 9] ++
    -- the strings block: `model`, `reg`, `mac` and `on`
    [109, 111, 100, 101, 108, 0, 114, 101, 103, 0, 109, 97, 99, 0, 111, 110, 0]
  aligned := by decide
  length_lt := by decide +kernel

/-- The header of `exampleBlob`. -/
def exampleHeader : FdtHeader := ⟨0xd00dfeed, 185, 72, 168, 40, 17, 16, 0, 17, 96⟩

/-- The node `cpu`, with a value of cells, one of bytes and an empty one. -/
def exampleNode : Contents :=
  .prop 6 ⟨[114, 101, 103], by decide⟩ ⟨[0, 0, 0, 1, 128, 0, 0, 0], by decide⟩
    (.prop 10 ⟨[109, 97, 99], by decide⟩ ⟨[1, 2, 255], by decide⟩
      (.prop 14 ⟨[111, 110], by decide⟩ ⟨[], by decide⟩ .nil))

/-- The tree of `exampleBlob`; the value of `model` is the strings `a` and `b`. -/
def exampleTree : Contents :=
  .node ⟨[], by decide⟩
    (.prop 0 ⟨[109, 111, 100, 101, 108], by decide⟩ ⟨[97, 0, 98, 0], by decide⟩
      (.nop (.node ⟨[99, 112, 117], by decide⟩ exampleNode .nil))) .nil

theorem dumpBlob_of_flattened_example :
    ∃ n, ∀ rounds ≥ n, dumpBlob exampleBlob rounds = .done
      ⟨[ "/dts-v1/;\n",
        "// magic:\t\t0xd00dfeed\n",
        "// totalsize:\t\t0xb9 (185)\n",
        "// off_dt_struct:\t0x48\n",
        "// off_dt_strings:\t0xa8\n",
        "// off_mem_rsvmap:\t0x28\n",
        "// version:\t\t17\n",
        "// last_comp_version:\t16\n",
        "// boot_cpuid_phys:\t0x0\n",
        "// size_dt_strings:\t0x11\n",
        "// size_dt_struct:\t0x60\n",
        "\n",
        "/memreserve/ 10000000 4000;\n",
        "/ \x7b\n",
        "    model = \"a\";\n",
        "    // [NOP]\n",
        "    cpu \x7b\n",
        "        reg = <0x00000001 0x80000000>;\n",
        "        mac = [01 02 ff];\n",
        "        on;\n",
        "    \x7d;\n",
        "\x7d;\n"].flatMap String.toList, []⟩ := by
  have hf : Flattened exampleBlob exampleHeader [(0x10000000, 0x4000)] exampleTree :=
    { header := by decide +kernel
      entries_ne := by simp
      rsvmap := by decide +kernel
      offDtStruct_aligned := by decide
      struct := by decide +kernel
      names := ⟨⟨by decide +kernel,
        ⟨by decide +kernel, by decide +kernel, by decide +kernel, trivial⟩, trivial⟩, trivial⟩ }
  obtain ⟨n, hn⟩ := dumpBlob_of_flattened hf
  refine ⟨n, fun rounds hrounds => ?_⟩
  rw [hn rounds hrounds]
  decide +kernel

end Camkes.Fdtgen
