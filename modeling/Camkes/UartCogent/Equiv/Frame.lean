import Camkes.Data.BitField
import Camkes.UartCogent.Serial

/-!
# What the configuration changes
-/

namespace Camkes.UartCogent

open BitField

variable {k w w' : U32} {charSize stopBits : U32}

/-! ### Specifications -/

/-- `regs'` is `regs` with this format and some rate.  WS, STPB, PROE and PREN are the bits 5 to 8
of CR2, and RFDIV is the field of the bits 7 to 9 of FCR. -/
structure Configured (charSize : U32) (parity : Parity) (stopBits : U32)
    (regs regs' : IMXUartRegs) : Prop where
  ws : regs'.cr2 &&& 0x20 = if charSize = 8 then 0x20 else 0
  stpb : regs'.cr2 &&& 0x40 = if stopBits = 2 then 0x40 else 0
  pren : regs'.cr2 &&& 0x100 = if parity = .none then 0 else 0x100
  proe_odd : parity = .odd → regs'.cr2 &&& 0x80 = 0x80
  proe_even : parity = .even → regs'.cr2 &&& 0x80 = 0
  proe_none : parity = .none → AgreeOn 0x80 regs'.cr2 regs.cr2
  cr2 : AgreeOn 0xfffffe1f regs'.cr2 regs.cr2
  rfdiv : regs'.fcr &&& 0x380 = 0x200
  fcr : AgreeOn 0xfffffc7f regs'.fcr regs.fcr
  others : regs' =
    { regs with cr2 := regs'.cr2, fcr := regs'.fcr, bir := regs'.bir, bmr := regs'.bmr }

/-- `regs'` is what `uart_init_cg` makes of the registers that are configured as `regs`.  UARTEN and
RRDYEN are the bits 0 and 9 of CR1; SRST, RXEN, TXEN and IRTS are the bits 0, 1, 2 and 14 of CR2;
RXDMUXDEL is the bit 2 of CR3; and RXTL is the field of the bits 0 to 4 of FCR. -/
structure Initialized (regs regs' : IMXUartRegs) : Prop where
  uarten : regs'.cr1 &&& 0x1 = 0x1
  rrdyen : regs'.cr1 &&& 0x200 = 0x200
  cr1 : AgreeOn 0xfffffdfe regs'.cr1 regs.cr1
  srst : regs'.cr2 &&& 0x1 = 0
  rxen : regs'.cr2 &&& 0x2 = 0x2
  txen : regs'.cr2 &&& 0x4 = 0x4
  irts : regs'.cr2 &&& 0x4000 = 0x4000
  cr2 : AgreeOn 0xffffbff8 regs'.cr2 regs.cr2
  rxdmuxdel : regs'.cr3 &&& 0x4 = 0x4
  cr3 : AgreeOn 0xfffffffb regs'.cr3 regs.cr3
  rxtl : regs'.fcr &&& 0x1f = 0x1
  fcr : AgreeOn 0xffffffe0 regs'.fcr regs.fcr
  others : regs' =
    { regs with cr1 := regs'.cr1, cr2 := regs'.cr2, cr3 := regs'.cr3, fcr := regs'.fcr }

/-! ### Flags -/

/-- The flags of CR2 that `serial_configure_cg` changes. -/
def configuredFlags : U32 :=
  flagUartCr2Ws ||| flagUartCr2Stpb ||| flagUartCr2Pren ||| flagUartCr2Proe

/-! ### CR2 -/

/-- The character size in CR2. -/
def cr2ByCharSize (charSize cr2 : U32) : U32 :=
  if charSize = 8 then cr2 ||| flagUartCr2Ws
  else if charSize = 7 then cr2 &&& ~~~flagUartCr2Ws
  else 0

/-- The stop bits in CR2. -/
def cr2ByStopBits (stopBits cr2 : U32) : U32 :=
  if stopBits = 2 then cr2 ||| flagUartCr2Stpb
  else if stopBits = 1 then cr2 &&& ~~~flagUartCr2Stpb
  else 0

/-- The format in CR2. -/
def cr2ByFormat (charSize : U32) (parity : Parity) (stopBits cr2 : U32) : U32 :=
  computeCr2ByParity parity (cr2ByStopBits stopBits (cr2ByCharSize charSize cr2))

theorem serialConfigureCg_fcr (regs : IMXUartRegs) (bps : U64) (charSize : U32) (parity : Parity)
    (stopBits : U32) : (serialConfigureCg regs bps charSize parity stopBits).fcr =
      (regs.fcr &&& ~~~uartFcrRfdivMask ||| uartFcrRfdiv 4) :=
  rfl

theorem cr2ByCharSize_and_ws (hchar : charSize = 7 ∨ charSize = 8) (w : U32) :
    cr2ByCharSize charSize w &&& flagUartCr2Ws = if charSize = 8 then flagUartCr2Ws else 0 := by
  rcases hchar with rfl | rfl
  · exact andNot_and_self w flagUartCr2Ws
  · exact or_and_self w flagUartCr2Ws

theorem cr2ByStopBits_and_stpb (hstop : stopBits = 1 ∨ stopBits = 2) (w : U32) :
    cr2ByStopBits stopBits w &&& flagUartCr2Stpb =
      if stopBits = 2 then flagUartCr2Stpb else 0 := by
  rcases hstop with rfl | rfl
  · exact andNot_and_self w flagUartCr2Stpb
  · exact or_and_self w flagUartCr2Stpb

/-- The bit that turns the parity on. -/
theorem computeCr2ByParity_and_pren (parity : Parity) (w : U32) :
    computeCr2ByParity parity w &&& flagUartCr2Pren =
      if parity = .none then 0 else flagUartCr2Pren := by
  have hset := or_and_self w flagUartCr2Pren
  cases parity with
  | none => exact andNot_and_self w flagUartCr2Pren
  | even =>
    have hdisjoint : flagUartCr2Proe &&& flagUartCr2Pren = 0 := by decide
    exact ((AgreeOn.refl _ _).andNot_of_disjoint hdisjoint).field hset
  | odd =>
    have hdisjoint : flagUartCr2Proe &&& flagUartCr2Pren = 0 := by decide
    exact ((AgreeOn.refl _ _).or_of_disjoint hdisjoint).field hset

/-! ### Bits that a step does not change -/

theorem agreeOn_cr2ByCharSize (h : AgreeOn k w w') (hchar : charSize = 7 ∨ charSize = 8)
    (hk : flagUartCr2Ws &&& k = 0) : AgreeOn k (cr2ByCharSize charSize w) w' := by
  rcases hchar with rfl | rfl
  · exact h.andNot_of_disjoint hk
  · exact h.or_of_disjoint hk

theorem agreeOn_cr2ByStopBits (h : AgreeOn k w w') (hstop : stopBits = 1 ∨ stopBits = 2)
    (hk : flagUartCr2Stpb &&& k = 0) : AgreeOn k (cr2ByStopBits stopBits w) w' := by
  rcases hstop with rfl | rfl
  · exact h.andNot_of_disjoint hk
  · exact h.or_of_disjoint hk

theorem agreeOn_computeCr2ByParity (h : AgreeOn k w w') (parity : Parity)
    (hpren : flagUartCr2Pren &&& k = 0) (hproe : parity ≠ .none → flagUartCr2Proe &&& k = 0) :
    AgreeOn k (computeCr2ByParity parity w) w' := by
  cases parity with
  | none => exact h.andNot_of_disjoint hpren
  | even => exact (h.or_of_disjoint hpren).andNot_of_disjoint (hproe nofun)
  | odd => exact (h.or_of_disjoint hpren).or_of_disjoint (hproe nofun)

/-- The format changes its own flags. -/
theorem agreeOn_cr2ByFormat (h : AgreeOn k w w') (hchar : charSize = 7 ∨ charSize = 8)
    (parity : Parity) (hstop : stopBits = 1 ∨ stopBits = 2)
    (hk : configuredFlags &&& k = 0) :
    AgreeOn k (cr2ByFormat charSize parity stopBits w) w' := by
  rw [configuredFlags, or_and_eq_zero_iff, or_and_eq_zero_iff, or_and_eq_zero_iff] at hk
  obtain ⟨⟨⟨hws, hstpb⟩, hpren⟩, hproe⟩ := hk
  have hcharSize := agreeOn_cr2ByCharSize h hchar hws
  have hstopBits := agreeOn_cr2ByStopBits hcharSize hstop hstpb
  exact agreeOn_computeCr2ByParity hstopBits parity hpren fun _ => hproe

/-- The format is the same change of every word. -/
theorem cr2ByFormat_congr (h : AgreeOn k w w') (hchar : charSize = 7 ∨ charSize = 8)
    (parity : Parity) (hstop : stopBits = 1 ∨ stopBits = 2) :
    AgreeOn k (cr2ByFormat charSize parity stopBits w)
      (cr2ByFormat charSize parity stopBits w') := by
  have hcharSize : AgreeOn k (cr2ByCharSize charSize w) (cr2ByCharSize charSize w') := by
    rcases hchar with rfl | rfl
    · exact h.andNot _
    · exact h.or _
  have hstopBits : AgreeOn k (cr2ByStopBits stopBits (cr2ByCharSize charSize w))
      (cr2ByStopBits stopBits (cr2ByCharSize charSize w')) := by
    rcases hstop with rfl | rfl
    · exact hcharSize.andNot _
    · exact hcharSize.or _
  cases parity with
  | none => exact hstopBits.andNot _
  | even => exact (hstopBits.or _).andNot _
  | odd => exact (hstopBits.or _).or _

/-! ### The two functions -/

/-- **The configuration** sets the format and the rate. -/
theorem configured (regs : IMXUartRegs) (bps : U64) (hchar : charSize = 7 ∨ charSize = 8)
    (parity : Parity) (hstop : stopBits = 1 ∨ stopBits = 2) :
    Configured charSize parity stopBits regs
      (serialConfigureCg regs bps charSize parity stopBits) where
  ws := by
    have hfield := cr2ByCharSize_and_ws hchar regs.cr2
    have hstopBits := agreeOn_cr2ByStopBits (.refl flagUartCr2Ws (cr2ByCharSize charSize regs.cr2))
      hstop (by decide)
    exact (agreeOn_computeCr2ByParity hstopBits parity (by decide) fun _ => by decide).field hfield
  stpb := by
    have hfield := cr2ByStopBits_and_stpb hstop (cr2ByCharSize charSize regs.cr2)
    exact (agreeOn_computeCr2ByParity (.refl _ _) parity (by decide)
      fun _ => by decide).field hfield
  pren := computeCr2ByParity_and_pren parity _
  proe_odd := by
    rintro rfl
    exact or_and_self _ flagUartCr2Proe
  proe_even := by
    rintro rfl
    exact andNot_and_self _ flagUartCr2Proe
  proe_none := by
    rintro rfl
    have hcharSize := agreeOn_cr2ByCharSize (.refl flagUartCr2Proe regs.cr2) hchar (by decide)
    have hstopBits := agreeOn_cr2ByStopBits hcharSize hstop (by decide)
    exact agreeOn_computeCr2ByParity hstopBits .none (by decide) fun h => absurd rfl h
  cr2 := agreeOn_cr2ByFormat (.refl _ _) hchar parity hstop (by decide)
  rfdiv := by
    rw [serialConfigureCg_fcr]
    exact andNot_or_and_self regs.fcr (by decide)
  fcr := by
    rw [serialConfigureCg_fcr]
    have hclear := (AgreeOn.refl (~~~uartFcrRfdivMask) regs.fcr).andNot_of_disjoint
      (m := uartFcrRfdivMask) (by decide)
    exact hclear.or_of_disjoint (by decide)
  others := rfl

/-- The reset before the configuration is seen in SRST only. -/
theorem agreeOn_uartSwResetCg (regs : IMXUartRegs) (hk : flagUartCr2Srst &&& k = 0) :
    AgreeOn k (serialConfigureCg (uartSwResetCg regs) 115200 8 .none 1).cr2
      (serialConfigureCg regs 115200 8 .none 1).cr2 := by
  have hreset := (AgreeOn.refl k regs.cr2).andNot_of_disjoint hk
  exact cr2ByFormat_congr hreset (Or.inr rfl) .none (Or.inl rfl)

/-- The reset bit stays clear after the configuration. -/
theorem uartSwResetCg_and_srst (regs : IMXUartRegs) :
    (serialConfigureCg (uartSwResetCg regs) 115200 8 .none 1).cr2 &&& flagUartCr2Srst = 0 := by
  have hformat : AgreeOn flagUartCr2Srst
      (serialConfigureCg (uartSwResetCg regs) 115200 8 .none 1).cr2
      (regs.cr2 &&& ~~~flagUartCr2Srst) :=
    agreeOn_cr2ByFormat (.refl _ _) (Or.inr rfl) .none (Or.inl rfl) (by decide)
  exact hformat.field (andNot_and_self _ _)

/-- CR2 after the initialization. -/
theorem uartInitCg_cr2 (regs : IMXUartRegs) :
    (uartInitCg regs).cr2 = (serialConfigureCg (uartSwResetCg regs) 115200 8 .none 1).cr2 |||
      (flagUartCr2Rxen ||| flagUartCr2Txen ||| flagUartCr2Irts) := by
  rw [← BitVec.or_assoc, ← BitVec.or_assoc]
  rfl

/-- **The initialization** sets and clears its own flags. -/
theorem initialized (regs : IMXUartRegs) :
    Initialized (serialConfigureCg regs 115200 8 .none 1) (uartInitCg regs) where
  uarten := by
    have hset := or_and_self regs.cr1 flagUartCr1Uarten
    have hclear := (AgreeOn.refl flagUartCr1Uarten (regs.cr1 ||| flagUartCr1Uarten))
      |>.andNot_of_disjoint (m := flagUartCr1Rrdyen) (by decide)
    exact (hclear.or_of_disjoint (by decide)).field hset
  rrdyen := or_and_self _ flagUartCr1Rrdyen
  cr1 := by
    have henable := (AgreeOn.refl (~~~(flagUartCr1Uarten ||| flagUartCr1Rrdyen)) regs.cr1)
      |>.or_of_disjoint (m := flagUartCr1Uarten) (by decide)
    have hclear := henable.andNot_of_disjoint (m := flagUartCr1Rrdyen) (by decide)
    exact hclear.or_of_disjoint (by decide)
  srst := by
    rw [uartInitCg_cr2]
    have hreset := AgreeOn.refl flagUartCr2Srst
      (serialConfigureCg (uartSwResetCg regs) 115200 8 .none 1).cr2
    exact (hreset.or_of_disjoint (by decide)).field (uartSwResetCg_and_srst regs)
  rxen := by
    rw [uartInitCg_cr2]
    exact or_and_of_subset _ (by decide)
  txen := by
    rw [uartInitCg_cr2]
    exact or_and_of_subset _ (by decide)
  irts := by
    rw [uartInitCg_cr2]
    exact or_and_of_subset _ (by decide)
  cr2 := by
    rw [uartInitCg_cr2]
    exact (agreeOn_uartSwResetCg regs (by decide)).or_of_disjoint (by decide)
  rxdmuxdel := or_and_self _ flagUartCr3Rxdmuxdel
  cr3 := (AgreeOn.refl _ _).or_of_disjoint (by decide)
  rxtl := andNot_or_and_self _ (by decide)
  fcr := by
    have hclear := (AgreeOn.refl (~~~uartFcrRxtlMask)
        (serialConfigureCg regs 115200 8 .none 1).fcr)
      |>.andNot_of_disjoint (m := uartFcrRxtlMask) (by decide)
    exact hclear.or_of_disjoint (by decide)
  others := rfl

/-- **The frame** of the two functions. -/
theorem configured_and_initialized (regs : IMXUartRegs) (bps : U64)
    (hchar : charSize = 7 ∨ charSize = 8) (parity : Parity) (hstop : stopBits = 1 ∨ stopBits = 2) :
    Configured charSize parity stopBits regs
        (serialConfigureCg regs bps charSize parity stopBits) ∧
      Initialized (serialConfigureCg regs 115200 8 .none 1) (uartInitCg regs) :=
  ⟨configured regs bps hchar parity hstop, initialized regs⟩

/-- The registers whose bits are all the same. -/
def uniformRegs (w : U32) : IMXUartRegs := ⟨w, w, w, w, w, w, w, w, w, w, w, w, w, w, w, w⟩

theorem configured_and_initialized_ones :
    (Configured 7 .even 2 (uniformRegs (-1)) (serialConfigureCg (uniformRegs (-1)) 9600 7 .even 2) ∧
      Initialized (serialConfigureCg (uniformRegs (-1)) 115200 8 .none 1)
        (uartInitCg (uniformRegs (-1)))) ∧
    serialConfigureCg (uniformRegs (-1)) 9600 7 .even 2 =
      { uniformRegs (-1) with cr2 := 0xffffff5f, fcr := 0xfffffe7f, bir := 0xf, bmr := 5208 } ∧
    uartInitCg (uniformRegs (-1)) =
      { uniformRegs (-1) with cr2 := 0xfffffebe, fcr := 0xfffffe61, bir := 0xf, bmr := 434 } ∧
    uartInitCg (uniformRegs 0) =
      { uniformRegs 0 with cr1 := 0x201, cr2 := 0x4026, cr3 := 0x4, fcr := 0x201, bir := 0xf,
                           bmr := 434 } := by
  refine ⟨?_, by decide, by decide, by decide⟩
  exact configured_and_initialized (uniformRegs (-1)) 9600 (Or.inl rfl) .even (Or.inr rfl)

end Camkes.UartCogent
