import Apple2ix.Foundations.Bytes

/-! What the CPU cores call: the handlers of `cpu65_vmem_r` and `cpu65_vmem_w`, and the stack page
that both reach without them. -/
namespace Apple2ix.Cpu
set_option autoImplicit false

universe u

/-- Memory as a core sees it. `stackLoad` and `stackStore` are `base_stackzp[0x100 + sp]`, and
`tick` counts the cycles of an instruction off the paddle timers. -/
structure Bus (σ : Type u) where
  load : σ → UInt16 → UInt8 × σ
  store : σ → UInt16 → UInt8 → σ
  stackLoad : σ → UInt8 → UInt8
  stackStore : σ → UInt8 → UInt8 → σ
  tick : σ → UInt8 → σ

/-- `ResetSig`. -/
def resetSig : UInt8 := 0x02

/-- `JOY_BUTTON0` and `JOY_BUTTON1`. -/
structure Buttons where
  openApple : UInt8
  closedApple : UInt8

def Buttons.held (b : Buttons) : Bool := b.openApple != 0 || b.closedApple != 0

/-! ## Bytes and words -/

/-- The word with these bytes. -/
def join (hi lo : UInt8) : UInt16 := hi.toUInt16 <<< 8 ||| lo.toUInt16
def hiByte (w : UInt16) : UInt8 := (w >>> 8).toUInt8
def loByte (w : UInt16) : UInt8 := w.toUInt8

theorem join_toNat (hi lo : UInt8) : (join hi lo).toNat = hi.toNat * 0x100 + lo.toNat := by
  have hhi := hi.toNat_lt
  have hlo := lo.toNat_lt
  have hshift : (hi.toUInt16 <<< 8).toNat = hi.toNat <<< 8 := by
    rw [UInt16.toNat_shiftLeft, UInt8.toNat_toUInt16]
    refine Nat.mod_eq_of_lt ?_
    change hi.toNat <<< 8 < 2 ^ 16
    rw [Nat.shiftLeft_eq]
    omega
  rw [join, UInt16.toNat_or, hshift, UInt8.toNat_toUInt16, ← Nat.shiftLeft_add_eq_or_of_lt hlo,
    Nat.shiftLeft_eq]

theorem hiByte_toNat (w : UInt16) : (hiByte w).toNat = w.toNat / 0x100 := by
  have hw := w.toNat_lt
  rw [hiByte, UInt16.toNat_toUInt8, UInt16.toNat_shiftRight]
  change (w.toNat >>> 8) % 2 ^ 8 = _
  rw [Nat.shiftRight_eq_div_pow]
  omega

theorem loByte_toNat (w : UInt16) : (loByte w).toNat = w.toNat % 0x100 := UInt16.toNat_toUInt8 w

@[simp] theorem hiByte_join (hi lo : UInt8) : hiByte (join hi lo) = hi := by
  have hlo := lo.toNat_lt
  rw [← UInt8.toNat_inj, hiByte_toNat, join_toNat]
  omega

@[simp] theorem loByte_join (hi lo : UInt8) : loByte (join hi lo) = lo := by
  have hlo := lo.toNat_lt
  rw [← UInt8.toNat_inj, loByte_toNat, join_toNat]
  omega

@[simp] theorem join_bytes (w : UInt16) : join (hiByte w) (loByte w) = w := by
  rw [← UInt16.toNat_inj, join_toNat, hiByte_toNat, loByte_toNat]
  omega

@[simp] theorem join_zero (lo : UInt8) : join 0 lo = lo.toUInt16 := by
  rw [← UInt16.toNat_inj, join_toNat, UInt8.toNat_toUInt16]
  simp

end Apple2ix.Cpu
