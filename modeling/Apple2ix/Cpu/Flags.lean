import Mathlib.Data.Nat.Bitwise
import Apple2ix.Foundations.Bytes
import Apple2ix.Foundations.Loops

/-! The flag registers of the two CPU cores, and the tables of cpu-supp.c that convert between their
layouts and that of the 6502. -/
namespace Apple2ix.Cpu
open Loops
set_option autoImplicit false

/-! ## Layouts -/

/-- The masks of the flags in a byte. -/
structure Layout where
  c : UInt8
  x : UInt8
  i : UInt8
  v : UInt8
  b : UInt8
  d : UInt8
  z : UInt8
  n : UInt8

/-- `C_Flag_6502` and so on. -/
def flag6502 : Layout where
  c := 0x1
  z := 0x2
  i := 0x4
  d := 0x8
  b := 0x10
  x := 0x20
  v := 0x40
  n := 0x80

/-- `C_Flag` and so on, on x86. -/
def flagX86 : Layout where
  c := 0x1
  x := 0x2
  i := 0x4
  v := 0x8
  b := 0x10
  d := 0x20
  z := 0x40
  n := 0x80

/-- `C_Flag` and so on, on ARM. -/
def flagArm : Layout where
  v := 0x1
  c := 0x2
  z := 0x4
  n := 0x8
  x := 0x10
  i := 0x20
  b := 0x40
  d := 0x80

/-! ## What a flag register says -/

structure Status where
  n : Bool
  v : Bool
  x : Bool
  b : Bool
  d : Bool
  i : Bool
  z : Bool
  c : Bool
  deriving DecidableEq, Repr

def Layout.status (l : Layout) (f : UInt8) : Status where
  n := f &&& l.n != 0
  v := f &&& l.v != 0
  x := f &&& l.x != 0
  b := f &&& l.b != 0
  d := f &&& l.d != 0
  i := f &&& l.i != 0
  z := f &&& l.z != 0
  c := f &&& l.c != 0

/-! ## The tables -/

/-- The value of the loop of `init_flags_conversion_tables` at `i`. -/
def Layout.val (l : Layout) (i : UInt8) : UInt8 :=
  let val : UInt8 := 0
  let val := if i &&& l.c != 0 then val ||| flag6502.c else val
  let val := if i &&& l.x != 0 then val ||| flag6502.x else val
  let val := if i &&& l.i != 0 then val ||| flag6502.i else val
  let val := if i &&& l.v != 0 then val ||| flag6502.v else val
  let val := if i &&& l.b != 0 then val ||| flag6502.b else val
  let val := if i &&& l.d != 0 then val ||| flag6502.d else val
  let val := if i &&& l.z != 0 then val ||| flag6502.z else val
  if i &&& l.n != 0 then val ||| flag6502.n else val

/-- `cpu65_flags_encode` and `cpu65_flags_decode`. -/
structure FlagTables where
  encode : UInt8 → UInt8
  decode : UInt8 → UInt8

def initFlagsConversionTables (l : Layout) : FlagTables :=
  forUp 256 (fun i tables =>
    { encode := Function.update tables.encode i.toUInt8 (l.val i.toUInt8)
      decode := Function.update tables.decode (l.val i.toUInt8) i.toUInt8 })
    { encode := fun _ => 0, decode := fun _ => 0 }

def Layout.encode (l : Layout) : UInt8 → UInt8 := (initFlagsConversionTables l).encode
def Layout.decode (l : Layout) : UInt8 → UInt8 := (initFlagsConversionTables l).decode

/-! ## The loop -/

/-- A table that is filled at distinct places keeps what was put in each. -/
theorem forUp_update {α β : Type*} [DecidableEq α] (key : ℕ → α) (value : ℕ → β) (table : α → β)
    {n k : ℕ} (hkey : ∀ i, i < n → i ≠ k → key i ≠ key k) (hk : k < n) :
    forUp n (fun i table => Function.update table (key i) (value i)) table (key k) = value k := by
  induction n with
  | zero => omega
  | succ n ih =>
    rw [forUp_succ]
    by_cases hlast : k = n
    · rw [hlast, Function.update_self]
    · rw [Function.update_of_ne (hkey n (Nat.lt_succ_self n) (Ne.symm hlast)).symm]
      exact ih (fun i hi => hkey i (Nat.lt_succ_of_lt hi)) (by omega)

section Tables
variable (l : Layout)

/-- Each table is filled by itself. -/
theorem initFlagsConversionTables_eq :
    initFlagsConversionTables l =
      { encode :=
          forUp 256 (fun i => (Function.update · i.toUInt8 (l.val i.toUInt8))) fun _ => 0
        decode :=
          forUp 256 (fun i => (Function.update · (l.val i.toUInt8) i.toUInt8)) fun _ => 0 } := by
  unfold initFlagsConversionTables
  generalize 256 = n
  induction n with
  | zero => rfl
  | succ n ih =>
    rw [forUp_succ, ih]
    rfl

theorem toUInt8_toNat (f : UInt8) : f.toNat.toUInt8 = f := UInt8.ofNat_toNat

theorem encode_eq (f : UInt8) : l.encode f = l.val f := by
  have h := forUp_update (fun i => i.toUInt8) (fun i => l.val i.toUInt8) (fun _ => 0)
    (n := 256) (k := f.toNat) ?_ f.toNat_lt
  · simp only [toUInt8_toNat] at h
    rw [Layout.encode, initFlagsConversionTables_eq]
    exact h
  · intro i hi hne heq
    apply hne
    have hnat := congrArg UInt8.toNat heq
    rw [toUInt8_toNat] at hnat
    simpa [Nat.mod_eq_of_lt hi] using hnat

/-- A layout whose flags are different bits loses nothing. -/
theorem decode_val (hinj : Function.Injective l.val) (f : UInt8) : l.decode (l.val f) = f := by
  have h := forUp_update (fun i => l.val i.toUInt8) (fun i => i.toUInt8) (fun _ => 0)
    (n := 256) (k := f.toNat) ?_ f.toNat_lt
  · simp only [toUInt8_toNat] at h
    rw [Layout.decode, initFlagsConversionTables_eq]
    exact h
  · intro i hi hne heq
    apply hne
    have hnat := congrArg UInt8.toNat (hinj heq)
    rw [toUInt8_toNat] at hnat
    simpa [Nat.mod_eq_of_lt hi] using hnat

end Tables

/-! ## Registers and their flags -/

/-- The register with these flags. -/
def Layout.ofStatus (l : Layout) (s : Status) : UInt8 :=
  ((if s.c then l.c else 0) ||| (if s.z then l.z else 0) ||| (if s.i then l.i else 0) |||
    (if s.d then l.d else 0)) |||
  ((if s.b then l.b else 0) ||| (if s.x then l.x else 0) ||| (if s.v then l.v else 0) |||
    (if s.n then l.n else 0))

/-- Layouts whose flags are the bits of the byte. -/
def Layout.IsBits (l : Layout) : Prop := l = flag6502 ∨ l = flagX86 ∨ l = flagArm

theorem or_ite (b : Bool) (val flag : UInt8) :
    (if b then val ||| flag else val) = val ||| (if b then flag else 0) := by
  cases b with
  | false => exact UInt8.or_zero.symm
  | true => rfl

theorem ite_and_self (b : Bool) (m : UInt8) :
    (if b then m else 0) &&& m = if b then m else 0 := by
  cases b with
  | false => exact UInt8.zero_and
  | true => exact UInt8.and_self

theorem ite_and_other {flag m : UInt8} (hm : flag &&& m = 0) (b : Bool) :
    (if b then flag else 0) &&& m = 0 := by
  cases b with
  | false => exact UInt8.zero_and
  | true => exact hm

theorem ite_bne_zero {m : UInt8} (hm : m ≠ 0) (b : Bool) : ((if b then m else 0) != 0) = b := by
  cases b with
  | false => rfl
  | true => exact bne_iff_ne.mpr hm

theorem and_or_left (f m m' : UInt8) : f &&& (m ||| m') = f &&& m ||| f &&& m' :=
  UInt8.toBitVec_inj.mp BitVec.and_or_distrib_left

theorem and_or_right (f g m : UInt8) : (f ||| g) &&& m = f &&& m ||| g &&& m :=
  UInt8.toBitVec_inj.mp BitVec.and_or_distrib_right

/-- A bit of a byte, by its mask and by its place. -/
theorem and_bit {m : UInt8} {k : ℕ} (hm : m.toNat = 2 ^ k) (f : UInt8) :
    (f &&& m != 0) = decide (f.toNat / 2 ^ k % 2 = 1) := by
  have hand : (f &&& m).toNat = (f.toNat.testBit k).toNat * 2 ^ k := by
    rw [UInt8.toNat_and, hm, Nat.and_two_pow]
  rw [← Nat.testBit_eq_decide_div_mod_eq, Bool.eq_iff_iff, bne_iff_ne, ne_eq, ← UInt8.toNat_inj,
    hand]
  cases f.toNat.testBit k with
  | false => simp
  | true => simp

/-- A single bit of a byte. -/
theorem ite_and_bit {m : UInt8} (hm : m ∈ [1, 2, 4, 8, 16, 32, 64, 128]) (f : UInt8) :
    (if f &&& m != 0 then m else 0) = f &&& m := by
  have hpow : ∃ k, m.toNat = 2 ^ k := by
    simp only [List.mem_cons, List.not_mem_nil, or_false] at hm
    obtain rfl | rfl | rfl | rfl | rfl | rfl | rfl | rfl := hm
    exacts [⟨0, rfl⟩, ⟨1, rfl⟩, ⟨2, rfl⟩, ⟨3, rfl⟩, ⟨4, rfl⟩, ⟨5, rfl⟩, ⟨6, rfl⟩, ⟨7, rfl⟩]
  obtain ⟨k, hk⟩ := hpow
  have hand : (f &&& m).toNat = (f.toNat.testBit k).toNat * m.toNat := by
    rw [UInt8.toNat_and, hk, Nat.and_two_pow]
  cases hf : f.toNat.testBit k with
  | false =>
    have hzero : f &&& m = 0 := by
      rw [← UInt8.toNat_inj, hand, hf]
      exact Nat.zero_mul _
    rw [hzero]
    rfl
  | true =>
    have hself : f &&& m = m := by
      rw [← UInt8.toNat_inj, hand, hf]
      exact Nat.one_mul _
    rw [hself]
    exact ite_eq_left_iff.mpr fun h => (of_not_not (mt bne_iff_ne.mpr h)).symm

theorem val_status (l : Layout) (f : UInt8) : l.val f = flag6502.ofStatus (l.status f) := by
  simp only [Layout.val, Layout.ofStatus, Layout.status, or_ite]
  rw [UInt8.zero_or]
  ac_rfl

/-- **Encoding** writes the flags in the layout of the 6502. -/
theorem encode_status (l : Layout) (f : UInt8) : l.encode f = flag6502.ofStatus (l.status f) :=
  (encode_eq l f).trans (val_status l f)

section Bits
variable {l : Layout} (h : l.IsBits)
include h

@[simp] theorem ofStatus_status (f : UInt8) : l.ofStatus (l.status f) = f := by
  have hif : l.ofStatus (l.status f) = ((if f &&& l.c != 0 then l.c else 0) |||
      (if f &&& l.z != 0 then l.z else 0) ||| (if f &&& l.i != 0 then l.i else 0) |||
      (if f &&& l.d != 0 then l.d else 0)) ||| ((if f &&& l.b != 0 then l.b else 0) |||
      (if f &&& l.x != 0 then l.x else 0) ||| (if f &&& l.v != 0 then l.v else 0) |||
      (if f &&& l.n != 0 then l.n else 0)) := rfl
  rw [hif]
  obtain rfl | rfl | rfl := h
  all_goals
    simp (disch := decide) only [ite_and_bit, ← and_or_left]
    exact UInt8.and_neg_one

@[simp] theorem status_ofStatus (s : Status) : l.status (l.ofStatus s) = s := by
  obtain ⟨n, v, x, b, d, i, z, c⟩ := s
  obtain rfl | rfl | rfl := h
  all_goals
    simp (disch := decide) only [Layout.ofStatus, Layout.status, and_or_right, ite_and_self,
      ite_and_other, UInt8.or_zero, UInt8.zero_or, ite_bne_zero]

theorem val_injective : Function.Injective l.val := by
  intro f g heq
  rw [val_status, val_status] at heq
  have hstatus := congrArg flag6502.status heq
  rw [status_ofStatus (.inl rfl), status_ofStatus (.inl rfl)] at hstatus
  rw [← ofStatus_status h f, hstatus, ofStatus_status h]

@[simp] theorem decode_encode (f : UInt8) : l.decode (l.encode f) = f := by
  rw [encode_eq]
  exact decode_val l (val_injective h) f

/-- **Decoding** reads them back. -/
theorem status_decode (p : UInt8) : l.status (l.decode p) = flag6502.status p := by
  have hencode : l.encode (l.ofStatus (flag6502.status p)) = p := by
    rw [encode_status, status_ofStatus h, ofStatus_status (.inl rfl)]
  rw [← hencode, decode_encode h, status_ofStatus h, encode_status, status_ofStatus h,
    status_ofStatus (.inl rfl)]

end Bits

/-! ## Replacing some flags -/

section Select
variable {f g mask m : UInt8}

theorem getLsbD_select (i : ℕ) : (f &&& ~~~mask ||| g &&& mask).toBitVec.getLsbD i =
    if mask.toBitVec.getLsbD i then g.toBitVec.getLsbD i else f.toBitVec.getLsbD i := by
  by_cases hi : i < 8
  · simp only [UInt8.toBitVec_or, UInt8.toBitVec_and, UInt8.toBitVec_not, BitVec.getLsbD_or,
      BitVec.getLsbD_and, BitVec.getLsbD_not, hi, decide_true, Bool.true_and]
    cases mask.toBitVec.getLsbD i <;> simp
  · simp only [BitVec.getLsbD_of_ge _ i (by omega : 8 ≤ i), Bool.false_eq_true, if_false]

/-- Flags that agree where a mask has bits are the same under it. -/
theorem and_congr_bits (h : ∀ i, m.toBitVec.getLsbD i = true →
    f.toBitVec.getLsbD i = g.toBitVec.getLsbD i) : f &&& m = g &&& m := by
  rw [← UInt8.toBitVec_inj]
  apply BitVec.eq_of_getLsbD_eq
  intro i _
  rw [UInt8.toBitVec_and, BitVec.getLsbD_and, UInt8.toBitVec_and, BitVec.getLsbD_and]
  cases hm : m.toBitVec.getLsbD i with
  | false => rw [Bool.and_false, Bool.and_false]
  | true => rw [h i hm]

/-- Of the flags in the mask, `g` decides. -/
theorem select_in (h : mask &&& m = m) : (f &&& ~~~mask ||| g &&& mask) &&& m = g &&& m := by
  apply and_congr_bits
  intro i hm
  rw [← h, UInt8.toBitVec_and, BitVec.getLsbD_and, Bool.and_eq_true] at hm
  rw [getLsbD_select, if_pos hm.1]

/-- Of the others, `f`. -/
theorem select_out (h : mask &&& m = 0) : (f &&& ~~~mask ||| g &&& mask) &&& m = f &&& m := by
  apply and_congr_bits
  intro i hm
  have hbit := congrArg (fun w : UInt8 => w.toBitVec.getLsbD i) h
  simp only [UInt8.toBitVec_and, BitVec.getLsbD_and, UInt8.toBitVec_zero, BitVec.getLsbD_zero, hm,
    Bool.and_true] at hbit
  rw [getLsbD_select, if_neg (by simp [hbit])]

/-- Clearing flags takes them from zero, -/
theorem bic_select (f mask : UInt8) : f &&& ~~~mask = f &&& ~~~mask ||| 0 &&& mask := by
  rw [UInt8.zero_and, UInt8.or_zero]

/-- and setting them from a byte of ones. -/
theorem orr_select (f mask : UInt8) : f ||| mask = f &&& ~~~mask ||| 0xFF &&& mask := by
  rw [← UInt8.toBitVec_inj]
  apply BitVec.eq_of_getLsbD_eq
  intro i hi
  have hones : (0xFF : UInt8).toBitVec.getLsbD i = true := by
    revert i
    decide
  rw [getLsbD_select, UInt8.toBitVec_or, BitVec.getLsbD_or, hones]
  cases mask.toBitVec.getLsbD i <;> simp

end Select

theorem isBits_x86 : flagX86.IsBits := .inr (.inl rfl)
theorem isBits_arm : flagArm.IsBits := .inr (.inr rfl)

end Apple2ix.Cpu
