import Apple2ix.Video.ColourLine

/-! The bits of a scanline in each of the graphics modes, and a line that is plotted by several
calls of its plotter. -/
namespace Apple2ix.Video.Plotting
open Loops Scanning BitStreams
set_option autoImplicit false

/-! ## The bits of a line -/

/-- The bit that a column of hires shifts into the next one. -/
def lastBit (line : ℕ → UInt8) : ℕ → UInt8
  | 0 => 0
  | col + 1 => (line ((col <<< 1) + 1) &&& 0x40) >>> 6

/-- The 14 bits of a column of double hires, auxiliary memory first. -/
def hires80Word (line : ℕ → UInt8) (col : ℕ) : ℕ :=
  ((line ((col <<< 1) + 1)).toNat % 2 ^ 7) <<< 7 ||| (line (col <<< 1)).toNat % 2 ^ 7

/-- The bits of the whole line, the leftmost lowest; double hires comes a bit late. -/
def lineBits (g : Graphics) (scanrow : ℕ) (line : ℕ → UInt8) : ℕ :=
  match g with
  | .lores40 =>
    pack 14 (fun col => (lores40Bits scanrow col (line ((col <<< 1) + 1))).toNat) textCols
  | .lores80 =>
    pack 14 (fun col => (lores80Bits scanrow col (line (col <<< 1)) (line ((col <<< 1) + 1))).toNat)
      textCols
  | .hires40 =>
    pack 14 (fun col => (hires40Bits (line ((col <<< 1) + 1)) (lastBit line col)).toNat) textCols
  | .hires80 => pack 14 (hires80Word line) textCols <<< 1

/-- A nibble of the line. -/
def nibble (s g : ℕ) : ℕ := bits s (4 * g) 4

/-- The place of a group in the colour tables: its nibble, below it the previous and above it the
next one. -/
def colorIndex (s g : ℕ) : ℕ :=
  (nibble s (g + 1) <<< 8) ||| (nibble s g <<< 4) ||| (if g = 0 then 0 else nibble s (g - 1))

theorem groupWindow_succ (s g : ℕ) : groupWindow s (g + 1) = colorIndex s g := by
  refine Nat.eq_of_testBit_eq fun i => ?_
  have hshift : s <<< 8 = s <<< 4 <<< 4 := by rw [← Nat.shiftLeft_add]
  have hprevious : (if g = 0 then 0 else nibble s (g - 1)).testBit i =
      (decide (i < 4) && (decide (4 ≤ 4 * g + i) && s.testBit (4 * g + i - 4))) := by
    cases g with
    | zero =>
      rw [if_pos rfl, Nat.zero_testBit]
      by_cases hi : i < 4
      · have hnot : ¬ 4 ≤ 4 * 0 + i := by omega
        rw [decide_eq_false hnot, Bool.false_and, Bool.and_false]
      · rw [decide_eq_false hi, Bool.false_and]
    | succ g =>
      have hpos : 4 * (g + 1) + i - 4 = 4 * g + i := by omega
      have hle : 4 ≤ 4 * (g + 1) + i := by omega
      rw [if_neg (Nat.succ_ne_zero g), Nat.add_sub_cancel, nibble, testBit_bits, hpos,
        decide_eq_true hle, Bool.true_and]
  rw [groupWindow, hshift, Nat.mul_succ, bits_shiftLeft, testBit_bits, Nat.testBit_shiftLeft,
    colorIndex, Nat.testBit_or, Nat.testBit_or, hprevious, Nat.testBit_shiftLeft,
    Nat.testBit_shiftLeft, nibble, nibble, testBit_bits, testBit_bits]
  -- one of the three nibbles has the bit
  by_cases h4 : i < 4
  · simp [h4, show i < 12 by omega, show ¬ 4 ≤ i by omega, show ¬ 8 ≤ i by omega]
  · by_cases h8 : i < 8
    · have hpos : 4 * g + i - 4 = 4 * g + (i - 4) := by omega
      simp [h4, show i < 12 by omega, show 4 ≤ i by omega, show ¬ 8 ≤ i by omega,
        show i - 4 < 4 by omega, show 4 ≤ 4 * g + i by omega, hpos]
    · by_cases h12 : i < 12
      · have hpos : 4 * g + i - 4 = 4 * (g + 1) + (i - 8) := by omega
        simp [h4, h12, show ¬ i - 4 < 4 by omega, show 8 ≤ i by omega, show i - 8 < 4 by omega,
          show 4 ≤ 4 * g + i by omega, hpos]
      · simp [h4, h12, show ¬ i - 4 < 4 by omega, show ¬ i - 8 < 4 by omega]

/-! ## The columns of each mode -/

theorem and_lt_two_pow_uint16 (x : UInt16) : (x &&& 0x3FFF).toNat < 2 ^ 14 := by
  rw [UInt16.toNat_and]
  exact Nat.and_lt_two_pow _ (by decide)

theorem lores40Bits_lt (scanrow col : ℕ) (mbd : UInt8) :
    (lores40Bits scanrow col mbd).toNat < 2 ^ 14 := and_lt_two_pow_uint16 _

theorem hires40Bits_lt (mbd last : UInt8) : (hires40Bits mbd last).toNat < 2 ^ 14 :=
  and_lt_two_pow_uint16 _

theorem lores80Half_lt (scanrow idx : ℕ) (b : UInt8) :
    (lores80Half scanrow idx b).toNat < 2 ^ 7 := by
  rw [lores80Half, lores80Pixels, UInt8.toNat_and]
  exact Nat.and_lt_two_pow _ (by decide)

theorem lores80Bits_lt (scanrow col : ℕ) (aux mbd : UInt8) :
    (lores80Bits scanrow col aux mbd).toNat < 2 ^ 14 := by
  have hlow := lores80Half_lt scanrow (col <<< 1) (shiftBlock80 aux)
  have hhigh := lores80Half_lt scanrow ((col <<< 1) + 1) mbd
  rw [lores80Bits, UInt16.toNat_or, UInt16.toNat_shiftLeft]
  refine Nat.or_lt_two_pow ?_ ?_
  · rw [UInt8.toNat_toUInt16]
    omega
  · rw [UInt8.toNat_toUInt16, Nat.shiftLeft_eq]
    refine Nat.lt_of_le_of_lt (Nat.mod_le _ _) ?_
    have h7 : (7 : UInt16).toNat % 16 = 7 := rfl
    rw [h7]
    omega

theorem hires80Word_lt (line : ℕ → UInt8) (col : ℕ) : hires80Word line col < 2 ^ 14 := by
  have hlow : (line (col <<< 1)).toNat % 2 ^ 7 < 2 ^ 7 := Nat.mod_lt _ (by decide)
  have hhigh : (line ((col <<< 1) + 1)).toNat % 2 ^ 7 < 2 ^ 7 := Nat.mod_lt _ (by decide)
  rw [hires80Word]
  refine Nat.or_lt_two_pow ?_ ?_
  · rw [Nat.shiftLeft_eq]
    omega
  · omega

theorem highBit_toNat (b : UInt8) : ((b &&& 0x40) >>> 6).toNat = b.toNat % 2 ^ 7 / 2 ^ 6 := by
  have h6 : (6 : UInt8).toNat % 8 = 6 := rfl
  have hand : b.toNat &&& 2 ^ 6 = (b.toNat.testBit 6).toNat * 2 ^ 6 := Nat.and_two_pow _ _
  rw [UInt8.toNat_shiftRight, UInt8.toNat_and, h6, Nat.shiftRight_eq_div_pow]
  change (b.toNat &&& 2 ^ 6) / 2 ^ 6 = _
  rw [hand, Nat.toNat_testBit]
  omega

theorem lastBit_le (line : ℕ → UInt8) (col : ℕ) : (lastBit line col).toNat ≤ 1 := by
  cases col with
  | zero => exact Nat.zero_le 1
  | succ col =>
    rw [lastBit, highBit_toNat]
    omega

/-- The bits of a column of double hires, behind the one that was carried. -/
theorem hires80Bits_toNat (line : ℕ → UInt8) (col : ℕ) (last : UInt8) :
    (hires80Bits (line (col <<< 1)) (line ((col <<< 1) + 1)) last).toNat =
      hires80Word line col <<< 1 ||| last.toNat := by
  have hmbd : (line ((col <<< 1) + 1)).toNat % 2 ^ 7 < 2 ^ 7 := Nat.mod_lt _ (by decide)
  have hword := hires80Word_lt line col
  have h7 : (7 : UInt16).toNat % 16 = 7 := rfl
  have h1 : (1 : UInt16).toNat % 16 = 1 := rfl
  have hand : ∀ b : UInt8, (b &&& 0x7f).toUInt16.toNat = b.toNat % 2 ^ 7 := fun b => by
    rw [UInt8.toNat_toUInt16, UInt8.toNat_and]
    exact Nat.and_two_pow_sub_one_eq_mod _ 7
  have hhigh : ((line ((col <<< 1) + 1)).toNat % 2 ^ 7) <<< 7 % 2 ^ 16 =
      ((line ((col <<< 1) + 1)).toNat % 2 ^ 7) <<< 7 := by
    rw [Nat.shiftLeft_eq]
    omega
  have hall : hires80Word line col <<< 1 % 2 ^ 16 = hires80Word line col <<< 1 := by
    rw [Nat.shiftLeft_eq]
    omega
  rw [hires80Bits, UInt16.toNat_or, UInt16.toNat_shiftLeft, UInt16.toNat_or,
    UInt16.toNat_shiftLeft, hand, hand, h7, h1, hhigh, ← hires80Word, hall, UInt8.toNat_toUInt16]

/-- The bits of a column in each mode, and the bit it carries on. -/
def column (g : Graphics) (scanrow : ℕ) (scanline : ℕ → UInt8) (col : ℕ) (last : UInt8) :
    UInt16 × UInt8 :=
  match g with
  | .lores40 => (lores40Bits scanrow col (scanline ((col <<< 1) + 1)), last)
  | .lores80 =>
    (lores80Bits scanrow col (scanline (col <<< 1)) (scanline ((col <<< 1) + 1)), last)
  | .hires40 =>
    (hires40Bits (scanline ((col <<< 1) + 1)) last, (scanline ((col <<< 1) + 1) &&& 0x40) >>> 6)
  | .hires80 =>
    (hires80Bits (scanline (col <<< 1)) (scanline ((col <<< 1) + 1)) last,
      ((hires80Bits (scanline (col <<< 1)) (scanline ((col <<< 1) + 1)) last >>> 14) &&&
        0x01).toUInt8)

/-- The colour table of a mode. -/
def colors (g : Graphics) (p : Palette) (mode : ColorMode) : ℕ → UInt32 :=
  match g with
  | .hires40 => p.hires40Colors mode
  | .lores40 | .lores80 | .hires80 => p.generalColors mode

def fbBase (g : Graphics) (scanrow : ℕ) : ℕ :=
  match g with
  | .lores40 | .lores80 => videoLineOffset.getD (scanrow >>> 3) 0
  | .hires40 | .hires80 =>
    videoLineOffset.getD (scanrow >>> 3) 0 + 0x400 * (scanrow &&& 0x07)

def fbRow (g : Graphics) (scanrow : ℕ) : ℕ :=
  match g with
  | .lores40 | .lores80 => ((scanrow &&& 0x07) <<< 1) * scanwidth
  | .hires40 | .hires80 => 0

theorem plotter_eq (g : Graphics) (p : Palette) (mode : ColorMode) (scandata : ScanData)
    (d : Display) : plotter g p mode scandata d =
      plotScanline p mode (column g scandata.scanrow scandata.scanline) (colors g p mode)
        (fbBase g scandata.scanrow) (fbRow g scandata.scanrow) scandata d := by
  cases g <;> rfl

theorem address_eq (g : Graphics) {scanrow col : ℕ} (hrow : scanrow < 192) (hcol : col < 40) :
    screenAddresses (fbBase g scanrow + col) + fbRow g scanrow =
      rowStart scanrow + 4 + 14 * col := by
  cases g with
  | lores40 => exact screenAddresses_lores hrow hcol
  | lores80 => exact screenAddresses_lores hrow hcol
  | hires40 => exact screenAddresses_hires hrow hcol
  | hires80 => exact screenAddresses_hires hrow hcol

/-- A column depends on its own bytes only. -/
theorem column_congr (g : Graphics) (scanrow : ℕ) {scanline line : ℕ → UInt8} {col : ℕ}
    (haux : scanline (col <<< 1) = line (col <<< 1))
    (hmbd : scanline ((col <<< 1) + 1) = line ((col <<< 1) + 1)) (last : UInt8) :
    column g scanrow scanline col last = column g scanrow line col last := by
  cases g <;> simp only [column, haux, hmbd]

/-- The bit that is carried into a column: lores carries none. -/
def carry (g : Graphics) (line : ℕ → UInt8) (col : ℕ) : UInt8 :=
  match g with
  | .lores40 | .lores80 => 0
  | .hires40 | .hires80 => lastBit line col

theorem agrees_words {word : ℕ → ℕ} (hword : ∀ col, word col < 2 ^ 14) {col : ℕ} (hcol : col < 40) :
    Agrees (pack 14 word 40) (14 * col) (columnWidth col) (word col) := by
  by_cases h39 : col = 39
  · subst h39
    exact agrees_pack_last (fun c _ => hword c) _
  · rw [columnWidth, if_neg h39]
    exact agrees_pack (fun c _ => hword c) hcol

/-- The last bit of a column of double hires is the last one of its main byte. -/
theorem hires80Word_last (line : ℕ → UInt8) (col : ℕ) :
    hires80Word line col / 2 ^ 13 = ((line ((col <<< 1) + 1) &&& 0x40) >>> 6).toNat := by
  have hlow : (line (col <<< 1)).toNat % 2 ^ 7 < 2 ^ 7 := Nat.mod_lt _ (by decide)
  rw [highBit_toNat, hires80Word, ← Nat.shiftLeft_add_eq_or_of_lt hlow, Nat.shiftLeft_eq]
  omega

/-- The bit carried into a column of double hires is the one before it. -/
theorem lastBit_toNat (line : ℕ → UInt8) {col : ℕ} (hcol : col < 41) :
    (lastBit line col).toNat = tail (pack 14 (hires80Word line) 40) 1 (14 * col) := by
  cases col with
  | zero => exact (tail_zero _ 1).symm
  | succ col =>
    have hagrees : Agrees (pack 14 (hires80Word line) 40) (14 * col) 14 (hires80Word line col) :=
      agrees_pack (fun c _ => hires80Word_lt line c) (by omega)
    have hle := lastBit_le line (col + 1)
    rw [lastBit, ← hires80Word_last] at hle
    rw [Nat.mul_succ, tail_next hagrees (by decide), lastBit, ← hires80Word_last, bits,
      Nat.shiftRight_eq_div_pow]
    omega

/-- **The bits of a column are bits of the line.** -/
theorem column_agrees (g : Graphics) (scanrow : ℕ) (line : ℕ → UInt8) {col : ℕ} (hcol : col < 40) :
    Agrees (lineBits g scanrow line) (14 * col) (columnWidth col)
      (column g scanrow line col (carry g line col)).1.toNat := by
  cases g with
  | lores40 => exact agrees_words (fun _ => lores40Bits_lt _ _ _) hcol
  | lores80 => exact agrees_words (fun _ => lores80Bits_lt _ _ _ _) hcol
  | hires40 => exact agrees_words (fun _ => hires40Bits_lt _ _) hcol
  | hires80 =>
    have hagrees := (agrees_words (hires80Word_lt line) hcol).delayed 1
    simp only [column, carry, hires80Bits_toNat, lastBit_toNat line (show col < 41 by omega)]
    exact fun i hi => hagrees i (by omega)

theorem column_carry (g : Graphics) (scanrow : ℕ) (line : ℕ → UInt8) (col : ℕ) :
    (column g scanrow line col (carry g line col)).2 = carry g line (col + 1) := by
  cases g with
  | lores40 => rfl
  | lores80 => rfl
  | hires40 => rfl
  | hires80 =>
    have hlast := lastBit_le line col
    have hnext : ((line ((col <<< 1) + 1) &&& 0x40) >>> 6).toNat ≤ 1 := lastBit_le line (col + 1)
    have h14 : (14 : UInt16).toNat % 16 = 14 := rfl
    have h1 : (1 : UInt16).toNat = 2 ^ 1 - 1 := rfl
    change ((hires80Bits (line (col <<< 1)) (line ((col <<< 1) + 1)) (lastBit line col) >>> 14) &&&
      0x01).toUInt8 = (line ((col <<< 1) + 1) &&& 0x40) >>> 6
    rw [← UInt8.toNat_inj, UInt16.toNat_toUInt8, UInt16.toNat_and, UInt16.toNat_shiftRight,
      hires80Bits_toNat, h14, h1, Nat.and_two_pow_sub_one_eq_mod, ← hires80Word_last,
      ← Nat.shiftLeft_add_eq_or_of_lt (Nat.lt_succ_of_le hlast), Nat.shiftLeft_eq,
      Nat.shiftRight_eq_div_pow]
    rw [← hires80Word_last] at hnext
    omega

end Apple2ix.Video.Plotting
