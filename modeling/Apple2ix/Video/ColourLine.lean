import Apple2ix.Foundations.BitStreams
import Apple2ix.Video.Plotters

/-! A line in colour. The columns of a scanline are 14 bits wide, and the groups that are looked up
in a colour table 4 bits, so that each column plots the groups that its bits complete and carries
its last bits on. However a line is cut into calls, it is plotted as if all its bits were known. -/
namespace Apple2ix.Video.Plotting
open Loops Scanning BitStreams
set_option autoImplicit false

/-! ## Places in the framebuffer -/

theorem scanwidth_eq : scanwidth = 568 := rfl

theorem lineWidth_eq : lineWidth = 560 := rfl

/-- The first pixel of a row, in its left margin. -/
def rowStart (scanrow : ℕ) : ℕ := 2 * scanrow * scanwidth

theorem videoLineOffset_separate : ∀ y, y < 24 → ∀ z, z < 24 → y ≠ z →
    videoLineOffset.getD y 0 + 40 ≤ videoLineOffset.getD z 0 ∨
      videoLineOffset.getD z 0 + 40 ≤ videoLineOffset.getD y 0 := by
  decide +kernel

theorem videoLineOffset_le : ∀ y, y < 24 → videoLineOffset.getD y 0 + 40 ≤ 0x400 := by
  decide +kernel

/-- No two bytes of a page share their place in it. -/
theorem place_injective {y z y2 z2 x w : ℕ} (hy : y < 24) (hz : z < 24) (hx : x < 40) (hw : w < 40)
    (h : videoLineOffset.getD y 0 + 0x400 * y2 + x = videoLineOffset.getD z 0 + 0x400 * z2 + w) :
    y = z ∧ y2 = z2 ∧ x = w := by
  have hyle := videoLineOffset_le y hy
  have hzle := videoLineOffset_le z hz
  have hyz : y = z := by
    by_contra hne
    obtain hlow | hhigh := videoLineOffset_separate y hy z hz hne
    · omega
    · omega
  subst hyz
  omega

/-- The address of a byte is in the table. -/
def Placed (y y2 x : ℕ) (addresses : ℕ → ℕ) : Prop :=
  addresses (videoLineOffset.getD y 0 + 0x400 * y2 + x) =
    (y * fontHeightPixels + 2 * y2) * scanwidth + x * fontWidthPixels + fbOff

theorem Placed.update {y y2 x z z2 w : ℕ} (hy : y < 24) (hz : z < 24) (hx : x < 40) (hw : w < 40)
    {a : ℕ → ℕ} (h : Placed y y2 x a) :
    Placed y y2 x (Function.update a (videoLineOffset.getD z 0 + 0x400 * z2 + w)
      ((z * fontHeightPixels + 2 * z2) * scanwidth + w * fontWidthPixels + fbOff)) := by
  unfold Placed
  by_cases heq : videoLineOffset.getD y 0 + 0x400 * y2 + x =
      videoLineOffset.getD z 0 + 0x400 * z2 + w
  · obtain ⟨rfl, rfl, rfl⟩ := place_injective hy hz hx hw heq
    rw [Function.update_self]
  · rw [Function.update_of_ne heq, h]

theorem screenAddresses_place {y y2 x : ℕ} (hy : y < 24) (hy2 : y2 < 8) (hx : x < 40) :
    Placed y y2 x screenAddresses := by
  suffices hrows : ∀ y, y < 24 → ∀ y2, y2 < 8 → ∀ x, x < 40 → Placed y y2 x screenAddresses from
    hrows y hy y2 hy2 x hx
  refine forUp_achieves (P := fun y a => ∀ y2, y2 < 8 → ∀ x, x < 40 → Placed y y2 x a) 24 ?_ ?_
  · intro y a hy
    refine forUp_achieves (P := fun y2 a => ∀ x, x < 40 → Placed y y2 x a) 8 ?_ ?_
    · intro y2 a _
      refine forUp_achieves (P := fun x a => Placed y y2 x a) 40 ?_ ?_
      · intro x a _
        exact Function.update_self _ _ _
      · intro w x a hw hx h
        exact h.update hy hy hx hw
    · intro z2 y2 a _ _ h x hx
      exact forUp_invariant (fun _ => Placed y y2 x) 40 (h x hx) fun w a hw ha =>
        ha.update hy hy hx hw
  · intro z y a hz hy h y2 hy2 x hx
    exact forUp_invariant (fun _ => Placed y y2 x) 8 (h y2 hy2 x hx) fun z2 a _ ha =>
      forUp_invariant (fun _ => Placed y y2 x) 40 ha fun w a hw ha => ha.update hy hz hx hw

/-- The address that every plotter gives to a column of a row. -/
theorem screenAddresses_hires {scanrow col : ℕ} (hrow : scanrow < 192) (hcol : col < 40) :
    screenAddresses (videoLineOffset.getD (scanrow >>> 3) 0 + 0x400 * (scanrow &&& 0x07) + col) =
      rowStart scanrow + 4 + 14 * col := by
  have hand : scanrow &&& 0x07 = scanrow % 8 := Nat.and_two_pow_sub_one_eq_mod scanrow 3
  rw [hand, Nat.shiftRight_eq_div_pow, screenAddresses_place (by omega) (by omega) hcol, rowStart]
  simp only [scanwidth_eq, fontHeightPixels, fontWidthPixels, fbOff]
  omega

theorem screenAddresses_lores {scanrow col : ℕ} (hrow : scanrow < 192) (hcol : col < 40) :
    screenAddresses (videoLineOffset.getD (scanrow >>> 3) 0 + col) +
      ((scanrow &&& 0x07) <<< 1) * scanwidth = rowStart scanrow + 4 + 14 * col := by
  have hand : scanrow &&& 0x07 = scanrow % 8 := Nat.and_two_pow_sub_one_eq_mod scanrow 3
  have hplace : Placed (scanrow / 2 ^ 3) 0 col screenAddresses :=
    screenAddresses_place (by omega) (by omega) hcol
  unfold Placed at hplace
  rw [Nat.mul_zero, Nat.add_zero] at hplace
  rw [hand, Nat.shiftRight_eq_div_pow, Nat.shiftLeft_eq, hplace, rowStart]
  simp only [scanwidth_eq, fontHeightPixels, fontWidthPixels, fbOff]
  omega

/-! ## Two rows of pixels -/

/-- A framebuffer with the first `n` pixels of two rows painted. -/
def painted (start : ℕ) (upper lower : ℕ → UInt32) (n : ℕ) (fb : ℕ → UInt32) : ℕ → UInt32 :=
  fun q =>
    if start ≤ q ∧ q < start + n then upper (q - start)
    else if start + scanwidth ≤ q ∧ q < start + scanwidth + n then
      lower (q - (start + scanwidth))
    else fb q

variable {start n : ℕ} {upper lower fb : ℕ → UInt32}

@[simp] theorem painted_zero : painted start upper lower 0 fb = fb := by
  funext q
  unfold painted
  rw [if_neg (by omega), if_neg (by omega)]

theorem painted_succ (hn : n < scanwidth) : painted start upper lower (n + 1) fb =
    Function.update (Function.update (painted start upper lower n fb) (start + n) (upper n))
      (start + n + scanwidth) (lower n) := by
  funext q
  simp only [painted, Function.update_apply]
  by_cases hlow : q = start + n + scanwidth
  · have hindex : q - (start + scanwidth) = n := by omega
    rw [if_neg (by omega), if_pos (by omega), if_pos hlow, hindex]
  · rw [if_neg hlow]
    by_cases hup : q = start + n
    · have hindex : q - start = n := by omega
      rw [if_pos (by omega), if_pos hup, hindex]
    · rw [if_neg hup]
      have hupper : (start ≤ q ∧ q < start + (n + 1)) ↔ start ≤ q ∧ q < start + n := by omega
      have hlower : (start + scanwidth ≤ q ∧ q < start + scanwidth + (n + 1)) ↔
          start + scanwidth ≤ q ∧ q < start + scanwidth + n := by omega
      simp only [hupper, hlower]

theorem painted_upper {i : ℕ} (hi : i < n) :
    painted start upper lower n fb (start + i) = upper i := by
  unfold painted
  rw [if_pos (by omega), Nat.add_sub_cancel_left]

theorem painted_lower {i : ℕ} (hn : n ≤ scanwidth) (hi : i < n) :
    painted start upper lower n fb (start + scanwidth + i) = lower i := by
  unfold painted
  rw [if_neg (by omega), if_pos (by omega), Nat.add_sub_cancel_left]

theorem painted_outside {q : ℕ} (hn : n ≤ scanwidth) (hq : q < start ∨ start + 2 * scanwidth ≤ q) :
    painted start upper lower n fb q = fb q := by
  unfold painted
  rw [if_neg (by omega), if_neg (by omega)]

/-- The inner loop of `_plot_oldschool`: four pixels. -/
theorem plotPixels_painted (p : Palette) (hn : n + 4 ≤ scanwidth)
    (hlower : ∀ i, lower i = scanlineColor p (upper i)) {pixel : ℕ → UInt32}
    (hpixel : ∀ j, j < 4 → pixel j = upper (n + j)) :
    forUp 4 (fun j => plotPixel p (start + n + j) (pixel j)) (painted start upper lower n fb) =
      painted start upper lower (n + 4) fb := by
  refine forUp_invariant (fun j fb' => fb' = painted start upper lower (n + j) fb) 4 rfl ?_
  intro j fb' hj h
  rw [h, ← Nat.add_assoc n j 1, painted_succ (by omega), hlower, hpixel j hj, plotPixel,
    Nat.add_assoc start n j]

/-! ## One column -/

/-- The bits carried into a column. -/
def carried (col : ℕ) : ℕ := 8 + 2 * (col % 2)

/-- The groups that are plotted before a column, the left margin's among them; the last column plots
the last one too. -/
def groups (col : ℕ) : ℕ := if col = 40 then 141 else 7 * col / 2

/-- The window of a group: its nibble, with the one before it and the one after it. -/
def groupWindow (s k : ℕ) : ℕ := bits (s <<< 8) (4 * k) 12

/-- The pixels of the whole line, from the left margin on. -/
def upperRow (s : ℕ) (colors : ℕ → UInt32) (n : ℕ) : UInt32 :=
  colors (groupWindow s (n / 4) * 4 + n % 4)

/-- The bits of the stream that a column gives; the last column has all that follow. -/
def columnWidth (col : ℕ) : ℕ := if col = 39 then 18 else 14

theorem lastColShift_eq : ∀ col, col < 40 →
    lastColShift.getD ((col + 1) >>> 3) 0 = if col = 39 then 1 else 0 := by
  decide

/-- The number of groups that a column plots. -/
theorem groups_succ {col : ℕ} (hcol : col < 40) :
    groups (col + 1) = groups col + (3 + (col % 2) <<< (if col = 39 then 1 else 0)) := by
  unfold groups
  obtain h | h := Nat.mod_two_eq_zero_or_one col
  · have h39 : col ≠ 39 := by omega
    have h40 : col + 1 ≠ 40 := by omega
    rw [if_neg (by omega), if_neg (by omega), if_neg h39, h, Nat.shiftLeft_zero]
    omega
  · by_cases h39 : col = 39
    · subst h39
      rfl
    · rw [if_neg (by omega), if_neg (by omega), if_neg h39, h, Nat.shiftLeft_zero]
      omega

theorem plotOldschool_eq (p : Palette) (bits14 : UInt16) {col : ℕ} (hcol : col < 40)
    (colors : ℕ → UInt32) (fbOff : ℕ) (s : Display) :
    plotOldschool p bits14 col colors fbOff s =
      { s with
        fbFull := forUp (3 + (col % 2) <<< (if col = 39 then 1 else 0)) (fun i =>
          forUp 4 (fun j => plotPixel p (fbOff - (carried col - 4) + 4 * i + j)
            (colors (bits (bits14.toNat <<< carried col |||
              s.ntscSignalBits % 2 ^ carried col) (4 * i) 12 * 4 + j)))) s.fbFull
        ntscSignalBits := bits bits14.toNat (14 - carried (col + 1)) (carried (col + 1)) } := by
  have hwindow : ∀ x i, ((x >>> (4 * i)) &&& 0xFFF) <<< 2 = bits x (4 * i) 12 * 4 := fun x i => by
    rw [Nat.shiftLeft_eq, Nat.and_two_pow_sub_one_eq_mod _ 12, bits]
  unfold plotOldschool scanbits carried
  simp only [Nat.and_one_is_mod, lastColShift_eq col hcol, hwindow]
  obtain h | h := Nat.mod_two_eq_zero_or_one col
  · have hnext : (col + 1) % 2 = 1 := by omega
    have hsignal : s.ntscSignalBits &&& 255 = s.ntscSignalBits % 256 :=
      Nat.and_two_pow_sub_one_eq_mod _ 8
    have hcarry : (bits14.toNat >>> 4) &&& 1023 = bits bits14.toNat 4 10 :=
      Nat.and_two_pow_sub_one_eq_mod _ 10
    rw [h, hnext]
    simp [hsignal, hcarry]
  · have hnext : (col + 1) % 2 = 0 := by omega
    have hsignal : s.ntscSignalBits &&& 1023 = s.ntscSignalBits % 1024 :=
      Nat.and_two_pow_sub_one_eq_mod _ 10
    have hcarry : (bits14.toNat >>> 6) &&& 255 = bits bits14.toNat 6 8 :=
      Nat.and_two_pow_sub_one_eq_mod _ 8
    rw [h, hnext]
    simp [hsignal, hcarry]

/-- What a column scans from group `i` on is the window of that group. -/
theorem bits_scanned {s col n word i : ℕ} (h : Agrees s (14 * col) n word)
    (hi : 4 * i + 12 ≤ carried col + n) (hcol : col < 40) :
    bits (word <<< carried col ||| tail s (carried col) (14 * col)) (4 * i) 12 =
      groupWindow s (groups col + i) := by
  rw [bits_carried h hi, groupWindow, groups, if_neg (by omega)]
  have hodd : col % 2 < 2 := Nat.mod_lt _ (by decide)
  have hgroup : 14 * col = 4 * (7 * col / 2) + 2 * (col % 2) := by omega
  have hpos : 14 * col + 4 * i = 4 * (7 * col / 2 + i) + 2 * (col % 2) := by omega
  rw [hpos, carried, Nat.shiftLeft_add, bits_shiftLeft]

/-- A column has the bits for the groups it plots. -/
theorem groups_scanned {col i : ℕ} (hcol : col < 40)
    (hi : i < 3 + (col % 2) <<< (if col = 39 then 1 else 0)) :
    4 * i + 12 ≤ carried col + columnWidth col := by
  unfold carried columnWidth
  by_cases h39 : col = 39
  · subst h39
    rw [if_pos rfl] at hi ⊢
    have hfive : i < 5 := hi
    omega
  · rw [if_neg h39, Nat.shiftLeft_zero] at hi
    rw [if_neg h39]
    omega

theorem groups_le (col : ℕ) (hcol : col ≤ 40) : groups col ≤ 141 := by
  unfold groups
  split_ifs <;> omega

theorem upperRow_pixel (s : ℕ) (colors : ℕ → UInt32) (k : ℕ) {j : ℕ} (hj : j < 4) :
    upperRow s colors (4 * k + j) = colors (groupWindow s k * 4 + j) := by
  have hdiv : (4 * k + j) / 4 = k := by omega
  have hmod : (4 * k + j) % 4 = j := by omega
  rw [upperRow, hdiv, hmod]

/-- A display at a column of a line with the bits `s`: the groups before it are plotted, and the
last bits are carried. -/
structure AtColumn (p : Palette) (colors : ℕ → UInt32) (start : ℕ) (fb : ℕ → UInt32) (s col : ℕ)
    (d : Display) : Prop where
  fbFull : d.fbFull = painted start (upperRow s colors)
    (fun n => scanlineColor p (upperRow s colors n)) (4 * groups col) fb
  signal : d.ntscSignalBits = tail s (carried col) (14 * col)

/-- **The column step.** -/
theorem AtColumn.plotted {p : Palette} {colors : ℕ → UInt32} {s col : ℕ} {d : Display}
    (h : AtColumn p colors start fb s col d) {bits14 : UInt16} (hcol : col < 40)
    (hbits : Agrees s (14 * col) (columnWidth col) bits14.toNat) :
    AtColumn p colors start fb s (col + 1)
      (plotOldschool p bits14 col colors (start + 4 + 14 * col) d) := by
  have hodd : col % 2 < 2 := Nat.mod_lt _ (by decide)
  have hwidth : 14 ≤ columnWidth col := by
    unfold columnWidth
    split_ifs <;> omega
  rw [plotOldschool_eq p bits14 hcol]
  constructor
  · rw [groups_succ hcol]
    refine forUp_invariant (fun i fb' => fb' = painted start (upperRow s colors)
      (fun n => scanlineColor p (upperRow s colors n)) (4 * (groups col + i)) fb) _ h.fbFull ?_
    intro i fb' hi hfb
    have hlast := groups_scanned hcol hi
    have hbound : groups col + i < groups (col + 1) := by
      rw [groups_succ hcol]
      omega
    have hgroups := groups_le (col + 1) (by omega)
    have hptr : start + 4 + 14 * col - (carried col - 4) + 4 * i =
        start + 4 * (groups col + i) := by
      unfold carried groups
      rw [if_neg (by omega)]
      omega
    have hmod : d.ntscSignalBits % 2 ^ carried col = tail s (carried col) (14 * col) := by
      rw [h.signal]
      exact Nat.mod_mod _ _
    rw [hfb, hptr, hmod, bits_scanned hbits hlast hcol]
    refine plotPixels_painted p ?_ (fun _ => rfl) fun j hj => (upperRow_pixel s colors _ hj).symm
    rw [scanwidth_eq]
    omega
  · have hcarried : carried (col + 1) ≤ 14 := by
      unfold carried
      omega
    rw [Nat.mul_succ, tail_next (fun i hi => hbits i (by omega)) hcarried]

end Apple2ix.Video.Plotting
