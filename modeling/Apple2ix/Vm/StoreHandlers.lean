import Apple2ix.Foundations.Loops
import Apple2ix.Vm.Softswitch

/-! Guest stores: the handlers `cpu65_vmem_w` dispatches to by page, and the loops of
`_initialize_tables` that fill that table. -/
namespace Apple2ix.Vm
open Video Switch Loops
set_option autoImplicit false

/-! ## The video handlers -/

/-- The common body of the `video__write_2e_` handlers: a change of a byte that is taken to be on
screen is announced before the byte is stored. -/
def videoWrite2e (currentMode : BitVec 32 → DrawpageMode) (skip : DrawpageMode)
    (shown : Machine → Bool) (base : Base) (vm : Machine) (ea : UInt16) (b : UInt8) :
    Access :=
  let calls :=
    if currentMode vm.softswitches = skip then []
    else if shown vm && vm.load (vm.base base) ea != b then [vm.call .videoSetDirty]
    else []
  ⟨vm.store (vm.base base) ea b, calls, 0x0⟩

/-- The tests of the handlers of the first and the second pages. -/
def shows0 (vm : Machine) : Bool := !vm.has ssPage2
def shows1 (vm : Machine) : Bool := vm.has ssPage2 && !vm.has ss80store

def videoWrite2eText0 : Machine → UInt16 → UInt8 → Access :=
  videoWrite2e videoCurrentMainMode .hires shows0 .textwrt
def videoWrite2eText0Mixed : Machine → UInt16 → UInt8 → Access :=
  videoWrite2e videoCurrentMixedMode .hires shows0 .textwrt
def videoWrite2eText1 : Machine → UInt16 → UInt8 → Access :=
  videoWrite2e videoCurrentMainMode .hires shows1 .ramwrt
def videoWrite2eText1Mixed : Machine → UInt16 → UInt8 → Access :=
  videoWrite2e videoCurrentMixedMode .hires shows1 .ramwrt
def videoWrite2eHgr0 : Machine → UInt16 → UInt8 → Access :=
  videoWrite2e videoCurrentMainMode .text shows0 .hgrwrt
def videoWrite2eHgr0Mixed : Machine → UInt16 → UInt8 → Access :=
  videoWrite2e videoCurrentMixedMode .text shows0 .hgrwrt
def videoWrite2eHgr1 : Machine → UInt16 → UInt8 → Access :=
  videoWrite2e videoCurrentMainMode .text shows1 .ramwrt
def videoWrite2eHgr1Mixed : Machine → UInt16 → UInt8 → Access :=
  videoWrite2e videoCurrentMixedMode .text shows1 .ramwrt

/-! ## The table -/

/-- The functions in `cpu65_vmem_w`. -/
inductive StoreHandler
  | iieWriteRamDefault
  | iieWriteRamZpageAndStack
  | writeRamBank
  | writeRamLc
  | writeRamNop
  | videoWrite2eText0
  | videoWrite2eText0Mixed
  | videoWrite2eText1
  | videoWrite2eText1Mixed
  | videoWrite2eHgr0
  | videoWrite2eHgr0Mixed
  | videoWrite2eHgr1
  | videoWrite2eHgr1Mixed
  | writeSoftswitch
  | mbWrite
  deriving DecidableEq, Repr

/-- A store that reaches memory, or none. -/
def stores (vm : Machine) : Access := ⟨vm, [], 0x0⟩

def StoreHandler.run (bus : Bus) (vm : Machine) (ea : UInt16) (b : UInt8) : StoreHandler → Access
  | iieWriteRamDefault => stores (vm.store (vm.base .ramwrt) ea b)
  | iieWriteRamZpageAndStack => stores (vm.store (vm.base .stackzp) ea b)
  | writeRamBank =>
    stores (if vm.base .d000Wrt = Ptr.null then vm else vm.store (vm.base .d000Wrt) ea b)
  | writeRamLc =>
    stores (if vm.base .e000Wrt = Ptr.null then vm else vm.store (vm.base .e000Wrt) ea b)
  | writeRamNop => stores vm
  | videoWrite2eText0 => Vm.videoWrite2eText0 vm ea b
  | videoWrite2eText0Mixed => Vm.videoWrite2eText0Mixed vm ea b
  | videoWrite2eText1 => Vm.videoWrite2eText1 vm ea b
  | videoWrite2eText1Mixed => Vm.videoWrite2eText1Mixed vm ea b
  | videoWrite2eHgr0 => Vm.videoWrite2eHgr0 vm ea b
  | videoWrite2eHgr0Mixed => Vm.videoWrite2eHgr0Mixed vm ea b
  | videoWrite2eHgr1 => Vm.videoWrite2eHgr1 vm ea b
  | videoWrite2eHgr1Mixed => Vm.videoWrite2eHgr1Mixed vm ea b
  | writeSoftswitch => Vm.writeSoftswitch bus vm ea b
  | mbWrite => stores vm

/-- `cpu65_vmem_w`, by page. -/
abbrev StoreTable := ℕ → StoreHandler

/-- `table[addr >> 8] = handler`. -/
def StoreTable.assign (addr : ℕ) (handler : StoreHandler) (table : StoreTable) : StoreTable :=
  Function.update table (addr >>> 8) handler

/-- The body of the loop over the columns of text row `y`. -/
def assignCell (y row x : ℕ) (table : StoreTable) : StoreTable :=
  let idx := row + x
  let table :=
    if y < 20 then
      StoreTable.assign (idx + 0x800) .videoWrite2eText1
        (StoreTable.assign (idx + 0x400) .videoWrite2eText0 table)
    else
      StoreTable.assign (idx + 0x800) .videoWrite2eText1Mixed
        (StoreTable.assign (idx + 0x400) .videoWrite2eText0Mixed table)
  forUp 8 (fun i table =>
    let idx := row + 0x400 * i + x
    if y < 20 then
      StoreTable.assign (idx + 0x4000) .videoWrite2eHgr1
        (StoreTable.assign (idx + 0x2000) .videoWrite2eHgr0 table)
    else
      StoreTable.assign (idx + 0x4000) .videoWrite2eHgr1Mixed
        (StoreTable.assign (idx + 0x2000) .videoWrite2eHgr0Mixed table)) table

/-- Pages `from`, …, `from + n - 1`. -/
def assignPages (start n : ℕ) (handler : StoreHandler) (table : StoreTable) : StoreTable :=
  forUp n (fun i table => Function.update table (start + i) handler) table

/-- The text and graphics part of `_initialize_tables`. -/
def assignVideo (table : StoreTable) : StoreTable :=
  forUp textRows (fun y table =>
    forUp textCols (fun x table => assignCell y (videoLineOffset.getD y 0) x table) table) table

/-- `mb_io_initialize(4, 5)`, with the Mockingboard in both slots. -/
def mbIoInitialize (table : StoreTable) : StoreTable :=
  forUp 0x100 (fun i => StoreTable.assign (0xC500 + i) .mbWrite)
    (forUp 0x100 (fun i => StoreTable.assign (0xC400 + i) .mbWrite) table)

/-- `cpu65_vmem_w` after `_initialize_tables`, whose first loop sets every page. -/
def cpu65VmemW : StoreTable :=
  let table : StoreTable := fun _ => .iieWriteRamDefault
  let table := assignPages 0xC0 0x10 .writeRamNop table
  let table := assignPages 0xD0 0x10 .writeRamBank table
  let table := assignPages 0xE0 0x20 .writeRamLc table
  let table := Function.update table 0 .iieWriteRamZpageAndStack
  let table := Function.update table 1 .iieWriteRamZpageAndStack
  let table := assignVideo table
  let table := Function.update table 0xC0 .writeSoftswitch
  mbIoInitialize table

/-! ## What the loops leave in the table -/

/-- The function of each page. -/
def pageHandler (page : ℕ) : StoreHandler :=
  if page < 0x02 then .iieWriteRamZpageAndStack
  else if page < 0x04 then .iieWriteRamDefault
  else if page < 0x08 then if page % 4 < 2 then .videoWrite2eText0 else .videoWrite2eText0Mixed
  else if page < 0x0C then if page % 4 < 2 then .videoWrite2eText1 else .videoWrite2eText1Mixed
  else if page < 0x20 then .iieWriteRamDefault
  else if page < 0x40 then if page % 4 < 2 then .videoWrite2eHgr0 else .videoWrite2eHgr0Mixed
  else if page < 0x60 then if page % 4 < 2 then .videoWrite2eHgr1 else .videoWrite2eHgr1Mixed
  else if page < 0xC0 then .iieWriteRamDefault
  else if page = 0xC0 then .writeSoftswitch
  else if page = 0xC4 ∨ page = 0xC5 then .mbWrite
  else if page < 0xD0 then .writeRamNop
  else if page < 0xE0 then .writeRamBank
  else .writeRamLc

/-- `f` sets some cells to fixed values and keeps the others. -/
def Overwrites (f : StoreTable → StoreTable) : Prop :=
  ∀ page, (∃ handler, ∀ table, f table page = handler) ∨ ∀ table, f table page = table page

section Overwrites
variable {f g : StoreTable → StoreTable}

theorem overwrites_assign (addr : ℕ) (handler : StoreHandler) :
    Overwrites (StoreTable.assign addr handler) := by
  intro page
  by_cases h : page = addr >>> 8
  · left
    refine ⟨handler, fun table => ?_⟩
    rw [StoreTable.assign, h, Function.update_self]
  · right
    intro table
    rw [StoreTable.assign, Function.update_of_ne h]

theorem Overwrites.comp (hf : Overwrites f) (hg : Overwrites g) :
    Overwrites fun table => f (g table) := by
  intro page
  rcases hf page with ⟨handler, h⟩ | h
  · exact Or.inl ⟨handler, fun table => h (g table)⟩
  · rcases hg page with ⟨handler, h'⟩ | h'
    · exact Or.inl ⟨handler, fun table => (h (g table)).trans (h' table)⟩
    · exact Or.inr fun table => (h (g table)).trans (h' table)

theorem Overwrites.forUp {body : ℕ → StoreTable → StoreTable} (n : ℕ)
    (hbody : ∀ i, Overwrites (body i)) : Overwrites (forUp n body) := by
  induction n with
  | zero => exact fun page => Or.inr fun table => rfl
  | succ n ih => exact (hbody n).comp ih

/-- Doing the same assignments again changes nothing. -/
theorem Overwrites.forUp_const (hf : Overwrites f) (n : ℕ) (table : StoreTable) :
    Loops.forUp (n + 1) (fun _ => f) table = f table := by
  induction n with
  | zero => rfl
  | succ n ih =>
    rw [forUp_succ, ih]
    funext page
    rcases hf page with ⟨handler, h⟩ | h
    · rw [h, h]
    · rw [h]

end Overwrites

theorem overwrites_assignCell (y row x : ℕ) : Overwrites (assignCell y row x) := by
  have hpair : ∀ a b (c d : StoreHandler),
      Overwrites fun table => StoreTable.assign a c (StoreTable.assign b d table) :=
    fun a b c d => (overwrites_assign a c).comp (overwrites_assign b d)
  unfold assignCell
  by_cases hy : y < 20
  · simp only [hy, if_true]
    exact Overwrites.comp (Overwrites.forUp 8 fun i => hpair _ _ _ _) (hpair _ _ _ _)
  · simp only [hy, if_false]
    exact Overwrites.comp (Overwrites.forUp 8 fun i => hpair _ _ _ _) (hpair _ _ _ _)

/-- The columns of a row are in one page. -/
theorem assignCell_column (y row x : ℕ) (hrow : row % 0x100 + x < 0x100) :
    assignCell y row x = assignCell y row 0 := by
  have hpage : ∀ n, (row + 0x400 * n + x) >>> 8 = (row + 0x400 * n) >>> 8 := by
    intro n
    rw [Nat.shiftRight_eq_div_pow, Nat.shiftRight_eq_div_pow]
    omega
  have hassign : ∀ a b handler, a >>> 8 = b >>> 8 →
      StoreTable.assign a handler = StoreTable.assign b handler := by
    intro a b handler h
    funext table
    rw [StoreTable.assign, StoreTable.assign, h]
  have htext : ∀ k handler, StoreTable.assign (row + x + 0x400 * k) handler =
      StoreTable.assign (row + 0 + 0x400 * k) handler := by
    intro k handler
    apply hassign
    rw [Nat.add_right_comm, hpage, Nat.add_zero]
  have hhgr : ∀ k i handler, StoreTable.assign (row + 0x400 * i + x + 0x400 * k) handler =
      StoreTable.assign (row + 0x400 * i + 0 + 0x400 * k) handler := by
    intro k i handler
    apply hassign
    have h := hpage (i + k)
    rw [Nat.mul_add, ← Nat.add_assoc] at h
    rw [Nat.add_right_comm, h, Nat.add_zero]
  funext table
  unfold assignCell
  simp only [htext 1, htext 2, hhgr 8, hhgr 16]

/-- A loop does what its body does at every counter it reaches. -/
theorem forUp_congr {f g : ℕ → StoreTable → StoreTable} (n : ℕ) (h : ∀ i, i < n → f i = g i) :
    forUp n f = forUp n g := by
  induction n with
  | zero => rfl
  | succ n ih =>
    funext table
    rw [forUp_succ, forUp_succ, ih fun i hi => h i (Nat.lt_succ_of_lt hi), h n (Nat.lt_succ_self n)]

/-- One column of each row does all the work of `assignVideo`. -/
theorem assignVideo_eq : assignVideo =
    forUp textRows fun y => assignCell y (videoLineOffset.getD y 0) 0 := by
  have hrow : ∀ y, y < textRows → videoLineOffset.getD y 0 % 0x100 + textCols ≤ 0x100 := by decide
  refine forUp_congr textRows fun y hy => ?_
  have hcolumn : ∀ x, x < textCols → assignCell y (videoLineOffset.getD y 0) x =
      assignCell y (videoLineOffset.getD y 0) 0 := fun x hx =>
    assignCell_column y _ x (Nat.lt_of_lt_of_le (Nat.add_lt_add_left hx _) (hrow y hy))
  funext table
  rw [forUp_congr textCols hcolumn]
  exact (overwrites_assignCell y _ 0).forUp_const 39 table

/-- A page of slot I/O. -/
theorem assign_slot (addr : ℕ) (haddr : addr % 0x100 = 0) (handler : StoreHandler)
    (table : StoreTable) : forUp 0x100 (fun i => StoreTable.assign (addr + i) handler) table =
      StoreTable.assign addr handler table := by
  have hpage : ∀ i, i < 0x100 → StoreTable.assign (addr + i) handler =
      StoreTable.assign addr handler := by
    intro i hi
    funext table
    have hshift : (addr + i) >>> 8 = addr >>> 8 := by
      rw [Nat.shiftRight_eq_div_pow, Nat.shiftRight_eq_div_pow]
      omega
    rw [StoreTable.assign, StoreTable.assign, hshift]
  rw [forUp_congr 0x100 hpage]
  exact (overwrites_assign addr handler).forUp_const 0xFF table

/-- **The table of the store handlers**, page by page. -/
theorem cpu65VmemW_eq : ∀ page, page < 0x100 → cpu65VmemW page = pageHandler page := by
  unfold cpu65VmemW mbIoInitialize
  simp only [assignVideo_eq, assign_slot 0xC400 rfl, assign_slot 0xC500 rfl]
  decide +kernel

theorem cpu65VmemW_softswitch (ea : UInt16) :
    cpu65VmemW (ea >>> 8).toNat = .writeSoftswitch ↔ ea >>> 8 = 0xC0 := by
  have hpage : (ea >>> 8).toNat < 0x100 := by
    rw [UInt16.toNat_shiftRight, Nat.shiftRight_eq_div_pow]
    exact Nat.div_lt_of_lt_mul ea.toNat_lt
  have hiff : ∀ page, page < 0x100 → (pageHandler page = .writeSoftswitch ↔ page = 0xC0) := by
    decide +kernel
  rw [cpu65VmemW_eq _ hpage, hiff _ hpage, ← UInt16.toNat_inj]
  rfl

end Apple2ix.Vm
