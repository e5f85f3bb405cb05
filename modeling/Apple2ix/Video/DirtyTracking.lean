import Apple2ix.Foundations.Bytes
import Apple2ix.Vm.MemoryMap

/-! Which stores to the displayed memory the video handlers announce. A store is announced unless
the auxiliary page is written under 80STORE, or the rows of a mixed hires screen that share their
pages with the text rows. -/
namespace Apple2ix.Video
open Vm Switch
set_option autoImplicit false

/-! ## Displayed addresses -/

/-- The tables in closed form, for the visible positions. -/
theorem vertOffset_eq (mode : DrawpageMode) (v : ℕ) (hv : v < scanlinesVblBegin) :
    (vertOffset mode).getD (v >>> ((1 - mode.toNat) * 3)) 0 =
      mode.toNat * (v % 8 * 0x400) + v / 8 % 8 * 0x80 := by
  have htxt : ∀ v < scanlinesVblBegin, vertOffsetTxt.getD (v >>> 3) 0 = v / 8 % 8 * 0x80 := by
    decide +kernel
  have hhgr : ∀ v < scanlinesVblBegin,
      vertOffsetHgr.getD v 0 = v % 8 * 0x400 + v / 8 % 8 * 0x80 := by
    decide +kernel
  cases mode with
  | text => simpa [vertOffset, DrawpageMode.toNat] using htxt v hv
  | hires => simpa [vertOffset, DrawpageMode.toNat] using hhgr v hv

theorem scanOffset_eq (v h : ℕ) (hv : v < scanlinesVblBegin) (hlow : cyclesVisBegin ≤ h)
    (hhigh : h < cyclesScanline) :
    (scanOffset.getD (v >>> 6) []).getD h 0 = v / 64 * 40 + (h - cyclesVisBegin) := by
  have htable :
      ∀ row < 3, ∀ col < 40, (scanOffset.getD row []).getD (col + 25) 0 = row * 40 + col := by
    decide +kernel
  simp only [cyclesVisBegin, cyclesScanline, scanlinesVblBegin, scanlinesVis] at hv hlow hhigh
  have hcol := htable (v >>> 6) (by rw [Nat.shiftRight_eq_div_pow]; omega) (h - 25) (by omega)
  rw [Nat.sub_add_cancel hlow] at hcol
  rw [hcol, Nat.shiftRight_eq_div_pow]
  rfl

/-- The first page of the memory a mode draws from. -/
def firstPage : DrawpageMode → ℕ
  | .text => 0x04
  | .hires => 0x20

/-- Where the scanner reads: the lines from 160 on are in the upper half of each kilobyte. -/
theorem scannerAddress_page (mode : DrawpageMode) (page vCount hCount : ℕ) (hpage : page < 2)
    (hv : vCount < scanlinesVblBegin) (hlow : cyclesVisBegin ≤ hCount)
    (hhigh : hCount < cyclesScanline) :
    firstPage mode * (page + 1) ≤ pageOf (getScannerAddress mode page vCount hCount) ∧
      pageOf (getScannerAddress mode page vCount hCount) < firstPage mode * (page + 2) ∧
      (scanlinesMix ≤ vCount → 2 ≤ pageOf (getScannerAddress mode page vCount hCount) % 4) := by
  have hbase : 1 <<< 10 <<< (mode.toNat * 3) <<< page = firstPage mode * (page + 1) * 0x100 := by
    obtain rfl | rfl : page = 0 ∨ page = 1 := by omega
    all_goals cases mode <;> rfl
  have hpageOf : ∀ n, n < 0x10000 → pageOf (UInt16.ofNat n) = n / 0x100 := by
    intro n hn
    rw [pageOf, UInt16.toNat_shiftRight, UInt16.toNat_ofNat_of_lt' hn,
      Nat.shiftRight_eq_div_pow]
    rfl
  have hfirst :
      firstPage mode = 0x04 ∧ mode.toNat = 0 ∨ firstPage mode = 0x20 ∧ mode.toNat = 1 := by
    cases mode with
    | text => exact Or.inl ⟨rfl, rfl⟩
    | hires => exact Or.inr ⟨rfl, rfl⟩
  rw [getScannerAddress, hbase, vertOffset_eq mode vCount hv,
    scanOffset_eq vCount hCount hv hlow hhigh]
  simp only [cyclesVisBegin, cyclesScanline, scanlinesVblBegin, scanlinesVis, scanlinesMix] at *
  have hrow : vCount / 64 < 3 ∧ hCount - 25 < 40 := by omega
  have hmixed : 160 ≤ vCount → 4 ≤ vCount / 8 % 8 := by omega
  have hline : vCount % 8 < 8 ∧ vCount / 8 % 8 < 8 := by omega
  have hsum : ∀ a b c d : ℕ, a + (b + c) + d = a + b + (c + d) := fun a b c d => by omega
  have hlow : vCount / 8 % 8 * 128 + (vCount / 64 * 40 + (hCount - 25)) < 1024 := by omega
  have hhalf : 160 ≤ vCount → 512 ≤ vCount / 8 % 8 * 128 + (vCount / 64 * 40 + (hCount - 25)) :=
    fun h => by have := hmixed h; omega
  rw [hsum]
  generalize vCount % 8 = line, vCount / 8 % 8 * 128 + (vCount / 64 * 40 + (hCount - 25)) = low at *
  obtain rfl | rfl : page = 0 ∨ page = 1 := by omega
  all_goals
    obtain ⟨hf, hm⟩ | ⟨hf, hm⟩ := hfirst
    all_goals
      rw [hf, hm, hpageOf _ (by omega)]
      omega

/-! ## The handlers of displayed memory -/

/-- The handlers of the video memory. -/
def isVideo : StoreHandler → Bool
  | .videoWrite2eText0 | .videoWrite2eText0Mixed | .videoWrite2eText1 | .videoWrite2eText1Mixed
  | .videoWrite2eHgr0 | .videoWrite2eHgr0Mixed | .videoWrite2eHgr1 | .videoWrite2eHgr1Mixed => true
  | _ => false

/-- The pointer a store to a video page goes through. -/
def videoBase (page : ℕ) : Base :=
  if page < 0x08 then .textwrt
  else if page < 0x0C then .ramwrt
  else if page < 0x40 then .hgrwrt
  else .ramwrt

/-- The handler of a page, by what is drawn from it and the half of its kilobyte. -/
def shownHandler : DrawpageMode → ℕ → Bool → StoreHandler
  | .text, 0, true => .videoWrite2eText0
  | .text, 0, false => .videoWrite2eText0Mixed
  | .text, _, true => .videoWrite2eText1
  | .text, _, false => .videoWrite2eText1Mixed
  | .hires, 0, true => .videoWrite2eHgr0
  | .hires, 0, false => .videoWrite2eHgr0Mixed
  | .hires, _, true => .videoWrite2eHgr1
  | .hires, _, false => .videoWrite2eHgr1Mixed

/-- What its stores go through. -/
def shownBase : DrawpageMode → ℕ → Base
  | .text, 0 => .textwrt
  | .hires, 0 => .hgrwrt
  | _, _ => .ramwrt

def DrawpageMode.other : DrawpageMode → DrawpageMode
  | .text => .hires
  | .hires => .text

/-- The mode a handler goes by. -/
def handlerMode (low : Bool) : BitVec 32 → DrawpageMode :=
  if low then videoCurrentMainMode else videoCurrentMixedMode

def shows (page : ℕ) : Machine → Bool := if page = 0 then shows0 else shows1

theorem page_shown (mode : DrawpageMode) (shown page : ℕ) (hshown : shown < 2)
    (hlow : firstPage mode * (shown + 1) ≤ page) (hhigh : page < firstPage mode * (shown + 2)) :
    cpu65VmemW page = shownHandler mode shown (page % 4 < 2) ∧
      videoBase page = shownBase mode shown := by
  have hlt : page < 0x60 := by
    obtain rfl | rfl : shown = 0 ∨ shown = 1 := by omega
    all_goals
      cases mode <;> simp only [firstPage] at hhigh <;> omega
  have htable : ∀ mode ∈ [DrawpageMode.text, .hires], ∀ shown < 2, ∀ page < 0x60,
      firstPage mode * (shown + 1) ≤ page → page < firstPage mode * (shown + 2) →
        pageHandler page = shownHandler mode shown (page % 4 < 2) ∧
          videoBase page = shownBase mode shown := by
    decide +kernel
  rw [cpu65VmemW_eq page (by omega)]
  exact htable mode (by cases mode <;> decide) shown hshown page hlt hlow hhigh

theorem shownHandler_run (mode : DrawpageMode) (shown : ℕ) (low : Bool) (bus : Bus) (vm : Machine)
    (ea : UInt16) (b : UInt8) : (shownHandler mode shown low).run bus vm ea b =
      videoWrite2e (handlerMode low) mode.other (shows shown) (shownBase mode shown) vm ea b := by
  cases shown <;> cases mode <;> cases low <;> rfl

theorem shownHandler_isVideo (mode : DrawpageMode) (shown : ℕ) (low : Bool) :
    isVideo (shownHandler mode shown low) = true := by
  cases shown <;> cases mode <;> cases low <;> rfl

/-! ## Announced stores -/

/-- `video_setDirty` is called before anything changes. -/
def Announced (vm : Machine) (access : Access) : Prop :=
  ∃ call ∈ access.calls, call.callee = .videoSetDirty ∧ call.vm = vm

/-- A store through a video handler that changes a displayed byte is announced. -/
def DirtyTracked (bus : Bus) (vm : Machine) (ea : UInt16) (b : UInt8) : Prop :=
  isVideo (cpu65VmemW (pageOf ea)) = true → Displayed vm.softswitches ea →
    (∃ aux, (Op.run vm (.store bus ea b)).vm.load (bankOf aux) ea ≠ vm.load (bankOf aux) ea) →
      Announced vm (Op.run vm (.store bus ea b))

/-- The states in which a displayed byte is overlooked: the auxiliary page under 80STORE, and the
graphics lines of a mixed screen in pages that hold text lines too. -/
def Overlooked (vm : Machine) (ea : UInt16) : Prop :=
  (vm.has ss80store = true ∧ vm.has ssPage2 = true) ∨
    (vm.has ssText = false ∧ vm.has ssHires = true ∧ vm.has ssMixed = true ∧
      0x20 ≤ pageOf ea ∧ 2 ≤ pageOf ea % 4)

theorem announced_iff (handlerMode : BitVec 32 → DrawpageMode) (skip : DrawpageMode)
    (shown : Machine → Bool) (base : Base) (vm : Machine) (ea : UInt16) (b : UInt8) :
    Announced vm (videoWrite2e handlerMode skip shown base vm ea b) ↔
      handlerMode vm.softswitches ≠ skip ∧ shown vm = true ∧ vm.load (vm.base base) ea ≠ b := by
  unfold Announced videoWrite2e
  dsimp only
  split
  · rename_i hskip
    simp [hskip]
  · rename_i hskip
    split
    · rename_i hshown
      simp only [Bool.and_eq_true, bne_iff_ne] at hshown
      simp [hskip, hshown, Machine.call]
    · rename_i hshown
      simp only [Bool.and_eq_true, bne_iff_ne] at hshown
      simp [hskip, hshown]

/-- A store through a pointer into a bank changes a byte of that bank if it stores another. -/
theorem changed_iff (handlerMode : BitVec 32 → DrawpageMode) (skip : DrawpageMode)
    (shown : Machine → Bool) {base : Base} {vm : Machine} {bank : Bool}
    (hbase : vm.base base = bankOf bank) (ea : UInt16) (b : UInt8) :
    (∃ aux, (videoWrite2e handlerMode skip shown base vm ea b).vm.load (bankOf aux) ea ≠
      vm.load (bankOf aux) ea) ↔ vm.load (vm.base base) ea ≠ b := by
  simp only [videoWrite2e, hbase, load_store_bank]
  constructor
  · rintro ⟨aux, haux⟩
    by_cases h : aux = bank
    · rw [if_pos h, h] at haux
      exact haux.symm
    · rw [if_neg h] at haux
      exact absurd rfl haux
  · intro hne
    refine ⟨bank, ?_⟩
    rw [if_pos rfl]
    exact hne.symm

/-- The pointers of the video handlers point into a bank. -/
theorem shownBase_bank {vm : Machine} (h : MemoryMapOk vm) (mode : DrawpageMode) (shown : ℕ) :
    ∃ bank, vm.base (shownBase mode shown) = bankOf bank := by
  cases shown with
  | zero =>
    cases mode with
    | text => exact ⟨_, h.baseTextwrt⟩
    | hires => exact ⟨_, h.baseHgrwrt⟩
  | succ n => cases mode <;> exact ⟨_, h.baseRamwrt⟩

/-- The pages the handlers test for are those the scanner draws, but under 80STORE. -/
theorem shows_currentPage (vm : Machine) : shows (videoCurrentPage vm.softswitches) vm = true ↔
    ¬ (vm.has ss80store = true ∧ vm.has ssPage2 = true) := by
  unfold videoCurrentPage shows
  change (if (if vm.has ss80store = true then 0 else if vm.has ssPage2 = true then 1 else 0) = 0
    then shows0 else shows1) vm = true ↔ _
  rcases Bool.eq_false_or_eq_true (vm.has ss80store) with h80 | h80 <;>
    rcases Bool.eq_false_or_eq_true (vm.has ssPage2) with hp | hp <;>
    simp [h80, hp, shows0, shows1]

/-- The modes the handlers go by are those the scanner draws, but for graphics in shared pages. -/
theorem handlerMode_other (ss : BitVec 32) {vCount : ℕ} {low : Bool}
    (hlow : low = true → vCount < scanlinesMix) :
    handlerMode low ss = (currentMode ss vCount).other ↔
      low = false ∧ currentMode ss vCount = .hires ∧ Flag.has ss ssMixed = true := by
  cases low with
  | true =>
    rw [currentMode, if_pos (hlow rfl)]
    cases ht : Flag.has ss ssText <;> cases hh : Flag.has ss ssHires <;>
      simp [handlerMode, videoCurrentMainMode, DrawpageMode.other, ht, hh]
  | false =>
    by_cases hv : vCount < scanlinesMix <;> cases ht : Flag.has ss ssText <;>
      cases hh : Flag.has ss ssHires <;> cases hm : Flag.has ss ssMixed <;>
      simp [handlerMode, currentMode, videoCurrentMainMode, videoCurrentMixedMode,
        DrawpageMode.other, hv, ht, hh, hm]

/-- A displayed address is overlooked where its handler goes by another mode or page. -/
theorem seen_iff (vm : Machine) {vCount : ℕ} {ea : UInt16}
    (hlow : firstPage (currentMode vm.softswitches vCount) *
      (videoCurrentPage vm.softswitches + 1) ≤ pageOf ea)
    (hhigh : pageOf ea < firstPage (currentMode vm.softswitches vCount) *
      (videoCurrentPage vm.softswitches + 2))
    (hmix : scanlinesMix ≤ vCount → 2 ≤ pageOf ea % 4) :
    (handlerMode (decide (pageOf ea % 4 < 2)) vm.softswitches ≠
        (currentMode vm.softswitches vCount).other ∧
      shows (videoCurrentPage vm.softswitches) vm = true) ↔ ¬ Overlooked vm ea := by
  have hshown : videoCurrentPage vm.softswitches < 2 := by
    unfold videoCurrentPage
    split_ifs <;> omega
  have hgraphics : currentMode vm.softswitches vCount = .hires ↔ 0x20 ≤ pageOf ea := by
    generalize videoCurrentPage vm.softswitches = shown at hlow hhigh hshown
    obtain rfl | rfl : shown = 0 ∨ shown = 1 := by omega
    all_goals
      cases hmode : currentMode vm.softswitches vCount <;>
        rw [hmode] at hlow hhigh <;> simp only [firstPage] at hlow hhigh <;> simp <;> omega
  have hhires : currentMode vm.softswitches vCount = .hires →
      vm.has ssText = false ∧ vm.has ssHires = true := by
    by_cases hv : vCount < scanlinesMix <;> cases ht : Flag.has vm.softswitches ssText <;>
      cases hh : Flag.has vm.softswitches ssHires <;>
      simp [currentMode, videoCurrentMainMode, videoCurrentMixedMode, Machine.has, hv, ht, hh]
  have hsmall : decide (pageOf ea % 4 < 2) = true → vCount < scanlinesMix := by
    intro h
    by_contra hnot
    have hfour := hmix (Nat.le_of_not_lt hnot)
    have htwo := of_decide_eq_true h
    omega
  rw [Ne, handlerMode_other _ hsmall, shows_currentPage, decide_eq_false_iff_not, Nat.not_lt]
  unfold Overlooked
  rw [← hgraphics]
  change _ ∧ _ ↔ ¬ (_ ∨ _ ∧ _ ∧ vm.has ssMixed = true ∧ _)
  have hmixed : Flag.has vm.softswitches ssMixed = vm.has ssMixed := rfl
  rw [hmixed, not_or, and_comm]
  refine and_congr_right' (not_congr ⟨?_, ?_⟩)
  · rintro ⟨hhalf, hmode, hm⟩
    exact ⟨(hhires hmode).1, (hhires hmode).2, hm, hmode, hhalf⟩
  · rintro ⟨-, -, hm, hmode, hhalf⟩
    exact ⟨hhalf, hmode, hm⟩

theorem tracked_iff {vm : Machine} (hmap : MemoryMapOk vm) (bus : Bus) (ea : UInt16) (b : UInt8) :
    DirtyTracked bus vm ea b ↔ ¬ (Displayed vm.softswitches ea ∧
      vm.load (vm.base (videoBase (pageOf ea))) ea ≠ b ∧ Overlooked vm ea) := by
  by_cases hdisplayed : Displayed vm.softswitches ea
  · obtain ⟨vCount, hCount, hv, hbegin, hend, haddr⟩ := id hdisplayed
    have hpage : videoCurrentPage vm.softswitches < 2 := by
      unfold videoCurrentPage
      split_ifs <;> omega
    obtain ⟨hlow, hhigh, hmix⟩ := scannerAddress_page (currentMode vm.softswitches vCount) _ vCount
      hCount hpage hv hbegin hend
    rw [← haddr] at hlow hhigh hmix
    obtain ⟨hhandler, hbase⟩ := page_shown _ _ _ hpage hlow hhigh
    have hseen := seen_iff vm hlow hhigh hmix
    obtain ⟨bank, hbank⟩ := shownBase_bank hmap (currentMode vm.softswitches vCount)
      (videoCurrentPage vm.softswitches)
    have hrun : Op.run vm (.store bus ea b) = _ := congrArg (StoreHandler.run bus vm ea b) hhandler
    rw [shownHandler_run] at hrun
    unfold DirtyTracked
    rw [hrun, hhandler, announced_iff, changed_iff _ _ _ hbank, shownHandler_isVideo, hbase,
      ← and_assoc, hseen]
    exact ⟨fun h ⟨hd, hne, hover⟩ => (h rfl hd hne).1 hover,
      fun h _ hd hne => ⟨fun hover => h ⟨hd, hne, hover⟩, hne⟩⟩
  · exact ⟨fun _ h => hdisplayed h.1, fun _ _ hd _ => absurd hd hdisplayed⟩

/-- **Dirty tracking.** In every reachable state a store is tracked unless it changes a displayed
byte that is overlooked. -/
theorem dirty_tracking (vm : Machine) (ops : List Op) (bus : Bus) (ea : UInt16) (b : UInt8) :
    DirtyTracked bus (runFrom vm ops) ea b ↔
      ¬ (Displayed (runFrom vm ops).softswitches ea ∧
        (runFrom vm ops).load ((runFrom vm ops).base (videoBase (pageOf ea))) ea ≠ b ∧
        Overlooked (runFrom vm ops) ea) :=
  tracked_iff (runFrom_map vm ops) bus ea b

/-- An 80 column screen with the auxiliary page mapped in. -/
def auxText : List Op :=
  [.store Bus.quiet 0xC001 0, .store Bus.quiet 0xC00D 0, .read Bus.quiet 0x55]

theorem auxText_run : runFrom Machine.blank auxText = (iiePage2On Bus.quiet
    (iie80colOn (iie80storeOn (initializeIieSwitches Machine.blank)).vm).vm).vm := by
  rw [runFrom, auxText, List.foldl_cons, List.foldl_cons, step_softswitch _ _ _ _ rfl,
    step_softswitch _ _ _ _ rfl]
  rfl

/-- The first character of the screen can be changed without a call. -/
theorem auxText_overlooked :
    ¬ DirtyTracked Bus.quiet (runFrom Machine.blank auxText) 0x0400 0xC1 := by
  have hmap := runFrom_map Machine.blank auxText
  rw [tracked_iff hmap, not_not]
  have hhas : ∀ sw ∈ [ssText, ss80store, ss80col, ssPage2],
      (runFrom Machine.blank auxText).has sw = true := by
    rw [auxText_run]
    simp [iiePage2On, iie80colOn, iie80storeOn, switchOn, pointText, floats, returnsZero]
  have hmem : (runFrom Machine.blank auxText).appleIi64k = fun _ => 0 := by
    rw [auxText_run]
    simp [iiePage2On, iie80colOn, iie80storeOn, switchOn, pointText, floats, returnsZero]
    rfl
  generalize runFrom Machine.blank auxText = vm at *
  simp only [List.forall_mem_cons] at hhas
  obtain ⟨htext, h80store, -, hpage2, -⟩ := hhas
  refine ⟨⟨0, 25, by decide, by decide, by decide, ?_⟩, ?_, Or.inl ⟨h80store, hpage2⟩⟩
  · have hmode : currentMode vm.softswitches 0 = .text := by
      have ht : Flag.has vm.softswitches ssText = true := htext
      simp [currentMode, videoCurrentMainMode, scanlinesMix, ht]
    have hpage : videoCurrentPage vm.softswitches = 0 := if_pos h80store
    rw [hmode, hpage]
    decide
  · have hbase : vm.base (videoBase (pageOf 0x0400)) = bankOf true := by
      have hpage : videoBase (pageOf 0x0400) = .textwrt := by decide
      rw [hpage, hmap.baseTextwrt, hmap.textwrt, hpage2, h80store]
      rfl
    have hload : vm.load (bankOf true) 0x0400 = 0 := by
      have hcell : vm.load (bankOf true) 0x0400 = loadCell vm.appleIi64k (0x10400 : ℤ) := rfl
      rw [hcell, hmem, loadCell]
      split <;> rfl
    rw [hbase, hload]
    decide

end Apple2ix.Video
