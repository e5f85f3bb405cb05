import Apple2ix.Foundations.Runs
import Apple2ix.Vm.HostileState
import Apple2ix.Vm.RomDispatch

/-! The glyphs of the character codes 40 - 7F, which the handlers of ALTCHAR load. A load of a saved
state sets the switch and leaves the glyphs. -/
namespace Apple2ix.Vm
open Runs Switch
set_option autoImplicit false

/-! ## display_loadFont -/

/-- The functions in `glyph_getter`. -/
inductive GlyphGetter
  | glyphNormal
  | glyphInverse
  | glyphFlash
  deriving DecidableEq, Repr

/-- `glyph_getter`, for each 32 characters, and for each byte of `glyph_map` the table it was copied
from and its place there. -/
structure Font where
  glyphGetter : ℕ → GlyphGetter
  glyphMap : ℕ → Glyphs × ℕ

def FontMode.getter : FontMode → GlyphGetter
  | normal | mousetext => .glyphNormal
  | inverse => .glyphInverse
  | flash => .glyphFlash

def displayLoadFont (first quantity : ℕ) (data : Glyphs) (mode : FontMode) (font : Font) :
    Font where
  glyphGetter := fun i =>
    if first >>> 5 ≤ i ∧ i < (first >>> 5) + (quantity >>> 5) then mode.getter
    else font.glyphGetter i
  glyphMap := fun i =>
    if first <<< 3 ≤ i ∧ i < (first <<< 3) + (quantity <<< 3) then (data, i - (first <<< 3))
    else font.glyphMap i

/-- `_initialize_font`. -/
def initializeFont (font : Font) : Font :=
  let font := displayLoadFont 0x00 0x40 .ucaseGlyphs .inverse font
  let font := displayLoadFont 0x40 0x40 .ucaseGlyphs .flash font
  let font := displayLoadFont 0x80 0x40 .ucaseGlyphs .normal font
  let font := displayLoadFont 0xC0 0x20 .ucaseGlyphs .normal font
  displayLoadFont 0xE0 0x20 .lcaseGlyphs .normal font

/-- What a call of a handler does to the font. -/
def Callee.font (callee : Callee) (font : Font) : Font :=
  match callee with
  | .displayLoadFont start qty data mode => Vm.displayLoadFont start qty data mode font
  | _ => font

def fontAfter (calls : List Call) (font : Font) : Font :=
  calls.foldl (fun font call => call.callee.font font) font

/-! ## Runs -/

/-- The machine and its font. -/
structure Shown where
  vm : Machine
  font : Font

/-- Softswitch accesses and guest stores, `vm_initialize` on a machine whose memory is that of `vm`,
and `vm_loadState`. -/
inductive ShownOp
  | access (op : Op)
  | vmInitialize (vm : Machine)
  | loadState (input : List UInt8)

/-- `vm_initialize`. -/
def vmInitialize (vm : Machine) (font : Font) : Shown :=
  ⟨initializeIieSwitches vm, initializeFont font⟩

/-- The state after an operation; a failed assertion is an error. -/
def shownStep (s : Shown) : ShownOp → Except Unit Shown
  | .access op => .ok ⟨step s.vm op, fontAfter (op.run s.vm).calls s.font⟩
  | .vmInitialize vm => .ok (vmInitialize vm s.font)
  | .loadState input =>
    match vmLoadState s.vm input with
    | some (vm, _, _) => .ok { s with vm := vm }
    | none => .error ()

/-! ## What the font should be -/

/-- Codes 40 - 5F are mousetext, and 60 - 7F inverse lowercase. -/
structure Font.IsAlternate (font : Font) : Prop where
  mousetext : font.glyphGetter 2 = .glyphNormal
  lcase : font.glyphGetter 3 = .glyphInverse
  glyphs : ∀ i, 0x40 * 8 ≤ i → i < 0x80 * 8 → font.glyphMap i =
    if i < 0x60 * 8 then (.mousetextGlyphs, i - 0x40 * 8) else (.lcaseGlyphs, i - 0x60 * 8)

/-- Codes 40 - 7F are flashing uppercase. -/
structure Font.IsFlashing (font : Font) : Prop where
  ucase : ∀ i, 2 ≤ i → i < 4 → font.glyphGetter i = .glyphFlash
  glyphs : ∀ i, 0x40 * 8 ≤ i → i < 0x80 * 8 → font.glyphMap i = (.ucaseGlyphs, i - 0x40 * 8)

/-- **The font follows ALTCHAR.** -/
structure FontFollows (s : Shown) : Prop where
  alternate : s.font.IsAlternate ↔ s.vm.has ssAltchar = true
  flashing : s.font.IsFlashing ↔ s.vm.has ssAltchar = false

/-- The font of a switch. -/
def Font.Is (font : Font) (altchar : Bool) : Prop :=
  if altchar then font.IsAlternate else font.IsFlashing

theorem Font.not_both {font : Font} (h : font.IsAlternate) (h' : font.IsFlashing) : False := by
  have hgetter := h'.ucase 2 (le_refl 2) (by decide)
  rw [h.mousetext] at hgetter
  cases hgetter

theorem fontFollows_iff (s : Shown) : FontFollows s ↔ s.font.Is (s.vm.has ssAltchar) := by
  constructor
  · intro h
    cases haltchar : s.vm.has ssAltchar with
    | true => exact h.alternate.mpr haltchar
    | false => exact h.flashing.mpr haltchar
  · intro h
    cases haltchar : s.vm.has ssAltchar with
    | true =>
      rw [haltchar] at h
      refine ⟨iff_of_true h haltchar, iff_of_false (fun h' => Font.not_both h h') ?_⟩
      rw [haltchar]
      decide
    | false =>
      rw [haltchar] at h
      refine ⟨iff_of_false (fun h' => Font.not_both h' h) ?_, iff_of_true h haltchar⟩
      rw [haltchar]
      decide

/-! ## Loading fonts -/

theorem isFlashing_load (font : Font) :
    (displayLoadFont 0x40 0x40 .ucaseGlyphs .flash font).IsFlashing :=
  ⟨fun _ hle hlt => if_pos ⟨hle, hlt⟩, fun _ hle hlt => if_pos ⟨hle, hlt⟩⟩

theorem isAlternate_load (font : Font) :
    (displayLoadFont 0x60 0x20 .lcaseGlyphs .inverse
      (displayLoadFont 0x40 0x20 .mousetextGlyphs .mousetext font)).IsAlternate := by
  refine ⟨rfl, rfl, fun i hle hlt => ?_⟩
  by_cases hi : i < 0x60 * 8
  · rw [if_pos hi]
    exact (if_neg fun h => by omega).trans (if_pos ⟨hle, hi⟩)
  · rw [if_neg hi]
    exact if_pos ⟨by omega, hlt⟩

/-- Fonts that agree on the codes 40 - 7F. -/
theorem Font.IsFlashing.congr {font font' : Font} (h : font.IsFlashing)
    (hgetter : ∀ i, 2 ≤ i → i < 4 → font'.glyphGetter i = font.glyphGetter i)
    (hmap : ∀ i, 0x40 * 8 ≤ i → i < 0x80 * 8 → font'.glyphMap i = font.glyphMap i) :
    font'.IsFlashing :=
  ⟨fun i hle hlt => (hgetter i hle hlt).trans (h.ucase i hle hlt),
    fun i hle hlt => (hmap i hle hlt).trans (h.glyphs i hle hlt)⟩

theorem isFlashing_initializeFont (font : Font) : (initializeFont font).IsFlashing := by
  refine (isFlashing_load (displayLoadFont 0x00 0x40 .ucaseGlyphs .inverse font)).congr ?_ ?_
  · intro i hle hlt
    obtain rfl | rfl : i = 2 ∨ i = 3 := by omega
    all_goals rfl
  · intro i hle hlt
    have hpast : ∀ first quantity data mode (font : Font), 0x80 ≤ first →
        (displayLoadFont first quantity data mode font).glyphMap i = font.glyphMap i := by
      intro first quantity data mode font hfirst
      refine if_neg fun h => ?_
      rw [Nat.shiftLeft_eq] at h
      omega
    unfold initializeFont
    rw [hpast 0xE0 _ _ _ _ (by decide), hpast 0xC0 _ _ _ _ (by decide),
      hpast 0x80 _ _ _ _ (by decide)]

/-! ## Accesses -/

section Handlers
variable (vm : Machine) (bus : Bus) (font : Font)

/-- The two handlers of ALTCHAR aside, no handler loads a font. -/
theorem handler_font (handler : Handler) (hoff : handler ≠ .iieAltcharOff)
    (hon : handler ≠ .iieAltcharOn) (ea : UInt16) (b : UInt8) :
    fontAfter (handler.run bus ea b vm).calls font = font := by
  cases handler
  case iieAltcharOff => exact absurd rfl hoff
  case iieAltcharOn => exact absurd rfl hon
  case readGc0 | readGc1 =>
    simp only [Handler.run, readGc0, readGc1]
    split <;> rfl
  case readSwitchGraphics | readSwitchText | readSwitchNoMixed | readSwitchMixed | iieDhiresOn
      | iieDhiresOff | iie80colOff | iie80colOn =>
    simp only [Handler.run, readSwitchGraphics, readSwitchText, readSwitchNoMixed, readSwitchMixed,
      iieDhiresOn, iieDhiresOff, iie80colOff, iie80colOn, floats, returnsZero, switchOff, switchOn]
    split <;> rfl
  case iiePage2Off | iiePage2On | iieHiresOff | iieHiresOn | iie80storeOff | iie80storeOn
      | iieRamrdMain | iieRamrdAux | iieRamwrtMain | iieRamwrtAux | iieAltzpMain | iieAltzpAux =>
    simp only [Handler.run, iiePage2Off, iiePage2On, iieHiresOff, iieHiresOn, iie80storeOff,
      iie80storeOn, iieRamrdMain, iieRamrdAux, iieRamwrtMain, iieRamwrtAux, iieAltzpMain,
      iieAltzpAux, floats, returnsZero]
    split <;> rfl
  all_goals rfl

/-- Neither do they touch the switch. -/
theorem handler_altchar (handler : Handler) (hoff : handler ≠ .iieAltcharOff)
    (hon : handler ≠ .iieAltcharOn) (ea : UInt16) (b : UInt8) :
    (handler.run bus ea b vm).vm.has ssAltchar = vm.has ssAltchar := by
  have honly := handler_only vm bus handler ea b
  cases hpart : handler.part with
  | map | card | zeroPage | rom =>
    rw [hpart] at honly
    exact honly.has_eq ssAltchar (by decide)
  | display =>
    cases handler
    case iieAltcharOff => exact absurd rfl hoff
    case iieAltcharOn => exact absurd rfl hon
    case readSwitchGraphics | readSwitchText | readSwitchNoMixed | readSwitchMixed | iieDhiresOn
        | iieDhiresOff | iie80colOff | iie80colOn =>
      simp only [Handler.run, readSwitchGraphics, readSwitchText, readSwitchNoMixed,
        readSwitchMixed, iieDhiresOn, iieDhiresOff, iie80colOff, iie80colOn, floats, returnsZero,
        switchOff, switchOn]
      split <;> simp
    case readGcStrobe | gcStrobeStatus =>
      have h : Part.map.Only vm (readGcStrobe bus vm).vm := readGcStrobe_only vm bus
      exact h.has_eq ssAltchar (by decide)
    case ioudisOn =>
      have h : Part.map.Only (vm.set [ssIoudis]) (readGcStrobe bus (vm.set [ssIoudis])).vm :=
        readGcStrobe_only _ bus
      exact (h.has_eq ssAltchar (by decide)).trans (by simp)
    case ioudisOff =>
      have h : Part.map.Only (vm.clear [ssIoudis]) (readGcStrobe bus (vm.clear [ssIoudis])).vm :=
        readGcStrobe_only _ bus
      exact (h.has_eq ssAltchar (by decide)).trans (by simp)
    case readKeyboardStrobe =>
      have h : Part.map.Only vm (readKeyboardStrobe vm).vm := readKeyboardStrobe_only vm
      exact h.has_eq ssAltchar (by decide)
    case readGc0 | readGc1 =>
      simp only [Handler.run, readGc0, readGc1]
      split <;> rfl
    all_goals first | rfl | cases hpart

/-- **One handler**: where the font was that of ALTCHAR, it is afterwards. -/
theorem handler_follows (handler : Handler) (ea : UInt16) (b : UInt8)
    (h : font.Is (vm.has ssAltchar)) :
    (fontAfter (handler.run bus ea b vm).calls font).Is
      ((handler.run bus ea b vm).vm.has ssAltchar) := by
  by_cases hoff : handler = .iieAltcharOff
  · subst hoff
    simp only [Handler.run, iieAltcharOff, returnsZero]
    by_cases haltchar : vm.has ssAltchar = true
    · rw [if_pos haltchar, has_clear, decide_eq_true (List.mem_singleton.mpr rfl), Bool.not_true,
        Bool.and_false]
      exact isFlashing_load font
    · rw [if_neg haltchar]
      exact h
  by_cases hon : handler = .iieAltcharOn
  · subst hon
    simp only [Handler.run, iieAltcharOn, returnsZero]
    by_cases haltchar : vm.has ssAltchar = true
    · rw [if_pos haltchar]
      exact h
    · rw [if_neg haltchar, has_set, decide_eq_true (List.mem_singleton.mpr rfl), Bool.or_true]
      exact isAlternate_load font
  · rw [handler_font vm bus font handler hoff hon, handler_altchar vm bus handler hoff hon]
    exact h

/-- A guest store that is not to a softswitch loads no font. -/
theorem store_font (handler : StoreHandler) (hne : handler ≠ .writeSoftswitch) (ea : UInt16)
    (b : UInt8) : fontAfter (handler.run bus vm ea b).calls font = font := by
  have hvideo : ∀ currentMode skip shown base,
      fontAfter (videoWrite2e currentMode skip shown base vm ea b).calls font = font := by
    intro currentMode skip shown base
    simp only [videoWrite2e]
    split_ifs <;> rfl
  cases handler with
  | writeSoftswitch => exact absurd rfl hne
  | iieWriteRamDefault | iieWriteRamZpageAndStack | writeRamBank | writeRamLc | writeRamNop
  | mbWrite => rfl
  | _ => exact hvideo _ _ _ _

theorem access_follows (op : Op) (h : font.Is (vm.has ssAltchar)) :
    (fontAfter (op.run vm).calls font).Is ((step vm op).has ssAltchar) := by
  cases op with
  | read bus sw => exact handler_follows vm bus font _ _ _ h
  | store bus ea b =>
    by_cases hsw : cpu65VmemW (ea >>> 8).toNat = .writeSoftswitch
    · rw [step_store, Op.run, hsw]
      exact handler_follows vm bus font _ ea b h
    · obtain ⟨base, hbase⟩ := StoreHandler.run_store _ hsw bus vm ea b
      obtain ⟨mem, card, banks, hframe⟩ := store_frame vm base ea b
      rw [step_store, hbase, hframe, Op.run, store_font vm bus font _ hsw]
      exact h

end Handlers

/-! ## Loads -/

/-- Steps that leave the switches alone. -/
theorem loadEach_softswitches {steps : List LoadStep}
    (hkeeps : ∀ step ∈ steps, ∀ bytes vm vm', step.apply bytes vm = some vm' →
      vm'.softswitches = vm.softswitches) {vm vm' : Machine} {input rest : List UInt8}
    {loaded : Bool} (h : loadEach steps vm input = some (vm', rest, loaded)) :
    vm'.softswitches = vm.softswitches := by
  induction steps generalizing vm input with
  | nil =>
    cases h
    rfl
  | cons step steps ih =>
    rw [loadEach] at h
    cases hread : loadState input step.size with
    | none =>
      simp only [hread, Option.some.injEq, Prod.mk.injEq] at h
      rw [h.1]
    | some x =>
      cases happly : step.apply x.1 vm with
      | none => simp only [hread, happly, reduceCtorEq] at h
      | some next =>
        simp only [hread, happly] at h
        rw [ih (fun s hs => hkeeps s (List.mem_cons_of_mem _ hs)) h]
        exact hkeeps step List.mem_cons_self _ _ _ happly

theorem loadTag_softswitches (bases : List Base) (ptrOf : UInt8 → Option Ptr) (bytes : List UInt8)
    (vm vm' : Machine) (h : (loadTag bases ptrOf).apply bytes vm = some vm') :
    vm'.softswitches = vm.softswitches := by
  obtain ⟨p, -, rfl⟩ := Option.map_eq_some_iff.mp h
  rfl

/-- **The switches after a load** are the first four bytes, if there are as many. -/
theorem vmLoadState_softswitches {vm vm' : Machine} {input rest : List UInt8} {loaded : Bool}
    (h : vmLoadState vm input = some (vm', rest, loaded)) :
    vm'.softswitches =
      if 4 ≤ input.length then softswitchesOf (input.take 4) else vm.softswitches := by
  by_cases hlen : 4 ≤ input.length
  · rw [if_pos hlen]
    rw [vmLoadState, loadSteps, loadEach_read hlen rfl] at h
    refine loadEach_softswitches ?_ h
    simp only [List.forall_mem_cons]
    refine ⟨?_, ?_, ?_, loadTag_softswitches _ _, loadTag_softswitches _ _,
      loadTag_softswitches _ _, loadTag_softswitches _ _, loadTag_softswitches _ _,
      loadTag_softswitches _ _, loadTag_softswitches _ _, loadTag_softswitches _ _,
      loadTag_softswitches _ _, loadTag_softswitches _ _, loadTag_softswitches _ _,
      loadTag_softswitches _ _, loadTag_softswitches _ _, List.forall_mem_nil _⟩
    all_goals
      intro bytes vm vm' happly
      cases happly
      rfl
  · rw [if_neg hlen]
    rw [vmLoadState, loadSteps, loadEach_short (by simp only; omega)] at h
    cases h
    rfl

/-! ## Runs -/

/-- A load finds ALTCHAR as it is in the file. -/
def KeepsAltchar (s : Shown) : ShownOp → Prop
  | .access _ => True
  | .vmInitialize _ => True
  | .loadState input =>
    4 ≤ input.length → Flag.has (softswitchesOf (input.take 4)) ssAltchar = s.vm.has ssAltchar

/-- **One step**: the font follows exactly when a load does not change ALTCHAR. -/
theorem shownStep_follows {s t : Shown} {op : ShownOp} (h : FontFollows s)
    (hstep : shownStep s op = .ok t) : FontFollows t ↔ KeepsAltchar s op := by
  rw [fontFollows_iff] at h ⊢
  cases op with
  | access op =>
    cases hstep
    exact iff_of_true (access_follows s.vm s.font op h) trivial
  | vmInitialize vm =>
    cases hstep
    refine iff_of_true ?_ trivial
    have hoff : (initializeIieSwitches vm).has ssAltchar = false := by simp
    rw [vmInitialize, hoff]
    exact isFlashing_initializeFont s.font
  | loadState input =>
    rw [shownStep] at hstep
    cases hload : vmLoadState s.vm input with
    | none =>
      rw [hload] at hstep
      cases hstep
    | some loaded =>
      obtain ⟨vm, rest, done⟩ := loaded
      rw [hload] at hstep
      cases hstep
      have hswitches := vmLoadState_softswitches hload
      have hhas : vm.has ssAltchar = if 4 ≤ input.length then
          Flag.has (softswitchesOf (input.take 4)) ssAltchar else s.vm.has ssAltchar := by
        rw [Machine.has, hswitches]
        split <;> rfl
      change s.font.Is (vm.has ssAltchar) ↔
        (4 ≤ input.length → Flag.has (softswitchesOf (input.take 4)) ssAltchar = s.vm.has ssAltchar)
      rw [hhas]
      by_cases hlen : 4 ≤ input.length
      · rw [if_pos hlen]
        constructor
        · intro hfont _
          cases hold : s.vm.has ssAltchar <;>
            cases hnew : Flag.has (softswitchesOf (input.take 4)) ssAltchar <;>
            rw [hold] at h <;> rw [hnew] at hfont
          · exact (Font.not_both hfont h).elim
          · exact (Font.not_both h hfont).elim
        · intro hsame
          rw [hsame hlen]
          exact h
      · rw [if_neg hlen]
        exact iff_of_true h fun h => absurd h hlen

theorem vmInitialize_follows (vm : Machine) (font : Font) : FontFollows (vmInitialize vm font) := by
  have h : FontFollows (vmInitialize vm font) ↔ True := by
    rw [fontFollows_iff]
    refine iff_of_true ?_ trivial
    have hoff : (initializeIieSwitches vm).has ssAltchar = false := by simp
    rw [vmInitialize, hoff]
    exact isFlashing_initializeFont font
  exact h.mpr trivial

/-- **Main.** In every run from `vm_initialize`, the font follows ALTCHAR in all states the run
comes through exactly when no load of it changes the switch. -/
theorem font_follows_altchar (vm : Machine) (font : Font) {ops : List ShownOp} {last : Shown}
    (hrun : runM shownStep (vmInitialize vm font) ops = .ok last) :
    (∀ pre post s, ops = pre ++ post → runM shownStep (vmInitialize vm font) pre = .ok s →
        FontFollows s) ↔
      Along shownStep KeepsAltchar (vmInitialize vm font) ops :=
  along_iff_invariant FontFollows (fun _ _ _ h hstep => shownStep_follows h hstep)
    (vmInitialize_follows vm font) hrun

/-- No glyphs yet. -/
def Font.blank : Font := ⟨fun _ => .glyphNormal, fun _ => (.ucaseGlyphs, 0)⟩

/-! ## A load that changes the switch -/

/-- What a complete save of a reachable machine added to its file. -/
def Saved (input : List UInt8) : Prop :=
  ∃ vm ops helper helper', vmSaveState helper (runFrom vm ops) = some (helper', true) ∧
    helper'.file = helper.file ++ input

theorem exists_saved (vm : Machine) (ops : List Op) : ∃ input, Saved input ∧
    ∀ start, vmLoadState start input = some (restored (runFrom vm ops) start, [], true) := by
  obtain ⟨chunks, hsave, -⟩ := (runFrom_ok vm ops).loads vm
  obtain ⟨input, hinput, hload⟩ := (runFrom_ok vm ops).save_load
  let host : StateHelper := ⟨[], fun _ bytes => bytes.length⟩
  obtain ⟨saved, all, hall, hfile⟩ := hinput host
  have hroom : all = true := by
    rw [vmSaveState, hsave, saveEach_some] at hall
    rw [← (Prod.mk.inj (Option.some.inj hall)).2]
    exact host.saveAll_room (fun _ _ => le_refl _) chunks
  subst hroom
  refine ⟨input, ⟨vm, ops, host, saved, hall, hfile rfl⟩, fun start => ?_⟩
  have h := hload start []
  rw [List.append_nil] at h
  exact h

theorem restored_has (vm start : Machine) (sw : Switch) :
    (restored vm start).has sw = vm.has sw := rfl

theorem shownStep_load {s : Shown} {input rest : List UInt8} {vm : Machine} {loaded : Bool}
    (h : vmLoadState s.vm input = some (vm, rest, loaded)) :
    shownStep s (.loadState input) = .ok ⟨vm, s.font⟩ := by
  simp only [shownStep, h]

theorem runM_access_load {s : Shown} {op : Op} {input rest : List UInt8} {vm : Machine}
    {loaded : Bool} (h : vmLoadState (step s.vm op) input = some (vm, rest, loaded)) :
    runM shownStep s [.access op, .loadState input] =
      .ok ⟨vm, fontAfter (op.run s.vm).calls s.font⟩ := by
  rw [runM_cons_ok _ rfl, runM_cons_ok _ (shownStep_load h), runM_nil]

/-- A store to C00F, as the machine starts. -/
theorem altchar_set : (step (initializeIieSwitches Machine.blank)
    (.store Bus.quiet 0xC00F 0)).has ssAltchar = true := by
  rw [step_softswitch _ _ _ _ (by decide)]
  change (iieAltcharOn (initializeIieSwitches Machine.blank)).vm.has ssAltchar = true
  rw [iieAltcharOn, if_neg (by simp)]
  simp [returnsZero]

/-- ALTCHAR is switched on, and then a state is loaded that was saved with it on. -/
theorem font_follows_loaded : ∃ input, Saved input ∧
    ∀ pre post s, [.access (.store Bus.quiet 0xC00F 0), .loadState input] = pre ++ post →
      runM shownStep (vmInitialize Machine.blank Font.blank) pre = .ok s → FontFollows s := by
  obtain ⟨input, hsaved, hload⟩ := exists_saved Machine.blank [.store Bus.quiet 0xC00F 0]
  have hvm : (vmInitialize Machine.blank Font.blank).vm = initializeIieSwitches Machine.blank := rfl
  have hfrom : runFrom Machine.blank [.store Bus.quiet 0xC00F 0] =
    step (initializeIieSwitches Machine.blank) (.store Bus.quiet 0xC00F 0) := rfl
  have hrun := @runM_access_load (vmInitialize Machine.blank Font.blank)
    (.store Bus.quiet 0xC00F 0) input _ _ _ (hload _)
  refine ⟨input, hsaved, (font_follows_altchar Machine.blank Font.blank hrun).mpr ?_⟩
  refine (along_cons rfl).mpr ⟨trivial, ?_⟩
  refine (along_cons (shownStep_load (hload _))).mpr ⟨fun hlen => ?_, along_nil _⟩
  have hswitches := vmLoadState_softswitches (hload Machine.blank)
  rw [if_pos hlen] at hswitches
  have hsaved_on := restored_has (runFrom Machine.blank [.store Bus.quiet 0xC00F 0]) Machine.blank
    ssAltchar
  rw [hfrom, altchar_set, Machine.has, ← hfrom, hswitches] at hsaved_on
  rw [hsaved_on, hvm, altchar_set]

theorem not_fontFollows {vm : Machine} {font : Font} (hfont : font.IsAlternate)
    (hoff : vm.has ssAltchar = false) : ¬ FontFollows ⟨vm, font⟩ := fun h =>
  Font.not_both hfont (h.flashing.mpr hoff)

/-- ALTCHAR is switched on, and then the state from before is loaded. -/
theorem altchar_loaded : ¬ ∀ (vm : Machine) (font : Font) (ops : List ShownOp) (last : Shown),
    (∀ input, .loadState input ∈ ops → Saved input) →
    runM shownStep (vmInitialize vm font) ops = .ok last → FontFollows last := by
  intro h
  obtain ⟨input, hsaved, hload⟩ := exists_saved Machine.blank []
  let start : Machine := initializeIieSwitches Machine.blank
  let setsAltchar : Op := .store Bus.quiet 0xC00F 0
  have hoff : start.has ssAltchar = false := by simp [start]
  have hon : (step start setsAltchar).has ssAltchar = true := altchar_set
  have hfont :
      (fontAfter (setsAltchar.run start).calls (initializeFont Font.blank)).IsAlternate := by
    have hfollows := access_follows start (initializeFont Font.blank) setsAltchar
      (hoff ▸ isFlashing_initializeFont Font.blank)
    rw [hon] at hfollows
    exact hfollows
  have hloaded : (restored start (step start setsAltchar)).has ssAltchar = false :=
    (restored_has _ _ _).trans hoff
  refine not_fontFollows hfont hloaded
    (h Machine.blank Font.blank [.access setsAltchar, .loadState input] _ ?_ ?_)
  · intro other hmem
    obtain hmem | hmem := List.mem_cons.mp hmem
    · cases hmem
    · cases List.mem_singleton.mp hmem
      exact hsaved
  · exact runM_access_load (s := vmInitialize Machine.blank Font.blank) (hload _)

end Apple2ix.Vm
