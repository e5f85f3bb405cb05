import Apple2ix.Vm.SaveState

/-! Loading bytes that were not saved: which inputs `vm_loadState` refuses or loads with a memory
map that agrees with the switches, and which abort it or leave pointers the switches do not mean. -/
namespace Apple2ix.Vm
open Switch
set_option autoImplicit false

/-! ## What a load should leave -/

/-- The cached pointers are where the machine's own switches put them. -/
structure MapAgrees (vm : Machine) : Prop where
  map : MemoryMapOk vm
  reads : ReadMapOk vm
  writes : WriteMapOk vm
  roms : RomMapOk vm

/-- No assertion fails, and what is accepted has a memory map that agrees with its switches. -/
def LoadsSafely (vm : Machine) (input : List UInt8) : Prop :=
  ∃ vm' rest loaded, vmLoadState vm input = some (vm', rest, loaded) ∧
    (loaded = true → MapAgrees vm')

/-! ## What the bytes say -/

/-- The bytes before the tags: the switches, main and auxiliary memory, and the language card. -/
def memoryBytes : ℕ := 4 + 0x20000 + 0x4000 + 0x4000

/-- The tag at D000 of a card that is switched in or out. -/
def d000CardTag (on bank2 altzp : Bool) : UInt8 :=
  if on then (if altzp then 4 else 2) + (if bank2 then 0 else 1) else 0

def e000CardTag (on altzp : Bool) : UInt8 := if on then (if altzp then 3 else 2) else 0

/-- The tags of a memory map are those of the switches, and the derived switches those of vm.h. -/
structure TagsAgree (softswitches : BitVec 32) (tags : List UInt8) : Prop where
  screen : Flag.has softswitches ssScreen =
    (Flag.has softswitches ssPage2 && !Flag.has softswitches ss80store)
  textrd : Flag.has softswitches ssTextrd =
    (Flag.has softswitches ssPage2 && Flag.has softswitches ss80store ||
      Flag.has softswitches ssRamrd && !Flag.has softswitches ss80store)
  textwrt : Flag.has softswitches ssTextwrt =
    (Flag.has softswitches ssPage2 && Flag.has softswitches ss80store ||
      Flag.has softswitches ssRamwrt && !Flag.has softswitches ss80store)
  hgrrd : Flag.has softswitches ssHgrrd =
    (Flag.has softswitches ssPage2 && Flag.has softswitches ss80store &&
      Flag.has softswitches ssHires ||
      Flag.has softswitches ssRamrd &&
        !(Flag.has softswitches ss80store && Flag.has softswitches ssHires))
  hgrwrt : Flag.has softswitches ssHgrwrt =
    (Flag.has softswitches ssPage2 && Flag.has softswitches ss80store &&
      Flag.has softswitches ssHires ||
      Flag.has softswitches ssRamwrt &&
        !(Flag.has softswitches ss80store && Flag.has softswitches ssHires))
  tagRamrd : tags.getD 0 0 ≠ 0 ↔ Flag.has softswitches ssRamrd = true
  tagRamwrt : tags.getD 1 0 ≠ 0 ↔ Flag.has softswitches ssRamwrt = true
  tagTextrd : tags.getD 2 0 ≠ 0 ↔ Flag.has softswitches ssTextrd = true
  tagTextwrt : tags.getD 3 0 ≠ 0 ↔ Flag.has softswitches ssTextwrt = true
  tagHgrrd : tags.getD 4 0 ≠ 0 ↔ Flag.has softswitches ssHgrrd = true
  tagHgrwrt : tags.getD 5 0 ≠ 0 ↔ Flag.has softswitches ssHgrwrt = true
  tagStackzp : tags.getD 6 0 ≠ 0 ↔ Flag.has softswitches ssAltzp = true
  tagC3rom : tags.getD 7 0 ≠ 0 ↔
    (Flag.has softswitches ssCxrom || Flag.has softswitches ssC3rom) = true
  tagCxrom : tags.getD 8 0 ≠ 0 ↔ Flag.has softswitches ssCxrom = true
  tagD000Rd : tags.getD 9 0 = d000CardTag (Flag.has softswitches ssLcram)
    (Flag.has softswitches ssBank2) (Flag.has softswitches ssAltzp)
  tagD000Wrt : tags.getD 10 0 = d000CardTag (Flag.has softswitches ssLcwrt)
    (Flag.has softswitches ssBank2) (Flag.has softswitches ssAltzp)
  tagE000Rd : tags.getD 11 0 = e000CardTag (Flag.has softswitches ssLcram)
    (Flag.has softswitches ssAltzp)
  tagE000Wrt : tags.getD 12 0 = e000CardTag (Flag.has softswitches ssLcwrt)
    (Flag.has softswitches ssAltzp)

/-- The tags of the card are known ones, as far as there are any. -/
structure CardKnown (card : List UInt8) : Prop where
  d000 : ∀ tag ∈ card.take 2, tag ∈ [0, 2, 3, 4, 5]
  e000 : ∀ tag ∈ (card.drop 2).take 2, tag ∈ [0, 2, 3]

/-- The tags of the card are known, and all tags agree with the switches of a file that has
them all. -/
structure Benign (input : List UInt8) : Prop where
  card : CardKnown (input.drop (memoryBytes + 9))
  agrees : memoryBytes + 13 ≤ input.length →
    TagsAgree (softswitchesOf (input.take 4)) (input.drop memoryBytes)

/-! ## The tags -/

theorem bankOfTag_eq (tag : UInt8) (aux : Bool) :
    bankOfTag tag = bankOf aux ↔ (tag ≠ 0 ↔ aux = true) := by
  unfold bankOfTag
  by_cases htag : tag = 0 <;> cases aux <;> simp [htag, bankOf, Ptr.appleIi64k]

theorem romOfTag_eq (tag : UInt8) (internal : Bool) :
    romOfTag tag = romOf internal ↔ (tag ≠ 0 ↔ internal = true) := by
  unfold romOfTag
  by_cases htag : tag = 0 <;> cases internal <;>
    simp [htag, romOf, Ptr.appleIi64k, Ptr.iieReadPeripheralCard]

theorem d000OfTag_isSome (absent : Ptr) (tag : UInt8) :
    (d000OfTag absent tag).isSome = true ↔ tag ∈ [0, 2, 3, 4, 5] := by
  unfold d000OfTag
  split_ifs <;> simp [*]

theorem e000OfTag_isSome (absent : Ptr) (tag : UInt8) :
    (e000OfTag absent tag).isSome = true ↔ tag ∈ [0, 2, 3] := by
  unfold e000OfTag
  split_ifs <;> simp [*]

theorem d000OfTag_eq {absent : Ptr} (habsent : absent = Ptr.appleIi64k 0 ∨ absent = Ptr.null)
    (tag : UInt8) (on bank2 altzp : Bool) :
    d000OfTag absent tag = some (if on then d000Ram bank2 altzp else absent) ↔
      tag = d000CardTag on bank2 altzp := by
  revert tag
  obtain rfl | rfl := habsent
  all_goals
    cases on <;> cases bank2 <;> cases altzp <;> exact forall_uint8 (by decide +kernel)

theorem e000OfTag_eq {absent : Ptr} (habsent : absent = Ptr.appleIi64k 0 ∨ absent = Ptr.null)
    (tag : UInt8) (on altzp : Bool) :
    e000OfTag absent tag = some (if on then e000Ram altzp else absent) ↔
      tag = e000CardTag on altzp := by
  revert tag
  obtain rfl | rfl := habsent
  all_goals
    cases on <;> cases altzp <;> exact forall_uint8 (by decide +kernel)

/-! ## Steps of the load -/

theorem loadEach_read {step : LoadStep} {steps : List LoadStep} {vm vm' : Machine}
    {input : List UInt8} (hlen : step.size ≤ input.length)
    (happly : step.apply (input.take step.size) vm = some vm') :
    loadEach (step :: steps) vm input = loadEach steps vm' (input.drop step.size) := by
  rw [loadEach, loadState, if_pos hlen]
  simp only [happly]

theorem loadEach_short {step : LoadStep} {steps : List LoadStep} {vm : Machine}
    {input : List UInt8} (hlen : input.length < step.size) :
    loadEach (step :: steps) vm input = some (vm, input, false) := by
  rw [loadEach, loadState, if_neg (by omega)]

/-- Steps that no byte makes fail, of which the file has not all bytes. -/
theorem loadEach_truncated {steps more : List LoadStep} (vm : Machine) (input : List UInt8)
    (htotal : ∀ step ∈ steps, ∀ bytes vm, (step.apply bytes vm).isSome = true)
    (hlen : input.length < (steps.map LoadStep.size).sum) :
    ∃ vm' rest, loadEach (steps ++ more) vm input = some (vm', rest, false) := by
  induction steps generalizing vm input with
  | nil => cases hlen
  | cons step steps ih =>
    rw [List.map_cons, List.sum_cons] at hlen
    by_cases hstep : step.size ≤ input.length
    · obtain ⟨vm', happly⟩ := Option.isSome_iff_exists.mp
        (htotal step List.mem_cons_self (input.take step.size) vm)
      rw [List.cons_append, loadEach_read hstep happly]
      refine ih vm' _ (fun s hs => htotal s (List.mem_cons_of_mem _ hs)) ?_
      rw [List.length_drop]
      omega
    · exact ⟨vm, input, loadEach_short (by omega)⟩

@[simp] theorem loadEach_tag_nil (bases : List Base) (ptrOf : UInt8 → Option Ptr)
    (steps : List LoadStep) (vm : Machine) :
    loadEach (loadTag bases ptrOf :: steps) vm [] = some (vm, [], false) :=
  loadEach_short Nat.one_pos

theorem loadEach_tag {bases : List Base} {ptrOf : UInt8 → Option Ptr} {tag : UInt8} {p : Ptr}
    (hptr : ptrOf tag = some p) (steps : List LoadStep) (vm : Machine) (rest : List UInt8) :
    loadEach (loadTag bases ptrOf :: steps) vm (tag :: rest) =
      loadEach steps (vm.point bases p) rest := by
  refine loadEach_read (Nat.le_add_left 1 rest.length) ?_
  simp only [loadTag, List.take_succ_cons, List.getD_cons_zero, hptr, Option.map_some]

theorem loadEach_fails {step : LoadStep} {steps : List LoadStep} {vm : Machine}
    {input : List UInt8} (hlen : step.size ≤ input.length)
    (happly : step.apply (input.take step.size) vm = none) :
    loadEach (step :: steps) vm input = none := by
  rw [loadEach, loadState, if_pos hlen]
  simp only [happly]

/-- An unknown tag is an assertion that fails. -/
theorem loadEach_unknown {bases : List Base} {ptrOf : UInt8 → Option Ptr} {tag : UInt8}
    (hptr : ptrOf tag = none) (steps : List LoadStep) (vm : Machine) (rest : List UInt8) :
    loadEach (loadTag bases ptrOf :: steps) vm (tag :: rest) = none := by
  refine loadEach_fails (Nat.le_add_left 1 rest.length) ?_
  simp only [loadTag, List.take_succ_cons, List.getD_cons_zero, hptr, Option.map_none]

/-! ## The steps up to the card's tags -/

/-- The machine once the memory is read. -/
def withMemory (vm : Machine) (input : List UInt8) : Machine :=
  { vm with
    softswitches := softswitchesOf (input.take 4)
    appleIi64k := arrayOf ((input.drop 4).take 0x20000)
    languageCard := arrayOf ((input.drop 0x20004).take 0x4000)
    languageBanks := arrayOf ((input.drop 0x24004).take 0x4000) }

/-- The machine once the tags below D000 are read. -/
def withTags (vm : Machine) (tags : List UInt8) : Machine :=
  let bank := fun i => bankOfTag (tags.getD i 0)
  let rom := fun i => romOfTag (tags.getD i 0)
  ((((((((vm.point [.ramrd] (bank 0)).point [.ramwrt] (bank 1)).point [.textrd] (bank 2)).point
    [.textwrt] (bank 3)).point [.hgrrd] (bank 4)).point [.hgrwrt] (bank 5)).point
    [.stackzp] (bank 6)).point [.c3rom] (rom 7)).point [.cxrom, .c4rom, .c5rom] (rom 8)

/-- The steps of the card's tags. -/
def cardSteps : List LoadStep :=
  [loadTag [.d000Rd] (d000OfTag (Ptr.appleIi64k 0)), loadTag [.d000Wrt] (d000OfTag Ptr.null),
    loadTag [.e000Rd] (e000OfTag (Ptr.appleIi64k 0)), loadTag [.e000Wrt] (e000OfTag Ptr.null)]

theorem loadEach_memory (vm : Machine) {input : List UInt8} (hlen : memoryBytes ≤ input.length) :
    vmLoadState vm input =
      loadEach (loadSteps.drop 4) (withMemory vm input) (input.drop memoryBytes) := by
  rw [memoryBytes] at hlen
  rw [vmLoadState, loadSteps, loadEach_read (by simp only; omega) rfl,
    loadEach_read (by simp only [List.length_drop]; omega) rfl,
    loadEach_read (by simp only [List.length_drop]; omega) rfl,
    loadEach_read (by simp only [List.length_drop]; omega) rfl]
  simp only [List.drop_drop]
  rfl

theorem loadEach_tags (vm : Machine) (t0 t1 t2 t3 t4 t5 t6 t7 t8 : UInt8) (card : List UInt8) :
    loadEach (loadSteps.drop 4) vm (t0 :: t1 :: t2 :: t3 :: t4 :: t5 :: t6 :: t7 :: t8 :: card) =
      loadEach cardSteps (withTags vm [t0, t1, t2, t3, t4, t5, t6, t7, t8]) card := by
  change loadEach (loadTag _ _ :: loadTag _ _ :: loadTag _ _ :: loadTag _ _ :: loadTag _ _ ::
    loadTag _ _ :: loadTag _ _ :: loadTag _ _ :: loadTag _ _ :: cardSteps) _ _ = _
  rw [loadEach_tag rfl, loadEach_tag rfl, loadEach_tag rfl, loadEach_tag rfl, loadEach_tag rfl,
    loadEach_tag rfl, loadEach_tag rfl, loadEach_tag rfl, loadEach_tag rfl]
  rfl

/-! ## The card's tags -/

/-- The machine once the card's tags are read. -/
def withCard (vm : Machine) (d000Rd d000Wrt e000Rd e000Wrt : Ptr) : Machine :=
  (((vm.point [.d000Rd] d000Rd).point [.d000Wrt] d000Wrt).point [.e000Rd] e000Rd).point
    [.e000Wrt] e000Wrt

theorem loadEach_card (vm : Machine) {a b c d : UInt8} {pa pb pc pd : Ptr} (rest : List UInt8)
    (ha : d000OfTag (Ptr.appleIi64k 0) a = some pa) (hb : d000OfTag Ptr.null b = some pb)
    (hc : e000OfTag (Ptr.appleIi64k 0) c = some pc) (hd : e000OfTag Ptr.null d = some pd) :
    loadEach cardSteps vm (a :: b :: c :: d :: rest) =
      some (withCard vm pa pb pc pd, rest, true) := by
  rw [cardSteps, loadEach_tag ha, loadEach_tag hb, loadEach_tag hc, loadEach_tag hd]
  rfl

/-- Reading the card aborts, ends early, or reads four tags that are known. -/
theorem loadEach_card_cases (vm : Machine) (card : List UInt8) :
    (loadEach cardSteps vm card = none ∧ ¬ CardKnown card) ∨
    (CardKnown card ∧ card.length < 4 ∧
      ∃ vm' rest, loadEach cardSteps vm card = some (vm', rest, false)) ∨
    (CardKnown card ∧ ∃ a b c d pa pb pc pd rest, card = a :: b :: c :: d :: rest ∧
      d000OfTag (Ptr.appleIi64k 0) a = some pa ∧ d000OfTag Ptr.null b = some pb ∧
      e000OfTag (Ptr.appleIi64k 0) c = some pc ∧ e000OfTag Ptr.null d = some pd ∧
      loadEach cardSteps vm card = some (withCard vm pa pb pc pd, rest, true)) := by
  have hd000 : ∀ absent tag p, d000OfTag absent tag = some p → tag ∈ [0, 2, 3, 4, 5] :=
    fun absent tag p h => (d000OfTag_isSome absent tag).mp (Option.isSome_of_eq_some h)
  have he000 : ∀ absent tag p, e000OfTag absent tag = some p → tag ∈ [0, 2, 3] :=
    fun absent tag p h => (e000OfTag_isSome absent tag).mp (Option.isSome_of_eq_some h)
  have hnoD : ∀ absent tag, d000OfTag absent tag = none → tag ∉ [0, 2, 3, 4, 5] :=
    fun absent tag h hin => by
      have hsome := (d000OfTag_isSome absent tag).mpr hin
      rw [h] at hsome
      cases hsome
  have hnoE : ∀ absent tag, e000OfTag absent tag = none → tag ∉ [0, 2, 3] :=
    fun absent tag h hin => by
      have hsome := (e000OfTag_isSome absent tag).mpr hin
      rw [h] at hsome
      cases hsome
  -- tag by tag: none left, unknown, or known
  obtain _ | ⟨a, card⟩ := card
  · exact Or.inr (Or.inl ⟨⟨nofun, nofun⟩, by simp, _, _, loadEach_tag_nil _ _ _ vm⟩)
  cases ha : d000OfTag (Ptr.appleIi64k 0) a with
  | none =>
    refine Or.inl ⟨loadEach_unknown ha _ vm card, fun h => hnoD _ a ha (h.d000 a ?_)⟩
    simp
  | some pa =>
    have hka := hd000 _ a pa ha
    obtain _ | ⟨b, card⟩ := card
    · refine Or.inr (Or.inl ⟨⟨by simpa using hka, nofun⟩, by simp, ?_⟩)
      rw [cardSteps, loadEach_tag ha]
      exact ⟨_, _, loadEach_tag_nil _ _ _ _⟩
    cases hb : d000OfTag Ptr.null b with
    | none =>
      refine Or.inl ⟨?_, fun h => hnoD _ b hb (h.d000 b (by simp))⟩
      rw [cardSteps, loadEach_tag ha]
      exact loadEach_unknown hb _ _ card
    | some pb =>
      have hkb := hd000 _ b pb hb
      have hk2 : ∀ tag ∈ [a, b], tag ∈ [0, 2, 3, 4, 5] :=
        List.forall_mem_cons.mpr ⟨hka, List.forall_mem_singleton.mpr hkb⟩
      obtain _ | ⟨c, card⟩ := card
      · refine Or.inr (Or.inl ⟨⟨hk2, nofun⟩, by simp, ?_⟩)
        rw [cardSteps, loadEach_tag ha, loadEach_tag hb]
        exact ⟨_, _, loadEach_tag_nil _ _ _ _⟩
      cases hc : e000OfTag (Ptr.appleIi64k 0) c with
      | none =>
        refine Or.inl ⟨?_, fun h => hnoE _ c hc (h.e000 c (by simp))⟩
        rw [cardSteps, loadEach_tag ha, loadEach_tag hb]
        exact loadEach_unknown hc _ _ card
      | some pc =>
        have hkc := he000 _ c pc hc
        obtain _ | ⟨d, rest⟩ := card
        · refine Or.inr (Or.inl ⟨⟨hk2, by simpa using hkc⟩, by simp, ?_⟩)
          rw [cardSteps, loadEach_tag ha, loadEach_tag hb, loadEach_tag hc]
          exact ⟨_, _, loadEach_tag_nil _ _ _ _⟩
        cases hd : e000OfTag Ptr.null d with
        | none =>
          refine Or.inl ⟨?_, fun h => hnoE _ d hd (h.e000 d (by simp))⟩
          rw [cardSteps, loadEach_tag ha, loadEach_tag hb, loadEach_tag hc]
          exact loadEach_unknown hd _ _ rest
        | some pd =>
          have hk4 : ∀ tag ∈ [c, d], tag ∈ [0, 2, 3] :=
            List.forall_mem_cons.mpr ⟨hkc, List.forall_mem_singleton.mpr (he000 _ d pd hd)⟩
          exact Or.inr (Or.inr ⟨⟨hk2, hk4⟩, a, b, c, d, pa, pb, pc, pd, rest, rfl, ha, hb, hc, hd,
            loadEach_card vm rest ha hb hc hd⟩)

/-! ## The whole load -/

theorem exists_tags {tags : List UInt8} (h : 9 ≤ tags.length) :
    ∃ t0 t1 t2 t3 t4 t5 t6 t7 t8 card,
      tags = t0 :: t1 :: t2 :: t3 :: t4 :: t5 :: t6 :: t7 :: t8 :: card := by
  obtain _ |
    ⟨t0, _ | ⟨t1, _ | ⟨t2, _ | ⟨t3, _ | ⟨t4, _ | ⟨t5, _ | ⟨t6, _ | ⟨t7, _ | ⟨t8, card⟩⟩⟩⟩⟩⟩⟩⟩⟩ :=
    tags
  case cons.cons.cons.cons.cons.cons.cons.cons.cons => exact ⟨_, _, _, _, _, _, _, _, _, _, rfl⟩
  all_goals simp at h

/-- The loaded map agrees with the switches when the tags do. -/
theorem mapAgrees_iff (vm : Machine) (input : List UInt8) (t0 t1 t2 t3 t4 t5 t6 t7 t8 : UInt8)
    {a b c d : UInt8} {pa pb pc pd : Ptr} (rest : List UInt8)
    (ha : d000OfTag (Ptr.appleIi64k 0) a = some pa) (hb : d000OfTag Ptr.null b = some pb)
    (hc : e000OfTag (Ptr.appleIi64k 0) c = some pc) (hd : e000OfTag Ptr.null d = some pd) :
    MapAgrees (withCard (withTags (withMemory vm input) [t0, t1, t2, t3, t4, t5, t6, t7, t8])
        pa pb pc pd) ↔
      TagsAgree (softswitchesOf (input.take 4))
        (t0 :: t1 :: t2 :: t3 :: t4 :: t5 :: t6 :: t7 :: t8 :: a :: b :: c :: d :: rest) := by
  constructor
  · rintro ⟨hmap, hreads, hwrites, hroms⟩
    exact {
      screen := hmap.screen
      textrd := hmap.textrd
      textwrt := hmap.textwrt
      hgrrd := hmap.hgrrd
      hgrwrt := hmap.hgrwrt
      tagRamrd := (bankOfTag_eq _ _).mp hmap.baseRamrd
      tagRamwrt := (bankOfTag_eq _ _).mp hmap.baseRamwrt
      tagTextrd := (bankOfTag_eq _ _).mp hmap.baseTextrd
      tagTextwrt := (bankOfTag_eq _ _).mp hmap.baseTextwrt
      tagHgrrd := (bankOfTag_eq _ _).mp hmap.baseHgrrd
      tagHgrwrt := (bankOfTag_eq _ _).mp hmap.baseHgrwrt
      tagStackzp := (bankOfTag_eq _ _).mp hmap.baseStackzp
      tagC3rom := (romOfTag_eq _ _).mp hroms.c3rom
      tagCxrom := (romOfTag_eq _ _).mp hroms.cxrom
      tagD000Rd := (d000OfTag_eq (Or.inl rfl) _ _ _ _).mp (ha.trans (congrArg some hreads.d000))
      tagD000Wrt := (d000OfTag_eq (Or.inr rfl) _ _ _ _).mp (hb.trans (congrArg some hwrites.d000))
      tagE000Rd := (e000OfTag_eq (Or.inl rfl) _ _ _).mp (hc.trans (congrArg some hreads.e000))
      tagE000Wrt := (e000OfTag_eq (Or.inr rfl) _ _ _).mp (hd.trans (congrArg some hwrites.e000)) }
  · intro h
    have hrom : romOfTag t8 = romOf (Flag.has (softswitchesOf (input.take 4)) ssCxrom) :=
      (romOfTag_eq _ _).mpr h.tagCxrom
    refine ⟨⟨h.screen, h.textrd, h.textwrt, h.hgrrd, h.hgrwrt, (bankOfTag_eq _ _).mpr h.tagTextrd,
      (bankOfTag_eq _ _).mpr h.tagTextwrt, (bankOfTag_eq _ _).mpr h.tagHgrrd,
      (bankOfTag_eq _ _).mpr h.tagHgrwrt, (bankOfTag_eq _ _).mpr h.tagRamrd,
      (bankOfTag_eq _ _).mpr h.tagRamwrt, (bankOfTag_eq _ _).mpr h.tagStackzp⟩, ⟨?_, ?_⟩, ⟨?_, ?_⟩,
      ⟨(romOfTag_eq _ _).mpr h.tagC3rom, hrom, hrom, hrom⟩⟩
    · exact Option.some_injective _
        (ha.symm.trans ((d000OfTag_eq (Or.inl rfl) a _ _ _).mpr h.tagD000Rd))
    · exact Option.some_injective _
        (hc.symm.trans ((e000OfTag_eq (Or.inl rfl) c _ _).mpr h.tagE000Rd))
    · exact Option.some_injective _
        (hb.symm.trans ((d000OfTag_eq (Or.inr rfl) b _ _ _).mpr h.tagD000Wrt))
    · exact Option.some_injective _
        (hd.symm.trans ((e000OfTag_eq (Or.inr rfl) d _ _).mpr h.tagE000Wrt))

/-- A file that ends before the card's tags is refused. -/
theorem loadsSafely_short (vm : Machine) {input : List UInt8}
    (hlen : input.length < memoryBytes + 9) : LoadsSafely vm input := by
  obtain ⟨vm', rest, hload⟩ : ∃ vm' rest,
      loadEach (loadSteps.take 13 ++ cardSteps) vm input = some (vm', rest, false) := by
    refine loadEach_truncated vm input ?_ hlen
    intro step hstep bytes vm
    simp only [loadSteps, List.take_succ_cons, List.take_zero, List.mem_cons, List.not_mem_nil,
      or_false] at hstep
    obtain rfl | rfl | rfl | rfl | rfl | rfl | rfl | rfl | rfl | rfl | rfl | rfl | rfl := hstep
    all_goals rfl
  exact ⟨vm', rest, false, hload, nofun⟩

theorem benign_short {input : List UInt8} (hlen : input.length < memoryBytes + 9) :
    Benign input := by
  refine ⟨?_, fun hall => by omega⟩
  rw [List.drop_eq_nil_of_le hlen.le]
  exact ⟨nofun, nofun⟩

theorem loadsSafely_iff_benign (vm : Machine) (input : List UInt8) :
    LoadsSafely vm input ↔ Benign input := by
  by_cases hlen : input.length < memoryBytes + 9
  · exact iff_of_true (loadsSafely_short vm hlen) (benign_short hlen)
  · have htags : 9 ≤ (input.drop memoryBytes).length := by
      rw [List.length_drop]
      omega
    obtain ⟨t0, t1, t2, t3, t4, t5, t6, t7, t8, card, htags⟩ := exists_tags htags
    have hcard : input.drop (memoryBytes + 9) = card := by
      rw [← List.drop_drop, htags]
      rfl
    have hmore : input.length = memoryBytes + 9 + card.length := by
      rw [← hcard, List.length_drop]
      omega
    have hload : vmLoadState vm input = loadEach cardSteps
        (withTags (withMemory vm input) [t0, t1, t2, t3, t4, t5, t6, t7, t8]) card := by
      rw [loadEach_memory vm (by omega), htags, loadEach_tags]
    unfold LoadsSafely
    rw [hload]
    obtain ⟨hnone, hunknown⟩ | ⟨hknown, hshort, vm', rest, hread⟩ |
      ⟨hknown, a, b, c, d, pa, pb, pc, pd, rest, rfl, ha, hb, hc, hd, hread⟩ :=
      loadEach_card_cases (withTags (withMemory vm input) [t0, t1, t2, t3, t4, t5, t6, t7, t8]) card
    · rw [hnone]
      refine iff_of_false nofun fun h => hunknown ?_
      rw [← hcard]
      exact h.card
    · rw [hread]
      exact iff_of_true ⟨vm', rest, false, rfl, nofun⟩
        ⟨by rw [hcard]; exact hknown, fun hall => by omega⟩
    · have hagrees := mapAgrees_iff vm input t0 t1 t2 t3 t4 t5 t6 t7 t8 rest ha hb hc hd
      rw [hread]
      constructor
      · rintro ⟨vm', rest', loaded, heq, hok⟩
        cases heq
        refine ⟨by rw [hcard]; exact hknown, fun _ => ?_⟩
        rw [htags]
        exact hagrees.mp (hok rfl)
      · intro h
        refine ⟨_, _, _, rfl, fun _ => hagrees.mpr ?_⟩
        rw [← htags]
        refine h.agrees ?_
        simp only [List.length_cons] at hmore
        omega

/-- **Hostile bytes**: for every input, the load refuses it or leaves a memory map that agrees with
the switches, exactly when the card's tags are known ones and a complete file's tags agree with its
switches. -/
theorem hostile_vm_state (vm : Machine) (input : List UInt8) :
    LoadsSafely vm input ↔ Benign input :=
  loadsSafely_iff_benign vm input

/-- A file that switches the slots to the internal rom, with the tags of peripheral cards. -/
def cxromFile : List UInt8 :=
  softswitchBytes ssCxrom.mask ++ List.replicate (0x28000 + 13) 0

theorem cxromFile_tags : (cxromFile.drop memoryBytes).getD 8 0 = 0 := by
  have hlen : (softswitchBytes ssCxrom.mask).length = 4 := rfl
  rw [cxromFile, List.drop_append, hlen, List.drop_replicate,
    List.drop_eq_nil_of_le (by rw [hlen]; decide), List.nil_append]
  rfl

/-- CXROM is set in the file and its pointer is the function of the cards. -/
theorem cxrom_called : ¬ ∀ (vm : Machine) (input : List UInt8), LoadsSafely vm input := by
  intro hsafe
  have hbenign := (loadsSafely_iff_benign Machine.blank cxromFile).mp (hsafe _ _)
  have hlen : memoryBytes + 13 ≤ cxromFile.length := by
    have hswitches : (softswitchBytes ssCxrom.mask).length = 4 := rfl
    rw [cxromFile, List.length_append, List.length_replicate, hswitches, memoryBytes]
  have hword : softswitchesOf (cxromFile.take 4) = ssCxrom.mask := softswitchesOf_bytes _
  have hcxrom := (hbenign.agrees hlen).tagCxrom
  rw [hword, cxromFile_tags] at hcxrom
  exact hcxrom.mpr (by decide) rfl

end Apple2ix.Vm
