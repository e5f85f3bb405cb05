import Apple2ix.Vm.WriteEnable

/-! The language card from D000 on: what reads and writes reach there, after any run. -/
namespace Apple2ix.Vm
open Switch
set_option autoImplicit false

/-! ## Where the card is mapped -/

/-- The RAM at D000: a bank of 4K in main or auxiliary memory. -/
def d000Ram (bank2 altzp : Bool) : Ptr :=
  Ptr.languageBanks (if altzp then 1 else 0) - (if bank2 then 0xD000 else 0xC000 : ℤ)

/-- The RAM at E000. -/
def e000Ram (altzp : Bool) : Ptr := Ptr.languageCard (if altzp then 1 else 0) - (0xE000 : ℤ)

@[simp] theorem lcBank2_eq : lcBank2 = d000Ram true false := rfl
@[simp] theorem lcBank1_eq : lcBank1 = d000Ram false false := rfl
@[simp] theorem lcCard_eq : lcCard = e000Ram false := rfl
@[simp] theorem lcCard_aux : Ptr.languageCard 0 - (0xC000 : ℤ) = e000Ram true := rfl
@[simp] theorem d000Ram_aux (bank2 : Bool) :
    d000Ram bank2 false + (0x2000 : ℤ) = d000Ram bank2 true := by
  cases bank2 <;> rfl
@[simp] theorem d000Ram_main (bank2 : Bool) :
    d000Ram bank2 true - (0x2000 : ℤ) = d000Ram bank2 false := by
  cases bank2 <;> rfl

/-- Reads reach the card's RAM or the rom of `apple_ii_64k[0]`. -/
structure ReadMapOk (vm : Machine) : Prop where
  d000 : vm.base .d000Rd = if vm.has ssLcram then d000Ram (vm.has ssBank2) (vm.has ssAltzp)
    else Ptr.appleIi64k 0
  e000 : vm.base .e000Rd = if vm.has ssLcram then e000Ram (vm.has ssAltzp) else Ptr.appleIi64k 0

/-- Writes reach the card's RAM or nothing. -/
structure WriteMapOk (vm : Machine) : Prop where
  d000 : vm.base .d000Wrt = if vm.has ssLcwrt then d000Ram (vm.has ssBank2) (vm.has ssAltzp)
    else Ptr.null
  e000 : vm.base .e000Wrt = if vm.has ssLcwrt then e000Ram (vm.has ssAltzp) else Ptr.null

/-! ## The helpers -/

section Helpers
variable (vm : Machine)

/-- Both halves of `lcToAuxmem` at once. -/
theorem lcToAuxmem_base (base : Base) : (lcToAuxmem vm).base base =
    match base with
    | .d000Rd => if vm.has ssLcram then vm.base .d000Rd + (0x2000 : ℤ) else vm.base .d000Rd
    | .e000Rd => if vm.has ssLcram then e000Ram true else vm.base .e000Rd
    | .d000Wrt => if vm.has ssLcwrt then vm.base .d000Wrt + (0x2000 : ℤ) else vm.base .d000Wrt
    | .e000Wrt => if vm.has ssLcwrt then e000Ram true else vm.base .e000Wrt
    | _ => vm.base base := by
  cases hlcram : vm.has ssLcram <;> cases hlcwrt : vm.has ssLcwrt <;> cases base <;>
    simp [lcToAuxmem, hlcram, hlcwrt]

end Helpers

/-! ## Reads -/

section Reads
variable {vm vm' : Machine} (bus : Bus)

/-- Every access of the card maps reads anew. -/
theorem card_readMap (handler : Handler) (hpart : handler.part = .card) (ea : UInt16) (b : UInt8) :
    ReadMapOk (handler.run bus ea b vm).vm := by
  cases handler
  case iieC080 | lcC082 | iieC088 | lcC08a | iieC081 | iieC083 | iieC089 | iieC08b =>
    cases haltzp : vm.has ssAltzp <;> cases hlcsec : vm.has ssLcsec <;> constructor <;>
      simp [Handler.run, floats, iieC080, lcC082, iieC088, lcC08a, iieC081, iieC083, iieC089,
        iieC08b, lcFollowAltzp, lcSecondAccess, lcReadCard, lcReadRom, lcNoWrite,
        lcToAuxmem_base, *]
  all_goals cases hpart

variable (h : ReadMapOk vm)
include h

theorem ReadMapOk.frame {sws : List Switch} {bases : List Base} (hsame : Changes sws bases vm vm')
    (hsws : ∀ sw ∈ [ssLcram, ssBank2, ssAltzp], sw ∉ sws)
    (hbases : ∀ base ∈ [Base.d000Rd, Base.e000Rd], base ∉ bases) : ReadMapOk vm' := by
  simp only [List.forall_mem_cons] at hsws hbases
  constructor
  · rw [hsame.base_eq _ hbases.1, hsame.has_eq _ hsws.1, hsame.has_eq _ hsws.2.1,
      hsame.has_eq _ hsws.2.2.1]
    exact h.d000
  · rw [hsame.base_eq _ hbases.2.1, hsame.has_eq _ hsws.1, hsame.has_eq _ hsws.2.2.1]
    exact h.e000

/-- A switch of the zero page moves the card by one bank, once. -/
theorem zeroPage_readMap (handler : Handler) (hpart : handler.part = .zeroPage) (ea : UInt16)
    (b : UInt8) : ReadMapOk (handler.run bus ea b vm).vm := by
  obtain ⟨hd, he⟩ := h
  cases handler
  case iieAltzpMain | iieAltzpAux =>
    cases haltzp : vm.has ssAltzp <;> cases hlcram : vm.has ssLcram <;>
      cases hlcwrt : vm.has ssLcwrt <;> constructor <;>
      simp [Handler.run, returnsZero, iieAltzpMain, iieAltzpAux, lcToAuxmem_base, *]
  all_goals cases hpart

theorem handler_readMap (handler : Handler) (ea : UInt16) (b : UInt8) :
    ReadMapOk (handler.run bus ea b vm).vm := by
  have honly := handler_only vm bus handler ea b
  cases hpart : handler.part with
  | display | map | rom =>
    rw [hpart] at honly
    exact h.frame honly (by decide) (by decide)
  | card => exact card_readMap bus handler hpart ea b
  | zeroPage => exact zeroPage_readMap bus h handler hpart ea b

theorem step_readMap (op : Op) : ReadMapOk (step vm op) := by
  obtain ⟨handler, bus, ea, b, hrun⟩ | ⟨base, ea, b, hstore⟩ := step_cases vm op
  · rw [hrun]
    exact handler_readMap bus h handler ea b
  · rw [hstore]
    have hsame : Changes [] [] vm vm := Changes.refl [] [] vm
    exact h.frame (hsame.store base ea b) nofun nofun

end Reads

theorem initializeIieSwitches_readMap (vm : Machine) : ReadMapOk (initializeIieSwitches vm) := by
  constructor <;> simp <;> rfl

/-- **What reads reach from D000 on**, after every run. -/
theorem card_read_map (vm : Machine) (ops : List Op) : ReadMapOk (runFrom vm ops) :=
  runFrom_invariant ReadMapOk initializeIieSwitches_readMap (fun _ op h => step_readMap h op) vm ops

/-! ## Writes -/

section Writes
variable {vm vm' : Machine} (bus : Bus)

theorem even_writeMap (handler : Handler) (heven : handler.cardAccess = some .even) (ea : UInt16)
    (b : UInt8) : WriteMapOk (handler.run bus ea b vm).vm := by
  cases handler
  case iieC080 | lcC082 | iieC088 | lcC08a =>
    cases haltzp : vm.has ssAltzp <;> constructor <;>
      simp [Handler.run, floats, iieC080, lcC082, iieC088, lcC08a, lcFollowAltzp, lcReadCard,
        lcReadRom, lcNoWrite, lcToAuxmem_base, *]
  all_goals cases heven

theorem armed_writeMap (handler : Handler) (hodd : handler.cardAccess = some .odd)
    (hlcsec : vm.has ssLcsec = true) (ea : UInt16) (b : UInt8) :
    WriteMapOk (handler.run bus ea b vm).vm := by
  cases handler
  case iieC081 | iieC083 | iieC089 | iieC08b =>
    cases haltzp : vm.has ssAltzp <;> constructor <;>
      simp [Handler.run, floats, iieC081, iieC083, iieC089, iieC08b, lcFollowAltzp, lcSecondAccess,
        lcReadCard, lcReadRom, lcToAuxmem_base, *]
  all_goals cases hodd

/-- With LCWRT clear only an even access, or an odd one that sets it, moves the write pointers. -/
theorem handler_writes_same (handler : Handler) (heven : handler.cardAccess ≠ some .even)
    (hodd : handler.cardAccess = some .odd → vm.has ssLcsec = false)
    (hlcwrt : vm.has ssLcwrt = false) (ea : UInt16) (b : UInt8) (base : Base)
    (hbase : base ∈ [Base.d000Wrt, Base.e000Wrt]) :
    (handler.run bus ea b vm).vm.base base = vm.base base := by
  have honly := handler_only vm bus handler ea b
  cases hpart : handler.part with
  | display | map | rom =>
    apply honly.base_eq
    rw [hpart]
    revert base
    decide
  | card =>
    cases handler
    case iieC081 | iieC083 | iieC089 | iieC08b =>
      have hlcsec := hodd rfl
      cases haltzp : vm.has ssAltzp <;> revert base <;>
        simp [Handler.run, floats, iieC081, iieC083, iieC089, iieC08b, lcFollowAltzp,
          lcSecondAccess, lcReadCard, lcReadRom, lcToAuxmem_base, *]
    all_goals first
      | exact absurd rfl heven
      | cases hpart
  | zeroPage =>
    cases handler
    case iieAltzpMain | iieAltzpAux =>
      cases haltzp : vm.has ssAltzp <;> cases hlcram : vm.has ssLcram <;> revert base <;>
        simp [Handler.run, returnsZero, iieAltzpMain, iieAltzpAux, lcToAuxmem_base, *]
    all_goals cases hpart

/-- The map of a card that is write protected and unreachable, or written through the latch. -/
theorem WriteMapOk.frame (h : WriteMapOk vm) {sws : List Switch} {bases : List Base}
    (hsame : Changes sws bases vm vm') (hsws : ∀ sw ∈ [ssLcwrt, ssBank2, ssAltzp], sw ∉ sws)
    (hbases : ∀ base ∈ [Base.d000Wrt, Base.e000Wrt], base ∉ bases) : WriteMapOk vm' := by
  simp only [List.forall_mem_cons] at hsws hbases
  constructor
  · rw [hsame.base_eq _ hbases.1, hsame.has_eq _ hsws.1, hsame.has_eq _ hsws.2.1,
      hsame.has_eq _ hsws.2.2.1]
    exact h.d000
  · rw [hsame.base_eq _ hbases.2.1, hsame.has_eq _ hsws.1, hsame.has_eq _ hsws.2.2.1]
    exact h.e000

theorem zeroPage_writeMap (h : WriteMapOk vm) (handler : Handler)
    (hpart : handler.part = .zeroPage) (ea : UInt16) (b : UInt8) :
    WriteMapOk (handler.run bus ea b vm).vm := by
  obtain ⟨hd, he⟩ := h
  cases handler
  case iieAltzpMain | iieAltzpAux =>
    cases haltzp : vm.has ssAltzp <;> cases hlcram : vm.has ssLcram <;>
      cases hlcwrt : vm.has ssLcwrt <;> constructor <;>
      simp [Handler.run, returnsZero, iieAltzpMain, iieAltzpAux, lcToAuxmem_base, *]
  all_goals cases hpart

/-- A protected card stays unreachable. -/
theorem WriteMapOk.protected (hlcwrt : vm.has ssLcwrt = false)
    (hd : vm.base .d000Wrt = Ptr.null) (he : vm.base .e000Wrt = Ptr.null) : WriteMapOk vm := by
  constructor <;> simpa [hlcwrt]

theorem handler_writeMap (h : WriteMapOk vm)
    (harmed : vm.has ssLcwrt = true → vm.has ssLcsec = true) (handler : Handler) (ea : UInt16)
    (b : UInt8) : WriteMapOk (handler.run bus ea b vm).vm := by
  cases hpart : handler.part with
  | display | map | rom =>
    have honly := handler_only vm bus handler ea b
    rw [hpart] at honly
    exact h.frame honly (by decide) (by decide)
  | zeroPage => exact zeroPage_writeMap bus h handler hpart ea b
  | card =>
    cases haccess : handler.cardAccess with
    | none => exact absurd hpart (handler.cardAccess_eq_none.mp haccess)
    | some access =>
      cases access with
      | even => exact even_writeMap bus handler haccess ea b
      | odd =>
        rcases Bool.eq_false_or_eq_true (vm.has ssLcsec) with hlcsec | hlcsec
        · exact armed_writeMap bus handler haccess hlcsec ea b
        · have hlcwrt : vm.has ssLcwrt = false := by
            rw [Bool.eq_false_iff]
            intro hwrt
            exact absurd (harmed hwrt) (Bool.eq_false_iff.mp hlcsec)
          have hlatch := handler_latch vm bus handler ea b
          have hsame := handler_writes_same bus handler (by rw [haccess]; nofun)
            (fun _ => hlcsec) hlcwrt ea b
          have hnull : vm.base .d000Wrt = Ptr.null ∧ vm.base .e000Wrt = Ptr.null := by
            constructor
            · simpa [hlcwrt] using h.d000
            · simpa [hlcwrt] using h.e000
          apply WriteMapOk.protected
          · rw [haccess, Machine.latch, Machine.latch, hlcsec, hlcwrt] at hlatch
            exact congrArg Prod.snd hlatch
          · exact (hsame _ (by decide)).trans hnull.1
          · exact (hsame _ (by decide)).trans hnull.2

end Writes

/-! ## Runs -/

/-- The card was accessed at an even address, or twice at odd ones. -/
def Settled (ops : List Op) : Prop :=
  (∃ op ∈ ops, op.cardAccess = some .even) ∨ 2 ≤ ops.countP Op.isOdd

/-- Before that the write pointers are those of `_initialize_iie_switches`. -/
structure WritesUnsettled (vm : Machine) : Prop where
  d000 : vm.base .d000Wrt = lcBank2
  e000 : vm.base .e000Wrt = lcCard

theorem settled_snoc (ops : List Op) (op : Op) : Settled (ops ++ [op]) ↔
    Settled ops ∨ op.cardAccess = some .even ∨
      op.cardAccess = some .odd ∧ 1 ≤ ops.countP Op.isOdd := by
  unfold Settled
  rw [List.countP_append, List.countP_singleton]
  simp only [List.mem_append, List.mem_singleton, or_and_right, exists_or, exists_eq_left,
    Op.isOdd, decide_eq_true_eq]
  by_cases hodd : op.cardAccess = some .odd
  · simp only [hodd, if_true, true_and, Option.some.injEq, reduceCtorEq, or_false, false_or]
    rw [or_assoc, Nat.succ_le_succ_iff]
    have hmono : 2 ≤ ops.countP (fun op => decide (op.cardAccess = some .odd)) →
        1 ≤ ops.countP (fun op => decide (op.cardAccess = some .odd)) := fun h => by omega
    exact or_congr_right (or_iff_right_of_imp hmono).symm
  · simp only [hodd, if_false, false_and, or_false, Nat.add_zero]
    rw [or_right_comm]

/-- The latch before the card is settled. -/
theorem unsettled_latch (vm : Machine) {ops : List Op} (h : ¬ Settled ops) :
    (runFrom vm ops).latch = (decide (1 ≤ ops.countP Op.isOdd), false) := by
  obtain ⟨heven, hodd⟩ := not_or.mp h
  have hcount := Latch.count Op.cardAccess ops fun op hop hkind => heven ⟨op, hop, hkind⟩
  rw [runFrom_latch, hcount]
  exact Prod.ext rfl (decide_eq_false hodd)

theorem armed_of_enabled (vm : Machine) (ops : List Op)
    (h : (runFrom vm ops).has ssLcwrt = true) : (runFrom vm ops).has ssLcsec = true := by
  have hlatch := runFrom_latch vm ops
  have hwrt : (runFrom vm ops).latch.2 = true := h
  rw [hlatch] at hwrt
  have hsec := Latch.enabled_armed Op.cardAccess ops hwrt
  rw [← hlatch] at hsec
  exact hsec

/-- What a run keeps: once settled the map is right, and until then nothing moves. -/
structure WritesTracked (ops : List Op) (vm : Machine) : Prop where
  settled : Settled ops → WriteMapOk vm
  unsettled : ¬ Settled ops → WritesUnsettled vm

theorem tracked_step (vm : Machine) (ops : List Op) (op : Op)
    (h : WritesTracked ops (runFrom vm ops)) :
    WritesTracked (ops ++ [op]) (step (runFrom vm ops) op) := by
  have harmed := armed_of_enabled vm ops
  generalize hs : runFrom vm ops = s at h harmed ⊢
  obtain ⟨handler, bus, ea, b, haccess, hrun⟩ | ⟨haccess, base, ea, b, hstore⟩ := step_handler s op
  · rw [hrun]
    by_cases hsettled : Settled ops
    · have hmap := handler_writeMap bus (h.settled hsettled) harmed handler ea b
      exact ⟨fun _ => hmap, fun hnot => absurd ((settled_snoc ops op).mpr (Or.inl hsettled)) hnot⟩
    · have hlatch := unsettled_latch vm hsettled
      rw [hs] at hlatch
      have hlcsec : s.has ssLcsec = decide (1 ≤ ops.countP Op.isOdd) := congrArg Prod.fst hlatch
      have hlcwrt : s.has ssLcwrt = false := congrArg Prod.snd hlatch
      constructor
      · intro hnow
        rw [settled_snoc] at hnow
        rcases hnow with hold | heven | ⟨hodd, hcount⟩
        · exact absurd hold hsettled
        · exact even_writeMap bus handler (haccess.trans heven) ea b
        · exact armed_writeMap bus handler (haccess.trans hodd)
            (hlcsec.trans (decide_eq_true hcount)) ea b
      · intro hnot
        simp only [settled_snoc, not_or, not_and] at hnot
        obtain ⟨-, heven, hodd⟩ := hnot
        have hsame := handler_writes_same bus handler (haccess ▸ heven)
          (fun hkind => hlcsec.trans (decide_eq_false (hodd (haccess ▸ hkind)))) hlcwrt ea b
        exact ⟨(hsame _ (by decide)).trans (h.unsettled hsettled).d000,
          (hsame _ (by decide)).trans (h.unsettled hsettled).e000⟩
  · have hsame : Changes [] [] s (step s op) := by
      rw [hstore]
      exact (Changes.refl [] [] s).store base ea b
    have hiff : Settled (ops ++ [op]) ↔ Settled ops := by simp [settled_snoc, haccess]
    constructor
    · intro hnow
      exact (h.settled (hiff.mp hnow)).frame hsame nofun nofun
    · intro hnot
      have hbefore := h.unsettled (mt hiff.mpr hnot)
      exact ⟨(hsame.base_eq _ nofun).trans hbefore.d000, (hsame.base_eq _ nofun).trans hbefore.e000⟩

theorem runFrom_tracked (vm : Machine) (ops : List Op) : WritesTracked ops (runFrom vm ops) := by
  induction ops using List.reverseRecOn with
  | nil =>
    refine ⟨fun h => ?_, fun _ => ⟨rfl, rfl⟩⟩
    rcases h with ⟨op, hop, -⟩ | hcount
    · cases hop
    · cases hcount
  | append_singleton ops op ih =>
    rw [runFrom_append]
    exact tracked_step vm ops op ih

/-- **What writes reach from D000 on**: the map is right once the card is settled. -/
theorem card_write_map (vm : Machine) (ops : List Op) :
    WriteMapOk (runFrom vm ops) ↔ Settled ops := by
  refine ⟨fun hmap => ?_, (runFrom_tracked vm ops).settled⟩
  by_contra hnot
  have hd := ((runFrom_tracked vm ops).unsettled hnot).d000
  have hlcwrt : (runFrom vm ops).has ssLcwrt = false :=
    congrArg Prod.snd (unsettled_latch vm hnot)
  rw [hmap.d000, hlcwrt] at hd
  cases hd

/-- Before the first access the card is protected, and written all the same. -/
theorem card_write_map_at_start : ¬ WriteMapOk (runFrom Machine.blank []) := by
  intro hmap
  have hd := hmap.d000
  have hlcwrt : (runFrom Machine.blank []).has ssLcwrt = false :=
    initializeIieSwitches_has Machine.blank ssLcwrt
  rw [hlcwrt] at hd
  cases hd

end Apple2ix.Vm
