import Apple2ix.Foundations.Bytes
import Apple2ix.Vm.Frames

/-! The language card is write enabled by two accesses in a row to odd addresses. The two bits that
remember this are a small machine of their own, which sees of a run the language card accesses. -/
namespace Apple2ix.Vm
open Switch
set_option autoImplicit false

/-! ## Language card accesses -/

/-- An access to an even or an odd address of C080 - C08F. -/
inductive CardAccess
  | even
  | odd
  deriving DecidableEq, Repr

/-- The softswitch an access reaches. -/
def Op.softswitch : Op → Option UInt8
  | read _ sw => some sw
  | store _ ea _ => if ea >>> 8 = 0xC0 then some (ea &&& 0xFF).toUInt8 else none

def cardAccess (sw : UInt8) : Option CardAccess :=
  if 0x80 ≤ sw ∧ sw < 0x90 then some (if sw &&& 1 = 0 then .even else .odd) else none

def Op.cardAccess (op : Op) : Option CardAccess := op.softswitch.bind Vm.cardAccess

def Handler.cardAccess : Handler → Option CardAccess
  | iieC080 | lcC082 | iieC088 | lcC08a => some .even
  | iieC081 | iieC083 | iieC089 | iieC08b => some .odd
  | _ => none

theorem handler_cardAccess (sw : UInt8) : (readHandler sw).cardAccess = cardAccess sw ∧
    (writeHandler sw).cardAccess = cardAccess sw := by
  revert sw
  exact forall_uint8 (by decide +kernel)

/-! ## The latch -/

/-- LCSEC and LCWRT. -/
abbrev Latch := Bool × Bool

/-- An even access disarms, an odd one arms, and enables what was armed. -/
def Latch.next : Latch → Option CardAccess → Latch
  | _, some .even => (false, false)
  | (lcsec, lcwrt), some .odd => (true, lcwrt || lcsec)
  | latch, none => latch

/-- The latch is armed by an odd access that no even one follows. -/
theorem Latch.armed {ω : Type} (kind : ω → Option CardAccess) (ops : List ω)
    (h : (ops.foldl (fun latch op => Latch.next latch (kind op)) (false, false)).1 = true) :
    ∃ before first between, ops = before ++ first :: between ∧ kind first = some .odd ∧
      ∀ op ∈ between, kind op ≠ some .even := by
  induction ops using List.reverseRecOn with
  | nil => cases h
  | append_singleton ops op ih =>
    rw [List.foldl_append, List.foldl_cons, List.foldl_nil] at h
    cases hkind : kind op with
    | some access =>
      cases access with
      | even =>
        rw [hkind] at h
        cases h
      | odd => exact ⟨ops, op, [], rfl, hkind, nofun⟩
    | none =>
      rw [hkind] at h
      obtain ⟨before, first, between, heq, hodd, heven⟩ := ih h
      refine ⟨before, first, between ++ [op], ?_, hodd, ?_⟩
      · rw [heq, List.append_assoc, List.cons_append]
      · intro o ho
        rcases List.mem_append.mp ho with hin | hlast
        · exact heven o hin
        · rw [List.mem_singleton.mp hlast, hkind]
          nofun

/-- Enabled means armed. -/
theorem Latch.enabled_armed {ω : Type} (kind : ω → Option CardAccess) (ops : List ω)
    (h : (ops.foldl (fun latch op => Latch.next latch (kind op)) (false, false)).2 = true) :
    (ops.foldl (fun latch op => Latch.next latch (kind op)) (false, false)).1 = true := by
  induction ops using List.reverseRecOn with
  | nil => cases h
  | append_singleton ops op ih =>
    rw [List.foldl_append, List.foldl_cons, List.foldl_nil] at h ⊢
    cases hkind : kind op with
    | none =>
      rw [hkind] at h
      exact ih h
    | some access =>
      cases access with
      | even =>
        rw [hkind] at h
        cases h
      | odd => rfl

/-- Without an even access the latch counts the odd ones. -/
theorem Latch.count {ω : Type} (kind : ω → Option CardAccess) (ops : List ω)
    (h : ∀ op ∈ ops, kind op ≠ some .even) :
    ops.foldl (fun latch op => Latch.next latch (kind op)) (false, false) =
      (decide (1 ≤ ops.countP fun op => kind op = some .odd),
        decide (2 ≤ ops.countP fun op => kind op = some .odd)) := by
  induction ops using List.reverseRecOn with
  | nil => rfl
  | append_singleton ops op ih =>
    simp only [List.forall_mem_append, List.forall_mem_singleton] at h
    rw [List.foldl_append, ih h.1, List.countP_append]
    cases hkind : kind op with
    | none => simp [hkind, Latch.next]
    | some access =>
      cases access with
      | even => exact absurd hkind h.2
      | odd =>
        simp only [List.foldl_cons, List.foldl_nil, hkind, Latch.next, List.countP_singleton,
          decide_true, if_true, ← Bool.decide_or]
        apply Prod.ext
        · simp
        · exact decide_eq_decide.mpr (by omega)

/-! ## The handlers follow the latch -/

section Handlers
variable (vm : Machine) (bus : Bus)

@[simp] theorem lcToAuxmem_has (sw : Switch) : (lcToAuxmem vm).has sw = vm.has sw := by
  simp only [lcToAuxmem]
  split_ifs <;> rfl

@[simp] theorem lcFollowAltzp_has (sw : Switch) : (lcFollowAltzp vm).has sw = vm.has sw := by
  unfold lcFollowAltzp
  split
  · exact lcToAuxmem_has vm sw
  · rfl

@[simp] theorem lcReadCard_has (d000 : Ptr) (sw : Switch) :
    (lcReadCard d000 vm).has sw = vm.has sw := rfl
@[simp] theorem lcReadRom_has (sw : Switch) : (lcReadRom vm).has sw = vm.has sw := rfl
@[simp] theorem lcNoWrite_has (sw : Switch) : (lcNoWrite vm).has sw = vm.has sw := rfl

@[simp] theorem lcSecondAccess_has (d000 : Ptr) (sw : Switch) :
    (lcSecondAccess d000 vm).has sw = (vm.has sw || (vm.has ssLcsec && decide (sw = ssLcwrt))) := by
  unfold lcSecondAccess
  cases vm.has ssLcsec <;> simp

def Machine.latch (vm : Machine) : Latch := (vm.has ssLcsec, vm.has ssLcwrt)

theorem Handler.cardAccess_eq_none (handler : Handler) :
    handler.cardAccess = none ↔ handler.part ≠ .card := by
  cases handler <;> simp [Handler.cardAccess, Handler.part]

theorem handler_latch (handler : Handler) (ea : UInt16) (b : UInt8) :
    (handler.run bus ea b vm).vm.latch = vm.latch.next handler.cardAccess := by
  by_cases hpart : handler.part = .card
  · cases handler
    case iieC080 | lcC082 | iieC088 | lcC08a | iieC081 | iieC083 | iieC089 | iieC08b =>
      simp [Handler.run, Handler.cardAccess, Latch.next, Machine.latch, floats, iieC080, lcC082,
        iieC088, lcC08a, iieC081, iieC083, iieC089, iieC08b]
    all_goals cases hpart
  · have honly := handler_only vm bus handler ea b
    have hfree : ssLcsec ∉ handler.part.switches ∧ ssLcwrt ∉ handler.part.switches := by
      cases hp : handler.part with
      | card => exact absurd hp hpart
      | _ => decide
    rw [handler.cardAccess_eq_none.mpr hpart, Machine.latch, honly.has_eq _ hfree.1,
      honly.has_eq _ hfree.2]
    rfl

end Handlers

/-! ## Which handler an access runs -/

/-- An access runs a softswitch handler, which is one of the language card when the access is, or
stores a byte. -/
theorem step_handler (vm : Machine) (op : Op) :
    (∃ (handler : Handler) (bus : Bus) (ea : UInt16) (b : UInt8),
        handler.cardAccess = op.cardAccess ∧ step vm op = (handler.run bus ea b vm).vm) ∨
      op.cardAccess = none ∧ ∃ base ea b, step vm op = vm.store base ea b := by
  cases op with
  | read bus sw =>
    left
    refine ⟨_, bus, _, 0, ?_, rfl⟩
    rw [softswitch_low]
    exact (handler_cardAccess sw).1
  | store bus ea b =>
    rw [step_store]
    by_cases hsw : cpu65VmemW (ea >>> 8).toNat = .writeSoftswitch
    · left
      rw [hsw]
      refine ⟨_, bus, ea, b, ?_, rfl⟩
      rw [(handler_cardAccess _).2]
      simp only [Op.cardAccess, Op.softswitch, if_pos ((cpu65VmemW_softswitch ea).mp hsw),
        Option.bind_some]
    · right
      obtain ⟨base, hbase⟩ := StoreHandler.run_store _ hsw bus vm ea b
      refine ⟨?_, base, ea, b, hbase⟩
      simp only [Op.cardAccess, Op.softswitch, if_neg (mt (cpu65VmemW_softswitch ea).mpr hsw),
        Option.bind_none]

/-! ## Runs -/

theorem step_latch (vm : Machine) (op : Op) :
    (step vm op).latch = vm.latch.next op.cardAccess := by
  obtain ⟨handler, bus, ea, b, haccess, hrun⟩ | ⟨haccess, base, ea, b, hstore⟩ := step_handler vm op
  · rw [hrun, handler_latch, haccess]
  · obtain ⟨mem, card, banks, hframe⟩ := store_frame vm base ea b
    rw [hstore, haccess, hframe]
    rfl

/-- The machine's latch after a run is the latch that sees the run's language card accesses. -/
theorem runFrom_latch (vm : Machine) (ops : List Op) : (runFrom vm ops).latch =
    ops.foldl (fun latch op => Latch.next latch op.cardAccess) (false, false) := by
  induction ops using List.reverseRecOn with
  | nil => simp [runFrom, Machine.latch]
  | append_singleton ops op ih =>
    rw [runFrom_append, List.foldl_append, ← ih]
    exact step_latch _ op

/-- LCWRT becomes set only by an access that counts, when one that counts came before it and no
access to an even language card address in between. -/
def WriteEnableProtocol (counts : Op → Bool) : Prop :=
  ∀ (vm : Machine) (ops : List Op) (op : Op),
    (runFrom vm ops).has ssLcwrt = false → (runFrom vm (ops ++ [op])).has ssLcwrt = true →
      counts op = true ∧ ∃ before first between, ops = before ++ first :: between ∧
        counts first = true ∧ ∀ o ∈ between, o.cardAccess ≠ some .even

def Op.isOdd (op : Op) : Bool := op.cardAccess = some .odd

/-- **Write enabling**: reads and writes of odd addresses count. -/
theorem write_enable_protocol : WriteEnableProtocol Op.isOdd := by
  intro vm ops op hoff hon
  have hstep := step_latch (runFrom vm ops) op
  have hwrt : (step (runFrom vm ops) op).latch.2 = true := by
    rw [runFrom_append] at hon
    exact hon
  have hlatch : (runFrom vm ops).latch.2 = false := hoff
  rw [hstep] at hwrt
  cases haccess : op.cardAccess with
  | none =>
    rw [haccess] at hwrt
    exact absurd (hlatch.symm.trans hwrt) Bool.false_ne_true
  | some access =>
    cases access with
    | even =>
      rw [haccess] at hwrt
      cases hwrt
    | odd =>
      have harmed : (runFrom vm ops).latch.1 = true := by
        rw [haccess] at hwrt
        simpa [Latch.next, hlatch] using hwrt
      rw [runFrom_latch] at harmed
      obtain ⟨before, first, between, heq, hodd, heven⟩ := Latch.armed Op.cardAccess ops harmed
      exact ⟨by simp [Op.isOdd, haccess], before, first, between, heq, by simp [Op.isOdd, hodd],
        heven⟩

/-- Two writes of C081 in a row enable writing. -/
def poke : Op := .store Bus.quiet 0xC081 0

theorem poke_twice : (runFrom Machine.blank [poke]).has ssLcwrt = false ∧
    (runFrom Machine.blank ([poke] ++ [poke])).has ssLcwrt = true := by
  have hlatch : ∀ ops, (runFrom Machine.blank ops).has ssLcwrt =
      (ops.foldl (fun latch op => Latch.next latch (Op.cardAccess op)) (false, false)).2 :=
    fun ops => congrArg Prod.snd (runFrom_latch Machine.blank ops)
  rw [hlatch, hlatch]
  decide

theorem write_enable_poke : ∃ before first between, [poke] = before ++ first :: between ∧
    Op.isOdd first = true ∧ ∀ o ∈ between, o.cardAccess ≠ some .even :=
  (write_enable_protocol _ _ _ poke_twice.1 poke_twice.2).2

/-- The accesses that count on the hardware. -/
def Op.isOddRead : Op → Bool
  | read bus sw => (read bus sw).isOdd
  | store _ _ _ => false

theorem write_enable_without_reads : ¬ WriteEnableProtocol Op.isOddRead := by
  intro hprotocol
  obtain ⟨hcounts, -⟩ := hprotocol _ _ _ poke_twice.1 poke_twice.2
  cases hcounts

end Apple2ix.Vm
