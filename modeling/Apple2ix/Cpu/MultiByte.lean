import Apple2ix.Foundations.Ripple
import Apple2ix.Cpu.ArmDecimal
import Apple2ix.Cpu.X86Decimal

/-! Numbers of several bytes of decimal digits, added and subtracted byte by byte on either core. -/
namespace Apple2ix.Cpu
open Processor Ripple
set_option autoImplicit false

/-! ## Cores -/

/-- A core on 64K: what LDA, ADC, SBC and STA do once EffectiveAddr is found, and the registers. -/
structure ByteCore (S : Type) where
  lda : UInt16 → S → S
  adc : UInt16 → S → S
  sbc : UInt16 → S → S
  sta : UInt16 → S → S
  view : S → Processor

def X86.byteCore : ByteCore (X86.State Ram) where
  lda := fun ea s => X86.doLda ramBus { s with ea := ea }
  adc := fun ea s => X86.doAdc ramBus { s with ea := ea }
  sbc := fun ea s => X86.doSbc ramBus { s with ea := ea }
  sta := fun ea s => X86.doStore ramBus s.a { s with ea := ea }
  view := X86.State.view

def Arm.byteCore (arch : Arm.Arch) : ByteCore (Arm.State Ram) where
  lda := fun ea s => Arm.doLda Arm.ram { s with ea := ea.toUInt32 }
  adc := fun ea s => Arm.doAdcB arch Arm.ram { s with ea := ea.toUInt32 }
  sbc := fun ea s => Arm.doSbcB arch Arm.ram { s with ea := ea.toUInt32 }
  sta := fun ea s => Arm.doStore Arm.ram s.a { s with ea := ea.toUInt32 }
  view := Arm.State.view

/-! ## Chains -/

/-- Where a byte is loaded, what it is combined with, and where the result is stored. -/
structure Place where
  load : UInt16
  operand : UInt16
  store : UInt16

namespace ByteCore
variable {S : Type} (core : ByteCore S) (combine : UInt16 → S → S)

/-- One byte, loaded, combined and stored. -/
def round (p : Place) (s : S) : S := core.sta p.store (combine p.operand (core.lda p.load s))

/-- All of them in turn. -/
def chain (places : List Place) (s : S) : S := places.foldl (fun s p => core.round combine p s) s

/-- The bytes that are loaded and those they are combined with, each when its turn comes. -/
def reads : List Place → S → List (UInt8 × UInt8)
  | [], _ => []
  | p :: rest, s =>
    ((core.view s).ram.cell p.load, (core.view s).ram.cell p.operand) ::
      reads rest (core.round combine p s)

theorem length_reads (places : List Place) (s : S) :
    (core.reads combine places s).length = places.length := by
  induction places generalizing s with
  | nil => rfl
  | cons p rest ih => rw [reads, List.length_cons, List.length_cons, ih]

end ByteCore

/-- The number with these bytes of decimal digits, least first. -/
def unpacked (bytes : List UInt8) : ℕ := Nat.ofDigits 100 (bytes.map fromBcd)

/-- A number in so many bytes. -/
def packed (n number : ℕ) : List UInt8 := (List.range n).map fun i => toBcd (number / 100 ^ i)

example : packed 2 1234 = [0x34, 0x12] ∧ unpacked [0x34, 0x12] = 1234 := by decide +kernel

def Ram.writeAll (ram : Ram) (writes : List (UInt16 × UInt8)) : Ram :=
  writes.foldl (fun ram w => ram.write w.1 w.2) ram

/-! ## What a chain should do -/

section Statements
variable {S : Type} (core : ByteCore S)

/-- A chain of ADC that starts with the carry clear stores the sum. -/
def AddsDecimal : Prop :=
  ∀ (places : List Place) (s : S), (core.view s).p.d = true → (core.view s).p.c = false →
    (∀ xy ∈ core.reads core.adc places s, IsBcd xy.1 ∧ IsBcd xy.2) →
    let n := places.length
    let x := unpacked ((core.reads core.adc places s).map Prod.fst)
    let y := unpacked ((core.reads core.adc places s).map Prod.snd)
    let t := core.view (core.chain core.adc places s)
    t.ram = (core.view s).ram.writeAll
        ((places.map Place.store).zip (packed n ((x + y) % 10 ^ (2 * n)))) ∧
      (t.p.c = true ↔ 10 ^ (2 * n) ≤ x + y)

/-- A chain of SBC that starts with the carry set stores the difference. -/
def SubtractsDecimal : Prop :=
  ∀ (places : List Place) (s : S), (core.view s).p.d = true → (core.view s).p.c = true →
    (∀ xy ∈ core.reads core.sbc places s, IsBcd xy.1 ∧ IsBcd xy.2) →
    let n := places.length
    let x := unpacked ((core.reads core.sbc places s).map Prod.fst)
    let y := unpacked ((core.reads core.sbc places s).map Prod.snd)
    let t := core.view (core.chain core.sbc places s)
    t.ram = (core.view s).ram.writeAll
        ((places.map Place.store).zip (packed n ((10 ^ (2 * n) + x - y) % 10 ^ (2 * n)))) ∧
      (t.p.c = false ↔ x < y)

end Statements

/-! ## One byte -/

/-- A round on the registers of the 65c02. -/
def Processor.round (f : UInt8 → Processor → Processor) (p : Place) (v : Processor) : Processor :=
  let t := f (v.ram.cell p.operand) (loadA (v.ram.cell p.load) v)
  storeCell t.a p.store t

theorem fromBcd_lt {v : UInt8} (h : IsBcd v) : fromBcd v < 100 := by
  obtain ⟨h1, h0⟩ := h
  rw [fromBcd]
  omega

theorem toBcd_mod (n : ℕ) : toBcd (n % 100) = toBcd n := by
  have htens : n % 100 / 10 % 10 = n / 10 % 10 := by omega
  have hunits : n % 100 % 10 = n % 10 := by omega
  rw [toBcd, htens, hunits, toBcd]

/-- What a round does with the digits: `g` is what it makes of the second operand. -/
def Combines (f : UInt8 → Processor → Processor) (g : ℕ → ℕ) : Prop :=
  ∀ (p : Place) (v : Processor), IsBcd (v.ram.cell p.load) → IsBcd (v.ram.cell p.operand) →
    let sum := fromBcd (v.ram.cell p.load) + g (fromBcd (v.ram.cell p.operand)) + v.p.c.toNat
    (v.round f p).ram = v.ram.write p.store (toBcd sum) ∧ (v.round f p).p.d = v.p.d ∧
      (v.round f p).p.c = decide (100 ≤ sum)

theorem combines_add : Combines addDecimal id := fun _ _ _ _ => ⟨rfl, rfl, rfl⟩

theorem combines_sub : Combines subDecimal (99 - ·) := by
  intro p v _ hoperand sum
  have hlt := fromBcd_lt hoperand
  have hsum : 100 + fromBcd (v.ram.cell p.load) + v.p.c.toNat -
      (fromBcd (v.ram.cell p.operand) + 1) = sum := by
    change _ = fromBcd (v.ram.cell p.load) + (99 - fromBcd (v.ram.cell p.operand)) + v.p.c.toNat
    omega
  rw [← hsum]
  exact ⟨rfl, rfl, rfl⟩

/-! ## All bytes -/

section Chain
variable {S : Type} {core : ByteCore S} {combine : UInt16 → S → S}
  {f : UInt8 → Processor → Processor} {g : ℕ → ℕ}

/-- The digits that meet in each round. -/
def digits (g : ℕ → ℕ) (reads : List (UInt8 × UInt8)) : List (ℕ × ℕ) :=
  reads.map fun xy => (fromBcd xy.1, g (fromBcd xy.2))

/-- **A chain** ripples the carry from byte to byte. -/
theorem chain_eq (hg : ∀ n, n < 100 → g n < 100) (hf : Combines f g)
    (hround : ∀ p s, (core.view s).p.d = true → IsBcd ((core.view s).ram.cell p.load) →
      IsBcd ((core.view s).ram.cell p.operand) →
      core.view (core.round combine p s) = (core.view s).round f p)
    (places : List Place) (s : S) (hd : (core.view s).p.d = true)
    (hbcd : ∀ xy ∈ core.reads combine places s, IsBcd xy.1 ∧ IsBcd xy.2) :
    let r := ripple 100 (digits g (core.reads combine places s)) (core.view s).p.c.toNat
    let t := core.view (core.chain combine places s)
    t.ram = (core.view s).ram.writeAll ((places.map Place.store).zip (r.1.map toBcd)) ∧
      t.p.c.toNat = r.2 := by
  induction places generalizing s with
  | nil => exact ⟨rfl, rfl⟩
  | cons p rest ih =>
    obtain ⟨hx, hy⟩ := hbcd _ List.mem_cons_self
    have hview := hround p s hd hx hy
    obtain ⟨hram, hd', hc⟩ := hf p (core.view s) hx hy
    have hxlt : fromBcd ((core.view s).ram.cell p.load) < 100 := fromBcd_lt hx
    have hylt : g (fromBcd ((core.view s).ram.cell p.operand)) < 100 := hg _ (fromBcd_lt hy)
    have hc1 := Bool.toNat_le (core.view s).p.c
    have hcarry : (core.view (core.round combine p s)).p.c.toNat =
        (fromBcd ((core.view s).ram.cell p.load) + g (fromBcd ((core.view s).ram.cell p.operand)) +
          (core.view s).p.c.toNat) / 100 := by
      rw [hview, hc]
      by_cases hfits : 100 ≤ fromBcd ((core.view s).ram.cell p.load) +
          g (fromBcd ((core.view s).ram.cell p.operand)) + (core.view s).p.c.toNat
      · rw [decide_eq_true hfits, Bool.toNat_true]
        omega
      · rw [decide_eq_false hfits, Bool.toNat_false]
        omega
    have hrest := ih (core.round combine p s) (by rw [hview, hd', hd])
      fun xy hxy => hbcd xy (List.mem_cons_of_mem _ hxy)
    rw [hcarry] at hrest
    have hstored : (core.view (core.round combine p s)).ram = (core.view s).ram.write p.store
        (toBcd ((fromBcd ((core.view s).ram.cell p.load) +
          g (fromBcd ((core.view s).ram.cell p.operand)) + (core.view s).p.c.toNat) % 100)) := by
      rw [hview, hram, toBcd_mod]
    rw [hstored] at hrest
    exact hrest

/-- The bytes of a rippled sum. -/
theorem ripple_packed (l : List (ℕ × ℕ)) (c : ℕ) : (ripple 100 l c).1.map toBcd =
    packed l.length (total 100 l c % 10 ^ (2 * l.length)) := by
  have hbase : (10 : ℕ) ^ (2 * l.length) = 100 ^ l.length := by rw [Nat.pow_mul]
  rw [ripple_digits (by omega), packed, List.map_map, hbase]
  refine List.map_congr_left fun i hi => ?_
  have hpow : (100 : ℕ) ^ l.length = 100 ^ i * 100 ^ (l.length - i) := by
    rw [← Nat.pow_add, Nat.add_sub_cancel' (List.mem_range.mp hi).le]
  have hdvd : 100 ∣ 100 ^ (l.length - i) :=
    dvd_pow_self 100 (by have := List.mem_range.mp hi; omega)
  change toBcd (total 100 l c / 100 ^ i % 100) = _
  rw [hpow, Nat.mod_mul_right_div_self, toBcd_mod, ← toBcd_mod (_ % _), Nat.mod_mod_of_dvd _ hdvd,
    toBcd_mod]

/-- A round of the core is one of the 65c02. -/
def RoundIs (core : ByteCore S) (combine : UInt16 → S → S) (f : UInt8 → Processor → Processor) :
    Prop :=
  ∀ p s, (core.view s).p.d = true → IsBcd ((core.view s).ram.cell p.load) →
    IsBcd ((core.view s).ram.cell p.operand) →
    core.view (core.round combine p s) = (core.view s).round f p

theorem addsDecimal (hround : RoundIs core core.adc addDecimal) : AddsDecimal core := by
  intro places s hd hc hbcd n x y t
  obtain ⟨hram, hcarry⟩ := chain_eq (g := id) (fun n h => h) combines_add hround places s hd hbcd
  have hlength : (digits id (core.reads core.adc places s)).length = n := by
    rw [digits, List.length_map, core.length_reads]
  have htotal : total 100 (digits id (core.reads core.adc places s)) 0 = x + y := by
    rw [total, digits, List.map_map, List.map_map]
    simp only [x, y, unpacked, List.map_map]
    rfl
  have hbase : (10 : ℕ) ^ (2 * n) = 100 ^ n := by rw [Nat.pow_mul]
  rw [hc, Bool.toNat_false, ripple_packed, hlength, htotal] at hram
  rw [hc, Bool.toNat_false, ripple_carry (by omega), hlength, htotal, ← hbase] at hcarry
  refine ⟨hram, ?_⟩
  have hpos : 0 < 10 ^ (2 * n) := by positivity
  rw [← Bool.toNat_eq_one]
  change (core.view (core.chain core.adc places s)).p.c.toNat = 1 ↔ _
  have hle := Bool.toNat_le (core.view (core.chain core.adc places s)).p.c
  rw [hcarry] at hle ⊢
  rw [← Nat.one_le_div_iff hpos]
  omega

theorem subtractsDecimal (hround : RoundIs core core.sbc subDecimal) : SubtractsDecimal core := by
  intro places s hd hc hbcd n x y t
  obtain ⟨hram, hcarry⟩ := chain_eq (g := (99 - ·)) (fun n h => by omega) combines_sub hround
    places s hd hbcd
  have hlength : (digits (99 - ·) (core.reads core.sbc places s)).length = n := by
    rw [digits, List.length_map, core.length_reads]
  have hbase : (10 : ℕ) ^ (2 * n) = 100 ^ n := by rw [Nat.pow_mul]
  have htotal : total 100 (digits (99 - ·) (core.reads core.sbc places s)) 1 + y =
      10 ^ (2 * n) + x := by
    have hcomplement := total_complement (b := 100) (by omega)
      (digits id (core.reads core.sbc places s)) fun xy hxy => by
        obtain ⟨bytes, hbytes, rfl⟩ := List.mem_map.mp hxy
        exact fromBcd_lt (hbcd bytes hbytes).2
    rw [digits, List.length_map, core.length_reads, ← hbase] at hcomplement
    simp only [List.map_map] at hcomplement
    simp only [digits, x, y, unpacked, List.map_map]
    exact hcomplement
  have hpos : 0 < 10 ^ (2 * n) := by positivity
  have hdiff : total 100 (digits (99 - ·) (core.reads core.sbc places s)) 1 =
      10 ^ (2 * n) + x - y := by omega
  rw [hc, Bool.toNat_true, ripple_packed, hlength, hdiff] at hram
  rw [hc, Bool.toNat_true, ripple_carry (by omega), hlength, ← hbase, hdiff] at hcarry
  refine ⟨hram, ?_⟩
  rw [← Bool.toNat_eq_zero]
  change (core.view (core.chain core.sbc places s)).p.c.toNat = 0 ↔ _
  rw [hcarry, Nat.div_eq_zero_iff]
  omega

end Chain

/-! ## Both cores -/

/-- The core that has loaded a byte, EffectiveAddr at the next. -/
def X86.loaded (p : Place) (s : X86.State Ram) : X86.State Ram :=
  { X86.doLda ramBus { s with ea := p.load } with ea := p.operand }

theorem X86.view_loaded (p : Place) (s : X86.State Ram) :
    (X86.loaded p s).view = loadA (s.mem.cell p.load) s.view :=
      X86.view_doLda { s with ea := p.load }

/-- A routine that is right on two bytes of decimal digits makes the rounds of a chain. -/
theorem X86.round_of {op routine : X86.State Ram → X86.State Ram}
    {result : UInt8 → Processor → Processor} (hop : ∀ s, s.has flagX86.d = true → op s = routine s)
    (hroutine : ∀ s, IsBcd s.a → IsBcd s.byte → (routine s).view = result s.byte s.view) :
    RoundIs X86.byteCore (fun ea s => op { s with ea := ea }) result := by
  intro p s hd hx hy
  have hdec := hroutine (X86.loaded p s) hx hy
  rw [X86.view_loaded] at hdec
  have hd' : (X86.loaded p s).has flagX86.d = true :=
    (congrArg (fun v : Processor => v.p.d) (X86.view_loaded p s)).trans hd
  rw [← hop _ hd'] at hdec
  exact congrArg (fun v : Processor => storeCell v.a p.store v) hdec

theorem X86.round_adc : RoundIs X86.byteCore X86.byteCore.adc addDecimal :=
  X86.round_of (fun _ hd => if_pos hd) fun s => X86.view_opAdcDec s

theorem X86.round_sbc : RoundIs X86.byteCore X86.byteCore.sbc subDecimal :=
  X86.round_of (fun _ hd => if_pos hd) fun s => X86.view_opSbcDec s

namespace Arm
variable (arch : Arch)

def loaded (p : Place) (s : State Ram) : State Ram :=
  { doLda ram { s with ea := p.load.toUInt32 } with ea := p.operand.toUInt32 }

theorem view_loaded (p : Place) (s : State Ram) :
    (loaded p s).view = loadA (s.mem.cell p.load) s.view := by
  have hload := view_doLda { s with ea := p.load.toUInt32 }
  rw [State.byte, wide_word] at hload
  exact hload

theorem byte_loaded (p : Place) (s : State Ram) : (loaded p s).byte = s.mem.cell p.operand := by
  rw [State.byte, loaded, wide_word]
  rfl

/-- A load leaves A_Reg in range. -/
theorem loaded_a (p : Place) (s : State Ram) : (loaded p s).a.toNat < 0x100 := UInt8.toNat_lt _

/-- The store takes the low byte of A_Reg. -/
theorem view_stored (p : Place) (t : State Ram) :
    (doStore ram t.a { t with ea := p.store.toUInt32 }).view =
      storeCell t.view.a p.store t.view := by
  rw [view_doStore, wide_word]
  rfl

theorem round_of {op routine : State Ram → State Ram} {result : UInt8 → Processor → Processor}
    (hop : ∀ s, s.has flagArm.d = true → op s = routine s)
    (hroutine : ∀ s, s.a.toNat < 0x100 → IsBcd s.view.a → IsBcd s.byte →
      (routine s).view = result s.byte s.view) :
    RoundIs (byteCore arch) (fun ea s => op { s with ea := ea.toUInt32 }) result := by
  intro p s hd hx hy
  have hbcd : IsBcd (loaded p s).view.a := by
    rw [view_loaded]
    exact hx
  have hdec := hroutine (loaded p s) (loaded_a p s) hbcd (by rw [byte_loaded]; exact hy)
  rw [view_loaded, byte_loaded] at hdec
  have hd' : (loaded p s).has flagArm.d = true := by
    rw [has_eq]
    exact (congrArg (fun v : Processor => v.p.d) (view_loaded p s)).trans hd
  rw [← hop _ hd'] at hdec
  have hround : (byteCore arch).view ((byteCore arch).round
      (fun ea s => op { s with ea := ea.toUInt32 }) p s) =
      storeCell (op (loaded p s)).view.a p.store (op (loaded p s)).view :=
    view_stored p (op (loaded p s))
  rw [hround, hdec]
  rfl

theorem round_adc : RoundIs (byteCore arch) (byteCore arch).adc addDecimal :=
  round_of arch (fun _ hd => if_pos hd) fun s => view_opAdcDec arch s

theorem round_sbc : RoundIs (byteCore arch) (byteCore arch).sbc subDecimal :=
  round_of arch (fun _ hd => if_pos hd) fun s => view_opSbcDec arch s

end Arm

/-- **Decimal arithmetic on several bytes**, on either core. -/
theorem decimal_chains :
    (AddsDecimal X86.byteCore ∧ SubtractsDecimal X86.byteCore) ∧
      ∀ arch, AddsDecimal (Arm.byteCore arch) ∧ SubtractsDecimal (Arm.byteCore arch) :=
  ⟨⟨addsDecimal X86.round_adc, subtractsDecimal X86.round_sbc⟩, fun arch =>
    ⟨addsDecimal (Arm.round_adc arch), subtractsDecimal (Arm.round_sbc arch)⟩⟩

/-- 9999 at 10 and 1 at 20, in decimal mode. -/
def Arm.allNines : Arm.State Ram where
  a := 0
  f := flagArm.d.toUInt32
  x := 0
  y := 0
  sp := 0xFF
  pc := 0x300
  ea := 0
  r0 := 0
  apsr := ⟨false, false, false, false⟩
  opcode := 0
  opcycles := 0
  rw := 0
  d := 0
  cycleCount := 0
  cyclesToExecute := 1
  signal := 0
  emulReinitialize := 0
  mem := ⟨fun ea => if ea = 0x10 ∨ ea = 0x11 then 0x99 else if ea = 0x20 then 0x01 else 0, []⟩

theorem Arm.allNines_reads : (Arm.byteCore .aarch64).reads (Arm.byteCore .aarch64).adc
    [⟨0x10, 0x20, 0x10⟩, ⟨0x11, 0x21, 0x11⟩] Arm.allNines = [(0x99, 0x01), (0x99, 0x00)] := by
  rfl

/-- Their sum, in the place of the first. -/
theorem decimal_chains_allNines :
    let places : List Place := [⟨0x10, 0x20, 0x10⟩, ⟨0x11, 0x21, 0x11⟩]
    let core := Arm.byteCore .aarch64
    let t := core.view (core.chain core.adc places Arm.allNines)
    t.ram.writes = [(0x10, 0x00), (0x11, 0x00)] ∧ t.p.c = true := by
  intro places core t
  have hreads : core.reads core.adc places Arm.allNines = [(0x99, 0x01), (0x99, 0x00)] :=
    Arm.allNines_reads
  have hbcd : ∀ xy ∈ core.reads core.adc places Arm.allNines, IsBcd xy.1 ∧ IsBcd xy.2 := by
    rw [hreads]
    exact List.forall_mem_cons.mpr ⟨by decide, List.forall_mem_singleton.mpr (by decide)⟩
  obtain ⟨hram, hcarry⟩ := (decimal_chains.2 .aarch64).1 places Arm.allNines rfl rfl hbcd
  rw [hreads] at hram hcarry
  refine ⟨?_, hcarry.mpr (by decide)⟩
  change (core.view (core.chain core.adc places Arm.allNines)).ram.writes = _
  rw [hram]
  decide +kernel

end Apple2ix.Cpu
