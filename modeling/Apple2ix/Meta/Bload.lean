import Mathlib.Data.List.Basic
import Mathlib.Tactic.Ring
import Apple2ix.Foundations.Results

/-! `bload`: the command that loads a file into memory, in blocks of one kilobyte. -/
namespace Apple2ix.Meta
set_option autoImplicit false

universe u
variable {σ : Type u} (write : σ → ℤ → UInt8 → σ)

/-! ## The command -/

def tempsize : ℕ := 1024

/-- What `cpu65_direct_write`, which is `write`, made of memory, and the line in `second_buf`. -/
structure Bload (σ : Type u) where
  memory : σ
  line : Option String

/-- The loop over a block: what it returns with, or where it goes on. -/
def bloadBlock (memory : σ) (addrs : ℤ) : List UInt8 → Except (Bload σ) (σ × ℤ)
  | [] => .ok (memory, addrs)
  | data :: hexstr =>
    let len := hexstr.length + 1
    if addrs + len ≥ 0x10000 then .error ⟨memory, some "problem: bload will overflow"⟩
    else
      let memory := write memory addrs data
      let addrs := addrs + 1
      if addrs > 0xFFFF then .error ⟨memory, none⟩ else bloadBlock memory addrs hexstr

/-- The loop over the blocks that `fread` gives; `f` is what is left of the file. -/
def bloadBlocks (name : String) (memory : σ) (addrs : ℤ) (f : List UInt8) : Bload σ :=
  if f = [] then ⟨memory, some ("bloaded: " ++ name)⟩
  else
    match bloadBlock write memory addrs (f.take tempsize) with
    | .error returned => returned
    | .ok (memory, addrs) => bloadBlocks name memory addrs (f.drop tempsize)
termination_by f.length
decreasing_by
  rename_i hf
  rw [List.length_drop, tempsize]
  have := List.length_pos_iff.mpr hf
  omega

def bload (memory : σ) (f : List UInt8) (name : String) (_bank addrs : ℤ) : Bload σ :=
  if addrs < 0 ∨ addrs > 0xFFFF then ⟨memory, some "problem: invalid address"⟩
  else bloadBlocks write name memory addrs f

/-! ## What it does -/

/-- The bytes one after the other, from `addrs` on. -/
def storeFrom (memory : σ) (addrs : ℤ) : List UInt8 → σ
  | [] => memory
  | data :: rest => storeFrom (write memory addrs data) (addrs + 1) rest

theorem storeFrom_append (memory : σ) (addrs : ℤ) (bytes rest : List UInt8) :
    storeFrom write memory addrs (bytes ++ rest) =
      storeFrom write (storeFrom write memory addrs bytes) (addrs + bytes.length) rest := by
  induction bytes generalizing memory addrs with
  | nil => simp [storeFrom]
  | cons data bytes ih =>
    rw [List.cons_append, storeFrom, ih, storeFrom, List.length_cons, Nat.cast_succ]
    congr 1
    omega

theorem bloadBlock_fits (memory : σ) {addrs : ℤ} {block : List UInt8}
    (h : addrs + block.length < 0x10000) :
    bloadBlock write memory addrs block =
      .ok (storeFrom write memory addrs block, addrs + block.length) := by
  induction block generalizing memory addrs with
  | nil => simp [bloadBlock, storeFrom]
  | cons data block ih =>
    rw [List.length_cons, Nat.cast_succ] at h ⊢
    have hfits : ¬ addrs + ((block.length + 1 : ℕ) : ℤ) ≥ 0x10000 := by omega
    have hinside : ¬ addrs + 1 > 0xFFFF := by omega
    rw [bloadBlock]
    dsimp only
    rw [if_neg hfits, if_neg hinside, ih _ (by omega), storeFrom]
    congr 2
    omega

theorem bloadBlock_over (memory : σ) {addrs : ℤ} {block : List UInt8} (hne : block ≠ [])
    (h : 0x10000 ≤ addrs + block.length) :
    bloadBlock write memory addrs block = .error ⟨memory, some "problem: bload will overflow"⟩ := by
  cases block with
  | nil => exact absurd rfl hne
  | cons data block =>
    rw [bloadBlock]
    dsimp only
    rw [if_pos (by rwa [List.length_cons] at h)]

/-- What is stored of a file that is too long: the blocks that end below FFFF. -/
def stored (addrs : ℕ) : ℕ := tempsize * ((0xFFFF - addrs) / tempsize)

theorem stored_next (addrs : ℕ) (h : addrs + tempsize ≤ 0xFFFF) :
    stored addrs = tempsize + stored (addrs + tempsize) := by
  have hrest : 0xFFFF - addrs = (0xFFFF - (addrs + tempsize)) + tempsize := by omega
  rw [stored, stored, hrest, Nat.add_div_right _ (by decide), Nat.mul_succ, Nat.add_comm]

theorem stored_none (addrs : ℕ) (h : 0xFFFF < addrs + tempsize) : stored addrs = 0 := by
  have hsize : 0xFFFF - addrs < tempsize := by rw [tempsize] at h ⊢; omega
  rw [stored, Nat.div_eq_of_lt hsize, Nat.mul_zero]

/-- The whole loop: a file that ends below FFFF is stored, of any other one the blocks that do. -/
theorem bloadBlocks_eq (name : String) (memory : σ) (addrs : ℕ) (haddrs : addrs ≤ 0xFFFF)
    (f : List UInt8) : bloadBlocks write name memory addrs f =
      if addrs + f.length < 0x10000 then
        ⟨storeFrom write memory addrs f, some ("bloaded: " ++ name)⟩
      else ⟨storeFrom write memory addrs (f.take (stored addrs)),
        some "problem: bload will overflow"⟩ := by
  induction hlen : f.length using Nat.strongRecOn generalizing memory addrs f with
  | ind len ih =>
    have hsize : tempsize = 1024 := rfl
    rw [bloadBlocks]
    by_cases hf : f = []
    · rw [if_pos hf, if_pos (by rw [← hlen, hf]; exact Nat.lt_succ_of_le haddrs), hf, storeFrom]
    have hpos := List.length_pos_iff.mpr hf
    have hblock : (f.take tempsize).length = min tempsize f.length := List.length_take
    rw [if_neg hf]
    by_cases hfits : addrs + (f.take tempsize).length < 0x10000
    · -- the block is stored, and the rest of the file begins behind it
      have hnext : (addrs : ℤ) + ((f.take tempsize).length : ℕ) =
        ((addrs + (f.take tempsize).length : ℕ) : ℤ) := by omega
      have hdrop : (f.drop tempsize).length = f.length - tempsize := List.length_drop
      rw [bloadBlock_fits write memory (by omega), hnext]
      dsimp only
      rw [ih (f.drop tempsize).length (by omega) _ _ (by omega) _ rfl, ← hnext]
      by_cases hall : addrs + len < 0x10000
      · rw [if_pos (by omega), if_pos hall, ← storeFrom_append, List.take_append_drop]
      · have hlong : (f.take tempsize).length = tempsize := by omega
        rw [if_neg (by omega), if_neg hall, ← storeFrom_append, hlong, stored_next addrs (by omega),
          List.take_add]
    · -- the first byte of the block meets the overflow
      have hne : f.take tempsize ≠ [] := List.length_pos_iff.mp (by omega)
      rw [bloadBlock_over write memory hne (by omega), if_neg (by omega),
        stored_none addrs (by omega), List.take_zero, storeFrom]

/-! ## The calls of `cpu65_direct_write` -/

/-- A call, as address and data, put behind the ones before it. -/
def record (calls : List (ℤ × UInt8)) (addrs : ℤ) (data : UInt8) : List (ℤ × UInt8) :=
  calls ++ [(addrs, data)]

/-- Byte i of the file to `addrs + i`. -/
def fileCalls (addrs : ℤ) (file : List UInt8) : List (ℤ × UInt8) :=
  file.zipIdx.map fun byte => (addrs + byte.2, byte.1)

theorem fileCalls_cons (addrs : ℤ) (data : UInt8) (file : List UInt8) :
    fileCalls addrs (data :: file) = (addrs, data) :: fileCalls (addrs + 1) file := by
  have hshift : ∀ byte : UInt8 × ℕ, addrs + ((byte.2 + 1 : ℕ) : ℤ) = addrs + 1 + byte.2 := by
    intro byte
    push_cast
    ring
  rw [fileCalls, fileCalls, List.zipIdx_cons', List.map_cons, List.map_map]
  simp only [Nat.cast_zero, add_zero, List.cons.injEq, true_and]
  exact List.map_congr_left fun byte _ => Prod.ext (hshift byte) rfl

/-- Whatever a call does, the bytes are stored by the calls for them, in this order. -/
theorem storeFrom_calls (memory : σ) (addrs : ℤ) (file : List UInt8) :
    storeFrom write memory addrs file =
      (fileCalls addrs file).foldl (fun memory call => write memory call.1 call.2) memory := by
  induction file generalizing memory addrs with
  | nil => rfl
  | cons data file ih => rw [storeFrom, ih, fileCalls_cons, List.foldl_cons]

theorem storeFrom_record (calls : List (ℤ × UInt8)) (addrs : ℤ) (file : List UInt8) :
    storeFrom record calls addrs file = calls ++ fileCalls addrs file := by
  induction file generalizing calls addrs with
  | nil => exact (List.append_nil calls).symm
  | cons data file ih => rw [storeFrom, ih, fileCalls_cons, record, List.append_assoc]; rfl

theorem fileCalls_length (addrs : ℤ) (file : List UInt8) :
    (fileCalls addrs file).length = file.length := by
  rw [fileCalls, List.length_map, List.length_zipIdx]

/-! ## All or nothing -/

/-- What one wants of `bload`: a file with room for it is stored and the report says so, of any
other one nothing is stored and the report says that it overflows. -/
def AllOrNothing (name : String) (bank addrs : ℤ) (file : List UInt8) : Prop :=
  bload record [] file name bank addrs =
    if addrs + file.length ≤ 0x10000 then ⟨fileCalls addrs file, some ("bloaded: " ++ name)⟩
    else ⟨[], some "problem: bload will overflow"⟩

theorem bloaded_ne_problem (name : String) :
    "bloaded: " ++ name ≠ "problem: bload will overflow" := by
  intro h
  have hfirst := congrArg (fun line => line.toList.head?) h
  simp at hfirst

theorem bload_eq (memory : σ) (name : String) (bank : ℤ) {addrs : ℤ}
    (haddrs : 0 ≤ addrs ∧ addrs ≤ 0xFFFF) (file : List UInt8) :
    bload write memory file name bank addrs =
      if addrs + file.length < 0x10000 then
        ⟨storeFrom write memory addrs file, some ("bloaded: " ++ name)⟩
      else ⟨storeFrom write memory addrs (file.take (stored addrs.toNat)),
        some "problem: bload will overflow"⟩ := by
  obtain ⟨start, rfl⟩ := Int.eq_ofNat_of_zero_le haddrs.1
  rw [bload, if_neg (by omega), bloadBlocks_eq _ _ _ _ (by omega), Int.toNat_natCast]
  by_cases hfits : start + file.length < 0x10000
  · rw [if_pos hfits, if_pos (by omega)]
  · rw [if_neg hfits, if_neg (by omega)]

theorem stored_eq_zero (addrs : ℕ) : stored addrs = 0 ↔ 0xFC00 ≤ addrs := by
  rw [stored, tempsize]
  omega

/-- **Main.** All or nothing is what happens when the file ends below FFFF, and when it goes beyond
FFFF and begins in the last kilobyte. A file that ends at FFFF has room and is refused; of one that
begins lower and has no room, the blocks with room are stored. -/
theorem bload_all_or_nothing (name : String) (bank addrs : ℤ) (haddrs : 0 ≤ addrs ∧ addrs ≤ 0xFFFF)
    (file : List UInt8) :
    AllOrNothing name bank addrs file ↔
      addrs + file.length < 0x10000 ∨ (0x10000 < addrs + file.length ∧ 0xFC00 ≤ addrs) := by
  rw [AllOrNothing, bload_eq record [] name bank haddrs file]
  by_cases hfits : addrs + file.length < 0x10000
  · rw [if_pos hfits, if_pos (by omega), storeFrom_record, List.nil_append]
    exact iff_of_true rfl (.inl hfits)
  rw [if_neg hfits, storeFrom_record, List.nil_append]
  by_cases hexact : addrs + file.length ≤ 0x10000
  · rw [if_pos hexact]
    refine iff_of_false (fun h => ?_) (by omega)
    have hline := Option.some.inj (congrArg Bload.line h)
    exact bloaded_ne_problem name hline.symm
  · rw [if_neg hexact]
    have hnone : fileCalls addrs (file.take (stored addrs.toNat)) = [] ↔ 0xFC00 ≤ addrs := by
      rw [← List.length_eq_zero_iff, fileCalls_length, List.length_take]
      have := stored_eq_zero addrs.toNat
      omega
    constructor
    · intro h
      exact .inr ⟨by omega, hnone.mp (congrArg Bload.memory h)⟩
    · intro h
      rw [hnone.mpr (by omega)]

theorem bload_all_or_nothing_page :
    AllOrNothing "page" 0 0x2000 (List.replicate 0x100 0xEA) ↔
      (0x2000 : ℤ) + 0x100 < 0x10000 ∨
        ((0x10000 : ℤ) < 0x2000 + 0x100 ∧ (0xFC00 : ℤ) ≤ 0x2000) := by
  have h := bload_all_or_nothing "page" 0 0x2000 (by decide) (List.replicate 0x100 0xEA)
  rwa [List.length_replicate] at h

/-- The byte for FFFF is refused. -/
theorem bload_last_byte : ¬ ∀ (name : String) (bank addrs : ℤ), 0 ≤ addrs ∧ addrs ≤ 0xFFFF →
    ∀ file, AllOrNothing name bank addrs file := by
  intro h
  have hlast := h "byte" 0 0xFFFF (by decide) [0xEA]
  rw [AllOrNothing, bload_eq record [] "byte" 0 (by decide), if_neg (by decide),
    if_pos (by decide)] at hlast
  exact bloaded_ne_problem "byte" (Option.some.inj (congrArg Bload.line hlast)).symm

end Apple2ix.Meta
