import Apple2ix.Foundations.Matching
import Apple2ix.Meta.Debugger

/-! `search_mem`: the `search` command of the debugger, one pass over the memory of a bank or of the
language card. -/
namespace Apple2ix.Meta
open Vm Loops Matching
set_option autoImplicit false

/-! ## Hex strings -/

def isxdigit (c : Char) : Bool :=
  (0x30 ≤ c.toNat && c.toNat ≤ 0x39) || (0x41 ≤ c.toNat && c.toNat ≤ 0x46) ||
    (0x61 ≤ c.toNat && c.toNat ≤ 0x66)

def isspace (c : Char) : Bool := c.toNat == 0x20 || (0x09 ≤ c.toNat && c.toNat ≤ 0x0D)

def hexDigit (c : Char) : ℕ :=
  if c.toNat ≤ 0x39 then c.toNat - 0x30
  else if c.toNat ≤ 0x46 then c.toNat - 0x37
  else c.toNat - 0x57

/-- `strtol(s, NULL, 16)`. -/
def strtol16 (s : List Char) : ℤ :=
  let s := s.dropWhile isspace
  let negative := s.head? = some '-'
  let s := if negative ∨ s.head? = some '+' then s.tail else s
  let s := match s with
    | '0' :: x :: digit :: rest =>
      if (x = 'x' ∨ x = 'X') ∧ isxdigit digit = true then digit :: rest else s
    | _ => s
  let value := (s.takeWhile isxdigit).foldl (fun value c => 16 * value + hexDigit c) 0
  if negative then -(value : ℤ) else value

/-- A conversion to `uint8_t`. -/
def toByte (value : ℤ) : UInt8 := UInt8.ofNat (value % 0x100).toNat

/-- `*(hexstr+j)`; a string ends in zero. -/
def charAt (hexstr : List Char) (j : ℕ) : Char := hexstr.getD j (Char.ofNat 0)

/-- `scratch`, after `strncpy(scratch, hexstr+j, 2)`. -/
def scratch (hexstr : List Char) (j : ℕ) : List Char := (hexstr.drop j).take 2

/-! ## The pass -/

/-- A line of `second_buf`, written as `%04X: %s`. -/
structure SearchLine where
  row : ℕ
  address : ℤ
  hexstr : List Char

structure SearchState where
  j : ℕ
  numBufferLines : ℕ
  lines : List SearchLine

/-- A match is found. -/
def SearchState.report (hexstr : List Char) (address : ℤ) (s : SearchState) : SearchState where
  j := 0
  numBufferLines := (s.numBufferLines + 1) % (bufY - 2).toNat
  lines := s.lines ++ [⟨s.numBufferLines, address, hexstr⟩]

/-- The loop body of `search_mem`; `op` is what memory holds. -/
def searchStep (op : ℕ → UInt8) (hexstr : List Char) (i : ℕ) (s : SearchState) : SearchState :=
  let byte := toByte (strtol16 (scratch hexstr s.j))
  if byte = op i then
    let j := s.j + 1
    -- end of bytes?
    if isxdigit (charAt hexstr j) = false then s.report hexstr (i - (j >>> 1 : ℕ))
    else
      let j := j + 1
      if isxdigit (charAt hexstr j) = false then s.report hexstr (i - (j >>> 1 : ℕ) + 1)
      else { s with j := j }
  else { s with j := 0 }

/-- The memory that is searched. -/
def searched (vm : Machine) (pc : UInt16) (lc rambank : ℤ) : Listing where
  rambank := if rambank = -1 then cGetCurrentRambank vm pc.toNat else rambank.toNat
  lc := lc
  addrs := 0
  origAddrs := 0

def searchMem (vm : Machine) (pc : UInt16) (hexstr : List Char) (lc rambank : ℤ)
    (numBufferLines : ℕ) : SearchState :=
  let l := searched vm pc lc rambank
  forUp l.stop.toNat (searchStep (fun i => l.op vm i) hexstr) ⟨0, numBufferLines, []⟩

/-! ## Whole bytes -/

/-- The bytes that are spelled. -/
def hexBytes : List Char → List UInt8
  | high :: low :: rest => UInt8.ofNat (16 * hexDigit high + hexDigit low) :: hexBytes rest
  | _ => []

/-- A string of whole hex bytes, and not the empty one. -/
structure WholeBytes (hexstr : List Char) : Prop where
  nonempty : hexstr ≠ []
  even : hexstr.length % 2 = 0
  digits : ∀ c ∈ hexstr, isxdigit c = true

section Spelling
variable {hexstr : List Char}

theorem hexBytes_length : ∀ hexstr : List Char, (hexBytes hexstr).length = hexstr.length / 2
  | [] => rfl
  | [_] => by simp [hexBytes]
  | _ :: _ :: rest => by
    have ih := hexBytes_length rest
    simp only [hexBytes, List.length_cons, ih]
    omega

theorem isspace_digit {c : Char} (h : isxdigit c = true) : isspace c = false := by
  simp only [isxdigit, Bool.or_eq_true, Bool.and_eq_true, decide_eq_true_eq] at h
  simp only [isspace, Bool.or_eq_false_iff, beq_eq_false_iff_ne, Bool.and_eq_false_iff,
    decide_eq_false_iff_not]
  omega

theorem sign_digit {c : Char} (h : isxdigit c = true) : c ≠ '-' ∧ c ≠ '+' := by
  constructor
  · rintro rfl
    revert h
    decide
  · rintro rfl
    revert h
    decide

theorem strtol16_pair {high low : Char} (hhigh : isxdigit high = true)
    (hlow : isxdigit low = true) :
    strtol16 [high, low] = 16 * hexDigit high + hexDigit low := by
  have hspace : List.dropWhile isspace [high, low] = [high, low] := by
    rw [List.dropWhile_cons, isspace_digit hhigh, if_neg Bool.false_ne_true]
  have hminus : ¬ ([high, low].head? = some '-') := fun h =>
    (sign_digit hhigh).1 (Option.some.inj h)
  have hplus : ¬ ([high, low].head? = some '+') := fun h =>
    (sign_digit hhigh).2 (Option.some.inj h)
  have hall : List.takeWhile isxdigit [high, low] = [high, low] := by
    rw [List.takeWhile_cons, hhigh, if_pos rfl, List.takeWhile_cons, hlow, if_pos rfl,
      List.takeWhile_nil]
  unfold strtol16
  rw [hspace]
  simp only [hminus, hplus, or_self, if_false]
  rw [hall, List.foldl_cons, List.foldl_cons, List.foldl_nil, mul_zero, zero_add]

theorem hexDigit_lt {c : Char} (h : isxdigit c = true) : hexDigit c < 0x10 := by
  simp only [isxdigit, Bool.or_eq_true, Bool.and_eq_true, decide_eq_true_eq] at h
  unfold hexDigit
  split_ifs <;> omega

/-- The byte that is compared at `k`. -/
theorem scratch_byte (heven : hexstr.length % 2 = 0) (hdigits : ∀ c ∈ hexstr, isxdigit c = true)
    {k : ℕ} (hk : k < hexstr.length / 2) :
    toByte (strtol16 (scratch hexstr (2 * k))) = (hexBytes hexstr).getD k 0 := by
  induction hexstr using hexBytes.induct generalizing k with
  | case1 high low rest ih =>
    have hlength :
        rest.length % 2 = 0 ∧ (high :: low :: rest).length / 2 = rest.length / 2 + 1 := by
      simp only [List.length_cons] at heven ⊢
      omega
    cases k with
    | zero =>
      have hhigh := hdigits high (by simp)
      have hlow := hdigits low (by simp)
      have hbound : 16 * hexDigit high + hexDigit low < 0x100 := by
        have := hexDigit_lt hhigh
        have := hexDigit_lt hlow
        omega
      have hpair : scratch (high :: low :: rest) (2 * 0) = [high, low] := by simp [scratch]
      rw [hpair, strtol16_pair hhigh hlow, hexBytes, List.getD_cons_zero, toByte]
      congr 1
      omega
    | succ k =>
      have hpair : scratch (high :: low :: rest) (2 * (k + 1)) = scratch rest (2 * k) := by
        rw [scratch, Nat.mul_succ, List.drop_succ_cons, List.drop_succ_cons, scratch]
      rw [hpair, hexBytes, List.getD_cons_succ]
      exact ih hlength.1 (fun c hc => hdigits c (by simp [hc])) (by omega)
  | case2 hexstr hshort =>
    match hexstr, hshort with
    | [], _ => simp at hk
    | [_], _ => simp at hk
    | high :: low :: rest, hshort => exact absurd rfl (hshort high low rest)

theorem charAt_inside (hdigits : ∀ c ∈ hexstr, isxdigit c = true) {j : ℕ} (hj : j < hexstr.length) :
    isxdigit (charAt hexstr j) = true := by
  rw [charAt, List.getD_eq_getElem _ _ hj]
  exact hdigits _ (List.getElem_mem hj)

theorem charAt_end : isxdigit (charAt hexstr hexstr.length) = false := by
  rw [charAt, List.getD_eq_default _ _ (le_refl _)]
  decide

end Spelling

/-! ## The pass against the scan -/

section Pass
variable (op : ℕ → UInt8) (hexstr : List Char)

/-- The pass before it reads `i`, and the scan for the bytes. -/
structure Follows (i : ℕ) (s : SearchState) (t : Matching.State) : Prop where
  j : s.j = 2 * t.matched
  short : t.matched < hexstr.length / 2
  begun : t.matched ≤ i
  lines : s.lines.map SearchLine.address = t.found.map Nat.cast

variable {op hexstr}

theorem Follows.step (h : WholeBytes hexstr) {i : ℕ} {s : SearchState} {t : Matching.State}
    (hs : Follows hexstr i s t) : Follows hexstr (i + 1) (searchStep op hexstr i s)
      (Matching.step op (fun k => (hexBytes hexstr).getD k 0) (hexstr.length / 2) i t) := by
  obtain ⟨hj, hshort, hbegun, hlines⟩ := hs
  have heven := h.even
  have hbyte := scratch_byte h.even h.digits hshort
  have hfirst : isxdigit (charAt hexstr (2 * t.matched + 1)) = true :=
    charAt_inside h.digits (by omega)
  have hhalf : (2 * t.matched + 1 + 1) >>> 1 = t.matched + 1 := by
    rw [Nat.shiftRight_eq_div_pow]
    omega
  have hdigit : ¬ (true = false) := Bool.noConfusion
  unfold searchStep Matching.step
  dsimp only
  rw [hj, hbyte, hhalf, hfirst, if_neg hdigit]
  by_cases hletter : op i = (hexBytes hexstr).getD t.matched 0
  · rw [if_pos hletter, if_pos hletter.symm]
    by_cases hlast : t.matched + 1 = hexstr.length / 2
    · have hend : 2 * t.matched + 1 + 1 = hexstr.length := by omega
      rw [if_pos hlast, hend, charAt_end, if_pos rfl]
      refine ⟨rfl, by change 0 < _; omega, Nat.zero_le _, ?_⟩
      have hplace : (i : ℤ) - (t.matched + 1 : ℕ) + 1 = ((i + 1 - hexstr.length / 2 : ℕ) : ℤ) := by
        omega
      rw [SearchState.report, List.map_append, List.map_append, hlines, hplace]
      rfl
    · have hmore : isxdigit (charAt hexstr (2 * t.matched + 1 + 1)) = true :=
        charAt_inside h.digits (by omega)
      rw [if_neg hlast, hmore, if_neg hdigit]
      exact ⟨rfl, by change t.matched + 1 < _; omega, Nat.succ_le_succ hbegun, hlines⟩
  · rw [if_neg hletter, if_neg (Ne.symm hletter)]
    exact ⟨rfl, by change 0 < _; omega, Nat.zero_le _, hlines⟩

theorem follows (op : ℕ → UInt8) (h : WholeBytes hexstr) (numBufferLines stop : ℕ) :
    Follows hexstr stop (forUp stop (searchStep op hexstr) ⟨0, numBufferLines, []⟩)
      (scan op (fun k => (hexBytes hexstr).getD k 0) (hexstr.length / 2) stop) := by
  have hlength : 0 < hexstr.length / 2 := by
    have hpos := List.length_pos_iff.mpr h.nonempty
    have heven := h.even
    omega
  unfold scan
  induction stop with
  | zero => exact ⟨rfl, hlength, le_refl _, rfl⟩
  | succ stop ih =>
    rw [forUp_succ, forUp_succ]
    exact ih.step h

end Pass

/-! ## Memory search -/

/-- The lines are the occurrences of the bytes: in ascending order, no other address, and each one
that does not overlap an earlier one that is reported. -/
def ReportsExactly (memory : ℕ → UInt8) (stop : ℕ) (bytes : List UInt8) (lines : List SearchLine) :
    Prop :=
  ∃ found : List ℕ, lines.map SearchLine.address = found.map Nat.cast ∧
    Exact memory (fun k => bytes.getD k 0) bytes.length stop found

theorem reportsExactly_iff (op : ℕ → UInt8) {hexstr : List Char} (h : WholeBytes hexstr)
    (numBufferLines stop : ℕ) :
    ReportsExactly op stop (hexBytes hexstr)
        (forUp stop (searchStep op hexstr) ⟨0, numBufferLines, []⟩).lines ↔
      NoneHidden op (fun k => (hexBytes hexstr).getD k 0) (hexBytes hexstr).length stop := by
  have hfollows := follows op h numBufferLines stop
  have hpos : 0 < hexstr.length / 2 := Nat.zero_lt_of_lt hfollows.short
  rw [← hexBytes_length] at hfollows hpos
  rw [← exact_iff hpos]
  constructor
  · rintro ⟨found, hfound, hexact⟩
    rw [hfollows.lines] at hfound
    rwa [List.map_injective_iff.mpr Nat.cast_injective hfound]
  · intro hexact
    exact ⟨_, hfollows.lines, hexact⟩

/-- **Memory search** finds what it should in the memory, and for the bytes, of which none stands
hidden in a comparison that fails. -/
theorem searchMem_exact (vm : Machine) (pc : UInt16) {hexstr : List Char} (h : WholeBytes hexstr)
    (lc rambank : ℤ) (numBufferLines : ℕ) :
    let l := searched vm pc lc rambank
    ReportsExactly (fun i => l.op vm i) l.stop.toNat (hexBytes hexstr)
        (searchMem vm pc hexstr lc rambank numBufferLines).lines ↔
      NoneHidden (fun i => l.op vm i) (fun k => (hexBytes hexstr).getD k 0) (hexBytes hexstr).length
        l.stop.toNat :=
  reportsExactly_iff _ h numBufferLines _

/-- AA AA BB, at the beginning of memory. -/
def repeated : Machine :=
  withMemory Machine.blank (fun i => if i.val < 2 then 0xAA else if i.val = 2 then 0xBB else 0)
    (fun _ => 0) fun _ => 0

theorem repeated_zero {a : ℕ} (h : 3 ≤ a) : (searched repeated 0 0 0).op repeated a = 0 := by
  rw [Listing.op, if_neg (by decide), appleIi64k, loadCell]
  have hbank : (searched repeated 0 0 0).rambank = 0 := rfl
  rw [hbank, cell]
  split_ifs with hin
  · have hi : (0x10000 * ((0 : ℕ) : ℤ) + a).toNat = a := by omega
    simp only [repeated, withMemory, hi]
    rw [if_neg (by omega), if_neg (by omega)]
  · rfl

theorem wholeBytes_AABB : WholeBytes ['A', 'A', 'B', 'B'] :=
  ⟨List.cons_ne_nil _ _, rfl, List.forall_mem_cons.mpr ⟨rfl, List.forall_mem_cons.mpr ⟨rfl,
    List.forall_mem_cons.mpr ⟨rfl, List.forall_mem_cons.mpr ⟨rfl, List.forall_mem_nil _⟩⟩⟩⟩⟩

theorem wholeBytes_AAAABB : WholeBytes ['A', 'A', 'A', 'A', 'B', 'B'] :=
  ⟨List.cons_ne_nil _ _, rfl, List.forall_mem_cons.mpr ⟨rfl, List.forall_mem_cons.mpr ⟨rfl,
    wholeBytes_AABB.digits⟩⟩⟩

/-- All three bytes, which the search finds. -/
theorem searchMem_exact_repeated :
    let l := searched repeated 0 0 0
    ReportsExactly (fun i => l.op repeated i) l.stop.toNat (hexBytes ['A', 'A', 'A', 'A', 'B', 'B'])
        (searchMem repeated 0 ['A', 'A', 'A', 'A', 'B', 'B'] 0 0 0).lines ∧
      Occurs (fun i => l.op repeated i)
        (fun k => (hexBytes ['A', 'A', 'A', 'A', 'B', 'B']).getD k 0)
        (hexBytes ['A', 'A', 'A', 'A', 'B', 'B']).length l.stop.toNat 0 := by
  have hoccurs : Occurs (fun i => (searched repeated 0 0 0).op repeated i)
      (fun k => (hexBytes ['A', 'A', 'A', 'A', 'B', 'B']).getD k 0)
      (hexBytes ['A', 'A', 'A', 'A', 'B', 'B']).length (searched repeated 0 0 0).stop.toNat 0 :=
    ⟨by decide, by decide +kernel⟩
  refine ⟨(searchMem_exact repeated 0 wholeBytes_AAAABB 0 0 0).mpr ?_, hoccurs⟩
  apply noneHidden_of_head
  · decide
  · decide +kernel
  · intro a ha hbyte
    exact absurd ((repeated_zero ha).symm.trans hbyte) (by decide)

/-- The second AA is taken for a wrong BB, and never compared with the first byte again. -/
theorem searchMem_misses :
    ¬ ∀ (vm : Machine) (pc : UInt16) (hexstr : List Char), WholeBytes hexstr →
      ∀ (lc rambank : ℤ) (numBufferLines : ℕ),
        let l := searched vm pc lc rambank
        ReportsExactly (fun i => l.op vm i) l.stop.toNat (hexBytes hexstr)
          (searchMem vm pc hexstr lc rambank numBufferLines).lines := by
  intro hall
  have hnone := (reportsExactly_iff _ wholeBytes_AABB 0 _).mp
    (hall repeated 0 ['A', 'A', 'B', 'B'] wholeBytes_AABB 0 0 0)
  have hstops : agree (fun i => (searched repeated 0 0 0).op repeated i)
      (fun k => (hexBytes ['A', 'A', 'B', 'B']).getD k 0) 2 0 = 1 :=
    agree_eq (by decide) (by decide +kernel) (by decide +kernel)
  refine hnone 0 (hstops.trans_lt (by decide)) 1 Nat.zero_lt_one (by rw [start]; exact hstops.ge) ?_
  exact ⟨by decide, by decide +kernel⟩

end Apple2ix.Meta
