import Mathlib.Tactic.NormNum
import Apple2ix.Misc.ZlibHelpers

/-! What the reading and writing loops of zlib-helpers.c leave in the buffer and in the file,
whatever the sizes of the pieces they are answered with. -/
namespace Apple2ix.Zlib
open Transfers
set_option autoImplicit false

/-- No call fails: every answer is at most short. -/
def Calls.OnlyShort (calls : Calls) : Prop := ∀ k, calls k ≠ none

theorem toInt32_small {n : ℕ} (h : n < 2 ^ 31) : toInt32 n = n := by
  have hlt : n < 2147483648 := h
  apply toInt32_eq
  exact ⟨by omega, by omega⟩

theorem toInt32_large {n : ℕ} (h : 2 ^ 31 ≤ n) (hn : n ≤ uintMax) : toInt32 n < 0 := by
  have hge : 2147483648 ≤ n := h
  have hle : n ≤ 4294967295 := hn
  exact toInt32_neg (by omega) (by omega)

theorem take_length_take (l : List UInt8) (m : ℕ) : l.take (l.take m).length = l.take m := by
  rw [List.length_take, ← List.take_eq_take_min]

theorem zlibError_eq_none (gzerr : Option String) (bytescount : ℤ) (stream : Bool)
    (expected : ℕ) : zlibError gzerr bytescount stream expected = none ↔ bytescount = expected := by
  unfold zlibError
  by_cases h : bytescount = expected
  · simp [h]
  · rw [if_pos h]
    cases stream <;> simp [h]

/-! ## Single calls -/

theorem read_eq_take (calls : Calls) (k len : ℕ) (rest : List UInt8) :
    ∃ m, m ≤ len ∧ read calls k len rest = rest.take m ∧ (calls.OnlyShort → 0 < len → 0 < m) := by
  unfold read
  cases hk : calls k with
  | none => exact ⟨0, Nat.zero_le _, rfl, fun h => absurd hk (h k)⟩
  | some most => exact ⟨min len (most + 1), by omega, rfl, fun _ _ => by omega⟩

theorem gzread_eq_take (calls : Calls) (k : ℕ) {len : ℕ} (rest : List UInt8) (h : len < 2 ^ 31) :
    ∃ m, m ≤ len ∧ gzread calls k len rest = rest.take m ∧
      (calls.OnlyShort → 0 < len → 0 < m) := by
  rw [gzread, if_pos h]
  exact read_eq_take calls k len rest

theorem write_eq_take (calls : Calls) (k : ℕ) (data : List UInt8) (file : OpenFile) :
    ∃ m, write calls k data file =
        ({ bytes := file.bytes.take file.offset ++ data.take m ++
             file.bytes.drop (file.offset + (data.take m).length)
           offset := file.offset + (data.take m).length }, (data.take m).length) ∧
      (calls.OnlyShort → 0 < m) := by
  unfold write
  cases hk : calls k with
  | none =>
    refine ⟨0, ?_, fun h => absurd hk (h k)⟩
    rw [List.take_zero, List.append_nil, List.length_nil, Nat.add_zero, List.take_append_drop]
  | some most => exact ⟨most + 1, rfl, fun _ => Nat.succ_pos most⟩

/-! ## The loop that fills a buffer -/

/-- What holds after `count` bytes of `src` went to the buffer `buf`. -/
structure Filled (src : List UInt8) (buf : Buf) (count : ℕ) (s : Reading) : Prop where
  rest : s.rest = src.drop count
  count_le : count ≤ src.length
  filled : window s.buf 0 count = src.take count
  outside : ∀ i, count ≤ i → s.buf i = buf i

theorem Filled.store {src : List UInt8} {buf : Buf} {count m : ℕ} {s : Reading}
    (h : Filled src buf count s) :
    Filled src buf (count + (s.rest.take m).length) (s.store count (s.rest.take m)).1 := by
  have hlen : count + (s.rest.take m).length ≤ src.length := by
    have hle := List.length_take_le m s.rest
    have hle' := List.length_take_le' m s.rest
    rw [h.rest, List.length_drop] at hle'
    have := h.count_le
    rw [h.rest] at hle ⊢
    omega
  refine ⟨?_, hlen, ?_, fun i hi => ?_⟩
  · have hrest : (s.store count (s.rest.take m)).1.rest = s.rest.drop (s.rest.take m).length := rfl
    rw [hrest, h.rest, List.drop_drop]
  · have hpiece : (src.drop count).take (s.rest.take m).length = s.rest.take m := by
      rw [← h.rest, take_length_take]
    have hout : (s.store count (s.rest.take m)).1.buf =
        s.buf.copy count ((s.rest.take m).getD · 0) (s.rest.take m).length := rfl
    rw [← window_append, List.take_add, hpiece, Nat.zero_add, hout]
    congr 1
    · rw [← h.filled]
      refine window_congr fun i hi => ?_
      exact Buf.copy_outside _ _ _ _ _ (Or.inl (by omega))
    · have hcopy :=
        window_copy s.buf count (n := (s.rest.take m).length) (s.rest.take m) (le_refl _)
      rw [List.drop_eq_nil_of_le (by rw [window_length]), List.append_nil] at hcopy
      exact hcopy
  · have hcopy := Buf.copy_outside s.buf ((s.rest.take m).getD · 0) count (s.rest.take m).length i
      (Or.inr hi)
    exact hcopy.trans (h.outside i (by omega))

/-- **The loop fills the buffer with a first part of the bytes**: all that are asked for and
there, when no call fails. -/
theorem fillBuffer_spec (call : ℕ → ℕ → List UInt8 → Except Fault (List UInt8)) {expected : ℕ}
    (short : Prop) (src : List UInt8) (buf : Buf) (hexpected : 0 < expected)
    (hcall : ∀ k len rest, 0 < len → len ≤ expected →
      ∃ m, m ≤ len ∧ call k len rest = .ok (rest.take m) ∧ (short → 0 < m)) :
    ∃ s count, fillBuffer call src expected buf = .ok (s, count) ∧ count ≤ expected ∧
      Filled src buf count s ∧ (short → count = min expected src.length) := by
  classical
  obtain ⟨s, count, hok, hle, hfilled, hend⟩ := transfer_rule
    (fun k bytescount s =>
      call k (expected - bytescount) s.rest >>= fun piece => .ok (s.store bytescount piece))
    expected (Filled src buf) (if short then src.length else 0) (fun k count s hcount hs => by
      obtain ⟨m, hm, hk, hpos⟩ := hcall k (expected - count) s.rest (by omega) (by omega)
      refine ⟨_, _, by rw [hk]; rfl, ?_, hs.store (m := m), fun hnone => ?_⟩
      · have := List.length_take_le m s.rest
        change count + (s.rest.take m).length ≤ expected
        omega
      · by_cases hshort : short
        · rw [if_pos hshort]
          have hnil : (s.rest.take m).length = 0 := hnone
          have := hpos hshort
          rw [List.length_take, hs.rest, List.length_drop] at hnil
          omega
        · rw [if_neg hshort]
          omega) 10 0 0 ⟨src, buf⟩ hexpected
    ⟨rfl, Nat.zero_le _, rfl, fun _ _ => rfl⟩
  refine ⟨s, count, hok, hle, hfilled, fun hshort => ?_⟩
  rw [if_pos hshort] at hend
  have := hfilled.count_le
  omega

/-! ## _read_data -/

/-- `_read_data` of an unsigned number of bytes never fails its assertion. -/
theorem readData_spec (calls : Calls) (src : List UInt8) {expected : ℕ} (buf : Buf)
    (hexpected : 0 < expected) (hmax : expected ≤ uintMax) :
    ∃ count out, readData calls src expected buf =
        .ok (if count < expected then (count : ℤ) else toInt32 expected, out) ∧
      count ≤ expected ∧ window out 0 count = src.take count ∧
      (∀ i, expected ≤ i → out i = buf i) ∧
      (calls.OnlyShort → count = min expected src.length) := by
  obtain ⟨s, count, hok, hle, hfilled, hshort⟩ := fillBuffer_spec (fun k len rest => do
      assertThat (len ≤ uintMax) .shortLength
      return read calls k len rest) calls.OnlyShort src buf hexpected
        (fun k len rest hpos hlen => by
        obtain ⟨m, hm, htake, hshort⟩ := read_eq_take calls k len rest
        have hassert : decide (len ≤ uintMax) = true := decide_eq_true (by omega)
        refine ⟨m, hm, ?_, fun h => hshort h hpos⟩
        rw [hassert, htake]
        rfl)
  refine ⟨count, s.buf, ?_, hle, hfilled.filled, fun i hi => hfilled.outside i (by omega), hshort⟩
  rw [readData, hok]
  rfl

/-- Read calls that are short at most deliver all that is asked for when it is there; but a count
that is no `int` comes back negative. -/
theorem readData_short {calls : Calls} (h : calls.OnlyShort) (src : List UInt8) {expected : ℕ}
    (buf : Buf) (hexpected : 0 < expected) (hmax : expected ≤ uintMax) :
    ∃ (count : ℤ) (out : Buf), readData calls src expected buf = .ok (count, out) ∧
      (count = expected ↔ expected < 2 ^ 31 ∧ expected ≤ src.length) ∧ count ≤ expected ∧
      (expected ≤ src.length → window out 0 expected = src.take expected) := by
  obtain ⟨count, out, hok, -, hout, -, hshort⟩ := readData_spec calls src buf hexpected hmax
  have hcount := hshort h
  refine ⟨_, out, hok, ?_, ?_, fun hge => ?_⟩
  · rcases Nat.lt_or_ge src.length expected with hlt | hge
    · rw [if_pos (by omega)]
      omega
    · rw [if_neg (by omega)]
      rcases Nat.lt_or_ge expected (2 ^ 31) with hint | hint
      · simp only [toInt32_small hint, hint, hge, and_self]
      · have := toInt32_large hint hmax
        omega
  · split_ifs with hlt
    · omega
    · rcases Nat.lt_or_ge expected (2 ^ 31) with hint | hint
      · rw [toInt32_small hint]
      · have := toInt32_large hint hmax
        omega
  · rwa [hcount, Nat.min_eq_left hge] at hout

/-! ## _gzread_data -/

theorem gzreadData_short {calls : Calls} (h : calls.OnlyShort) (src : List UInt8) {expected : ℕ}
    (buf : Buf) (hexpected : 0 < expected) (hint : expected < 2 ^ 31) :
    ∃ out, gzreadData calls src expected buf = .ok (min expected src.length, out) ∧
      (expected ≤ src.length → window out 0 expected = src.take expected) := by
  obtain ⟨s, count, hok, hle, hfilled, hshort⟩ := fillBuffer_spec
    (fun k len rest => .ok (gzread calls k len rest)) calls.OnlyShort src buf hexpected
      (fun k len rest hpos hlen => by
      obtain ⟨m, hm, htake, hshort⟩ := gzread_eq_take calls k rest (by omega : len < 2 ^ 31)
      exact ⟨m, hm, by rw [htake], fun h => hshort h hpos⟩)
  have hcount := hshort h
  refine ⟨s.buf, ?_, fun hge => ?_⟩
  · have hreturn : gzreadData calls src expected buf = .ok (toInt32 count, s.buf) := by
      rw [gzreadData, hok]
      rfl
    rw [hreturn, toInt32_small (by omega), hcount, Nat.cast_min]
  · have hbuf := hfilled.filled
    rwa [hcount, Nat.min_eq_left hge] at hbuf

/-- `gzread` refuses every length that is no `int`: nothing is read. -/
theorem gzreadData_refused (calls : Calls) (src : List UInt8) {expected : ℕ} (buf : Buf)
    (hint : 2 ^ 31 ≤ expected) : ∃ out, gzreadData calls src expected buf = .ok (0, out) := by
  obtain ⟨s, count, hok, -, hcount, -⟩ := transfer_rule
    (fun k bytescount (s : Reading) =>
      (.ok (gzread calls k (expected - bytescount) s.rest) : Except Fault (List UInt8)) >>=
        fun piece => .ok (s.store bytescount piece))
    expected (fun count _ => count = 0) 0 (fun k count s _ hs => by
      subst hs
      have hnil : gzread calls k (expected - 0) s.rest = [] := if_neg (by omega)
      rw [hnil]
      exact ⟨_, _, rfl, Nat.zero_le _, rfl, fun _ => le_refl _⟩) 10 0 0 ⟨src, buf⟩ (by omega) rfl
  refine ⟨s.buf, ?_⟩
  rw [gzreadData, fillBuffer, hok, hcount]
  rfl

/-! ## _write_data -/

/-- The file after `count` bytes of `data` were written from its start. -/
structure Written (old data : List UInt8) (count : ℕ) (file : OpenFile) : Prop where
  bytes : file.bytes = data.take count ++ old.drop count
  offset : file.offset = count

theorem Written.write {old data : List UInt8} {count : ℕ} {file : OpenFile}
    (h : Written old data count file) (hcount : count ≤ data.length) (m : ℕ) :
    Written old data (count + ((data.drop count).take m).length)
      { bytes := file.bytes.take file.offset ++ (data.drop count).take m ++
          file.bytes.drop (file.offset + ((data.drop count).take m).length)
        offset := file.offset + ((data.drop count).take m).length } := by
  have hlen : (data.take count).length = count := List.length_take_of_le hcount
  have htake : file.bytes.take file.offset = data.take count := by
    rw [h.bytes, h.offset, List.take_left' hlen]
  refine ⟨?_, by rw [h.offset]⟩
  rw [htake, h.offset, h.bytes, ← List.drop_drop, List.drop_left' hlen, List.drop_drop,
    List.take_add, take_length_take]

/-- **The loop writes the whole buffer** over the start of the file when no call fails. -/
theorem writeData_short {calls : Calls} (h : calls.OnlyShort) (old : List UInt8) (buf : Buf)
    {expected : ℕ} (hexpected : 0 < expected) :
    ∃ file, writeData calls ⟨old, 0⟩ buf expected = .ok (file, expected) ∧
      file.bytes = window buf 0 expected ++ old.drop expected := by
  have hwindow : ∀ count, count ≤ expected →
      window buf count (expected - count) = (window buf 0 expected).drop count := by
    intro count hcount
    have happend := window_append buf 0 count (expected - count)
    rw [Nat.zero_add, Nat.add_sub_cancel' hcount] at happend
    rw [← happend, List.drop_left' (window_length buf 0 count)]
  obtain ⟨file, count, hok, hle, hwritten, hend⟩ := transfer_rule
    (fun k bytescount (file : OpenFile) =>
      (.ok (write calls k (window buf bytescount (expected - bytescount)) file) :
        Except Fault (OpenFile × ℕ)))
    expected (Written old (window buf 0 expected)) expected (fun k count file hcount hs => by
      rw [hwindow count (le_of_lt hcount)]
      obtain ⟨m, hwrite, hpos⟩ := write_eq_take calls k ((window buf 0 expected).drop count) file
      have hpiece := List.length_take (i := m) (l := (window buf 0 expected).drop count)
      rw [List.length_drop, window_length] at hpiece
      refine ⟨_, _, by rw [hwrite], by omega, hs.write (by rw [window_length]; omega) m,
        fun hnone => ?_⟩
      have := hpos h
      omega) 10 0 0 ⟨old, 0⟩ hexpected ⟨rfl, rfl⟩
  have hcount : count = expected := by
    by_contra hne
    have := hend (by omega)
    omega
  subst hcount
  refine ⟨file, hok, ?_⟩
  rw [hwritten.bytes, List.take_of_length_le (by rw [window_length])]

end Apple2ix.Zlib
