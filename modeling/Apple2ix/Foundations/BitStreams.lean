import Mathlib.Data.Nat.Bitwise
import Mathlib.Tactic.Common

/-! Streams of bits that come word by word, the first word lowest. A reader of such a stream sees
one word at a time and carries the last bits of the words before it. -/
namespace Apple2ix.BitStreams
set_option autoImplicit false

/-! ## Packed words -/

/-- The first `n` words, of `w` bits each. -/
def pack (w : ℕ) (word : ℕ → ℕ) : ℕ → ℕ
  | 0 => 0
  | n + 1 => pack w word n ||| word n <<< (w * n)

variable {w : ℕ} {word : ℕ → ℕ}

theorem pack_lt {n : ℕ} (hword : ∀ c, c < n → word c < 2 ^ w) : pack w word n < 2 ^ (w * n) := by
  induction n with
  | zero => exact Nat.two_pow_pos _
  | succ n ih =>
    have hlow := ih fun c hc => hword c (Nat.lt_succ_of_lt hc)
    have hmul : w * (n + 1) = w + w * n := by rw [Nat.mul_succ, Nat.add_comm]
    refine Nat.or_lt_two_pow ?_ ?_
    · exact Nat.lt_of_lt_of_le hlow (Nat.pow_le_pow_right (by decide) (by omega))
    · rw [hmul, Nat.shiftLeft_eq, Nat.pow_add]
      exact Nat.mul_lt_mul_of_pos_right (hword n (Nat.lt_succ_self n)) (Nat.two_pow_pos _)

/-- **A bit of the stream is a bit of its word.** -/
theorem testBit_pack {n c i : ℕ} (hword : ∀ c, c < n → word c < 2 ^ w) (hc : c < n) (hi : i < w) :
    (pack w word n).testBit (w * c + i) = (word c).testBit i := by
  induction n with
  | zero => exact absurd hc (Nat.not_lt_zero c)
  | succ n ih =>
    have hbefore : ∀ c, c < n → word c < 2 ^ w := fun c hc => hword c (Nat.lt_succ_of_lt hc)
    rw [pack, Nat.testBit_or, Nat.testBit_shiftLeft]
    by_cases hcn : c = n
    · have hlow : (pack w word n).testBit (w * n + i) = false :=
        Nat.testBit_lt_two_pow (Nat.lt_of_lt_of_le (pack_lt hbefore)
          (Nat.pow_le_pow_right (by decide) (Nat.le_add_right _ i)))
      rw [hcn, hlow, Nat.add_sub_cancel_left]
      simp
    · have hlt : c < n := by omega
      have hnext : w * c + w ≤ w * n := by
        rw [← Nat.mul_succ]
        exact Nat.mul_le_mul_left w hlt
      have hnot : ¬ w * n ≤ w * c + i := by omega
      rw [ih hbefore hlt]
      simp [hnot]

theorem testBit_pack_above {n i : ℕ} (hword : ∀ c, c < n → word c < 2 ^ w) (hi : w * n ≤ i) :
    (pack w word n).testBit i = false :=
  Nat.testBit_lt_two_pow
    (Nat.lt_of_lt_of_le (pack_lt hword) (Nat.pow_le_pow_right (by decide) hi))

/-! ## Reading with carried bits -/

/-- The `n` bits of a word from position `pos` on. -/
def bits (s pos n : ℕ) : ℕ := (s >>> pos) % 2 ^ n

theorem testBit_bits (s pos n i : ℕ) :
    (bits s pos n).testBit i = (decide (i < n) && s.testBit (pos + i)) := by
  rw [bits, Nat.testBit_mod_two_pow, Nat.testBit_shiftRight]

theorem bits_shiftLeft (s pos n l : ℕ) : bits (s <<< l) (pos + l) n = bits s pos n := by
  refine Nat.eq_of_testBit_eq fun i => ?_
  have hpos : pos + l + i - l = pos + i := by omega
  have hle : l ≤ pos + l + i := by omega
  rw [testBit_bits, testBit_bits, Nat.testBit_shiftLeft, hpos, decide_eq_true hle, Bool.true_and]

/-- The `k` bits of a stream before position `pos`, with zeros before its start. -/
def tail (s k pos : ℕ) : ℕ := bits (s <<< k) pos k

theorem tail_zero (s k : ℕ) : tail s k 0 = 0 := by
  refine Nat.eq_of_testBit_eq fun i => ?_
  rw [tail, testBit_bits, Nat.testBit_shiftLeft, Nat.zero_testBit, Nat.zero_add]
  by_cases hi : i < k
  · have hnot : ¬ k ≤ i := by omega
    simp [hnot]
  · simp [hi]

/-- A word has the bits of the stream from position `pos` on, `n` of them. -/
def Agrees (s pos n word : ℕ) : Prop := ∀ i, i < n → s.testBit (pos + i) = word.testBit i

theorem agrees_pack {n c : ℕ} (hword : ∀ c, c < n → word c < 2 ^ w) (hc : c < n) :
    Agrees (pack w word n) (w * c) w (word c) := fun _ hi => testBit_pack hword hc hi

/-- After its last word a stream has no bits. -/
theorem agrees_pack_last {n : ℕ} (hword : ∀ c, c < n + 1 → word c < 2 ^ w) (m : ℕ) :
    Agrees (pack w word (n + 1)) (w * n) m (word n) := by
  intro i _
  by_cases hi : i < w
  · exact testBit_pack hword (Nat.lt_succ_self n) hi
  · have habove : w * (n + 1) ≤ w * n + i := by
      rw [Nat.mul_succ]
      omega
    rw [testBit_pack_above hword habove, Nat.testBit_lt_two_pow (Nat.lt_of_lt_of_le
      (hword n (Nat.lt_succ_self n)) (Nat.pow_le_pow_right (by decide) (Nat.le_of_not_lt hi)))]

/-- **Reading over the carried bits.** What a reader sees of a word put behind the bits it carries
is what the stream has there. -/
theorem bits_carried {s pos n k m l word : ℕ} (h : Agrees s pos n word) (hl : m + l ≤ k + n) :
    bits (word <<< k ||| tail s k pos) m l = bits (s <<< k) (pos + m) l := by
  refine Nat.eq_of_testBit_eq fun i => ?_
  rw [testBit_bits, testBit_bits, Nat.testBit_or, tail, testBit_bits, Nat.testBit_shiftLeft,
    Nat.testBit_shiftLeft, Nat.testBit_shiftLeft]
  by_cases hi : i < l
  · by_cases hk : m + i < k
    · have hnot : ¬ k ≤ m + i := by omega
      rw [decide_eq_true hk, decide_eq_false hnot, Bool.false_and, Bool.false_or, Bool.true_and,
        Nat.add_assoc]
    · have hword := h (m + i - k) (by omega)
      have hpos : pos + m + i - k = pos + (m + i - k) := by omega
      have hle : k ≤ pos + m + i := by omega
      rw [decide_eq_false hk, decide_eq_true (by omega : k ≤ m + i), decide_eq_true hle, hpos,
        hword, Bool.false_and, Bool.or_false]
  · rw [decide_eq_false hi, Bool.false_and, Bool.false_and]

/-- Words that are delayed by some bits make up the delayed stream. -/
theorem Agrees.delayed {s pos n word : ℕ} (h : Agrees s pos n word) (k : ℕ) :
    Agrees (s <<< k) pos (n + k) (word <<< k ||| tail s k pos) := by
  intro i hi
  have hbits := congrArg (fun x => x.testBit i)
    (bits_carried (k := k) (m := 0) (l := n + k) h (by omega))
  simp only [testBit_bits, decide_eq_true hi, Bool.true_and, Nat.zero_add, Nat.add_zero] at hbits
  exact hbits.symm

/-- The bits that a reader carries on are the last of the word. -/
theorem tail_next {s pos n k word : ℕ} (h : Agrees s pos n word) (hk : k ≤ n) :
    tail s k (pos + n) = bits word (n - k) k := by
  refine Nat.eq_of_testBit_eq fun i => ?_
  rw [tail, testBit_bits, testBit_bits, Nat.testBit_shiftLeft]
  by_cases hi : i < k
  · have hword := h (n - k + i) (by omega)
    have hpos : pos + n + i - k = pos + (n - k + i) := by omega
    have hle : k ≤ pos + n + i := by omega
    rw [hpos, hword, decide_eq_true hle, Bool.true_and]
  · rw [decide_eq_false hi, Bool.false_and, Bool.false_and]

end Apple2ix.BitStreams
