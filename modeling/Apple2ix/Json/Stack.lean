import Apple2ix.Json.Grammar

/-! The stack that `jsmn_parse` does without. What is open while a text is read (containers, and the
keys in front of their values) is a stack over the tokens; the parser finds its way in it through
the parents of the tokens alone. -/
namespace Apple2ix.Json
set_option autoImplicit false

/-! ## Lists -/

section
variable {α : Type}

theorem modify_at (l r : List α) (a : α) (f : α → α) :
    (l ++ a :: r).modify l.length f = l ++ f a :: r := by
  induction l with
  | nil => rfl
  | cons b l ih =>
    rw [List.cons_append, List.length_cons, List.modify_succ_cons, ih, List.cons_append]

theorem getD_at (l r : List α) (a b : α) : (l ++ a :: r).getD l.length b = a := by
  rw [List.getD_eq_getElem?_getD, List.getElem?_append_right (Nat.le_refl _), Nat.sub_self,
    List.getElem?_cons_zero, Option.getD_some]

theorem getLast?_at (l : List α) (a : α) : (l ++ [a]).getLast? = some a := by
  simp

end

/-! ## Stacks -/

/-- What is open: a container, or a key from its colon on. -/
inductive Entry
  | container (kind : Kind)
  | key
  deriving DecidableEq, Repr

def Entry.type : Entry → JsmnType
  | .container kind => kind.type
  | .key => .string

/-- An open token has no token after it or is left alone by what comes after it. -/
def Entry.lasttype : Entry → LastType
  | .container kind => kind.lasttype
  | .key => .separatorColon

/-- The tokens in use: each open one with the finished ones that follow it. -/
inductive Stack
  | bottom (tokens : List PrivTok)
  | push (z : Stack) (entry : Entry) (token : PrivTok) (below : List PrivTok)

namespace Stack

def tokens : Stack → List PrivTok
  | .bottom ts => ts
  | .push z _ t below => z.tokens ++ t :: below

/-- The index of the superior token. -/
def top : Stack → Option ℕ
  | .bottom _ => none
  | .push z _ _ _ => some z.tokens.length

/-- What the next token stands under. -/
def under : Stack → Option Entry
  | .bottom _ => none
  | .push _ entry _ _ => some entry

def entries : Stack → List Entry
  | .bottom _ => []
  | .push z entry _ _ => entry :: z.entries

/-- Finished tokens under the superior one. -/
def add (ts : List PrivTok) : Stack → Stack
  | .bottom us => .bottom (us ++ ts)
  | .push z entry t below => .push z entry t (below ++ ts)

/-- So many more tokens under each open one. -/
def grow (n : ℕ) : Stack → Stack
  | .bottom us => .bottom us
  | .push z entry t below => .push (z.grow n) entry { t with skip := t.skip + n } below

/-- One more child under the superior token. -/
def counted : Stack → Stack
  | .bottom us => .bottom us
  | .push z entry t below => .push z entry { t with size := t.size + 1 } below

/-- A key with its value taken as finished. -/
def settle : Stack → Stack
  | .push (.push z entry t below) .key k more => .push z entry t (below ++ k :: more)
  | z => z

@[simp] theorem tokens_add (z : Stack) (ts : List PrivTok) :
    (z.add ts).tokens = z.tokens ++ ts := by
  cases z with
  | bottom us => rfl
  | push z entry t below =>
    rw [add, tokens, tokens, List.append_assoc, List.cons_append]

@[simp] theorem top_add (z : Stack) (ts : List PrivTok) : (z.add ts).top = z.top := by
  cases z <;> rfl

@[simp] theorem under_add (z : Stack) (ts : List PrivTok) : (z.add ts).under = z.under := by
  cases z <;> rfl

@[simp] theorem entries_add (z : Stack) (ts : List PrivTok) : (z.add ts).entries = z.entries := by
  cases z <;> rfl

@[simp] theorem length_grow (z : Stack) (n : ℕ) : (z.grow n).tokens.length = z.tokens.length := by
  induction z with
  | bottom us => rfl
  | push z entry t below ih => simp only [grow, tokens, List.length_append, List.length_cons, ih]

@[simp] theorem length_counted (z : Stack) : z.counted.tokens.length = z.tokens.length := by
  cases z with
  | bottom us => rfl
  | push z entry t below => simp only [counted, tokens, List.length_append, List.length_cons]

@[simp] theorem top_grow (z : Stack) (n : ℕ) : (z.grow n).top = z.top := by
  cases z with
  | bottom us => rfl
  | push z entry t below => rw [grow, top, top, length_grow]

@[simp] theorem top_counted (z : Stack) : z.counted.top = z.top := by
  cases z <;> rfl

@[simp] theorem under_grow (z : Stack) (n : ℕ) : (z.grow n).under = z.under := by
  cases z <;> rfl

@[simp] theorem under_counted (z : Stack) : z.counted.under = z.under := by
  cases z <;> rfl

@[simp] theorem entries_grow (z : Stack) (n : ℕ) : (z.grow n).entries = z.entries := by
  induction z with
  | bottom us => rfl
  | push z entry t below ih => rw [grow, entries, entries, ih]

@[simp] theorem entries_counted (z : Stack) : z.counted.entries = z.entries := by
  cases z <;> rfl

theorem grow_zero (z : Stack) : z.grow 0 = z := by
  induction z with
  | bottom us => rfl
  | push z entry t below ih => rw [grow, ih]; rfl

theorem grow_grow (z : Stack) (n m : ℕ) : (z.grow n).grow m = z.grow (n + m) := by
  induction z with
  | bottom us => rfl
  | push z entry t below ih => rw [grow, grow, grow, ih, Nat.add_assoc]

@[simp] theorem tokens_settle (z : Stack) : z.settle.tokens = z.tokens := by
  fun_cases settle z with
  | case1 z entry t below k more => simp only [tokens, List.append_assoc, List.cons_append]
  | case2 z _ => rfl

theorem entries_length_le (z : Stack) : z.entries.length ≤ z.tokens.length := by
  induction z with
  | bottom us => exact Nat.zero_le _
  | push z entry t below ih =>
    simp only [entries, tokens, List.length_append, List.length_cons]
    omega

/-! ## The parents -/

/-- Each open token has the next one as its parent. -/
def Linked : Stack → Prop
  | .bottom _ => True
  | .push z _ t _ => t.parent = z.top ∧ z.Linked

theorem percolate_tokens (z : Stack) (hlinked : z.Linked) (more : List PrivTok) (fuel i : ℕ)
    (htop : z.top = some i) (hfuel : z.entries.length ≤ fuel) :
    jsmnPercolateSkipCounts fuel (z.tokens ++ more) i = (z.grow 1).tokens ++ more := by
  induction z generalizing more fuel i with
  | bottom us => cases htop
  | push z entry t below ih =>
    cases htop
    obtain ⟨hparent, hlinked⟩ := hlinked
    rw [entries, List.length_cons] at hfuel
    obtain ⟨fuel, rfl⟩ : ∃ m, fuel = m + 1 := ⟨fuel - 1, by omega⟩
    rw [jsmnPercolateSkipCounts, tokens, List.append_assoc, List.cons_append, modify_at, getD_at]
    cases hz : z.top with
    | none =>
      rw [hz] at hparent
      cases z with
      | bottom us => simp only [grow, tokens, List.append_assoc, List.cons_append, hparent]
      | push => cases hz
    | some parent =>
      rw [hz] at hparent
      simp only [grow, tokens, List.append_assoc, List.cons_append, hparent]
      exact ih hlinked _ fuel parent hz (by omega)

/-- **A new child** is counted by the tokens that it is under, and by these only. -/
theorem countChild_tokens (z : Stack) (hlinked : z.Linked) (more : List PrivTok) :
    countChild z.top (z.tokens ++ more) = (z.counted.grow 1).tokens ++ more := by
  cases z with
  | bottom us => rfl
  | push z entry t below =>
    have hcounted : (Stack.push z entry t below).counted.Linked := hlinked
    have hsize : (((Stack.push z entry t below).tokens ++ more).modify z.tokens.length
        fun token => { token with size := token.size + 1 }) =
          (Stack.push z entry t below).counted.tokens ++ more := by
      simp only [tokens, counted, List.append_assoc, List.cons_append, modify_at]
    rw [top, countChild]
    simp only [hsize]
    refine percolate_tokens _ hcounted more _ _ rfl ?_
    have := entries_length_le (Stack.push z entry t below).counted
    rw [List.length_append]
    omega

/-- The finished tokens behind the one at `base` are under it. -/
def Nested (base : ℕ) (ts : List PrivTok) : Prop :=
  ∀ j t, ts[j]? = some t → ∃ k, t.parent = some k ∧ base ≤ k ∧ k ≤ base + j

theorem nested_nil (base : ℕ) : Nested base [] := by
  intro j t h
  cases h

theorem nested_append {base : ℕ} {ts us : List PrivTok} (hts : Nested base ts)
    (hus : ∀ j t, us[j]? = some t → ∃ k, t.parent = some k ∧ base ≤ k ∧ k ≤ base + ts.length + j) :
    Nested base (ts ++ us) := by
  intro j t h
  by_cases hj : j < ts.length
  · rw [List.getElem?_append_left hj] at h
    exact hts j t h
  · rw [List.getElem?_append_right (by omega)] at h
    obtain ⟨k, hk, hle, hlt⟩ := hus _ t h
    exact ⟨k, hk, hle, by omega⟩

theorem nested_snoc {base : ℕ} {ts : List PrivTok} {u : PrivTok} (hts : Nested base ts)
    (hu : u.parent = some base) : Nested base (ts ++ [u]) := by
  refine nested_append hts fun j t h => ⟨base, ?_, Nat.le_refl _, by omega⟩
  obtain ⟨rfl, rfl⟩ : j = 0 ∧ t = u := by
    cases j with
    | zero => exact ⟨rfl, (Option.some.inj h).symm⟩
    | succ j => simp at h
  exact hu

/-- A token with the finished tokens behind it, under an earlier one. -/
theorem nested_close {base : ℕ} {ts more : List PrivTok} {u : PrivTok} (hts : Nested base ts)
    (hu : u.parent = some base) (hmore : Nested (base + 1 + ts.length) more) :
    Nested base (ts ++ u :: more) := by
  refine nested_append hts fun j t h => ?_
  cases j with
  | zero =>
    cases h
    exact ⟨base, hu, Nat.le_refl _, by omega⟩
  | succ j =>
    obtain ⟨k, hk, hle, hlt⟩ := hmore j t h
    exact ⟨k, hk, by omega, by omega⟩

/-- **The open container** is found from the last token. -/
theorem findOpen_tokens (l below : List PrivTok) (t : PrivTok) (hstart : t.start ≠ none)
    (hstop : t.stop = none) (hclosed : ∀ u ∈ below, u.stop ≠ none) (hnested : Nested l.length below)
    (fuel j : ℕ) (hj : j ≤ below.length) (hfuel : j < fuel) :
    findOpen fuel (l ++ t :: below) (l.length + j) = l.length := by
  induction fuel generalizing j with
  | zero => omega
  | succ fuel ih =>
    rw [findOpen]
    cases j with
    | zero =>
      rw [Nat.add_zero, getD_at]
      simp only [hstart, hstop, ne_eq, not_false_eq_true, and_self, if_true]
    | succ j =>
      obtain ⟨u, hu⟩ : ∃ u, below[j]? = some u := ⟨below[j], by rw [List.getElem?_eq_getElem]⟩
      have hget : (l ++ t :: below).getD (l.length + (j + 1)) .fresh = u := by
        rw [List.getD_eq_getElem?_getD, List.getElem?_append_right (by omega)]
        have : l.length + (j + 1) - l.length = j + 1 := by omega
        rw [this, List.getElem?_cons_succ, hu, Option.getD_some]
      obtain ⟨k, hparent, hle, hlt⟩ := hnested j u hu
      simp only [hget, hparent, hclosed u (List.mem_of_getElem? hu), and_false, if_false]
      have hk : k = l.length + (k - l.length) := by omega
      rw [hk]
      exact ih _ (by omega) (by omega)

end Stack

end Apple2ix.Json
