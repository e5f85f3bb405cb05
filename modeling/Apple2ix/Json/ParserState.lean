import Apple2ix.Json.Lexemes
import Apple2ix.Json.Stack

/-! The states of `jsmn_parse` between two characters: a stack over the tokens, and what has just
been read. Each case of its switch is followed through these states; a case that does not fit the
state is refused. -/
namespace Apple2ix.Json
set_option autoImplicit false

/-! ## The invariant of the tokens -/

structure PrivTok.Closed (depth : ℤ) (t : PrivTok) : Prop where
  start : t.start ≠ none
  stop : t.stop ≠ none
  depth : depth ≤ t.depth
  lasttype : t.lasttype ≠ .undefined

/-- An object holds keys, everything else holds values. -/
def Fits (under : Option Entry) : Entry → Prop
  | .key => under = some (.container .object)
  | .container _ => under ≠ some (.container .object)

structure Opened (z : Stack) (entry : Entry) (t : PrivTok) : Prop where
  type : t.type = entry.type
  lasttype : t.lasttype = entry.lasttype
  parent : t.parent = z.top
  start : t.start ≠ none
  stop : t.stop = none ↔ entry ≠ .key
  depth : 1 ≤ t.depth
  outer : z.top = none → t.depth = 1
  inner : z.top ≠ none → entry ≠ .key → 2 ≤ t.depth

namespace Stack

/-- What holds of the tokens between two characters. -/
inductive Ok : Stack → Prop
  | bottom {ts : List PrivTok} (closed : ∀ t ∈ ts, t.Closed 0) (matched : unmatched ts = false) :
      Ok (.bottom ts)
  | push {z : Stack} {entry : Entry} {t : PrivTok} {below : List PrivTok} (ok : z.Ok)
      (empty : z.top = none → z.tokens = []) (fits : Fits z.under entry) (opened : Opened z entry t)
      (closed : ∀ u ∈ below, u.Closed 1) (nested : Nested z.tokens.length below) :
      Ok (.push z entry t below)

theorem under_none {z : Stack} : z.under = none ↔ z.top = none := by
  cases z with
  | bottom us => exact iff_of_true rfl rfl
  | push z entry t below => exact iff_of_false (by simp [under]) (by simp [top])

theorem Ok.linked {z : Stack} (h : z.Ok) : z.Linked := by
  induction h with
  | bottom => trivial
  | push _ _ _ opened _ _ ih => exact ⟨opened.parent, ih⟩

theorem Ok.grow {z : Stack} (h : z.Ok) (n : ℕ) : (z.grow n).Ok := by
  induction h with
  | bottom closed matched => exact .bottom closed matched
  | @push z entry t below ok empty fits opened closed nested ih =>
    refine .push ih ?_ (by rwa [under_grow]) ?_ closed (by rwa [length_grow])
    · intro htop
      rw [top_grow] at htop
      rw [← List.length_eq_zero_iff, length_grow, empty htop]
      rfl
    · obtain ⟨h1, h2, h3, h4, h5, h6, h7, h8⟩ := opened
      rw [← top_grow z n] at h3 h7 h8
      exact ⟨h1, h2, h3, h4, h5, h6, h7, h8⟩

theorem Ok.counted {z : Stack} (h : z.Ok) : z.counted.Ok := by
  cases h with
  | bottom closed matched => exact .bottom closed matched
  | push ok empty fits opened closed nested =>
    obtain ⟨h1, h2, h3, h4, h5, h6, h7, h8⟩ := opened
    exact .push ok empty fits ⟨h1, h2, h3, h4, h5, h6, h7, h8⟩ closed nested

/-- A finished token under the superior one. -/
theorem Ok.add_token {z : Stack} {u : PrivTok} (h : z.Ok) (hu : u.Closed 0)
    (hdepth : z.top ≠ none → 1 ≤ u.depth) (hparent : u.parent = z.top)
    (hempty : z.top = none → z.tokens = [] ∧ unmatched [u] = false) : (z.add [u]).Ok := by
  cases h with
  | @bottom ts closed matched =>
    obtain ⟨hnil, hmatched⟩ := hempty rfl
    cases hnil
    refine .bottom (fun t ht => ?_) hmatched
    rw [List.mem_singleton.mp ht]
    exact hu
  | push ok empty fits opened closed nested =>
    refine .push ok empty fits opened (fun t ht => ?_) (nested_snoc nested hparent)
    rcases List.mem_append.mp ht with ht | ht
    · exact closed t ht
    · rw [List.mem_singleton.mp ht]
      exact ⟨hu.start, hu.stop, hdepth (by simp [top]), hu.lasttype⟩

/-- While something is open, all tokens are below the top level. -/
theorem Ok.depth_pos {z : Stack} (h : z.Ok) (htop : z.top ≠ none) :
    ∀ t ∈ z.tokens, 1 ≤ t.depth := by
  induction h with
  | bottom => exact absurd rfl htop
  | @push z entry t below ok empty fits opened closed nested ih =>
    intro u hu
    rw [tokens, List.mem_append, List.mem_cons] at hu
    rcases hu with hu | rfl | hu
    · by_cases hz : z.top = none
      · rw [empty hz] at hu
        cases hu
      · exact ih hz u hu
    · exact opened.depth
    · exact (closed u hu).depth

/-- While something is open, the first token is an open container. -/
theorem Ok.unmatched {z : Stack} (h : z.Ok) (htop : z.top ≠ none) :
    Json.unmatched z.tokens = true := by
  induction h with
  | bottom => exact absurd rfl htop
  | @push z entry t below ok empty fits opened closed nested ih =>
    by_cases hz : z.top = none
    · rw [tokens, empty hz, List.nil_append, Json.unmatched, opened.outer hz, opened.type]
      cases entry with
      | container kind => cases kind <;> rfl
      | key =>
        rw [Fits, under_none.mpr hz] at fits
        cases fits
    · have htokens := ih hz
      rw [tokens]
      cases hl : z.tokens with
      | nil =>
        rw [hl] at htokens
        cases htokens
      | cons u us =>
        rw [hl] at htokens
        exact htokens

/-- A key and its value are finished when the next member or the end of the object is reached. -/
theorem Ok.settle {z : Stack} (h : z.Ok) : z.settle.Ok := by
  fun_cases Stack.settle z with
  | case2 z _ => exact h
  | case1 z entry t below k more =>
    obtain _ | ⟨ok, -, fits, opened, closed, nested⟩ := h
    obtain _ | ⟨ok, empty, fits', opened', closed', nested'⟩ := ok
    refine .push ok empty fits' opened' (fun u hu => ?_) ?_
    · rcases List.mem_append.mp hu with hu | hu
      · exact closed' u hu
      · rcases List.mem_cons.mp hu with rfl | hu
        · have hstop : u.stop ≠ none := fun h => opened.stop.mp h rfl
          exact ⟨opened.start, hstop, opened.depth, by rw [opened.lasttype]; simp [Entry.lasttype]⟩
        · exact closed u hu
    · refine nested_close nested' opened.parent ?_
      rw [tokens, List.length_append, List.length_cons] at nested
      rwa [Nat.add_assoc, Nat.add_comm 1]

end Stack

/-! ## Statuses -/

/-- What has just been read. -/
inductive Status
  | begin
  | opened (kind : Kind)
  | key
  | colon
  | value
  | comma (kind : Kind)
  deriving DecidableEq, Repr

/-- A value may come next. -/
def Status.needsValue : Status → Bool
  | .begin => true
  | .opened .array => true
  | .colon => true
  | .comma .array => true
  | _ => false

/-- A key may come next. -/
def Status.needsKey : Status → Bool
  | .opened .object => true
  | .comma .object => true
  | _ => false

/-- The private type of the last token. -/
theorem Status.needsValue_cases {s : Status} (h : s.needsValue = true) :
    s = .begin ∨ s = .opened .array ∨ s = .colon ∨ s = .comma .array := by
  cases s with
  | begin => exact .inl rfl
  | opened kind =>
    cases kind with
    | array => exact .inr (.inl rfl)
    | object => cases h
  | key => cases h
  | colon => exact .inr (.inr (.inl rfl))
  | value => cases h
  | comma kind =>
    cases kind with
    | array => exact .inr (.inr (.inr rfl))
    | object => cases h

def Status.last : Status → LastType → Prop
  | .begin, _ => False
  | .opened kind, l => l = kind.lasttype
  | .key, l => l = .stringKey
  | .colon, l => l = .separatorColon
  | .value, l => beforeComma l = true
  | .comma _, l => l = .separatorComma

inductive Stack.At : Stack → Status → Prop
  | begin : At (.bottom []) .begin
  | opened (z : Stack) (kind : Kind) (t : PrivTok) :
      At (.push z (.container kind) t []) (.opened kind)
  | key (z : Stack) (t : PrivTok) (below : List PrivTok) (k : PrivTok) (type : k.type = .string)
      (last : k.lasttype = .stringKey) (size : k.size = 0)
        (parent : k.parent = some z.tokens.length) :
      At (.push z (.container .object) t (below ++ [k])) .key
  | colon (z : Stack) (k : PrivTok) (size : k.size = 0) : At (.push z .key k []) .colon
  | value (z : Stack) (u : PrivTok) (last : z.tokens.getLast? = some u)
      (check : beforeComma u.lasttype = true) (under : z.under ≠ some (.container .object)) :
      At z .value
  | comma (z : Stack) (kind : Kind) (u : PrivTok) (last : z.tokens.getLast? = some u)
      (check : u.lasttype = .separatorComma) (under : z.under = some (.container kind)) :
      At z (.comma kind)

/-- **The state** of the parser, as a stack and a status. -/
structure Reads (p : Parser) (z : Stack) (s : Status) : Prop where
  tokens : p.tokens = z.tokens
  super : p.toksuper = z.top
  count : p.count = z.tokens.length
  ok : z.Ok
  at_ : z.At s
  depth : s = .begin → p.depth = 0
  room : z.tokens.length ≤ p.pos

theorem reads_init : Reads jsmnInit (.bottom []) .begin where
  tokens := rfl
  super := rfl
  count := rfl
  ok := .bottom (by simp) rfl
  at_ := .begin
  depth := fun _ => rfl
  room := Nat.le_refl _

section
variable {p : Parser} {z : Stack} {s : Status}

theorem Stack.At.needsValue_under (h : z.At s) (hok : z.Ok) (hs : s.needsValue = true) :
    z.under ≠ some (.container .object) := by
  cases h with
  | begin => simp [Stack.under]
  | opened z kind t =>
    cases kind with
    | array => simp [Stack.under]
    | object => cases hs
  | key => cases hs
  | colon => simp [Stack.under]
  | value => cases hs
  | comma z kind u last check under =>
    rw [under]
    cases kind with
    | array => simp
    | object => cases hs

theorem Stack.At.needsKey_under (h : z.At s) (hs : s.needsKey = true) :
    z.under = some (.container .object) := by
  cases h with
  | opened z kind t =>
    cases kind with
    | array => cases hs
    | object => rfl
  | comma z kind u last check under =>
    rw [under]
    cases kind with
    | array => cases hs
    | object => rfl
  | _ => cases hs

/-- Outside of an object, only behind a value is no value needed. -/
theorem Stack.At.value_of_refused (h : z.At s) (hs : s.needsValue = false)
    (hunder : z.under ≠ some (.container .object)) : s = .value := by
  cases h with
  | begin => cases hs
  | opened z kind t =>
    cases kind with
    | array => cases hs
    | object => exact absurd rfl hunder
  | key => exact absurd rfl hunder
  | colon => cases hs
  | value => rfl
  | comma z kind u last check under =>
    cases kind with
    | array => cases hs
    | object => exact absurd under hunder

theorem Stack.At.begin_iff (h : z.At s) (hs : s.needsValue = true) : s = .begin ↔ z.top = none := by
  cases h with
  | begin => exact iff_of_true rfl rfl
  | opened => exact iff_of_false (by simp) (by simp [Stack.top])
  | key => cases hs
  | colon => exact iff_of_false (by simp) (by simp [Stack.top])
  | value => cases hs
  | comma z kind u last check under =>
    refine iff_of_false (by simp) fun htop => ?_
    rw [Stack.under_none.mpr htop] at under
    cases under

theorem Stack.At.last (h : z.At s) (hok : z.Ok) (hs : s ≠ .begin) :
    ∃ u, z.tokens.getLast? = some u ∧ s.last u.lasttype := by
  cases h with
  | begin => exact absurd rfl hs
  | opened z kind t =>
    obtain _ | ⟨-, -, -, opened, -, -⟩ := hok
    exact ⟨t, getLast?_at _ _, opened.lasttype⟩
  | key z t below k type last size parent =>
    refine ⟨k, ?_, last⟩
    rw [Stack.tokens, ← List.cons_append, ← List.append_assoc, getLast?_at]
  | colon z k =>
    obtain _ | ⟨-, -, -, opened, -, -⟩ := hok
    exact ⟨k, getLast?_at _ _, opened.lasttype⟩
  | value z u last check => exact ⟨u, last, check⟩
  | comma z kind u last check => exact ⟨u, last, check⟩

theorem previous_begin (h : Reads p z .begin) (check : LastType → Bool) :
    previous p.tokens check = .ok none := by
  obtain ⟨htokens, -, -, -, hat, -, -⟩ := h
  cases hat
  rw [htokens]
  rfl

theorem previous_eq (h : Reads p z s) (hs : s ≠ .begin) (check : LastType → Bool) :
    ∃ u ∈ z.tokens, s.last u.lasttype ∧
      previous p.tokens check = if check u.lasttype then .ok (some u) else .error .inval := by
  obtain ⟨u, hlast, hu⟩ := h.at_.last h.ok hs
  refine ⟨u, List.mem_of_getLast? hlast, hu, ?_⟩
  rw [previous, h.tokens, hlast]

/-- A check that fits the status passes, and the depth of the last token is known. -/
theorem previous_ok (h : Reads p z s) {check : LastType → Bool}
    (hcheck : ∀ l, s.last l → check l = true) (hvalue : s.needsValue = true ∨ z.top ≠ none) :
    ∃ token, previous p.tokens check = .ok token ∧ (z.top = none → depthOf p.depth token = 0) ∧
      (z.top ≠ none → 1 ≤ depthOf p.depth token) := by
  by_cases hs : s = .begin
  · subst hs
    have hnone := (h.at_.begin_iff rfl).mp rfl
    exact ⟨none, previous_begin h _, fun _ => h.depth rfl, fun htop => absurd hnone htop⟩
  · obtain ⟨u, hu, hlast, hprevious⟩ := previous_eq h hs check
    rw [if_pos (hcheck _ hlast)] at hprevious
    refine ⟨some u, hprevious, fun hnone => ?_, fun htop => h.ok.depth_pos htop u hu⟩
    rcases hvalue with hvalue | htop
    · exact absurd ((h.at_.begin_iff hvalue).mpr hnone) hs
    · exact absurd hnone htop

theorem previous_refused (h : Reads p z s) (hs : s ≠ .begin) {check : LastType → Bool}
    (hcheck : ∀ l, s.last l → check l = false) : previous p.tokens check = .error .inval := by
  obtain ⟨u, -, hlast, hprevious⟩ := previous_eq h hs check
  rw [hprevious, hcheck _ hlast]
  rfl

end

end Apple2ix.Json
