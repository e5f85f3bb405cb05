import Mathlib.Logic.Function.Basic
import Mathlib.Data.List.Flatten
import Apple2ix.Misc.StateHelper

/-! Loads that are built from calls of `helper->load`. Each call hands its bytes over at once, so a
load that fails half way leaves what it had loaded by then. -/
namespace Apple2ix
set_option autoImplicit false

universe u v w
variable {ε : Type u} {σ : Type v} {τ : Type w}

/-- What a load makes of a state and of the rest of the file, and whether it got all its bytes. -/
abbrev Loader (ε : Type u) (σ : Type v) := σ → List UInt8 → Except ε (σ × List UInt8 × Bool)

namespace Loader

/-- The `serialized` bytes of a 16-bit register, and what such bytes stand for. -/
def wordBytes (w : UInt16) : List UInt8 :=
  [((w &&& 0xFF00) >>> 8).toUInt8, ((w &&& 0xFF) >>> 0).toUInt8]

def wordOf (serialized : List UInt8) : UInt16 :=
  (serialized.getD 0 0).toUInt16 <<< 8 ||| (serialized.getD 1 0).toUInt16

/-- One call of `helper->load` for `n` bytes, and what is done with them. -/
def field (n : ℕ) (apply : List UInt8 → σ → Except ε σ) : Loader ε σ := fun s input =>
  match loadState input n with
  | none => .ok (s, input, false)
  | some (bytes, rest) =>
    match apply bytes s with
    | .error e => .error e
    | .ok t => .ok (t, rest, true)

/-- One call of `helper->load` for `n` bytes that the rest of the load depends on. -/
def read (n : ℕ) (next : List UInt8 → Loader ε σ) : Loader ε σ := fun s input =>
  match loadState input n with
  | none => .ok (s, input, false)
  | some (bytes, rest) => next bytes s rest

/-- A step between the calls that may go wrong. -/
def effect (f : σ → Except ε σ) : Loader ε σ := fun s input =>
  match f s with
  | .error e => .error e
  | .ok t => .ok (t, input, true)

/-- A step between the calls. -/
def step (f : σ → σ) : Loader ε σ := fun s input => .ok (f s, input, true)

/-- The second load is left out when the first fails. -/
def andThen (first second : Loader ε σ) : Loader ε σ := fun s input =>
  match first s input with
  | .error e => .error e
  | .ok (t, rest, true) => second t rest
  | .ok (t, rest, false) => .ok (t, rest, false)

/-- A load that depends on what was loaded before. -/
def among (load : σ → Loader ε σ) : Loader ε σ := fun s => load s s

def all : List (Loader ε σ) → Loader ε σ
  | [] => step id
  | load :: loads => load.andThen (all loads)

/-- A load of a part of the state. -/
def on (get : σ → τ) (put : σ → τ → σ) (load : Loader ε τ) : Loader ε σ := fun s input =>
  match load (get s) input with
  | .error e => .error e
  | .ok (t, rest, loaded) => .ok (put s t, rest, loaded)

/-- A load with a step before it, and with one after it however the load ended. -/
def around (before after : σ → Except ε σ) (load : Loader ε σ) : Loader ε σ := fun s input =>
  match before s with
  | .error e => .error e
  | .ok r =>
    match load r input with
    | .error e => .error e
    | .ok (u, rest, loaded) =>
      match after u with
      | .error e => .error e
      | .ok t => .ok (t, rest, loaded)

/-! ## Loads of what was saved -/

/-- The load takes exactly these bytes, and leads from `s` to `t`. -/
def Reads (load : Loader ε σ) (s : σ) (bytes : List UInt8) (t : σ) : Prop :=
  ∀ rest, load s (bytes ++ rest) = .ok (t, rest, true)

section Reads
variable {load first second : Loader ε σ} {s t r : σ} {bytes more : List UInt8}

theorem reads_field {n : ℕ} {apply : List UInt8 → σ → Except ε σ} (hn : bytes.length = n)
    (h : apply bytes s = .ok t) : Reads (field n apply) s bytes t := by
  intro rest
  subst hn
  simp only [field, loadState_append, h]

theorem reads_read {n : ℕ} {next : List UInt8 → Loader ε σ} (hn : bytes.length = n)
    (h : Reads (next bytes) s more t) : Reads (read n next) s (bytes ++ more) t := by
  intro rest
  subst hn
  rw [List.append_assoc]
  simp only [read, loadState_append]
  exact h rest

theorem reads_effect {f : σ → Except ε σ} (h : f s = .ok t) : Reads (effect f) s [] t := by
  intro rest
  simp only [effect, h, List.nil_append]

theorem reads_step (f : σ → σ) : Reads ((step f : Loader ε σ)) s [] (f s) := fun _ => rfl

theorem Reads.andThen (h : Reads first s bytes r) (h' : Reads second r more t) :
    Reads (first.andThen second) s (bytes ++ more) t := by
  intro rest
  rw [List.append_assoc]
  simp only [Loader.andThen, h (more ++ rest)]
  exact h' rest

theorem Reads.among {load : σ → Loader ε σ} (h : Reads (load s) s bytes t) :
    Reads (among load) s bytes t := h

theorem Reads.on {get : σ → τ} {put : σ → τ → σ} {load : Loader ε τ} {x : τ}
    (h : Reads load (get s) bytes x) : Reads (on get put load) s bytes (put s x) := by
  intro rest
  simp only [Loader.on, h rest]

theorem Reads.around {before after : σ → Except ε σ} {u : σ} (h : before s = .ok r)
    (hload : Reads load r bytes u) (h' : after u = .ok t) :
    Reads (around before after load) s bytes t := by
  intro rest
  simp only [Loader.around, h, hload rest, h']

theorem reads_all_nil : Reads (all ([] : List (Loader ε σ))) s [] s := reads_step id

theorem Reads.all_cons {loads : List (Loader ε σ)} (h : Reads load s bytes r)
    (h' : Reads (all loads) r more t) : Reads (all (load :: loads)) s (bytes ++ more) t :=
  h.andThen h'

/-- A loop of loads reads back what a loop of saves wrote, when every pass does. -/
theorem reads_all_map {ι : Type*} {load : ι → Loader ε σ} {bytes : ι → List UInt8} (is : List ι)
    (h : ∀ i ∈ is, ∀ s, ∃ t, Reads (load i) s (bytes i) t) (s : σ) :
    ∃ t, Reads (all (is.map load)) s (is.flatMap bytes) t := by
  induction is generalizing s with
  | nil => exact ⟨s, reads_all_nil⟩
  | cons i is ih =>
    obtain ⟨r, hr⟩ := h i (List.mem_cons_self ..) s
    obtain ⟨t, ht⟩ := ih (fun j hj => h j (List.mem_cons_of_mem _ hj)) r
    exact ⟨t, hr.all_cons ht⟩

end Reads

/-- The load goes wrong on what begins with these bytes. -/
def Stops (load : Loader ε σ) (s : σ) (bytes : List UInt8) (e : ε) : Prop :=
  ∀ rest, load s (bytes ++ rest) = .error e

section Stops
variable {load first second : Loader ε σ} {s r : σ} {bytes more : List UInt8} {e : ε}

theorem stops_read {n : ℕ} {next : List UInt8 → Loader ε σ} (hn : bytes.length = n)
    (h : Stops (next bytes) s more e) : Stops (read n next) s (bytes ++ more) e := by
  intro rest
  subst hn
  rw [List.append_assoc]
  simp only [read, loadState_append]
  exact h rest

theorem stops_effect {f : σ → Except ε σ} (h : f s = .error e) : Stops (effect f) s bytes e := by
  intro rest
  simp only [effect, h]

theorem Stops.andThen (h : Stops first s bytes e) : Stops (first.andThen second) s bytes e := by
  intro rest
  simp only [Loader.andThen, h rest]

theorem Reads.stops (h : Reads first s bytes r) (h' : Stops second r more e) :
    Stops (first.andThen second) s (bytes ++ more) e := by
  intro rest
  rw [List.append_assoc]
  simp only [Loader.andThen, h (more ++ rest)]
  exact h' rest

end Stops

/-! ## Loads of any file -/

/-- The load has taken `n` bytes of `input`, or there were fewer. -/
def Taken (n : ℕ) (input rest : List UInt8) (loaded : Bool) : Prop :=
  (loaded = true ∧ n ≤ input.length ∧ rest = input.drop n) ∨ (loaded = false ∧ input.length < n)

/-- Whenever the load returns, it has taken as many bytes as `n` says. -/
def Takes (load : Loader ε σ) (n : List UInt8 → ℕ) : Prop :=
  ∀ s input t rest loaded, load s input = .ok (t, rest, loaded) → Taken (n input) input rest loaded

/-- Whatever happens, the load leaves a part of the state as it was. -/
def Keeps {α : Type*} (part : σ → α) (load : Loader ε σ) : Prop :=
  ∀ s input t rest loaded, load s input = .ok (t, rest, loaded) → part t = part s

section Takes
variable {load first second : Loader ε σ} {m n : List UInt8 → ℕ} {α : Type*} {part : σ → α}

theorem field_cases {n : ℕ} {apply : List UInt8 → σ → Except ε σ} {s t : σ}
    {input rest : List UInt8}
    {loaded : Bool} (h : field n apply s input = .ok (t, rest, loaded)) :
    (loaded = true ∧ n ≤ input.length ∧ rest = input.drop n ∧ apply (input.take n) s = .ok t) ∨
      (loaded = false ∧ input.length < n ∧ rest = input ∧ t = s) := by
  unfold field loadState at h
  by_cases hn : n ≤ input.length
  · rw [if_pos hn] at h
    cases ha : apply (input.take n) s with
    | error e => simp [ha] at h
    | ok r =>
      simp only [ha, Except.ok.injEq, Prod.mk.injEq] at h
      obtain ⟨rfl, rfl, rfl⟩ := h
      exact .inl ⟨rfl, hn, rfl, rfl⟩
  · rw [if_neg hn] at h
    simp only [Except.ok.injEq, Prod.mk.injEq] at h
    obtain ⟨rfl, rfl, rfl⟩ := h
    exact .inr ⟨rfl, by omega, rfl, rfl⟩

theorem andThen_cases {s t : σ} {input rest : List UInt8} {loaded : Bool}
    (h : first.andThen second s input = .ok (t, rest, loaded)) :
    (∃ r left, first s input = .ok (r, left, true) ∧ second r left = .ok (t, rest, loaded)) ∨
      (loaded = false ∧ first s input = .ok (t, rest, false)) := by
  unfold Loader.andThen at h
  cases hf : first s input with
  | error e => simp [hf] at h
  | ok x =>
    obtain ⟨r, left, got⟩ := x
    cases got with
    | true => exact .inl ⟨r, left, rfl, by simpa [hf] using h⟩
    | false =>
      simp only [hf, Except.ok.injEq, Prod.mk.injEq] at h
      obtain ⟨rfl, rfl, rfl⟩ := h
      exact .inr ⟨rfl, rfl⟩

theorem andThen_true {s r : σ} {input left : List UInt8} (h : first s input = .ok (r, left, true)) :
    first.andThen second s input = second r left := by
  simp only [Loader.andThen, h]

theorem andThen_false {s r : σ} {input left : List UInt8}
    (h : first s input = .ok (r, left, false)) :
    first.andThen second s input = .ok (r, left, false) := by
  simp only [Loader.andThen, h]

theorem on_cases {get : σ → τ} {put : σ → τ → σ} {load : Loader ε τ} {s t : σ}
    {input rest : List UInt8} {loaded : Bool}
    (h : on get put load s input = .ok (t, rest, loaded)) :
    ∃ x, load (get s) input = .ok (x, rest, loaded) ∧ t = put s x := by
  unfold Loader.on at h
  cases hl : load (get s) input with
  | error e => simp [hl] at h
  | ok x =>
    obtain ⟨x, left, got⟩ := x
    simp only [hl, Except.ok.injEq, Prod.mk.injEq] at h
    obtain ⟨rfl, rfl, rfl⟩ := h
    exact ⟨x, rfl, rfl⟩

theorem around_cases {before after : σ → Except ε σ} {s t : σ} {input rest : List UInt8}
    {loaded : Bool} (h : around before after load s input = .ok (t, rest, loaded)) :
    ∃ r u, before s = .ok r ∧ load r input = .ok (u, rest, loaded) ∧ after u = .ok t := by
  unfold Loader.around at h
  cases hbefore : before s with
  | error e => simp [hbefore] at h
  | ok r =>
    cases hload : load r input with
    | error e => simp [hbefore, hload] at h
    | ok x =>
      obtain ⟨u, left, got⟩ := x
      cases hafter : after u with
      | error e => simp [hbefore, hload, hafter] at h
      | ok q =>
        simp only [hbefore, hload, hafter, Except.ok.injEq, Prod.mk.injEq] at h
        obtain ⟨rfl, rfl, rfl⟩ := h
        exact ⟨r, u, rfl, hload, hafter⟩

theorem read_cases {n : ℕ} {next : List UInt8 → Loader ε σ} {s t : σ} {input rest : List UInt8}
    {loaded : Bool} (h : read n next s input = .ok (t, rest, loaded)) :
    (n ≤ input.length ∧ next (input.take n) s (input.drop n) = .ok (t, rest, loaded)) ∨
      (loaded = false ∧ input.length < n ∧ rest = input ∧ t = s) := by
  unfold read loadState at h
  by_cases hn : n ≤ input.length
  · rw [if_pos hn] at h
    exact .inl ⟨hn, h⟩
  · rw [if_neg hn] at h
    simp only [Except.ok.injEq, Prod.mk.injEq] at h
    obtain ⟨rfl, rfl, rfl⟩ := h
    exact .inr ⟨rfl, by omega, rfl, rfl⟩

theorem effect_cases {f : σ → Except ε σ} {s t : σ} {input rest : List UInt8} {loaded : Bool}
    (h : effect f s input = .ok (t, rest, loaded)) :
      f s = .ok t ∧ rest = input ∧ loaded = true := by
  unfold effect at h
  cases hf : f s with
  | error e => simp [hf] at h
  | ok r =>
    simp only [hf, Except.ok.injEq, Prod.mk.injEq] at h
    obtain ⟨rfl, rfl, rfl⟩ := h
    exact ⟨rfl, rfl, rfl⟩

theorem takes_field (n : ℕ) (apply : List UInt8 → σ → Except ε σ) :
    Takes (field n apply) fun _ => n := by
  intro s input t rest loaded h
  obtain ⟨hl, hn, hr, -⟩ | ⟨hl, hn, -, -⟩ := field_cases h
  · exact .inl ⟨hl, hn, hr⟩
  · exact .inr ⟨hl, hn⟩

theorem takes_step (f : σ → σ) : Takes (step f : Loader ε σ) fun _ => 0 := by
  intro s input t rest loaded h
  simp only [step, Except.ok.injEq, Prod.mk.injEq] at h
  obtain ⟨-, rfl, rfl⟩ := h
  exact .inl ⟨rfl, Nat.zero_le _, rfl⟩

theorem Taken.add {i j : ℕ} {input left rest : List UInt8} {loaded : Bool}
    (h : Taken i input left true) (h' : Taken j left rest loaded) :
    Taken (i + j) input rest loaded := by
  obtain ⟨-, hi, rfl⟩ | ⟨hb, -⟩ := h
  · obtain ⟨hb, hj, rfl⟩ | ⟨hb, hj⟩ := h'
    · rw [List.length_drop] at hj
      exact .inl ⟨hb, by omega, List.drop_drop⟩
    · rw [List.length_drop] at hj
      exact .inr ⟨hb, by omega⟩
  · cases hb

theorem Taken.short {i j : ℕ} {input rest : List UInt8} (h : Taken i input rest false)
    (hij : i ≤ j) : Taken j input rest false := by
  obtain ⟨hb, -⟩ | ⟨-, hi⟩ := h
  · cases hb
  · exact .inr ⟨rfl, by omega⟩

theorem Taken.rest_eq {i : ℕ} {input rest : List UInt8} (h : Taken i input rest true) :
    rest = input.drop i := by
  obtain ⟨-, -, hr⟩ | ⟨hb, -⟩ := h
  · exact hr
  · cases hb

theorem Takes.andThen (h : Takes first m) (h' : Takes second n) :
    Takes (first.andThen second) fun input => m input + n (input.drop (m input)) := by
  intro s input t rest loaded hl
  obtain ⟨r, left, hf, hs⟩ | ⟨rfl, hf⟩ := andThen_cases hl
  · have hm := h s input r left true hf
    have hn := h' r left t rest loaded hs
    obtain rfl := hm.rest_eq
    exact hm.add hn
  · exact (h s input t rest false hf).short (Nat.le_add_right _ _)

theorem Takes.on {get : σ → τ} {put : σ → τ → σ} {load : Loader ε τ} (h : Takes load n) :
    Takes (on get put load) n := by
  intro s input t rest loaded hl
  obtain ⟨x, hx, -⟩ := on_cases hl
  exact h (get s) input x rest loaded hx

theorem takes_all_map {ι : Type*} {load : ι → Loader ε σ} {n : ℕ} (is : List ι)
    (h : ∀ i, Takes (load i) fun _ => n) :
    Takes (all (is.map load)) fun _ => is.length * n := by
  induction is with
  | nil =>
    simp only [List.length_nil, Nat.zero_mul]
    exact takes_step id
  | cons i is ih =>
    have hsum : (i :: is).length * n = n + is.length * n := by
      rw [List.length_cons, Nat.succ_mul, Nat.add_comm]
    rw [hsum]
    exact (h i).andThen ih

theorem keeps_field {n : ℕ} {apply : List UInt8 → σ → Except ε σ}
    (h : ∀ bytes s t, apply bytes s = .ok t → part t = part s) : Keeps part (field n apply) := by
  intro s input t rest loaded hl
  obtain ⟨-, -, -, ha⟩ | ⟨-, -, -, rfl⟩ := field_cases hl
  · exact h _ s t ha
  · rfl

theorem keeps_read {n : ℕ} {next : List UInt8 → Loader ε σ}
    (h : ∀ bytes, Keeps part (next bytes)) : Keeps part (read n next) := by
  intro s input t rest loaded hl
  obtain ⟨-, hnext⟩ | ⟨-, -, -, rfl⟩ := read_cases hl
  · exact h _ s _ t rest loaded hnext
  · rfl

theorem keeps_effect {f : σ → Except ε σ} (h : ∀ s t, f s = .ok t → part t = part s) :
    Keeps part (effect f) := by
  intro s input t rest loaded hl
  exact h s t (effect_cases hl).1

theorem keeps_step {f : σ → σ} (h : ∀ s, part (f s) = part s) :
    Keeps part ((step f : Loader ε σ)) := by
  intro s input t rest loaded hl
  simp only [step, Except.ok.injEq, Prod.mk.injEq] at hl
  rw [← hl.1]
  exact h s

theorem Keeps.andThen (h : Keeps part first) (h' : Keeps part second) :
    Keeps part (first.andThen second) := by
  intro s input t rest loaded hl
  obtain ⟨r, left, hf, hs⟩ | ⟨-, hf⟩ := andThen_cases hl
  · rw [h' r left t rest loaded hs]
    exact h s input r left true hf
  · exact h s input t rest false hf

theorem Keeps.on {get : σ → τ} {put : σ → τ → σ} {load : Loader ε τ}
    (h : ∀ s x, part (put s x) = part s) : Keeps part (on get put load) := by
  intro s input t rest loaded hl
  obtain ⟨x, -, rfl⟩ := on_cases hl
  exact h s x

theorem keeps_all {loads : List (Loader ε σ)} (h : ∀ load ∈ loads, Keeps part load) :
    Keeps part (all loads) := by
  induction loads with
  | nil => exact keeps_step fun _ => rfl
  | cons load loads ih =>
    exact (h load (List.mem_cons_self ..)).andThen
      (ih fun l hl => h l (List.mem_cons_of_mem _ hl))

end Takes

/-! ## The files a load accepts -/

/-- What the load takes when it succeeds is a word of `L`. -/
def Accepts (load : Loader ε σ) (L : List UInt8 → Prop) : Prop :=
  ∀ s input t rest, load s input = .ok (t, rest, true) → ∃ bytes, L bytes ∧ input = bytes ++ rest

/-- A word of `L` and then one of `M`. -/
def Then (L M : List UInt8 → Prop) (bytes : List UInt8) : Prop :=
  ∃ x y, L x ∧ M y ∧ bytes = x ++ y

section Accepts
variable {load first second : Loader ε σ} {L M : List UInt8 → Prop}

theorem accepts_field (n : ℕ) (apply : List UInt8 → σ → Except ε σ) :
    Accepts (field n apply) (·.length = n) := by
  intro s input t rest h
  obtain ⟨-, hn, hrest, -⟩ | ⟨hb, -⟩ := field_cases h
  · refine ⟨input.take n, List.length_take_of_le hn, ?_⟩
    rw [hrest, List.take_append_drop]
  · cases hb

theorem accepts_read {n : ℕ} {next : List UInt8 → Loader ε σ} {L : List UInt8 → List UInt8 → Prop}
    (h : ∀ bytes, Accepts (next bytes) (L bytes)) :
    Accepts (read n next) fun bytes => ∃ x y, x.length = n ∧ L x y ∧ bytes = x ++ y := by
  intro s input t rest hl
  obtain ⟨hn, hnext⟩ | ⟨hb, -⟩ := read_cases hl
  · obtain ⟨y, hy, hdrop⟩ := h _ s _ t rest hnext
    refine ⟨input.take n ++ y, ⟨_, y, List.length_take_of_le hn, hy, rfl⟩, ?_⟩
    rw [List.append_assoc, ← hdrop, List.take_append_drop]
  · cases hb

theorem accepts_effect (f : σ → Except ε σ) : Accepts (effect f) (· = []) := by
  intro s input t rest h
  exact ⟨[], rfl, (effect_cases h).2.1.symm⟩

theorem accepts_step (f : σ → σ) : Accepts (step f : Loader ε σ) (· = []) := by
  intro s input t rest h
  cases h
  exact ⟨[], rfl, rfl⟩

theorem Accepts.andThen (h : Accepts first L) (h' : Accepts second M) :
    Accepts (first.andThen second) (Then L M) := by
  intro s input t rest hl
  obtain ⟨r, left, hfirst, hsecond⟩ | ⟨hb, -⟩ := andThen_cases hl
  · obtain ⟨x, hx, rfl⟩ := h s input r left hfirst
    obtain ⟨y, hy, rfl⟩ := h' r left t rest hsecond
    exact ⟨x ++ y, ⟨x, y, hx, hy, rfl⟩, (List.append_assoc x y rest).symm⟩
  · cases hb

theorem Accepts.mono (h : Accepts load L) (hLM : ∀ bytes, L bytes → M bytes) :
    Accepts load M := by
  intro s input t rest hl
  obtain ⟨bytes, hb, heq⟩ := h s input t rest hl
  exact ⟨bytes, hLM bytes hb, heq⟩

end Accepts

/-! ## Invariants of a load -/

/-- The load leads from states with `I` to states with `I`, however far it gets. -/
def Preserves (I : σ → Prop) (load : Loader ε σ) : Prop :=
  ∀ s input t rest loaded, I s → load s input = .ok (t, rest, loaded) → I t

section Preserves
variable {I : σ → Prop} {load first second : Loader ε σ}

theorem preserves_field {n : ℕ} {apply : List UInt8 → σ → Except ε σ}
    (h : ∀ bytes s t, I s → apply bytes s = .ok t → I t) : Preserves I (field n apply) := by
  intro s input t rest loaded hs hl
  obtain ⟨-, -, -, ha⟩ | ⟨-, -, -, rfl⟩ := field_cases hl
  · exact h _ s t hs ha
  · exact hs

theorem preserves_read {n : ℕ} {next : List UInt8 → Loader ε σ}
    (h : ∀ bytes, Preserves I (next bytes)) : Preserves I (read n next) := by
  intro s input t rest loaded hs hl
  obtain ⟨-, hnext⟩ | ⟨-, -, -, rfl⟩ := read_cases hl
  · exact h _ s _ t rest loaded hs hnext
  · exact hs

theorem preserves_effect {f : σ → Except ε σ} (h : ∀ s t, I s → f s = .ok t → I t) :
    Preserves I (effect f) := by
  intro s input t rest loaded hs hl
  exact h s t hs (effect_cases hl).1

theorem preserves_step {f : σ → σ} (h : ∀ s, I s → I (f s)) :
    Preserves I (step f : Loader ε σ) := by
  intro s input t rest loaded hs hl
  simp only [step, Except.ok.injEq, Prod.mk.injEq] at hl
  rw [← hl.1]
  exact h s hs

theorem Preserves.andThen (h : Preserves I first) (h' : Preserves I second) :
    Preserves I (first.andThen second) := by
  intro s input t rest loaded hs hl
  obtain ⟨r, left, hf, hsec⟩ | ⟨-, hf⟩ := andThen_cases hl
  · exact h' r left t rest loaded (h s input r left true hs hf) hsec
  · exact h s input t rest false hs hf

theorem Preserves.on {get : σ → τ} {put : σ → τ → σ} {load : Loader ε τ}
    (h : ∀ s input x rest loaded, I s → load (get s) input = .ok (x, rest, loaded) → I (put s x)) :
    Preserves I (on get put load) := by
  intro s input t rest loaded hs hl
  obtain ⟨x, hx, rfl⟩ := on_cases hl
  exact h s input x rest loaded hs hx

theorem preserves_all {loads : List (Loader ε σ)} (h : ∀ load ∈ loads, Preserves I load) :
    Preserves I (all loads) := by
  induction loads with
  | nil => exact preserves_step fun _ hs => hs
  | cons load loads ih =>
    exact (h load (List.mem_cons_self ..)).andThen
      (ih fun l hl => h l (List.mem_cons_of_mem _ hl))

end Preserves

/-! ## Loads that nothing makes go wrong -/

/-- From states with `I` the load returns, whatever the file is, to a state with `I`. -/
def Returns (I : σ → Prop) (load : Loader ε σ) : Prop :=
  ∀ s input, I s → ∃ t rest loaded, load s input = .ok (t, rest, loaded) ∧ I t

section Returns
variable {I : σ → Prop} {load first second : Loader ε σ}

theorem returns_field {n : ℕ} {apply : List UInt8 → σ → Except ε σ}
    (h : ∀ bytes s, I s → ∃ t, apply bytes s = .ok t ∧ I t) : Returns I (field n apply) := by
  intro s input hs
  unfold field
  cases loadState input n with
  | none => exact ⟨s, input, false, rfl, hs⟩
  | some x =>
    obtain ⟨t, ht, hI⟩ := h x.1 s hs
    refine ⟨t, x.2, true, ?_, hI⟩
    simp only [ht]

theorem returns_read {n : ℕ} {next : List UInt8 → Loader ε σ}
    (h : ∀ bytes, Returns I (next bytes)) :
    Returns I (read n next) := by
  intro s input hs
  unfold read
  cases loadState input n with
  | none => exact ⟨s, input, false, rfl, hs⟩
  | some x => exact h x.1 s x.2 hs

theorem returns_step {f : σ → σ} (h : ∀ s, I s → I (f s)) :
    Returns I (step f : Loader ε σ) :=
  fun s input hs => ⟨f s, input, true, rfl, h s hs⟩

theorem Returns.andThen (h : Returns I first) (h' : Returns I second) :
    Returns I (first.andThen second) := by
  intro s input hs
  obtain ⟨r, left, got, hf, hr⟩ := h s input hs
  cases got with
  | true =>
    obtain ⟨t, rest, loaded, hsec, ht⟩ := h' r left hr
    refine ⟨t, rest, loaded, ?_, ht⟩
    simp only [Loader.andThen, hf]
    exact hsec
  | false =>
    refine ⟨r, left, false, ?_, hr⟩
    simp only [Loader.andThen, hf]

theorem returns_all {loads : List (Loader ε σ)} (h : ∀ load ∈ loads, Returns I load) :
    Returns I (all loads) := by
  induction loads with
  | nil => exact returns_step fun _ hs => hs
  | cons load loads ih =>
    exact (h load (List.mem_cons_self ..)).andThen
      (ih fun l hl => h l (List.mem_cons_of_mem _ hl))

end Returns

end Loader

end Apple2ix
