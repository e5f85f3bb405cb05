import Apple2ix.Misc.Loader

/-! Loads that know where their part of a file ends: what they take does not depend on what follows,
and they succeed on no file that ends before it. -/
namespace Apple2ix.Loader
set_option autoImplicit false

universe u v w
variable {ε ε' : Type u} {σ : Type v} {τ : Type w}

/-- A load whose errors are among others. -/
def withErrors (f : ε → ε') (load : Loader ε σ) : Loader ε' σ := fun s input =>
  match load s input with
  | .error e => .error (f e)
  | .ok x => .ok x

/-- The load takes these bytes from every file that begins with them, and succeeds on no file that
ends within them. -/
structure Frames (load : Loader ε σ) (s : σ) (bytes : List UInt8) (t : σ) : Prop where
  reads : Reads load s bytes t
  cut : ∀ start missing, bytes = start ++ missing → missing ≠ [] →
    ∀ r rest, load s start ≠ .ok (r, rest, true)

/-- Whatever the load succeeds on begins with a frame of it. -/
def Framed (load : Loader ε σ) : Prop :=
  ∀ s input t rest, load s input = .ok (t, rest, true) →
    ∃ bytes, input = bytes ++ rest ∧ Frames load s bytes t

section
variable {load first second : Loader ε σ} {s r t : σ} {bytes more : List UInt8}

/-- What a load makes of the whole of a file is what it makes of the file and anything after it. -/
theorem Framed.frames (h : Framed load) (hload : load s bytes = .ok (t, [], true)) :
    Frames load s bytes t := by
  obtain ⟨taken, htaken, hframes⟩ := h s bytes t [] hload
  rw [List.append_nil] at htaken
  rw [htaken]
  exact hframes

theorem Framed.frames_of_reads (h : Framed load) (hreads : Reads load s bytes t) :
    Frames load s bytes t := by
  have hempty := hreads []
  rw [List.append_nil] at hempty
  exact h.frames hempty

/-- A file that ends within `x ++ y` ends within `y`, or within `x`. -/
theorem ends_within {x y start missing : List UInt8} (h : x ++ y = start ++ missing) :
    (∃ mid, start = x ++ mid ∧ y = mid ++ missing) ∨ ∃ mid, mid ≠ [] ∧ x = start ++ mid := by
  obtain ⟨mid, hstart, hy⟩ | ⟨mid, hx, hmissing⟩ := List.append_eq_append_iff.mp h
  · exact .inl ⟨mid, hstart, hy⟩
  · by_cases hmid : mid = []
    · subst hmid
      rw [List.append_nil] at hx
      exact .inl ⟨[], by rw [hx, List.append_nil], hmissing.symm⟩
    · exact .inr ⟨mid, hmid, hx⟩

theorem Frames.andThen (h : Frames first s bytes r) (h' : Frames second r more t) :
    Frames (first.andThen second) s (bytes ++ more) t := by
  refine ⟨h.reads.andThen h'.reads, fun start missing hcut hmissing q rest hload => ?_⟩
  obtain ⟨q', rest', hfirst, hsecond⟩ | ⟨hfalse, -⟩ := andThen_cases hload
  · obtain ⟨mid, hstart, hmore⟩ | ⟨mid, hmid, hbytes⟩ := ends_within hcut
    · rw [hstart, h.reads mid, Except.ok.injEq, Prod.mk.injEq, Prod.mk.injEq] at hfirst
      obtain ⟨rfl, rfl, -⟩ := hfirst
      exact h'.cut mid missing hmore hmissing q rest hsecond
    · exact h.cut start mid hbytes hmid q' rest' hfirst
  · cases hfalse

theorem frames_nil (h : Reads load s [] t) : Frames load s [] t := by
  refine ⟨h, fun start missing hcut hmissing => ?_⟩
  exact absurd (List.append_eq_nil_iff.mp hcut.symm).2 hmissing

theorem framed_field (n : ℕ) (apply : List UInt8 → σ → Except ε σ) : Framed (field n apply) := by
  intro s input t rest h
  obtain ⟨-, hn, hrest, happly⟩ | ⟨hfalse, -⟩ := field_cases h
  · have hlength : (input.take n).length = n := List.length_take_of_le hn
    refine ⟨input.take n, ?_, reads_field hlength happly, ?_⟩
    · rw [hrest, List.take_append_drop]
    · intro start missing hcut hmissing r rest' hload
      obtain ⟨-, hstart, -⟩ | ⟨hfalse, -⟩ := field_cases hload
      · have hpos := List.length_pos_of_ne_nil hmissing
        rw [hcut, List.length_append] at hlength
        omega
      · cases hfalse
  · cases hfalse

theorem framed_read {n : ℕ} {next : List UInt8 → Loader ε σ} (h : ∀ bytes, Framed (next bytes)) :
    Framed (read n next) := by
  intro s input t rest hload
  obtain ⟨hn, hnext⟩ | ⟨hfalse, -⟩ := read_cases hload
  · have hlength : (input.take n).length = n := List.length_take_of_le hn
    obtain ⟨bytes, hdrop, hframes⟩ := h _ s _ t rest hnext
    refine ⟨input.take n ++ bytes, ?_, reads_read hlength hframes.reads, ?_⟩
    · rw [List.append_assoc, ← hdrop, List.take_append_drop]
    · intro start missing hcut hmissing r rest' hload'
      obtain ⟨hstart, hnext'⟩ | ⟨hfalse, -⟩ := read_cases hload'
      · obtain ⟨mid, rfl, hbytes⟩ | ⟨mid, hmid, htake⟩ := ends_within hcut
        · rw [List.take_left' hlength, List.drop_left' hlength] at hnext'
          exact hframes.cut mid missing hbytes hmissing r rest' hnext'
        · have hpos := List.length_pos_of_ne_nil hmid
          rw [htake, List.length_append] at hlength
          omega
      · cases hfalse
  · cases hfalse

theorem framed_effect (f : σ → Except ε σ) : Framed (effect f) := by
  intro s input t rest h
  obtain ⟨hf, rfl, -⟩ := effect_cases h
  exact ⟨[], rfl, frames_nil (reads_effect hf)⟩

theorem framed_step (f : σ → σ) : Framed (step f : Loader ε σ) := by
  intro s input t rest h
  cases h
  exact ⟨[], rfl, frames_nil (reads_step f)⟩

theorem Framed.andThen (h : Framed first) (h' : Framed second) : Framed (first.andThen second) := by
  intro s input t rest hload
  obtain ⟨r, left, hfirst, hsecond⟩ | ⟨hfalse, -⟩ := andThen_cases hload
  · obtain ⟨bytes, rfl, hframes⟩ := h s input r left hfirst
    obtain ⟨more, rfl, hframes'⟩ := h' r left t rest hsecond
    exact ⟨bytes ++ more, (List.append_assoc bytes more rest).symm, hframes.andThen hframes'⟩
  · cases hfalse

theorem framed_among {load : σ → Loader ε σ} (h : ∀ s, Framed (load s)) : Framed (among load) := by
  intro s input t rest hload
  obtain ⟨bytes, hinput, hreads, hcut⟩ := h s s input t rest hload
  exact ⟨bytes, hinput, hreads, hcut⟩

theorem framed_all {loads : List (Loader ε σ)} (h : ∀ load ∈ loads, Framed load) :
    Framed (all loads) := by
  induction loads with
  | nil => exact framed_step id
  | cons load loads ih =>
    have hload : Framed load := h load (List.mem_cons_self ..)
    exact hload.andThen (ih fun l hl => h l (List.mem_cons_of_mem _ hl))

theorem Framed.on {get : σ → τ} {put : σ → τ → σ} {load : Loader ε τ} (h : Framed load) :
    Framed (on get put load) := by
  intro s input t rest hload
  obtain ⟨x, hx, rfl⟩ := on_cases hload
  obtain ⟨bytes, hinput, hreads, hcut⟩ := h (get s) input x rest hx
  refine ⟨bytes, hinput, hreads.on, fun start missing hbytes hmissing r rest' hload' => ?_⟩
  obtain ⟨y, hy, -⟩ := on_cases hload'
  exact hcut start missing hbytes hmissing y rest' hy

theorem Framed.around {before after : σ → Except ε σ} (h : Framed load) :
    Framed (around before after load) := by
  intro s input t rest hload
  obtain ⟨r, u, hbefore, hinner, hafter⟩ := around_cases hload
  obtain ⟨bytes, hinput, hreads, hcut⟩ := h r input u rest hinner
  refine ⟨bytes, hinput, Reads.around hbefore hreads hafter, ?_⟩
  intro start missing hbytes hmissing q rest' hload'
  obtain ⟨r', u', hbefore', hinner', -⟩ := around_cases hload'
  rw [hbefore, Except.ok.injEq] at hbefore'
  subst hbefore'
  exact hcut start missing hbytes hmissing u' rest' hinner'

theorem withErrors_ok {f : ε → ε'} {input rest : List UInt8} {loaded : Bool} :
    withErrors f load s input = .ok (t, rest, loaded) ↔ load s input = .ok (t, rest, loaded) := by
  unfold withErrors
  cases load s input with
  | error e => exact ⟨fun h => (by cases h), fun h => (by cases h)⟩
  | ok x => exact ⟨fun h => congrArg _ (Except.ok.inj h), fun h => congrArg _ (Except.ok.inj h)⟩

theorem Reads.withErrors (h : Reads load s bytes t) (f : ε → ε') :
    Reads (withErrors f load) s bytes t := fun rest => withErrors_ok.mpr (h rest)

theorem Framed.withErrors (h : Framed load) (f : ε → ε') : Framed (withErrors f load) := by
  intro s input t rest hload
  obtain ⟨bytes, hinput, hreads, hcut⟩ := h s input t rest (withErrors_ok.mp hload)
  refine ⟨bytes, hinput, hreads.withErrors f, fun start missing hbytes hmissing r rest' hload' =>
    ?_⟩
  exact hcut start missing hbytes hmissing r rest' (withErrors_ok.mp hload')

end

end Apple2ix.Loader
