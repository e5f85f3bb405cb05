import Mathlib.Data.List.Basic

/-! The save-state file as the modules see it: `helper->save` and `helper->load` of misc.c. -/
namespace Apple2ix
set_option autoImplicit false

/-- An open save-state file. `host file bytes` is the number of bytes the host takes of a call
that writes `bytes` at the end of `file`; it is smaller than their number when `write` fails. -/
structure StateHelper where
  file : List UInt8
  host : List UInt8 → List UInt8 → ℕ

/-- `_save_state`: the file afterwards, and whether all bytes were written. -/
def StateHelper.save (helper : StateHelper) (bytes : List UInt8) : StateHelper × Bool :=
  let outlen := helper.host helper.file bytes
  ({ helper with file := helper.file ++ bytes.take outlen }, bytes.length ≤ outlen)

/-- The disk is never full. -/
def StateHelper.TakesAll (helper : StateHelper) : Prop :=
  ∀ file bytes, bytes.length ≤ helper.host file bytes

/-- Consecutive calls of `helper->save`, up to the first that fails. -/
def StateHelper.saveAll (helper : StateHelper) : List (List UInt8) → StateHelper × Bool
  | [] => (helper, true)
  | bytes :: rest =>
    let saved := helper.save bytes
    if saved.2 then saved.1.saveAll rest else (saved.1, false)

/-- Consecutive calls of `helper->save`, where working out what to save may already go wrong. -/
def StateHelper.saveEach {ε : Type*} (helper : StateHelper) :
    List (Except ε (List UInt8)) → Except ε (StateHelper × Bool)
  | [] => .ok (helper, true)
  | .error e :: _ => .error e
  | .ok bytes :: rest =>
    let saved := helper.save bytes
    if saved.2 then saved.1.saveEach rest else .ok (saved.1, false)

/-- `_load_state` of `n` bytes at the file position: the bytes and the rest of the file. A
truncated file is refused before anything is read. -/
def loadState (input : List UInt8) (n : ℕ) : Option (List UInt8 × List UInt8) :=
  if n ≤ input.length then some (input.take n, input.drop n) else none

/-- `SAVE_MAGICK`, with the NUL of the literal. -/
def saveMagick : List UInt8 := [0x41, 0x32, 0x56, 0x4D, 0]

/-- `SAVE_MAGICK2`. -/
def saveMagick2 : List UInt8 := [0x41, 0x32, 0x56, 0x32, 0]

/-- `_load_magick`: the version, if the header is a known one, and the rest of the file. -/
def loadMagick (input : List UInt8) : Option (ℕ × List UInt8) :=
  match loadState input saveMagick.length with
  | none => none
  | some (magick, rest) =>
    if magick = saveMagick2 then some (2, rest)
    else if magick = saveMagick then some (1, rest)
    else none

theorem loadState_append (bytes rest : List UInt8) :
    loadState (bytes ++ rest) bytes.length = some (bytes, rest) := by
  simp [loadState]

theorem loadState_eq_some {input bytes rest : List UInt8} {n : ℕ}
    (h : loadState input n = some (bytes, rest)) : bytes.length = n ∧ input = bytes ++ rest := by
  unfold loadState at h
  split_ifs at h with hn
  cases h
  exact ⟨List.length_take_of_le hn, (List.take_append_drop n input).symm⟩

/-- The versions there are, and their headers. -/
def versionMagick : ℕ → List UInt8
  | 1 => saveMagick
  | _ => saveMagick2

theorem loadMagick_append {version : ℕ} (hversion : version = 1 ∨ version = 2)
    (rest : List UInt8) : loadMagick (versionMagick version ++ rest) = some (version, rest) := by
  obtain rfl | rfl := hversion
  · have h : loadState (saveMagick ++ rest) saveMagick.length = _ :=
      loadState_append saveMagick rest
    rw [loadMagick, versionMagick, h]
    rfl
  · have h : loadState (saveMagick2 ++ rest) saveMagick.length = _ :=
      loadState_append saveMagick2 rest
    have hversion : versionMagick 2 = saveMagick2 := rfl
    rw [loadMagick, hversion, h]
    rfl

theorem loadMagick_eq_some {input rest : List UInt8} {version : ℕ}
    (h : loadMagick input = some (version, rest)) :
    (version = 1 ∨ version = 2) ∧ input = versionMagick version ++ rest := by
  unfold loadMagick at h
  split at h
  · cases h
  · next magick left hload =>
    obtain ⟨-, rfl⟩ := loadState_eq_some hload
    split_ifs at h with h2 h1
    · cases h
      exact ⟨.inr rfl, by rw [h2]; rfl⟩
    · cases h
      exact ⟨.inl rfl, by rw [h1]; rfl⟩

theorem StateHelper.save_ok (helper : StateHelper) (bytes : List UInt8)
    (h : (helper.save bytes).2 = true) :
    (helper.save bytes).1.file = helper.file ++ bytes := by
  have hlen : bytes.length ≤ helper.host helper.file bytes := by simpa [save] using h
  simp [save, List.take_of_length_le hlen]

/-- When every call succeeds the file has grown by all the bytes. -/
theorem StateHelper.saveAll_ok (helper : StateHelper) (chunks : List (List UInt8))
    (h : (helper.saveAll chunks).2 = true) :
    (helper.saveAll chunks).1.file = helper.file ++ chunks.flatten := by
  induction chunks generalizing helper with
  | nil => simp [saveAll]
  | cons bytes rest ih =>
    cases hs : (helper.save bytes).2 with
    | true =>
      simp only [saveAll, hs, if_true] at h ⊢
      rw [ih _ h, helper.save_ok bytes hs, List.flatten_cons, List.append_assoc]
    | false => simp [saveAll, hs] at h

/-- The host answers for the file as long as it is open. -/
theorem StateHelper.saveAll_host (helper : StateHelper) (chunks : List (List UInt8)) :
    (helper.saveAll chunks).1.host = helper.host := by
  induction chunks generalizing helper with
  | nil => rfl
  | cons bytes rest ih =>
    rw [saveAll]
    split
    · exact ih (helper.save bytes).1
    · rfl

theorem StateHelper.TakesAll.of_host {helper saved : StateHelper} (h : helper.TakesAll)
    (hhost : saved.host = helper.host) : saved.TakesAll := by
  intro file bytes
  rw [hhost]
  exact h file bytes

theorem StateHelper.saveAll_room (helper : StateHelper) (hhost : helper.TakesAll)
    (chunks : List (List UInt8)) :
    (helper.saveAll chunks).2 = true := by
  induction chunks generalizing helper with
  | nil => rfl
  | cons bytes rest ih =>
    have hs : (helper.save bytes).2 = true := decide_eq_true (hhost _ _)
    simp only [saveAll, hs, if_true]
    exact ih _ hhost

/-- When every call succeeds nothing went wrong before, and the file has grown by all the bytes. -/
theorem StateHelper.saveEach_ok {ε : Type*} {helper saved : StateHelper}
    {calls : List (Except ε (List UInt8))} (h : helper.saveEach calls = .ok (saved, true)) :
    ∃ chunks : List (List UInt8), calls = chunks.map .ok ∧
      saved.file = helper.file ++ chunks.flatten := by
  induction calls generalizing helper with
  | nil =>
    cases h
    exact ⟨[], rfl, by simp⟩
  | cons call calls ih =>
    cases call with
    | error e => cases h
    | ok bytes =>
      cases hs : (helper.save bytes).2 with
      | false => simp [saveEach, hs] at h
      | true =>
        simp only [saveEach, hs, if_true] at h
        obtain ⟨chunks, rfl, hfile⟩ := ih h
        refine ⟨bytes :: chunks, rfl, ?_⟩
        rw [hfile, helper.save_ok bytes hs, List.flatten_cons, List.append_assoc]

/-- A host that takes everything lets every call succeed. -/
theorem StateHelper.saveEach_room {ε : Type*} (helper : StateHelper)
    (hhost : helper.TakesAll) (chunks : List (List UInt8)) :
    ∃ saved, helper.saveEach (chunks.map (.ok : _ → Except ε _)) = .ok (saved, true) := by
  induction chunks generalizing helper with
  | nil => exact ⟨helper, rfl⟩
  | cons bytes rest ih =>
    obtain ⟨saved, hsaved⟩ := ih (helper.save bytes).1 hhost
    refine ⟨saved, ?_⟩
    have hs : (helper.save bytes).2 = true := decide_eq_true (hhost _ _)
    simp only [List.map_cons, saveEach, hs, if_true]
    exact hsaved

end Apple2ix
