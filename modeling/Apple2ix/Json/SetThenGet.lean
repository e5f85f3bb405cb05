import Apple2ix.Json.Nesting

/-! What a string that was set is found as. The text of a string goes into the map as it is, so
that a quote in it ends it: it is found whole unless it goes on with further members of the map. -/
namespace Apple2ix.Json
set_option autoImplicit false

/-- A text that, with a quote behind it, is the end of a string and whole members behind that, the
last of them a string. -/
def Breaks (v : List UInt8) : Prop :=
  ∃ (s : Chars) (after : Blank) (items : Items .object), items ≠ .nil ∧
    v ++ [quote] = s.bytes ++ quote :: (after.bytes ++ items.text [comma])

/-! ## The text of a map behind a quote -/

/-- What may stand behind a value in a map. -/
def EndsValue (text : List UInt8) : Prop :=
  ∃ (b : Blank) (c : UInt8) (rest : List UInt8), text = b.bytes ++ c :: rest ∧
    (c = comma ∨ c = Kind.object.closer)

theorem EndsValue.not_colon {text : List UInt8} (h : EndsValue text) (after : Blank)
    (rest : List UInt8) : text ≠ after.bytes ++ colon :: rest := by
  obtain ⟨b, c, more, rfl, hc⟩ := h
  intro heq
  have hspace : isSpace c = false := by
    rcases hc with rfl | rfl
    · decide
    · decide
  obtain ⟨-, hcolon, -⟩ := blank_unique b.space after.space hspace (by decide) heq
  rw [hcolon] at hc
  exact absurd hc (by decide)

theorem slot_endsValue (slot : Slot) : EndsValue slot.behind := by
  obtain ⟨c, rest, hbehind, hc⟩ := behind_head slot
  exact ⟨slot.after, c, rest, hbehind, hc⟩

/-- Behind the members of an object. -/
theorem shifts_end (ms : List (Item .object)) {last : List UInt8}
    (h : ∀ c ∈ last, isSpace c = true) :
    Shifts (-1) ((Items.ofList ms).text [comma] ++ Kind.object.closer :: last) :=
  (shifts_tree.2 (Items.ofList ms) [comma] (.char (by decide))).append
    ((shifts_closer .object).append (shifts_space h))

theorem slot_shifts (slot : Slot) : Shifts (-1) slot.behind :=
  (shifts_space slot.after.space).append (shifts_end slot.back slot.last.space)

/-- **Where the members of a map can be cut** behind a quote, such that the rest ends a value in
that map: behind a member that is a string. -/
theorem members_cut {ms : List (Item .object)} {last front back : List UInt8}
    (hlast : ∀ c ∈ last, isSpace c = true)
    (h : (Items.ofList ms).text [comma] ++ Kind.object.closer :: last = front ++ quote :: back)
    (hback : Shifts (-1) back) (hends : EndsValue back) :
    ∃ items : Items .object, items ≠ .nil ∧ front ++ [quote] = items.text [comma] := by
  induction ms generalizing front with
  | nil =>
    obtain ⟨_, h, -⟩ := cut_cons (by decide) h
    exact absurd h (cut_blank ⟨last, hlast⟩)
  | cons m ms ih =>
    have hms := shifts_end ms hlast
    have hafter := (shifts_space m.after.space).append hms
    rw [Items.text_cons, Item.text_head] at h
    simp only [List.append_assoc, List.cons_append, List.nil_append] at h
    obtain ⟨front, hmember, rfl⟩ := cut_cons (by decide) h
    rcases cut_append hmember with ⟨back', hkey, rfl⟩ | ⟨front, hvalue, rfl⟩
    · rcases key_cut m.head hkey with hinside | rfl
      · exact absurd (hinside.append ((shifts_tree.1 m.value).append hafter)) hback.not_inside
      · rw [List.append_assoc, List.cons_append] at hends
        exact absurd rfl (hends.not_colon _ _)
    · rcases cut_append hvalue with ⟨back', hcut, rfl⟩ | ⟨front, hmore, rfl⟩
      · rcases tree_cut.1 m.value front back' hcut with hinside | ⟨k, hdeep⟩ | rfl
        · exact absurd (hinside.append hafter) hback.not_inside
        · have := hback.unique (hdeep.append hafter)
          omega
        · refine ⟨Items.ofList [member m.head m.value .none], fun hnil => (by cases hnil), ?_⟩
          rw [Items.text_cons, Item.text_head]
          simp [hcut, Blank.none, Items.ofList, Items.text]
      · rcases cut_append hmore with ⟨_, hblank, -⟩ | ⟨front, hrest, rfl⟩
        · exact absurd hblank (cut_blank _)
        · obtain ⟨items, -, hitems⟩ := ih hrest
          refine ⟨.cons m.lead m.value m.after items, fun hnil => (by cases hnil), ?_⟩
          rw [Items.text, ← hitems]
          simp [Item.head, Lead.text]

/-! ## A string that is set -/

section
variable {o : MapText} {js key v : CString} {slot : Slot} {map' : JSON}

/-- The map with a string in the slot, and these members behind it. -/
def Slot.cut (slot : Slot) (after : Blank) (back : List (Item .object)) (last : Blank) : Slot :=
  { slot with after := after, back := back, last := last }

theorem Slot.Of.copy (hslot : slot.Of o key) {after last : Blank} {back : List (Item .object)}
    {s : Chars} (hjs : js.bytes = ((slot.cut after back last).fill .none (.string s) .none).text) :
    jsonMapCopyStringValue (((slot.cut after back last).fill .none (.string s) .none).json js) key =
      .ok (some s.bytes) := by
  have hfind : ((slot.cut after back last).fill .none (.string s) .none).find key.bytes =
      some (.string s) := found_here hslot.front hslot.lead
  rw [copy_eq_lookup, MapText.lookup_eq _ hjs, hfind]
  rfl

theorem cut_text (slot : Slot) (after last : Blank) (back : List (Item .object)) (s : Chars) :
    ((slot.cut after back last).fill .none (.string s) .none).text =
      slot.ahead ++ (quote :: (s.bytes ++ quote :: (after.bytes ++
        ((Items.ofList back).text [comma] ++ Kind.object.closer :: last.bytes)))) := by
  rw [Slot.text_fill]
  simp [Slot.cut, Slot.ahead, Slot.behind, behindOf, Blank.none, Value.text]

theorem set_noNul (slot : Slot) (v : CString) :
    (0 : UInt8) ∉ slot.ahead ++ (quote :: (v.bytes ++ quote :: slot.behind)) := by
  have hfill := (slot.fill .none (.string ⟨[], .nil⟩) .none).document.noNul
  have htext := slot.text_fill .none (.string ⟨[], .nil⟩) .none
  rw [MapText.text] at htext
  rw [htext] at hfill
  simp only [List.mem_append, not_or] at hfill
  simp [hfill.1, hfill.2.2, v.terminated, Ne.symm quote_ne_zero]

/-- The new text of a map when a string is set. -/
theorem Slot.Of.set_string (hslot : slot.Of o key) (hjs : js.bytes = o.text) :
    setValue (o.json js) key v .string = setResult (o.json js)
      (slot.ahead ++ (quote :: (v.bytes ++ quote :: slot.behind))) := by
  rw [hslot.set js hjs, putText_string]
  simp

/-- **When a string was set**, some string is found, whose end is at a quote of the new text. -/
theorem set_string_found (hslot : slot.Of o key) (hjs : js.bytes = o.text)
    (hset : setValue (o.json js) key v .string = .ok (true, map')) :
    ∃ (s : Chars) (after : Blank) (back : List (Item .object)) (last : Blank),
      v.bytes ++ quote :: slot.behind = s.bytes ++ quote :: (after.bytes ++
        ((Items.ofList back).text [comma] ++ Kind.object.closer :: last.bytes)) ∧
      jsonMapCopyStringValue map' key = .ok (some s.bytes) := by
  rw [hslot.set_string hjs] at hset
  rcases setResult_eq (o.json js) (slot.ahead ++ (quote :: (v.bytes ++ quote :: slot.behind))) with
    ⟨newMap, hcreate, hresult⟩ | hresult
  · rw [hresult] at hset
    cases hset
    have hbytes := CString.ofBuffer_bytes (set_noNul slot v)
    obtain ⟨d, hd, -⟩ := create_ok hcreate
    obtain ⟨blank, value, rest, hrest, after, items, last, rfl, hlast⟩ :=
      accepted_value slot ⟨d, hd.trans hbytes⟩
    -- the value begins with a quote, so that it is a string
    have hvalue : blank.bytes = [] ∧ ∃ s, value = .string s := by
      obtain ⟨c, more, hhead, hspace, -, -⟩ := value_head value
      rw [hhead, List.cons_append] at hrest
      obtain ⟨hblank, hquote, -⟩ :=
        blank_unique (a := []) (by simp) blank.space (by decide) hspace hrest
      refine ⟨hblank.symm, ?_⟩
      cases value with
      | string s => exact ⟨s, rfl⟩
      | primitive p =>
        rw [Value.text] at hhead
        have hmem : c ∈ p.bytes := by rw [hhead]; exact List.mem_cons_self ..
        have hword := primitive_word p.primitive c hmem
        rw [← hquote] at hword
        exact absurd hword (by decide)
      | container kind blank items =>
        have hopener := (List.cons.inj hhead).1
        rw [← hquote] at hopener
        cases kind <;> exact absurd hopener (by decide)
    obtain ⟨hblank, s, rfl⟩ := hvalue
    have hcut : v.bytes ++ quote :: slot.behind = s.bytes ++ quote :: (after.bytes ++
        ((Items.ofList items.toList).text [comma] ++ Kind.object.closer :: last)) := by
      rw [hblank, Value.text] at hrest
      rw [Items.ofList_toList]
      simpa using hrest
    refine ⟨s, after, items.toList, ⟨last, hlast⟩, hcut, ?_⟩
    have htext := cut_text slot after ⟨last, hlast⟩ items.toList s
    rw [← hcut, ← hbytes] at htext
    have hdocument := create_document _ htext.symm
    rw [hdocument] at hcreate
    cases hcreate
    exact hslot.copy htext.symm
  · rw [hresult] at hset
    cases hset

/-- **A string that breaks** is set, and another one is found. -/
theorem set_string_breaks (hslot : slot.Of o key) (hjs : js.bytes = o.text) {s : Chars}
    {after : Blank}
    {items : Items .object} (hitems : items ≠ .nil)
    (hv : v.bytes ++ [quote] = s.bytes ++ quote :: (after.bytes ++ items.text [comma])) :
    ∃ map', setValue (o.json js) key v .string = .ok (true, map') ∧
      jsonMapCopyStringValue map' key = .ok (some s.bytes) := by
  obtain ⟨ms, m, hms⟩ : ∃ ms m, items.toList = ms ++ [m] := by
    rcases List.eq_nil_or_concat items.toList with hnil | hconcat
    · cases items with
      | nil => exact absurd rfl hitems
      | cons lead value after rest => cases hnil
    · simpa using hconcat
  -- the white space of the slot goes to the last of the members
  let back := ms ++ member m.head m.value (m.after.append slot.after) :: slot.back
  have htext : items.text [comma] ++ slot.behind =
      (Items.ofList back).text [comma] ++ Kind.object.closer :: slot.last.bytes := by
    rw [← Items.ofList_toList items, hms, Items.text_split, Items.text_split, Slot.behind, behindOf]
    simp [Item.text_head, Blank.append, Items.ofList, Items.text]
  have hbytes := CString.ofBuffer_bytes (set_noNul slot v)
  have hnew : slot.ahead ++ (quote :: (v.bytes ++ quote :: slot.behind)) =
      ((slot.cut after back slot.last).fill .none (.string s) .none).text := by
    have hsplit : v.bytes ++ quote :: slot.behind = (v.bytes ++ [quote]) ++ slot.behind := by simp
    rw [cut_text, hsplit, hv, ← htext]
    simp
  refine ⟨_, ?_, hslot.copy (hbytes.trans hnew)⟩
  rw [hslot.set_string hjs, setResult, create_document _ (hbytes.trans hnew)]
  rfl

theorem Breaks.ne {s : Chars} {after : Blank} {items : Items .object} {text : List UInt8}
    (hitems : items ≠ .nil)
    (h : text ++ [quote] = s.bytes ++ quote :: (after.bytes ++ items.text [comma])) :
    s.bytes ≠ text := by
  rintro rfl
  have hlength := congrArg List.length h
  cases items with
  | nil => exact hitems rfl
  | cons lead value after rest =>
    simp [Items.text] at hlength

/-- A string that is found is the one that was set, or the one that was set breaks. -/
theorem found_or_breaks {s : Chars} {after last : Blank} {back : List (Item .object)}
    (h : v.bytes ++ quote :: slot.behind = s.bytes ++ quote :: (after.bytes ++
      ((Items.ofList back).text [comma] ++ Kind.object.closer :: last.bytes))) :
    s.bytes = v.bytes ∨ Breaks v.bytes := by
  rcases cut_append h with ⟨rest, hv, hrest⟩ | ⟨front, hbehind, hs⟩
  · -- the value goes on behind a quote of its own
    right
    rcases cut_append hrest with ⟨_, hblank, -⟩ | ⟨front, hmembers, rfl⟩
    · exact absurd hblank (cut_blank _)
    · obtain ⟨items, hitems, hfront⟩ :=
        members_cut last.space hmembers (slot_shifts slot) (slot_endsValue slot)
      refine ⟨s, after, items, hitems, ?_⟩
      rw [hv, ← hfront]
      simp
  · cases front with
    | nil =>
      rw [List.append_nil] at hs
      exact Or.inl hs
    | cons c front =>
      -- the value leaves an escape open, so that its own quote does not end it
      obtain ⟨rfl, hfront⟩ := List.cons.inj hbehind
      have hchars : IsChars front := chars_cut s.chars hs
      have hend := (shifts_space after.space).append (shifts_end back last.space)
      have hinside := (inside_chars ⟨front, hchars⟩).append hend
      have hsplit : slot.behind = (front ++ [quote]) ++ (after.bytes ++
          ((Items.ofList back).text [comma] ++ Kind.object.closer :: last.bytes)) := by
        rw [hfront]
        simp
      rw [← hsplit] at hinside
      exact absurd hinside (slot_shifts slot).not_inside

end

/-- **Main.** In any map, a string that was set under a plain key is found there as it was set, if
and only if it does not break. -/
theorem set_then_get {js : CString} {map : JSON} (hmap : jsonCreateFromString js = .ok map)
    (hobject : jsonIsMap map = true) {key : CString} (hkey : Plain key) (v : CString) :
    (∀ map', jsonMapSetStringValue map (some key) (some v) = .ok (true, map') →
      jsonMapCopyStringValue map' key = .ok (some v.bytes)) ↔ ¬ Breaks v.bytes := by
  rcases parsed_cases hmap with ⟨o, hjs, rfl⟩ | hno
  · obtain ⟨slot, hslot⟩ := exists_slot o key hkey.chars
    constructor
    · rintro h ⟨s, after, items, hitems, hv⟩
      obtain ⟨map', hset, hcopy⟩ := set_string_breaks hslot hjs hitems hv
      rw [h map' hset, Except.ok.injEq, Option.some.injEq] at hcopy
      exact Breaks.ne hitems hv hcopy.symm
    · intro hbreaks map' hset
      obtain ⟨s, after, back, last, hcut, hcopy⟩ := set_string_found hslot hjs hset
      rcases found_or_breaks hcut with heq | hv
      · rw [hcopy, heq]
      · exact absurd hv hbreaks
  · simp [jsonIsMap, hno] at hobject

/-- `k`. -/
def oneMemberKey : CString := ⟨[0x6B], by decide⟩

theorem oneMemberKey_plain : Plain oneMemberKey := by
  intro c hc
  rw [List.mem_singleton.mp hc]
  decide

/-- `a","b":"c`. -/
def twoMembers : CString :=
  ⟨[0x61, quote, comma, quote, 0x62, quote, colon, quote, 0x63], by decide⟩

/-- A string that is set in `{"k":"x"}`, after which `a` is found. -/
theorem set_twoMembers :
    jsonCreateFromString oneMemberString = .ok (oneMember.json oneMemberString) ∧
      ∃ map', jsonMapSetStringValue (oneMember.json oneMemberString) (some oneMemberKey)
          (some twoMembers) = .ok (true, map') ∧
        jsonMapCopyStringValue map' oneMemberKey = .ok (some [0x61]) ∧
          twoMembers.bytes ≠ [0x61] := by
  obtain ⟨slot, hslot⟩ := exists_slot oneMember oneMemberKey oneMemberKey_plain.chars
  let items : Items .object := .cons
    (⟨.none, ⟨[0x62], .plain (by decide) (by decide) (by decide) .nil⟩, .none, .none⟩ : Key)
    (.string ⟨[0x63], .plain (by decide) (by decide) (by decide) .nil⟩) .none .nil
  let found : Chars := ⟨[0x61], .plain (by decide) (by decide) (by decide) .nil⟩
  have hv : twoMembers.bytes ++ [quote] =
      found.bytes ++ quote :: (Blank.none.bytes ++ items.text [comma]) := rfl
  have hitems : items ≠ .nil := by simp [items]
  have hjs : oneMemberString.bytes = oneMember.text := rfl
  obtain ⟨map', hset, hcopy⟩ := set_string_breaks hslot hjs hitems hv
  exact ⟨create_document _ rfl, map', hset, hcopy, by decide⟩

theorem set_then_get_twoMembers :
    (∀ map', jsonMapSetStringValue (oneMember.json oneMemberString) (some oneMemberKey)
        (some twoMembers) = .ok (true, map') →
      jsonMapCopyStringValue map' oneMemberKey = .ok (some twoMembers.bytes)) ↔
      ¬ Breaks twoMembers.bytes :=
  set_then_get (create_document _ rfl) rfl oneMemberKey_plain twoMembers

end Apple2ix.Json
