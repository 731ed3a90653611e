import RecordQuery.Function.String
import RecordQuery.Proofs.Attempt
import RecordQuery.Proofs.Text.Character
import RecordQuery.Proofs.Text.Search

/-!
Functions on texts. Replacing a part of a text is splitting the text there and joining the pieces with
the replacement, as long as the replacement has no marks. Stripping takes all characters of a set from
the ends of a text, as long as these are of one unit.
-/

namespace RecordQuery.Function

theorem split_call {part : Text} (hpart : part ≠ []) (t : Text) :
    split.call [.text t, .text part] = .ok (.list ((Text.split part t).map .text)) := by
  have hsome : part.isEmpty = false := by rwa [List.isEmpty_eq_false_iff]
  change (if part.isEmpty then (.error .emptySeparator : Except Fault Value)
    else .ok (.list ((Text.split part t).map .text))) = _
  rw [hsome]
  rfl

-- The texts of items that are texts.
def joinedPart : Value → Except Fault Text
  | .text t => .ok t
  | v => refuse "join" .strings (some v)

theorem join_call (separator : Text) (pieces : List Text) :
    join.call [.text separator, .list (pieces.map .text)] =
      .ok (.text (Text.join separator pieces)) := by
  have hparts : (pieces.map Value.text).mapM joinedPart = .ok pieces := by
    rw [mapM_eq_ok_iff, List.forall₂_map_left_iff]
    exact List.forall₂_same.mpr fun _ _ => rfl
  change ((pieces.map Value.text).mapM joinedPart >>= fun parts =>
    pure (Value.text (Text.join separator parts))) = _
  rw [hparts]
  rfl

-- Replacing gives what splitting at the part and joining with the replacement gives.
def ReplacesLiterally (part replacement t : Text) : Prop :=
  replace.call [.text t, .text part, .text replacement] =
    split.call [.text t, .text part] >>= fun pieces => join.call [.text replacement, pieces]

theorem replace_call {part t : Text} {pieces : List Text} (hpart : part ≠ [])
    (h : Text.Cut part t pieces) (replacement : Text) :
    replace.call [.text t, .text part, .text replacement] =
      .ok (.text (Text.filled part replacement [] pieces)) :=
  congrArg (fun t => Except.ok (Value.text t)) (h.replaceFrom_eq hpart replacement [])

theorem replacesLiterally_iff {part t : Text} {pieces : List Text} (hpart : part ≠ [])
    (h : Text.Cut part t pieces) (replacement : Text) :
    ReplacesLiterally part replacement t ↔
      Text.filled part replacement [] pieces = Text.join replacement pieces := by
  rw [ReplacesLiterally, replace_call hpart h, split_call hpart, h.split_eq hpart]
  change _ = join.call [.text replacement, .list (pieces.map .text)] ↔ _
  rw [join_call]
  simp

-- A mark already shows where one unit is replaced by itself.
theorem not_replacesLiterally_of_hasMark {replacement : Text} (h : Text.HasMark replacement)
    (u : UInt16) : ¬ReplacesLiterally [u] replacement [u] := by
  have hcut : Text.Cut [u] ([] ++ [u] ++ []) [[], []] := .next (by simp) (.last (by simp))
  rw [List.nil_append, List.append_nil] at hcut
  rw [replacesLiterally_iff (List.cons_ne_nil _ _) hcut]
  intro heq
  have hlength := congrArg List.length heq
  have hlt := Text.length_expand_lt u h
  simp only [Text.filled, Text.join_cons, List.nil_append, List.append_nil, List.reverse_nil,
    List.flatMap_cons, List.flatMap_nil] at hlength
  omega

-- Replacing puts the replacement in the place of every occurrence that is found from the left, with
-- its marks filled in. It is splitting and joining, whatever is replaced in whichever text, just for
-- replacements without marks.
theorem replace_literal_iff (replacement : Text) :
    (∀ t part : Text, part ≠ [] → ∃ pieces, Text.Cut part t pieces ∧
      split.call [.text t, .text part] = .ok (.list (pieces.map .text)) ∧
      join.call [.text part, .list (pieces.map .text)] = .ok (.text t) ∧
      join.call [.text replacement, .list (pieces.map .text)] =
        .ok (.text (Text.join replacement pieces)) ∧
      replace.call [.text t, .text part, .text replacement] =
        .ok (.text (Text.filled part replacement [] pieces))) ∧
    ((∀ t part : Text, part ≠ [] → ReplacesLiterally part replacement t) ↔
      ¬Text.HasMark replacement) := by
  refine ⟨fun t part hpart => ?_, fun h hmark => ?_, fun h t part hpart => ?_⟩
  · have hcut := Text.cut_split hpart t
    refine ⟨Text.split part t, hcut, split_call hpart t, ?_, join_call replacement _,
      replace_call hpart hcut replacement⟩
    rw [join_call, hcut.join_eq]
  · exact not_replacesLiterally_of_hasMark hmark 97 (h [97] [97] (List.cons_ne_nil _ _))
  · have hfilled := Text.filled_eq_join h part [] (Text.split part t)
    exact (replacesLiterally_iff hpart (Text.cut_split hpart t) replacement).mpr hfilled

-- Overlapping occurrences, and a mark for what is found.
theorem replace_literal_iff_overlapping :
    (∃ pieces, Text.Cut "aa" "aaab" pieces ∧
      split.call [.text "aaab", .text "aa"] = .ok (.list (pieces.map .text)) ∧
      replace.call [.text "aaab", .text "aa", .text "<$&>"] =
        .ok (.text (Text.filled "aa" "<$&>" [] pieces))) ∧
    ¬∀ t part : Text, part ≠ [] → ReplacesLiterally part "<$&>" t := by
  obtain ⟨hcalls, hliteral⟩ := replace_literal_iff "<$&>"
  obtain ⟨pieces, hcut, hsplit, -, -, hreplace⟩ := hcalls "aaab" "aa" (by decide)
  refine ⟨⟨pieces, hcut, hsplit, hreplace⟩, ?_⟩
  rw [hliteral, not_not]
  exact ⟨38, by decide, [60], [62], by decide⟩

-- Two dollar signs become one.
theorem replace_not_literal :
    ¬∀ t part replacement : Text, part ≠ [] → ReplacesLiterally part replacement t := by
  intro h
  have heq : Text.ofString "$" = Text.ofString "$$" :=
    Value.text.inj (Except.ok.inj (h "a" "a" "$$" (by decide)))
  exact absurd heq (by decide)

theorem strip_call (t chars : Text) :
    strip.call [.text t, .text chars] =
      .ok (.text (Text.dropAround (Text.isUnitOf chars) t)) :=
  rfl

theorem strip_strip (t chars : Text) :
    let rest := Text.dropAround (Text.isUnitOf chars) t
    strip.call [.text rest, .text chars] = .ok (.text rest) := by
  intro rest
  have hagain : dropEnds (Text.isUnitOf chars) rest = rest :=
    dropEnds_eq_self (endsOutside_dropEnds (Text.isUnitOf chars) t)
  rw [strip_call, Text.dropAround_eq_dropEnds, hagain]

-- Stripping takes the characters of one unit that are in `chars` from both ends, and finds none when
-- it is done again. What is left is the text without all characters of `chars` at its ends just if
-- no other one is at an end of it, which is always so just if none of them takes two units.
theorem strip_eq_stripped_iff {chars : Text} (h : chars.isWellFormed = true) :
    (∀ t : Text, ∃ rest before after, strip.call [.text t, .text chars] = .ok (.text rest) ∧
      t.characters = before ++ rest.characters ++ after ∧
      (∀ c ∈ before ++ after, c ∈ chars.characters ∧ c.length = 1) ∧
      (∀ c ∈ chars.characters, c.length = 1 → ¬AtEnd c rest.characters) ∧
      strip.call [.text rest, .text chars] = .ok (.text rest) ∧
      (rest = Text.stripped chars t ↔ ∀ c ∈ chars.characters, ¬AtEnd c rest.characters)) ∧
    ((∀ t : Text, t.isWellFormed = true →
        strip.call [.text t, .text chars] = .ok (.text (Text.stripped chars t))) ↔
      ∀ c ∈ chars.characters, c.length = 1) := by
  refine ⟨fun t => ?_, fun hall c hc => ?_, fun hall t _ => ?_⟩
  · obtain ⟨before, after, hparts, hdropped⟩ :=
      exists_dropEnds (Text.isSingle (Text.isUnitOf chars)) t.characters
    rw [← Text.characters_dropAround_isUnitOf h] at hparts
    exact ⟨_, before, after, strip_call t chars, hparts,
      fun c hc => Text.isSingle_iff.mp (hdropped c hc),
      fun c hc hlength => Text.not_atEnd_dropAround h t hc hlength, strip_strip t chars,
      Text.dropAround_eq_stripped_iff h t⟩
  · by_contra hlength
    obtain ⟨hkept, hnone⟩ := Text.dropAround_of_mem h hc hlength
    have hcall := hall c (Text.isWellFormed_of_mem h hc)
    rw [strip_call, hkept, hnone] at hcall
    exact Text.ne_nil_of_mem_characters hc (Value.text.inj (Except.ok.inj hcall))
  · have hright := (Text.dropAround_eq_stripped_iff h t).mpr fun c hc =>
      Text.not_atEnd_dropAround h t hc (hall c hc)
    rw [strip_call, hright]

-- A hyphen goes, and a character of two units that comes to an end by that stays.
theorem strip_eq_stripped_iff_mixed :
    let chars : Text := [45, 0xD83D, 0xDE00]
    chars.isWellFormed = true ∧
    (∃ rest, strip.call [.text [45, 0xD83D, 0xDE00, 97, 45], .text chars] = .ok (.text rest) ∧
      strip.call [.text rest, .text chars] = .ok (.text rest) ∧
      rest ≠ Text.stripped chars [45, 0xD83D, 0xDE00, 97, 45]) ∧
    ¬∀ t : Text, t.isWellFormed = true →
      strip.call [.text t, .text chars] = .ok (.text (Text.stripped chars t)) := by
  intro chars
  have hchars : chars.isWellFormed = true := by decide
  obtain ⟨hcalls, hright⟩ := strip_eq_stripped_iff hchars
  obtain ⟨rest, -, -, hcall, -, -, -, hagain, hiff⟩ := hcalls [45, 0xD83D, 0xDE00, 97, 45]
  obtain rfl : [0xD83D, 0xDE00, 97] = rest := Value.text.inj (Except.ok.inj hcall)
  refine ⟨hchars, ⟨_, hcall, hagain, fun heq => ?_⟩, fun hall => ?_⟩
  · exact hiff.mp heq [0xD83D, 0xDE00] (by decide) (.inl rfl)
  · exact absurd (hright.mp hall [0xD83D, 0xDE00] (by decide)) (by decide)

-- A character of two units at an end is not stripped.
theorem strip_ne_stripped :
    ¬∀ t chars : Text, t.isWellFormed = true → chars.isWellFormed = true →
      strip.call [.text t, .text chars] = .ok (.text (Text.stripped chars t)) := by
  intro h
  have heq : Text.dropAround (Text.isUnitOf [0xD83D, 0xDE00]) [0xD83D, 0xDE00, 97] =
      Text.stripped [0xD83D, 0xDE00] [0xD83D, 0xDE00, 97] :=
    Value.text.inj (Except.ok.inj (h [0xD83D, 0xDE00, 97] [0xD83D, 0xDE00] (by decide) (by decide)))
  exact absurd heq (by decide)

end RecordQuery.Function
