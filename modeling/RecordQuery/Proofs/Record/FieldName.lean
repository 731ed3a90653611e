import RecordQuery.Proofs.Record.Merge
import RecordQuery.Proofs.Record.Names
import RecordQuery.Proofs.Text.IdentifierForm
import RecordQuery.Proofs.Token.Spelling

/-!
Names for the fields of JSON records. The identifier form of a key, whatever units the key has, is
one name for the query language or a reserved word, and a query that is this name finds the field
where the name is the field's alone.
-/

namespace RecordQuery

open Text (identifierOf)
open Token (SpellsName)

variable {key n : Text} {defaults fields : Fields Value} {line : Text} {record : Record}
  {value : Value}

namespace Token

theorem spellsName_iff :
    SpellsName n ↔ Text.identifierPrefix? n = some (n, []) ∧ Keyword.ofName? n = none := by
  constructor
  · intro h
    obtain ⟨u, rest, rfl, -, hone⟩ := h.exists_scanOne
    obtain ⟨-, -, -, -, -, hkeyword, -⟩ := scanOne_eq_name_iff.mp hone
    exact ⟨h.identifierPrefix?, hkeyword⟩
  · rintro ⟨hn, hkeyword⟩
    obtain ⟨u, rest, rfl⟩ := List.exists_cons_of_length_pos (Text.identifierPrefix?_append hn).2
    obtain ⟨hblank, hone⟩ := scanOne_word hn 0
    rw [ofIdentifier_eq_name_iff.mpr ⟨hkeyword, rfl, rfl⟩] at hone
    rw [SpellsName, scan, scanFrom_cons, if_neg (by simp [hblank]), hone]
    simp [scanFrom_nil, Except.map]

end Token

namespace Record

-- The key's name is neither reserved nor that of the whole record, and no other key has it.
structure HasOwnName (key : Text) (fields : Fields Value) : Prop where
  notReserved : Keyword.ofName? (identifierOf key) = none
  notSelf : identifierOf key ≠ selfName
  notShared : ∀ other ∈ fields.keys, identifierOf other = identifierOf key → other = key

theorem last?_eq_of_hasOwnName (hd : fields.keys.Nodup) (h : HasOwnName key fields)
    (hvalue : fields.get? key = some value) : last? (identifierOf key) fields = some value := by
  have hmem : (key, value) ∈ named (identifierOf key) fields :=
    List.mem_filter.mpr ⟨Fields.mem_of_get?_eq_some hvalue, beq_self_eq_true _⟩
  obtain ⟨e, hlast⟩ : ∃ e, (named (identifierOf key) fields).getLast? = some e :=
    ⟨_, List.getLast?_eq_some_getLast (List.ne_nil_of_mem hmem)⟩
  obtain ⟨hfield, hform⟩ := List.mem_filter.mp (List.mem_of_getLast? hlast)
  -- whatever field comes last under the name has this key, and a key has one value
  have hkey := h.notShared _ (List.mem_map_of_mem hfield) (eq_of_beq hform)
  have hget := (Fields.get?_eq_some_iff hd).mpr hfield
  rw [hkey, hvalue, Option.some.injEq] at hget
  rw [last?, hlast, hget]
  rfl

theorem exists_merged_of_read (hd : defaults.keys.Nodup)
    (h : read defaults .json line = (.json, .ok record)) :
    ∃ fields : Fields Value, record = ⟨.object fields, scopeOf fields⟩ ∧ fields.keys.Nodup := by
  obtain ⟨fields, hobject⟩ := exists_object?_of_read h
  rw [read_object hobject] at h
  cases h
  exact ⟨_, rfl, Fields.nodup_keys_merge hd fields⟩

-- Every field can be named.
theorem identifierOf_namesField (key : Text) :
    identifierOf (identifierOf key) = identifierOf key ∧
      ((Keyword.ofName? (identifierOf key)).isSome = true ∨
        Token.scan (identifierOf key) =
          .ok [⟨.name, identifierOf key, 0, (identifierOf key).length⟩]) ∧
      ∀ (library : Library) (defaults : Fields Value) (line : Text) (record : Record),
        defaults.keys.Nodup → read defaults .json line = (.json, .ok record) →
        ∃ fields : Fields Value, record.value = .object fields ∧
          ∀ value, fields.get? key = some value → HasOwnName key fields →
            ∃ query, Query.compile library (identifierOf key) = .ok query ∧
              query.evaluate record.scope = .ok value := by
  have hn := Text.identifierPrefix?_identifierOf key
  refine ⟨Text.identifierOf_eq_self hn, ?_, fun library defaults line record hd hread => ?_⟩
  · cases hkeyword : Keyword.ofName? (identifierOf key) with
    | some k => exact .inl rfl
    | none => exact .inr (Token.spellsName_iff.mpr ⟨hn, hkeyword⟩)
  · obtain ⟨fields, rfl, hfields⟩ := exists_merged_of_read hd hread
    refine ⟨fields, rfl, fun value hvalue h => ?_⟩
    refine ⟨_, compile_name (Token.spellsName_iff.mpr ⟨hn, h.notReserved⟩), ?_⟩
    rw [Query.evaluate, evaluate_name h.notSelf, last?_eq_of_hasOwnName hfields h hvalue]
    rfl

-- A key that has half of a pair in front of a digit.
theorem identifierOf_namesField_half :
    let key : Text := 0xD83D :: Text.ofString "2 x"
    let line : Text := "\x7b\"a\": null, \"\\ud83d2 x\": true\x7d"
    identifierOf key = "_2_x" ∧
      ∃ record value query, read [] .json line = (.json, .ok record) ∧
        (∃ fields : Fields Value, record.value = .object fields ∧
          fields.get? key = some value ∧ HasOwnName key fields) ∧
        Query.compile .standard (identifierOf key) = .ok query ∧
        query.evaluate record.scope = .ok value := by
  intro key line
  have hobject : ((object? line).any fun fields =>
      (Fields.merge [] fields).keys = [Text.ofString "a", key]) = true := by
    decide +kernel
  obtain ⟨fields, hfields, hkeys⟩ := Option.any_eq_true _ _ |>.mp hobject
  replace hkeys := of_decide_eq_true hkeys
  have hread : read [] .json line = (.json, .ok (ofObject [] fields)) := read_object hfields
  have hown : HasOwnName key (Fields.merge [] fields) :=
    ⟨by decide +kernel, by decide +kernel, by rw [hkeys]; decide +kernel⟩
  obtain ⟨value, hvalue⟩ : ∃ value, (Fields.merge [] fields).get? key = some value :=
    Option.ne_none_iff_exists'.mp fun hnone =>
      Fields.get?_eq_none_iff.mp hnone (by rw [hkeys]; exact .tail _ (.head _))
  obtain ⟨_, hmerged, hnames⟩ :=
    (identifierOf_namesField key).2.2 .standard [] line _ List.nodup_nil hread
  cases hmerged
  obtain ⟨query, hquery, heval⟩ := hnames value hvalue hown
  exact ⟨by decide +kernel, _, value, query, hread, ⟨_, rfl, hvalue, hown⟩, hquery, heval⟩

end Record

end RecordQuery
