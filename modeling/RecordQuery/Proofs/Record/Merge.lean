import RecordQuery.Proofs.Json.Grammar
import RecordQuery.Proofs.Record.Results
import RecordQuery.Proofs.Value.Merge

/-!
Objects put over each other, and the records of documents put over defaults. A name keeps the place
where it came first, in the defaults or in the document, and the last value under it counts, however
often the document repeats it.
-/

namespace RecordQuery.Record

open Row (firsts)

variable {a b defaults fields : Fields Value} {line : Text} {entries : List (Text × Value)}
  {record : Record}

theorem object?_of_isObject (h : Json.IsObject line entries) :
    object? line = some (Fields.ofEntries entries) := by
  rw [object?, h.read?]

theorem read_object (h : object? line = some fields) :
    read defaults .json line = (.json, .ok (ofObject defaults fields)) := by
  simp only [read, h]

theorem exists_object?_of_read (h : read defaults .json line = (.json, .ok record)) :
    ∃ fields, object? line = some fields := by
  cases hobject : object? line with
  | some fields => exact ⟨fields, rfl⟩
  | none =>
    simp only [read, hobject] at h
    cases h

-- The document is put over the defaults entry by entry.
theorem read_isObject (hd : defaults.keys.Nodup) (h : Json.IsObject line entries) :
    ∃ record, read defaults .json line = (.json, .ok record) ∧
      record.value = .object (defaults.merge entries) := by
  refine ⟨_, read_object (object?_of_isObject h), ?_⟩
  rw [ofObject, Fields.merge_ofEntries hd]

-- Putting objects over each other is associative, with the empty one neutral on both sides and each
-- neutral to itself. The result has the names in the order of their first occurrence and the value
-- that came last, and so does a record, whatever names its document repeats.
theorem merge_keepsPlaces (ha : a.keys.Nodup) (hb : b.keys.Nodup) (c : Fields Value) :
    a.merge (b.merge c) = (a.merge b).merge c ∧
      a.merge [] = a ∧ Fields.merge [] a = a ∧ a.merge a = a ∧
      (a.merge b).keys.Nodup ∧ (a.merge b).keys = a.keys ++ b.keys.filter (· ∉ a.keys) ∧
      (∀ key, (a.merge b).get? key = (b.get? key).or (a.get? key)) ∧
      (∀ line entries, Json.IsObject line entries →
        ∃ (record : Record) (fields : Fields Value),
          read a .json line = (.json, .ok record) ∧ record.value = .object fields ∧
          fields.keys = firsts id (a.keys ++ entries.map Prod.fst) ∧
          ∀ key, fields.get? key =
            (((entries.filter (·.1 == key)).getLast?).map Prod.snd).or (a.get? key)) ∧
      ∀ line record, read a .json line = (.json, .ok record) →
        ∃ entries, Json.IsObject line entries := by
  have hkeys : (a.merge b).keys = a.keys ++ b.keys.filter (· ∉ a.keys) := by
    rw [Fields.keys_merge ha, ← Fields.keys, Fields.firsts_append_of_nodup ha hb]
  refine ⟨Fields.merge_assoc ha hb c, rfl, Fields.merge_nil_left ha, Fields.merge_self ha,
    Fields.nodup_keys_merge ha b, hkeys, Fields.get?_merge_of_nodup hb a, ?_, ?_⟩
  · intro line entries h
    obtain ⟨record, hread, hvalue⟩ := read_isObject ha h
    exact ⟨record, _, hread, hvalue, Fields.keys_merge ha entries, Fields.get?_merge a entries⟩
  · intro line record h
    obtain ⟨fields, hobject⟩ := exists_object?_of_read h
    exact Json.exists_isObject (Reading.read?_of_object? hobject)

-- A name of the defaults that the document repeats.
theorem merge_keepsPlaces_repeated :
    let a : Fields Value := [("level", .ofInt 1), ("id", .ofInt 2)]
    let line : Text := "\x7b\"id\": 3, \"n\": [], \"id\": null\x7d"
    let entries : List (Text × Value) := [("id", .ofInt 3), ("n", .list []), ("id", .null)]
    a.keys.Nodup ∧ Json.IsObject line entries ∧
      ∃ (record : Record) (fields : Fields Value),
        read a .json line = (.json, .ok record) ∧ record.value = .object fields ∧
        fields.keys = ["level", "id", "n"] ∧ fields.get? "id" = some .null := by
  intro a line entries
  have ha : a.keys.Nodup := by decide
  have hline : Json.IsObject line entries := by
    refine ⟨[⟨⟨[.number (.ofInt 3)], .ofInt 3⟩, "id"⟩, ⟨⟨Json.arrayRun [], .list []⟩, "n"⟩,
      ⟨⟨[.null], .null⟩, "id"⟩], by decide +kernel, ?_, rfl⟩
    simp only [List.forall_mem_cons]
    exact ⟨.number _, .list [] nofun, .null, nofun⟩
  obtain ⟨-, -, -, -, -, -, -, hread, -⟩ := merge_keepsPlaces ha ha []
  obtain ⟨record, fields, hrecord, hvalue, hkeys, hget⟩ := hread line entries hline
  exact ⟨ha, hline, record, fields, hrecord, hvalue, hkeys.trans (by decide),
    (hget "id").trans rfl⟩

end RecordQuery.Record
