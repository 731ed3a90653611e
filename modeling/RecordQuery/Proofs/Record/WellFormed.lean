import RecordQuery.Proofs.Expr.WellFormed
import RecordQuery.Proofs.Flow
import RecordQuery.Proofs.Json.Reader
import RecordQuery.Proofs.Record.Results

/-!
Well-formed values from lines to results. A line is read as a record of well-formed values, over
well-formed defaults, and a compiled query makes well-formed results of such records.
-/

namespace RecordQuery

open Value (wellFormed_tuple wellFormed_list wellFormed_object)

-- Queries.
def Query.WellFormed (query : Query) : Prop :=
  query.library.Preserves ∧ ∀ v ∈ query.expr.literals, v.WellFormed

theorem Query.wellFormed_of_compile {library : Library} (hl : library.Preserves) {source : Text}
    {query : Query} (h : Query.compile library source = .ok query) : query.WellFormed := by
  obtain ⟨e, he, h⟩ := bind_eq_ok_iff.mp h
  obtain ⟨_, -, h⟩ := bind_eq_ok_iff.mp h
  cases h
  exact ⟨hl, Expr.wellFormed_of_parse he⟩

theorem Query.WellFormed.ensures_evaluate {query : Query} (h : query.WellFormed) {scope : Scope}
    (hs : ∀ x ∈ scope, x.2.WellFormed) : Ensures Value.WellFormed (query.evaluate scope) :=
  Expr.ensures_evaluate h.1 query.expr hs h.2

-- All items of a flow, whatever ends it.
def Flow.WellFormed (flow : Flow Value) : Prop := ∀ v ∈ flow.items, v.WellFormed

namespace Record

-- Records.
def WellFormed (record : Record) : Prop :=
  record.value.WellFormed ∧ ∀ x ∈ record.scope, x.2.WellFormed

variable {defaults fields : Fields Value}

theorem wellFormed_scopeOf (h : ∀ e ∈ fields, e.2.WellFormed) :
    ∀ x ∈ scopeOf fields, x.2.WellFormed := by
  have hnamed : ∀ e ∈ fields.map fun e => (Text.identifierOf e.1, e.2), e.2.WellFormed := by
    intro e he
    obtain ⟨field, hfield, rfl⟩ := List.mem_map.mp he
    exact h field hfield
  exact Fields.forall_mem_set (Fields.forall_mem_ofEntries hnamed) (wellFormed_object.mpr h)

theorem wellFormed_ofObject (hd : ∀ e ∈ defaults, e.2.WellFormed)
    (hf : ∀ e ∈ fields, e.2.WellFormed) : (ofObject defaults fields).WellFormed :=
  have hmerged := Fields.forall_mem_merge hd hf
  ⟨wellFormed_object.mpr hmerged, wellFormed_scopeOf hmerged⟩

theorem wellFormed_of_object? {line : Text} (h : object? line = some fields) :
    ∀ e ∈ fields, e.2.WellFormed :=
  wellFormed_object.mp (Json.read?_wellFormed (Reading.read?_of_object? h))

theorem ensures_tupleOf (texts : List Text) : Ensures Value.WellFormed (tupleOf texts) :=
  .map (.mapM fun t _ => Expr.ensures_ofSpelling t) fun _ => wellFormed_tuple.mpr

theorem ensures_ofRow (line : Text) : Ensures WellFormed (ofRow line) := by
  unfold ofRow
  split
  · exact .error _
  · split
    · exact .error _
    · next v hv =>
      have hrow : v.WellFormed := ensures_tupleOf _ v hv
      exact .ok ⟨hrow, List.forall_mem_singleton.mpr hrow⟩

-- However earlier lines were taken.
theorem ensures_read (hd : ∀ e ∈ defaults, e.2.WellFormed) (mode : Mode) (line : Text) :
    Ensures WellFormed (read defaults mode line).2 := by
  unfold read
  split
  · next hobject => exact .ok (wellFormed_ofObject hd (wellFormed_of_object? hobject))
  · exact ensures_ofRow line

end Record

namespace Reading

theorem wellFormed_contribution {v : Value} (h : v.WellFormed) :
    ∀ w ∈ contribution v, w.WellFormed := by
  unfold contribution
  split
  · exact wellFormed_list.mp h
  · exact List.forall_mem_singleton.mpr h

theorem wellFormed_results {query : Query} (hq : query.WellFormed) {record : Record}
    (hr : record.WellFormed) (number : ℕ) : (results query number record).WellFormed := by
  unfold results
  split
  · next v hv =>
    rw [Flow.WellFormed, Flow.items_ofList]
    exact wellFormed_contribution (hq.ensures_evaluate hr.2 v hv)
  · exact List.forall_mem_nil _

theorem wellFormed_run {reading : Reading} (hd : ∀ e ∈ reading.defaults, e.2.WellFormed)
    {query : Query} (hq : query.WellFormed) (lines : Flow Text) :
    (reading.run query lines).WellFormed := by
  intro row hrow
  obtain ⟨line, -, progress, hrow⟩ := Flow.exists_of_mem_expand hrow
  have hnoting : ∀ entry (flow : Flow Value), (noting entry flow).items = flow.items :=
    fun entry flow => by cases entry <;> rfl
  unfold step at hrow
  dsimp only at hrow
  split at hrow
  · cases hrow
  · rw [hnoting] at hrow
    split at hrow
    · next record hrecord =>
      exact wellFormed_results hq (Record.ensures_read hd _ line record hrecord) _ row hrow
    · cases hrow

end Reading

end RecordQuery
