import RecordQuery.Expr.Calls
import RecordQuery.Function.Standard
import RecordQuery.Proofs.Expr.Completeness
import RecordQuery.Proofs.Token.Name
import RecordQuery.Proofs.Value.Fields
import RecordQuery.Record.Basic

/-!
The two ways to a field of a JSON record: by its name alone, which finds the last field with that
name, and as an attribute of the whole record, which finds the one with just this key, else the
first. They agree on every record in which no two keys have one identifier form.
-/

namespace RecordQuery

open Token (SpellsName)

variable {library : Library} {n : Text} {fields : Fields Value}

namespace Record

-- The source of an attribute of the whole record.
def attributeSource (n : Text) : Text := selfName ++ Symbol.dot.label ++ n

theorem identifierPrefix?_self (u : UInt16) (rest : Text) :
    Text.identifierPrefix? (selfName ++ 46 :: u :: rest) = some (selfName, 46 :: u :: rest) := by
  have hopens : Text.opensIdentifier (Text.codePoint [95]) = true := by decide
  have hpoint : Text.isIdentifierPart (46 : UInt16).toNat = false := by decide
  have hhigh : Text.isHigh 46 = false := by decide
  have hnext :
      Text.nextCharacter? (selfName ++ 46 :: u :: rest) = some ([95], 46 :: u :: rest) := rfl
  have hspan : Text.spanCharacters Text.isIdentifierPart (46 :: u :: rest) =
      ([], 46 :: u :: rest) := by
    simp only [Text.spanCharacters, hhigh, hpoint, Bool.false_and, Bool.false_eq_true, if_false]
  simp only [Text.identifierPrefix?, hnext, hopens, hspan, if_true]
  rfl

theorem scan_attributeSource (h : SpellsName n) :
    Token.scan (attributeSource n) =
      .ok [⟨.name, selfName, 0, 1⟩, ⟨.symbol .dot, Symbol.dot.label, 1, 1⟩,
        ⟨.name, n, 2, n.length⟩] := by
  obtain ⟨u, rest, hn, -, hone⟩ := h.exists_scanOne
  have hself : Token.scanOne 0 95 (46 :: n) = .ok ⟨.name, selfName, 0, 1⟩ := by
    rw [hn]
    exact Token.scanOne_eq_name_iff.mpr
      ⟨rfl, rfl, rfl, _, identifierPrefix?_self u rest, by decide, rfl⟩
  have hdot : Token.scanOne 1 46 n = .ok ⟨.symbol .dot, Symbol.dot.label, 1, 1⟩ := by
    rw [Token.scanOne, hn, Token.opensNumber_point (Token.scanOne_eq_name_iff.mp hone).1]
    rfl
  have hsource : attributeSource n = 95 :: 46 :: n := rfl
  rw [hsource, Token.scan, Token.scanFrom_cons, if_neg (by decide), hself]
  dsimp only
  rw [Nat.sub_self, List.drop_zero, Token.scanFrom_cons, if_neg (by decide), hdot]
  dsimp only
  rw [Nat.sub_self, List.drop_zero, h.scanFrom_eq]
  rfl

theorem compile_of_query {source : Text} {tokens : List Token} {e : Expr}
    (hblank : source.all Text.isBlank = false) (hscan : Token.scan source = .ok tokens)
    (h : Grammar.Query tokens e) (hcalls : e.checkCalls library = .ok ()) :
    Query.compile library source = .ok ⟨library, source, e⟩ := by
  have hparse : Expr.parse source = .ok e := by
    rw [Expr.parse, hblank, hscan]
    exact Expr.ofTokens_complete source.length h
  exact bind_eq_ok_iff.mpr ⟨e, hparse, bind_eq_ok_iff.mpr ⟨(), hcalls, rfl⟩⟩

theorem compile_name (h : SpellsName n) :
    Query.compile library n = .ok ⟨library, n, .name n⟩ := by
  obtain ⟨u, rest, hn, hblank, -⟩ := h.exists_scanOne
  exact compile_of_query (by simp [hn, hblank]) h (Grammar.Trailed.primary (.name rfl)).query
    (by rw [Expr.checkCalls]; rfl)

theorem compile_attribute (h : SpellsName n) :
    Query.compile library (attributeSource n) =
      .ok ⟨library, attributeSource n, .attribute (.name selfName) n⟩ :=
  compile_of_query rfl (scan_attributeSource h)
    (Grammar.Trailed.attribute (.primary (.name rfl)) rfl rfl).query
    (by rw [Expr.checkCalls, Expr.checkCalls]; rfl)

-- The fields whose keys have an identifier form.
def named (n : Text) (fields : Fields Value) : Fields Value :=
  fields.filter fun e => Text.identifierOf e.1 == n

-- The field with just this key, else the first with this identifier form.
def preferred? (n : Text) (fields : Fields Value) : Option Value :=
  (((named n fields).find? (·.1 == n)).or (named n fields).head?).map Prod.snd

-- The last field with this identifier form.
def last? (n : Text) (fields : Fields Value) : Option Value :=
  (named n fields).getLast?.map Prod.snd

theorem last?_eq_preferred? (h : (named n fields).length ≤ 1) :
    last? n fields = preferred? n fields := by
  rw [last?, preferred?]
  match named n fields, h with
  | [], _ => rfl
  | [e], _ => by_cases he : e.1 = n <;> simp [he]

theorem get?_scopeOf_self : (scopeOf fields).get? selfName = some (.object fields) := by
  rw [scopeOf, Fields.get?_set, if_pos rfl]

theorem get?_scopeOf (hself : n ≠ selfName) : (scopeOf fields).get? n = last? n fields := by
  rw [scopeOf, Fields.get?_set, if_neg hself.symm, Fields.get?_ofEntries, List.filter_map,
    List.getLast?_map, Option.map_map]
  rfl

-- A key that is spelled like the name has it as its identifier form.
theorem fieldNamed?_eq (h : SpellsName n) : Value.fieldNamed? n fields = preferred? n fields := by
  have hn := Text.identifierOf_eq_self h.identifierPrefix?
  have hexact : (named n fields).find? (·.1 == n) = fields.find? (·.1 == n) := by
    rw [named, List.find?_filter]
    congr
    funext e
    grind
  rw [Value.fieldNamed?, Fields.get?_eq_find?, preferred?, hexact, named, List.head?_filter,
    Option.map_or]

-- The value that was found, or a fault.
def found (fault : Fault) (v : Option Value) : Except Fault Value := v.elim (.error fault) .ok

theorem toOption_found (fault : Fault) (v : Option Value) : (found fault v).toOption = v := by
  cases v <;> rfl

theorem evaluate_name (hself : n ≠ selfName) :
    Expr.evaluate library (scopeOf fields) (.name n) =
      found (.undefinedName n) (last? n fields) := by
  rw [Expr.evaluate, get?_scopeOf hself]
  cases last? n fields <;> rfl

theorem evaluate_attribute (h : SpellsName n) :
    Expr.evaluate library (scopeOf fields) (.attribute (.name selfName) n) =
      found (.missingField n) (preferred? n fields) := by
  rw [Expr.evaluate, Expr.evaluate, get?_scopeOf_self]
  change Value.namedField n (.object fields) = _
  rw [Value.namedField, fieldNamed?_eq h]
  cases preferred? n fields <;> rfl

theorem exists_fields_of_read {defaults : Fields Value} {line : Text} {record : Record}
    (h : read defaults .json line = (.json, .ok record)) :
    ∃ fields, record = ⟨.object fields, scopeOf fields⟩ := by
  unfold read at h
  split at h
  next fields hobject =>
    cases h
    exact ⟨_, rfl⟩
  next => cases h

-- A field by its name alone is the last with that name, and as an attribute of the whole record the
-- one with just this key, else the first. So the two agree, in a value or in failing, where these
-- hold the same value, as they do where no two keys have the name.
theorem name_eq_attribute_iff {defaults : Fields Value} {line : Text} {record : Record}
    (hread : read defaults .json line = (.json, .ok record)) (hn : SpellsName n)
    (hself : n ≠ selfName) :
    ∃ fields byName byAttribute, record.value = .object fields ∧
      Query.compile library n = .ok byName ∧
      Query.compile library (attributeSource n) = .ok byAttribute ∧
      byName.evaluate record.scope = found (.undefinedName n) (last? n fields) ∧
      byAttribute.evaluate record.scope = found (.missingField n) (preferred? n fields) ∧
      ((byName.evaluate record.scope).toOption = (byAttribute.evaluate record.scope).toOption ↔
        last? n fields = preferred? n fields) ∧
      ((named n fields).length ≤ 1 → last? n fields = preferred? n fields) := by
  obtain ⟨fields, rfl⟩ := exists_fields_of_read hread
  have hbyName : (⟨library, n, .name n⟩ : Query).evaluate (scopeOf fields) =
      found (.undefinedName n) (last? n fields) := evaluate_name hself
  have hbyAttribute : (⟨library, attributeSource n, .attribute (.name selfName) n⟩ : Query).evaluate
      (scopeOf fields) = found (.missingField n) (preferred? n fields) := evaluate_attribute hn
  refine ⟨fields, _, _, rfl, compile_name hn, compile_attribute hn, hbyName, hbyAttribute, ?_,
    last?_eq_preferred?⟩
  rw [hbyName, hbyAttribute, toOption_found, toOption_found]

-- A key and after it another with the same form.
theorem exists_read_twoForms : ∃ fields,
    read [] .json "\x7b\"a_b\": true, \"a b\": false\x7d" =
        (.json, .ok ⟨.object fields, scopeOf fields⟩) ∧
      last? "a_b" fields ≠ preferred? "a_b" fields := by
  have hobject : ((object? "\x7b\"a_b\": true, \"a b\": false\x7d").any fun fields =>
      (last? "a_b" (Fields.merge [] fields)).map Value.key ≠
        (preferred? "a_b" (Fields.merge [] fields)).map Value.key) = true := by
    decide +kernel
  obtain ⟨fields, hfields, hkeys⟩ := Option.any_eq_true _ _ |>.mp hobject
  refine ⟨Fields.merge [] fields, ?_, fun heq => of_decide_eq_true hkeys (by rw [heq])⟩
  simp only [read, hfields]
  rfl

theorem spellsName_twoForms : SpellsName "a_b" := by decide +kernel

theorem name_eq_attribute_iff_twoForms : ∃ record,
    read [] .json "\x7b\"a_b\": true, \"a b\": false\x7d" = (.json, .ok record) ∧
    SpellsName "a_b" ∧ Text.ofString "a_b" ≠ selfName ∧
    ∃ fields byName byAttribute, record.value = .object fields ∧
      Query.compile .standard "a_b" = .ok byName ∧
      Query.compile .standard (attributeSource "a_b") = .ok byAttribute ∧
      byName.evaluate record.scope = found (.undefinedName "a_b") (last? "a_b" fields) ∧
      byAttribute.evaluate record.scope =
        found (.missingField "a_b") (preferred? "a_b" fields) ∧
      ((byName.evaluate record.scope).toOption = (byAttribute.evaluate record.scope).toOption ↔
        last? "a_b" fields = preferred? "a_b" fields) ∧
      ((named "a_b" fields).length ≤ 1 → last? "a_b" fields = preferred? "a_b" fields) := by
  obtain ⟨fields, hread, -⟩ := exists_read_twoForms
  exact ⟨_, hread, spellsName_twoForms, by decide,
    name_eq_attribute_iff hread spellsName_twoForms (by decide)⟩

-- A field by its name is not always the field that the attribute finds.
theorem name_ne_attribute :
    ¬∀ (defaults : Fields Value) (line n : Text) (record : Record) (byName byAttribute : Query),
      read defaults .json line = (.json, .ok record) → SpellsName n → n ≠ selfName →
        Query.compile .standard n = .ok byName →
        Query.compile .standard (attributeSource n) = .ok byAttribute →
        (byName.evaluate record.scope).toOption = (byAttribute.evaluate record.scope).toOption := by
  intro h
  obtain ⟨fields, hread, hne⟩ := exists_read_twoForms
  have hn := spellsName_twoForms
  have hself : Text.ofString "a_b" ≠ selfName := by decide
  have hagree := h _ _ _ _ _ _ hread hn hself (compile_name hn) (compile_attribute hn)
  simp only [Query.evaluate, evaluate_name hself, evaluate_attribute hn, toOption_found] at hagree
  exact hne hagree

end Record

end RecordQuery
