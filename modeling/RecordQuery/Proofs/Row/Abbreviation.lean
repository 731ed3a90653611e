import RecordQuery.Expr.Calls
import RecordQuery.Function.Standard
import RecordQuery.Proofs.Expr.Source
import RecordQuery.Proofs.Row.Reducer

/-!
A reducer is short for a call. It can be read just if the call compiles that has a name in front of
the further arguments, and it makes of a list of values what the call comes to where the name stands
for the list. A text that is short for no call, or one with an argument that is no literal, is refused
for its spelling, unless a bad key among the arguments is met first.
-/

namespace RecordQuery.Reducer

variable {library : Library} {spec name list source : Text} {arguments : List Expr}
  {values : List Value}

-- The text is short for a call of the function in which these arguments come after the list.
def ShortFor (spec name : Text) (arguments : List Expr) : Prop :=
  (Expr.parse spec = .ok (.name name) ∧ arguments = []) ∨
    Expr.parse spec = .ok (.call name arguments)

-- Each of the arguments is a literal that has a value.
def HaveValues (arguments : List Expr) : Prop := ∀ a ∈ arguments, ∃ v, a.literal? = .ok (some v)

theorem literal?_eq_ok_some_iff {e : Expr} {v : Value} :
    e.literal? = .ok (some v) ↔ e.isLiteral = true ∧ e.evaluate [] [] = .ok v := by
  unfold Expr.literal?
  cases e.isLiteral with
  | false => simp
  | true =>
    rw [if_pos rfl]
    cases e.evaluate [] [] <;> simp [Except.map]

-- Literals are checked without a look at the library, and their values are those that the reducer has
-- taken down.
theorem exists_argumentsOf (spec : Text) (h : HaveValues arguments) :
    ∃ values, argumentsOf spec arguments = .ok values ∧ values.length = arguments.length ∧
      (∀ library, Expr.checkAll library arguments = .ok ()) ∧
      ∀ library scope, Expr.evaluateAll library scope arguments = .ok values := by
  induction arguments with
  | nil => exact ⟨[], rfl, rfl, fun _ => rfl, fun _ _ => by rw [Expr.evaluateAll]; rfl⟩
  | cons e rest ih =>
    rw [HaveValues, List.forall_mem_cons] at h
    obtain ⟨⟨v, hv⟩, hrest⟩ := h
    obtain ⟨values, hvalues, hlength, hcheck, hevaluate⟩ := ih hrest
    obtain ⟨hliteral, hvalue⟩ := literal?_eq_ok_some_iff.mp hv
    refine ⟨v :: values, ?_, by rw [List.length_cons, List.length_cons, hlength], ?_, ?_⟩
    · rw [argumentsOf_eq] at hvalues ⊢
      rw [List.mapM_cons, hvalues, argumentOf, hv]
      rfl
    · intro library
      rw [Expr.checkAll, seq_eq_ok_iff]
      exact ⟨Expr.checkCalls_of_isLiteral e hliteral, hcheck library⟩
    · intro library scope
      rw [Expr.evaluateAll, Expr.evaluate_of_isLiteral e hliteral, hvalue, hevaluate]
      rfl

theorem parse_of_shortFor (hspec : ShortFor spec name arguments)
    (hvalues : argumentsOf spec arguments = .ok values) :
    parse library spec =
      (functionOf library name values >>= fun function => .ok ⟨spec.trim, function, values⟩) := by
  rcases hspec with ⟨hparse, rfl⟩ | hparse
  · cases hvalues
    exact parse_name hparse
  · rw [parse_call hparse, hvalues]
    rfl

-- The library has the function, and the function takes so many arguments.
def Takes (library : Library) (name : Text) (count : ℕ) (function : Function) : Prop :=
  library.get? name = some function ∧ function.arity.allows count = true

theorem functionOf_eq_ok_iff {function : Function} :
    functionOf library name values = .ok function ↔
      Takes library name (values.length + 1) function := by
  unfold functionOf Takes
  cases library.get? name with
  | none => simp
  | some f =>
    by_cases hallows : f.arity.allows (values.length + 1) = true
    · simp only [hallows, if_true, Except.ok.injEq, Option.some.injEq]
      constructor
      · rintro rfl
        exact ⟨rfl, hallows⟩
      · exact fun h => h.1
    · rw [Bool.not_eq_true] at hallows
      simp only [hallows, Bool.false_eq_true, if_false, reduceCtorEq, false_iff, Option.some.injEq]
      rintro ⟨rfl, htrue⟩
      exact Bool.false_ne_true (hallows.symm.trans htrue)

theorem checkCall_eq_ok_iff {count : ℕ} :
    Expr.checkCall library name count = .ok () ↔ ∃ function, Takes library name count function := by
  unfold Expr.checkCall Takes
  cases library.get? name with
  | none => simp
  | some f => cases f.arity.allows count <;> simp

-- The reader of reducers and the compiler of queries look the function up in the same way, and count
-- the list as an argument.
theorem exists_parse_iff (library : Library) (hspec : ShortFor spec name arguments)
    (hvalues : argumentsOf spec arguments = .ok values) :
    (∃ reducer, parse library spec = .ok reducer) ↔
      ∃ function, Takes library name (values.length + 1) function := by
  rw [parse_of_shortFor hspec hvalues]
  constructor
  · rintro ⟨reducer, h⟩
    obtain ⟨function, hfunction, -⟩ := bind_eq_ok_iff.mp h
    exact ⟨function, functionOf_eq_ok_iff.mp hfunction⟩
  · rintro ⟨function, hfunction⟩
    exact ⟨_, bind_eq_ok_iff.mpr ⟨function, functionOf_eq_ok_iff.mpr hfunction, rfl⟩⟩

theorem compile_eq_ok_iff (hsource : Expr.parse source = .ok (.call name (.name list :: arguments)))
    (hcheck : Expr.checkAll library arguments = .ok ()) {query : Query} :
    Query.compile library source = .ok query ↔
      (∃ function, Takes library name (arguments.length + 1) function) ∧
        query = ⟨library, source, .call name (.name list :: arguments)⟩ := by
  have hcalls : Expr.checkCalls library (.call name (.name list :: arguments)) = .ok () ↔
      ∃ function, Takes library name (arguments.length + 1) function := by
    rw [Expr.checkCalls, seq_eq_ok_iff, List.length_cons, checkCall_eq_ok_iff]
    refine and_iff_left ?_
    rw [Expr.checkAll, seq_eq_ok_iff]
    exact ⟨rfl, hcheck⟩
  rw [← hcalls, Query.compile, bind_eq_ok_iff]
  constructor
  · rintro ⟨e, he, hrest⟩
    obtain rfl := Except.ok.inj (hsource.symm.trans he)
    obtain ⟨⟨⟩, hchecked, hquery⟩ := bind_eq_ok_iff.mp hrest
    exact ⟨hchecked, (Except.ok.inj hquery).symm⟩
  · rintro ⟨hchecked, rfl⟩
    exact ⟨_, hsource, bind_eq_ok_iff.mpr ⟨(), hchecked, rfl⟩⟩

-- The name comes to the list, each literal to its value, and the function is the same.
theorem evaluate_call {function : Function} (hfunction : library.get? name = some function)
    (hvalues : ∀ library scope, Expr.evaluateAll library scope arguments = .ok values)
    {items : List Value} {scope : Scope} (hlist : scope.get? list = some (.list items)) :
    (Expr.call name (.name list :: arguments)).evaluate library scope =
      function.call (.list items :: values) := by
  simp only [Expr.evaluate, hfunction, Expr.evaluateAll, hlist, hvalues]
  rfl

-- What is read as a reducer is short for a call of literals.
theorem exists_shortFor {reducer : Reducer} (h : parse library spec = .ok reducer) :
    ∃ name arguments, ShortFor spec name arguments ∧ ∀ a ∈ arguments, a.isLiteral = true := by
  cases hparse : Expr.parse spec with
  | error e =>
    rw [parse_error hparse] at h
    cases h
  | ok expr =>
    cases expr with
    | name name => exact ⟨name, [], .inl ⟨hparse, rfl⟩, List.forall_mem_nil _⟩
    | call name arguments =>
      rw [parse_call hparse, argumentsOf_eq] at h
      obtain ⟨values, hvalues, -⟩ := bind_eq_ok_iff.mp h
      refine ⟨name, arguments, .inr hparse, fun a ha => ?_⟩
      exact (argumentOf_eq_ok_iff.mp (exists_of_mapM hvalues ha)).1
    | _ =>
      rw [parse, hparse] at h
      cases h

-- A reducer is read just if the call that it is short for compiles, and then the two give the same
-- value or the same fault. What is short for no call of literals is refused for its spelling just if
-- no literal with a bad key comes before the first argument that is none.
theorem parse_abbreviates_call (library : Library) (spec : Text) :
    (∀ name arguments, ShortFor spec name arguments → HaveValues arguments →
      ∀ source list, Expr.parse source = .ok (.call name (.name list :: arguments)) →
        ((∃ reducer, parse library spec = .ok reducer) ↔
          ∃ query, Query.compile library source = .ok query) ∧
        ∀ reducer query, parse library spec = .ok reducer →
          Query.compile library source = .ok query →
            ∀ (items : List Value) (scope : Scope), scope.get? list = some (.list items) →
              reducer.reduce items = query.evaluate scope) ∧
    ((∀ name arguments, ShortFor spec name arguments → ∃ a ∈ arguments, a.isLiteral = false) →
      ((∃ s, parse library spec = .error (.query s)) ↔ ¬HasBadKey spec) ∧
        (HasBadKey spec →
          ∃ kind, parse library spec = .error (.evaluation (.ofFault (.nameKind kind))))) := by
  refine ⟨fun name arguments hspec harguments source list hsource => ?_, fun hshape => ?_⟩
  · obtain ⟨values, hvalues, hlength, hcheck, hevaluate⟩ := exists_argumentsOf spec harguments
    have hread := exists_parse_iff library hspec hvalues
    rw [hlength] at hread
    constructor
    · rw [hread]
      simp only [compile_eq_ok_iff hsource (hcheck library), exists_and_left, exists_eq, and_true]
    · intro reducer query hreducer hquery items scope hlist
      rw [parse_of_shortFor hspec hvalues] at hreducer
      obtain ⟨function, hfunction, hreducer⟩ := bind_eq_ok_iff.mp hreducer
      cases hreducer
      obtain ⟨-, rfl⟩ := (compile_eq_ok_iff hsource (hcheck library)).mp hquery
      exact (evaluate_call (functionOf_eq_ok_iff.mp hfunction).1 hevaluate hlist).symm
  · refine ⟨⟨?_, ?_⟩, parse_of_hasBadKey library⟩
    · rintro ⟨s, hs⟩ hbad
      obtain ⟨kind, hkind⟩ := parse_of_hasBadKey library hbad
      rw [hs] at hkind
      cases hkind
    · intro hbad
      cases hparse : parse library spec with
      | error failure =>
        rcases parse_eq_error hparse with ⟨s, rfl⟩ | ⟨hbad', -⟩
        · exact ⟨s, rfl⟩
        · exact absurd hbad' hbad
      | ok reducer =>
        obtain ⟨name, arguments, hspec, hliterals⟩ := exists_shortFor hparse
        obtain ⟨a, ha, hnone⟩ := hshape name arguments hspec
        rw [hliterals a ha] at hnone
        cases hnone

open RecordQuery.Expr (IsSpellable)

-- Calls of one function, with integers, names and objects as arguments.
def percentile (arguments : List Expr) : Expr := .call "percentile" arguments

def integer (z : ℤ) : Expr := .literal (.number (.ofInt z))

-- An object with a number as a key, in front of a name.
def keyedByNumber : List Expr := [.object [(integer 1, integer 2)], .name "x"]

theorem isName_examples :
    Expr.IsName "percentile" ∧ Expr.IsName "x" ∧ Expr.IsName "xs" := by
  decide +kernel

theorem parse_percentile (h : ∀ e ∈ arguments, IsSpellable e) :
    Expr.parse (percentile arguments).source = .ok (percentile arguments) := by
  have hspellable : IsSpellable (percentile arguments) := .call isName_examples.1 h
  exact Expr.parse_of_spells (hspellable.isWritten [] Text.ends_nil)

theorem isSpellable_integer (z : ℤ) : IsSpellable (integer z) :=
  .literal (.number (Number.isCanonical_ofInt z))

theorem parse_keyedByNumber :
    Expr.parse (percentile keyedByNumber).source = .ok (percentile keyedByNumber) := by
  refine parse_percentile (List.forall_mem_cons.mpr ⟨.object ?_ ?_, ?_⟩)
  · exact List.forall_mem_singleton.mpr (isSpellable_integer 1)
  · exact List.forall_mem_singleton.mpr (isSpellable_integer 2)
  · exact List.forall_mem_singleton.mpr (.name isName_examples.2.1)

theorem not_isLiteral_of_shortFor_keyedByNumber
    (h : ShortFor (percentile keyedByNumber).source name arguments) :
    ∃ a ∈ arguments, a.isLiteral = false := by
  rcases h with ⟨hname, -⟩ | hcall
  · rw [parse_keyedByNumber] at hname
    cases hname
  · rw [parse_keyedByNumber] at hcall
    cases hcall
    exact ⟨.name "x", List.mem_cons_of_mem _ List.mem_cons_self, rfl⟩

theorem hasBadKey_keyedByNumber : HasBadKey (percentile keyedByNumber).source :=
  ⟨_, [], _, _, parse_keyedByNumber, List.forall_mem_nil _, rfl, rfl⟩

-- The least item, and a call in which a bad key comes before an argument that is no literal.
theorem parse_abbreviates_call_percentile :
    (∃ reducer query, parse .standard (percentile [integer 0]).source = .ok reducer ∧
      Query.compile .standard (percentile [.name "xs", integer 0]).source = .ok query ∧
      ∀ (items : List Value) (scope : Scope), scope.get? "xs" = some (.list items) →
        reducer.reduce items = query.evaluate scope) ∧
    ∃ kind, parse .standard (percentile keyedByNumber).source =
      .error (.evaluation (.ofFault (.nameKind kind))) := by
  constructor
  · have hspec : ShortFor (percentile [integer 0]).source "percentile" [integer 0] :=
      .inr (parse_percentile (List.forall_mem_singleton.mpr (isSpellable_integer 0)))
    have hsource := parse_percentile (List.forall_mem_cons.mpr
      ⟨.name isName_examples.2.2, List.forall_mem_singleton.mpr (isSpellable_integer 0)⟩)
    have hvalues : HaveValues [integer 0] := List.forall_mem_singleton.mpr
      ⟨.number (.ofInt 0), literal?_eq_ok_some_iff.mpr ⟨rfl, by rw [integer, Expr.evaluate]; rfl⟩⟩
    obtain ⟨hread, hsame⟩ :=
      (parse_abbreviates_call .standard _).1 _ _ hspec hvalues _ _ hsource
    obtain ⟨query, hquery⟩ : ∃ query,
        Query.compile .standard (percentile [.name "xs", integer 0]).source = .ok query :=
      ⟨_, (compile_eq_ok_iff hsource rfl).mpr ⟨⟨Function.percentile, rfl, by decide⟩, rfl⟩⟩
    obtain ⟨reducer, hreducer⟩ := hread.mpr ⟨query, hquery⟩
    exact ⟨reducer, query, hreducer, hquery, hsame reducer query hreducer hquery⟩
  · exact ((parse_abbreviates_call .standard _).2 fun _ _ =>
      not_isLiteral_of_shortFor_keyedByNumber).2 hasBadKey_keyedByNumber

-- The bad key is reported, and not the argument that is no literal.
theorem parse_not_refused :
    ¬∀ spec : Text, (∀ name arguments, ShortFor spec name arguments →
        ∃ a ∈ arguments, a.isLiteral = false) →
      ∃ s, parse .standard spec = .error (.query s) := by
  intro h
  obtain ⟨s, hs⟩ := h _ fun _ _ => not_isLiteral_of_shortFor_keyedByNumber
  obtain ⟨kind, hkind⟩ := parse_of_hasBadKey .standard hasBadKey_keyedByNumber
  rw [hs] at hkind
  cases hkind

end RecordQuery.Reducer
