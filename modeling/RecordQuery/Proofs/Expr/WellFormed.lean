import RecordQuery.Expr.Literal
import RecordQuery.Proofs.Expr.Soundness
import RecordQuery.Proofs.Function.WellFormed

/-!
Well-formed values in expressions. The literals of a parsed expression are well-formed, and from
such literals, in a scope of well-formed values and with functions that keep to them, evaluation
makes a well-formed value.
-/

namespace RecordQuery.Expr

mutual

-- The constants that stand anywhere in an expression.
def literals : Expr → List Value
  | .literal v => [v]
  | .name _ => []
  | .tuple elements => literalsAll elements
  | .list elements => literalsAll elements
  | .object entries => literalsEntries entries
  | .comprehension element _ source condition =>
    literals source ++ (literals element ++ literalsOption condition)
  | .unary _ operand => literals operand
  | .binary _ left right => literals left ++ literals right
  | .compare first links => literals first ++ literalsLinks links
  | .logical _ left right => literals left ++ literals right
  | .conditional test consequent alternate =>
    literals test ++ (literals consequent ++ literals alternate)
  | .attribute container _ => literals container
  | .index container position => literals container ++ literals position
  | .slice container start stop =>
    literals container ++ (literalsOption start ++ literalsOption stop)
  | .call _ arguments => literalsAll arguments

def literalsAll : List Expr → List Value
  | [] => []
  | e :: rest => literals e ++ literalsAll rest

def literalsEntries : List (Expr × Expr) → List Value
  | [] => []
  | (key, value) :: rest => literals key ++ (literals value ++ literalsEntries rest)

def literalsLinks : List (CompareOp × Expr) → List Value
  | [] => []
  | (_, e) :: rest => literals e ++ literalsLinks rest

def literalsOption : Option Expr → List Value
  | none => []
  | some e => literals e

end

theorem literals_subset_literalsAll {e : Expr} {es : List Expr} (h : e ∈ es) :
    e.literals ⊆ literalsAll es := by
  induction es with
  | nil => cases h
  | cons first rest ih =>
    rcases List.mem_cons.mp h with rfl | hrest
    · exact List.subset_append_left _ _
    · exact List.subset_append_of_subset_right _ (ih hrest)

open Value (WellFormed wellFormed_text wellFormed_bool wellFormed_null wellFormed_list
  wellFormed_tuple wellFormed_number wellFormed_object)

-- Evaluation.
theorem ensures_bindTargets (targets : List Text) {item : Value} (h : item.WellFormed) :
    Ensures (fun bound => ∀ e ∈ bound, e.2.WellFormed) (bindTargets targets item) := by
  unfold bindTargets
  split
  · exact .ok (List.forall_mem_singleton.mpr h)
  · split
    · next items hitems =>
      split
      · refine .ok fun e he => ?_
        exact h.items? hitems e.2 (List.of_mem_zip (List.mem_reverse.mp he)).2
      · exact .error _
    · exact .error _

theorem ensures_objectOf {entries : List (Value × Value)} (h : ∀ e ∈ entries, e.2.WellFormed) :
    Ensures WellFormed (objectOf entries) := by
  refine .bind (.mapM fun e he => ?_) fun fields hfields =>
    .ok (wellFormed_object.mpr (Fields.forall_mem_ofEntries hfields))
  split
  · exact .ok (h e he)
  · exact .error _

variable {library : Library}

mutual

-- By recursion on the expression, for all scopes at once, since a comprehension changes them.
theorem ensures_evaluate (hl : library.Preserves) (e : Expr) {scope : Scope}
    (hs : ∀ x ∈ scope, x.2.WellFormed) (h : ∀ v ∈ e.literals, v.WellFormed) :
    Ensures WellFormed (evaluate library scope e) := by
  cases e with
  | literal v =>
    rw [evaluate]
    exact .ok (h v List.mem_cons_self)
  | name n =>
    rw [evaluate]
    split
    · next v hv => exact .ok (Value.wellFormed_get? hs hv)
    · exact .error _
  | tuple elements =>
    rw [evaluate]
    exact .bind (ensures_evaluateAll hl elements hs h) fun vs hvs => .ok (wellFormed_tuple.mpr hvs)
  | list elements =>
    rw [evaluate]
    exact .bind (ensures_evaluateAll hl elements hs h) fun vs hvs => .ok (wellFormed_list.mpr hvs)
  | object entries =>
    rw [evaluate]
    exact .bind (ensures_evaluateEntries hl entries hs h) fun pairs hpairs =>
      ensures_objectOf hpairs
  | comprehension element targets source condition =>
    obtain ⟨hsource, hinner⟩ := List.forall_mem_append.mp h
    obtain ⟨helement, -⟩ := List.forall_mem_append.mp hinner
    rw [evaluate]
    refine .bind (ensures_evaluate hl source hs hsource) fun v hv => ?_
    split
    · exact .error _
    · next items hitems =>
      refine .bind (.filterMapM fun item hitem => ?_) fun found hfound =>
        .ok (wellFormed_list.mpr hfound)
      have hitem : item.WellFormed := hv.iterated? hitems item hitem
      refine .bind (ensures_bindTargets targets hitem) fun bound hbound => .after fun met => ?_
      cases met with
      | false => exact .ok nofun
      | true =>
        have hinner := List.forall_mem_append.mpr ⟨hbound, hs⟩
        exact .bind (ensures_evaluate hl element hinner helement) fun w hw =>
          .ok fun _ hfound => Option.mem_some.mp hfound ▸ hw
  | unary op operand =>
    rw [evaluate]
    exact .bind (ensures_evaluate hl operand hs h) fun v hv => Value.ensures_unary op hv
  | binary op left right =>
    obtain ⟨hleft, hright⟩ := List.forall_mem_append.mp h
    rw [evaluate]
    exact .bind (ensures_evaluate hl left hs hleft) fun a ha =>
      .bind (ensures_evaluate hl right hs hright) fun b hb => Value.ensures_binary op ha hb
  | compare first links =>
    rw [evaluate]
    exact .after fun v => .after fun b => .ok (wellFormed_bool b)
  | logical op left right =>
    obtain ⟨hleft, hright⟩ := List.forall_mem_append.mp h
    rw [evaluate]
    refine .bind (ensures_evaluate hl left hs hleft) fun v hv => ?_
    cases op with
    | and =>
      dsimp only
      split
      · exact ensures_evaluate hl right hs hright
      · exact .ok hv
    | or =>
      dsimp only
      split
      · exact .ok hv
      · exact ensures_evaluate hl right hs hright
  | conditional test consequent alternate =>
    obtain ⟨-, hbranches⟩ := List.forall_mem_append.mp h
    obtain ⟨hconsequent, halternate⟩ := List.forall_mem_append.mp hbranches
    rw [evaluate]
    refine .after fun v => ?_
    split
    · exact ensures_evaluate hl consequent hs hconsequent
    · exact ensures_evaluate hl alternate hs halternate
  | «attribute» container word =>
    rw [evaluate]
    exact .bind (ensures_evaluate hl container hs h) fun v hv => Value.ensures_namedField hv word
  | index container position =>
    obtain ⟨hcontainer, -⟩ := List.forall_mem_append.mp h
    rw [evaluate]
    exact .bind (ensures_evaluate hl container hs hcontainer) fun v hv =>
      .after fun w => Value.ensures_index hv w
  | slice container start stop =>
    obtain ⟨hcontainer, -⟩ := List.forall_mem_append.mp h
    rw [evaluate]
    exact .bind (ensures_evaluate hl container hs hcontainer) fun v hv =>
      .after fun first => .after fun last => Value.ensures_slice hv first last
  | call function arguments =>
    rw [evaluate]
    split
    · exact .error _
    · next f hf =>
      exact .bind (ensures_evaluateAll hl arguments hs h) fun vs hvs => hl.get? hf vs hvs

theorem ensures_evaluateAll (hl : library.Preserves) (es : List Expr) {scope : Scope}
    (hs : ∀ x ∈ scope, x.2.WellFormed) (h : ∀ v ∈ literalsAll es, v.WellFormed) :
    Ensures (fun vs => ∀ v ∈ vs, v.WellFormed) (evaluateAll library scope es) := by
  cases es with
  | nil =>
    rw [evaluateAll]
    exact .ok nofun
  | cons e rest =>
    obtain ⟨hfirst, hrest⟩ := List.forall_mem_append.mp h
    rw [evaluateAll]
    exact .bind (ensures_evaluate hl e hs hfirst) fun v hv =>
      .bind (ensures_evaluateAll hl rest hs hrest) fun vs hvs =>
        .ok (List.forall_mem_cons.mpr ⟨hv, hvs⟩)

theorem ensures_evaluateEntries (hl : library.Preserves) (entries : List (Expr × Expr))
    {scope : Scope} (hs : ∀ x ∈ scope, x.2.WellFormed)
    (h : ∀ v ∈ literalsEntries entries, v.WellFormed) :
    Ensures (fun pairs => ∀ e ∈ pairs, e.2.WellFormed)
      (evaluateEntries library scope entries) := by
  cases entries with
  | nil =>
    rw [evaluateEntries]
    exact .ok nofun
  | cons entry rest =>
    obtain ⟨-, hmore⟩ := List.forall_mem_append.mp h
    obtain ⟨hvalue, hrest⟩ := List.forall_mem_append.mp hmore
    rw [evaluateEntries]
    exact .after fun key => .bind (ensures_evaluate hl entry.2 hs hvalue) fun v hv =>
      .bind (ensures_evaluateEntries hl rest hs hrest) fun pairs hpairs =>
        .ok (List.forall_mem_cons.mpr ⟨hv, hpairs⟩)

end

-- Parsing.
open Grammar

theorem wellFormed_of_constant {t : Token} {v : Value} (h : Constant t v) : v.WellFormed := by
  cases h with
  | integer h => exact wellFormed_number.mpr (Number.wellFormed_ofInt _)
  | float h => exact wellFormed_number.mpr trivial
  | truth h => exact wellFormed_bool true
  | falsity h => exact wellFormed_bool false
  | null h => exact wellFormed_null

theorem literals_of_operator {level : Level} {kind : Token.Kind} {op : Expr → Expr → Expr}
    (h : Operator level kind op) (left right : Expr) :
    (op left right).literals = left.literals ++ right.literals := by
  cases h <;> rfl

-- By induction on the phrase: no rule of the grammar makes a constant, except that a minus turns
-- the one after it.
theorem wellFormed_of_conditional {ts : List Token} {e : Expr} (h : Conditional ts e) :
    ∀ v ∈ e.literals, v.WellFormed := by
  refine @Conditional.rec
    (fun _ e _ => ∀ v ∈ e.literals, v.WellFormed)
    (fun _ _ e _ => ∀ v ∈ e.literals, v.WellFormed)
    (fun _ _ e _ => ∀ v ∈ e.literals, v.WellFormed)
    (fun _ e _ => ∀ v ∈ e.literals, v.WellFormed)
    (fun _ e _ => ∀ v ∈ e.literals, v.WellFormed)
    (fun _ links _ => ∀ v ∈ literalsLinks links, v.WellFormed)
    (fun _ e _ => ∀ v ∈ e.literals, v.WellFormed)
    (fun _ e _ => ∀ v ∈ e.literals, v.WellFormed)
    (fun _ e _ => ∀ v ∈ e.literals, v.WellFormed)
    (fun _ bound _ => ∀ v ∈ literalsOption bound, v.WellFormed)
    (fun _ es _ => ∀ v ∈ literalsAll es, v.WellFormed)
    (fun _ es _ => ∀ v ∈ literalsAll es, v.WellFormed)
    (fun _ e _ => ∀ v ∈ e.literals, v.WellFormed)
    (fun _ condition _ => ∀ v ∈ literalsOption condition, v.WellFormed)
    (fun _ es _ => ∀ v ∈ literalsEntries es, v.WellFormed)
    (fun _ entry _ => ∀ v ∈ entry.1.literals ++ entry.2.literals, v.WellFormed)
    (fun _ key _ => ∀ v ∈ key.literals, v.WellFormed)
    ?plain ?guard ?choice ?operand ?join ?conjunction ?negation ?product ?signed ?not ?comparison
    ?sum ?compare ?linksNil ?linksCons ?number ?minus ?plus ?unsigned ?base ?power ?primary ?field
    ?method ?index ?slice ?boundAbsent ?boundPresent ?parens ?listedNil ?listedLast ?listedMore
    ?constant ?strings ?name ?call ?empty ?group ?tuple ?list ?comprehension ?object
    ?conditionAbsent ?conditionPresent ?entriesNil ?entriesLast ?entriesMore ?pair ?word ?computed
    ts e h
  -- conditionals and chains
  case plain => exact fun _ h => h
  case guard => exact fun _ _ _ h ht =>
    List.forall_mem_append.mpr ⟨ht, List.forall_mem_append.mpr ⟨h, nofun⟩⟩
  case choice => exact fun _ _ _ _ _ h ht ha =>
    List.forall_mem_append.mpr ⟨ht, List.forall_mem_append.mpr ⟨h, ha⟩⟩
  case operand => exact fun _ h => h
  case join => exact fun _ ho _ h hr =>
    literals_of_operator ho _ _ ▸ List.forall_mem_append.mpr ⟨h, hr⟩
  case conjunction => exact fun _ h => h
  case negation => exact fun _ h => h
  case product => exact fun _ h => h
  case signed => exact fun _ h => h
  -- negations and comparisons
  case not => exact fun _ _ h => h
  case comparison => exact fun _ h => h
  case sum => exact fun _ h => h
  case compare => exact fun _ _ h hl => List.forall_mem_append.mpr ⟨h, hl⟩
  case linksNil => exact nofun
  case linksCons => exact fun _ _ _ h hl => List.forall_mem_append.mpr ⟨h, hl⟩
  -- signs and powers
  case number =>
    intro t ts n _ _ h
    have hn := wellFormed_number.mp (List.forall_mem_singleton.mp h)
    exact List.forall_mem_singleton.mpr (wellFormed_number.mpr hn.neg)
  case minus => exact fun _ _ _ h => h
  case plus => exact fun _ _ h => h
  case unsigned => exact fun _ h => h
  case base => exact fun _ h => h
  case power => exact fun _ _ _ h hx => List.forall_mem_append.mpr ⟨h, hx⟩
  -- operands and what is attached to them
  case primary => exact fun _ h => h
  case field => exact fun _ _ _ h => h
  case method => exact fun _ _ _ _ h ha => List.forall_mem_append.mpr ⟨h, ha⟩
  case index => exact fun _ _ _ _ h hi => List.forall_mem_append.mpr ⟨h, hi⟩
  case slice => exact fun _ _ _ _ _ _ h hs hf =>
    List.forall_mem_append.mpr ⟨h, List.forall_mem_append.mpr ⟨hs, hf⟩⟩
  case boundAbsent => exact nofun
  case boundPresent => exact fun _ h => h
  case parens => exact fun _ _ _ h => h
  case listedNil => exact nofun
  case listedLast => exact fun _ h => List.forall_mem_append.mpr ⟨h, nofun⟩
  case listedMore => exact fun _ _ _ h hs => List.forall_mem_append.mpr ⟨h, hs⟩
  case constant => exact fun h => List.forall_mem_singleton.mpr (wellFormed_of_constant h)
  case strings => exact fun _ => List.forall_mem_singleton.mpr (wellFormed_text _)
  case name => exact nofun
  case call => exact fun _ _ ha => ha
  case empty => exact nofun
  case group => exact fun _ _ _ h => h
  case tuple => exact fun _ _ _ _ _ h hs => List.forall_mem_append.mpr ⟨h, hs⟩
  case list => exact fun _ _ _ hs => hs
  case comprehension => exact fun _ _ _ _ _ _ _ _ h hs hc =>
    List.forall_mem_append.mpr ⟨hs, List.forall_mem_append.mpr ⟨h, hc⟩⟩
  case object => exact fun _ _ _ hs => hs
  case conditionAbsent => exact nofun
  case conditionPresent => exact fun _ _ h => h
  -- entries of objects
  case entriesNil => exact nofun
  case entriesLast => exact fun _ h => by simpa [literalsEntries] using h
  case entriesMore =>
    refine fun _ _ _ h hs => ?_
    simpa [literalsEntries] using List.forall_mem_append.mpr ⟨h, hs⟩
  case pair => exact fun _ _ _ hk hv => List.forall_mem_append.mpr ⟨hk, hv⟩
  case word => exact fun _ => List.forall_mem_singleton.mpr (wellFormed_text _)
  case computed => exact fun _ _ h => h

theorem wellFormed_of_listed : ∀ {ts : List Token} {es : List Expr}, Listed ts es →
    ∀ v ∈ literalsAll es, v.WellFormed
  | _, _, .nil => nofun
  | _, _, .last h => List.forall_mem_append.mpr ⟨wellFormed_of_conditional h, nofun⟩
  | _, _, .more h _ hs =>
    List.forall_mem_append.mpr ⟨wellFormed_of_conditional h, wellFormed_of_listed hs⟩

theorem wellFormed_of_parse {source : Text} {e : Expr} (h : parse source = .ok e) :
    ∀ v ∈ e.literals, v.WellFormed := by
  unfold parse at h
  split at h
  · cases h
  · obtain ⟨ts, -, h⟩ := bind_eq_ok_iff.mp h
    cases ofTokens_sound h with
    | single hfirst => exact wellFormed_of_conditional hfirst
    | tuple hfirst _ hrest =>
      exact List.forall_mem_append.mpr
        ⟨wellFormed_of_conditional hfirst, wellFormed_of_listed hrest⟩

-- Literals, which need no functions and no names.
theorem ensures_literal? {e : Expr} (h : ∀ v ∈ e.literals, v.WellFormed) :
    Ensures (fun v => ∀ w ∈ v, WellFormed w) e.literal? := by
  have hlibrary : Library.Preserves [] := List.forall_mem_nil _
  have hscope : ∀ x ∈ ([] : Scope), x.2.WellFormed := List.forall_mem_nil _
  unfold literal?
  split
  · exact .map (ensures_evaluate hlibrary e hscope h) fun v hv w hw => Option.mem_some.mp hw ▸ hv
  · exact .ok nofun

theorem ensures_ofLiteral? (t : Text) :
    Ensures (fun v => ∀ w ∈ v, WellFormed w) (Value.ofLiteral? t) := by
  unfold Value.ofLiteral?
  split
  · next e he => exact ensures_literal? (wellFormed_of_parse he)
  · exact .ok nofun

theorem ensures_ofSpelling (t : Text) : Ensures WellFormed (Value.ofSpelling t) :=
  .map (ensures_ofLiteral? t) fun v hv => by
    cases v with
    | some w => exact hv w rfl
    | none => exact wellFormed_text t

end RecordQuery.Expr
