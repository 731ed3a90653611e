import RecordQuery.Expr.Calls
import RecordQuery.Function.Standard
import RecordQuery.Proofs.Attempt
import RecordQuery.Proofs.Value.Fields

/-!
What an evaluation asks of the library: whether there is a function of some name, and what a function
makes of some arguments. Evaluation knows of the library no more than the answers to these requests,
and a query that compiles never asks for a function that is not there or for a call with more or
fewer arguments than the function takes.
-/

namespace RecordQuery

inductive Request
  | lookup (function : Text)
  | application (function : Text) (arguments : List Value)

namespace Request

-- The library has the function, and for an application the function takes so many arguments.
def IsServed (library : Library) : Request → Prop
  | .lookup function => ∃ f, library.get? function = some f
  | .application function arguments =>
    ∃ f, library.get? function = some f ∧ f.arity.allows arguments.length = true

-- Both libraries have the function or neither has it, and for an application they have functions
-- that give the same result or the same fault.
def SameAnswer (library other : Library) : Request → Prop
  | .lookup function => library.has function = other.has function
  | .application function arguments =>
    (library.get? function).map (·.call arguments) = (other.get? function).map (·.call arguments)

-- The requests that follow an attempt if it succeeds.
def after {α : Type} (x : Except Fault α) (next : α → List Request) : List Request :=
  match x with
  | .ok a => next a
  | .error _ => []

-- The requests of rounds one after another, up to the first that fails.
def inTurn {α β : Type} (round : α → Except Fault β) (requests : α → List Request) :
    List α → List Request
  | [] => []
  | a :: rest => requests a ++ after (round a) fun _ => inTurn round requests rest

end Request

namespace Expr

open Request (after inTurn)

-- One round of a comprehension: the value of the element, if the condition is met.
def round (library : Library) (scope : Scope) (element : Expr) (targets : List Text)
    (condition : Option Expr) (item : Value) : Except Fault (Option Value) := do
  let inner := (← bindTargets targets item) ++ scope
  if ← isMet library inner condition then return some (← evaluate library inner element)
  else return none

mutual

-- The requests of an evaluation in the order in which it makes them. What comes after a fault is not
-- evaluated, nor is the other branch of a conditional, and so on.
def requests (library : Library) (scope : Scope) : Expr → List Request
  | .literal _ => []
  | .name _ => []
  | .tuple elements => requestsAll library scope elements
  | .list elements => requestsAll library scope elements
  | .object entries => requestsEntries library scope entries
  | .comprehension element targets source condition =>
    requests library scope source ++ after (evaluate library scope source) fun source =>
      inTurn (round library scope element targets condition)
        (fun item => after (bindTargets targets item) fun bound =>
          requestsOption library (bound ++ scope) condition ++
            after (isMet library (bound ++ scope) condition) fun met =>
              if met then requests library (bound ++ scope) element else [])
        (source.iterated?.getD [])
  | .unary _ operand => requests library scope operand
  | .binary _ left right =>
    requests library scope left ++ after (evaluate library scope left) fun _ =>
      requests library scope right
  | .compare first links =>
    requests library scope first ++ after (evaluate library scope first) fun left =>
      requestsLinks library scope left links
  | .logical op left right =>
    requests library scope left ++ after (evaluate library scope left) fun left =>
      match op with
      | .and => if left.isTruthy then requests library scope right else []
      | .or => if left.isTruthy then [] else requests library scope right
  | .conditional test consequent alternate =>
    requests library scope test ++ after (evaluate library scope test) fun test =>
      if test.isTruthy then requests library scope consequent
      else requests library scope alternate
  | .attribute container _ => requests library scope container
  | .index container position =>
    requests library scope container ++ after (evaluate library scope container) fun _ =>
      requests library scope position
  | .slice container start stop =>
    requests library scope container ++ after (evaluate library scope container) fun _ =>
      requestsOption library scope start ++ after (evaluateBound library scope start) fun _ =>
        requestsOption library scope stop
  | .call function arguments =>
    .lookup function ::
      if library.has function then
        requestsAll library scope arguments ++ after (evaluateAll library scope arguments)
          fun arguments => [.application function arguments]
      else []

def requestsAll (library : Library) (scope : Scope) : List Expr → List Request
  | [] => []
  | e :: rest =>
    requests library scope e ++ after (evaluate library scope e) fun _ =>
      requestsAll library scope rest

def requestsEntries (library : Library) (scope : Scope) : List (Expr × Expr) → List Request
  | [] => []
  | (key, value) :: rest =>
    requests library scope key ++ after (evaluate library scope key) fun _ =>
      requests library scope value ++ after (evaluate library scope value) fun _ =>
        requestsEntries library scope rest

def requestsLinks (library : Library) (scope : Scope) (left : Value) :
    List (CompareOp × Expr) → List Request
  | [] => []
  | (op, e) :: rest =>
    requests library scope e ++ after (evaluate library scope e) fun right =>
      after (Value.holds op left right) fun holds =>
        if holds then requestsLinks library scope right rest else []

def requestsOption (library : Library) (scope : Scope) : Option Expr → List Request
  | none => []
  | some e => requests library scope e

end

variable {library other : Library} {scope : Scope} {α β : Type} {P : Request → Prop}

-- The library serves each of the requests.
def Served (library : Library) (requests : List Request) : Prop :=
  ∀ r ∈ requests, r.IsServed library

theorem served_append {rs rs' : List Request} (h : Served library rs) (h' : Served library rs') :
    Served library (rs ++ rs') :=
  List.forall_mem_append.mpr ⟨h, h'⟩

theorem served_after {x : Except Fault α} {next : α → List Request}
    (h : ∀ a, x = .ok a → Served library (next a)) : Served library (after x next) := by
  cases x with
  | error e => exact List.forall_mem_nil _
  | ok a => exact h a rfl

theorem served_inTurn {round : α → Except Fault β} {requests : α → List Request}
    (h : ∀ a, Served library (requests a)) (as : List α) :
    Served library (inTurn round requests as) := by
  induction as with
  | nil => exact List.forall_mem_nil _
  | cons a rest ih => exact served_append (h a) (served_after fun _ _ => ih)

theorem exists_of_checkCall {function : Text} {given : Nat}
    (h : checkCall library function given = .ok ()) :
    ∃ f, library.get? function = some f ∧ f.arity.allows given = true := by
  unfold checkCall at h
  split at h
  · cases h
  · next f hf =>
    split at h
    · next hallows => exact ⟨f, hf, hallows⟩
    · cases h

theorem length_of_evaluateAll {es : List Expr} {vs : List Value}
    (h : evaluateAll library scope es = .ok vs) : vs.length = es.length := by
  induction es generalizing vs with
  | nil =>
    cases h
    rfl
  | cons e rest ih =>
    obtain ⟨v, -, hrest⟩ := bind_eq_ok_iff.mp h
    obtain ⟨more, hmore, hvs⟩ := bind_eq_ok_iff.mp hrest
    cases hvs
    rw [List.length_cons, List.length_cons, ih hmore]

mutual

-- By recursion on the expression, for every scope: the check goes to every part that an evaluation can
-- reach.
theorem served_requests (e : Expr) (scope : Scope) (h : e.checkCalls library = .ok ()) :
    Served library (requests library scope e) := by
  cases e with
  | literal v => exact List.forall_mem_nil _
  | name n => exact List.forall_mem_nil _
  | tuple elements => exact served_requestsAll elements scope h
  | list elements => exact served_requestsAll elements scope h
  | object entries => exact served_requestsEntries entries scope h
  | comprehension element targets source condition =>
    obtain ⟨helement, hmore⟩ := seq_eq_ok_iff.mp h
    obtain ⟨hsource, hcondition⟩ := seq_eq_ok_iff.mp hmore
    refine served_append (served_requests source scope hsource) (served_after fun v _ => ?_)
    refine served_inTurn (fun item => served_after fun bound _ => ?_) _
    refine served_append (served_requestsOption condition _ hcondition) (served_after fun met _ => ?_)
    cases met with
    | false => exact List.forall_mem_nil _
    | true => exact served_requests element _ helement
  | unary op operand => exact served_requests operand scope h
  | binary op left right =>
    obtain ⟨hleft, hright⟩ := seq_eq_ok_iff.mp h
    exact served_append (served_requests left scope hleft)
      (served_after fun _ _ => served_requests right scope hright)
  | compare first links =>
    obtain ⟨hfirst, hlinks⟩ := seq_eq_ok_iff.mp h
    exact served_append (served_requests first scope hfirst)
      (served_after fun left _ => served_requestsLinks links scope left hlinks)
  | logical op left right =>
    obtain ⟨hleft, hright⟩ := seq_eq_ok_iff.mp h
    refine served_append (served_requests left scope hleft) (served_after fun v _ => ?_)
    cases op with
    | and =>
      dsimp only
      split
      · exact served_requests right scope hright
      · exact List.forall_mem_nil _
    | or =>
      dsimp only
      split
      · exact List.forall_mem_nil _
      · exact served_requests right scope hright
  | conditional test consequent alternate =>
    obtain ⟨htest, hmore⟩ := seq_eq_ok_iff.mp h
    obtain ⟨hconsequent, halternate⟩ := seq_eq_ok_iff.mp hmore
    refine served_append (served_requests test scope htest) (served_after fun v _ => ?_)
    split
    · exact served_requests consequent scope hconsequent
    · exact served_requests alternate scope halternate
  | «attribute» container word => exact served_requests container scope h
  | index container position =>
    obtain ⟨hcontainer, hposition⟩ := seq_eq_ok_iff.mp h
    exact served_append (served_requests container scope hcontainer)
      (served_after fun _ _ => served_requests position scope hposition)
  | slice container start stop =>
    obtain ⟨hcontainer, hmore⟩ := seq_eq_ok_iff.mp h
    obtain ⟨hstart, hstop⟩ := seq_eq_ok_iff.mp hmore
    exact served_append (served_requests container scope hcontainer) (served_after fun _ _ =>
      served_append (served_requestsOption start scope hstart)
        (served_after fun _ _ => served_requestsOption stop scope hstop))
  | call function arguments =>
    obtain ⟨hcall, harguments⟩ := seq_eq_ok_iff.mp h
    obtain ⟨f, hf, hallows⟩ := exists_of_checkCall hcall
    refine List.forall_mem_cons.mpr ⟨⟨f, hf⟩, ?_⟩
    split
    · refine served_append (served_requestsAll arguments scope harguments)
        (served_after fun vs hvs => List.forall_mem_singleton.mpr ⟨f, hf, ?_⟩)
      rw [length_of_evaluateAll hvs]
      exact hallows
    · exact List.forall_mem_nil _

theorem served_requestsAll (es : List Expr) (scope : Scope) (h : checkAll library es = .ok ()) :
    Served library (requestsAll library scope es) := by
  cases es with
  | nil => exact List.forall_mem_nil _
  | cons e rest =>
    obtain ⟨he, hrest⟩ := seq_eq_ok_iff.mp h
    exact served_append (served_requests e scope he)
      (served_after fun _ _ => served_requestsAll rest scope hrest)

theorem served_requestsEntries (entries : List (Expr × Expr)) (scope : Scope)
    (h : checkEntries library entries = .ok ()) :
    Served library (requestsEntries library scope entries) := by
  cases entries with
  | nil => exact List.forall_mem_nil _
  | cons entry rest =>
    obtain ⟨key, value⟩ := entry
    obtain ⟨hkey, hmore⟩ := seq_eq_ok_iff.mp h
    obtain ⟨hvalue, hrest⟩ := seq_eq_ok_iff.mp hmore
    exact served_append (served_requests key scope hkey) (served_after fun _ _ =>
      served_append (served_requests value scope hvalue)
        (served_after fun _ _ => served_requestsEntries rest scope hrest))

theorem served_requestsLinks (links : List (CompareOp × Expr)) (scope : Scope) (left : Value)
    (h : checkLinks library links = .ok ()) :
    Served library (requestsLinks library scope left links) := by
  cases links with
  | nil => exact List.forall_mem_nil _
  | cons link rest =>
    obtain ⟨op, e⟩ := link
    obtain ⟨he, hrest⟩ := seq_eq_ok_iff.mp h
    refine served_append (served_requests e scope he)
      (served_after fun right _ => served_after fun holds _ => ?_)
    cases holds with
    | false => exact List.forall_mem_nil _
    | true => exact served_requestsLinks rest scope right hrest

theorem served_requestsOption (e : Option Expr) (scope : Scope)
    (h : checkOption library e = .ok ()) : Served library (requestsOption library scope e) := by
  cases e with
  | none => exact List.forall_mem_nil _
  | some e => exact served_requests e scope h

end

-- Two attempts that start alike, and go on alike where requests that follow have the property, are
-- the same attempt.
theorem bind_congr_of_after {x : Except Fault α} {f g : α → Except Fault β}
    {next : α → List Request} (h : ∀ r ∈ after x next, P r)
    (hnext : ∀ a, (∀ r ∈ next a, P r) → g a = f a) : x >>= g = x >>= f := by
  cases x with
  | error e => rfl
  | ok a => exact hnext a h

theorem bind_congr_of_append {x y : Except Fault α} {f g : α → Except Fault β} {rs : List Request}
    {next : α → List Request} (h : ∀ r ∈ rs ++ after x next, P r)
    (hx : (∀ r ∈ rs, P r) → y = x) (hnext : ∀ a, (∀ r ∈ next a, P r) → g a = f a) :
    y >>= g = x >>= f := by
  obtain ⟨hrs, hafter⟩ := List.forall_mem_append.mp h
  rw [hx hrs]
  exact bind_congr_of_after hafter hnext

theorem ite_congr_of_ite {c : Prop} [Decidable c] {x x' y y' : Except Fault α}
    {rs rs' : List Request} (h : ∀ r ∈ if c then rs else rs', P r)
    (hx : (∀ r ∈ rs, P r) → x' = x) (hy : (∀ r ∈ rs', P r) → y' = y) :
    (if c then x' else y') = if c then x else y := by
  split at h
  · next hc => rw [if_pos hc, if_pos hc, hx h]
  · next hc => rw [if_neg hc, if_neg hc, hy h]

theorem filterMapM_congr_of_inTurn {f g : α → Except Fault (Option β)}
    {requests : α → List Request} {as : List α} (h : ∀ r ∈ inTurn f requests as, P r)
    (hround : ∀ a, (∀ r ∈ requests a, P r) → g a = f a) : as.filterMapM g = as.filterMapM f := by
  induction as with
  | nil => rfl
  | cons a rest ih =>
    rw [List.filterMapM_cons, List.filterMapM_cons]
    exact bind_congr_of_append h (hround a) fun b hrest => by rw [ih hrest]

mutual

-- By recursion on the expression, for every scope: a part is evaluated only after its requests.
theorem evaluate_of_sameAnswer (e : Expr) (scope : Scope)
    (h : ∀ r ∈ requests library scope e, r.SameAnswer library other) :
    evaluate other scope e = evaluate library scope e := by
  cases e with
  | literal v => rw [evaluate, evaluate]
  | name n => rw [evaluate, evaluate]
  | tuple elements => rw [evaluate, evaluate, evaluateAll_of_sameAnswer elements scope h]
  | list elements => rw [evaluate, evaluate, evaluateAll_of_sameAnswer elements scope h]
  | object entries => rw [evaluate, evaluate, evaluateEntries_of_sameAnswer entries scope h]
  | comprehension element targets source condition =>
    rw [evaluate, evaluate]
    refine bind_congr_of_append h (evaluate_of_sameAnswer source scope) fun v hrounds => ?_
    cases hitems : v.iterated? with
    | none => rfl
    | some items =>
      rw [hitems] at hrounds
      have hround : ∀ item, (∀ r ∈ after (bindTargets targets item) fun bound =>
            requestsOption library (bound ++ scope) condition ++
              after (isMet library (bound ++ scope) condition) fun met =>
                if met then requests library (bound ++ scope) element else [],
            r.SameAnswer library other) →
          round other scope element targets condition item =
            round library scope element targets condition item := by
        intro item hitem
        refine bind_congr_of_after hitem fun bound hbound => ?_
        refine bind_congr_of_append hbound (isMet_of_sameAnswer condition _) fun met hmet => ?_
        cases met with
        | false => rfl
        | true => exact congrArg (· >>= _) (evaluate_of_sameAnswer element _ hmet)
      exact congrArg (· >>= _) (filterMapM_congr_of_inTurn hrounds hround)
  | unary op operand => rw [evaluate, evaluate, evaluate_of_sameAnswer operand scope h]
  | binary op left right =>
    rw [evaluate, evaluate]
    exact bind_congr_of_append h (evaluate_of_sameAnswer left scope) fun v hright => by
      rw [evaluate_of_sameAnswer right scope hright]
  | compare first links =>
    rw [evaluate, evaluate]
    exact bind_congr_of_append h (evaluate_of_sameAnswer first scope) fun left hlinks => by
      rw [allHold_of_sameAnswer links scope left hlinks]
  | logical op left right =>
    rw [evaluate, evaluate]
    refine bind_congr_of_append h (evaluate_of_sameAnswer left scope) fun v hright => ?_
    cases op with
    | and => exact ite_congr_of_ite hright (evaluate_of_sameAnswer right scope) fun _ => rfl
    | or => exact ite_congr_of_ite hright (fun _ => rfl) (evaluate_of_sameAnswer right scope)
  | conditional test consequent alternate =>
    rw [evaluate, evaluate]
    exact bind_congr_of_append h (evaluate_of_sameAnswer test scope) fun v hbranch =>
      ite_congr_of_ite hbranch (evaluate_of_sameAnswer consequent scope)
        (evaluate_of_sameAnswer alternate scope)
  | «attribute» container word =>
    rw [evaluate, evaluate, evaluate_of_sameAnswer container scope h]
  | index container position =>
    rw [evaluate, evaluate]
    exact bind_congr_of_append h (evaluate_of_sameAnswer container scope) fun v hposition => by
      rw [evaluate_of_sameAnswer position scope hposition]
  | slice container start stop =>
    rw [evaluate, evaluate]
    exact bind_congr_of_append h (evaluate_of_sameAnswer container scope) fun v hbounds =>
      bind_congr_of_append hbounds (evaluateBound_of_sameAnswer start scope) fun first hstop => by
        rw [evaluateBound_of_sameAnswer stop scope hstop]
  | call function arguments =>
    obtain ⟨hlookup, happlied⟩ := List.forall_mem_cons.mp h
    rw [evaluate, evaluate]
    simp only [Request.SameAnswer, Fields.has] at hlookup
    cases hf : library.get? function with
    | none =>
      rw [hf] at hlookup
      rw [Option.isNone_iff_eq_none.mp (Option.isSome_eq_false_iff.mp hlookup.symm)]
    | some f =>
      rw [hf] at hlookup
      obtain ⟨g, hg⟩ := Option.isSome_iff_exists.mp hlookup.symm
      rw [if_pos (by rw [Fields.has, hf]; rfl)] at happlied
      rw [hg]
      refine bind_congr_of_append happlied (evaluateAll_of_sameAnswer arguments scope)
        fun vs hvs => ?_
      have hsame := hvs _ (List.mem_singleton.mpr rfl)
      simp only [Request.SameAnswer, hf, hg, Option.map_some, Option.some.injEq] at hsame
      exact hsame.symm

theorem evaluateAll_of_sameAnswer (es : List Expr) (scope : Scope)
    (h : ∀ r ∈ requestsAll library scope es, r.SameAnswer library other) :
    evaluateAll other scope es = evaluateAll library scope es := by
  cases es with
  | nil => rw [evaluateAll, evaluateAll]
  | cons e rest =>
    rw [evaluateAll, evaluateAll]
    exact bind_congr_of_append h (evaluate_of_sameAnswer e scope) fun v hrest => by
      rw [evaluateAll_of_sameAnswer rest scope hrest]

theorem evaluateEntries_of_sameAnswer (entries : List (Expr × Expr)) (scope : Scope)
    (h : ∀ r ∈ requestsEntries library scope entries, r.SameAnswer library other) :
    evaluateEntries other scope entries = evaluateEntries library scope entries := by
  cases entries with
  | nil => rw [evaluateEntries, evaluateEntries]
  | cons entry rest =>
    obtain ⟨key, value⟩ := entry
    rw [evaluateEntries, evaluateEntries]
    exact bind_congr_of_append h (evaluate_of_sameAnswer key scope) fun k hmore =>
      bind_congr_of_append hmore (evaluate_of_sameAnswer value scope) fun v hrest => by
        rw [evaluateEntries_of_sameAnswer rest scope hrest]

theorem allHold_of_sameAnswer (links : List (CompareOp × Expr)) (scope : Scope) (left : Value)
    (h : ∀ r ∈ requestsLinks library scope left links, r.SameAnswer library other) :
    allHold other scope left links = allHold library scope left links := by
  cases links with
  | nil => rw [allHold, allHold]
  | cons link rest =>
    obtain ⟨op, e⟩ := link
    rw [allHold, allHold]
    refine bind_congr_of_append h (evaluate_of_sameAnswer e scope) fun right hholds => ?_
    refine bind_congr_of_after hholds fun holds hrest => ?_
    cases holds with
    | false => rfl
    | true => exact allHold_of_sameAnswer rest scope right hrest

theorem evaluateBound_of_sameAnswer (bound : Option Expr) (scope : Scope)
    (h : ∀ r ∈ requestsOption library scope bound, r.SameAnswer library other) :
    evaluateBound other scope bound = evaluateBound library scope bound := by
  cases bound with
  | none => rw [evaluateBound, evaluateBound]
  | some e => rw [evaluateBound, evaluateBound, evaluate_of_sameAnswer e scope h]

theorem isMet_of_sameAnswer (condition : Option Expr) (scope : Scope)
    (h : ∀ r ∈ requestsOption library scope condition, r.SameAnswer library other) :
    isMet other scope condition = isMet library scope condition := by
  cases condition with
  | none => rw [isMet, isMet]
  | some e => rw [isMet, isMet, evaluate_of_sameAnswer e scope h]

end

end Expr

namespace Query

-- What the evaluation of a query asks of its library.
def requests (query : Query) (scope : Scope) : List Request :=
  query.expr.requests query.library scope

-- A query that compiles only asks for functions that are there, with as many arguments as they take,
-- whatever the scope; and these requests are all that evaluation has to do with the library.
theorem compile_served {library : Library} {source : Text} {query : Query}
    (h : Query.compile library source = .ok query) (scope : Scope) :
    (∀ r ∈ query.requests scope, r.IsServed library) ∧
      ∀ other : Library, (∀ r ∈ query.requests scope, r.SameAnswer library other) →
        query.expr.evaluate other scope = query.evaluate scope := by
  obtain ⟨e, -, hcompiled⟩ := bind_eq_ok_iff.mp h
  obtain ⟨_, hchecked, hquery⟩ := bind_eq_ok_iff.mp hcompiled
  cases hquery
  exact ⟨Expr.served_requests e scope hchecked, fun other => Expr.evaluate_of_sameAnswer e scope⟩

-- Over two items of which one meets the condition: `len` is looked up and called twice, `upper` once.
theorem compile_served_comprehension :
    let scope : Scope := [("xs", .list [.text "a", .text "ab"])]
    ∃ query, Query.compile .standard "[x.upper() for x in xs if len(x) > 1]" = .ok query ∧
      (query.requests scope).length = 6 ∧
      (∀ r ∈ query.requests scope, r.IsServed .standard) ∧
      ∀ other : Library, (∀ r ∈ query.requests scope, r.SameAnswer .standard other) →
        query.expr.evaluate other scope = query.evaluate scope := by
  intro scope
  have hrequests : ((Query.compile .standard "[x.upper() for x in xs if len(x) > 1]").toOption.any
      fun query => (query.requests scope).length == 6) = true := by
    decide +kernel
  obtain ⟨query, hquery, hlength⟩ := Option.any_eq_true _ _ |>.mp hrequests
  have hcompiled := toOption_eq_some_iff.mp hquery
  exact ⟨query, hcompiled, beq_iff_eq.mp hlength, compile_served hcompiled scope⟩

end Query

end RecordQuery
