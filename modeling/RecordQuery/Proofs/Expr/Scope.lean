import RecordQuery.Function.Standard
import RecordQuery.Expr.Evaluation
import RecordQuery.Proofs.Value.Fields

/-!
Lexical scope. The names that an expression takes from the scope around it can be read off the
expression, and under two scopes that agree on them it comes to the same value or the same fault.
-/

namespace RecordQuery.Expr

mutual

-- The names that an expression takes from the scope around it. In its element and its condition,
-- though not in its source, a comprehension has its targets from itself.
def freeNames : Expr → List Text
  | .literal _ => []
  | .name n => [n]
  | .tuple elements => freeNamesAll elements
  | .list elements => freeNamesAll elements
  | .object entries => freeNamesEntries entries
  | .comprehension element targets source condition =>
    freeNames source ++
      (freeNames element ++ freeNamesOption condition).filter fun n => !targets.contains n
  | .unary _ operand => freeNames operand
  | .binary _ left right => freeNames left ++ freeNames right
  | .compare first links => freeNames first ++ freeNamesLinks links
  | .logical _ left right => freeNames left ++ freeNames right
  | .conditional test consequent alternate =>
    freeNames test ++ (freeNames consequent ++ freeNames alternate)
  | .attribute container _ => freeNames container
  | .index container position => freeNames container ++ freeNames position
  | .slice container start stop =>
    freeNames container ++ (freeNamesOption start ++ freeNamesOption stop)
  | .call _ arguments => freeNamesAll arguments

def freeNamesAll : List Expr → List Text
  | [] => []
  | e :: rest => freeNames e ++ freeNamesAll rest

def freeNamesEntries : List (Expr × Expr) → List Text
  | [] => []
  | (key, value) :: rest => freeNames key ++ (freeNames value ++ freeNamesEntries rest)

def freeNamesLinks : List (CompareOp × Expr) → List Text
  | [] => []
  | (_, e) :: rest => freeNames e ++ freeNamesLinks rest

def freeNamesOption : Option Expr → List Text
  | none => []
  | some e => freeNames e

end

variable {library : Library} {s t bound : Scope} {names more : List Text} {targets : List Text}
  {item : Value}

-- Each of the names is bound to the same value in both scopes, or in neither.
def Agree (names : List Text) (s t : Scope) : Prop := ∀ n ∈ names, s.get? n = t.get? n

theorem agree_append : Agree (names ++ more) s t ↔ Agree names s t ∧ Agree more s t :=
  List.forall_mem_append

theorem keys_of_bindTargets (h : bindTargets targets item = .ok bound) :
    bound.keys.Perm targets := by
  unfold bindTargets at h
  split at h
  · cases h
    exact List.Perm.refl _
  · split at h
    · next items _ =>
      split at h
      · next hlength =>
        cases h
        rw [Fields.keys, List.map_reverse, List.map_fst_zip hlength.ge]
        exact List.reverse_perm targets
      · cases h
    · cases h

-- What a round binds hides the scope around it at the targets, and shows it everywhere else.
theorem Agree.inner (h : Agree (names.filter fun n => !targets.contains n) s t)
    (hbound : bindTargets targets item = .ok bound) : Agree names (bound ++ s) (bound ++ t) := by
  intro n hn
  rw [Fields.get?_append, Fields.get?_append]
  cases hget : bound.get? n with
  | some v => rfl
  | none =>
    have hfree : n ∉ targets := fun hmem =>
      Fields.get?_eq_none_iff.mp hget ((keys_of_bindTargets hbound).mem_iff.mpr hmem)
    exact h n (List.mem_filter.mpr ⟨hn, by simpa using hfree⟩)

mutual

-- By recursion on the expression, for all scopes at once, since a comprehension changes them.
theorem evaluate_congr (e : Expr) {s t : Scope} (h : Agree e.freeNames s t) :
    evaluate library s e = evaluate library t e := by
  cases e with
  | literal v => rw [evaluate, evaluate]
  | name n => rw [evaluate, evaluate, h n List.mem_cons_self]
  | tuple elements => rw [evaluate, evaluate, evaluateAll_congr elements h]
  | list elements => rw [evaluate, evaluate, evaluateAll_congr elements h]
  | object entries => rw [evaluate, evaluate, evaluateEntries_congr entries h]
  | comprehension element targets source condition =>
    obtain ⟨hsource, hinner⟩ := agree_append.mp h
    have hround : ∀ item bound, bindTargets targets item = .ok bound →
        isMet library (bound ++ s) condition = isMet library (bound ++ t) condition ∧
          evaluate library (bound ++ s) element = evaluate library (bound ++ t) element := by
      intro item bound hbound
      obtain ⟨helement, hcondition⟩ := agree_append.mp (hinner.inner hbound)
      exact ⟨isMet_congr condition hcondition, evaluate_congr element helement⟩
    rw [evaluate, evaluate, evaluate_congr source hsource]
    congr 1
    funext v
    cases v.iterated? with
    | none => rfl
    | some items =>
      dsimp only
      congr 2
      funext item
      cases hbound : bindTargets targets item with
      | error e => rfl
      | ok bound =>
        obtain ⟨hcondition, helement⟩ := hround item bound hbound
        change (isMet library (bound ++ s) condition >>= _) =
          isMet library (bound ++ t) condition >>= _
        rw [hcondition, helement]
  | unary op operand => rw [evaluate, evaluate, evaluate_congr operand h]
  | binary op left right =>
    obtain ⟨hleft, hright⟩ := agree_append.mp h
    rw [evaluate, evaluate, evaluate_congr left hleft, evaluate_congr right hright]
  | compare first links =>
    obtain ⟨hfirst, hlinks⟩ := agree_append.mp h
    rw [evaluate, evaluate, evaluate_congr first hfirst]
    simp only [allHold_congr links hlinks]
  | logical op left right =>
    obtain ⟨hleft, hright⟩ := agree_append.mp h
    rw [evaluate, evaluate, evaluate_congr left hleft, evaluate_congr right hright]
  | conditional test consequent alternate =>
    obtain ⟨htest, hbranches⟩ := agree_append.mp h
    obtain ⟨hconsequent, halternate⟩ := agree_append.mp hbranches
    rw [evaluate, evaluate, evaluate_congr test htest, evaluate_congr consequent hconsequent,
      evaluate_congr alternate halternate]
  | «attribute» container word => rw [evaluate, evaluate, evaluate_congr container h]
  | index container position =>
    obtain ⟨hcontainer, hposition⟩ := agree_append.mp h
    rw [evaluate, evaluate, evaluate_congr container hcontainer,
      evaluate_congr position hposition]
  | slice container start stop =>
    obtain ⟨hcontainer, hbounds⟩ := agree_append.mp h
    obtain ⟨hstart, hstop⟩ := agree_append.mp hbounds
    rw [evaluate, evaluate, evaluate_congr container hcontainer, evaluateBound_congr start hstart,
      evaluateBound_congr stop hstop]
  | call function arguments => rw [evaluate, evaluate, evaluateAll_congr arguments h]

theorem evaluateAll_congr (es : List Expr) {s t : Scope} (h : Agree (freeNamesAll es) s t) :
    evaluateAll library s es = evaluateAll library t es := by
  cases es with
  | nil => rw [evaluateAll, evaluateAll]
  | cons e rest =>
    obtain ⟨he, hrest⟩ := agree_append.mp h
    rw [evaluateAll, evaluateAll, evaluate_congr e he, evaluateAll_congr rest hrest]

theorem evaluateEntries_congr (entries : List (Expr × Expr)) {s t : Scope}
    (h : Agree (freeNamesEntries entries) s t) :
    evaluateEntries library s entries = evaluateEntries library t entries := by
  cases entries with
  | nil => rw [evaluateEntries, evaluateEntries]
  | cons entry rest =>
    obtain ⟨key, value⟩ := entry
    obtain ⟨hkey, hmore⟩ := agree_append.mp h
    obtain ⟨hvalue, hrest⟩ := agree_append.mp hmore
    rw [evaluateEntries, evaluateEntries, evaluate_congr key hkey, evaluate_congr value hvalue,
      evaluateEntries_congr rest hrest]

theorem allHold_congr (links : List (CompareOp × Expr)) {s t : Scope}
    (h : Agree (freeNamesLinks links) s t) (left : Value) :
    allHold library s left links = allHold library t left links := by
  cases links with
  | nil => rw [allHold, allHold]
  | cons link rest =>
    obtain ⟨op, e⟩ := link
    obtain ⟨he, hrest⟩ := agree_append.mp h
    rw [allHold, allHold, evaluate_congr e he]
    simp only [allHold_congr rest hrest]

theorem evaluateBound_congr (bound : Option Expr) {s t : Scope}
    (h : Agree (freeNamesOption bound) s t) :
    evaluateBound library s bound = evaluateBound library t bound := by
  cases bound with
  | none => rw [evaluateBound, evaluateBound]
  | some e => rw [evaluateBound, evaluateBound, evaluate_congr e h]

theorem isMet_congr (condition : Option Expr) {s t : Scope}
    (h : Agree (freeNamesOption condition) s t) :
    isMet library s condition = isMet library t condition := by
  cases condition with
  | none => rw [isMet, isMet]
  | some e => rw [isMet, isMet, evaluate_congr e h]

end

-- Evaluation is lexically scoped: it depends on the names that are free in the expression and on
-- nothing else in the scope, so a name that is not free can be bound to anything.
theorem evaluate_lexicallyScoped (library : Library) (e : Expr) :
    (∀ s t : Scope, (∀ n ∈ e.freeNames, s.get? n = t.get? n) →
      e.evaluate library s = e.evaluate library t) ∧
      ∀ (s : Scope) (n : Text) (v : Value), n ∉ e.freeNames →
        e.evaluate library (s.set n v) = e.evaluate library s := by
  refine ⟨fun s t h => evaluate_congr e h, fun s n v hn => evaluate_congr e fun m hm => ?_⟩
  have hne : n ≠ m := by
    rintro rfl
    exact hn hm
  rw [Fields.get?_set, if_neg hne]

-- In `[(x, y) for x in x if y]` the source is the outer `x`, the rest sees the inner one.
theorem evaluate_lexicallyScoped_comprehension :
    let x : Text := "x"
    let y : Text := "y"
    let e := comprehension (tuple [name x, name y]) [x] (name x) (some (name y))
    let s : Scope := [(x, .list [.bool true, .null]), (y, .bool true), ("z", .null)]
    let t : Scope := [("z", .bool false), (y, .bool true), (x, .list [.bool true, .null])]
    (∀ n ∈ e.freeNames, s.get? n = t.get? n) ∧ Text.ofString "z" ∉ e.freeNames ∧
      e.evaluate .standard s = e.evaluate .standard t ∧
      e.evaluate .standard (s.set "z" (.text "w")) = e.evaluate .standard s ∧
      e.evaluate .standard s =
        .ok (.list [.tuple [.bool true, .bool true], .tuple [.null, .bool true]]) := by
  intro x y e s t
  have hnames : ∀ n ∈ e.freeNames, s.get? n = t.get? n := by
    have hfree : e.freeNames = [x, y, y] := by decide +kernel
    rw [hfree]
    simp only [List.forall_mem_cons]
    exact ⟨rfl, rfl, rfl, by simp⟩
  have hz : Text.ofString "z" ∉ e.freeNames := by decide +kernel
  obtain ⟨hagree, hset⟩ := evaluate_lexicallyScoped .standard e
  exact ⟨hnames, hz, hagree s t hnames, hset s _ _ hz, rfl⟩

end RecordQuery.Expr
