import RecordQuery.Expr.Calls
import RecordQuery.Expr.Literal
import RecordQuery.Proofs.Attempt

/-!
Literals and their values. A literal has a value unless an object in it, at any depth, has a key
that is no text, and the fault then names the kind of such a key. It calls no function, and its value
is the same in every scope.
-/

namespace RecordQuery

-- What evaluation comes to where every key is a text and where some key is not.
def Gives {α : Type} (textKeys : Bool) (x : Except Fault α) : Prop :=
  if textKeys then ∃ a, x = .ok a else ∃ kind, x = .error (.nameKind kind)

namespace Gives

variable {α β : Type} {x : Except Fault α} {f : α → Except Fault β} {p q : Bool}

theorem ok (a : α) : Gives true (.ok a : Except Fault α) := ⟨a, rfl⟩

theorem nameKind (kind : Kind) : Gives false (.error (.nameKind kind) : Except Fault α) :=
  ⟨kind, rfl⟩

theorem bind (hx : Gives p x) (hf : ∀ a, x = .ok a → Gives q (f a)) : Gives (p && q) (x >>= f) := by
  cases p with
  | true =>
    obtain ⟨a, ha⟩ := hx
    rw [Bool.true_and, ha]
    exact hf a ha
  | false =>
    obtain ⟨kind, rfl⟩ := hx
    exact nameKind kind

theorem map (f : α → β) (hx : Gives p x) : Gives p (x >>= fun a => .ok (f a)) := by
  rw [← Bool.and_true p]
  exact hx.bind fun a _ => ok (f a)

end Gives

namespace Expr

def isTextLiteral : Expr → Bool
  | .literal (.text _) => true
  | _ => false

mutual

-- Whether every object in a literal has texts as its keys.
def hasTextKeys : Expr → Bool
  | .tuple elements => allHaveTextKeys elements
  | .list elements => allHaveTextKeys elements
  | .object entries => entriesHaveTextKeys entries && entries.all fun e => e.1.isTextLiteral
  | _ => true

def allHaveTextKeys : List Expr → Bool
  | [] => true
  | e :: rest => hasTextKeys e && allHaveTextKeys rest

def entriesHaveTextKeys : List (Expr × Expr) → Bool
  | [] => true
  | (key, value) :: rest => hasTextKeys key && (hasTextKeys value && entriesHaveTextKeys rest)

end

variable {library : Library} {scope : Scope}

theorem exists_number_of_isLiteral_unary {op : UnaryOp} {operand : Expr}
    (h : (unary op operand).isLiteral = true) :
    ∃ n, operand = .literal (.number n) ∧ op ≠ .not := by
  have hnumber : operand.isNumberLiteral = true ∧ op ≠ .not := by
    cases op with
    | not => cases h
    | minus => exact ⟨h, by simp⟩
    | plus => exact ⟨h, by simp⟩
  obtain ⟨hoperand, hop⟩ := hnumber
  unfold isNumberLiteral at hoperand
  split at hoperand
  · next n => exact ⟨n, rfl, hop⟩
  · cases hoperand

theorem areLiteralEntries_cons {key value : Expr} {rest : List (Expr × Expr)} :
    areLiteralEntries ((key, value) :: rest) = true ↔
      key.isLiteral = true ∧ value.isLiteral = true ∧ areLiteralEntries rest = true := by
  rw [areLiteralEntries, Bool.and_eq_true_iff, Bool.and_eq_true_iff, and_assoc]

-- The only literals whose values are texts are those that are texts as they stand.
theorem isTextLiteral_eq_of_evaluate {e : Expr} (h : e.isLiteral = true) {v : Value}
    (hv : e.evaluate library scope = .ok v) : e.isTextLiteral = (v.kind == .string) := by
  cases e with
  | literal w =>
    cases hv
    cases v <;> rfl
  | tuple elements =>
    obtain ⟨vs, -, hvs⟩ := bind_eq_ok_iff.mp hv
    cases hvs
    rfl
  | list elements =>
    obtain ⟨vs, -, hvs⟩ := bind_eq_ok_iff.mp hv
    cases hvs
    rfl
  | object entries =>
    obtain ⟨es, -, hes⟩ := bind_eq_ok_iff.mp hv
    obtain ⟨fields, -, hfields⟩ := bind_eq_ok_iff.mp hes
    cases hfields
    rfl
  | unary op operand =>
    obtain ⟨n, rfl, hop⟩ := exists_number_of_isLiteral_unary h
    cases op <;> cases hv <;> rfl
  | _ => cases h

-- An evaluated entry as a field.
def fieldOf (e : Value × Value) : Except Fault (Text × Value) :=
  match e.1 with
  | .text key => .ok (key, e.2)
  | v => .error (.nameKind v.kind)

theorem fieldOf_cases (e : Value × Value) :
    (e.1.kind = .string ∧ ∃ field, fieldOf e = .ok field) ∨
      (e.1.kind ≠ .string ∧ ∃ kind, fieldOf e = .error (.nameKind kind)) := by
  obtain ⟨key, v⟩ := e
  cases key with
  | text t => exact .inl ⟨rfl, _, rfl⟩
  | _ => exact .inr ⟨by simp [Value.kind], _, rfl⟩

theorem gives_objectOf (entries : List (Value × Value)) :
    Gives (entries.all fun e => e.1.kind == .string) (objectOf entries) := by
  have hobject : objectOf entries =
      entries.mapM fieldOf >>= fun fields => .ok (.object (Fields.ofEntries fields)) := rfl
  rw [hobject]
  rcases mapM_cases fieldOf entries with ⟨fields, hfields, hall⟩ | ⟨e, hmem, fault, hfault, hfail⟩
  · have htexts : (entries.all fun e => e.1.kind == .string) = true := by
      rw [List.all_eq_true]
      intro e he
      rcases fieldOf_cases e with ⟨hkind, -⟩ | ⟨-, kind, herror⟩
      · rw [hkind, beq_self_eq_true]
      · obtain ⟨field, hfield⟩ := hall e he
        rw [herror] at hfield
        cases hfield
    rw [htexts, hfields]
    exact .ok _
  · rcases fieldOf_cases e with ⟨-, field, hfield⟩ | ⟨hkind, kind, herror⟩
    · rw [hfield] at hfault
      cases hfault
    · have hother : (entries.all fun e => e.1.kind == .string) = false :=
        List.all_eq_false.mpr ⟨e, hmem, by rwa [beq_iff_eq]⟩
      rw [herror] at hfault
      cases hfault
      rw [hother, hfail]
      exact .nameKind kind

theorem evaluateEntries_keys {entries : List (Expr × Expr)} (h : areLiteralEntries entries = true)
    {vs : List (Value × Value)} (hvs : evaluateEntries library scope entries = .ok vs) :
    (vs.all fun e => e.1.kind == .string) = entries.all fun e => e.1.isTextLiteral := by
  induction entries generalizing vs with
  | nil =>
    cases hvs
    rfl
  | cons e rest ih =>
    obtain ⟨key, value⟩ := e
    obtain ⟨hkey, -, hrest⟩ := areLiteralEntries_cons.mp h
    obtain ⟨k, hk, hvs⟩ := bind_eq_ok_iff.mp hvs
    obtain ⟨v, -, hvs⟩ := bind_eq_ok_iff.mp hvs
    obtain ⟨more, hmore, hvs⟩ := bind_eq_ok_iff.mp hvs
    cases hvs
    rw [List.all_cons, List.all_cons, ih hrest hmore, isTextLiteral_eq_of_evaluate hkey hk]

mutual

theorem gives_evaluate (e : Expr) (h : e.isLiteral = true) :
    Gives e.hasTextKeys (e.evaluate library scope) := by
  cases e with
  | literal v => exact .ok v
  | tuple elements => exact (gives_evaluateAll elements h).map Value.tuple
  | list elements => exact (gives_evaluateAll elements h).map Value.list
  | object entries =>
    rw [hasTextKeys, evaluate]
    refine (gives_evaluateEntries entries h).bind fun vs hvs => ?_
    rw [← evaluateEntries_keys h hvs]
    exact gives_objectOf vs
  | unary op operand =>
    obtain ⟨n, rfl, hop⟩ := exists_number_of_isLiteral_unary h
    cases op with
    | not => exact absurd rfl hop
    | minus => exact .ok _
    | plus => exact .ok _
  | _ => cases h

theorem gives_evaluateAll (es : List Expr) (h : areLiterals es = true) :
    Gives (allHaveTextKeys es) (evaluateAll library scope es) := by
  cases es with
  | nil => exact .ok []
  | cons e rest =>
    obtain ⟨he, hrest⟩ := Bool.and_eq_true_iff.mp h
    exact (gives_evaluate e he).bind fun v _ => (gives_evaluateAll rest hrest).map (v :: ·)

theorem gives_evaluateEntries (entries : List (Expr × Expr))
    (h : areLiteralEntries entries = true) :
    Gives (entriesHaveTextKeys entries) (evaluateEntries library scope entries) := by
  cases entries with
  | nil => exact .ok []
  | cons e rest =>
    obtain ⟨key, value⟩ := e
    obtain ⟨hkey, hvalue, hrest⟩ := areLiteralEntries_cons.mp h
    exact (gives_evaluate key hkey).bind fun k _ => (gives_evaluate value hvalue).bind fun v _ =>
      (gives_evaluateEntries rest hrest).map ((k, v) :: ·)

end

mutual

-- A literal takes nothing from the library and nothing from the scope.
theorem evaluate_of_isLiteral (e : Expr) (h : e.isLiteral = true) :
    e.evaluate library scope = e.evaluate [] [] := by
  cases e with
  | literal v => rw [evaluate, evaluate]
  | tuple elements => rw [evaluate, evaluate, evaluateAll_of_areLiterals elements h]
  | list elements => rw [evaluate, evaluate, evaluateAll_of_areLiterals elements h]
  | object entries => rw [evaluate, evaluate, evaluateEntries_of_areLiteralEntries entries h]
  | unary op operand =>
    obtain ⟨n, rfl, -⟩ := exists_number_of_isLiteral_unary h
    simp only [evaluate]
  | _ => cases h

theorem evaluateAll_of_areLiterals (es : List Expr) (h : areLiterals es = true) :
    evaluateAll library scope es = evaluateAll [] [] es := by
  cases es with
  | nil => rw [evaluateAll, evaluateAll]
  | cons e rest =>
    obtain ⟨he, hrest⟩ := Bool.and_eq_true_iff.mp h
    rw [evaluateAll, evaluateAll, evaluate_of_isLiteral e he, evaluateAll_of_areLiterals rest hrest]

theorem evaluateEntries_of_areLiteralEntries (entries : List (Expr × Expr))
    (h : areLiteralEntries entries = true) :
    evaluateEntries library scope entries = evaluateEntries [] [] entries := by
  cases entries with
  | nil => rw [evaluateEntries, evaluateEntries]
  | cons e rest =>
    obtain ⟨key, value⟩ := e
    obtain ⟨hkey, hvalue, hrest⟩ := areLiteralEntries_cons.mp h
    rw [evaluateEntries, evaluateEntries, evaluate_of_isLiteral key hkey,
      evaluate_of_isLiteral value hvalue, evaluateEntries_of_areLiteralEntries rest hrest]

end

mutual

-- There is no call in a literal to check.
theorem checkCalls_of_isLiteral (e : Expr) (h : e.isLiteral = true) :
    e.checkCalls library = .ok () := by
  cases e with
  | literal v => rfl
  | tuple elements => exact checkAll_of_areLiterals elements h
  | list elements => exact checkAll_of_areLiterals elements h
  | object entries => exact checkEntries_of_areLiteralEntries entries h
  | unary op operand =>
    obtain ⟨n, rfl, -⟩ := exists_number_of_isLiteral_unary h
    rfl
  | _ => cases h

theorem checkAll_of_areLiterals (es : List Expr) (h : areLiterals es = true) :
    checkAll library es = .ok () := by
  cases es with
  | nil => rfl
  | cons e rest =>
    obtain ⟨he, hrest⟩ := Bool.and_eq_true_iff.mp h
    exact seq_eq_ok_iff.mpr ⟨checkCalls_of_isLiteral e he, checkAll_of_areLiterals rest hrest⟩

theorem checkEntries_of_areLiteralEntries (entries : List (Expr × Expr))
    (h : areLiteralEntries entries = true) : checkEntries library entries = .ok () := by
  cases entries with
  | nil => rfl
  | cons e rest =>
    obtain ⟨key, value⟩ := e
    obtain ⟨hkey, hvalue, hrest⟩ := areLiteralEntries_cons.mp h
    exact seq_eq_ok_iff.mpr ⟨checkCalls_of_isLiteral key hkey,
      seq_eq_ok_iff.mpr ⟨checkCalls_of_isLiteral value hvalue,
        checkEntries_of_areLiteralEntries rest hrest⟩⟩

end

theorem literal?_cases (e : Expr) :
    (e.isLiteral = false ∧ e.literal? = .ok none) ∨
      (e.isLiteral = true ∧ e.hasTextKeys = true ∧ ∃ v, e.literal? = .ok (some v)) ∨
      (e.isLiteral = true ∧ e.hasTextKeys = false ∧
        ∃ kind, e.literal? = .error (.nameKind kind)) := by
  unfold literal?
  cases hliteral : e.isLiteral with
  | false => exact .inl ⟨rfl, rfl⟩
  | true =>
    have hgives : Gives e.hasTextKeys (e.evaluate [] []) := gives_evaluate e hliteral
    cases hkeys : e.hasTextKeys with
    | false =>
      rw [hkeys] at hgives
      obtain ⟨kind, hkind⟩ := hgives
      rw [if_pos rfl, hkind]
      exact .inr (.inr ⟨rfl, rfl, kind, rfl⟩)
    | true =>
      rw [hkeys] at hgives
      obtain ⟨v, hv⟩ := hgives
      rw [if_pos rfl, hv]
      exact .inr (.inl ⟨rfl, rfl, v, rfl⟩)

end Expr

namespace Value

-- A text that spells a literal in which some object has a key that is no text.
def SpellsBadKey (t : Text) : Prop :=
  ∃ e, Expr.parse t = .ok e ∧ e.isLiteral = true ∧ e.hasTextKeys = false

theorem ofSpelling_cases (t : Text) :
    (¬SpellsBadKey t ∧ ∃ v, ofSpelling t = .ok v) ∨
      (SpellsBadKey t ∧ ∃ kind, ofSpelling t = .error (.nameKind kind)) := by
  cases hparse : Expr.parse t with
  | error e =>
    refine .inl ⟨?_, .text t, by rw [ofSpelling, ofLiteral?, hparse]; rfl⟩
    rintro ⟨e', he', -⟩
    rw [hparse] at he'
    cases he'
  | ok e =>
    have hspells : SpellsBadKey t ↔ e.isLiteral = true ∧ e.hasTextKeys = false := by
      constructor
      · rintro ⟨e', he', h⟩
        rw [hparse] at he'
        cases he'
        exact h
      · exact fun h => ⟨e, hparse, h⟩
    rw [hspells, ofSpelling, ofLiteral?, hparse]
    simp only
    rcases e.literal?_cases with ⟨hliteral, hvalue⟩ | ⟨-, hkeys, v, hvalue⟩ |
      ⟨hliteral, hkeys, kind, hvalue⟩
    · exact .inl ⟨by simp [hliteral], .text t, by rw [hvalue]; rfl⟩
    · exact .inl ⟨by simp [hkeys], v, by rw [hvalue]; rfl⟩
    · exact .inr ⟨⟨hliteral, hkeys⟩, kind, by rw [hvalue]; rfl⟩

end Value

end RecordQuery
