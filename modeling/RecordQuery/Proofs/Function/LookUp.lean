import RecordQuery.Function.Standard
import RecordQuery.Proofs.Function.Integer
import RecordQuery.Row.Column

/-!
Looking up an item with a value to fall back on. What is found is what an index comes to, and the value
to fall back on stands for a fault of the index and for nothing else: a null that is an item is found
like any other. A column of a row is what an index comes to as well.
-/

namespace RecordQuery

-- An integer has no fraction to lose.
theorem Double.toInt?_trunc_of_toInt? {x : Double} {z : ℤ} (hx : x.toInt? = some z) :
    x.trunc.toInt? = some z := by
  obtain ⟨hfinite, hvalue⟩ := toInt?_eq_some_iff.mp hx
  rw [toInt?_trunc hfinite, hvalue, integerPart_intCast]

namespace Value

variable {items : List Value} {row : Value} {x : Double} {z : ℤ}

theorem itemAt_float (hx : x.toInt? = some z) :
    itemAt items (.number (.float x)) =
      ((place? items.length z).bind (items[·]?)).elim
        (.error (.indexOutOfRange (.float x))) .ok := by
  simp only [itemAt, hx]
  cases (place? items.length z).bind (items[·]?) <;> rfl

theorem column_eq_elim (hrow : row.items? = some items) (hx : x.toInt? = some z) :
    Row.column row x =
      ((place? items.length z).bind (items[·]?)).elim
        (.error (.outOfRange x items.length)) .ok := by
  rw [Row.column, Row.items, hrow, Double.toInt?_trunc_of_toInt? hx]
  simp only [bind, Except.bind, Option.bind_some]
  cases (place? items.length z).bind (items[·]?) <;> rfl

-- Where there is an item, the two agree on it; they differ in the error alone.
theorem column_eq_ok_iff (hrow : row.items? = some items) (hx : x.toInt? = some z) (v : Value) :
    Row.column row x = .ok v ↔ index row (.number (.float x)) = .ok v := by
  have hindex : index row (.number (.float x)) = itemAt items (.number (.float x)) := by
    cases row with
    | list | tuple =>
      cases hrow
      rfl
    | _ => cases hrow
  rw [hindex, column_eq_elim hrow hx, itemAt_float hx]
  cases (place? items.length z).bind (items[·]?) <;> simp

end Value

namespace Function

variable {items : List Value} {container key default : Value}

theorem found?_list : found? (.list items) (some key) = (Value.itemAt items key).toOption := by
  cases key with
  | number n =>
    cases n with
    | float x =>
      cases hx : x.toInt? with
      | none => simp only [found?, Value.itemAt, hx, Option.bind_none, Except.toOption]
      | some z =>
        rw [found?, hx, Option.bind_some, Value.itemAt_float hx]
        cases (Value.place? items.length z).bind (items[·]?) <;> rfl
    | big => rfl
  | _ => rfl

theorem found?_tuple : found? (.tuple items) (some key) = found? (.list items) (some key) := by
  cases key with
  | number n => cases n <;> rfl
  | _ => rfl

theorem found?_object {fields : Fields Value} :
    found? (.object fields) (some key) = (Value.index (.object fields) key).toOption := by
  cases key with
  | text name =>
    rw [found?, Value.index]
    cases Fields.get? name fields <;> rfl
  | _ => rfl

-- What is found in a container is what an index comes to, all its faults alike.
theorem found?_eq_toOption (hcontainer : container.kind ∈ [.list, .tuple, .object]) :
    found? container (some key) = (Value.index container key).toOption := by
  cases container with
  | list => exact found?_list
  | tuple => exact found?_tuple.trans found?_list
  | object => exact found?_object
  | _ => simp [Value.kind] at hcontainer

theorem get_call (hcontainer : container.kind ∈ [.list, .tuple, .object]) :
    get.call [container, key, default] =
      .ok ((Value.index container key).toOption.getD default) := by
  have hlooked : isContainer container = true := by
    cases container with
    | list | tuple | object => rfl
    | _ => simp [Value.kind] at hcontainer
  rw [← found?_eq_toOption hcontainer]
  exact if_pos hlooked

section

variable {scope : Scope} {c k d : Expr}

theorem evaluate_get (hc : c.evaluate .standard scope = .ok container)
    (hk : k.evaluate .standard scope = .ok key) (hd : d.evaluate .standard scope = .ok default) :
    (Expr.call "get" [c, k, d]).evaluate .standard scope =
      get.call [container, key, default] := by
  have hget : Library.standard.get? "get" = some get := rfl
  simp only [Expr.evaluate, hget, Expr.evaluateAll, hc, hk, hd]
  rfl

theorem evaluate_index {library : Library} (hc : c.evaluate library scope = .ok container)
    (hk : k.evaluate library scope = .ok key) :
    (Expr.index c k).evaluate library scope = Value.index container key := by
  rw [Expr.evaluate, hc, hk]
  rfl

-- A look-up comes to what the index comes to and, where that fails, to what it falls back on. In a
-- list or tuple the column at an integer is there just if the index finds an item, and is that item.
theorem get_eq_index (hcontainer : container.kind ∈ [.list, .tuple, .object])
    (hc : c.evaluate .standard scope = .ok container) (hk : k.evaluate .standard scope = .ok key)
    (hd : d.evaluate .standard scope = .ok default) :
    (∀ v, (Expr.index c k).evaluate .standard scope = .ok v →
        (Expr.call "get" [c, k, d]).evaluate .standard scope = .ok v) ∧
      (∀ fault, (Expr.index c k).evaluate .standard scope = .error fault →
        (Expr.call "get" [c, k, d]).evaluate .standard scope = .ok default) ∧
      (container.kind ≠ .object → ∀ x z, key = .number (.float x) → x.toInt? = some z →
        ∀ v, Row.column container x = .ok v ↔
          (Expr.index c k).evaluate .standard scope = .ok v) := by
  have hindex := evaluate_index hc hk
  have hget := (evaluate_get hc hk hd).trans (get_call hcontainer)
  refine ⟨fun v hv => ?_, fun fault hfault => ?_, fun hrow x z hkey hx v => ?_⟩
  · rw [hget, ← hindex, hv]
    rfl
  · rw [hget, ← hindex, hfault]
    rfl
  · subst hkey
    have hitems : ∃ items, container.items? = some items := by
      cases container with
      | list items | tuple items => exact ⟨items, rfl⟩
      | object => exact absurd rfl hrow
      | _ => simp [Value.kind] at hcontainer
    obtain ⟨items, hitems⟩ := hitems
    rw [hindex]
    exact Value.column_eq_ok_iff hitems hx v

-- The item is null, and it is at minus zero; no text is a position.
theorem get_eq_index_null :
    let c := Expr.literal (.list [.null])
    let zero := Expr.literal (.number Number.negativeZero)
    let name := Expr.literal (.text "0")
    let d := Expr.literal (.bool true)
    (Expr.call "get" [c, zero, d]).evaluate .standard [] = .ok .null ∧
      (Expr.call "get" [c, name, d]).evaluate .standard [] = .ok (.bool true) := by
  intro c zero name d
  have hc : c.evaluate .standard [] = .ok (.list [.null]) := rfl
  have hd : d.evaluate .standard [] = .ok (.bool true) := rfl
  have hzero : zero.evaluate .standard [] = .ok (.number Number.negativeZero) := rfl
  have hname : name.evaluate .standard [] = .ok (.text "0") := rfl
  have hnull : (Expr.index c zero).evaluate .standard [] = .ok .null := rfl
  have hfault : (Expr.index c name).evaluate .standard [] = .error (.indexKind .string) := rfl
  obtain ⟨hfound, -, -⟩ := get_eq_index (by decide) hc hzero hd
  obtain ⟨-, hdefault, -⟩ := get_eq_index (by decide) hc hname hd
  exact ⟨hfound _ hnull, hdefault _ hfault⟩

end

end Function

end RecordQuery
