import RecordQuery.Proofs.Expr.Grammar

/-!
What may stand first in a phrase, and what may follow one. One token is enough to tell which rule
comes next and whether a phrase goes on.
-/

namespace RecordQuery.Grammar

variable {m n : Nat} {t : Token} {ts us rest : List Token} {e : Expr} {text : Text}

-- How tightly a token binds to a phrase before it that it extends; 0 if it extends none.
def strength : Token.Kind → Nat
  | .keyword .when | .keyword .otherwise => 1
  | .keyword .or => 2
  | .keyword .and => 3
  | .symbol .equal | .symbol .notEqual | .symbol .less | .symbol .lessEqual | .symbol .greater
  | .symbol .greaterEqual | .keyword .member | .keyword .notMember => 4
  | .symbol .plus | .symbol .minus => 5
  | .symbol .star | .symbol .slash | .symbol .slashes | .symbol .percent => 6
  | .symbol .stars => 7
  | .symbol .dot | .symbol .leftBracket => 8
  | .symbol .leftParen | .string => 9
  | _ => 0

-- The strength of the operators of a level.
def levelStrength : Expr.Level → Nat
  | .or => 2
  | .and => 3
  | .sum => 5
  | .product => 6

-- No token of strength `n` or more comes next.
def Stops (n : Nat) (rest : List Token) : Prop :=
  ∀ t ts, rest = t :: ts → strength t.kind < n

theorem Stops.mono (h : Stops m rest) (hmn : m ≤ n) : Stops n rest :=
  fun t ts hrest => Nat.lt_of_lt_of_le (h t ts hrest) hmn

theorem stops_nil : Stops (n + 1) [] := nofun

theorem stops_cons : Stops n (t :: rest) ↔ strength t.kind < n := by
  simp [Stops]

theorem Operator.strength_eq {level : Expr.Level} {kind : Token.Kind} {op : Expr → Expr → Expr}
    (h : Operator level kind op) : strength kind = levelStrength level := by
  cases h <;> rfl

theorem Comparator.strength_eq {kind : Token.Kind} {op : CompareOp} (h : Comparator kind op) :
    strength kind = 4 := by
  cases h <;> rfl

-- Where a token may stand first: 0 in an operand, 1 in a product, 2 in a conditional, 3 in no
-- phrase.
def lead : Token.Kind → Nat
  | .integer | .float | .string | .name => 0
  | .keyword .truth | .keyword .falsity | .keyword .null => 0
  | .symbol .leftParen | .symbol .leftBracket | .symbol .leftBrace => 0
  | .symbol .plus | .symbol .minus => 1
  | .keyword .not => 2
  | _ => 3

-- Where the first token of a chain may stand.
def levelLead : Expr.Level → Nat
  | .or | .and => 2
  | .sum | .product => 1

-- There is a first token, and it may stand there.
def Opens (n : Nat) (ts : List Token) : Prop := ∃ t us, ts = t :: us ∧ lead t.kind ≤ n

theorem Opens.mono (h : Opens m ts) (hmn : m ≤ n) : Opens n ts := by
  obtain ⟨t, us, rfl, ht⟩ := h
  exact ⟨t, us, rfl, Nat.le_trans ht hmn⟩

theorem Opens.append (h : Opens n us) (vs : List Token) : Opens n (us ++ vs) := by
  obtain ⟨t, us, rfl, ht⟩ := h
  exact ⟨t, us ++ vs, rfl, ht⟩

theorem opens_cons : Opens n (t :: us) ↔ lead t.kind ≤ n := by
  simp [Opens]

theorem Strings.opens (h : Strings ts text) : Opens 0 ts := by
  cases h with
  | one h => simp [opens_cons, h, lead]
  | more h _ => simp [opens_cons, h, lead]

theorem Strings.kind_eq (h : Strings ts text) : ∀ t ∈ ts, t.kind = .string := by
  induction h with
  | one h => simpa using h
  | more h _ ih => exact List.forall_mem_cons.mpr ⟨h, ih⟩

theorem Strings.text_eq (h : Strings ts text) : text = (ts.map Token.text).flatten := by
  induction h with
  | one _ => simp
  | more _ _ ih => simp [← ih]

theorem Constant.opens {v : Value} (h : Constant t v) : Opens 0 [t] := by
  rcases h with h | h | h | h | h <;> simp [opens_cons, h, lead]

theorem Primary.opens (h : Primary ts e) : Opens 0 ts := by
  cases h with
  | constant h => exact h.opens
  | strings h => exact h.opens
  | name ht | call ht _ => simp [opens_cons, ht, lead]
  | empty hl _ | group hl _ _ | tuple hl _ _ _ _ | list hl _ _ | comprehension hl _ _ _ _ _ _ _
  | object hl _ _ => simp [opens_cons, hl, lead]

theorem Trailed.opens : ∀ {ts e}, Trailed ts e → Opens 0 ts
  | _, _, .primary h => h.opens
  | _, _, .attribute h _ _ | _, _, .method h _ _ _ => h.opens.append _
  | _, _, .index h _ _ _ | _, _, .slice h _ _ _ _ _ => h.opens.append _

theorem Power.opens (h : Power ts e) : Opens 0 ts := by
  cases h with
  | base h => exact h.opens
  | power h _ _ => exact h.opens.append _

theorem Signed.opens (h : Signed ts e) : Opens 1 ts := by
  cases h with
  | number ht _ | minus ht _ _ | plus ht _ => simp [opens_cons, ht, lead]
  | power h => exact h.opens.mono (by decide)

mutual

theorem Chain.opens : ∀ {level ts e}, Chain level ts e → Opens (levelLead level) ts
  | _, _, _, .operand h => h.opens
  | _, _, _, @Chain.join _ _ _ _ _ _ op h _ _ => h.opens.append _

theorem Operand.opens : ∀ {level ts e}, Operand level ts e → Opens (levelLead level) ts
  | _, _, _, .conjunction h => h.opens
  | _, _, _, .negation h => h.opens
  | _, _, _, .product h => h.opens
  | _, _, _, .signed h => h.opens

theorem Negation.opens : ∀ {ts e}, Negation ts e → Opens 2 ts
  | _, _, .not ht _ => by simp [opens_cons, ht, lead]
  | _, _, .comparison h => h.opens.mono (by decide)

theorem Comparison.opens : ∀ {ts e}, Comparison ts e → Opens 1 ts
  | _, _, .sum h => h.opens
  | _, _, .compare h _ => h.opens.append _

end

theorem Conditional.opens (h : Conditional ts e) : Opens 2 ts := by
  cases h with
  | plain h => exact h.opens
  | guard h _ _ | choice h _ _ _ _ => exact h.opens.append _

theorem Links.stops {links : List (CompareOp × Expr)} (h : Links us links)
    (hs : Stops 4 rest) : Stops 5 (us ++ rest) := by
  cases h with
  | nil => exact hs.mono (by decide)
  | cons ho _ _ =>
    rw [List.cons_append, stops_cons, ho.strength_eq]
    decide

theorem Key.opens (h : Key ts e) : Opens 2 ts := by
  cases h with
  | word ht => simp [opens_cons, ht, lead]
  | computed h _ => exact h.opens

end RecordQuery.Grammar
