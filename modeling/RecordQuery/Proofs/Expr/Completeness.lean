import RecordQuery.Proofs.Expr.Lookahead
import RecordQuery.Proofs.Expr.Soundness
import RecordQuery.Proofs.Text.Delimited

/-!
What the grammar derives the parser accepts, with the same expression. A phrase is read to its end
and no further where no token follows it that could extend it. With soundness, the parser accepts
exactly the queries of the grammar.
-/

namespace RecordQuery.Expr

open Grammar

variable {α β : Type} {m n stop : Nat} {kind closing : Token.Kind} {level : Level}
  {t c d l r : Token} {ts us vs rest rest' : List Token} {e v first object : Expr}

-- The reader gives the value and leaves the rest.
def Yields (x : ParseResult α n) (a : α) (rest : List Token) : Prop := ∃ h, x = .ok ⟨a, rest, h⟩

theorem Yields.bind {x : ParseResult α n} {f : Parsed α n → ParseResult β m} {a : α} {b : β}
    (hx : Yields x a rest) (hf : ∀ hlt, Yields (f ⟨a, rest, hlt⟩) b rest') :
    Yields (x >>= f) b rest' := by
  obtain ⟨hlt, rfl⟩ := hx
  exact hf hlt

theorem yields_ok {a : α} (h : rest.length < n) : Yields (.ok ⟨a, rest, h⟩) a rest := ⟨h, rfl⟩

theorem accept?_cons_of_eq (hk : t.kind = kind) :
    accept? kind (t :: rest) = some ⟨t.text, rest, by simp⟩ := by
  simp [accept?, hk]

theorem accept?_cons_of_ne (hk : t.kind ≠ kind) : accept? kind (t :: rest) = none := by
  simp [accept?, hk]

theorem accept?_eq_none_of_stops (h : Stops n rest) (hk : n ≤ strength kind) :
    accept? kind rest = none := by
  refine accept?_eq_none_iff.mpr fun t ts hrest htk => ?_
  have := h t ts hrest
  rw [htk] at this
  omega

theorem accept?_eq_none_of_opens (h : Opens n us) (hk : n < lead kind) :
    accept? kind (us ++ rest) = none := by
  obtain ⟨t, us, rfl, ht⟩ := h
  refine accept?_cons_of_ne fun htk => ?_
  rw [htk] at ht
  omega

theorem yields_expect (hk : t.kind = kind) : Yields (expect stop kind (t :: rest)) t.text rest := by
  simp [expect, hk, Yields]

theorem yields_conditional (h : Yields (chain stop .or ts) e rest) (hs : Stops 1 rest) :
    Yields (conditional? stop ts) e rest := by
  rw [conditional?]
  refine h.bind fun hlt => ?_
  dsimp only
  rw [accept?_eq_none_of_stops hs (by decide)]
  exact yields_ok _

theorem yields_guard {test : Expr} (h : Yields (chain stop .or ts) e (t :: us))
    (ht : t.kind = .keyword .when) (htest : Yields (chain stop .or us) test rest)
    (hs : Stops 1 rest) :
    Yields (conditional? stop ts) (.conditional test e (.list [])) rest := by
  rw [conditional?]
  refine h.bind fun hlt => ?_
  dsimp only
  rw [accept?_cons_of_eq ht]
  refine htest.bind fun hlt => ?_
  dsimp only
  rw [accept?_eq_none_of_stops hs (by decide)]
  exact yields_ok _

theorem yields_choice {test alternate : Expr} (h : Yields (chain stop .or ts) e (t :: us))
    (ht : t.kind = .keyword .when) (htest : Yields (chain stop .or us) test (c :: vs))
    (hc : c.kind = .keyword .otherwise) (ha : Yields (conditional? stop vs) alternate rest) :
    Yields (conditional? stop ts) (.conditional test e alternate) rest := by
  rw [conditional?]
  refine h.bind fun hlt => ?_
  dsimp only
  rw [accept?_cons_of_eq ht]
  refine htest.bind fun hlt => ?_
  dsimp only
  rw [accept?_cons_of_eq hc]
  exact ha.bind fun hlt => yields_ok _

theorem yields_chain (h : Yields (operand stop level ts) first us)
    (htail : Yields (chainTail stop level first us) e rest) :
    Yields (chain stop level ts) e rest := by
  rw [chain]
  exact h.bind fun hlt => htail.bind fun hlt => yields_ok _

theorem yields_chainTail_join {left right : Expr} {op : Expr → Expr → Expr}
    (ho : Operator level t.kind op) (h : Yields (operand stop level us) right rest)
    (htail : Yields (chainTail stop level (op left right) rest) e rest') :
    Yields (chainTail stop level left (t :: us)) e rest' := by
  rw [chainTail, join?_eq_some_iff.mpr ho]
  exact h.bind fun hlt => htail.bind fun hlt => yields_ok _

theorem yields_chainTail_stop (hs : Stops (levelStrength level) rest) :
    Yields (chainTail stop level e rest) e rest := by
  cases rest with
  | nil =>
    rw [chainTail]
    exact yields_ok _
  | cons t rest =>
    have hnone : level.join? t.kind = none := by
      refine Option.eq_none_iff_forall_ne_some.mpr fun op hop => ?_
      have := (join?_eq_some_iff.mp hop).strength_eq
      have := stops_cons.mp hs
      omega
    rw [chainTail, hnone]
    exact yields_ok _

theorem yields_chain_operand (h : Yields (operand stop level ts) e rest)
    (hs : Stops (levelStrength level) rest) : Yields (chain stop level ts) e rest :=
  yields_chain h (yields_chainTail_stop hs)

theorem yields_conjunction (h : Yields (chain stop .and ts) e rest) :
    Yields (operand stop .or ts) e rest := by
  rwa [operand]

theorem yields_operand_negation (h : Yields (negation stop ts) e rest) :
    Yields (operand stop .and ts) e rest := by
  rwa [operand]

theorem yields_product (h : Yields (chain stop .product ts) e rest) :
    Yields (operand stop .sum ts) e rest := by
  rwa [operand]

theorem yields_signed (h : Yields (sign stop ts) e rest) :
    Yields (operand stop .product ts) e rest := by
  rwa [operand]

theorem yields_not (ht : t.kind = .keyword .not) (h : Yields (negation stop us) e rest) :
    Yields (negation stop (t :: us)) (.unary .not e) rest := by
  rw [negation, accept?_cons_of_eq ht]
  exact h.bind fun hlt => yields_ok _

theorem yields_negation (ho : Opens 1 us) (h : Yields (comparison stop (us ++ vs)) e rest) :
    Yields (negation stop (us ++ vs)) e rest := by
  rw [negation, accept?_eq_none_of_opens ho (by decide)]
  exact h

theorem yields_comparison {more : List (CompareOp × Expr)}
    (h : Yields (chain stop .sum ts) e us) (hl : Yields (links stop us) more rest) :
    Yields (comparison stop ts) (if more.isEmpty then e else .compare e more) rest := by
  rw [comparison]
  exact h.bind fun hlt => hl.bind fun hlt => yields_ok _

theorem yields_links_cons {op : CompareOp} {more : List (CompareOp × Expr)}
    (ho : Comparator t.kind op) (h : Yields (chain stop .sum us) e rest)
    (hl : Yields (links stop rest) more rest') :
    Yields (links stop (t :: us)) ((op, e) :: more) rest' := by
  rw [links, compareOp?_eq_some_iff.mpr ho]
  exact h.bind fun hlt => hl.bind fun hlt => yields_ok _

theorem yields_links_stop (hs : Stops 4 rest) : Yields (links stop rest) [] rest := by
  cases rest with
  | nil =>
    rw [links]
    exact yields_ok _
  | cons t rest =>
    have hnone : compareOp? t.kind = none := by
      refine Option.eq_none_iff_forall_ne_some.mpr fun op hop => ?_
      have := (compareOp?_eq_some_iff.mp hop).strength_eq
      have := stops_cons.mp hs
      omega
    rw [links, hnone]
    exact yields_ok _

theorem yields_sign {op : UnaryOp} (ht : signOp? t.kind = some op)
    (h : Yields (sign stop us) e rest) : Yields (sign stop (t :: us)) (signed op e) rest := by
  rw [sign, ht]
  exact h.bind fun hlt => yields_ok _

theorem yields_unsigned (ho : Opens 0 us) (h : Yields (power stop (us ++ vs)) e rest) :
    Yields (sign stop (us ++ vs)) e rest := by
  obtain ⟨t, us, rfl, ht⟩ := ho
  have hnone : signOp? t.kind = none := by
    unfold signOp?
    split <;> simp_all [lead]
  rw [List.cons_append] at h ⊢
  rw [sign, hnone]
  exact h

theorem yields_base (h : Yields (trailed stop ts) e rest) (hs : Stops 7 rest) :
    Yields (power stop ts) e rest := by
  rw [power]
  refine h.bind fun hlt => ?_
  dsimp only
  rw [accept?_eq_none_of_stops hs (by decide)]
  exact yields_ok _

theorem yields_power {exponent : Expr} (h : Yields (trailed stop ts) e (t :: us))
    (ht : t.kind = .symbol .stars) (hx : Yields (sign stop us) exponent rest) :
    Yields (power stop ts) (.binary (.exact .power) e exponent) rest := by
  rw [power]
  refine h.bind fun hlt => ?_
  dsimp only
  rw [accept?_cons_of_eq ht]
  exact hx.bind fun hlt => yields_ok _

theorem yields_trailed (h : Yields (primary stop ts) first us)
    (ht : Yields (trail stop first us) e rest) : Yields (trailed stop ts) e rest := by
  rw [trailed]
  exact h.bind fun hlt => ht.bind fun hlt => yields_ok _

theorem yields_trail_stop (hs : Stops 8 rest) : Yields (trail stop e rest) e rest := by
  rw [trail, accept?_eq_none_of_stops hs (by decide)]
  dsimp only
  rw [accept?_eq_none_of_stops hs (by decide)]
  exact yields_ok _

theorem yields_attribute (hd : d.kind = .symbol .dot) (ht : t.kind = .name) (hs : Stops 9 rest)
    (h : Yields (trail stop (.attribute e t.text) rest) v rest') :
    Yields (trail stop e (d :: t :: rest)) v rest' := by
  rw [trail, accept?_cons_of_eq hd]
  refine (yields_expect ht).bind fun hlt => ?_
  dsimp only
  rw [accept?_eq_none_of_stops hs (by decide)]
  exact h.bind fun hlt => yields_ok _

theorem yields_method {es : List Expr} (hd : d.kind = .symbol .dot) (ht : t.kind = .name)
    (hl : l.kind = .symbol .leftParen) (ha : Yields (arguments stop us) es rest)
    (h : Yields (trail stop (.call t.text (e :: es)) rest) v rest') :
    Yields (trail stop e (d :: t :: l :: us)) v rest' := by
  rw [trail, accept?_cons_of_eq hd]
  refine (yields_expect ht).bind fun hlt => ?_
  dsimp only
  rw [accept?_cons_of_eq hl]
  exact ha.bind fun hlt => h.bind fun hlt => yields_ok _

theorem yields_subscript {part : Expr} (hl : l.kind = .symbol .leftBracket)
    (hp : Yields (subscript stop e us) part rest) (h : Yields (trail stop part rest) v rest') :
    Yields (trail stop e (l :: us)) v rest' := by
  rw [trail, accept?_cons_of_ne (by simp [hl])]
  dsimp only
  rw [accept?_cons_of_eq hl]
  exact hp.bind fun hlt => h.bind fun hlt => yields_ok _

theorem yields_index (ho : Opens 2 us)
    (h : Yields (conditional? stop (us ++ vs)) e (r :: rest))
    (hr : r.kind = .symbol .rightBracket) :
    Yields (subscript stop object (us ++ vs)) (.index object e) rest := by
  rw [subscript, accept?_eq_none_of_opens ho (by decide)]
  refine h.bind fun hlt => ?_
  dsimp only
  rw [accept?_cons_of_eq hr]
  exact yields_ok _

theorem yields_slice_none {finish : Option Expr} (hc : c.kind = .symbol .colon)
    (h : Yields (sliceEnd stop us) finish rest) :
    Yields (subscript stop object (c :: us)) (.slice object none finish) rest := by
  rw [subscript, accept?_cons_of_eq hc]
  exact h.bind fun hlt => yields_ok _

theorem yields_slice_some {finish : Option Expr} (ho : Opens 2 us)
    (hs : Yields (conditional? stop (us ++ vs)) e (c :: ts)) (hc : c.kind = .symbol .colon)
    (h : Yields (sliceEnd stop ts) finish rest) :
    Yields (subscript stop object (us ++ vs)) (.slice object (some e) finish) rest := by
  rw [subscript, accept?_eq_none_of_opens ho (by decide)]
  refine hs.bind fun hlt => ?_
  dsimp only
  rw [accept?_cons_of_ne (by simp [hc])]
  exact (yields_expect hc).bind fun hlt => h.bind fun hlt => yields_ok _

theorem yields_sliceEnd_none (hr : r.kind = .symbol .rightBracket) :
    Yields (sliceEnd stop (r :: rest)) none rest := by
  rw [sliceEnd, accept?_cons_of_eq hr]
  exact yields_ok _

theorem yields_sliceEnd_some (ho : Opens 2 us)
    (h : Yields (conditional? stop (us ++ vs)) e (r :: rest))
    (hr : r.kind = .symbol .rightBracket) :
    Yields (sliceEnd stop (us ++ vs)) (some e) rest := by
  rw [sliceEnd, accept?_eq_none_of_opens ho (by decide)]
  exact h.bind fun hlt => (yields_expect hr).bind fun hlt => yields_ok _

theorem yields_arguments_nil (hr : r.kind = .symbol .rightParen) :
    Yields (arguments stop (r :: rest)) [] rest := by
  rw [arguments, accept?_cons_of_eq hr]
  exact yields_ok _

theorem yields_arguments_last (ho : Opens 2 us)
    (h : Yields (conditional? stop (us ++ vs)) e (r :: rest)) (hr : r.kind = .symbol .rightParen) :
    Yields (arguments stop (us ++ vs)) [e] rest := by
  rw [arguments, accept?_eq_none_of_opens ho (by decide)]
  refine h.bind fun hlt => ?_
  dsimp only
  rw [accept?_cons_of_ne (by simp [hr])]
  exact (yields_expect hr).bind fun hlt => yields_ok _

theorem yields_arguments_more {es : List Expr} (ho : Opens 2 us)
    (h : Yields (conditional? stop (us ++ vs)) e (c :: ts)) (hc : c.kind = .symbol .comma)
    (hs : Yields (arguments stop ts) es rest) :
    Yields (arguments stop (us ++ vs)) (e :: es) rest := by
  rw [arguments, accept?_eq_none_of_opens ho (by decide)]
  refine h.bind fun hlt => ?_
  dsimp only
  rw [accept?_cons_of_eq hc]
  exact hs.bind fun hlt => yields_ok _

theorem yields_elements_nil (hr : r.kind = closing) (hne : closing ≠ .symbol .comma) :
    Yields (elements stop closing (r :: rest)) [] rest := by
  rw [elements, accept?_cons_of_ne (by simpa [hr] using hne)]
  exact (yields_expect hr).bind fun hlt => yields_ok _

theorem yields_elements_end (hc : c.kind = .symbol .comma) (hr : r.kind = closing) :
    Yields (elements stop closing (c :: r :: rest)) [] rest := by
  rw [elements, accept?_cons_of_eq hc]
  dsimp only
  rw [accept?_cons_of_eq hr]
  exact yields_ok _

theorem yields_elements_cons {es : List Expr} (hc : c.kind = .symbol .comma) (ho : Opens 2 us)
    (hlead : 2 < lead closing) (h : Yields (conditional? stop (us ++ vs)) e ts)
    (hs : Yields (elements stop closing ts) es rest) :
    Yields (elements stop closing (c :: (us ++ vs))) (e :: es) rest := by
  rw [elements, accept?_cons_of_eq hc]
  dsimp only
  rw [accept?_eq_none_of_opens ho hlead]
  exact h.bind fun hlt => hs.bind fun hlt => yields_ok _

theorem yields_constant {value : Value} (h : Constant t value) :
    Yields (primary stop (t :: rest)) (.literal value) rest := by
  rw [primary, constant?_eq_some_iff.mpr h]
  exact yields_ok _

-- A token that is not a constant.
theorem constant?_eq_none_of_kind (hi : t.kind ≠ .integer) (hf : t.kind ≠ .float)
    (hk : ∀ k, t.kind ≠ .keyword k) : constant? t = none := by
  unfold constant?
  split <;> simp_all

theorem yields_strings {text : Text} (h : Strings us text) (hs : Stops 9 rest) :
    Yields (primary stop (us ++ rest)) (.literal (.text text)) rest := by
  cases us with
  | nil => cases h
  | cons t us =>
    obtain ⟨ht, hus⟩ := List.forall_mem_cons.mp h.kind_eq
    have hrest : ∀ u ∈ rest.head?, (u.kind == .string) = false := by
      intro u hu
      obtain ⟨rest, rfl⟩ := List.head?_eq_some_iff.mp hu
      have hstrength := stops_cons.mp hs
      have : u.kind ≠ .string := fun hk => by simp [hk, strength] at hstrength
      simpa using this
    obtain ⟨htake, hdrop⟩ := Text.span_append us rest (by simpa using hus) hrest
    rw [List.cons_append, primary,
      constant?_eq_none_of_kind (by simp [ht]) (by simp [ht]) (by simp [ht])]
    simp only [ht, htake, hdrop]
    rw [h.text_eq]
    exact yields_ok _

theorem yields_name (ht : t.kind = .name) (hs : Stops 9 rest) :
    Yields (primary stop (t :: rest)) (.name t.text) rest := by
  rw [primary, constant?_eq_none_of_kind (by simp [ht]) (by simp [ht]) (by simp [ht])]
  simp only [ht]
  rw [accept?_eq_none_of_stops hs (by decide)]
  exact yields_ok _

theorem yields_call {es : List Expr} (ht : t.kind = .name) (hl : l.kind = .symbol .leftParen)
    (h : Yields (arguments stop us) es rest) :
    Yields (primary stop (t :: l :: us)) (.call t.text es) rest := by
  rw [primary, constant?_eq_none_of_kind (by simp [ht]) (by simp [ht]) (by simp [ht])]
  simp only [ht]
  rw [accept?_cons_of_eq hl]
  exact h.bind fun hlt => yields_ok _

theorem yields_parenthesized (hl : l.kind = .symbol .leftParen)
    (h : Yields (parenthesized stop us) e rest) : Yields (primary stop (l :: us)) e rest := by
  rw [primary, constant?_eq_none_of_kind (by simp [hl]) (by simp [hl]) (by simp [hl])]
  simp only [hl]
  exact h.bind fun hlt => yields_ok _

theorem yields_bracketed (hl : l.kind = .symbol .leftBracket)
    (h : Yields (bracketed stop us) e rest) : Yields (primary stop (l :: us)) e rest := by
  rw [primary, constant?_eq_none_of_kind (by simp [hl]) (by simp [hl]) (by simp [hl])]
  simp only [hl]
  exact h.bind fun hlt => yields_ok _

theorem yields_object {es : List (Expr × Expr)} (hl : l.kind = .symbol .leftBrace)
    (h : Yields (entries stop us) es rest) : Yields (primary stop (l :: us)) (.object es) rest := by
  rw [primary, constant?_eq_none_of_kind (by simp [hl]) (by simp [hl]) (by simp [hl])]
  simp only [hl]
  exact h.bind fun hlt => yields_ok _

theorem yields_unit (hr : r.kind = .symbol .rightParen) :
    Yields (parenthesized stop (r :: rest)) (.tuple []) rest := by
  rw [parenthesized, accept?_cons_of_eq hr]
  exact yields_ok _

theorem yields_group (ho : Opens 2 us) (h : Yields (conditional? stop (us ++ vs)) e (r :: rest))
    (hr : r.kind = .symbol .rightParen) : Yields (parenthesized stop (us ++ vs)) e rest := by
  rw [parenthesized, accept?_eq_none_of_opens ho (by decide)]
  refine h.bind fun hlt => ?_
  dsimp only
  rw [accept?_cons_of_eq hr]
  exact yields_ok _

theorem yields_tuple {es : List Expr} (ho : Opens 2 us)
    (h : Yields (conditional? stop (us ++ vs)) e (c :: ts)) (hc : c.kind = .symbol .comma)
    (hs : Yields (elements stop (.symbol .rightParen) (c :: ts)) es rest) :
    Yields (parenthesized stop (us ++ vs)) (.tuple (e :: es)) rest := by
  rw [parenthesized, accept?_eq_none_of_opens ho (by decide)]
  refine h.bind fun hlt => ?_
  dsimp only
  rw [accept?_cons_of_ne (by simp [hc])]
  exact hs.bind fun hlt => yields_ok _

theorem yields_list_nil (hr : r.kind = .symbol .rightBracket) :
    Yields (bracketed stop (r :: rest)) (.list []) rest := by
  rw [bracketed, accept?_cons_of_eq hr]
  exact yields_ok _

theorem yields_list_cons {es : List Expr} (ho : Opens 2 us)
    (h : Yields (conditional? stop (us ++ vs)) e (c :: ts)) (hc : c.kind ≠ .keyword .each)
    (hs : Yields (elements stop (.symbol .rightBracket) (c :: ts)) es rest) :
    Yields (bracketed stop (us ++ vs)) (.list (e :: es)) rest := by
  rw [bracketed, accept?_eq_none_of_opens ho (by decide)]
  refine h.bind fun hlt => ?_
  dsimp only
  rw [accept?_cons_of_ne hc]
  exact hs.bind fun hlt => yields_ok _

theorem yields_comprehension (ho : Opens 2 us)
    (h : Yields (conditional? stop (us ++ vs)) first (t :: ts)) (ht : t.kind = .keyword .each)
    (hall : Yields (comprehended stop first ts) e rest) :
    Yields (bracketed stop (us ++ vs)) e rest := by
  rw [bracketed, accept?_eq_none_of_opens ho (by decide)]
  refine h.bind fun hlt => ?_
  dsimp only
  rw [accept?_cons_of_eq ht]
  exact hall.bind fun hlt => yields_ok _

theorem yields_names {targets : List Text} (h : Names us targets) (hne : c.kind ≠ .symbol .comma) :
    Yields (names stop (us ++ c :: rest)) targets (c :: rest) := by
  induction h with
  | one hk =>
    rw [List.singleton_append, names]
    refine (yields_expect hk).bind fun hlt => ?_
    dsimp only
    rw [accept?_cons_of_ne hne]
    exact yields_ok _
  | more hk hc _ ih =>
    rw [List.cons_append, List.cons_append, names]
    refine (yields_expect hk).bind fun hlt => ?_
    dsimp only
    rw [accept?_cons_of_eq hc]
    exact ih.bind fun hlt => yields_ok _

theorem yields_comprehended {targets : List Text} {source : Expr} (hn : Names us targets)
    (hm : c.kind = .keyword .member) (hs : Yields (chain stop .or vs) source (r :: rest))
    (hr : r.kind = .symbol .rightBracket) :
    Yields (comprehended stop e (us ++ c :: vs)) (.comprehension e targets source none) rest := by
  rw [comprehended]
  refine (yields_names hn (by simp [hm])).bind fun hlt => ?_
  refine (yields_expect hm).bind fun hlt => hs.bind fun hlt => ?_
  dsimp only
  rw [accept?_cons_of_ne (by simp [hr])]
  exact (yields_expect hr).bind fun hlt => yields_ok _

theorem yields_comprehended_when {targets : List Text} {source condition : Expr}
    (hn : Names us targets) (hm : c.kind = .keyword .member)
    (hs : Yields (chain stop .or vs) source (t :: ts)) (ht : t.kind = .keyword .when)
    (hc : Yields (chain stop .or ts) condition (r :: rest)) (hr : r.kind = .symbol .rightBracket) :
    Yields (comprehended stop e (us ++ c :: vs)) (.comprehension e targets source (some condition))
      rest := by
  rw [comprehended]
  refine (yields_names hn (by simp [hm])).bind fun hlt => ?_
  refine (yields_expect hm).bind fun hlt => hs.bind fun hlt => ?_
  dsimp only
  rw [accept?_cons_of_eq ht]
  refine hc.bind fun hlt => ?_
  exact (yields_expect hr).bind fun hlt => yields_ok _

theorem yields_entries_nil (hr : r.kind = .symbol .rightBrace) :
    Yields (entries stop (r :: rest)) [] rest := by
  rw [entries, accept?_cons_of_eq hr]
  exact yields_ok _

theorem yields_entries_last {key : Expr} (ho : Opens 2 us)
    (hk : Yields (entryKey stop (us ++ vs)) key (c :: ts)) (hc : c.kind = .symbol .colon)
    (hv : Yields (conditional? stop ts) e (r :: rest)) (hr : r.kind = .symbol .rightBrace) :
    Yields (entries stop (us ++ vs)) [(key, e)] rest := by
  rw [entries, accept?_eq_none_of_opens ho (by decide)]
  refine hk.bind fun hlt => (yields_expect hc).bind fun hlt => hv.bind fun hlt => ?_
  dsimp only
  rw [accept?_cons_of_ne (by simp [hr])]
  exact (yields_expect hr).bind fun hlt => yields_ok _

theorem yields_entries_more {key : Expr} {es : List (Expr × Expr)} (ho : Opens 2 us)
    (hk : Yields (entryKey stop (us ++ vs)) key (c :: ts)) (hc : c.kind = .symbol .colon)
    (hv : Yields (conditional? stop ts) e (d :: rest)) (hd : d.kind = .symbol .comma)
    (hs : Yields (entries stop rest) es rest') :
    Yields (entries stop (us ++ vs)) ((key, e) :: es) rest' := by
  rw [entries, accept?_eq_none_of_opens ho (by decide)]
  refine hk.bind fun hlt => (yields_expect hc).bind fun hlt => hv.bind fun hlt => ?_
  dsimp only
  rw [accept?_cons_of_eq hd]
  exact hs.bind fun hlt => yields_ok _

theorem yields_word (ht : t.kind = .name) (hc : c.kind = .symbol .colon) :
    Yields (entryKey stop (t :: c :: rest)) (.literal (.text t.text)) (c :: rest) := by
  rw [entryKey, accept?_cons_of_eq ht]
  dsimp only
  rw [accept?_cons_of_eq hc]
  exact yields_ok _

-- A name before a colon is read alone, which is why no longer key starts with the two.
theorem yields_conditional_name (ht : t.kind = .name) (hc : c.kind = .symbol .colon) :
    Yields (conditional? stop ([t] ++ c :: rest)) (.name t.text) (c :: rest) := by
  have hs : ∀ n, Stops (n + 1) (c :: rest) := fun n => by simp [stops_cons, hc, strength]
  have ho : ∀ n, Opens n [t] := fun n => by simp [opens_cons, ht, lead]
  have htrailed : Yields (trailed stop ([t] ++ c :: rest)) (.name t.text) (c :: rest) :=
    yields_trailed (yields_name ht (hs 8)) (yields_trail_stop (hs 7))
  have hsign := yields_unsigned (ho 0) (yields_base htrailed (hs 6))
  have hproduct := yields_chain_operand (yields_signed hsign) (hs 5)
  have hsum := yields_chain_operand (yields_product hproduct) (hs 4)
  have hnegation := yields_negation (ho 1) (yields_comparison hsum (yields_links_stop (hs 3)))
  have hand := yields_chain_operand (yields_operand_negation hnegation) (hs 2)
  have hor := yields_chain_operand (yields_conjunction hand) (hs 1)
  exact yields_conditional hor (hs 0)

theorem yields_computed (ho : Opens 2 us) (hn : ∀ t, us = [t] → t.kind ≠ .name)
    (h : Yields (conditional? stop (us ++ c :: rest)) e (c :: rest)) :
    Yields (entryKey stop (us ++ c :: rest)) e (c :: rest) := by
  obtain ⟨t, us, rfl, -⟩ := ho
  rw [List.cons_append] at h ⊢
  rw [entryKey]
  by_cases ht : t.kind = .name
  · rw [accept?_cons_of_eq ht]
    cases us with
    | nil => exact absurd ht (hn t rfl)
    | cons d us =>
      rw [List.cons_append] at h ⊢
      have hd : d.kind ≠ .symbol .colon := by
        intro hd
        obtain ⟨_, h⟩ := h
        obtain ⟨_, hname⟩ := yields_conditional_name ht hd
        have hrest := congrArg Parsed.rest (Except.ok.inj (h.symm.trans hname))
        have hlength := congrArg List.length hrest
        simp only [List.length_cons, List.length_append] at hlength
        omega
      dsimp only
      rw [accept?_cons_of_ne hd]
      exact h
  · rw [accept?_cons_of_ne ht]
    exact h

theorem yields_topElements_nil : Yields (topElements stop []) [] [] := by
  rw [topElements]
  exact yields_ok _

theorem yields_topElements_end (hc : c.kind = .symbol .comma) :
    Yields (topElements stop [c]) [] [] := by
  rw [topElements, accept?_cons_of_eq hc]
  exact yields_ok _

theorem yields_topElements_cons {es : List Expr} (hc : c.kind = .symbol .comma) (ho : Opens 2 us)
    (h : Yields (conditional? stop (us ++ vs)) e ts)
    (hs : Yields (topElements stop ts) es rest) :
    Yields (topElements stop (c :: (us ++ vs))) (e :: es) rest := by
  obtain ⟨t, us, rfl, -⟩ := ho
  rw [topElements, accept?_cons_of_eq hc]
  exact h.bind fun hlt => hs.bind fun hlt => yields_ok _

-- A phrase is read whole where no token of strength `n` or more follows.
def Reads {bound : List Token → Nat} (read : (ts : List Token) → ParseResult α (bound ts)) (n : Nat)
    (us : List Token) (a : α) : Prop :=
  ∀ rest, Stops n rest → Yields (read (us ++ rest)) a rest

theorem Reads.before {bound : List Token → Nat}
    {read : (ts : List Token) → ParseResult α (bound ts)} {a : α} (h : Reads read n us a)
    (ht : strength t.kind < n) : Yields (read (us ++ t :: rest)) a (t :: rest) :=
  h (t :: rest) (stops_cons.mpr ht)

-- After a chain the parser goes on as it does after its value.
def ChainReads (stop : Nat) (level : Level) (us : List Token) (e : Expr) : Prop :=
  ∀ rest v rest', Stops (levelStrength level + 1) rest →
    Yields (chainTail stop level e rest) v rest' → Yields (chain stop level (us ++ rest)) v rest'

theorem ChainReads.reads (h : ChainReads stop level us e) :
    Reads (chain stop level) (levelStrength level) us e :=
  fun rest hs => h rest e rest (hs.mono (Nat.le_succ _)) (yields_chainTail_stop hs)

-- The same after an operand and what is attached to it.
def TrailedReads (stop : Nat) (us : List Token) (e : Expr) : Prop :=
  ∀ rest v rest', Stops 9 rest → Yields (trail stop e rest) v rest' →
    Yields (trailed stop (us ++ rest)) v rest'

theorem TrailedReads.reads (h : TrailedReads stop us e) : Reads (trailed stop) 8 us e :=
  fun rest hs => h rest e rest (hs.mono (by decide)) (yields_trail_stop hs)

-- A bound of a slice is read on either side of the colon.
structure BoundReads (stop : Nat) (us : List Token) (bound : Option Expr) : Prop where
  start {object : Expr} {c : Token} {ts rest : List Token} {finish : Option Expr}
    (hc : c.kind = .symbol .colon) (h : Yields (sliceEnd stop ts) finish rest) :
    Yields (subscript stop object (us ++ c :: ts)) (.slice object bound finish) rest
  finish {r : Token} {rest : List Token} (hr : r.kind = .symbol .rightBracket) :
    Yields (sliceEnd stop (us ++ r :: rest)) bound rest

def ArgumentsReads (stop : Nat) (us : List Token) (es : List Expr) : Prop :=
  ∃ l ts, us = l :: ts ∧ l.kind = .symbol .leftParen ∧
    ∀ rest, Yields (arguments stop (ts ++ rest)) es rest

-- Listed expressions are read as arguments, after the comma behind a first element, as a list, and
-- at the end of a query.
structure ListedReads (stop : Nat) (us : List Token) (es : List Expr) : Prop where
  arguments {r : Token} {rest : List Token} (hr : r.kind = .symbol .rightParen) :
    Yields (arguments stop (us ++ r :: rest)) es rest
  elements {closing : Token.Kind} {c r : Token} {rest : List Token}
    (hclosing : closing = .symbol .rightParen ∨ closing = .symbol .rightBracket)
    (hc : c.kind = .symbol .comma) (hr : r.kind = closing) :
    Yields (elements stop closing (c :: (us ++ r :: rest))) es rest
  bracketed {r : Token} {rest : List Token} (hr : r.kind = .symbol .rightBracket) :
    Yields (bracketed stop (us ++ r :: rest)) (.list es) rest
  topElements {c : Token} (hc : c.kind = .symbol .comma) :
    Yields (topElements stop (c :: us)) es []

-- A condition is read at the end of a comprehension.
def ConditionReads (stop : Nat) (us : List Token) (condition : Option Expr) : Prop :=
  ∀ {element source : Expr} {targets : List Text} {ns vs rest : List Token} {m r : Token},
    Names ns targets → m.kind = .keyword .member → ChainReads stop .or vs source →
      r.kind = .symbol .rightBracket →
        Yields (comprehended stop element (ns ++ m :: (vs ++ (us ++ r :: rest))))
          (.comprehension element targets source condition) rest

def EntriesReads (stop : Nat) (us : List Token) (es : List (Expr × Expr)) : Prop :=
  ∀ {r : Token} {rest : List Token}, r.kind = .symbol .rightBrace →
    Yields (entries stop (us ++ r :: rest)) es rest

structure EntryReads (stop : Nat) (us : List Token) (entry : Expr × Expr) : Prop where
  last {r : Token} {rest : List Token} (hr : r.kind = .symbol .rightBrace) :
    Yields (entries stop (us ++ r :: rest)) [entry] rest
  more {c : Token} {ts rest : List Token} {es : List (Expr × Expr)}
    (hc : c.kind = .symbol .comma) (h : Yields (entries stop ts) es rest) :
    Yields (entries stop (us ++ c :: ts)) (entry :: es) rest

def KeyReads (stop : Nat) (us : List Token) (key : Expr) : Prop :=
  ∀ {c : Token} {rest : List Token}, c.kind = .symbol .colon →
    Yields (entryKey stop (us ++ c :: rest)) key (c :: rest)

-- One lemma for each rule of the grammar that does more than change the category.

theorem reads_guard {test : Expr} (h : ChainReads stop .or us e) (ht : t.kind = .keyword .when)
    (htest : ChainReads stop .or vs test) :
    Reads (conditional? stop) 1 (us ++ t :: vs) (.conditional test e (.list [])) := by
  intro rest hs
  rw [List.append_assoc, List.cons_append]
  exact yields_guard (h.reads.before (by simp [ht, strength, levelStrength])) ht
    (htest.reads rest (hs.mono (by decide))) hs

theorem reads_choice {test alternate : Expr} {ws : List Token} (h : ChainReads stop .or us e)
    (ht : t.kind = .keyword .when) (htest : ChainReads stop .or vs test)
    (hc : c.kind = .keyword .otherwise) (ha : Reads (conditional? stop) 1 ws alternate) :
    Reads (conditional? stop) 1 (us ++ t :: (vs ++ c :: ws)) (.conditional test e alternate) := by
  intro rest hs
  rw [List.append_assoc, List.cons_append, List.append_assoc, List.cons_append]
  exact yields_choice (h.reads.before (by simp [ht, strength, levelStrength])) ht
    (htest.reads.before (by simp [hc, strength, levelStrength])) hc (ha rest hs)

theorem chainReads_join {left right : Expr} {op : Expr → Expr → Expr}
    (h : ChainReads stop level us left) (ho : Operator level t.kind op)
    (hr : Reads (operand stop level) (levelStrength level + 1) vs right) :
    ChainReads stop level (us ++ t :: vs) (op left right) := by
  intro rest v rest' hs ht
  rw [List.append_assoc, List.cons_append]
  have hstops : Stops (levelStrength level + 1) (t :: (vs ++ rest)) := by
    rw [stops_cons, ho.strength_eq]
    exact Nat.lt_succ_self _
  exact h _ v rest' hstops (yields_chainTail_join ho (hr rest hs) ht)

theorem reads_compare {link : CompareOp × Expr} {more : List (CompareOp × Expr)}
    (h : ChainReads stop .sum us e) (hg : Links vs (link :: more))
    (hl : Reads (links stop) 4 vs (link :: more)) :
    Reads (comparison stop) 4 (us ++ vs) (.compare e (link :: more)) := by
  intro rest hs
  rw [List.append_assoc]
  exact yields_comparison (h.reads _ (hg.stops hs)) (hl rest hs)

theorem reads_links_cons {op : CompareOp} {more : List (CompareOp × Expr)}
    (ho : Comparator t.kind op) (h : ChainReads stop .sum us e) (hg : Links vs more)
    (hl : Reads (links stop) 4 vs more) :
    Reads (links stop) 4 (t :: (us ++ vs)) ((op, e) :: more) := by
  intro rest hs
  rw [List.cons_append, List.append_assoc]
  exact yields_links_cons ho (h.reads _ (hg.stops hs)) (hl rest hs)

theorem reads_minus (ht : t.kind = .symbol .minus) (h : Reads (sign stop) 7 us e) :
    Reads (sign stop) 7 (t :: us) (signed .minus e) :=
  fun rest hs => yields_sign (by rw [ht]; rfl) (h rest hs)

theorem reads_plus (ht : t.kind = .symbol .plus) (h : Reads (sign stop) 7 us e) :
    Reads (sign stop) 7 (t :: us) (signed .plus e) :=
  fun rest hs => yields_sign (by rw [ht]; rfl) (h rest hs)

theorem signed_minus (hn : ∀ n, e ≠ .literal (.number n)) : signed .minus e = .unary .minus e := by
  unfold signed
  split
  next => exact absurd rfl (hn _)
  next => rfl

theorem reads_power {exponent : Expr} (h : TrailedReads stop us e) (ht : t.kind = .symbol .stars)
    (hx : Reads (sign stop) 7 vs exponent) :
    Reads (power stop) 7 (us ++ t :: vs) (.binary (.exact .power) e exponent) := by
  intro rest hs
  rw [List.append_assoc, List.cons_append]
  exact yields_power (h.reads.before (by simp [ht, strength])) ht (hx rest hs)

theorem trailedReads_attribute (h : TrailedReads stop us e) (hd : d.kind = .symbol .dot)
    (ht : t.kind = .name) : TrailedReads stop (us ++ [d, t]) (.attribute e t.text) := by
  intro rest v rest' hs hv
  rw [List.append_assoc]
  exact h _ v rest' (stops_cons.mpr (by simp [hd, strength])) (yields_attribute hd ht hs hv)

theorem trailedReads_method {es : List Expr} (h : TrailedReads stop us e)
    (hd : d.kind = .symbol .dot) (ht : t.kind = .name) (ha : ArgumentsReads stop vs es) :
    TrailedReads stop (us ++ d :: t :: vs) (.call t.text (e :: es)) := by
  obtain ⟨l, vs, rfl, hl, ha⟩ := ha
  intro rest v rest' hs hv
  rw [List.append_assoc]
  exact h _ v rest' (stops_cons.mpr (by simp [hd, strength])) (yields_method hd ht hl (ha rest) hv)

theorem trailedReads_index (h : TrailedReads stop us object) (hl : l.kind = .symbol .leftBracket)
    (ho : Opens 2 vs) (hi : Reads (conditional? stop) 1 vs e)
    (hr : r.kind = .symbol .rightBracket) :
    TrailedReads stop (us ++ l :: (vs ++ [r])) (.index object e) := by
  intro rest v rest' hs hv
  rw [List.append_assoc, List.cons_append, List.append_assoc]
  exact h _ v rest' (stops_cons.mpr (by simp [hl, strength]))
    (yields_subscript hl (yields_index ho (hi.before (by simp [hr, strength])) hr) hv)

theorem trailedReads_slice {ws : List Token} {start finish : Option Expr}
    (h : TrailedReads stop us object) (hl : l.kind = .symbol .leftBracket)
    (hs : BoundReads stop vs start) (hc : c.kind = .symbol .colon)
    (hf : BoundReads stop ws finish) (hr : r.kind = .symbol .rightBracket) :
    TrailedReads stop (us ++ l :: (vs ++ c :: (ws ++ [r]))) (.slice object start finish) := by
  intro rest v rest' hstops hv
  rw [List.append_assoc, List.cons_append, List.append_assoc, List.cons_append, List.append_assoc]
  exact h _ v rest' (stops_cons.mpr (by simp [hl, strength]))
    (yields_subscript hl (hs.start hc (hf.finish hr)) hv)

theorem BoundReads.absent : BoundReads stop [] none where
  start hc h := yields_slice_none hc h
  finish hr := yields_sliceEnd_none hr

theorem BoundReads.present (ho : Opens 2 us) (h : Reads (conditional? stop) 1 us e) :
    BoundReads stop us (some e) where
  start hc hf := yields_slice_some ho (h.before (by simp [hc, strength])) hc hf
  finish hr := yields_sliceEnd_some ho (h.before (by simp [hr, strength])) hr

theorem argumentsReads_parens {es : List Expr} (hl : l.kind = .symbol .leftParen)
    (h : ListedReads stop us es) (hr : r.kind = .symbol .rightParen) :
    ArgumentsReads stop (l :: (us ++ [r])) es := by
  refine ⟨l, us ++ [r], rfl, hl, fun rest => ?_⟩
  rw [List.append_assoc]
  exact h.arguments hr

theorem ListedReads.nil : ListedReads stop [] [] where
  arguments hr := yields_arguments_nil hr
  elements _ hc hr := yields_elements_end hc hr
  bracketed hr := yields_list_nil hr
  topElements hc := yields_topElements_end hc

theorem ListedReads.last (ho : Opens 2 us) (h : Reads (conditional? stop) 1 us e) :
    ListedReads stop us [e] where
  arguments hr := yields_arguments_last ho (h.before (by simp [hr, strength])) hr
  elements hclosing hc hr := by
    rcases hclosing with rfl | rfl
    · exact yields_elements_cons hc ho (by decide) (h.before (by simp [hr, strength]))
        (yields_elements_nil hr (by decide))
    · exact yields_elements_cons hc ho (by decide) (h.before (by simp [hr, strength]))
        (yields_elements_nil hr (by decide))
  bracketed hr := yields_list_cons ho (h.before (by simp [hr, strength])) (by simp [hr])
    (yields_elements_nil hr (by decide))
  topElements hc := by
    have hlast := yields_topElements_cons hc ho (h [] stops_nil) yields_topElements_nil
    rwa [List.append_nil] at hlast

theorem ListedReads.more {es : List Expr} (ho : Opens 2 us) (h : Reads (conditional? stop) 1 us e)
    (hc : c.kind = .symbol .comma) (hs : ListedReads stop vs es) :
    ListedReads stop (us ++ c :: vs) (e :: es) where
  arguments hr := by
    rw [List.append_assoc, List.cons_append]
    exact yields_arguments_more ho (h.before (by simp [hc, strength])) hc (hs.arguments hr)
  elements hclosing hd hr := by
    rw [List.append_assoc, List.cons_append]
    exact yields_elements_cons hd ho (by rcases hclosing with rfl | rfl <;> decide)
      (h.before (by simp [hc, strength])) (hs.elements hclosing hc hr)
  bracketed hr := by
    rw [List.append_assoc, List.cons_append]
    exact yields_list_cons ho (h.before (by simp [hc, strength])) (by simp [hc])
      (hs.elements (.inr rfl) hc hr)
  topElements hd := yields_topElements_cons hd ho (h.before (by simp [hc, strength]))
    (hs.topElements hc)

theorem reads_call {es : List Expr} (ht : t.kind = .name) (ha : ArgumentsReads stop us es) :
    Reads (primary stop) 9 (t :: us) (.call t.text es) := by
  obtain ⟨l, us, rfl, hl, ha⟩ := ha
  exact fun rest _ => yields_call ht hl (ha rest)

theorem reads_group (hl : l.kind = .symbol .leftParen) (ho : Opens 2 us)
    (h : Reads (conditional? stop) 1 us e) (hr : r.kind = .symbol .rightParen) :
    Reads (primary stop) 9 (l :: (us ++ [r])) e := by
  intro rest _
  rw [List.cons_append, List.append_assoc]
  exact yields_parenthesized hl (yields_group ho (h.before (by simp [hr, strength])) hr)

theorem reads_tuple {es : List Expr} (hl : l.kind = .symbol .leftParen) (ho : Opens 2 us)
    (h : Reads (conditional? stop) 1 us e) (hc : c.kind = .symbol .comma)
    (hs : ListedReads stop vs es) (hr : r.kind = .symbol .rightParen) :
    Reads (primary stop) 9 (l :: (us ++ c :: (vs ++ [r]))) (.tuple (e :: es)) := by
  intro rest _
  rw [List.cons_append, List.append_assoc, List.cons_append, List.append_assoc]
  exact yields_parenthesized hl (yields_tuple ho (h.before (by simp [hc, strength])) hc
    (hs.elements (.inl rfl) hc hr))

theorem reads_list {es : List Expr} (hl : l.kind = .symbol .leftBracket)
    (hs : ListedReads stop us es) (hr : r.kind = .symbol .rightBracket) :
    Reads (primary stop) 9 (l :: (us ++ [r])) (.list es) := by
  intro rest _
  rw [List.cons_append, List.append_assoc]
  exact yields_bracketed hl (hs.bracketed hr)

theorem reads_comprehension {ns ws : List Token} {m : Token} {targets : List Text} {source : Expr}
    {condition : Option Expr} (hl : l.kind = .symbol .leftBracket) (ho : Opens 2 us)
    (h : Reads (conditional? stop) 1 us e) (hf : t.kind = .keyword .each) (hn : Names ns targets)
    (hm : m.kind = .keyword .member) (hs : ChainReads stop .or vs source)
    (hc : ConditionReads stop ws condition) (hr : r.kind = .symbol .rightBracket) :
    Reads (primary stop) 9 (l :: (us ++ t :: (ns ++ m :: (vs ++ (ws ++ [r])))))
      (.comprehension e targets source condition) := by
  intro rest _
  rw [List.cons_append, List.append_assoc, List.cons_append, List.append_assoc, List.cons_append,
    List.append_assoc, List.append_assoc]
  exact yields_bracketed hl (yields_comprehension ho (h.before (by simp [hf, strength])) hf
    (hc hn hm hs hr))

theorem reads_object {es : List (Expr × Expr)} (hl : l.kind = .symbol .leftBrace)
    (hs : EntriesReads stop us es) (hr : r.kind = .symbol .rightBrace) :
    Reads (primary stop) 9 (l :: (us ++ [r])) (.object es) := by
  intro rest _
  rw [List.cons_append, List.append_assoc]
  exact yields_object hl (hs hr)

theorem conditionReads_absent : ConditionReads stop [] none :=
  fun hn hm hs hr =>
    yields_comprehended hn hm (hs.reads.before (by simp [hr, strength, levelStrength])) hr

theorem conditionReads_present (ht : t.kind = .keyword .when) (h : ChainReads stop .or us e) :
    ConditionReads stop (t :: us) (some e) :=
  fun hn hm hs hr =>
    yields_comprehended_when hn hm (hs.reads.before (by simp [ht, strength, levelStrength])) ht
      (h.reads.before (by simp [hr, strength, levelStrength])) hr

theorem EntryReads.pair {key : Expr} (ho : Opens 2 us) (hk : KeyReads stop us key)
    (hc : c.kind = .symbol .colon) (hv : Reads (conditional? stop) 1 vs v) :
    EntryReads stop (us ++ c :: vs) (key, v) where
  last hr := by
    rw [List.append_assoc, List.cons_append]
    exact yields_entries_last ho (hk hc) hc (hv.before (by simp [hr, strength])) hr
  more hd hs := by
    rw [List.append_assoc, List.cons_append]
    exact yields_entries_more ho (hk hc) hc (hv.before (by simp [hd, strength])) hd hs

theorem entriesReads_more {entry : Expr × Expr} {es : List (Expr × Expr)}
    (h : EntryReads stop us entry) (hc : c.kind = .symbol .comma) (hs : EntriesReads stop vs es) :
    EntriesReads stop (us ++ c :: vs) (entry :: es) := by
  intro r rest hr
  rw [List.append_assoc, List.cons_append]
  exact h.more hc (hs hr)

theorem keyReads_computed (ho : Opens 2 us) (hn : ∀ t, us = [t] → t.kind ≠ .name)
    (h : Reads (conditional? stop) 1 us e) : KeyReads stop us e :=
  fun hc => yields_computed ho hn (h.before (by simp [hc, strength]))

-- By induction on the phrase, with one claim for each category.
theorem conditional_reads (stop : Nat) (h : Conditional us e) :
    Reads (conditional? stop) 1 us e := by
  refine @Conditional.rec
    (fun us e _ => Reads (conditional? stop) 1 us e)
    (fun level us e _ => ChainReads stop level us e)
    (fun level us e _ => Reads (operand stop level) (levelStrength level + 1) us e)
    (fun us e _ => Reads (negation stop) 4 us e)
    (fun us e _ => Reads (comparison stop) 4 us e)
    (fun us more _ => Reads (links stop) 4 us more)
    (fun us e _ => Reads (sign stop) 7 us e)
    (fun us e _ => Reads (power stop) 7 us e)
    (fun us e _ => TrailedReads stop us e)
    (fun us bound _ => BoundReads stop us bound)
    (fun us es _ => ArgumentsReads stop us es)
    (fun us es _ => ListedReads stop us es)
    (fun us e _ => Reads (primary stop) 9 us e)
    (fun us condition _ => ConditionReads stop us condition)
    (fun us es _ => EntriesReads stop us es)
    (fun us entry _ => EntryReads stop us entry)
    (fun us key _ => KeyReads stop us key)
    ?plain ?guard ?choice ?operand ?join ?conjunction ?negation ?product ?signed ?not ?comparison
    ?sum ?compare ?linksNil ?linksCons ?number ?minus ?plus ?unsigned ?base ?power ?primary ?field
    ?method ?index ?slice ?boundAbsent ?boundPresent ?parens ?listedNil ?listedLast ?listedMore
    ?constant ?strings ?name ?call ?empty ?group ?tuple ?list ?comprehension ?object
    ?conditionAbsent ?conditionPresent ?entriesNil ?entriesLast ?entriesMore ?pair ?word ?computed
    us e h
  -- conditionals and chains
  case plain => exact fun _ h rest hs => yields_conditional (h.reads rest (hs.mono (by decide))) hs
  case guard => exact fun _ hi _ h htest => reads_guard h hi htest
  case choice => exact fun _ hi _ ho _ h htest ha => reads_choice h hi htest ho ha
  case operand => exact fun _ h rest _ _ hs ht => yields_chain (h rest hs) ht
  case join => exact fun _ ho _ h hr => chainReads_join h ho hr
  case conjunction => exact fun _ h rest hs => yields_conjunction (h.reads rest hs)
  case negation => exact fun _ h rest hs => yields_operand_negation (h rest hs)
  case product => exact fun _ h rest hs => yields_product (h.reads rest hs)
  case signed => exact fun _ h rest hs => yields_signed (h rest hs)
  -- negations and comparisons
  case not => exact fun ht _ h rest hs => yields_not ht (h rest hs)
  case comparison => exact fun hg h rest hs => yields_negation hg.opens (h rest hs)
  case sum => exact fun _ h rest hs =>
    yields_comparison (h.reads rest (hs.mono (by decide))) (yields_links_stop hs)
  case compare => exact fun _ hg h hl => reads_compare h hg hl
  case linksNil => exact fun _ hs => yields_links_stop hs
  case linksCons => exact fun ho _ hg h hl => reads_links_cons ho h hg hl
  -- signs and powers
  case number => exact fun ht _ h => reads_minus ht h
  case minus => exact fun ht _ hn h => signed_minus hn ▸ reads_minus ht h
  case plus => exact fun ht _ h => reads_plus ht h
  case unsigned => exact fun hg h rest hs => yields_unsigned hg.opens (h rest hs)
  case base => exact fun _ h rest hs => yields_base (h.reads rest (hs.mono (by decide))) hs
  case power => exact fun _ ht _ h hx => reads_power h ht hx
  -- operands and what is attached to them
  case primary => exact fun _ h rest _ _ hs ht => yields_trailed (h rest hs) ht
  case field => exact fun _ hd ht h => trailedReads_attribute h hd ht
  case method => exact fun _ hd ht _ h ha => trailedReads_method h hd ht ha
  case index => exact fun _ hl hg hr h hi => trailedReads_index h hl hg.opens hi hr
  case slice => exact fun _ hl _ hc _ hr h hs hf => trailedReads_slice h hl hs hc hf hr
  case boundAbsent => exact .absent
  case boundPresent => exact fun hg h => .present hg.opens h
  case parens => exact fun hl _ hr h => argumentsReads_parens hl h hr
  case listedNil => exact .nil
  case listedLast => exact fun hg h => .last hg.opens h
  case listedMore => exact fun hg hc _ h hs => .more hg.opens h hc hs
  case constant => exact fun h _ _ => yields_constant h
  case strings => exact fun h _ hs => yields_strings h hs
  case name => exact fun ht _ hs => yields_name ht hs
  case call => exact fun ht _ ha => reads_call ht ha
  case empty => exact fun hl hr _ _ => yields_parenthesized hl (yields_unit hr)
  case group => exact fun hl hg hr h => reads_group hl hg.opens h hr
  case tuple => exact fun hl hg hc _ hr h hs => reads_tuple hl hg.opens h hc hs hr
  case list => exact fun hl _ hr hs => reads_list hl hs hr
  case comprehension =>
    refine fun hl hg hf hn hm _ _ hr h hs hc => ?_
    exact reads_comprehension hl hg.opens h hf hn hm hs hc hr
  case object => exact fun hl _ hr hs => reads_object hl hs hr
  case conditionAbsent => exact conditionReads_absent
  case conditionPresent => exact fun ht _ h => conditionReads_present ht h
  -- entries of objects
  case entriesNil => exact fun hr => yields_entries_nil hr
  case entriesLast => exact fun _ h _ _ hr => h.last hr
  case entriesMore => exact fun _ hc _ h hs => entriesReads_more h hc hs
  case pair => exact fun hg hc _ hk hv => .pair hg.opens hk hc hv
  case word => exact fun ht _ _ hc => yields_word ht hc
  case computed => exact fun hg hn h => keyReads_computed hg.opens hn h

theorem listed_reads (stop : Nat) : ∀ {us es}, Listed us es → ListedReads stop us es
  | _, _, .nil => .nil
  | _, _, .last h => .last h.opens (conditional_reads stop h)
  | _, _, .more h hc hs => .more h.opens (conditional_reads stop h) hc (listed_reads stop hs)

theorem ofTokens_eq_ok {more : List Expr} (h : Yields (conditional? stop ts) first rest)
    (hm : Yields (topElements stop rest) more []) :
    ofTokens stop ts = .ok (if rest.isEmpty then first else .tuple (first :: more)) := by
  obtain ⟨_, h⟩ := h
  obtain ⟨_, hm⟩ := hm
  rw [ofTokens, bind_eq_ok_iff]
  exact ⟨_, h, bind_eq_ok_iff.mpr ⟨_, hm, rfl⟩⟩

theorem ofTokens_complete (stop : Nat) (h : Query ts e) : ofTokens stop ts = .ok e := by
  cases h with
  | single h =>
    have hfirst := conditional_reads stop h [] stops_nil
    rw [List.append_nil] at hfirst
    exact ofTokens_eq_ok hfirst yields_topElements_nil
  | tuple h hc hs =>
    exact ofTokens_eq_ok ((conditional_reads stop h).before (by rw [hc]; decide))
      ((listed_reads stop hs).topElements hc)

-- No list of tokens spells two queries.
theorem query_unique {e' : Expr} (h : Query ts e) (h' : Query ts e') : e = e' :=
  Except.ok.inj ((ofTokens_complete 0 h).symm.trans (ofTokens_complete 0 h'))

-- The parser accepts exactly the queries of the grammar, and gives the expression that the grammar
-- gives.
theorem ofTokens_eq_ok_iff (stop : Nat) (ts : List Token) (e : Expr) :
    ofTokens stop ts = .ok e ↔ Query ts e :=
  ⟨ofTokens_sound, ofTokens_complete stop⟩

end RecordQuery.Expr
