import RecordQuery.Proofs.Attempt
import RecordQuery.Proofs.Expr.Grammar

/-!
What the parser accepts is a phrase of the grammar: the tokens that each of its functions takes off
the front of a list spell the expression that it gives.
-/

namespace RecordQuery.Expr

open Grammar

variable {α : Type} {n stop : Nat} {ts : List Token} {kind closing : Token.Kind} {level : Level}

theorem accept?_eq_some_iff {p : Parsed Text ts.length} :
    accept? kind ts = some p ↔
      ∃ t rest hlt, ts = t :: rest ∧ t.kind = kind ∧ p = ⟨t.text, rest, hlt⟩ := by
  cases ts with
  | nil => simp [accept?]
  | cons t ts =>
    rw [accept?]
    split <;> grind

theorem accept?_eq_none_iff :
    accept? kind ts = none ↔ ∀ t rest, ts = t :: rest → t.kind ≠ kind := by
  cases ts with
  | nil => simp [accept?]
  | cons t ts =>
    rw [accept?]
    split <;> grind

theorem expect_bind_eq_ok_iff {f : Parsed Text ts.length → Except SyntaxError α} {a : α} :
    expect stop kind ts >>= f = .ok a ↔
      ∃ t rest hlt, ts = t :: rest ∧ t.kind = kind ∧ f ⟨t.text, rest, hlt⟩ = .ok a := by
  cases ts with
  | nil => simp [expect, bind, Except.bind]
  | cons t ts =>
    rw [expect]
    split <;> simp only [bind, Except.bind] <;> grind

theorem join?_eq_some_iff {op : Expr → Expr → Expr} :
    level.join? kind = some op ↔ Operator level kind op := by
  constructor
  · intro h
    unfold Level.join? at h
    split at h <;> cases h <;> constructor
  · rintro (_ | _ | _ | _ | _ | _ | _ | _) <;> rfl

theorem compareOp?_eq_some_iff {op : CompareOp} :
    compareOp? kind = some op ↔ Comparator kind op := by
  constructor
  · intro h
    unfold compareOp? at h
    split at h <;> cases h <;> constructor
  · rintro (_ | _ | _ | _ | _ | _ | _ | _) <;> rfl

theorem constant?_eq_some_iff {t : Token} {v : Value} : constant? t = some v ↔ Constant t v := by
  constructor
  · intro h
    unfold constant? at h
    split at h <;> cases h <;> constructor <;> assumption
  · rintro (h | h | h | h | h) <;> simp [constant?, h]

theorem signed_of_signOp? {t : Token} {us : List Token} {e : Expr} {op : UnaryOp}
    (hop : signOp? t.kind = some op) (he : Signed us e) : Signed (t :: us) (signed op e) := by
  unfold signOp? at hop
  split at hop
  next hk =>
    cases hop
    unfold signed
    split
    next => exact .number hk he
    next hn => exact .minus hk he fun n hen => hn n rfl hen
  next hk =>
    cases hop
    exact .plus hk he
  next => cases hop

-- The texts of a string and of the strings right after it make one.
theorem strings_takeWhile {t : Token} (h : t.kind = .string) (rest : List Token) :
    Strings (t :: rest.takeWhile (·.kind == .string))
      (t.text ++ ((rest.takeWhile (·.kind == .string)).map Token.text).flatten) := by
  induction rest generalizing t with
  | nil => simpa using Strings.one h
  | cons t' rest ih =>
    by_cases hk : t'.kind = .string
    · simpa [hk] using Strings.more h (ih hk)
    · simpa [hk] using Strings.one h

-- The tokens that were taken are a phrase that stands for the value.
def Took (Phrase : List Token → α → Prop) (ts : List Token) (p : Parsed α n) : Prop :=
  ∃ us, ts = us ++ p.rest ∧ Phrase us p.value

theorem Took.mono {P Q : List Token → α → Prop} {ts : List Token} {p : Parsed α n}
    (h : Took P ts p) (hPQ : ∀ {us}, P us p.value → Q us p.value) : Took Q ts p := by
  obtain ⟨us, hus, hu⟩ := h
  exact ⟨us, hus, hPQ hu⟩

-- The same with a closing token taken after the phrase.
def TookClosed (Phrase : List Token → α → Prop) (closing : Token.Kind) (ts : List Token)
    (p : Parsed α n) : Prop :=
  ∃ us r, ts = us ++ r :: p.rest ∧ r.kind = closing ∧ Phrase us p.value

theorem names_sound {stop : Nat} {ts : List Token} {p : Parsed (List Text) ts.length}
    (h : names stop ts = .ok p) : Took Names ts p := by
  rw [names, expect_bind_eq_ok_iff] at h
  obtain ⟨t, rest, hlt, ht, hk, h⟩ := h
  dsimp only at h
  cases hcomma : accept? (.symbol .comma) rest with
  | none =>
    rw [hcomma] at h
    cases h
    exact ⟨[t], ht, .one hk⟩
  | some c =>
    obtain ⟨c, afterComma, hlt', hc, hck, rfl⟩ := accept?_eq_some_iff.mp hcomma
    rw [hcomma] at h
    obtain ⟨⟨more, _, _⟩, hmore, h⟩ := bind_eq_ok_iff.mp h
    obtain ⟨us, hus, hu⟩ := names_sound hmore
    cases h
    exact ⟨t :: c :: us, by simp only [ht, hc, hus, List.cons_append], .more hk hck hu⟩
termination_by ts.length

-- What takes fewer than `n` tokens to read is read as the grammar says.
structure SoundBelow (stop n : Nat) : Prop where
  conditional {ts : List Token} {p : Parsed Expr ts.length} (hn : ts.length < n)
    (h : conditional? stop ts = .ok p) : Took Conditional ts p
  chain {level : Level} {ts : List Token} {p : Parsed Expr ts.length} (hn : ts.length < n)
    (h : chain stop level ts = .ok p) : Took (Chain level) ts p
  negation {ts : List Token} {p : Parsed Expr ts.length} (hn : ts.length < n)
    (h : negation stop ts = .ok p) : Took Negation ts p
  sign {ts : List Token} {p : Parsed Expr ts.length} (hn : ts.length < n)
    (h : sign stop ts = .ok p) : Took Signed ts p

theorem SoundBelow.operand (ih : SoundBelow stop n) {p : Parsed Expr ts.length}
    (hn : ts.length < n) (h : operand stop level ts = .ok p) : Took (Operand level) ts p := by
  cases level with
  | or =>
    rw [Expr.operand] at h
    exact (ih.chain hn h).mono .conjunction
  | and =>
    rw [Expr.operand] at h
    exact (ih.negation hn h).mono .negation
  | sum =>
    rw [Expr.operand] at h
    exact (ih.chain hn h).mono .product
  | product =>
    rw [Expr.operand] at h
    exact (ih.sign hn h).mono .signed

section

-- Each function reads soundly if what it calls on fewer tokens does; lists of phrases are by
-- induction on their own tokens.
variable {stop n : Nat} (ih : SoundBelow stop n)

include ih

theorem sliceEnd_sound {ts : List Token} {p : Parsed (Option Expr) ts.length}
    (hn : ts.length < n) (h : sliceEnd stop ts = .ok p) :
    TookClosed Bound (.symbol .rightBracket) ts p := by
  rw [sliceEnd] at h
  cases hbracket : accept? (.symbol .rightBracket) ts with
  | some r =>
    obtain ⟨r, rest, _, hr, hrk, rfl⟩ := accept?_eq_some_iff.mp hbracket
    rw [hbracket] at h
    cases h
    exact ⟨[], r, hr, hrk, .absent⟩
  | none =>
    rw [hbracket] at h
    obtain ⟨⟨finish, rest, hlt⟩, hfinish, h⟩ := bind_eq_ok_iff.mp h
    obtain ⟨us, hus, hu⟩ := ih.conditional (by omega) hfinish
    obtain ⟨r, _, _, hr, hrk, h⟩ := expect_bind_eq_ok_iff.mp h
    cases h
    exact ⟨us, r, by simp [hus, hr], hrk, .present hu⟩

theorem arguments_sound {ts : List Token} {p : Parsed (List Expr) ts.length}
    (hn : ts.length < n) (h : arguments stop ts = .ok p) :
    TookClosed Listed (.symbol .rightParen) ts p := by
  rw [arguments] at h
  cases hparen : accept? (.symbol .rightParen) ts with
  | some r =>
    obtain ⟨r, rest, _, hr, hrk, rfl⟩ := accept?_eq_some_iff.mp hparen
    rw [hparen] at h
    cases h
    exact ⟨[], r, hr, hrk, .nil⟩
  | none =>
    rw [hparen] at h
    obtain ⟨⟨first, rest, hlt⟩, hfirst, h⟩ := bind_eq_ok_iff.mp h
    obtain ⟨us, hus, hu⟩ := ih.conditional (by omega) hfirst
    dsimp only at h
    cases hcomma : accept? (.symbol .comma) rest with
    | some c =>
      obtain ⟨c, afterComma, hlt', hc, hck, rfl⟩ := accept?_eq_some_iff.mp hcomma
      rw [hcomma] at h
      obtain ⟨⟨more, _, _⟩, hmore, h⟩ := bind_eq_ok_iff.mp h
      obtain ⟨vs, r, hvs, hrk, hv⟩ := arguments_sound (by omega) hmore
      cases h
      exact ⟨us ++ c :: vs, r, by simp [hus, hc, hvs], hrk, .more hu hck hv⟩
    | none =>
      rw [hcomma] at h
      obtain ⟨r, _, _, hr, hrk, h⟩ := expect_bind_eq_ok_iff.mp h
      cases h
      exact ⟨us, r, by simp [hus, hr], hrk, .last hu⟩
termination_by ts.length

theorem elements_sound {closing : Token.Kind} {ts : List Token}
    {p : Parsed (List Expr) ts.length} (hn : ts.length < n) (h : elements stop closing ts = .ok p) :
    TookClosed Others closing ts p := by
  rw [elements] at h
  cases hcomma : accept? (.symbol .comma) ts with
  | none =>
    rw [hcomma] at h
    obtain ⟨r, _, _, hr, hrk, h⟩ := expect_bind_eq_ok_iff.mp h
    cases h
    exact ⟨[], r, hr, hrk, .nil⟩
  | some c =>
    obtain ⟨c, rest, hlt, hc, hck, rfl⟩ := accept?_eq_some_iff.mp hcomma
    rw [hcomma] at h
    dsimp only at h
    cases hclosing : accept? closing rest with
    | some r =>
      obtain ⟨r, afterClosing, _, hr, hrk, rfl⟩ := accept?_eq_some_iff.mp hclosing
      rw [hclosing] at h
      cases h
      exact ⟨[c], r, by simp [hc, hr], hrk, .comma hck .nil⟩
    | none =>
      rw [hclosing] at h
      obtain ⟨⟨next, afterNext, hlt'⟩, hnext, h⟩ := bind_eq_ok_iff.mp h
      obtain ⟨us, hus, hu⟩ := ih.conditional (by omega) hnext
      dsimp only at h
      obtain ⟨⟨more, _, _⟩, hmore, h⟩ := bind_eq_ok_iff.mp h
      obtain ⟨vs, r, hvs, hrk, hv⟩ := elements_sound (by omega) hmore
      cases h
      exact ⟨c :: (us ++ vs), r, by simp [hc, hus, hvs], hrk, .comma hck (hv.listed hu)⟩
termination_by ts.length

theorem comprehended_sound {element : Expr} {us ts : List Token} {l f : Token}
    {p : Parsed Expr ts.length} (hn : ts.length < n) (h : comprehended stop element ts = .ok p)
    (hl : l.kind = .symbol .leftBracket) (he : Conditional us element)
    (hf : f.kind = .keyword .each) : Took (fun vs => Primary (l :: (us ++ f :: vs))) ts p := by
  rw [comprehended, bind_eq_ok_iff] at h
  obtain ⟨⟨targets, afterNames, hlt⟩, hnames, h⟩ := h
  obtain ⟨ns, hns, hN⟩ := names_sound hnames
  obtain ⟨m, afterMember, hltMember, hm, hmk, h⟩ := expect_bind_eq_ok_iff.mp h
  obtain ⟨⟨source, rest, hltSource⟩, hsource, h⟩ := bind_eq_ok_iff.mp h
  obtain ⟨vs, hvs, hv⟩ := ih.chain (by omega) hsource
  dsimp only at h
  cases hwhen : accept? (.keyword .when) rest with
  | none =>
    rw [hwhen] at h
    obtain ⟨r, _, _, hr, hrk, h⟩ := expect_bind_eq_ok_iff.mp h
    cases h
    exact ⟨ns ++ m :: (vs ++ ([] ++ [r])), by simp [hns, hm, hvs, hr],
      .comprehension hl he hf hN hmk hv .absent hrk⟩
  | some i =>
    obtain ⟨i, afterWhen, hltWhen, hi, hik, rfl⟩ := accept?_eq_some_iff.mp hwhen
    rw [hwhen] at h
    obtain ⟨⟨condition, afterCondition, _⟩, hcondition, h⟩ := bind_eq_ok_iff.mp h
    dsimp only at h
    obtain ⟨ws, hws, hw⟩ := ih.chain (by omega) hcondition
    obtain ⟨r, _, _, hr, hrk, h⟩ := expect_bind_eq_ok_iff.mp h
    cases h
    exact ⟨ns ++ m :: (vs ++ (i :: ws ++ [r])), by simp [hns, hm, hvs, hi, hws, hr],
      .comprehension hl he hf hN hmk hv (.present hik hw) hrk⟩

-- With a colon behind it, a name alone was taken for its own text.
theorem entryKey_sound {ts rest : List Token} {c : Token} {p : Parsed Expr ts.length}
    (hn : ts.length < n) (h : entryKey stop ts = .ok p) (hc : p.rest = c :: rest)
    (hck : c.kind = .symbol .colon) : Took Key ts p := by
  rw [entryKey] at h
  cases hname : accept? .name ts with
  | some t =>
    obtain ⟨t, afterName, hlt, ht, hk, rfl⟩ := accept?_eq_some_iff.mp hname
    rw [hname] at h
    dsimp only at h
    split at h
    next hcolon =>
      cases h
      exact ⟨[t], ht, .word hk⟩
    next hcolon =>
      obtain ⟨us, hus, hu⟩ := ih.conditional (by omega) h
      refine ⟨us, hus, .computed hu fun t' hone _ => hcolon ?_⟩
      have hrest : t :: afterName = t' :: c :: rest := by rw [← ht, hus, hone, hc]; rfl
      cases hrest
      simp [accept?, hck]
  | none =>
    rw [hname] at h
    obtain ⟨us, hus, hu⟩ := ih.conditional (by omega) h
    refine ⟨us, hus, .computed hu fun t hone => ?_⟩
    rw [hone] at hus
    exact accept?_eq_none_iff.mp hname t p.rest hus

theorem entries_sound {ts : List Token} {p : Parsed (List (Expr × Expr)) ts.length}
    (hn : ts.length < n) (h : entries stop ts = .ok p) :
    TookClosed Entries (.symbol .rightBrace) ts p := by
  rw [entries] at h
  cases hbrace : accept? (.symbol .rightBrace) ts with
  | some r =>
    obtain ⟨r, rest, _, hr, hrk, rfl⟩ := accept?_eq_some_iff.mp hbrace
    rw [hbrace] at h
    cases h
    exact ⟨[], r, hr, hrk, .nil⟩
  | none =>
    rw [hbrace] at h
    obtain ⟨⟨key, afterKey, hltKey⟩, hkey, h⟩ := bind_eq_ok_iff.mp h
    obtain ⟨c, afterColon, hltColon, hc, hck, h⟩ := expect_bind_eq_ok_iff.mp h
    obtain ⟨us, hus, hu⟩ := entryKey_sound ih (by omega) hkey hc hck
    obtain ⟨⟨value, afterValue, hltValue⟩, hvalue, h⟩ := bind_eq_ok_iff.mp h
    obtain ⟨vs, hvs, hv⟩ := ih.conditional (by omega) hvalue
    dsimp only at h
    cases hcomma : accept? (.symbol .comma) afterValue with
    | some d =>
      obtain ⟨d, afterComma, hltComma, hd, hdk, rfl⟩ := accept?_eq_some_iff.mp hcomma
      rw [hcomma] at h
      obtain ⟨⟨more, _, _⟩, hmore, h⟩ := bind_eq_ok_iff.mp h
      obtain ⟨ws, r, hws, hrk, hw⟩ := entries_sound (by omega) hmore
      cases h
      exact ⟨us ++ c :: vs ++ d :: ws, r, by simp [hus, hc, hvs, hd, hws], hrk,
        .more (.pair hu hck hv) hdk hw⟩
    | none =>
      rw [hcomma] at h
      obtain ⟨r, _, _, hr, hrk, h⟩ := expect_bind_eq_ok_iff.mp h
      cases h
      exact ⟨us ++ c :: vs, r, by simp [hus, hc, hvs, hr], hrk, .last (.pair hu hck hv)⟩
termination_by ts.length

theorem parenthesized_sound {ts : List Token} {l : Token}
    {p : Parsed Expr ts.length} (hn : ts.length < n) (h : parenthesized stop ts = .ok p)
    (hl : l.kind = .symbol .leftParen) : Took (fun us => Primary (l :: us)) ts p := by
  rw [parenthesized] at h
  cases hparen : accept? (.symbol .rightParen) ts with
  | some r =>
    obtain ⟨r, rest, _, hr, hrk, rfl⟩ := accept?_eq_some_iff.mp hparen
    rw [hparen] at h
    cases h
    exact ⟨[r], hr, .empty hl hrk⟩
  | none =>
    rw [hparen] at h
    obtain ⟨⟨first, rest, hlt⟩, hfirst, h⟩ := bind_eq_ok_iff.mp h
    obtain ⟨us, hus, hu⟩ := ih.conditional (by omega) hfirst
    dsimp only at h
    cases hclosing : accept? (.symbol .rightParen) rest with
    | some r =>
      obtain ⟨r, afterParen, _, hr, hrk, rfl⟩ := accept?_eq_some_iff.mp hclosing
      rw [hclosing] at h
      cases h
      exact ⟨us ++ [r], by simp [hus, hr], .group hl hu hrk⟩
    | none =>
      rw [hclosing] at h
      obtain ⟨⟨more, _, _⟩, hmore, h⟩ := bind_eq_ok_iff.mp h
      obtain ⟨vs, r, hvs, hrk, hv⟩ := elements_sound ih (by omega) hmore
      cases h
      cases hv with
      | nil =>
        -- The closing parenthesis was not there, so a comma must be.
        exact absurd hrk (accept?_eq_none_iff.mp hclosing r _ hvs)
      | comma hck hs =>
        exact ⟨us ++ _ :: (_ ++ [r]), by simp [hus, hvs], .tuple hl hu hck hs hrk⟩

theorem bracketed_sound {ts : List Token} {l : Token} {p : Parsed Expr ts.length}
    (hn : ts.length < n) (h : bracketed stop ts = .ok p) (hl : l.kind = .symbol .leftBracket) :
    Took (fun us => Primary (l :: us)) ts p := by
  rw [bracketed] at h
  cases hbracket : accept? (.symbol .rightBracket) ts with
  | some r =>
    obtain ⟨r, rest, _, hr, hrk, rfl⟩ := accept?_eq_some_iff.mp hbracket
    rw [hbracket] at h
    cases h
    exact ⟨[r], hr, .list hl .nil hrk⟩
  | none =>
    rw [hbracket] at h
    obtain ⟨⟨first, rest, hlt⟩, hfirst, h⟩ := bind_eq_ok_iff.mp h
    obtain ⟨us, hus, hu⟩ := ih.conditional (by omega) hfirst
    dsimp only at h
    cases heach : accept? (.keyword .each) rest with
    | some f =>
      obtain ⟨f, afterEach, hlt', hf, hfk, rfl⟩ := accept?_eq_some_iff.mp heach
      rw [heach] at h
      obtain ⟨⟨all, _, _⟩, hall, h⟩ := bind_eq_ok_iff.mp h
      obtain ⟨vs, hvs, hv⟩ := comprehended_sound ih (by omega) hall hl hu hfk
      cases h
      exact ⟨us ++ f :: vs, by simp [hus, hf, hvs], hv⟩
    | none =>
      rw [heach] at h
      obtain ⟨⟨more, _, _⟩, hmore, h⟩ := bind_eq_ok_iff.mp h
      obtain ⟨vs, r, hvs, hrk, hv⟩ := elements_sound ih (by omega) hmore
      cases h
      exact ⟨us ++ vs ++ [r], by simp [hus, hvs], .list hl (hv.listed hu) hrk⟩

theorem subscript_sound {object : Expr} {us ts : List Token} {l : Token}
    {p : Parsed Expr ts.length} (hn : ts.length < n) (h : subscript stop object ts = .ok p)
    (ho : Trailed us object) (hl : l.kind = .symbol .leftBracket) :
    Took (fun vs => Trailed (us ++ l :: vs)) ts p := by
  rw [subscript] at h
  cases hcolon : accept? (.symbol .colon) ts with
  | some c =>
    obtain ⟨c, rest, hlt, hc, hck, rfl⟩ := accept?_eq_some_iff.mp hcolon
    rw [hcolon] at h
    obtain ⟨⟨finish, _, _⟩, hfinish, h⟩ := bind_eq_ok_iff.mp h
    obtain ⟨ws, r, hws, hrk, hw⟩ := sliceEnd_sound ih (by omega) hfinish
    cases h
    exact ⟨c :: (ws ++ [r]), by simp [hc, hws], .slice ho hl .absent hck hw hrk⟩
  | none =>
    rw [hcolon] at h
    obtain ⟨⟨start, rest, hlt⟩, hstart, h⟩ := bind_eq_ok_iff.mp h
    obtain ⟨vs, hvs, hv⟩ := ih.conditional (by omega) hstart
    dsimp only at h
    cases hbracket : accept? (.symbol .rightBracket) rest with
    | some r =>
      obtain ⟨r, afterBracket, _, hr, hrk, rfl⟩ := accept?_eq_some_iff.mp hbracket
      rw [hbracket] at h
      cases h
      exact ⟨vs ++ [r], by simp [hvs, hr], .index ho hl hv hrk⟩
    | none =>
      rw [hbracket] at h
      obtain ⟨c, afterColon, hlt', hc, hck, h⟩ := expect_bind_eq_ok_iff.mp h
      dsimp only at h
      obtain ⟨⟨finish, _, _⟩, hfinish, h⟩ := bind_eq_ok_iff.mp h
      obtain ⟨ws, r, hws, hrk, hw⟩ := sliceEnd_sound ih (by omega) hfinish
      cases h
      exact ⟨vs ++ c :: (ws ++ [r]), by simp [hvs, hc, hws], .slice ho hl (.present hv) hck hw hrk⟩

theorem trail_sound {object : Expr} {us ts : List Token}
    {p : Parsed Expr (ts.length + 1)} (hn : ts.length < n) (h : trail stop object ts = .ok p)
    (ho : Trailed us object) : Took (fun vs => Trailed (us ++ vs)) ts p := by
  rw [trail] at h
  cases hdot : accept? (.symbol .dot) ts with
  | some d =>
    obtain ⟨d, afterDot, hlt, hd, hdk, rfl⟩ := accept?_eq_some_iff.mp hdot
    rw [hdot] at h
    obtain ⟨t, rest, hlt', ht, hk, h⟩ := expect_bind_eq_ok_iff.mp h
    dsimp only at h
    cases hparen : accept? (.symbol .leftParen) rest with
    | some l =>
      obtain ⟨l, afterParen, hltParen, hl, hlk, rfl⟩ := accept?_eq_some_iff.mp hparen
      rw [hparen] at h
      obtain ⟨⟨args, afterArgs, hltArgs⟩, hargs, h⟩ := bind_eq_ok_iff.mp h
      obtain ⟨vs, r, hvs, hrk, hv⟩ := arguments_sound ih (by omega) hargs
      dsimp only at h
      obtain ⟨⟨all, _, _⟩, hall, h⟩ := bind_eq_ok_iff.mp h
      have hcall := Trailed.method ho hdk hk (.parens hlk hv hrk)
      obtain ⟨ws, hws, hw⟩ := trail_sound (by omega) hall hcall
      cases h
      exact ⟨d :: t :: l :: (vs ++ r :: ws), by simp [hd, ht, hl, hvs, hws], by simpa using hw⟩
    | none =>
      rw [hparen] at h
      obtain ⟨⟨all, _, _⟩, hall, h⟩ := bind_eq_ok_iff.mp h
      obtain ⟨ws, hws, hw⟩ := trail_sound (by omega) hall (.attribute ho hdk hk)
      cases h
      exact ⟨d :: t :: ws, by simp [hd, ht, hws], by simpa using hw⟩
  | none =>
    rw [hdot] at h
    dsimp only at h
    cases hbracket : accept? (.symbol .leftBracket) ts with
    | some l =>
      obtain ⟨l, rest, hlt, hl, hlk, rfl⟩ := accept?_eq_some_iff.mp hbracket
      rw [hbracket] at h
      obtain ⟨⟨part, afterPart, hlt'⟩, hpart, h⟩ := bind_eq_ok_iff.mp h
      obtain ⟨vs, hvs, hv⟩ := subscript_sound ih (by omega) hpart ho hlk
      dsimp only at h
      obtain ⟨⟨all, _, _⟩, hall, h⟩ := bind_eq_ok_iff.mp h
      obtain ⟨ws, hws, hw⟩ := trail_sound (by omega) hall hv
      cases h
      exact ⟨l :: (vs ++ ws), by simp [hl, hvs, hws], by simpa using hw⟩
    | none =>
      rw [hbracket] at h
      cases h
      exact ⟨[], rfl, by simpa using ho⟩
termination_by ts.length

theorem primary_sound {ts : List Token} {p : Parsed Expr ts.length}
    (hn : ts.length ≤ n) (h : primary stop ts = .ok p) : Took Primary ts p := by
  cases ts with
  | nil =>
    rw [primary] at h
    cases h
  | cons t rest =>
    rw [List.length_cons] at hn
    rw [primary] at h
    cases hconstant : constant? t with
    | some v =>
      rw [hconstant] at h
      cases h
      exact ⟨[t], rfl, .constant (constant?_eq_some_iff.mp hconstant)⟩
    | none =>
      rw [hconstant] at h
      dsimp only at h
      split at h
      next hk =>
        cases h
        refine ⟨t :: rest.takeWhile (·.kind == .string), ?_, .strings (strings_takeWhile hk rest)⟩
        simp [List.takeWhile_append_dropWhile]
      next hk =>
        cases hparen : accept? (.symbol .leftParen) rest with
        | none =>
          rw [hparen] at h
          cases h
          exact ⟨[t], rfl, .name hk⟩
        | some l =>
          obtain ⟨l, afterParen, hlt, hl, hlk, rfl⟩ := accept?_eq_some_iff.mp hparen
          rw [hparen] at h
          obtain ⟨⟨args, _, _⟩, hargs, h⟩ := bind_eq_ok_iff.mp h
          obtain ⟨us, r, hus, hrk, hu⟩ := arguments_sound ih (by omega) hargs
          cases h
          exact ⟨t :: l :: (us ++ [r]), by simp [hl, hus], .call hk (.parens hlk hu hrk)⟩
      next hk =>
        obtain ⟨⟨inner, _, _⟩, hinner, h⟩ := bind_eq_ok_iff.mp h
        obtain ⟨us, hus, hu⟩ := parenthesized_sound ih (by omega) hinner hk
        cases h
        exact ⟨t :: us, by simp [hus], hu⟩
      next hk =>
        obtain ⟨⟨inner, _, _⟩, hinner, h⟩ := bind_eq_ok_iff.mp h
        obtain ⟨us, hus, hu⟩ := bracketed_sound ih (by omega) hinner hk
        cases h
        exact ⟨t :: us, by simp [hus], hu⟩
      next hk =>
        obtain ⟨⟨members, _, _⟩, hmembers, h⟩ := bind_eq_ok_iff.mp h
        obtain ⟨us, r, hus, hrk, hu⟩ := entries_sound ih (by omega) hmembers
        cases h
        exact ⟨t :: (us ++ [r]), by simp [hus], .object hk hu hrk⟩
      next => cases h

theorem trailed_sound {ts : List Token} {p : Parsed Expr ts.length}
    (hn : ts.length ≤ n) (h : trailed stop ts = .ok p) : Took Trailed ts p := by
  rw [trailed, bind_eq_ok_iff] at h
  obtain ⟨⟨first, rest, hlt⟩, hfirst, h⟩ := h
  obtain ⟨us, hus, hu⟩ := primary_sound ih (by omega) hfirst
  obtain ⟨⟨all, _, _⟩, hall, h⟩ := bind_eq_ok_iff.mp h
  obtain ⟨vs, hvs, hv⟩ := trail_sound ih (by omega) hall (.primary hu)
  cases h
  exact ⟨us ++ vs, by simp [hus, hvs], hv⟩

theorem power_sound {ts : List Token} {p : Parsed Expr ts.length}
    (hn : ts.length ≤ n) (h : power stop ts = .ok p) : Took Power ts p := by
  rw [power, bind_eq_ok_iff] at h
  obtain ⟨⟨base, rest, hlt⟩, hbase, h⟩ := h
  dsimp only at h
  obtain ⟨us, hus, hu⟩ := trailed_sound ih (by omega) hbase
  cases hstars : accept? (.symbol .stars) rest with
  | none =>
    rw [hstars] at h
    cases h
    exact ⟨us, hus, .base hu⟩
  | some t =>
    obtain ⟨t, afterStars, hlt', ht, hk, rfl⟩ := accept?_eq_some_iff.mp hstars
    rw [hstars] at h
    obtain ⟨⟨exponent, _, _⟩, hexponent, h⟩ := bind_eq_ok_iff.mp h
    obtain ⟨vs, hvs, hv⟩ := ih.sign (by omega) hexponent
    cases h
    exact ⟨us ++ t :: vs, by simp [hus, ht, hvs], .power hu hk hv⟩

theorem sign_sound {ts : List Token} {p : Parsed Expr ts.length}
    (hn : ts.length ≤ n) (h : sign stop ts = .ok p) : Took Signed ts p := by
  cases ts with
  | nil =>
    rw [sign] at h
    exact (power_sound ih hn h).mono .power
  | cons t rest =>
    rw [sign] at h
    cases hop : signOp? t.kind with
    | none =>
      rw [hop] at h
      exact (power_sound ih hn h).mono .power
    | some op =>
      rw [hop] at h
      obtain ⟨⟨e, _, _⟩, he, h⟩ := bind_eq_ok_iff.mp h
      obtain ⟨us, hus, hu⟩ := ih.sign hn he
      cases h
      exact ⟨t :: us, by simp [hus], signed_of_signOp? hop hu⟩

theorem chainTail_sound {level : Level} {left : Expr} {us ts : List Token}
    {p : Parsed Expr (ts.length + 1)} (hn : ts.length < n)
    (h : chainTail stop level left ts = .ok p) (hl : Chain level us left) :
    Took (fun vs => Chain level (us ++ vs)) ts p := by
  cases ts with
  | nil =>
    rw [chainTail] at h
    cases h
    exact ⟨[], rfl, by simpa using hl⟩
  | cons o rest =>
    rw [List.length_cons] at hn
    rw [chainTail] at h
    cases hjoin : level.join? o.kind with
    | none =>
      rw [hjoin] at h
      cases h
      exact ⟨[], rfl, by simpa using hl⟩
    | some op =>
      rw [hjoin] at h
      obtain ⟨⟨right, afterRight, hlt⟩, hright, h⟩ := bind_eq_ok_iff.mp h
      obtain ⟨⟨all, _, _⟩, hall, h⟩ := bind_eq_ok_iff.mp h
      obtain ⟨vs, hvs, hv⟩ := ih.operand (by omega) hright
      have hjoined := Chain.join hl (join?_eq_some_iff.mp hjoin) hv
      obtain ⟨ws, hws, hw⟩ := chainTail_sound (by omega) hall hjoined
      cases h
      exact ⟨o :: (vs ++ ws), by simp [hvs, hws], by simpa using hw⟩
termination_by ts.length
decreasing_by
  subst_vars
  exact Nat.lt_succ_of_lt hlt

theorem chain_sound {level : Level} {ts : List Token} {p : Parsed Expr ts.length}
    (hn : ts.length ≤ n) (h : chain stop level ts = .ok p)
    (hoperand : ∀ q, operand stop level ts = .ok q → Took (Operand level) ts q) :
    Took (Chain level) ts p := by
  rw [chain, bind_eq_ok_iff] at h
  obtain ⟨⟨first, rest, hlt⟩, hfirst, h⟩ := h
  obtain ⟨us, hus, hu⟩ := hoperand _ hfirst
  obtain ⟨⟨all, _, _⟩, hall, h⟩ := bind_eq_ok_iff.mp h
  obtain ⟨vs, hvs, hv⟩ := chainTail_sound ih (by omega) hall (.operand hu)
  cases h
  exact ⟨us ++ vs, by simp [hus, hvs], hv⟩

theorem products_sound {ts : List Token} {p : Parsed Expr ts.length} (hn : ts.length ≤ n)
    (h : chain stop .product ts = .ok p) : Took (Chain .product) ts p :=
  chain_sound ih hn h fun q hq => by
    rw [operand] at hq
    exact (sign_sound ih hn hq).mono .signed

theorem sums_sound {ts : List Token} {p : Parsed Expr ts.length} (hn : ts.length ≤ n)
    (h : chain stop .sum ts = .ok p) : Took (Chain .sum) ts p :=
  chain_sound ih hn h fun q hq => by
    rw [operand] at hq
    exact (products_sound ih hn hq).mono .product

theorem links_sound {ts : List Token}
    {p : Parsed (List (CompareOp × Expr)) (ts.length + 1)} (hn : ts.length < n)
    (h : links stop ts = .ok p) : Took Links ts p := by
  cases ts with
  | nil =>
    rw [links] at h
    cases h
    exact ⟨[], rfl, .nil⟩
  | cons o rest =>
    rw [List.length_cons] at hn
    rw [links] at h
    cases hop : compareOp? o.kind with
    | none =>
      rw [hop] at h
      cases h
      exact ⟨[], rfl, .nil⟩
    | some op =>
      rw [hop] at h
      obtain ⟨⟨e, afterSum, hlt⟩, he, h⟩ := bind_eq_ok_iff.mp h
      obtain ⟨⟨more, _, _⟩, hmore, h⟩ := bind_eq_ok_iff.mp h
      obtain ⟨us, hus, hu⟩ := ih.chain (by omega) he
      obtain ⟨vs, hvs, hv⟩ := links_sound (by omega) hmore
      cases h
      exact ⟨o :: (us ++ vs), by simp [hus, hvs], .cons (compareOp?_eq_some_iff.mp hop) hu hv⟩
termination_by ts.length
decreasing_by
  subst_vars
  exact Nat.lt_succ_of_lt hlt

theorem comparison_sound {ts : List Token} {p : Parsed Expr ts.length}
    (hn : ts.length ≤ n) (h : comparison stop ts = .ok p) : Took Comparison ts p := by
  rw [comparison, bind_eq_ok_iff] at h
  obtain ⟨⟨first, rest, hlt⟩, hfirst, h⟩ := h
  obtain ⟨us, hus, hu⟩ := sums_sound ih hn hfirst
  obtain ⟨⟨more, _, _⟩, hmore, h⟩ := bind_eq_ok_iff.mp h
  obtain ⟨vs, hvs, hv⟩ := links_sound ih (by omega) hmore
  cases h
  cases more with
  | nil =>
    cases hv
    exact ⟨us, by simp [hus, hvs], .sum hu⟩
  | cons link links => exact ⟨us ++ vs, by simp [hus, hvs], .compare hu hv⟩

theorem negation_sound {ts : List Token} {p : Parsed Expr ts.length}
    (hn : ts.length ≤ n) (h : negation stop ts = .ok p) : Took Negation ts p := by
  rw [negation] at h
  cases hnot : accept? (.keyword .not) ts with
  | none =>
    rw [hnot] at h
    exact (comparison_sound ih hn h).mono .comparison
  | some t =>
    obtain ⟨t, rest, hlt, ht, hk, rfl⟩ := accept?_eq_some_iff.mp hnot
    rw [hnot] at h
    obtain ⟨⟨e, _, _⟩, he, h⟩ := bind_eq_ok_iff.mp h
    obtain ⟨us, hus, hu⟩ := ih.negation (by omega) he
    cases h
    exact ⟨t :: us, by simp [ht, hus], .not hk hu⟩

theorem conjunctions_sound {ts : List Token} {p : Parsed Expr ts.length} (hn : ts.length ≤ n)
    (h : chain stop .and ts = .ok p) : Took (Chain .and) ts p :=
  chain_sound ih hn h fun q hq => by
    rw [operand] at hq
    exact (negation_sound ih hn hq).mono .negation

theorem disjunctions_sound {ts : List Token} {p : Parsed Expr ts.length} (hn : ts.length ≤ n)
    (h : chain stop .or ts = .ok p) : Took (Chain .or) ts p :=
  chain_sound ih hn h fun q hq => by
    rw [operand] at hq
    exact (conjunctions_sound ih hn hq).mono .conjunction

theorem conditional_sound {ts : List Token} {p : Parsed Expr ts.length}
    (hn : ts.length ≤ n) (h : conditional? stop ts = .ok p) : Took Conditional ts p := by
  rw [conditional?, bind_eq_ok_iff] at h
  obtain ⟨⟨e, rest, hlt⟩, he, h⟩ := h
  dsimp only at h
  obtain ⟨us, hus, hu⟩ := disjunctions_sound ih hn he
  cases hwhen : accept? (.keyword .when) rest with
  | none =>
    rw [hwhen] at h
    cases h
    exact ⟨us, hus, .plain hu⟩
  | some i =>
    obtain ⟨i, afterWhen, hlt', hi, hik, rfl⟩ := accept?_eq_some_iff.mp hwhen
    rw [hwhen] at h
    obtain ⟨⟨test, afterTest, hlt''⟩, htest, h⟩ := bind_eq_ok_iff.mp h
    dsimp only at h
    obtain ⟨vs, hvs, hv⟩ := ih.chain (by omega) htest
    cases hother : accept? (.keyword .otherwise) afterTest with
    | none =>
      rw [hother] at h
      cases h
      exact ⟨us ++ i :: vs, by simp [hus, hi, hvs], .guard hu hik hv⟩
    | some o =>
      obtain ⟨o, afterOther, _, ho, hok, rfl⟩ := accept?_eq_some_iff.mp hother
      rw [hother] at h
      obtain ⟨⟨alternate, _, _⟩, halternate, h⟩ := bind_eq_ok_iff.mp h
      obtain ⟨ws, hws, hw⟩ := ih.conditional (by omega) halternate
      cases h
      exact ⟨us ++ i :: (vs ++ o :: ws), by simp [hus, hi, hvs, ho, hws], .choice hu hik hv hok hw⟩

end

theorem soundBelow (stop n : Nat) : SoundBelow stop n := by
  induction n with
  | zero => exact ⟨nofun, nofun, nofun, nofun⟩
  | succ n ih =>
    refine ⟨fun hn h => ?_, fun {level} _ _ hn h => ?_, fun hn h => ?_, fun hn h => ?_⟩
    · exact conditional_sound ih (Nat.le_of_lt_succ hn) h
    · have hn := Nat.le_of_lt_succ hn
      cases level with
      | or => exact disjunctions_sound ih hn h
      | and => exact conjunctions_sound ih hn h
      | sum => exact sums_sound ih hn h
      | product => exact products_sound ih hn h
    · exact negation_sound ih (Nat.le_of_lt_succ hn) h
    · exact sign_sound ih (Nat.le_of_lt_succ hn) h

theorem topElements_sound {stop : Nat} {ts : List Token} {p : Parsed (List Expr) (ts.length + 1)}
    (h : topElements stop ts = .ok p) (hend : p.rest = []) : Others ts p.value := by
  rw [topElements] at h
  cases hcomma : accept? (.symbol .comma) ts with
  | none =>
    rw [hcomma] at h
    cases h
    cases hend
    exact .nil
  | some c =>
    obtain ⟨c, rest, hlt, hc, hck, rfl⟩ := accept?_eq_some_iff.mp hcomma
    rw [hcomma] at h
    cases rest with
    | nil =>
      cases h
      rw [hc]
      exact .comma hck .nil
    | cons t rest =>
      obtain ⟨⟨next, afterNext, hlt'⟩, hnext, h⟩ := bind_eq_ok_iff.mp h
      obtain ⟨us, hus, hu⟩ := (soundBelow stop _).conditional (Nat.lt_succ_self _) hnext
      obtain ⟨⟨more, _, _⟩, hmore, h⟩ := bind_eq_ok_iff.mp h
      cases h
      have ho := topElements_sound hmore hend
      change Others ts (next :: more)
      rw [hc, hus]
      exact .comma hck (ho.listed hu)
termination_by ts.length

theorem ofTokens_sound {e : Expr} (h : ofTokens stop ts = .ok e) : Query ts e := by
  rw [ofTokens, bind_eq_ok_iff] at h
  obtain ⟨⟨first, afterFirst, hlt⟩, hfirst, h⟩ := h
  obtain ⟨us, hus, hu⟩ := (soundBelow stop _).conditional (Nat.lt_succ_self _) hfirst
  obtain ⟨⟨more, rest, _⟩, hmore, h⟩ := bind_eq_ok_iff.mp h
  cases rest with
  | cons t rest => cases h
  | nil =>
    cases h
    rw [hus]
    cases topElements_sound hmore rfl with
    | nil =>
      rw [List.append_nil]
      exact .single hu
    | comma hck hs => exact .tuple hu hck hs

end RecordQuery.Expr
