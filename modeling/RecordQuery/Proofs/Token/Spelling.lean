import RecordQuery.Proofs.Text.Decimal
import RecordQuery.Proofs.Text.Delimited
import RecordQuery.Proofs.Token.Name

/-!
What words, symbols, numbers and strings are scanned as in front of what may follow them, and how
the tokens of a text come from those of its parts.
-/

namespace RecordQuery.Text

variable {u : UInt16} {t : Text}

theorem mem_of_toNat_mem {codes : List ℕ} (h : u.toNat ∈ codes) : u ∈ codes.map Nat.toUInt16 :=
  List.mem_map.mpr ⟨u.toNat, h, UInt16.ofNat_toNat⟩

-- The blanks one by one.
def blanks : Text :=
  (List.range' 0x09 5 ++ [0x20, 0xA0, 0x1680] ++ List.range' 0x2000 11 ++
    [0x2028, 0x2029, 0x202F, 0x205F, 0x3000, 0xFEFF]).map Nat.toUInt16

theorem mem_blanks (h : isBlank u = true) : u ∈ blanks := by
  refine mem_of_toNat_mem ?_
  simp only [isBlank, Bool.or_eq_true, Bool.and_eq_true, decide_eq_true_eq, beq_iff_eq,
    UInt16.le_iff_toNat_le, ← UInt16.toNat_inj] at h
  simp only [UInt16.reduceToNat] at h
  simp only [List.mem_append, List.mem_range'_1, List.mem_cons, List.not_mem_nil, or_false]
  omega

-- Units that begin no word, among them all that begin another token.
def openings : Text := ([33, 34, 37] ++ List.range' 39 24 ++ [91, 93, 123, 125]).map Nat.toUInt16

theorem mem_openings_of_isDigit (h : isDigit u = true) : u ∈ openings := by
  refine mem_of_toNat_mem ?_
  rw [isDigit_iff] at h
  simp only [List.mem_append, List.mem_range'_1, List.mem_cons, List.not_mem_nil, or_false]
  omega

-- Such units are no halves of pairs, so each is a character that opens no identifier.
theorem not_mem_of_identifierPrefix? {a : Text × Text} (h : identifierPrefix? (u :: t) = some a) :
    u ∉ blanks ++ openings := by
  intro hu
  have hall : (blanks ++ openings).all (fun v => !opensIdentifier v.toNat && !isHigh v) = true := by
    decide +kernel
  obtain ⟨hopens, hhigh⟩ : opensIdentifier u.toNat = false ∧ isHigh u = false := by
    simpa using List.all_eq_true.mp hall u hu
  have hnext : nextCharacter? (u :: t) = some ([u], t) := by
    cases t with
    | nil => rfl
    | cons v t => simp [nextCharacter?, hhigh]
  simp [identifierPrefix?, hnext, codePoint_singleton, hopens] at h

end RecordQuery.Text

namespace RecordQuery.Symbol

-- Symbols that no other symbol starts with.
def isAlone (s : Symbol) : Bool :=
  s ∈ [leftParen, rightParen, leftBracket, rightBracket, leftBrace, rightBrace, comma, colon, plus,
    minus]

def isClosing (s : Symbol) : Bool := s ∈ [rightParen, rightBracket, rightBrace]

end RecordQuery.Symbol

namespace RecordQuery.Token

open Text (Ends ends_cons)

variable {u : UInt16} {n s t rest text : Text} {kind : Kind} {phrase phrase' : List Token → Prop}

-- In front of `rest`, the text is scanned as the tokens of a phrase, and the scan goes on with
-- `rest`.
def Spells (phrase : List Token → Prop) (t rest : Text) : Prop :=
  ∀ position, ∃ ts, phrase ts ∧
    scanFrom position (t ++ rest) = (scanFrom (position + t.length) rest).map (ts ++ ·)

-- One token, wherever it stands.
def Single (kind : Kind) (text : Text) (ts : List Token) : Prop :=
  ∃ token : Token, ts = [token] ∧ token.kind = kind ∧ token.text = text

theorem Spells.mono (h : Spells phrase t rest) (himp : ∀ ts, phrase ts → phrase' ts) :
    Spells phrase' t rest := by
  intro position
  obtain ⟨ts, hts, hscan⟩ := h position
  exact ⟨ts, himp ts hts, hscan⟩

theorem spells_nil (h : phrase []) : Spells phrase [] rest := by
  intro position
  refine ⟨[], h, ?_⟩
  rw [List.nil_append, List.length_nil, Nat.add_zero]
  cases scanFrom position rest <;> rfl

-- The tokens of one text and then, whatever they are, those of another.
theorem Spells.append (hs : Spells phrase s (t ++ rest))
    (ht : ∀ us, phrase us → Spells (fun vs => phrase' (us ++ vs)) t rest) :
    Spells phrase' (s ++ t) rest := by
  intro position
  obtain ⟨us, hus, hscan⟩ := hs position
  obtain ⟨vs, hvs, hscan'⟩ := ht us hus (position + s.length)
  refine ⟨us ++ vs, hvs, ?_⟩
  rw [List.append_assoc, hscan, hscan', List.length_append, Nat.add_assoc]
  cases scanFrom (position + (s.length + t.length)) rest <;> simp [Except.map]

theorem Spells.concat_cons {parts : List Text} (hs : Spells phrase s (.concat parts ++ rest))
    (ht : ∀ us, phrase us → Spells (fun vs => phrase' (us ++ vs)) (.concat parts) rest) :
    Spells phrase' (.concat (s :: parts)) rest := hs.append ht

theorem Spells.concat_one (h : Spells phrase t rest) : Spells phrase (.concat [t]) rest := by
  rwa [Text.concat, List.flatten_singleton]

theorem spells_blank : Spells (· = []) [32] rest := by
  intro position
  refine ⟨[], rfl, ?_⟩
  rw [List.singleton_append, scanFrom_cons, if_pos (by decide)]
  cases scanFrom (position + 1) rest <;> rfl

theorem scanFrom_blanks {position : Nat} (h : t.all Text.isBlank = true) :
    scanFrom position t = .ok [] := by
  induction t generalizing position with
  | nil => exact scanFrom_nil position
  | cons u t ih =>
    rw [List.all_cons, Bool.and_eq_true] at h
    rw [scanFrom_cons, if_pos h.1, ih h.2]

theorem Spells.scan_eq (h : Spells phrase t []) : ∃ ts, phrase ts ∧ scan t = .ok ts := by
  obtain ⟨ts, hts, hscan⟩ := h 0
  refine ⟨ts, hts, ?_⟩
  rw [List.append_nil, scanFrom_nil] at hscan
  rw [scan, hscan, Except.map, List.append_nil]

theorem Spells.blank (h : Spells phrase t (32 :: rest)) : Spells phrase (t ++ [32]) rest :=
  h.append fun us hus => spells_blank.mono fun vs hvs => by rwa [hvs, List.append_nil]

theorem spells_of_scanOne (hblank : Text.isBlank u = false)
    (h : ∀ position, scanOne position u (t ++ rest) = .ok ⟨kind, text, position, t.length + 1⟩) :
    Spells (Single kind text) (u :: t) rest := by
  intro position
  refine ⟨[⟨kind, text, position, t.length + 1⟩], ⟨_, rfl, rfl, rfl⟩, ?_⟩
  rw [List.cons_append, scanFrom_cons, if_neg (by simp [hblank]), h]
  simp

theorem mem_openings_of_symbolPrefix? {s : Symbol} (h : symbolPrefix? (u :: t) = some s) :
    u ∈ Text.openings := by
  have hmem : ∀ v after, u :: t = v :: after → v ∈ Text.openings → u ∈ Text.openings :=
    fun v after heq hv => (List.cons.inj heq).1 ▸ hv
  unfold symbolPrefix? at h
  split at h
  all_goals first
    | exact hmem _ _ ‹_› (by decide)
    | cases h

theorem opensNumber_word {a : Text × Text} (h : Text.identifierPrefix? (u :: t) = some a) :
    opensNumber (u :: t) = false := by
  have hopenings : u ∉ Text.openings := fun hu =>
    Text.not_mem_of_identifierPrefix? h (List.mem_append_right _ hu)
  have hpoint : u ≠ 46 := by
    rintro rfl
    exact hopenings (by decide)
  rw [opensNumber_cons hpoint, Bool.eq_false_iff]
  exact fun hu => hopenings (Text.mem_openings_of_isDigit hu)

-- What a word begins with begins no other token.
theorem scanOne_word {after : Text} (h : Text.identifierPrefix? (u :: t) = some (n, after))
    (position : Nat) :
    Text.isBlank u = false ∧ scanOne position u t = .ok (ofIdentifier position n after) := by
  have hmem := Text.not_mem_of_identifierPrefix? h
  have hblank : Text.isBlank u = false := by
    rw [Bool.eq_false_iff]
    exact fun hu => hmem (List.mem_append_left _ (Text.mem_blanks hu))
  have hopenings : u ∉ Text.openings := fun hu => hmem (List.mem_append_right _ hu)
  have hsymbol : symbolPrefix? (u :: t) = none := by
    rw [Option.eq_none_iff_forall_ne_some]
    exact fun s hs => hopenings (mem_openings_of_symbolPrefix? hs)
  have hquote : (u == 34 || u == 39) = false := by
    rw [Bool.or_eq_false_iff, beq_eq_false_iff_ne, beq_eq_false_iff_ne]
    constructor <;> rintro rfl <;> exact hopenings (by decide)
  refine ⟨hblank, ?_⟩
  simp only [scanOne, opensNumber_word h, hquote, hsymbol, h]
  rfl

theorem spells_word (hn : Text.identifierPrefix? n = some (n, [])) (hrest : Ends rest)
    (htoken : ∀ position, ofIdentifier position n rest = ⟨kind, text, position, n.length⟩) :
    Spells (Single kind text) n rest := by
  have hprefix := Text.identifierPrefix?_before hrest hn
  obtain ⟨u, t, rfl⟩ := List.exists_cons_of_length_pos (Text.identifierPrefix?_append hn).2
  rw [List.cons_append] at hprefix
  refine spells_of_scanOne (scanOne_word hprefix 0).1 fun position => ?_
  rw [(scanOne_word hprefix position).2, htoken]
  rfl

theorem spells_name (hn : Text.identifierPrefix? n = some (n, []))
    (hkeyword : Keyword.ofName? n = none) (hrest : Ends rest) : Spells (Single .name n) n rest :=
  spells_word hn hrest fun position => by rw [ofIdentifier, hkeyword]

theorem spells_symbol (s : Symbol) (hs : symbolPrefix? (s.label ++ rest) = some s)
    (hn : opensNumber (s.label ++ rest) = false) :
    Spells (Single (.symbol s) s.label) s.label rest := by
  obtain ⟨u, t, hlabel, hblank, hquote⟩ : ∃ u t, s.label = u :: t ∧ Text.isBlank u = false ∧
      (u == 34 || u == 39) = false := by
    cases s <;> exact ⟨_, _, rfl, by decide, by decide⟩
  rw [hlabel] at hs hn ⊢
  refine spells_of_scanOne hblank fun position => ?_
  rw [List.cons_append] at hs hn
  simp [scanOne, hn, hquote, hs, hlabel]

theorem spells_alone (s : Symbol) (hs : s.isAlone = true) :
    Spells (Single (.symbol s) s.label) s.label rest := by
  apply spells_symbol <;> cases s <;> first | rfl | cases hs

-- A point in front of a name opens no number.
theorem spells_dot (hn : Text.identifierPrefix? n = some (n, [])) (hrest : Ends rest) :
    Spells (Single (.symbol .dot) Symbol.dot.label) Symbol.dot.label (n ++ rest) := by
  have hprefix := Text.identifierPrefix?_before hrest hn
  obtain ⟨u, t, rfl⟩ := List.exists_cons_of_length_pos (Text.identifierPrefix?_append hn).2
  exact spells_symbol .dot rfl (opensNumber_point (opensNumber_word hprefix))

theorem spells_reserved {k : Keyword} (hn : Text.identifierPrefix? n = some (n, []))
    (hk : Keyword.ofName? n = some k) (hnot : k = .not → memberWidth? rest = none)
    (hrest : Ends rest) : Spells (Single (.keyword k) n) n rest := by
  refine spells_word hn hrest fun position => ?_
  cases k with
  | not => rw [ofIdentifier, hk, hnot rfl]
  | _ => rw [ofIdentifier, hk]

-- Two words that are one token in front of a blank.
theorem spells_notMember :
    Spells (Single (.keyword .notMember) Keyword.notMember.label) Keyword.notMember.label
      (32 :: rest) := by
  have hends : Ends (32 :: 105 :: 110 :: 32 :: rest) := ends_cons.mpr (by decide)
  have hnot : Text.identifierPrefix? "not" = some (Text.ofString "not", []) := by decide +kernel
  have hprefix := Text.identifierPrefix?_before hends hnot
  have hwidth : memberWidth? (32 :: 105 :: 110 :: 32 :: rest) = some 3 := by
    have hafter : (32 :: 105 :: 110 :: 32 :: rest).dropWhile Text.isBlank =
        105 :: 110 :: 32 :: rest := rfl
    have hnext : Text.nextCharacter? (32 :: rest) = some ([32], rest) :=
      Text.nextCharacter?_of_ends (ends_cons.mpr (by decide))
    have hpart : Text.isIdentifierPart (Text.codePoint [32]) = false := by decide +kernel
    simp only [memberWidth?, hafter, hnext, Option.map_some, hpart]
    rfl
  refine spells_of_scanOne (scanOne_word hprefix 0).1 fun position => ?_
  refine (scanOne_word hprefix position).2.trans ?_
  rw [ofIdentifier, show Keyword.ofName? "not" = some .not by decide +kernel]
  simp only [hwidth]
  rfl

-- A text with a blank on either side.
def spaced (t : Text) : Text := .concat [[32], t, [32]]

-- The kinds whose labels stand between blanks.
def Kind.isOperator : Kind → Bool
  | .symbol _ => true
  | .keyword k => k ∈ [Keyword.and, .or, .member, .notMember, .when, .otherwise, .each]
  | _ => false

theorem Spells.spaced (h : Spells phrase t (32 :: rest)) : Spells phrase (spaced t) rest :=
  spells_blank.append fun us hus => by
    subst hus
    exact h.blank

theorem spells_spaced (kind : Kind) (h : kind.isOperator = true) :
    Spells (Single kind kind.label) (spaced kind.label) rest := by
  have hends : Ends (32 :: rest) := ends_cons.mpr (by decide)
  refine Spells.spaced ?_
  cases kind with
  | symbol s => exact spells_symbol s (by cases s <;> rfl) (by cases s <;> rfl)
  | keyword k =>
    cases k with
    | notMember => exact spells_notMember
    | and | or | member | when | otherwise | each =>
      exact spells_reserved (by decide +kernel) (by decide +kernel) nofun hends
    | _ => cases h
  | _ => cases h

theorem isNumberUnit_of_ends (hrest : Ends rest) :
    rest.takeWhile isNumberUnit = [] ∧ rest.dropWhile isNumberUnit = rest ∧
      fractionPrefix rest = ([], rest) ∧ exponentPrefix? rest = some ([], rest) := by
  cases rest with
  | nil => exact ⟨rfl, rfl, rfl, rfl⟩
  | cons u rest =>
    have hall : Text.enders.all
        (fun v => !isNumberUnit v && v != 46 && !(v == 101 || v == 69)) = true := by decide
    obtain ⟨⟨hunit, hpoint⟩, hletter⟩ :
        (isNumberUnit u = false ∧ u ≠ 46) ∧ ¬(u = 101 ∨ u = 69) := by
      simpa using List.all_eq_true.mp hall u (ends_cons.mp hrest)
    refine ⟨by simp [hunit], by simp [hunit], ?_, by simp [exponentPrefix?, hletter]⟩
    unfold fractionPrefix
    split
    next heq => exact absurd (List.cons.inj heq).1 hpoint
    next => rfl

theorem scanNumber_digits {digits : Text} (hdigits : ∀ u ∈ digits, Text.isDigit u = true)
    (hzeros : hasLeadingZeros digits = false) (hrest : Ends rest) (position : Nat) :
    scanNumber position (digits ++ rest) = .ok ⟨.integer, digits, position, digits.length⟩ := by
  obtain ⟨htake, hdrop, hfraction, hexponent⟩ := isNumberUnit_of_ends hrest
  have hunits : ∀ u ∈ digits, isNumberUnit u = true := fun u hu => by
    rw [isNumberUnit, hdigits u hu, Bool.true_or]
  have hfilter : digits.filter (· != 95) = digits := by
    refine List.filter_eq_self.mpr fun u hu => ?_
    rw [bne_iff_ne]
    rintro rfl
    exact absurd (hdigits 95 hu) (by decide)
  simp only [scanNumber, List.takeWhile_append_of_pos hunits,
    List.dropWhile_append_of_pos hunits, htake, hdrop, hfraction, hexponent,
    Text.identifierPrefix?_of_ends hrest, List.append_nil, hfilter, hzeros]
  rfl

-- Only the number zero is spelled with a zero in front.
theorem hasLeadingZeros_ofNat (m : Nat) : hasLeadingZeros (Text.ofNat m) = false := by
  rcases Nat.eq_zero_or_pos m with rfl | hm
  · rw [Text.ofNat_of_lt (by decide)]
    rfl
  · simp [hasLeadingZeros, Text.head?_ofNat_ne hm]

theorem spells_ofNat (m : Nat) (hrest : Ends rest) :
    Spells (Single .integer (Text.ofNat m)) (Text.ofNat m) rest := by
  have hscan := scanNumber_digits (fun u => Text.isDigit_of_mem_ofNat) (hasLeadingZeros_ofNat m)
    hrest
  obtain ⟨u, t, heq, hdigit⟩ := Text.exists_ofNat_eq_cons m
  rw [heq] at hscan ⊢
  refine spells_of_scanOne ?_ fun position => ?_
  · have hall : Text.blanks.all (!Text.isDigit ·) = true := by decide
    rw [Bool.eq_false_iff]
    intro hu
    have hblank := List.all_eq_true.mp hall u (Text.mem_blanks hu)
    rw [hdigit] at hblank
    cases hblank
  · have hpoint : u ≠ 46 := by
      rintro rfl
      exact absurd hdigit (by decide)
    rw [scanOne, if_pos (by rwa [opensNumber_cons hpoint])]
    exact hscan position

-- A unit of a string between single quotes.
def quotedUnit (u : UInt16) : Text := if u == 92 || u == 39 then [92, u] else [u]

-- A string between single quotes.
def quoted (t : Text) : Text := 39 :: (t.flatMap quotedUnit ++ [39])

theorem stringBody?_quote (quote : UInt16) (rest : Text) :
    stringBody? quote (quote :: rest) = some ([], 1) := by
  cases rest <;> simp [stringBody?]

theorem stringBody?_cons {quote : UInt16} (hquote : u ≠ quote) (hbackslash : u ≠ 92)
    (rest : Text) : stringBody? quote (u :: rest) =
      (stringBody? quote rest).map fun p => (u :: p.1, p.2 + 1) := by
  cases rest <;> simp [stringBody?, hquote, hbackslash]

theorem stringBody?_escape {quote : UInt16} (hquote : quote ≠ 92) (v : UInt16) (rest : Text) :
    stringBody? quote (92 :: v :: rest) =
      (stringBody? quote rest).map fun p => (escaped v :: p.1, p.2 + 2) := by
  simp [stringBody?, hquote.symm]

-- How a unit may be written between quotes: as it is, or as the one that a backslash makes it of.
inductive WritesUnit (quote u : UInt16) : Text → Prop
  | plain (hquote : u ≠ quote) (hbackslash : u ≠ 92) : WritesUnit quote u [u]
  | escape {v} (h : escaped v = u) : WritesUnit quote u [92, v]

theorem stringBody?_flatMap {quote : UInt16} (hquote : quote ≠ 92) {write : UInt16 → Text}
    (hwrite : ∀ u ∈ t, WritesUnit quote u (write u)) (rest : Text) :
    stringBody? quote (t.flatMap write ++ quote :: rest) =
      some (t, (t.flatMap write).length + 1) := by
  induction t with
  | nil => exact stringBody?_quote quote rest
  | cons u t ih =>
    obtain ⟨hunit, hunits⟩ := List.forall_mem_cons.mp hwrite
    rw [List.flatMap_cons, List.append_assoc, List.length_append]
    generalize write u = unit at hunit
    cases hunit with
    | plain hu hbackslash =>
      rw [List.singleton_append, stringBody?_cons hu hbackslash, ih hunits]
      refine congrArg some (Prod.ext rfl ?_)
      simp only [List.length_singleton]
      omega
    | escape hescaped =>
      rw [List.cons_append, List.singleton_append, stringBody?_escape hquote, ih hunits, hescaped]
      refine congrArg some (Prod.ext rfl ?_)
      simp only [List.length_cons, List.length_nil]
      omega

-- A text between two quotes of one kind, double or single.
theorem spells_string {quote : UInt16} (hquote : quote ∈ [34, 39]) {write : UInt16 → Text}
    (hwrite : ∀ u ∈ t, WritesUnit quote u (write u)) (rest : Text) :
    Spells (Single .string t) (quote :: (t.flatMap write ++ [quote])) rest := by
  simp only [List.mem_cons, List.not_mem_nil, or_false] at hquote
  have hblank : Text.isBlank quote = false := by rcases hquote with rfl | rfl <;> decide
  have hbackslash : quote ≠ 92 := by rcases hquote with rfl | rfl <;> decide
  have hopens : (quote == 34 || quote == 39) = true := by rcases hquote with rfl | rfl <;> rfl
  refine spells_of_scanOne hblank fun position => ?_
  have hbody := stringBody?_flatMap hbackslash hwrite rest
  have hnumber : opensNumber (quote :: (t.flatMap write ++ quote :: rest)) = false := by
    rcases hquote with rfl | rfl <;> rfl
  rw [List.append_assoc, List.singleton_append]
  simp [scanOne, hnumber, hopens, scanString, hbody]

theorem writesUnit_quotedUnit (u : UInt16) : WritesUnit 39 u (quotedUnit u) := by
  unfold quotedUnit
  split
  next h =>
    rw [Bool.or_eq_true, beq_iff_eq, beq_iff_eq] at h
    rcases h with rfl | rfl
    · exact .escape rfl
    · exact .escape rfl
  next h =>
    rw [Bool.or_eq_true, beq_iff_eq, beq_iff_eq, not_or] at h
    exact .plain h.2 h.1

theorem spells_quoted (t rest : Text) : Spells (Single .string t) (quoted t) rest :=
  spells_string (by decide) (fun u _ => writesUnit_quotedUnit u) rest

-- The tokens of a phrase between two brackets.
def Enclosed (opening closing : Symbol) (phrase : List Token → Prop) (ts : List Token) : Prop :=
  ∃ l us r, ts = l :: (us ++ [r]) ∧ l.kind = .symbol opening ∧ phrase us ∧ r.kind = .symbol closing

theorem spells_enclosed (opening closing : Symbol) (ho : opening.isAlone = true)
    (hc : closing.isClosing = true) (h : ∀ rest, Ends rest → Spells phrase t rest) (rest : Text) :
    Spells (Enclosed opening closing phrase) (.concat [opening.label, t, closing.label]) rest := by
  have halone : closing.isAlone = true := by cases closing <;> first | rfl | cases hc
  have hends : Ends (.concat [closing.label] ++ rest) := by
    cases closing <;> first | exact ends_cons.mpr (by decide) | cases hc
  refine .concat_cons (spells_alone opening ho) ?_
  rintro - ⟨l, rfl, hl, -⟩
  refine .concat_cons (h _ hends) fun us hus => ?_
  refine .concat_one ((spells_alone closing halone).mono ?_)
  rintro - ⟨r, rfl, hr, -⟩
  exact ⟨l, us, r, rfl, hl, hus, hr⟩

-- What may stand between parts: it ends the part before and is scanned as a comma.
structure Separates (separator : Text) : Prop where
  ends : ∀ rest, Ends (separator ++ rest)
  spells : ∀ rest, Spells (Single (.symbol .comma) Symbol.comma.label) separator rest

theorem separates_comma : Separates Symbol.comma.label where
  ends _ := ends_cons.mpr (by decide)
  spells _ := spells_alone .comma rfl

theorem separates_commaBlank : Separates ", " where
  ends _ := ends_cons.mpr (by decide)
  spells _ := (spells_alone .comma rfl).blank

-- Parts with commas between them, where a part in front of the others makes more of them.
theorem spells_join {α : Type} {separator : Text} (hseparator : Separates separator)
    (part : α → Text) (item : α → List Token → Prop) (items : List α → List Token → Prop)
    (hlast : ∀ a ts, item a ts → items [a] ts)
    (hmore : ∀ a as us c vs, item a us → c.kind = .symbol .comma → items as vs →
      items (a :: as) (us ++ c :: vs))
    {a : α} {as : List α} (h : ∀ b ∈ a :: as, ∀ rest, Ends rest → Spells (item b) (part b) rest)
    (hrest : Ends rest) :
    Spells (items (a :: as)) (Text.join separator ((a :: as).map part)) rest := by
  induction as generalizing a with
  | nil =>
    rw [List.map_cons, List.map_nil, Text.join_cons, List.flatMap_nil, List.append_nil]
    exact (h a List.mem_cons_self rest hrest).mono (hlast a)
  | cons b as ih =>
    have hjoin : Text.join separator ((a :: b :: as).map part) =
        part a ++ (separator ++ Text.join separator ((b :: as).map part)) := by
      simp only [List.map_cons, Text.join_cons, List.flatMap_cons, List.append_assoc]
    have hends := hseparator.ends (Text.join separator ((b :: as).map part) ++ rest)
    rw [← List.append_assoc] at hends
    rw [hjoin]
    refine (h a List.mem_cons_self _ hends).append fun us hus => ?_
    refine (hseparator.spells _).append ?_
    rintro - ⟨c, rfl, hc, -⟩
    exact (ih fun d hd => h d (List.mem_cons_of_mem _ hd)).mono fun vs hvs =>
      hmore a _ us c vs hus hc hvs

end RecordQuery.Token
