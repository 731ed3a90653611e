import RecordQuery.Proofs.Text.Front
import RecordQuery.Proofs.Token.Spelling

/-!
Tokens in texts that are cut off. A token that is read off the front of a text is read off just so
where only a part of what follows it is left, save that `not` may become one word with an `in` that
is cut short.
-/

namespace RecordQuery

-- The unit that makes another symbol of this one.
def Symbol.longer? : Symbol → Option UInt16
  | .star => some 42
  | .slash => some 47
  | .less => some 61
  | .greater => some 61
  | _ => none

namespace Token

variable {position more : Nat} {u letter quote : UInt16} {n t rest before after front sign : Text}
  {token : Token}

-- Numbers.

theorem takeWhile_front {p : UInt16 → Bool} (h : before <+: t.dropWhile p) :
    (t.takeWhile p ++ before).takeWhile p = t.takeWhile p ∧
      (t.takeWhile p ++ before).dropWhile p = before := by
  refine Text.span_append _ _ (List.all_eq_true.mp List.all_takeWhile) fun u hu => ?_
  obtain ⟨tail, htail⟩ := h
  have hnot := List.head?_dropWhile_not p t
  rw [← htail, List.head?_append, Option.mem_def.mp hu] at hnot
  exact hnot

theorem digitsPrefix?_front (h : digitsPrefix? t = some (front, after)) :
    t = front ++ after ∧ (∃ u rest, front = u :: rest ∧ Text.isDigit u = true) ∧
      ∀ before, before <+: after → digitsPrefix? (front ++ before) = some (front, before) := by
  unfold digitsPrefix? at h
  split at h
  · cases h
  · next u rest =>
    split at h
    · next hdigit =>
      obtain ⟨rfl, rfl⟩ := Prod.mk.inj (Option.some.inj h)
      refine ⟨by rw [List.cons_append, List.takeWhile_append_dropWhile], ⟨u, _, rfl, hdigit⟩,
        fun before hbefore => ?_⟩
      obtain ⟨htake, hdrop⟩ := takeWhile_front hbefore
      rw [List.cons_append, digitsPrefix?, if_pos hdigit, htake, hdrop]
    · cases h

theorem fractionPrefix_front (t : Text) :
    t = (fractionPrefix t).1 ++ (fractionPrefix t).2 ∧
      ∀ before, before <+: (fractionPrefix t).2 →
        fractionPrefix ((fractionPrefix t).1 ++ before) = ((fractionPrefix t).1, before) := by
  unfold fractionPrefix
  split
  · next rest =>
    refine ⟨by rw [List.cons_append, List.takeWhile_append_dropWhile], fun before hbefore => ?_⟩
    obtain ⟨htake, hdrop⟩ := takeWhile_front hbefore
    simp only [List.cons_append, htake, hdrop]
  · next t hpoint =>
    refine ⟨rfl, fun before hbefore => ?_⟩
    rw [List.nil_append]
    split
    · next before =>
      obtain ⟨tail, rfl⟩ := hbefore
      exact absurd rfl (hpoint _)
    · rfl

-- What stands between the letter of an exponent and the digits, which `t` starts with.
def IsSign (sign t : Text) : Prop :=
  sign = [43] ∨ sign = [45] ∨ sign = [] ∧ ∀ u ∈ t.head?, u ≠ 43 ∧ u ≠ 45

theorem exists_isSign (t : Text) : ∃ sign digits, t = sign ++ digits ∧ IsSign sign digits := by
  by_cases hsign : t.head? = some 43 ∨ t.head? = some 45
  · obtain ⟨u, hu, rest, rfl⟩ : ∃ u, (u = 43 ∨ u = 45) ∧ ∃ rest, t = u :: rest := by
      rcases hsign with h | h <;> exact ⟨_, by simp, List.head?_eq_some_iff.mp h⟩
    exact ⟨[u], rest, rfl, by simpa [IsSign] using hu⟩
  · rw [not_or] at hsign
    refine ⟨[], t, rfl, .inr (.inr ⟨rfl, fun u hu => ⟨?_, ?_⟩⟩)⟩
    · rintro rfl
      exact hsign.1 hu
    · rintro rfl
      exact hsign.2 hu

theorem exponentPrefix?_sign (hletter : (letter == 101 || letter == 69) = true)
    (hsign : IsSign sign t) :
    exponentPrefix? (letter :: (sign ++ t)) =
      (digitsPrefix? t).map fun p => (letter :: (sign ++ p.1), p.2) := by
  rcases hsign with rfl | rfl | ⟨rfl, hhead⟩
  · simp [exponentPrefix?, hletter]
  · simp [exponentPrefix?, hletter]
  · rw [List.nil_append]
    unfold exponentPrefix?
    dsimp only
    rw [if_pos hletter]
    split
    · exact absurd rfl (hhead 43 rfl).1
    · exact absurd rfl (hhead 45 rfl).2
    · rfl

theorem exponentPrefix?_front (h : exponentPrefix? t = some (front, after)) :
    t = front ++ after ∧
      ∀ before, before <+: after → exponentPrefix? (front ++ before) = some (front, before) := by
  match t with
  | [] =>
    cases h
    exact ⟨rfl, fun before hbefore => by rw [List.prefix_nil.mp hbefore]; rfl⟩
  | letter :: rest =>
    by_cases hletter : (letter == 101 || letter == 69) = true
    · obtain ⟨sign, digits, rfl, hsign⟩ := exists_isSign rest
      rw [exponentPrefix?_sign hletter hsign, Option.map_eq_some_iff] at h
      obtain ⟨⟨run, tail⟩, hrun, heq⟩ := h
      obtain ⟨rfl, rfl⟩ := Prod.mk.inj heq
      obtain ⟨rfl, ⟨u, more, rfl, -⟩, hfront⟩ := digitsPrefix?_front hrun
      refine ⟨by simp, fun before hbefore => ?_⟩
      -- the digits start as before, so that the sign still ends where it did
      have hsign' : IsSign sign (u :: more ++ before) := hsign
      rw [List.cons_append, List.append_assoc, exponentPrefix?_sign hletter hsign',
        hfront before hbefore]
      rfl
    · have hnone : ∀ tail, exponentPrefix? (letter :: tail) = some ([], letter :: tail) :=
        fun tail => by unfold exponentPrefix?; exact if_neg hletter
      rw [hnone] at h
      obtain ⟨rfl, rfl⟩ := Prod.mk.inj (Option.some.inj h)
      refine ⟨rfl, fun before hbefore => ?_⟩
      rcases List.prefix_cons_iff.mp hbefore with rfl | ⟨tail, rfl, -⟩
      · rfl
      · exact hnone tail

-- The token of a number with these parts.
def ofNumber (position : Nat) (whole fraction exponent : Text) : Except SyntaxError Token :=
  let source := whole ++ fraction ++ exponent
  let digits := source.filter (· != 95)
  if !(fraction ++ exponent).isEmpty then .ok ⟨.float, digits, position, source.length⟩
  else if hasLeadingZeros digits then .error (.leadingZeros position)
  else .ok ⟨.integer, digits, position, source.length⟩

theorem ofNumber_moved {whole fraction exponent : Text}
    (h : ofNumber position whole fraction exponent = .ok token) :
    token.width = (whole ++ fraction ++ exponent).length ∧ (∀ k, token.kind ≠ .keyword k) ∧
      ∀ position', ofNumber position' whole fraction exponent =
        .ok { token with position := position' } := by
  unfold ofNumber at h ⊢
  dsimp only at h ⊢
  split at h
  · next hfloat =>
    cases h
    exact ⟨rfl, nofun, fun position' => if_pos hfloat⟩
  · next hfloat =>
    split at h
    · cases h
    · next hzeros =>
      cases h
      refine ⟨rfl, nofun, fun position' => ?_⟩
      rw [if_neg hfloat, if_neg hzeros]

theorem scanNumber_eq_ofNumber {exponent : Text × Text}
    (hexponent : exponentPrefix? (fractionPrefix (t.dropWhile isNumberUnit)).2 = some exponent)
    (hnone : Text.identifierPrefix? exponent.2 = none) (position : Nat) :
    scanNumber position t = ofNumber position (t.takeWhile isNumberUnit)
      (fractionPrefix (t.dropWhile isNumberUnit)).1 exponent.1 := by
  simp [scanNumber, hexponent, hnone, ofNumber]

theorem exists_exponent_of_scanNumber (h : scanNumber position t = .ok token) : ∃ exponent,
    exponentPrefix? (fractionPrefix (t.dropWhile isNumberUnit)).2 = some exponent ∧
      Text.identifierPrefix? exponent.2 = none := by
  unfold scanNumber at h
  dsimp only at h
  split at h
  · cases h
  · next exponent hexponent =>
    split at h
    · cases h
    · next hnone => exact ⟨exponent, hexponent, by simpa using hnone⟩

theorem opensNumber_of_front (hbefore : before <+: t) (h : opensNumber before = true) :
    opensNumber t = true := by
  obtain ⟨tail, rfl⟩ := hbefore
  match before with
  | [u] =>
    have hu : u ≠ 46 := by
      rintro rfl
      cases h
    rw [opensNumber_cons hu] at h
    rwa [List.cons_append, opensNumber_cons hu]
  | u :: v :: rest =>
    by_cases hu : u = 46
    · subst hu
      exact h
    · rw [opensNumber_cons hu] at h
      rwa [List.cons_append, opensNumber_cons hu]

-- What opens a number is the first unit of its whole part, or else the first two of its fraction.
theorem opensNumber_takeWhile (h : opensNumber t = true) :
    opensNumber (t.takeWhile isNumberUnit ++ (fractionPrefix (t.dropWhile isNumberUnit)).1) =
      true := by
  have hunit : ∀ v, Text.isDigit v = true → isNumberUnit v = true := fun v hv => by
    rw [isNumberUnit, hv, Bool.true_or]
  cases t with
  | nil => cases h
  | cons u rest =>
    by_cases hu : u = 46
    · subst hu
      have hpoint : ¬isNumberUnit 46 = true := by decide
      cases rest with
      | nil => cases h
      | cons v rest =>
        rw [List.takeWhile_cons_of_neg hpoint, List.dropWhile_cons_of_neg hpoint, fractionPrefix,
          List.takeWhile_cons_of_pos (hunit v h)]
        exact h
    · rw [opensNumber_cons hu] at h
      rwa [List.takeWhile_cons_of_pos (hunit u h), List.cons_append, opensNumber_cons hu]

theorem scanNumber_front (h : scanNumber position t = .ok token) (hopens : opensNumber t = true) :
    ∃ front after, t = front ++ after ∧ token.width = front.length ∧ opensNumber front = true ∧
      (∀ k, token.kind ≠ .keyword k) ∧
      ∀ before, before <+: after → ∀ position',
        scanNumber position' (front ++ before) = .ok { token with position := position' } := by
  obtain ⟨exponent, hexponent, hnone⟩ := exists_exponent_of_scanNumber h
  rw [scanNumber_eq_ofNumber hexponent hnone] at h
  obtain ⟨hwidth, hkind, hmoved⟩ := ofNumber_moved h
  obtain ⟨hexponentText, hexponentFront⟩ := exponentPrefix?_front hexponent
  obtain ⟨hfractionText, hfractionFront⟩ := fractionPrefix_front (t.dropWhile isNumberUnit)
  refine ⟨_, exponent.2, ?_, hwidth,
    opensNumber_of_front (List.prefix_append _ _) (opensNumber_takeWhile hopens), hkind,
    fun before hbefore position' => ?_⟩
  · rw [List.append_assoc, ← hexponentText, List.append_assoc, ← hfractionText,
      List.takeWhile_append_dropWhile]
  · have hexponentBefore :
        exponent.1 ++ before <+: (fractionPrefix (t.dropWhile isNumberUnit)).2 := by
      rw [hexponentText]
      exact (List.prefix_append_right_inj _).mpr hbefore
    have hfractionBefore :
        (fractionPrefix (t.dropWhile isNumberUnit)).1 ++ (exponent.1 ++ before) <+:
          t.dropWhile isNumberUnit := by
      conv_rhs => rw [hfractionText]
      exact (List.prefix_append_right_inj _).mpr hexponentBefore
    obtain ⟨htake, hdrop⟩ := takeWhile_front hfractionBefore
    have hexponent' := hexponentFront before hbefore
    rw [List.append_assoc, List.append_assoc,
      scanNumber_eq_ofNumber (by rw [hdrop, hfractionFront _ hexponentBefore, hexponent'])
        (Text.identifierPrefix?_eq_none_of_front hnone hbefore), htake, hdrop,
      hfractionFront _ hexponentBefore]
    exact hmoved position'

-- Strings and symbols.

theorem stringBody?_front {body : Text} {p : Text × Nat} (h : stringBody? quote body = some p) :
    ∃ front after, body = front ++ after ∧ p.2 = front.length ∧
      ∀ before, stringBody? quote (front ++ before) = some p := by
  induction body using stringBody?.induct quote generalizing p with
  | case1 => cases h
  | case2 u rest hquote =>
    rw [beq_iff_eq] at hquote
    subst hquote
    rw [stringBody?_quote] at h
    cases h
    exact ⟨[u], rest, rfl, rfl, stringBody?_quote u⟩
  | case3 u hquote hescape => simp [stringBody?, hquote, hescape] at h
  | case4 u hquote hescape v rest ih =>
    have hstep : ∀ rest, stringBody? quote (u :: v :: rest) =
        (stringBody? quote rest).map fun p => (escaped v :: p.1, p.2 + 2) := fun rest => by
      simp [stringBody?, hquote, hescape]
    rw [hstep, Option.map_eq_some_iff] at h
    obtain ⟨q, hq, rfl⟩ := h
    obtain ⟨front, after, rfl, hlength, hfront⟩ := ih hq
    refine ⟨u :: v :: front, after, rfl, by simp [hlength], fun before => ?_⟩
    rw [List.cons_append, List.cons_append, hstep, hfront, Option.map_some]
  | case5 u rest hquote hescape ih =>
    have hstep : ∀ rest, stringBody? quote (u :: rest) =
        (stringBody? quote rest).map fun p => (u :: p.1, p.2 + 1) :=
      stringBody?_cons (by simpa using hquote) (by simpa using hescape)
    rw [hstep, Option.map_eq_some_iff] at h
    obtain ⟨q, hq, rfl⟩ := h
    obtain ⟨front, after, rfl, hlength, hfront⟩ := ih hq
    refine ⟨u :: front, after, rfl, by simp [hlength], fun before => ?_⟩
    rw [List.cons_append, hstep, hfront, Option.map_some]

theorem symbolPrefix?_append_of_longer {s : Symbol} {u w : UInt16} (hlabel : s.label = [u])
    (hlonger : s.longer? = some w) (hend : symbolPrefix? [u] = some s)
    (hlong : ∀ rest, symbolPrefix? (u :: w :: rest) ≠ some s)
    (hshort : ∀ v rest, v ≠ w → symbolPrefix? (u :: v :: rest) = some s) (rest : Text) :
    symbolPrefix? (s.label ++ rest) = some s ↔ ∀ v ∈ rest.head?, s.longer? ≠ some v := by
  rw [hlabel, hlonger, List.singleton_append]
  cases rest with
  | nil => exact iff_of_true hend nofun
  | cons v rest =>
    simp only [List.head?_cons, Option.mem_def, Option.some.injEq, forall_eq', ne_eq]
    refine ⟨?_, fun hv => hshort v rest (Ne.symm hv)⟩
    rintro h rfl
    exact hlong rest h

-- A symbol is read as such where it is not the start of a longer one.
theorem symbolPrefix?_append_iff (s : Symbol) (rest : Text) :
    symbolPrefix? (s.label ++ rest) = some s ↔ ∀ u ∈ rest.head?, s.longer? ≠ some u := by
  cases s with
  | star =>
    exact symbolPrefix?_append_of_longer (u := 42) rfl rfl rfl (fun rest => by simp [symbolPrefix?])
      (fun v rest hv => by simp [symbolPrefix?, hv]) rest
  | slash =>
    exact symbolPrefix?_append_of_longer (u := 47) rfl rfl rfl (fun rest => by simp [symbolPrefix?])
      (fun v rest hv => by simp [symbolPrefix?, hv]) rest
  | less =>
    exact symbolPrefix?_append_of_longer (u := 60) rfl rfl rfl (fun rest => by simp [symbolPrefix?])
      (fun v rest hv => by simp [symbolPrefix?, hv]) rest
  | greater =>
    exact symbolPrefix?_append_of_longer (u := 62) rfl rfl rfl (fun rest => by simp [symbolPrefix?])
      (fun v rest hv => by simp [symbolPrefix?, hv]) rest
  | _ => exact iff_of_true rfl nofun

theorem symbolPrefix?_front {s : Symbol} (h : symbolPrefix? t = some s) :
    ∃ after, t = s.label ++ after ∧
      ∀ before, before <+: after → symbolPrefix? (s.label ++ before) = some s := by
  obtain ⟨after, rfl⟩ : ∃ after, t = s.label ++ after := by
    unfold symbolPrefix? at h
    split at h <;> cases h <;> exact ⟨_, rfl⟩
  refine ⟨after, rfl, fun before hbefore => ?_⟩
  rw [symbolPrefix?_append_iff] at h ⊢
  obtain ⟨tail, rfl⟩ := hbefore
  intro u hu
  exact h u (by rw [List.head?_append, Option.mem_def.mp hu]; rfl)

-- Words.

-- Blanks, at least one, and the word `in`, which ends there.
theorem memberWidth?_eq_some_iff : memberWidth? t = some more ↔
    ∃ blanks rest, t = blanks ++ 105 :: 110 :: rest ∧ (∀ u ∈ blanks, Text.isBlank u = true) ∧
      blanks ≠ [] ∧ ¬Text.OpensWith Text.isIdentifierPart rest ∧ more = blanks.length + 2 := by
  constructor
  · intro h
    unfold memberWidth? at h
    dsimp only at h
    split at h
    · next rest hrest =>
      split at h
      · next hends =>
        rw [Bool.and_eq_true, Bool.not_eq_true', Bool.not_eq_true', List.isEmpty_eq_false_iff,
          ← Bool.not_eq_true, ← Text.opensWith_iff] at hends
        cases h
        refine ⟨t.takeWhile Text.isBlank, rest, ?_, List.all_eq_true.mp List.all_takeWhile, hends.1,
          hends.2, rfl⟩
        rw [← hrest, List.takeWhile_append_dropWhile]
      · cases h
    · cases h
  · rintro ⟨blanks, rest, rfl, hblanks, hne, hends, rfl⟩
    obtain ⟨htake, hdrop⟩ := Text.span_append blanks (105 :: 110 :: rest) hblanks (by
      rintro u ⟨⟩
      decide)
    rw [Text.opensWith_iff, Bool.not_eq_true] at hends
    simp [memberWidth?, htake, hdrop, hends, hne]

theorem memberWidth?_front (h : memberWidth? t = some more) :
    ∃ front after, t = front ++ after ∧ more = front.length ∧
      ∀ before, before <+: after → memberWidth? (front ++ before) = some more := by
  obtain ⟨blanks, rest, rfl, hblanks, hne, hends, rfl⟩ := memberWidth?_eq_some_iff.mp h
  refine ⟨blanks ++ [105, 110], rest, by simp, by simp, fun before hbefore => ?_⟩
  refine memberWidth?_eq_some_iff.mpr ⟨blanks, before, by simp, hblanks, hne, ?_, rfl⟩
  exact fun hopens => hends (hopens.of_front Text.isIdentifierPart_of_isSurrogate hbefore)

theorem ofIdentifier_front (position : Nat) (n rest : Text) :
    ∃ front after, rest = front ++ after ∧
      (ofIdentifier position n rest).width = n.length + front.length ∧
      ((ofIdentifier position n rest).kind = .keyword .not → memberWidth? after = none) ∧
      ∀ before, before <+: after →
        ((ofIdentifier position n rest).kind = .keyword .not → memberWidth? before = none) →
        ∀ position', ofIdentifier position' n (front ++ before) =
          { ofIdentifier position n rest with position := position' } := by
  unfold ofIdentifier
  split
  · next hk => exact ⟨[], rest, rfl, rfl, nofun, fun before _ _ position' => rfl⟩
  · next hk =>
    split
    · next more hmore =>
      obtain ⟨front, after, hrest, hlength, hfront⟩ := memberWidth?_front hmore
      refine ⟨front, after, hrest, by rw [hlength], nofun, fun before hbefore _ position' => ?_⟩
      simp only [hfront before hbefore]
    · next hnone =>
      refine ⟨[], rest, rfl, rfl, fun _ => hnone, fun before _ hbefore position' => ?_⟩
      rw [List.nil_append, hbefore rfl]
  · next k hne hk =>
    refine ⟨[], rest, rfl, rfl, fun hkind => ?_, fun before _ _ position' => rfl⟩
    cases hkind
    exact absurd rfl hne

-- The token is read off `u` and `front` wherever they stand, and however much of `after` is left
-- behind them. Only for `not` something must be known of what is left.
structure IsFront (token : Token) (u : UInt16) (front after : Text) : Prop where
  width_eq : token.width = front.length + 1
  memberWidth?_eq_none : token.kind = .keyword .not → memberWidth? after = none
  scanOne_eq : ∀ before, before <+: after →
    (token.kind = .keyword .not → memberWidth? before = none) → ∀ position,
      scanOne position u (front ++ before) = .ok { token with position := position }

theorem exists_front_of_scanNumber (hnumber : opensNumber (u :: rest) = true)
    (h : scanNumber position (u :: rest) = .ok token) :
    ∃ front after, rest = front ++ after ∧ token.IsFront u front after := by
  obtain ⟨front, after, ht, hwidth, hopens, hkind, hfront⟩ := scanNumber_front h hnumber
  match front with
  | [] => cases hopens
  | v :: front =>
    obtain ⟨rfl, rfl⟩ := List.cons.inj ht
    refine ⟨front, after, rfl, hwidth, fun hk => absurd hk (hkind _),
      fun before hbefore _ position' => ?_⟩
    have hnumber' : opensNumber (u :: (front ++ before)) = true :=
      opensNumber_of_front (List.prefix_append _ _) hopens
    rw [scanOne, if_pos hnumber']
    exact hfront before hbefore position'

theorem exists_front_of_scanString (hquote : (u == 34 || u == 39) = true)
    (h : scanString position u rest = .ok token) :
    ∃ front after, rest = front ++ after ∧ token.IsFront u front after := by
  have hnumber : ∀ t, ¬opensNumber (u :: t) = true := fun t => by
    rw [Bool.or_eq_true, beq_iff_eq, beq_iff_eq] at hquote
    rcases hquote with rfl | rfl <;> exact nofun
  unfold scanString at h
  split at h
  · next p hp =>
    cases h
    obtain ⟨front, after, rfl, hlength, hfront⟩ := stringBody?_front hp
    refine ⟨front, after, rfl, by rw [hlength], nofun, fun before _ _ position' => ?_⟩
    rw [scanOne, if_neg (hnumber _), if_pos hquote, scanString, hfront before]
  · cases h

theorem exists_front_of_symbolPrefix? {s : Symbol} (hnumber : ¬opensNumber (u :: rest) = true)
    (hquote : ¬(u == 34 || u == 39) = true) (h : symbolPrefix? (u :: rest) = some s)
    (position : Nat) : ∃ front after, rest = front ++ after ∧
      IsFront ⟨.symbol s, s.label, position, s.label.length⟩ u front after := by
  obtain ⟨after, ht, hfront⟩ := symbolPrefix?_front h
  obtain ⟨front, hlabel⟩ : ∃ front, s.label = u :: front := by
    obtain ⟨v, front, hlabel⟩ : ∃ v front, s.label = v :: front := by
      cases s <;> exact ⟨_, _, rfl⟩
    rw [hlabel] at ht
    exact ⟨front, by rw [hlabel, (List.cons.inj ht).1]⟩
  rw [hlabel] at ht hfront
  obtain ⟨-, rfl⟩ := List.cons.inj ht
  refine ⟨front, after, rfl, by rw [hlabel, List.length_cons], nofun,
    fun before hbefore _ position' => ?_⟩
  have hnumber' : ¬opensNumber (u :: (front ++ before)) = true := fun hopens =>
    hnumber (opensNumber_of_front ((List.prefix_append_right_inj (u :: front)).mpr hbefore) hopens)
  rw [scanOne, if_neg hnumber', if_neg hquote, ← List.cons_append, hfront before hbefore]

theorem exists_front_of_identifierPrefix? {tail : Text}
    (h : Text.identifierPrefix? (u :: rest) = some (n, tail)) (position : Nat) :
    ∃ front after, rest = front ++ after ∧
      (ofIdentifier position n tail).IsFront u front after := by
  obtain ⟨more, after, rfl, hwidth, hnot, hfront⟩ := ofIdentifier_front position n tail
  obtain ⟨htext, hpos⟩ := Text.identifierPrefix?_append h
  obtain ⟨v, front, rfl⟩ := List.exists_cons_of_length_pos hpos
  rw [List.cons_append, List.cons.injEq] at htext
  obtain ⟨rfl, rfl⟩ := htext
  refine ⟨front ++ more, after, by rw [List.append_assoc], ?_, hnot,
    fun before hbefore hmember position' => ?_⟩
  · rw [hwidth, List.length_cons, List.length_append]
    omega
  · have hword := Text.identifierPrefix?_front h ((List.prefix_append_right_inj more).mpr hbefore)
    rw [List.cons_append] at hword
    rw [List.append_assoc, (scanOne_word hword position').2, hfront before hbefore hmember]

theorem exists_front_of_scanOne (h : scanOne position u rest = .ok token) :
    ∃ front after, rest = front ++ after ∧ token.IsFront u front after := by
  unfold scanOne at h
  split at h
  · next hnumber => exact exists_front_of_scanNumber hnumber h
  · next hnumber =>
    split at h
    · next hquote => exact exists_front_of_scanString hquote h
    · next hquote =>
      split at h
      · next s hs =>
        cases h
        exact exists_front_of_symbolPrefix? hnumber hquote hs position
      · next hs =>
        split at h
        · next p hp =>
          cases h
          exact exists_front_of_identifierPrefix? hp position
        · cases h

end Token

end RecordQuery
