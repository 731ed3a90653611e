import RecordQuery.Proofs.Attempt
import RecordQuery.Proofs.Text.Identifier
import RecordQuery.Token.Scan

/-!
Sources that are one name and nothing else.
-/

namespace RecordQuery.Token

variable {position width : Nat} {u : UInt16} {n t rest : Text} {token : Token} {tokens : List Token}

theorem scanFrom_nil (position : Nat) : scanFrom position [] = .ok [] :=
  scanFrom.eq_def position []

theorem scanFrom_cons (position : Nat) (u : UInt16) (rest : Text) :
    scanFrom position (u :: rest) =
      if Text.isBlank u then scanFrom (position + 1) rest
      else
        match scanOne position u rest with
        | .error e => .error e
        | .ok token =>
          (scanFrom (position + token.width) (rest.drop (token.width - 1))).map (token :: ·) :=
  scanFrom.eq_def position (u :: rest)

theorem scanNumber_kind_ne (h : scanNumber position t = .ok token) : token.kind ≠ .name := by
  unfold scanNumber at h
  grind

theorem scanString_kind_ne (h : scanString position u t = .ok token) : token.kind ≠ .name := by
  unfold scanString at h
  grind

theorem opensNumber_cons (hu : u ≠ 46) (rest : Text) :
    opensNumber (u :: rest) = Text.isDigit u := by
  unfold opensNumber
  split
  next heq => exact absurd (List.cons.inj heq).1 hu
  next heq => rw [(List.cons.inj heq).1]
  next heq => cases heq

-- What opens no number opens none behind a point either.
theorem opensNumber_point (h : opensNumber (u :: rest) = false) :
    opensNumber (46 :: u :: rest) = false := by
  change Text.isDigit u = false
  by_cases hu : u = 46
  · rw [hu]
    rfl
  · rwa [opensNumber_cons hu] at h

theorem ofIdentifier_eq_name_iff {name : Text} :
    ofIdentifier position name rest = ⟨.name, n, position, width⟩ ↔
      Keyword.ofName? name = none ∧ name = n ∧ name.length = width := by
  unfold ofIdentifier
  grind

-- A name is scanned where an identifier is that is no reserved word, and nothing else fits.
theorem scanOne_eq_name_iff :
    scanOne position u rest = .ok ⟨.name, n, position, width⟩ ↔
      opensNumber (u :: rest) = false ∧ (u == 34 || u == 39) = false ∧
        symbolPrefix? (u :: rest) = none ∧
          ∃ after, Text.identifierPrefix? (u :: rest) = some (n, after) ∧
            Keyword.ofName? n = none ∧ n.length = width := by
  unfold scanOne
  split
  next hnumber =>
    simp only [hnumber]
    exact ⟨fun h => absurd rfl (scanNumber_kind_ne h), fun h => by cases h.1⟩
  next hnumber =>
    split
    next hquote =>
      simp only [hquote]
      exact ⟨fun h => absurd rfl (scanString_kind_ne h), fun h => by cases h.2.1⟩
    next hquote =>
      split
      next s hs => simp [hs]
      next hs =>
        split
        next p hp =>
          obtain ⟨name, after⟩ := p
          rw [Except.ok.injEq, ofIdentifier_eq_name_iff]
          grind
        next hp => simp [hp]

theorem scanOne_position (h : scanOne position u rest = .ok token) : token.position = position := by
  unfold scanOne scanNumber scanString ofIdentifier at h
  grind

theorem le_position_of_scanFrom (h : scanFrom position t = .ok tokens) :
    ∀ token ∈ tokens, position ≤ token.position := by
  fun_induction scanFrom position t generalizing tokens with
  | case1 =>
    cases h
    simp
  | case2 position u rest hblank ih => exact fun token ht => Nat.le_of_succ_le (ih h token ht)
  | case3 => cases h
  | case4 position u rest hblank token hone ih =>
    cases hrest : scanFrom (position + token.width) (rest.drop (token.width - 1)) with
    | error e =>
      rw [hrest] at h
      cases h
    | ok more =>
      rw [hrest] at h
      cases h
      refine List.forall_mem_cons.mpr ⟨Nat.le_of_eq (scanOne_position hone).symm, ?_⟩
      exact fun token' ht => Nat.le_of_add_right_le (ih hrest token' ht)

-- The text is one name and nothing else.
def SpellsName (n : Text) : Prop := scan n = .ok [⟨.name, n, 0, n.length⟩]

instance (n : Text) : Decidable (SpellsName n) := decidable_of_iff _ toOption_eq_some_iff

-- No blank comes first, since the name would come after it.
theorem SpellsName.exists_scanOne (h : SpellsName n) :
    ∃ u rest, n = u :: rest ∧ Text.isBlank u = false ∧
      scanOne 0 u rest = .ok ⟨.name, n, 0, n.length⟩ := by
  rw [SpellsName, scan] at h
  cases n with
  | nil =>
    rw [scanFrom_nil] at h
    cases h
  | cons u rest =>
    refine ⟨u, rest, rfl, ?_⟩
    rw [scanFrom_cons] at h
    split at h
    next hblank => exact absurd (le_position_of_scanFrom h _ List.mem_cons_self) (by simp)
    next hblank =>
      refine ⟨by simpa using hblank, ?_⟩
      split at h
      next => cases h
      next token hone =>
        cases hrest : scanFrom (0 + token.width) (rest.drop (token.width - 1)) with
        | error e =>
          rw [hrest] at h
          cases h
        | ok more =>
          rw [hrest] at h
          obtain ⟨htoken, -⟩ := List.cons.inj (Except.ok.inj h)
          rw [hone, htoken]

theorem SpellsName.identifierPrefix? (h : SpellsName n) :
    Text.identifierPrefix? n = some (n, []) := by
  obtain ⟨u, rest, rfl, -, hone⟩ := h.exists_scanOne
  obtain ⟨-, -, -, after, hopens, -⟩ := scanOne_eq_name_iff.mp hone
  rw [hopens, List.append_right_eq_self.mp (Text.identifierPrefix?_append hopens).1]

-- A name is scanned as one wherever it ends a source.
theorem SpellsName.scanFrom_eq (h : SpellsName n) (position : Nat) :
    scanFrom position n = .ok [⟨.name, n, position, n.length⟩] := by
  obtain ⟨u, rest, rfl, hblank, hone⟩ := h.exists_scanOne
  have hat : scanOne position u rest = .ok ⟨.name, u :: rest, position, (u :: rest).length⟩ :=
    scanOne_eq_name_iff.mpr (scanOne_eq_name_iff.mp hone)
  rw [scanFrom_cons, if_neg (by simp [hblank]), hat]
  simp [scanFrom_nil, Except.map]

end RecordQuery.Token
