import RecordQuery.Proofs.Token.Front

/-!
Where the tokens of a source lie. A scan goes along the source step by step, over a blank or a
token, so that the tokens and the blanks between them make up the source, and each token is what its
own part of the source is scanned as. A scan that fails does so at the first place where no token
is, and what is before that place is scanned without failure.
-/

namespace RecordQuery

namespace Token

variable {position last : Nat} {u : UInt16} {s t rest tail front after source : Text}
  {token : Token} {tokens : List Token} {e : SyntaxError}

-- The place behind a token.
def stop (token : Token) : Nat := token.position + token.width

-- What a token takes of its source.
def spelling (source : Text) (token : Token) : Text :=
  (source.drop token.position).take token.width

-- Going over blanks and tokens from one place in a source to another.
inductive Scans (source : Text) : Nat → List Token → Nat → Prop
  | here (position : Nat) : Scans source position [] position
  | blank {position last : Nat} {u : UInt16} {rest : Text} {tokens : List Token}
      (hdrop : source.drop position = u :: rest) (hblank : Text.isBlank u = true)
      (h : Scans source (position + 1) tokens last) : Scans source position tokens last
  | token {position last : Nat} {u : UInt16} {rest : Text} {token : Token} {tokens : List Token}
      (hdrop : source.drop position = u :: rest) (hblank : Text.isBlank u = false)
      (hone : scanOne position u rest = .ok token)
      (h : Scans source (position + token.width) tokens last) :
      Scans source position (token :: tokens) last

theorem drop_succ (h : source.drop position = u :: rest) : source.drop (position + 1) = rest := by
  rw [← List.drop_drop, h, List.drop_one, List.tail_cons]

theorem drop_take_append (hdrop : source.drop position = front ++ after)
    (hle : position + front.length ≤ last) : (source.take last).drop position =
      front ++ after.take (last - (position + front.length)) := by
  rw [List.drop_take, hdrop, show last - position =
    front.length + (last - (position + front.length)) by omega, List.take_length_add_append]

theorem IsFront.drop_eq (h : token.IsFront u front after)
    (hdrop : source.drop position = u :: (front ++ after)) :
    source.drop (position + token.width) = after := by
  rw [← List.drop_drop, hdrop, h.width_eq, List.drop_succ_cons, List.drop_left]

theorem IsFront.add_width_le (h : token.IsFront u front after)
    (hdrop : source.drop position = u :: (front ++ after)) :
    position + token.width ≤ source.length := by
  have hlength := congrArg List.length hdrop
  rw [List.length_drop, List.length_cons, List.length_append] at hlength
  rw [h.width_eq]
  omega

theorem lt_length_of_drop (h : source.drop position = u :: rest) : position < source.length := by
  have hlength := congrArg List.length h
  rw [List.length_drop, List.length_cons] at hlength
  omega

theorem Scans.le_last (h : Scans source position tokens last) : position ≤ last := by
  induction h with
  | here => exact Nat.le_refl _
  | blank hdrop hblank h ih => omega
  | token hdrop hblank hone h ih => omega

theorem Scans.last_le (h : Scans source position tokens last) (hle : position ≤ source.length) :
    last ≤ source.length := by
  induction h with
  | here => exact hle
  | blank hdrop hblank h ih => exact ih (lt_length_of_drop hdrop)
  | token hdrop hblank hone h ih =>
    obtain ⟨front, after, rfl, hfront⟩ := exists_front_of_scanOne hone
    exact ih (hfront.add_width_le hdrop)

-- What is left to scan is left from the place that is reached.
theorem Scans.scanFrom_eq (h : Scans source position tokens last) :
    scanFrom position (source.drop position) =
      (scanFrom last (source.drop last)).map (tokens ++ ·) := by
  induction h with
  | here position => cases scanFrom position (source.drop position) <;> rfl
  | blank hdrop hblank h ih => rw [hdrop, scanFrom_cons, if_pos hblank, ← ih, drop_succ hdrop]
  | token hdrop hblank hone h ih =>
    obtain ⟨front, after, rfl, hfront⟩ := exists_front_of_scanOne hone
    rw [hfront.drop_eq hdrop] at ih
    rw [hdrop, scanFrom_cons, if_neg (by simp [hblank]), hone]
    dsimp only
    rw [hfront.width_eq, Nat.add_sub_cancel, List.drop_left, ← hfront.width_eq, ih]
    cases scanFrom _ _ <;> rfl

-- A scan goes on to the end, or to where no token is.
theorem exists_scans (source : Text) (position : Nat) : ∃ tokens last,
    Scans source position tokens last ∧ ∀ u rest, source.drop last = u :: rest →
      Text.isBlank u = false ∧ ∃ e, scanOne last u rest = .error e := by
  generalize ht : source.drop position = t
  fun_induction scanFrom position t with
  | case1 position =>
    refine ⟨[], position, .here position, ?_⟩
    rw [ht]
    rintro _ _ ⟨⟩
  | case2 position u rest hblank ih =>
    obtain ⟨tokens, last, hscans, hend⟩ := ih (drop_succ ht)
    exact ⟨tokens, last, .blank ht hblank hscans, hend⟩
  | case3 position u rest hblank e hone =>
    refine ⟨[], position, .here position, ?_⟩
    rw [ht]
    rintro _ _ ⟨⟩
    exact ⟨by simpa using hblank, e, hone⟩
  | case4 position u rest hblank token hone ih =>
    obtain ⟨front, after, rfl, hfront⟩ := exists_front_of_scanOne hone
    obtain ⟨tokens, last, hscans, hend⟩ := ih (by
      rw [hfront.drop_eq ht, hfront.width_eq, Nat.add_sub_cancel, List.drop_left])
    exact ⟨token :: tokens, last, .token ht (by simpa using hblank) hone hscans, hend⟩

-- Every token that a scan goes over is read where it lies.
theorem Scans.exists_front (h : Scans source position tokens last) :
    ∀ token ∈ tokens, ∃ u front after, source.drop token.position = u :: (front ++ after) ∧
      token.IsFront u front after ∧ Text.isBlank u = false ∧
        position ≤ token.position ∧ token.stop ≤ last := by
  induction h with
  | here => exact nofun
  | blank hdrop hblank h ih =>
    intro token htoken
    obtain ⟨u, front, after, hat, hfront, hu, hle, hstop⟩ := ih token htoken
    exact ⟨u, front, after, hat, hfront, hu, by omega, hstop⟩
  | token hdrop hblank hone h ih =>
    obtain ⟨front, after, rfl, hfront⟩ := exists_front_of_scanOne hone
    have hposition := scanOne_position hone
    refine List.forall_mem_cons.mpr ⟨?_, fun token htoken => ?_⟩
    · rw [stop, hposition]
      exact ⟨_, front, after, hdrop, hfront, hblank, Nat.le_refl _, h.le_last⟩
    · obtain ⟨u, front, after, hat, hfront, hu, hle, hstop⟩ := ih token htoken
      exact ⟨u, front, after, hat, hfront, hu, by omega, hstop⟩

theorem Scans.pairwise (h : Scans source position tokens last) :
    tokens.Pairwise fun a b => a.stop ≤ b.position := by
  induction h with
  | here => exact .nil
  | blank hdrop hblank h ih => exact ih
  | token hdrop hblank hone h ih =>
    refine .cons (fun token htoken => ?_) ih
    obtain ⟨_, _, _, _, _, _, hle, _⟩ := h.exists_front token htoken
    rwa [stop, scanOne_position hone]

-- Only blanks are passed over otherwise.
theorem Scans.isBlank (h : Scans source position tokens last) {i : Nat} (hposition : position ≤ i)
    (hlast : i < last) (hbetween : ∀ token ∈ tokens, i < token.position ∨ token.stop ≤ i) :
    ∀ u ∈ source[i]?, Text.isBlank u = true := by
  induction h with
  | here => omega
  | blank hdrop hblank h ih =>
    rcases Nat.eq_or_lt_of_le hposition with rfl | hlt
    · rw [← List.head?_drop, hdrop]
      rintro _ ⟨⟩
      exact hblank
    · exact ih hlt hlast hbetween
  | token hdrop hblank hone h ih =>
    obtain ⟨hself, hrest⟩ := List.forall_mem_cons.mp hbetween
    rw [stop, scanOne_position hone] at hself
    exact ih (by omega) hlast hrest

theorem Scans.of_blanks {blanks : Text} (hblanks : ∀ u ∈ blanks, Text.isBlank u = true)
    (hdrop : source.drop position = blanks ++ t) (h : Scans source position tokens last)
    (hle : position + blanks.length ≤ last) :
    Scans source (position + blanks.length) tokens last := by
  induction blanks generalizing position with
  | nil => exact h
  | cons v blanks ih =>
    obtain ⟨hv, hblanks⟩ := List.forall_mem_cons.mp hblanks
    rw [List.length_cons] at hle ⊢
    rw [List.cons_append] at hdrop
    cases h with
    | here => omega
    | blank hdrop' hblank h =>
      have hnext := ih hblanks (drop_succ hdrop) h (by omega)
      rwa [Nat.add_assoc, Nat.add_comm 1] at hnext
    | token hdrop' hblank hone h =>
      rw [hdrop, List.cons.injEq] at hdrop'
      rw [← hdrop'.1, hv] at hblank
      cases hblank

theorem identifierPrefix?_in (t : Text) :
    Text.identifierPrefix? (105 :: 110 :: t) =
      some (105 :: 110 :: (Text.spanCharacters Text.isIdentifierPart t).1,
        (Text.spanCharacters Text.isIdentifierPart t).2) := by
  have hnext : Text.nextCharacter? (105 :: 110 :: t) = some ([105], 110 :: t) :=
    Text.nextCharacter?_of_not_isHigh (by decide) _
  have hopens : Text.opensIdentifier (Text.codePoint [105]) = true := by decide
  have hspan := Text.spanCharacters_cons_of_pos
    Text.isIdentifierPart_of_isSurrogate (u := 110) (by decide) t
  simp only [Text.identifierPrefix?, hnext, hopens, if_true, hspan]
  rfl

theorem length_le_width_ofIdentifier (position : Nat) (n rest : Text) :
    n.length ≤ (ofIdentifier position n rest).width := by
  obtain ⟨front, -, -, hwidth, -⟩ := ofIdentifier_front position n rest
  omega

-- An `in` behind blanks that does not end is the start of a word, and a scan does not stop within
-- the word.
theorem Scans.memberWidth?_eq_none (h : Scans source position tokens last)
    (hdrop : source.drop position = s ++ tail) (hlast : last = position + s.length)
    (hnone : memberWidth? (s ++ tail) = none) : memberWidth? s = none := by
  rw [Option.eq_none_iff_forall_ne_some]
  intro more hmore
  obtain ⟨blanks, rest, rfl, hblanks, hne, hends, -⟩ := memberWidth?_eq_some_iff.mp hmore
  have hgoes : Text.OpensWith Text.isIdentifierPart (rest ++ tail) := by
    by_contra hends'
    have hsome :=
      memberWidth?_eq_some_iff.mpr ⟨blanks, rest ++ tail, rfl, hblanks, hne, hends', rfl⟩
    rw [List.append_assoc, List.cons_append, List.cons_append, hsome] at hnone
    cases hnone
  have hword : source.drop (position + blanks.length) = 105 :: 110 :: (rest ++ tail) := by
    rw [← List.drop_drop, hdrop, List.append_assoc, List.drop_left]
    rfl
  rw [List.length_append, List.length_cons, List.length_cons] at hlast
  have hscans := h.of_blanks hblanks (by rw [hdrop, List.append_assoc]) (by omega)
  cases hscans with
  | here => omega
  | blank hdrop' hblank h =>
    rw [hword, List.cons.injEq] at hdrop'
    rw [← hdrop'.1] at hblank
    cases hblank
  | token hdrop' hblank hone h =>
    rw [hword, List.cons.injEq] at hdrop'
    obtain ⟨rfl, rfl⟩ := hdrop'
    rw [(scanOne_word (identifierPrefix?_in _) _).2] at hone
    cases hone
    have hwidth := length_le_width_ofIdentifier (position + blanks.length)
      (105 :: 110 :: (Text.spanCharacters Text.isIdentifierPart (rest ++ tail)).1)
      (Text.spanCharacters Text.isIdentifierPart (rest ++ tail)).2
    have hreach := h.le_last
    rw [List.length_cons, List.length_cons] at hwidth
    exact hends (hgoes.of_append Text.isIdentifierPart_of_isSurrogate (by omega))

-- What a scan went over is gone over in the same way where the source ends behind it.
theorem Scans.take (h : Scans source position tokens last) :
    Scans (source.take last) position tokens last := by
  induction h with
  | here position => exact .here position
  | @blank position last u rest tokens hdrop hblank h ih =>
    have hunit : source.drop position = [u] ++ rest := hdrop
    exact .blank (drop_take_append hunit h.le_last) hblank ih
  | @token position last u rest token tokens hdrop hblank hone h ih =>
    obtain ⟨front, after, rfl, hfront⟩ := exists_front_of_scanOne hone
    have hafter := hfront.drop_eq hdrop
    have hreach := h.le_last
    have hend := h.last_le (hfront.add_width_le hdrop)
    have hlength := congrArg List.length hafter
    rw [List.length_drop] at hlength
    have hspelled : source.drop position = (u :: front) ++ after := hdrop
    have hcut := drop_take_append hspelled (hfront.width_eq ▸ hreach)
    rw [List.length_cons, ← hfront.width_eq, List.cons_append] at hcut
    have hsplit := List.take_append_drop (last - (position + token.width)) after
    have hmember : token.kind = .keyword .not →
        memberWidth? (after.take (last - (position + token.width))) = none := by
      intro hkind
      refine h.memberWidth?_eq_none (hafter.trans hsplit.symm) ?_ ?_
      · rw [List.length_take]
        omega
      · rw [hsplit]
        exact hfront.memberWidth?_eq_none hkind
    refine .token hcut hblank ?_ ih
    rw [hfront.scanOne_eq _ (List.take_prefix _ _) hmember, ← scanOne_position hone]

-- A token's own text is scanned as that token alone.
theorem IsFront.scan_eq (h : token.IsFront u front after) (hblank : Text.isBlank u = false) :
    scan (u :: front) = .ok [{ token with position := 0 }] := by
  have hone := h.scanOne_eq [] List.nil_prefix (fun _ => rfl) 0
  rw [List.append_nil] at hone
  rw [scan, scanFrom_cons, if_neg (by simp [hblank]), hone]
  dsimp only
  rw [h.width_eq, Nat.add_sub_cancel, List.drop_length, scanFrom_nil]
  rfl

theorem scanOne_error_position (h : scanOne position u rest = .error e) :
    e.position? = some position := by
  unfold scanOne scanNumber scanString at h
  grind [SyntaxError.position?]

-- Tokens that lie in a source one behind the other with nothing but blanks around them, each of
-- which is what its own text is scanned as.
structure Tiles (source : Text) (tokens : List Token) : Prop where
  increasing : (tokens.map Token.position ++ [source.length]).Pairwise (· < ·)
  apart : tokens.Pairwise fun a b => a.stop ≤ b.position
  inside : ∀ token ∈ tokens, token.position < token.stop ∧ token.stop ≤ source.length
  blank : ∀ i, (∀ token ∈ tokens, i < token.position ∨ token.stop ≤ i) →
    ∀ u ∈ source[i]?, Text.isBlank u = true
  alone : ∀ token ∈ tokens, scan (token.spelling source) = .ok [{ token with position := 0 }]

theorem Scans.inside (h : Scans source 0 tokens source.length) :
    ∀ token ∈ tokens, token.position < token.stop ∧ token.stop ≤ source.length := by
  intro token htoken
  obtain ⟨u, front, after, -, hfront, -, -, hstop⟩ := h.exists_front token htoken
  refine ⟨?_, hstop⟩
  rw [stop, hfront.width_eq]
  omega

theorem Scans.tiles (h : Scans source 0 tokens source.length) : Tiles source tokens where
  increasing := by
    have hinside := h.inside
    refine List.pairwise_append.mpr ⟨?_, List.pairwise_singleton _ _, ?_⟩
    · refine List.pairwise_map.mpr (h.pairwise.imp_of_mem fun {a b} ha _ hab => ?_)
      exact Nat.lt_of_lt_of_le (hinside a ha).1 hab
    · intro position hposition last hlast
      obtain ⟨token, htoken, rfl⟩ := List.mem_map.mp hposition
      rw [List.mem_singleton.mp hlast]
      exact Nat.lt_of_lt_of_le (hinside token htoken).1 (hinside token htoken).2
  apart := h.pairwise
  inside := h.inside
  blank i hbetween u hu := by
    obtain ⟨hi, -⟩ := List.getElem?_eq_some_iff.mp hu
    exact h.isBlank (Nat.zero_le i) hi hbetween u hu
  alone token htoken := by
    obtain ⟨u, front, after, hdrop, hfront, hblank, -, -⟩ := h.exists_front token htoken
    have hspelling : token.spelling source = u :: front := by
      rw [spelling, hdrop, hfront.width_eq, List.take_succ_cons, List.take_left]
    rw [hspelling]
    exact hfront.scan_eq hblank

-- The place that is reached behind everything is the end of the source. Where there is no token,
-- the place is that of the failure.
theorem scan_tiles (source : Text) :
    match scan source with
    | .ok tokens => Tiles source tokens ∧
        ∀ last, Scans source 0 tokens last ∧ source.length ≤ last ↔ last = source.length
    | .error e => ∃ position tokens u rest, e.position? = some position ∧
        scan (source.take position) = .ok tokens ∧ Scans source 0 tokens position ∧
          source.drop position = u :: rest ∧ Text.isBlank u = false ∧
            scanOne position u rest = .error e := by
  obtain ⟨tokens, last, hscans, hend⟩ := exists_scans source 0
  have hscan := hscans.scanFrom_eq
  rw [List.drop_zero, ← scan] at hscan
  have hle := hscans.last_le (Nat.zero_le _)
  cases hdrop : source.drop last with
  | nil =>
    rw [hdrop, scanFrom_nil] at hscan
    rw [hscan]
    have hlast : last = source.length := Nat.le_antisymm hle (List.drop_eq_nil_iff.mp hdrop)
    subst hlast
    simp only [Except.map, List.append_nil]
    refine ⟨hscans.tiles, fun last' => ⟨fun h => ?_, ?_⟩⟩
    · exact Nat.le_antisymm (h.1.last_le (Nat.zero_le _)) h.2
    · rintro rfl
      exact ⟨hscans, Nat.le_refl _⟩
  | cons u rest =>
    obtain ⟨hblank, e, hone⟩ := hend u rest hdrop
    rw [hdrop, scanFrom_cons, if_neg (by simp [hblank]), hone] at hscan
    rw [hscan]
    have hbefore := hscans.take.scanFrom_eq
    rw [List.drop_zero, List.drop_take, Nat.sub_self, List.take_zero, scanFrom_nil] at hbefore
    refine ⟨last, tokens, u, rest, scanOne_error_position hone, ?_, hscans, hdrop, hblank, hone⟩
    rw [scan, hbefore]
    simp [Except.map]

end Token

end RecordQuery
