import RecordQuery.Command.Arguments
import RecordQuery.Proofs.Double.Rounding
import RecordQuery.Proofs.Function.Integer
import RecordQuery.Proofs.Value.Merge

/-!
Command lines as they are written, phrase by phrase. A phrase turns on switches or gives an option with
its values, and each of these has several spellings. However an option is introduced, its values are
read as they are meant if what follows them cannot be a value of it, too.
-/

namespace RecordQuery.Arguments

variable {specs : List OptionSpec} {spec : OptionSpec} {kind : ValueKind} {value : OptionValue}
  {options : Fields OptionValue} {argument t shown letters : Text} {values rest : List Text}
  {attached : Option Text} {switches : List OptionSpec} {c : UInt16} {x : Double}

-- A table whose options can be told apart. No letter is a dash, and no word ends at an equals sign.
structure Distinct (specs : List OptionSpec) : Prop where
  names : (specs.map OptionSpec.name).Nodup
  letters : (specs.filterMap OptionSpec.letter).Nodup
  words : (specs.filterMap OptionSpec.word).Nodup
  letter : ∀ spec ∈ specs, spec.letter ≠ some [45]
  word : ∀ spec ∈ specs, ∀ t ∈ spec.word, t ≠ [] ∧ 61 ∉ t

-- Digits after at most one sign, and the double nearest to the integer that they spell.
inductive SpellsInteger : Text → Double → Prop
  | mk {sign digits : Text} (hsign : sign ∈ [[], [43], [45]]) (hsome : digits ≠ [])
    (hdigits : ∀ u ∈ digits, Text.isDigit u = true) :
    SpellsInteger (sign ++ digits) (.ofRat (sign == [45]) (Text.digitsValue digits))

-- How the values of an option are written.
inductive Means : ValueKind → List Text → OptionValue → Prop
  | text (t : Text) : Means .text [t] (.text t)
  | integer {t : Text} {x : Double} (h : SpellsInteger t x) : Means .integer [t] (.integer x)
  | texts {ts : List Text} (hsome : ts ≠ []) : Means .texts ts (.texts ts)
  | integers {ts : List Text} {xs : List Double} (hsome : ts ≠ [])
    (h : List.Forall₂ SpellsInteger ts xs) : Means .integers ts (.integers xs)

-- A value that may be an argument of its own.
def StandsAlone (kind : ValueKind) (t : Text) : Prop :=
  t.head? = some 45 → t = [45] ∨ kind.isNumeric = true ∧ ∃ x, SpellsInteger t x

-- The letters of some switches behind each other.
inductive SpellsSwitches (specs : List OptionSpec) : Text → List OptionSpec → Prop
  | nil : SpellsSwitches specs [] []
  | cons {spec : OptionSpec} {c : UInt16} {letters : Text} {switches : List OptionSpec}
    (hspec : spec ∈ specs) (hkind : spec.kind = .switch) (hletter : spec.letter = some [c])
    (h : SpellsSwitches specs letters switches) :
    SpellsSwitches specs (c :: letters) (spec :: switches)

theorem SpellsSwitches.forall_mem (h : SpellsSwitches specs letters switches) :
    ∀ spec ∈ switches, spec ∈ specs ∧ spec.kind = .switch := by
  induction h with
  | nil => exact fun spec hspec => absurd hspec List.not_mem_nil
  | cons hspec hkind hletter _ ih => exact List.forall_mem_cons.mpr ⟨⟨hspec, hkind⟩, ih⟩

-- An argument with an option that takes values, perhaps with switches in front of it and the first
-- value after it.
inductive Introduces (specs : List OptionSpec) :
    Text → List OptionSpec → OptionSpec → Option Text → Prop
  | word {spec : OptionSpec} {w : Text} (hspec : spec ∈ specs) (hword : spec.word = some w) :
    Introduces specs (45 :: 45 :: w) [] spec none
  | wordWith {spec : OptionSpec} {w : Text} (hspec : spec ∈ specs) (hword : spec.word = some w)
    (v : Text) : Introduces specs (45 :: 45 :: (w ++ 61 :: v)) [] spec (some v)
  | letter {spec : OptionSpec} {c : UInt16} {letters : Text} {switches : List OptionSpec}
    (hswitches : SpellsSwitches specs letters switches) (hspec : spec ∈ specs)
    (hletter : spec.letter = some [c]) :
    Introduces specs (45 :: (letters ++ [c])) switches spec none
  | letterWith {spec : OptionSpec} {c : UInt16} {letters v : Text} {switches : List OptionSpec}
    (hswitches : SpellsSwitches specs letters switches) (hspec : spec ∈ specs)
    (hletter : spec.letter = some [c]) (hv : v ≠ []) :
    Introduces specs (45 :: (letters ++ c :: v)) switches spec (some v)

-- Arguments that belong together, and the options that they give.
structure Phrase where
  arguments : List Text
  given : List (OptionSpec × OptionValue)

def turnedOn (switches : List OptionSpec) : List (OptionSpec × OptionValue) :=
  switches.map fun spec => (spec, .switch true)

inductive Phrase.IsSpelled (specs : List OptionSpec) : Phrase → Prop
  | word {spec : OptionSpec} {w : Text} (hspec : spec ∈ specs) (hkind : spec.kind = .switch)
    (hword : spec.word = some w) : IsSpelled specs ⟨[45 :: 45 :: w], turnedOn [spec]⟩
  | letters {letters : Text} {switches : List OptionSpec}
    (h : SpellsSwitches specs letters switches) (hsome : letters ≠ []) :
    IsSpelled specs ⟨[45 :: letters], turnedOn switches⟩
  | valued {argument : Text} {switches : List OptionSpec} {spec : OptionSpec} {kind : ValueKind}
    {attached : Option Text} {values : List Text} {value : OptionValue}
    (h : Introduces specs argument switches spec attached) (hkind : spec.kind = .valued kind)
    (hmeans : Means kind (attached.toList ++ values) value)
    (hvalues : ∀ t ∈ values, StandsAlone kind t) :
    IsSpelled specs ⟨argument :: values, turnedOn switches ++ [(spec, value)]⟩

namespace Phrase

def takesIntegers (p : Phrase) : Prop :=
  ∃ given ∈ p.given.getLast?, given.1.kind = .valued .integers

def startsWithInteger (p : Phrase) : Prop := ∃ t ∈ p.arguments.head?, ∃ x, SpellsInteger t x

-- No letters that spell an integer come next to the values of an option that takes integers.
def Apart (line : List Phrase) : Prop :=
  line.IsChain fun p q => p.takesIntegers → ¬q.startsWithInteger

end Phrase

theorem head?_eq_dash_iff {sign digits : Text} (hsign : sign ∈ [[], [43], [45]])
    (hdigits : ∀ u ∈ digits, Text.isDigit u = true) :
    (sign ++ digits).head? = some 45 ↔ sign = [45] := by
  simp only [List.mem_cons, List.not_mem_nil, or_false] at hsign
  rcases hsign with rfl | rfl | rfl
  · cases digits with
    | nil => simp
    | cons u digits =>
      have hu : u ≠ 45 := by
        rintro rfl
        exact absurd (hdigits 45 List.mem_cons_self) (by decide)
      simp [hu]
  · simp
  · simp

-- What is read of an integer is the double that it spells.
theorem integerOf_eq (h : SpellsInteger t x) : integerOf t = x := by
  obtain @⟨sign, digits, hsign, hsome, hdigits⟩ := h
  have hnegative : ((sign ++ digits).head? == some 45) = (sign == [45]) := by
    rw [Bool.eq_iff_iff, beq_iff_eq, beq_iff_eq, head?_eq_dash_iff hsign hdigits]
  have hvalue : (Number.integerValue (sign ++ digits)).natAbs = Text.digitsValue digits := by
    rw [(Function.isIntegerText_append hsign hsome hdigits).2]
    split <;> simp
  rw [integerOf, hnegative, hvalue, Double.ofFraction_eq_ofRat _ _ Nat.one_pos, Nat.cast_one, div_one]

theorem spellsInteger_digit (sign : Text) (hsign : sign ∈ [[], [43], [45]]) (n : ℕ) :
    SpellsInteger (sign ++ [Text.digit n]) (.ofRat (sign == [45]) (n % 10 : ℕ)) := by
  have h := SpellsInteger.mk hsign (List.cons_ne_nil _ _)
    (List.forall_mem_singleton.mpr (Text.isDigit_digit n))
  rwa [Text.digitsValue_singleton, Text.digitValue_digit] at h

theorem isIntegerText_iff : Number.isIntegerText t = true ↔ ∃ x, SpellsInteger t x := by
  constructor
  · intro h
    rw [Number.isIntegerText, Bool.and_eq_true, Bool.not_eq_true', List.isEmpty_eq_false_iff,
      List.all_eq_true] at h
    obtain ⟨hsome, hdigits⟩ := h
    split at hsome
    · next hsigned =>
      rw [if_pos hsigned] at hdigits
      cases t with
      | nil => exact absurd rfl hsome
      | cons u t =>
        have hsign : [u] ∈ [[], [43], [45]] := by simpa using hsigned
        exact ⟨_, .mk hsign hsome hdigits⟩
    · next hunsigned =>
      rw [if_neg hunsigned] at hdigits
      exact ⟨_, .mk List.mem_cons_self hsome hdigits⟩
  · rintro ⟨x, hsign, hsome, hdigits⟩
    exact (Function.isIntegerText_append hsign hsome hdigits).1

theorem isOption_iff : isOption t = true ↔ t.head? = some 45 ∧ t ≠ [45] := by
  cases t with
  | nil => simp [isOption]
  | cons u t => by_cases hu : u = 45 <;> cases t <;> simp [isOption, hu]

theorem standsAsValue_iff : standsAsValue kind t = true ↔ StandsAlone kind t := by
  rw [standsAsValue, Bool.or_eq_true, Bool.and_eq_true, Bool.not_eq_true', ← Bool.not_eq_true,
    isOption_iff, isIntegerText_iff, StandsAlone]
  tauto

-- An option that takes integers goes on to take the values of any other option.
theorem standsAsValue_integers (h : StandsAlone kind t) : standsAsValue .integers t = true :=
  standsAsValue_iff.mpr fun hdash => (h hdash).imp_right fun hinteger => ⟨rfl, hinteger.2⟩

theorem map_integerOf_eq {ts : List Text} {xs : List Double} (h : List.Forall₂ SpellsInteger ts xs) :
    ts.map integerOf = xs := by
  induction h with
  | nil => rfl
  | cons hx _ ih => rw [List.map_cons, integerOf_eq hx, ih]

theorem find?_not_isIntegerText {ts : List Text} {xs : List Double}
    (h : List.Forall₂ SpellsInteger ts xs) :
    (ts.find? fun t => !Number.isIntegerText t) = none := by
  induction h with
  | nil => rfl
  | cons hx _ ih => rw [List.find?_cons, isIntegerText_iff.mpr ⟨_, hx⟩, ih]; rfl

theorem interpret_of_means (h : Means kind values value) :
    interpret kind shown values = .ok value := by
  cases h with
  | text t => rfl
  | @integer t x h =>
    have hfind := find?_not_isIntegerText (List.Forall₂.cons h .nil)
    simp only [interpret, ValueKind.isNumeric, if_true, hfind, integerOf_eq h]
    rfl
  | texts hsome =>
    obtain ⟨t, ts, rfl⟩ := List.exists_cons_of_ne_nil hsome
    rfl
  | integers hsome h =>
    have hfind := find?_not_isIntegerText h
    obtain ⟨t, ts, rfl⟩ := List.exists_cons_of_ne_nil hsome
    simp only [interpret, ValueKind.isNumeric, if_true, hfind, map_integerOf_eq h]
    rfl

theorem interpret_integers {ts : List Text} (h : interpret .integers shown ts = .ok value) :
    value = .integers (ts.map integerOf) := by
  unfold interpret at h
  split at h
  · cases h
  · simp only [ValueKind.isNumeric, if_true] at h
    split at h
    · cases h
    · cases h
      rfl

-- The next argument is no further value of an option that takes several.
def Stops (kind : ValueKind) (rest : List Text) : Prop :=
  kind.isMany = true → ∀ t ∈ rest.head?, standsAsValue kind t = false

theorem takeWhile_eq_nil_of_stops (hrest : Stops kind rest) (hmany : kind.isMany = true) :
    rest.takeWhile (standsAsValue kind) = [] ∧ rest.dropWhile (standsAsValue kind) = rest := by
  cases rest with
  | nil => exact ⟨rfl, rfl⟩
  | cons t rest =>
    have ht : standsAsValue kind t = false := hrest hmany t rfl
    simp [ht]

-- An option that does not take several values has just one.
theorem Means.exists_eq_singleton (h : Means kind values value) (hone : kind.isMany = false) :
    ∃ t, values = [t] := by
  cases h with
  | text t => exact ⟨t, rfl⟩
  | integer h => exact ⟨_, rfl⟩
  | texts hsome => cases hone
  | integers hsome h => cases hone

theorem valuesOf_many (hmany : kind.isMany = true)
    (hstand : ∀ t ∈ values, standsAsValue kind t = true) :
    valuesOf kind attached (values ++ rest) =
      (attached.toList ++ (values ++ rest.takeWhile (standsAsValue kind)),
        rest.dropWhile (standsAsValue kind)) := by
  unfold valuesOf
  rw [if_pos hmany, List.takeWhile_append_of_pos hstand, List.dropWhile_append_of_pos hstand]

theorem valuesOf_append (h : Means kind (attached.toList ++ values) value)
    (hvalues : ∀ t ∈ values, StandsAlone kind t) (hrest : Stops kind rest) :
    valuesOf kind attached (values ++ rest) = (attached.toList ++ values, rest) := by
  have hstand : ∀ t ∈ values, standsAsValue kind t = true := fun t ht =>
    standsAsValue_iff.mpr (hvalues t ht)
  cases hmany : kind.isMany with
  | true =>
    obtain ⟨htake, hdrop⟩ := takeWhile_eq_nil_of_stops hrest hmany
    rw [valuesOf_many hmany hstand, htake, hdrop, List.append_nil]
  | false =>
    obtain ⟨t, ht⟩ := h.exists_eq_singleton hmany
    unfold valuesOf
    rw [if_neg (by rw [hmany]; exact Bool.false_ne_true)]
    cases attached with
    | some v =>
      have hnone : values = [] := by simpa using congrArg List.tail ht
      rw [hnone]
      rfl
    | none =>
      rw [Option.toList_none, List.nil_append] at ht
      subst ht
      simp [hstand t List.mem_cons_self]

-- An option takes the values that are meant for it and leaves what follows them.
theorem takeValues_of_means (h : Means kind (attached.toList ++ values) value)
    (hvalues : ∀ t ∈ values, StandsAlone kind t) (hrest : Stops kind rest) :
    takeValues spec kind shown attached (options, values ++ rest) =
      .ok (options.set spec.name value, rest) := by
  simp only [takeValues, valuesOf_append h hvalues hrest, interpret_of_means h]
  rfl

-- Only the option that a letter or a word belongs to is found by it.
theorem find?_reverse_eq_some {key : OptionSpec → Option Text} {t : Text}
    (hnodup : (specs.filterMap key).Nodup) (hspec : spec ∈ specs) (hkey : key spec = some t) :
    (specs.reverse.find? fun spec => key spec == some t) = some spec := by
  have hpairwise := List.pairwise_filterMap.mp hnodup
  cases hfind : specs.reverse.find? fun spec => key spec == some t with
  | none =>
    have hnone := List.find?_eq_none.mp hfind spec (List.mem_reverse.mpr hspec)
    simp [hkey] at hnone
  | some found =>
    have hmem := List.mem_reverse.mp (List.mem_of_find?_eq_some hfind)
    have hfound : key found = some t := by simpa using List.find?_some hfind
    by_contra hne
    have hsymm : Std.Symm fun a b : OptionSpec =>
        ∀ t, key a = some t → ∀ u, key b = some u → t ≠ u :=
      ⟨fun _ _ hab t ht u hu => (hab u hu t ht).symm⟩
    exact hpairwise.forall hmem hspec (fun heq => hne (congrArg some heq)) t hfound t hkey rfl

theorem withLetter?_eq (h : Distinct specs) (hspec : spec ∈ specs)
    (hletter : spec.letter = some [c]) : withLetter? specs c = some spec :=
  find?_reverse_eq_some h.letters hspec hletter

theorem withWord?_eq (h : Distinct specs) (hspec : spec ∈ specs) (hword : spec.word = some t) :
    withWord? specs t = some spec := by
  have hsome : t.isEmpty = false := List.isEmpty_eq_false_iff.mpr (h.word spec hspec t hword).1
  rw [withWord?, hsome]
  exact find?_reverse_eq_some h.words hspec hword

def entriesOf (given : List (OptionSpec × OptionValue)) : Fields OptionValue :=
  given.map fun g => (g.1.name, g.2)

theorem keys_entriesOf (given : List (OptionSpec × OptionValue)) :
    (entriesOf given).keys = given.map fun g => g.1.name := by
  simp [entriesOf, Fields.keys]

-- The options with further ones set.
def settingAll (options : Fields OptionValue) (given : List (OptionSpec × OptionValue)) :
    Fields OptionValue := options.merge (entriesOf given)

theorem settingAll_append (given given' : List (OptionSpec × OptionValue)) :
    settingAll options (given ++ given') = settingAll (settingAll options given) given' := by
  rw [settingAll, entriesOf, List.map_append, Fields.merge, List.foldl_append]
  rfl

theorem get?_settingAll_of_notMem {given : List (OptionSpec × OptionValue)} {name : Text}
    (h : ∀ g ∈ given, g.1.name ≠ name) (options : Fields OptionValue) :
    (settingAll options given).get? name = options.get? name := by
  have hnone : (entriesOf given).filter (fun e => e.1 == name) = [] := by
    rw [List.filter_eq_nil_iff]
    intro e he
    obtain ⟨g, hg, rfl⟩ := List.mem_map.mp he
    simpa using h g hg
  rw [settingAll, Fields.get?_merge, hnone]
  rfl

theorem head?_letter (h : Distinct specs) (hspec : spec ∈ specs) (hletter : spec.letter = some [c])
    (following : Text) : (c :: following).head? ≠ some 45 := by
  intro heq
  have hc : c = 45 := Option.some_inj.mp heq
  exact h.letter spec hspec (by rw [hletter, hc])

theorem head?_switches_append (h : Distinct specs) (hswitches : SpellsSwitches specs letters switches)
    (following : Text) (hfollowing : following.head? ≠ some 45) :
    (letters ++ following).head? ≠ some 45 := by
  cases hswitches with
  | nil => exact hfollowing
  | cons hspec hkind hletter _ => exact head?_letter h hspec hletter _

-- Switches by their letters are turned on, and then whatever follows them is read.
theorem readLetters_switches (h : Distinct specs) (hswitches : SpellsSwitches specs letters switches)
    (options : Fields OptionValue) (following : Text) (arguments : List Text) :
    readLetters specs (letters ++ following) (options, arguments) =
      readLetters specs following (settingAll options (turnedOn switches), arguments) := by
  induction hswitches generalizing options with
  | nil => rfl
  | cons hspec hkind hletter _ ih =>
    rw [List.cons_append, readLetters, withLetter?_eq h hspec hletter]
    simp only [hkind]
    exact ih _

-- Letters that do not begin with a dash are no word.
theorem readOption_letters (hdash : letters.head? ≠ some 45) (state : State) :
    readOption specs (45 :: letters) state = readLetters specs letters state := by
  unfold readOption
  split
  · next heq =>
    cases heq
    exact absurd rfl hdash
  · rfl

theorem splitWord {w : Text} (hw : 61 ∉ w) (v : Text) :
    w.takeWhile (· != 61) = w ∧ w.dropWhile (· != 61) = [] ∧
      (w ++ 61 :: v).takeWhile (· != 61) = w ∧ (w ++ 61 :: v).dropWhile (· != 61) = 61 :: v := by
  have hall : ∀ u ∈ w, (u != 61) = true := fun u hu => by
    rw [bne_iff_ne]
    rintro rfl
    exact hw hu
  refine ⟨List.takeWhile_eq_self_iff.mpr hall, List.dropWhile_eq_nil_iff.mpr hall, ?_, ?_⟩
  · rw [List.takeWhile_append_of_pos hall, List.takeWhile_cons_of_neg (by decide), List.append_nil]
  · rw [List.dropWhile_append_of_pos hall, List.dropWhile_cons_of_neg (by decide)]

theorem readWord_eq (h : Distinct specs) (hspec : spec ∈ specs) {w : Text}
    (hword : spec.word = some w) (state : State) : readWord specs w state =
      match spec.kind with
      | .valued kind => takeValues spec kind (45 :: 45 :: w) none state
      | .switch => .ok (state.1.set spec.name (.switch true), state.2) := by
  obtain ⟨htake, hdrop, -⟩ := splitWord (h.word spec hspec w hword).2 []
  rw [readWord, htake, hdrop, withWord?_eq h hspec hword]
  rfl

theorem readWord_with (h : Distinct specs) (hspec : spec ∈ specs) {w : Text}
    (hword : spec.word = some w) (hkind : spec.kind = .valued kind) (v : Text) (state : State) :
    readWord specs (w ++ 61 :: v) state = takeValues spec kind (45 :: 45 :: w) (some v) state := by
  obtain ⟨-, -, htake, hdrop⟩ := splitWord (h.word spec hspec w hword).2 v
  rw [readWord, htake, hdrop, withWord?_eq h hspec hword]
  simp only [hkind]
  rfl

-- However an option is introduced, it goes on to take its values.
theorem readOption_of_introduces (h : Distinct specs)
    (hintroduces : Introduces specs argument switches spec attached)
    (hkind : spec.kind = .valued kind) (options : Fields OptionValue) (arguments : List Text) :
    ∃ shown, readOption specs argument (options, arguments) =
      takeValues spec kind shown attached (settingAll options (turnedOn switches), arguments) := by
  cases hintroduces with
  | @word _ w hspec hword =>
    refine ⟨45 :: 45 :: w, ?_⟩
    rw [readOption, readWord_eq h hspec hword, hkind]
    rfl
  | @wordWith _ w hspec hword v =>
    refine ⟨45 :: 45 :: w, ?_⟩
    rw [readOption, readWord_with h hspec hword hkind]
    rfl
  | @letter _ c letters _ hswitches hspec hletter =>
    refine ⟨[45, c], ?_⟩
    have hdash := head?_letter h hspec hletter []
    rw [readOption_letters (head?_switches_append h hswitches _ hdash),
      readLetters_switches h hswitches options, readLetters, withLetter?_eq h hspec hletter]
    simp only [hkind]
    rfl
  | @letterWith _ c letters v _ hswitches hspec hletter hv =>
    refine ⟨[45, c], ?_⟩
    have hdash := head?_letter h hspec hletter v
    have hsome : v.isEmpty = false := List.isEmpty_eq_false_iff.mpr hv
    rw [readOption_letters (head?_switches_append h hswitches _ hdash),
      readLetters_switches h hswitches options, readLetters, withLetter?_eq h hspec hletter]
    simp only [hkind, hsome]
    rfl

-- An argument that is read as an option.
def ReadsAsOption (argument : Text) : Prop := isOption argument = true ∧ argument ≠ [45, 45]

theorem readsAsOption_word (h : Distinct specs) (hspec : spec ∈ specs) {w : Text}
    (hword : spec.word = some w) (after : Text) : ReadsAsOption (45 :: 45 :: (w ++ after)) := by
  have hsome := (h.word spec hspec w hword).1
  refine ⟨isOption_iff.mpr ⟨rfl, by simp⟩, fun heq => hsome ?_⟩
  simp only [List.cons.injEq, true_and, List.append_eq_nil_iff] at heq
  exact heq.1

theorem readsAsOption_letters (hsome : letters ≠ []) (hdash : letters.head? ≠ some 45) :
    ReadsAsOption (45 :: letters) := by
  refine ⟨isOption_iff.mpr ⟨rfl, fun heq => hsome (List.cons.inj heq).2⟩, fun heq => hdash ?_⟩
  rw [(List.cons.inj heq).2]
  rfl

theorem Introduces.readsAsOption (h : Distinct specs)
    (hintroduces : Introduces specs argument switches spec attached) : ReadsAsOption argument := by
  cases hintroduces with
  | @word _ w hspec hword => simpa using readsAsOption_word h hspec hword []
  | wordWith hspec hword v => exact readsAsOption_word h hspec hword _
  | @letter _ c letters _ hswitches hspec hletter =>
    have hdash := head?_letter h hspec hletter []
    exact readsAsOption_letters (by simp) (head?_switches_append h hswitches _ hdash)
  | @letterWith _ c letters v _ hswitches hspec hletter hv =>
    have hdash := head?_letter h hspec hletter v
    exact readsAsOption_letters (by simp) (head?_switches_append h hswitches _ hdash)

theorem readFrom_cons (hoption : ReadsAsOption argument) : readFrom specs options (argument :: rest) =
    readOption specs argument (options, rest) >>= fun next => readFrom specs next.1 next.2 := by
  rw [readFrom, hoption.1, if_neg hoption.2]
  simp only [Bool.not_true, Bool.false_eq_true, if_false]
  split
  · next heq =>
    rw [heq]
    rfl
  · next heq =>
    rw [heq]
    rfl

theorem readFrom_option (hoption : ReadsAsOption argument) {next : Fields OptionValue}
    {more : List Text}
    (h : readOption specs argument (options, rest) = .ok (next, more)) :
    readFrom specs options (argument :: rest) = readFrom specs next more := by
  rw [readFrom_cons hoption, h]
  rfl

end RecordQuery.Arguments
