import RecordQuery.Command.Settings
import RecordQuery.Proofs.Command.Spelling

/-!
Whole command lines. Phrases are read one after another, each up to the next, and the line gives what
its phrases give. A phrase only takes something of the next one if it takes integers and the next one
begins with one; then its option has more values than it was given.
-/

namespace RecordQuery.Arguments

variable {specs switches : List OptionSpec} {spec : OptionSpec} {kind : ValueKind}
  {options : Fields OptionValue} {argument letters : Text} {values rest : List Text}
  {attached : Option Text} {c : UInt16}

namespace Phrase

variable {p : Phrase}

-- A phrase begins with an option, and an option that takes integers would go on over the rest of it.
theorem IsSpelled.exists_cons (hp : p.IsSpelled specs) (h : Distinct specs) :
    ∃ argument values, p.arguments = argument :: values ∧ ReadsAsOption argument ∧
      ∀ t ∈ values, standsAsValue .integers t = true := by
  cases hp with
  | @word _ w hspec hkind hword =>
    exact ⟨_, [], rfl, by simpa using readsAsOption_word h hspec hword [], nofun⟩
  | @letters letters _ hswitches hsome =>
    have hdash := head?_switches_append h hswitches [] (by simp)
    rw [List.append_nil] at hdash
    exact ⟨_, [], rfl, readsAsOption_letters hsome hdash, nofun⟩
  | valued hintroduces hkind hmeans hvalues =>
    exact ⟨_, _, rfl, hintroduces.readsAsOption h, fun t ht => standsAsValue_integers (hvalues t ht)⟩

-- What comes after a phrase is left alone by its last option.
def StopsAt (p : Phrase) (rest : List Text) : Prop :=
  ∀ given ∈ p.given.getLast?, ∀ kind, given.1.kind = .valued kind → Stops kind rest

-- A phrase gives its options, and reading goes on after it.
theorem readFrom_append (h : Distinct specs) (hp : p.IsSpelled specs) (hrest : p.StopsAt rest) :
    readFrom specs options (p.arguments ++ rest) =
      readFrom specs (settingAll options p.given) rest := by
  obtain ⟨argument, values, hcons, hoption, -⟩ := hp.exists_cons h
  cases hp with
  | @word spec w hspec hkind hword =>
    cases hcons
    apply readFrom_option hoption
    rw [readOption, readWord_eq h hspec hword, hkind]
    rfl
  | @letters letters switches hswitches hsome =>
    have hdash := head?_switches_append h hswitches [] (by simp)
    have hread := readLetters_switches h hswitches options [] rest
    rw [List.append_nil] at hdash hread
    cases hcons
    apply readFrom_option hoption
    exact (readOption_letters hdash _).trans hread
  | @valued argument switches spec kind attached values value hintroduces hkind hmeans hvalues =>
    have hstops : Stops kind rest := hrest (spec, value) (by simp) kind hkind
    obtain ⟨shown, hread⟩ := readOption_of_introduces h hintroduces hkind options (values ++ rest)
    cases hcons
    apply readFrom_option hoption
    refine hread.trans ?_
    rw [takeValues_of_means hmeans hvalues hstops, settingAll_append]
    rfl

-- An argument that is an option or ends them is a further value only if it is an integer.
theorem stops_cons (hoption : isOption argument = true)
    (hinteger : kind = .integers → ¬∃ x, SpellsInteger argument x) :
    Stops kind (argument :: rest) := by
  intro hmany t ht
  cases ht
  rw [standsAsValue, hoption]
  cases kind with
  | text => rfl
  | integer => cases hmany
  | texts => rfl
  | integers =>
    cases hvalue : Number.isIntegerText argument with
    | false => rfl
    | true => exact absurd (isIntegerText_iff.mp hvalue) (hinteger rfl)

theorem stopsAt_end (p : Phrase) (others : List Text) : p.StopsAt ([45, 45] :: others) := by
  intro given hgiven kind hkind
  refine stops_cons rfl fun _ hinteger => ?_
  have hfalse : Number.isIntegerText [45, 45] = true := isIntegerText_iff.mpr hinteger
  cases hfalse

theorem stopsAt_append {q : Phrase} (h : Distinct specs) (hq : q.IsSpelled specs)
    (hapart : p.takesIntegers → ¬q.startsWithInteger) : p.StopsAt (q.arguments ++ rest) := by
  intro given hgiven kind hkind
  obtain ⟨argument, values, hcons, hoption, -⟩ := hq.exists_cons h
  rw [hcons, List.cons_append]
  refine stops_cons hoption.1 fun hintegers hinteger => ?_
  have htakes : p.takesIntegers := ⟨given, hgiven, by rw [hkind, hintegers]⟩
  exact hapart htakes ⟨argument, by rw [hcons]; rfl, hinteger⟩

-- A line gives the options of its phrases one after another, and everything after its end.
theorem readFrom_line (h : Distinct specs) {line : List Phrase}
    (hline : ∀ p ∈ line, p.IsSpelled specs) (hapart : Apart line) (options : Fields OptionValue) (others : List Text) :
    readFrom specs options (line.flatMap arguments ++ [45, 45] :: others) =
      .ok ⟨settingAll options (line.flatMap given), others⟩ := by
  induction line generalizing options with
  | nil =>
    rw [List.flatMap_nil, List.nil_append, readFrom]
    rfl
  | cons p line ih =>
    obtain ⟨hp, hrest⟩ := List.forall_mem_cons.mp hline
    have hstops : p.StopsAt (line.flatMap arguments ++ [45, 45] :: others) := by
      cases line with
      | nil => exact stopsAt_end p others
      | cons q line =>
        rw [List.flatMap_cons, List.append_assoc]
        exact stopsAt_append h (hrest q List.mem_cons_self) (List.isChain_cons_cons.mp hapart).1
    rw [List.flatMap_cons, List.append_assoc, readFrom_append h hp hstops,
      ih hrest hapart.tail, List.flatMap_cons, settingAll_append]

theorem IsSpelled.mem (hp : p.IsSpelled specs) : ∀ given ∈ p.given, given.1 ∈ specs := by
  have hon : ∀ {letters switches}, SpellsSwitches specs letters switches →
      ∀ given ∈ turnedOn switches, given.1 ∈ specs := fun hswitches given hgiven => by
    obtain ⟨spec, hspec, rfl⟩ := List.mem_map.mp hgiven
    exact (hswitches.forall_mem spec hspec).1
  cases hp with
  | word hspec hkind hword => exact List.forall_mem_singleton.mpr hspec
  | letters hswitches hsome => exact hon hswitches
  | valued hintroduces hkind hmeans hvalues =>
    refine List.forall_mem_append.mpr ⟨?_, List.forall_mem_singleton.mpr ?_⟩
    · cases hintroduces with
      | word hspec hword => exact hon .nil
      | wordWith hspec hword v => exact hon .nil
      | letter hswitches hspec hletter => exact hon hswitches
      | letterWith hswitches hspec hletter hv => exact hon hswitches
    · cases hintroduces <;> assumption

end Phrase

-- What is in effect for an option that is not given.
def initial? (spec : OptionSpec) : Option OptionValue :=
  spec.default.or (if spec.kind = .switch then some (.switch false) else none)

-- What was read is what a line gives: its options, the defaults of the others in the table and
-- nothing else, and the arguments after its end.
structure ReadOf (specs : List OptionSpec) (line : List Phrase) (others : List Text)
    (a : Arguments) : Prop where
  others : a.others = others
  given : ∀ g ∈ line.flatMap Phrase.given, a.options.get? g.1.name = some g.2
  default : ∀ spec ∈ specs, (∀ g ∈ line.flatMap Phrase.given, g.1.name ≠ spec.name) →
    a.options.get? spec.name = initial? spec
  only : ∀ name ∉ specs.map OptionSpec.name, a.options.get? name = none

theorem defaults_eq (specs : List OptionSpec) : defaults specs = Fields.ofEntries
    (specs.filterMap fun spec => (initial? spec).map fun value => (spec.name, value)) := by
  rw [defaults]
  congr 2
  funext spec
  unfold initial?
  cases spec.default <;> cases spec.kind <;> rfl

theorem keys_filterMap_sublist (value? : OptionSpec → Option OptionValue) (specs : List OptionSpec) :
    (Fields.keys (specs.filterMap fun spec =>
      (value? spec).map fun value => (spec.name, value))).Sublist (specs.map OptionSpec.name) := by
  induction specs with
  | nil => exact .slnil
  | cons spec specs ih =>
    cases hvalue : value? spec with
    | none =>
      rw [List.filterMap_cons, hvalue]
      exact ih.cons _
    | some value =>
      rw [List.filterMap_cons, hvalue]
      exact ih.cons_cons _

theorem get?_defaults (h : Distinct specs) (hspec : spec ∈ specs) :
    (defaults specs).get? spec.name = initial? spec := by
  have hnodup := h.names.sublist (keys_filterMap_sublist initial? specs)
  rw [defaults_eq, Fields.ofEntries_eq_self hnodup]
  ext value
  rw [Fields.get?_eq_some_iff hnodup, List.mem_filterMap]
  constructor
  · rintro ⟨found, hfound, heq⟩
    obtain ⟨_, hvalue, hpair⟩ := Option.map_eq_some_iff.mp heq
    obtain ⟨hname, rfl⟩ := Prod.mk.inj hpair
    rwa [List.inj_on_of_nodup_map h.names hfound hspec hname] at hvalue
  · intro hvalue
    exact ⟨spec, hspec, by rw [hvalue]; rfl⟩

theorem get?_defaults_of_notMem (h : Distinct specs) {name : Text}
    (hname : name ∉ specs.map OptionSpec.name) : (defaults specs).get? name = none := by
  have hsublist := keys_filterMap_sublist initial? specs
  rw [defaults_eq, Fields.ofEntries_eq_self (h.names.sublist hsublist), Fields.get?_eq_none_iff]
  exact fun hmem => hname (hsublist.subset hmem)

theorem readOf_settingAll (h : Distinct specs) {line : List Phrase}
    (hline : ∀ p ∈ line, p.IsSpelled specs)
    (hnodup : ((line.flatMap Phrase.given).map fun g => g.1.name).Nodup) (others : List Text) :
    ReadOf specs line others ⟨settingAll (defaults specs) (line.flatMap Phrase.given), others⟩ := by
  rw [← keys_entriesOf] at hnodup
  have hget := Fields.get?_merge_of_nodup hnodup (defaults specs)
  have hnone : ∀ name, (∀ g ∈ line.flatMap Phrase.given, g.1.name ≠ name) →
      (entriesOf (line.flatMap Phrase.given)).get? name = none := fun name hname => by
    rw [Fields.get?_eq_none_iff, keys_entriesOf, List.mem_map]
    rintro ⟨g, hg, heq⟩
    exact hname g hg heq
  refine ⟨rfl, fun g hg => ?_, fun spec hspec hspare => ?_, fun name hname => ?_⟩
  · have hgiven := (Fields.get?_eq_some_iff hnodup).mpr (List.mem_map.mpr ⟨g, hg, rfl⟩)
    rw [settingAll, hget, hgiven]
    rfl
  · rw [settingAll, hget, hnone _ hspare, get?_defaults h hspec]
    rfl
  · have hspare : ∀ g ∈ line.flatMap Phrase.given, g.1.name ≠ name := by
      rintro g hg rfl
      obtain ⟨p, hp, hgp⟩ := List.mem_flatMap.mp hg
      exact hname (List.mem_map.mpr ⟨g.1, (hline p hp).mem g hgp, rfl⟩)
    rw [settingAll, hget, hnone _ hspare, get?_defaults_of_notMem h hname]
    rfl

namespace Phrase

variable {p : Phrase} {line : List Phrase}

-- What would stand as a further value of an option that takes integers goes up to the next phrase.
theorem exists_dropWhile_eq (h : Distinct specs) (hline : ∀ p ∈ line, p.IsSpelled specs)
    (others : List Text) : ∃ later, later <:+ line ∧
      (line.flatMap arguments ++ [45, 45] :: others).dropWhile (standsAsValue .integers) =
        later.flatMap arguments ++ [45, 45] :: others := by
  induction line with
  | nil => exact ⟨[], List.suffix_rfl, rfl⟩
  | cons p line ih =>
    obtain ⟨hp, hrest⟩ := List.forall_mem_cons.mp hline
    obtain ⟨argument, values, hcons, -, hvalues⟩ := hp.exists_cons h
    cases hfirst : standsAsValue .integers argument with
    | false =>
      refine ⟨p :: line, List.suffix_rfl, ?_⟩
      rw [List.flatMap_cons, hcons, List.cons_append, List.cons_append, List.dropWhile_cons, hfirst]
      rfl
    | true =>
      obtain ⟨later, hlater, heq⟩ := ih hrest
      refine ⟨later, hlater.trans (List.suffix_cons p line), ?_⟩
      have hall : ∀ t ∈ p.arguments, standsAsValue .integers t = true := by
        rw [hcons]
        exact List.forall_mem_cons.mpr ⟨hfirst, hvalues⟩
      rw [List.flatMap_cons, List.append_assoc, List.dropWhile_append_of_pos hall, heq]

-- If reading goes well, an option that takes integers has taken all that it could.
theorem readFrom_of_introduces_integers (h : Distinct specs)
    (hintroduces : Introduces specs argument switches spec attached)
    (hkind : spec.kind = .valued .integers)
    (hvalues : ∀ t ∈ values, standsAsValue .integers t = true) {a : Arguments}
    (hread : readFrom specs options (argument :: (values ++ rest)) = .ok a) :
    readFrom specs (settingAll options (turnedOn switches ++ [(spec, .integers
      ((attached.toList ++ (values ++ rest.takeWhile (standsAsValue .integers))).map integerOf))]))
        (rest.dropWhile (standsAsValue .integers)) = .ok a := by
  obtain ⟨shown, hoption⟩ := readOption_of_introduces h hintroduces hkind options (values ++ rest)
  have htake : takeValues spec .integers shown attached
      (settingAll options (turnedOn switches), values ++ rest) =
        (interpret .integers shown
          (attached.toList ++ (values ++ rest.takeWhile (standsAsValue .integers)))).map fun value =>
            ((settingAll options (turnedOn switches)).set spec.name value,
              rest.dropWhile (standsAsValue .integers)) := by
    rw [takeValues, valuesOf_many rfl hvalues]
  rw [readFrom_cons (hintroduces.readsAsOption h), hoption, htake] at hread
  cases hvalue : interpret .integers shown
      (attached.toList ++ (values ++ rest.takeWhile (standsAsValue .integers))) with
  | error e =>
    rw [hvalue] at hread
    cases hread
  | ok value =>
    rw [hvalue, interpret_integers hvalue] at hread
    rw [settingAll_append]
    exact hread

theorem IsSpelled.exists_of_takesIntegers (hp : p.IsSpelled specs) (htakes : p.takesIntegers) :
    ∃ argument switches spec attached values xs,
      p = ⟨argument :: values, turnedOn switches ++ [(spec, .integers xs)]⟩ ∧
      Introduces specs argument switches spec attached ∧ spec.kind = .valued .integers ∧
      List.Forall₂ SpellsInteger (attached.toList ++ values) xs ∧
      ∀ t ∈ values, StandsAlone .integers t := by
  obtain ⟨given, hgiven, hintegers⟩ := htakes
  cases hp with
  | @word spec _ hspec hkind hword =>
    obtain rfl : (spec, .switch true) = given := Option.some_inj.mp hgiven
    rw [hkind] at hintegers
    cases hintegers
  | letters hswitches hsome =>
    obtain ⟨spec, hspec, rfl⟩ := List.mem_map.mp (List.mem_of_getLast? hgiven)
    rw [(hswitches.forall_mem spec hspec).2] at hintegers
    cases hintegers
  | @valued argument switches spec kind attached values value hintroduces hkind hmeans hvalues =>
    rw [List.getLast?_concat] at hgiven
    cases hgiven
    rw [hkind] at hintegers
    cases hintegers
    cases hmeans with
    | integers hsome hxs => exact ⟨_, _, _, _, _, _, rfl, hintroduces, hkind, hxs, hvalues⟩

-- A phrase that takes integers in front of one that starts with an integer has taken more of them, up
-- to some later phrase.
theorem readFrom_of_takesIntegers {q : Phrase} (h : Distinct specs) (hp : p.IsSpelled specs)
    (hline : ∀ r ∈ q :: line, r.IsSpelled specs) (htakes : p.takesIntegers)
    (hq : q.startsWithInteger) {others : List Text} {a : Arguments}
    (hread : readFrom specs options
      (p.arguments ++ ((q :: line).flatMap arguments ++ [45, 45] :: others)) = .ok a) :
    ∃ before spec xs more later, p.given = before ++ [(spec, .integers xs)] ∧ more ≠ [] ∧
      later <:+ q :: line ∧
      readFrom specs (settingAll options (before ++ [(spec, .integers (xs ++ more))]))
        (later.flatMap arguments ++ [45, 45] :: others) = .ok a := by
  obtain ⟨argument, switches, spec, attached, values, xs, rfl, hintroduces, hkind, hxs,
    hvalues⟩ := hp.exists_of_takesIntegers htakes
  have hread' := readFrom_of_introduces_integers h hintroduces hkind
    (fun t ht => standsAsValue_integers (hvalues t ht)) hread
  obtain ⟨later, hlater, hdrop⟩ := exists_dropWhile_eq h hline others
  rw [hdrop, ← List.append_assoc, List.map_append, map_integerOf_eq hxs] at hread'
  refine ⟨_, spec, xs, _, later, rfl, ?_, hlater, hread'⟩
  obtain ⟨t, ht, hinteger⟩ := hq
  have hstand : standsAsValue .integers t = true :=
    standsAsValue_iff.mpr fun _ => .inr ⟨rfl, hinteger⟩
  obtain ⟨ts, hts⟩ := List.head?_eq_some_iff.mp ht
  rw [List.flatMap_cons, hts, List.cons_append, List.cons_append, List.takeWhile_cons_of_pos hstand]
  exact List.cons_ne_nil _ _

-- One phrase is read as it is meant, or else it takes integers and has taken more of them.
theorem readFrom_cases (h : Distinct specs) (hp : p.IsSpelled specs)
    (hline : ∀ q ∈ line, q.IsSpelled specs) {others : List Text} {a : Arguments}
    (hread : readFrom specs options ((p :: line).flatMap arguments ++ [45, 45] :: others) = .ok a) :
    ((Apart line → Apart (p :: line)) ∧ readFrom specs (settingAll options p.given)
      (line.flatMap arguments ++ [45, 45] :: others) = .ok a) ∨
    ∃ before spec xs more later, p.given = before ++ [(spec, .integers xs)] ∧ more ≠ [] ∧
      later <:+ line ∧
      readFrom specs (settingAll options (before ++ [(spec, .integers (xs ++ more))]))
        (later.flatMap arguments ++ [45, 45] :: others) = .ok a := by
  rw [List.flatMap_cons, List.append_assoc] at hread
  cases line with
  | nil =>
    left
    rw [List.flatMap_nil, List.nil_append] at hread ⊢
    rw [readFrom_append h hp (stopsAt_end p others)] at hread
    exact ⟨fun _ => List.isChain_singleton p, hread⟩
  | cons q line =>
    by_cases hapart : p.takesIntegers → ¬q.startsWithInteger
    · left
      refine ⟨fun hchain => List.isChain_cons_cons.mpr ⟨hapart, hchain⟩, ?_⟩
      rw [List.flatMap_cons, List.append_assoc] at hread ⊢
      rwa [readFrom_append h hp (stopsAt_append h (hline q List.mem_cons_self) hapart)] at hread
    · rw [Classical.not_imp, not_not] at hapart
      exact .inr (readFrom_of_takesIntegers h hp hline hapart.1 hapart.2 hread)

-- However a line is read, if it goes well only options of its phrases have been set.
theorem get?_readFrom (h : Distinct specs) (line : List Phrase)
    (hline : ∀ p ∈ line, p.IsSpelled specs) {others : List Text} {a : Arguments} {name : Text}
    (hname : ∀ g ∈ line.flatMap given, g.1.name ≠ name) (options : Fields OptionValue)
    (hread : readFrom specs options (line.flatMap arguments ++ [45, 45] :: others) = .ok a) :
    a.options.get? name = options.get? name := by
  induction hlength : line.length using Nat.strong_induction_on generalizing line options with
  | _ n ih =>
    cases line with
    | nil =>
      rw [List.flatMap_nil, List.nil_append, readFrom] at hread
      cases hread
      rfl
    | cons p line =>
      obtain ⟨hp, hrest⟩ := List.forall_mem_cons.mp hline
      rw [List.flatMap_cons, List.forall_mem_append] at hname
      rcases readFrom_cases h hp hrest hread with
        ⟨-, hnext⟩ | ⟨before, spec, xs, more, later, hgiven, -, hlater, hnext⟩
      · rw [ih line.length (by simp [← hlength]) line hrest hname.2 _ hnext rfl,
          get?_settingAll_of_notMem hname.1]
      · have hlater' : ∀ g ∈ later.flatMap Phrase.given, g.1.name ≠ name := fun g hg =>
          hname.2 g ((hlater.flatMap Phrase.given).subset hg)
        have hset : ∀ g ∈ before ++ [(spec, OptionValue.integers (xs ++ more))],
            g.1.name ≠ name := by
          rw [hgiven, List.forall_mem_append] at hname
          have hlast := hname.1.2 (spec, .integers xs) List.mem_cons_self
          exact List.forall_mem_append.mpr ⟨hname.1.1, List.forall_mem_singleton.mpr hlast⟩
        have hshorter : later.length < n := by
          have hle := hlater.length_le
          rw [List.length_cons] at hlength
          omega
        have hspelled : ∀ q ∈ later, q.IsSpelled specs := fun q hq => hrest q (hlater.subset hq)
        rw [ih later.length hshorter later hspelled hlater' _ hnext rfl,
          get?_settingAll_of_notMem hset]

end Phrase

-- The converse: a line that is read as it is meant is kept apart.
theorem apart_of_readOf (h : Distinct specs) {line : List Phrase}
    (hline : ∀ p ∈ line, p.IsSpelled specs)
    (hnodup : ((line.flatMap Phrase.given).map fun g => g.1.name).Nodup) {others : List Text}
    {a : Arguments} {options : Fields OptionValue}
    (hread : readFrom specs options (line.flatMap Phrase.arguments ++ [45, 45] :: others) = .ok a)
    (hgiven : ∀ g ∈ line.flatMap Phrase.given, a.options.get? g.1.name = some g.2) :
    Phrase.Apart line := by
  induction line generalizing options with
  | nil => exact .nil
  | cons p line ih =>
    obtain ⟨hp, hrest⟩ := List.forall_mem_cons.mp hline
    rw [List.flatMap_cons, List.map_append, List.nodup_append] at hnodup
    rw [List.flatMap_cons, List.forall_mem_append] at hgiven
    rcases Phrase.readFrom_cases h hp hrest hread with
      ⟨hapart, hnext⟩ | ⟨before, spec, xs, more, later, heq, hmore, hlater, hnext⟩
    · exact hapart (ih hrest hnodup.2.1 hnext hgiven.2)
    · -- the option has more values than it was given, and no later phrase sets it again
      have hlast : (spec, OptionValue.integers xs) ∈ p.given := by
        rw [heq]
        exact List.mem_append_right _ List.mem_cons_self
      have hname : ∀ g ∈ later.flatMap Phrase.given, g.1.name ≠ spec.name := fun g hg hname =>
        hnodup.2.2 spec.name (List.mem_map.mpr ⟨_, hlast, rfl⟩) g.1.name
          (List.mem_map.mpr ⟨g, (hlater.flatMap Phrase.given).subset hg, rfl⟩) hname.symm
      have hspelled : ∀ q ∈ later, q.IsSpelled specs := fun q hq => hrest q (hlater.subset hq)
      have hget := Phrase.get?_readFrom h later hspelled hname _ hnext
      rw [hgiven.1 _ hlast, settingAll_append, settingAll, entriesOf, List.map_singleton,
        Fields.merge, List.foldl_cons, List.foldl_nil, Fields.get?_set, if_pos rfl, Option.some_inj,
        OptionValue.integers.injEq, List.self_eq_append_right] at hget
      exact absurd hget hmore

-- After the dash of a phrase comes another dash or the letter of an option.
theorem SpellsSwitches.exists_cons_append (hswitches : SpellsSwitches specs letters switches)
    (hspec : spec ∈ specs) (hletter : spec.letter = some [c]) (following : Text) :
    ∃ u rest, letters ++ c :: following = u :: rest ∧ ∃ spec ∈ specs, spec.letter = some [u] := by
  cases hswitches with
  | nil => exact ⟨c, following, rfl, spec, hspec, hletter⟩
  | cons hfirst _ hfirstLetter _ => exact ⟨_, _, rfl, _, hfirst, hfirstLetter⟩

theorem Phrase.IsSpelled.exists_letter {p : Phrase} (hp : p.IsSpelled specs) :
    ∃ u rest, p.arguments.head? = some (45 :: u :: rest) ∧
      (u = 45 ∨ ∃ spec ∈ specs, spec.letter = some [u]) := by
  cases hp with
  | word hspec hkind hword => exact ⟨45, _, rfl, .inl rfl⟩
  | letters hswitches hsome =>
    cases hswitches with
    | nil => exact absurd rfl hsome
    | cons hspec _ hletter _ => exact ⟨_, _, rfl, .inr ⟨_, hspec, hletter⟩⟩
  | valued hintroduces hkind hmeans hvalues =>
    cases hintroduces with
    | word hspec hword => exact ⟨45, _, rfl, .inl rfl⟩
    | wordWith hspec hword v => exact ⟨45, _, rfl, .inl rfl⟩
    | letter hswitches hspec hletter =>
      obtain ⟨u, rest, heq, hu⟩ := hswitches.exists_cons_append hspec hletter []
      exact ⟨u, rest, by rw [List.head?_cons, heq], .inr hu⟩
    | letterWith hswitches hspec hletter hv =>
      obtain ⟨u, rest, heq, hu⟩ := hswitches.exists_cons_append hspec hletter _
      exact ⟨u, rest, by rw [List.head?_cons, heq], .inr hu⟩

-- Where no letter is a digit, no phrase begins with an integer.
theorem apart_of_letters
    (hletters : ∀ spec ∈ specs, ∀ t ∈ spec.letter, t.all Text.isDigit = false) {line : List Phrase}
    (hline : ∀ p ∈ line, p.IsSpelled specs) : Phrase.Apart line := by
  have hfirst : ∀ p ∈ line, ¬p.startsWithInteger := by
    rintro p hp ⟨t, ht, hinteger⟩
    obtain ⟨u, rest, hhead, hu⟩ := (hline p hp).exists_letter
    cases hhead.symm.trans ht
    have hdigit : Text.isDigit u = true := by
      have h := isIntegerText_iff.mpr hinteger
      simp only [Number.isIntegerText, List.head?_cons, List.drop_one, List.tail_cons,
        beq_self_eq_true, Bool.or_true, if_true, List.all_cons, Bool.and_eq_true] at h
      exact h.2.1
    rcases hu with rfl | ⟨spec, hspec, hletter⟩
    · cases hdigit
    · have hnone := hletters spec hspec [u] hletter
      rw [List.all_cons, hdigit] at hnone
      cases hnone
  refine List.isChain_iff_forall_rel_of_append_cons_cons.mpr fun p q before after heq _ => ?_
  exact hfirst q (by simp [heq])

-- The options of the command can be told apart, and none of their letters is a digit.
theorem distinct_options : Distinct Settings.options where
  names := by decide
  letters := by decide
  words := by decide
  letter := by decide
  word := by decide

theorem letters_options :
    ∀ spec ∈ Settings.options, ∀ t ∈ spec.letter, t.all Text.isDigit = false := by
  decide

-- A line is read as it is meant just if no phrase that takes integers comes before one that begins
-- with an integer.
theorem read_line_iff_apart (h : Distinct specs) {line : List Phrase}
    (hline : ∀ p ∈ line, p.IsSpelled specs)
    (hnodup : ((line.flatMap Phrase.given).map fun g => g.1.name).Nodup) (others : List Text) :
    (∃ a, read specs (line.flatMap Phrase.arguments ++ [45, 45] :: others) = .ok a ∧
      ReadOf specs line others a) ↔ Phrase.Apart line := by
  constructor
  · rintro ⟨a, hread, ha⟩
    exact apart_of_readOf h hline hnodup hread ha.given
  · intro hapart
    exact ⟨_, Phrase.readFrom_line h hline hapart _ others, readOf_settingAll h hline hnodup others⟩

-- Two switches and columns under one dash, one more column, and a limit.
def columnsLine : List Phrase :=
  [⟨["-cdk0", "-1"], turnedOn [Settings.option "compact" "c" "compact" .switch,
      Settings.option "distinct" "d" "distinct" .switch] ++
        [(Settings.option "keyColumns" "k" "key_columns" (.valued .integers),
          .integers [.ofRat false (0 : ℕ), .ofRat true (1 : ℕ)])]⟩,
    ⟨["--limit=5"], turnedOn [] ++
      [(Settings.option "limit" "l" "limit" (.valued .integer), .integer (.ofRat false (5 : ℕ)))]⟩]

theorem isSpelled_columnsLine : ∀ p ∈ columnsLine, p.IsSpelled Settings.options := by
  have hcompact : Settings.option "compact" "c" "compact" .switch ∈ Settings.options := by
    simp [Settings.options]
  have hdistinct : Settings.option "distinct" "d" "distinct" .switch ∈ Settings.options := by
    simp [Settings.options]
  have hcolumns : Settings.option "keyColumns" "k" "key_columns" (.valued .integers) ∈
      Settings.options := by
    simp [Settings.options]
  have hlimit : Settings.option "limit" "l" "limit" (.valued .integer) ∈ Settings.options := by
    simp [Settings.options]
  have hzero : SpellsInteger "0" (.ofRat false (0 : ℕ)) :=
    spellsInteger_digit [] (by decide) 0
  have hone : SpellsInteger "-1" (.ofRat true (1 : ℕ)) :=
    spellsInteger_digit "-" (by decide) 1
  have hfive : SpellsInteger "5" (.ofRat false (5 : ℕ)) :=
    spellsInteger_digit [] (by decide) 5
  have hletters : SpellsSwitches Settings.options "cd" [
      Settings.option "compact" "c" "compact" .switch,
      Settings.option "distinct" "d" "distinct" .switch] :=
    .cons hcompact rfl rfl (.cons hdistinct rfl rfl .nil)
  refine List.forall_mem_cons.mpr ⟨?_, List.forall_mem_singleton.mpr ?_⟩
  · have hintroduces := @Introduces.letterWith _ _ _ _ "0" _ hletters hcolumns rfl (by decide)
    exact .valued hintroduces rfl (.integers (by decide) (.cons hzero (.cons hone .nil)))
      (List.forall_mem_singleton.mpr fun _ => .inr ⟨rfl, _, hone⟩)
  · exact .valued (.wordWith hlimit rfl "5") rfl (.integer hfive) nofun

theorem read_line_iff_apart_columns :
    ((columnsLine.flatMap Phrase.given).map fun g => g.1.name).Nodup ∧
      ∃ a, read Settings.options ["-cdk0", "-1", "--limit=5", "--", "-x"] = .ok a ∧
        ReadOf Settings.options columnsLine ["-x"] a := by
  have hnodup : ((columnsLine.flatMap Phrase.given).map fun g => g.1.name).Nodup := by
    decide
  exact ⟨hnodup, (read_line_iff_apart distinct_options isSpelled_columnsLine hnodup ["-x"]).mpr
    (apart_of_letters letters_options isSpelled_columnsLine)⟩

-- A switch whose letter is a digit, after an option that takes integers.
def digitOptions : List OptionSpec :=
  [⟨"keys", some "k", none, .valued .integers, none⟩, ⟨"five", some "5", none, .switch, none⟩]

def digitLine : List Phrase :=
  [⟨["-k", "0"], turnedOn [] ++
      [(⟨"keys", some "k", none, .valued .integers, none⟩, .integers [.ofRat false (0 : ℕ)])]⟩,
    ⟨["-5"], turnedOn [⟨"five", some "5", none, .switch, none⟩]⟩]

theorem isSpelled_digitLine : ∀ p ∈ digitLine, p.IsSpelled digitOptions := by
  have hkeys : (⟨"keys", some "k", none, .valued .integers, none⟩ : OptionSpec) ∈ digitOptions := by
    simp [digitOptions]
  have hfive : (⟨"five", some "5", none, .switch, none⟩ : OptionSpec) ∈ digitOptions := by
    simp [digitOptions]
  have hzero : SpellsInteger "0" (.ofRat false (0 : ℕ)) :=
    spellsInteger_digit [] (by decide) 0
  refine List.forall_mem_cons.mpr ⟨?_, List.forall_mem_singleton.mpr ?_⟩
  · exact .valued (.letter .nil hkeys rfl) rfl (.integers (by decide) (.cons hzero .nil))
      (List.forall_mem_singleton.mpr fun hdash => by cases hdash)
  · exact .letters (.cons hfive rfl rfl .nil) (by decide)

theorem not_forall_line_read : ¬∀ (specs : List OptionSpec) (line : List Phrase) (others : List Text),
    Distinct specs → (∀ p ∈ line, p.IsSpelled specs) →
      ((line.flatMap Phrase.given).map fun g => g.1.name).Nodup →
        ∃ a, read specs (line.flatMap Phrase.arguments ++ [45, 45] :: others) = .ok a ∧
          ReadOf specs line others a := by
  intro hall
  have hdistinct : Distinct digitOptions :=
    ⟨by decide, by decide, by decide, by decide, by decide⟩
  have hnodup : ((digitLine.flatMap Phrase.given).map fun g => g.1.name).Nodup := by
    decide
  obtain ⟨a, hread, ha⟩ := hall digitOptions digitLine ["x"] hdistinct isSpelled_digitLine hnodup
  have hapart := apart_of_readOf hdistinct isSpelled_digitLine hnodup hread ha.given
  have hinteger : SpellsInteger "-5" (.ofRat true (5 : ℕ)) :=
    spellsInteger_digit "-" (by decide) 5
  exact (List.isChain_cons_cons.mp hapart).1 ⟨_, rfl, rfl⟩ ⟨_, rfl, _, hinteger⟩

end RecordQuery.Arguments
