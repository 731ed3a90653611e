import RecordQuery.Number.Basic
import RecordQuery.Text.Quoted
import RecordQuery.Value.Fields

/-!
Arguments of a command. An option is named by one letter after a dash or by a word after two; letters
of options that take no value may share a dash. An option that takes a value finds it after the
letter, after an equals sign or in the next argument, and one that takes several goes on up to the
next option. After two dashes alone nothing is an option.
-/

namespace RecordQuery

-- What values an option takes.
inductive ValueKind
  | text
  | integer
  | texts
  | integers
  deriving DecidableEq

inductive OptionKind
  | switch
  | valued (kind : ValueKind)
  deriving DecidableEq

inductive OptionValue
  | switch (on : Bool)
  | text (t : Text)
  | integer (x : Double)
  | texts (ts : List Text)
  | integers (xs : List Double)

-- An option with its letter and its word, either of which may be absent.
structure OptionSpec where
  name : Text
  letter : Option Text
  word : Option Text
  kind : OptionKind
  default : Option OptionValue

-- The options that were set, by name, and the other arguments.
structure Arguments where
  options : Fields OptionValue
  others : List Text

inductive ArgumentError
  | unknown (option : Text)
  | valueMissing (option : Text)
  | valueRefused (option : Text)
  | notInteger (option value : Text)

namespace ArgumentError

def message : ArgumentError → Text
  | .unknown (45 :: 45 :: word) => .concat ["unrecognized option '--", word, "'"]
  | .unknown (45 :: letter) => .concat ["invalid option -- '", letter, "'"]
  | .unknown option => .concat ["invalid option -- '", option, "'"]
  | .valueMissing option => .concat ["option '", option, "' requires an argument"]
  | .valueRefused option => .concat ["option '", option, "' doesn't allow an argument"]
  | .notInteger option value =>
    .concat ["option '", option, "' expects an integer, got '", value, "'"]

end ArgumentError

namespace ValueKind

def isNumeric : ValueKind → Bool
  | .integer => true
  | .integers => true
  | _ => false

-- Whether an option takes several values.
def isMany : ValueKind → Bool
  | .texts => true
  | .integers => true
  | _ => false

end ValueKind

namespace Arguments

-- Whether an argument looks like an option. A dash alone does not.
def isOption (argument : Text) : Bool :=
  match argument with
  | [45] => false
  | 45 :: _ => true
  | _ => false

-- Whether an argument can be the value of the option before it.
def standsAsValue (kind : ValueKind) (argument : Text) : Bool :=
  !isOption argument || (kind.isNumeric && Number.isIntegerText argument)

-- The values of an option, the first of which may have come with it, and the arguments after them.
def valuesOf (kind : ValueKind) (attached : Option Text) (rest : List Text) :
    List Text × List Text :=
  if kind.isMany then
    (attached.toList ++ rest.takeWhile (standsAsValue kind), rest.dropWhile (standsAsValue kind))
  else
    match attached, rest with
    | some value, rest => ([value], rest)
    | none, value :: more => if standsAsValue kind value then ([value], more) else ([], value :: more)
    | none, [] => ([], [])

-- The double nearest to the integer that a text spells; zero keeps its sign.
def integerOf (t : Text) : Double :=
  .ofFraction (t.head? == some 45) (Number.integerValue t).natAbs 1

-- What the values of an option mean.
def interpret (kind : ValueKind) (option : Text) (values : List Text) :
    Except ArgumentError OptionValue :=
  match values with
  | [] => .error (.valueMissing option)
  | first :: _ =>
    if kind.isNumeric then
      match values.find? fun value => !Number.isIntegerText value with
      | some value => .error (.notInteger option value)
      | none =>
        .ok (if kind.isMany then .integers (values.map integerOf) else .integer (integerOf first))
    else .ok (if kind.isMany then .texts values else .text first)

-- The options set so far and the arguments still to be read.
abbrev State := Fields OptionValue × List Text

-- An option that takes values, shown as it was written.
def takeValues (spec : OptionSpec) (kind : ValueKind) (shown : Text) (attached : Option Text)
    (state : State) : Except ArgumentError State :=
  let (values, rest) := valuesOf kind attached state.2
  (interpret kind shown values).map fun value => (state.1.set spec.name value, rest)

-- The last option in a table with the given letter.
def withLetter? (specs : List OptionSpec) (letter : UInt16) : Option OptionSpec :=
  specs.reverse.find? fun spec => spec.letter == some [letter]

-- The last option in a table with the given word.
def withWord? (specs : List OptionSpec) (word : Text) : Option OptionSpec :=
  if word.isEmpty then none else specs.reverse.find? fun spec => spec.word == some word

-- An option by its word, which may have a value attached after an equals sign.
def readWord (specs : List OptionSpec) (body : Text) (state : State) :
    Except ArgumentError State :=
  let word := body.takeWhile (· != 61)
  let attached := (body.dropWhile (· != 61)).tail?
  let shown := 45 :: 45 :: word
  match withWord? specs word with
  | none => .error (.unknown (45 :: 45 :: body))
  | some spec =>
    match spec.kind with
    | .valued kind => takeValues spec kind shown attached state
    | .switch =>
      if attached.isSome then .error (.valueRefused shown)
      else .ok (state.1.set spec.name (.switch true), state.2)

-- Options by their letters. What follows the letter of an option that takes a value is that value.
def readLetters (specs : List OptionSpec) : Text → State → Except ArgumentError State
  | [], state => .ok state
  | letter :: rest, state =>
    match withLetter? specs letter with
    | none => .error (.unknown [45, letter])
    | some spec =>
      match spec.kind with
      | .switch => readLetters specs rest (state.1.set spec.name (.switch true), state.2)
      | .valued kind =>
        takeValues spec kind [45, letter] (if rest.isEmpty then none else some rest) state

-- One argument that looks like an option.
def readOption (specs : List OptionSpec) (argument : Text) (state : State) :
    Except ArgumentError State :=
  match argument with
  | 45 :: 45 :: body => readWord specs body state
  | _ => readLetters specs (argument.drop 1) state

theorem takeValues_length {spec : OptionSpec} {kind : ValueKind} {shown : Text}
    {attached : Option Text} {state next : State}
    (h : takeValues spec kind shown attached state = .ok next) :
    next.2.length ≤ state.2.length := by
  have shorter : (valuesOf kind attached state.2).2.length ≤ state.2.length := by
    unfold valuesOf
    split
    · exact (List.dropWhile_suffix _).length_le
    · split
      · simp
      · split <;> simp_all
      · simp_all
  unfold takeValues at h
  cases hv : interpret kind shown (valuesOf kind attached state.2).1 with
  | error e => simp [hv, Except.map] at h
  | ok value =>
    simp only [hv, Except.map, Except.ok.injEq] at h
    subst h
    exact shorter

theorem readWord_length {specs : List OptionSpec} {body : Text} {state next : State}
    (h : readWord specs body state = .ok next) : next.2.length ≤ state.2.length := by
  unfold readWord at h
  dsimp only at h
  split at h
  · cases h
  · split at h
    · exact takeValues_length h
    · split at h
      · cases h
      · cases h
        exact Nat.le_refl _

theorem readLetters_length {specs : List OptionSpec} {letters : Text} {state next : State}
    (h : readLetters specs letters state = .ok next) : next.2.length ≤ state.2.length := by
  fun_induction readLetters specs letters state with
  | case1 =>
    cases h
    exact Nat.le_refl _
  | case2 => cases h
  | case3 letter rest state spec _ _ ih => exact ih h
  | case4 => exact takeValues_length h

theorem readOption_length {specs : List OptionSpec} {argument : Text} {state next : State}
    (h : readOption specs argument state = .ok next) : next.2.length ≤ state.2.length := by
  unfold readOption at h
  split at h
  · exact readWord_length h
  · exact readLetters_length h

-- The arguments that follow options already set.
def readFrom (specs : List OptionSpec) (options : Fields OptionValue) :
    List Text → Except ArgumentError Arguments
  | [] => .ok ⟨options, []⟩
  | argument :: rest =>
    if !isOption argument then
      (readFrom specs options rest).map fun a => ⟨a.options, argument :: a.others⟩
    else if argument = [45, 45] then .ok ⟨options, rest⟩
    else
      match h : readOption specs argument (options, rest) with
      | .error e => .error e
      | .ok (options, more) =>
        have : more.length ≤ rest.length := readOption_length h
        readFrom specs options more
termination_by arguments => arguments.length

-- The options that have a value before any argument is read: switches are off unless told otherwise.
def defaults (specs : List OptionSpec) : Fields OptionValue :=
  Fields.ofEntries (specs.filterMap fun spec =>
    match spec.default, spec.kind with
    | some value, _ => some (spec.name, value)
    | none, .switch => some (spec.name, .switch false)
    | none, .valued _ => none)

-- The arguments of a command with the given options.
def read (specs : List OptionSpec) (arguments : List Text) : Except ArgumentError Arguments :=
  readFrom specs (defaults specs) arguments

-- Whether a switch is on.
def isOn (a : Arguments) (name : Text) : Bool :=
  match a.options.get? name with
  | some (.switch on) => on
  | _ => false

def text? (a : Arguments) (name : Text) : Option Text :=
  match a.options.get? name with
  | some (.text t) => some t
  | _ => none

def texts? (a : Arguments) (name : Text) : Option (List Text) :=
  match a.options.get? name with
  | some (.texts ts) => some ts
  | _ => none

def integer? (a : Arguments) (name : Text) : Option Double :=
  match a.options.get? name with
  | some (.integer x) => some x
  | _ => none

def integers? (a : Arguments) (name : Text) : Option (List Double) :=
  match a.options.get? name with
  | some (.integers xs) => some xs
  | _ => none

end Arguments

end RecordQuery
