import RecordQuery.Text.Search

/-!
A line as one row of comma separated fields. A field may be quoted; within the quotes a quote is
written twice, and commas and terminators count as content. What ends a row within the line is not
fixed but read off the line, and a line that holds more than one row is refused.
-/

namespace RecordQuery.Csv

def quote : UInt16 := 34

def comma : UInt16 := 44

-- What ends a row inside a text.
inductive Terminator
  | lineFeed
  | carriageReturn
  | both
  deriving DecidableEq

def Terminator.text : Terminator → Text
  | .lineFeed => [10]
  | .carriageReturn => [13]
  | .both => [13, 10]

-- The text outside quotes; `held` is the reversed text since a quote that may prove unpaired.
def outsideQuotes (held : Option Text) : Text → Text
  | [] =>
    match held with
    | some held => quote :: held.reverse
    | none => []
  | u :: rest =>
    match held with
    | some held => outsideQuotes (if u == quote then none else some (u :: held)) rest
    | none => if u == quote then outsideQuotes (some []) rest else u :: outsideQuotes none rest

-- How much of a text counts when its terminator is looked for.
def sampleLength : Nat := 1048576

-- The terminator that a text outside its quotes speaks for: the line feed if it comes before any
-- carriage return, else the two together if at least half of the pieces between carriage returns
-- start with a line feed.
def Terminator.ofSample (sample : Text) : Terminator :=
  let beforeReturn := sample.takeWhile (· != 13)
  let beforeFeed := sample.takeWhile (· != 10)
  if !Text.contains [13] sample || beforeFeed.length < beforeReturn.length then .lineFeed
  else
    let pieces := Text.split [13] sample
    if pieces.length ≤ 2 * (pieces.filter fun piece => piece.head? == some 10).length then .both
    else .carriageReturn

def Terminator.of (t : Text) : Terminator := .ofSample (outsideQuotes none (t.take sampleLength))

-- What stands after a field.
inductive Ending
  | comma
  | terminator
  | finish
  deriving DecidableEq

-- A field cut off the front of a text, with what stood after it and the text after that.
structure Cut where
  field : Text
  ending : Ending
  rest : Text

-- The text up to the first comma or terminator.
def untilEnding (terminator : Text) : Text → Cut
  | [] => ⟨[], .finish, []⟩
  | u :: rest =>
    if u == comma then ⟨[], .comma, rest⟩
    else if terminator.isPrefixOf (u :: rest) then
      ⟨[], .terminator, (u :: rest).drop terminator.length⟩
    else
      let cut := untilEnding terminator rest
      ⟨u :: cut.field, cut.ending, cut.rest⟩

inductive Fault
  | unterminated
  | malformed
  | rowCount (count : Nat)
  deriving DecidableEq

def Fault.message : Fault → Text
  | .unterminated => "Quoted field unterminated"
  | .malformed => "Trailing quote on quoted field is malformed"
  | .rowCount count => .concat ["expected one row, got ", .ofNat count]

-- The rest of a field after its opening quote; `content` is the reversed content so far. Only blanks
-- may stand between the closing quote and what ends the field, none at the end of the text.
def quotedField (terminator content : Text) : Text → Except Fault Cut
  | [] => .error .unterminated
  | u :: rest =>
    if u == quote then
      match rest with
      | [] => .ok ⟨content.reverse, .finish, []⟩
      | v :: more =>
        if v == quote then quotedField terminator (quote :: content) more
        else
          let cut := untilEnding terminator (v :: more)
          if cut.ending != .finish && cut.field.all Text.isBlank then
            .ok ⟨content.reverse, cut.ending, cut.rest⟩
          else .error .malformed
    else quotedField terminator (u :: content) rest

-- The first field of a text.
def firstField (terminator : Text) : Text → Except Fault Cut
  | [] => .ok ⟨[], .finish, []⟩
  | u :: rest =>
    if u == quote then quotedField terminator [] rest
    else .ok (untilEnding terminator (u :: rest))

theorem untilEnding_length {terminator t : Text} (ht : 0 < terminator.length)
    (h : (untilEnding terminator t).ending ≠ .finish) :
    (untilEnding terminator t).rest.length < t.length := by
  fun_induction untilEnding terminator t with
  | case1 => exact absurd rfl h
  | case2 => simp
  | case3 =>
    simp only [List.length_drop, List.length_cons]
    omega
  | case4 u rest _ _ cut ih => exact Nat.lt_succ_of_lt (ih h)

theorem quotedField_length {terminator content t : Text} {cut : Cut} (ht : 0 < terminator.length)
    (h : quotedField terminator content t = .ok cut) (he : cut.ending ≠ .finish) :
    cut.rest.length < t.length := by
  fun_induction quotedField terminator content t with
  | case1 => cases h
  | case2 =>
    cases h
    exact absurd rfl he
  | case3 content u hu v more hv ih => exact Nat.lt_trans (ih h) (by simp only [List.length_cons]; omega)
  | case4 content u hu v more hv found hf =>
    cases h
    exact Nat.lt_succ_of_lt (untilEnding_length ht he)
  | case5 => cases h
  | case6 content u rest hu ih => exact Nat.lt_succ_of_lt (ih h)

theorem firstField_length {terminator t : Text} {cut : Cut} (ht : 0 < terminator.length)
    (h : firstField terminator t = .ok cut) (he : cut.ending ≠ .finish) :
    cut.rest.length < t.length := by
  unfold firstField at h
  split at h
  · cases h
    exact absurd rfl he
  · split at h
    · exact Nat.lt_succ_of_lt (quotedField_length ht h he)
    · cases h
      exact untilEnding_length ht he

theorem Terminator.text_length (terminator : Terminator) : 0 < terminator.text.length := by
  cases terminator <;> decide

-- The rows of a text, `fields` being the reversed fields of the row under way.
def rowsFrom (terminator : Terminator) (fields : List Text) (t : Text) :
    Except Fault (List (List Text)) :=
  match h : firstField terminator.text t with
  | .error e => .error e
  | .ok ⟨field, .finish, _⟩ => .ok [(field :: fields).reverse]
  | .ok ⟨field, .comma, rest⟩ =>
    have := firstField_length terminator.text_length h (by simp)
    rowsFrom terminator (field :: fields) rest
  | .ok ⟨field, .terminator, rest⟩ =>
    have := firstField_length terminator.text_length h (by simp)
    (rowsFrom terminator [] rest).map fun rows => (field :: fields).reverse :: rows
termination_by t.length

-- A byte order mark in front of a text does not belong to it.
def withoutMark : Text → Text
  | [] => []
  | u :: rest => if u == 0xFEFF then rest else u :: rest

-- The rows of a text; an empty one has none.
def rows (t : Text) : Except Fault (List (List Text)) :=
  let t := withoutMark t
  if t.isEmpty then .ok [] else rowsFrom (.of t) [] t

-- The fields of a line.
def fields (line : Text) : Except Fault (List Text) := do
  match ← rows line with
  | [row] => return row
  | rows => .error (.rowCount rows.length)

end RecordQuery.Csv
