import RecordQuery.Proofs.Json.Reader
import RecordQuery.Proofs.Json.RoundTrip

/-!
The grammar of documents as runs of tokens, and the reader against it. What is read is the value of a
run that the grammar has, and every such run is read: the containers that wait on the stack stand for
the tokens before, each for its bracket and what was complete in it.
-/

namespace RecordQuery.Json

variable {s s' : State} {stack : List Frame} {token : Token} {tokens rest : List Token}
  {v w : Value} {name : Text}

-- Runs of tokens with a comma between each two.
def separated : List (List Token) → List Token
  | [] => []
  | first :: more => first ++ more.flatMap (.comma :: ·)

-- A run of tokens in an array, and the value that it stands for.
structure Item where
  tokens : List Token
  value : Value

-- A member of an object: its name, and the run of tokens behind the colon with its value.
structure Member extends Item where
  name : Text

def Member.run (m : Member) : List Token := .text m.name :: .colon :: m.tokens

def Member.entry (m : Member) : Text × Value := (m.name, m.value)

def arrayRun (items : List Item) : List Token :=
  .leftBracket :: (separated (items.map Item.tokens) ++ [.rightBracket])

def objectRun (members : List Member) : List Token :=
  .leftBrace :: (separated (members.map Member.run) ++ [.rightBrace])

-- The tokens of a document and its value. Members of one name make one field.
inductive Document : List Token → Value → Prop
  | null : Document [.null] .null
  | bool (b : Bool) : Document [.bool b] (.bool b)
  | number (n : Number) : Document [.number n] (.number n)
  | text (t : Text) : Document [.text t] (.text t)
  | list (items : List Item) (h : ∀ i ∈ items, Document i.tokens i.value) :
    Document (arrayRun items) (.list (items.map Item.value))
  | object (members : List Member) (h : ∀ m ∈ members, Document m.tokens m.value) :
    Document (objectRun members) (.object (Fields.ofEntries (members.map Member.entry)))

theorem run_cons (h : step s token = some s') : run s (token :: rest) = run s' rest := by
  rw [run, List.foldlM_cons, h]
  rfl

section complete

-- The run is taken for its value wherever a value is due.
def Runs (tokens : List Token) (v : Value) : Prop :=
  ∀ s stack rest, Awaits s stack → run s (tokens ++ rest) = run (.after v stack) rest

theorem runs_constant (hv : Constant token v) : Runs [token] v :=
  fun _ _ _ hs => run_cons (Steps.constant hs hv).step_eq

-- The items after one that is complete, up to the bracket.
theorem run_items {items : List Item} {before : List Value}
    (h : ∀ i ∈ items, Runs i.tokens i.value) :
    run (.after w (.item before :: stack))
        ((items.map Item.tokens).flatMap (.comma :: ·) ++ .rightBracket :: rest) =
      run (.after (.list ((w :: before).reverse ++ items.map Item.value)) stack) rest := by
  induction items generalizing w before with
  | nil =>
    rw [List.map_nil, List.map_nil, List.append_nil]
    exact run_cons rfl
  | cons i items ih =>
    obtain ⟨hi, hitems⟩ := List.forall_mem_cons.mp h
    rw [List.map_cons, List.flatMap_cons, List.append_assoc, List.cons_append, run_cons rfl,
      hi _ _ _ (.value _), ih hitems, List.reverse_cons, List.append_assoc]
    rfl

theorem runs_list {items : List Item} (h : ∀ i ∈ items, Runs i.tokens i.value) :
    Runs (arrayRun items) (.list (items.map Item.value)) := by
  intro s stack rest hs
  have hopen : step s .leftBracket = some (.opened stack) := (Steps.openArray hs).step_eq
  rw [arrayRun, List.cons_append, run_cons hopen, List.append_assoc]
  cases items with
  | nil => exact run_cons rfl
  | cons i items =>
    obtain ⟨hi, hitems⟩ := List.forall_mem_cons.mp h
    rw [List.map_cons, separated, List.append_assoc, hi _ _ _ (.opened _)]
    exact run_items hitems

theorem run_member {m : Member} {before : List (Text × Value)} {empty : Bool}
    (h : Runs m.tokens m.value) :
    run (.name before empty stack) (m.run ++ rest) =
      run (.after m.value (.member before m.name :: stack)) rest := by
  have hname : step (.name before empty stack) (.text m.name) =
      some (.colon before m.name stack) := (Steps.memberName ..).step_eq
  rw [Member.run, List.cons_append, run_cons hname, List.cons_append, run_cons rfl]
  exact h _ _ _ (.value _)

-- The members after one that is complete, up to the brace.
theorem run_members {members : List Member} {before : List (Text × Value)}
    (h : ∀ m ∈ members, Runs m.tokens m.value) :
    run (.after w (.member before name :: stack))
        ((members.map Member.run).flatMap (.comma :: ·) ++ .rightBrace :: rest) =
      run (.after (.object (Fields.ofEntries
        (((name, w) :: before).reverse ++ members.map Member.entry))) stack) rest := by
  induction members generalizing w name before with
  | nil =>
    rw [List.map_nil, List.map_nil, List.append_nil]
    exact run_cons rfl
  | cons m members ih =>
    obtain ⟨hm, hmembers⟩ := List.forall_mem_cons.mp h
    rw [List.map_cons, List.flatMap_cons, List.append_assoc, List.cons_append, run_cons rfl,
      run_member hm, ih hmembers, List.reverse_cons, List.append_assoc]
    rfl

theorem runs_object {members : List Member} (h : ∀ m ∈ members, Runs m.tokens m.value) :
    Runs (objectRun members) (.object (Fields.ofEntries (members.map Member.entry))) := by
  intro s stack rest hs
  have hopen : step s .leftBrace = some (.name [] true stack) := (Steps.openObject hs).step_eq
  rw [objectRun, List.cons_append, run_cons hopen, List.append_assoc]
  cases members with
  | nil => exact run_cons rfl
  | cons m members =>
    obtain ⟨hm, hmembers⟩ := List.forall_mem_cons.mp h
    rw [List.map_cons, separated, List.append_assoc, run_member hm]
    exact run_members hmembers

theorem Document.runs (h : Document tokens v) : Runs tokens v := by
  induction h with
  | null => exact runs_constant .null
  | bool b => exact runs_constant (.bool b)
  | number n => exact runs_constant (.number n)
  | text t => exact runs_constant (.text t)
  | list items _ ih => exact runs_list ih
  | object members _ ih => exact runs_object ih

end complete

section sound

theorem separated_concat (runs : List (List Token)) (last : List Token) :
    separated (runs ++ [last]) = runs.flatMap (· ++ [.comma]) ++ last := by
  cases runs with
  | nil => simp [separated]
  | cons first runs =>
    have hshift : ∀ runs : List (List Token),
        runs.flatMap (.comma :: ·) ++ .comma :: last =
          .comma :: (runs.flatMap (· ++ [.comma]) ++ last) := by
      intro runs
      induction runs with
      | nil => rfl
      | cons run runs ih => simp [ih]
    have hlast : (runs ++ [last]).flatMap (.comma :: ·) =
        runs.flatMap (.comma :: ·) ++ .comma :: last := by simp
    rw [List.cons_append, separated, hlast, hshift]
    simp

-- What has been read of an array in front of an item, and of an object in front of a name, with what
-- was read before the bracket: what is complete in it has a comma behind.
def ItemsRead (before : List Value) (outer tokens : List Token) : Prop :=
  ∃ items : List Item, (∀ i ∈ items, Document i.tokens i.value) ∧
    before.reverse = items.map Item.value ∧
    tokens = outer ++ .leftBracket :: (items.map Item.tokens).flatMap (· ++ [.comma])

def MembersRead (before : List (Text × Value)) (outer tokens : List Token) : Prop :=
  ∃ members : List Member, (∀ m ∈ members, Document m.tokens m.value) ∧
    before.reverse = members.map Member.entry ∧
    tokens = outer ++ .leftBrace :: (members.map Member.run).flatMap (· ++ [.comma])

-- What has been read of the containers that wait for a value, from the outermost in.
def Waiting : List Frame → List Token → Prop
  | [], tokens => tokens = []
  | .item before :: stack, tokens => ∃ outer, Waiting stack outer ∧ ItemsRead before outer tokens
  | .member before name :: stack, tokens => ∃ outer opened,
    Waiting stack outer ∧ MembersRead before outer opened ∧ tokens = opened ++ [.text name, .colon]

-- What has been read when a state is reached.
def Reached : State → List Token → Prop
  | .value stack, tokens => Waiting stack tokens
  | .opened stack, tokens => ∃ outer, Waiting stack outer ∧ tokens = outer ++ [.leftBracket]
  | .after v stack, tokens => ∃ outer own,
    Waiting stack outer ∧ Document own v ∧ tokens = outer ++ own
  | .name before empty stack, tokens => (empty = true → before = []) ∧
    ∃ outer, Waiting stack outer ∧ MembersRead before outer tokens
  | .colon before name stack, tokens => ∃ outer opened,
    Waiting stack outer ∧ MembersRead before outer opened ∧ tokens = opened ++ [.text name]

theorem itemsRead_nil (outer : List Token) : ItemsRead [] outer (outer ++ [.leftBracket]) :=
  ⟨[], List.forall_mem_nil _, rfl, rfl⟩

theorem membersRead_nil (outer : List Token) : MembersRead [] outer (outer ++ [.leftBrace]) :=
  ⟨[], List.forall_mem_nil _, rfl, rfl⟩

-- One more item, in front of a comma or of the closing bracket.
theorem ItemsRead.concat {before : List Value} {outer opened own : List Token}
    (h : ItemsRead before outer opened) (hown : Document own v) :
    ItemsRead (v :: before) outer (opened ++ own ++ [.comma]) ∧
      ∃ items : List Item, (∀ i ∈ items, Document i.tokens i.value) ∧
        (v :: before).reverse = items.map Item.value ∧
        opened ++ own ++ [.rightBracket] = outer ++ arrayRun items := by
  obtain ⟨items, hitems, hbefore, rfl⟩ := h
  have hall : ∀ i ∈ items ++ [⟨own, v⟩], Document i.tokens i.value :=
    List.forall_mem_append.mpr ⟨hitems, List.forall_mem_singleton.mpr hown⟩
  have hvalues : (v :: before).reverse = (items ++ [Item.mk own v]).map Item.value := by
    rw [List.reverse_cons, hbefore, List.map_append]
    rfl
  refine ⟨⟨_, hall, hvalues, by simp⟩, _, hall, hvalues, ?_⟩
  rw [arrayRun, List.map_append, List.map_singleton, separated_concat]
  simp

theorem MembersRead.concat {before : List (Text × Value)} {outer opened own : List Token}
    (h : MembersRead before outer opened) (hown : Document own v) :
    MembersRead ((name, v) :: before) outer (opened ++ [.text name, .colon] ++ own ++ [.comma]) ∧
      ∃ members : List Member, (∀ m ∈ members, Document m.tokens m.value) ∧
        ((name, v) :: before).reverse = members.map Member.entry ∧
        opened ++ [.text name, .colon] ++ own ++ [.rightBrace] = outer ++ objectRun members := by
  obtain ⟨members, hmembers, hbefore, rfl⟩ := h
  have hall : ∀ m ∈ members ++ [⟨⟨own, v⟩, name⟩], Document m.tokens m.value :=
    List.forall_mem_append.mpr ⟨hmembers, List.forall_mem_singleton.mpr hown⟩
  have hentries :
      ((name, v) :: before).reverse = (members ++ [Member.mk ⟨own, v⟩ name]).map Member.entry := by
    rw [List.reverse_cons, hbefore, List.map_append]
    rfl
  refine ⟨⟨_, hall, hentries, by simp [Member.run]⟩, _, hall, hentries, ?_⟩
  rw [objectRun, List.map_append, List.map_singleton, separated_concat]
  simp [Member.run]

theorem Awaits.waiting (hs : Awaits s stack) (h : Reached s tokens) : Waiting stack tokens := by
  cases hs with
  | value => exact h
  | opened =>
    obtain ⟨outer, houter, rfl⟩ := h
    exact ⟨outer, houter, itemsRead_nil outer⟩

theorem Constant.document (hv : Constant token v) : Document [token] v := by
  cases hv with
  | null => exact .null
  | bool b => exact .bool b
  | number n => exact .number n
  | text t => exact .text t

theorem Steps.reached (h : Steps s token s') (hs : Reached s tokens) :
    Reached s' (tokens ++ [token]) := by
  cases h with
  | constant hawaits hv => exact ⟨tokens, _, hawaits.waiting hs, hv.document, rfl⟩
  | openArray hawaits => exact ⟨tokens, hawaits.waiting hs, rfl⟩
  | openObject hawaits => exact ⟨fun _ => rfl, tokens, hawaits.waiting hs, membersRead_nil tokens⟩
  | emptyArray =>
    obtain ⟨outer, houter, rfl⟩ := hs
    exact ⟨outer, arrayRun [], houter, .list [] (List.forall_mem_nil _), List.append_assoc ..⟩
  | nextItem =>
    obtain ⟨_, own, ⟨outer, houter, hread⟩, hown, rfl⟩ := hs
    exact ⟨outer, houter, (hread.concat hown).1⟩
  | closeArray =>
    obtain ⟨_, own, ⟨outer, houter, hread⟩, hown, rfl⟩ := hs
    obtain ⟨-, items, hitems, hvalues, htokens⟩ := hread.concat hown
    exact ⟨outer, arrayRun items, houter, hvalues ▸ .list items hitems, htokens⟩
  | nextMember =>
    obtain ⟨_, own, ⟨outer, opened, houter, hread, rfl⟩, hown, rfl⟩ := hs
    exact ⟨nofun, outer, houter, (hread.concat hown).1⟩
  | closeObject =>
    obtain ⟨_, own, ⟨outer, opened, houter, hread, rfl⟩, hown, rfl⟩ := hs
    obtain ⟨-, members, hmembers, hentries, htokens⟩ := hread.concat hown
    exact ⟨outer, objectRun members, houter, hentries ▸ .object members hmembers, htokens⟩
  | memberName =>
    obtain ⟨-, outer, houter, hread⟩ := hs
    exact ⟨outer, tokens, houter, hread, rfl⟩
  | emptyObject =>
    obtain ⟨hempty, outer, houter, members, -, hentries, rfl⟩ := hs
    rw [hempty rfl] at hentries
    obtain rfl : members = [] := List.map_eq_nil_iff.mp hentries.symm
    exact ⟨outer, objectRun [], houter, .object [] (List.forall_mem_nil _), List.append_assoc ..⟩
  | memberColon =>
    obtain ⟨outer, opened, houter, hread, rfl⟩ := hs
    exact ⟨outer, opened, houter, hread, List.append_assoc ..⟩

theorem run_reached (h : run s rest = some s') (hs : Reached s tokens) :
    Reached s' (tokens ++ rest) := by
  induction rest generalizing s tokens with
  | nil =>
    cases h
    rwa [List.append_nil]
  | cons token rest ih =>
    rw [run, List.foldlM_cons, Option.bind_eq_bind, Option.bind_eq_some_iff] at h
    obtain ⟨next, hstep, hrun⟩ := h
    have hreached := ih hrun ((step_eq_some_iff.mp hstep).reached hs)
    rwa [List.append_assoc, List.singleton_append] at hreached

end sound

-- A text is read just as what its tokens stand for.
theorem read?_eq_some_iff {t : Text} :
    read? t = some v ↔ ∃ tokens, tokens? t = some tokens ∧ Document tokens v := by
  simp only [read?, Option.bind_eq_bind, Option.bind_eq_some_iff]
  constructor
  · rintro ⟨tokens, htokens, s, hrun, hfinal⟩
    have hstart : Reached (.value []) [] := rfl
    have hreached := run_reached hrun hstart
    split at hfinal
    · cases hfinal
      obtain ⟨_, own, rfl, hown, heq⟩ := hreached
      obtain rfl : tokens = own := heq
      exact ⟨tokens, htokens, hown⟩
    · cases hfinal
  · rintro ⟨tokens, htokens, hdocument⟩
    have hrun := hdocument.runs _ _ [] (.value [])
    rw [List.append_nil] at hrun
    exact ⟨tokens, htokens, _, hrun, rfl⟩

-- A text is an object with these members, in this order, names perhaps repeated.
def IsObject (t : Text) (entries : List (Text × Value)) : Prop :=
  ∃ members : List Member, tokens? t = some (objectRun members) ∧
    (∀ m ∈ members, Document m.tokens m.value) ∧ members.map Member.entry = entries

theorem IsObject.read? {t : Text} {entries : List (Text × Value)} (h : IsObject t entries) :
    read? t = some (.object (Fields.ofEntries entries)) := by
  obtain ⟨members, htokens, hmembers, rfl⟩ := h
  exact read?_eq_some_iff.mpr ⟨_, htokens, .object members hmembers⟩

theorem exists_isObject {t : Text} {fields : Fields Value} (h : read? t = some (.object fields)) :
    ∃ entries, IsObject t entries := by
  obtain ⟨tokens, htokens, hdocument⟩ := read?_eq_some_iff.mp h
  cases hdocument with
  | object members hmembers => exact ⟨_, members, htokens, hmembers, rfl⟩

end RecordQuery.Json
