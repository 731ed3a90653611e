import RecordQuery.Proofs.Json.Step
import RecordQuery.Proofs.Value.Key
import RecordQuery.Proofs.Value.WellFormed

/-!
Values read from documents. What constants have and containers keep, every value that has been read
has. So no object that has been read has two fields of one name, at any depth, whatever names the
document repeats, and every integer is held as its size asks for.
-/

namespace RecordQuery.Json

-- A property that all constants but numbers have, and that arrays and objects have when what they
-- hold has it.
structure Hereditary (P : Value → Prop) : Prop where
  null : P .null
  bool : ∀ b, P (.bool b)
  text : ∀ t, P (.text t)
  list : ∀ items, (∀ v ∈ items, P v) → P (.list items)
  object : ∀ entries, (∀ e ∈ entries, P e.2) → P (.object (Fields.ofEntries entries))

def Token.Holds (P : Value → Prop) : Token → Prop
  | .number n => P (.number n)
  | _ => True

def Frame.Holds (P : Value → Prop) : Frame → Prop
  | .item before => ∀ v ∈ before, P v
  | .member before _ => ∀ e ∈ before, P e.2

-- All values that have been read so far have the property.
def State.Holds (P : Value → Prop) : State → Prop
  | .value stack => ∀ f ∈ stack, f.Holds P
  | .opened stack => ∀ f ∈ stack, f.Holds P
  | .after v stack => P v ∧ ∀ f ∈ stack, f.Holds P
  | .name before _ stack => (∀ e ∈ before, P e.2) ∧ ∀ f ∈ stack, f.Holds P
  | .colon before _ stack => (∀ e ∈ before, P e.2) ∧ ∀ f ∈ stack, f.Holds P

variable {P : Value → Prop}

theorem Awaits.holds {s : State} {stack : List Frame} (hs : Awaits s stack) (h : s.Holds P) :
    ∀ f ∈ stack, f.Holds P := by
  cases hs with
  | value => exact h
  | opened => exact List.forall_mem_cons.mpr ⟨List.forall_mem_nil _, h⟩

theorem Constant.holds (hP : Hereditary P) {token : Token} {v : Value} (hv : Constant token v)
    (ht : token.Holds P) : P v := by
  cases hv with
  | null => exact hP.null
  | bool b => exact hP.bool b
  | number n => exact ht
  | text t => exact hP.text t

theorem Steps.holds (hP : Hereditary P) {s s' : State} {token : Token} (h : Steps s token s')
    (ht : token.Holds P) (hs : s.Holds P) : s'.Holds P := by
  cases h with
  | constant hawaits hv => exact ⟨hv.holds hP ht, hawaits.holds hs⟩
  | openArray hawaits => exact hawaits.holds hs
  | openObject hawaits => exact ⟨List.forall_mem_nil _, hawaits.holds hs⟩
  | emptyArray => exact ⟨hP.list [] (List.forall_mem_nil _), hs⟩
  | nextItem =>
    obtain ⟨hv, hstack⟩ := hs
    obtain ⟨hbefore, houter⟩ := List.forall_mem_cons.mp hstack
    exact List.forall_mem_cons.mpr ⟨List.forall_mem_cons.mpr ⟨hv, hbefore⟩, houter⟩
  | closeArray v before =>
    obtain ⟨hv, hstack⟩ := hs
    obtain ⟨hbefore, houter⟩ := List.forall_mem_cons.mp hstack
    have hitems : ∀ w ∈ v :: before, P w := List.forall_mem_cons.mpr ⟨hv, hbefore⟩
    exact ⟨hP.list _ fun w hw => hitems w (List.mem_reverse.mp hw), houter⟩
  | nextMember =>
    obtain ⟨hv, hstack⟩ := hs
    obtain ⟨hbefore, houter⟩ := List.forall_mem_cons.mp hstack
    exact ⟨List.forall_mem_cons.mpr ⟨hv, hbefore⟩, houter⟩
  | closeObject v before name =>
    obtain ⟨hv, hstack⟩ := hs
    obtain ⟨hbefore, houter⟩ := List.forall_mem_cons.mp hstack
    have hentries : ∀ e ∈ (name, v) :: before, P e.2 := List.forall_mem_cons.mpr ⟨hv, hbefore⟩
    exact ⟨hP.object _ fun e he => hentries e (List.mem_reverse.mp he), houter⟩
  | memberName => exact hs
  | emptyObject => exact ⟨hP.object [] (List.forall_mem_nil _), hs.2⟩
  | memberColon => exact List.forall_mem_cons.mpr hs

theorem run_holds (hP : Hereditary P) {s s' : State} {tokens : List Token}
    (h : run s tokens = some s') (ht : ∀ token ∈ tokens, token.Holds P) (hs : s.Holds P) :
    s'.Holds P := by
  induction tokens generalizing s with
  | nil =>
    cases h
    exact hs
  | cons token tokens ih =>
    rw [List.forall_mem_cons] at ht
    rw [run, List.foldlM_cons, Option.bind_eq_bind, Option.bind_eq_some_iff] at h
    obtain ⟨next, hstep, hrun⟩ := h
    exact ih hrun ht.2 ((step_eq_some_iff.mp hstep).holds hP ht.1 hs)

theorem readConstant?_holds {t rest : Text} {token : Token}
    (h : readConstant? t = some (token, rest)) : token.Holds P := by
  have hword : ∀ {word found}, readWord? word found t = some (token, rest) → found = token := by
    intro word found hread
    unfold readWord? at hread
    split at hread
    · cases hread
      rfl
    · cases hread
  simp only [readConstant?, Option.or_eq_some_iff] at h
  rcases h with h | ⟨-, h | ⟨-, h⟩⟩
  · cases hword h
    trivial
  · cases hword h
    trivial
  · cases hword h
    trivial

-- The only tokens that ask for anything are numbers, which their spellings stand for.
theorem readToken?_holds (hn : ∀ spelling n, numberOf? spelling = some n → P (.number n))
    {t rest : Text} {token : Token} (h : readToken? t = some (token, rest)) : token.Holds P := by
  unfold readToken? at h
  split at h
  · cases h
  · next u rest' =>
    split at h
    · next token' hpunctuation =>
      cases h
      unfold punctuation? at hpunctuation
      split_ifs at hpunctuation <;> cases hpunctuation <;> trivial
    · split_ifs at h
      · obtain ⟨p, -, hp⟩ := Option.map_eq_some_iff.mp h
        cases hp
        trivial
      · obtain ⟨⟨spelling, after⟩, -, h⟩ := Option.bind_eq_some_iff.mp h
        obtain ⟨n, hnumber, h⟩ := Option.bind_eq_some_iff.mp h
        cases h
        exact hn spelling n hnumber
      · exact readConstant?_holds h

theorem tokens?_holds (hn : ∀ spelling n, numberOf? spelling = some n → P (.number n)) {t : Text}
    {tokens : List Token} (h : tokens? t = some tokens) : ∀ token ∈ tokens, token.Holds P := by
  fun_induction tokens? t generalizing tokens with
  | case1 =>
    cases h
    exact List.forall_mem_nil _
  | case2 u rest hblank ih => exact ih h
  | case3 => cases h
  | case4 u rest hblank token after hread ih =>
    obtain ⟨more, hmore, rfl⟩ := Option.map_eq_some_iff.mp h
    exact List.forall_mem_cons.mpr ⟨readToken?_holds hn hread, ih hmore⟩

theorem Hereditary.read? (hP : Hereditary P)
    (hn : ∀ spelling n, numberOf? spelling = some n → P (.number n)) {t : Text} {v : Value}
    (h : Json.read? t = some v) : P v := by
  simp only [Json.read?, Option.bind_eq_bind, Option.bind_eq_some_iff] at h
  obtain ⟨tokens, htokens, s, hrun, hfinal⟩ := h
  have hs := run_holds hP hrun (tokens?_holds hn htokens) (List.forall_mem_nil _)
  split at hfinal
  · cases hfinal
    exact hs.1
  · cases hfinal

-- Nothing may follow a value that no container waits for.
theorem eq_nil_of_run_after {v : Value} {tokens : List Token} {s : State}
    (h : run (.after v []) tokens = some s) : tokens = [] ∧ s = .after v [] := by
  cases tokens with
  | nil =>
    cases h
    exact ⟨rfl, rfl⟩
  | cons token tokens => cases h

-- What opens with a quote is a text, if it is a document at all.
theorem exists_text_of_read? {rest : Text} {v : Value} (h : read? (34 :: rest) = some v) :
    ∃ t, v = .text t := by
  simp only [read?, Option.bind_eq_bind, Option.bind_eq_some_iff] at h
  obtain ⟨tokens, htokens, s, hrun, hfinal⟩ := h
  obtain ⟨t, more, rfl⟩ : ∃ t more, tokens = .text t :: more := by
    rw [tokens?, if_neg (by decide)] at htokens
    split at htokens
    · cases htokens
    · next token after hread =>
      obtain ⟨p, -, hp⟩ := Option.map_eq_some_iff.mp hread
      obtain ⟨more, -, rfl⟩ := Option.map_eq_some_iff.mp htokens
      cases hp
      exact ⟨_, more, rfl⟩
  obtain ⟨rfl, rfl⟩ := eq_nil_of_run_after hrun
  cases hfinal
  exact ⟨t, rfl⟩

theorem read?_distinctNames {t : Text} {v : Value} (h : read? t = some v) : v.DistinctNames :=
  Hereditary.read? ⟨.null, .bool, .text, fun _ => .list,
    fun entries hentries => .object (Fields.nodup_keys_ofEntries entries)
      (Fields.forall_mem_ofEntries hentries)⟩ (fun _ n _ => .number n) h

theorem numberOf?_wellFormed {spelling : Text} {n : Number} (h : numberOf? spelling = some n) :
    n.WellFormed := by
  unfold numberOf? at h
  split at h
  · cases h
    exact Number.wellFormed_ofInt _
  · obtain ⟨x, -, rfl⟩ := Option.map_eq_some_iff.mp h
    trivial

theorem read?_wellFormed {t : Text} {v : Value} (h : read? t = some v) : v.WellFormed :=
  Hereditary.read? ⟨Value.wellFormed_null, Value.wellFormed_bool, Value.wellFormed_text,
    fun _ => Value.wellFormed_list.mpr, fun _ hentries =>
      Value.wellFormed_object.mpr (Fields.forall_mem_ofEntries hentries)⟩
    (fun _ _ hn => Value.wellFormed_number.mpr (numberOf?_wellFormed hn)) h

end RecordQuery.Json
