import RecordQuery.Json.Writer
import RecordQuery.Proofs.Json.Number
import RecordQuery.Proofs.Json.Step
import RecordQuery.Proofs.Value.Lists

/-!
Reading back what is written for a value. Whatever the indent, the document holds the value with its
tuples as lists, null for every number that is not finite and any other number as its text spells it;
this is written as the same document again.
-/

namespace RecordQuery.Json

variable {indent : ℕ} {s s' : State} {stack : List Frame} {token : Token} {v w : Value}
  {t pad rest name : Text} {items : List Value} {fields : Fields Value}

-- What becomes of a state in front of a text.
def readFrom (s : State) (t : Text) : Option State := (tokens? t).bind (run s)

theorem readToken?_of_isBlank {u : UInt16} (hu : isBlank u = true) : readToken? (u :: rest) = none := by
  have hcases : u = 32 ∨ u = 9 ∨ u = 10 ∨ u = 13 := by
    simpa only [isBlank, Bool.or_eq_true, beq_iff_eq, or_assoc] using hu
  rcases hcases with rfl | rfl | rfl | rfl <;> rfl

theorem tokens?_of_readToken? (h : readToken? t = some (token, rest)) :
    tokens? t = (tokens? rest).map (token :: ·) := by
  cases t with
  | nil => cases h
  | cons u t =>
    have hblank : isBlank u = false := by
      by_contra hu
      rw [readToken?_of_isBlank (by simpa using hu)] at h
      cases h
    rw [tokens?, hblank]
    simp only [Bool.false_eq_true, if_false]
    split
    · next hnone =>
      rw [h] at hnone
      cases hnone
    · next heq =>
      rw [h] at heq
      cases heq
      rfl

theorem readFrom_token (h : readToken? t = some (token, rest)) (hstep : step s token = some s') :
    readFrom s t = readFrom s' rest := by
  rw [readFrom, tokens?_of_readToken? h, readFrom, Option.bind_map]
  congr 1
  funext tokens
  rw [Function.comp_apply, run, List.foldlM_cons, hstep]
  rfl

def Blanks (t : Text) : Prop := ∀ u ∈ t, isBlank u = true

theorem readFrom_blanks (h : Blanks pad) : readFrom s (pad ++ rest) = readFrom s rest := by
  induction pad with
  | nil => rfl
  | cons u pad ih =>
    obtain ⟨hu, hpad⟩ := List.forall_mem_cons.mp h
    rw [← ih hpad, List.cons_append, readFrom, tokens?, if_pos hu]
    rfl

-- A quoted text is one token, whatever follows it.
theorem readToken?_quoted (t rest : Text) : readToken? (t.quoted ++ rest) = some (.text t, rest) := by
  have hread := readString?_escaped t rest
  rw [Text.quoted, List.cons_append, List.append_assoc, List.singleton_append]
  simp [readToken?, punctuation?, hread]

-- Only blanks tell layouts from each other.
structure Layout.Blank (layout : Layout) : Prop where
  pad : Blanks layout.pad
  opening : Blanks layout.opening
  between : ∃ blanks, layout.between = 44 :: blanks ∧ Blanks blanks
  closing : Blanks layout.closing
  colon : ∃ blanks, layout.colon = 58 :: blanks ∧ Blanks blanks

theorem Layout.blank_of (hpad : Blanks pad) : (Layout.of indent pad).Blank := by
  have hinner : Blanks (pad ++ List.replicate indent 32) := by
    intro u hu
    rcases List.mem_append.mp hu with hu | hu
    · exact hpad u hu
    · rw [List.eq_of_mem_replicate hu]
      rfl
  have hline : ∀ t : Text, Blanks t → Blanks (10 :: t) := fun t ht =>
    List.forall_mem_cons.mpr ⟨rfl, ht⟩
  have hnone : Blanks [] := fun u hu => absurd hu List.not_mem_nil
  unfold Layout.of
  split
  · exact ⟨hpad, hnone, ⟨[], rfl, hnone⟩, hnone, ⟨[], rfl, hnone⟩⟩
  · exact ⟨hinner, hline _ hinner, ⟨_, rfl, hline _ hinner⟩, hline _ hpad,
      ⟨[32], rfl, List.forall_mem_singleton.mpr rfl⟩⟩

theorem endsNumber_nil : EndsNumber [] := fun u hu => absurd hu (by simp)

theorem endsNumber_cons {u : UInt16} (hu : isBlank u = true ∨ u = 44 ∨ u = 93 ∨ u = 125) :
    EndsNumber (u :: rest) := by
  rintro v ⟨⟩
  rw [isBlank, Bool.or_eq_true, Bool.or_eq_true, Bool.or_eq_true] at hu
  simp only [beq_iff_eq] at hu
  rcases hu with ((((rfl | rfl) | rfl) | rfl) | rfl | rfl | rfl) <;> decide

theorem endsNumber_closing {u : UInt16} (hpad : Blanks pad) (hu : u = 93 ∨ u = 125) :
    EndsNumber (pad ++ u :: rest) := by
  cases pad with
  | nil => exact endsNumber_cons (.inr (.inr hu))
  | cons v pad => exact endsNumber_cons (.inl (hpad v List.mem_cons_self))

-- What a document holds for a number.
def heldNumber (n : Number) : Value := if n.isFinite then .number n.spelled else .null

-- What a document holds for a value.
def held (v : Value) : Value := v.withLists heldNumber

def heldFields (fields : Fields Value) : Fields Value := fields.map fun e => (e.1, held e.2)

theorem held_list (items : List Value) : held (.list items) = .list (items.map held) := by
  rw [held, Value.withLists, Value.allWithLists_eq_map]
  rfl

theorem held_object (fields : Fields Value) : held (.object fields) = .object (heldFields fields) := by
  rw [held, Value.withLists, Value.fieldsWithLists_eq_map]
  rfl

-- A tuple is written as the list of its items.
theorem held_tuple (items : List Value) : held (.tuple items) = held (.list items) := by
  rw [held, held, Value.withLists, Value.withLists]

theorem writeBefore_tuple (items : List Value) :
    writeBefore indent pad rest (.tuple items) = writeBefore indent pad rest (.list items) := by
  rw [writeBefore, writeBefore]

-- What is written for the value is read as what it holds, wherever a value is due.
def ReadsBack (indent : ℕ) (v : Value) : Prop :=
  ∀ s stack pad rest, Awaits s stack → Blanks pad → EndsNumber rest →
    readFrom s (writeBefore indent pad rest v) = readFrom (.after (held v) stack) rest

theorem number_eq_text {n : Number} (hn : n.isFinite = true) : number n = n.text := by
  cases n with
  | float x => exact if_pos hn
  | big m => rfl

theorem number_eq_null {n : Number} (hn : n.isFinite = false) : number n = Text.ofString "null" := by
  cases n with
  | float x => exact if_neg (by simpa [Number.isFinite] using hn)
  | big m => cases hn

theorem readsBack_number (n : Number) : ReadsBack indent (.number n) := by
  intro s stack pad rest hs hpad hrest
  rw [held, Value.withLists, heldNumber, writeBefore]
  cases hn : n.isFinite with
  | true =>
    rw [number_eq_text hn]
    exact readFrom_token (Number.readToken?_text hn hrest) (Steps.constant hs (.number _)).step_eq
  | false =>
    rw [number_eq_null hn]
    exact readFrom_token rfl (Steps.constant hs .null).step_eq

section containers

variable {layout : Layout} {before : List Value} {entries : List (Text × Value)}

theorem endsNumber_writeItems (hlayout : layout.Blank) :
    EndsNumber (writeItems indent layout layout.between (layout.closing ++ 93 :: rest) items) := by
  obtain ⟨blanks, hbetween, -⟩ := hlayout.between
  cases items with
  | nil => exact endsNumber_closing hlayout.closing (.inl rfl)
  | cons v items =>
    rw [writeItems, hbetween]
    exact endsNumber_cons (.inr (.inl rfl))

theorem endsNumber_writeFields (hlayout : layout.Blank) :
    EndsNumber (writeFields indent layout layout.between (layout.closing ++ 125 :: rest) fields) := by
  obtain ⟨blanks, hbetween, -⟩ := hlayout.between
  cases fields with
  | nil => exact endsNumber_closing hlayout.closing (.inr rfl)
  | cons e fields =>
    rw [writeFields, hbetween]
    exact endsNumber_cons (.inr (.inl rfl))

-- The items after one that has been read, up to the bracket.
theorem readFrom_writeItems (hlayout : layout.Blank) (h : ∀ v ∈ items, ReadsBack indent v) :
    readFrom (.after w (.item before :: stack))
        (writeItems indent layout layout.between (layout.closing ++ 93 :: rest) items) =
      readFrom (.after (.list ((w :: before).reverse ++ items.map held)) stack) rest := by
  induction items generalizing w before with
  | nil =>
    rw [writeItems, readFrom_blanks hlayout.closing, List.map_nil, List.append_nil]
    exact readFrom_token rfl rfl
  | cons v items ih =>
    obtain ⟨hv, hitems⟩ := List.forall_mem_cons.mp h
    obtain ⟨blanks, hbetween, hblanks⟩ := hlayout.between
    rw [writeItems]
    nth_rewrite 1 [hbetween]
    calc readFrom (.after w (.item before :: stack)) (44 :: (blanks ++ _))
        = readFrom (.value (.item (w :: before) :: stack)) (blanks ++ _) := readFrom_token rfl rfl
      _ = readFrom (.value (.item (w :: before) :: stack)) _ := readFrom_blanks hblanks
      _ = readFrom (.after (held v) (.item (w :: before) :: stack)) _ :=
        hv _ _ _ _ (.value _) hlayout.pad (endsNumber_writeItems hlayout)
      _ = _ := by rw [ih hitems, List.reverse_cons]; simp

theorem readsBack_list (h : ∀ v ∈ items, ReadsBack indent v) : ReadsBack indent (.list items) := by
  intro s stack pad rest hs hpad hrest
  have hopen : step s .leftBracket = some (.opened stack) := (Steps.openArray hs).step_eq
  have hlayout : (Layout.of indent pad).Blank := Layout.blank_of hpad
  rw [held_list]
  cases items with
  | nil =>
    calc readFrom s (91 :: 93 :: rest) = readFrom (.opened stack) (93 :: rest) :=
        readFrom_token rfl hopen
      _ = _ := readFrom_token rfl rfl
  | cons v items =>
    obtain ⟨hv, hitems⟩ := List.forall_mem_cons.mp h
    rw [writeBefore]
    calc readFrom s (91 :: ((Layout.of indent pad).opening ++ _))
        = readFrom (.opened stack) ((Layout.of indent pad).opening ++ _) :=
        readFrom_token rfl hopen
      _ = readFrom (.opened stack) _ := readFrom_blanks hlayout.opening
      _ = readFrom (.after (held v) (.item [] :: stack)) _ :=
        hv _ _ _ _ (.opened _) hlayout.pad (endsNumber_writeItems hlayout)
      _ = _ := readFrom_writeItems hlayout hitems

-- A name, the colon and the value behind it.
theorem readFrom_member {empty : Bool} (hlayout : layout.Blank) (hv : ReadsBack indent v)
    (hrest : EndsNumber rest) :
    readFrom (.name entries empty stack)
        (name.quoted ++ (layout.colon ++ writeBefore indent layout.pad rest v)) =
      readFrom (.after (held v) (.member entries name :: stack)) rest := by
  obtain ⟨blanks, hcolon, hblanks⟩ := hlayout.colon
  rw [hcolon]
  calc readFrom (.name entries empty stack) (name.quoted ++ (58 :: blanks ++ _))
      = readFrom (.colon entries name stack) (58 :: blanks ++ _) :=
      readFrom_token (readToken?_quoted _ _) (by cases empty <;> rfl)
    _ = readFrom (.value (.member entries name :: stack)) (blanks ++ _) := readFrom_token rfl rfl
    _ = readFrom (.value (.member entries name :: stack)) _ := readFrom_blanks hblanks
    _ = _ := hv _ _ _ _ (.value _) hlayout.pad hrest

-- The fields after one that has been read, up to the bracket.
theorem readFrom_writeFields (hlayout : layout.Blank) (h : ∀ e ∈ fields, ReadsBack indent e.2) :
    readFrom (.after w (.member entries name :: stack))
        (writeFields indent layout layout.between (layout.closing ++ 125 :: rest) fields) =
      readFrom (.after (.object (Fields.ofEntries
        (((name, w) :: entries).reverse ++ heldFields fields))) stack) rest := by
  induction fields generalizing w name entries with
  | nil =>
    rw [writeFields, readFrom_blanks hlayout.closing, heldFields, List.map_nil, List.append_nil]
    exact readFrom_token rfl rfl
  | cons e fields ih =>
    obtain ⟨hv, hfields⟩ := List.forall_mem_cons.mp h
    obtain ⟨blanks, hbetween, hblanks⟩ := hlayout.between
    rw [writeFields, List.append_assoc, List.append_assoc]
    nth_rewrite 1 [hbetween]
    calc readFrom (.after w (.member entries name :: stack)) (44 :: (blanks ++ _))
        = readFrom (.name ((name, w) :: entries) false stack) (blanks ++ _) :=
        readFrom_token rfl rfl
      _ = readFrom (.name ((name, w) :: entries) false stack) _ := readFrom_blanks hblanks
      _ = readFrom (.after (held e.2) (.member ((name, w) :: entries) e.1 :: stack)) _ :=
        readFrom_member hlayout hv (endsNumber_writeFields hlayout)
      _ = _ := by rw [ih hfields, List.reverse_cons]; simp [heldFields]

theorem readsBack_object (hnames : fields.keys.Nodup) (h : ∀ e ∈ fields, ReadsBack indent e.2) :
    ReadsBack indent (.object fields) := by
  intro s stack pad rest hs hpad hrest
  have hopen : step s .leftBrace = some (.name [] true stack) := (Steps.openObject hs).step_eq
  have hlayout : (Layout.of indent pad).Blank := Layout.blank_of hpad
  have hentries : Fields.ofEntries (heldFields fields) = heldFields fields :=
    Fields.ofEntries_eq_self (by rwa [heldFields, Fields.keys_map])
  rw [held_object]
  cases fields with
  | nil =>
    calc readFrom s (123 :: 125 :: rest) = readFrom (.name [] true stack) (125 :: rest) :=
        readFrom_token rfl hopen
      _ = _ := readFrom_token rfl rfl
  | cons e fields =>
    obtain ⟨hv, hfields⟩ := List.forall_mem_cons.mp h
    rw [writeBefore, ← hentries]
    simp only [List.isEmpty_cons, Bool.false_eq_true, if_false, writeFields, List.append_assoc]
    calc readFrom s (123 :: ((Layout.of indent pad).opening ++ _))
        = readFrom (.name [] true stack) ((Layout.of indent pad).opening ++ _) :=
        readFrom_token rfl hopen
      _ = readFrom (.name [] true stack) _ := readFrom_blanks hlayout.opening
      _ = readFrom (.after (held e.2) (.member [] e.1 :: stack)) _ :=
        readFrom_member hlayout hv (endsNumber_writeFields hlayout)
      _ = _ := readFrom_writeFields hlayout hfields

end containers

theorem readsBack (hv : v.DistinctNames) : ReadsBack indent v := by
  induction v with
  | null =>
    intro s stack pad rest hs hpad hrest
    exact readFrom_token rfl (Steps.constant hs .null).step_eq
  | bool b =>
    intro s stack pad rest hs hpad hrest
    cases b <;> exact readFrom_token rfl (Steps.constant hs (.bool _)).step_eq
  | number n => exact readsBack_number n
  | text t =>
    intro s stack pad rest hs hpad hrest
    rw [writeBefore]
    exact readFrom_token (readToken?_quoted t rest) (Steps.constant hs (.text t)).step_eq
  | list items ih =>
    rw [Value.distinctNames_list] at hv
    exact readsBack_list fun v hmem => ih v hmem (hv v hmem)
  | tuple items ih =>
    rw [Value.distinctNames_tuple] at hv
    intro s stack pad rest hs hpad hrest
    rw [writeBefore_tuple, held_tuple]
    exact readsBack_list (fun v hmem => ih v hmem (hv v hmem)) s stack pad rest hs hpad hrest
  | object fields ih =>
    rw [Value.distinctNames_object] at hv
    exact readsBack_object hv.1 fun e hmem => ih e hmem (hv.2 e hmem)

theorem read?_write (hv : v.DistinctNames) : read? (write indent v) = some (held v) := by
  have hread : readFrom (.value []) (write indent v) = readFrom (.after (held v) []) [] :=
    readsBack hv _ _ _ _ (.value []) (fun u hu => absurd hu List.not_mem_nil) endsNumber_nil
  have hdone : readFrom (.after (held v) []) [] = some (.after (held v) []) := by
    rw [readFrom, tokens?]
    rfl
  rw [hdone, readFrom, Option.bind_eq_some_iff] at hread
  obtain ⟨tokens, htokens, hrun⟩ := hread
  simp only [read?, htokens, Option.bind_eq_bind, Option.bind_some, hrun]

theorem writeItems_map {layout : Layout} {lead : Text}
    (h : ∀ v ∈ items, ∀ pad rest, writeBefore indent pad rest (held v) = writeBefore indent pad rest v) :
    writeItems indent layout lead rest (items.map held) = writeItems indent layout lead rest items := by
  induction items generalizing lead with
  | nil => rfl
  | cons v items ih =>
    obtain ⟨hv, hitems⟩ := List.forall_mem_cons.mp h
    rw [List.map_cons, writeItems, writeItems, ih hitems, hv]

theorem writeFields_map {layout : Layout} {lead : Text}
    (h : ∀ e ∈ fields, ∀ pad rest,
      writeBefore indent pad rest (held e.2) = writeBefore indent pad rest e.2) :
    writeFields indent layout lead rest (heldFields fields) =
      writeFields indent layout lead rest fields := by
  induction fields generalizing lead with
  | nil => rfl
  | cons e fields ih =>
    obtain ⟨hv, hfields⟩ := List.forall_mem_cons.mp h
    rw [heldFields, List.map_cons, ← heldFields, writeFields, writeFields, ih hfields, hv]

theorem writeBefore_held_list
    (h : ∀ v ∈ items, ∀ pad rest, writeBefore indent pad rest (held v) = writeBefore indent pad rest v) :
    writeBefore indent pad rest (held (.list items)) = writeBefore indent pad rest (.list items) := by
  rw [held_list, writeBefore, writeBefore, List.isEmpty_map]
  exact if_congr Iff.rfl rfl (congrArg _ (writeItems_map h))

-- The document does not tell the value from what it holds.
theorem writeBefore_held (pad rest : Text) (v : Value) :
    writeBefore indent pad rest (held v) = writeBefore indent pad rest v := by
  induction v generalizing pad rest with
  | null => rfl
  | bool b => rfl
  | text t => rfl
  | number n =>
    rw [held, Value.withLists, heldNumber]
    cases hn : n.isFinite with
    | true =>
      rw [if_pos rfl, writeBefore, writeBefore, number_eq_text hn,
        number_eq_text (Number.isFinite_spelled hn), Number.text_spelled hn]
    | false => rw [if_neg (by simp), writeBefore, writeBefore, number_eq_null hn]
  | list items ih => exact writeBefore_held_list ih
  | tuple items ih =>
    rw [held_tuple, writeBefore_tuple]
    exact writeBefore_held_list ih
  | object fields ih =>
    rw [held_object, writeBefore, writeBefore, heldFields, List.isEmpty_map, ← heldFields]
    exact if_congr Iff.rfl rfl (congrArg _ (writeFields_map ih))

theorem write_held (v : Value) : write indent (held v) = write indent v := writeBefore_held [] [] v

-- A document gives a value back as it was written, tuples as lists and fields in their order, but for
-- the doubles whose digits are those of another integer: they are read as that integer.
theorem read?_write_finite (hv : v.DistinctNames) (hfinite : ∀ n ∈ v.numbers, n.isFinite = true)
    (indent : ℕ) :
    read? (write indent v) = some (v.withLists fun n => .number n.spelled) ∧
      ((v.withLists fun n => .number n.spelled).equals (v.withLists .number) = true ↔
        ∀ n ∈ v.numbers, ∀ z, ¬n.PrintsOther z) ∧
      ∀ n ∈ v.numbers, (Value.number n.spelled).equals (.number n) = true ∨
        ∃ z, n.PrintsOther z ∧ n.spelled = .ofInt z ∧ Double.ofInt z = n.toDouble := by
  have hkey : ∀ n ∈ v.numbers, (Value.number n.spelled).key = (Value.number n).key ↔
      ∀ z, ¬n.PrintsOther z := by
    intro n hn
    rw [Value.key, Value.key, List.cons_inj_right, Number.key_spelled_eq_iff (hfinite n hn)]
  refine ⟨?_, ?_, fun n hn => ?_⟩
  · rw [read?_write hv, held]
    exact congrArg some (Value.withLists_congr fun n hn => if_pos (hfinite n hn))
  · rw [Value.equals_iff, Value.key_withLists_eq_iff hv]
    exact forall₂_congr hkey
  · by_cases hother : ∃ z, n.PrintsOther z
    · obtain ⟨z, hz⟩ := hother
      exact .inr ⟨z, hz, hz.spelled_eq⟩
    · exact .inl (Value.equals_iff.mpr ((hkey n hn).mpr (not_exists.mp hother)))

-- Two to the power of sixty in a tuple, with the digits that a double has for it.
theorem read?_write_finite_pair :
    read? (write 2 (.tuple [.number (.float (Double.ofInt (2 ^ 60))), .null])) =
      some (.list [.number (.big 1152921504606847000), .null]) := by
  have hspelled : (Number.float (Double.ofInt (2 ^ 60))).spelled = .big 1152921504606847000 := by
    decide +kernel
  have hread := (read?_write_finite
    (v := .tuple [.number (.float (Double.ofInt (2 ^ 60))), .null])
    (.tuple (by simp [Value.DistinctNames.number, Value.DistinctNames.null]))
    (by decide +kernel) 2).1
  rw [hread, Value.withLists, Value.allWithLists, Value.withLists, hspelled]
  rfl

-- It is not equal to the integer that is read for it.
theorem read?_write_not_equal :
    ¬∀ (v : Value) (indent : ℕ), v.DistinctNames → (∀ n ∈ v.numbers, n.isFinite = true) →
      ∃ w, read? (write indent v) = some w ∧ w.equals (v.withLists .number) = true := by
  intro h
  obtain ⟨w, hread, hequal⟩ :=
    h (.number (.float (Double.ofInt (2 ^ 60)))) 0 (.number _) (by decide +kernel)
  have hdiffer : (read? (write 0 (.number (.float (Double.ofInt (2 ^ 60)))))).all
      (fun w => !w.equals (.number (.float (Double.ofInt (2 ^ 60))))) = true := by decide +kernel
  rw [hread, Option.all_some] at hdiffer
  have hlists : (Value.number (.float (Double.ofInt (2 ^ 60)))).withLists .number =
      .number (.float (Double.ofInt (2 ^ 60))) := rfl
  rw [← hlists, hequal] at hdiffer
  cases hdiffer

end RecordQuery.Json
