import RecordQuery.Proofs.Text.Lines
import RecordQuery.Proofs.Text.Utf8

/-!
Lines of a text that comes as bytes in chunks, against the lines of the text at hand. A chunk can end
anywhere, also within a character or between a carriage return and a line feed. What the two make
different is a carriage return that stands alone, and a chunk without bytes between the two.
-/

namespace RecordQuery.Text

variable {t : Text} {line : Text}

-- The text that is left where a line feed may still belong to the end of the line before.
def afterEnd (afterReturn : Bool) (t : Text) : Text :=
  if afterReturn && t.head? == some 10 then t.drop 1 else t

-- The lines of what is left.
def linesFrom (line : Text) (afterReturn : Bool) (t : Text) : List Text :=
  let cut := cutLines true line (afterEnd afterReturn t)
  cut.1 ++ lastLine cut.2

theorem afterEnd_false (t : Text) : afterEnd false t = t := rfl

theorem afterEnd_feed (t : Text) : afterEnd true (10 :: t) = t := rfl

theorem afterEnd_of_head? {afterReturn : Bool} (h : afterReturn = true → t.head? ≠ some 10) :
    afterEnd afterReturn t = t := by
  rw [afterEnd, if_neg]
  simpa using h

theorem afterEnd_append {s : Text} (hs : s ≠ []) (afterReturn : Bool) (t : Text) :
    afterEnd afterReturn (s ++ t) = afterEnd afterReturn s ++ t := by
  obtain ⟨u, s, rfl⟩ := List.exists_cons_of_ne_nil hs
  simp only [afterEnd, List.cons_append, List.head?_cons, List.drop_one, List.tail_cons]
  split <;> rfl

theorem length_afterEnd_le (afterReturn : Bool) (t : Text) :
    (afterEnd afterReturn t).length ≤ t.length := by
  unfold afterEnd
  split <;> simp

theorem endsInReturn_cons {u : UInt16} (h : u ≠ 13) (t : Text) :
    ((u :: t).getLast? == some 13) = (t.getLast? == some 13) := by
  rw [List.getLast?_cons]
  cases t.getLast? with
  | none => simpa using h
  | some v => rfl

theorem endsInReturn_afterEnd (afterReturn : Bool) (t : Text) :
    ((afterEnd afterReturn t).getLast? == some 13) = (t.getLast? == some 13) := by
  by_cases h : afterReturn = true ∧ t.head? = some 10
  · obtain ⟨rfl, hhead⟩ := h
    obtain ⟨rest, rfl⟩ := List.head?_eq_some_iff.mp hhead
    rw [afterEnd_feed, endsInReturn_cons (by decide)]
  · rw [afterEnd_of_head? fun hreturn hhead => h ⟨hreturn, hhead⟩]

theorem cutLines_return (line t : Text) : cutLines true line (13 :: t) =
    (line.reverse :: (cutLines true [] (afterEnd true t)).1,
      (cutLines true [] (afterEnd true t)).2) := by
  by_cases hhead : t.head? = some 10
  · obtain ⟨rest, rfl⟩ := List.head?_eq_some_iff.mp hhead
    rfl
  · rw [afterEnd_of_head? fun _ => hhead, cutLines.eq_4 _ _ _ _ (by decide)]
    · rfl
    · rintro rest - rfl
      exact hhead rfl

-- A text is cut as its first part and then, from the line under way, its second.
theorem cutLines_append_text (line s t : Text) : cutLines true line (s ++ t) =
    let first := cutLines true line s
    let second := cutLines true first.2 (afterEnd (s.getLast? == some 13) t)
    (first.1 ++ second.1, second.2) := by
  induction hlength : s.length using Nat.strong_induction_on generalizing line s with
  | _ n ih =>
    cases s with
    | nil => rfl
    | cons u s =>
      by_cases hfeed : u = 10
      · subst hfeed
        rw [endsInReturn_cons (by decide), List.cons_append, cutLines_feed, cutLines_feed,
          ih _ (by simp [← hlength]) _ _ rfl]
        rfl
      by_cases hreturn : u = 13
      · subst hreturn
        rw [List.cons_append, cutLines_return, cutLines_return]
        cases s with
        | nil => rfl
        | cons v s =>
          have hshorter : (afterEnd true (v :: s)).length < n := by
            have := length_afterEnd_le true (v :: s)
            rw [← hlength, List.length_cons]
            omega
          rw [afterEnd_append (by simp), List.getLast?_cons_cons, ih _ hshorter _ _ rfl,
            endsInReturn_afterEnd]
          rfl
      · rw [endsInReturn_cons hreturn, List.cons_append, cutLines_unit hfeed hreturn,
          cutLines_unit hfeed hreturn, ih _ (by simp [← hlength]) _ _ rfl]

theorem linesFrom_append {s : Text} (hs : s ≠ []) (line : Text) (afterReturn : Bool) (t : Text) :
    linesFrom line afterReturn (s ++ t) =
      let cut := cutLines true line (afterEnd afterReturn s)
      cut.1 ++ linesFrom cut.2 (s.getLast? == some 13) t := by
  simp only [linesFrom, afterEnd_append hs, cutLines_append_text, endsInReturn_afterEnd,
    List.append_assoc]

-- After a carriage return no line is under way.
theorem cutLines_snd_eq_nil (h : t.getLast? = some 13) (line : Text) :
    (cutLines true line t).2 = [] := by
  obtain ⟨before, rfl⟩ := List.getLast?_eq_some_iff.mp h
  have hreturn : ∀ afterReturn, afterEnd afterReturn [13] = [13] := fun afterReturn =>
    afterEnd_of_head? fun _ => by simp
  rw [cutLines_append_text, hreturn]
  exact congrArg Prod.snd (cutLines_return _ _)

theorem linesFrom_feed (t : Text) :
    linesFrom [] false (10 :: t) = [] :: linesFrom [] true (10 :: t) := rfl

-- An empty chunk parts a carriage return from its line feed.
def PartsEnd (chunks : List (List UInt8)) : Prop :=
  ∃ before last after, chunks = before ++ last :: [] :: after ∧ last.getLast? = some 13 ∧
    after.flatten.head? = some 10

-- The same where it may be the chunk before the first that ended in a carriage return.
def PartsEndFrom (afterReturn : Bool) (chunks : List (List UInt8)) : Prop :=
  (afterReturn = true ∧ ∃ after, chunks = [] :: after ∧ after.flatten.head? = some 10) ∨
    PartsEnd chunks

theorem partsEnd_cons (chunk : List UInt8) (rest : List (List UInt8)) :
    PartsEnd (chunk :: rest) ↔ (chunk.getLast? = some 13 ∧
      ∃ after, rest = [] :: after ∧ after.flatten.head? = some 10) ∨ PartsEnd rest := by
  constructor
  · rintro ⟨before, last, after, hchunks, hlast, hafter⟩
    cases before with
    | nil =>
      cases hchunks
      exact .inl ⟨hlast, after, rfl, hafter⟩
    | cons first before =>
      cases hchunks
      exact .inr ⟨before, last, after, rfl, hlast, hafter⟩
  · rintro (⟨hlast, after, rfl, hafter⟩ | ⟨before, last, after, rfl, hlast, hafter⟩)
    · exact ⟨[], chunk, after, rfl, hlast, hafter⟩
    · exact ⟨chunk :: before, last, after, rfl, hlast, hafter⟩

-- How a chunk is read: the bytes held back before it and its own bytes are whole characters and at
-- most one that breaks off, which is held back again.
structure Step (held chunk : List UInt8) (rest : List (List UInt8)) (before after : List Char)
    (broken : List UInt8) : Prop where
  heldBreaks : Breaks held (before ++ after)
  bytes : held ++ chunk = encodeUtf8 before ++ broken
  breaks : Breaks broken after
  remaining : broken ++ rest.flatten = encodeUtf8 after

variable {held chunk broken : List UInt8} {rest : List (List UInt8)} {cs before after : List Char}
  {afterReturn : Bool}

theorem exists_step (hheld : Breaks held cs)
    (hbytes : held ++ (chunk :: rest).flatten = encodeUtf8 cs) :
    ∃ before after broken, cs = before ++ after ∧ Step held chunk rest before after broken := by
  rw [List.flatten_cons, ← List.append_assoc] at hbytes
  obtain ⟨before, after, broken, rfl, hcut, hbreaks⟩ :=
    exists_breaks (hbytes ▸ List.prefix_append _ _)
  refine ⟨before, after, broken, rfl, hheld, hcut, hbreaks, ?_⟩
  rw [hcut, encodeUtf8_append, List.append_assoc, List.append_cancel_left_eq] at hbytes
  exact hbytes

namespace Step

theorem feed_eq (h : Step held chunk rest before after broken) (line : Text) (afterReturn : Bool) :
    (⟨held, line, afterReturn⟩ : LineReader).feed chunk =
      let cut := cutLines true line (afterEnd afterReturn (ofChars before))
      (cut.1, ⟨broken, cut.2, (ofChars before).getLast? == some 13⟩) := by
  rw [LineReader.feed]
  simp only [h.bytes, finishedBytes_append h.breaks, decodeUtf8_encodeUtf8, List.drop_left]
  rw [← endsInReturn_afterEnd afterReturn (ofChars before)]
  rfl

-- In front of a line feed the chunk ends where its characters do.
theorem broken_eq_nil (h : Step held chunk rest before after broken)
    (hfeed : rest.flatten.head? = some 10) : broken = [] :=
  h.breaks.eq_nil_of_rest h.remaining hfeed (by decide)

theorem chunk_ne_nil (h : Step held chunk rest before after broken) (hbefore : before ≠ []) :
    chunk ≠ [] := by
  rintro rfl
  have hheld := h.heldBreaks
  rw [← List.append_nil held, h.bytes] at hheld
  exact hbefore hheld.eq_nil_of_whole

theorem ends_iff (h : Step held chunk rest before after broken) (hbefore : before ≠ [])
    (hfeed : rest.flatten.head? = some 10) :
    chunk.getLast? = some 13 ↔ (ofChars before).getLast? = some 13 := by
  have hbytes := h.bytes
  rw [h.broken_eq_nil hfeed, List.append_nil] at hbytes
  rw [← List.getLast?_append_of_ne_nil held (h.chunk_ne_nil hbefore), hbytes]
  exact getLast?_encodeUtf8_iff (k := 13) (by decide) before

-- A chunk with a whole character in it starts afresh what comes after a carriage return.
theorem partsEndFrom_iff (h : Step held chunk rest before after broken) (hbefore : before ≠ []) :
    PartsEndFrom afterReturn (chunk :: rest) ↔
      PartsEndFrom ((ofChars before).getLast? == some 13) rest := by
  have hends : (chunk.getLast? = some 13 ∧ ∃ after, rest = [] :: after ∧
      after.flatten.head? = some 10) ↔ (((ofChars before).getLast? == some 13) = true ∧
        ∃ after, rest = [] :: after ∧ after.flatten.head? = some 10) := by
    rw [beq_iff_eq]
    refine and_congr_left ?_
    rintro ⟨after, rfl, hfeed⟩
    exact h.ends_iff hbefore hfeed
  rw [PartsEndFrom, PartsEndFrom, partsEnd_cons, hends, or_iff_right]
  rintro ⟨-, after, hchunk, -⟩
  exact h.chunk_ne_nil hbefore (List.cons.inj hchunk).1

-- A chunk without one parts the end of a line if the next character is the line feed.
theorem parts_of_feed (h : Step held chunk rest [] after broken)
    (hfeed : (ofChars after).head? = some 10) :
    chunk = [] ∧ rest.flatten.head? = some 10 := by
  have hhead : (encodeUtf8 after).head? = some 10 :=
    (head?_encodeUtf8_iff (k := 10) (by decide) after).mpr hfeed
  have hbroken : broken = [] := h.breaks.eq_nil_of_head hhead (by decide)
  have hbytes := h.bytes
  have hrest := h.remaining
  rw [hbroken] at hbytes hrest
  rw [← hrest] at hhead
  exact ⟨(List.append_eq_nil_iff.mp hbytes).2, hhead⟩

theorem partsEndFrom_iff_of_not (h : Step held chunk rest [] after broken)
    (hfeed : afterReturn = true → (ofChars after).head? ≠ some 10) :
    PartsEndFrom afterReturn (chunk :: rest) ↔ PartsEndFrom false rest := by
  have hnil : rest.flatten.head? = some 10 → chunk = [] ∧ (ofChars after).head? = some 10 := by
    intro hhead
    have hbytes := h.bytes
    have hrest := h.remaining
    rw [h.broken_eq_nil hhead] at hbytes hrest
    refine ⟨(List.append_eq_nil_iff.mp hbytes).2, ?_⟩
    refine (head?_encodeUtf8_iff (k := 10) (by decide) after).mp ?_
    rw [← hrest]
    exact hhead
  rw [PartsEndFrom, PartsEndFrom, partsEnd_cons, or_iff_right, or_iff_right, or_iff_right]
  · exact fun hfalse => nomatch hfalse.1
  · rintro ⟨hlast, after', rfl, hhead⟩
    rw [(hnil hhead).1] at hlast
    cases hlast
  · rintro ⟨hreturn, after', hchunks, hhead⟩
    cases hchunks
    exact hfeed hreturn (hnil hhead).2

end Step

-- What the reading of chunks still gives: the lines of the text that is left if none of them parts an
-- end, and else more lines than that.
structure ReadsLines (reader : LineReader) (chunks : List (List UInt8)) (t : Text) : Prop where
  same : ¬PartsEndFrom reader.afterReturn chunks →
    reader.readAll chunks = linesFrom reader.line reader.afterReturn t
  more : PartsEndFrom reader.afterReturn chunks →
    (linesFrom reader.line reader.afterReturn t).length < (reader.readAll chunks).length

theorem readsLines_nil (held : List UInt8) (hline : afterReturn = true → line = []) :
    ReadsLines ⟨held, line, afterReturn⟩ [] [] where
  same _ := by cases afterReturn <;> rfl
  more := by
    rintro (⟨-, after, hchunks, -⟩ | ⟨before, last, after, hchunks, -⟩)
    · cases hchunks
    · simp at hchunks

namespace Step

-- A chunk without a whole character ends no line, and what comes after it is no longer right after
-- the carriage return.
theorem readAll_of_nil (h : Step held chunk rest [] after broken) (line : Text)
    (afterReturn : Bool) :
    (⟨held, line, afterReturn⟩ : LineReader).readAll (chunk :: rest) =
      (⟨broken, line, false⟩ : LineReader).readAll rest := by
  rw [LineReader.readAll, h.feed_eq]
  cases afterReturn <;> rfl

-- The line feed that is to come has lost its carriage return, and makes an empty line.
theorem readsLines_parted (h : Step held chunk rest [] after broken)
    (hfeed : (ofChars after).head? = some 10)
    (hnext : ReadsLines ⟨broken, [], false⟩ rest (ofChars after)) :
    ReadsLines ⟨held, [], true⟩ (chunk :: rest) (ofChars after) := by
  obtain ⟨hchunk, hrest⟩ := h.parts_of_feed hfeed
  have hlength : (linesFrom [] false (ofChars after)).length =
      (linesFrom [] true (ofChars after)).length + 1 := by
    obtain ⟨t, ht⟩ := List.head?_eq_some_iff.mp hfeed
    rw [ht, linesFrom_feed, List.length_cons]
  constructor
  · exact fun hparts => absurd (.inl ⟨rfl, rest, by rw [hchunk], hrest⟩) hparts
  · intro
    simp only [h.readAll_of_nil]
    by_cases hparts : PartsEndFrom false rest
    · have hmore := hnext.more hparts
      simp only at hmore
      omega
    · rw [hnext.same hparts]
      simp only
      omega

theorem readsLines_of_nil (h : Step held chunk rest [] after broken)
    (hfeed : afterReturn = true → (ofChars after).head? ≠ some 10)
    (hnext : ReadsLines ⟨broken, line, false⟩ rest (ofChars after)) :
    ReadsLines ⟨held, line, afterReturn⟩ (chunk :: rest) (ofChars after) := by
  have hlines : linesFrom line afterReturn (ofChars after) =
      linesFrom line false (ofChars after) := by
    rw [linesFrom, linesFrom, afterEnd_of_head? hfeed, afterEnd_false]
  obtain ⟨hsame, hmore⟩ := hnext
  constructor
  all_goals rw [h.partsEndFrom_iff_of_not hfeed, h.readAll_of_nil, hlines]
  · exact hsame
  · exact hmore

theorem readsLines_of_ne_nil (h : Step held chunk rest before after broken) (hbefore : before ≠ [])
    (hnext : ReadsLines ⟨broken, (cutLines true line (afterEnd afterReturn (ofChars before))).2,
      (ofChars before).getLast? == some 13⟩ rest (ofChars after)) :
    ReadsLines ⟨held, line, afterReturn⟩ (chunk :: rest) (ofChars (before ++ after)) := by
  obtain ⟨hsame, hmore⟩ := hnext
  constructor
  all_goals
    rw [h.partsEndFrom_iff hbefore, LineReader.readAll, h.feed_eq, ofChars_append,
      linesFrom_append (ofChars_ne_nil hbefore)]
    simp only [List.length_append, List.append_cancel_left_eq, Nat.add_lt_add_iff_left]
  · exact hsame
  · exact hmore

end Step

-- The reading, over the chunks: it stands within a character, and after a carriage return no line is
-- under way.
theorem readsLines (chunks : List (List UInt8))
    (hbytes : held ++ chunks.flatten = encodeUtf8 cs) (hheld : Breaks held cs)
    (hline : afterReturn = true → line = []) :
    ReadsLines ⟨held, line, afterReturn⟩ chunks (ofChars cs) := by
  induction chunks generalizing held line afterReturn cs with
  | nil =>
    obtain rfl : cs = [] := by
      rw [List.flatten_nil, List.append_nil] at hbytes
      rw [hbytes] at hheld
      have hwhole : Breaks (encodeUtf8 cs ++ []) (cs ++ []) := by simpa using hheld
      exact hwhole.eq_nil_of_whole
    exact readsLines_nil held hline
  | cons chunk rest ih =>
    obtain ⟨before, after, broken, rfl, hstep⟩ := exists_step hheld hbytes
    by_cases hbefore : before = []
    · subst hbefore
      have hunended : false = true → line = [] := nofun
      have hnext := ih hstep.remaining hstep.breaks hunended
      by_cases hfeed : afterReturn = true ∧ (ofChars after).head? = some 10
      · obtain ⟨rfl, hhead⟩ := hfeed
        obtain rfl := hline rfl
        exact hstep.readsLines_parted hhead hnext
      · exact hstep.readsLines_of_nil (fun hreturn hhead => hfeed ⟨hreturn, hhead⟩) hnext
    · have hended : ((ofChars before).getLast? == some 13) = true →
          (cutLines true line (afterEnd afterReturn (ofChars before))).2 = [] := fun hreturn => by
        rw [← endsInReturn_afterEnd afterReturn, beq_iff_eq] at hreturn
        exact cutLines_snd_eq_nil hreturn line
      exact hstep.readsLines_of_ne_nil hbefore (ih hstep.remaining hstep.breaks hended)

-- The lines of a stream have no end in them, however the bytes come.
theorem oneLine_cutLines (hline : line.OneLine) (t : Text) :
    (∀ l ∈ (cutLines true line t).1, l.OneLine) ∧ OneLine (cutLines true line t).2 := by
  have hreverse : ∀ {line : Text}, line.OneLine → OneLine line.reverse := fun h u hu =>
    h u (List.mem_reverse.mp hu)
  have hnil : OneLine [] := nofun
  induction t using ends_induction generalizing line with
  | nil => exact ⟨nofun, hline⟩
  | feed t ih =>
    rw [cutLines_feed, List.forall_mem_cons]
    exact ⟨⟨hreverse hline, (ih hnil).1⟩, (ih hnil).2⟩
  | pair t ih =>
    rw [cutLines_return_feed, List.forall_mem_cons]
    exact ⟨⟨hreverse hline, (ih hnil).1⟩, (ih hnil).2⟩
  | lone t hhead ih =>
    rw [cutLines_return, afterEnd_of_head? fun _ => hhead, List.forall_mem_cons]
    exact ⟨⟨hreverse hline, (ih hnil).1⟩, (ih hnil).2⟩
  | unit u t hfeed hreturn ih =>
    rw [cutLines_unit hfeed hreturn]
    exact ih (List.forall_mem_cons.mpr ⟨⟨hfeed, hreturn⟩, hline⟩)

theorem oneLine_readAll (reader : LineReader) (hline : reader.line.OneLine)
    (chunks : List (List UInt8)) : ∀ l ∈ reader.readAll chunks, l.OneLine := by
  induction chunks generalizing reader with
  | nil =>
    intro l hl u hu
    rw [LineReader.readAll, lastLine] at hl
    split at hl
    · cases hl
    · rw [List.mem_singleton.mp hl] at hu
      exact hline u (List.mem_reverse.mp hu)
  | cons chunk rest ih =>
    obtain ⟨hlines, hnext⟩ := oneLine_cutLines hline
      (afterEnd reader.afterReturn (decodeUtf8 (finishedBytes (reader.held ++ chunk))))
    rw [LineReader.readAll, List.forall_mem_append]
    exact ⟨hlines, ih _ hnext⟩

-- The lines of a text that comes as bytes, cut into chunks anywhere, are those of the text at hand
-- just where no carriage return stands alone and none is parted from its line feed. Where none is
-- parted, the only other thing that ends a line of the stream is a carriage return alone.
theorem linesOfStream_eq_lines_iff {s : String} {chunks : List (List UInt8)}
    (h : chunks.flatten = s.toUTF8.data.toList) :
    (linesOfStream chunks = lines (ofString s) ↔
      ReturnsPaired (ofString s) ∧ ¬PartsEnd chunks) ∧
    (¬PartsEnd chunks → linesOfStream chunks = allLines true (ofString s)) ∧
    ∃ pieces last, ofString s = pieces.flatMap (· ++ [10]) ++ last ∧
      (∀ piece ∈ last :: pieces, 10 ∉ piece) ∧
      lines (ofString s) = pieces.map dropReturn ++ if last = [] then [] else [last] := by
  have hparts : PartsEndFrom false chunks ↔ PartsEnd chunks :=
    or_iff_right fun hfalse => nomatch hfalse.1
  have hbytes : [] ++ chunks.flatten = encodeUtf8 s.toList := by
    rw [List.nil_append, h, toUTF8_eq]
  have hunended : false = true → ([] : Text) = [] := nofun
  obtain ⟨hsame, hmore⟩ := readsLines chunks hbytes (.inl rfl) hunended
  rw [hparts] at hsame hmore
  have hwhole : ¬PartsEnd chunks → linesOfStream chunks = allLines true (ofString s) := hsame
  have hlonger : PartsEnd chunks →
      (allLines true (ofString s)).length < (linesOfStream chunks).length := hmore
  refine ⟨⟨fun heq => ?_, fun ⟨hpaired, hn⟩ => ?_⟩, hwhole, ?_⟩
  · have hpaired : ReturnsPaired (ofString s) := by
      by_contra hlone
      obtain ⟨l, hl, hmem⟩ := exists_return_of_not_returnsPaired hlone
      rw [← heq] at hl
      exact (oneLine_readAll .start nofun chunks l hl 13 hmem).2 rfl
    refine ⟨hpaired, fun hends => ?_⟩
    have hlength := hlonger hends
    rw [allLines_of_returnsPaired hpaired, heq] at hlength
    exact absurd hlength (Nat.lt_irrefl _)
  · rw [hwhole hn, allLines_of_returnsPaired hpaired]
  · obtain ⟨pieces, last, ht, hpieces, hlast⟩ := exists_pieces (ofString s)
    refine ⟨pieces, last, ht, List.forall_mem_cons.mpr ⟨hlast, hpieces⟩, ?_⟩
    rw [ht, lines_pieces hpieces hlast]

-- Chunks that end within a character and between a carriage return and its line feed.
theorem linesOfStream_eq_lines_iff_cutWithin :
    let s := "é\r\nb"
    let chunks : List (List UInt8) := [[0xC3], [0xA9, 13], [10, 98]]
    chunks.flatten = s.toUTF8.data.toList ∧ linesOfStream chunks = [ofString "é", ofString "b"] ∧
      (linesOfStream chunks = lines (ofString s) ↔
        ReturnsPaired (ofString s) ∧ ¬PartsEnd chunks) ∧
      (¬PartsEnd chunks → linesOfStream chunks = allLines true (ofString s)) ∧
      ∃ pieces last, ofString s = pieces.flatMap (· ++ [10]) ++ last ∧
        (∀ piece ∈ last :: pieces, 10 ∉ piece) ∧
        lines (ofString s) = pieces.map dropReturn ++ if last = [] then [] else [last] := by
  intro s chunks
  have hbytes : chunks.flatten = s.toUTF8.data.toList := by
    rw [toUTF8_eq]
    decide +kernel
  exact ⟨hbytes, by decide +kernel, linesOfStream_eq_lines_iff hbytes⟩

-- A carriage return that stands alone ends a line of a stream, and none of a text at hand.
theorem linesOfStream_ne_lines : ¬∀ (s : String) (chunks : List (List UInt8)),
    chunks.flatten = s.toUTF8.data.toList → linesOfStream chunks = lines (ofString s) := by
  intro h
  have hbytes : [[97, 13, 98]].flatten = "a\rb".toUTF8.data.toList := by
    rw [toUTF8_eq]
    decide +kernel
  have hlines := h "a\rb" [[97, 13, 98]] hbytes
  revert hlines
  decide +kernel

end RecordQuery.Text
