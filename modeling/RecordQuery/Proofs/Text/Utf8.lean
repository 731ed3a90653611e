import Mathlib.Tactic
import RecordQuery.Text.Utf8

/-!
Characters as bytes in UTF-8. What the decoder makes of the bytes of a character is that character,
and bytes that break off inside a character are told from those that do not by their last three.
-/

namespace RecordQuery.Text

variable {n : ℕ} {b : UInt8} {p : Utf8Partial} {bytes rest : List UInt8} {c : Char}

-- A byte that goes on a character.
def IsContinuation (b : UInt8) : Prop := 0x80 ≤ b.toNat ∧ b.toNat < 0xC0

-- The bytes of characters.
def encodeUtf8 (cs : List Char) : List UInt8 := cs.flatMap String.utf8EncodeChar

theorem encodeUtf8_append (before after : List Char) :
    encodeUtf8 (before ++ after) = encodeUtf8 before ++ encodeUtf8 after := List.flatMap_append

theorem toUTF8_eq (s : String) : s.toUTF8.data.toList = encodeUtf8 s.toList := by
  rw [String.toUTF8, ← String.utf8Encode_toList, List.utf8Encode, List.toList_data_toByteArray]
  rfl

theorem announcedLength_eq (b : UInt8) : announcedLength b =
    if b.toNat < 0xC0 then 1
    else if b.toNat < 0xE0 then 2
    else if b.toNat < 0xF0 then 3
    else if b.toNat < 0xF8 then 4
    else 1 := by
  simp only [announcedLength, UInt8.le_iff_toNat_le, Bool.and_eq_true, decide_eq_true_eq,
    UInt8.reduceToNat]
  split_ifs <;> omega

-- What the first byte of a character says: how many bytes follow it, and that it starts one.
structure Leads (b : UInt8) (following : List UInt8) : Prop where
  announced : announcedLength b = following.length + 1
  first : ¬IsContinuation b
  continued : ∀ x ∈ following, IsContinuation x
  single : following = [] ↔ b.toNat < 0x80

theorem utf8EncodeChar_leads (c : Char) :
    ∃ b following, String.utf8EncodeChar c = b :: following ∧ Leads b following := by
  have hvalid : c.val.toNat < 0x110000 := by
    have h := c.valid
    simp only [UInt32.isValidChar, Nat.isValidChar] at h
    omega
  unfold String.utf8EncodeChar
  generalize c.val.toNat = n at hvalid
  simp only
  split_ifs
  all_goals
    refine ⟨_, _, rfl, ?_, ?_, ?_, ?_⟩
    · rw [announcedLength_eq, UInt8.toNat_ofNat']
      simp only [List.length_cons, List.length_nil]
      split_ifs <;> omega
    · rw [IsContinuation, UInt8.toNat_ofNat']
      omega
    · simp only [List.forall_mem_cons, IsContinuation, UInt8.toNat_ofNat', List.not_mem_nil,
        false_imp_iff, implies_true, and_true] <;> omega
    · simp only [UInt8.toNat_ofNat', reduceCtorEq, true_iff, false_iff]
      omega

-- First bytes, by the bits of the character that they carry.
theorem utf8Lead_single (h : n < 0x80) : utf8Lead (UInt8.ofNat n) = .single n := by
  have hnat : (UInt8.ofNat n).toNat = n := by
    rw [UInt8.toNat_ofNat']
    omega
  have hlt : UInt8.ofNat n < 0x80 := UInt8.lt_iff_toNat_lt.mpr (by rwa [hnat])
  rw [utf8Lead, if_pos hlt, hnat]

theorem utf8Lead_two (hlow : 2 ≤ n) (hhigh : n < 32) :
    utf8Lead (UInt8.ofNat (n + 192)) = .opens ⟨n, 1, 0x80, 0xBF⟩ := by
  interval_cases n <;> rfl

theorem utf8Lead_three (h : n < 16) : utf8Lead (UInt8.ofNat (n + 224)) =
    .opens ⟨n, 2, if n = 0 then 0xA0 else 0x80, if n = 13 then 0x9F else 0xBF⟩ := by
  interval_cases n <;> rfl

theorem utf8Lead_four (h : n < 5) : utf8Lead (UInt8.ofNat (n + 240)) =
    .opens ⟨n, 3, if n = 0 then 0x90 else 0x80, if n = 4 then 0x8F else 0xBF⟩ := by
  interval_cases n <;> rfl

-- A first byte, and a byte that goes on the character under way, as its last one or not.
theorem decodeUtf8From_single (h : utf8Lead b = .single n) :
    decodeUtf8From none (b :: rest) = n.toUInt16 :: decodeUtf8From none rest := by
  rw [decodeUtf8From, h]
  rfl

theorem decodeUtf8From_opens (h : utf8Lead b = .opens p) :
    decodeUtf8From none (b :: rest) = decodeUtf8From (some p) rest := by
  rw [decodeUtf8From, h]
  rfl

theorem decodeUtf8From_next {bits missing : ℕ} {low high : UInt8} (hn : n < 64)
    (hlow : low.toNat ≤ n + 128) (hhigh : n + 128 ≤ high.toNat) :
    decodeUtf8From (some ⟨bits, missing + 2, low, high⟩) (UInt8.ofNat (n + 128) :: rest) =
      decodeUtf8From (some ⟨bits * 64 + n, missing + 1, 0x80, 0xBF⟩) rest := by
  have hnat : (UInt8.ofNat (n + 128)).toNat = n + 128 := by
    rw [UInt8.toNat_ofNat']
    omega
  generalize UInt8.ofNat (n + 128) = b at hnat
  simp [decodeUtf8From, UInt8.le_iff_toNat_le, hnat, hlow, hhigh]

theorem decodeUtf8From_last {bits : ℕ} (hn : n < 64) :
    decodeUtf8From (some ⟨bits, 1, 0x80, 0xBF⟩) (UInt8.ofNat (n + 128) :: rest) =
      ofCodePoint (bits * 64 + n) ++ decodeUtf8From none rest := by
  have hnat : (UInt8.ofNat (n + 128)).toNat = n + 128 := by
    rw [UInt8.toNat_ofNat']
    omega
  have hhigh : n + 128 ≤ 0xBF := by omega
  generalize UInt8.ofNat (n + 128) = b at hnat
  simp [decodeUtf8From, UInt8.le_iff_toNat_le, hnat, hhigh]

theorem ofCodePoint_val (c : Char) : ofCodePoint c.val.toNat = ofChar c := by
  unfold ofCodePoint ofChar
  simp only [UInt32.lt_iff_toNat_lt, UInt32.reduceToNat]
  split
  · rfl
  · next h =>
    have hvalid := c.valid
    simp only [UInt32.isValidChar, Nat.isValidChar] at hvalid
    have hoffset : (c.val - 0x10000).toNat = c.val.toNat - 0x10000 := by
      rw [UInt32.toNat_sub_of_le _ _ (UInt32.le_iff_toNat_le.mpr (Nat.le_of_not_lt h))]
      rfl
    simp only [List.cons.injEq, and_true, ← UInt16.toNat_inj, UInt32.toNat_toUInt16,
      UInt32.toNat_add, UInt32.toNat_div, UInt32.toNat_mod, hoffset, UInt32.reduceToNat,
      Nat.toUInt16, UInt16.toNat_ofNat']
    omega

theorem decodeUtf8From_char (c : Char) (rest : List UInt8) :
    decodeUtf8From none (String.utf8EncodeChar c ++ rest) =
      ofChar c ++ decodeUtf8From none rest := by
  have hvalid := c.valid
  simp only [UInt32.isValidChar, Nat.isValidChar] at hvalid
  rw [← ofCodePoint_val]
  unfold String.utf8EncodeChar
  generalize c.val.toNat = n at hvalid
  simp only
  split_ifs with h1 h2 h3
  · rw [List.singleton_append, decodeUtf8From_single (utf8Lead_single (by omega)), ofCodePoint,
      if_pos (by omega)]
    rfl
  · have htop : n / 64 % 32 = n / 64 := by omega
    have hbits : n / 64 * 64 + n % 64 = n := by omega
    rw [htop, List.cons_append, decodeUtf8From_opens (utf8Lead_two (by omega) (by omega)),
      List.singleton_append, decodeUtf8From_last (by omega), hbits]
  · have htop : n / 4096 % 16 = n / 4096 := by omega
    have hbits : (n / 4096 * 64 + n / 64 % 64) * 64 + n % 64 = n := by omega
    rw [htop, List.cons_append, decodeUtf8From_opens (utf8Lead_three (by omega)), List.cons_append,
      decodeUtf8From_next (by omega) ?_ ?_, List.singleton_append,
      decodeUtf8From_last (by omega), hbits]
    · split_ifs <;> simp only [UInt8.reduceToNat] <;> omega
    · split_ifs <;> simp only [UInt8.reduceToNat] <;> omega
  · have htop : n / 262144 % 8 = n / 262144 := by omega
    have hbits : ((n / 262144 * 64 + n / 4096 % 64) * 64 + n / 64 % 64) * 64 + n % 64 = n := by
      omega
    rw [htop, List.cons_append, decodeUtf8From_opens (utf8Lead_four (by omega)), List.cons_append,
      decodeUtf8From_next (by omega) ?_ ?_, List.cons_append,
      decodeUtf8From_next (by omega) ?_ ?_, List.singleton_append,
      decodeUtf8From_last (by omega), hbits]
    · simp only [UInt8.reduceToNat]
      omega
    · simp only [UInt8.reduceToNat]
      omega
    · split_ifs <;> simp only [UInt8.reduceToNat] <;> omega
    · split_ifs <;> simp only [UInt8.reduceToNat] <;> omega

theorem decodeUtf8_encodeUtf8 (cs : List Char) : decodeUtf8 (encodeUtf8 cs) = ofChars cs := by
  induction cs with
  | nil => rfl
  | cons c cs ih => exact (decodeUtf8From_char c _).trans (congrArg (ofChar c ++ ·) ih)

theorem isContinuation_iff : IsContinuation b ↔ (0x80 ≤ b && b ≤ 0xBF) = true := by
  simp only [IsContinuation, UInt8.le_iff_toNat_le, UInt8.reduceToNat, Bool.and_eq_true,
    decide_eq_true_eq]
  omega

-- Up to two bytes that go on a character are passed over in the search for its first one.
theorem unfinishedLength_append {length : ℕ} {following : List UInt8}
    (hfollowing : ∀ x ∈ following, IsContinuation x) (hb : ¬IsContinuation b)
    (hlength : length + following.length ≤ 2) (rest : List UInt8) :
    unfinishedLength length (following ++ b :: rest) =
      if length + following.length + 1 < announcedLength b then length + following.length + 1
      else 0 := by
  induction following generalizing length with
  | nil =>
    rw [isContinuation_iff] at hb
    rw [List.nil_append, unfinishedLength, if_neg hb]
    rfl
  | cons x following ih =>
    obtain ⟨hx, hrest⟩ := List.forall_mem_cons.mp hfollowing
    rw [List.length_cons] at hlength ⊢
    rw [List.cons_append, unfinishedLength, if_pos (isContinuation_iff.mp hx), if_pos (by omega),
      ih hrest (by omega), show length + 1 + following.length = length + (following.length + 1) by
        omega]

-- Of a character that breaks off there are the bytes so far, of one that does not there are none.
theorem unfinishedLength_prefix {following sofar : List UInt8} (h : Leads b following)
    (hsofar : sofar <+: following) (rest : List UInt8) :
    unfinishedLength 0 (sofar.reverse ++ b :: rest) =
      if sofar = following then 0 else sofar.length + 1 := by
  have hcontinued : ∀ x ∈ sofar.reverse, IsContinuation x := fun x hx =>
    h.continued x (hsofar.subset (List.mem_reverse.mp hx))
  have hmost : following.length ≤ 3 := by
    have hannounced := h.announced
    rw [announcedLength_eq] at hannounced
    split_ifs at hannounced <;> omega
  have hwhole : sofar = following ↔ ¬sofar.length < following.length :=
    ⟨fun heq => by simp [heq], fun hn => hsofar.eq_of_length_le (Nat.le_of_not_lt hn)⟩
  by_cases hlength : sofar.length ≤ 2
  · rw [unfinishedLength_append hcontinued h.first (by simpa using hlength), h.announced,
      List.length_reverse, Nat.zero_add]
    by_cases hlt : sofar.length < following.length
    · rw [if_pos (by omega), if_neg (by rw [hwhole]; simpa using hlt)]
    · rw [if_neg (by omega), if_pos (hwhole.mpr hlt)]
  · have hthree : sofar.length = 3 := by
      have := hsofar.length_le
      omega
    rw [if_pos (hwhole.mpr (by omega))]
    rw [← List.length_reverse] at hthree
    obtain ⟨x, y, z, hreverse⟩ := List.length_eq_three.mp hthree
    rw [hreverse] at hcontinued ⊢
    obtain ⟨hx, hy, hz, -⟩ : _ ∧ _ ∧ _ ∧ _ := by
      simpa only [List.forall_mem_cons, isContinuation_iff] using hcontinued
    simp only [List.cons_append, unfinishedLength, hx, hy, hz]
    rfl

-- The bytes of a character that breaks off, maybe before its first byte, with the characters from
-- there on.
def Breaks (bytes : List UInt8) (cs : List Char) : Prop :=
  bytes = [] ∨ ∃ c rest, cs = c :: rest ∧ bytes <+: String.utf8EncodeChar c ∧
    bytes ≠ String.utf8EncodeChar c

theorem unfinishedLength_encodeUtf8 (cs : List Char) :
    unfinishedLength 0 (encodeUtf8 cs).reverse = 0 := by
  rcases List.eq_nil_or_concat cs with rfl | ⟨before, c, rfl⟩
  · rfl
  · obtain ⟨b, following, hbytes, hleads⟩ := utf8EncodeChar_leads c
    rw [List.concat_eq_append, encodeUtf8, List.flatMap_append, List.flatMap_singleton, hbytes,
      List.reverse_append, List.reverse_cons, List.append_assoc, List.singleton_append,
      unfinishedLength_prefix hleads List.prefix_rfl, if_pos rfl]

theorem unfinishedLength_append_breaks {after : List Char} (h : Breaks bytes after)
    (before : List Char) : unfinishedLength 0 (encodeUtf8 before ++ bytes).reverse = bytes.length := by
  rcases h with rfl | ⟨c, rest, -, hopens, hne⟩
  · rw [List.append_nil, unfinishedLength_encodeUtf8, List.length_nil]
  · obtain ⟨b, following, hc, hleads⟩ := utf8EncodeChar_leads c
    rw [hc] at hopens hne
    cases bytes with
    | nil => rw [List.append_nil, unfinishedLength_encodeUtf8, List.length_nil]
    | cons b' sofar =>
      obtain ⟨rfl, hsofar⟩ := List.cons_prefix_cons.mp hopens
      have hbreaks : sofar ≠ following := fun heq => hne (by rw [heq])
      rw [List.reverse_append, List.reverse_cons, List.append_assoc, List.singleton_append,
        unfinishedLength_prefix hleads hsofar, if_neg hbreaks, List.length_cons]

theorem finishedBytes_append {after : List Char} (h : Breaks bytes after) (before : List Char) :
    finishedBytes (encodeUtf8 before ++ bytes) = encodeUtf8 before := by
  rw [finishedBytes, unfinishedLength_append_breaks h, List.length_append, Nat.add_sub_cancel,
    List.take_left]

-- Wherever the bytes of characters are cut, there are whole characters before the cut, and at most
-- one that breaks off.
theorem exists_breaks {cs : List Char} (h : bytes <+: encodeUtf8 cs) :
    ∃ before after broken, cs = before ++ after ∧ bytes = encodeUtf8 before ++ broken ∧
      Breaks broken after := by
  induction cs generalizing bytes with
  | nil => exact ⟨[], [], [], rfl, List.prefix_nil.mp h, .inl rfl⟩
  | cons c cs ih =>
    rcases List.prefix_or_prefix_of_prefix (List.prefix_append (String.utf8EncodeChar c) _) h with
      hwhole | hbroken
    · obtain ⟨bytes, rfl⟩ := hwhole
      obtain ⟨before, after, broken, rfl, rfl, hbreaks⟩ :=
        ih (List.prefix_append_right_inj _ |>.mp h)
      exact ⟨c :: before, after, broken, rfl, (List.append_assoc _ _ _).symm, hbreaks⟩
    · by_cases heq : bytes = String.utf8EncodeChar c
      · exact ⟨[c], cs, [], rfl, by simp [heq, encodeUtf8], .inl rfl⟩
      · exact ⟨[], c :: cs, bytes, rfl, rfl, .inr ⟨c, cs, rfl, hbroken, heq⟩⟩

theorem Breaks.eq_nil_of_whole {before after : List Char}
    (h : Breaks (encodeUtf8 before ++ bytes) (before ++ after)) : before = [] := by
  cases before with
  | nil => rfl
  | cons c before =>
    have hlength :
        (String.utf8EncodeChar c).length ≤ (encodeUtf8 (c :: before) ++ bytes).length := by
      rw [encodeUtf8, List.flatMap_cons, List.append_assoc, List.length_append]
      exact Nat.le_add_right _ _
    rcases h with hnil | ⟨c', rest, hcs, hopens, hne⟩
    · rw [hnil, List.length_nil, Nat.le_zero, List.length_eq_zero_iff] at hlength
      exact absurd hlength String.utf8EncodeChar_ne_nil
    · cases hcs
      exact absurd (hopens.eq_of_length_le hlength) hne

-- All bytes of a character that breaks off after some of them are beyond ASCII.
theorem Breaks.high {cs : List Char} (h : Breaks bytes cs) (hbytes : bytes ≠ []) :
    ∃ missing rest, missing ≠ [] ∧ encodeUtf8 cs = bytes ++ (missing ++ rest) ∧
      ∀ x ∈ bytes ++ missing, 0x80 ≤ x.toNat := by
  obtain ⟨c, cs, rfl, ⟨missing, hmissing⟩, hne⟩ := h.resolve_left hbytes
  have hsome : missing ≠ [] := by
    rintro rfl
    exact hne (by rwa [List.append_nil] at hmissing)
  refine ⟨missing, encodeUtf8 cs, hsome, ?_, ?_⟩
  · rw [← List.append_assoc, hmissing]
    rfl
  · obtain ⟨lead, following, hc, hleads⟩ := utf8EncodeChar_leads c
    have hfollowing : following ≠ [] := by
      rintro rfl
      rw [hc, List.append_eq_singleton_iff] at hmissing
      rcases hmissing with ⟨hnil, -⟩ | ⟨-, hnil⟩
      · exact hbytes hnil
      · exact hsome hnil
    rw [hmissing, hc, List.forall_mem_cons]
    exact ⟨Nat.le_of_not_lt fun hlt => hfollowing (hleads.single.mpr hlt),
      fun x hx => (hleads.continued x hx).1⟩

-- No character breaks off in front of a byte that is one by itself, and none that is such a byte.
theorem Breaks.eq_nil_of_rest {cs : List Char} (h : Breaks bytes cs)
    (hcs : bytes ++ rest = encodeUtf8 cs) (hhead : rest.head? = some b) (hb : b.toNat < 0x80) :
    bytes = [] := by
  by_contra hbytes
  obtain ⟨missing, more, hsome, hmore, hhigh⟩ := h.high hbytes
  rw [hmore, List.append_cancel_left_eq] at hcs
  obtain ⟨x, missing, rfl⟩ := List.exists_cons_of_ne_nil hsome
  rw [hcs, List.cons_append, List.head?_cons, Option.some.injEq] at hhead
  exact absurd hb (Nat.not_lt.mpr (hhead ▸ hhigh x (by simp)))

theorem Breaks.eq_nil_of_head {cs : List Char} (h : Breaks bytes cs)
    (hhead : (encodeUtf8 cs).head? = some b) (hb : b.toNat < 0x80) : bytes = [] := by
  by_contra hbytes
  obtain ⟨missing, more, -, hmore, hhigh⟩ := h.high hbytes
  obtain ⟨x, bytes, rfl⟩ := List.exists_cons_of_ne_nil hbytes
  rw [hmore, List.cons_append, List.head?_cons, Option.some.injEq] at hhead
  exact absurd hb (Nat.not_lt.mpr (hhead ▸ hhigh x (by simp)))

-- A character that begins or ends with a byte in ASCII, or with such a unit, is nothing but that.
theorem utf8EncodeChar_ends_iff {k : ℕ} (hk : k < 0x80) (c : Char) :
    ((String.utf8EncodeChar c).head? = some (UInt8.ofNat k) ↔ c.val.toNat = k) ∧
      ((String.utf8EncodeChar c).getLast? = some (UInt8.ofNat k) ↔ c.val.toNat = k) := by
  have hvalid := c.valid
  simp only [UInt32.isValidChar, Nat.isValidChar] at hvalid
  unfold String.utf8EncodeChar
  generalize c.val.toNat = n at hvalid
  simp only
  split_ifs <;>
    simp only [List.head?_cons, List.getLast?_cons_cons, List.getLast?_singleton,
      Option.some.injEq, ← UInt8.toNat_inj, UInt8.toNat_ofNat'] <;> omega

theorem ofChar_ends_iff {k : ℕ} (hk : k < 0x80) (c : Char) :
    ((ofChar c).head? = some (UInt16.ofNat k) ↔ c.val.toNat = k) ∧
      ((ofChar c).getLast? = some (UInt16.ofNat k) ↔ c.val.toNat = k) := by
  have hvalid := c.valid
  simp only [UInt32.isValidChar, Nat.isValidChar] at hvalid
  rw [← ofCodePoint_val]
  unfold ofCodePoint
  generalize c.val.toNat = n at hvalid
  split_ifs <;>
    simp only [List.head?_cons, List.getLast?_cons_cons, List.getLast?_singleton, Nat.toUInt16,
      Option.some.injEq, ← UInt16.toNat_inj, UInt16.toNat_ofNat'] <;> omega

theorem ofChar_ne_nil (c : Char) : ofChar c ≠ [] := by
  unfold ofChar
  split <;> simp

theorem ofChars_append (before after : List Char) :
    ofChars (before ++ after) = ofChars before ++ ofChars after := List.flatMap_append

theorem ofChars_ne_nil {cs : List Char} (h : cs ≠ []) : ofChars cs ≠ [] := by
  obtain ⟨c, rest, rfl⟩ := List.exists_cons_of_ne_nil h
  exact List.append_ne_nil_of_left_ne_nil (ofChar_ne_nil c) _

theorem head?_encodeUtf8_iff {k : ℕ} (hk : k < 0x80) (cs : List Char) :
    (encodeUtf8 cs).head? = some (UInt8.ofNat k) ↔ (ofChars cs).head? = some (UInt16.ofNat k) := by
  cases cs with
  | nil => simp [encodeUtf8, ofChars]
  | cons c cs =>
    rw [encodeUtf8, ofChars, List.flatMap_cons, List.flatMap_cons,
      List.head?_append_of_ne_nil _ String.utf8EncodeChar_ne_nil,
      List.head?_append_of_ne_nil _ (ofChar_ne_nil c),
      (utf8EncodeChar_ends_iff hk c).1, (ofChar_ends_iff hk c).1]

theorem getLast?_encodeUtf8_iff {k : ℕ} (hk : k < 0x80) (cs : List Char) :
    (encodeUtf8 cs).getLast? = some (UInt8.ofNat k) ↔
      (ofChars cs).getLast? = some (UInt16.ofNat k) := by
  rcases List.eq_nil_or_concat cs with rfl | ⟨before, c, rfl⟩
  · simp [encodeUtf8, ofChars]
  · rw [List.concat_eq_append, encodeUtf8, ofChars, List.flatMap_append, List.flatMap_append,
      List.flatMap_singleton, List.flatMap_singleton,
      List.getLast?_append_of_ne_nil _ String.utf8EncodeChar_ne_nil,
      List.getLast?_append_of_ne_nil _ (ofChar_ne_nil c),
      (utf8EncodeChar_ends_iff hk c).2, (ofChar_ends_iff hk c).2]

end RecordQuery.Text
