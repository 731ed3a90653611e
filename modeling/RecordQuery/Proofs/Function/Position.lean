import RecordQuery.Function.Sequence
import RecordQuery.Proofs.Function.Reduction
import RecordQuery.Proofs.Text.Character

/-!
Positions in sequences. The items of a list or tuple are found at the integers from minus their count
up to below it; those of a text are its units there, which are the characters that it is looped over
by just if none of these takes two units.
-/

namespace RecordQuery

namespace Value

variable {α : Type} {items : List α}

-- The integer counts to an item, from the front or, if it is negative, from the back.
def IsItemAt (items : List α) (z : ℤ) (a : α) : Prop :=
  -(items.length : ℤ) ≤ z ∧ z < items.length ∧
    items[(if z < 0 then z + items.length else z).toNat]? = some a

theorem isItemAt_natCast {i : ℕ} {a : α} : IsItemAt items i a ↔ items[i]? = some a := by
  have hnonneg : ¬(i : ℤ) < 0 := by omega
  rw [IsItemAt, if_neg hnonneg, Int.toNat_natCast]
  constructor
  · exact fun h => h.2.2
  · intro h
    have hlt : i < items.length := (List.getElem?_eq_some_iff.mp h).1
    exact ⟨by omega, by omega, h⟩

theorem place?_eq (length : ℕ) (z : ℤ) :
    place? length z = if -(length : ℤ) ≤ z ∧ z < length then
      some (if z < 0 then z + length else z).toNat else none := by
  by_cases hneg : z < 0
  · have hin : 0 ≤ (length : ℤ) + z ∧ (length : ℤ) + z < length ↔
        -(length : ℤ) ≤ z ∧ z < length := by omega
    simp only [place?, hneg, if_true, hin, add_comm z]
  · have hin : 0 ≤ z ∧ z < length ↔ -(length : ℤ) ≤ z ∧ z < length := by omega
    simp only [place?, hneg, if_false, hin]

theorem place?_bind_eq_some_iff {z : ℤ} {a : α} :
    (place? items.length z).bind (items[·]?) = some a ↔ IsItemAt items z a := by
  rw [place?_eq, IsItemAt, ← and_assoc]
  by_cases hin : -(items.length : ℤ) ≤ z ∧ z < items.length
  · rw [if_pos hin, Option.bind_some, and_iff_right hin]
  · rw [if_neg hin, Option.bind_none]
    exact iff_of_false nofun fun h => hin h.1

-- A count of items is a safe integer, so that no integer beyond is a position.
theorem itemAt_eq_ok_iff (hlength : Double.IsSafe items.length) {n : Number} {z : ℤ}
    (hn : n.IsInteger z) {a : α} : itemAt items (.number n) = .ok a ↔ IsItemAt items z a := by
  cases n with
  | big m =>
    obtain ⟨rfl, hsafe⟩ := hn
    constructor
    · intro h
      cases h
    · intro h
      refine absurd ?_ hsafe
      obtain ⟨hlow, hhigh, -⟩ := h
      simp only [Double.IsSafe] at hlength ⊢
      omega
  | float x =>
    have hint : x.toInt? = some z := hn
    rw [← place?_bind_eq_some_iff, itemAt, hint]
    cases hfound : (place? items.length z).bind (items[·]?) <;> simp [hfound]

-- An integer finds an item just if it is from minus their count up to below it, and then it is the
-- one that it counts to.
def FindsItems (seq : Value) (items : List Value) : Prop :=
  ∀ (n : Number) (z : ℤ), n.IsInteger z →
    ((∃ v, index seq (.number n) = .ok v) ↔ -(items.length : ℤ) ≤ z ∧ z < items.length) ∧
    ∀ v, index seq (.number n) = .ok v →
      items[(if z < 0 then z + items.length else z).toNat]? = some v

theorem exists_isItemAt_iff {z : ℤ} :
    (∃ a, IsItemAt items z a) ↔ -(items.length : ℤ) ≤ z ∧ z < items.length := by
  constructor
  · rintro ⟨a, hlow, hhigh, -⟩
    exact ⟨hlow, hhigh⟩
  · rintro ⟨hlow, hhigh⟩
    have hlt : (if z < 0 then z + items.length else z).toNat < items.length := by
      split_ifs <;> omega
    exact ⟨_, hlow, hhigh, List.getElem?_eq_getElem hlt⟩

theorem findsItems_iff {seq : Value} {items : List Value} :
    FindsItems seq items ↔ ∀ (n : Number) (z : ℤ), n.IsInteger z →
      ∀ v, index seq (.number n) = .ok v ↔ IsItemAt items z v := by
  constructor
  · intro h n z hn v
    obtain ⟨hrange, hitem⟩ := h n z hn
    constructor
    · intro hv
      obtain ⟨hlow, hhigh⟩ := hrange.mp ⟨v, hv⟩
      exact ⟨hlow, hhigh, hitem v hv⟩
    · rintro ⟨hlow, hhigh, hv⟩
      obtain ⟨w, hw⟩ := hrange.mpr ⟨hlow, hhigh⟩
      rw [hitem w hw, Option.some.injEq] at hv
      rwa [← hv]
  · intro h n z hn
    simp only [h n z hn]
    exact ⟨exists_isItemAt_iff, fun v hv => hv.2.2⟩

theorem isItemAt_map {β : Type} (f : α → β) {z : ℤ} {b : β} :
    IsItemAt (items.map f) z b ↔ ∃ a, IsItemAt items z a ∧ f a = b := by
  simp only [IsItemAt, List.length_map, List.getElem?_map, Option.map_eq_some_iff]
  constructor
  · rintro ⟨hlow, hhigh, a, ha, hb⟩
    exact ⟨a, ⟨hlow, hhigh, ha⟩, hb⟩
  · rintro ⟨a, ⟨hlow, hhigh, ha⟩, hb⟩
    exact ⟨hlow, hhigh, a, ha, hb⟩

-- The text of one unit.
def ofUnit (u : UInt16) : Value := .text [u]

theorem findsItems_text {t : Text} (hlength : Double.IsSafe t.length) :
    FindsItems (.text t) (t.map ofUnit) := by
  rw [findsItems_iff]
  intro n z hn v
  have hunit : ∀ u, itemAt t (.number n) = .ok u ↔ IsItemAt t z u := fun u =>
    itemAt_eq_ok_iff hlength hn
  simp only [isItemAt_map, ← hunit]
  change (itemAt t (.number n)).map ofUnit = .ok v ↔ _
  cases itemAt t (.number n) <;> simp [Except.map]

-- What a sequence is indexed into: the items of a list or tuple, the units of a text.
def indexed? : Value → Option (List Value)
  | .text t => some (t.map ofUnit)
  | v => v.items?

theorem findsItems_of_indexed? {seq : Value} {items : List Value}
    (hseq : seq.indexed? = some items) (hlength : Double.IsSafe items.length) :
    FindsItems seq items := by
  cases seq with
  | text t =>
    cases hseq
    rw [List.length_map] at hlength
    exact findsItems_text hlength
  | list =>
    cases hseq
    exact findsItems_iff.mpr fun n z hn v => itemAt_eq_ok_iff hlength hn
  | tuple =>
    cases hseq
    exact findsItems_iff.mpr fun n z hn v => itemAt_eq_ok_iff hlength hn
  | _ => cases hseq

-- There are no two lists of items to find.
theorem FindsItems.unique {seq : Value} {items others : List Value} (h : FindsItems seq items)
    (h' : FindsItems seq others) : items = others := by
  rw [findsItems_iff] at h h'
  apply List.ext_getElem?
  intro i
  apply Option.ext
  intro v
  rw [← isItemAt_natCast, ← isItemAt_natCast, ← h _ _ (Number.isInteger_ofInt i),
    ← h' _ _ (Number.isInteger_ofInt i)]

end Value

namespace Text

theorem map_singleton_flatten {cs : List Text} (h : ∀ c ∈ cs, c.length = 1) :
    cs.flatten.map ([·]) = cs := by
  induction cs with
  | nil => rfl
  | cons c cs ih =>
    rw [List.forall_mem_cons] at h
    obtain ⟨u, rfl⟩ := List.length_eq_one_iff.mp h.1
    rw [List.flatten_cons, List.map_append, ih h.2]
    rfl

theorem map_singleton_eq_characters_iff {t : Text} :
    t.map ([·]) = t.characters ↔ ∀ c ∈ t.characters, c.length = 1 := by
  constructor
  · intro h c hc
    rw [← h] at hc
    obtain ⟨u, -, rfl⟩ := List.mem_map.mp hc
    rfl
  · intro h
    have hmap := map_singleton_flatten h
    rwa [flatten_characters] at hmap

theorem map_ofUnit_eq_iff {t : Text} :
    t.map Value.ofUnit = t.characters.map .text ↔ ∀ c ∈ t.characters, c.length = 1 := by
  have hmap : t.map Value.ofUnit = (t.map ([·])).map .text := by
    rw [List.map_map]
    rfl
  have htext : Function.Injective Value.text := fun _ _ => Value.text.inj
  rw [hmap, (List.map_injective_iff.mpr htext).eq_iff, map_singleton_eq_characters_iff]

end Text

namespace Function

theorem list_call {seq : Value} {items : List Value} (hseq : seq.iterated? = some items) :
    list.call [seq] = .ok (.list items) := by
  change (itemsArgument "list" (some seq) >>= fun items => pure (Value.list items)) = _
  rw [itemsArgument_eq "list" hseq]
  rfl

theorem length_call {seq : Value} {items : List Value} (name : Text)
    (hseq : seq.iterated? = some items) :
    (length name).call [seq] = .ok (.ofNat items.length) := by
  change (itemsArgument name (some seq) >>= fun items => pure (Value.ofNat items.length)) = _
  rw [itemsArgument_eq name hseq]
  rfl

-- The list of a sequence has the sequence's length, and indexing finds the items of the list.
def PositionsAgree (seq : Value) : Prop :=
  ∃ items, list.call [seq] = .ok (.list items) ∧
    (length "len").call [seq] = .ok (.ofNat items.length) ∧ seq.FindsItems items

theorem positionsAgree_iff {seq : Value} {items : List Value} (hseq : seq.iterated? = some items) :
    PositionsAgree seq ↔ seq.FindsItems items := by
  rw [PositionsAgree, list_call hseq, length_call "len" hseq]
  constructor
  · rintro ⟨others, hlist, -, hfinds⟩
    obtain rfl : items = others := Value.list.inj (Except.ok.inj hlist)
    exact hfinds
  · exact fun hfinds => ⟨items, rfl, rfl, hfinds⟩

-- Indexing finds the items of a list or tuple and the units of a text. So length, iteration and
-- indexing agree on a sequence just if it is no text with a character of two units.
theorem index_agrees_iff {seq : Value} {items : List Value} (hseq : seq.indexed? = some items)
    (hlength : Double.IsSafe items.length) :
    seq.FindsItems items ∧
      (PositionsAgree seq ↔ ∀ t, seq = .text t → ∀ c ∈ t.characters, c.length = 1) := by
  have hfinds := Value.findsItems_of_indexed? hseq hlength
  refine ⟨hfinds, ?_⟩
  cases seq with
  | text t =>
    cases hseq
    have hiterated : (Value.text t).iterated? = some (t.characters.map .text) := rfl
    simp only [Value.text.injEq, forall_eq']
    rw [positionsAgree_iff hiterated, ← Text.map_ofUnit_eq_iff]
    constructor
    · exact fun hcharacters => hfinds.unique hcharacters
    · intro heq
      rwa [← heq]
  | list =>
    cases hseq
    exact iff_of_true ((positionsAgree_iff rfl).mpr hfinds) nofun
  | tuple =>
    cases hseq
    exact iff_of_true ((positionsAgree_iff rfl).mpr hfinds) nofun
  | _ => cases hseq

-- A tuple, a text of characters of one unit each, and one with a character of two.
theorem index_agrees_iff_pair :
    PositionsAgree (.tuple [.null, .text [0xD83D, 0xDE00]]) ∧
    PositionsAgree (.text [97, 98]) ∧ ¬PositionsAgree (.text [97, 0xD83D, 0xDE00]) := by
  have htuple := (index_agrees_iff
    (show (Value.tuple [.null, .text [0xD83D, 0xDE00]]).indexed? = some _ from rfl) (by decide)).2
  have hsingle := (index_agrees_iff
    (show (Value.text [97, 98]).indexed? = some _ from rfl) (by decide)).2
  have hpair := (index_agrees_iff
    (show (Value.text [97, 0xD83D, 0xDE00]).indexed? = some _ from rfl) (by decide)).2
  refine ⟨htuple.mpr nofun, hsingle.mpr ?_, fun hagree => ?_⟩
  · rintro t ⟨⟩
    decide
  · exact absurd (hpair.mp hagree _ rfl) (by decide)

-- The first half of a character of two units is found, which is no character of the text.
theorem index_disagrees :
    ¬∀ t : Text, t.isWellFormed = true → PositionsAgree (.text t) := by
  intro h
  have hfinds := (positionsAgree_iff rfl).mp (h [0xD83D, 0xDE00] (by decide))
  have hhalf := (hfinds (.ofInt 0) 0 (Number.isInteger_ofInt 0)).2 (.text [0xD83D]) rfl
  have heq : Value.text [0xD83D, 0xDE00] = .text [0xD83D] := Option.some.inj hhalf
  exact absurd (Value.text.inj heq) (by decide)

end Function

end RecordQuery
