import RecordQuery.Proofs.Json.Number
import RecordQuery.Proofs.Value.Order

/-!
The order of objects that have the same names. What decides is the first field, in the order of
names, in which they differ. There it is the keys of the two values that are compared, with the unit
that follows them in the keys of the objects, and so the order of objects agrees with that of their
values just where the order of these texts does.
-/

namespace RecordQuery

namespace Text

variable {s t : Text}

theorem compare_cons (u v : UInt16) (s t : Text) :
    compare (u :: s) (v :: t) = (Ord.compare u v).then (compare s t) := by
  rw [compare, List.compareLex_cons_cons]

theorem compare_cons_self (u : UInt16) (s t : Text) : compare (u :: s) (u :: t) = compare s t := by
  have hself : Ord.compare u u = .eq := Std.ReflCmp.compare_self
  rw [compare_cons, hself, Ordering.eq_then]

-- What two texts have in front makes no difference.
theorem compare_append_left (front s t : Text) : compare (front ++ s) (front ++ t) = compare s t := by
  induction front with
  | nil => rfl
  | cons u front ih => rw [List.cons_append, List.cons_append, compare_cons_self, ih]

-- Neither does what they have behind once they differ.
theorem compare_append_right (hst : ¬s <+: t) (hts : ¬t <+: s) (rest rest' : Text) :
    compare (s ++ rest) (t ++ rest') = compare s t := by
  induction s generalizing t with
  | nil => exact absurd List.nil_prefix hst
  | cons u s ih =>
    cases t with
    | nil => exact absurd List.nil_prefix hts
    | cons v t =>
      rw [List.cons_append, List.cons_append, compare_cons, compare_cons]
      by_cases huv : u = v
      · subst huv
        rw [List.prefix_cons_inj] at hst hts
        rw [ih hst hts]
      · have hne : Ord.compare u v ≠ .eq := fun heq => huv (Std.LawfulEqCmp.eq_of_compare heq)
        cases h : Ord.compare u v <;> first | rfl | exact absurd h hne

theorem digitsValue_cons (u : UInt16) (t : Text) :
    digitsValue (u :: t) = digitValue u * 10 ^ t.length + digitsValue t := by
  rw [← List.singleton_append, digitsValue_append, digitsValue_singleton]

theorem digitsValue_lt (h : ∀ u ∈ t, isDigit u = true) : digitsValue t < 10 ^ t.length := by
  induction t with
  | nil => exact Nat.one_pos
  | cons u t ih =>
    obtain ⟨hu, ht⟩ := List.forall_mem_cons.mp h
    have hrest := ih ht
    have hdigit : digitValue u ≤ 9 := by
      rw [isDigit_iff] at hu
      rw [digitValue]
      omega
    have hfront : digitValue u * 10 ^ t.length ≤ 9 * 10 ^ t.length :=
      Nat.mul_le_mul_right _ hdigit
    rw [digitsValue_cons, List.length_cons, pow_succ]
    omega

-- Where a number is put together of a higher part and a lower one, the higher part decides first.
theorem compare_mul_add {m n p q place : ℕ} (hp : p < place) (hq : q < place) :
    Ord.compare (m * place + p) (n * place + q) = (Ord.compare m n).then (Ord.compare p q) := by
  have hfirst : ∀ {m n : ℕ}, m < n → (m + 1) * place ≤ n * place :=
    fun hlt => Nat.mul_le_mul_right _ hlt
  rcases lt_trichotomy m n with hlt | rfl | hgt
  · have hfront := hfirst hlt
    have hall : m * place + p < n * place + q := by linarith
    rw [Nat.compare_eq_lt.mpr hlt, Nat.compare_eq_lt.mpr hall]
    rfl
  · have hself : Ord.compare m m = .eq := Nat.compare_eq_eq.mpr rfl
    rw [hself, Ordering.eq_then]
    simp only [Ord.compare, compareOfLessAndEq, Nat.add_lt_add_iff_left, Nat.add_left_cancel_iff]
  · have hfront := hfirst hgt
    have hall : n * place + q < m * place + p := by linarith
    rw [Nat.compare_eq_gt.mpr hgt, Nat.compare_eq_gt.mpr hall]
    rfl

theorem compare_digitValue {u v : UInt16} (hu : isDigit u = true) (hv : isDigit v = true) :
    Ord.compare u v = Ord.compare (digitValue u) (digitValue v) := by
  rw [isDigit_iff] at hu hv
  simp only [Ord.compare, compareOfLessAndEq, UInt16.lt_iff_toNat_lt, ← UInt16.toNat_inj, digitValue]
  congr 1 <;> grind

-- As many digits on either side are in the order of the numbers that they spell.
theorem compare_digits (hlength : s.length = t.length) (hs : ∀ u ∈ s, isDigit u = true)
    (ht : ∀ u ∈ t, isDigit u = true) :
    compare s t = Ord.compare (digitsValue s) (digitsValue t) := by
  induction s generalizing t with
  | nil =>
    rw [List.eq_nil_of_length_eq_zero hlength.symm]
    rfl
  | cons u s ih =>
    cases t with
    | nil => cases hlength
    | cons v t =>
      obtain ⟨hu, hs⟩ := List.forall_mem_cons.mp hs
      obtain ⟨hv, ht⟩ := List.forall_mem_cons.mp ht
      have hlength' : s.length = t.length := Nat.succ.inj hlength
      have hslt : digitsValue s < 10 ^ t.length := hlength' ▸ digitsValue_lt hs
      rw [compare_cons, compare_digitValue hu hv, ih hlength' hs ht, digitsValue_cons,
        digitsValue_cons, hlength', compare_mul_add hslt (digitsValue_lt ht)]

end Text

namespace Value

variable {as bs : Fields Value} {v w : Value}

-- The values of the fields in the order of the names.
def valuesByName (fields : Fields Value) : List Value := (sortedByName fields).map Prod.snd

-- Two values by their keys, with the unit that follows the keys.
def compareKeys (next : UInt16) (v w : Value) : Ordering :=
  Text.compare (v.key ++ [next]) (w.key ++ [next])

-- What follows the key of a value in front of the given others: a comma, or the closing brace.
def nextUnit (after : List Value) : UInt16 := if after.isEmpty then 125 else 44

-- As many values on either side, by their keys and what follows these.
def compareFields : List Value → List Value → Ordering
  | v :: vs, w :: ws => (compareKeys (nextUnit vs) v w).then (compareFields vs ws)
  | _, _ => .eq

theorem isStop_nextUnit (after : List Value) : Text.isStop (nextUnit after) = true := by
  unfold nextUnit
  split <;> rfl

-- Different keys differ before whatever comes after them.
theorem compare_keys_append {next : UInt16} (hnext : Text.isStop next = true) (h : v.key ≠ w.key)
    (rest rest' : Text) :
    Text.compare (v.key ++ next :: rest) (w.key ++ next :: rest') = compareKeys next v w := by
  have hnot : ∀ {a b : Value}, a.key ≠ b.key → ¬(a.key ++ [next]) <+: (b.key ++ [next]) := by
    rintro a b hab ⟨more, hmore⟩
    rw [List.append_assoc] at hmore
    refine hab (delimited_key a b.key _ _ ⟨b, rfl⟩ ?_ ?_ hmore).1
    · exact Text.stops_cons _ hnext
    · exact Text.stops_cons _ hnext
  rw [compareKeys, ← Text.compare_append_right (hnot h) (hnot (Ne.symm h)) rest rest',
    List.append_assoc, List.append_assoc]
  rfl

theorem compareKeys_eq_iff {next : UInt16} : compareKeys next v w = .eq ↔ v.key = w.key := by
  rw [compareKeys, Text.compare_eq_iff, List.append_cancel_right_eq]

-- Objects with the same names have them in the same order.
theorem keys_sortedByName_eq (ha : as.keys.Nodup) (hb : bs.keys.Nodup)
    (hnames : ∀ name, as.has name = bs.has name) :
    Fields.keys (sortedByName as) = Fields.keys (sortedByName bs) := by
  have hmem : ∀ name, name ∈ as.keys ↔ name ∈ bs.keys := by
    intro name
    have hname := hnames name
    rw [Fields.has, Fields.has, Bool.eq_iff_iff, Option.isSome_iff_ne_none,
      Option.isSome_iff_ne_none, ne_eq, ne_eq, not_iff_not, Fields.get?_eq_none_iff,
      Fields.get?_eq_none_iff, not_iff_not] at hname
    exact hname
  have hsorted : ∀ fields : Fields Value,
      (Fields.keys (sortedByName fields)).Pairwise fun s t => Text.le s t = true := fun fields =>
    List.pairwise_map.mpr (pairwise_sortedByName fields)
  have hperm : as.keys.Perm bs.keys := (List.perm_ext_iff_of_nodup ha hb).mpr hmem
  refine List.Perm.eq_of_pairwise (fun s t _ _ => Text.le_antisymm) (hsorted as) (hsorted bs) ?_
  exact ((sortedByName_perm as).map Prod.fst).trans
    (hperm.trans ((sortedByName_perm bs).map Prod.fst).symm)

theorem length_eq_of_names (ha : as.keys.Nodup) (hb : bs.keys.Nodup)
    (hnames : ∀ name, as.has name = bs.has name) : as.length = bs.length := by
  have hlength := congrArg List.length (keys_sortedByName_eq ha hb hnames)
  rwa [Fields.keys, Fields.keys, List.length_map, List.length_map,
    (sortedByName_perm as).length_eq, (sortedByName_perm bs).length_eq] at hlength

theorem length_valuesByName (fields : Fields Value) :
    (valuesByName fields).length = fields.length := by
  rw [valuesByName, List.length_map, (sortedByName_perm fields).length_eq]

theorem sortedByName_map {α β : Type} (f : α → β) (fields : Fields α) :
    sortedByName (fields.map fun e => (e.1, f e.2)) =
      (sortedByName fields).map fun e => (e.1, f e.2) := by
  rw [sortedByName, sortedByName]
  exact (List.map_mergeSort (f := fun e : Text × α => (e.1, f e.2)) fun _ _ _ _ => rfl).symm

-- The key of an object from behind the unit that follows a value, given the fields still to come.
def keyRest : Fields Value → Text
  | [] => []
  | e :: rest => Text.join [44] ((e :: rest).map fun e => e.1.quoted ++ 58 :: e.2.key) ++ [125]

theorem keyRest_cons (name : Text) (v : Value) (fields : Fields Value) :
    keyRest ((name, v) :: fields) =
      name.quoted ++ 58 :: (v.key ++ nextUnit (fields.map Prod.snd) :: keyRest fields) := by
  rw [keyRest, List.map_cons, Text.join_cons]
  cases fields with
  | nil => simp [keyRest, nextUnit]
  | cons e rest =>
    rw [keyRest, List.map_cons, Text.join_cons]
    simp [nextUnit]

theorem key_object_of_ne_nil {fields : Fields Value} (h : fields ≠ []) :
    (object fields).key = 123 :: keyRest (sortedByName fields) := by
  have hsorted : sortedByName fields ≠ [] := by
    intro hnil
    have hperm := sortedByName_perm fields
    rw [hnil] at hperm
    exact h hperm.symm.eq_nil
  rw [key_object, members, fieldKeys_eq_map, sortedByName_map, List.map_map]
  cases hs : sortedByName fields with
  | nil => exact absurd hs hsorted
  | cons e rest => rfl

-- What is in front of the fields that differ is the same text, and so is the name in front of the
-- values that do.
theorem compare_keyRest (h : as.keys = bs.keys) :
    Text.compare (keyRest as) (keyRest bs) =
      compareFields (as.map Prod.snd) (bs.map Prod.snd) := by
  induction as generalizing bs with
  | nil =>
    rw [List.map_eq_nil_iff.mp h.symm]
    rfl
  | cons d as ih =>
    cases bs with
    | nil => cases h
    | cons e bs =>
      obtain ⟨name, v⟩ := d
      obtain ⟨name', w⟩ := e
      obtain ⟨hname, hnames⟩ := List.cons.inj h
      obtain rfl : name = name' := hname
      have hnext : nextUnit (as.map Prod.snd) = nextUnit (bs.map Prod.snd) := by
        have hlength := congrArg List.length hnames
        cases as <;> cases bs <;> simp_all [nextUnit]
      rw [keyRest_cons, keyRest_cons, Text.compare_append_left, Text.compare_cons_self, List.map_cons,
        List.map_cons, compareFields, ← hnext]
      by_cases hkey : v.key = w.key
      · rw [compareKeys_eq_iff.mpr hkey, Ordering.eq_then, hkey, Text.compare_append_left,
          Text.compare_cons_self, ih hnames]
      · have hne : compareKeys (nextUnit (as.map Prod.snd)) v w ≠ .eq :=
          fun heq => hkey (compareKeys_eq_iff.mp heq)
        rw [compare_keys_append (isStop_nextUnit _) hkey]
        cases h : compareKeys (nextUnit (as.map Prod.snd)) v w <;> first | rfl | exact absurd h hne

theorem compare_object_eq_compareFields (ha : as.keys.Nodup) (hb : bs.keys.Nodup)
    (hnames : ∀ name, as.has name = bs.has name) :
    compare (.object as) (.object bs) = compareFields (valuesByName as) (valuesByName bs) := by
  have hlength := length_eq_of_names ha hb hnames
  have hrest := compare_keyRest (keys_sortedByName_eq ha hb hnames)
  rw [valuesByName, valuesByName, ← hrest, compare]
  by_cases has : as = []
  · have hbs : bs = [] := List.eq_nil_of_length_eq_zero (by rw [← hlength, has, List.length_nil])
    rw [has, hbs, Text.compare_eq_iff.mpr rfl, Text.compare_eq_iff.mpr rfl]
  · have hbs : bs ≠ [] := fun heq =>
      has (List.eq_nil_of_length_eq_zero (by rw [hlength, heq, List.length_nil]))
    rw [key_object_of_ne_nil has, key_object_of_ne_nil hbs, Text.compare_cons_self]

-- The first place where two lists of values differ holds these two values, and in the first list
-- these others after it.
def DiffersFirst (vs ws : List Value) (v w : Value) (after : List Value) : Prop :=
  ∃ before before' after', vs = before ++ v :: after ∧ ws = before' ++ w :: after' ∧
    keys before = keys before' ∧ v.key ≠ w.key

theorem keys_eq_or_differsFirst {vs ws : List Value} (h : vs.length = ws.length) :
    keys vs = keys ws ∨ ∃ v w after, DiffersFirst vs ws v w after := by
  induction vs generalizing ws with
  | nil => exact .inl (by rw [List.eq_nil_of_length_eq_zero h.symm])
  | cons v vs ih =>
    cases ws with
    | nil => cases h
    | cons w ws =>
      by_cases hkey : v.key = w.key
      · rcases ih (Nat.succ.inj h) with hkeys | ⟨v', w', after, before, before', after', rfl, rfl,
          hbefore, hne⟩
        · exact .inl (by rw [keys, keys, hkey, hkeys])
        · refine .inr ⟨v', w', after, v :: before, w :: before', after', rfl, rfl, ?_, hne⟩
          rw [keys, keys, hkey, hbefore]
      · exact .inr ⟨v, w, vs, [], [], ws, rfl, rfl, rfl, hkey⟩

-- Both ways to compare lists of values decide at the first place where these differ.
theorem compare_of_differsFirst {vs ws after : List Value} (h : DiffersFirst vs ws v w after) :
    compareFields vs ws = compareKeys (nextUnit after) v w ∧ compareItems vs ws = compare v w := by
  obtain ⟨before, before', after', rfl, rfl, hbefore, hne⟩ := h
  induction before generalizing before' with
  | nil =>
    cases before' with
    | cons e before' => cases hbefore
    | nil =>
      have hkeys : compareKeys (nextUnit after) v w ≠ .eq := fun heq => hne (compareKeys_eq_iff.mp heq)
      have hvalues : compare v w ≠ .eq := fun heq => hne ((compare_eq_iff v w).mp heq)
      rw [List.nil_append, List.nil_append, compareFields, compareItems]
      constructor
      · cases h : compareKeys (nextUnit after) v w <;> first | rfl | exact absurd h hkeys
      · cases h : compare v w <;> first | rfl | exact absurd h hvalues
  | cons d before ih =>
    cases before' with
    | nil => cases hbefore
    | cons e before' =>
      rw [keys, keys, List.cons.injEq] at hbefore
      obtain ⟨hfields, hitems⟩ := ih before' hbefore.2
      rw [List.cons_append, List.cons_append, compareFields, compareItems, hfields, hitems,
        compareKeys_eq_iff.mpr hbefore.1, (compare_eq_iff d e).mpr hbefore.1]
      exact ⟨rfl, rfl⟩

theorem compareFields_of_keys_eq {vs ws : List Value} (h : keys vs = keys ws) :
    compareFields vs ws = .eq := by
  induction vs generalizing ws with
  | nil => rfl
  | cons v vs ih =>
    cases ws with
    | nil => rfl
    | cons w ws =>
      rw [keys, keys, List.cons.injEq] at h
      rw [compareFields, compareKeys_eq_iff.mpr h.1, Ordering.eq_then, ih h.2]

-- Natural numbers with as many digits are compared by their keys as by value.
theorem compareKeys_ofNat {m n : ℕ} (h : (Text.ofNat m).length = (Text.ofNat n).length)
    (next : UInt16) : compareKeys next (ofNat m) (ofNat n) = compare (ofNat m) (ofNat n) := by
  have hkey : ∀ k : ℕ, (ofNat k).key = 35 :: Text.ofNat k := fun k => by
    rw [ofNat, key, Number.ofNat, Number.key_ofInt, Text.ofInt, if_neg (by omega),
      Int.natAbs_natCast]
  have hvalue : compare (ofNat m) (ofNat n) = Ord.compare m n := by
    rw [ofNat, ofNat, compare, Number.ofNat, Number.ofNat, Number.compare_ofInt]
    simp only [Ord.compare, compareOfLessAndEq, Int.ofNat_lt, Int.ofNat_inj]
  have hdigits := Text.compare_digits h (fun u => Text.isDigit_of_mem_ofNat)
    (fun u => Text.isDigit_of_mem_ofNat)
  rw [Text.digitsValue_ofNat, Text.digitsValue_ofNat] at hdigits
  rw [hvalue, compareKeys, hkey, hkey, List.cons_append, List.cons_append, Text.compare_cons_self]
  by_cases heq : m = n
  · rw [heq, Text.compare_eq_iff.mpr rfl, Nat.compare_eq_eq.mpr rfl]
  · have hne : Text.ofNat m ≠ Text.ofNat n := fun htext =>
      heq (by rw [← Text.digitsValue_ofNat m, htext, Text.digitsValue_ofNat])
    rw [Text.compare_append_right (fun hp => hne (hp.eq_of_length h))
      (fun hp => hne (hp.eq_of_length h.symm).symm), hdigits]

-- Objects with the same names are ordered by the keys of their values and what follows these. That is
-- the order of their values, in the order of the names, just where it is at the first values that
-- differ, as it is at natural numbers with as many digits.
theorem compare_object_eq_compareItems_iff (ha : as.keys.Nodup) (hb : bs.keys.Nodup)
    (hnames : ∀ name, as.has name = bs.has name) :
    compare (.object as) (.object bs) = compareFields (valuesByName as) (valuesByName bs) ∧
      (compare (.object as) (.object bs) = compareItems (valuesByName as) (valuesByName bs) ↔
        ∀ v w after, DiffersFirst (valuesByName as) (valuesByName bs) v w after →
          compareKeys (nextUnit after) v w = compare v w) ∧
      ∀ (m n : ℕ) (next : UInt16), (Text.ofNat m).length = (Text.ofNat n).length →
        compareKeys next (ofNat m) (ofNat n) = compare (ofNat m) (ofNat n) := by
  have hfields := compare_object_eq_compareFields ha hb hnames
  refine ⟨hfields, ?_, fun m n next h => compareKeys_ofNat h next⟩
  rw [hfields]
  constructor
  · intro h v w after hfirst
    obtain ⟨hkeys, hitems⟩ := compare_of_differsFirst hfirst
    rw [← hkeys, h, hitems]
  · intro h
    have hlength : (valuesByName as).length = (valuesByName bs).length := by
      rw [length_valuesByName, length_valuesByName, length_eq_of_names ha hb hnames]
    rcases keys_eq_or_differsFirst hlength with heq | ⟨v, w, after, hfirst⟩
    · have hitems : compareItems (valuesByName as) (valuesByName bs) = .eq :=
        (compareItems_eq_iff fun v _ w => compare_eq_iff v w).mpr heq
      rw [compareFields_of_keys_eq heq, hitems]
    · obtain ⟨hkeys, hitems⟩ := compare_of_differsFirst hfirst
      rw [hkeys, hitems, h v w after hfirst]

-- Fields in two orders. The one that decides is the last by name, and at the end of the key ten comes
-- before nine.
theorem compare_object_eq_compareItems_iff_reordered :
    let as : Fields Value := [("b", .ofNat 10), ("a", .null)]
    let bs : Fields Value := [("a", .null), ("b", .ofNat 9)]
    as.keys.Nodup ∧ bs.keys.Nodup ∧ (∀ name, as.has name = bs.has name) ∧
      compare (.object as) (.object bs) = .lt ∧
      ¬∀ v w after, DiffersFirst (valuesByName as) (valuesByName bs) v w after →
        compareKeys (nextUnit after) v w = compare v w := by
  intro as bs
  have ha : as.keys.Nodup := by decide
  have hb : bs.keys.Nodup := by decide
  have hnames : ∀ name, as.has name = bs.has name := by
    intro name
    simp only [as, bs, Fields.has, Fields.get?]
    split_ifs <;> rfl
  have hgt : Text.le (Text.ofString "b") (Text.ofString "a") = false := by decide
  have hle : Text.le (Text.ofString "a") (Text.ofString "b") = true := by decide
  have has : valuesByName as = [.null, .ofNat 10] := by
    simp [as, valuesByName, sortedByName, List.mergeSort, List.MergeSort.Internal.splitInTwo, hgt]
  have hbs : valuesByName bs = [.null, .ofNat 9] := by
    simp [bs, valuesByName, sortedByName, List.mergeSort, List.MergeSort.Internal.splitInTwo, hle]
  obtain ⟨hfields, hiff, -⟩ := compare_object_eq_compareItems_iff ha hb hnames
  have hcompare : compare (.object as) (.object bs) = .lt := by
    rw [hfields, has, hbs]
    decide +kernel
  have hitems : compareItems (valuesByName as) (valuesByName bs) = .gt := by
    rw [has, hbs]
    decide +kernel
  refine ⟨ha, hb, hnames, hcompare, fun h => ?_⟩
  rw [← hiff, hcompare, hitems] at h
  cases h

-- Ten is more than nine, but its key comes first.
theorem compare_object_ne_compareItems :
    ¬∀ as bs : Fields Value, as.keys.Nodup → bs.keys.Nodup → (∀ name, as.has name = bs.has name) →
      compare (.object as) (.object bs) = compareItems (valuesByName as) (valuesByName bs) := by
  intro h
  have hten := h [("a", .ofNat 10)] [("a", .ofNat 9)] (by decide) (by decide) fun name => by
    simp only [Fields.has, Fields.get?]
    split_ifs <;> rfl
  have hcompare : compare (.object [("a", .ofNat 10)]) (.object [("a", .ofNat 9)]) = .lt := by
    decide +kernel
  have hitems : compareItems (valuesByName [("a", .ofNat 10)]) (valuesByName [("a", .ofNat 9)]) =
      .gt := by
    decide +kernel
  rw [hcompare, hitems] at hten
  cases hten

end Value

end RecordQuery
