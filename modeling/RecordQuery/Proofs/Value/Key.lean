import RecordQuery.Proofs.Number.Key
import RecordQuery.Proofs.Text.Delimited
import RecordQuery.Proofs.Text.Quoted
import RecordQuery.Proofs.Value.Fields

/-!
Keys of values. A key tells where it ends, so the key of a container gives back the keys of what it
holds, and two values share a key exactly when they have the same structure.
-/

namespace RecordQuery.Value

-- Structural induction, with the members of a container given by membership.
@[elab_as_elim, induction_eliminator]
theorem induction {motive : Value → Prop} (null : motive .null) (bool : ∀ b, motive (.bool b))
    (number : ∀ n, motive (.number n)) (text : ∀ t, motive (.text t))
    (list : ∀ items, (∀ v ∈ items, motive v) → motive (.list items))
    (tuple : ∀ items, (∀ v ∈ items, motive v) → motive (.tuple items))
    (object : ∀ fields, (∀ e ∈ fields, motive e.2) → motive (.object fields)) : ∀ v, motive v
  | .null => null
  | .bool b => bool b
  | .number n => number n
  | .text t => text t
  | .list items => list items fun v _ => induction null bool number text list tuple object v
  | .tuple items => tuple items fun v _ => induction null bool number text list tuple object v
  | .object fields => object fields fun e _ => induction null bool number text list tuple object e.2
termination_by v => sizeOf v
decreasing_by
  · decreasing_tactic
  · decreasing_tactic
  · next hmem =>
    have hlt := List.sizeOf_lt_of_mem hmem
    obtain ⟨name, v⟩ := e
    simp only [Prod.mk.sizeOf_spec, Value.object.sizeOf_spec] at hlt ⊢
    omega

theorem keys_eq_map (items : List Value) : keys items = items.map key := by
  induction items with
  | nil => rfl
  | cons v rest ih => rw [keys, ih, List.map_cons]

theorem fieldKeys_eq_map (fields : Fields Value) :
    fieldKeys fields = fields.map fun e => (e.1, e.2.key) := by
  induction fields with
  | nil => rfl
  | cons e rest ih => rw [fieldKeys, ih, List.map_cons]

-- Values with the same structure: numbers by their value, items by their place and fields by their
-- name.
inductive Same : Value → Value → Prop
  | null : Same .null .null
  | bool (b : Bool) : Same (.bool b) (.bool b)
  | number {m n : Number} (h : m.SameValue n) : Same (.number m) (.number n)
  | text (t : Text) : Same (.text t) (.text t)
  | list {as bs : List Value} (hlength : as.length = bs.length)
      (hitems : ∀ (i : ℕ) a b, as[i]? = some a → bs[i]? = some b → Same a b) :
      Same (.list as) (.list bs)
  | tuple {as bs : List Value} (hlength : as.length = bs.length)
      (hitems : ∀ (i : ℕ) a b, as[i]? = some a → bs[i]? = some b → Same a b) :
      Same (.tuple as) (.tuple bs)
  | object {as bs : Fields Value} (hnames : ∀ name, as.has name = bs.has name)
      (hfields : ∀ name a b, as.get? name = some a → bs.get? name = some b → Same a b) :
      Same (.object as) (.object bs)

-- No object has two fields of one name, at any depth. Setting fields keeps names distinct, and what is
-- read from a document has this property whatever names the document repeats.
inductive DistinctNames : Value → Prop
  | null : DistinctNames .null
  | bool (b : Bool) : DistinctNames (.bool b)
  | number (n : Number) : DistinctNames (.number n)
  | text (t : Text) : DistinctNames (.text t)
  | list {items : List Value} (h : ∀ v ∈ items, DistinctNames v) : DistinctNames (.list items)
  | tuple {items : List Value} (h : ∀ v ∈ items, DistinctNames v) : DistinctNames (.tuple items)
  | object {fields : Fields Value} (hnames : fields.keys.Nodup)
      (h : ∀ e ∈ fields, DistinctNames e.2) : DistinctNames (.object fields)

@[simp] theorem distinctNames_list {items : List Value} :
    DistinctNames (.list items) ↔ ∀ v ∈ items, DistinctNames v := by
  refine ⟨fun h => ?_, .list⟩
  cases h
  assumption

@[simp] theorem distinctNames_tuple {items : List Value} :
    DistinctNames (.tuple items) ↔ ∀ v ∈ items, DistinctNames v := by
  refine ⟨fun h => ?_, .tuple⟩
  cases h
  assumption

@[simp] theorem distinctNames_object {fields : Fields Value} :
    DistinctNames (.object fields) ↔ fields.keys.Nodup ∧ ∀ e ∈ fields, DistinctNames e.2 := by
  refine ⟨fun h => ?_, fun h => .object h.1 h.2⟩
  cases h with
  | object hnames h => exact ⟨hnames, h⟩

theorem same_list {as bs : List Value} : Same (.list as) (.list bs) ↔ as.length = bs.length ∧
    ∀ (i : ℕ) a b, as[i]? = some a → bs[i]? = some b → Same a b := by
  refine ⟨fun h => ?_, fun h => .list h.1 h.2⟩
  cases h with
  | list hlength hitems => exact ⟨hlength, hitems⟩

theorem same_tuple {as bs : List Value} : Same (.tuple as) (.tuple bs) ↔ as.length = bs.length ∧
    ∀ (i : ℕ) a b, as[i]? = some a → bs[i]? = some b → Same a b := by
  refine ⟨fun h => ?_, fun h => .tuple h.1 h.2⟩
  cases h with
  | tuple hlength hitems => exact ⟨hlength, hitems⟩

theorem same_tuple_iff_forall₂ {as bs : List Value} :
    Same (.tuple as) (.tuple bs) ↔ List.Forall₂ Same as bs := by
  rw [same_tuple, List.forall₂_iff_get]
  refine and_congr_right fun hlength => ⟨fun h i hi hi' => ?_, fun h i a b ha hb => ?_⟩
  · exact h i _ _ (List.getElem?_eq_getElem hi) (List.getElem?_eq_getElem hi')
  · obtain ⟨hi, rfl⟩ := List.getElem?_eq_some_iff.mp ha
    obtain ⟨hi', rfl⟩ := List.getElem?_eq_some_iff.mp hb
    exact h i hi hi'

theorem same_list_iff_forall₂ {as bs : List Value} :
    Same (.list as) (.list bs) ↔ List.Forall₂ Same as bs := by
  rw [same_list, ← same_tuple, same_tuple_iff_forall₂]

theorem same_object {as bs : Fields Value} :
    Same (.object as) (.object bs) ↔ (∀ name, as.has name = bs.has name) ∧
      ∀ name a b, as.get? name = some a → bs.get? name = some b → Same a b := by
  refine ⟨fun h => ?_, fun h => .object h.1 h.2⟩
  cases h with
  | object hnames hfields => exact ⟨hnames, hfields⟩

theorem Same.kind_eq {a b : Value} (h : Same a b) : a.kind = b.kind := by
  cases h <;> rfl

-- The units that the keys of a kind begin with.
def openings : Kind → List UInt16
  | .null => [110]
  | .boolean => [84, 70]
  | .number => [35]
  | .string => [34]
  | .list => [91]
  | .tuple => [40]
  | .object => [123]

theorem exists_key_eq_cons (v : Value) : ∃ u t, v.key = u :: t ∧ u ∈ openings v.kind := by
  cases v with
  | bool b => cases b <;> exact ⟨_, _, rfl, by decide⟩
  | _ => exact ⟨_, _, rfl, List.mem_singleton.mpr rfl⟩

theorem eq_of_mem_openings {k k' : Kind} {u : UInt16} (h : u ∈ openings k) (h' : u ∈ openings k') :
    k = k' := by
  cases k <;> cases k' <;> simp_all [openings]

theorem isStop_of_mem_openings {k : Kind} {u : UInt16} (h : u ∈ openings k) :
    Text.isStop u = false := by
  cases k <;> simp only [openings, List.mem_cons, List.not_mem_nil, or_false] at h
  case boolean => rcases h with rfl | rfl <;> rfl
  all_goals
    rw [h]
    rfl

-- Keys with anything behind them that agree in the first place are of one kind.
theorem kind_eq_of_key_append_eq {a b : Value} {rest rest' : Text}
    (h : a.key ++ rest = b.key ++ rest') : a.kind = b.kind := by
  obtain ⟨u, t, ha, hu⟩ := exists_key_eq_cons a
  obtain ⟨u', t', hb, hu'⟩ := exists_key_eq_cons b
  rw [ha, hb] at h
  obtain rfl : u = u' := (List.cons.inj h).1
  exact eq_of_mem_openings hu hu'

-- The keys of all values.
def IsKey (t : Text) : Prop := ∃ v : Value, t = v.key

-- The members of the keys of all objects.
def IsMember (t : Text) : Prop := ∃ (name : Text) (v : Value), t = name.quoted ++ 58 :: v.key

theorem exists_eq_cons_of_isKey {t : Text} (h : IsKey t) :
    ∃ u t', t = u :: t' ∧ Text.isStop u = false := by
  obtain ⟨v, rfl⟩ := h
  obtain ⟨u, t', ht, hu⟩ := exists_key_eq_cons v
  exact ⟨u, t', ht, isStop_of_mem_openings hu⟩

theorem exists_eq_cons_of_isMember {t : Text} (h : IsMember t) :
    ∃ u t', t = u :: t' ∧ Text.isStop u = false := by
  obtain ⟨name, v, rfl⟩ := h
  exact ⟨34, _, rfl, rfl⟩

theorem isStop_of_mem_numberKey {n : Number} {u : UInt16} (hu : u ∈ n.key) :
    Text.isStop u = false := by
  have hwords : (Text.ofString "InfinityNaN").all (!Text.isStop ·) = true := by decide
  rcases Number.isDecimalUnit_or_mem_of_mem_key hu with (h | rfl | rfl | rfl | rfl) | h
  · rw [Text.isDigit_iff] at h
    simp only [Text.isStop, Bool.or_eq_false_iff, beq_eq_false_iff_ne]
    refine ⟨⟨⟨?_, ?_⟩, ?_⟩, ?_⟩ <;> rintro rfl <;> exact absurd h (by decide)
  · rfl
  · rfl
  · rfl
  · rfl
  · simpa using List.all_eq_true.mp hwords u h

theorem delimited_member {v : Value} (name : Text) (h : Text.Delimited IsKey v.key) :
    Text.Delimited IsMember (name.quoted ++ 58 :: v.key) := by
  rintro - rest rest' ⟨name', w, rfl⟩ hrest hrest' heq
  rw [List.append_assoc, List.append_assoc] at heq
  obtain ⟨rfl, hkeys⟩ := Text.quoted_append_inj heq
  obtain ⟨hkey, rfl⟩ := h w.key rest rest' ⟨w, rfl⟩ hrest hrest' (List.cons.inj hkeys).2
  exact ⟨by rw [hkey], rfl⟩

theorem isKey_of_mem_keys {items : List Value} {t : Text} (h : t ∈ keys items) : IsKey t := by
  rw [keys_eq_map, List.mem_map] at h
  obtain ⟨v, -, rfl⟩ := h
  exact ⟨v, rfl⟩

-- The members between the braces of an object's key.
def members (fields : Fields Value) : List Text :=
  (sortedByName (fieldKeys fields)).map fun e => e.1.quoted ++ 58 :: e.2

theorem key_object (fields : Fields Value) :
    (object fields).key = 123 :: (Text.join [44] (members fields) ++ [125]) := by
  rw [key, objectKey, members]

theorem mem_members {fields : Fields Value} {t : Text} :
    t ∈ members fields ↔ ∃ name v, (name, v) ∈ fields ∧ t = name.quoted ++ 58 :: v.key := by
  simp only [members, List.mem_map, (sortedByName_perm _).mem_iff, fieldKeys_eq_map]
  grind

theorem keys_append_inj {as bs : List Value} {close : UInt16} {rest rest' : Text}
    (ih : ∀ v ∈ as, Text.Delimited IsKey v.key) (hclose : Text.isStop close = true)
    (hcomma : close ≠ 44)
    (h : Text.join [44] (keys as) ++ close :: rest = Text.join [44] (keys bs) ++ close :: rest') :
    keys as = keys bs ∧ rest = rest' := by
  refine Text.join_append_inj (fun t ht => ⟨isKey_of_mem_keys ht, ?_⟩)
    (fun t => isKey_of_mem_keys) (fun t => exists_eq_cons_of_isKey) hclose hcomma h
  rw [keys_eq_map, List.mem_map] at ht
  obtain ⟨v, hv, rfl⟩ := ht
  exact ih v hv

theorem members_append_inj {as bs : Fields Value} {rest rest' : Text}
    (ih : ∀ e ∈ as, Text.Delimited IsKey e.2.key)
    (h : Text.join [44] (members as) ++ 125 :: rest = Text.join [44] (members bs) ++ 125 :: rest') :
    members as = members bs ∧ rest = rest' := by
  have hmember : ∀ fields, ∀ t ∈ members fields, IsMember t := by
    intro fields t ht
    obtain ⟨name, v, -, rfl⟩ := mem_members.mp ht
    exact ⟨name, v, rfl⟩
  refine Text.join_append_inj (fun t ht => ⟨hmember as t ht, ?_⟩) (hmember bs)
    (fun t => exists_eq_cons_of_isMember) rfl (by decide) h
  obtain ⟨name, v, hv, rfl⟩ := mem_members.mp ht
  exact delimited_member name (ih (name, v) hv)

-- The one thing to show by induction: no key goes on as another key, whatever follows.
theorem delimited_key (v : Value) : Text.Delimited IsKey v.key := by
  induction v with
  | null =>
    rintro - rest rest' ⟨w, rfl⟩ hrest hrest' h
    cases w with
    | null => exact ⟨rfl, (List.cons.inj h).2⟩
    | _ => cases kind_eq_of_key_append_eq h
  | bool b =>
    rintro - rest rest' ⟨w, rfl⟩ hrest hrest' h
    cases w with
    | bool b' => cases b <;> cases b' <;> simp_all [key]
    | _ => cases kind_eq_of_key_append_eq h
  | number n =>
    rintro - rest rest' ⟨w, rfl⟩ hrest hrest' h
    cases w with
    | number m =>
      obtain ⟨hkey, hrest⟩ := Text.append_inj_of_stops (fun u => isStop_of_mem_numberKey)
        (fun u => isStop_of_mem_numberKey) hrest hrest' (List.cons.inj h).2
      exact ⟨by rw [key, key, hkey], hrest⟩
    | _ => cases kind_eq_of_key_append_eq h
  | text t =>
    rintro - rest rest' ⟨w, rfl⟩ hrest hrest' h
    cases w with
    | text t' =>
      obtain ⟨rfl, hrest⟩ := Text.quoted_append_inj h
      exact ⟨rfl, hrest⟩
    | _ => cases kind_eq_of_key_append_eq h
  | list items ih =>
    rintro - rest rest' ⟨w, rfl⟩ hrest hrest' h
    cases w with
    | list items' =>
      simp only [key, List.cons_append, List.append_assoc, List.nil_append, List.cons.injEq,
        true_and] at h
      obtain ⟨hkeys, hrest⟩ := keys_append_inj ih rfl (by decide) h
      exact ⟨by rw [key, key, hkeys], hrest⟩
    | _ => cases kind_eq_of_key_append_eq h
  | tuple items ih =>
    rintro - rest rest' ⟨w, rfl⟩ hrest hrest' h
    cases w with
    | tuple items' =>
      simp only [key, List.cons_append, List.append_assoc, List.nil_append, List.cons.injEq,
        true_and] at h
      obtain ⟨hkeys, hrest⟩ := keys_append_inj ih rfl (by decide) h
      exact ⟨by rw [key, key, hkeys], hrest⟩
    | _ => cases kind_eq_of_key_append_eq h
  | object fields ih =>
    rintro - rest rest' ⟨w, rfl⟩ hrest hrest' h
    cases w with
    | object fields' =>
      simp only [key_object, List.cons_append, List.append_assoc, List.nil_append, List.cons.injEq,
        true_and] at h
      obtain ⟨hmembers, hrest⟩ := members_append_inj ih h
      exact ⟨by rw [key_object, key_object, hmembers], hrest⟩
    | _ => cases kind_eq_of_key_append_eq h

theorem kind_eq_of_key_eq {a b : Value} (h : a.key = b.key) : a.kind = b.kind := by
  have happend : a.key ++ [] = b.key ++ [] := by rw [h]
  exact kind_eq_of_key_append_eq happend

theorem key_bool_eq_iff {x y : Bool} : (bool x).key = (bool y).key ↔ Same (bool x) (bool y) := by
  constructor
  · intro h
    obtain rfl : x = y := by cases x <;> cases y <;> simp_all [key]
    exact .bool x
  · rintro ⟨⟩
    rfl

theorem key_number_eq_iff {m n : Number} :
    (number m).key = (number n).key ↔ Same (number m) (number n) := by
  have hcons : (number m).key = (number n).key ↔ m.key = n.key := by simp [key]
  rw [hcons, Number.key_eq_key_iff]
  constructor
  · exact .number
  · rintro ⟨⟩
    assumption

theorem key_text_eq_iff {s t : Text} : (text s).key = (text t).key ↔ Same (text s) (text t) := by
  constructor
  · intro h
    obtain rfl : s = t := Text.quoted_injective h
    exact .text s
  · rintro ⟨⟩
    rfl

theorem key_list_eq_iff {as bs : List Value} :
    (list as).key = (list bs).key ↔ keys as = keys bs := by
  refine ⟨fun h => ?_, fun h => by rw [key, key, h]⟩
  rw [key, key, List.cons.injEq] at h
  exact (keys_append_inj (fun v _ => delimited_key v) rfl (by decide) h.2).1

theorem key_tuple_eq_iff {as bs : List Value} :
    (tuple as).key = (tuple bs).key ↔ keys as = keys bs := by
  refine ⟨fun h => ?_, fun h => by rw [key, key, h]⟩
  rw [key, key, List.cons.injEq] at h
  exact (keys_append_inj (fun v _ => delimited_key v) rfl (by decide) h.2).1

theorem key_object_eq_iff {as bs : Fields Value} :
    (object as).key = (object bs).key ↔
      sortedByName (fieldKeys as) = sortedByName (fieldKeys bs) := by
  constructor
  · intro h
    rw [key_object, key_object, List.cons.injEq] at h
    have hmembers := (members_append_inj (fun e _ => delimited_key e.2) h.2).1
    refine List.map_injective_iff.mpr ?_ hmembers
    rintro ⟨name, t⟩ ⟨name', t'⟩ heq
    obtain ⟨rfl, hkey⟩ := Text.quoted_append_inj heq
    exact Prod.ext rfl (List.cons.inj hkey).2
  · intro h
    rw [key_object, key_object, members, members, h]

-- Equal keys item by item, where equal keys of items mean `R`.
theorem keys_eq_keys_iff {as bs : List Value} {R : Value → Value → Prop}
    (h : ∀ a ∈ as, ∀ b ∈ bs, a.key = b.key ↔ R a b) :
    keys as = keys bs ↔ as.length = bs.length ∧
      ∀ (i : ℕ) a b, as[i]? = some a → bs[i]? = some b → R a b := by
  rw [keys_eq_map, keys_eq_map]
  constructor
  · intro hkeys
    refine ⟨by simpa using congrArg List.length hkeys, fun i a b ha hb => ?_⟩
    have hi := congrArg (·[i]?) hkeys
    simp only [List.getElem?_map, ha, hb, Option.map_some, Option.some_inj] at hi
    exact (h a (List.mem_of_getElem? ha) b (List.mem_of_getElem? hb)).mp hi
  · rintro ⟨hlength, hitems⟩
    refine List.ext_getElem (by simpa using hlength) fun i hi hi' => ?_
    rw [List.length_map] at hi hi'
    rw [List.getElem_map, List.getElem_map]
    exact (h _ (List.getElem_mem hi) _ (List.getElem_mem hi')).mpr
      (hitems i _ _ (List.getElem?_eq_getElem hi) (List.getElem?_eq_getElem hi'))

-- Equal keys name by name, for objects whose names are distinct.
theorem sortedByName_fieldKeys_eq_iff {as bs : Fields Value} {R : Value → Value → Prop}
    (ha : as.keys.Nodup) (hb : bs.keys.Nodup)
    (h : ∀ d ∈ as, ∀ e ∈ bs, d.2.key = e.2.key ↔ R d.2 e.2) :
    sortedByName (fieldKeys as) = sortedByName (fieldKeys bs) ↔
      (∀ name, as.has name = bs.has name) ∧
        ∀ name a b, as.get? name = some a → bs.get? name = some b → R a b := by
  have hkeys : ∀ name a b, as.get? name = some a → bs.get? name = some b →
      (a.key = b.key ↔ R a b) := fun name a b hget hget' =>
    h _ (Fields.mem_of_get?_eq_some hget) _ (Fields.mem_of_get?_eq_some hget')
  rw [fieldKeys_eq_map, fieldKeys_eq_map,
    sortedByName_eq_iff (by rwa [Fields.keys_map]) (by rwa [Fields.keys_map])]
  simp only [Fields.get?_map, Fields.has]
  constructor
  · intro heq
    refine ⟨fun name => ?_, fun name a b hget hget' => ?_⟩
    · simpa using congrArg Option.isSome (heq name)
    · have hname := heq name
      rw [hget, hget', Option.map_some, Option.map_some, Option.some_inj] at hname
      exact (hkeys name a b hget hget').mp hname
  · rintro ⟨hnames, hfields⟩ name
    have hname := hnames name
    cases hget : as.get? name with
    | none =>
      cases hget' : bs.get? name with
      | none => rfl
      | some b => simp [hget, hget'] at hname
    | some a =>
      cases hget' : bs.get? name with
      | none => simp [hget, hget'] at hname
      | some b =>
        rw [Option.map_some, Option.map_some, (hkeys name a b hget hget').mpr
          (hfields name a b hget hget')]

theorem key_eq_iff_of_kind_ne {a b : Value} (h : a.kind ≠ b.kind) : a.key = b.key ↔ Same a b :=
  iff_of_false (fun hkey => h (kind_eq_of_key_eq hkey)) fun hsame => h hsame.kind_eq

theorem equals_iff {a b : Value} : a.equals b = true ↔ a.key = b.key := beq_iff_eq

-- Queries take two values to be equal exactly when they have the same structure.
theorem equals_iff_same {a b : Value} (ha : a.DistinctNames) (hb : b.DistinctNames) :
    a.equals b = true ↔ Same a b := by
  rw [equals_iff]
  induction a generalizing b with
  | null =>
    cases b with
    | null => exact iff_of_true rfl .null
    | _ => exact key_eq_iff_of_kind_ne (by simp [kind])
  | bool x =>
    cases b with
    | bool y => exact key_bool_eq_iff
    | _ => exact key_eq_iff_of_kind_ne (by simp [kind])
  | number m =>
    cases b with
    | number n => exact key_number_eq_iff
    | _ => exact key_eq_iff_of_kind_ne (by simp [kind])
  | text s =>
    cases b with
    | text t => exact key_text_eq_iff
    | _ => exact key_eq_iff_of_kind_ne (by simp [kind])
  | list as ih =>
    cases b with
    | list bs =>
      rw [distinctNames_list] at ha hb
      rw [key_list_eq_iff, same_list]
      exact keys_eq_keys_iff fun a hmem b hmem' => ih a hmem (ha a hmem) (hb b hmem')
    | _ => exact key_eq_iff_of_kind_ne (by simp [kind])
  | tuple as ih =>
    cases b with
    | tuple bs =>
      rw [distinctNames_tuple] at ha hb
      rw [key_tuple_eq_iff, same_tuple]
      exact keys_eq_keys_iff fun a hmem b hmem' => ih a hmem (ha a hmem) (hb b hmem')
    | _ => exact key_eq_iff_of_kind_ne (by simp [kind])
  | object as ih =>
    cases b with
    | object bs =>
      rw [distinctNames_object] at ha hb
      rw [key_object_eq_iff, same_object]
      exact sortedByName_fieldKeys_eq_iff ha.1 hb.1 fun d hmem e hmem' =>
        ih d hmem (ha.2 d hmem) (hb.2 e hmem')
    | _ => exact key_eq_iff_of_kind_ne (by simp [kind])

-- A value shares its key with the values of the same structure and with no others.
theorem key_eq_key_iff_same {a b : Value} (ha : a.DistinctNames) (hb : b.DistinctNames) :
    a.key = b.key ↔ Same a b := by
  rw [← equals_iff_same ha hb, equals_iff]

-- Two orders of the same fields, an integer held in two forms, and a text full of delimiters.
theorem key_eq_key_iff_same_reordered :
    let double := number (.float (Double.ofInt 9007199254740992))
    let exact := number (.big 9007199254740992)
    let a := object [([120], list [double, text [93, 44, 34]]), ([121], tuple [null])]
    let b := object [([121], tuple [null]), ([120], list [exact, text [93, 44, 34]])]
    a.DistinctNames ∧ b.DistinctNames ∧ Same a b ∧ a.key = b.key := by
  intro double exact a b
  have ha : a.DistinctNames := by
    simp [a, double, Fields.keys, DistinctNames.number, DistinctNames.text, DistinctNames.null]
  have hb : b.DistinctNames := by
    simp [b, exact, Fields.keys, DistinctNames.number, DistinctNames.text, DistinctNames.null]
  have hnumber : Same double exact := by
    obtain ⟨hnan, hextended⟩ := Double.extended_ofInt (n := 9007199254740992) (by norm_num)
    exact .number (.inr ⟨hnan, rfl, hextended⟩)
  have hlist : Same (list [double, text [93, 44, 34]]) (list [exact, text [93, 44, 34]]) := by
    refine .list rfl fun i v w hv hw => ?_
    rcases i with - | - | i
    · cases hv
      cases hw
      exact hnumber
    · cases hv
      cases hw
      exact .text _
    · simp at hv
  have htuple : Same (tuple [null]) (tuple [null]) := by
    refine .tuple rfl fun i v w hv hw => ?_
    rcases i with - | i
    · cases hv
      cases hw
      exact .null
    · simp at hv
  have hsame : Same a b := by
    refine .object (fun name => ?_) fun name v w hv hw => ?_
    · simp only [Fields.has, Fields.get?]
      split_ifs <;> rfl
    · simp only [Fields.get?] at hv hw
      split_ifs at hv hw with hx hy hy <;> grind
  exact ⟨ha, hb, hsame, (key_eq_key_iff_same ha hb).mpr hsame⟩

end RecordQuery.Value
