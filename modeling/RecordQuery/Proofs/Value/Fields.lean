import RecordQuery.Proofs.Text.Order
import RecordQuery.Value.Key

/-!
Entries under distinct names. Setting entries keeps names distinct, such entries are known by what is
under each name, and sorting them by name forgets the order they came in and nothing else.
-/

namespace RecordQuery

namespace Fields

variable {α β : Type} {fields : Fields α} {name : Text} {a : α}

theorem mem_of_get?_eq_some (h : fields.get? name = some a) : (name, a) ∈ fields := by
  induction fields with
  | nil => cases h
  | cons e rest ih =>
    obtain ⟨k, b⟩ := e
    simp only [get?] at h
    split at h
    · next hk =>
      cases h
      rw [hk]
      exact List.mem_cons_self
    · exact List.mem_cons_of_mem _ (ih h)

theorem mem_keys : name ∈ fields.keys ↔ ∃ a, (name, a) ∈ fields := by
  simp [keys]

theorem get?_eq_some_iff (hd : fields.keys.Nodup) :
    fields.get? name = some a ↔ (name, a) ∈ fields := by
  refine ⟨mem_of_get?_eq_some, fun h => ?_⟩
  induction fields with
  | nil => cases h
  | cons e rest ih =>
    obtain ⟨k, b⟩ := e
    rw [keys, List.map_cons, List.nodup_cons] at hd
    rcases List.mem_cons.mp h with heq | hmem
    · cases heq
      simp [get?]
    · have hne : k ≠ name := by
        rintro rfl
        exact hd.1 (mem_keys.mpr ⟨a, hmem⟩)
      rw [get?, if_neg hne]
      exact ih hd.2 hmem

theorem get?_eq_none_iff : fields.get? name = none ↔ name ∉ fields.keys := by
  induction fields with
  | nil => simp [get?, keys]
  | cons e rest ih =>
    by_cases hk : e.1 = name
    · simp [get?, keys, hk]
    · simpa [get?, keys, hk, Ne.symm hk] using ih

theorem get?_append (front back : Fields α) (name : Text) :
    get? name (front ++ back) = (front.get? name).or (back.get? name) := by
  induction front with
  | nil => rfl
  | cons e rest ih =>
    by_cases hk : e.1 = name
    · simp [get?, hk]
    · simpa [get?, hk] using ih

theorem get?_eq_find? (fields : Fields α) (name : Text) :
    fields.get? name = (fields.find? (·.1 == name)).map Prod.snd := by
  induction fields with
  | nil => rfl
  | cons e rest ih =>
    by_cases hk : e.1 = name
    · simp [get?, hk]
    · simpa [get?, hk] using ih

theorem get?_set (fields : Fields α) (key : Text) (a : α) (name : Text) :
    (fields.set key a).get? name = if key = name then some a else fields.get? name := by
  induction fields with
  | nil => rfl
  | cons e rest ih =>
    obtain ⟨k, b⟩ := e
    rw [set]
    split
    · next hk =>
      subst hk
      simp only [get?]
      split <;> rfl
    · next hk =>
      simp only [get?, ih]
      grind

-- Of several entries under one name the last one counts.
theorem get?_merge (below above : Fields α) (name : Text) :
    (merge below above).get? name =
      (((above.filter (·.1 == name)).getLast?).map Prod.snd).or (below.get? name) := by
  induction above generalizing below with
  | nil => rfl
  | cons e rest ih =>
    rw [merge, List.foldl_cons, ← merge, ih, get?_set]
    by_cases hk : e.1 = name
    · simp [hk, List.getLast?_cons]
    · simp [hk]

theorem get?_ofEntries (entries : List (Text × α)) (name : Text) :
    (ofEntries entries).get? name = ((entries.filter (·.1 == name)).getLast?).map Prod.snd := by
  rw [ofEntries, get?_merge]
  exact Option.or_none

theorem get?_map (f : α → β) (fields : Fields α) (name : Text) :
    get? name (fields.map fun e => (e.1, f e.2)) = (fields.get? name).map f := by
  induction fields with
  | nil => rfl
  | cons e rest ih =>
    simp only [List.map_cons, get?, ih]
    split <;> rfl

theorem keys_map (f : α → β) (fields : Fields α) :
    keys (fields.map fun e => (e.1, f e.2)) = fields.keys := by
  simp [keys, Function.comp_def]

-- Names stay distinct when an entry is set, so every object made by setting has distinct names.
theorem mem_keys_set {key : Text} : name ∈ (fields.set key a).keys ↔ name = key ∨ name ∈ fields.keys := by
  induction fields with
  | nil => simp [set, keys]
  | cons e rest ih =>
    obtain ⟨k, b⟩ := e
    simp only [set]
    split
    · next hk => simp [keys, hk]
    · simp only [keys, List.map_cons, List.mem_cons] at ih ⊢
      rw [ih]
      tauto

theorem nodup_keys_set {key : Text} (hd : fields.keys.Nodup) : (fields.set key a).keys.Nodup := by
  induction fields with
  | nil => simp [set, keys]
  | cons e rest ih =>
    obtain ⟨k, b⟩ := e
    rw [keys, List.map_cons, List.nodup_cons] at hd
    simp only [set]
    split
    · exact List.nodup_cons.mpr hd
    · next hk =>
      refine List.nodup_cons.mpr ⟨fun hmem => ?_, ih hd.2⟩
      rcases mem_keys_set.mp hmem with heq | hmem
      · exact hk heq
      · exact hd.1 hmem

-- A new name comes last, and under an old one only the value changes.
theorem set_of_notMem_keys {key : Text} (h : key ∉ fields.keys) (a : α) :
    fields.set key a = fields ++ [(key, a)] := by
  induction fields with
  | nil => rfl
  | cons e rest ih =>
    obtain ⟨k, b⟩ := e
    rw [keys, List.map_cons, List.mem_cons, not_or] at h
    rw [set, if_neg (Ne.symm h.1), ih h.2, List.cons_append]

theorem set_eq_map {key : Text} (hd : fields.keys.Nodup) (h : key ∈ fields.keys) (a : α) :
    fields.set key a = fields.map fun e => (e.1, if e.1 = key then a else e.2) := by
  induction fields with
  | nil => cases h
  | cons e rest ih =>
    obtain ⟨k, b⟩ := e
    rw [keys, List.map_cons, List.nodup_cons] at hd
    rw [set, List.map_cons]
    by_cases hk : k = key
    · have hrest : (rest.map fun e => (e.1, if e.1 = key then a else e.2)) = rest := by
        refine (List.map_congr_left fun e he => ?_).trans (List.map_id rest)
        have hne : e.1 ≠ key := fun heq => hd.1 (mem_keys.mpr ⟨e.2, by rwa [hk, ← heq]⟩)
        rw [if_neg hne, id]
      rw [if_pos hk, hrest, if_pos hk]
    · have hrest : key ∈ keys rest := by
        rcases List.mem_cons.mp h with heq | hmem
        · exact absurd heq.symm hk
        · exact hmem
      rw [if_neg hk, ih hd.2 hrest, if_neg hk]

theorem nodup_keys_ofEntries (entries : List (Text × α)) : (ofEntries entries).keys.Nodup := by
  have hmerge : ∀ below : Fields α, below.keys.Nodup → (merge below entries).keys.Nodup := by
    induction entries with
    | nil => exact fun below hd => hd
    | cons e rest ih => exact fun below hd => ih _ (nodup_keys_set hd)
  exact hmerge [] List.nodup_nil

-- Entries under new names that differ from each other are put behind those that are there.
theorem merge_eq_append {below above : Fields α} (hd : (keys (below ++ above)).Nodup) :
    merge below above = below ++ above := by
  induction above generalizing below with
  | nil => exact (List.append_nil below).symm
  | cons e rest ih =>
    have hsplit : below ++ e :: rest = below ++ [(e.1, e.2)] ++ rest := by simp
    have hnew : e.1 ∉ below.keys := by
      rw [keys, List.map_append, List.map_cons, List.nodup_append] at hd
      intro hmem
      exact hd.2.2 e.1 hmem e.1 List.mem_cons_self rfl
    rw [merge, List.foldl_cons, ← merge, set_of_notMem_keys hnew, hsplit, ih (hsplit ▸ hd)]

theorem ofEntries_eq_self (hd : fields.keys.Nodup) : ofEntries fields = fields :=
  merge_eq_append hd

-- What holds of all values that are set holds of all that are there afterwards.
theorem forall_mem_set {p : α → Prop} {key : Text} (hf : ∀ e ∈ fields, p e.2) (ha : p a) :
    ∀ e ∈ fields.set key a, p e.2 := by
  induction fields with
  | nil => simpa [set] using ha
  | cons e rest ih =>
    obtain ⟨k, b⟩ := e
    rw [List.forall_mem_cons] at hf
    simp only [set]
    split
    · exact List.forall_mem_cons.mpr ⟨ha, hf.2⟩
    · exact List.forall_mem_cons.mpr ⟨hf.1, ih hf.2⟩

theorem forall_mem_merge {p : α → Prop} {below above : Fields α} (hb : ∀ e ∈ below, p e.2)
    (ha : ∀ e ∈ above, p e.2) : ∀ e ∈ merge below above, p e.2 := by
  induction above generalizing below with
  | nil => exact hb
  | cons e rest ih =>
    rw [List.forall_mem_cons] at ha
    exact ih (forall_mem_set hb ha.1) ha.2

theorem forall_mem_ofEntries {p : α → Prop} {entries : List (Text × α)}
    (h : ∀ e ∈ entries, p e.2) : ∀ e ∈ ofEntries entries, p e.2 :=
  forall_mem_merge nofun h

end Fields

namespace Value

variable {α : Type}

theorem pairwise_sortedByName (entries : List (Text × α)) :
    (sortedByName entries).Pairwise fun a b => Text.le a.1 b.1 = true :=
  List.pairwise_mergeSort (fun a b c => Text.le_trans (a := a.1) (b := b.1) (c := c.1))
    (fun a b => Text.le_total a.1 b.1) entries

theorem sortedByName_perm (entries : List (Text × α)) : (sortedByName entries).Perm entries :=
  List.mergeSort_perm entries _

-- Sorted entries are equal when the same is under every name.
theorem sortedByName_eq_iff {as bs : Fields α} (ha : as.keys.Nodup) (hb : bs.keys.Nodup) :
    sortedByName as = sortedByName bs ↔ ∀ name, as.get? name = bs.get? name := by
  constructor
  · intro h name
    have hperm : as.Perm bs :=
      (sortedByName_perm as).symm.trans ((List.Perm.of_eq h).trans (sortedByName_perm bs))
    ext a
    rw [Fields.get?_eq_some_iff ha, Fields.get?_eq_some_iff hb, hperm.mem_iff]
  · intro h
    have hmem : ∀ e, e ∈ as ↔ e ∈ bs := by
      rintro ⟨name, a⟩
      rw [← Fields.get?_eq_some_iff ha, ← Fields.get?_eq_some_iff hb, h]
    have hperm : as.Perm bs :=
      (List.perm_ext_iff_of_nodup (List.Nodup.of_map Prod.fst ha) (List.Nodup.of_map Prod.fst hb)).mpr hmem
    refine List.Perm.eq_of_pairwise ?_ (pairwise_sortedByName as) (pairwise_sortedByName bs)
      ((sortedByName_perm as).trans (hperm.trans (sortedByName_perm bs).symm))
    -- the order is on names alone, so distinct names are what makes it antisymmetric
    intro d e hd he hde hed
    have hname := Text.le_antisymm hde hed
    have hd' : (d.1, d.2) ∈ as := (sortedByName_perm as).mem_iff.mp hd
    have he' : (d.1, e.2) ∈ as := by
      rw [hname, hmem]
      exact (sortedByName_perm bs).mem_iff.mp he
    rw [← Fields.get?_eq_some_iff ha] at hd' he'
    rw [hd'] at he'
    exact Prod.ext hname (Option.some_inj.mp he')

end Value

end RecordQuery
