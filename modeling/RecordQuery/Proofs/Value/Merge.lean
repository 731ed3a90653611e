import RecordQuery.Proofs.Row.Class
import RecordQuery.Proofs.Value.Fields

/-!
Entries put over other entries. The names are those of both in the order in which they came first, the
value under a name is the one that came last. So it does not matter how three lots of entries are put
together, and entries put over themselves are what they were.
-/

namespace RecordQuery.Fields

open Row (firsts)

variable {α : Type} {a b c below above fields : Fields α} {key : Text} {x : α}

theorem keys_set (fields : Fields α) (key : Text) (x : α) :
    (fields.set key x).keys = fields.keys ++ if key ∈ fields.keys then [] else [key] := by
  induction fields with
  | nil => rfl
  | cons e rest ih =>
    by_cases hk : e.1 = key
    · simp [set, keys, hk]
    · have hmem : key ∈ keys (e :: rest) ↔ key ∈ keys rest := by simp [keys, Ne.symm hk]
      rw [set, if_neg hk]
      simp only [hmem]
      exact congrArg (e.1 :: ·) ih

theorem merge_concat (below : Fields α) (entries : List (Text × α)) (e : Text × α) :
    merge below (entries ++ [e]) = (merge below entries).set e.1 e.2 :=
  List.foldl_concat ..

-- A name stays where it came first. The entries on top may repeat names.
theorem keys_merge (hbelow : below.keys.Nodup) (entries : List (Text × α)) :
    (merge below entries).keys = firsts id (below.keys ++ entries.map Prod.fst) := by
  induction entries using List.reverseRecOn with
  | nil =>
    rw [List.map_nil, List.append_nil]
    exact (Row.firsts_eq_self hbelow).symm
  | append_singleton entries e ih =>
    have hmem : e.1 ∈ (merge below entries).keys ↔
        ∃ name ∈ below.keys ++ entries.map Prod.fst, id name = id e.1 := by
      rw [ih]
      constructor
      · exact fun h => ⟨e.1, (Row.firsts_sublist _).subset h, rfl⟩
      · rintro ⟨name, hname, heq⟩
        obtain ⟨first, hfirst, hsame⟩ := Row.exists_mem_firsts id hname
        have hlast : first = e.1 := hsame.trans heq
        rwa [← hlast]
    rw [merge_concat, keys_set, ih, List.map_append, List.map_singleton, ← List.append_assoc,
      Row.firsts_concat, ← ih]
    simp only [hmem]

theorem nodup_keys_merge (hbelow : below.keys.Nodup) (entries : List (Text × α)) :
    (merge below entries).keys.Nodup := by
  rw [keys_merge hbelow]
  exact Row.firsts_pairwise _

-- New names come behind those that are there.
theorem firsts_append_of_nodup {ks ls : List Text} (hk : ks.Nodup) (hl : ls.Nodup) :
    firsts id (ks ++ ls) = ks ++ ls.filter (· ∉ ks) := by
  induction ls using List.reverseRecOn with
  | nil =>
    rw [List.append_nil, List.filter_nil, List.append_nil]
    exact Row.firsts_eq_self hk
  | append_singleton ls l ih =>
    obtain ⟨hl, -, hnew⟩ := List.nodup_append.mp hl
    have hexists : (∃ k ∈ ks ++ ls, id k = id l) ↔ l ∈ ks := by
      have hnotMem : l ∉ ls := fun h => hnew l h l (List.mem_singleton_self l) rfl
      simp [hnotMem]
    rw [← List.append_assoc, Row.firsts_concat, ih hl, List.filter_append, List.append_assoc]
    simp only [hexists]
    by_cases hmem : l ∈ ks <;> simp [hmem]

-- Of entries under distinct names there is no last one to look for.
theorem get?_merge_of_nodup (habove : above.keys.Nodup) (below : Fields α) (key : Text) :
    (merge below above).get? key = (above.get? key).or (below.get? key) := by
  have hget := get?_ofEntries above key
  rw [ofEntries_eq_self habove] at hget
  rw [get?_merge, hget]

-- Entries under distinct names are known by the names in order and what is under each.
theorem eq_of_keys_eq (hnodup : a.keys.Nodup) (hkeys : a.keys = b.keys)
    (hget : ∀ key, a.get? key = b.get? key) : a = b := by
  induction a generalizing b with
  | nil => exact (List.map_eq_nil_iff.mp hkeys.symm).symm
  | cons d a ih =>
    cases b with
    | nil => cases hkeys
    | cons e b =>
      obtain ⟨hname, hrest⟩ := List.cons_eq_cons.mp hkeys
      obtain ⟨hnew, hnodup⟩ := List.nodup_cons.mp hnodup
      have hvalue : d.2 = e.2 := by simpa [get?, hname] using hget d.1
      refine List.cons_eq_cons.mpr ⟨Prod.ext hname hvalue, ih hnodup hrest fun key => ?_⟩
      by_cases hkey : d.1 = key
      · have hnew' : d.1 ∉ keys b := by rwa [keys, ← hrest]
        subst hkey
        rw [get?_eq_none_iff.mpr hnew, get?_eq_none_iff.mpr hnew']
      · simpa [get?, hkey, ← hname] using hget key

theorem merge_assoc (ha : a.keys.Nodup) (hb : b.keys.Nodup) (entries : List (Text × α)) :
    merge a (merge b entries) = merge (merge a b) entries := by
  have hmerged := nodup_keys_merge hb entries
  refine eq_of_keys_eq (nodup_keys_merge ha _) ?_ fun key => ?_
  · rw [keys_merge ha, keys_merge (nodup_keys_merge ha b), keys_merge ha, ← keys,
      keys_merge hb, Row.firsts_append_firsts, Row.firsts_firsts_append, List.append_assoc]
    rfl
  · rw [get?_merge_of_nodup hmerged, get?_merge, get?_merge, get?_merge_of_nodup hb,
      Option.or_assoc]

theorem merge_nil_left (ha : a.keys.Nodup) : merge [] a = a := ofEntries_eq_self ha

-- What is put over entries may be made of its own repeated names before or on the way.
theorem merge_ofEntries (ha : a.keys.Nodup) (entries : List (Text × α)) :
    merge a (ofEntries entries) = merge a entries :=
  merge_assoc (b := []) ha List.nodup_nil entries

theorem merge_self (ha : a.keys.Nodup) : merge a a = a := by
  refine eq_of_keys_eq (nodup_keys_merge ha a) ?_ fun key => ?_
  · have hnone : a.keys.filter (· ∉ a.keys) = [] :=
      List.filter_eq_nil_iff.mpr fun key hkey => by simpa using hkey
    rw [keys_merge ha, ← keys, firsts_append_of_nodup ha ha, hnone, List.append_nil]
  · rw [get?_merge_of_nodup ha, Option.or_self]

end RecordQuery.Fields
