import Mathlib.Tactic
import Mathlib.Data.List.Perm.Basic

/-!
Items sorted into classes by a key, as one pass over them meets the classes: each class stands where
its first item stood and keeps the order of its items.
-/

namespace RecordQuery.Row

variable {α κ : Type} [DecidableEq κ] {key : α → κ}

-- The items whose key no item before them has.
def firsts (key : α → κ) : List α → List α
  | [] => []
  | a :: rest => a :: (firsts key rest).filter fun b => key b ≠ key a

-- The items of one key.
def classOf (key : α → κ) (as : List α) (k : κ) : List α := as.filter fun a => key a = k

def classes (key : α → κ) (as : List α) : List (List α) :=
  (firsts key as).map fun first => classOf key as (key first)

theorem firsts_sublist (as : List α) : (firsts key as).Sublist as := by
  induction as with
  | nil => exact .slnil
  | cons a rest ih => exact (List.filter_sublist.trans ih).cons_cons a

theorem firsts_pairwise (as : List α) : (firsts key as).Pairwise fun a b => key a ≠ key b := by
  induction as with
  | nil => exact .nil
  | cons a rest ih =>
    refine .cons (fun b hb => ?_) (ih.filter _)
    exact (of_decide_eq_true (List.mem_filter.mp hb).2).symm

-- Every key is that of one item that is kept, the first of the items that have it.
theorem exists_first (key : α → κ) {as : List α} {a : α} (ha : a ∈ as) :
    ∃ before first after, as = before ++ first :: after ∧ key first = key a ∧
      (∀ b ∈ before, key b ≠ key a) ∧ first ∈ firsts key as := by
  induction as with
  | nil => cases ha
  | cons c rest ih =>
    by_cases hc : key c = key a
    · exact ⟨[], c, rest, rfl, hc, by simp, List.mem_cons_self⟩
    · have hrest : a ∈ rest := by
        rcases List.mem_cons.mp ha with rfl | h
        · exact absurd rfl hc
        · exact h
      obtain ⟨before, first, after, rfl, hfirst, hbefore, hmem⟩ := ih hrest
      refine ⟨c :: before, first, after, rfl, hfirst, List.forall_mem_cons.mpr ⟨hc, hbefore⟩, ?_⟩
      rw [firsts, List.mem_cons, List.mem_filter, hfirst]
      exact .inr ⟨hmem, decide_eq_true (Ne.symm hc)⟩

theorem exists_mem_firsts (key : α → κ) {as : List α} {a : α} (ha : a ∈ as) :
    ∃ first ∈ firsts key as, key first = key a := by
  obtain ⟨before, first, after, -, hfirst, -, hmem⟩ := exists_first key ha
  exact ⟨first, hmem, hfirst⟩

theorem eq_of_mem_firsts {as : List α} {a b : α} (ha : a ∈ firsts key as) (hb : b ∈ firsts key as)
    (h : key a = key b) : a = b := by
  by_contra hne
  have : Std.Symm fun a b => key a ≠ key b := ⟨fun _ _ => Ne.symm⟩
  exact (firsts_pairwise as).forall ha hb hne h

-- One more item is kept unless its key has occurred.
theorem firsts_concat (as : List α) (a : α) :
    firsts key (as ++ [a]) = firsts key as ++ if ∃ b ∈ as, key b = key a then [] else [a] := by
  induction as with
  | nil => simp [firsts]
  | cons c rest ih =>
    rw [List.cons_append, firsts, firsts, ih, List.filter_append, List.cons_append]
    congr 2
    by_cases hc : key c = key a
    · have hexists : ∃ b ∈ c :: rest, key b = key a := ⟨c, List.mem_cons_self, hc⟩
      simp only [hexists, if_true]
      split <;> simp [hc]
    · have hexists : (∃ b ∈ c :: rest, key b = key a) ↔ ∃ b ∈ rest, key b = key a := by
        simp [hc]
      simp only [hexists]
      split <;> simp [Ne.symm hc]

theorem firsts_eq_self {as : List α} (h : as.Pairwise fun a b => key a ≠ key b) :
    firsts key as = as := by
  induction as with
  | nil => rfl
  | cons a rest ih =>
    obtain ⟨ha, hrest⟩ := List.pairwise_cons.mp h
    rw [firsts, ih hrest, List.filter_eq_self.mpr fun b hb => decide_eq_true (ha b hb).symm]

-- The first items of a whole are those that are left when first items alone are kept of a part of it.
theorem firsts_append_firsts (as bs : List α) :
    firsts key (as ++ firsts key bs) = firsts key (as ++ bs) := by
  induction as with
  | nil => exact firsts_eq_self (firsts_pairwise bs)
  | cons a rest ih => rw [List.cons_append, List.cons_append, firsts, firsts, ih]

theorem firsts_firsts_append (as bs : List α) :
    firsts key (firsts key as ++ bs) = firsts key (as ++ bs) := by
  induction bs using List.reverseRecOn with
  | nil =>
    rw [List.append_nil, List.append_nil]
    exact firsts_eq_self (firsts_pairwise as)
  | append_singleton bs b ih =>
    have hexists : (∃ c ∈ firsts key as ++ bs, key c = key b) ↔ ∃ c ∈ as ++ bs, key c = key b := by
      constructor
      · rintro ⟨c, hc, hkey⟩
        exact ⟨c, ((firsts_sublist as).append_right bs).subset hc, hkey⟩
      · rintro ⟨c, hc, hkey⟩
        rcases List.mem_append.mp hc with hc | hc
        · obtain ⟨first, hfirst, heq⟩ := exists_mem_firsts key hc
          exact ⟨first, List.mem_append_left bs hfirst, heq.trans hkey⟩
        · exact ⟨c, List.mem_append_right _ hc, hkey⟩
    rw [← List.append_assoc, ← List.append_assoc, firsts_concat, firsts_concat, ih]
    simp only [hexists]

-- Dropping whole classes and keeping the first items can be done in either order.
theorem firsts_filter {p : α → Bool} (hp : ∀ a b, key a = key b → p a = p b) (as : List α) :
    firsts key (as.filter p) = (firsts key as).filter p := by
  induction as with
  | nil => rfl
  | cons a rest ih =>
    cases ha : p a with
    | true =>
      rw [List.filter_cons_of_pos ha, firsts, firsts, List.filter_cons_of_pos ha, ih,
        List.filter_filter, List.filter_filter]
      simp only [Bool.and_comm]
    | false =>
      -- what the item stands for is dropped anyway
      have hkept : ∀ b ∈ firsts key rest, (p b && decide (key b ≠ key a)) = p b := by
        intro b _
        cases hb : p b with
        | true =>
          have hne : key b ≠ key a := by
            intro h
            rw [hp b a h, ha] at hb
            cases hb
          simp [hne]
        | false => rfl
      rw [List.filter_cons_of_neg (by simp [ha]), firsts, List.filter_cons_of_neg (by simp [ha]), ih,
        List.filter_filter, List.filter_congr hkept]

theorem findSome?_filter_of_eq_none {β : Type} {f : α → Option β} {p : α → Bool}
    (h : ∀ a, p a = false → f a = none) (as : List α) :
    (as.filter p).findSome? f = as.findSome? f := by
  induction as with
  | nil => rfl
  | cons a rest ih =>
    cases ha : p a with
    | true => rw [List.filter_cons_of_pos ha, List.findSome?_cons, List.findSome?_cons, ih]
    | false =>
      rw [List.filter_cons_of_neg (by simp [ha]), List.findSome?_cons, h a ha]
      exact ih

-- A search that succeeds on an item if it does on the first of its class stops at a first item.
theorem findSome?_firsts {β : Type} {f : α → Option β}
    (hf : ∀ a b, key a = key b → f a = none → f b = none) (as : List α) :
    (firsts key as).findSome? f = as.findSome? f := by
  induction as with
  | nil => rfl
  | cons a rest ih =>
    rw [firsts, List.findSome?_cons, List.findSome?_cons]
    cases ha : f a with
    | some b => rfl
    | none =>
      have hdropped : ∀ b, decide (key b ≠ key a) = false → f b = none := by
        intro b hb
        have hkey : key b = key a := by simpa using hb
        exact hf a b hkey.symm ha
      rw [findSome?_filter_of_eq_none hdropped, ih]

-- The keys, each of them once, depend on the order of the items in their own order only.
theorem map_firsts_perm {as bs : List α} (h : as.Perm bs) :
    ((firsts key as).map key).Perm ((firsts key bs).map key) := by
  have hnodup : ∀ cs : List α, ((firsts key cs).map key).Nodup := fun cs =>
    List.pairwise_map.mpr (firsts_pairwise cs)
  have hmem : ∀ (cs : List α) (k : κ), k ∈ (firsts key cs).map key ↔ ∃ c ∈ cs, key c = k := by
    intro cs k
    rw [List.mem_map]
    constructor
    · rintro ⟨c, hc, hk⟩
      exact ⟨c, (firsts_sublist cs).subset hc, hk⟩
    · rintro ⟨c, hc, rfl⟩
      exact exists_mem_firsts key hc
  refine (List.perm_ext_iff_of_nodup (hnodup as) (hnodup bs)).mpr fun k => ?_
  simp only [hmem, h.mem_iff]

theorem mem_classOf {as : List α} {a : α} {k : κ} : a ∈ classOf key as k ↔ a ∈ as ∧ key a = k := by
  simp [classOf]

-- Items sorted out under keys that differ, one of them for every item, are all the items.
theorem flatMap_classOf_perm {as heads : List α}
    (hpairwise : heads.Pairwise fun a b => key a ≠ key b)
    (hheads : ∀ a ∈ as, ∃ head ∈ heads, key head = key a) :
    (heads.flatMap fun head => classOf key as (key head)).Perm as := by
  induction heads generalizing as with
  | nil =>
    have has : as = [] := List.eq_nil_iff_forall_not_mem.mpr fun a ha => by simpa using hheads a ha
    rw [has]
    exact .nil
  | cons head heads ih =>
    obtain ⟨hhead, hpairwise⟩ := List.pairwise_cons.mp hpairwise
    -- the classes of the other heads are classes of what the first one leaves
    have hrest : ∀ h ∈ heads, classOf key as (key h) =
        classOf key (as.filter fun a => !decide (key a = key head)) (key h) := by
      intro h hh
      rw [classOf, classOf, List.filter_filter]
      refine List.filter_congr fun a _ => ?_
      have := hhead h hh
      grind
    rw [List.flatMap_cons, List.flatMap_congr hrest]
    refine (List.Perm.append_left _ (ih hpairwise fun a ha => ?_)).trans
      (List.filter_append_perm (fun a => decide (key a = key head)) as)
    obtain ⟨hmem, hne⟩ := List.mem_filter.mp ha
    obtain ⟨h, hh, hkey⟩ := hheads a hmem
    rcases List.mem_cons.mp hh with rfl | hh
    · simp [hkey] at hne
    · exact ⟨h, hh, hkey⟩

-- Every item is in one class, as often as it occurs.
theorem flatten_classes_perm (as : List α) : (classes key as).flatten.Perm as := by
  rw [classes, ← List.flatMap_def]
  exact flatMap_classOf_perm (firsts_pairwise as) fun a => exists_mem_firsts key

theorem mem_classes {as c : List α} : c ∈ classes key as ↔ ∃ a ∈ as, c = classOf key as (key a) := by
  simp only [classes, List.mem_map]
  constructor
  · rintro ⟨first, hfirst, rfl⟩
    exact ⟨first, (firsts_sublist as).subset hfirst, rfl⟩
  · rintro ⟨a, ha, rfl⟩
    obtain ⟨first, hfirst, hkey⟩ := exists_mem_firsts key ha
    exact ⟨first, hfirst, by rw [hkey]⟩

theorem head?_classOf {as : List α} {first : α} (h : first ∈ firsts key as) :
    (classOf key as (key first)).head? = some first := by
  obtain ⟨before, a, after, has, hkey, hbefore, ha⟩ :=
    exists_first key ((firsts_sublist as).subset h)
  obtain rfl := eq_of_mem_firsts ha h hkey
  rw [has, classOf, List.filter_append, List.filter_eq_nil_iff.mpr (by simpa using hbefore)]
  simp

end RecordQuery.Row
