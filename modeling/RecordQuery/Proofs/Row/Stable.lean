import Mathlib.Tactic

/-!
Stable sorting by a comparison. Items that tie keep their order, which leaves just one way to sort,
so sorting by one comparison and then by another is sorting by both at once.
-/

namespace RecordQuery.Row

variable {α : Type} {cmp cmp' : α → α → Ordering}

def sortBy (cmp : α → α → Ordering) (as : List α) : List α :=
  as.mergeSort fun a b => (cmp a b).isLE

-- The items that tie with an item.
def ties (cmp : α → α → Ordering) (a : α) (as : List α) : List α := as.filter fun b => cmp b a = .eq

theorem sortBy_perm (cmp : α → α → Ordering) (as : List α) : (sortBy cmp as).Perm as :=
  List.mergeSort_perm as _

theorem mem_ties {a b : α} {as : List α} : b ∈ ties cmp a as ↔ b ∈ as ∧ cmp b a = .eq := by
  simp [ties]

theorem ties_compareLex (a : α) (as : List α) :
    ties (compareLex cmp cmp') a as = ties cmp' a (ties cmp a as) := by
  rw [ties, ties, ties, List.filter_filter]
  refine List.filter_congr fun b _ => ?_
  rw [← Bool.decide_and]
  exact decide_eq_decide.mpr (compareLex_eq_eq.trans and_comm)

theorem ties_comm (a : α) (as : List α) :
    ties cmp a (ties cmp' a as) = ties cmp' a (ties cmp a as) := by
  rw [ties, ties, ties, ties, List.filter_filter, List.filter_filter]
  exact List.filter_congr fun b _ => Bool.and_comm _ _

variable [Std.TransCmp cmp]

theorem isLE_self (a : α) : (cmp a a).isLE = true :=
  Ordering.isLE_of_eq_eq Std.ReflCmp.compare_self

theorem isLE_total (a b : α) : ((cmp a b).isLE || (cmp b a).isLE) = true := by
  rw [(Std.OrientedCmp.eq_swap : cmp b a = (cmp a b).swap)]
  cases cmp a b <;> rfl

theorem sortBy_pairwise (as : List α) : (sortBy cmp as).Pairwise fun a b => (cmp a b).isLE = true :=
  List.pairwise_mergeSort (fun _ _ _ => Std.TransCmp.isLE_trans) isLE_total as

theorem ties_pairwise (a : α) (as : List α) :
    (ties cmp a as).Pairwise fun b c => (cmp b c).isLE = true := by
  refine List.pairwise_of_forall_mem_list fun b hb c hc => ?_
  have hbc : cmp b c = .eq :=
    Std.TransCmp.eq_trans (mem_ties.mp hb).2 (Std.OrientedCmp.eq_symm (mem_ties.mp hc).2)
  rw [hbc]
  rfl

theorem ties_sortBy (a : α) (as : List α) : ties cmp a (sortBy cmp as) = ties cmp a as := by
  have hsublist : (ties cmp a as).Sublist (sortBy cmp as) :=
    List.sublist_mergeSort (fun _ _ _ => Std.TransCmp.isLE_trans) isLE_total (ties_pairwise a as)
      List.filter_sublist
  have hties := hsublist.filter fun b => decide (cmp b a = .eq)
  rw [ties, List.filter_filter] at hties
  simp only [Bool.and_self] at hties
  exact (hties.eq_of_length ((sortBy_perm cmp as).filter _).length_eq.symm).symm

-- What comes first in order is the first of the items that none is below.
theorem head?_sortBy {a : α} {as : List α} (hle : ∀ b ∈ as, (cmp a b).isLE = true)
    (hfirst : (ties cmp a as).head? = some a) : (sortBy cmp as).head? = some a := by
  have hmem : a ∈ as := (mem_ties.mp (List.mem_of_head? hfirst)).1
  have hsorted : a ∈ sortBy cmp as := (sortBy_perm cmp as).mem_iff.mpr hmem
  have hties : ties cmp a (sortBy cmp as) = ties cmp a as := ties_sortBy a as
  have hpairwise : (sortBy cmp as).Pairwise fun a b => (cmp a b).isLE = true := sortBy_pairwise as
  have hperm : (sortBy cmp as).Perm as := sortBy_perm cmp as
  cases hcons : sortBy cmp as with
  | nil =>
    rw [hcons] at hsorted
    cases hsorted
  | cons b rest =>
    rw [hcons] at hsorted hties hpairwise hperm
    have hba : (cmp b a).isLE = true := by
      rcases List.mem_cons.mp hsorted with rfl | hrest
      · exact isLE_self a
      · exact (List.pairwise_cons.mp hpairwise).1 a hrest
    have hab : (cmp a b).isLE = true := hle b (hperm.mem_iff.mp List.mem_cons_self)
    have htie : cmp b a = .eq := Std.OrientedCmp.isLE_antisymm hba hab
    rw [← hties, ties, List.filter_cons_of_pos (by simpa using htie)] at hfirst
    exact hfirst

-- There is only one list of the same items that is in order and has the same ties.
theorem eq_of_ties_eq {as bs : List α} (hperm : as.Perm bs)
    (ha : as.Pairwise fun a b => (cmp a b).isLE = true)
    (hb : bs.Pairwise fun a b => (cmp a b).isLE = true)
    (hties : ∀ a, ties cmp a as = ties cmp a bs) : as = bs := by
  induction as generalizing bs with
  | nil => exact hperm.nil_eq
  | cons a as ih =>
    cases bs with
    | nil => exact hperm.eq_nil
    | cons b bs =>
      rw [List.pairwise_cons] at ha hb
      have hab : (cmp a b).isLE = true := by
        rcases List.mem_cons.mp (hperm.symm.subset List.mem_cons_self) with rfl | h
        · exact isLE_self b
        · exact ha.1 b h
      have hba : (cmp b a).isLE = true := by
        rcases List.mem_cons.mp (hperm.subset List.mem_cons_self) with rfl | h
        · exact isLE_self a
        · exact hb.1 a h
      -- both heads tie, so each of them is the first of the ties
      have hself : cmp a a = .eq := Std.ReflCmp.compare_self
      have htie : cmp b a = .eq := Std.OrientedCmp.isLE_antisymm hba hab
      have hheads := hties a
      rw [ties, ties, List.filter_cons_of_pos (by simp [hself]),
        List.filter_cons_of_pos (by simp [htie])] at hheads
      obtain rfl := (List.cons.inj hheads).1
      refine congrArg (a :: ·) (ih hperm.cons_inv ha.2 hb.2 fun c => ?_)
      have hc := hties c
      rw [ties, ties, List.filter_cons, List.filter_cons] at hc
      split at hc
      · exact (List.cons.inj hc).2
      · exact hc

-- Lists with the same ties have the same items, as often.
theorem perm_of_ties_eq {as bs : List α} (hties : ∀ a, ties cmp a as = ties cmp a bs) :
    as.Perm bs := by
  classical
  refine List.perm_iff_count.mpr fun a => ?_
  have hself : cmp a a = .eq := Std.ReflCmp.compare_self
  have hcount : ∀ cs : List α, (ties cmp a cs).count a = cs.count a := fun cs =>
    List.count_filter (decide_eq_true hself)
  rw [← hcount as, hties a, hcount bs]

-- Items are in the order of two comparisons if they are in that of the first one, and those that tie
-- in it are in that of the second.
theorem pairwise_compareLex {as : List α} (h : as.Pairwise fun a b => (cmp a b).isLE = true)
    (hties : ∀ a, (ties cmp a as).Pairwise fun b c => (cmp' b c).isLE = true) :
    as.Pairwise fun a b => (compareLex cmp cmp' a b).isLE = true := by
  rw [List.pairwise_iff_forall_sublist] at h ⊢
  intro a b hab
  have hle := h hab
  cases hcompare : cmp a b with
  | lt => simp [compareLex, hcompare]
  | eq =>
    have hself : cmp b b = .eq := Std.ReflCmp.compare_self
    have hpair : [a, b].Sublist (ties cmp b as) := by
      have hfilter := hab.filter fun c => decide (cmp c b = .eq)
      simpa [ties, hcompare, hself] using hfilter
    simpa [compareLex, hcompare] using List.pairwise_iff_forall_sublist.mp (hties b) hpair
  | gt => simp [hcompare] at hle

-- The later sort decides, and the earlier one where the later one has ties.
theorem sortBy_sortBy [Std.TransCmp cmp'] (as : List α) :
    sortBy cmp (sortBy cmp' as) = sortBy (compareLex cmp cmp') as := by
  refine eq_of_ties_eq ?_ ?_ (sortBy_pairwise as) fun a => ?_
  · exact (sortBy_perm cmp _).trans ((sortBy_perm cmp' as).trans (sortBy_perm _ as).symm)
  · refine pairwise_compareLex (sortBy_pairwise _) fun a => ?_
    rw [ties_sortBy]
    exact (sortBy_pairwise as).filter _
  · rw [ties_sortBy, ties_compareLex, ties_compareLex, ties_sortBy, ties_comm, ties_sortBy,
      ties_comm]

end RecordQuery.Row
