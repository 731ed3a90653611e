import RecordQuery.Proofs.Value.Key
import RecordQuery.Value.Comparison

/-!
The order of values is a total preorder whose ties are the values that share a key. Values of two
kinds are compared by the place of the kinds, and for values of one kind the induction follows the
left value.
-/

namespace RecordQuery

-- Comparisons that do not descend compose: the first one that ascends decides.
theorem compare_eq_then_of_transCmp {α : Type} {f : α → α → Ordering} [Std.TransCmp f] {a b c : α}
    (hab : (f a b).isLE = true) (hbc : (f b c).isLE = true) : f a c = (f a b).then (f b c) := by
  cases h : f a b with
  | lt => exact Std.TransCmp.lt_of_lt_of_isLE h hbc
  | eq => exact Std.TransCmp.congr_left h
  | gt => simp [h] at hab

-- The same of two steps one after the other: the second counts where both first ones are equal.
theorem then_eq_then {o p q o' p' q' : Ordering}
    (hfirst : o.isLE = true → p.isLE = true → q = o.then p)
    (hsecond : o'.isLE = true → p'.isLE = true → q' = o'.then p')
    (ho : (o.then o').isLE = true) (hp : (p.then p').isLE = true) :
    q.then q' = (o.then o').then (p.then p') := by
  cases o with
  | lt =>
    have hle : p.isLE = true := by cases p <;> first | rfl | cases hp
    rw [hfirst rfl hle]
    rfl
  | eq =>
    cases p with
    | lt =>
      rw [hfirst rfl rfl]
      change o'.isLE = true at ho
      change Ordering.lt = o'.then .lt
      cases o' <;> first | rfl | cases ho
    | eq =>
      rw [hfirst rfl rfl]
      exact hsecond ho hp
    | gt => cases hp
  | gt => cases ho

theorem isLE_cmp_iff {α : Type} [LinearOrder α] {a b : α} : (cmp a b).isLE = true ↔ a ≤ b := by
  rcases lt_trichotomy a b with h | h | h
  · rw [(cmp_eq_lt_iff a b).mpr h]
    simp [h.le]
  · rw [(cmp_eq_eq_iff a b).mpr h]
    simp [h]
  · rw [(cmp_eq_gt_iff a b).mpr h]
    simp [h]

instance : Std.TransCmp Number.compare where
  eq_swap := by
    intro a b
    rw [Number.compare_eq_cmp_rank, Number.compare_eq_cmp_rank, cmp_swap]
  isLE_trans := by
    intro a b c hab hbc
    rw [Number.compare_eq_cmp_rank, isLE_cmp_iff] at hab hbc ⊢
    exact hab.trans hbc

theorem Number.compare_swap (a b : Number) : a.compare b = (b.compare a).swap :=
  Std.OrientedCmp.eq_swap

theorem Number.compare_eq_iff {a b : Number} : a.compare b = .eq ↔ a.key = b.key := by
  rw [compare_eq_cmp_rank, cmp_eq_eq_iff, key_eq_key_iff, sameValue_iff_rank]

theorem Text.compare_eq_iff {a b : Text} : compare a b = .eq ↔ a = b :=
  Std.LawfulEqCmp.compare_eq_iff_eq

theorem Kind.rank_injective : Function.Injective Kind.rank := by
  intro k k' h
  cases k <;> cases k' <;> first | rfl | cases h

namespace Value

theorem compare_of_kind_ne {a b : Value} (h : a.kind ≠ b.kind) :
    compare a b = Ord.compare a.kind.rank b.kind.rank := by
  cases a <;> cases b <;> first | rfl | exact absurd rfl h

theorem rank_le_of_isLE {a b : Value} (h : (compare a b).isLE = true) :
    a.kind.rank ≤ b.kind.rank := by
  by_cases hkind : a.kind = b.kind
  · rw [hkind]
  · rw [compare_of_kind_ne hkind] at h
    exact Nat.isLE_compare.mp h

theorem compare_eq_lt_of_rank_lt {a b : Value} (h : a.kind.rank < b.kind.rank) :
    compare a b = .lt := by
  have hkind : a.kind ≠ b.kind := by
    intro heq
    rw [heq] at h
    exact lt_irrefl _ h
  rw [compare_of_kind_ne hkind]
  exact Nat.compare_eq_lt.mpr h

theorem compare_swap_of_kind_ne {a b : Value} (h : a.kind ≠ b.kind) :
    compare b a = (compare a b).swap := by
  rw [compare_of_kind_ne h, compare_of_kind_ne (Ne.symm h), Nat.compare_swap]

theorem compareItems_swap {as bs : List Value}
    (ih : ∀ a ∈ as, ∀ b, compare b a = (compare a b).swap) :
    compareItems bs as = (compareItems as bs).swap := by
  induction as generalizing bs with
  | nil => cases bs <;> rfl
  | cons a as ih' =>
    cases bs with
    | nil => rfl
    | cons b bs =>
      rw [compareItems, compareItems, ih a List.mem_cons_self b,
        ih' fun v hv => ih v (List.mem_cons_of_mem a hv)]
      cases compare a b <;> rfl

theorem compare_swap (a b : Value) : compare b a = (compare a b).swap := by
  induction a generalizing b with
  | null =>
    cases b with
    | null => rfl
    | _ => exact compare_swap_of_kind_ne (by simp [kind])
  | bool x =>
    cases b with
    | bool y => exact (Nat.compare_swap x.toNat y.toNat).symm
    | _ => exact compare_swap_of_kind_ne (by simp [kind])
  | number m =>
    cases b with
    | number n => exact Number.compare_swap n m
    | _ => exact compare_swap_of_kind_ne (by simp [kind])
  | text t =>
    cases b with
    | text t' => exact Text.compare_swap t' t
    | _ => exact compare_swap_of_kind_ne (by simp [kind])
  | list as ih =>
    cases b with
    | list bs => exact compareItems_swap ih
    | _ => exact compare_swap_of_kind_ne (by simp [kind])
  | tuple as ih =>
    cases b with
    | tuple bs => exact compareItems_swap ih
    | _ => exact compare_swap_of_kind_ne (by simp [kind])
  | object as _ =>
    cases b with
    | object bs => exact Text.compare_swap _ _
    | _ => exact compare_swap_of_kind_ne (by simp [kind])

theorem compare_then_of_kind_ne {a b c : Value} (h : a.kind ≠ b.kind ∨ b.kind ≠ c.kind)
    (hab : (compare a b).isLE = true) (hbc : (compare b c).isLE = true) :
    compare a c = (compare a b).then (compare b c) := by
  have hrank := rank_le_of_isLE hab
  have hrank' := rank_le_of_isLE hbc
  by_cases hkind : a.kind = b.kind
  · have hne : b.kind.rank ≠ c.kind.rank := by
      intro heq
      exact h.elim (fun hn => hn hkind) fun hn => hn (Kind.rank_injective heq)
    rw [compare_eq_lt_of_rank_lt (a := a) (b := c) (by omega),
      compare_eq_lt_of_rank_lt (a := b) (b := c) (by omega)]
    cases hcompare : compare a b with
    | lt => rfl
    | eq => rfl
    | gt => simp [hcompare] at hab
  · have hne : a.kind.rank ≠ b.kind.rank := fun heq => hkind (Kind.rank_injective heq)
    rw [compare_eq_lt_of_rank_lt (a := a) (b := c) (by omega),
      compare_eq_lt_of_rank_lt (a := a) (b := b) (by omega)]
    rfl

theorem compareItems_then {as bs cs : List Value}
    (ih : ∀ a ∈ as, ∀ b c, (compare a b).isLE = true → (compare b c).isLE = true →
      compare a c = (compare a b).then (compare b c))
    (hab : (compareItems as bs).isLE = true) (hbc : (compareItems bs cs).isLE = true) :
    compareItems as cs = (compareItems as bs).then (compareItems bs cs) := by
  induction as generalizing bs cs with
  | nil => cases bs <;> cases cs <;> first | rfl | cases hbc
  | cons a as ih' =>
    cases bs with
    | nil => cases hab
    | cons b bs =>
      cases cs with
      | nil => cases hbc
      | cons c cs =>
        exact then_eq_then (ih a List.mem_cons_self b c)
          (ih' fun v hv => ih v (List.mem_cons_of_mem a hv)) hab hbc

theorem compare_then {a b c : Value} (hab : (compare a b).isLE = true)
    (hbc : (compare b c).isLE = true) : compare a c = (compare a b).then (compare b c) := by
  induction a generalizing b c with
  | null =>
    cases b with
    | null => rfl
    | _ => exact compare_then_of_kind_ne (.inl (by simp [kind])) hab hbc
  | bool x =>
    cases b with
    | bool y =>
      cases c with
      | bool z => exact compare_eq_then_of_transCmp (f := fun m n : ℕ => Ord.compare m n) hab hbc
      | _ => exact compare_then_of_kind_ne (.inr (by simp [kind])) hab hbc
    | _ => exact compare_then_of_kind_ne (.inl (by simp [kind])) hab hbc
  | number m =>
    cases b with
    | number n =>
      cases c with
      | number o => exact compare_eq_then_of_transCmp (f := Number.compare) hab hbc
      | _ => exact compare_then_of_kind_ne (.inr (by simp [kind])) hab hbc
    | _ => exact compare_then_of_kind_ne (.inl (by simp [kind])) hab hbc
  | text s =>
    cases b with
    | text t =>
      cases c with
      | text u => exact compare_eq_then_of_transCmp (f := Text.compare) hab hbc
      | _ => exact compare_then_of_kind_ne (.inr (by simp [kind])) hab hbc
    | _ => exact compare_then_of_kind_ne (.inl (by simp [kind])) hab hbc
  | list as ih =>
    cases b with
    | list bs =>
      cases c with
      | list cs => exact compareItems_then (fun a ha b c => ih a ha) hab hbc
      | _ => exact compare_then_of_kind_ne (.inr (by simp [kind])) hab hbc
    | _ => exact compare_then_of_kind_ne (.inl (by simp [kind])) hab hbc
  | tuple as ih =>
    cases b with
    | tuple bs =>
      cases c with
      | tuple cs => exact compareItems_then (fun a ha b c => ih a ha) hab hbc
      | _ => exact compare_then_of_kind_ne (.inr (by simp [kind])) hab hbc
    | _ => exact compare_then_of_kind_ne (.inl (by simp [kind])) hab hbc
  | object as _ =>
    cases b with
    | object bs =>
      cases c with
      | object cs => exact compare_eq_then_of_transCmp (f := Text.compare) hab hbc
      | _ => exact compare_then_of_kind_ne (.inr (by simp [kind])) hab hbc
    | _ => exact compare_then_of_kind_ne (.inl (by simp [kind])) hab hbc

instance : Std.TransCmp Value.compare where
  eq_swap {a b} := compare_swap b a
  isLE_trans {a b c} hab hbc := by
    rw [compare_then hab hbc]
    cases h : compare a b with
    | lt => rfl
    | eq => exact hbc
    | gt => simp [h] at hab

theorem compare_eq_iff_of_kind_ne {a b : Value} (h : a.kind ≠ b.kind) :
    compare a b = .eq ↔ a.key = b.key := by
  rw [compare_of_kind_ne h, Nat.compare_eq_eq]
  exact iff_of_false (fun heq => h (Kind.rank_injective heq)) fun heq => h (kind_eq_of_key_eq heq)

theorem compareItems_eq_iff {as bs : List Value}
    (ih : ∀ a ∈ as, ∀ b, compare a b = .eq ↔ a.key = b.key) :
    compareItems as bs = .eq ↔ keys as = keys bs := by
  induction as generalizing bs with
  | nil => cases bs <;> simp [compareItems, keys]
  | cons a as ih' =>
    cases bs with
    | nil => simp [compareItems, keys]
    | cons b bs =>
      rw [compareItems, keys, keys, Ordering.then_eq_eq, List.cons.injEq, ih a List.mem_cons_self b,
        ih' fun v hv => ih v (List.mem_cons_of_mem a hv)]

theorem compare_eq_iff (a b : Value) : compare a b = .eq ↔ a.key = b.key := by
  induction a generalizing b with
  | null =>
    cases b with
    | null => exact iff_of_true rfl rfl
    | _ => exact compare_eq_iff_of_kind_ne (by simp [kind])
  | bool x =>
    cases b with
    | bool y => cases x <;> cases y <;> decide
    | _ => exact compare_eq_iff_of_kind_ne (by simp [kind])
  | number m =>
    cases b with
    | number n =>
      rw [compare, Number.compare_eq_iff, key, key, List.cons.injEq]
      exact (and_iff_right rfl).symm
    | _ => exact compare_eq_iff_of_kind_ne (by simp [kind])
  | text t =>
    cases b with
    | text t' => rw [compare, Text.compare_eq_iff, key, key, Text.quoted_injective.eq_iff]
    | _ => exact compare_eq_iff_of_kind_ne (by simp [kind])
  | list as ih =>
    cases b with
    | list bs => rw [compare, compareItems_eq_iff ih, key_list_eq_iff]
    | _ => exact compare_eq_iff_of_kind_ne (by simp [kind])
  | tuple as ih =>
    cases b with
    | tuple bs => rw [compare, compareItems_eq_iff ih, key_tuple_eq_iff]
    | _ => exact compare_eq_iff_of_kind_ne (by simp [kind])
  | object as _ =>
    cases b with
    | object bs => rw [compare, Text.compare_eq_iff]
    | _ => exact compare_eq_iff_of_kind_ne (by simp [kind])

-- What the six comparison operators answer on values that can be ordered.
theorem holds_of_compareOrdered_eq {op : CompareOp} {a b : Value} {o : Ordering}
    (h : compareOrdered op a b = .ok o) :
    holds .lt a b = .ok o.isLT ∧ holds .le a b = .ok o.isLE ∧ holds .gt a b = .ok o.isGT ∧
      holds .ge a b = .ok o.isGE ∧ holds .eq a b = .ok o.isEq := by
  simp only [compareOrdered] at h
  split at h
  · next hordered =>
    cases h
    have heq : a.equals b = (compare a b).isEq := by
      rw [Bool.eq_iff_iff, equals_iff, ← compare_eq_iff, Ordering.isEq_iff_eq_eq]
    simp only [holds, compareOrdered, hordered, if_true, Except.map, heq, and_self]
  · cases h

-- Comparison is a total preorder whose ties are the equal values, numbers are in it by their exact
-- value, and the operators agree with it wherever they accept their operands.
theorem compare_totalPreorder :
    (∀ a b : Value, compare a b = (compare b a).swap) ∧
      (∀ a b c : Value, (compare a b).isLE = true → (compare b c).isLE = true →
        (compare a c).isLE = true) ∧
      (∀ a b : Value, compare a b = .eq ↔ a.equals b = true) ∧
      (∀ m n : Number, m.isNaN = false → n.isNaN = false →
        compare (.number m) (.number n) = cmp m.extended n.extended) ∧
      ∀ (op : CompareOp) (a b : Value) (o : Ordering), compareOrdered op a b = .ok o →
        ∃ less equal greater : Bool,
          holds .lt a b = .ok less ∧ holds .eq a b = .ok equal ∧ holds .gt a b = .ok greater ∧
            [less, equal, greater].count true = 1 ∧
            holds .le a b = .ok !greater ∧ holds .ge a b = .ok !less := by
  refine ⟨fun a b => compare_swap b a, fun a b c hab hbc => ?_, fun a b => ?_, fun m n => ?_,
    fun op a b o h => ?_⟩
  · rw [compare_then hab hbc]
    cases h : compare a b with
    | lt => rfl
    | eq => exact hbc
    | gt => simp [h] at hab
  · rw [equals_iff, compare_eq_iff]
  · intro hm hn
    rw [compare, Number.compare_eq_cmp hm hn]
  · obtain ⟨hlt, hle, hgt, hge, heq⟩ := holds_of_compareOrdered_eq h
    refine ⟨o.isLT, o.isEq, o.isGT, hlt, heq, hgt, ?_, hle.trans ?_, hge.trans ?_⟩ <;>
      cases o <;> rfl

-- Neighbours beyond the safe range, one held as a double and one exactly, after null and a boolean.
theorem compare_totalPreorder_beyondSafe :
    let double := Number.float (Double.ofInt 9007199254740992)
    let exact := Number.big 9007199254740993
    double.isNaN = false ∧ exact.isNaN = false ∧
      compare (.number double) (.number exact) = .lt ∧
      compareOrdered .le (.number double) (.number exact) = .ok .lt ∧
      holds .le (.number double) (.number exact) = .ok true ∧
      (compare .null (.bool true)).isLE = true ∧
      (compare (.bool true) (.number double)).isLE = true ∧
      (compare .null (.number double)).isLE = true := by
  intro double exact
  obtain ⟨-, htrans, -, hnumbers, hoperators⟩ := compare_totalPreorder
  obtain ⟨hnan, hextended⟩ := Double.extended_ofInt (n := 9007199254740992) (by norm_num)
  have hcompare : compare (.number double) (.number exact) = .lt := by
    rw [hnumbers double exact hnan rfl, cmp_eq_lt_iff]
    change (Double.ofInt 9007199254740992).extended < _
    rw [hextended, Number.extended, WithBot.coe_lt_coe, WithTop.coe_lt_coe]
    norm_num
  have hordered : compareOrdered .le (.number double) (.number exact) = .ok .lt := by
    rw [← hcompare]
    rfl
  obtain ⟨less, equal, greater, hlt, -, hgt, -, hle, -⟩ := hoperators _ _ _ _ hordered
  have hgreater : greater = false := by
    simp only [holds, compareOrdered, hcompare] at hgt
    exact (Except.ok.inj hgt).symm
  rw [hgreater] at hle
  have hnull : (compare .null (.bool true)).isLE = true := rfl
  have hbool : (compare (.bool true) (.number double)).isLE = true := rfl
  exact ⟨hnan, rfl, hcompare, hordered, hle, hnull, hbool, htrans _ _ _ hnull hbool⟩

end Value

end RecordQuery
