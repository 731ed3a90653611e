import RecordQuery.Function.Standard
import RecordQuery.Proofs.Function.Reduction
import RecordQuery.Proofs.Value.WellFormed

/-!
Functions of well-formed values. Each function of the standard library makes a well-formed value of
such values: it gives back what it was given, a text or a truth value, a double, or a number that
arithmetic made.
-/

namespace RecordQuery

-- Of well-formed arguments, in any number, the function makes well-formed values.
def Function.Preserves (f : Function) : Prop :=
  ∀ args : List Value, (∀ v ∈ args, v.WellFormed) → Ensures Value.WellFormed (f.call args)

def Library.Preserves (library : Library) : Prop := ∀ entry ∈ library, entry.2.Preserves

namespace Function

open Value (WellFormed wellFormed_text wellFormed_bool wellFormed_null wellFormed_list
  wellFormed_tuple wellFormed_number wellFormed_object wellFormed_of_mem_texts)

variable {args : List Value} {v : Option Value}

theorem wellFormed_argument (h : ∀ v ∈ args, v.WellFormed) (i : ℕ) :
    ∀ v ∈ args[i]?, v.WellFormed := fun v hv => h v (List.mem_of_getElem? hv)

theorem ensures_numberArgument (name : Text) (hv : ∀ w ∈ v, w.WellFormed) :
    Ensures Number.WellFormed (numberArgument name v) := by
  unfold numberArgument
  split
  · next n hn =>
    obtain ⟨w, hw, hn⟩ := Option.bind_eq_some_iff.mp hn
    exact .ok ((hv w hw).numeric? hn)
  · exact .error _

theorem ensures_itemsArgument (name : Text) (hv : ∀ w ∈ v, w.WellFormed) :
    Ensures (fun items => ∀ w ∈ items, w.WellFormed) (itemsArgument name v) := by
  unfold itemsArgument
  split
  · next items hitems =>
    obtain ⟨w, hw, hitems⟩ := Option.bind_eq_some_iff.mp hitems
    exact .ok ((hv w hw).iterated? hitems)
  · exact .error _

theorem ensures_fieldsArgument (name : Text) (hv : ∀ w ∈ v, w.WellFormed) :
    Ensures (fun fields => ∀ e ∈ fields, e.2.WellFormed) (fieldsArgument name v) := by
  unfold fieldsArgument
  split
  · exact .ok (wellFormed_object.mp (hv _ rfl))
  · exact .error _

-- Reductions.
theorem ensures_sumOf {start : Number} (hstart : start.WellFormed) (items : List Value) :
    Ensures Number.WellFormed (sumOf start items) :=
  .foldlM hstart fun total _ _ _ => .after fun n => .ok (Number.wellFormed_apply .add total n)

theorem preserves_sum : sum.Preserves := fun args h => by
  refine .bind (ensures_itemsArgument "sum" (wellFormed_argument h 0)) fun items _ => ?_
  have htotal : ∀ start : Number, start.WellFormed →
      Ensures WellFormed (sumOf start items >>= fun total => .ok (.number total)) :=
    fun start hstart => .bind (ensures_sumOf hstart items) fun n hn =>
      .ok (wellFormed_number.mpr hn)
  dsimp only
  split
  · next w hw =>
    have hw' : ∀ v ∈ some w, v.WellFormed := hw ▸ wellFormed_argument h 1
    exact .bind (ensures_numberArgument "sum" hw') htotal
  · exact htotal _ trivial

theorem preserves_length (name : Text) : (length name).Preserves := fun _ _ =>
  .after fun items => .ok (Value.wellFormed_ofNat items.length)

theorem best_mem (beats : Value → Value → Bool) (first : Value) (rest : List Value) :
    best beats first rest ∈ first :: rest := by
  induction rest generalizing first with
  | nil => exact List.mem_singleton_self first
  | cons v rest ih =>
    rw [best, List.foldl_cons]
    split
    · exact List.mem_cons_of_mem first (ih v)
    · obtain hfirst | hrest := List.mem_cons.mp (ih first)
      · exact List.mem_cons.mpr (.inl hfirst)
      · exact List.mem_cons_of_mem first (List.mem_cons_of_mem v hrest)

theorem preserves_extreme (name : Text) (beats : Value → Value → Bool) :
    (extreme name beats).Preserves := fun args h => by
  unfold extreme
  dsimp only
  split
  · next v =>
    have hv : ∀ w ∈ some v, w.WellFormed := wellFormed_argument h 0
    refine .bind (ensures_itemsArgument name hv) fun items hitems => ?_
    split
    · exact .error _
    · exact .ok (hitems _ (best_mem beats _ _))
  · refine .bind (P := fun items => ∀ v ∈ items, v.WellFormed) (.ok h) fun items hitems => ?_
    split
    · exact .error _
    · exact .ok (hitems _ (best_mem beats _ _))

theorem preserves_average (name : Text) : (average name).Preserves := fun _ _ =>
  .after fun items => by
    split
    · exact .ok (wellFormed_number.mpr trivial)
    · exact .after fun total => .ok (wellFormed_number.mpr trivial)

theorem ensures_percentileOf {values : List Value} (h : ∀ v ∈ values, v.WellFormed)
    (fraction : Double) : Ensures WellFormed (percentileOf values fraction) := by
  unfold percentileOf
  dsimp only
  split
  · exact .error _
  · split
    · exact .error _
    · intro v hv
      obtain ⟨k, -, hk⟩ := selectRank_eq_ok_iff.mp hv
      exact h v (Value.hasRank_of_ofRank? hk).2.mem

theorem preserves_percentile : percentile.Preserves := fun _ h =>
  .bind (ensures_itemsArgument "percentile" (wellFormed_argument h 0)) fun _ hitems =>
    .after fun fraction => ensures_percentileOf hitems fraction

theorem preserves_reductions : reductions.Preserves := by
  have hmax : max.Preserves := preserves_extreme _ _
  have hmin : min.Preserves := preserves_extreme _ _
  simp [Library.Preserves, reductions, preserves_sum, preserves_length, hmax, hmin,
    preserves_average, preserves_percentile]

-- Functions on numbers.
theorem preserves_abs : abs.Preserves := fun _ h =>
  .bind (ensures_numberArgument "abs" (wellFormed_argument h 0)) fun _ hn =>
    .ok (wellFormed_number.mpr hn.abs)

theorem preserves_round : round.Preserves := fun args h =>
  .bind (ensures_numberArgument "round" (wellFormed_argument h 0)) fun n hn => by
    cases n with
    | big m => exact .ok (wellFormed_number.mpr hn)
    | float x =>
      dsimp only
      split
      · exact .after fun digits => .ok (wellFormed_number.mpr trivial)
      · exact .ok (wellFormed_number.mpr trivial)

theorem preserves_int : int.Preserves := fun args h => by
  unfold int fixed
  dsimp only
  split
  · split
    · exact .ok (wellFormed_number.mpr (Number.wellFormed_ofInt _))
    · exact .error _
  · have hv : ∀ v ∈ args.head?, v.WellFormed := fun v hv => h v (List.mem_of_mem_head? hv)
    refine .bind (ensures_numberArgument "int" hv) fun n hn => ?_
    cases n with
    | big m => exact .ok (wellFormed_number.mpr hn)
    | float x =>
      dsimp only
      split
      · exact .ok (wellFormed_number.mpr trivial)
      · exact .error _

theorem preserves_float : float.Preserves := fun args _ => by
  unfold float fixed
  dsimp only
  split
  · split
    · exact .ok (wellFormed_number.mpr trivial)
    · exact .error _
  · split
    · exact .ok (wellFormed_number.mpr trivial)
    · exact .error _

theorem preserves_numerics : numerics.Preserves := by
  simp [Library.Preserves, numerics, preserves_abs, preserves_round, preserves_int,
    preserves_float]

-- Functions on sequences.
theorem preserves_tuple : tuple.Preserves := fun args h => by
  cases args with
  | nil => exact .ok (wellFormed_tuple.mpr nofun)
  | cons v rest =>
    have hv : ∀ w ∈ some v, w.WellFormed := wellFormed_argument h 0
    exact .bind (ensures_itemsArgument "tuple" hv) fun items hitems =>
      .ok (wellFormed_tuple.mpr hitems)

theorem preserves_list : list.Preserves := fun args h => by
  cases args with
  | nil => exact .ok (wellFormed_list.mpr nofun)
  | cons v rest =>
    have hv : ∀ w ∈ some v, w.WellFormed := wellFormed_argument h 0
    exact .bind (ensures_itemsArgument "list" hv) fun items hitems =>
      .ok (wellFormed_list.mpr hitems)

theorem preserves_sorted : sorted.Preserves := fun _ h =>
  .bind (ensures_itemsArgument "sorted" (wellFormed_argument h 0)) fun _ hitems => by
    split
    · exact .ok (wellFormed_list.mpr fun v hv => hitems v (List.mem_mergeSort.mp hv))
    · exact .ok (wellFormed_list.mpr fun v hv => hitems v (List.mem_mergeSort.mp hv))

theorem preserves_reversed : reversed.Preserves := fun _ h =>
  .bind (ensures_itemsArgument "reversed" (wellFormed_argument h 0)) fun _ hitems =>
    .ok (wellFormed_list.mpr fun v hv => hitems v (List.mem_reverse.mp hv))

theorem ensures_rangeOf (start stop step : Double) :
    Ensures WellFormed (rangeOf start stop step) := by
  unfold rangeOf
  split
  · exact .error _
  · dsimp only
    split
    · exact .error _
    · refine .ok (wellFormed_list.mpr fun v hv => ?_)
      obtain ⟨i, -, rfl⟩ := List.mem_map.mp hv
      exact wellFormed_number.mpr trivial

theorem preserves_range : range.Preserves := fun _ _ =>
  .after fun bounds => by
    split
    · exact .ok (wellFormed_list.mpr nofun)
    · exact ensures_rangeOf _ _ _
    · exact ensures_rangeOf _ _ _
    · exact ensures_rangeOf _ _ _

theorem preserves_str : str.Preserves := fun _ _ => .ok (wellFormed_text _)

theorem preserves_bool : bool.Preserves := fun _ _ => .ok (wellFormed_bool _)

theorem preserves_sequences : sequences.Preserves := by
  simp [Library.Preserves, sequences, preserves_tuple, preserves_list, preserves_sorted,
    preserves_reversed, preserves_range, preserves_str, preserves_bool]

-- Functions on objects.
theorem preserves_keys : keys.Preserves := fun _ _ =>
  .after fun _ => .ok (wellFormed_list.mpr wellFormed_of_mem_texts)

theorem preserves_values : values.Preserves := fun _ h =>
  .bind (ensures_fieldsArgument "values" (wellFormed_argument h 0)) fun _ hfields =>
    .ok (wellFormed_list.mpr (List.forall_mem_map.mpr hfields))

theorem preserves_items : items.Preserves := fun _ h =>
  .bind (ensures_fieldsArgument "items" (wellFormed_argument h 0)) fun _ hfields => by
    refine .ok (wellFormed_list.mpr (List.forall_mem_map.mpr fun e he => ?_))
    simpa using hfields e he

theorem found?_wellFormed {container : Value} (hc : container.WellFormed) {key : Option Value}
    {w : Value} (hw : found? container key = some w) : w.WellFormed := by
  unfold found? at hw
  split at hw
  · exact Value.wellFormed_get? (wellFormed_object.mp hc) hw
  · obtain ⟨i, -, hi⟩ := Option.bind_eq_some_iff.mp hw
    obtain ⟨place, -, hplace⟩ := Option.bind_eq_some_iff.mp hi
    exact wellFormed_list.mp hc w (List.mem_of_getElem? hplace)
  · obtain ⟨i, -, hi⟩ := Option.bind_eq_some_iff.mp hw
    obtain ⟨place, -, hplace⟩ := Option.bind_eq_some_iff.mp hi
    exact wellFormed_tuple.mp hc w (List.mem_of_getElem? hplace)
  · cases hw

theorem preserves_get : get.Preserves := fun args h => by
  unfold get fixed
  dsimp only
  split
  · next container hcontainer =>
    split
    · refine .ok ?_
      cases hfound : found? container args[1]? with
      | some w =>
        exact found?_wellFormed (wellFormed_argument h 0 container hcontainer) hfound
      | none =>
        cases hother : args[2]? with
        | some w => exact wellFormed_argument h 2 w hother
        | none => exact wellFormed_null
    · exact .error _
  · exact .error _

theorem preserves_objects : objects.Preserves := by
  simp [Library.Preserves, objects, preserves_keys, preserves_values, preserves_items,
    preserves_get]

-- Functions on texts.
theorem preserves_lower : lower.Preserves := fun _ _ => .after fun _ => .ok (wellFormed_text _)

theorem preserves_upper : upper.Preserves := fun _ _ => .after fun _ => .ok (wellFormed_text _)

theorem preserves_strip : strip.Preserves := fun _ _ => .after fun t => by
  split
  · exact .ok (wellFormed_text _)
  · exact .after fun _ => .ok (wellFormed_text _)

theorem preserves_split : split.Preserves := fun _ _ => .after fun t => by
  split
  · exact .ok (wellFormed_list.mpr wellFormed_of_mem_texts)
  · refine .after fun separator => ?_
    split
    · exact .error _
    · exact .ok (wellFormed_list.mpr wellFormed_of_mem_texts)

theorem preserves_join : join.Preserves := fun _ _ =>
  .after fun _ => .after fun _ => .after fun _ => .ok (wellFormed_text _)

theorem preserves_startsWith : startsWith.Preserves := fun _ _ =>
  .after fun _ => .after fun _ => .ok (wellFormed_bool _)

theorem preserves_endsWith : endsWith.Preserves := fun _ _ =>
  .after fun _ => .after fun _ => .ok (wellFormed_bool _)

theorem preserves_replace : replace.Preserves := fun _ _ =>
  .after fun _ => .after fun _ => .after fun _ => .ok (wellFormed_text _)

theorem preserves_strings : strings.Preserves := by
  simp [Library.Preserves, strings, preserves_lower, preserves_upper, preserves_strip,
    preserves_split, preserves_join, preserves_startsWith, preserves_endsWith, preserves_replace]

end Function

-- A function of a library is one of its entries.
theorem Library.Preserves.get? {library : Library} (h : library.Preserves) {name : Text}
    {f : Function} (hf : library.get? name = some f) : f.Preserves :=
  h _ (Fields.mem_of_get?_eq_some hf)

theorem Library.preserves_standard : Library.standard.Preserves := by
  have happend : ∀ {l l' : Library}, l.Preserves → l'.Preserves → (l ++ l').Preserves :=
    fun h h' => List.forall_mem_append.mpr ⟨h, h'⟩
  exact happend (happend (happend (happend Function.preserves_reductions
    Function.preserves_numerics) Function.preserves_sequences) Function.preserves_objects)
    Function.preserves_strings

end RecordQuery
