import RecordQuery.Flow
import RecordQuery.Proofs.Attempt

/-!
What a flow comes to: its items, the failure that ends it and its events, for flows of given items
and for flows one after another. What a step makes of more items only comes after what it makes of
fewer.
-/

namespace RecordQuery.Flow

variable {α β γ σ τ : Type}

@[simp] theorem items_ofList (as : List α) : (ofList as).items = as := by
  induction as with
  | nil => rfl
  | cons a as ih => rw [ofList, items, ih]

@[simp] theorem failure?_ofList (as : List α) : (ofList as).failure? = none := by
  induction as with
  | nil => rfl
  | cons a as ih => rw [ofList, failure?, ih]

@[simp] theorem events_ofList (as : List α) : (ofList as).events = [] := by
  induction as with
  | nil => rfl
  | cons a as ih => rw [ofList, events, ih]

@[simp] theorem log_ofList (as : List α) : (ofList as).log = [] := by
  rw [log, events_ofList, List.filterMap_nil]

theorem log_event_logged (entry : LogEntry) (rest : Unit → Flow α) :
    (Flow.event (.logged entry) rest).log = entry :: (rest ()).log := rfl

theorem items_prefix_append (first : Flow α) (second : Unit → Flow α) :
    first.items <+: (first.append second).items := by
  induction first with
  | done => exact List.nil_prefix
  | failed e => exact List.prefix_rfl
  | event e rest ih => exact ih ()
  | item a rest ih => exact List.cons_prefix_cons.mpr ⟨rfl, ih ()⟩

theorem append_assoc (first : Flow α) (second third : Unit → Flow α) :
    (first.append second).append third = first.append fun u => (second u).append third := by
  induction first with
  | done => rfl
  | failed e => rfl
  | event e rest ih =>
    simp only [append, event.injEq, true_and]
    exact funext ih
  | item a rest ih =>
    simp only [append, item.injEq, true_and]
    exact funext ih

-- Items at hand come before all that follows them, and they end without a failure or an event.
theorem items_ofList_append (as : List α) (second : Unit → Flow α) :
    ((ofList as).append second).items = as ++ (second ()).items := by
  induction as with
  | nil => rfl
  | cons a as ih => rw [ofList, append, items, ih, List.cons_append]

theorem failure?_ofList_append (as : List α) (second : Unit → Flow α) :
    ((ofList as).append second).failure? = (second ()).failure? := by
  induction as with
  | nil => rfl
  | cons a as ih => rw [ofList, append, failure?, ih]

theorem log_ofList_append (as : List α) (second : Unit → Flow α) :
    ((ofList as).append second).log = (second ()).log := by
  induction as with
  | nil => rfl
  | cons a as ih => exact ih

theorem failure?_append (first : Flow α) (second : Unit → Flow α) :
    (first.append second).failure? = first.failure?.or (second ()).failure? := by
  induction first with
  | done => rfl
  | failed e => rfl
  | event e rest ih => exact ih ()
  | item a rest ih => exact ih ()

theorem items_append (first : Flow α) (second : Unit → Flow α) : (first.append second).items =
    first.items ++ if first.failure?.isSome then [] else (second ()).items := by
  induction first with
  | done => rfl
  | failed e => rfl
  | event e rest ih => exact ih ()
  | item a rest ih => exact congrArg (a :: ·) (ih ())

-- A flow that does not fail is followed by what is appended to it.
theorem append_injective {first : Flow α} (h : first.failure? = none) {second second' : Flow α}
    (heq : (first.append fun _ => second) = first.append fun _ => second') : second = second' := by
  induction first with
  | done => exact heq
  | failed e => cases h
  | event e rest ih =>
    rw [append, append, event.injEq] at heq
    exact ih () h (congrFun heq.2 ())
  | item a rest ih =>
    rw [append, append, item.injEq] at heq
    exact ih () h (congrFun heq.2 ())

theorem append_of_failure? {first : Flow α} (h : first.failure? ≠ none) (second : Unit → Flow α) :
    first.append second = first := by
  induction first with
  | done => exact absurd rfl h
  | failed e => rfl
  | event e rest ih =>
    rw [append, event.injEq]
    exact ⟨rfl, funext fun _ => ih () h⟩
  | item a rest ih =>
    rw [append, item.injEq]
    exact ⟨rfl, funext fun _ => ih () h⟩

-- What a step makes of the items of a flow does not depend on how they come. A failure of the flow
-- is only met if no step fails.
theorem outcome_expand (step : σ → α → σ × Flow β) (state : σ) (flow : Flow α) :
    (expand step state flow).outcome =
      ((expand step state (ofList flow.items)).items,
        (expand step state (ofList flow.items)).failure?.or flow.failure?) := by
  induction flow generalizing state with
  | done => rfl
  | failed e => rfl
  | event e rest ih => exact ih () state
  | item a rest ih =>
    obtain ⟨hitems, hfailure⟩ := Prod.mk.inj (ih () (step state a).1)
    rw [expand, items, ofList, expand, failure?, outcome, items_append, items_append, hitems,
      failure?_append, failure?_append, hfailure, Option.or_assoc]

theorem failure?_expand (step : σ → α → σ × Flow β) (state : σ) (flow : Flow α) :
    (expand step state flow).failure? =
      (expand step state (ofList flow.items)).failure?.or flow.failure? :=
  congrArg Prod.snd (outcome_expand step state flow)

-- Every item is one of those that the step makes of some item of the flow.
theorem exists_of_mem_expand {step : σ → α → σ × Flow β} {state : σ} {flow : Flow α} {b : β}
    (h : b ∈ (expand step state flow).items) :
    ∃ a ∈ flow.items, ∃ s, b ∈ (step s a).2.items := by
  induction flow generalizing state with
  | done => cases h
  | failed e => cases h
  | event e rest ih => exact ih () h
  | item a rest ih =>
    rw [expand, items_append, List.mem_append] at h
    rcases h with hfirst | hrest
    · exact ⟨a, List.mem_cons_self, state, hfirst⟩
    · split at hrest
      · cases hrest
      · obtain ⟨c, hc, hb⟩ := ih () hrest
        exact ⟨c, List.mem_cons_of_mem a hc, hb⟩

-- A flow that is gathered gives nothing but a failure, unless every item can be taken and the flow
-- itself ends well.
theorem outcome_gather (step : σ → α → Except Failure σ) (finish : σ → Flow β) (state : σ)
    (flow : Flow α) : (gather step finish state flow).outcome =
      match flow.items.foldlM step state with
      | .error e => ([], some e)
      | .ok last =>
        match flow.failure? with
        | some e => ([], some e)
        | none => (finish last).outcome := by
  induction flow generalizing state with
  | done => rfl
  | failed e => rfl
  | event e rest ih => exact ih () state
  | item a rest ih =>
    rw [gather, items, List.foldlM_cons]
    cases step state a with
    | error e => rfl
    | ok next => exact ih () next

-- The same where it is the items that are refused, whatever the state is: the first refusal comes
-- before a failure of the flow.
theorem outcome_gather_eq_elim {step : σ → α → Except Failure σ} (refusal? : α → Option Failure)
    (next : σ → α → σ) (hfail : ∀ state a e, refusal? a = some e → step state a = .error e)
    (hnext : ∀ state a, refusal? a = none → step state a = .ok (next state a))
    (finish : σ → Flow β) (state : σ) (flow : Flow α) :
    (gather step finish state flow).outcome =
      ((flow.items.findSome? refusal?).or flow.failure?).elim
        (finish (flow.items.foldl next state)).outcome fun e => ([], some e) := by
  rw [outcome_gather, foldlM_eq_elim refusal? next hfail hnext]
  cases flow.items.findSome? refusal? with
  | some e => rfl
  | none => cases flow.failure? <;> rfl

-- A flow that is cut off has no failure that comes after the last item it may give.
theorem outcome_take (count : Nat) (flow : Flow α) : (take count flow).outcome =
    (flow.items.take count, if count ≤ flow.items.length then none else flow.failure?) := by
  induction flow generalizing count with
  | done => cases count <;> rfl
  | failed e => cases count <;> rfl
  | event e rest ih =>
    cases count with
    | zero => rfl
    | succ count => exact ih () (count + 1)
  | item a rest ih =>
    cases count with
    | zero => rfl
    | succ count =>
      have hrest := Prod.mk.inj (ih () count)
      rw [take, outcome, items, failure?, items, hrest.1, hrest.2, List.take_succ_cons,
        List.length_cons]
      simp only [Nat.add_le_add_iff_right, failure?]

-- Of one flow after another only the first is asked as long as it gives enough, and then the other
-- for what is missing.
theorem take_append_of_le {count : Nat} {first : Flow α} (h : count ≤ first.items.length)
    (second : Unit → Flow α) : take count (first.append second) = take count first := by
  induction first generalizing count with
  | done =>
    cases Nat.le_zero.mp h
    simp only [append, take]
  | failed e => rfl
  | event e rest ih =>
    cases count with
    | zero => rfl
    | succ count =>
      rw [append, take, take, event.injEq]
      exact ⟨rfl, funext fun _ => ih () h⟩
  | item a rest ih =>
    cases count with
    | zero => rfl
    | succ count =>
      rw [append, take, take, item.injEq]
      exact ⟨rfl, funext fun _ => ih () (Nat.le_of_succ_le_succ h)⟩

theorem take_append_of_lt {count : Nat} {first : Flow α} (h : first.items.length < count)
    (second : Unit → Flow α) : take count (first.append second) =
      first.append fun u => take (count - first.items.length) (second u) := by
  induction first generalizing count with
  | done => rfl
  | failed e =>
    cases count with
    | zero => exact absurd h (Nat.not_lt_zero _)
    | succ count => rfl
  | event e rest ih =>
    cases count with
    | zero => exact absurd h (Nat.not_lt_zero _)
    | succ count =>
      rw [append, take, append, event.injEq]
      exact ⟨rfl, funext fun _ => ih () h⟩
  | item a rest ih =>
    cases count with
    | zero => exact absurd h (Nat.not_lt_zero _)
    | succ count =>
      rw [append, take, append, item.injEq]
      refine ⟨rfl, funext fun _ => ?_⟩
      rw [ih () (Nat.lt_of_succ_lt_succ h), items, List.length_cons, Nat.succ_sub_succ]

-- If the flow fails, its failure has the property.
def FailsOnly (P : Failure → Prop) (flow : Flow α) : Prop := ∀ e, flow.failure? = some e → P e

namespace FailsOnly

variable {P : Failure → Prop} {flow : Flow α}

theorem done : FailsOnly P (.done : Flow α) := by
  intro e he
  cases he

theorem failed {e : Failure} (h : P e) : FailsOnly P (.failed e : Flow α) := by
  intro e' he
  cases he
  exact h

theorem ofList (as : List α) : FailsOnly P (Flow.ofList as) := by
  intro e he
  rw [failure?_ofList] at he
  cases he

theorem ofSource (source : Text) (as : List α) : FailsOnly P (Flow.ofSource source as) := by
  induction as with
  | nil => exact (done : FailsOnly P (.done : Flow α))
  | cons a as ih => exact ih

theorem append {second : Unit → Flow α} (h : FailsOnly P flow) (hsecond : FailsOnly P (second ())) :
    FailsOnly P (flow.append second) := by
  intro e he
  rw [failure?_append, Option.or_eq_some_iff] at he
  rcases he with hfirst | ⟨-, hrest⟩
  · exact h e hfirst
  · exact hsecond e hrest

-- What fails is the flow itself or a step on one of its items.
theorem expand {step : σ → α → σ × Flow β} (h : FailsOnly P flow)
    (hstep : ∀ state a, FailsOnly P (step state a).2) (state : σ) :
    FailsOnly P (Flow.expand step state flow) := by
  induction flow generalizing state with
  | done => exact done
  | failed e => exact failed (h e rfl)
  | event e rest ih => exact ih () h state
  | item a rest ih => exact (hstep state a).append (ih () h (step state a).1)

theorem gather {step : σ → α → Except Failure σ} {finish : σ → Flow β} (h : FailsOnly P flow)
    (hstep : ∀ state a e, step state a = .error e → P e) (hfinish : ∀ state, FailsOnly P (finish state))
    (state : σ) : FailsOnly P (Flow.gather step finish state flow) := by
  induction flow generalizing state with
  | done => exact hfinish state
  | failed e => exact failed (h e rfl)
  | event e rest ih => exact ih () h state
  | item a rest ih =>
    rw [Flow.gather]
    cases hnext : step state a with
    | error e => exact failed (hstep state a e hnext)
    | ok next => exact ih () h next

theorem take (h : FailsOnly P flow) (count : Nat) : FailsOnly P (Flow.take count flow) := by
  intro e he
  have hfailure : (Flow.take count flow).failure? = _ := congrArg Prod.snd (outcome_take count flow)
  rw [hfailure] at he
  split at he
  · cases he
  · exact h e he

end FailsOnly

-- The state that a step reaches over some items.
def stateAfter (step : σ → α → σ × Flow β) (state : σ) (as : List α) : σ :=
  as.foldl (fun state a => (step state a).1) state

-- A step goes over one flow and then, from the state it has reached, over the other.
theorem expand_append_flow (step : σ → α → σ × Flow β) (state : σ) {first : Flow α}
    (h : first.failure? = none) (second : Unit → Flow α) :
    expand step state (first.append second) = (expand step state first).append
      fun _ => expand step (stateAfter step state first.items) (second ()) := by
  induction first generalizing state with
  | done => rfl
  | failed e => cases h
  | event e rest ih =>
    simp only [append, expand, ih () state h]
    rfl
  | item a rest ih =>
    simp only [append, expand, ih () _ h, append_assoc]
    rfl

theorem ofList_append (as bs : List α) :
    ofList (as ++ bs) = (ofList as).append fun _ => ofList bs := by
  induction as with
  | nil => rfl
  | cons a as ih => rw [List.cons_append, ofList, ih, ofList, append]

theorem expand_append (step : σ → α → σ × Flow β) (state : σ) (as bs : List α) :
    expand step state (ofList (as ++ bs)) = (expand step state (ofList as)).append
      fun _ => expand step (stateAfter step state as) (ofList bs) := by
  rw [ofList_append, expand_append_flow step state (failure?_ofList as), items_ofList]

-- A failure comes from the step on one item, after steps on the items before it that did not fail.
theorem exists_step_of_failure?_expand {step : σ → α → σ × Flow β} {state : σ} {as : List α}
    {e : Failure} (h : (expand step state (ofList as)).failure? = some e) :
    ∃ before a after, as = before ++ a :: after ∧
      (expand step state (ofList before)).failure? = none ∧
      (step (stateAfter step state before) a).2.failure? = some e := by
  induction as generalizing state with
  | nil => cases h
  | cons a as ih =>
    rw [ofList, expand, failure?_append, Option.or_eq_some_iff] at h
    rcases h with hfirst | ⟨hnone, hrest⟩
    · exact ⟨[], a, as, rfl, rfl, hfirst⟩
    · obtain ⟨before, b, after, rfl, hbefore, hb⟩ := ih hrest
      refine ⟨a :: before, b, after, rfl, ?_, hb⟩
      rw [ofList, expand, failure?_append, hnone, Option.none_or]
      exact hbefore

-- A step that gives just the item it is for changes nothing.
theorem expand_singly (flow : Flow α) :
    flow.expand (fun state a => (state, ofList [a])) () = flow := by
  induction flow with
  | done => rfl
  | failed e => rfl
  | event e rest ih =>
    rw [expand, event.injEq]
    exact ⟨rfl, funext ih⟩
  | item a rest ih =>
    rw [expand, ofList, append, item.injEq]
    exact ⟨rfl, funext ih⟩

-- Two steps one after the other on one item, with both their states.
def stepBoth (first : σ → α → σ × Flow β) (second : τ → β → τ × Flow γ) (states : σ × τ) (a : α) :
    (σ × τ) × Flow γ :=
  let given := first states.1 a
  ((given.1, stateAfter second states.2 given.2.items), expand second states.2 given.2)

theorem expand_expand (first : σ → α → σ × Flow β) (second : τ → β → τ × Flow γ) (s : σ) (t : τ)
    (flow : Flow α) :
    expand second t (expand first s flow) = expand (stepBoth first second) (s, t) flow := by
  induction flow generalizing s t with
  | done => rfl
  | failed e => rfl
  | event e rest ih =>
    simp only [expand, ih]
  | item a rest ih =>
    rw [expand, expand, stepBoth]
    by_cases hgiven : (first s a).2.failure? = none
    · rw [expand_append_flow second t hgiven]
      exact congrArg _ (funext fun _ => ih () _ _)
    · have hfailure : (expand second t (first s a).2).failure? ≠ none := by
        rw [failure?_expand, Ne, Option.or_eq_none_iff]
        exact fun h => hgiven h.2
      rw [append_of_failure? hgiven, append_of_failure? hfailure]

end RecordQuery.Flow
