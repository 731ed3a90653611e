import Mathlib.Tactic
import RecordQuery.Proofs.Flow

/-!
What a stage asks of its source. A source may never end, and of such a source there are only the flows
of its first answers, whatever is to come after them. A stage asks for more than these if that makes a
difference to it. A stage that works item by item and is cut off after some of what it gives asks for
more just as long as nothing has failed and items are missing.
-/

namespace RecordQuery

-- What a source answers when it is asked to go on.
inductive Answer (α : Type)
  | event (e : Event)
  | item (a : α)
  | done
  | failed (e : Failure)

def Answer.isItem {α : Type} : Answer α → Bool
  | .item _ => true
  | _ => false

def Answer.isEnd {α : Type} : Answer α → Bool
  | .done => true
  | .failed _ => true
  | _ => false

-- The flow that an answer begins, with what comes after it.
def Answer.flow {α : Type} (answer : Answer α) (rest : Flow α) : Flow α :=
  match answer with
  | .event e => .event e fun _ => rest
  | .item a => .item a fun _ => rest
  | .done => .done
  | .failed e => .failed e

-- A source as its answers in turn, of which those after an end do not count.
structure Upstream (α : Type) where
  answer : ℕ → Answer α

namespace Upstream

variable {α β : Type} (u : Upstream α) {k : ℕ}

-- The first `k` answers and then, if they have not come to an end, what is given for the rest.
def upTo : ℕ → Flow α → Flow α
  | 0, rest => rest
  | k + 1, rest => upTo k ((u.answer k).flow rest)

-- The first `k` answers alone.
def front (k : ℕ) : Flow α := u.upTo k .done

-- None of the first `k` answers is the end.
def GoesOn (k : ℕ) : Prop := ∀ i < k, (u.answer i).isEnd = false

-- What comes after the first `k` answers makes a difference to the stage.
def Asks (stage : Flow α → Flow β) (k : ℕ) : Prop :=
  ∃ rest rest', stage (u.upTo k rest) ≠ stage (u.upTo k rest')

-- The stage gives the first `n` items that the other one would give, and the failure of that one only
-- if fewer items come before it. It asks for an answer just if so far items are missing and nothing
-- has failed; once there are `n` items, it is done whatever the source has left.
structure StopsAt (n : ℕ) (whole stage : Flow α → Flow β) : Prop where
  asks_iff : ∀ k, u.Asks stage k ↔ u.GoesOn k ∧ (whole (u.front k)).failure? = none ∧
    (whole (u.front k)).items.length < n
  outcome : ∀ k rest, ¬u.Asks stage k → (stage (u.upTo k rest)).outcome =
    ((whole (u.front k)).items.take n,
      if n ≤ (whole (u.front k)).items.length then none else (whole (u.front k)).failure?)
  settled : ∀ k, n ≤ (whole (u.front k)).items.length → ∀ j ≥ k, ¬u.Asks stage j ∧
    ∀ rest, (stage (u.upTo j rest)).outcome = ((whole (u.front k)).items.take n, none)

theorem goesOn_succ : u.GoesOn (k + 1) ↔ u.GoesOn k ∧ (u.answer k).isEnd = false := by
  simp only [GoesOn, Nat.forall_lt_succ_right]

theorem upTo_of_not_goesOn (h : ¬u.GoesOn k) (rest : Flow α) : u.upTo k rest = u.front k := by
  rw [front]
  induction k generalizing rest with
  | zero => exact absurd (fun i hi => absurd hi (Nat.not_lt_zero i)) h
  | succ k ih =>
    rw [goesOn_succ, not_and] at h
    rw [upTo, upTo]
    by_cases hk : u.GoesOn k
    · have hend := h hk
      cases hanswer : u.answer k with
      | event e => simp [hanswer, Answer.isEnd] at hend
      | item a => simp [hanswer, Answer.isEnd] at hend
      | done => rfl
      | failed e => rfl
    · rw [ih hk, ih hk ((u.answer k).flow .done)]

-- Answers that have not come to an end are followed by whatever is given for the rest.
theorem upTo_of_goesOn (h : u.GoesOn k) (rest : Flow α) :
    u.upTo k rest = (u.front k).append fun _ => rest := by
  rw [front]
  induction k generalizing rest with
  | zero => rfl
  | succ k ih =>
    obtain ⟨hk, hend⟩ := u.goesOn_succ.mp h
    rw [upTo, upTo, ih hk, ih hk ((u.answer k).flow .done), Flow.append_assoc]
    cases hanswer : u.answer k with
    | event e => rfl
    | item a => rfl
    | done => simp [hanswer, Answer.isEnd] at hend
    | failed e => simp [hanswer, Answer.isEnd] at hend

theorem failure?_front (h : u.GoesOn k) : (u.front k).failure? = none := by
  induction k with
  | zero => rfl
  | succ k ih =>
    obtain ⟨hk, hend⟩ := u.goesOn_succ.mp h
    rw [front, upTo, u.upTo_of_goesOn hk, Flow.failure?_append, ih hk]
    cases hanswer : u.answer k with
    | event e => rfl
    | item a => rfl
    | done => rfl
    | failed e => simp [hanswer, Answer.isEnd] at hend

variable {u} {σ : Type} {step : σ → α → σ × Flow β} {s : σ} {n : ℕ} {stage : Flow α → Flow β}

theorem goesOn_of_asks (h : u.Asks stage k) : u.GoesOn k := by
  by_contra hend
  obtain ⟨rest, rest', hne⟩ := h
  exact hne (by rw [u.upTo_of_not_goesOn hend rest, u.upTo_of_not_goesOn hend rest'])

-- A stage that does not ask for more makes the same of all that might follow.
theorem stage_upTo (h : ¬u.Asks stage k) (rest : Flow α) :
    stage (u.upTo k rest) = stage (u.front k) := by
  by_contra hne
  exact h ⟨rest, .done, hne⟩

theorem asks_event_iff {e : Event} :
    u.Asks (fun flow => .event e fun _ => stage flow) k ↔ u.Asks stage k := by
  simp only [Asks, Ne, Flow.event.injEq, true_and, funext_iff, forall_const]

-- What a stage makes of the first answers comes first, and the rest is met in the state that it has
-- reached.
theorem expand_upTo (step : σ → α → σ × Flow β) (s : σ) (h : u.GoesOn k) (rest : Flow α) :
    (u.upTo k rest).expand step s = ((u.front k).expand step s).append
      fun _ => rest.expand step (Flow.stateAfter step s (u.front k).items) := by
  rw [u.upTo_of_goesOn h, Flow.expand_append_flow step s (u.failure?_front h)]

-- The reason to ask is that nothing has failed and items are missing. Then even an event that comes
-- next would be noticed, and otherwise nothing would.
theorem asks_take_expand_iff : u.Asks (fun flow => (flow.expand step s).take n) k ↔
    u.GoesOn k ∧ ((u.front k).expand step s).failure? = none ∧
      ((u.front k).expand step s).items.length < n := by
  constructor
  · intro h
    have hgoes := goesOn_of_asks h
    obtain ⟨rest, rest', hne⟩ := h
    simp only [expand_upTo step s hgoes] at hne
    refine ⟨hgoes, ?_, ?_⟩
    · by_contra hfailure
      simp only [Flow.append_of_failure? hfailure, ne_eq, not_true_eq_false] at hne
    · by_contra hfull
      simp only [Flow.take_append_of_le (Nat.le_of_not_lt hfull), ne_eq, not_true_eq_false] at hne
  · rintro ⟨hgoes, hfailure, hmissing⟩
    refine ⟨.event (.opened []) fun _ => .done, .done, fun heq => ?_⟩
    simp only [expand_upTo step s hgoes, Flow.take_append_of_lt hmissing] at heq
    have hrest := Flow.append_injective hfailure heq
    obtain ⟨m, hm⟩ := Nat.exists_eq_succ_of_ne_zero (Nat.sub_ne_zero_of_lt hmissing)
    rw [hm] at hrest
    cases hrest

-- More answers are fewer answers with something to follow.
theorem exists_upTo_eq {j : ℕ} (h : k ≤ j) (rest : Flow α) :
    ∃ rest', u.upTo j rest = u.upTo k rest' := by
  induction j, h using Nat.le_induction generalizing rest with
  | base => exact ⟨rest, rfl⟩
  | succ j _ ih => exact ih ((u.answer j).flow rest)

theorem stage_upTo_of_le {j : ℕ} (h : ¬u.Asks stage k) (hj : k ≤ j) (rest : Flow α) :
    stage (u.upTo j rest) = stage (u.front k) := by
  obtain ⟨rest', heq⟩ := u.exists_upTo_eq hj rest
  rw [heq, stage_upTo h]

theorem not_asks_of_le {j : ℕ} (h : ¬u.Asks stage k) (hj : k ≤ j) : ¬u.Asks stage j := by
  rintro ⟨rest, rest', hne⟩
  exact hne (by rw [stage_upTo_of_le h hj rest, stage_upTo_of_le h hj rest'])

theorem stopsAt_take_expand (u : Upstream α) (step : σ → α → σ × Flow β) (s : σ) (n : ℕ) :
    u.StopsAt n (Flow.expand step s) fun flow => (flow.expand step s).take n where
  asks_iff _ := asks_take_expand_iff
  outcome k rest h := by
    rw [stage_upTo h]
    exact Flow.outcome_take n _
  settled k hfull j hj := by
    have hk : ¬u.Asks (fun flow => (flow.expand step s).take n) k := fun h =>
      absurd (asks_take_expand_iff.mp h).2.2 (Nat.not_lt_of_le hfull)
    refine ⟨not_asks_of_le hk hj, fun rest => ?_⟩
    rw [stage_upTo_of_le hk hj, Flow.outcome_take, if_pos hfull]

-- An event in front of all that a stage gives is no item.
theorem StopsAt.event {whole : Flow α → Flow β} (h : u.StopsAt n whole stage) (e e' : Event) :
    u.StopsAt n (fun flow => .event e fun _ => whole flow)
      fun flow => .event e' fun _ => stage flow where
  asks_iff k := asks_event_iff.trans (h.asks_iff k)
  outcome k rest hk := h.outcome k rest (mt asks_event_iff.mpr hk)
  settled k hfull j hj := (h.settled k hfull j hj).imp_left (mt asks_event_iff.mp)

theorem stopsAt_take (u : Upstream α) (n : ℕ) : u.StopsAt n id (Flow.take n) := by
  have hid : Flow.expand (fun state a => (state, .ofList [a])) () = (id : Flow α → Flow α) :=
    funext Flow.expand_singly
  have h := stopsAt_take_expand u (fun state a => (state, .ofList [a])) () n
  rw [hid] at h
  exact h

theorem asks_take_iff :
    u.Asks (Flow.take n) k ↔ u.GoesOn k ∧ (u.front k).items.length < n := by
  rw [(stopsAt_take u n).asks_iff]
  exact and_congr_right fun h => and_iff_right (u.failure?_front h)

-- Until then a stage that only cuts off hands on what comes.
theorem take_upTo (h : u.Asks (Flow.take n) k) (rest : Flow α) :
    (u.upTo k rest).take n = u.upTo k (rest.take (n - (u.front k).items.length)) := by
  obtain ⟨hgoes, hmissing⟩ := asks_take_iff.mp h
  rw [u.upTo_of_goesOn hgoes, u.upTo_of_goesOn hgoes, Flow.take_append_of_lt hmissing]

theorem length_items_front_succ (h : u.GoesOn k) : (u.front (k + 1)).items.length =
    (u.front k).items.length + if (u.answer k).isItem then 1 else 0 := by
  rw [front, upTo, u.upTo_of_goesOn h, Flow.items_append, u.failure?_front h]
  cases u.answer k <;> simp [Answer.flow, Answer.isItem, Flow.items]

open Classical in
-- How many items there are among those of the first `k` answers that the stage asks for.
noncomputable def itemsAsked (u : Upstream α) (stage : Flow α → Flow β) (k : ℕ) : ℕ :=
  Nat.count (fun i => u.Asks stage i ∧ (u.answer i).isItem) k

theorem itemsAsked_take (u : Upstream α) (n k : ℕ) :
    u.itemsAsked (Flow.take n) k = min n (u.front k).items.length := by
  induction k with
  | zero => exact (Nat.min_zero n).symm
  | succ k ih =>
    rw [itemsAsked, Nat.count_succ, ← itemsAsked, ih, asks_take_iff]
    by_cases hgoes : u.GoesOn k
    · rw [length_items_front_succ hgoes]
      cases hitem : (u.answer k).isItem with
      | false => simp [hgoes]
      | true =>
        by_cases hmissing : (u.front k).items.length < n
        · simp [hgoes, hmissing]
          omega
        · simp [hgoes, hmissing]
          omega
    · have hsame : u.front (k + 1) = u.front k := u.upTo_of_not_goesOn hgoes _
      simp [hgoes, hsame]

end Upstream

end RecordQuery
