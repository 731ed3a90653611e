import Mathlib.Data.List.Forall2
import RecordQuery.Text.Basic

/-!
Attempts that give a result or fail: when one attempt after another succeeds, and what an attempt on
every item of a list comes to.
-/

namespace RecordQuery

variable {α β ε : Type}

theorem bind_eq_ok_iff {x : Except ε α} {f : α → Except ε β} {b : β} :
    x >>= f = .ok b ↔ ∃ a, x = .ok a ∧ f a = .ok b := by
  constructor
  · intro h
    cases x with
    | error e => cases h
    | ok a => exact ⟨a, rfl, h⟩
  · rintro ⟨a, rfl, h⟩
    exact h

theorem bind_eq_error_iff {x : Except ε α} {f : α → Except ε β} {e : ε} :
    x >>= f = .error e ↔ x = .error e ∨ ∃ a, x = .ok a ∧ f a = .error e := by
  constructor
  · intro h
    cases x with
    | error e' =>
      cases h
      exact .inl rfl
    | ok a => exact .inr ⟨a, rfl, h⟩
  · rintro (rfl | ⟨a, rfl, h⟩)
    · rfl
    · exact h

theorem seq_eq_ok_iff {x y : Except ε Unit} :
    (x >>= fun _ => y) = .ok () ↔ x = .ok () ∧ y = .ok () := by
  rw [bind_eq_ok_iff]
  exact ⟨fun ⟨_, hx, hy⟩ => ⟨hx, hy⟩, fun ⟨hx, hy⟩ => ⟨(), hx, hy⟩⟩

theorem toOption_eq_some_iff {x : Except ε α} {a : α} : x.toOption = some a ↔ x = .ok a := by
  cases x <;> simp [Except.toOption]

theorem mapM_eq_ok_iff {f : α → Except ε β} {as : List α} {bs : List β} :
    as.mapM f = .ok bs ↔ List.Forall₂ (fun a b => f a = .ok b) as bs := by
  induction as generalizing bs with
  | nil =>
    rw [List.forall₂_nil_left_iff]
    constructor
    · intro h
      exact (Except.ok.inj h).symm
    · rintro rfl
      rfl
  | cons a as ih =>
    rw [List.mapM_cons, bind_eq_ok_iff, List.forall₂_cons_left_iff]
    constructor
    · rintro ⟨b, hb, hrest⟩
      obtain ⟨rest, has, hcons⟩ := bind_eq_ok_iff.mp hrest
      exact ⟨b, rest, hb, ih.mp has, (Except.ok.inj hcons).symm⟩
    · rintro ⟨b, rest, hb, has, rfl⟩
      exact ⟨b, hb, bind_eq_ok_iff.mpr ⟨rest, ih.mpr has, rfl⟩⟩

theorem mapM_cons_eq_error_iff {f : α → Except ε β} {a : α} {as : List α} {e : ε} :
    (a :: as).mapM f = .error e ↔ f a = .error e ∨ (∃ b, f a = .ok b) ∧ as.mapM f = .error e := by
  rw [List.mapM_cons]
  cases f a with
  | error e' => simp [bind, Except.bind]
  | ok b => cases as.mapM f <;> simp [bind, Except.bind, pure, Except.pure]

-- It is the first item whose attempt fails that the whole fails with.
theorem mapM_eq_error_iff {f : α → Except ε β} {as : List α} {e : ε} :
    as.mapM f = .error e ↔ ∃ before a after, as = before ++ a :: after ∧
      (∀ b ∈ before, ∃ c, f b = .ok c) ∧ f a = .error e := by
  induction as with
  | nil =>
    constructor
    · intro h
      cases h
    · rintro ⟨before, a, after, has, -⟩
      cases before <;> cases has
  | cons a as ih =>
    rw [mapM_cons_eq_error_iff, ih]
    constructor
    · rintro (ha | ⟨ha, before, b, after, rfl, hbefore, hb⟩)
      · exact ⟨[], a, as, rfl, by simp, ha⟩
      · exact ⟨a :: before, b, after, rfl, List.forall_mem_cons.mpr ⟨ha, hbefore⟩, hb⟩
    · rintro ⟨before, b, after, has, hbefore, hb⟩
      obtain ⟨rfl, hcons⟩ | ⟨rest, rfl, rfl⟩ := List.cons_eq_append_iff.mp has
      · cases hcons
        exact .inl hb
      · rw [List.forall_mem_cons] at hbefore
        exact .inr ⟨hbefore.1, rest, b, after, rfl, hbefore.2, hb⟩

theorem exists_of_mapM {f : α → Except ε β} {as : List α} {bs : List β} (h : as.mapM f = .ok bs)
    {a : α} (ha : a ∈ as) : ∃ b, f a = .ok b := by
  have hall := (mapM_eq_ok_iff.mp h).imp fun a b hb => And.intro (Exists.intro b hb) hb
  exact ((List.forall₂_and_left as bs).mp hall).1 a ha

-- Each result stands where what it comes from stood.
theorem getElem?_of_mapM {f : α → Except ε β} {as : List α} {bs : List β} (h : as.mapM f = .ok bs)
    {i : ℕ} {a : α} {b : β} (ha : as[i]? = some a) (hb : f a = .ok b) : bs[i]? = some b := by
  obtain ⟨hlength, hget⟩ := List.forall₂_iff_get.mp (mapM_eq_ok_iff.mp h)
  obtain ⟨hi, rfl⟩ := List.getElem?_eq_some_iff.mp ha
  have hi' : i < bs.length := hlength ▸ hi
  have hitem : f as[i] = .ok bs[i] := hget i hi hi'
  rw [hb] at hitem
  rw [List.getElem?_eq_getElem hi', Except.ok.inj hitem]

-- Either every item has a result, or the first failure among the items is that of the whole.
theorem mapM_cases (f : α → Except ε β) (as : List α) :
    (∃ bs, as.mapM f = .ok bs ∧ ∀ a ∈ as, ∃ b, f a = .ok b) ∨
      ∃ a ∈ as, ∃ e, f a = .error e ∧ as.mapM f = .error e := by
  cases h : as.mapM f with
  | ok bs => exact .inl ⟨bs, rfl, fun a => exists_of_mapM h⟩
  | error e =>
    obtain ⟨before, a, after, rfl, -, ha⟩ := mapM_eq_error_iff.mp h
    exact .inr ⟨a, List.mem_append_right _ List.mem_cons_self, e, ha, rfl⟩

theorem exists_mapM {f : α → Except ε β} {as : List α} (h : ∀ a ∈ as, ∃ b, f a = .ok b) :
    ∃ bs, as.mapM f = .ok bs := by
  rcases mapM_cases f as with ⟨bs, hbs, -⟩ | ⟨a, ha, e, he, -⟩
  · exact ⟨bs, hbs⟩
  · obtain ⟨b, hb⟩ := h a ha
    rw [he] at hb
    cases hb

-- Attempts that succeed with related results, one for one.
theorem mapM_forall₂ {γ : Type} {f : α → Except ε β} {g : α → Except ε γ} {R : β → γ → Prop}
    {as : List α} {bs : List β} (h : ∀ a ∈ as, ∀ b, f a = .ok b → ∃ c, g a = .ok c ∧ R b c)
    (hbs : as.mapM f = .ok bs) : ∃ cs, as.mapM g = .ok cs ∧ List.Forall₂ R bs cs := by
  induction as generalizing bs with
  | nil =>
    cases hbs
    exact ⟨[], rfl, .nil⟩
  | cons a rest ih =>
    rw [List.forall_mem_cons] at h
    rw [List.mapM_cons, bind_eq_ok_iff] at hbs
    obtain ⟨b, hb, hrest⟩ := hbs
    obtain ⟨tail, htail, hcons⟩ := bind_eq_ok_iff.mp hrest
    obtain ⟨c, hc, hbc⟩ := h.1 b hb
    obtain ⟨cs, hcs, hrelated⟩ := ih h.2 htail
    cases hcons
    refine ⟨c :: cs, ?_, .cons hbc hrelated⟩
    rw [List.mapM_cons, hc, hcs]
    rfl

-- If the attempt succeeds, its result has the property.
def Ensures (P : α → Prop) (x : Except ε α) : Prop := ∀ a, x = .ok a → P a

namespace Ensures

variable {P : α → Prop} {Q : β → Prop} {x : Except ε α} {f : α → Except ε β}

theorem ok {a : α} (h : P a) : Ensures P (.ok a : Except ε α) := by
  intro b hb
  cases hb
  exact h

theorem error (e : ε) : Ensures P (.error e : Except ε α) := nofun

theorem bind (hx : Ensures P x) (hf : ∀ a, P a → Ensures Q (f a)) : Ensures Q (x >>= f) := by
  intro b hb
  obtain ⟨a, ha, hb⟩ := bind_eq_ok_iff.mp hb
  exact hf a (hx a ha) b hb

theorem map {g : α → β} (hx : Ensures P x) (hg : ∀ a, P a → Q (g a)) : Ensures Q (x.map g) := by
  cases x with
  | error e => exact error e
  | ok a => exact ok (hg a (hx a rfl))

theorem mapError {ε' : Type} {g : ε → ε'} (hx : Ensures P x) : Ensures P (x.mapError g) := by
  cases x with
  | error e => exact error (g e)
  | ok a => exact ok (hx a rfl)

-- What comes before does not matter.
theorem after (hf : ∀ a, Ensures Q (f a)) : Ensures Q (x >>= f) := by
  intro b hb
  obtain ⟨a, -, hb⟩ := bind_eq_ok_iff.mp hb
  exact hf a b hb

theorem mapM {as : List α} (h : ∀ a ∈ as, Ensures Q (f a)) :
    Ensures (fun bs => ∀ b ∈ bs, Q b) (as.mapM f) := by
  intro bs hbs
  have hall := mapM_eq_ok_iff.mp hbs
  induction hall with
  | nil => exact nofun
  | cons hb _ ih =>
    rw [List.forall_mem_cons] at h ⊢
    exact ⟨h.1 _ hb, ih h.2 (mapM_eq_ok_iff.mpr ‹_›)⟩

theorem mapM_option {a? : Option α} (h : ∀ a ∈ a?, Ensures Q (f a)) :
    Ensures (fun b? => ∀ b ∈ b?, Q b) (a?.mapM f) := by
  cases a? with
  | none => exact ok nofun
  | some a => exact bind (h a rfl) fun b hb => ok fun _ hmem => Option.mem_some.mp hmem ▸ hb

theorem filterMapM {as : List α} {f : α → Except ε (Option β)}
    (h : ∀ a ∈ as, Ensures (fun b? => ∀ b ∈ b?, Q b) (f a)) :
    Ensures (fun bs => ∀ b ∈ bs, Q b) (as.filterMapM f) := by
  induction as with
  | nil => exact ok nofun
  | cons a as ih =>
    rw [List.forall_mem_cons] at h
    rw [List.filterMapM_cons]
    refine bind h.1 fun b? hb => ?_
    cases b? with
    | none => exact ih h.2
    | some b =>
      exact bind (ih h.2) fun bs hbs => ok (List.forall_mem_cons.mpr ⟨hb b rfl, hbs⟩)

-- A property that the first state has and every step keeps is that of the last state.
theorem foldlM {σ : Type} {S : σ → Prop} {step : σ → α → Except ε σ} {as : List α} {state : σ}
    (hstate : S state) (hstep : ∀ state, S state → ∀ a ∈ as, Ensures S (step state a)) :
    Ensures S (as.foldlM step state) := by
  induction as generalizing state with
  | nil => exact ok hstate
  | cons a as ih =>
    rw [List.foldlM_cons]
    exact bind (hstep state hstate a List.mem_cons_self) fun next hnext =>
      ih hnext fun state hs b hb => hstep state hs b (List.mem_cons_of_mem a hb)

end Ensures

-- A state that takes one item after another, up to the first item that has something against it.
theorem foldlM_eq_elim {σ : Type} {step : σ → α → Except ε σ} (refusal? : α → Option ε)
    (next : σ → α → σ) (hfail : ∀ state a e, refusal? a = some e → step state a = .error e)
    (hnext : ∀ state a, refusal? a = none → step state a = .ok (next state a)) (as : List α)
    (state : σ) :
    as.foldlM step state = (as.findSome? refusal?).elim (.ok (as.foldl next state)) .error := by
  induction as generalizing state with
  | nil => rfl
  | cons a rest ih =>
    rw [List.foldlM_cons, List.findSome?_cons]
    cases h : refusal? a with
    | some e =>
      rw [hfail state a e h]
      rfl
    | none =>
      rw [hnext state a h]
      exact ih (next state a)

-- The results of attempts one after another, up to the first that fails, and its failure.
def untilFailure : List (Except ε α) → List α × Option ε
  | [] => ([], none)
  | .error e :: _ => ([], some e)
  | .ok a :: rest => (a :: (untilFailure rest).1, (untilFailure rest).2)

theorem untilFailure_eq_none_iff {attempts : List (Except ε α)} :
    (untilFailure attempts).2 = none ↔ ∀ attempt ∈ attempts, ∃ a, attempt = .ok a := by
  induction attempts with
  | nil => simp [untilFailure]
  | cons attempt rest ih =>
    rw [List.forall_mem_cons, ← ih]
    cases attempt <;> simp [untilFailure]

theorem mem_of_mem_untilFailure {attempts : List (Except ε α)} {a : α}
    (h : a ∈ (untilFailure attempts).1) : .ok a ∈ attempts := by
  induction attempts with
  | nil => cases h
  | cons attempt rest ih =>
    cases attempt with
    | error e => cases h
    | ok b =>
      rcases List.mem_cons.mp h with rfl | hrest
      · exact List.mem_cons_self
      · exact List.mem_cons_of_mem _ (ih hrest)

theorem untilFailure_map {f : α → Except ε β} {g : α → β} {as : List α}
    (h : ∀ a ∈ as, f a = .ok (g a)) : untilFailure (as.map f) = (as.map g, none) := by
  induction as with
  | nil => rfl
  | cons a rest ih =>
    rw [List.forall_mem_cons] at h
    rw [List.map_cons, h.1, untilFailure, ih h.2, List.map_cons]

end RecordQuery
