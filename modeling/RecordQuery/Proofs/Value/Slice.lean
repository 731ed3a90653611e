import RecordQuery.Expr.Evaluation
import RecordQuery.Proofs.Attempt
import RecordQuery.Proofs.Number.Arithmetic

/-!
Slices of texts, lists and tuples. A bound stands for a place between two items, whatever its sign and
size and in whatever form it comes, and a slice is what lies between two places. So the slices up to a
place and from there on make up the whole sequence, and those of two places in order join as well.
-/

namespace RecordQuery.Value

variable {α : Type} {seq start stop : Value} {length first middle last : ℕ} {n : Number} {z : ℤ}

-- The place among `length` items that an integer stands for as a bound: a negative one counts from
-- the end, and what is beyond either end stands for that end.
def boundary (length : ℕ) (z : ℤ) : ℕ :=
  (min (max (if z < 0 then z + length else z) 0) length).toNat

theorem boundary_le (length : ℕ) (z : ℤ) : boundary length z ≤ length := by
  unfold boundary
  omega

-- The number of items of a sequence, which are units in a text.
def size? : Value → Option ℕ
  | .text t => some t.length
  | .list items => some items.length
  | .tuple items => some items.length
  | _ => none

-- A sequence of the same kind with the items from one place up to another.
def part (first last : ℕ) : Value → Value
  | .text t => .text (t.extract first last)
  | .list items => .list (items.extract first last)
  | .tuple items => .tuple (items.extract first last)
  | v => v

-- A big integer is beyond both ends of every sequence, since a count of items is a safe integer.
theorem exists_resolve_eq (hlength : Double.IsSafe length) (hn : n.IsInteger z) :
    ∃ bound, bound? (.number n) = .ok (some bound) ∧ bound.resolve length = boundary length z := by
  cases n with
  | float x =>
    have hint : x.toInt? = some z := hn
    refine ⟨.at z, by rw [bound?, hint], ?_⟩
    by_cases hneg : z < 0
    · simp only [Bound.resolve, boundary, hneg, if_true]
      omega
    · simp only [Bound.resolve, boundary, hneg, if_false]
      omega
  | big m =>
    obtain ⟨rfl, hbig⟩ := hn
    refine ⟨.beyond (m < 0), rfl, ?_⟩
    simp only [Double.IsSafe] at hlength hbig
    by_cases hneg : m < 0
    · simp only [Bound.resolve, boundary, hneg, decide_true, if_true]
      omega
    · simp only [Bound.resolve, boundary, hneg, decide_false, Bool.false_eq_true, if_false]
      omega

-- The places between which a slice lies. A bound that is absent is the end on its side.
def opening (length : ℕ) (start : Option Bound) : ℕ := (start.map (Bound.resolve length)).getD 0

def closing (length : ℕ) (stop : Option Bound) : ℕ :=
  (stop.map (Bound.resolve length)).getD length

theorem between_eq_extract (start stop : Option Bound) (items : List α) :
    between start stop items =
      items.extract (opening items.length start) (closing items.length stop) := by
  rw [between, List.drop_take]
  rfl

theorem slice_eq_part {a b : Option Bound} (hseq : seq.size? = some length)
    (ha : bound? start = .ok a) (hb : bound? stop = .ok b) :
    slice seq start stop = .ok (seq.part (opening length a) (closing length b)) := by
  cases seq with
  | text t =>
    cases hseq
    rw [slice, ha, hb, part, ← between_eq_extract]
    rfl
  | list items =>
    cases hseq
    rw [slice, ha, hb, part, ← between_eq_extract]
    rfl
  | tuple items =>
    cases hseq
    rw [slice, ha, hb, part, ← between_eq_extract]
    rfl
  | _ => cases hseq

theorem extract_append_extract (items : List α) (hmiddle : first ≤ middle) (hlast : middle ≤ last) :
    items.extract first middle ++ items.extract middle last = items.extract first last := by
  have hsplit : last - first = (middle - first) + (last - middle) := by omega
  have hdrop : items.drop middle = (items.drop first).drop (middle - first) := by
    rw [List.drop_drop]
    congr 1
    omega
  simp only [List.extract_eq_take_drop]
  rw [hsplit, List.take_add, hdrop]

-- Parts that meet make one part, whatever kind of sequence they are of.
theorem add_part (hseq : seq.size? = some length) (hmiddle : first ≤ middle)
    (hlast : middle ≤ last) :
    binary (.exact .add) (seq.part first middle) (seq.part middle last) =
      .ok (seq.part first last) := by
  cases seq with
  | text t => exact congrArg (Except.ok ∘ text) (extract_append_extract t hmiddle hlast)
  | list items => exact congrArg (Except.ok ∘ list) (extract_append_extract items hmiddle hlast)
  | tuple items => exact congrArg (Except.ok ∘ tuple) (extract_append_extract items hmiddle hlast)
  | _ => cases hseq

theorem part_whole (hseq : seq.size? = some length) : seq.part 0 length = seq := by
  cases seq with
  | text | list | tuple =>
    cases hseq
    simp [part, List.extract_eq_take_drop]
  | _ => cases hseq

theorem size?_part_of_le (hseq : seq.size? = some length) (h : last ≤ first) :
    (seq.part first last).size? = some 0 := by
  cases seq with
  | text | list | tuple => simp [part, size?, List.extract_eq_take_drop, Nat.sub_eq_zero_of_le h]
  | _ => cases hseq

section

variable {library : Library} {scope : Scope} {s i j : Expr} {m : Number} {y : ℤ}

-- What a slice of an expression comes to, given its bounds, each of which may be absent.
theorem evaluate_slice {start? stop? : Option Expr} {a b : Option Bound}
    (hs : s.evaluate library scope = .ok seq) (hseq : seq.size? = some length)
    (ha : (Expr.evaluateBound library scope start? >>= bound?) = .ok a)
    (hb : (Expr.evaluateBound library scope stop? >>= bound?) = .ok b) :
    (Expr.slice s start? stop?).evaluate library scope =
      .ok (seq.part (opening length a) (closing length b)) := by
  obtain ⟨start, hstart, ha⟩ := bind_eq_ok_iff.mp ha
  obtain ⟨stop, hstop, hb⟩ := bind_eq_ok_iff.mp hb
  rw [Expr.evaluate, hs, hstart, hstop]
  exact slice_eq_part hseq ha hb

-- A slice lies between the places that its bounds stand for. The slices up to a place and from it on
-- add up to the sequence, and those between two places and from the second on to that from the first.
theorem slice_partition (hs : s.evaluate library scope = .ok seq) (hseq : seq.size? = some length)
    (hlength : Double.IsSafe length) (hi : i.evaluate library scope = .ok (.number m))
    (hm : m.IsInteger y) (hj : j.evaluate library scope = .ok (.number n)) (hn : n.IsInteger z) :
    (Expr.slice s (some i) (some j)).evaluate library scope =
        .ok (seq.part (boundary length y) (boundary length z)) ∧
      (boundary length z ≤ boundary length y →
        (seq.part (boundary length y) (boundary length z)).size? = some 0) ∧
      (Expr.binary (.exact .add) (.slice s none (some i)) (.slice s (some i) none)).evaluate
        library scope = .ok seq ∧
      (boundary length y ≤ boundary length z → ∃ rest,
        (Expr.slice s (some i) none).evaluate library scope = .ok rest ∧
        (Expr.binary (.exact .add) (.slice s (some i) (some j)) (.slice s (some j) none)).evaluate
          library scope = .ok rest) := by
  obtain ⟨a, ha, hay⟩ := exists_resolve_eq hlength hm
  obtain ⟨b, hb, hbz⟩ := exists_resolve_eq hlength hn
  have hstart : (Expr.evaluateBound library scope (some i) >>= bound?) = .ok (some a) :=
    bind_eq_ok_iff.mpr ⟨_, hi, ha⟩
  have hstop : (Expr.evaluateBound library scope (some j) >>= bound?) = .ok (some b) :=
    bind_eq_ok_iff.mpr ⟨_, hj, hb⟩
  have habsent : (Expr.evaluateBound library scope none >>= bound?) = .ok none := rfl
  have hboth := evaluate_slice hs hseq hstart hstop
  have hupTo := evaluate_slice hs hseq habsent hstart
  have hfrom := evaluate_slice hs hseq hstart habsent
  have hfromStop := evaluate_slice hs hseq hstop habsent
  simp only [opening, closing, Option.map_some, Option.map_none, Option.getD_some, Option.getD_none,
    hay, hbz] at hboth hupTo hfrom hfromStop
  refine ⟨hboth, size?_part_of_le hseq, ?_, fun hle => ⟨_, hfrom, ?_⟩⟩
  · rw [Expr.evaluate, hupTo, hfrom]
    refine (add_part hseq (Nat.zero_le _) (boundary_le length y)).trans ?_
    rw [part_whole hseq]
  · rw [Expr.evaluate, hboth, hfromStop]
    exact add_part hseq hle (boundary_le length z)

-- The last item, counted from the end, up to a place far beyond the end.
theorem slice_partition_beyond :
    let s := Expr.literal (.tuple [.null, .text [0xD83D, 0xDE00], .bool true])
    let i := Expr.literal (.ofInt (-1))
    let j := Expr.literal (.ofInt 9007199254740993)
    (Number.ofInt (-1)).IsInteger (-1) ∧ (Number.ofInt 9007199254740993).IsInteger 9007199254740993 ∧
      (Expr.slice s (some i) (some j)).evaluate [] [] = .ok (.tuple [.bool true]) ∧
      (Expr.binary (.exact .add) (.slice s none (some i)) (.slice s (some i) none)).evaluate [] [] =
        .ok (.tuple [.null, .text [0xD83D, 0xDE00], .bool true]) ∧
      ∃ rest, (Expr.slice s (some i) none).evaluate [] [] = .ok rest ∧
        (Expr.binary (.exact .add) (.slice s (some i) (some j)) (.slice s (some j) none)).evaluate
          [] [] = .ok rest := by
  intro s i j
  have hs : s.evaluate [] [] = .ok (.tuple [.null, .text [0xD83D, 0xDE00], .bool true]) := rfl
  have hi : i.evaluate [] [] = .ok (.number (.ofInt (-1))) := rfl
  have hj : j.evaluate [] [] = .ok (.number (.ofInt 9007199254740993)) := rfl
  obtain ⟨hslice, -, hwhole, hjoin⟩ := slice_partition hs rfl (by decide) hi
    (Number.isInteger_ofInt (-1)) hj (Number.isInteger_ofInt 9007199254740993)
  exact ⟨Number.isInteger_ofInt _, Number.isInteger_ofInt _, hslice, hwhole, hjoin (by decide)⟩

end

end RecordQuery.Value
