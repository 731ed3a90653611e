import RecordQuery.Proofs.Value.Key

/-!
Values with their tuples replaced by lists, as documents hold them. Numbers may be replaced on the way;
the value stays equal to what it was just if every number does.
-/

namespace RecordQuery.Value

mutual

-- The value with lists for its tuples and, for every number, what `f` gives for it.
def withLists (f : Number → Value) : Value → Value
  | .null => .null
  | .bool b => .bool b
  | .number n => f n
  | .text t => .text t
  | .list items => .list (allWithLists f items)
  | .tuple items => .list (allWithLists f items)
  | .object fields => .object (fieldsWithLists f fields)

def allWithLists (f : Number → Value) : List Value → List Value
  | [] => []
  | v :: rest => withLists f v :: allWithLists f rest

def fieldsWithLists (f : Number → Value) : List (Text × Value) → List (Text × Value)
  | [] => []
  | (name, v) :: rest => (name, withLists f v) :: fieldsWithLists f rest

end

mutual

-- The numbers that a value holds, at any depth.
def numbers : Value → List Number
  | .number n => [n]
  | .list items => allNumbers items
  | .tuple items => allNumbers items
  | .object fields => fieldNumbers fields
  | _ => []

def allNumbers : List Value → List Number
  | [] => []
  | v :: rest => numbers v ++ allNumbers rest

def fieldNumbers : List (Text × Value) → List Number
  | [] => []
  | (_, v) :: rest => numbers v ++ fieldNumbers rest

end

mutual

-- The names of every object that a value holds, at any depth, in their order.
def nameLists : Value → List (List Text)
  | .list items => allNameLists items
  | .tuple items => allNameLists items
  | .object fields => Fields.keys fields :: fieldNameLists fields
  | _ => []

def allNameLists : List Value → List (List Text)
  | [] => []
  | v :: rest => nameLists v ++ allNameLists rest

def fieldNameLists : List (Text × Value) → List (List Text)
  | [] => []
  | (_, v) :: rest => nameLists v ++ fieldNameLists rest

end

variable {f g : Number → Value} {v : Value}

theorem allWithLists_eq_map (f : Number → Value) (items : List Value) :
    allWithLists f items = items.map (withLists f) := by
  induction items with
  | nil => rfl
  | cons v rest ih => rw [allWithLists, ih, List.map_cons]

theorem fieldsWithLists_eq_map (f : Number → Value) (fields : Fields Value) :
    fieldsWithLists f fields = fields.map fun e => (e.1, withLists f e.2) := by
  induction fields with
  | nil => rfl
  | cons e rest ih => rw [fieldsWithLists, ih, List.map_cons]

theorem forall_mem_allNumbers {p : Number → Prop} {items : List Value} :
    (∀ n ∈ allNumbers items, p n) ↔ ∀ v ∈ items, ∀ n ∈ v.numbers, p n := by
  induction items with
  | nil => simp [allNumbers]
  | cons v rest ih => rw [allNumbers, List.forall_mem_append, ih, List.forall_mem_cons]

theorem forall_mem_fieldNumbers {p : Number → Prop} {fields : Fields Value} :
    (∀ n ∈ fieldNumbers fields, p n) ↔ ∀ e ∈ fields, ∀ n ∈ e.2.numbers, p n := by
  induction fields with
  | nil => simp [fieldNumbers]
  | cons e rest ih => rw [fieldNumbers, List.forall_mem_append, ih, List.forall_mem_cons]

-- Only the numbers that the value holds matter.
theorem withLists_congr (h : ∀ n ∈ v.numbers, f n = g n) : v.withLists f = v.withLists g := by
  induction v with
  | null => rfl
  | bool b => rfl
  | text t => rfl
  | number n => exact h n List.mem_cons_self
  | list items ih =>
    rw [numbers, forall_mem_allNumbers] at h
    rw [withLists, withLists, allWithLists_eq_map, allWithLists_eq_map]
    exact congrArg list (List.map_congr_left fun v hv => ih v hv (h v hv))
  | tuple items ih =>
    rw [numbers, forall_mem_allNumbers] at h
    rw [withLists, withLists, allWithLists_eq_map, allWithLists_eq_map]
    exact congrArg list (List.map_congr_left fun v hv => ih v hv (h v hv))
  | object fields ih =>
    rw [numbers, forall_mem_fieldNumbers] at h
    rw [withLists, withLists, fieldsWithLists_eq_map, fieldsWithLists_eq_map]
    refine congrArg object (List.map_congr_left fun e he => ?_)
    rw [ih e he (h e he)]

theorem allNameLists_eq_flatMap (items : List Value) :
    allNameLists items = items.flatMap nameLists := by
  induction items with
  | nil => rfl
  | cons v rest ih => rw [allNameLists, ih, List.flatMap_cons]

theorem fieldNameLists_eq_flatMap (fields : Fields Value) :
    fieldNameLists fields = fields.flatMap fun e => e.2.nameLists := by
  induction fields with
  | nil => rfl
  | cons e rest ih => rw [fieldNameLists, ih, List.flatMap_cons]

-- Names stay where they are when numbers are replaced by values without names.
theorem nameLists_withLists (hf : ∀ n, (f n).nameLists = []) (v : Value) :
    (v.withLists f).nameLists = v.nameLists := by
  induction v with
  | null | bool | text => rfl
  | number n => exact hf n
  | list items ih | tuple items ih =>
    rw [withLists, nameLists, nameLists, allWithLists_eq_map, allNameLists_eq_flatMap,
      allNameLists_eq_flatMap, List.flatMap_map]
    exact List.flatMap_congr ih
  | object fields ih =>
    rw [withLists, nameLists, nameLists, fieldsWithLists_eq_map, Fields.keys_map,
      fieldNameLists_eq_flatMap, fieldNameLists_eq_flatMap, List.flatMap_map]
    exact congrArg _ (List.flatMap_congr ih)

-- Lists whose items have the same keys, place by place.
theorem keys_allWithLists_eq_iff (items : List Value) :
    keys (allWithLists f items) = keys (allWithLists g items) ↔
      ∀ v ∈ items, (v.withLists f).key = (v.withLists g).key := by
  simp only [keys_eq_map, allWithLists_eq_map, List.map_map, List.map_inj_left, Function.comp_apply]

theorem keys_fieldsWithLists (f : Number → Value) (fields : Fields Value) :
    Fields.keys (fieldsWithLists f fields) = fields.keys := by
  rw [fieldsWithLists_eq_map, Fields.keys_map]

theorem sortedByName_fieldsWithLists_eq_iff {fields : Fields Value} (hd : fields.keys.Nodup) :
    sortedByName (fieldKeys (fieldsWithLists f fields)) =
        sortedByName (fieldKeys (fieldsWithLists g fields)) ↔
      ∀ e ∈ fields, (e.2.withLists f).key = (e.2.withLists g).key := by
  have hnodup : ∀ h : Number → Value,
      (Fields.keys (fieldKeys (fieldsWithLists h fields))).Nodup := fun h => by
    rwa [fieldKeys_eq_map, Fields.keys_map, keys_fieldsWithLists]
  rw [sortedByName_eq_iff (hnodup f) (hnodup g)]
  simp only [fieldKeys_eq_map, fieldsWithLists_eq_map, Fields.get?_map]
  constructor
  · intro h e he
    have hname := h e.1
    rw [(Fields.get?_eq_some_iff hd).mpr he] at hname
    simpa using hname
  · intro h name
    cases hget : fields.get? name with
    | none => rfl
    | some v => simpa using h _ (Fields.mem_of_get?_eq_some hget)

-- Two ways of replacing the numbers give equal values just if they do for every number.
theorem key_withLists_eq_iff (hv : v.DistinctNames) :
    (v.withLists f).key = (v.withLists g).key ↔ ∀ n ∈ v.numbers, (f n).key = (g n).key := by
  induction v with
  | null => simp [withLists, numbers]
  | bool b => simp [withLists, numbers]
  | text t => simp [withLists, numbers]
  | number n => simp [withLists, numbers]
  | list items ih =>
    rw [distinctNames_list] at hv
    rw [withLists, withLists, key_list_eq_iff, keys_allWithLists_eq_iff, numbers,
      forall_mem_allNumbers]
    exact forall₂_congr fun v hmem => ih v hmem (hv v hmem)
  | tuple items ih =>
    rw [distinctNames_tuple] at hv
    rw [withLists, withLists, key_list_eq_iff, keys_allWithLists_eq_iff, numbers,
      forall_mem_allNumbers]
    exact forall₂_congr fun v hmem => ih v hmem (hv v hmem)
  | object fields ih =>
    rw [distinctNames_object] at hv
    rw [withLists, withLists, key_object_eq_iff, sortedByName_fieldsWithLists_eq_iff hv.1, numbers,
      forall_mem_fieldNumbers]
    exact forall₂_congr fun e hmem => ih e hmem (hv.2 e hmem)

end RecordQuery.Value
