import RecordQuery.Text.Basic

/-!
Entries under text keys in the order in which the keys came first. A later entry under a key that is
there replaces the value and keeps the place.
-/

namespace RecordQuery

abbrev Fields (α : Type) := List (Text × α)

namespace Fields

variable {α : Type}

def get? (key : Text) : Fields α → Option α
  | [] => none
  | (k, a) :: rest => if k = key then some a else get? key rest

def has (fields : Fields α) (key : Text) : Bool := (fields.get? key).isSome

def keys (fields : Fields α) : List Text := fields.map Prod.fst

def values (fields : Fields α) : List α := fields.map Prod.snd

-- The entries with `a` under `key`, at the key's place or at the end.
def set (key : Text) (a : α) : Fields α → Fields α
  | [] => [(key, a)]
  | (k, b) :: rest => if k = key then (k, a) :: rest else (k, b) :: set key a rest

-- `below` with the entries of `above` set one after another.
def merge (below above : Fields α) : Fields α :=
  above.foldl (fun fields e => fields.set e.1 e.2) below

-- The fields that a list of entries stands for, keys perhaps repeated.
def ofEntries (entries : List (Text × α)) : Fields α := merge [] entries

end Fields

end RecordQuery
