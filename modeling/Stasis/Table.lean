/-!
# Tables in order of insertion

A table maps keys to values and lists them in the order in which the keys were added. A key keeps
its place when its value changes; a key that is erased and added again goes to the end.

* `Table.find?`, `Table.insert`, `Table.erase`: look-up and change.
* `Table.keys_insert`, `Table.find?_insert`: what an insertion does.
-/

namespace Stasis

/-- The value of a key in a list of pairs. -/
def findIn {α β : Type} [DecidableEq α] (key : α) : List (α × β) → Option β
  | [] => none
  | (k, v) :: rest => if k = key then some v else findIn key rest

/-- Gives a key a value, in its place if it has one. -/
def insertIn {α β : Type} [DecidableEq α] (key : α) (value : β) : List (α × β) → List (α × β)
  | [] => [(key, value)]
  | (k, v) :: rest => if k = key then (k, value) :: rest else (k, v) :: insertIn key value rest

theorem keys_insertIn {α β : Type} [DecidableEq α] (key : α) (value : β) (l : List (α × β)) :
    (insertIn key value l).map Prod.fst =
      if key ∈ l.map Prod.fst then l.map Prod.fst else l.map Prod.fst ++ [key] := by
  induction l with
  | nil => simp [insertIn]
  | cons p rest ih =>
    by_cases h : p.1 = key
    · simp [insertIn, h]
    · have h' : ¬ key = p.1 := fun e => h e.symm
      simp only [insertIn, h, if_false, List.map_cons, ih, List.mem_cons, h', false_or]
      split <;> simp

theorem findIn_insertIn {α β : Type} [DecidableEq α] (key key' : α) (value : β)
    (l : List (α × β)) :
    findIn key' (insertIn key value l) = if key = key' then some value else findIn key' l := by
  induction l with
  | nil => simp [insertIn, findIn]
  | cons p rest ih =>
    by_cases h : p.1 = key
    · by_cases h' : key = key' <;> simp [insertIn, findIn, h, h']
    · by_cases h' : p.1 = key'
      · have : ¬ key = key' := fun e => h (h'.trans e.symm)
        have hk : ¬ key' = key := fun e => h (h'.trans e)
        simp [insertIn, findIn, h', this, hk]
      · simp [insertIn, findIn, h, h', ih]

/-- Pairs of keys and values, each key once, in the order in which the keys were added. -/
structure Table (α β : Type) where
  entries : List (α × β)
  nodup : (entries.map Prod.fst).Nodup

namespace Table

variable {α β γ : Type}

instance : EmptyCollection (Table α β) := ⟨[], List.nodup_nil⟩

instance : Inhabited (Table α β) := ⟨{}⟩

/-- The keys in order. -/
def keys (t : Table α β) : List α := t.entries.map Prod.fst

/-- The values in the order of their keys. -/
def values (t : Table α β) : List β := t.entries.map Prod.snd

/-- The number of keys. -/
def size (t : Table α β) : Nat := t.entries.length

/-- No key. -/
def isEmpty (t : Table α β) : Bool := t.entries.isEmpty

/-- The value of a key. -/
def find? [DecidableEq α] (t : Table α β) (key : α) : Option β := findIn key t.entries

/-- The key is there. -/
def contains [DecidableEq α] (t : Table α β) (key : α) : Bool := (t.find? key).isSome

/-- Gives a key a value; a new key goes to the end. -/
def insert [DecidableEq α] (t : Table α β) (key : α) (value : β) : Table α β where
  entries := insertIn key value t.entries
  nodup := by
    rw [keys_insertIn]
    split
    · exact t.nodup
    · next h =>
      rw [List.nodup_append]
      exact ⟨t.nodup, by simp, by rintro a ha b hb rfl; simp at hb; exact h (hb ▸ ha)⟩

/-- Gives a key a value unless it has one. -/
def insertNew [DecidableEq α] (t : Table α β) (key : α) (value : β) : Table α β :=
  if t.contains key then t else t.insert key value

/-- The entries that pass a test. -/
def filter (t : Table α β) (p : α → β → Bool) : Table α β where
  entries := t.entries.filter fun (k, v) => p k v
  nodup := List.Nodup.sublist ((List.filter_sublist).map Prod.fst) t.nodup

/-- Takes a key out. -/
def erase [DecidableEq α] (t : Table α β) (key : α) : Table α β :=
  t.filter fun k _ => decide (k ≠ key)

/-- Changes every value. -/
def map (t : Table α β) (f : β → γ) : Table α γ where
  entries := t.entries.map fun (k, v) => (k, f v)
  nodup := by
    have h : (t.entries.map fun p => (p.1, f p.2)).map Prod.fst = t.entries.map Prod.fst := by
      rw [List.map_map]; rfl
    exact h ▸ t.nodup

/-- A table of pairs; of two pairs with one key the first gives the place and the last the value. -/
def ofList [DecidableEq α] (l : List (α × β)) : Table α β :=
  l.foldl (fun t (k, v) => t.insert k v) {}

theorem keys_empty : (∅ : Table α β).keys = [] := rfl

theorem find?_empty [DecidableEq α] (key : α) : (∅ : Table α β).find? key = none := rfl

theorem keys_insert [DecidableEq α] (t : Table α β) (key : α) (value : β) :
    (t.insert key value).keys = if key ∈ t.keys then t.keys else t.keys ++ [key] :=
  keys_insertIn key value t.entries

theorem find?_insert [DecidableEq α] (t : Table α β) (key key' : α) (value : β) :
    (t.insert key value).find? key' = if key = key' then some value else t.find? key' :=
  findIn_insertIn key key' value t.entries

theorem keys_erase [DecidableEq α] (t : Table α β) (key : α) :
    (t.erase key).keys = t.keys.filter fun k => decide (k ≠ key) := by
  simp only [keys, erase, filter, List.filter_map]
  rfl

end Table

end Stasis
