/-!
# Tables

A table maps texts to values. Each text occurs once, in the order in which the entries were first made.

## Main definitions

* `Table`: finite maps from texts.
* `Table.get?`, `Table.insert`, `Table.erase`, `Table.size`, `Table.keys`.

## Main results

* `Table.get?_insert`, `Table.get?_erase`: what a table gives back after a change.
* `Table.get?_filterMap`: what it gives back once every entry was changed or dropped.
* `Table.mem_keys_iff`: the keys are those that have a value.
-/

namespace Admission

/-- The value in the first entry of a key. -/
def findKey {α : Type} (key : String) : List (String × α) → Option α
  | [] => none
  | e :: rest => if e.1 = key then some e.2 else findKey key rest

theorem isSome_findKey_iff {α : Type} (key : String) (entries : List (String × α)) :
    (findKey key entries).isSome ↔ key ∈ entries.map (·.1) := by
  induction entries with
  | nil => simp [findKey]
  | cons e rest ih => grind [findKey]

/-- Removes all entries of a key. -/
def removeKey {α : Type} (key : String) (entries : List (String × α)) : List (String × α) :=
  entries.filter fun e => e.1 ≠ key

/-- Overwrites the entry of a key, or makes one at the end. -/
def putKey {α : Type} (key : String) (value : α) : List (String × α) → List (String × α)
  | [] => [(key, value)]
  | e :: rest => if e.1 = key then (key, value) :: rest else e :: putKey key value rest

theorem map_fst_putKey {α : Type} (key : String) (value : α) (entries : List (String × α)) :
    (putKey key value entries).map (·.1) =
      if key ∈ entries.map (·.1) then entries.map (·.1) else entries.map (·.1) ++ [key] := by
  induction entries with
  | nil => simp [putKey]
  | cons e rest ih =>
    by_cases h : e.1 = key
    · simp [putKey, h]
    · have : key ≠ e.1 := fun he => h he.symm
      simp only [putKey, h, if_false, List.map_cons, ih, List.mem_cons, this, false_or]
      split <;> simp

/-- A finite map from texts. -/
structure Table (α : Type) where
  entries : List (String × α)
  keys_nodup : (entries.map (·.1)).Nodup

namespace Table

variable {α : Type}

/-- The table without entries. -/
def empty : Table α := ⟨[], by simp⟩

instance : Inhabited (Table α) := ⟨empty⟩

/-- The value of a key. -/
def get? (t : Table α) (key : String) : Option α := findKey key t.entries

/-- Gives a key a value, in place of any that it had. -/
def insert (t : Table α) (key : String) (value : α) : Table α where
  entries := putKey key value t.entries
  keys_nodup := by
    rw [map_fst_putKey]
    split
    · exact t.keys_nodup
    · refine List.nodup_append.2 ⟨t.keys_nodup, by simp, ?_⟩
      intro a ha b hb
      rw [List.mem_singleton.1 hb]
      rintro rfl
      contradiction

/-- Takes the value of a key away. -/
def erase (t : Table α) (key : String) : Table α where
  entries := removeKey key t.entries
  keys_nodup := by
    have sub : ((removeKey key t.entries).map (·.1)).Sublist (t.entries.map (·.1)) :=
      (List.filter_sublist).map _
    exact sub.nodup t.keys_nodup

/-- Keeps the entries that a function has a value for. -/
def filterMap {β : Type} (t : Table α) (f : α → Option β) : Table β where
  entries := t.entries.filterMap fun e => (f e.2).map fun v => (e.1, v)
  keys_nodup := by
    suffices ∀ entries : List (String × α), ((entries.filterMap fun e =>
        (f e.2).map fun v => (e.1, v)).map (·.1)).Sublist (entries.map (·.1)) from
      (this t.entries).nodup t.keys_nodup
    intro entries
    induction entries with
    | nil => simp
    | cons e rest ih =>
      cases h : f e.2 with
      | none => simpa [List.filterMap_cons, h] using ih.cons e.1
      | some v => simpa [List.filterMap_cons, h] using ih.cons_cons e.1

/-- The keys that have a value. -/
def keys (t : Table α) : List String := t.entries.map (·.1)

/-- How many keys have a value. -/
def size (t : Table α) : Nat := t.entries.length

@[simp] theorem get?_empty (key : String) : (empty : Table α).get? key = none := rfl

theorem get?_insert (t : Table α) (key other : String) (value : α) :
    (t.insert key value).get? other = if other = key then some value else t.get? other := by
  suffices ∀ entries : List (String × α), findKey other (putKey key value entries) =
      if other = key then some value else findKey other entries from this t.entries
  intro entries
  induction entries with
  | nil => simp [putKey, findKey, eq_comm]
  | cons e rest ih => grind [putKey, findKey]

theorem get?_erase (t : Table α) (key other : String) :
    (t.erase key).get? other = if other = key then none else t.get? other := by
  suffices ∀ entries : List (String × α), findKey other (removeKey key entries) =
      if other = key then none else findKey other entries from this t.entries
  intro entries
  induction entries with
  | nil => simp [removeKey, findKey]
  | cons e rest ih => grind [removeKey, findKey]

/-- What is kept of a value is what the function has for it. -/
theorem get?_filterMap {β : Type} (t : Table α) (f : α → Option β) (key : String) :
    (t.filterMap f).get? key = (t.get? key).bind f := by
  suffices ∀ entries : List (String × α), (entries.map (·.1)).Nodup →
      findKey key (entries.filterMap fun e => (f e.2).map fun v => (e.1, v)) =
        (findKey key entries).bind f from this t.entries t.keys_nodup
  intro entries nodup
  induction entries with
  | nil => rfl
  | cons e rest ih =>
    obtain ⟨once, nodup⟩ := List.nodup_cons.1 nodup
    by_cases h : e.1 = key
    · -- No later entry is found in place of one that is not kept.
      have absent : findKey key rest = none := by
        rw [← Option.not_isSome_iff_eq_none, isSome_findKey_iff, ← h]
        exact once
      cases kept : f e.2 <;> simp [findKey, h, kept, ih nodup, absent]
    · cases kept : f e.2 <;> simp [findKey, h, kept, ih nodup]

theorem mem_keys_iff (t : Table α) (key : String) : key ∈ t.keys ↔ (t.get? key).isSome :=
  (isSome_findKey_iff key t.entries).symm

end Table

end Admission
