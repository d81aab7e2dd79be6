import Admission.Store.Error
import Admission.Table

/-!
# Stores

A store keeps the standing of each key. It is asked one call at a time, and each call takes effect as a
whole or not at all.

## Main definitions

* `StoreCall`: what a store can be asked.
* `Store`: the stores, by how they answer a call.
* `MemoryStore`: a store that keeps everything in memory and never fails.

## Main results

* `MemoryStore.get?_set`, `MemoryStore.get?_delete`: what a store gives back after a change.
-/

namespace Admission

/-- What a store can be asked. -/
inductive StoreCall
  | get (key : String)
  | set (key : String) (standing : Standing)
  | delete (key : String)
  | close
  deriving DecidableEq

namespace StoreCall

/-- The kind of call. -/
def op : StoreCall → StoreOp
  | .get _ => .get
  | .set .. => .set
  | .delete _ => .delete
  | .close => .close

/-- The key that the call is about; empty for a call about the whole store. -/
def key : StoreCall → String
  | .get key | .set key _ | .delete key => key
  | .close => ""

end StoreCall

/-- What a store answers: the standing asked for, if there is one, or a failure. A call that only
changes the store answers nothing. -/
abbrev StoreAnswer := Except StoreError (Option Standing)

/-- A store, by its answer to a call and what the call leaves. -/
class Store (σ : Type) where
  answer : StoreCall → σ → StoreAnswer × σ

/-- A store in memory. -/
structure MemoryStore where
  table : Table Standing

namespace MemoryStore

/-- A store that has seen no key. -/
def empty : MemoryStore := ⟨.empty⟩

/-- The standing kept for a key. -/
def get? (s : MemoryStore) (key : String) : Option Standing := s.table.get? key

/-- Keeps a standing for a key. -/
def set (s : MemoryStore) (key : String) (standing : Standing) : MemoryStore :=
  ⟨s.table.insert key standing⟩

/-- Forgets a key. -/
def delete (s : MemoryStore) (key : String) : MemoryStore := ⟨s.table.erase key⟩

/-- How many keys have a standing. -/
def size (s : MemoryStore) : Nat := s.table.size

instance : Store MemoryStore where
  answer
    | .get key, s => (.ok (s.get? key), s)
    | .set key standing, s => (.ok none, s.set key standing)
    | .delete key, s => (.ok none, s.delete key)
    | .close, _ => (.ok none, .empty)

@[simp] theorem get?_empty (key : String) : empty.get? key = none := rfl

theorem get?_set (s : MemoryStore) (key other : String) (standing : Standing) :
    (s.set key standing).get? other = if other = key then some standing else s.get? other :=
  Table.get?_insert ..

theorem get?_delete (s : MemoryStore) (key other : String) :
    (s.delete key).get? other = if other = key then none else s.get? other :=
  Table.get?_erase ..

end MemoryStore

end Admission
