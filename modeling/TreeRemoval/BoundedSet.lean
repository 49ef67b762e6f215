import TreeRemoval.Text.Quoted

/-! # Bounded ordered sets

Distinct paths in the order of their arrival, up to a capacity. A full set takes nothing more, and
adding tells whether the set is full afterwards.
-/

namespace TreeRemoval

structure BoundedSet where
  capacity : Nat
  items : List String
  capacity_pos : 0 < capacity

structure CapacityTooSmall where
  capacity : Int
  deriving DecidableEq, Repr

def CapacityTooSmall.message (e : CapacityTooSmall) : String :=
  s!"capacity must be >= 1, got {e.capacity}"

namespace BoundedSet

def empty (capacity : Nat) (h : 0 < capacity) : BoundedSet := ⟨capacity, [], h⟩

def ofCapacity? (capacity : Int) : Except CapacityTooSmall BoundedSet :=
  if h : 1 ≤ capacity then .ok (empty capacity.toNat (by omega)) else .error ⟨capacity⟩

variable (s : BoundedSet) (p : String)

def size : Nat := s.items.length

def isFull : Bool := s.capacity ≤ s.size

def isEmpty : Bool := s.items.isEmpty

def contains : Bool := s.items.contains p

def insert : BoundedSet :=
  if s.isFull || s.contains p then s else { s with items := s.items ++ [p] }

def add : Bool × BoundedSet := ((s.insert p).isFull, s.insert p)

def erase : BoundedSet := { s with items := s.items.erase p }

def describe : String :=
  s!"BoundedPathSet(capacity={s.capacity}, items=" ++ Text.quoteList s.items ++ ")"

theorem isFull_iff : s.isFull = true ↔ s.capacity ≤ s.items.length :=
  decide_eq_true_iff

theorem items_insert :
    (s.insert p).items = if s.isFull ∨ p ∈ s.items then s.items else s.items ++ [p] := by
  by_cases h : s.isFull <;> by_cases hp : p ∈ s.items <;> simp [insert, contains, h, hp]

@[simp] theorem capacity_insert : (s.insert p).capacity = s.capacity := by
  unfold insert; split <;> rfl

@[simp] theorem items_erase : (s.erase p).items = s.items.erase p := rfl

end BoundedSet

end TreeRemoval
