import Std.Data.TreeSet

/-!
# Return sets

The return set of a state holds the return states that can be reached from it without crossing a call
or an interrupt. Most states reach one return state or none, so the first element is kept by itself and
a tree is only made for the second one. Elements are listed in increasing order.
-/

namespace StackDepth

/-- A finite set of state numbers. -/
inductive ReturnSet where
  /-- No element. -/
  | empty
  /-- One element. -/
  | single (id : Nat)
  /-- The elements of a tree. -/
  | tree (elements : Std.TreeSet Nat)

namespace ReturnSet

instance : EmptyCollection ReturnSet := ⟨empty⟩

instance : Inhabited ReturnSet := ⟨empty⟩

/-- The number of elements. -/
def size : ReturnSet → Nat
  | empty => 0
  | single _ => 1
  | tree elements => elements.size

/-- The set contains `id`. -/
def contains : ReturnSet → Nat → Bool
  | empty, _ => false
  | single a, id => a == id
  | tree elements, id => elements.contains id

/-- The set with `id`, and whether `id` was new to it. -/
def add : ReturnSet → Nat → ReturnSet × Bool
  | empty, id => (single id, true)
  | single a, id =>
      if a = id then (single a, false) else (tree ((∅ : Std.TreeSet Nat).insert a |>.insert id), true)
  | tree elements, id =>
      if elements.contains id then (tree elements, false) else (tree (elements.insert id), true)

/-- The elements in increasing order. -/
def items : ReturnSet → List Nat
  | empty => []
  | single a => [a]
  | tree elements => elements.toList

/-- Adds a list of elements: the new set, and those elements that were new, in the order of the
list. -/
def addAll (s : ReturnSet) : List Nat → ReturnSet × List Nat
  | [] => (s, [])
  | id :: rest =>
      let (t, isNew) := s.add id
      let (u, added) := t.addAll rest
      (u, if isNew then id :: added else added)

/-- What is seen of a set that need not be there: a missing set looks empty. -/
def seen (s : Option ReturnSet) : ReturnSet := s.getD empty

end ReturnSet

end StackDepth
