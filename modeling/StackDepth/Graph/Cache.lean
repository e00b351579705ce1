import Std.Data.TreeMap
import StackDepth.State.Basic

/-!
# Interned states

Equal states share one number; numbers are dense and given in the order in which states first occur.
A state is found by its key, the number whose digits in base 2^16 are the words of the state. All
states have the same number of words, so different states have different keys.
-/

namespace StackDepth

namespace State

/-- The parts of a state, each as a word of sixteen bits. -/
def words (s : State) : List (BitVec 16) :=
  s.pc :: s.sreg.toWord :: s.eimsk.toWord :: s.timsk.toWord :: s.regs.toList.map Tribyte.toWord

/-- The words of a state as the digits of one number. -/
def key (s : State) : Nat := s.words.foldl (fun n w => n * 65536 + w.toNat) 0

end State

/-- States by number, and numbers by key. -/
structure Cache where
  /-- The states in the order of their numbers. -/
  states : Array State := #[]
  /-- The number of the state with a key. -/
  index : Std.TreeMap Nat Nat := ∅

namespace Cache

instance : Inhabited Cache := ⟨{}⟩

/-- No state. -/
def empty : Cache := {}

/-- How many states are interned. -/
def size (c : Cache) : Nat := c.states.size

/-- The number of a state that is interned. -/
def find? (c : Cache) (s : State) : Option Nat := c.index[s.key]?

/-- The state with a number. -/
def state? (c : Cache) (id : Nat) : Option State := c.states[id]?

/-- Adds a state that is not interned, which gets the next number. -/
def push (c : Cache) (s : State) : Cache :=
  let id := c.size
  { states := c.states.push s, index := c.index.insert s.key id }

/-- The number of a state, which is interned if it is new. -/
def intern (c : Cache) (s : State) : Cache × Nat :=
  match c.find? s with
  | some id => (c, id)
  | none =>
      let id := c.size
      (c.push s, id)

end Cache

end StackDepth
