import StackDepth.Tribyte.Basic

/-!
# The bytes a value covers

The unknown positions of a value are filled in every way, in increasing order: each filling `sub` of
the free positions is followed by `(sub - free) &&& free`, until all free positions are filled. The
number of fillings is `Tribyte.width`.
-/

namespace StackDepth

namespace Tribyte

/-- The fillings of `free` from `sub` on; `fuel` bounds their number. -/
def fillings (free : Byte) : Nat → Byte → List Byte
  | 0, _ => []
  | fuel + 1, sub =>
      sub :: if sub = free then [] else fillings free fuel ((sub - free) &&& free)

/-- Every byte the value covers, in increasing order. A byte has at most 256 fillings. -/
def concretizations (v : Tribyte) : List Byte :=
  (fillings (~~~v.known) 256 0#8).map (v.bits ||| ·)

/-- The number of unknown positions. -/
def freeCount (v : Tribyte) : Nat :=
  ((List.range 8).filter fun n => !v.known.getLsbD n).length

/-- How many bytes the value covers. -/
def width (v : Tribyte) : Nat := Nat.pow 2 v.freeCount

/-- The first `limit` covered bytes, and whether the value was exhausted before the limit was
reached. The limit `0` sets no limit. -/
def concretizeUpTo (v : Tribyte) (limit : Nat) : List Byte × Bool :=
  if limit = 0 ∨ v.concretizations.length < limit then (v.concretizations, true)
  else (v.concretizations.take limit, false)

end Tribyte

end StackDepth
