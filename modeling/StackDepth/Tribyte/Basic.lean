/-!
# Bytes with unknown bits

A `Tribyte` is a byte each of whose bits is `0`, `1` or unknown. It is kept as two plain bytes: the
mask of the known positions and the bits held there. The analysis moves such bytes through the
processor, so every operation below is computed on the two masks and never by enumerating bytes.

Main definitions:

* `Tribyte`, `Tribyte.Covers`, `Tribyte.Canonical`;
* `Tribyte.ceil` and `Tribyte.floor`, the largest and the smallest byte covered;
* `Tribyte.add`, `Tribyte.sub` and `Tribyte.addWord`, which compare the two extreme results;
* `Tribyte.and`, `Tribyte.or`, `Tribyte.xor`, `Tribyte.not`, the shifts, and the answers
  `Tribyte.isZero` and `Tribyte.equal` given as single-bit values.
-/

namespace StackDepth

/-- A concrete byte. -/
abbrev Byte := BitVec 8

/-- A byte whose bits may be unknown. Bits held under an unknown position carry no information; a
canonical value holds `0` there, and only non-canonical inputs do otherwise. -/
@[ext]
structure Tribyte where
  /-- The positions whose bit is known. -/
  known : Byte
  /-- The bits, read only where `known` is set. -/
  held : Byte
deriving DecidableEq, Inhabited

namespace Tribyte

/-! ### Construction and reading -/

/-- The byte `b` with every bit known. -/
def ofByte (b : Byte) : Tribyte := ⟨255#8, b⟩

/-- The canonical value that knows the positions in `known` and has the bits of `bits` there. -/
def make (known bits : Byte) : Tribyte := ⟨known, bits &&& known⟩

/-- Every bit known to be `0`. -/
def zero : Tribyte := ofByte 0#8

/-- No bit known. -/
def unknown : Tribyte := ⟨0#8, 0#8⟩

/-- The single-bit value `1`. -/
def yes : Tribyte := ⟨1#8, 1#8⟩

/-- The single-bit value `0`. -/
def no : Tribyte := ⟨1#8, 0#8⟩

/-- A truth value as a single-bit value. -/
def ofBool (b : Bool) : Tribyte := if b then yes else no

/-- The known bits; unknown positions read as `0`. -/
def bits (v : Tribyte) : Byte := v.held &&& v.known

/-- The same knowledge with `0` held under every unknown position. -/
def canon (v : Tribyte) : Tribyte := make v.known v.held

/-- Nothing is held under an unknown position. -/
def Canonical (v : Tribyte) : Prop := v.held &&& ~~~v.known = 0#8

instance (v : Tribyte) : Decidable v.Canonical := inferInstanceAs (Decidable (_ = _))

/-- Every bit is known. -/
def isKnown (v : Tribyte) : Bool := v.known == 255#8

/-- The largest byte covered: every unknown bit is `1`. -/
def ceil (v : Tribyte) : Byte := v.bits ||| ~~~v.known

/-- The smallest byte covered: every unknown bit is `0`. -/
def floor (v : Tribyte) : Byte := v.bits

/-- The byte `c` has the known bits of `v`. -/
def Covers (v : Tribyte) (c : Byte) : Prop := c &&& v.known = v.bits

instance (v : Tribyte) (c : Byte) : Decidable (v.Covers c) := inferInstanceAs (Decidable (_ = _))

/-! ### The sixteen-bit word of a value -/

/-- Both masks side by side, the known positions in the upper half. -/
def toWord (v : Tribyte) : BitVec 16 := v.known ++ v.held

/-- The value whose masks are the two halves of a word. -/
def ofWord (w : BitVec 16) : Tribyte := ⟨w.extractLsb' 8 8, w.extractLsb' 0 8⟩

/-- Bit `n` as a single-bit value. The word is shifted as a whole, so a position from 8 up reads the
mask and never answers `yes` or `no`. -/
def bit (v : Tribyte) (n : Nat) : Tribyte := ofWord ((v.toWord >>> n) &&& 0x0101#16)

/-- Replaces bit `n` by the single-bit value `b`, in both masks. What is shifted out of the word is
dropped. -/
def setBit (v : Tribyte) (n : Nat) (b : Tribyte) : Tribyte :=
  ofWord ((v.toWord &&& ~~~(0x0101#16 <<< n)) ||| ((b.toWord &&& 0x0101#16) <<< n))

/-! ### Join -/

/-- The value known where `x` and `y` agree inside `mask`. -/
def agree (x y mask : Byte) : Tribyte := make (mask &&& ~~~(x ^^^ y)) x

/-- The join: a bit stays known only if it is known and equal on both sides. -/
def merge (a b : Tribyte) : Tribyte :=
  make (a.known &&& b.known &&& ~~~(a.bits ^^^ b.bits)) a.bits

/-! ### Arithmetic -/

/-- The sum with a carry. The carry into a bit grows with the bits below it, so a bit known in both
operands is settled when the largest and the smallest sum agree on it. -/
def add (a b carry : Tribyte) : Tribyte :=
  agree (a.ceil + b.ceil + (carry.ceil &&& 1#8)) (a.floor + b.floor + (carry.floor &&& 1#8))
    (a.known &&& b.known)

/-- The difference with a borrow. The borrow grows with the subtrahend and shrinks with the minuend,
so the extremes take the opposite ends of the two operands. -/
def sub (a b borrow : Tribyte) : Tribyte :=
  agree (a.ceil - b.floor - (borrow.floor &&& 1#8)) (a.floor - b.ceil - (borrow.ceil &&& 1#8))
    (a.known &&& b.known)

/-- One more. -/
def inc (v : Tribyte) : Tribyte := agree (v.ceil + 1#8) (v.floor + 1#8) v.known

/-- One less. -/
def dec (v : Tribyte) : Tribyte := agree (v.ceil - 1#8) (v.floor - 1#8) v.known

/-- Adds the constant `k` to the pair `hi:lo`, giving the low and the high byte of the sum. -/
def addWord (lo hi : Tribyte) (k : Int) : Tribyte × Tribyte :=
  let top := (hi.ceil ++ lo.ceil) + BitVec.ofInt 16 k
  let bottom := (hi.floor ++ lo.floor) + BitVec.ofInt 16 k
  (agree (top.extractLsb' 0 8) (bottom.extractLsb' 0 8) lo.known,
    agree (top.extractLsb' 8 8) (bottom.extractLsb' 8 8) hi.known)

/-! ### Logic and shifts -/

/-- The positions known to be `0`. -/
def zeros (v : Tribyte) : Byte := v.known &&& ~~~v.bits

/-- Conjunction: a bit is known `0` if either side is known `0`. -/
def and (a b : Tribyte) : Tribyte :=
  make ((a.bits &&& b.bits) ||| (a.zeros ||| b.zeros)) (a.bits &&& b.bits)

/-- Disjunction: a bit is known `1` if either side is known `1`. -/
def or (a b : Tribyte) : Tribyte :=
  make ((a.bits ||| b.bits) ||| (a.zeros &&& b.zeros)) (a.bits ||| b.bits)

/-- Exclusive disjunction, known where both sides are known. -/
def xor (a b : Tribyte) : Tribyte := make (a.known &&& b.known) (a.bits ^^^ b.bits)

/-- The complement of every known bit. -/
def not (v : Tribyte) : Tribyte := make v.known (~~~v.bits)

/-- The two halves exchanged. -/
def swap (v : Tribyte) : Tribyte :=
  make ((v.known <<< 4) ||| (v.known >>> 4)) ((v.bits <<< 4) ||| (v.bits >>> 4))

/-- A shift to the left by one; `entering` becomes bit 0. -/
def shiftLeft (v entering : Tribyte) : Tribyte :=
  (make (v.known <<< 1) (v.bits <<< 1)).setBit 0 entering

/-- A shift to the right by one; `entering` becomes bit 7. -/
def shiftRight (v entering : Tribyte) : Tribyte :=
  (make (v.known >>> 1) (v.bits >>> 1)).setBit 7 entering

/-! ### Questions -/

/-- Whether the byte is zero: `yes` if every bit is known `0`, `no` if some bit is known `1`. -/
def isZero (v : Tribyte) : Tribyte :=
  if v = zero then yes else if v.bits ≠ 0#8 then no else unknown

/-- Whether the bytes are equal: `no` if some bit known on both sides differs, `yes` if both are
known and none differs. -/
def equal (a b : Tribyte) : Tribyte :=
  if (a.bits ^^^ b.bits) &&& (a.known &&& b.known) ≠ 0#8 then no
  else if a.isKnown && b.isKnown then yes
  else unknown

end Tribyte

end StackDepth
