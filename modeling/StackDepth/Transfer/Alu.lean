import StackDepth.Transfer.Effect

/-!
# Status flags of the arithmetic unit

The transfer functions of the arithmetic and logic instructions. Each takes a state and operand
values, sets the flags that the processor derives from them, and gives the state with the result. The
carries and overflows are derived from the single bits of operands and result, which are three-valued.
-/

namespace StackDepth

namespace State

/-- `N` from the top bit of `r`, `Z` from `r`, `V` as given, and `S` from `N` and `V`. -/
def setNZVS (s : State) (r v : Tribyte) : State :=
  (((s.setFlag Flag.N (r.bit 7)).setFlag Flag.Z r.isZero).setFlag Flag.V v).setFlag Flag.S
    ((r.bit 7).xor v)

/-- Whether two of three bits are set: the carry out of a position with result bit `r`. -/
def carryOut (a b r : Tribyte) : Tribyte :=
  ((a.and b).or (b.and r.not)).or (r.not.and a)

/-- The borrow out of a position with result bit `r`. -/
def borrowOut (a b r : Tribyte) : Tribyte :=
  ((a.not.and b).or (b.and r)).or (r.and a.not)

/-- The sum `a + b + c` and its flags. -/
def addWith (s : State) (a b c : Tribyte) : State × Tribyte :=
  let r := a.add b c
  let overflow :=
    (((a.bit 7).and (b.bit 7)).and (r.bit 7).not).or
      (((a.bit 7).not.and (b.bit 7).not).and (r.bit 7))
  (((s.setFlag Flag.H (carryOut (a.bit 3) (b.bit 3) (r.bit 3))).setFlag Flag.C
    (carryOut (a.bit 7) (b.bit 7) (r.bit 7))).setNZVS r overflow, r)

/-- The difference `a - b - c` and its flags. With `keepZ` the zero flag can only stay set, which
chains comparisons of several bytes. -/
def subWith (s : State) (a b c : Tribyte) (keepZ : Bool) : State × Tribyte :=
  let r := a.sub b c
  let overflow :=
    (((a.bit 7).and (b.bit 7).not).and (r.bit 7).not).or
      (((a.bit 7).not.and (b.bit 7)).and (r.bit 7))
  let t := ((s.setFlag Flag.H (borrowOut (a.bit 3) (b.bit 3) (r.bit 3))).setFlag Flag.C
    (borrowOut (a.bit 7) (b.bit 7) (r.bit 7))).setNZVS r overflow
  (if keepZ then t.setFlag Flag.Z (r.isZero.and (s.flag Flag.Z)) else t, r)

/-- The flags of a logical result. -/
def logic (s : State) (r : Tribyte) : State := s.setNZVS r .no

/-- A shift to the left with its flags. -/
def shiftLeftWith (s : State) (v entering : Tribyte) : State × Tribyte :=
  let r := v.shiftLeft entering
  (((s.setFlag Flag.H (v.bit 3)).setFlag Flag.C (v.bit 7)).setNZVS r
    ((r.bit 7).xor (v.bit 7)), r)

/-- A shift to the right with its flags. -/
def shiftRightWith (s : State) (v entering : Tribyte) : State × Tribyte :=
  let r := v.shiftRight entering
  ((s.setFlag Flag.C (v.bit 0)).setNZVS r ((r.bit 7).xor (v.bit 0)), r)

/-- Adds `k` to the pair that starts at register `rd`, with its flags. The sign of `k` says whether
the flags are those of an addition or of a subtraction. -/
def addPair (s : State) (rd : Nat) (k : Int) : State :=
  let top := (s.reg (rd + 1)).bit 7
  let (lo, hi) := Tribyte.addWord (s.reg rd) (s.reg (rd + 1)) k
  let top' := hi.bit 7
  let v := if 0 ≤ k then top.not.and top' else top.and top'.not
  let c := if 0 ≤ k then top'.not.and top else top'.and top.not
  ((((((s.setFlag Flag.V v).setFlag Flag.N top').setFlag Flag.Z (lo.isZero.and hi.isZero)).setFlag
    Flag.C c).setFlag Flag.S (top'.xor v)).setReg rd lo).setReg (rd + 1) hi

/-- The integer a byte stands for. -/
def operand (signed : Bool) (b : Byte) : Int := if signed then b.toInt else b.toNat

/-- The product of two bytes into the pair `r1:r0`. It is exact when both operands are known, zero when
either is known to be zero, and unknown otherwise. A fractional product is shifted to the left once
the carry is taken. -/
def multiply (s : State) (i : Instruction) (signedA signedB fractional : Bool) : State :=
  let a := s.reg i.rd
  let b := s.reg i.rr
  let put (lo hi c z : Tribyte) : State :=
    (((s.setReg 0 lo).setReg 1 hi).setFlag Flag.C c).setFlag Flag.Z z
  if a.isKnown && b.isKnown then
    let product := BitVec.ofInt 16 (operand signedA a.bits * operand signedB b.bits)
    let p := if fractional then product <<< 1 else product
    put (.ofByte (p.extractLsb' 0 8)) (.ofByte (p.extractLsb' 8 8)) (.ofBool product.msb)
      (.ofBool (p == 0#16))
  else if a = .zero ∨ b = .zero then put .zero .zero .no .yes
  else put .unknown .unknown .unknown .unknown

/-- Adds `k` to the pair that starts at register `r`, without flags. -/
def movePointer (s : State) (r : Nat) (k : Int) : State :=
  let (lo, hi) := Tribyte.addWord (s.reg r) (s.reg (r + 1)) k
  (s.setReg r lo).setReg (r + 1) hi

end State

end StackDepth
