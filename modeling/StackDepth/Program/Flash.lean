import StackDepth.Instruction.Disassembly
import StackDepth.Transfer.Effect

/-!
# The flash image

Instructions stand at even byte addresses of a flash of 64 KiB and occupy one or two words each. The
image keeps one slot for each word up to the last one used; the second word of a long instruction has
an empty slot. `Flash.put` refuses an odd address, an instruction that ends behind the flash and one
that overlaps another, in this order.
-/

namespace StackDepth

/-- The size of the flash in bytes. -/
def flashSize : Nat := 0x10000

/-- Why an instruction cannot be placed. -/
inductive PlaceError where
  /-- The address is odd. -/
  | misaligned (pc : Address)
  /-- The instruction ends behind the flash. -/
  | pastEnd (i : Instruction) (pc : Address)
  /-- Another instruction stands in the way. -/
  | overlap (pc : Address)
  /-- The catalogue does not know the size of what is placed. -/
  | uncatalogued (code : Nat)
deriving DecidableEq, Inhabited

/-- The text of an error. -/
def PlaceError.message : PlaceError → String
  | .misaligned pc => "misaligned instruction fetch: " ++ Text.hex4 pc.toNat
  | .pastEnd i pc => "read past end of program: " ++ i.disassemble ++ " at " ++ Text.hex4 pc.toNat
  | .overlap pc => "instructions overlap at " ++ Text.hex4 pc.toNat
  | .uncatalogued code => "no catalogue entry for opcode " ++ Text.decimal code

/-- Instructions by word address. -/
structure Flash where
  /-- The instruction that starts at each word, if one does. -/
  slots : Array (Option Instruction) := #[]
  /-- The byte address behind the last instruction. -/
  finish : Nat := 0
deriving DecidableEq, Inhabited

namespace Flash

/-- No instruction at all. -/
def empty : Flash := {}

/-- The instruction that starts at word `w`. -/
def at? (f : Flash) (w : Nat) : Option Instruction := f.slots[w]?.join

/-- The instruction at word `w` reaches into the next word. -/
def reaches (f : Flash) (w : Nat) : Bool := (f.at? w).any fun i => 2 < i.size

/-- One of the words of an instruction of `size` bytes at word `w` is taken. -/
def isTaken (f : Flash) (w size : Nat) : Bool :=
  ((List.range (size / 2)).any fun i => (f.at? (w + i)).isSome) || (0 < w && f.reaches (w - 1))

/-- Slots for at least `n` words. -/
def grow (slots : Array (Option Instruction)) (n : Nat) : Array (Option Instruction) :=
  slots ++ Array.replicate (n - slots.size) none

/-- Stores an instruction at a byte address, or says why it cannot be stored. The slots are there before
an overlap is noticed, so that an instruction that is refused may leave empty ones behind. -/
def put (f : Flash) (pc : Address) (i : Instruction) : Flash × Option PlaceError :=
  let w := pc.toNat / 2
  let slots := grow f.slots (w + i.size / 2)
  if pc.toNat % 2 = 1 then (f, some (.misaligned pc))
  else if flashSize < pc.toNat + i.size then (f, some (.pastEnd i pc))
  else if f.isTaken w i.size then ({ f with slots }, some (.overlap pc))
  else
    ({ slots := slots.setIfInBounds w (some i), finish := max f.finish (pc.toNat + i.size) }, none)

/-- The image with one more instruction. -/
def place (f : Flash) (pc : Address) (i : Instruction) : Except PlaceError Flash :=
  match f.put pc i with
  | (g, none) => .ok g
  | (_, some e) => .error e

/-- Stores a cell at a byte address. -/
def placeCell (f : Flash) (pc : Address) : Cell → Except PlaceError Flash
  | .instr i => f.place pc i
  | .reserved code =>
      if pc.toNat % 2 = 1 then .error (.misaligned pc) else .error (.uncatalogued code)

/-- The instruction that starts at a byte address. -/
def fetch (f : Flash) (pc : Address) : Except FetchError Instruction :=
  if f.finish ≤ pc.toNat then .error (.pastEnd pc f.finish)
  else if pc.toNat % 2 = 1 then .error (.unaligned pc)
  else
    match f.at? (pc.toNat / 2) with
    | some i => .ok i
    | none => .error (.unaligned pc)

/-- The address behind the instruction at `pc`, modulo the flash. -/
def next (f : Flash) (pc : Address) : Except FetchError Address :=
  (f.fetch pc).map fun i => pc + BitVec.ofNat 16 i.size

/-- All instructions with their addresses, in the order of addresses. -/
def toList (f : Flash) : List (Address × Instruction) :=
  f.slots.toList.zipIdx.filterMap fun (slot, w) => slot.map fun i => (BitVec.ofNat 16 (2 * w), i)

/-- The number of instructions. -/
def count (f : Flash) : Nat := (f.slots.toList.filter Option.isSome).length

/-- Places instructions one behind the other from `pc` on; those that cannot be placed are left out. -/
def placeAll (f : Flash) (pc : Address) : List Instruction → Flash
  | [] => f
  | i :: rest => placeAll (f.put pc i).1 (pc + BitVec.ofNat 16 i.size) rest

/-- A contiguous image from address 0. -/
def ofInstructions (is : List Instruction) : Flash := empty.placeAll 0#16 is

end Flash

end StackDepth
