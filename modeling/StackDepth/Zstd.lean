/-!
# Zstandard frames

Bytes are stored in a Zstandard frame without being made smaller: the frame is a header and raw blocks of at
most 128 KiB, of which the last one is marked. Every reader of the format accepts such a frame.

* `Zstd.frame` makes a frame;
* `Zstd.contents?` gives back the bytes of a frame of raw blocks.
-/

namespace StackDepth

namespace Zstd

/-- The largest block, which is also the window that the header announces. -/
def blockSize : Nat := 131072

/-- The bytes that begin a frame: four that tell the format, one for a frame without checksum and without
size, and one for the window. -/
def header : List UInt8 := [0x28, 0xB5, 0x2F, 0xFD, 0x00, 0x38]

/-- The three bytes in front of a raw block. -/
def blockHeader (last : Bool) (size : Nat) : List UInt8 :=
  let n := size * 8 + if last then 1 else 0
  [UInt8.ofNat n, UInt8.ofNat (n / 256), UInt8.ofNat (n / 65536)]

/-- How many blocks a number of bytes needs; no bytes need a block too. -/
def blockCount (size : Nat) : Nat := (size - 1) / blockSize + 1

/-- The block with a number. -/
def block (bytes : ByteArray) (k : Nat) : ByteArray :=
  let start := k * blockSize
  let stop := min bytes.size (start + blockSize)
  ⟨(blockHeader (k + 1 == blockCount bytes.size) (stop - start)).toArray⟩ ++ bytes.extract start stop

/-- The frame of a number of bytes. -/
def frame (bytes : ByteArray) : ByteArray :=
  (List.range (blockCount bytes.size)).foldl (fun acc k => acc ++ block bytes k) ⟨header.toArray⟩

/-! ### Reading -/

/-- The byte at an index, zero behind the end. -/
def byteAt (bytes : ByteArray) (i : Nat) : Nat := (bytes.data.getD i 0).toNat

/-- What the three bytes in front of a block say: whether it is the last, its kind, and its size. -/
def readBlockHeader (bytes : ByteArray) (i : Nat) : Bool × Nat × Nat :=
  let n := byteAt bytes i + byteAt bytes (i + 1) * 256 + byteAt bytes (i + 2) * 65536
  (n % 2 == 1, n / 2 % 4, n / 8)

/-- The bytes of the raw blocks from an index on, behind those read so far. The last block ends the
frame. -/
def readBlocks? (bytes : ByteArray) (i : Nat) (found : ByteArray) : Option ByteArray :=
  if _h : bytes.size < i + 3 then none
  else
    let (last, kind, size) := readBlockHeader bytes i
    let stop := i + 3 + size
    if kind ≠ 0 || bytes.size < stop then none
    else
      let found := found ++ bytes.extract (i + 3) stop
      if last then if stop = bytes.size then some found else none
      else readBlocks? bytes stop found
termination_by bytes.size + 1 - i

/-- The bytes that a frame holds. Too few bytes to tell the format hold nothing. -/
def contents? (bytes : ByteArray) : Option ByteArray :=
  if bytes.size < 4 then some ByteArray.empty
  else if header.isPrefixOf bytes.data.toList then readBlocks? bytes header.length ByteArray.empty
  else none

end Zstd

end StackDepth
