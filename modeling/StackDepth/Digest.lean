/-!
# Digests

A text is condensed into 64 bits by xxHash64 with seed 0, so that two long texts can be compared by
their digests. Four accumulators take stripes of 32 bytes, eight bytes each; the rest of the text is
mixed in by words of eight and of four bytes and at last byte by byte. Words have their first byte
lowest.
-/

namespace StackDepth

namespace Digest

/-- The first multiplier. -/
def prime1 : UInt64 := 0x9E3779B185EBCA87

/-- The second multiplier. -/
def prime2 : UInt64 := 0xC2B2AE3D27D4EB4F

/-- The third multiplier. -/
def prime3 : UInt64 := 0x165667B19E3779F9

/-- The fourth multiplier. -/
def prime4 : UInt64 := 0x85EBCA77C2B2AE63

/-- The fifth multiplier. -/
def prime5 : UInt64 := 0x27D4EB2F165667C5

/-- The word turned to the left by `n` bits, where `0 < n < 64`. -/
def turn (w n : UInt64) : UInt64 := (w <<< n) ||| (w >>> (64 - n))

/-- The word whose bytes, lowest first, are those of the list. -/
def word : List UInt8 → UInt64
  | [] => 0
  | b :: bs => b.toUInt64 ||| (word bs <<< 8)

/-- Mixes a word into an accumulator. -/
def mix (acc w : UInt64) : UInt64 := turn (acc + w * prime2) 31 * prime1

/-- The four accumulators. -/
structure Lanes where
  /-- Takes the first word of a stripe. -/
  a : UInt64
  /-- Takes the second word. -/
  b : UInt64
  /-- Takes the third word. -/
  c : UInt64
  /-- Takes the fourth word. -/
  d : UInt64
deriving DecidableEq, Inhabited

/-- The accumulators before the first stripe. -/
def Lanes.start : Lanes := ⟨prime1 + prime2, prime2, 0, 0 - prime1⟩

/-- Mixes a stripe into the accumulators. -/
def Lanes.absorb (l : Lanes) (bytes : List UInt8) : Lanes :=
  ⟨mix l.a (word (bytes.take 8)), mix l.b (word ((bytes.drop 8).take 8)),
    mix l.c (word ((bytes.drop 16).take 8)), mix l.d (word ((bytes.drop 24).take 8))⟩

/-- Mixes an accumulator into the digest. -/
def join (h lane : UInt64) : UInt64 := (h ^^^ mix 0 lane) * prime1 + prime4

/-- The digest of the accumulators. -/
def Lanes.condense (l : Lanes) : UInt64 :=
  join (join (join (join (turn l.a 1 + turn l.b 7 + turn l.c 12 + turn l.d 18) l.a) l.b) l.c) l.d

/-- Absorbs `n` stripes, giving the accumulators and the rest. -/
def stripes : Nat → List UInt8 → Lanes → Lanes × List UInt8
  | 0, bytes, l => (l, bytes)
  | n + 1, bytes, l => stripes n (bytes.drop 32) (l.absorb bytes)

/-- Mixes in `n` words of eight bytes. -/
def eights : Nat → List UInt8 → UInt64 → UInt64 × List UInt8
  | 0, bytes, h => (h, bytes)
  | n + 1, bytes, h =>
      eights n (bytes.drop 8) (turn (h ^^^ mix 0 (word (bytes.take 8))) 27 * prime1 + prime4)

/-- Mixes in a word of four bytes if there are four. -/
def four (bytes : List UInt8) (h : UInt64) : UInt64 × List UInt8 :=
  if 4 ≤ bytes.length then
    (turn (h ^^^ (word (bytes.take 4) * prime1)) 23 * prime2 + prime3, bytes.drop 4)
  else (h, bytes)

/-- Mixes in single bytes. -/
def singles (bytes : List UInt8) (h : UInt64) : UInt64 :=
  bytes.foldl (fun h b => turn (h ^^^ (b.toUInt64 * prime5)) 11 * prime1) h

/-- Spreads every bit over the whole digest. -/
def spread (h : UInt64) : UInt64 :=
  let h := (h ^^^ (h >>> 33)) * prime2
  let h := (h ^^^ (h >>> 29)) * prime3
  h ^^^ (h >>> 32)

/-- The digest of a list of bytes. -/
def ofBytes (bytes : List UInt8) : UInt64 :=
  let n := bytes.length
  let (l, rest) := stripes (n / 32) bytes .start
  let h := (if 32 ≤ n then l.condense else prime5) + UInt64.ofNat n
  let (h, rest) := eights (rest.length / 8) rest h
  let (h, rest) := four rest h
  spread (singles rest h)

/-- The digest of a text. -/
def ofString (s : String) : UInt64 := ofBytes s.toUTF8.toList

end Digest

end StackDepth
