import StackDepth.Tribyte.Basic

/-!
# Eight letters for a byte

A three-valued byte is written as eight letters, most significant bit first: `0`, `1`, and a dot for
an unknown bit. Reading accepts exactly eight of these letters and gives a canonical value.
-/

namespace StackDepth

namespace Tribyte

/-- The letter of a single-bit value. -/
def letter (b : Tribyte) : Char := if b = yes then '1' else if b = no then '0' else '.'

/-- The letters from bit 7 down to bit 0. -/
def letters (v : Tribyte) : List Char := [7, 6, 5, 4, 3, 2, 1, 0].map fun n => letter (v.bit n)

/-- The eight letters as text. -/
def render (v : Tribyte) : String := String.ofList v.letters

/-- The single-bit value of a letter. -/
def ofLetter? : Char → Option Tribyte
  | '0' => some no
  | '1' => some yes
  | '.' => some unknown
  | _ => none

/-- Reads eight letters, most significant first. -/
def parse? (s : String) : Option Tribyte :=
  if s.length = 8 then
    s.toList.foldlM (fun v c => (ofLetter? c).map v.shiftLeft) unknown
  else none

end Tribyte

end StackDepth
