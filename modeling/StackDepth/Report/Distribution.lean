import StackDepth.Binary64
import StackDepth.Instruction.Basic

/-!
# Distributions

A distribution is a histogram of integer samples with their number, sum and extremes. All numbers are
signed words of 64 bits, so that a sum may wrap around. The histogram is kept in increasing order of the
samples; a distribution that was read from a file may lack it.
-/

namespace StackDepth

/-- A histogram of integer samples. -/
@[ext]
structure Distribution where
  /-- What the samples are. -/
  name : String := ""
  /-- How often each sample occurred, in increasing order of the samples. -/
  counts : Option (List (Int × Int)) := none
  /-- The number of samples. -/
  count : Int := 0
  /-- The sum of the samples. -/
  total : Int := 0
  /-- The smallest sample. -/
  least : Int := 0
  /-- The largest sample. -/
  greatest : Int := 0
deriving DecidableEq, Inhabited

namespace Distribution

/-- No sample. -/
def empty (name : String) : Distribution := { name, counts := some [] }

/-- Sets the entry of a key in a list with increasing keys. -/
def put (key value : Int) : List (Int × Int) → List (Int × Int)
  | [] => [(key, value)]
  | (k, v) :: rest =>
      if key < k then (key, value) :: (k, v) :: rest
      else if key = k then (key, value) :: rest
      else (k, v) :: put key value rest

/-- The samples with their counts, in increasing order. -/
def buckets (d : Distribution) : List (Int × Int) := d.counts.getD []

/-- How often a sample occurred. -/
def countOf (d : Distribution) (sample : Int) : Int := (d.buckets.lookup sample).getD 0

/-- Adds one sample. -/
def record (d : Distribution) (sample : Int) : Distribution :=
  { d with
    counts := some (put sample (wrap64 (d.countOf sample + 1)) d.buckets)
    count := wrap64 (d.count + 1)
    total := wrap64 (d.total + sample)
    least := if d.count = 0 ∨ sample < d.least then sample else d.least
    greatest := if d.count = 0 ∨ d.greatest < sample then sample else d.greatest }

/-- The number of different samples. -/
def size (d : Distribution) : Nat := d.buckets.length

/-- The average sample, zero if there is none. -/
def mean (d : Distribution) : Binary64 :=
  if d.count = 0 then {} else (Binary64.ofInt d.total).div (.ofInt d.count)

/-- The average sample with a fixed number of places. -/
def meanText (d : Distribution) (places : Nat) : String := d.mean.fixed places

/-- The distribution of a list of samples. -/
def ofSamples (name : String) (samples : List Int) : Distribution :=
  samples.foldl record (empty name)

end Distribution

end StackDepth
