import Mathlib
import StackDepth.Report.Distribution

/-!
# What a distribution counts

A distribution that is recorded sample by sample has the number of the samples, their sum and the number
of times each of them occurs, up to the wrap-around of words of 64 bits.

* `Distribution.lookup_put`: the entry of a key after another one was put;
* `Distribution.tallies_ofSamples`: the numbers of the distribution of a list of samples.
-/

namespace StackDepth

theorem wrap64_add (a b : Int) : wrap64 (wrap64 a + b) = wrap64 (a + b) :=
  Int.bmod_add_bmod

theorem wrap64_zero : wrap64 0 = 0 := by decide

/-- A count that fits a word of 64 bits does not wrap around. -/
theorem wrap64_natCast {n : Nat} (h : n < 2 ^ 63) : wrap64 n = n :=
  Int.bmod_eq_of_le (by omega) (by omega)

namespace Distribution

/-- An entry is found where it was put, and the others stay. -/
theorem lookup_put (entries : List (Int × Int)) (key value sample : Int) :
    (put key value entries).lookup sample =
      if sample = key then some value else entries.lookup sample := by
  have hcons : ∀ (k v : Int) (rest : List (Int × Int)), ((k, v) :: rest).lookup sample =
      if sample = k then some v else rest.lookup sample := by
    intro k v rest
    rw [List.lookup_cons]
    by_cases hk : sample = k
    · simp [hk]
    · rw [beq_eq_false_iff_ne.mpr hk, if_neg hk]
  induction entries with
  | nil => rw [put, hcons]
  | cons q rest ih =>
    obtain ⟨k, v⟩ := q
    rw [put, hcons]
    split
    · rw [hcons, hcons]
    · split
      · next heq =>
        subst heq
        rw [hcons]
        split <;> rfl
      · next hne =>
        rw [hcons, ih]
        by_cases hk : sample = k
        · rw [if_pos hk, if_neg (fun h => hne (h.symm.trans hk)), if_pos hk]
        · rw [if_neg hk, if_neg hk]

/-- The numbers of a distribution are those of a list of samples, up to wrapping around. -/
structure Tallies (d : Distribution) (samples : List Int) : Prop where
  /-- The number of samples. -/
  count : d.count = wrap64 samples.length
  /-- Their sum. -/
  total : d.total = wrap64 samples.sum
  /-- How often each value occurs. -/
  countOf : ∀ v, d.countOf v = wrap64 (samples.count v)

theorem Tallies.record {d : Distribution} {samples : List Int} (h : d.Tallies samples) (v : Int) :
    (d.record v).Tallies (samples ++ [v]) where
  count := by
    rw [Distribution.record, h.count, wrap64_add, List.length_append, List.length_singleton]
    push_cast
    rfl
  total := by
    rw [Distribution.record, h.total, wrap64_add, List.sum_append, List.sum_singleton]
  countOf w := by
    have hput : (d.record v).countOf w =
        ((put v (wrap64 (d.countOf v + 1)) d.buckets).lookup w).getD 0 := rfl
    rw [hput, lookup_put, List.count_append]
    by_cases hw : w = v
    · subst hw
      rw [if_pos rfl, Option.getD_some, h.countOf, wrap64_add, List.count_singleton_self]
      push_cast
      rfl
    · have hcount : List.count w [v] = 0 := List.count_eq_zero.mpr (by simpa using hw)
      rw [if_neg hw, hcount, Nat.add_zero]
      exact h.countOf w

/-- The distribution of a list of samples. -/
theorem tallies_ofSamples (name : String) (samples : List Int) :
    (ofSamples name samples).Tallies samples := by
  have hempty : (empty name).Tallies [] :=
    ⟨wrap64_zero.symm, wrap64_zero.symm, fun _ => wrap64_zero.symm⟩
  -- the samples recorded so far are carried along
  have hfold : ∀ (rest before : List Int) (d : Distribution), d.Tallies before →
      (rest.foldl Distribution.record d).Tallies (before ++ rest) := by
    intro rest
    induction rest with
    | nil =>
      intro before d hd
      rwa [List.append_nil]
    | cons v rest ih =>
      intro before d hd
      have hnext := ih (before ++ [v]) (d.record v) (hd.record v)
      rwa [List.append_assoc] at hnext
  exact hfold samples [] (empty name) hempty

end Distribution

end StackDepth
