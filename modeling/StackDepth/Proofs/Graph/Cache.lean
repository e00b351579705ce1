import Mathlib
import StackDepth.Analysis.Propagation
import StackDepth.Proofs.Tribyte.Cover

/-!
# Interned states are distinct

The key of a state is a number in base 2^16 whose digits are the words of the state, so equal keys
mean equal states. A cache is faithful if looking a state up gives exactly the number under which it is
stored. A faithful cache stores every state once and therefore no more states than there are keys.

Main statements:

* `State.key_injective` and `State.key_lt`;
* `Cache.Faithful.push`: adding a new state keeps a cache faithful;
* `Cache.Faithful.size_le`: the number of states is bounded.
-/

namespace StackDepth

/-! ### Keys -/

/-- The number with these digits, most significant first. -/
def digitsValue (ws : List (BitVec 16)) : Nat := ws.foldl (fun n w => n * 65536 + w.toNat) 0

theorem foldl_digits (ws : List (BitVec 16)) :
    ∀ n, ws.foldl (fun n w => n * 65536 + w.toNat) n = n * 65536 ^ ws.length + digitsValue ws := by
  induction ws with
  | nil =>
    intro n
    simp [digitsValue]
  | cons w ws ih =>
    intro n
    have hw := ih (0 * 65536 + w.toNat)
    rw [digitsValue, List.foldl_cons, List.foldl_cons, ih, hw, List.length_cons, pow_succ]
    ring

theorem digitsValue_cons (w : BitVec 16) (ws : List (BitVec 16)) :
    digitsValue (w :: ws) = w.toNat * 65536 ^ ws.length + digitsValue ws := by
  rw [digitsValue, List.foldl_cons, foldl_digits]
  simp

theorem digitsValue_lt (ws : List (BitVec 16)) : digitsValue ws < 65536 ^ ws.length := by
  induction ws with
  | nil => simp [digitsValue]
  | cons w ws ih =>
    rw [digitsValue_cons, List.length_cons, pow_succ]
    have hw : w.toNat + 1 ≤ 65536 := w.isLt
    calc w.toNat * 65536 ^ ws.length + digitsValue ws
        < w.toNat * 65536 ^ ws.length + 65536 ^ ws.length := by omega
      _ = (w.toNat + 1) * 65536 ^ ws.length := by ring
      _ ≤ 65536 * 65536 ^ ws.length := Nat.mul_le_mul_right _ hw
      _ = 65536 ^ ws.length * 65536 := Nat.mul_comm _ _

theorem digitsValue_injective {ws vs : List (BitVec 16)} (hlen : ws.length = vs.length)
    (h : digitsValue ws = digitsValue vs) : ws = vs := by
  induction ws generalizing vs with
  | nil => exact (List.length_eq_zero_iff.mp hlen.symm).symm
  | cons w ws ih =>
    cases vs with
    | nil => simp at hlen
    | cons v vs =>
      have hlen' : ws.length = vs.length := by simpa using hlen
      rw [digitsValue_cons, digitsValue_cons, hlen'] at h
      have hws := digitsValue_lt ws
      have hvs := digitsValue_lt vs
      rw [hlen'] at hws
      -- the first digit is the quotient and the rest the remainder
      have hdiv : ∀ {q r : Nat}, r < 65536 ^ vs.length →
          (q * 65536 ^ vs.length + r) / 65536 ^ vs.length = q := by
        intro q r hr
        rw [Nat.mul_comm, Nat.mul_add_div (by positivity), Nat.div_eq_of_lt hr, Nat.add_zero]
      have hhead : w.toNat = v.toNat := by rw [← hdiv (q := w.toNat) hws, h, hdiv hvs]
      rw [hhead] at h
      rw [BitVec.eq_of_toNat_eq hhead, ih hlen' (by omega)]

namespace Tribyte

theorem ofWord_toWord (v : Tribyte) : ofWord v.toWord = v := by
  refine Tribyte.ext ?_ ?_
  · refine BitVec.eq_of_getLsbD_eq fun i hi => ?_
    rw [known_ofWord _ hi, getLsbD_toWord, if_neg (by omega), Nat.add_sub_cancel_left]
  · refine BitVec.eq_of_getLsbD_eq fun i hi => ?_
    rw [held_ofWord _ hi, getLsbD_toWord, if_pos hi]

theorem toWord_injective {v w : Tribyte} (h : v.toWord = w.toWord) : v = w := by
  rw [← ofWord_toWord v, h, ofWord_toWord]

end Tribyte

namespace State

theorem words_length (s : State) : s.words.length = 36 := by
  simp [words, registerCount]

theorem words_injective {s t : State} (h : s.words = t.words) : s = t := by
  simp only [words, List.cons.injEq] at h
  obtain ⟨hpc, hsreg, heimsk, htimsk, hregs⟩ := h
  have hlist : s.regs.toList = t.regs.toList :=
    List.map_injective_iff.mpr (fun _ _ => Tribyte.toWord_injective) hregs
  exact State.ext hpc (Tribyte.toWord_injective hsreg) (Tribyte.toWord_injective heimsk)
    (Tribyte.toWord_injective htimsk) (Vector.toList_inj.mp hlist)

theorem key_injective {s t : State} (h : s.key = t.key) : s = t :=
  words_injective (digitsValue_injective (by rw [words_length, words_length]) h)

theorem key_lt (s : State) : s.key < stateBound := by
  have h := digitsValue_lt s.words
  rw [words_length] at h
  have hbound : 65536 ^ 36 = stateBound := by decide +kernel
  exact lt_of_lt_of_eq h hbound

end State

/-! ### Faithful caches -/

namespace Cache

/-- Looking a state up gives exactly the number under which it is stored. -/
def Faithful (c : Cache) : Prop := ∀ s id, c.find? s = some id ↔ c.state? id = some s

theorem faithful_empty : ({} : Cache).Faithful := by
  intro s id
  simp [find?, state?]

theorem state?_push (c : Cache) (s : State) (id : Nat) :
    (c.push s).state? id = if id = c.size then some s else c.state? id := by
  exact Array.getElem?_push

theorem size_push (c : Cache) (s : State) : (c.push s).size = c.size + 1 := by
  simp [push, size]

theorem state?_eq_none {c : Cache} {id : Nat} (h : c.size ≤ id) : c.state? id = none :=
  Array.getElem?_eq_none h

theorem find?_push (c : Cache) (s t : State) :
    (c.push s).find? t = if s = t then some c.size else c.find? t := by
  simp only [push, find?, Std.TreeMap.getElem?_insert, Std.LawfulEqCmp.compare_eq_iff_eq]
  by_cases h : s = t
  · rw [if_pos h, if_pos (by rw [h])]
  · rw [if_neg h, if_neg (fun hkey => h (State.key_injective hkey))]

theorem Faithful.push {c : Cache} (h : c.Faithful) {s : State} (hs : c.find? s = none) :
    (c.push s).Faithful := by
  intro t id
  rw [find?_push, state?_push]
  by_cases hst : s = t
  · subst hst
    rw [if_pos rfl]
    by_cases hid : id = c.size
    · simp [hid]
    · rw [if_neg hid, ← h s id, hs]
      simp [Ne.symm hid]
  · rw [if_neg hst]
    by_cases hid : id = c.size
    · rw [if_pos hid, h t id, state?_eq_none hid.ge]
      simp [hst]
    · rw [if_neg hid]
      exact h t id

/-- Different numbers stand for different states. -/
theorem Faithful.injective {c : Cache} (h : c.Faithful) {i j : Nat} {s : State}
    (hi : c.state? i = some s) (hj : c.state? j = some s) : i = j := by
  rw [← h] at hi hj
  exact Option.some.inj (hi.symm.trans hj)

theorem Faithful.size_le {c : Cache} (h : c.Faithful) : c.size ≤ stateBound := by
  have hinj : Function.Injective
      (fun i : Fin c.size => (⟨(c.states[i]).key, State.key_lt _⟩ : Fin stateBound)) := by
    intro i j hij
    have hstate : c.states[i] = c.states[j] := State.key_injective (Fin.mk.inj_iff.mp hij)
    have hi : c.state? i = some c.states[i] := Array.getElem?_eq_getElem i.isLt
    have hj : c.state? j = some c.states[i] := by
      rw [hstate]
      exact Array.getElem?_eq_getElem j.isLt
    exact Fin.ext (h.injective hi hj)
  simpa using Fintype.card_le_of_injective _ hinj

end Cache

end StackDepth
