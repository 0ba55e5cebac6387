import Mathlib.Algebra.BigOperators.Group.Finset.Basic
import Mathlib.Algebra.BigOperators.Fin
import Mathlib.Tactic.Ring
import Mathlib.Data.Nat.Bitwise

/-! The bits of a word in the order in which they are sent. -/
namespace M3Dev.SerialBits
open Finset
variable {w : ℕ}

/-- The low `k` bits of a word, the most significant one first. -/
def msbFirst (k : ℕ) (n : BitVec w) : List Bool := (List.range k).map fun i => n.getLsbD (k - 1 - i)

/-- The low `k` bits of a word, the least significant one first. -/
def lsbFirst (k : ℕ) (n : BitVec w) : List Bool := (List.range k).map n.getLsbD

/-- The word that comes in with its most significant bit first. -/
def ofMsbFirst (w : ℕ) (bits : List Bool) : BitVec w := (BitVec.ofBoolListBE bits).setWidth w

/-- The word that comes in with its least significant bit first. -/
def ofLsbFirst (w : ℕ) (bits : List Bool) : BitVec w := (BitVec.ofBoolListLE bits).setWidth w

/-- Whether an odd number of the bits are set. -/
def oddOnes (bits : List Bool) : Bool := bits.foldl xor false

theorem getLsbD_ofMsbFirst (bits : List Bool) {i : ℕ} (hi : i < bits.length) (hw : i < w) :
    (ofMsbFirst w bits).getLsbD i = bits.getD (bits.length - 1 - i) false := by
  rw [ofMsbFirst, BitVec.getLsbD_setWidth, BitVec.getLsbD_ofBoolListBE]
  simp only [hi, hw, decide_true, Bool.true_and]

theorem getLsbD_ofMsbFirst_eq_false (bits : List Bool) {i : ℕ} (hi : bits.length ≤ i) :
    (ofMsbFirst w bits).getLsbD i = false := by
  have hge : ¬ i < bits.length := Nat.not_lt.mpr hi
  simp [ofMsbFirst, hge]

theorem getLsbD_ofLsbFirst {bits : List Bool} {i : ℕ} (hw : i < w) :
    (ofLsbFirst w bits).getLsbD i = bits.getD i false := by
  rw [ofLsbFirst, BitVec.getLsbD_setWidth, BitVec.getLsbD_ofBoolListLE]
  simp only [hw, decide_true, Bool.true_and]

theorem ofLsbFirst_cons (b : Bool) (bits : List Bool) :
    ofLsbFirst w (b :: bits) = (BitVec.ofBool b).setWidth w ||| (ofLsbFirst w bits <<< 1) := by
  apply BitVec.eq_of_getLsbD_eq
  intro i hi
  rw [getLsbD_ofLsbFirst hi, BitVec.getLsbD_or, BitVec.getLsbD_shiftLeft, BitVec.getLsbD_setWidth]
  cases i with
  | zero => simp [hi]
  | succ i => simp [hi, getLsbD_ofLsbFirst (Nat.lt_of_succ_lt hi)]

theorem lsbFirst_cons (k : ℕ) (n : BitVec w) :
    lsbFirst (k + 1) n = n.getLsbD 0 :: lsbFirst k (n >>> 1) := by
  rw [lsbFirst, List.range_succ_eq_map, List.map_cons, List.map_map]
  congr 1
  apply List.map_congr_left
  intro i _
  show n.getLsbD (i + 1) = (n >>> 1).getLsbD i
  rw [BitVec.getLsbD_ushiftRight, Nat.add_comm]

/-- A number is the sum of its bits, each with its weight. -/
theorem mod_eq_sum (n k : ℕ) : n % 2 ^ k = ∑ i ∈ range k, (n.testBit i).toNat * 2 ^ i := by
  induction k with
  | zero => simp [Nat.mod_one]
  | succ k ih =>
    have hbit : (n.testBit k).toNat = n / 2 ^ k % 2 := Nat.toNat_testBit n k
    rw [sum_range_succ, ← ih, hbit, pow_succ, Nat.mod_mul]
    ring

theorem toNat_eq_sum (n : BitVec w) : n.toNat = ∑ i ∈ range w, (n.getLsbD i).toNat * 2 ^ i := by
  calc n.toNat = n.toNat % 2 ^ w := (Nat.mod_eq_of_lt n.isLt).symm
    _ = ∑ i ∈ range w, (n.getLsbD i).toNat * 2 ^ i := mod_eq_sum n.toNat w

theorem toNat_ofLsbFirst_ofFn (bit : Fin w → Bool) :
    (ofLsbFirst w (List.ofFn bit)).toNat = ∑ i : Fin w, (bit i).toNat * 2 ^ i.val := by
  rw [toNat_eq_sum, sum_range]
  apply sum_congr rfl
  intro i _
  rw [getLsbD_ofLsbFirst i.isLt]
  simp

/-- Where both summands have a clear bit just below, no carry comes in. -/
theorem getLsbD_add_clear {x y : BitVec w} {i : ℕ} (hi : i < w)
    (hbelow : i = 0 ∨ x.getLsbD (i - 1) = false ∧ y.getLsbD (i - 1) = false) :
    (x + y).getLsbD i = (x.getLsbD i ^^ y.getLsbD i) := by
  have hcarry : BitVec.carry i x y false = false := by
    rcases hbelow with rfl | ⟨hx, hy⟩
    · exact BitVec.carry_zero
    · cases i with
      | zero => exact BitVec.carry_zero
      | succ i =>
        rw [Nat.add_sub_cancel] at hx hy
        rw [BitVec.carry_succ, hx, hy]
        rfl
  rw [BitVec.getLsbD_add hi, hcarry, Bool.xor_false]

end M3Dev.SerialBits
