import M3Dev.SwdWire
import Mathlib.Tactic.IntervalCases

/-! `revbits` and `parity`, which go over all bits of a word in five steps. -/
namespace M3Dev.Wire
open SerialBits

/-- In every group of `2 * s` bits one mask has the lower half and the other the upper half. -/
structure Halves (s : ℕ) (lo hi : Word) : Prop where
  low : ∀ i < 32, lo.getLsbD i = decide (i % (2 * s) < s)
  high : ∀ i < 32, hi.getLsbD i = !decide (i % (2 * s) < s)

theorem halves_1 : Halves 1 0x55555555#32 0xaaaaaaaa#32 := ⟨by decide, by decide⟩

theorem halves_2 : Halves 2 0x33333333#32 0xcccccccc#32 := ⟨by decide, by decide⟩

theorem halves_4 : Halves 4 0x0f0f0f0f#32 0xf0f0f0f0#32 := ⟨by decide, by decide⟩

theorem halves_8 : Halves 8 0x00ff00ff#32 0xff00ff00#32 := ⟨by decide, by decide⟩

theorem halves_16 : Halves 16 0x0000ffff#32 0xffff0000#32 := ⟨by decide, by decide⟩

variable {s : ℕ} {lo hi : Word}

/-- A step of `revbits` exchanges the halves of every group. -/
theorem Halves.exchange (h : Halves s lo hi) (n : Word) {i : ℕ} (hi32 : i < 32) :
    (((n >>> s) &&& lo) ||| ((n <<< s) &&& hi)).getLsbD i =
      if i % (2 * s) < s then n.getLsbD (s + i) else n.getLsbD (i - s) := by
  rw [BitVec.getLsbD_or, BitVec.getLsbD_and, BitVec.getLsbD_and, BitVec.getLsbD_ushiftRight,
    BitVec.getLsbD_shiftLeft, h.low i hi32, h.high i hi32]
  by_cases hs : i % (2 * s) < s
  · simp [hs]
  · have hge : ¬ i < s := fun hlt => hs (lt_of_le_of_lt (Nat.mod_le _ _) hlt)
    simp [hs, hge, hi32]

theorem getLsbD_revbits (n : Word) {i : ℕ} (hi : i < 32) :
    (M3Debug.revbits n).getLsbD i = n.getLsbD (31 - i) := by
  unfold M3Debug.revbits
  dsimp only
  interval_cases i
  all_goals
    simp (disch := decide) only [halves_16.exchange, halves_8.exchange, halves_4.exchange,
      halves_2.exchange, halves_1.exchange, Nat.reduceMod, Nat.reduceMul, Nat.reduceAdd,
      Nat.reduceSub, Nat.reduceLT, if_true, if_false]

/-- A step of `parity` adds the halves of every group. The lowest bit of each sum is the parity of
the two bits it comes from: the group below is too small for a carry. -/
theorem Halves.add (h : Halves s lo hi) (n : Word) (hs : 0 < s) {i : ℕ} (hi32 : s + i < 32)
    (hlowest : i % (2 * s) = 0) :
    ((n &&& lo) + ((n &&& hi) >>> s)).getLsbD i = (n.getLsbD i ^^ n.getLsbD (s + i)) := by
  have hmid : (s + i) % (2 * s) = s := by
    rw [Nat.add_mod, hlowest, Nat.add_zero, Nat.mod_mod, Nat.mod_eq_of_lt (by omega)]
  have hclear : i = 0 ∨ (n &&& lo).getLsbD (i - 1) = false ∧
      ((n &&& hi) >>> s).getLsbD (i - 1) = false := by
    rcases Nat.eq_zero_or_pos i with hzero | hpos
    · exact .inl hzero
    · right
      obtain ⟨q, rfl⟩ : ∃ q, i = 2 * s * (q + 1) := by
        obtain ⟨q, rfl⟩ := Nat.dvd_of_mod_eq_zero hlowest
        exact ⟨q - 1, by rw [Nat.sub_add_cancel (Nat.pos_of_mul_pos_left hpos)]⟩
      have hprev : 2 * s * (q + 1) - 1 = (2 * s - 1) + 2 * s * q := by
        rw [Nat.mul_succ]
        omega
      have hnext : s + (2 * s * (q + 1) - 1) = (s - 1) + 2 * s * (q + 1) := by omega
      have hlow : (2 * s * (q + 1) - 1) % (2 * s) = 2 * s - 1 := by
        rw [hprev, Nat.add_mul_mod_self_left, Nat.mod_eq_of_lt (by omega)]
      have hhigh : (s + (2 * s * (q + 1) - 1)) % (2 * s) = s - 1 := by
        rw [hnext, Nat.add_mul_mod_self_left, Nat.mod_eq_of_lt (by omega)]
      constructor
      · rw [BitVec.getLsbD_and, h.low _ (by omega), hlow]
        simp
        omega
      · rw [BitVec.getLsbD_ushiftRight, BitVec.getLsbD_and, h.high _ (by omega), hhigh]
        simp
        omega
  rw [getLsbD_add_clear (by omega) hclear, BitVec.getLsbD_and, BitVec.getLsbD_ushiftRight,
    BitVec.getLsbD_and, h.low _ (by omega), h.high _ hi32, hlowest, hmid]
  simp [hs]

theorem parity_bit (n : Word) : (M3Debug.parity n).getLsbD 0 = oddOnes (lsbFirst 32 n) := by
  unfold M3Debug.parity
  dsimp only
  rw [BitVec.getLsbD_and]
  simp (disch := decide) only [halves_16.add, halves_8.add, halves_4.add, halves_2.add,
    halves_1.add, Nat.reduceAdd]
  simp [oddOnes, lsbFirst, List.range_succ]

theorem parity_above (n : Word) {i : ℕ} (hi : 0 < i) : (M3Debug.parity n).getLsbD i = false := by
  have hone : (1#32).getLsbD i = false := by
    have hne : i ≠ 0 := Nat.ne_of_gt hi
    simp [hne]
  unfold M3Debug.parity
  rw [BitVec.getLsbD_and]
  exact Bool.and_eq_false_imp.mpr fun _ => hone

end M3Dev.Wire
