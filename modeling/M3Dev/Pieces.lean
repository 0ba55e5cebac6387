import Mathlib.Data.List.Basic

/-! A list cut into pieces of one length, the last of which may be shorter. -/
namespace M3Dev.Pieces
variable {α : Type*} {n : ℕ} {xs : List α}

def pieces (n : ℕ) (xs : List α) : List (List α) :=
  (List.range ((xs.length + (n - 1)) / n)).map fun i => (xs.drop (n * i)).take n

theorem pieces_nil (hn : 0 < n) : pieces n ([] : List α) = [] := by
  have hnone : ([] : List α).length + (n - 1) < n := by
    rw [List.length_nil]
    omega
  rw [pieces, Nat.div_eq_of_lt hnone]
  rfl

/-- The first piece, and the pieces of what is behind it. -/
theorem pieces_cons (hn : 0 < n) (hxs : xs ≠ []) :
    pieces n xs = xs.take n :: pieces n (xs.drop n) := by
  have hlen : 0 < xs.length := List.length_pos_iff.mpr hxs
  have hcount : (xs.length + (n - 1)) / n = ((xs.drop n).length + (n - 1)) / n + 1 := by
    rw [List.length_drop]
    by_cases hlong : n ≤ xs.length
    · have hsum : xs.length + (n - 1) = xs.length - n + (n - 1) + n := by omega
      rw [hsum, Nat.add_div_right _ hn]
    · have hleft : xs.length - n = 0 := by omega
      rw [hleft, Nat.zero_add, Nat.div_eq_of_lt (by omega : n - 1 < n)]
      apply Nat.div_eq_of_lt_le
      · omega
      · omega
  rw [pieces, pieces, hcount, List.range_succ_eq_map, List.map_cons, List.map_map]
  apply congrArg₂ List.cons
  · rw [Nat.mul_zero, List.drop_zero]
  · apply List.map_congr_left
    intro i _
    have hplace : n + n * i = n * (i + 1) := by rw [Nat.mul_succ, Nat.add_comm]
    rw [List.drop_drop, hplace]
    rfl

/-- Whole pieces stay what they are. -/
theorem pieces_append (hn : 0 < n) {ps : List (List α)} (hps : ∀ p ∈ ps, p.length = n) (xs : List α) :
    pieces n (ps.flatten ++ xs) = ps ++ pieces n xs := by
  induction ps with
  | nil => rfl
  | cons p ps ih =>
    have hp : p.length = n := hps p (List.mem_cons_self ..)
    have hne : (p :: ps).flatten ++ xs ≠ [] := by
      intro hnil
      have hlen := congrArg List.length hnil
      rw [List.flatten_cons, List.append_assoc, List.length_append, List.length_nil] at hlen
      omega
    rw [pieces_cons hn hne, List.flatten_cons, List.append_assoc, List.take_left' hp, List.drop_left' hp,
      ih fun q hq => hps q (List.mem_cons_of_mem p hq)]
    rfl

theorem pieces_short (hxs : xs ≠ []) (hlen : xs.length ≤ n) : pieces n xs = [xs] := by
  have hn : 0 < n := Nat.lt_of_lt_of_le (List.length_pos_iff.mpr hxs) hlen
  rw [pieces_cons hn hxs, List.take_of_length_le hlen, List.drop_of_length_le hlen, pieces_nil hn]

theorem length_le_of_mem {p : List α} (hp : p ∈ pieces n xs) : p.length ≤ n := by
  obtain ⟨i, _, rfl⟩ := List.mem_map.mp hp
  exact List.length_take_le _ _

theorem flatten_pieces (hn : 0 < n) (xs : List α) : (pieces n xs).flatten = xs := by
  induction hlen : xs.length using Nat.strongRecOn generalizing xs with
  | ind k ih =>
    by_cases hxs : xs = []
    · rw [hxs, pieces_nil hn]
      rfl
    · have hpos : 0 < xs.length := List.length_pos_iff.mpr hxs
      have hrest : (pieces n (xs.drop n)).flatten = xs.drop n := by
        apply ih (xs.drop n).length _ _ rfl
        rw [List.length_drop]
        omega
      rw [pieces_cons hn hxs, List.flatten_cons, hrest, List.take_append_drop]

end M3Dev.Pieces
