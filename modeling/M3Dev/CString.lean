import M3Dev.Machine
import Mathlib.Data.List.TakeWhile

/-! The text of a C string, up to its first NUL. -/
namespace M3Dev

theorem text_append_nul (t u : List Byte) : text (t ++ 0 :: u) = text t := by
  induction t with
  | nil => rfl
  | cons c t ih =>
    rw [text, text, List.cons_append, List.takeWhile_cons, List.takeWhile_cons]
    by_cases hc : c ≠ 0
    · rw [if_pos (decide_eq_true hc), if_pos (decide_eq_true hc)]
      exact congrArg (c :: ·) ih
    · rw [if_neg (by simpa using hc), if_neg (by simpa using hc)]

/-- Zeros behind a text are no part of it. -/
theorem text_append_zeros (t : List Byte) (k : ℕ) : text (t ++ List.replicate k 0) = text t := by
  cases k with
  | zero => rw [List.replicate_zero, List.append_nil]
  | succ k => exact text_append_nul t _

theorem text_length_le (t : List Byte) : (text t).length ≤ t.length :=
  (List.takeWhile_sublist _).length_le

theorem nul_not_mem_text (t : List Byte) : 0 ∉ text t := by
  intro h
  have hne := List.mem_takeWhile_imp h
  simp at hne

theorem text_eq_self {t : List Byte} (h : 0 ∉ t) : text t = t := by
  apply List.takeWhile_eq_self_iff.mpr
  intro c hc
  apply decide_eq_true
  rintro rfl
  exact h hc

end M3Dev
