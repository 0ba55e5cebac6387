import Mathlib.Data.Nat.Notation
import Mathlib.Tactic.TypeStar

/-! The runs of a list: its longest stretches without an element that separates. -/
namespace M3Dev.MaximalRuns
variable {α : Type*} {sep : α → Bool}

/-- The longest nonempty stretches without a separating element, in order. -/
def runs (sep : α → Bool) (l : List α) : List (List α) := (l.splitOnP sep).filter (!·.isEmpty)

@[simp] theorem runs_nil : runs sep [] = [] := by simp [runs]

theorem runs_cons_sep {c : α} (hc : sep c) (l : List α) : runs sep (c :: l) = runs sep l := by
  simp [runs, List.splitOnP_cons_eq_if_modifyHead, hc]

/-- Elements that do not separate are one run. -/
theorem runs_run {w : List α} (hw : w ≠ []) (hall : ∀ c ∈ w, sep c = false) :
    runs sep w = [w] := by
  simp [runs, List.splitOnP_eq_singleton hall, hw]

/-- A run ends with the first element that separates. -/
theorem runs_run_sep {w : List α} (hw : w ≠ []) (hall : ∀ c ∈ w, sep c = false) {c : α}
    (hc : sep c) (l : List α) : runs sep (w ++ c :: l) = w :: runs sep l := by
  simp [runs, List.splitOnP_append_cons_of_forall_mem hall c hc, hw]

end M3Dev.MaximalRuns
