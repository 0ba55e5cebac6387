import Mathlib.Data.Nat.Notation

/-! Systems that take one event after the other. Runs carry a condition on each step, so
that a property may be proved of every run whose steps all meet it. -/
namespace M3Dev.EventSystem
variable {σ ε : Type*}

/-- What one event does to the system; `none` where it is not possible. -/
abbrev Step (σ ε : Type*) := σ → ε → Option σ

/-- A run from one state to another by the given events, each step meeting `C`. -/
inductive Run (step : Step σ ε) (C : σ → ε → Prop) : σ → List ε → σ → Prop where
  | nil (s : σ) : Run step C s [] s
  | cons {s s' s'' : σ} {e : ε} {es : List ε} (hC : C s e) (h : step s e = some s')
      (rest : Run step C s' es s'') : Run step C s (e :: es) s''

/-- What every step preserves holds at the end of a run. -/
theorem Run.invariant {step : Step σ ε} {C : σ → ε → Prop} (I : σ → Prop)
    (hstep : ∀ s e s', I s → C s e → step s e = some s' → I s') {s s' : σ} {es : List ε}
    (h : Run step C s es s') (hI : I s) : I s' := by
  induction h with
  | nil => exact hI
  | cons hC h _ ih => exact ih (hstep _ _ _ hI hC h)

/-- A condition that an invariant grants at every step. -/
theorem Run.strengthen {step : Step σ ε} {C C' : σ → ε → Prop} (I : σ → Prop)
    (hstep : ∀ s e s', I s → C s e → step s e = some s' → I s' ∧ C' s e) {s s' : σ} {es : List ε}
    (h : Run step C s es s') (hI : I s) : Run step C' s es s' := by
  induction h with
  | nil s => exact .nil s
  | cons hc h _ ih =>
    obtain ⟨hI', hC'⟩ := hstep _ _ _ hI hc h
    exact .cons hC' h (ih hI')

/-- What an event keeps exactly where `C` allows it holds all along a run exactly where each step of
it meets `C`. -/
theorem Run.everywhere_iff {step : Step σ ε} {C : σ → ε → Prop} (I : σ → Prop)
    (hstep : ∀ s e s', I s → step s e = some s' → (I s' ↔ C s e)) {s s' : σ} {es : List ε}
    (h : Run step (fun _ _ => True) s es s') (hI : I s) :
    (∀ before u, before <+: es → Run step (fun _ _ => True) s before u → I u) ↔ Run step C s es s' := by
  induction h with
  | nil s =>
    refine ⟨fun _ => .nil s, fun _ before u hb hu => ?_⟩
    obtain rfl := List.prefix_nil.mp hb
    cases hu
    exact hI
  | @cons s t s' e es _ h _ ih =>
    constructor
    · intro hall
      have ht : I t := hall [e] t ⟨es, rfl⟩ (.cons trivial h (.nil t))
      refine .cons ((hstep s e t hI h).mp ht) h ((ih ht).mp fun before u hb hu => ?_)
      exact hall (e :: before) u ((List.prefix_cons_inj e).mpr hb) (.cons trivial h hu)
    · intro hrun before u hb hu
      cases hrun with
      | cons hC h' hrest =>
        obtain rfl := Option.some.inj (h.symm.trans h')
        have ht : I t := (hstep s e t hI h).mpr hC
        cases hu with
        | nil => exact hI
        | @cons _ _ _ e' before' _ h'' hu =>
          obtain ⟨rfl, hb'⟩ := List.cons_prefix_cons.mp hb
          obtain rfl := Option.some.inj (h.symm.trans h'')
          exact (ih ht).mpr hrest before' u hb' hu

/-- Runs on explicit events, with the condition checked on the way. -/
def runEvents (step : Step σ ε) (C : σ → ε → Prop) [∀ s e, Decidable (C s e)] :
    List ε → σ → Option σ
  | [], s => some s
  | e :: es, s =>
    if C s e then
      match step s e with
      | none => none
      | some s' => runEvents step C es s'
    else none

theorem run_of_runEvents {step : Step σ ε} {C : σ → ε → Prop} [∀ s e, Decidable (C s e)]
    {es : List ε} {s s' : σ} (h : runEvents step C es s = some s') : Run step C s es s' := by
  induction es generalizing s with
  | nil =>
    obtain rfl := Option.some.inj h
    exact .nil s
  | cons e es ih =>
    simp only [runEvents] at h
    by_cases hC : C s e
    · rw [if_pos hC] at h
      cases hs : step s e with
      | none =>
        rw [hs] at h
        exact absurd h (by simp)
      | some u =>
        rw [hs] at h
        exact .cons hC hs (ih h)
    · rw [if_neg hC] at h
      exact absurd h (by simp)

end M3Dev.EventSystem
