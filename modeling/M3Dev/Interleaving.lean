import Mathlib.Data.Nat.Notation

/-! Two parties that take turns in any order. Where neither step can be undone or changed by the
other party's, all runs that end do so in one and the same state, after the same number of steps. -/
namespace M3Dev.Interleaving
variable {σ : Type*}

/-- Either party takes its step. -/
def Step (left right : σ → Option σ) (s s' : σ) : Prop := left s = some s' ∨ right s = some s'

/-- The steps of the two parties may be taken in either order. -/
def Independent (left right : σ → Option σ) : Prop :=
  ∀ s s1 s2, left s = some s1 → right s = some s2 → ∃ s3, right s1 = some s3 ∧ left s2 = some s3

/-- So many steps, each of either party. -/
inductive Steps (left right : σ → Option σ) : ℕ → σ → σ → Prop where
  | refl (s : σ) : Steps left right 0 s s
  | step {n : ℕ} {s s' s'' : σ} (h : Step left right s s') (rest : Steps left right n s' s'') :
      Steps left right (n + 1) s s''

/-- Neither party can take a step. -/
def Ended (left right : σ → Option σ) (s : σ) : Prop := left s = none ∧ right s = none

variable {left right : σ → Option σ} {m n : ℕ} {s s' s'' t u : σ}

theorem Steps.trans (h : Steps left right m s s') (h' : Steps left right n s' s'') :
    Steps left right (m + n) s s'' := by
  induction h with
  | refl s => rwa [Nat.zero_add]
  | step h _ ih =>
    rw [Nat.succ_add_eq_add_succ, Nat.add_succ]
    exact .step h (ih h')

theorem Ended.no_step (h : Ended left right s) : ¬ Step left right s s' := by
  rintro (hl | hr)
  · exact absurd (h.1.symm.trans hl) (by simp)
  · exact absurd (h.2.symm.trans hr) (by simp)

/-- Two steps from one state lead to one state, or can be completed to one. -/
theorem Independent.diamond (hc : Independent left right) (h : Step left right s s') (h' : Step left right s s'') :
    s' = s'' ∨ ∃ t, Step left right s' t ∧ Step left right s'' t := by
  rcases h with hl | hr
  · rcases h' with hl' | hr'
    · exact .inl (Option.some.inj (hl.symm.trans hl'))
    · obtain ⟨t, h1, h2⟩ := hc s s' s'' hl hr'
      exact .inr ⟨t, .inr h1, .inl h2⟩
  · rcases h' with hl' | hr'
    · obtain ⟨t, h1, h2⟩ := hc s s'' s' hl' hr
      exact .inr ⟨t, .inl h2, .inr h1⟩
    · exact .inl (Option.some.inj (hr.symm.trans hr'))

/-- With an ended run in view, any first step is one of that many towards its end. -/
theorem Independent.first_step (hc : Independent left right) (h : Steps left right n s t) (ht : Ended left right t)
    (hfirst : Step left right s s') : ∃ k, n = k + 1 ∧ Steps left right k s' t := by
  induction h generalizing s' with
  | refl s => exact absurd hfirst ht.no_step
  | @step n s v t h rest ih =>
    rcases hc.diamond hfirst h with rfl | ⟨w, h1, h2⟩
    · exact ⟨n, rfl, rest⟩
    · obtain ⟨k, rfl, hk⟩ := ih ht h2
      exact ⟨k + 1, rfl, .step h1 hk⟩

/-- Every run goes on to the end of the ended one, and there is none longer. -/
theorem Independent.all_end (hc : Independent left right) (h : Steps left right n s t) (ht : Ended left right t)
    (hrun : Steps left right m s u) : m ≤ n ∧ Steps left right (n - m) u t := by
  induction hrun generalizing n with
  | refl s => exact ⟨Nat.zero_le n, h⟩
  | @step m s v u hfirst _ ih =>
    obtain ⟨k, rfl, hk⟩ := hc.first_step h ht hfirst
    obtain ⟨hle, hrest⟩ := ih hk
    refine ⟨Nat.succ_le_succ hle, ?_⟩
    rwa [Nat.add_sub_add_right]

end M3Dev.Interleaving
