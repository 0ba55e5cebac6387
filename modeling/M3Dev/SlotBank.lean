import Mathlib.Data.Nat.Notation
import Mathlib.Logic.Function.Basic

/-! Banks of numbered slots, each with a value or empty, and the values a bank holds. -/
namespace M3Dev.SlotBank
variable {α : Type*}

abbrev Bank (α : Type*) := ℕ → Option α

namespace Bank

def Holds (b : Bank α) (a : α) : Prop := ∃ n, b n = some a

/-- No value lies in two slots. -/
def Apart (b : Bank α) : Prop := ∀ m n a, b m = some a → b n = some a → m = n

def put (b : Bank α) (n : ℕ) (a : α) : Bank α := Function.update b n (some a)

def clear (b : Bank α) (n : ℕ) : Bank α := Function.update b n none

variable {b : Bank α} {n : ℕ} {a x : α}

theorem put_eq_some {m : ℕ} : b.put n a m = some x ↔ (m = n ∧ x = a) ∨ (m ≠ n ∧ b m = some x) := by
  by_cases hm : m = n
  · subst hm
    simp [put, eq_comm]
  · simp [put, hm]

theorem clear_eq_some {m : ℕ} : b.clear n m = some x ↔ m ≠ n ∧ b m = some x := by
  by_cases hm : m = n
  · subst hm
    simp [clear]
  · simp [clear, hm]

theorem holds_put (hfree : b n = none) : (b.put n a).Holds x ↔ x = a ∨ b.Holds x := by
  constructor
  · rintro ⟨m, hm⟩
    rcases put_eq_some.mp hm with ⟨_, hx⟩ | ⟨_, hx⟩
    · exact .inl hx
    · exact .inr ⟨m, hx⟩
  · rintro (rfl | ⟨m, hm⟩)
    · exact ⟨n, put_eq_some.mpr (.inl ⟨rfl, rfl⟩)⟩
    · refine ⟨m, put_eq_some.mpr (.inr ⟨?_, hm⟩)⟩
      rintro rfl
      exact absurd (hfree.symm.trans hm) (by simp)

theorem Apart.holds_clear (h : b.Apart) (hn : b n = some a) :
    (b.clear n).Holds x ↔ b.Holds x ∧ x ≠ a := by
  constructor
  · rintro ⟨m, hm⟩
    obtain ⟨hne, hx⟩ := clear_eq_some.mp hm
    refine ⟨⟨m, hx⟩, ?_⟩
    rintro rfl
    exact hne (h m n x hx hn)
  · rintro ⟨⟨m, hm⟩, hne⟩
    refine ⟨m, clear_eq_some.mpr ⟨?_, hm⟩⟩
    rintro rfl
    exact hne (Option.some.inj (hm.symm.trans hn))

theorem Apart.put (h : b.Apart) (hnew : ¬ b.Holds a) : (b.put n a).Apart := by
  intro m k x hm hk
  rcases put_eq_some.mp hm with ⟨hmn, hxa⟩ | ⟨_, hm'⟩
  · rcases put_eq_some.mp hk with ⟨hkn, _⟩ | ⟨_, hk'⟩
    · rw [hmn, hkn]
    · exact absurd ⟨k, hxa ▸ hk'⟩ hnew
  · rcases put_eq_some.mp hk with ⟨_, hxa⟩ | ⟨_, hk'⟩
    · exact absurd ⟨m, hxa ▸ hm'⟩ hnew
    · exact h m k x hm' hk'

theorem Apart.clear (h : b.Apart) : (b.clear n).Apart := by
  intro m k x hm hk
  exact h m k x (clear_eq_some.mp hm).2 (clear_eq_some.mp hk).2

/-! ### Comparators that are armed as the bank says -/

/-- The first `count` comparators are each armed for what their slot holds. -/
def Wired (arms : ℕ → α → Prop) (count : ℕ) (b : Bank α) : Prop :=
  ∀ n < count, ∀ a, arms n a ↔ b n = some a

variable {arms arms' : ℕ → α → Prop} {count : ℕ}

theorem Wired.put (h : Wired arms count b) (hn : ∀ x, arms' n x ↔ x = a)
    (hrest : ∀ m < count, m ≠ n → ∀ x, arms' m x ↔ arms m x) : Wired arms' count (b.put n a) := by
  intro m hm x
  by_cases heq : m = n
  · subst heq
    simp [hn, put_eq_some]
  · rw [hrest m hm heq, h m hm, put_eq_some]
    simp [heq]

theorem Wired.clear (h : Wired arms count b) (hn : ∀ x, ¬ arms' n x)
    (hrest : ∀ m < count, m ≠ n → ∀ x, arms' m x ↔ arms m x) : Wired arms' count (b.clear n) := by
  intro m hm x
  by_cases heq : m = n
  · subst heq
    simp [hn, clear_eq_some]
  · rw [hrest m hm heq, h m hm, clear_eq_some]
    simp [heq]

theorem Wired.congr (h : Wired arms count b) (hrest : ∀ m < count, ∀ x, arms' m x ↔ arms m x) :
    Wired arms' count b := by
  intro m hm x
  rw [hrest m hm, h m hm]

/-- Some comparator is armed for what the bank holds, and for nothing else. -/
theorem Wired.armed_iff (h : Wired arms count b) (hcount : ∀ n a, b n = some a → n < count) :
    (∃ n < count, arms n x) ↔ b.Holds x := by
  constructor
  · rintro ⟨n, hn, hx⟩
    exact ⟨n, (h n hn x).mp hx⟩
  · rintro ⟨n, hn⟩
    have hlt := hcount n x hn
    exact ⟨n, hlt, (h n hlt x).mpr hn⟩

end Bank

end M3Dev.SlotBank
