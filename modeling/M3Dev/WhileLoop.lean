import Mathlib.Data.Nat.Notation
import Mathlib.Logic.Relation

/-! `while` loops over an explicit fuel. A loop body either goes on with a new
state or leaves the loop with a value; `none` stands for a body that has not come
back, so that a nested loop that never ends is told apart from one that is left. -/
namespace M3Dev.WhileLoop
variable {α β : Type*}

/-- What one pass of a loop body does. -/
inductive Pass (α β : Type*) where
  | next (a : α)
  | exit (b : β)

abbrev Body (α β : Type*) := α → Option (Pass α β)

/-- Run the body until it leaves the loop, with at most `fuel` passes. -/
def runLoop (body : Body α β) : ℕ → α → Option β
  | 0, _ => none
  | fuel + 1, a =>
    match body a with
    | none => none
    | some (.exit b) => some b
    | some (.next a') => runLoop body fuel a'

/-- The loop entered at `a` is left with `b`. -/
def Leaves (body : Body α β) (a : α) (b : β) : Prop := ∃ fuel, runLoop body fuel a = some b

/-- The loop entered at `a` is never left, whatever the fuel. -/
def Diverges (body : Body α β) (a : α) : Prop := ∀ fuel, runLoop body fuel a = none

/-- Loop states that the loop entered at the first state comes to, itself included. -/
def Reaches (body : Body α β) : α → α → Prop :=
  Relation.ReflTransGen (fun a a' => body a = some (.next a'))

theorem runLoop_exit {body : Body α β} {a : α} {b : β} (h : body a = some (.exit b)) (fuel : ℕ) :
    runLoop body (fuel + 1) a = some b := by
  simp only [runLoop, h]

theorem runLoop_next {body : Body α β} {a a' : α} (h : body a = some (.next a')) (fuel : ℕ) :
    runLoop body (fuel + 1) a = runLoop body fuel a' := by
  simp only [runLoop, h]

theorem runLoop_stuck {body : Body α β} {a : α} (h : body a = none) (fuel : ℕ) :
    runLoop body fuel a = none := by
  cases fuel with
  | zero => rfl
  | succ fuel => simp only [runLoop, h]

/-- More fuel never changes the value a loop is left with. -/
theorem runLoop_mono {body : Body α β} {a : α} {b : β} {fuel fuel' : ℕ} (hle : fuel ≤ fuel')
    (h : runLoop body fuel a = some b) : runLoop body fuel' a = some b := by
  induction fuel generalizing a fuel' with
  | zero => simp only [runLoop, reduceCtorEq] at h
  | succ fuel ih =>
    obtain ⟨k, rfl⟩ : ∃ k, fuel' = k + 1 := ⟨fuel' - 1, by omega⟩
    cases hb : body a with
    | none => rw [runLoop_stuck hb] at h; exact absurd h (by simp)
    | some p =>
      cases p with
      | exit c => rw [runLoop_exit hb] at h ⊢; exact h
      | next a' =>
        rw [runLoop_next hb] at h ⊢
        exact ih (by omega) h

theorem Leaves.unique {body : Body α β} {a : α} {b b' : β} (h : Leaves body a b)
    (h' : Leaves body a b') : b = b' := by
  obtain ⟨n, hn⟩ := h
  obtain ⟨m, hm⟩ := h'
  have h1 := runLoop_mono (Nat.le_max_left n m) hn
  have h2 := runLoop_mono (Nat.le_max_right n m) hm
  exact Option.some.inj (h1.symm.trans h2)

theorem Leaves.exit {body : Body α β} {a : α} {b : β} (h : body a = some (.exit b)) :
    Leaves body a b :=
  ⟨1, runLoop_exit h 0⟩

theorem Leaves.next {body : Body α β} {a a' : α} {b : β} (h : body a = some (.next a'))
    (hl : Leaves body a' b) : Leaves body a b := by
  obtain ⟨fuel, hf⟩ := hl
  exact ⟨fuel + 1, by rw [runLoop_next h, hf]⟩

theorem Leaves.of_next {body : Body α β} {a a' : α} {b : β} (h : body a = some (.next a'))
    (hl : Leaves body a b) : Leaves body a' b := by
  obtain ⟨fuel, hf⟩ := hl
  cases fuel with
  | zero => exact absurd hf (by simp [runLoop])
  | succ fuel => exact ⟨fuel, by rw [← hf, runLoop_next h]⟩

/-- What every pass preserves shows in the value the loop is left with. -/
theorem Leaves.invariant {body : Body α β} (I : α → Prop) (Q : β → Prop)
    (step : ∀ a a', I a → body a = some (.next a') → I a')
    (exit : ∀ a b, I a → body a = some (.exit b) → Q b) {a : α} {b : β} (ha : I a)
    (h : Leaves body a b) : Q b := by
  obtain ⟨fuel, hf⟩ := h
  induction fuel generalizing a with
  | zero => exact absurd hf (by simp [runLoop])
  | succ fuel ih =>
    cases hb : body a with
    | none => rw [runLoop_stuck hb] at hf; exact absurd hf (by simp)
    | some p =>
      cases p with
      | exit c =>
        rw [runLoop_exit hb] at hf
        exact Option.some.inj hf ▸ exit a c ha hb
      | next a' =>
        rw [runLoop_next hb] at hf
        exact ih (step a a' ha hb) hf

theorem Diverges.not_leaves {body : Body α β} {a : α} {b : β} (h : Diverges body a) :
    ¬ Leaves body a b := by
  rintro ⟨fuel, hf⟩
  rw [h fuel] at hf
  exact absurd hf (by simp)

theorem Diverges.next {body : Body α β} {a a' : α} (h : body a = some (.next a'))
    (hd : Diverges body a') : Diverges body a := by
  intro fuel
  cases fuel with
  | zero => rfl
  | succ fuel => rw [runLoop_next h, hd fuel]

theorem Reaches.diverges {body : Body α β} {a a' : α} (h : Reaches body a a')
    (hd : Diverges body a') : Diverges body a := by
  induction h using Relation.ReflTransGen.head_induction_on with
  | refl => exact hd
  | head h _ ih => exact ih.next h

theorem Reaches.leaves {body : Body α β} {a a' : α} {b : β} (h : Reaches body a a')
    (hl : Leaves body a' b) : Leaves body a b := by
  induction h using Relation.ReflTransGen.head_induction_on with
  | refl => exact hl
  | head h _ ih => exact ih.next h

/-- A set of states from which every pass goes on inside the set is never left. -/
theorem diverges_of_invariant {body : Body α β} (I : α → Prop)
    (step : ∀ a, I a → ∃ a', body a = some (.next a') ∧ I a') {a : α} (ha : I a) :
    Diverges body a := by
  intro fuel
  induction fuel generalizing a with
  | zero => rfl
  | succ fuel ih =>
    obtain ⟨a', hb, ha'⟩ := step a ha
    rw [runLoop_next hb, ih ha']

/-- What every pass preserves holds in every state the loop comes to. -/
theorem Reaches.invariant {body : Body α β} (I : α → Prop)
    (step : ∀ a a', I a → body a = some (.next a') → I a') {a a' : α}
    (h : Reaches body a a') (ha : I a) : I a' := by
  induction h with
  | refl => exact ha
  | tail _ hb ih => exact step _ _ ih hb

/-- Variant rule: under an invariant whose passes lower `μ`, the loop comes to a
state of the invariant in which the guard `go` fails. -/
theorem reaches_of_variant {body : Body α β} (I : α → Prop) (go : α → Prop) (μ : α → ℕ)
    (step : ∀ a, I a → go a → ∃ a', body a = some (.next a') ∧ I a' ∧ μ a' < μ a)
    {a : α} (ha : I a) : ∃ a', Reaches body a a' ∧ I a' ∧ ¬ go a' := by
  induction hn : μ a using Nat.strongRecOn generalizing a with
  | ind n ih =>
    by_cases hg : go a
    · obtain ⟨a', hb, ha', hlt⟩ := step a ha hg
      obtain ⟨z, hz, hI, hgz⟩ := ih (μ a') (hn ▸ hlt) ha' rfl
      exact ⟨z, Relation.ReflTransGen.head hb hz, hI, hgz⟩
    · exact ⟨a, Relation.ReflTransGen.refl, ha, hg⟩

end M3Dev.WhileLoop
