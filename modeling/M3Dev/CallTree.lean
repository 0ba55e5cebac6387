import Mathlib.Data.Nat.Notation

/-! Programs that make calls and go on with the answers. A program is a tree: what it does
next depends on what it was answered. It may be run against one responder, or followed
along every sequence of answers. -/
namespace M3Dev.CallTree

/-- A program with calls `C`, answers `A`, ways to stop `E` and results `α`. -/
inductive Prog (C A E α : Type) where
  | ret (a : α)
  | stop (e : E)
  | call (c : C) (k : A → Prog C A E α)

/-- What answers the calls, with a state of its own; `none` where it never does. -/
abbrev Responder (C A σ : Type) := C → σ → Option (A × σ)

namespace Prog
variable {C A E α β γ σ : Type}

def bind : Prog C A E α → (α → Prog C A E β) → Prog C A E β
  | ret a, f => f a
  | stop e, _ => stop e
  | call c k, f => call c (fun a => (k a).bind f)

instance : Monad (Prog C A E) where
  pure := ret
  bind := bind

/-- Make a call and return its answer. -/
def ask (c : C) : Prog C A E A := call c ret

@[simp] theorem pure_eq (a : α) : (pure a : Prog C A E α) = ret a := rfl

@[simp] theorem ret_bind (a : α) (f : α → Prog C A E β) : (ret a >>= f) = f a := rfl

@[simp] theorem stop_bind (e : E) (f : α → Prog C A E β) : (stop e >>= f) = stop e := rfl

@[simp] theorem call_bind (c : C) (k : A → Prog C A E α) (f : α → Prog C A E β) :
    (call c k >>= f) = call c (fun a => k a >>= f) := rfl

@[simp] theorem ask_bind (c : C) (f : A → Prog C A E β) : (ask c >>= f) = call c f := rfl

theorem bind_assoc (p : Prog C A E α) (f : α → Prog C A E β) (g : β → Prog C A E γ) :
    (p >>= f >>= g) = (p >>= fun a => f a >>= g) := by
  induction p with
  | ret a => rfl
  | stop e => rfl
  | call c k ih =>
    show call c (fun a => (k a >>= f) >>= g) = call c (fun a => k a >>= fun b => f b >>= g)
    exact congrArg (call c) (funext ih)

/-! ### Along every sequence of answers -/

/-- The calls a program makes, with the answers it was given, and how it ends. -/
inductive Path : Prog C A E α → List (C × A) → Except E α → Prop where
  | ret (a : α) : Path (ret a) [] (.ok a)
  | stop (e : E) : Path (stop e) [] (.error e)
  | call {c : C} {k : A → Prog C A E α} {a : A} {t : List (C × A)} {r : Except E α}
      (rest : Path (k a) t r) : Path (call c k) ((c, a) :: t) r

theorem path_ret {a : α} {t : List (C × A)} {r : Except E α} :
    Path (ret a : Prog C A E α) t r ↔ t = [] ∧ r = .ok a := by
  constructor
  · intro h
    cases h
    exact ⟨rfl, rfl⟩
  · rintro ⟨rfl, rfl⟩
    exact .ret a

theorem path_stop {e : E} {t : List (C × A)} {r : Except E α} :
    Path (stop e : Prog C A E α) t r ↔ t = [] ∧ r = .error e := by
  constructor
  · intro h
    cases h
    exact ⟨rfl, rfl⟩
  · rintro ⟨rfl, rfl⟩
    exact .stop e

theorem path_call {c : C} {k : A → Prog C A E α} {t : List (C × A)} {r : Except E α} :
    Path (call c k) t r ↔ ∃ a t', t = (c, a) :: t' ∧ Path (k a) t' r := by
  constructor
  · intro h
    cases h with
    | call rest => exact ⟨_, _, rfl, rest⟩
  · rintro ⟨a, t', rfl, rest⟩
    exact .call rest

/-- A sequence of two programs stops in the first or goes through both. -/
theorem path_bind {p : Prog C A E α} {f : α → Prog C A E β} {t : List (C × A)}
    {r : Except E β} :
    Path (p >>= f) t r ↔
      (∃ e, r = .error e ∧ Path p t (.error e)) ∨
      ∃ a t1 t2, t = t1 ++ t2 ∧ Path p t1 (.ok a) ∧ Path (f a) t2 r := by
  induction p generalizing t with
  | ret a =>
    constructor
    · intro h
      exact .inr ⟨a, [], t, rfl, .ret a, h⟩
    · rintro (⟨e, _, h⟩ | ⟨b, t1, t2, rfl, h1, h2⟩)
      · exact absurd (path_ret.mp h).2 (by simp)
      · obtain ⟨rfl, heq⟩ := path_ret.mp h1
        obtain rfl := Except.ok.inj heq
        exact h2
  | stop e =>
    constructor
    · intro h
      obtain ⟨rfl, rfl⟩ := path_stop.mp h
      exact .inl ⟨e, rfl, .stop e⟩
    · rintro (⟨e', rfl, h⟩ | ⟨b, t1, t2, rfl, h1, _⟩)
      · obtain ⟨rfl, heq⟩ := path_stop.mp h
        obtain rfl := Except.error.inj heq
        exact .stop _
      · exact absurd (path_stop.mp h1).2 (by simp)
  | call c k ih =>
    constructor
    · intro h
      obtain ⟨a, t', rfl, hrest⟩ := path_call.mp h
      rcases (ih a).mp hrest with ⟨e, rfl, he⟩ | ⟨b, t1, t2, rfl, h1, h2⟩
      · exact .inl ⟨e, rfl, .call he⟩
      · exact .inr ⟨b, (c, a) :: t1, t2, rfl, .call h1, h2⟩
    · rintro (⟨e, rfl, h⟩ | ⟨b, t1, t2, rfl, h1, h2⟩)
      · obtain ⟨a, t', rfl, hrest⟩ := path_call.mp h
        exact .call ((ih a).mpr (.inl ⟨e, rfl, hrest⟩))
      · obtain ⟨a, t', rfl, hrest⟩ := path_call.mp h1
        exact .call ((ih a).mpr (.inr ⟨b, t', t2, rfl, hrest, h2⟩))

/-- Where the given answers lead, if the program takes them all and no more. -/
def follow : Prog C A E α → List A → Option (List (C × A) × Except E α)
  | ret a, [] => some ([], .ok a)
  | stop e, [] => some ([], .error e)
  | call c k, a :: as => ((k a).follow as).map fun r => ((c, a) :: r.1, r.2)
  | _, _ => none

theorem path_of_follow {p : Prog C A E α} {as : List A} {t : List (C × A)} {r : Except E α}
    (h : p.follow as = some (t, r)) : Path p t r := by
  induction p generalizing as t with
  | ret a =>
    cases as with
    | nil =>
      obtain ⟨rfl, rfl⟩ := Prod.mk.inj (Option.some.inj h)
      exact .ret a
    | cons b as => exact absurd h (by simp [follow])
  | stop e =>
    cases as with
    | nil =>
      obtain ⟨rfl, rfl⟩ := Prod.mk.inj (Option.some.inj h)
      exact .stop e
    | cons b as => exact absurd h (by simp [follow])
  | call c k ih =>
    cases as with
    | nil => exact absurd h (by simp [follow])
    | cons a as =>
      rw [follow, Option.map_eq_some_iff] at h
      obtain ⟨r', hr', heq⟩ := h
      obtain ⟨rfl, rfl⟩ := Prod.mk.inj heq
      exact .call (ih a hr')

/-! ### Rules for every sequence of answers -/

/-- What a program may do after the calls already made and answered: the calls allowed,
and the ways it may stop. -/
structure Rules (C A E : Type) where
  allows : List (C × A) → C → Prop
  stops : List (C × A) → E → Prop

/-- After `past`, the program keeps to the rules whatever it is answered, and where it
comes back `Q` holds of all calls made and of its result. -/
def Ensures (R : Rules C A E) (Q : List (C × A) → α → Prop) :
    List (C × A) → Prog C A E α → Prop
  | past, ret a => Q past a
  | past, stop e => R.stops past e
  | past, call c k => R.allows past c ∧ ∀ a, (k a).Ensures R Q (past ++ [(c, a)])

section
variable {R : Rules C A E}

theorem Ensures.mono {Q Q' : List (C × A) → α → Prop} {past : List (C × A)} {p : Prog C A E α}
    (h : p.Ensures R Q past) (hQ : ∀ t a, Q t a → Q' t a) : p.Ensures R Q' past := by
  induction p generalizing past with
  | ret a => exact hQ past a h
  | stop e => exact h
  | call c k ih => exact ⟨h.1, fun a => ih a (h.2 a)⟩

theorem Ensures.bind {Q : List (C × A) → α → Prop} {Q' : List (C × A) → β → Prop}
    {past : List (C × A)} {p : Prog C A E α} {f : α → Prog C A E β} (h : p.Ensures R Q past)
    (hf : ∀ t a, Q t a → (f a).Ensures R Q' t) : (p >>= f).Ensures R Q' past := by
  induction p generalizing past with
  | ret a => exact hf past a h
  | stop e => exact h
  | call c k ih => exact ⟨h.1, fun a => ih a (h.2 a)⟩

theorem Ensures.call {Q : List (C × A) → α → Prop} {past : List (C × A)} {c : C} {k : A → Prog C A E α}
    (hc : R.allows past c) (h : ∀ a, (k a).Ensures R Q (past ++ [(c, a)])) :
    (call c k).Ensures R Q past := ⟨hc, h⟩

theorem Ensures.ask {Q : List (C × A) → α → Prop} {past : List (C × A)} {c : C} {f : A → Prog C A E α}
    (hc : R.allows past c) (h : ∀ a, (f a).Ensures R Q (past ++ [(c, a)])) :
    (ask c >>= f).Ensures R Q past := ⟨hc, h⟩

/-- Every call on a path was allowed. -/
theorem Ensures.allows {Q : List (C × A) → α → Prop} {past : List (C × A)} {p : Prog C A E α}
    (h : p.Ensures R Q past) {t : List (C × A)} {r : Except E α} (hpath : Path p t r)
    {t1 t2 : List (C × A)} {c : C} {a : A} (ht : t = t1 ++ (c, a) :: t2) :
    R.allows (past ++ t1) c := by
  induction p generalizing past t t1 with
  | ret b =>
    obtain ⟨rfl, _⟩ := path_ret.mp hpath
    exact absurd ht.symm (by simp)
  | stop e =>
    obtain ⟨rfl, _⟩ := path_stop.mp hpath
    exact absurd ht.symm (by simp)
  | call c' k ih =>
    obtain ⟨a', t', rfl, hrest⟩ := path_call.mp hpath
    cases t1 with
    | nil =>
      obtain ⟨hcall, _⟩ := List.cons.inj ht
      rw [List.append_nil, ← (Prod.mk.inj hcall).1]
      exact h.1
    | cons e t1 =>
      obtain ⟨rfl, htail⟩ := List.cons.inj ht
      have hlater := ih a' (h.2 a') hrest htail
      rwa [List.append_assoc] at hlater

theorem Ensures.returns {Q : List (C × A) → α → Prop} {past : List (C × A)} {p : Prog C A E α}
    (h : p.Ensures R Q past) {t : List (C × A)} {a : α} (hpath : Path p t (.ok a)) :
    Q (past ++ t) a := by
  induction p generalizing past t with
  | ret b =>
    obtain ⟨rfl, hok⟩ := path_ret.mp hpath
    obtain rfl := Except.ok.inj hok
    rwa [List.append_nil]
  | stop e => exact absurd (path_stop.mp hpath).2 (by simp)
  | call c k ih =>
    obtain ⟨b, t', rfl, hrest⟩ := path_call.mp hpath
    have hlater := ih b (h.2 b) hrest
    rwa [List.append_assoc] at hlater

theorem Ensures.stops {Q : List (C × A) → α → Prop} {past : List (C × A)} {p : Prog C A E α}
    (h : p.Ensures R Q past) {t : List (C × A)} {e : E} (hpath : Path p t (.error e)) :
    R.stops (past ++ t) e := by
  induction p generalizing past t with
  | ret b => exact absurd (path_ret.mp hpath).2 (by simp)
  | stop e' =>
    obtain ⟨rfl, herr⟩ := path_stop.mp hpath
    rwa [List.append_nil, Except.error.inj herr]
  | call c k ih =>
    obtain ⟨b, t', rfl, hrest⟩ := path_call.mp hpath
    have hlater := ih b (h.2 b) hrest
    rwa [List.append_assoc] at hlater

end

/-! ### Against one responder -/

def run (R : Responder C A σ) : Prog C A E α → σ → Option (Except E α × σ)
  | ret a, s => some (.ok a, s)
  | stop e, s => some (.error e, s)
  | call c k, s =>
    match R c s with
    | none => none
    | some (a, s') => (k a).run R s'

@[simp] theorem run_ret (R : Responder C A σ) (a : α) (s : σ) :
    (ret a : Prog C A E α).run R s = some (.ok a, s) := rfl

@[simp] theorem run_stop (R : Responder C A σ) (e : E) (s : σ) :
    (stop e : Prog C A E α).run R s = some (.error e, s) := rfl

theorem run_call {R : Responder C A σ} {c : C} {s s' : σ} {a : A} (h : R c s = some (a, s'))
    (k : A → Prog C A E α) : (call c k).run R s = (k a).run R s' := by
  simp only [run, h]

theorem run_bind {R : Responder C A σ} {p : Prog C A E α} {s s' : σ} {a : α}
    (h : p.run R s = some (.ok a, s')) (f : α → Prog C A E β) :
    (p >>= f).run R s = (f a).run R s' := by
  induction p generalizing s with
  | ret b =>
    obtain ⟨hok, rfl⟩ := Prod.mk.inj (Option.some.inj h)
    obtain rfl := Except.ok.inj hok
    rfl
  | stop e =>
    obtain ⟨herr, _⟩ := Prod.mk.inj (Option.some.inj h)
    exact absurd herr (by simp)
  | call c k ih =>
    cases hR : R c s with
    | none =>
      simp only [run, hR] at h
      exact absurd h (by simp)
    | some as =>
      rw [run_call hR] at h
      rw [call_bind, run_call hR]
      exact ih as.1 h

theorem run_bind_error {R : Responder C A σ} {p : Prog C A E α} {s s' : σ} {e : E}
    (h : p.run R s = some (.error e, s')) (f : α → Prog C A E β) :
    (p >>= f).run R s = some (.error e, s') := by
  induction p generalizing s with
  | ret b =>
    obtain ⟨hok, _⟩ := Prod.mk.inj (Option.some.inj h)
    exact absurd hok (by simp)
  | stop e' =>
    obtain ⟨herr, rfl⟩ := Prod.mk.inj (Option.some.inj h)
    obtain rfl := Except.error.inj herr
    rfl
  | call c k ih =>
    cases hR : R c s with
    | none =>
      simp only [run, hR] at h
      exact absurd h (by simp)
    | some as =>
      rw [run_call hR] at h
      rw [call_bind, run_call hR]
      exact ih as.1 h

/-- What is never answered takes what follows along. -/
theorem run_bind_none {R : Responder C A σ} {p : Prog C A E α} {s : σ}
    (h : p.run R s = none) (f : α → Prog C A E β) : (p >>= f).run R s = none := by
  induction p generalizing s with
  | ret b => exact absurd h (by simp)
  | stop e' => exact absurd h (by simp)
  | call c k ih =>
    cases hR : R c s with
    | none =>
      rw [call_bind]
      simp only [run, hR]
    | some as =>
      rw [run_call hR] at h
      rw [call_bind, run_call hR]
      exact ih as.1 h

/-! ### One responder for another -/

/-- Where the one responder answers, the other gives the same answer from a related state, as
soon as there is fuel for it, and the states stay related. -/
def Simulates {τ : Type} (R : Responder C A σ) (R' : ℕ → Responder C A τ) (rel : σ → τ → Prop) :
    Prop :=
  ∀ c s a s' t, rel s t → R c s = some (a, s') →
    ∃ t', rel s' t' ∧ ∃ F, ∀ fuel ≥ F, R' fuel c t = some (a, t')

/-- Programs do not tell the two apart. -/
theorem Simulates.run {τ : Type} {R : Responder C A σ} {R' : ℕ → Responder C A τ}
    {rel : σ → τ → Prop} (h : Simulates R R' rel) {p : Prog C A E α} {s s' : σ} {t : τ}
    {r : Except E α} (hrel : rel s t) (hrun : p.run R s = some (r, s')) :
    ∃ t', rel s' t' ∧ ∃ F, ∀ fuel ≥ F, p.run (R' fuel) t = some (r, t') := by
  induction p generalizing s t with
  | ret a =>
    obtain ⟨rfl, rfl⟩ := Prod.mk.inj (Option.some.inj hrun)
    exact ⟨t, hrel, 0, fun _ _ => rfl⟩
  | stop e =>
    obtain ⟨rfl, rfl⟩ := Prod.mk.inj (Option.some.inj hrun)
    exact ⟨t, hrel, 0, fun _ _ => rfl⟩
  | call c k ih =>
    cases hR : R c s with
    | none =>
      simp only [Prog.run, hR] at hrun
      exact absurd hrun (by simp)
    | some as =>
      rw [run_call hR] at hrun
      obtain ⟨t1, hrel1, F1, hF1⟩ := h c s as.1 as.2 t hrel hR
      obtain ⟨t', hrel', F, hF⟩ := ih as.1 hrel1 hrun
      refine ⟨t', hrel', F1 + F, ?_⟩
      intro fuel hfuel
      rw [run_call (hF1 fuel (by omega))]
      exact hF fuel (by omega)

end Prog

end M3Dev.CallTree
