import M3Dev.CallTree
import M3Dev.WhileLoop

/-! Postconditions of runs against a responder: what holds if the run comes back. -/
namespace M3Dev.CallTree.Prog
open WhileLoop
variable {C A E α β σ : Type} {R : Responder C A σ}

/-- Where the run from `s` comes back, it is with a result and a state that meet `Q`. -/
structure Meets (R : Responder C A σ) (p : Prog C A E α) (s : σ) (Q : α → σ → Prop) : Prop where
  of_run : ∀ a s', p.run R s = some (.ok a, s') → Q a s'

variable {p : Prog C A E α} {s : σ} {Q : α → σ → Prop}

theorem Meets.ret {a : α} (h : Q a s) : (ret a : Prog C A E α).Meets R s Q := by
  constructor
  intro b s' hrun
  obtain ⟨hok, rfl⟩ := Prod.mk.inj (Option.some.inj hrun)
  obtain rfl := Except.ok.inj hok
  exact h

theorem Meets.stop {e : E} : (stop e : Prog C A E α).Meets R s Q := by
  constructor
  intro b s' hrun
  obtain ⟨herr, _⟩ := Prod.mk.inj (Option.some.inj hrun)
  exact absurd herr (by simp)

theorem Meets.call {c : C} {k : A → Prog C A E α}
    (h : ∀ a s', R c s = some (a, s') → (k a).Meets R s' Q) : (call c k).Meets R s Q := by
  constructor
  intro b s' hrun
  cases hR : R c s with
  | none =>
    simp only [run, hR] at hrun
    exact absurd hrun (by simp)
  | some as =>
    rw [run_call hR] at hrun
    exact (h as.1 as.2 hR).of_run b s' hrun

theorem Meets.ask {c : C} {f : A → Prog C A E α}
    (h : ∀ a s', R c s = some (a, s') → (f a).Meets R s' Q) : (ask c >>= f).Meets R s Q :=
  Meets.call h

theorem Meets.ite {c : Prop} [Decidable c] {q : Prog C A E α} (hp : c → p.Meets R s Q)
    (hq : ¬ c → q.Meets R s Q) : (if c then p else q).Meets R s Q := by
  split
  next hc => exact hp hc
  next hc => exact hq hc

theorem Meets.mono {Q' : α → σ → Prop} (h : p.Meets R s Q) (hQ : ∀ a s', Q a s' → Q' a s') :
    p.Meets R s Q' := ⟨fun a s' hrun => hQ a s' (h.of_run a s' hrun)⟩

theorem Meets.bind {f : α → Prog C A E β} {Q' : β → σ → Prop} (h : p.Meets R s Q)
    (hf : ∀ a s', Q a s' → (f a).Meets R s' Q') : (p >>= f).Meets R s Q' := by
  induction p generalizing s with
  | ret a => exact hf a s (h.of_run a s rfl)
  | stop e => exact Meets.stop
  | call c k ih =>
    apply Meets.call
    intro a s' hR
    apply ih a
    constructor
    intro b s'' hrun
    apply h.of_run b s''
    rwa [run_call hR]

theorem Meets.run_bind {a : α} {s' : σ} (hrun : p.run R s = some (.ok a, s'))
    {f : α → Prog C A E β} {Q' : β → σ → Prop} (hf : (f a).Meets R s' Q') :
    (p >>= f).Meets R s Q' := by
  constructor
  intro b s'' hafter
  rw [Prog.run_bind hrun] at hafter
  exact hf.of_run b s'' hafter

/-- The loop over an explicit number of passes; `spins` where they do not suffice. -/
def loop (spins : E) (body : α → Prog C A E (Pass α β)) : ℕ → α → Prog C A E β
  | 0, _ => .stop spins
  | fuel + 1, a => do
    match ← body a with
    | .next a' => loop spins body fuel a'
    | .exit b => return b

theorem run_loop_exit {spins : E} {body : α → Prog C A E (Pass α β)} {a : α} {b : β} {s s' : σ}
    (h : (body a).run R s = some (.ok (.exit b), s')) (fuel : ℕ) :
    (Prog.loop spins body (fuel + 1) a).run R s = some (.ok b, s') := by
  rw [Prog.loop, Prog.run_bind h]
  rfl

theorem run_loop_next {spins : E} {body : α → Prog C A E (Pass α β)} {a a' : α} {s s' : σ}
    (h : (body a).run R s = some (.ok (.next a'), s')) (fuel : ℕ) :
    (Prog.loop spins body (fuel + 1) a).run R s = (Prog.loop spins body fuel a').run R s' := by
  rw [Prog.loop, Prog.run_bind h]

/-- A pass that is not the last one. -/
theorem Meets.next {I : α → σ → Prop} {Q : β → σ → Prop} {a : α} (h : I a s) :
    (Prog.ret (.next a) : Prog C A E (Pass α β)).Meets R s fun p s' =>
      (∀ a, p = .next a → I a s') ∧ ∀ b, p = .exit b → Q b s' := by
  apply Meets.ret
  constructor
  · intro a' ha'
    rw [← Pass.next.inj ha']
    exact h
  · intro b hb
    exact absurd hb (by simp)

/-- The pass that leaves the loop. -/
theorem Meets.exit {I : α → σ → Prop} {Q : β → σ → Prop} {b : β} (h : Q b s) :
    (Prog.ret (.exit b) : Prog C A E (Pass α β)).Meets R s fun p s' =>
      (∀ a, p = .next a → I a s') ∧ ∀ b, p = .exit b → Q b s' := by
  apply Meets.ret
  constructor
  · intro a ha
    exact absurd ha (by simp)
  · intro b' hb'
    rw [← Pass.exit.inj hb']
    exact h

/-- An invariant that every pass keeps, and that gives the postcondition where one leaves. -/
theorem Meets.loop {spins : E} {body : α → Prog C A E (Pass α β)} (I : α → σ → Prop)
    {Q : β → σ → Prop}
    (hbody : ∀ a s, I a s → (body a).Meets R s fun p s' =>
      (∀ a', p = .next a' → I a' s') ∧ ∀ b, p = .exit b → Q b s')
    (fuel : ℕ) {a : α} {s : σ} (h : I a s) : (Prog.loop spins body fuel a).Meets R s Q := by
  induction fuel generalizing a s with
  | zero => exact Meets.stop
  | succ fuel ih =>
    rw [Prog.loop]
    apply (hbody a s h).bind
    intro p s' hp
    cases p with
    | next a' => exact ih (hp.1 a' rfl)
    | exit b => exact Meets.ret (hp.2 b rfl)

/-- A loop keeps to the rules, whatever its passes are answered, if they do under an invariant. -/
theorem Ensures.loop {P : Rules C A E} {spins : E} (hspins : ∀ t, P.stops t spins)
    {body : α → Prog C A E (Pass α β)} (I : List (C × A) → α → Prop) {Q : List (C × A) → β → Prop}
    (hbody : ∀ t a, I t a → (body a).Ensures P (fun t' p =>
      (∀ a', p = .next a' → I t' a') ∧ ∀ b, p = .exit b → Q t' b) t)
    (fuel : ℕ) {t : List (C × A)} {a : α} (h : I t a) : (Prog.loop spins body fuel a).Ensures P Q t := by
  induction fuel generalizing t a with
  | zero => exact hspins t
  | succ fuel ih =>
    rw [Prog.loop]
    apply (hbody t a h).bind
    intro t' p hp
    cases p with
    | next a' => exact ih (hp.1 a' rfl)
    | exit b => exact hp.2 b rfl

/-! ### Programs as parts of larger ones -/

/-- The program with its calls among more calls. -/
def via {D : Type} (f : C → D) : Prog C A E α → Prog D A E α
  | .ret a => .ret a
  | .stop e => .stop e
  | .call c k => .call (f c) fun a => (k a).via f

theorem run_via {D : Type} (f : C → D) (R : Responder D A σ) (p : Prog C A E α) (s : σ) :
    (p.via f).run R s = p.run (fun c => R (f c)) s := by
  induction p generalizing s with
  | ret a => rfl
  | stop e => rfl
  | call c k ih =>
    simp only [via, run]
    cases R (f c) s with
    | none => rfl
    | some r => exact ih r.1 r.2

theorem Meets.via {D : Type} {f : C → D} {R : Responder D A σ} (h : p.Meets (fun c => R (f c)) s Q) :
    (p.via f).Meets R s Q := by
  constructor
  intro a s' hrun
  rw [run_via] at hrun
  exact h.of_run a s' hrun

end M3Dev.CallTree.Prog
