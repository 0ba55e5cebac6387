import M3Dev.Interleaving

/-! Two parties with a queue of messages in each direction, of limited room. What a party does next
is up to its own state, so that nothing depends on the order in which the two are served. -/
namespace M3Dev.FifoLink
open Interleaving

/-- What a party does next. -/
inductive Act (σ M : Type) where
  | stop
  | go (s : σ)
  | send (m : M) (s : σ)
  | receive (k : M → σ)

/-- The parties, and the messages on their way out, to the right one, and in, to the left one. -/
structure Pair (σ τ M : Type) where
  left : σ
  right : τ
  out : List M
  inn : List M

/-- A party with its next act, the messages behind it and the ones before it. -/
def serve {σ M : Type} (room : ℕ) : Act σ M → List M → List M → Option (σ × List M × List M)
  | .stop, _, _ => none
  | .go s, behind, ahead => some (s, behind, ahead)
  | .send m s, behind, ahead => if ahead.length < room then some (s, behind, ahead ++ [m]) else none
  | .receive k, m :: behind, ahead => some (k m, behind, ahead)
  | .receive _, [], _ => none

section
variable {σ τ M : Type} (room : ℕ) (l : σ → Act σ M) (r : τ → Act τ M)

def leftStep (s : Pair σ τ M) : Option (Pair σ τ M) :=
  (serve room (l s.left) s.inn s.out).map fun x => ⟨x.1, s.right, x.2.2, x.2.1⟩

def rightStep (s : Pair σ τ M) : Option (Pair σ τ M) :=
  (serve room (r s.right) s.out s.inn).map fun x => ⟨s.left, x.1, x.2.1, x.2.2⟩

variable {room l r}

/-- What a party took and what it sent; it does the same with more behind what it takes, and with more
room for what it sends. -/
theorem serve_effect {a : Act σ M} {f f' t t' : List M} {s : σ} (h : serve room a f t = some (s, f', t')) :
    ∃ took sent, f = took ++ f' ∧ t' = t ++ sent ∧
      ∀ g u, u.length ≤ t.length → serve room a (took ++ g) u = some (s, g, u ++ sent) := by
  cases a with
  | stop => exact absurd h (by simp [serve])
  | go s1 =>
    simp only [serve, Option.some.injEq, Prod.mk.injEq] at h
    obtain ⟨rfl, rfl, rfl⟩ := h
    refine ⟨[], [], rfl, (List.append_nil _).symm, fun g u _ => ?_⟩
    rw [List.append_nil]
    rfl
  | send m s1 =>
    rw [serve] at h
    by_cases hroom : t.length < room
    · rw [if_pos hroom] at h
      simp only [Option.some.injEq, Prod.mk.injEq] at h
      obtain ⟨rfl, rfl, rfl⟩ := h
      exact ⟨[], [m], rfl, rfl, fun g u hu => if_pos (Nat.lt_of_le_of_lt hu hroom)⟩
    · rw [if_neg hroom] at h
      exact absurd h (by simp)
  | receive k =>
    cases f with
    | nil => exact absurd h (by simp [serve])
    | cons m f =>
      simp only [serve, Option.some.injEq, Prod.mk.injEq] at h
      obtain ⟨rfl, rfl, rfl⟩ := h
      refine ⟨[m], [], rfl, (List.append_nil _).symm, fun g u _ => ?_⟩
      rw [List.append_nil]
      rfl

theorem serve_cases {a : Act σ M} {f f' t t' : List M} {s : σ} (h : serve room a f t = some (s, f', t')) :
    a = .go s ∨ (∃ m, a = .send m s) ∨ ∃ k m, a = .receive k ∧ s = k m := by
  cases a with
  | stop => exact absurd h (by simp [serve])
  | go s1 =>
    simp only [serve, Option.some.injEq, Prod.mk.injEq] at h
    exact .inl (congrArg _ h.1)
  | send m s1 =>
    rw [serve] at h
    by_cases hroom : t.length < room
    · rw [if_pos hroom] at h
      simp only [Option.some.injEq, Prod.mk.injEq] at h
      exact .inr (.inl ⟨m, congrArg _ h.1⟩)
    · rw [if_neg hroom] at h
      exact absurd h (by simp)
  | receive k =>
    cases f with
    | nil => exact absurd h (by simp [serve])
    | cons m f =>
      simp only [serve, Option.some.injEq, Prod.mk.injEq] at h
      exact .inr (.inr ⟨k, m, rfl, h.1.symm⟩)

/-- The order does not matter. -/
theorem independent (room : ℕ) (l : σ → Act σ M) (r : τ → Act τ M) :
    Independent (leftStep room l : Pair σ τ M → _) (rightStep room r) := by
  intro s s1 s2 hl hr
  obtain ⟨⟨sl, inn, out⟩, hserve, rfl⟩ := Option.map_eq_some_iff.mp hl
  obtain ⟨⟨sr, out', inn'⟩, hserve', rfl⟩ := Option.map_eq_some_iff.mp hr
  obtain ⟨took, sent, htook, rfl, hleft⟩ := serve_effect hserve
  obtain ⟨took', sent', htook', rfl, hright⟩ := serve_effect hserve'
  have hinn : inn.length ≤ s.inn.length := by
    rw [htook, List.length_append]
    exact Nat.le_add_left _ _
  have hout : out'.length ≤ s.out.length := by
    rw [htook', List.length_append]
    exact Nat.le_add_left _ _
  refine ⟨⟨sl, sr, out' ++ sent, inn ++ sent'⟩, ?_, ?_⟩
  · have hnext := hright (out' ++ sent) inn hinn
    rw [← List.append_assoc, ← htook'] at hnext
    exact congrArg _ hnext
  · have hnext := hleft (inn ++ sent') out' hout
    rw [← List.append_assoc, ← htook] at hnext
    exact congrArg _ hnext

/-! ### Steps one after the other -/

/-- Some run leads from one state to the other. -/
def Goes (room : ℕ) (l : σ → Act σ M) (r : τ → Act τ M) (s t : Pair σ τ M) : Prop :=
  ∃ n, Steps (leftStep room l) (rightStep room r) n s t

variable {s t u : Pair σ τ M} {x x' : σ} {y y' : τ} {m : M} {out inn : List M}

theorem Goes.refl (s : Pair σ τ M) : Goes room l r s s := ⟨0, .refl s⟩

theorem Goes.trans (h : Goes room l r s t) (h' : Goes room l r t u) : Goes room l r s u := by
  obtain ⟨n, hn⟩ := h
  obtain ⟨m, hm⟩ := h'
  exact ⟨n + m, hn.trans hm⟩

theorem Goes.step (h : Step (leftStep room l) (rightStep room r) s t) (h' : Goes room l r t u) :
    Goes room l r s u := by
  obtain ⟨n, hn⟩ := h'
  exact ⟨n + 1, .step h hn⟩

theorem left_goes (h : l x = .go x') (h' : Goes room l r ⟨x', y, out, inn⟩ u) :
    Goes room l r ⟨x, y, out, inn⟩ u := by
  apply Goes.step _ h'
  left
  show (serve room (l x) inn out).map _ = _
  rw [h]
  rfl

theorem left_sends (h : l x = .send m x') (hroom : out.length < room)
    (h' : Goes room l r ⟨x', y, out ++ [m], inn⟩ u) : Goes room l r ⟨x, y, out, inn⟩ u := by
  apply Goes.step _ h'
  left
  show (serve room (l x) inn out).map _ = _
  rw [h, serve, if_pos hroom]
  rfl

theorem left_receives {k : M → σ} (h : l x = .receive k) (h' : Goes room l r ⟨k m, y, out, inn⟩ u) :
    Goes room l r ⟨x, y, out, m :: inn⟩ u := by
  apply Goes.step _ h'
  left
  show (serve room (l x) (m :: inn) out).map _ = _
  rw [h]
  rfl

theorem right_goes (h : r y = .go y') (h' : Goes room l r ⟨x, y', out, inn⟩ u) :
    Goes room l r ⟨x, y, out, inn⟩ u := by
  apply Goes.step _ h'
  right
  show (serve room (r y) out inn).map _ = _
  rw [h]
  rfl

theorem right_sends (h : r y = .send m y') (hroom : inn.length < room)
    (h' : Goes room l r ⟨x, y', out, inn ++ [m]⟩ u) : Goes room l r ⟨x, y, out, inn⟩ u := by
  apply Goes.step _ h'
  right
  show (serve room (r y) out inn).map _ = _
  rw [h, serve, if_pos hroom]
  rfl

theorem right_receives {k : M → τ} (h : r y = .receive k) (h' : Goes room l r ⟨x, k m, out, inn⟩ u) :
    Goes room l r ⟨x, y, m :: out, inn⟩ u := by
  apply Goes.step _ h'
  right
  show (serve room (r y) (m :: out) inn).map _ = _
  rw [h]
  rfl

/-- An idle left party, and a right one that waits for a message that is not under way. -/
theorem ended_waiting {k : M → τ} (hl : l x = .stop) (hr : r y = .receive k) (inn : List M) :
    Ended (leftStep room l) (rightStep room r) ⟨x, y, [], inn⟩ := by
  constructor
  · show (serve room (l x) inn []).map _ = none
    rw [hl]
    rfl
  · show (serve room (r y) [] inn).map _ = none
    rw [hr]
    rfl

end

end M3Dev.FifoLink
