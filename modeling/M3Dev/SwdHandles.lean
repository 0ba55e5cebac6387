import M3Dev.SwdThreads
import Mathlib.Data.List.Nodup
import Mathlib.Data.List.Range

/-! The USB handle of `rswdp.c`: who has it, and when it is closed. -/
namespace M3Dev.Threads
open EventSystem Rswdp
variable {κ : Type*}

/-- The threads, with the two things `swd_reader` does that leave the slot alone. -/
inductive LinkEvent (κ : Type*) where
  | swd (e : Event κ)
  /-- `usb_open` finds no device, and `usb` is `NULL` -/
  | openFails
  /-- `usb_read_forever` returns a packet that is not of whole words -/
  | discard

def linkStep [DecidableEq κ] : Step (Swd κ) (LinkEvent κ)
  | s, .swd e => step s e
  | s, .openFails => if s.reader = .opening then some { s with usb := none } else none
  | s, .discard =>
    match s.reader with
    | .reading _ => some s
    | _ => none

/-- What the step passes to `usb_write`, if it comes to that. -/
def writesTo (s : Swd κ) : LinkEvent κ → Option (Option Handle)
  | .swd (.enter _ _ _) => if s.swdOnline = 1 then some s.usb else none
  | .swd (.query _) => some s.usb
  | _ => none

/-- `usb_open` has returned the handle, and it was not closed since. -/
def IsOpen (s : Swd κ) (h : Handle) : Prop := h < s.handles ∧ some h ∉ s.closed

/-- The first handles that `usb_open` returned, in order. -/
def firstHandles (n : ℕ) : List (Option Handle) := (List.range n).map some

/-- The last handle is in `usb`, all others are closed. -/
def Held (s : Swd κ) : Prop := ∃ h, s.handles = h + 1 ∧ s.usb = some h ∧ s.closed = firstHandles h

/-- All handles are closed. -/
def Free (s : Swd κ) : Prop := s.closed = firstHandles s.handles

/-- Who has the handle. -/
def HandleInv (s : Swd κ) : Prop :=
  match s.reader with
  | .opening => s.swdOnline = 0 ∧ Free s
  | .opened => s.swdOnline = 0 ∧ Held s
  | .reading _ => (s.swdOnline = 0 ∨ s.swdOnline = 1) ∧ Held s
  | .closing => s.swdOnline = -1 ∧ Held s ∨ s.swdOnline = 0 ∧ Free s

variable {s s' : Swd κ}

theorem firstHandles_succ (n : ℕ) : firstHandles (n + 1) = firstHandles n ++ [some n] := by
  rw [firstHandles, List.range_succ, List.map_append]
  rfl

theorem mem_firstHandles {n h : ℕ} : some h ∈ firstHandles n ↔ h < n := by
  simp [firstHandles]

theorem firstHandles_nodup (n : ℕ) : (firstHandles n).Nodup :=
  List.nodup_range.map (Option.some_injective _)

theorem Held.isOpen (h : Held s) : ∃ n, s.usb = some n ∧ IsOpen s n := by
  obtain ⟨n, hn, husb, hclosed⟩ := h
  refine ⟨n, husb, ?_, ?_⟩
  · rw [hn]
    exact Nat.lt_succ_self n
  · rw [hclosed, mem_firstHandles]
    exact Nat.lt_irrefl n

theorem Held.frame (h : Held s) (hh : s'.handles = s.handles) (hu : s'.usb = s.usb)
    (hc : s'.closed = s.closed) : Held s' := by
  obtain ⟨n, hn, husb, hclosed⟩ := h
  exact ⟨n, hh.trans hn, hu.trans husb, hc.trans hclosed⟩

theorem HandleInv.frame (h : HandleInv s) (hr : s'.reader = s.reader)
    (ho : s'.swdOnline = s.swdOnline) (hh : s'.handles = s.handles) (hu : s'.usb = s.usb)
    (hc : s'.closed = s.closed) : HandleInv s' := by
  unfold HandleInv Held Free at *
  rw [hr, ho, hh, hu, hc]
  exact h

/-- With a caller to acknowledge the disconnect, the reader waits and the handle is still there. -/
theorem HandleInv.offline (h : HandleInv s) (hoff : s.swdOnline = -1) :
    s.reader = .closing ∧ Held s := by
  unfold HandleInv at h
  split at h
  · exact absurd (hoff.symm.trans h.1) (by decide)
  · exact absurd (hoff.symm.trans h.1) (by decide)
  · rcases h.1 with hzero | hone
    · exact absurd (hoff.symm.trans hzero) (by decide)
    · exact absurd (hoff.symm.trans hone) (by decide)
  · next hclosing =>
    rcases h with hheld | hfree
    · exact ⟨hclosing, hheld.2⟩
    · exact absurd (hoff.symm.trans hfree.1) (by decide)

theorem HandleInv.online (h : HandleInv s) (hon : s.swdOnline = 1) : Held s := by
  unfold HandleInv at h
  split at h
  · exact absurd (hon.symm.trans h.1) (by decide)
  · exact absurd (hon.symm.trans h.1) (by decide)
  · exact h.2
  · rcases h with hheld | hfree
    · exact hheld.2
    · exact absurd (hon.symm.trans hfree.1) (by decide)

theorem HandleInv.enter [DecidableEq κ] (h : HandleInv s) (t : κ) (stale : List Word) (ok : Bool) :
    HandleInv (qEnter t stale ok s) := by
  unfold qEnter
  dsimp only
  split
  · split
    · -- the caller closes the handle for the reader
      next hoff =>
      obtain ⟨hclosing, n, hn, husb, hclosed⟩ := h.offline hoff
      have hfree : s.closed ++ [s.usb] = firstHandles s.handles := by
        rw [hclosed, husb, hn, firstHandles_succ]
      unfold HandleInv
      rw [hclosing]
      exact .inr ⟨rfl, hfree⟩
    · exact h.frame rfl rfl rfl rfl rfl
  · split
    · exact h.frame rfl rfl rfl rfl rfl
    · exact h.frame rfl rfl rfl rfl rfl

theorem HandleInv.wake [DecidableEq κ] (h : HandleInv s) (t : κ) (id : Word) (data : List Word) :
    HandleInv (qWake t id data s) := by
  unfold qWake
  dsimp only
  split
  · exact h
  · split <;> split
    all_goals exact h.frame rfl rfl rfl rfl rfl

theorem HandleInv.readerTurn [DecidableEq κ] (h : HandleInv s) {q : Word} (hq : s.reader = .reading q) {p : Packet}
    (hturn : Turns q p s s') : HandleInv s' := by
  cases hturn with
  | queried _ _ =>
    have hheld : Held s := by
      unfold HandleInv at h
      rw [hq] at h
      exact h.2
    exact ⟨.inr rfl, hheld.frame rfl rfl rfl⟩
  | async _ => exact h
  | replied _ _ _ => exact h.frame rfl rfl rfl rfl rfl
  | unexpected _ => exact h.frame rfl rfl rfl rfl rfl

theorem handleInv_step [DecidableEq κ] {e : Event κ} (h : HandleInv s) (hstep : step s e = some s') : HandleInv s' := by
  cases step_takes hstep with
  | enter _ => exact h.enter _ _ _
  | wake _ => exact h.wake _ _ _
  | usbOpen hopening =>
    unfold HandleInv at h
    rw [hopening] at h
    exact ⟨h.1, s.handles, rfl, rfl, h.2⟩
  | query hopened =>
    unfold HandleInv at h
    rw [hopened] at h
    obtain ⟨hzero, hheld⟩ := h
    split_ifs
    · exact ⟨.inl hzero, hheld.frame rfl rfl rfl⟩
    · exact ⟨.inl hzero, hheld.frame rfl rfl rfl⟩
  | answer _ => exact h.frame rfl rfl rfl rfl rfl
  | async => exact h.frame rfl rfl rfl rfl rfl
  | @read _ _ ps _ hreading _ hturn =>
    have hrest : HandleInv { s with replies := ps } := h.frame rfl rfl rfl rfl rfl
    exact hrest.readerTurn hreading hturn
  | readError hreading =>
    unfold HandleInv at h
    rw [hreading] at h
    exact .inl ⟨rfl, h.2.frame rfl rfl rfl⟩
  | restart hclosing honline =>
    unfold HandleInv at h
    rw [hclosing] at h
    rcases h with hheld | hfree
    · exact absurd hheld.1 honline
    · exact hfree

theorem handleInv_linkStep [DecidableEq κ] {e : LinkEvent κ} (h : HandleInv s) (hstep : linkStep s e = some s') :
    HandleInv s' := by
  cases e with
  | swd e => exact handleInv_step h hstep
  | openFails =>
    simp only [linkStep] at hstep
    split_ifs at hstep with hopening
    obtain rfl := Option.some.inj hstep
    unfold HandleInv at *
    rw [hopening] at h
    simp only [hopening]
    exact h
  | discard =>
    simp only [linkStep] at hstep
    split at hstep
    · obtain rfl := Option.some.inj hstep
      exact h
    · exact absurd hstep (by simp)

/-- The use of handles in a state is sound. -/
structure HandlesSound [DecidableEq κ] (s : Swd κ) : Prop where
  online : s.swdOnline = 1 → ∃ h, s.usb = some h ∧ IsOpen s h
  writes : ∀ e u, linkStep s e ≠ none → writesTo s e = some u → ∃ h, u = some h ∧ IsOpen s h
  closedOnce : s.closed.Nodup
  closedReal : ∀ u ∈ s.closed, ∃ h < s.handles, u = some h
  reopen : s.reader = .opening → ∀ h < s.handles, some h ∈ s.closed

theorem HandleInv.closed (h : HandleInv s) : ∃ n ≤ s.handles, s.closed = firstHandles n := by
  have hcases : Held s ∨ Free s := by
    unfold HandleInv at h
    split at h
    · exact .inr h.2
    · exact .inl h.2
    · exact .inl h.2
    · exact h.imp And.right And.right
  rcases hcases with ⟨n, hn, _, hclosed⟩ | hfree
  · exact ⟨n, hn.symm ▸ Nat.le_succ n, hclosed⟩
  · exact ⟨s.handles, le_rfl, hfree⟩

theorem HandleInv.sound [DecidableEq κ] (h : HandleInv s) : HandlesSound s where
  online := fun hon => (h.online hon).isOpen
  writes := by
    intro e u hstep hu
    cases e with
    | swd e =>
      cases e with
      | enter t stale ok =>
        simp only [writesTo] at hu
        split_ifs at hu with hon
        obtain rfl := Option.some.inj hu
        exact (h.online hon).isOpen
      | query ok =>
        obtain rfl := Option.some.inj hu
        have hopened : s.reader = .opened := by
          by_contra hne
          exact hstep (by simp only [linkStep, step, if_neg hne])
        unfold HandleInv at h
        rw [hopened] at h
        exact h.2.isOpen
      | wake | usbOpen | answer | async | read | readError | restart =>
        exact absurd hu (by simp [writesTo])
    | openFails | discard => exact absurd hu (by simp [writesTo])
  closedOnce := by
    obtain ⟨n, _, hclosed⟩ := h.closed
    rw [hclosed]
    exact firstHandles_nodup n
  closedReal := by
    obtain ⟨n, hn, hclosed⟩ := h.closed
    intro u hu
    rw [hclosed, firstHandles, List.mem_map] at hu
    obtain ⟨i, hi, rfl⟩ := hu
    exact ⟨i, lt_of_lt_of_le (List.mem_range.mp hi) hn, rfl⟩
  reopen := by
    intro hopening i hi
    unfold HandleInv at h
    rw [hopening] at h
    rw [h.2, mem_firstHandles]
    exact hi

/-- In every run of the reader and any number of callers, whatever the device does. -/
theorem handles_sound [DecidableEq κ] (es : List (LinkEvent κ))
    (h : Run linkStep (fun _ _ => True) (init : Swd κ) es s) : HandlesSound s := by
  apply HandleInv.sound
  have hinit : HandleInv (init : Swd κ) := ⟨rfl, rfl⟩
  exact h.invariant HandleInv (fun s e s' hI _ hstep => handleInv_linkStep hI hstep) hinit

/-- Two threads; the link is lost, and one of them closes the handle. -/
theorem handles_sound_lost : ∃ s : Swd Bool, s.closed = [some 0] ∧ s.usb = some 1 ∧ HandlesSound s := by
  have hrun : ∃ s, runEvents linkStep (fun _ _ => True)
      [.openFails, .swd .usbOpen, .swd (.query true), .discard, .swd (.answer 0 []), .swd .read,
        .swd (.enter true [] true), .swd (.readError true), .swd (.enter false [] true),
        .swd (.wake true), .swd .restart, .swd .usbOpen] (init : Swd Bool) = some s ∧
      s.closed = [some 0] ∧ s.usb = some 1 := ⟨_, rfl, rfl, rfl⟩
  obtain ⟨s, hs, hclosed, husb⟩ := hrun
  exact ⟨s, hclosed, husb, handles_sound _ (run_of_runEvents hs)⟩

end M3Dev.Threads
