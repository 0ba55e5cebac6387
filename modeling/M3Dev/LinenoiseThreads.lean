import M3Dev.EventSystem
import Mathlib.Logic.Function.Basic
import Mathlib.Tactic.SplitIfs

/-! The line editor and other threads that print, statement by statement: `linenoiseRaw` and
`linenoiseRead` on one side, `linenoisePause`, a `write` and `linenoiseResume` of any number of threads
on the other, with `linenoise_lock` between them. -/
namespace M3Dev.LinenoiseThreads
open EventSystem
variable {κ : Type*}

/-- Who has `linenoise_lock`. -/
inductive Owner (κ : Type*) where
  | editor
  | thread (k : κ)
  deriving DecidableEq

/-- What `poll` has returned with: `POLLIN` for the pipe, for the input, or an error. -/
structure Poll where
  pipe : Bool
  input : Bool
  failed : Bool
  deriving DecidableEq

/-- What the editor does next. -/
inductive Place where
  /-- `pthread_mutex_lock` of `linenoiseLock` -/
  | outside
  /-- `linenoise_active = 1` -/
  | locked
  /-- `enableRawMode` -/
  | entering
  /-- the first `write` of the prompt -/
  | starting
  /-- in the loop of `linenoiseEdit`, between two edits -/
  | editing
  /-- a `write` for the line, which has changed -/
  | updating
  | polling
  /-- `pthread_mutex_lock` behind `poll` -/
  | woken (p : Poll)
  /-- `if (linenoise_repaint)` -/
  | relocked (p : Poll)
  /-- `refreshLine`, with `linenoise_repaint` 0 again -/
  | repainting (p : Poll)
  /-- what `poll` has returned is looked at -/
  | resumed (p : Poll)
  /-- the loop of `linenoiseRead` once more -/
  | again
  /-- `disableRawMode` -/
  | leaving
  /-- `printf("\n")` -/
  | quiet
  /-- `linenoise_active = 0` -/
  | closing
  | unlocking
  deriving DecidableEq

/-- What a thread that prints does next. -/
inductive Turn where
  /-- `pthread_mutex_lock` of `linenoisePause` -/
  | idle
  /-- `if (linenoise_active)` -/
  | paused
  /-- the `write` that clears the row -/
  | clearing
  /-- `disableRawMode` -/
  | quieting
  /-- the `write` of `xprintf` -/
  | printing
  /-- `if (linenoise_active)` of `linenoiseResume` -/
  | printed
  /-- `linenoise_repaint = 1` -/
  | asking
  /-- `enableRawMode` -/
  | enabling
  /-- the `write` to the pipe -/
  | waking
  | unlocking
  deriving DecidableEq

/-- What is written to the terminal. -/
inductive Mark (κ : Type*) where
  /-- by the editor, which leaves the line on the terminal -/
  | draw
  /-- by the editor: `linenoiseClearScreen` -/
  | erase
  | newline
  /-- `linenoisePause` clears the row -/
  | clear (k : κ)
  /-- what a thread prints -/
  | text (k : κ)
  /-- `fprintf(stderr, ...)`, which takes no lock -/
  | stray
  deriving DecidableEq

/-- What was written last but for what takes no lock. -/
def lastKept (marks : List (Mark κ)) : Option (Mark κ) :=
  (marks.filter fun m => match m with
    | .stray => false
    | _ => true).getLast?

structure State (κ : Type*) where
  owner : Option (Owner κ)
  active : Bool
  repaint : Bool
  rawmode : Bool
  /-- the bytes in the pipe -/
  pipe : ℕ
  place : Place
  threads : κ → Turn
  written : List (Mark κ)

def State.start : State κ := ⟨none, false, false, false, 0, .outside, fun _ => .idle, []⟩

/-- Where the editor's code leaves a choice: an edit or none, what fails, what `poll` returns. -/
inductive Choice where
  | go
  | fail
  | edit
  | erase
  | leave
  | wake (p : Poll)

inductive Event (κ : Type*) where
  | editor (c : Choice)
  | thread (k : κ)
  | stray

namespace State

def write (s : State κ) (m : Mark κ) : State κ := { s with written := s.written ++ [m] }

def move [DecidableEq κ] (s : State κ) (k : κ) (t : Turn) : State κ :=
  { s with threads := Function.update s.threads k t }

/-- What was written last under the lock. -/
def last (s : State κ) : Option (Mark κ) := lastKept s.written

/-- What the thread with the lock does next. -/
def turn (s : State κ) : Turn :=
  match s.owner with
  | some (.thread k) => s.threads k
  | _ => .idle

end State

/-- The next statement of the editor. -/
def editorStep (s : State κ) (c : Choice) : Option (State κ) :=
  match s.place, c with
  | .outside, .go => if s.owner = none then some { s with owner := some .editor, place := .locked } else none
  | .locked, .go => some { s with active := true, place := .entering }
  | .entering, .go => some { s with rawmode := true, place := .starting }
  | .entering, .fail => some { s with place := .closing }
  | .starting, .go => some ({ s with place := .editing }.write .draw)
  | .starting, .fail => some { s with place := .leaving }
  | .editing, .edit => some { s with place := .updating }
  | .editing, .go => some { s with owner := none, place := .polling }
  | .editing, .leave => some { s with place := .leaving }
  | .updating, .erase => some (s.write .erase)
  | .updating, .go => some ({ s with place := .editing }.write .draw)
  | .updating, .fail => some { s with place := .leaving }
  | .polling, .wake p =>
    if (p.pipe = true → 0 < s.pipe) ∧ (p.pipe || p.input || p.failed) then
      some { s with place := .woken p }
    else none
  | .woken p, .go =>
    if s.owner = none then some { s with owner := some .editor, place := .relocked p } else none
  | .relocked p, .go =>
    if s.repaint then some { s with repaint := false, place := .repainting p }
    else some { s with place := .resumed p }
  | .repainting p, .go => some ({ s with place := .resumed p }.write .draw)
  | .resumed p, .go =>
    if p.failed then some { s with place := .leaving }
    else if p.pipe then some { s with pipe := s.pipe - 1, place := .again }
    else if p.input then some { s with place := .editing }
    else some { s with place := .again }
  | .again, .go => some { s with owner := none, place := .polling }
  | .leaving, .go => some { s with rawmode := false, place := .quiet }
  | .quiet, .go => some ({ s with place := .closing }.write .newline)
  | .closing, .go => some { s with active := false, place := .unlocking }
  | .unlocking, .go => some { s with owner := none, place := .outside }
  | _, _ => none

/-- The next statement of a thread that prints. -/
def threadStep [DecidableEq κ] (s : State κ) (k : κ) : Option (State κ) :=
  match s.threads k with
  | .idle =>
    if s.owner = none then some ({ s with owner := some (.thread k) }.move k .paused) else none
  | .paused => some (s.move k (if s.active then .clearing else .printing))
  | .clearing => some ((s.write (.clear k)).move k .quieting)
  | .quieting => some ({ s with rawmode := false }.move k .printing)
  | .printing => some ((s.write (.text k)).move k .printed)
  | .printed => some (s.move k (if s.active then .asking else .unlocking))
  | .asking => some ({ s with repaint := true }.move k .enabling)
  | .enabling => some ({ s with rawmode := true }.move k .waking)
  | .waking => some ({ s with pipe := s.pipe + 1 }.move k .unlocking)
  | .unlocking => some ({ s with owner := none }.move k .idle)

def step [DecidableEq κ] : Step (State κ) (Event κ)
  | s, .editor c => editorStep s c
  | s, .thread k => threadStep s k
  | s, .stray => some (s.write .stray)

/-! ### Where the lock is held -/

namespace Place

/-- The editor is at a statement between taking the lock and giving it up. -/
def holds : Place → Bool
  | outside | polling | woken _ => false
  | _ => true

def active : Place → Bool
  | outside | locked | unlocking => false
  | _ => true

/-- The editor has the terminal in raw mode, unless a thread has taken it out of it. -/
def raw : Place → Bool
  | outside | locked | entering | quiet | closing | unlocking => false
  | _ => true

/-- The pipe is to be read. -/
def drains : Place → Bool
  | woken p | relocked p | repainting p | resumed p => p.pipe
  | _ => false

/-- `linenoise_repaint` has been looked at. -/
def checked : Place → Bool
  | repainting _ | resumed _ => true
  | _ => false

/-- The line is on the terminal as it is. -/
def clean : Place → Bool
  | editing | resumed _ | again => true
  | _ => false

/-- The line is on the terminal, or will be drawn again. -/
def waits : Place → Bool
  | polling | woken _ | relocked _ => true
  | _ => false

/-- A key is read. -/
def reads : Place → Bool
  | resumed p => !p.failed && !p.pipe && p.input
  | _ => false

end Place

namespace Turn

/-- Only where `linenoise_active` is set does a turn come here. -/
def asks : Turn → Bool
  | clearing | quieting | asking | enabling | waking => true
  | _ => false

/-- Raw mode is as the editor has it. -/
def raw : Turn → Bool
  | printing | printed | asking | enabling => false
  | _ => true

/-- `linenoise_repaint` is set, and the byte for the pipe still to come. -/
def wakes : Turn → Bool
  | enabling | waking => true
  | _ => false

/-- The row is cleared, and `linenoise_repaint` not yet set. -/
def dirty : Turn → Bool
  | quieting | printing | printed | asking => true
  | _ => false

/-- The row is cleared, and nothing printed yet. -/
def cleared : Turn → Bool
  | quieting | printing => true
  | _ => false

end Turn

/-- Who is at a statement between the lock and the unlock has the lock. -/
structure Excludes (s : State κ) : Prop where
  editor : s.place.holds = true ↔ s.owner = some .editor
  thread : ∀ k, s.threads k ≠ .idle ↔ s.owner = some (.thread k)

/-- What the data are between two statements, by where the editor is, and the thread with the lock at
`t`. -/
structure Fits (s : State κ) (t : Turn) : Prop where
  active : s.active = s.place.active
  raw : s.rawmode = (s.place.raw && t.raw)
  asks : t.asks = true → s.active = true
  awake : s.repaint = true → 0 < s.pipe ∨ t.wakes = true
  drained : s.place.drains = true → 0 < s.pipe
  checked : s.place.checked = true → s.repaint = false
  clean : s.place.clean = true → s.last = some .draw
  waits : s.place.waits = true → s.last = some .draw ∨ s.repaint = true ∨ t.dirty = true
  cleared : t.cleared = true → s.active = true → ∀ k, s.owner = some (.thread k) →
    s.last = some (.clear k)

structure Inv (s : State κ) : Prop where
  excludes : Excludes s
  fits : Fits s s.turn

variable {s s' : State κ} {k : κ}

theorem lastKept_draw (marks : List (Mark κ)) : lastKept (marks ++ [.draw]) = some .draw := by
  simp [lastKept]

theorem lastKept_clear (marks : List (Mark κ)) (k : κ) :
    lastKept (marks ++ [.clear k]) = some (.clear k) := by
  simp [lastKept]

theorem lastKept_stray (marks : List (Mark κ)) : lastKept (marks ++ [.stray]) = lastKept marks := by
  simp [lastKept]

theorem turn_of_owner (h : s.owner = some (.thread k)) : s.turn = s.threads k := by
  rw [State.turn, h]

theorem turn_of_other (h : ∀ k, s.owner ≠ some (.thread k)) : s.turn = .idle := by
  rw [State.turn]
  split
  · next k hk => exact absurd hk (h k)
  · rfl

theorem Inv.start : Inv (State.start : State κ) where
  excludes := ⟨by simp [State.start, Place.holds], by simp [State.start]⟩
  fits :=
    { active := rfl
      raw := rfl
      asks := nofun
      awake := nofun
      drained := nofun
      checked := nofun
      clean := nofun
      waits := nofun
      cleared := nofun }

/-- The editor is outside or in `poll` while a thread has the lock. -/
theorem Excludes.free (h : Excludes s) (hk : s.owner = some (.thread k)) :
    s.place.checked = false ∧ s.place.clean = false ∧ s.place.raw = s.place.active ∧
      (s.place.waits = true → s.place.active = true) := by
  have hfree : ¬ s.place.holds = true := by
    rw [h.editor, hk]
    simp
  cases hplace : s.place
  all_goals simp_all [Place.holds, Place.checked, Place.clean, Place.raw, Place.active, Place.waits]

/-! ### Statements of the editor -/

theorem Excludes.editorStep (h : Excludes s) {c : Choice} (hs : editorStep s c = some s') :
    Excludes s' := by
  obtain ⟨hedit, hthread⟩ := h
  revert hs
  fun_cases LinenoiseThreads.editorStep s c
  all_goals
    intro hs
    cases hs
  all_goals constructor
  all_goals grind [State.write, Place.holds]

/-- No thread has the lock at a statement of the editor, but while the editor is in `poll`. -/
theorem editorStep_turn (h : Excludes s) {c : Choice} (hs : editorStep s c = some s') :
    (s.place = .polling ∨ s.turn = .idle) ∧ s'.turn = s.turn ∧
      ∀ k, s'.owner = some (.thread k) → s.owner = some (.thread k) := by
  obtain ⟨hedit, hthread⟩ := h
  revert hs
  fun_cases editorStep s c
  all_goals
    intro hs
    cases hs
  all_goals grind [State.write, State.turn, Place.holds]

section
variable {t : Turn} {c : Choice}

/-- The flag and the mode of the terminal, behind a statement of the editor. -/
theorem Fits.editorStep_mode (h : Fits s t) (ht : s.place = .polling ∨ t = .idle)
    (hs : LinenoiseThreads.editorStep s c = some s') :
    s'.active = s'.place.active ∧ s'.rawmode = (s'.place.raw && t.raw) ∧
      (t.asks = true → s'.active = true) := by
  obtain ⟨hactive, hraw, hasks, -⟩ := h
  revert hs
  fun_cases LinenoiseThreads.editorStep s c
  all_goals
    intro hs
    cases hs
  all_goals grind [State.write, Place.active, Place.raw, Turn.asks, Turn.raw]

/-- What asks for the line again, and the pipe. -/
theorem Fits.editorStep_pipe (h : Fits s t) (hs : LinenoiseThreads.editorStep s c = some s') :
    (s'.repaint = true → 0 < s'.pipe ∨ t.wakes = true) ∧ (s'.place.drains = true → 0 < s'.pipe) ∧
      (s'.place.checked = true → s'.repaint = false) := by
  obtain ⟨-, -, -, hawake, hdrained, hchecked, -⟩ := h
  revert hs
  fun_cases LinenoiseThreads.editorStep s c
  all_goals
    intro hs
    cases hs
  all_goals grind [State.write, Place.drains, Place.checked, Turn.wakes]

/-- What was written last. -/
theorem Fits.editorStep_last (h : Fits s t) (ht : s.place = .polling ∨ t = .idle)
    (hs : LinenoiseThreads.editorStep s c = some s') :
    (s'.place.clean = true → s'.last = some .draw) ∧
      (s'.place.waits = true → s'.last = some .draw ∨ s'.repaint = true ∨ t.dirty = true) := by
  obtain ⟨-, -, -, -, -, -, hclean, hwaits, -⟩ := h
  revert hs
  fun_cases LinenoiseThreads.editorStep s c
  all_goals
    intro hs
    cases hs
  all_goals grind [State.write, Place.clean, Place.waits, Turn.dirty, State.last, lastKept_draw]

/-- While a thread has cleared the row the editor is in `poll`, which writes nothing. -/
theorem Fits.editorStep_cleared (h : Fits s t) (ht : s.place = .polling ∨ t = .idle)
    (hs : LinenoiseThreads.editorStep s c = some s')
    (hown : ∀ k, s'.owner = some (.thread k) → s.owner = some (.thread k)) (hcleared : t.cleared = true)
    (hactive : s'.active = true) (k : κ) (hk : s'.owner = some (.thread k)) :
    s'.last = some (.clear k) := by
  have hpolling : s.place = .polling := by
    rcases ht with hp | rfl
    · exact hp
    · exact absurd hcleared nofun
  have hkept : s'.active = s.active ∧ s'.written = s.written := by
    unfold LinenoiseThreads.editorStep at hs
    rw [hpolling] at hs
    cases c with
    | wake p =>
      dsimp only at hs
      split at hs
      · obtain rfl := Option.some.inj hs
        exact ⟨rfl, rfl⟩
      · exact absurd hs nofun
    | _ => exact absurd hs nofun
  rw [State.last, hkept.2]
  exact h.cleared hcleared (hkept.1.symm.trans hactive) k (hown k hk)

theorem Fits.editorStep (h : Fits s t) (ht : s.place = .polling ∨ t = .idle)
    (hs : LinenoiseThreads.editorStep s c = some s')
    (hown : ∀ k, s'.owner = some (.thread k) → s.owner = some (.thread k)) : Fits s' t := by
  obtain ⟨hactive, hraw, hasks⟩ := h.editorStep_mode ht hs
  obtain ⟨hawake, hdrained, hchecked⟩ := h.editorStep_pipe hs
  obtain ⟨hclean, hwaits⟩ := h.editorStep_last ht hs
  exact ⟨hactive, hraw, hasks, hawake, hdrained, hchecked, hclean, hwaits,
    h.editorStep_cleared ht hs hown⟩

end

/-! ### Statements of a thread -/

namespace Fits

theorem pause (h : Fits s .idle) : Fits { s with owner := some (.thread k) } .paused :=
  { h with cleared := nofun }

/-- The look at `linenoise_active`. -/
theorem look (h : Fits s .paused) (hraw : s.place.raw = s.place.active) :
    Fits s (if s.active then .clearing else .printing) := by
  cases hactive : s.active with
  | true => exact { h with asks := fun _ => hactive, cleared := nofun }
  | false =>
    have hquiet : s.rawmode = false := by
      rw [h.raw, hraw, ← h.active, hactive]
      rfl
    exact { h with
      raw := by rw [hquiet]; exact (Bool.and_false _).symm
      asks := nofun
      waits := fun hw => (h.waits hw).imp_right fun hd => .inl (hd.resolve_right nofun)
      cleared := fun _ hon => absurd (hactive.symm.trans hon) nofun }

theorem clear (h : Fits s .clearing) (hown : s.owner = some (.thread k)) (hclean : s.place.clean = false) :
    Fits (s.write (.clear k)) .quieting :=
  { h with
    clean := fun hc => absurd (hclean.symm.trans hc) nofun
    waits := fun _ => .inr (.inr rfl)
    cleared := fun _ _ j hj => by
      obtain rfl : k = j := by simpa using hown.symm.trans hj
      exact lastKept_clear s.written k }

theorem quiet (h : Fits s .quieting) : Fits { s with rawmode := false } .printing :=
  { h with
    raw := (Bool.and_false _).symm
    asks := nofun }

theorem print (h : Fits s .printing) (hclean : s.place.clean = false) : Fits (s.write (.text k)) .printed :=
  { h with
    clean := fun hc => absurd (hclean.symm.trans hc) nofun
    waits := fun _ => .inr (.inr rfl)
    cleared := nofun }

/-- The look at `linenoise_active` again, which nobody has changed. -/
theorem lookAgain (h : Fits s .printed) (hraw : s.place.raw = s.place.active)
    (hwaits : s.place.waits = true → s.place.active = true) :
    Fits s (if s.active then .asking else .unlocking) := by
  cases hactive : s.active with
  | true => exact { h with asks := fun _ => hactive, cleared := nofun }
  | false =>
    have hout : s.place.active = false := h.active.symm.trans hactive
    exact { h with
      raw := by
        rw [h.raw, hraw, hout]
        rfl
      asks := nofun
      waits := fun hw => absurd (hout.symm.trans (hwaits hw)) nofun
      cleared := nofun }

theorem ask (h : Fits s .asking) (hchecked : s.place.checked = false) :
    Fits { s with repaint := true } .enabling :=
  { h with
    awake := fun _ => .inr rfl
    checked := fun hc => absurd (hchecked.symm.trans hc) nofun
    waits := fun _ => .inr (.inl rfl)
    cleared := nofun }

theorem enable (h : Fits s .enabling) (hraw : s.place.raw = s.place.active) :
    Fits { s with rawmode := true } .waking :=
  { h with
    raw := by
      show true = (s.place.raw && true)
      rw [hraw, ← h.active, h.asks rfl]
      rfl
    cleared := nofun }

theorem wake (h : Fits s .waking) : Fits { s with pipe := s.pipe + 1 } .unlocking :=
  { h with
    asks := nofun
    awake := fun _ => .inl (Nat.succ_pos _)
    drained := fun _ => Nat.succ_pos _ }

theorem unlock (h : Fits s .unlocking) : Fits { s with owner := none } .idle := { h with cleared := nofun }

end Fits

/-! ### What a run keeps to -/

/-- What is asked of a statement. A thread prints while the editor waits, or is outside: on a row
that it has cleared, with the terminal out of raw mode, and by itself. The editor draws the line and
reads a key while no thread is between its lock and its unlock, and it reads a key with raw mode on
and behind a line that is on the terminal. -/
def Orderly (s : State κ) : Event κ → Prop
  | .editor _ =>
    (s.place.holds = true → ∀ k, s.threads k = .idle) ∧
      (s.place.reads = true → s.rawmode = true ∧ s.last = some .draw)
  | .thread k =>
    s.threads k = .printing → s.place.holds = false ∧ s.rawmode = false ∧
      (s.active = true → s.last = some (.clear k)) ∧ ∀ j, s.threads j ≠ .idle → j = k
  | .stray => True

theorem Inv.orderly (h : Inv s) (e : Event κ) : Orderly s e := by
  cases e with
  | stray => trivial
  | editor c =>
    refine ⟨fun hholds k => ?_, fun hreads => ?_⟩
    · have hown := h.excludes.editor.mp hholds
      by_contra hk
      exact absurd (hown.symm.trans ((h.excludes.thread k).mp hk)) (by simp)
    · have hplace : s.place.holds = true ∧ s.place.raw = true ∧ s.place.clean = true := by
        cases hplace : s.place
        all_goals simp_all [Place.reads, Place.holds, Place.raw, Place.clean]
      obtain ⟨hholds, hraw, hclean⟩ := hplace
      have hturn : s.turn = .idle := turn_of_other (by simp [h.excludes.editor.mp hholds])
      refine ⟨?_, h.fits.clean hclean⟩
      rw [h.fits.raw, hraw, hturn]
      rfl
  | thread k =>
    intro hk
    have hown : s.owner = some (.thread k) := (h.excludes.thread k).mp (by rw [hk]; decide)
    have hturn : s.turn = .printing := (turn_of_owner hown).trans hk
    refine ⟨?_, ?_, fun hactive => ?_, fun j hj => ?_⟩
    · rw [← Bool.not_eq_true, h.excludes.editor, hown]
      simp
    · rw [h.fits.raw, hturn]
      exact Bool.and_false _
    · exact h.fits.cleared (by rw [hturn]; rfl) hactive k hown
    · have hj' := (h.excludes.thread j).mp hj
      rw [hown] at hj'
      simpa using hj'.symm

/-! ### Runs -/

variable [DecidableEq κ]

/-- A thread takes the lock with its first statement, gives it up with its last, and has it between
them; no other thread moves, and the editor stays. -/
theorem threadStep_frame (hs : threadStep s k = some s') :
    s'.place = s.place ∧ (∀ j ≠ k, s'.threads j = s.threads j) ∧
      ((s.threads k = .idle ∧ s.owner = none ∧ s'.owner = some (.thread k) ∧ s'.threads k ≠ .idle) ∨
        (s.threads k ≠ .idle ∧ s'.owner = s.owner ∧ s'.threads k ≠ .idle) ∨
        (s.threads k ≠ .idle ∧ s'.owner = none ∧ s'.threads k = .idle)) := by
  revert hs
  fun_cases threadStep s k
  all_goals
    intro hs
    cases hs
  all_goals simp_all [State.move, State.write]
  all_goals split <;> simp

theorem Excludes.threadStep (h : Excludes s) (hs : threadStep s k = some s') : Excludes s' := by
  obtain ⟨hplace, hothers, hk⟩ := threadStep_frame hs
  have hedit := h.editor
  have hthread := h.thread
  constructor
  · rw [hplace]
    grind
  · intro j
    by_cases hj : j = k
    · subst hj
      grind
    · rw [hothers j hj]
      grind

/-- What a thread does next where it has come to `t`. -/
theorem turn_move (h : s.owner = some (.thread k)) (t : Turn) : (s.move k t).turn = t := by
  have hsame : (s.move k t).turn = (s.move k t).threads k := turn_of_owner h
  rw [hsame]
  exact Function.update_self k t s.threads

theorem Fits.move {t : Turn} (h : Fits s t) (k : κ) (t' : Turn) : Fits (s.move k t') t :=
  ⟨h.active, h.raw, h.asks, h.awake, h.drained, h.checked, h.clean, h.waits, h.cleared⟩

theorem Fits.moved {t : Turn} (h : Fits s t) (hown : s.owner = some (.thread k)) :
    Fits (s.move k t) (s.move k t).turn := by
  rw [turn_move hown]
  exact h.move k t

theorem Inv.thread (h : Inv s) (hs : threadStep s k = some s') : Inv s' := by
  refine ⟨h.excludes.threadStep hs, ?_⟩
  by_cases hidle : s.threads k = .idle
  · simp only [LinenoiseThreads.threadStep, hidle, Option.ite_none_right_eq_some] at hs
    obtain ⟨hnone, hs⟩ := hs
    obtain rfl := Option.some.inj hs
    have hturn : s.turn = .idle := turn_of_other (by simp [hnone])
    have hfits : Fits s .idle := hturn ▸ h.fits
    exact hfits.pause.moved rfl
  have hown : s.owner = some (.thread k) := (h.excludes.thread k).mp hidle
  obtain ⟨hchecked, hclean, hraw, hwaits⟩ := h.excludes.free hown
  have hfits : Fits s (s.threads k) := turn_of_owner hown ▸ h.fits
  unfold LinenoiseThreads.threadStep at hs
  cases hturn : s.threads k
  all_goals
    rw [hturn] at hs hfits
  case idle => exact absurd hturn hidle
  all_goals
    obtain rfl := Option.some.inj hs
  case unlocking => exact hfits.unlock.move k _
  case paused => exact (hfits.look hraw).moved hown
  case clearing => exact (hfits.clear hown hclean).moved hown
  case quieting => exact hfits.quiet.moved hown
  case printing => exact (hfits.print hclean).moved hown
  case printed => exact (hfits.lookAgain hraw hwaits).moved hown
  case asking => exact (hfits.ask hchecked).moved hown
  case enabling => exact (hfits.enable hraw).moved hown
  case waking => exact hfits.wake.moved hown

theorem Inv.step (h : Inv s) {e : Event κ} (hs : step s e = some s') : Inv s' := by
  cases e with
  | editor c =>
    refine ⟨h.excludes.editorStep hs, ?_⟩
    obtain ⟨hidle, hturn, hown⟩ := editorStep_turn h.excludes hs
    rw [hturn]
    exact h.fits.editorStep hidle hs hown
  | thread k => exact h.thread hs
  | stray =>
    obtain rfl := Option.some.inj hs
    have hlast : (s.write .stray).last = s.last := lastKept_stray s.written
    have hfits := h.fits
    refine ⟨⟨h.excludes.editor, h.excludes.thread⟩, ?_⟩
    exact { hfits with
      clean := hlast ▸ hfits.clean
      waits := hlast ▸ hfits.waits
      cleared := hlast ▸ hfits.cleared }

/-- However the statements of the editor and of the threads that print fall: what a thread prints
comes between the editor's updates, by itself, on a cleared row and out of raw mode; and while the
editor waits, its line is on the terminal, or will be drawn again: then there is a byte in the pipe,
so that `poll` returns. -/
theorem output_between_keys {es : List (Event κ)}
    (h : Run step (fun _ _ => True) State.start es s) : Run step Orderly State.start es s ∧
      (s.owner = none → s.place = .polling → s.last = some .draw ∨ s.repaint = true ∧ 0 < s.pipe) := by
  have hinv : Inv s := h.invariant Inv (fun _ _ _ hI _ hs => hI.step hs) .start
  refine ⟨h.strengthen Inv (fun _ e _ hI _ hs => ⟨hI.step hs, hI.orderly e⟩) .start, fun hnone hplace => ?_⟩
  have hturn : s.turn = .idle := turn_of_other (by simp [hnone])
  have hfits : Fits s .idle := hturn ▸ hinv.fits
  rcases hfits.waits (by rw [hplace]; rfl) with hlast | hr | hdirty
  · exact .inl hlast
  · exact .inr ⟨hr, (hfits.awake hr).resolve_right nofun⟩
  · exact absurd hdirty nofun

/-- A thread prints while the editor waits, and another one past the lock. -/
def turn : List (Event ℕ) :=
  List.replicate 5 (.editor .go) ++ List.replicate 4 (.thread 7) ++ [.stray] ++
    List.replicate 6 (.thread 7) ++ [.editor (.wake ⟨true, false, false⟩), .editor .go, .editor .go,
      .editor .go, .editor .go, .editor .go]

theorem output_between_keys_turn : ∃ s, Run step Orderly State.start turn s ∧
    s.written = [.draw, .clear 7, .stray, .text 7, .draw] ∧ s.place = .polling := by
  have hend : (runEvents step (fun _ _ => True) turn State.start).map
      (fun s => (s.written, s.place)) =
        some ([.draw, .clear 7, .stray, .text 7, .draw], .polling) := by decide
  obtain ⟨s, hrun, hfacts⟩ := Option.map_eq_some_iff.mp hend
  obtain ⟨hwritten, hplace⟩ := Prod.mk.inj hfacts
  exact ⟨s, (output_between_keys (run_of_runEvents hrun)).1, hwritten, hplace⟩

end M3Dev.LinenoiseThreads
