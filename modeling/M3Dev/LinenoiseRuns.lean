import M3Dev.LinenoiseScreen

/-! Runs of the line editor: whatever it is answered, it does what a plain editor does with the
keys typed, and while it waits for a key the terminal shows the line. -/
namespace M3Dev.Linenoise
open CallTree WhileLoop TextCursor Buffer TerminalScreen

/-- Where an editor is started: the terminal it writes to, and the history. -/
structure Setting (σ : Type*) extends Setup where
  terminal : Terminal σ
  obeys : terminal.Obeys cols
  screen : σ
  entries : List Text

/-- A character that is a key, or one that a terminal prints. -/
def Typeable (c : Byte) : Prop := Key.of c = .char → printable c = true

def Editor.Plain (e : Editor) : Prop :=
  (∀ c ∈ e.line.text, printable c = true) ∧ ∀ t ∈ e.history, ∀ c ∈ t, printable c = true

namespace Setting
variable {σ : Type*}

/-- What is expected of the answers: printable characters are typed, other threads ask for the
line to be drawn again where they have written and do not stop within an escape sequence, and the
terminal takes what is written. -/
def Fair (S : Setting σ) : Call × Answer → Prop
  | (.read, a) => Typeable a.byte
  | (.poll, a) => (a.others = [] ∨ a.repaint = true) ∧
      ∀ s, S.terminal.Ground s → S.terminal.Ground (S.terminal.write s a.others)
  | (.write b, a) => a.count = b.length
  | (.drain, _) => True

/-- What a call and its answer do to the terminal. -/
def shown (S : Setting σ) (s : σ) : Call × Answer → σ
  | (.write b, _) => S.terminal.write s b
  | (.poll, a) => S.terminal.write s a.others
  | _ => s

def session (S : Setting σ) (t : List (Call × Answer)) : Session :=
  Session.run S.room ⟨.start S.entries, .key⟩ t

def screenAfter (S : Setting σ) (t : List (Call × Answer)) : σ := t.foldl S.shown S.screen

/-- Everything is printable, there is a prompt, the cursor's row is empty, and the answers are as
expected. -/
structure Clear (S : Setting σ) (t : List (Call × Answer)) : Prop where
  nonempty : S.prompt ≠ []
  prompt : ∀ c ∈ S.prompt, printable c = true
  entries : ∀ h ∈ S.entries, ∀ c ∈ h, printable c = true
  empty : S.terminal.Shows S.cols S.screen [] 0
  fair : ∀ x ∈ t, S.Fair x

/-- The terminal shows a line. -/
def On (S : Setting σ) (s : σ) (z : Cursor Byte) : Prop := S.toSetup.Shows S.terminal s z

/-- Between two keys. -/
structure Ready (S : Setting σ) (t : List (Call × Answer)) (l : State) (e : Editor) : Prop where
  session : S.session t = ⟨e, .key⟩
  edits : Edits S.toSetup l e
  plain : S.Clear t → e.Plain
  shows : S.Clear t → S.On (S.screenAfter t) e.line

/-- While the editor waits for a key, the line is on the terminal. -/
def rules (S : Setting σ) : Prog.Rules Call Answer Halt where
  allows t c := c = .poll →
    (S.session t).phase = .key ∧ (S.Clear t → S.On (S.screenAfter t) (S.session t).editor.line)
  stops _ h := h = .running

end Setting

variable {σ : Type*} {S : Setting σ} {t : List (Call × Answer)} {l : State} {e e' : Editor}

theorem session_concat (x : Call × Answer) :
    S.session (t ++ [x]) = (S.session t).step S.room x := Session.run_concat ..

theorem screenAfter_concat (x : Call × Answer) :
    S.screenAfter (t ++ [x]) = S.shown (S.screenAfter t) x := List.foldl_concat ..

theorem Setting.Clear.of_concat {x : Call × Answer} (h : S.Clear (t ++ [x])) : S.Clear t ∧ S.Fair x :=
  ⟨{ h with fair := fun y hy => h.fair y (List.mem_append_left _ hy) },
    h.fair x (List.mem_append_right _ (List.mem_singleton_self x))⟩

/-! ### What is printable -/

theorem Editor.Plain.edit (h : e.Plain) {f : Cursor Byte → Cursor Byte}
    (hf : ∀ c ∈ (f e.line).text, c ∈ e.line.text) : (e.edit f).Plain :=
  ⟨fun c hc => h.1 c (hf c hc), h.2⟩

theorem Editor.Plain.insert (h : e.Plain) (room : ℕ) {c : Byte} (hc : printable c = true) :
    (e.insert room c).Plain := by
  rw [Editor.insert]
  split
  · refine ⟨fun d hd => ?_, h.2⟩
    rcases Cursor.mem_insert hd with rfl | hd
    · exact hc
    · exact h.1 d hd
  · exact h

theorem Editor.Plain.line (h : e.Plain) : ∀ c ∈ text e.line.text, printable c = true :=
  fun c hc => h.1 c ((List.takeWhile_sublist _).mem hc)

/-- A line taken from an entry, with entries that were there or the line. -/
theorem Editor.Plain.takeUp (h : e.Plain) {room : ℕ} {u : Text} {older newer : List Text}
    (hentries : ∀ v ∈ older.reverse ++ u :: newer, v = text e.line.text ∨ v ∈ e.history)
    (hu : u ∈ e.history) : (⟨.atEnd (u.take (room - 1)), older, u, newer⟩ : Editor).Plain := by
  refine ⟨fun c hc => ?_, fun v hv => ?_⟩
  · rw [Cursor.text_atEnd] at hc
    exact h.2 u hu c (List.mem_of_mem_take hc)
  · rcases hentries v hv with rfl | hv
    · exact h.line
    · exact h.2 v hv

theorem Editor.Plain.record (h : e.Plain) : e.record.Plain := by
  refine ⟨h.1, fun v hv => ?_⟩
  rcases List.mem_append.mp hv with hv | hv
  · exact h.2 v (List.mem_append_left _ hv)
  · rcases List.mem_cons.mp hv with rfl | hv
    · exact h.line
    · exact h.2 v (List.mem_append_right _ (List.mem_cons_of_mem _ hv))

theorem Editor.Plain.up (h : e.Plain) (room : ℕ) : (e.up room).Plain := by
  rcases holder : e.older with _ | ⟨u, us⟩
  · by_cases hnewer : e.newer = []
    · have hup : e.up room = e := by
        rw [Editor.up, holder]
        exact if_pos hnewer
      rwa [hup]
    · have hup : e.up room = e.record := by
        rw [Editor.up, holder, Editor.record, holder]
        exact if_neg hnewer
      rw [hup]
      exact h.record
  · have hup : e.up room = ⟨.atEnd (u.take (room - 1)), us, u, text e.line.text :: e.newer⟩ := by
      rw [Editor.up, holder]
    rw [hup]
    apply h.takeUp
    · intro v hv
      rw [Editor.history, holder]
      simp only [List.mem_append, List.mem_reverse, List.mem_cons] at hv ⊢
      tauto
    · rw [Editor.history, holder]
      simp

theorem Editor.Plain.down (h : e.Plain) (room : ℕ) : (e.down room).Plain := by
  rcases hnewer : e.newer with _ | ⟨u, us⟩
  · by_cases holder : e.older = []
    · have hdown : e.down room = e := by
        rw [Editor.down, hnewer]
        exact if_pos holder
      rwa [hdown]
    · have hdown : e.down room = e.record := by
        rw [Editor.down, hnewer, Editor.record, hnewer]
        exact if_neg holder
      rw [hdown]
      exact h.record
  · have hdown : e.down room = ⟨.atEnd (u.take (room - 1)), text e.line.text :: e.older, u, us⟩ := by
      rw [Editor.down, hnewer]
    rw [hdown]
    apply h.takeUp
    · intro v hv
      rw [Editor.history, hnewer]
      simp only [List.mem_append, List.mem_reverse, List.mem_cons] at hv ⊢
      tauto
    · rw [Editor.history, hnewer]
      simp

/-! ### Edits -/

theorem allows_other {c : Call} (hc : c ≠ .poll) : S.rules.allows t c := fun h => absurd h hc

/-- The line is drawn. -/
theorem Setting.Ready.draw (hsession : S.session t = ⟨e, .key⟩) (hedits : Edits S.toSetup l e)
    (hclear : S.Clear t → e.Plain ∧ S.terminal.Ground (S.screenAfter t)) (a : Answer) :
    S.Ready (t ++ [(.write (S.picture e.line), a)]) l e where
  session := by
    rw [session_concat, hsession]
    rfl
  edits := hedits
  plain h := (hclear h.of_concat.1).1
  shows h := by
    obtain ⟨hplain, hground⟩ := hclear h.of_concat.1
    rw [screenAfter_concat]
    exact Setup.shows_picture S.obeys hground h.nonempty h.prompt hplain.1

/-- While a key is read: the plain editor is ahead, and the line still as it was. -/
structure Setting.Reading (S : Setting σ) (t : List (Call × Answer)) (l : State) (e : Editor)
    (s : Session) : Prop where
  session : S.session t = s
  edits : Edits S.toSetup l e
  clear : S.Clear t → e.Plain ∧ S.On (S.screenAfter t) e.line

theorem Setting.Ready.reading (h : S.Ready t l e) : S.Reading t l e ⟨e, .key⟩ :=
  ⟨h.session, h.edits, fun hc => ⟨h.plain hc, h.shows hc⟩⟩

namespace Setting.Reading
variable {s : Session}

theorem read (h : S.Reading t l e s) (a : Answer) :
    S.Reading (t ++ [(.read, a)]) l e (s.read S.room a) where
  session := by
    rw [session_concat, h.session]
    rfl
  edits := h.edits
  clear hc := by
    rw [screenAfter_concat]
    exact h.clear hc.of_concat.1

theorem stay (h : S.Reading t l e ⟨e, .key⟩) : S.Ready t l e :=
  ⟨h.session, h.edits, fun hc => (h.clear hc).1, fun hc => (h.clear hc).2⟩

/-- The edit that the plain editor has made. -/
theorem leaves (h : S.Reading t l e ⟨e', .key⟩) {p : EditProg State}
    (hp : Leaves S.toSetup e e' p) (hplain : S.Clear t → e.Plain → e'.Plain) :
    p.Ensures S.rules (fun t l => ∃ e, S.Ready t l e) t := by
  cases hp with
  | redrawn l' hl' hp =>
    rw [hp, refreshLine_eq hl']
    refine ⟨allows_other (by simp), fun a => ⟨e', .draw h.session hl' (fun hc => ?_) a⟩⟩
    exact ⟨hplain hc (h.clear hc).1, (h.clear hc).2.ground⟩
  | silent l' hl' hp hline =>
    rw [hp]
    refine ⟨e', h.session, hl', fun hc => hplain hc (h.clear hc).1, fun hc => ?_⟩
    rw [hline]
    exact (h.clear hc).2

end Setting.Reading

theorem plain_same {f : Cursor Byte → Cursor Byte} (hf : (f e.line).text = e.line.text) (h : e.Plain) :
    (e.edit f).Plain := h.edit fun c hc => by rwa [hf] at hc

theorem escape_ensures (h : S.Reading t l e ⟨e, .escape⟩) :
    (escape l).Ensures S.rules (fun t l => ∃ e, S.Ready t l e) t := by
  apply Prog.Ensures.ask (allows_other (by simp))
  intro a
  have h1 := h.read a
  simp only [Session.read] at h1
  by_cases ha : a.count = -1
  · rw [if_pos ha] at h1 ⊢
    exact ⟨e, h1.stay⟩
  rw [if_neg ha] at h1 ⊢
  apply Prog.Ensures.ask (allows_other (by simp))
  intro b
  have h2 := h1.read b
  simp only [Session.read] at h2
  by_cases hb : b.count = -1
  · rw [if_pos hb] at h2 ⊢
    exact ⟨e, h2.stay⟩
  rw [if_neg hb] at h2 ⊢
  unfold Session.sequence at h2
  split_ifs at h2 ⊢ with hbracket hdigit hA hB hC hD hH hF hO
  · apply Prog.Ensures.ask (allows_other (by simp))
    intro c
    have h3 := h2.read c
    simp only [Session.read] at h3
    by_cases hdel : c.count ≠ -1 ∧ c.byte = 0x7e ∧ b.byte = 0x33
    · rw [if_pos hdel] at h3
      rw [if_neg hdel.1, if_pos hdel.2]
      exact h3.leaves (editDelete_leaves h3.edits) fun _ hp => hp.edit fun c hc => Cursor.mem_delete hc
    · rw [if_neg hdel] at h3
      by_cases hc : c.count = -1
      · rw [if_pos hc]
        exact ⟨e, h3.stay⟩
      · rw [if_neg hc, if_neg fun hkey => hdel ⟨hc, hkey⟩]
        exact ⟨e, h3.stay⟩
  · exact h2.leaves (editHistoryPrev_leaves h2.edits) fun _ hp => hp.up _
  · exact h2.leaves (editHistoryNext_leaves h2.edits) fun _ hp => hp.down _
  · exact h2.leaves (editMoveRight_leaves h2.edits) fun _ => plain_same (Cursor.text_right _)
  · exact h2.leaves (editMoveLeft_leaves h2.edits) fun _ => plain_same (Cursor.text_left _)
  · exact h2.leaves (editMoveHome_leaves h2.edits) fun _ => plain_same (Cursor.text_home _)
  · exact h2.leaves (editMoveEnd_leaves h2.edits) fun _ => plain_same (Cursor.text_toEnd _)
  · exact ⟨e, h2.stay⟩
  · exact h2.leaves (editMoveHome_leaves h2.edits) fun _ => plain_same (Cursor.text_home _)
  · exact h2.leaves (editMoveEnd_leaves h2.edits) fun _ => plain_same (Cursor.text_toEnd _)
  · exact ⟨e, h2.stay⟩
  · exact ⟨e, h2.stay⟩

/-! ### Keys -/

/-- The editor has come back as the plain one has, with the line in the array; or the terminal
could not be written to. -/
def Setting.Done (S : Setting σ) (t : List (Call × Answer)) (r : Result) : Prop :=
  (∃ e, S.session t = ⟨e, .ended r.1 r.2.history⟩ ∧ Holds r.2.buf 0 (e.line.text ++ [0])) ∨
    r.1 = -1 ∧ ∃ b a, (.write b, a) ∈ t ∧ a.count = -1

/-- What a pass of the loop comes to. -/
def Setting.Passed (S : Setting σ) (t : List (Call × Answer)) (p : Pass State Result) : Prop :=
  (∀ l, p = .next l → ∃ e, S.Ready t l e) ∧ ∀ r, p = .exit r → S.Done t r

theorem Setting.Ready.passed (h : S.Ready t l e) : S.Passed t (.next l) :=
  ⟨fun _ hl => ⟨e, Pass.next.inj hl ▸ h⟩, fun _ hr => absurd hr (by simp)⟩

theorem Setting.Done.passed {r : Result} (h : S.Done t r) : S.Passed t (.exit r) :=
  ⟨fun _ hl => absurd hl (by simp), fun _ hr => Pass.exit.inj hr ▸ h⟩

theorem goOn_ensures {p : EditProg State}
    (h : p.Ensures S.rules (fun t l => ∃ e, S.Ready t l e) t) : (goOn p).Ensures S.rules S.Passed t :=
  h.bind fun _ _ h => h.choose_spec.passed

/-- The editor comes back with what is left of the history. -/
theorem Setting.Reading.done {s : Session} (h : S.Reading t l e s) {count : ℤ} {history : List Text}
    (hs : s = ⟨e, .ended count history⟩) : S.Done t (count, { l with history }) :=
  .inl ⟨e, h.session.trans hs, h.edits.holds⟩

theorem dropEntry_ok (h : Edits S.toSetup l e) :
    l.dropEntry = .ret { l with history := e.history.dropLast } := by
  have hne : e.history ≠ [] := List.append_ne_nil_of_right_ne_nil _ (List.cons_ne_nil _ _)
  rw [State.dropEntry, h.history, if_neg hne]

theorem editInsert_ensures {c : Byte} (h : S.Reading t l e ⟨e.insert S.room c, .key⟩)
    (hc : S.Clear t → printable c = true) :
    (l.editInsert c >>= fun r => if r.1 ≠ 0 then return .exit (-1, r.2) else return .next r.2).Ensures
      S.rules S.Passed t := by
  have hplain (hclear : S.Clear t) : (e.insert S.room c).Plain :=
    (h.clear hclear).1.insert _ (hc hclear)
  cases editInsert_inserts h.edits c with
  | full l' hl' hp hline =>
    rw [hp]
    rw [hline] at hl' h
    have hready : S.Ready t l' e := ⟨h.session, hl', fun hc => (h.clear hc).1, fun hc => (h.clear hc).2⟩
    exact hready.passed
  | redrawn l' hl' hp =>
    rw [hp, refreshLine_eq hl']
    refine ⟨allows_other (by simp), fun a => ?_⟩
    have hready := Setting.Ready.draw h.session hl'
      (fun hclear => ⟨hplain hclear, (h.clear hclear).2.ground⟩) a
    exact hready.passed
  | appended l' hl' hp hline hafter hshort =>
    rw [hp, Prog.call_bind]
    apply Prog.Ensures.call (allows_other (by simp))
    intro a
    rw [Prog.ret_bind]
    by_cases ha : a.count = -1
    · rw [if_pos ha]
      have hdone : S.Done (t ++ [(.write [c], a)]) (-1, l') := .inr ⟨rfl, [c], a, by simp, ha⟩
      exact hdone.passed
    · rw [if_neg ha]
      have hready : S.Ready (t ++ [(.write [c], a)]) l' (e.insert S.room c) := by
        refine ⟨?_, hl', fun hclear => hplain hclear.of_concat.1, fun hclear => ?_⟩
        · rw [session_concat, h.session]
          rfl
        · rw [screenAfter_concat]
          rw [hline] at hshort ⊢
          exact Setup.shows_insert S.obeys (h.clear hclear.of_concat.1).2 hafter (hc hclear.of_concat.1) hshort
      exact hready.passed

theorem handleKey_ensures {c : Byte} (h : S.Reading t l e (Session.press S.room e c))
    (hc : S.Clear t → Typeable c) : (handleKey l c).Ensures S.rules S.Passed t := by
  unfold handleKey
  unfold Session.press at h
  -- a case for each key; what an edit leaves is its own lemma
  cases hkey : Key.of c
  all_goals simp only [hkey] at h ⊢
  case enter =>
    have hdone := h.done rfl
    rw [← h.edits.len] at hdone
    rw [dropEntry_ok h.edits, Prog.ret_bind]
    exact hdone.passed
  case ctrlC =>
    have hdone := h.done rfl
    rw [← h.edits.history] at hdone
    exact hdone.passed
  case backspace =>
    exact goOn_ensures (h.leaves (editBackspace_leaves h.edits) fun _ hp =>
      hp.edit fun _ => Cursor.mem_backspace)
  case ctrlD =>
    have hlen := h.edits.len
    -- on an empty line it ends the input, else it deletes
    by_cases hempty : e.line.text = []
    · rw [hempty, List.length_nil] at hlen
      rw [if_pos hempty] at h
      rw [if_neg (by omega), dropEntry_ok h.edits, Prog.ret_bind]
      exact (h.done rfl).passed
    · rw [if_neg hempty] at h
      rw [if_pos (by rw [hlen]; exact List.length_pos_iff.mpr hempty)]
      exact goOn_ensures (h.leaves (editDelete_leaves h.edits) fun _ hp =>
        hp.edit fun _ => Cursor.mem_delete)
  case ctrlT =>
    exact goOn_ensures (h.leaves (editSwap_leaves h.edits) fun _ hp => hp.edit fun _ => Cursor.mem_swap)
  case ctrlB =>
    exact goOn_ensures (h.leaves (editMoveLeft_leaves h.edits) fun _ => plain_same (Cursor.text_left _))
  case ctrlF =>
    exact goOn_ensures (h.leaves (editMoveRight_leaves h.edits) fun _ => plain_same (Cursor.text_right _))
  case ctrlP => exact goOn_ensures (h.leaves (editHistoryPrev_leaves h.edits) fun _ hp => hp.up _)
  case ctrlN => exact goOn_ensures (h.leaves (editHistoryNext_leaves h.edits) fun _ hp => hp.down _)
  case esc => exact goOn_ensures (escape_ensures h)
  case ctrlU =>
    exact goOn_ensures (h.leaves (editClear_leaves h.edits) fun _ hp =>
      hp.edit fun _ hd => absurd hd List.not_mem_nil)
  case ctrlK =>
    exact goOn_ensures (h.leaves (editDeleteRest_leaves h.edits) fun _ hp =>
      hp.edit fun _ => Cursor.mem_dropRest)
  case ctrlA =>
    exact goOn_ensures (h.leaves (editMoveHome_leaves h.edits) fun _ => plain_same (Cursor.text_home _))
  case ctrlE =>
    exact goOn_ensures (h.leaves (editMoveEnd_leaves h.edits) fun _ => plain_same (Cursor.text_toEnd _))
  case ctrlL =>
    rw [clearScreen_redraws, refreshLine_eq h.edits]
    refine goOn_ensures ⟨allows_other (by simp), fun a => ⟨allows_other (by simp), fun b => ?_⟩⟩
    refine ⟨e, .draw ?_ h.edits (fun hclear => ?_) b⟩
    · rw [session_concat, h.session]
      rfl
    · obtain ⟨hplain, hshows⟩ := h.clear hclear.of_concat.1
      refine ⟨hplain, ?_⟩
      rw [screenAfter_concat]
      exact S.obeys.clearScreen _ hshows.ground
  case ctrlW =>
    exact goOn_ensures (h.leaves (editDeletePrevWord_leaves h.edits) fun _ hp =>
      hp.edit fun _ => Cursor.mem_dropWord)
  case char => exact editInsert_ensures h fun hclear => hc hclear hkey

/-! ### The loop -/

/-- What is read: nothing, where the editor comes back, or a key. -/
def Setting.ReadPost (S : Setting σ) (l : State) (t : List (Call × Answer)) (r : ℤ × Byte) : Prop :=
  ∃ e, (r.1 ≤ 0 → S.Reading t l e (Session.close e)) ∧
    (0 < r.1 → S.Reading t l e (Session.press S.room e r.2) ∧ (S.Clear t → Typeable r.2))

/-- The lock is taken again, and what others have written is behind the line, which is drawn
again where they asked for it. -/
theorem Setting.Ready.poll (h : S.Ready t l e) (a : Answer) :
    (a.repaint = false → S.Reading (t ++ [(.poll, a)]) l e
      (if a.count < 0 then Session.close e else ⟨e, .key⟩)) ∧
    ∀ b, a.repaint = true → S.Reading (t ++ [(.poll, a)] ++ [(.write (S.picture e.line), b)]) l e
      (if a.count < 0 then Session.close e else ⟨e, .key⟩) := by
  have hsession : S.session (t ++ [(.poll, a)]) =
      if a.count < 0 then Session.close e else ⟨e, .key⟩ := by
    rw [session_concat, h.session]
    rfl
  refine ⟨fun hrepaint => ⟨hsession, h.edits, fun hclear => ?_⟩,
    fun b hrepaint => ⟨?_, h.edits, fun hclear => ?_⟩⟩
  · obtain ⟨hbefore, hothers, -⟩ := hclear.of_concat
    rw [hrepaint, or_iff_left (by simp)] at hothers
    rw [screenAfter_concat, shown, hothers]
    exact ⟨h.plain hbefore, h.shows hbefore⟩
  · rw [session_concat, hsession]
    rfl
  · obtain ⟨hbefore, -, hwhole⟩ := hclear.of_concat.1.of_concat
    have hplain := h.plain hbefore
    refine ⟨hplain, ?_⟩
    rw [screenAfter_concat, screenAfter_concat]
    exact Setup.shows_picture S.obeys (hwhole _ (h.shows hbefore).ground) hclear.nonempty hclear.prompt hplain.1

theorem linenoiseRead_ensures (fuel : ℕ) (h : S.Ready t l e) :
    (linenoiseRead l fuel).Ensures S.rules (S.ReadPost l) t := by
  -- on the passes of the loop; what stands behind the repaint is the same in both branches
  induction fuel generalizing t with
  | zero => rfl
  | succ fuel ih =>
    rw [linenoiseRead]
    apply Prog.Ensures.ask
    · intro _
      rw [h.session]
      exact ⟨rfl, h.shows⟩
    intro a
    have hrest (t' : List (Call × Answer)) (hr : S.Reading t' l e
        (if a.count < 0 then Session.close e else ⟨e, .key⟩)) :
        (if a.count < 0 then return (-1, a.byte)
          else if a.pipe then do
            let _ ← Prog.ask .drain
            linenoiseRead l fuel
          else if a.input then do
            let r ← Prog.ask .read
            return (r.count, r.byte)
          else linenoiseRead l fuel : EditProg (ℤ × Byte)).Ensures S.rules (S.ReadPost l) t' := by
      by_cases hfail : a.count < 0
      · rw [if_pos hfail] at hr ⊢
        exact ⟨e, fun _ => hr, fun hpos => absurd hpos (by simp)⟩
      rw [if_neg hfail] at hr ⊢
      by_cases hpipe : a.pipe = true
      · rw [if_pos hpipe]
        apply Prog.Ensures.ask (allows_other (by simp))
        intro d
        apply ih
        refine ⟨?_, hr.edits, fun hc => (hr.clear hc.of_concat.1).1, fun hc => ?_⟩
        · rw [session_concat, hr.session]
          rfl
        · rw [screenAfter_concat]
          exact (hr.clear hc.of_concat.1).2
      rw [if_neg hpipe]
      by_cases hinput : a.input = true
      · rw [if_pos hinput]
        apply Prog.Ensures.ask (allows_other (by simp))
        intro r
        have hread := hr.read r
        simp only [Session.read] at hread
        refine ⟨e, fun hle => ?_, fun hpos => ⟨?_, fun hc => hc.of_concat.2⟩⟩
        · rwa [if_pos hle] at hread
        · rwa [if_neg (not_le.mpr hpos)] at hread
      · rw [if_neg hinput]
        exact ih hr.stay
    obtain ⟨hquiet, hpaint⟩ := h.poll a
    by_cases hrepaint : a.repaint = true
    · simp only [hrepaint, if_true]
      rw [refreshSingleLine_eq h.edits]
      apply Prog.Ensures.call (allows_other (by simp))
      intro b
      exact hrest _ (hpaint b hrepaint)
    · simp only [hrepaint, Bool.false_eq_true, if_false]
      exact hrest _ (hquiet (by simpa using hrepaint))

theorem editPass_ensures (fuel : ℕ) (h : S.Ready t l e) :
    (editPass fuel l).Ensures S.rules S.Passed t := by
  apply (linenoiseRead_ensures fuel h).bind
  rintro t' ⟨nread, c⟩ ⟨e', hnone, hkey⟩
  by_cases hn : nread ≤ 0
  · have hclose := hnone hn
    simp only [if_pos hn]
    have hdone := hclose.done rfl
    rw [← hclose.edits.history, ← hclose.edits.len] at hdone
    exact hdone.passed
  · obtain ⟨hpress, htypeable⟩ := hkey (not_le.mp hn)
    simp only [if_neg hn]
    exact handleKey_ensures hpress htypeable

theorem mem_historyAdd {maxLen : ℕ} {line h : Text} {history : List Text}
    (hh : h ∈ historyAdd maxLen line history) : h = line ∨ h ∈ history := by
  rw [historyAdd] at hh
  split_ifs at hh
  · exact .inr hh
  · exact .inr hh
  all_goals
    rcases List.mem_append.mp hh with hh | hh
    · first | exact .inr (List.mem_of_mem_tail hh) | exact .inr hh
    · exact .inl (List.mem_singleton.mp hh)

theorem start_history (entries : List Text) :
    (Editor.start entries).history = historyAdd historyMaxLen [] entries := by
  have hlast : (historyAdd historyMaxLen [] entries).getLast? = some [] := by
    rw [historyAdd, if_neg (by decide)]
    split
    · assumption
    · exact List.getLast?_concat
  rw [Editor.history, Editor.start, List.reverse_reverse]
  exact List.dropLast_append_getLast? _ hlast

/-- The array and the history as the editor sets them up. -/
theorem start_edits (S : Setting σ) (buf : ℕ → Byte) (hstrings : ∀ h ∈ S.entries, 0 ∉ h) :
    Edits S.toSetup ⟨Function.update buf 0 0, S.room, S.prompt, 0, 0, S.cols, 0,
      historyAdd historyMaxLen [] S.entries⟩ (.start S.entries) := by
  refine ⟨rfl, rfl, rfl, ?_, rfl, rfl, Nat.zero_le _, rfl, (start_history _).symm, fun h hh => ?_⟩
  · exact holds_singleton.mpr (Function.update_self 0 (0 : Byte) buf)
  · rw [start_history] at hh
    rcases mem_historyAdd hh with rfl | hh
    · exact List.not_mem_nil
    · exact hstrings h hh

theorem start_plain (h : S.Clear t) : (Editor.start S.entries).Plain := by
  refine ⟨fun c hc => absurd hc List.not_mem_nil, fun u hu => ?_⟩
  rw [start_history] at hu
  rcases mem_historyAdd hu with rfl | hu
  · exact fun c hc => absurd hc List.not_mem_nil
  · exact h.entries u hu

/-- The prompt, and nothing behind it. -/
theorem start_shows (h : S.Clear t) :
    S.On (S.terminal.write S.screen S.prompt) (Editor.start S.entries).line := by
  have hwide := S.wide
  have hfits : ([] : Text).length + S.prompt.length ≤ S.cols := by
    rw [List.length_nil]
    omega
  have hprompt := h.empty.write_printable S.obeys h.prompt hfits (by rw [List.length_nil]; omega)
  obtain ⟨hwindow, hcolumn⟩ := S.window_short (z := (Editor.start S.entries).line) hwide
  rw [Setting.On, Setup.Shows, hwindow, hcolumn]
  simpa [Editor.start, Cursor.text, Cursor.position] using hprompt

theorem linenoiseEdit_ensures (hstrings : ∀ h ∈ S.entries, 0 ∉ h) (fuel : ℕ) (buf : ℕ → Byte) :
    (linenoiseEdit fuel buf (S.room + 1) S.prompt S.cols S.entries).Ensures S.rules S.Done [] := by
  apply Prog.Ensures.ask (allows_other (by simp))
  intro r
  by_cases hr : r.count = -1
  · rw [if_pos hr]
    exact .inr ⟨rfl, S.prompt, r, by simp, hr⟩
  · rw [if_neg hr]
    apply Prog.Ensures.loop (fun _ => rfl) (fun t l => ∃ e, S.Ready t l e)
    · intro t l h
      exact editPass_ensures fuel h.choose_spec
    · exact ⟨_, rfl, start_edits S buf hstrings, start_plain, start_shows⟩

/-! ### Two characters typed -/

def typing (byte : Byte) : Answer := ⟨1, byte, false, false, true, []⟩

def answers : List Answer :=
  [⟨2, 0, false, false, false, []⟩, typing 0, typing 0x68, typing 0, typing 0, typing 0x69, typing 0,
    typing 0, typing 0x0d]

def trace : List (Call × Answer) :=
  [.write (ascii "> "), .poll, .read, .write (ascii "h"), .poll, .read, .write (ascii "i"), .poll,
    .read].zip answers

def setting : Setting Screen where
  room := 8
  prompt := ascii "> "
  cols := 20
  room_pos := by decide
  wide := by decide
  terminal := Screen.terminal 20
  obeys := Screen.terminal_obeys (by decide)
  screen := ⟨fun _ _ => blank, 0, 0, .ground⟩
  entries := []

theorem trace_path :
    ∃ l, (linenoiseEdit 4 (fun _ => 0xff) 9 setting.prompt 20 []).Path trace (.ok (2, l)) := by
  have htrace : ((linenoiseEdit 4 (fun _ => 0xff) 9 setting.prompt 20 []).follow answers).map
      (fun x => (x.1, x.2.toOption.map Prod.fst)) = some (trace, some 2) := by decide
  obtain ⟨⟨t, r⟩, hfollow, heq⟩ := Option.map_eq_some_iff.mp htrace
  obtain ⟨rfl, hr⟩ := Prod.mk.inj heq
  cases r with
  | error h => exact absurd hr (by simp [Except.toOption])
  | ok r =>
    obtain ⟨count, l⟩ := r
    obtain rfl : count = 2 := by simpa [Except.toOption] using hr
    exact ⟨l, Prog.path_of_follow hfollow⟩

/-- While the editor waits for a key, the terminal shows the prompt and the part of the line
that the cursor is in, with the cursor in its place, whether the line was drawn again or one
character behind it, and whatever other threads have written. -/
theorem waiting_shows_line (S : Setting σ) (hstrings : ∀ h ∈ S.entries, 0 ∉ h) (fuel : ℕ)
    (buf : ℕ → Byte) {t t1 t2 : List (Call × Answer)} {a : Answer} {r : Except Halt Result}
    (h : (linenoiseEdit fuel buf (S.room + 1) S.prompt S.cols S.entries).Path t r)
    (ht : t = t1 ++ (.poll, a) :: t2) (hclear : S.Clear t1) :
    (S.session t1).phase = .key ∧ ∀ z, z = (S.session t1).editor.line →
      S.terminal.Shows S.cols (S.screenAfter t1) (S.prompt ++ S.window z) (S.column z) ∧
      (S.window z).take (S.column z - S.prompt.length) = z.before.reverse.drop (S.start z) := by
  obtain ⟨hphase, hshows⟩ := (linenoiseEdit_ensures hstrings fuel buf).allows h ht rfl
  refine ⟨hphase, ?_⟩
  rintro z rfl
  exact ⟨hshows hclear, S.window_cursor _⟩

theorem waiting_shows_line_hi : ∃ z : Cursor Byte, z.text = ascii "hi" ∧
    setting.terminal.Shows 20 (setting.screenAfter (trace.take 7)) (setting.prompt ++ setting.window z)
      (setting.column z) := by
  obtain ⟨l, hpath⟩ := trace_path
  have hempty : setting.terminal.Shows 20 setting.screen [] 0 := ⟨rfl, rfl, fun _ _ _ => rfl⟩
  have hwhole : ∀ s, setting.terminal.Ground s → setting.terminal.Ground (setting.terminal.write s []) :=
    fun _ hs => hs
  have hfair : ∀ x ∈ trace.take 7, setting.Fair x := by
    simp only [trace, answers, typing, List.zip_cons_cons, List.take_succ_cons, List.take_zero,
      List.forall_mem_cons]
    refine ⟨rfl, ⟨.inl rfl, hwhole⟩, fun _ => by decide, rfl, ⟨.inl rfl, hwhole⟩, fun _ => by decide,
      rfl, by simp⟩
  have hclear : setting.Clear (trace.take 7) := ⟨by decide, by decide, nofun, hempty, hfair⟩
  have hsplit : trace = trace.take 7 ++ (.poll, typing 0) :: trace.drop 8 := rfl
  have hline : (setting.session (trace.take 7)).editor.line.text = ascii "hi" := by decide
  refine ⟨(setting.session (trace.take 7)).editor.line, hline, ?_⟩
  exact ((waiting_shows_line setting nofun 4 (fun _ => 0xff) hpath hsplit hclear).2 _ rfl).1

end M3Dev.Linenoise
