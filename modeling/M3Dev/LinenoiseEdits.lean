import M3Dev.CString
import M3Dev.Linenoise
import M3Dev.TextCursor

/-! The line editor against a text with a cursor: whatever is typed, the stores stay inside the
array, and the line is the one a plain editor would have. -/
namespace M3Dev.Linenoise
open CallTree WhileLoop TextCursor Buffer

/-! ### The plain editor -/

/-- A line, and the history around the entry it was taken from; the nearest entries first. -/
structure Editor where
  line : Cursor Byte
  older : List Text
  entry : Text
  newer : List Text
  deriving DecidableEq, Repr

namespace Editor

def history (e : Editor) : List Text := e.older.reverse ++ e.entry :: e.newer

/-- An empty line behind the history there is. -/
def start (history : List Text) : Editor :=
  ⟨⟨[], []⟩, (historyAdd historyMaxLen [] history).dropLast.reverse, [], []⟩

def edit (f : Cursor Byte → Cursor Byte) (e : Editor) : Editor := { e with line := f e.line }

/-- A line has room for so many characters. -/
def insert (room : ℕ) (c : Byte) (e : Editor) : Editor :=
  if e.line.text.length < room then e.edit (Cursor.insert c) else e

/-- The line becomes an older entry, and its own entry what it was changed to. A line that is
taken up has one character less room. -/
def up (room : ℕ) (e : Editor) : Editor :=
  match e.older with
  | [] => if e.newer = [] then e else { e with entry := text e.line.text }
  | t :: ts => ⟨.atEnd (t.take (room - 1)), ts, t, text e.line.text :: e.newer⟩

def down (room : ℕ) (e : Editor) : Editor :=
  match e.newer with
  | [] => if e.older = [] then e else { e with entry := text e.line.text }
  | t :: ts => ⟨.atEnd (t.take (room - 1)), text e.line.text :: e.older, t, ts⟩

end Editor

/-- What the editor waits for: a key, or more of an escape sequence; or it has come back with
a number and a history. -/
inductive Phase where
  | key
  | escape
  | escape1 (a : Byte)
  | escape2 (b : Byte)
  | ended (count : ℤ) (history : List Text)
  deriving DecidableEq, Repr

structure Session where
  editor : Editor
  phase : Phase
  deriving DecidableEq, Repr

namespace Session

/-- The line is taken as it is. -/
def close (e : Editor) : Session := ⟨e, .ended e.line.text.length e.history⟩

def press (room : ℕ) (e : Editor) (c : Byte) : Session :=
  match Key.of c with
  | .enter => ⟨e, .ended e.line.text.length e.history.dropLast⟩
  | .ctrlC => ⟨e, .ended (-1) e.history⟩
  | .backspace => ⟨e.edit .backspace, .key⟩
  | .ctrlD =>
    if e.line.text = [] then ⟨e, .ended (-1) e.history.dropLast⟩ else ⟨e.edit .delete, .key⟩
  | .ctrlT => ⟨e.edit .swap, .key⟩
  | .ctrlB => ⟨e.edit .left, .key⟩
  | .ctrlF => ⟨e.edit .right, .key⟩
  | .ctrlP => ⟨e.up room, .key⟩
  | .ctrlN => ⟨e.down room, .key⟩
  | .esc => ⟨e, .escape⟩
  | .ctrlU => ⟨e.edit fun _ => ⟨[], []⟩, .key⟩
  | .ctrlK => ⟨e.edit .dropRest, .key⟩
  | .ctrlA => ⟨e.edit .home, .key⟩
  | .ctrlE => ⟨e.edit .toEnd, .key⟩
  | .ctrlL => ⟨e, .key⟩
  | .ctrlW => ⟨e.edit (.dropWord State.isSpace), .key⟩
  | .char => ⟨e.insert room c, .key⟩

/-- The keys that send `ESC`, a character and the character `b`. -/
def sequence (room : ℕ) (e : Editor) (a b : Byte) : Session :=
  if a = 0x5b then
    if 0x30 ≤ b ∧ b ≤ 0x39 then ⟨e, .escape2 b⟩
    else if b = 0x41 then ⟨e.up room, .key⟩
    else if b = 0x42 then ⟨e.down room, .key⟩
    else if b = 0x43 then ⟨e.edit .right, .key⟩
    else if b = 0x44 then ⟨e.edit .left, .key⟩
    else if b = 0x48 then ⟨e.edit .home, .key⟩
    else if b = 0x46 then ⟨e.edit .toEnd, .key⟩
    else ⟨e, .key⟩
  else if a = 0x4f then
    if b = 0x48 then ⟨e.edit .home, .key⟩
    else if b = 0x46 then ⟨e.edit .toEnd, .key⟩
    else ⟨e, .key⟩
  else ⟨e, .key⟩

def read (room : ℕ) (s : Session) (a : Answer) : Session :=
  match s.phase with
  | .key => if a.count ≤ 0 then close s.editor else press room s.editor a.byte
  | .escape => if a.count = -1 then ⟨s.editor, .key⟩ else ⟨s.editor, .escape1 a.byte⟩
  | .escape1 x => if a.count = -1 then ⟨s.editor, .key⟩ else sequence room s.editor x a.byte
  | .escape2 y =>
    if a.count ≠ -1 ∧ a.byte = 0x7e ∧ y = 0x33 then ⟨s.editor.edit .delete, .key⟩
    else ⟨s.editor, .key⟩
  | .ended _ _ => s

/-- The plain editor only looks at what is read, and at a `poll` that fails. -/
def step (room : ℕ) (s : Session) : Call × Answer → Session
  | (.poll, a) => if a.count < 0 then close s.editor else s
  | (.read, a) => s.read room a
  | _ => s

def run (room : ℕ) (s : Session) (t : List (Call × Answer)) : Session := t.foldl (step room) s

theorem run_append (room : ℕ) (s : Session) (t u : List (Call × Answer)) :
    s.run room (t ++ u) = (s.run room t).run room u := List.foldl_append

theorem run_concat (room : ℕ) (s : Session) (t : List (Call × Answer)) (x : Call × Answer) :
    s.run room (t ++ [x]) = (s.run room t).step room x := run_append room s t [x]

end Session

/-! ### What the array holds -/

/-- What an editor is set up with. -/
structure Setup where
  room : ℕ
  prompt : Text
  cols : ℕ
  /-- a line can be taken from the history -/
  room_pos : 0 < room
  /-- the terminal is wider than the prompt -/
  wide : prompt.length < cols

/-- The state is that of the plain editor. -/
structure Edits (S : Setup) (l : State) (e : Editor) : Prop where
  room : l.buflen = S.room
  prompt : l.prompt = S.prompt
  cols : l.cols = S.cols
  holds : Holds l.buf 0 (e.line.text ++ [0])
  pos : l.pos = e.line.position
  len : l.len = e.line.text.length
  fits : e.line.text.length ≤ S.room
  index : l.historyIndex = e.newer.length
  history : l.history = e.history
  strings : ∀ t ∈ e.history, 0 ∉ t

/-- What an edit comes to: a new line that is drawn, or one that is shown already. -/
inductive Leaves (S : Setup) (e e' : Editor) (p : EditProg State) : Prop where
  | redrawn (l : State) (h : Edits S l e') (hp : p = l.refreshLine)
  | silent (l : State) (h : Edits S l e') (hp : p = .ret l) (hline : e'.line = e.line)

variable {S : Setup} {l : State} {e : Editor}

theorem Edits.len_le (h : Edits S l e) : l.len ≤ l.buflen := by
  rw [h.len, h.room]
  exact h.fits

/-- A change of the line alone. -/
theorem Edits.change (h : Edits S l e) {buf : ℕ → Byte} {z : Cursor Byte}
    (hbuf : Holds buf 0 (z.text ++ [0])) (hfits : z.text.length ≤ S.room) :
    Edits S { l with buf, pos := z.position, len := z.text.length } { e with line := z } :=
  { h with
    holds := hbuf
    pos := rfl
    len := rfl
    fits := hfits }

/-- A change of the cursor alone. -/
theorem Edits.place (h : Edits S l e) {z : Cursor Byte} (htext : z.text = e.line.text) :
    Edits S { l with pos := z.position } { e with line := z } :=
  { h with
    holds := by
      rw [htext]
      exact h.holds
    pos := rfl
    len := by
      rw [htext]
      exact h.len
    fits := by
      rw [htext]
      exact h.fits }

theorem poke_ok {i : ℕ} (hi : i ≤ l.buflen) (c : Byte) :
    l.poke i c = .ret { l with buf := put l.buf i [c] } := by
  rw [State.poke, if_pos hi, update_eq_put]

theorem memmove_ok {dst src n : ℕ} (hdst : dst + n ≤ l.buflen + 1) (hsrc : src + n ≤ l.buflen + 1) :
    l.memmove dst src n = .ret { l with buf := put l.buf dst (get l.buf src n) } :=
  if_pos ⟨hdst, hsrc⟩

/-- The parts of the line in the array. -/
theorem Edits.parts (h : Edits S l e) : Holds l.buf 0 e.line.before.reverse ∧
    Holds l.buf l.pos e.line.after ∧ get l.buf l.pos (l.len - l.pos) = e.line.after := by
  have hline := (holds_append.mp h.holds).1
  obtain ⟨hbefore, hafter⟩ := holds_append.mp hline
  rw [Nat.zero_add, List.length_reverse, show e.line.before.length = e.line.position from rfl,
    ← h.pos] at hafter
  have hlen : l.len - l.pos = e.line.after.length := by
    rw [h.len, h.pos, e.line.text_length]
    omega
  refine ⟨hbefore, hafter, ?_⟩
  rw [hlen]
  exact hafter.get_eq

/-! ### Moving the cursor -/

theorem editMoveLeft_leaves (h : Edits S l e) : Leaves S e (e.edit .left) l.editMoveLeft := by
  by_cases hpos : 0 < l.pos
  · have hplace := h.place e.line.text_left
    rw [e.line.position_left, ← h.pos] at hplace
    exact .redrawn _ hplace (if_pos hpos)
  · have hline : e.line.left = e.line := by
      apply Cursor.ext_text e.line.text_left
      have hzero : e.line.position = 0 := by
        rw [← h.pos]
        omega
      rw [e.line.position_left, hzero]
    refine .silent l ?_ (if_neg hpos) hline
    rw [Editor.edit, hline]
    exact h

theorem editMoveRight_leaves (h : Edits S l e) : Leaves S e (e.edit .right) l.editMoveRight := by
  by_cases hpos : l.pos ≠ l.len
  · have hplace := h.place e.line.text_right
    rw [e.line.position_right (by rwa [← h.pos, ← h.len]), ← h.pos] at hplace
    exact .redrawn _ hplace (if_pos hpos)
  · have hafter : e.line.after = [] := by
      have hlen := e.line.text_length
      rw [← h.pos, ← h.len] at hlen
      apply List.eq_nil_of_length_eq_zero
      omega
    have hline : e.line.right = e.line := by
      rw [Cursor.right, hafter]
    refine .silent l ?_ (if_neg hpos) hline
    rw [Editor.edit, hline]
    exact h

theorem editMoveHome_leaves (h : Edits S l e) : Leaves S e (e.edit .home) l.editMoveHome := by
  by_cases hpos : l.pos ≠ 0
  · exact .redrawn _ (h.place e.line.text_home) (if_pos hpos)
  · have hline : e.line.home = e.line := by
      apply Cursor.ext_text e.line.text_home
      rw [← h.pos, not_not.mp hpos]
      rfl
    refine .silent l ?_ (if_neg hpos) hline
    rw [Editor.edit, hline]
    exact h

theorem editMoveEnd_leaves (h : Edits S l e) : Leaves S e (e.edit .toEnd) l.editMoveEnd := by
  by_cases hpos : l.pos ≠ l.len
  · have hplace := h.place e.line.text_toEnd
    rw [Cursor.toEnd, Cursor.position_atEnd, ← h.len] at hplace
    exact .redrawn _ hplace (if_pos hpos)
  · have hline : e.line.toEnd = e.line := by
      apply Cursor.ext_text e.line.text_toEnd
      rw [Cursor.toEnd, Cursor.position_atEnd, ← h.len, ← h.pos]
      exact (not_not.mp hpos).symm
    refine .silent l ?_ (if_neg hpos) hline
    rw [Editor.edit, hline]
    exact h

/-! ### Taking out and putting in -/

/-- The line built up in the array from its front: what stands before the cursor, what is put
behind it, and the NUL behind both. -/
theorem Edits.rebuild (h : Edits S l e) {buf : ℕ → Byte} {before : Text}
    (hbuf : Holds buf 0 before.reverse) (after : Text)
    (hfits : before.length + after.length ≤ S.room) :
    Edits S { l with
      buf := put (put buf before.length after) (before.length + after.length) [0]
      pos := before.length
      len := before.length + after.length } { e with line := ⟨before, after⟩ } := by
  have hlen : (⟨before, after⟩ : Cursor Byte).text.length = before.length + after.length :=
    Cursor.text_length _
  have hline := hbuf.extend after
  have hend := hline.extend [0]
  rw [Nat.zero_add, Nat.zero_add, List.length_append, List.length_reverse] at hend
  have hchange := h.change (z := ⟨before, after⟩) hend (by rwa [hlen])
  rwa [hlen] at hchange

theorem Edits.counts (h : Edits S l e) : l.pos = e.line.before.length ∧
    l.len = e.line.before.length + e.line.after.length ∧
      e.line.before.length + e.line.after.length ≤ l.buflen := by
  refine ⟨h.pos, h.len.trans e.line.text_length, ?_⟩
  rw [h.room]
  exact e.line.text_length.symm.trans_le h.fits

theorem editBackspace_leaves (h : Edits S l e) : Leaves S e (e.edit .backspace) l.editBackspace := by
  obtain ⟨hpos, hlen, hfits⟩ := h.counts
  obtain ⟨hbefore, -, hrest⟩ := h.parts
  rcases hline : e.line.before with _ | ⟨b, bs⟩
  · rw [hline, List.length_nil] at hpos
    have hsame : e.line.backspace = e.line := by
      rw [Cursor.backspace, hline, List.tail_nil, ← hline]
    refine .silent l ?_ (if_neg (by omega)) hsame
    rw [Editor.edit, hsame]
    exact h
  · rw [hline, List.length_cons] at hpos hlen hfits
    rw [hline, List.reverse_cons] at hbefore
    have hrebuild := h.rebuild (holds_append.mp hbefore).1 e.line.after (by rw [← h.room]; omega)
    have hedit : e.line.backspace = ⟨bs, e.line.after⟩ := by
      rw [Cursor.backspace, hline, List.tail_cons]
    refine .redrawn _ (by rw [Editor.edit, hedit]; exact hrebuild) ?_
    have hpos' : l.pos - 1 = bs.length := by omega
    have hlen' : l.len - 1 = bs.length + e.line.after.length := by omega
    rw [State.editBackspace, if_pos (by omega), memmove_ok (by omega) (by omega), Prog.ret_bind, hrest]
    simp only [hpos', hlen']
    rw [poke_ok (by simp only; omega), Prog.ret_bind]

theorem editDelete_leaves (h : Edits S l e) : Leaves S e (e.edit .delete) l.editDelete := by
  obtain ⟨hpos, hlen, hfits⟩ := h.counts
  obtain ⟨hbefore, hafter, -⟩ := h.parts
  rcases hline : e.line.after with _ | ⟨a, as⟩
  · rw [hline, List.length_nil] at hlen
    have hsame : e.line.delete = e.line := by
      rw [Cursor.delete, hline, List.tail_nil, ← hline]
    refine .silent l ?_ (if_neg (by omega)) hsame
    rw [Editor.edit, hsame]
    exact h
  · rw [hline, List.length_cons] at hlen hfits
    rw [hline] at hafter
    have hrest : get l.buf (l.pos + 1) (l.len - l.pos - 1) = as := by
      have has := (holds_cons.mp hafter).2.get_eq
      rwa [show as.length = l.len - l.pos - 1 by omega] at has
    have hrebuild := h.rebuild hbefore as (by rw [← h.room]; omega)
    have hedit : e.line.delete = ⟨e.line.before, as⟩ := by
      rw [Cursor.delete, hline, List.tail_cons]
    refine .redrawn _ (by rw [Editor.edit, hedit]; exact hrebuild) ?_
    have hlen' : l.len - 1 = e.line.before.length + as.length := by omega
    rw [State.editDelete, if_pos (by omega), memmove_ok (by omega) (by omega), Prog.ret_bind, hrest]
    simp only [hpos, hlen']
    rw [poke_ok (by simp only; omega), Prog.ret_bind]

/-- The loops that go back stop where the characters before them are not gone over. -/
theorem goBack_eq {buf : ℕ → Byte} {before : Text} (h : Holds buf 0 before.reverse)
    (skips : Byte → Bool) : State.goBack buf skips before.length = (before.dropWhile skips).length := by
  induction before with
  | nil => rfl
  | cons b bs ih =>
    rw [List.reverse_cons] at h
    obtain ⟨hbs, hb⟩ := holds_append.mp h
    rw [holds_singleton, Nat.zero_add, List.length_reverse] at hb
    rw [List.length_cons, State.goBack, hb]
    by_cases hover : skips b = true
    · rw [if_pos hover, List.dropWhile_cons_of_pos hover, ih hbs]
    · rw [if_neg hover, List.dropWhile_cons_of_neg hover, List.length_cons]

/-- The front of what stands before the cursor. -/
theorem holds_dropWhile {buf : ℕ → Byte} {before : Text} (h : Holds buf 0 before.reverse)
    (skips : Byte → Bool) : Holds buf 0 (before.dropWhile skips).reverse := by
  have hsplit : before.reverse =
      (before.dropWhile skips).reverse ++ (before.takeWhile skips).reverse := by
    rw [← List.reverse_append, List.takeWhile_append_dropWhile]
  rw [hsplit] at h
  exact (holds_append.mp h).1

theorem editDeletePrevWord_leaves (h : Edits S l e) :
    Leaves S e (e.edit (.dropWord State.isSpace)) l.editDeletePrevWord := by
  obtain ⟨hpos, hlen, hfits⟩ := h.counts
  obtain ⟨hbefore, -, -⟩ := h.parts
  let blanks := e.line.before.dropWhile State.isSpace
  let before := blanks.dropWhile (!State.isSpace ·)
  have hblanks : Holds l.buf 0 blanks.reverse := holds_dropWhile hbefore _
  have hword : Holds l.buf 0 before.reverse := holds_dropWhile hblanks _
  have hshort : before.length ≤ e.line.before.length :=
    ((List.dropWhile_sublist _).length_le).trans (List.dropWhile_sublist _).length_le
  have hgo : State.goBack l.buf (!State.isSpace ·) (State.goBack l.buf State.isSpace l.pos) =
      before.length := by
    rw [hpos, goBack_eq hbefore, goBack_eq hblanks]
  -- the NUL is moved with what stands behind the cursor
  have htail : get l.buf l.pos (l.len - l.pos + 1) = e.line.after ++ [0] := by
    have hall := h.holds
    rw [Cursor.text, List.append_assoc] at hall
    have hget := (holds_append.mp hall).2.get_eq
    rw [Nat.zero_add, List.length_reverse, ← hpos, List.length_append, List.length_singleton,
      show e.line.after.length = l.len - l.pos by omega] at hget
    exact hget
  have hrebuild := h.rebuild hword e.line.after (by rw [← h.room]; omega)
  rw [← put_append] at hrebuild
  refine .redrawn _ hrebuild ?_
  have hlen' : l.len - (l.pos - before.length) = before.length + e.line.after.length := by omega
  rw [State.editDeletePrevWord]
  simp only [hgo]
  rw [memmove_ok (by omega) (by omega), Prog.ret_bind, htail]
  simp only [hlen']

theorem editClear_leaves (h : Edits S l e) :
    Leaves S e (e.edit fun _ => ⟨[], []⟩) l.editClear := by
  have hnone : Holds l.buf 0 ([] : Text).reverse := holds_nil
  have hrebuild := h.rebuild hnone [] (Nat.zero_le _)
  rw [put_nil] at hrebuild
  refine .redrawn _ hrebuild ?_
  rw [State.editClear, poke_ok (Nat.zero_le _), Prog.ret_bind]
  rfl

theorem editDeleteRest_leaves (h : Edits S l e) :
    Leaves S e (e.edit .dropRest) l.editDeleteRest := by
  obtain ⟨hpos, hlen, hfits⟩ := h.counts
  have hrebuild := h.rebuild h.parts.1 [] (by rw [← h.room, List.length_nil]; omega)
  rw [put_nil, List.length_nil, Nat.add_zero] at hrebuild
  refine .redrawn _ hrebuild ?_
  rw [State.editDeleteRest, poke_ok (by omega), Prog.ret_bind]
  simp only [hpos]

theorem clearScreen_redraws (l : State) : l.clearScreen =
    .call (.write (ascii "\x1b[H\x1b[2J")) fun _ => l.refreshLine := rfl

theorem editSwap_leaves (h : Edits S l e) : Leaves S e (e.edit .swap) l.editSwap := by
  obtain ⟨hpos, hlen, hfits⟩ := h.counts
  obtain ⟨hbefore, hafter, -⟩ := h.parts
  -- without a character on each side of the cursor nothing is done
  rcases hb : e.line.before with _ | ⟨b, bs⟩
  · rw [hb, List.length_nil] at hpos
    have hsame : e.line.swap = e.line := by
      rw [Cursor.swap, hb]
    refine .silent l ?_ (if_neg (by omega)) hsame
    rw [Editor.edit, hsame]
    exact h
  rcases ha : e.line.after with _ | ⟨a, as⟩
  · rw [ha, List.length_nil] at hlen
    have hsame : e.line.swap = e.line := by
      rw [Cursor.swap, hb, ha]
    refine .silent l ?_ (if_neg (by omega)) hsame
    rw [Editor.edit, hsame]
    exact h
  rw [hb, List.length_cons] at hpos hlen hfits
  rw [ha, List.length_cons] at hlen hfits
  rw [hb, List.reverse_cons] at hbefore
  obtain ⟨hbs, hbcell⟩ := holds_append.mp hbefore
  rw [Nat.zero_add, List.length_reverse, holds_singleton] at hbcell
  rw [ha] at hafter
  obtain ⟨hacell, has⟩ := holds_cons.mp hafter
  have hend := (holds_append.mp h.holds).2
  rw [Nat.zero_add, ← h.len] at hend
  -- the cursor moves on, unless it stands before the last character
  have htext : e.line.swap.text = bs.reverse ++ [a] ++ [b] ++ as := by
    rw [Cursor.swap, hb, ha]
    cases as <;> simp [Cursor.text]
  have hposition : e.line.swap.position = if l.pos ≠ l.len - 1 then l.pos + 1 else l.pos := by
    rw [Cursor.swap, hb, ha]
    cases as with
    | nil =>
      rw [List.length_nil] at hlen
      rw [if_neg (by omega), hpos]
      rfl
    | cons c cs =>
      rw [List.length_cons] at hlen
      rw [if_pos (by omega), hpos]
      rfl
  -- the two cells are written one after the other
  have hbuf : Holds (put (put l.buf bs.length [a]) l.pos [b]) 0 (e.line.swap.text ++ [0]) := by
    have hfront := hbs.extend [a]
    have hboth := hfront.extend [b]
    rw [Nat.zero_add, Nat.zero_add, List.length_append, List.length_reverse, List.length_singleton,
      ← hpos] at hboth
    have hrest : Holds l.buf (l.pos + 1) (as ++ [0]) := by
      refine holds_append.mpr ⟨has, ?_⟩
      rwa [show l.pos + 1 + as.length = l.len by omega]
    rw [htext, List.append_assoc _ as]
    refine holds_append.mpr ⟨hboth, ?_⟩
    simp only [List.length_append, List.length_reverse, List.length_singleton, Nat.zero_add, ← hpos]
    exact (hrest.put_below (by simp; omega)).put_below (by simp)
  have hlength : e.line.swap.text.length = l.len := by
    rw [htext, hlen]
    simp
    omega
  have hchange := h.change hbuf (by rw [hlength, ← h.room]; exact h.len_le)
  rw [hlength, hposition] at hchange
  refine .redrawn _ hchange ?_
  have hpos' : l.pos - 1 = bs.length := by omega
  rw [State.editSwap, if_pos (by omega)]
  simp only [hpos', hbcell, hacell]
  rw [poke_ok (by omega), Prog.ret_bind, poke_ok (by simp only; omega), Prog.ret_bind]

/-- What putting in a character comes to: there is no room for it, the line is drawn again, or
the character alone is. -/
inductive Inserts (S : Setup) (e e' : Editor) (c : Byte) (p : EditProg (ℤ × State)) : Prop where
  | full (l : State) (h : Edits S l e') (hp : p = .ret (0, l)) (hline : e' = e)
  | redrawn (l : State) (h : Edits S l e') (hp : p = l.refreshLine >>= fun l => return (0, l))
  | appended (l : State) (h : Edits S l e')
      (hp : p = .call (.write [c]) fun r => .ret (if r.count = -1 then -1 else 0, l))
      (hline : e' = e.edit (.insert c)) (hafter : e.line.after = [])
      (hshort : S.prompt.length + e'.line.text.length < S.cols)

theorem editInsert_inserts (h : Edits S l e) (c : Byte) :
    Inserts S e (e.insert S.room c) c (l.editInsert c) := by
  obtain ⟨hpos, hlen, hfits⟩ := h.counts
  obtain ⟨hbefore, hafter, hrest⟩ := h.parts
  by_cases hroom : l.len < l.buflen
  · have hinsert : e.insert S.room c = e.edit (.insert c) := if_pos (by rwa [← h.len, ← h.room])
    have hcounts : (c :: e.line.before).length + e.line.after.length = l.len + 1 := by
      rw [List.length_cons]
      omega
    rw [hinsert, State.editInsert, if_pos hroom]
    -- behind the line the character alone may be drawn, if the row has room for it
    by_cases hend : l.len = l.pos
    · have hnone : e.line.after = [] := List.eq_nil_of_length_eq_zero (by omega)
      have hfront := hbefore.extend [c]
      rw [Nat.zero_add, List.length_reverse, ← List.reverse_cons, ← hpos] at hfront
      have hrebuild := h.rebuild hfront e.line.after (by rw [hcounts, ← h.room]; omega)
      rw [hcounts, hnone, put_nil, List.length_cons, ← hpos] at hrebuild
      rw [if_pos hend, poke_ok (by omega), Prog.ret_bind]
      simp only
      rw [poke_ok (by simp only; omega), Prog.ret_bind]
      have hline : e.edit (.insert c) = { e with line := ⟨c :: e.line.before, []⟩ } := by
        rw [Editor.edit, Cursor.insert, hnone]
      rw [hline]
      by_cases hshort : l.prompt.length + (l.len + 1) < l.cols
      · refine .appended _ hrebuild (by rw [if_pos hshort]; rfl) hline.symm hnone ?_
        rw [← h.prompt, ← h.cols, Cursor.text_length, Cursor.position]
        rw [hnone] at hcounts
        rwa [hcounts]
      · exact .redrawn _ hrebuild (by rw [if_neg hshort])
    · -- in the line the characters behind the cursor are moved first
      have hcell : Holds (put (put l.buf (l.pos + 1) e.line.after) l.pos [c]) 0
          (c :: e.line.before).reverse := by
        have hmoved : Holds (put l.buf (l.pos + 1) e.line.after) 0 e.line.before.reverse :=
          hbefore.put_above (by rw [List.length_reverse]; omega)
        have hfront := hmoved.extend [c]
        rwa [Nat.zero_add, List.length_reverse, ← List.reverse_cons, ← hpos] at hfront
      have hline : Holds (put (put (put l.buf (l.pos + 1) e.line.after) l.pos [c]) (l.len + 1) [0]) 0
          ((e.line.insert c).text ++ [0]) := by
        rw [Cursor.text, List.append_assoc]
        refine holds_append.mpr ⟨hcell.put_above (by simp; omega), ?_⟩
        have hback : Holds (put (put l.buf (l.pos + 1) e.line.after) l.pos [c]) (l.pos + 1) e.line.after :=
          holds_put.put_below (by simp)
        have hnul := hback.extend [0]
        rw [show l.pos + 1 + e.line.after.length = l.len + 1 by omega] at hnul
        rwa [Nat.zero_add, List.length_reverse, Cursor.insert, List.length_cons, ← hpos]
      have hcount : (e.line.insert c).text.length = l.len + 1 :=
        ((e.line.insert c).text_length).trans hcounts
      have hrebuild := h.change hline (by rw [hcount, ← h.room]; omega)
      rw [hcount, Cursor.position, Cursor.insert, List.length_cons, ← hpos] at hrebuild
      rw [if_neg hend, memmove_ok (by omega) (by omega), Prog.ret_bind, hrest, poke_ok (by simp only; omega),
        Prog.ret_bind]
      simp only
      rw [poke_ok (by simp only; omega), Prog.ret_bind]
      exact .redrawn _ hrebuild rfl
  · have hsame : e.insert S.room c = e := if_neg (by rwa [← h.len, ← h.room])
    rw [hsame]
    exact .full l h (if_neg hroom) rfl

/-! ### The history -/

/-- The string in an array that holds a text and a NUL. -/
theorem string_ok {t : Text} (h : Holds l.buf 0 (t ++ [0])) (hlen : t.length ≤ l.buflen) :
    l.string = .ret (text t) := by
  have hsplit : l.buflen + 1 = (t ++ [0]).length + (l.buflen - t.length) := by
    rw [List.length_append, List.length_singleton]
    omega
  have hget : text (get l.buf 0 (l.buflen + 1)) = text t := by
    rw [hsplit, get_add, h.get_eq, List.append_assoc]
    exact text_append_nul t _
  rw [State.string, hget]
  exact if_pos ((text_length_le t).trans hlen)

/-- A string copied by `strncpy`, with a NUL in the last of the cells. -/
theorem holds_strncpy (buf : ℕ → Byte) (t : Text) (n : ℕ) :
    Holds (put (put buf 0 ((t ++ List.replicate (n + 1) 0).take (n + 1))) n [0]) 0 (t.take n ++ [0]) := by
  intro i hi
  rw [Nat.zero_add]
  rw [List.length_append, List.length_singleton, List.length_take] at hi
  rcases Nat.lt_or_ge i n with hlt | hge
  · rw [put_before hlt]
    have hin : i < ((t ++ List.replicate (n + 1) 0).take (n + 1)).length := by
      rw [List.length_take, List.length_append, List.length_replicate]
      omega
    have hcell : put buf 0 _ (0 + i) = _ := put_inside hin
    rw [Nat.zero_add, List.getElem_take] at hcell
    rw [hcell]
    by_cases ht : i < t.length
    · rw [List.getElem_append_left ht, List.getElem_append_left (by rw [List.length_take]; omega),
        List.getElem_take]
    · rw [List.getElem_append_right (by omega), List.getElem_replicate,
        List.getElem_append_right (by rw [List.length_take]; omega), List.getElem_singleton]
  · obtain rfl : i = n := by omega
    have hcell : put (put buf 0 ((t ++ List.replicate (i + 1) 0).take (i + 1))) i [0] i = 0 :=
      holds_singleton.mp holds_put
    rw [hcell, List.getElem_append_right (by rw [List.length_take]; omega), List.getElem_singleton]

/-- The entry the line belongs to is the one it was taken from. -/
theorem Edits.slot (h : Edits S l e) : l.historyIndex < l.historyLen ∧
    l.slot = e.older.length ∧ l.historyLen = e.older.length + (e.newer.length + 1) := by
  have hlen : l.historyLen = e.older.length + (e.newer.length + 1) := by
    rw [State.historyLen, h.history, Editor.history, List.length_append, List.length_reverse,
      List.length_cons]
  refine ⟨?_, ?_, hlen⟩
  · rw [h.index]
    omega
  · rw [State.slot, h.index, hlen]
    omega

theorem Edits.string (h : Edits S l e) : l.string = .ret (text e.line.text) :=
  string_ok h.holds (by rw [h.room]; exact h.fits)

/-- The entry is what the line has become. -/
def Editor.record (e : Editor) : Editor := { e with entry := text e.line.text }

theorem Edits.record (h : Edits S l e) : Edits S (l.record (text e.line.text)) e.record := by
  have hset : l.history.set l.slot (text e.line.text) = e.record.history := by
    rw [h.history, h.slot.2.1, Editor.history, List.set_append_right _ _ (by simp),
      List.length_reverse, Nat.sub_self]
    rfl
  have hstrings : ∀ t ∈ e.record.history, 0 ∉ t := by
    intro t ht
    rcases List.mem_append.mp ht with ht | ht
    · exact h.strings t (List.mem_append_left _ ht)
    · rcases List.mem_cons.mp ht with rfl | ht
      · exact nul_not_mem_text _
      · exact h.strings t (List.mem_append_right _ (List.mem_cons_of_mem _ ht))
  exact { h with
    history := hset
    strings := hstrings }

/-- Another entry of the history is taken up. -/
theorem Edits.takeUp (h : Edits S l e) {older newer : List Text} {t : Text}
    (hhistory : (⟨.atEnd (t.take (S.room - 1)), older, t, newer⟩ : Editor).history = e.history) :
    Edits S { l with
      buf := put (put l.buf 0 ((t ++ List.replicate l.buflen 0).take l.buflen)) (l.buflen - 1) [0]
      pos := (t.take (S.room - 1)).length
      len := (t.take (S.room - 1)).length
      historyIndex := newer.length } ⟨.atEnd (t.take (S.room - 1)), older, t, newer⟩ := by
  have hpred : S.room - 1 + 1 = S.room := Nat.succ_pred_eq_of_pos S.room_pos
  have hcopy := holds_strncpy l.buf t (S.room - 1)
  rw [hpred] at hcopy
  refine { h with holds := ?_, pos := ?_, len := ?_, fits := ?_, index := rfl, history := ?_, strings := ?_ }
  · rw [Cursor.text_atEnd, h.room]
    exact hcopy
  · rw [Cursor.position_atEnd]
  · rw [Cursor.text_atEnd]
  · rw [Cursor.text_atEnd, List.length_take]
    omega
  · rw [hhistory]
    exact h.history
  · rw [hhistory]
    exact h.strings

theorem showEntry_redraws (h : Edits S l e) {older newer : List Text} {t : Text}
    (hhistory : (⟨.atEnd (t.take (S.room - 1)), older, t, newer⟩ : Editor).history = e.history) :
    ∃ l', Edits S l' ⟨.atEnd (t.take (S.room - 1)), older, t, newer⟩ ∧
      ({ l with historyIndex := newer.length } : State).showEntry = l'.refreshLine := by
  have hdraw := h.takeUp hhistory
  have hentries : l.history = older.reverse ++ t :: newer := h.history.trans hhistory.symm
  have hslot : ({ l with historyIndex := newer.length } : State).slot = older.length := by
    show l.history.length - 1 - newer.length = older.length
    rw [hentries, List.length_append, List.length_reverse, List.length_cons]
    omega
  have hget : l.history.getD older.length [] = t := by
    rw [hentries, List.getD_append_right _ _ _ _ (by rw [List.length_reverse]), List.length_reverse,
      Nat.sub_self]
    rfl
  have htext : text (t.take (S.room - 1)) = t.take (S.room - 1) := by
    apply text_eq_self
    intro h0
    have hmem : t ∈ e.history := by
      rw [← hhistory, Editor.history]
      simp
    exact h.strings t hmem (List.mem_of_mem_take h0)
  have hstring := string_ok (l := { l with
    historyIndex := newer.length
    buf := put (put l.buf 0 ((t ++ List.replicate l.buflen 0).take l.buflen)) (l.buflen - 1) [0] })
    (t := t.take (S.room - 1)) (by simpa using hdraw.holds) (by
      show (t.take (S.room - 1)).length ≤ l.buflen
      rw [h.room, List.length_take]
      omega)
  rw [htext] at hstring
  refine ⟨_, hdraw, ?_⟩
  rw [State.showEntry, hslot]
  simp only [hget]
  rw [State.strncpy, Prog.ret_bind, poke_ok (by simp only; omega), Prog.ret_bind, hstring,
    Prog.ret_bind]

section
variable (h : Edits S l e) {dir : State.Dir}
include h

/-- There is nothing to go to. -/
theorem editHistoryNext_none (hlen : l.historyLen ≤ 1) : Leaves S e e (l.editHistoryNext dir) :=
  .silent l h (if_neg (Nat.not_lt.mpr hlen)) rfl

/-- The history ends there. -/
theorem editHistoryNext_stays (hlen : 1 < l.historyLen)
    (hmove : dir.move l.historyIndex l.historyLen = (l.historyIndex, false)) :
    Leaves S e e.record (l.editHistoryNext dir) := by
  have hmove' : dir.move (l.record (text e.line.text)).historyIndex
      (l.record (text e.line.text)).historyLen = (l.historyIndex, false) := by
    rw [← hmove, State.historyLen, State.record, List.length_set]
    rfl
  refine .silent _ h.record ?_ rfl
  rw [State.editHistoryNext, if_pos hlen, if_pos h.slot.1, h.string, Prog.ret_bind]
  simp only [hmove']
  rfl

theorem editHistoryNext_goes (hlen : 1 < l.historyLen) {older newer : List Text} {t : Text}
    (hmove : dir.move l.historyIndex l.historyLen = (newer.length, true))
    (hhistory : (⟨.atEnd (t.take (S.room - 1)), older, t, newer⟩ : Editor).history =
      e.record.history) :
    Leaves S e ⟨.atEnd (t.take (S.room - 1)), older, t, newer⟩ (l.editHistoryNext dir) := by
  have hmove' : dir.move (l.record (text e.line.text)).historyIndex
      (l.record (text e.line.text)).historyLen = (newer.length, true) := by
    rw [← hmove, State.historyLen, State.record, List.length_set]
    rfl
  obtain ⟨l', hl', hdraw⟩ := showEntry_redraws h.record hhistory
  refine .redrawn l' hl' ?_
  rw [State.editHistoryNext, if_pos hlen, if_pos h.slot.1, h.string, Prog.ret_bind]
  simp only [hmove', if_true]
  exact hdraw

theorem editHistoryPrev_leaves : Leaves S e (e.up S.room) (l.editHistoryNext .prev) := by
  obtain ⟨-, -, hlen⟩ := h.slot
  rcases holder : e.older with _ | ⟨t, ts⟩
  · rw [holder, List.length_nil] at hlen
    by_cases hnewer : e.newer = []
    · have hup : e.up S.room = e := by
        rw [Editor.up, holder]
        simp only [hnewer, if_true]
      rw [hup]
      apply editHistoryNext_none h
      rw [hlen, hnewer]
      exact Nat.le_refl _
    · have hpos := List.length_pos_iff.mpr hnewer
      have hup : e.up S.room = e.record := by
        rw [Editor.up, holder]
        simp only [if_neg hnewer]
        rw [Editor.record, holder]
      rw [hup]
      apply editHistoryNext_stays h (by omega)
      rw [State.Dir.move, if_pos (by rw [h.index]; omega), h.index]
      congr 1
      omega
  · rw [holder, List.length_cons] at hlen
    have hup : e.up S.room = ⟨.atEnd (t.take (S.room - 1)), ts, t, text e.line.text :: e.newer⟩ := by
      rw [Editor.up, holder]
    rw [hup]
    apply editHistoryNext_goes h (by omega)
    · rw [State.Dir.move, if_neg (by rw [h.index]; omega), h.index]
      rfl
    · rw [Editor.history, Editor.history, Editor.record, holder, List.reverse_cons, List.append_assoc]
      rfl

theorem editHistoryNext_leaves : Leaves S e (e.down S.room) (l.editHistoryNext .next) := by
  obtain ⟨-, -, hlen⟩ := h.slot
  have hindex := h.index
  rcases hnewer : e.newer with _ | ⟨t, ts⟩
  · rw [hnewer, List.length_nil] at hlen hindex
    by_cases holder : e.older = []
    · have hdown : e.down S.room = e := by
        rw [Editor.down, hnewer]
        simp only [holder, if_true]
      rw [hdown]
      apply editHistoryNext_none h
      rw [hlen, holder]
      exact Nat.le_refl _
    · have hpos := List.length_pos_iff.mpr holder
      have hdown : e.down S.room = e.record := by
        rw [Editor.down, hnewer]
        simp only [if_neg holder]
        rw [Editor.record, hnewer]
      rw [hdown]
      apply editHistoryNext_stays h (by omega)
      rw [State.Dir.move, if_pos hindex, hindex]
  · rw [hnewer, List.length_cons] at hlen hindex
    have hdown : e.down S.room = ⟨.atEnd (t.take (S.room - 1)), text e.line.text :: e.older, t, ts⟩ := by
      rw [Editor.down, hnewer]
    rw [hdown]
    apply editHistoryNext_goes h (by omega)
    · rw [State.Dir.move, if_neg (by omega), if_neg (by omega), hindex]
      rfl
    · rw [Editor.history, Editor.history, Editor.record, hnewer, List.reverse_cons, List.append_assoc]
      rfl

end

end M3Dev.Linenoise
