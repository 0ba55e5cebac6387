import M3Dev.Buffer
import M3Dev.CallTriple
import M3Dev.Machine
import M3Dev.Numerals

/-! `tools/linenoise.c`: the line editor of the debugger's prompt, on one line, and its
history. No completions are registered. -/
namespace M3Dev.Linenoise
open CallTree WhileLoop

abbrev Text := List Byte

/-- A string constant of the source. -/
def ascii (s : String) : Text := s.toList.map fun c => BitVec.ofNat 8 c.toNat

/-- What the editor calls. -/
inductive Call where
  /-- `poll`, with `linenoise_lock` given up meanwhile -/
  | poll
  /-- `read` of one character of the input -/
  | read
  /-- `read` of one character of the pipe -/
  | drain
  | write (bytes : Text)
  deriving DecidableEq, Repr

/-- The answers; each call has its own fields. -/
structure Answer where
  /-- what the call returns -/
  count : ℤ
  /-- what `read` leaves where its character goes -/
  byte : Byte
  /-- `linenoise_repaint` once the lock is taken again -/
  repaint : Bool
  /-- `fds[1].revents & POLLIN` -/
  pipe : Bool
  /-- `fds[0].revents & POLLIN` -/
  input : Bool
  /-- what other threads have written meanwhile -/
  others : Text
  deriving DecidableEq, Repr

/-- What keeps the editor from returning: it does what C leaves undefined, or it still
runs. -/
inductive Halt where
  | undefined
  | running
  deriving DecidableEq, Repr

abbrev EditProg := Prog Call Answer Halt

/-- `struct linenoiseState`, and the history, the oldest entry first. -/
structure State where
  buf : ℕ → Byte
  /-- the array has one cell more -/
  buflen : ℕ
  prompt : Text
  pos : ℕ
  len : ℕ
  cols : ℕ
  historyIndex : ℕ
  history : List Text

namespace State

def historyLen (l : State) : ℕ := l.history.length

/-- `buf[i] = c` -/
def poke (l : State) (i : ℕ) (c : Byte) : EditProg State :=
  if i ≤ l.buflen then .ret { l with buf := Function.update l.buf i c } else .stop .undefined

/-- `memmove(buf + dst, buf + src, n)` -/
def memmove (l : State) (dst src n : ℕ) : EditProg State :=
  if dst + n ≤ l.buflen + 1 ∧ src + n ≤ l.buflen + 1 then
    .ret { l with buf := Buffer.put l.buf dst (Buffer.get l.buf src n) }
  else .stop .undefined

/-- The string in `buf`. -/
def string (l : State) : EditProg Text :=
  let t := text (Buffer.get l.buf 0 (l.buflen + 1))
  if t.length ≤ l.buflen then .ret t else .stop .undefined

/-! ### Refreshing the line -/

/-- `while((plen+pos) >= cols)`: `buf`, `len` and `pos` behind the loop. No result is where
`pos` would go below 0, on a terminal no wider than the prompt. -/
def scroll (plen cols : ℕ) : ℕ → ℕ → ℕ → Option (ℕ × ℕ × ℕ)
  | start, len, 0 => if plen ≥ cols then none else some (start, len, 0)
  | start, len, pos + 1 =>
    if plen + (pos + 1) ≥ cols then scroll plen cols (start + 1) (len - 1) pos
    else some (start, len, pos + 1)

/-- `while (plen+len > cols)`: `len` behind the loop. -/
def trim (plen cols : ℕ) : ℕ → ℕ
  | 0 => 0
  | len + 1 => if plen + (len + 1) > cols then trim plen cols len else len + 1

/-- `%d` -/
def decimal (n : ℕ) : Text := (Numerals.numeral 10 n).map fun d => 0x30 + BitVec.ofNat 8 d

/-- The escape sequences the line is written with. -/
def refreshText (prompt shown : Text) (column : ℕ) : Text :=
  ascii "\r" ++ prompt ++ shown ++ ascii "\x1b[0K" ++ ascii "\r\x1b[" ++ decimal column ++ ascii "C"

def refreshSingleLine (l : State) : EditProg Unit := do
  let plen := l.prompt.length
  match scroll plen l.cols 0 l.len l.pos with
  | none => .stop .undefined
  | some (start, len, pos) => do
    let shown := Buffer.get l.buf start (trim plen l.cols len)
    let _ ← Prog.ask (.write (refreshText l.prompt shown (pos + plen)))
    return ()

def refreshLine (l : State) : EditProg State := do
  refreshSingleLine l
  return l

/-! ### Editing -/

/-- -1 where the terminal cannot be written, otherwise 0. -/
def editInsert (l : State) (c : Byte) : EditProg (ℤ × State) :=
  if l.len < l.buflen then
    if l.len = l.pos then do
      let l ← l.poke l.pos c
      let l := { l with pos := l.pos + 1, len := l.len + 1 }
      let l ← l.poke l.len 0
      if l.prompt.length + l.len < l.cols then
        -- a full update of the line is avoided
        let r ← Prog.ask (.write [c])
        return (if r.count = -1 then -1 else 0, l)
      else
        let l ← l.refreshLine
        return (0, l)
    else do
      let l ← l.memmove (l.pos + 1) l.pos (l.len - l.pos)
      let l ← l.poke l.pos c
      let l := { l with len := l.len + 1, pos := l.pos + 1 }
      let l ← l.poke l.len 0
      let l ← l.refreshLine
      return (0, l)
  else .ret (0, l)

def editMoveLeft (l : State) : EditProg State :=
  if l.pos > 0 then { l with pos := l.pos - 1 }.refreshLine else .ret l

def editMoveRight (l : State) : EditProg State :=
  if l.pos ≠ l.len then { l with pos := l.pos + 1 }.refreshLine else .ret l

def editMoveHome (l : State) : EditProg State :=
  if l.pos ≠ 0 then { l with pos := 0 }.refreshLine else .ret l

def editMoveEnd (l : State) : EditProg State :=
  if l.pos ≠ l.len then { l with pos := l.len }.refreshLine else .ret l

/-- `LINENOISE_HISTORY_NEXT` or `LINENOISE_HISTORY_PREV` -/
inductive Dir where
  | next
  | prev
  deriving DecidableEq, Repr

/-- `history_index` with the direction added, and whether it stays in the history. -/
def Dir.move (index len : ℕ) : Dir → ℕ × Bool
  | .prev => if index + 1 ≥ len then (len - 1, false) else (index + 1, true)
  | .next =>
    if index = 0 then (0, false)
    else if index - 1 ≥ len then (len - 1, false)
    else (index - 1, true)

/-- The number of the entry that `history_index` stands for. -/
def slot (l : State) : ℕ := l.historyLen - 1 - l.historyIndex

/-- `strncpy(buf, t, buflen)` -/
def strncpy (l : State) (t : Text) : EditProg State :=
  .ret { l with buf := Buffer.put l.buf 0 ((t ++ List.replicate l.buflen 0).take l.buflen) }

/-- The current entry becomes a copy of `t`. -/
def record (l : State) (t : Text) : State := { l with history := l.history.set l.slot t }

/-- The current entry becomes the line. -/
def showEntry (l : State) : EditProg State := do
  let l ← l.strncpy (l.history.getD l.slot [])
  let l ← l.poke (l.buflen - 1) 0
  let t ← l.string
  { l with len := t.length, pos := t.length }.refreshLine

def editHistoryNext (l : State) (dir : Dir) : EditProg State :=
  if l.historyLen > 1 then
    if l.historyIndex < l.historyLen then do
      let t ← l.string
      let l := l.record t
      let (index, inside) := dir.move l.historyIndex l.historyLen
      let l := { l with historyIndex := index }
      if inside then l.showEntry else return l
    else .stop .undefined
  else .ret l

def editDelete (l : State) : EditProg State :=
  if l.len > 0 ∧ l.pos < l.len then do
    let l ← l.memmove l.pos (l.pos + 1) (l.len - l.pos - 1)
    let l := { l with len := l.len - 1 }
    let l ← l.poke l.len 0
    l.refreshLine
  else .ret l

def editBackspace (l : State) : EditProg State :=
  if l.pos > 0 ∧ l.len > 0 then do
    let l ← l.memmove (l.pos - 1) l.pos (l.len - l.pos)
    let l := { l with pos := l.pos - 1, len := l.len - 1 }
    let l ← l.poke l.len 0
    l.refreshLine
  else .ret l

/-- The loops that go back over characters: `pos` behind one. -/
def goBack (buf : ℕ → Byte) (skips : Byte → Bool) : ℕ → ℕ
  | 0 => 0
  | pos + 1 => if skips (buf pos) then goBack buf skips pos else pos + 1

def isSpace (c : Byte) : Bool := c = 0x20

def editDeletePrevWord (l : State) : EditProg State := do
  let pos := goBack l.buf isSpace l.pos
  let pos := goBack l.buf (!isSpace ·) pos
  let old := l.pos
  let l ← l.memmove pos old (l.len - old + 1)
  { l with pos := pos, len := l.len - (old - pos) }.refreshLine

def editSwap (l : State) : EditProg State :=
  if l.pos > 0 ∧ l.pos < l.len then do
    let aux := l.buf (l.pos - 1)
    let l ← l.poke (l.pos - 1) (l.buf l.pos)
    let l ← l.poke l.pos aux
    { l with pos := if l.pos ≠ l.len - 1 then l.pos + 1 else l.pos }.refreshLine
  else .ret l

def editClear (l : State) : EditProg State := do
  let l ← l.poke 0 0
  { l with pos := 0, len := 0 }.refreshLine

def editDeleteRest (l : State) : EditProg State := do
  let l ← l.poke l.pos 0
  { l with len := l.pos }.refreshLine

def clearScreen (l : State) : EditProg State := do
  let _ ← Prog.ask (.write (ascii "\x1b[H\x1b[2J"))
  l.refreshLine

end State

/-! ### Reading -/

/-- `linenoiseRead`: what `read` returns, and the character. -/
def linenoiseRead (l : State) : ℕ → EditProg (ℤ × Byte)
  | 0 => .stop .running
  | fuel + 1 => do
    let a ← Prog.ask .poll
    if a.repaint then l.refreshSingleLine
    if a.count < 0 then return (-1, a.byte)
    else if a.pipe then do
      let _ ← Prog.ask .drain
      linenoiseRead l fuel
    else if a.input then do
      let r ← Prog.ask .read
      return (r.count, r.byte)
    else linenoiseRead l fuel

/-! ### The history -/

/-- `linenoiseHistoryAdd` -/
def historyAdd (maxLen : ℕ) (line : Text) (history : List Text) : List Text :=
  if maxLen = 0 then history
  else if history.getLast? = some line then history
  else (if history.length = maxLen then history.tail else history) ++ [line]

/-! ### The loop -/

/-- `l.len` or -1, and what is left of the state. -/
abbrev Result := ℤ × State

/-- The escape sequences. -/
def escape (l : State) : EditProg State := do
  let a ← Prog.ask .read
  if a.count = -1 then return l
  let b ← Prog.ask .read
  if b.count = -1 then return l
  if a.byte = 0x5b then
    if 0x30 ≤ b.byte ∧ b.byte ≤ 0x39 then
      let c ← Prog.ask .read
      if c.count = -1 then return l
      if c.byte = 0x7e ∧ b.byte = 0x33 then l.editDelete else return l
    else if b.byte = 0x41 then l.editHistoryNext .prev
    else if b.byte = 0x42 then l.editHistoryNext .next
    else if b.byte = 0x43 then l.editMoveRight
    else if b.byte = 0x44 then l.editMoveLeft
    else if b.byte = 0x48 then l.editMoveHome
    else if b.byte = 0x46 then l.editMoveEnd
    else return l
  else if a.byte = 0x4f then
    if b.byte = 0x48 then l.editMoveHome
    else if b.byte = 0x46 then l.editMoveEnd
    else return l
  else return l

/-- `enum KEY_ACTION`; no name is a character that is inserted. -/
inductive Key where
  | enter | ctrlC | backspace | ctrlD | ctrlT | ctrlB | ctrlF | ctrlP | ctrlN | esc | ctrlU | ctrlK
  | ctrlA | ctrlE | ctrlL | ctrlW | char
  deriving DecidableEq, Repr

def Key.of (c : Byte) : Key :=
  match c.toNat with
  | 1 => .ctrlA
  | 2 => .ctrlB
  | 3 => .ctrlC
  | 4 => .ctrlD
  | 5 => .ctrlE
  | 6 => .ctrlF
  | 8 => .backspace
  | 11 => .ctrlK
  | 12 => .ctrlL
  | 13 => .enter
  | 14 => .ctrlN
  | 16 => .ctrlP
  | 20 => .ctrlT
  | 21 => .ctrlU
  | 23 => .ctrlW
  | 27 => .esc
  | 127 => .backspace
  | _ => .char

/-- Go round the loop with what an edit leaves. -/
def goOn (edit : EditProg State) : EditProg (Pass State Result) := do
  let l ← edit
  return .next l

/-- `history_len--` -/
def State.dropEntry (l : State) : EditProg State :=
  if l.history = [] then .stop .undefined else .ret { l with history := l.history.dropLast }

/-- `switch(c)` -/
def handleKey (l : State) (c : Byte) : EditProg (Pass State Result) :=
  match Key.of c with
  | .enter => do
    let l ← l.dropEntry
    return .exit (l.len, l)
  | .ctrlC => return .exit (-1, l)
  | .backspace => goOn l.editBackspace
  | .ctrlD =>
    if l.len > 0 then goOn l.editDelete
    else do
      let l ← l.dropEntry
      return .exit (-1, l)
  | .ctrlT => goOn l.editSwap
  | .ctrlB => goOn l.editMoveLeft
  | .ctrlF => goOn l.editMoveRight
  | .ctrlP => goOn (l.editHistoryNext .prev)
  | .ctrlN => goOn (l.editHistoryNext .next)
  | .esc => goOn (escape l)
  | .ctrlU => goOn l.editClear
  | .ctrlK => goOn l.editDeleteRest
  | .ctrlA => goOn l.editMoveHome
  | .ctrlE => goOn l.editMoveEnd
  | .ctrlL => goOn l.clearScreen
  | .ctrlW => goOn l.editDeletePrevWord
  | .char => do
    let (r, l) ← l.editInsert c
    if r ≠ 0 then return .exit (-1, l) else return .next l

/-- A pass of `while(1)`. -/
def editPass (fuel : ℕ) (l : State) : EditProg (Pass State Result) := do
  let (nread, c) ← linenoiseRead l fuel
  if nread ≤ 0 then return .exit (l.len, l) else handleKey l c

/-- `LINENOISE_DEFAULT_HISTORY_MAX_LEN` -/
def historyMaxLen : ℕ := 100

/-- `linenoiseEdit`; `cols` is what `getColumns` finds. -/
def linenoiseEdit (fuel : ℕ) (buf : ℕ → Byte) (size : ℕ) (prompt : Text) (cols : ℕ)
    (history : List Text) : EditProg Result := do
  let l : State := ⟨Function.update buf 0 0, size - 1, prompt, 0, 0, cols, 0,
    historyAdd historyMaxLen [] history⟩
  let r ← Prog.ask (.write prompt)
  if r.count = -1 then return (-1, l) else Prog.loop .running (editPass fuel) fuel l

end M3Dev.Linenoise
