import M3Dev.EventSystem
import Mathlib.Logic.Function.Basic
import Mathlib.Algebra.Ring.Nat

/-! `libfw/usbconsole.c`: the main thread, statement by statement, and the handler of the empty
endpoint, which runs to its end wherever interrupts are enabled. -/
namespace M3Dev.UsbConsole
open EventSystem

abbrev Word := BitVec 32
abbrev Byte := BitVec 8

def ucOutSz : Word := 256

/-- `the_usb_console`, the interrupt mask, and what was passed to `usb_ep1_write` so far. -/
structure Console where
  outHead : Word
  outTail : Word
  outBusy : Word
  outData : ℕ → Byte
  irq : Bool
  written : List Byte

/-- The local variables of `uc_write`. -/
structure Locals where
  pos : Word
  len : Word
  rem : Word

/-- The statements of `uc_write`. -/
inductive WriteLine where
  | pos
  | len
  | rem
  | clipRem
  | clip64
  | disable
  | busy
  | write
  | enable
  | tail
  deriving DecidableEq, Repr

def WriteLine.next : WriteLine → Option WriteLine
  | .pos => some .len
  | .len => some .rem
  | .rem => some .clipRem
  | .clipRem => some .clip64
  | .clip64 => some .disable
  | .disable => some .busy
  | .busy => some .write
  | .write => some .enable
  | .enable => some .tail
  | .tail => none

def block (data : ℕ → Byte) (pos len : ℕ) : List Byte := (List.range len).map fun i => data (pos + i)

def ucWriteLine : WriteLine → Locals → Console → Locals × Console
  | .pos, l, uc => ({ l with pos := uc.outTail &&& (ucOutSz - 1) }, uc)
  | .len, l, uc => ({ l with len := uc.outHead - uc.outTail }, uc)
  | .rem, l, uc => ({ l with rem := ucOutSz - l.pos }, uc)
  | .clipRem, l, uc => ({ l with len := if l.rem < l.len then l.rem else l.len }, uc)
  | .clip64, l, uc => ({ l with len := if 64 < l.len then 64 else l.len }, uc)
  | .disable, l, uc => (l, { uc with irq := false })
  | .busy, l, uc => (l, { uc with outBusy := 1 })
  | .write, l, uc => (l, { uc with written := uc.written ++ block uc.outData l.pos.toNat l.len.toNat })
  | .enable, l, uc => (l, { uc with irq := true })
  | .tail, l, uc => (l, { uc with outTail := uc.outTail + l.len })

/-- `uc_write` without a break between its statements. -/
def ucWrite (uc : Console) : Console :=
  ([WriteLine.pos, .len, .rem, .clipRem, .clip64, .disable, .busy, .write, .enable, .tail].foldl
    (fun s line => ucWriteLine line s.1 s.2) (⟨0, 0, 0⟩, uc)).2

def handleEp1TxEmpty (uc : Console) : Console :=
  let uc := { uc with outBusy := 0 }
  if uc.outHead - uc.outTail ≠ 0 then ucWrite uc else uc

def handleUsbOnline (yes : Bool) (uc : Console) : Console :=
  if yes then handleEp1TxEmpty uc else { uc with outBusy := 1 }

/-- Where the main thread is: between calls; at the condition of the loop of `uc_putc`; at the
`if` in it; at its two last statements; or at a statement of `uc_write`, called from `uc_putc` with
the character it has in hand, or from `printu`. -/
inductive Main where
  | idle
  | full (c : Word)
  | busy (c : Word)
  | write (caller : Option Word) (line : WriteLine) (l : Locals)
  | store (c : Word)
  | head

/-- The console, the main thread, and the characters passed to `uc_putc` so far. -/
structure State where
  uc : Console
  main : Main
  put : List Byte

inductive Event where
  /-- `vprintx` calls `uc_putc` -/
  | putc (c : Word)
  /-- the `if` at the end of `printu` -/
  | printuEnd
  /-- the next statement of `uc_putc` or `uc_write` -/
  | main
  | txEmpty
  | usbOnline (yes : Bool)

/-- Back from `uc_write`. -/
def Main.back : Option Word → Main
  | some c => .full c
  | none => .idle

def mainStep (s : State) : Option State :=
  match s.main with
  | .idle => none
  | .full c =>
    if s.uc.outHead - s.uc.outTail = ucOutSz then
      some { s with main := .busy c }
    else
      some { s with main := .store c }
  | .busy c =>
    if s.uc.outBusy = 0 then
      some { s with main := .write (some c) .pos ⟨0, 0, 0⟩ }
    else
      some { s with main := .full c }
  | .write caller line l =>
    match line.next with
    | some line' => some { s with
        uc := (ucWriteLine line l s.uc).2, main := .write caller line' (ucWriteLine line l s.uc).1 }
    | none => some { s with uc := (ucWriteLine line l s.uc).2, main := .back caller }
  | .store c => some { s with
      uc := { s.uc with
        outData := Function.update s.uc.outData (s.uc.outHead &&& (ucOutSz - 1)).toNat (c.setWidth 8) }
      main := .head }
  | .head => some { s with uc := { s.uc with outHead := s.uc.outHead + 1 }, main := .idle }

def step : Step State Event
  | s, .putc c =>
    match s.main with
    | .idle => some { s with main := .full c, put := s.put ++ [c.setWidth 8] }
    | _ => none
  | s, .printuEnd =>
    match s.main with
    | .idle =>
      if s.uc.outHead - s.uc.outTail ≠ 0 ∧ s.uc.outBusy = 0 then
        some { s with main := .write none .pos ⟨0, 0, 0⟩ }
      else
        some s
    | _ => none
  | s, .main => mainStep s
  | s, .txEmpty => if s.uc.irq then some { s with uc := handleEp1TxEmpty s.uc } else none
  | s, .usbOnline yes => if s.uc.irq then some { s with uc := handleUsbOnline yes s.uc } else none

def theUsbConsole : Console := ⟨0, 0, 1, fun _ => 0, true, []⟩

def boot : State := ⟨theUsbConsole, .idle, []⟩

end M3Dev.UsbConsole
