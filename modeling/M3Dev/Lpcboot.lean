import M3Dev.ByteBlock
import M3Dev.CallTriple
import M3Dev.HostCalls

/-! `tools/lpcboot.c`: the commands that go to the boot loader. -/
namespace M3Dev.Lpcboot
open CallTree WhileLoop ByteBlock

inductive Command where
  | flash
  | flashBoot
  | boot
  | erase
  | query
  | reboot
  | app
  deriving Repr, DecidableEq

/-- `cmd[1]` -/
def Command.letter : Command → Word
  | .flash => 0x57 -- 'W'
  | .flashBoot => 0x77 -- 'w'
  | .boot => 0x58 -- 'X'
  | .erase => 0x45 -- 'E'
  | .query => 0x51 -- 'Q'
  | .reboot => 0x52 -- 'R'
  | .app => 0x41 -- 'A'

/-- `dl` -/
def Command.downloads : Command → Bool
  | .flash => true
  | .flashBoot => true
  | .boot => true
  | _ => false

/-- What is printed. -/
inductive Report where
  | cannotRead
  | ioError
  | protocolError
  | failure (cmd : Command)
  | info (di : List Byte)
  | sending (sz : ℕ)
  | downloadFailure (sz : ℕ)
  | okay
  deriving DecidableEq

inductive Call where
  | usbWrite (data : List Byte)
  | usbRead (len : ℕ)
  | print (r : Report)
  deriving DecidableEq

/-- A result, and what was read. -/
structure Answer where
  n : ℤ
  data : List Byte

abbrev Program := Prog Call Answer Tools.Halt

/-- Print the reason and return -1. -/
def fails {α : Type} (r : Report) : Program (Pass α ℤ) := do
  let _ ← Prog.ask (.print r)
  return .exit (-1)

/-- One pass of `for (;;)`, with `dl`. -/
def replyPass (cmd : Command) (buf : List Byte) (dl : Bool) : Program (Pass Bool ℤ) := do
  let rep ← Prog.ask (.usbRead 8)
  if rep.n ≠ 8 then
    fails .ioError
  else if wordsAt rep.data 0 ≠ 0xDB00A5A5 then
    fails .protocolError
  else if wordsAt rep.data 1 ≠ 0 then
    fails (.failure cmd)
  else if cmd = .query then
    let di ← Prog.ask (.usbRead 64)
    if di.n ≠ 64 then
      fails .ioError
    else
      let _ ← Prog.ask (.print (.info di.data))
      return .exit 0
  else if dl = false then
    -- `break`, and what is behind the loop
    let _ ← Prog.ask (.print .okay)
    return .exit 0
  else
    let _ ← Prog.ask (.print (.sending buf.length))
    let w ← Prog.ask (.usbWrite buf)
    if w.n ≠ buf.length then
      fails (.downloadFailure buf.length)
    else
      return .next false

/-- `main` of a command, with the contents of `argv[2]` if it can be read. -/
def main (cmd : Command) (file : Option (List Byte)) : Program ℤ := do
  let buf := (file.getD []).take (1024 * 1024)
  if cmd.downloads = true ∧ buf.length < 1 then
    let _ ← Prog.ask (.print .cannotRead)
    return -1
  else
    let sz := if cmd.downloads then buf.length else 0
    let w ← Prog.ask (.usbWrite ([0xDB00A5A5, cmd.letter, BitVec.ofNat 32 sz].flatMap wordBytes))
    if w.n ≠ 12 then
      let _ ← Prog.ask (.print .ioError)
      return -1
    else
      -- `dl` is cleared in the first pass that goes on
      Prog.loop .spins (replyPass cmd buf) 2 cmd.downloads

end M3Dev.Lpcboot
