import M3Dev.CallTriple
import M3Dev.SerialBits

/-! The two SWD port drivers, `m3debug/swdp.c` on the SSP controller and `swdp/swdp.c` on two
port pins, and what they do to the data line. -/
namespace M3Dev.Wire
open CallTree WhileLoop SerialBits

abbrev Word := BitVec 32

/-- The data line: the levels the target has yet to put on it, the next one first, and those the
host has put on it so far. -/
structure Line where
  input : List Bool
  driven : List Bool
  deriving DecidableEq

/-- Why a run does not come back: the target acknowledges with WAIT again and again. -/
inductive Stop where
  | waits
  deriving DecidableEq

/-! ### m3debug -/
namespace M3Debug

inductive Call where
  /-- `SSP0_CR0`: frames of so many bits -/
  | cr0 (bits : ℕ)
  /-- `IOCON_PIO0_9`: whether the pin is the controller's -/
  | iocon (mosi : Bool)
  /-- `SSP0_DR`, up to the end of the frame -/
  | writeDr (n : Word)
  | readDr

abbrev Program := Prog Call Word Stop

def dirOut (n : ℕ) : Program Unit := do
  let _ ← Prog.ask (.cr0 n)
  let _ ← Prog.ask (.iocon true)
  return ()

def dirIn (n : ℕ) : Program Unit := do
  let _ ← Prog.ask (.iocon false)
  let _ ← Prog.ask (.cr0 n)
  return ()

def xmit (n : Word) : Program Unit := do
  let _ ← Prog.ask (.writeDr n)
  let _ ← Prog.ask .readDr
  return ()

def recv : Program Word := do
  let _ ← Prog.ask (.writeDr 0)
  Prog.ask .readDr

def revbits (n : Word) : Word :=
  let n := ((n >>> 1) &&& 0x55555555#32) ||| ((n <<< 1) &&& 0xaaaaaaaa#32)
  let n := ((n >>> 2) &&& 0x33333333#32) ||| ((n <<< 2) &&& 0xcccccccc#32)
  let n := ((n >>> 4) &&& 0x0f0f0f0f#32) ||| ((n <<< 4) &&& 0xf0f0f0f0#32)
  let n := ((n >>> 8) &&& 0x00ff00ff#32) ||| ((n <<< 8) &&& 0xff00ff00#32)
  ((n >>> 16) &&& 0x0000ffff#32) ||| ((n <<< 16) &&& 0xffff0000#32)

def parity (n : Word) : Word :=
  let n := (n &&& 0x55555555#32) + ((n &&& 0xaaaaaaaa#32) >>> 1)
  let n := (n &&& 0x33333333#32) + ((n &&& 0xcccccccc#32) >>> 2)
  let n := (n &&& 0x0f0f0f0f#32) + ((n &&& 0xf0f0f0f0#32) >>> 4)
  let n := (n &&& 0x00ff00ff#32) + ((n &&& 0xff00ff00#32) >>> 8)
  let n := (n &&& 0x0000ffff#32) + ((n &&& 0xffff0000#32) >>> 16)
  n &&& 1

/-- From `again` to the next `goto again` or `return`; the state is `count_wr_wait`. -/
def swdpWritePass (n v : Word) (countWrWait : Word) : Program (Pass Word (ℤ × Word)) := do
  xmit n
  dirIn 4
  let a ← recv
  if a &&& 7 ≠ 4 then
    dirOut 16
    if a &&& 7 = 2 then
      return .next (countWrWait + 1)
    return .exit (-1, countWrWait)
  let p := parity v
  let v := revbits v
  dirOut 9
  xmit (0x100#32 ||| (v >>> 24))
  dirOut 16
  xmit (v >>> 8)
  dirOut 9
  xmit ((v <<< 1) ||| p)
  dirOut 16
  return .exit (0, countWrWait)

/-- The status, `*out` and `count_rd_wait`. -/
def swdpReadPass (n : Word) (countRdWait : Word) : Program (Pass Word (ℤ × Word × Word)) := do
  xmit n
  dirIn 4
  let a ← recv
  if a &&& 7 ≠ 4 then
    dirOut 16
    if a &&& 7 = 2 then
      return .next (countRdWait + 1)
    return .exit (-1, 0xffffffff, countRdWait)
  dirIn 16
  let a ← recv
  dirIn 8
  let b ← recv
  dirIn 10
  let c ← recv
  let out := revbits ((a <<< 16) ||| (b <<< 8) ||| (c >>> 2))
  dirOut 16
  return .exit (0, out, countRdWait)

def swdpWrite (fuel : ℕ) (n v countWrWait : Word) : Program (ℤ × Word) :=
  Prog.loop .waits (swdpWritePass n v) fuel countWrWait

def swdpRead (fuel : ℕ) (n countRdWait : Word) : Program (ℤ × Word × Word) :=
  Prog.loop .waits (swdpReadPass n) fuel countRdWait

/-- The controller: the length of its frames, whether the pin is its own, what it has received,
and the line. -/
structure Ssp where
  bits : ℕ
  out : Bool
  received : List Word
  line : Line
  deriving DecidableEq

/-- One frame. It drives the line where the pin is its own, and takes what the target drives
where it is not. -/
def Ssp.frame (s : Ssp) (n : Word) : Option Ssp :=
  if s.out then
    some { s with
      received := s.received ++ [ofMsbFirst 32 (msbFirst s.bits n)]
      line := { s.line with driven := s.line.driven ++ msbFirst s.bits n } }
  else if s.bits ≤ s.line.input.length then
    some { s with
      received := s.received ++ [ofMsbFirst 32 (s.line.input.take s.bits)]
      line := { s.line with input := s.line.input.drop s.bits } }
  else
    none

def ssp : Responder Call Word Ssp
  | .cr0 n, s => some (0, { s with bits := n })
  | .iocon mosi, s => some (0, { s with out := mosi })
  | .writeDr n, s => (s.frame n).map fun s' => (0, s')
  | .readDr, s =>
    match s.received with
    | [] => some (0, s)
    | n :: ns => some (n, { s with received := ns })

end M3Debug

/-! ### The probe on port pins -/
namespace Gpio

def gpioClk : ℕ := 1
def gpioDat : ℕ := 0

def d0 : Word := 1#32 <<< (gpioDat + 16)
def d1 : Word := 1#32 <<< gpioDat
def c0 : Word := 1#32 <<< (gpioClk + 16)
def c1 : Word := 1#32 <<< gpioClk

inductive Call where
  /-- `GPIO_BSR` of port A -/
  | bsr (v : Word)
  /-- `GPIO_BRR` of port A -/
  | brr (v : Word)
  /-- `GPIO_IDR` of port A -/
  | idr
  /-- `gpio_config`, as an output or as an input with a pull -/
  | config (n : ℕ) (output : Bool)

abbrev Program := Prog Call Word Stop

def xmit (data : Word) : Program Unit := do
  let _ ← Prog.ask (.bsr (data ||| c0))
  let _ ← Prog.ask (.bsr (data ||| c1))
  return ()

def gpioSet (n : ℕ) : Program Unit := do
  let _ ← Prog.ask (.bsr (1#32 <<< n))
  return ()

def gpioClr (n : ℕ) : Program Unit := do
  let _ ← Prog.ask (.brr (1#32 <<< n))
  return ()

def dOut : Program Unit := do
  let _ ← Prog.ask (.config gpioDat true)
  return ()

def dIn : Program Unit := do
  let _ ← Prog.ask (.config gpioDat false)
  return ()

/-- The loop of `recv`, with `n` and `bit`. -/
def recvLoop : ℕ → Word → Word → Program Word
  | 0, n, _ => return n
  | count + 1, n, bit => do
    let _ ← Prog.ask (.bsr (d1 ||| c0))
    let level ← Prog.ask .idr
    let n := if level &&& (1#32 <<< gpioDat) ≠ 0 then n ||| bit else n
    let _ ← Prog.ask (.bsr (d1 ||| c1))
    recvLoop count n (bit <<< 1)

def recv (count : ℕ) : Program Word := recvLoop count 0 1

/-- The loop of `send`, with `n` and `p`. -/
def sendLoop : ℕ → Word → Word → Program Word
  | 0, _, p => return p
  | count + 1, n, p => do
    let p := p ^^^ (n &&& 1)
    xmit (if n &&& 1 ≠ 0 then d1 else d0)
    sendLoop count (n >>> 1) p

def send (n : Word) (count : ℕ) : Program Unit := do
  let p ← sendLoop count n 0
  xmit (if p ≠ 0 then d1 else d0)

def clockLow : ℕ → Program Unit
  | 0 => return ()
  | n + 1 => do
    xmit d0
    clockLow n

/-- The loop over the header, most significant bit first. -/
def header : ℕ → Word → Program Unit
  | 0, _ => return ()
  | n + 1, hdr => do
    xmit (if hdr &&& 0x80 ≠ 0 then d1 else d0)
    header n (hdr <<< 1)

/-- The status and `*v`. -/
def swdpRead (hdr : Word) : Program (ℤ × Word) := do
  gpioClr 2
  header 8 hdr
  dIn
  xmit d1
  let n ← recv 3
  let m ← recv 32
  let _ ← recv 1
  dOut
  xmit d1
  clockLow 8
  gpioSet 2
  return (if n = 1 then 0 else -1, m)

def swdpWrite (hdr val : Word) : Program ℤ := do
  header 8 hdr
  dIn
  xmit d1
  let n ← recv 3
  dOut
  xmit d1
  send val 32
  clockLow 8
  return if n = 1 then 0 else -1

/-- The port: the levels of the clock, data and trace pins, whether the data pin is an output,
and the line. -/
structure Port where
  clk : Bool
  dat : Bool
  trace : Bool
  out : Bool
  line : Line
  deriving DecidableEq

/-- A pin after a write to `GPIO_BSR`: setting goes before resetting. -/
def level (v : Word) (pin : ℕ) (old : Bool) : Bool :=
  v.getLsbD pin || (!v.getLsbD (pin + 16) && old)

/-- At a rising clock the level of the data pin is sent, or the target's next one is due. -/
def Port.edge (s : Port) (clkBefore : Bool) : Port :=
  if clkBefore || !s.clk then
    s
  else if s.out then
    { s with line := { s.line with driven := s.line.driven ++ [s.dat] } }
  else
    { s with line := { s.line with input := s.line.input.tail } }

def port : Responder Call Word Port
  | .bsr v, s => some (0, Port.edge
      { s with clk := level v gpioClk s.clk, dat := level v gpioDat s.dat, trace := level v 2 s.trace } s.clk)
  | .brr v, s => some (0, Port.edge
      { s with
        clk := !v.getLsbD gpioClk && s.clk
        dat := !v.getLsbD gpioDat && s.dat
        trace := !v.getLsbD 2 && s.trace } s.clk)
  | .idr, s =>
    if s.out then
      some ((BitVec.ofBool s.dat).setWidth 32, s)
    else
      s.line.input.head?.map fun b => ((BitVec.ofBool b).setWidth 32, s)
  | .config n output, s => some (0, if n = gpioDat then { s with out := output } else s)

end Gpio
end M3Dev.Wire
