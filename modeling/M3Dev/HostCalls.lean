import M3Dev.CallTree
import M3Dev.GdbPacket
import M3Dev.WhileLoop
import Mathlib.Data.Int.Notation

/-! What the debugger's host code asks of the world around it, and the functions of
`rswdp.c` it asks through. -/
namespace M3Dev.Tools
open CallTree WhileLoop

/-- `q_ahb_write` or `q_ahb_read` into a transaction. -/
inductive AhbOp where
  | write (addr value : Word)
  | read (addr : Word)
  deriving Repr, DecidableEq

/-- Where the first access of a transaction for an address goes: `q_init` takes TAR to hold
`0xffffffff`, which is then not written. -/
def touched (tar addr : Word) : Word := if addr = 0xffffffff then tar else addr

theorem touched_of_ne (tar : Word) {addr : Word} (h : addr ≠ 0xffffffff) : touched tar addr = addr :=
  if_neg h

/-- The calls. `buf` holds the words the caller's pointer points to. -/
inductive Call where
  /-- the accesses queued into one transaction, and `q_exec` -/
  | exec (ops : List AhbOp) (buf : ℕ → Word)
  | ahbRead32 (addr : Word) (buf : ℕ → Word) (count : ℤ)
  | ahbWrite32 (addr : Word) (buf : ℕ → Word) (count : ℤ)
  /-- has `ATTN` changed since it was last looked at? -/
  | attn
  /-- memory for a `lkthread_t` -/
  | calloc
  /-- what the local variables of a function hold when it is entered -/
  | frame
  /-- the write loop of `gdb_epilogue` -/
  | send (packet : List Byte)
  | debuggerCommand (args : List Byte)

/-- The answers; each call has its own fields. -/
structure Answer where
  /-- the returned status; for `debuggerCommand`, `swdp_step_no_ints` afterwards -/
  rc : ℤ
  /-- what the caller's pointer points to afterwards -/
  buf : ℕ → Word
  /-- an address, 0 for `NULL` -/
  ptr : ℕ
  writes : List Gdb.WriteResult
  /-- the messages a command prints -/
  msgs : List (List Byte)

/-- The ways the code does not come back: a loop that has used up its passes, and a
pointer that leads nowhere. -/
inductive Halt where
  | spins
  | wild
  deriving Repr, DecidableEq

abbrev HostProg := Prog Call Answer Halt

/-- The loop over an explicit number of passes. -/
def repeatPasses {α β : Type} (body : α → HostProg (Pass α β)) : ℕ → α → HostProg β
  | 0, _ => .stop .spins
  | fuel + 1, a => do
    match ← body a with
    | .next a' => repeatPasses body fuel a'
    | .exit b => return b

/-! ### rswdp.c -/

def swdpAhbRead (addr old : Word) : HostProg (ℤ × Word) := do
  let a ← Prog.ask (.exec [.read addr] fun _ => old)
  return (a.rc, a.buf 0)

def swdpAhbWrite (addr value : Word) : HostProg ℤ := do
  let a ← Prog.ask (.exec [.write addr value] fun _ => 0)
  return a.rc

def swdpAhbRead32 (addr : Word) (out : ℕ → Word) (count : ℤ) : HostProg (ℤ × (ℕ → Word)) := do
  let a ← Prog.ask (.ahbRead32 addr out count)
  return (a.rc, a.buf)

def swdpAhbWrite32 (addr : Word) (inp : ℕ → Word) (count : ℤ) : HostProg ℤ := do
  let a ← Prog.ask (.ahbWrite32 addr inp count)
  return a.rc

abbrev cdbgCsr : Word := 0xE000EDF0
abbrev cdbgRegAddr : Word := 0xE000EDF4
abbrev cdbgRegData : Word := 0xE000EDF8

abbrev cdbgCsrKey : Word := 0xA05F0000
abbrev cdbgSHalt : Word := 0x20000
abbrev cdbgCMaskints : Word := 0x8
abbrev cdbgCStep : Word := 0x4
abbrev cdbgCHalt : Word := 0x2
abbrev cdbgCDebugen : Word := 0x1

def swdpCoreWrite (n v : Word) : HostProg ℤ := do
  let a ← Prog.ask (.exec
    [.write cdbgRegData v, .write cdbgRegAddr ((n &&& 0x1F) ||| 0x10000)] fun _ => 0)
  return a.rc

/-- The accesses for register `n`. -/
def coreReadOps (n : Word) : List AhbOp := [.write cdbgRegAddr (n &&& 0x1F), .read cdbgRegData]

def swdpCoreRead (n old : Word) : HostProg (ℤ × Word) := do
  let a ← Prog.ask (.exec (coreReadOps n) fun _ => old)
  return (a.rc, a.buf 0)

def swdpCoreReadAll (v : ℕ → Word) : HostProg (ℤ × (ℕ → Word)) := do
  let a ← Prog.ask (.exec ((List.range 19).flatMap (fun n => coreReadOps (BitVec.ofNat 32 n))) v)
  return (a.rc, a.buf)

/-- The control bits that are kept of `CDBG_CSR`. -/
def csrKept (x : Word) : Word := x &&& (cdbgCHalt ||| cdbgCDebugen ||| cdbgCMaskints)

def swdpCoreHalt : HostProg ℤ := do
  let (rc, x) ← swdpAhbRead cdbgCsr 0
  if rc ≠ 0 then return -1
  swdpAhbWrite cdbgCsr (csrKept x ||| (cdbgCsrKey ||| cdbgCDebugen ||| cdbgCHalt))

def swdpCoreStep (swdpStepNoInts : ℤ) : HostProg ℤ := do
  let (rc, x) ← swdpAhbRead cdbgCsr 0
  if rc ≠ 0 then return -1
  let x := csrKept x ||| cdbgCsrKey
  -- HALT if we're not already HALTED
  let x ← if x &&& cdbgCHalt = 0 then do
      let x := x ||| (cdbgCHalt ||| cdbgCDebugen)
      let _ ← swdpAhbWrite cdbgCsr x
      pure x
    else pure x
  let x ← if swdpStepNoInts ≠ 0 then
      -- set MASKINTS if not already set
      if x &&& cdbgCMaskints = 0 then do
        let x := x ||| cdbgCMaskints
        let _ ← swdpAhbWrite cdbgCsr x
        pure x
      else pure x
    else
      -- clear MASKINTs if not already clear
      if x &&& cdbgCMaskints ≠ 0 then do
        let x := x &&& ~~~cdbgCMaskints
        let _ ← swdpAhbWrite cdbgCsr x
        pure x
      else pure x
  -- STEP
  let x := x &&& ~~~cdbgCHalt
  swdpAhbWrite cdbgCsr (x ||| cdbgCStep)

def swdpCoreResume (swdpStepNoInts : ℤ) : HostProg ℤ := do
  let (rc, x) ← swdpAhbRead cdbgCsr 0
  if rc ≠ 0 then return -1
  let x := csrKept x ||| (cdbgCsrKey ||| cdbgCDebugen)
  let x ← if swdpStepNoInts > 1 then
      -- not just on during step, but always
      if x &&& cdbgCMaskints = 0 then do
        let x := x ||| cdbgCMaskints
        let _ ← swdpAhbWrite cdbgCsr x
        pure x
      else pure x
    else
      if x &&& cdbgCMaskints ≠ 0 then do
        let x := x &&& ~~~cdbgCMaskints
        let _ ← swdpAhbWrite cdbgCsr x
        pure x
      else pure x
  swdpAhbWrite cdbgCsr (x &&& ~~~(cdbgCHalt ||| cdbgCStep))

/-- One pass of the wait: the loop is left with 0 once the core has halted, with -1 when
it cannot be asked, with -2 on the user's attention signal. -/
def waitForHaltPass (_ : Unit) : HostProg (Pass Unit ℤ) := do
  let (rc, csr) ← swdpAhbRead cdbgCsr 0
  if rc ≠ 0 then return .exit (-1)
  if csr &&& cdbgSHalt ≠ 0 then return .exit 0
  let a ← Prog.ask .attn
  if a.rc ≠ 0 then return .exit (-2)
  return .next ()

def swdpCoreWaitForHalt (fuel : ℕ) : HostProg ℤ := repeatPasses waitForHaltPass fuel ()

abbrev demcr : Word := 0xE000EDFC
abbrev demcrTrcena : Word := 0x01000000
abbrev demcrVcCorereset : Word := 0x1

def dwtComp (n : Word) : Word := 0xE0001020 + n * 0x10
def dwtMask (n : Word) : Word := 0xE0001024 + n * 0x10
def dwtFunc (n : Word) : Word := 0xE0001028 + n * 0x10

abbrev dwtFnDisabled : Word := 0x0
abbrev dwtFnWatchPc : Word := 0x4
abbrev dwtFnWatchRw : Word := 0x7

def swdpWatchpoint (n addr func : Word) : HostProg ℤ := do
  if n > 3 then return -1
  -- enable DWT, enable all exception traps
  let a ← Prog.ask (.exec
    ([.write demcr (demcrTrcena ||| demcrVcCorereset), .write (dwtFunc n) dwtFnDisabled] ++
      if func ≠ dwtFnDisabled then
        [.write (dwtComp n) addr, .write (dwtMask n) 0, .write (dwtFunc n) func]
      else []) fun _ => 0)
  return a.rc

def swdpWatchpointPc (n addr : Word) : HostProg ℤ := swdpWatchpoint n addr dwtFnWatchPc

def swdpWatchpointRw (n addr : Word) : HostProg ℤ := swdpWatchpoint n addr dwtFnWatchRw

def swdpWatchpointDisable (n : Word) : HostProg ℤ := swdpWatchpoint n 0 dwtFnDisabled

end M3Dev.Tools
