import M3Dev.EventSystem
import M3Dev.GdbCommand

/-! `gdb_server`: bytes from gdb and looks at the target's core, in any order. -/
namespace M3Dev.Gdb
open CallTree EventSystem Tools Lk

/-- `gdb_init`; what it does not assign stays as it is. -/
def gdbInit (gc : GdbCnxn Bridge) : GdbCnxn Bridge :=
  { gc with
    state := .idle, txsum := 0, rxsum := 0, flags := fAck, tx := [], rxptr := 0, chk2 := 0
    rest := { gc.rest with threadlist := [] } }

/-- `gdb_server` up to its loop. -/
def connect (gc : GdbCnxn Bridge) : GdbCnxn Bridge :=
  let gc := gdbInit gc
  { gc with flags := gc.flags ||| fLkThreads }

/-- The look at the core ahead of the poll: a target that has halted is reported. -/
def checkHalted (threads : ℕ) (gc : GdbCnxn Bridge) : HostProg (GdbCnxn Bridge) :=
  if gc.flags &&& fRunning = 0 then return gc
  else do
    let (rc, csr) ← swdpAhbRead cdbgCsr 0
    if rc = 0 ∧ csr &&& cdbgSHalt ≠ 0 then do
      let side := { gc.toGdbSide with flags := gc.flags &&& ~~~fRunning }
      let side ← epilogue (gdbPuts (gdbPrologue side) (ascii "S05"))
      let side ← gdbUpdateThreads threads side
      return { gc with toGdbSide := side }
    else return gc

/-- `gdb_recv` on one byte: the receiver, and `handle_command` for a packet it hands over. -/
def serveByte (threads : ℕ) (gc : GdbCnxn Bridge) (c : Byte) : HostProg (GdbCnxn Bridge) :=
  match gc.gdbRecvByte (fun rxbuf side => (rxbuf, side)) c with
  | .error _ => .stop .wild
  | .ok (gc, []) => return gc
  | .ok (gc, rxbuf :: _) => do
    let a ← Prog.ask .frame
    let (rxbuf, side) ← handleCommand threads a.buf rxbuf gc.toGdbSide
    return { gc with toGdbSide := side, rxbuf := rxbuf }

/-- What the loop goes through: the beginning of a pass, or a byte of what was read. -/
inductive ServerEvent where
  | pass
  | byte (c : Byte)
  deriving Repr, DecidableEq

def serveEvent (threads : ℕ) (gc : GdbCnxn Bridge) : ServerEvent → HostProg (GdbCnxn Bridge)
  | .pass => checkHalted threads gc
  | .byte c => serveByte threads gc c

/-- The packet the event hands over. -/
def handed (gc : GdbCnxn Bridge) : ServerEvent → Option (ℕ → Byte)
  | .pass => none
  | .byte c =>
    match gc.gdbRecvByte (fun rxbuf side => (rxbuf, side)) c with
    | .ok (_, rxbuf :: _) => some rxbuf
    | _ => none

/-! ### Runs -/

/-- What a run has come by. -/
inductive Deed where
  /-- a command taken up: its letter, and the character behind it -/
  | command (l : Letter) (arg : Byte)
  /-- `S05`, as the answer to `?` or not -/
  | stopReply (asked : Bool)
  deriving Repr, DecidableEq

def command (rxbuf : ℕ → Byte) : Deed := .command (letter (rxbuf 0)) (rxbuf 1)

/-- The `S05`s among the calls. -/
def stopReplies (asked : Bool) (t : List (Call × Answer)) : List Deed :=
  t.filterMap fun e =>
    match e.1 with
    | .send packet => if packet = framed (ascii "S05") then some (.stopReply asked) else none
    | _ => none

/-- What an event comes by. -/
def deeds (packet : Option (ℕ → Byte)) (t : List (Call × Answer)) : List Deed :=
  match packet with
  | none => stopReplies false t
  | some rxbuf => command rxbuf :: stopReplies (letter (rxbuf 0) == .why) t

/-- The server, with what it has come by so far and how it got lost, if it did. -/
structure Server where
  gc : GdbCnxn Bridge
  deeds : List Deed
  lost : Option Halt

def serverInit (gc : GdbCnxn Bridge) : Server := { gc := connect gc, deeds := [], lost := none }

/-- Any event, with any answers to the calls made under it. -/
def serverStep (threads : ℕ) : Step Server (ServerEvent × List Answer) := fun s e =>
  match s.lost, (serveEvent threads s.gc e.1).follow e.2 with
  | none, some (t, .ok gc) =>
    some { gc := gc, deeds := s.deeds ++ deeds (handed s.gc e.1) t, lost := none }
  | none, some (t, .error halt) =>
    some { s with deeds := s.deeds ++ deeds (handed s.gc e.1) t, lost := some halt }
  | _, _ => none

end M3Dev.Gdb
