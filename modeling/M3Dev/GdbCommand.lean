import M3Dev.GdbBreakpoints
import M3Dev.GdbMemory
import M3Dev.LkThreads

/-! `handle_command`: one packet from gdb, answered. -/
namespace M3Dev.Gdb
open CallTree Tools Lk ByteBlock

abbrev fRunning : Word := 0x04
abbrev fConsole : Word := 0x08
abbrev fLkThreads : Word := 0x10

/-- The thread list and the selections in it, with the tables the file keeps. -/
structure Bridge extends BreakTables where
  threadlist : ThreadList
  gselected : ℕ
  cselected : ℕ
  swdpStepNoInts : ℤ

/-- A connection as `handle_command` sees it. -/
abbrev Conn := GdbSide Bridge

/-- A connection with nothing selected and no comparator in use. -/
def idleConn : Conn where
  txsum := 0
  flags := fAck
  tx := []
  sent := []
  rest := { maxfp := 0, fpAddr := fun _ => 0, fpState := fun _ => false, maxbp := 0,
            bpAddr := fun _ => 0, bpState := fun _ => false, threadlist := [], gselected := 0,
            cselected := 0, swdpStepNoInts := 0 }

/-- A connection and its receive buffer, in which packets are decoded. -/
abbrev Packet := (ℕ → Byte) × Conn

/-- What is behind a pointer to a thread; only nodes of the list are there. -/
def derefThread (gc : Conn) (p : ℕ) : HostProg (Option LkThread) :=
  if p = 0 then return none
  else match gc.rest.threadlist.find? (fun t => t.1 == p) with
    | some t => return some t.2
    | none => .stop .wild

/-- `gdb_epilogue` -/
def epilogue (gc : Conn) : HostProg Conn :=
  match (gdbClose gc).2 with
  | none => return gdbEpilogue [] gc
  | some packet => do
    let a ← Prog.ask (.send packet)
    return gdbEpilogue a.writes gc

def gdbConsolePuts (msg : List Byte) (gc : Conn) : HostProg Conn :=
  if gc.flags &&& fConsole = 0 then return gc
  else epilogue (gdbPuthex (gdbPutc (gdbPrologue gc) 0x4f) msg)

def consoleAll : List (List Byte) → Conn → HostProg Conn
  | [], gc => return gc
  | msg :: msgs, gc => do
    let gc ← gdbConsolePuts msg gc
    consoleAll msgs gc

def gdbUpdateThreads (fuel : ℕ) (gc : Conn) : HostProg Conn := do
  -- free_lk_threads(gc->threadlist)
  let list ← if gc.flags &&& fLkThreads ≠ 0 then findLkThreads fuel else pure []
  return { gc with rest := { gc.rest with
    threadlist := list, cselected := list.head, gselected := list.head } }

/-! ### Queries -/

def targetXml : List Byte := ascii <|
  "<?xml version=\"1.0\"?>" ++
  "<target>" ++
  "<architecture>arm</architecture>" ++
  "<feature name=\"org.gnu.gdb.arm.m-profile\">" ++
  "<reg name=\"r0\" bitsize=\"32\"/>" ++
  "<reg name=\"r1\" bitsize=\"32\"/>" ++
  "<reg name=\"r2\" bitsize=\"32\"/>" ++
  "<reg name=\"r3\" bitsize=\"32\"/>" ++
  "<reg name=\"r4\" bitsize=\"32\"/>" ++
  "<reg name=\"r5\" bitsize=\"32\"/>" ++
  "<reg name=\"r6\" bitsize=\"32\"/>" ++
  "<reg name=\"r7\" bitsize=\"32\"/>" ++
  "<reg name=\"r8\" bitsize=\"32\"/>" ++
  "<reg name=\"r9\" bitsize=\"32\"/>" ++
  "<reg name=\"r10\" bitsize=\"32\"/>" ++
  "<reg name=\"r11\" bitsize=\"32\"/>" ++
  "<reg name=\"r12\" bitsize=\"32\"/>" ++
  "<reg name=\"sp\" bitsize=\"32\" type=\"data_ptr\"/>" ++
  "<reg name=\"lr\" bitsize=\"32\"/>" ++
  "<reg name=\"pc\" bitsize=\"32\" type=\"code_ptr\"/>" ++
  "<reg name=\"xpsr\" bitsize=\"32\"/>" ++
  "<reg name=\"msp\" bitsize=\"32\" type=\"data_ptr\"/>" ++
  "<reg name=\"psp\" bitsize=\"32\" type=\"data_ptr\"/>" ++
  "</feature>" ++
  "</target>"

/-- The ids of all threads. -/
def threadInfo : ThreadList → List Byte
  | [] => ascii "m1"
  | t :: ts => 0x6d :: hexNumeral t.2.threadptr ++
      ts.flatMap (fun t => 0x2c :: hexNumeral t.2.threadptr)

/-- `qRcmd`: the command is decoded in place, run, and its output sent on the way. -/
def handleRcmd (rxbuf : ℕ → Byte) (gc : Conn) (args : ℕ) : HostProg Packet := do
  let (rxbuf, len) := hextobin rxbuf args args (2 * maxpkt)
  let rxbuf := Function.update rxbuf (args + len) 0
  let gc := { gc with flags := gc.flags ||| fConsole }
  let a ← Prog.ask (.debuggerCommand (cstr rxbuf args))
  let gc ← consoleAll a.msgs gc
  let gc := { gc with
    flags := gc.flags &&& ~~~fConsole, rest := { gc.rest with swdpStepNoInts := a.rc } }
  return (rxbuf, gdbPuts (gdbPrologue gc) (ascii "OK"))

/-- `cmd` is the text of the query, `args` where its arguments are. -/
def handleQuery (rxbuf : ℕ → Byte) (gc : Conn) (cmd : List Byte) (args : ℕ) :
    HostProg Packet := do
  if cmd = ascii "fThreadInfo" then return (rxbuf, gdbPuts gc (threadInfo gc.rest.threadlist))
  else if cmd = ascii "sThreadInfo" then return (rxbuf, gdbPuts gc (ascii "l"))
  else if cmd = ascii "ThreadExtraInfo" then
    let n := strtoul (cstr rxbuf args)
    -- a node that was just found in the list
    match gc.rest.threadlist.find? (fun t => t.2.threadptr == n) with
    | some t => return (rxbuf, gdbPuthex gc (getLkThreadName t.2 128))
    | none => return (rxbuf, gdbPuthex gc (ascii "Native"))
  else if cmd = ascii "C" then
    match ← derefThread gc gc.rest.cselected with
    | some t => return (rxbuf, gdbPuts gc (ascii "QC" ++ hexNumeral t.threadptr))
    | none => return (rxbuf, gdbPuts gc (ascii "QC1"))
  else if cmd = ascii "Rcmd" then handleRcmd rxbuf gc args
  else if cmd = ascii "Supported" then return (rxbuf, gdbPuts gc supported)
  else if cmd = ascii "Xfer" then
    if (ascii "features:read:target.xml:").isPrefixOf (cstr rxbuf args) then
      return (rxbuf, gdbPuts (gdbPuts gc (ascii "l")) targetXml)
    else return (rxbuf, gc)
  -- "TStatus" and "Attached" are ignored, and so is what is not known
  else return (rxbuf, gc)

def handleSet (rxbuf : ℕ → Byte) (gc : Conn) (cmd : List Byte) : Packet :=
  if cmd = ascii "StartNoAckMode" then
    (rxbuf, gdbPuts { gc with flags := gc.flags &&& ~~~fAck } (ascii "OK"))
  else (rxbuf, gc)

/-- `q` and `Q`: the name ends at the first ':' or ',', the arguments are behind it. -/
def handleExtended (query : Bool) (rxbuf : ℕ → Byte) (gc : Conn) : HostProg Packet := do
  let name := cstr rxbuf 1
  let len := (name.takeWhile (fun c => c ≠ 0x3a && c ≠ 0x2c)).length
  let cut := 1 + len
  let (rxbuf, args) :=
    if len < name.length then (Function.update rxbuf cut 0, cut + 1) else (rxbuf, cut)
  if query then handleQuery rxbuf gc (cstr rxbuf 1) args
  else return handleSet rxbuf gc (cstr rxbuf 1)

/-! ### Registers and memory -/

/-- Is a thread selected that is not the one running? -/
def inactiveSelected (gc : Conn) : HostProg (Option LkThread) := do
  match ← derefThread gc gc.rest.gselected with
  | some t => return if t.active then none else some t
  | none => return none

/-- The first `n` words at a pointer, as bytes. -/
def bytesOf (w : ℕ → Word) (n : ℕ) : List Byte := ((List.range n).map w).flatMap wordBytes

/-- The word at a byte offset of the buffer. -/
def wordAt (rxbuf : ℕ → Byte) (i : ℕ) : Word := leWord fun k => rxbuf (i + k)

/-- `frame` holds what `tmp.w` does, and behind its 258 words the other local variables. -/
def handleReadMemory (frame : ℕ → Word) (rxbuf : ℕ → Byte) (gc : Conn) : HostProg Packet :=
  match scanHexes 2 (cstr rxbuf 1) with
  | [x, n] => do
    let n := if n > 1024 then 1024 else n
    let (_, tmp) ← swdpAhbRead32 (x &&& ~~~3) frame (((n + 3) &&& ~~~3) / 4).toNat
    return (rxbuf, gdbPuthex gc (((bytesOf tmp 258).drop (x &&& 3).toNat).take n.toNat))
  | _ => return (rxbuf, gc)

def handleWriteMemory (frame : ℕ → Word) (rxbuf : ℕ → Byte) (gc : Conn) : HostProg Packet :=
  match strchr rxbuf 1 0x3a with
  | none => return (rxbuf, gc)
  | some colon =>
    let rxbuf := Function.update rxbuf colon 0
    match scanHexes 2 (cstr rxbuf 1) with
    | [x, _] => do
      let (rxbuf, len) := hextobin rxbuf 0 (colon + 1) maxpkt
      writeMemory (frame 258) x ((List.range len).map rxbuf)
      return (rxbuf, gdbPuts gc (ascii "OK"))
    | _ => return (rxbuf, gc)

def handleReadRegs (frame : ℕ → Word) (rxbuf : ℕ → Byte) (gc : Conn) : HostProg Packet := do
  match ← inactiveSelected gc with
  | some t => return (rxbuf, gdbPuthex gc (bytesOf (fun i => t.regs.getD i 0) 19))
  | none =>
    let (_, regs) ← swdpCoreReadAll (fun i => frame (260 + i))
    return (rxbuf, gdbPuthex gc (bytesOf regs 19))

/-- Registers `n`, `n + 1`, … from the buffer. -/
def writeRegsFrom (rxbuf : ℕ → Byte) : ℕ → ℕ → HostProg Unit
  | 0, _ => return ()
  | k + 1, n => do
    let _ ← swdpCoreWrite (BitVec.ofNat 32 n) (wordAt rxbuf (n * 4))
    writeRegsFrom rxbuf k (n + 1)

def handleWriteRegs (rxbuf : ℕ → Byte) (gc : Conn) : HostProg Packet := do
  match ← inactiveSelected gc with
  | some _ =>
    -- attempting to write to inactive registers
    return (rxbuf, gc)
  | none =>
    let (rxbuf, len) := hextobin rxbuf 0 1 maxpkt
    writeRegsFrom rxbuf (len / 4) 0
    return (rxbuf, gdbPuts gc (ascii "OK"))

def handleReadReg (frame : ℕ → Word) (rxbuf : ℕ → Byte) (gc : Conn) : HostProg Packet := do
  let n := strtoul (cstr rxbuf 1)
  match ← inactiveSelected gc with
  | some t =>
    let v := if n > 16 then 0xeeeeeeee else t.regs.getD n.toNat 0
    return (rxbuf, gdbPuthex gc (wordBytes v))
  | none =>
    let (_, v) ← swdpCoreRead n (frame 259)
    return (rxbuf, gdbPuthex gc (wordBytes v))

def handleWriteReg (rxbuf : ℕ → Byte) (gc : Conn) : HostProg Packet := do
  match ← inactiveSelected gc with
  | some _ => return (rxbuf, gc)
  | none =>
    match strchr rxbuf 1 0x3d with
    | none => return (rxbuf, gc)
    | some eq =>
      let rxbuf := Function.update rxbuf eq 0
      let n := strtoul (cstr rxbuf 1)
      let (rxbuf, len) := hextobin rxbuf 0 (eq + 1) maxpkt
      if len ≠ 4 then return (rxbuf, gc)
      let _ ← swdpCoreWrite n (wordAt rxbuf 0)
      return (rxbuf, gdbPuts gc (ascii "OK"))

/-! ### The other commands -/

def handleSelect (rxbuf : ℕ → Byte) (gc : Conn) : Packet :=
  let list := gc.rest.threadlist
  let t :=
    if rxbuf 2 = 0x2d ∧ rxbuf 3 = 0x31 then list.head
    else
      let t := findLkThread list (strtoul (cstr rxbuf 2))
      if t = 0 then list.head else t
  let rest :=
    if rxbuf 1 = 0x67 then { gc.rest with gselected := t }
    else if rxbuf 1 = 0x63 then { gc.rest with cselected := t }
    else gc.rest
  (rxbuf, gdbPuts { gc with rest := rest } (ascii "OK"))

def handleAlive (rxbuf : ℕ → Byte) (gc : Conn) : Packet :=
  let n := strtoul (cstr rxbuf 1)
  (rxbuf, gdbPuts gc
    (if findLkThread gc.rest.threadlist n ≠ 0 then ascii "OK" else ascii "E00"))

/-- `?`: this one is answered first. -/
def handleWhy (fuel : ℕ) (rxbuf : ℕ → Byte) (gc : Conn) : HostProg Packet := do
  let gc := gdbPuts gc (ascii "S05")
  let gc := { gc with flags := gc.flags &&& ~~~fRunning }
  let _ ← swdpCoreHalt
  let gc ← gdbUpdateThreads fuel gc
  return (rxbuf, gc)

/-- `$` in the buffer: the interrupt byte. -/
def handleHalt (fuel : ℕ) (rxbuf : ℕ → Byte) (gc : Conn) : HostProg Packet := do
  let _ ← swdpCoreHalt
  let gc ← gdbUpdateThreads fuel gc
  let gc := { gc with flags := gc.flags &&& ~~~fRunning }
  return (rxbuf, gdbPuts gc (ascii "S05"))

/-- The type is read but makes no difference. -/
def handlePoint (add : Bool) (rxbuf : ℕ → Byte) (gc : Conn) : HostProg Packet :=
  match scanHexes 3 (cstr rxbuf 1) with
  | [_, addr, _] => do
    let (rc, b) ← handleBreakpoint gc.rest.toBreakTables add addr
    let gc := { gc with rest := { gc.rest with toBreakTables := b } }
    return (rxbuf, gdbPuts gc (if rc ≠ 0 then ascii "E1" else ascii "OK"))
  | _ => return (rxbuf, gc)

/-- `c` and `s`, which are not answered; an address goes into the pc. -/
def handleResume (step : Bool) (rxbuf : ℕ → Byte) (gc : Conn) : HostProg Packet := do
  if rxbuf 1 ≠ 0 then
    let _ ← swdpCoreWrite 15 (strtoul (cstr rxbuf 1) ||| 1)
  let _ ← if step then swdpCoreStep gc.rest.swdpStepNoInts
    else swdpCoreResume gc.rest.swdpStepNoInts
  return (rxbuf, { gc with flags := gc.flags ||| fRunning })

/-- What the first character of a packet asks for. -/
inductive Letter where
  | resume (step : Bool)
  | why
  | select
  | alive
  | readMemory
  | writeMemory
  | readRegs
  | writeRegs
  | readReg
  | writeReg
  | halt
  | extended (query : Bool)
  | point (add : Bool)
  | unknown
  deriving Repr, DecidableEq

def letter (c : Byte) : Letter :=
  if c = 0x63 then .resume false
  else if c = 0x73 then .resume true
  else if c = 0x3f then .why
  else if c = 0x48 then .select
  else if c = 0x54 then .alive
  else if c = 0x6d then .readMemory
  else if c = 0x4d then .writeMemory
  else if c = 0x67 then .readRegs
  else if c = 0x47 then .writeRegs
  else if c = 0x70 then .readReg
  else if c = 0x50 then .writeReg
  else if c = 0x24 then .halt
  else if c = 0x71 then .extended true
  else if c = 0x51 then .extended false
  else if c = 0x7a then .point false
  else if c = 0x5a then .point true
  else .unknown

/-- The body of the answered commands, between `gdb_prologue` and `gdb_epilogue`. -/
def answerCommand (fuel : ℕ) (frame : ℕ → Word) (l : Letter) (rxbuf : ℕ → Byte) (gc : Conn) :
    HostProg Packet :=
  match l with
  | .why => handleWhy fuel rxbuf gc
  | .select => return handleSelect rxbuf gc
  | .alive => return handleAlive rxbuf gc
  | .readMemory => handleReadMemory frame rxbuf gc
  | .writeMemory => handleWriteMemory frame rxbuf gc
  | .readRegs => handleReadRegs frame rxbuf gc
  | .writeRegs => handleWriteRegs rxbuf gc
  | .readReg => handleReadReg frame rxbuf gc
  | .writeReg => handleWriteReg rxbuf gc
  | .halt => handleHalt fuel rxbuf gc
  | .extended query => handleExtended query rxbuf gc
  | .point add => handlePoint add rxbuf gc
  | .resume _ | .unknown => return (rxbuf, gc)

def handleCommand (fuel : ℕ) (frame : ℕ → Word) (rxbuf : ℕ → Byte) (gc : Conn) :
    HostProg Packet :=
  match letter (rxbuf 0) with
  | .resume step => handleResume step rxbuf gc
  | l => do
    let (rxbuf, gc) ← answerCommand fuel frame l rxbuf (gdbPrologue gc)
    let gc ← epilogue gc
    return (rxbuf, gc)

theorem handleCommand_answered {rxbuf : ℕ → Byte} (h : ∀ step, letter (rxbuf 0) ≠ .resume step)
    (fuel : ℕ) (frame : ℕ → Word) (gc : Conn) :
    handleCommand fuel frame rxbuf gc =
      (do
        let r ← answerCommand fuel frame (letter (rxbuf 0)) rxbuf (gdbPrologue gc)
        let gc ← epilogue r.2
        return (r.1, gc)) := by
  rw [handleCommand]
  split
  next step hresume => exact absurd hresume (h step)
  · rfl

end M3Dev.Gdb
