import M3Dev.HostCalls
import M3Dev.GdbText

/-! `lkdebug.c`: the threads of an LK kernel, found in the target's memory. -/
namespace M3Dev.Lk
open CallTree WhileLoop Tools

abbrev diMagic : Word := 0x52474244
abbrev diOffMagic : Word := 32
abbrev diOffPtr : Word := 36
abbrev lkThreadMagic : Word := 0x74687264
abbrev listOffNext : Word := 4
abbrev lkMaxState : Word := 5

/-- `lkdebuginfo_t` -/
structure LkDebugInfo where
  version : Word
  threadListPtr : Word
  currentThreadPtr : Word
  offListNode : Byte
  offState : Byte
  offSavedSp : Byte
  offName : Byte
  offWaitq : Byte
  deriving Repr, DecidableEq

/-- The structure that five words hold. -/
def LkDebugInfo.ofWords (w : ℕ → Word) : LkDebugInfo :=
  { version := w 0
    threadListPtr := w 1
    currentThreadPtr := w 2
    offListNode := (w 3).setWidth 8
    offState := (w 3 >>> 8).setWidth 8
    offSavedSp := (w 3 >>> 16).setWidth 8
    -- `off_was_preempted`, in the top byte, is not used
    offName := (w 4).setWidth 8
    offWaitq := (w 4 >>> 8).setWidth 8 }

/-- `lkthread_t`, less its link. -/
structure LkThread where
  active : Bool
  threadptr : Word
  nextptr : Word
  state : Word
  savedSp : Word
  waitq : Word
  name : List Byte
  regs : List Word
  deriving Repr, DecidableEq

/-- A list of threads: each node with its address, linked in this order. -/
abbrev ThreadList := List (ℕ × LkThread)

/-- The pointer to a list. -/
def ThreadList.head (ts : ThreadList) : ℕ := (ts.head?.map Prod.fst).getD 0

section
variable (di : LkDebugInfo) (tp : Word)

def ltNextPtr : Word := tp + di.offListNode.setWidth 32 + listOffNext
def ltState : Word := tp + di.offState.setWidth 32
def ltSavedSp : Word := tp + di.offSavedSp.setWidth 32
def ltName : Word := tp + di.offName.setWidth 32
def ltWaitq : Word := tp + di.offWaitq.setWidth 32
def listToThread : Word := tp - di.offListNode.setWidth 32

end

/-- Characters that do not print are shown as dots; `char` is signed. -/
def cleanName : List Byte → List Byte
  | [] => []
  | c :: cs =>
    if c = 0 then c :: cs
    else if c.slt 0x20 then 0x2e :: cleanName cs
    else c :: cleanName cs

/-- The name as it is kept: `name[31] = 0`, and the 31 before it cleaned. -/
def readName (words : ℕ → Word) : List Byte :=
  cleanName (((List.range 8).flatMap (fun i => wordBytes (words i))).take 31) ++ [0]

/-- `0xee` all over. -/
def unknownRegs : List Word := List.replicate 17 0xeeeeeeee

/-- The frame of a thread switched out by an exception is the longer one. -/
def isExceptionFrame (fr : ℕ → Word) : Bool := fr 8 &&& 0xFFFFFF00 = 0xFFFFFF00

/-- R4 to R11 and LR at `savedSp`. -/
def shortFrameRegs (savedSp : Word) (fr : ℕ → Word) : List Word :=
  List.replicate 4 0xeeeeeeee ++ (List.range 8).map fr ++
    [0xeeeeeeee, savedSp + 9 * 4, 0xeeeeeeee, fr 8, 0x10000000]

/-- R0 to R3, R12, LR, PC and PSR behind them. -/
def longFrameRegs (savedSp : Word) (fr ex : ℕ → Word) : List Word :=
  (List.range 4).map ex ++ (List.range 8).map fr ++
    [ex 4, savedSp + 17 * 4, ex 5, ex 6, ex 7]

/-- The registers of a thread that is not running; `none` where they cannot be read. -/
def readSavedRegs (savedSp : Word) : HostProg (Option (List Word)) := do
  let (rc, fr) ← swdpAhbRead32 savedSp (fun _ => 0) 9
  if rc ≠ 0 then return none
  if isExceptionFrame fr then
    let (rc, ex) ← swdpAhbRead32 (savedSp + 9 * 4) fr 8
    if rc ≠ 0 then return none
    return some (longFrameRegs savedSp fr ex)
  else return some (shortFrameRegs savedSp fr)

/-- A new node for the thread at `ptr`; `none` where it fails, with the node freed. -/
def readLkThread (di : LkDebugInfo) (ptr : Word) (active : Bool) :
    HostProg (Option (ℕ × LkThread)) := do
  let t ← Prog.ask .calloc
  if t.ptr = 0 then return none
  let (rc, x) ← swdpAhbRead ptr 0
  if rc ≠ 0 then return none
  if x ≠ lkThreadMagic then return none
  let (rc, nextptr) ← swdpAhbRead (ltNextPtr di ptr) 0
  if rc ≠ 0 then return none
  let (rc, state) ← swdpAhbRead (ltState di ptr) 0
  if rc ≠ 0 then return none
  let (rc, savedSp) ← swdpAhbRead (ltSavedSp di ptr) 0
  if rc ≠ 0 then return none
  let (rc, waitq) ← swdpAhbRead (ltWaitq di ptr) 0
  if rc ≠ 0 then return none
  let (rc, name) ← swdpAhbRead32 (ltName di ptr) (fun _ => 0) (32 / 4)
  if rc ≠ 0 then return none
  let regs ← if active then pure (some unknownRegs) else readSavedRegs savedSp
  match regs with
  | none => return none
  | some regs =>
    return some (t.ptr,
      { active := active, threadptr := ptr, nextptr := nextptr
        state := if state > lkMaxState then lkMaxState + 1 else state
        savedSp := savedSp, waitq := waitq, name := readName name, regs := regs })

def loadDebuginfo : HostProg (Option LkDebugInfo) := do
  -- Vector Table Offset Register
  let (rc, vtbl) ← swdpAhbRead 0xE000ED08 0
  let vtbl := if rc ≠ 0 then 0 else vtbl
  let (rc, x) ← swdpAhbRead (diOffMagic + vtbl) 0
  if rc ≠ 0 then return none
  if x ≠ diMagic then return none
  let (rc, x) ← swdpAhbRead (diOffPtr + vtbl) x
  if rc ≠ 0 then return none
  if x &&& 3 ≠ 0 then return none
  let (rc, di) ← swdpAhbRead32 x (fun _ => 0) (20 / 4)
  if rc ≠ 0 then return none
  let di := LkDebugInfo.ofWords di
  if di.version ≠ 0x0100 then return none
  return some di

/-- One pass over the thread list: `rtp` is the node last seen. -/
def findLkThreadsPass (di : LkDebugInfo) (current : Word) (s : Word × ThreadList) :
    HostProg (Pass (Word × ThreadList) (Option ThreadList)) := do
  let (rc, rtp) ← swdpAhbRead (s.1 + listOffNext) s.1
  if rc ≠ 0 then return .exit none
  if rtp = di.threadListPtr then return .exit (some s.2)
  let x := listToThread di rtp
  if current = x then return .next (rtp, s.2)
  match ← readLkThread di x false with
  | none => return .exit none
  | some t => return .next (rtp, t :: s.2)

/-- The threads, the current one first; the empty list is `NULL`. -/
def findLkThreads (fuel : ℕ) : HostProg ThreadList := do
  match ← loadDebuginfo with
  | none => return []
  | some di =>
    let (rc, x) ← swdpAhbRead di.currentThreadPtr 0
    if rc ≠ 0 then return []
    match ← readLkThread di x true with
    | none => return []
    | some current =>
      match ← repeatPasses (findLkThreadsPass di current.2.threadptr) fuel
          (di.threadListPtr, []) with
      | none => return []
      | some list => return current :: list

/-- The node of the thread at `tptr`, or `NULL`. -/
def findLkThread (list : ThreadList) (tptr : Word) : ℕ :=
  ThreadList.head (list.filter (fun t => t.2.threadptr == tptr))

def lkstate : List String :=
  ["SUSP ", "READY", "RUN  ", "BLOCK", "SLEEP", "DEAD ", "?????"]

/-- `snprintf(out, max, "%s - %s", lkstate[t->state], t->name)` -/
def getLkThreadName (t : LkThread) (max : ℕ) : List Byte :=
  (Gdb.ascii (lkstate.getD t.state.toNat "") ++ Gdb.ascii " - " ++ text t.name).take (max - 1)

end M3Dev.Lk
