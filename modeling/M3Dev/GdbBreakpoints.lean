import M3Dev.HostCalls

/-! Breakpoints of the gdb bridge: the FPB's comparators for code memory, the DWT's for
the rest and for when the FPB has none left. -/
namespace M3Dev.Gdb
open CallTree Tools

abbrev romtabDwt : Word := 0xE00FF004
abbrev romtabFpb : Word := 0xE00FF008
abbrev dwtCtrl : Word := 0xE0001000
abbrev fpCtrl : Word := 0xE0002000

def fpComp (n : ℕ) : Word := 0xE0002008 + BitVec.ofNat 32 n * 4

/-- The tables the bridge keeps of the comparators. -/
structure BreakTables where
  maxfp : ℕ
  fpAddr : ℕ → Word
  fpState : ℕ → Bool
  maxbp : ℕ
  bpAddr : ℕ → Word
  bpState : ℕ → Bool

/-- The number of FPB comparators by `FP_CTRL`; its upper digit is not shifted into place. -/
def fpCount (ctrl : Word) : ℕ := ((ctrl &&& 0xF0) >>> 4 ||| (ctrl &&& 0x7000) >>> 4).toNat

/-- The number of FPB comparators, 0 where there is no FPB. -/
def readFpCount : HostProg (Option ℕ) := do
  let (rc, x) ← swdpAhbRead romtabFpb 0
  if rc ≠ 0 then return none
  if x &&& 1 ≠ 0 then
    let (rc, x) ← swdpAhbRead fpCtrl x
    if rc ≠ 0 then return none
    return some (fpCount x)
  else return some 0

/-- The table entry in use for an address, among the first `max`. -/
def findAddr (max : ℕ) (state : ℕ → Bool) (addrs : ℕ → Word) (addr : Word) : Option ℕ :=
  (List.range max).find? (fun n => state n && addrs n == addr)

def findFree (max : ℕ) (state : ℕ → Bool) : Option ℕ :=
  (List.range max).find? (fun n => !state n)

/-- What arms a comparator for an address: the lower or the upper half-word. -/
def fpCompValue (addr : Word) : Word :=
  if addr &&& 2 ≠ 0 then 0x80000001 ||| (addr &&& 0x1FFFFFFC)
  else 0x40000001 ||| (addr &&& 0x1FFFFFFC)

def handleFlashpatch (b : BreakTables) (add : Bool) (addr : Word) :
    HostProg (ℤ × BreakTables) := do
  match ← readFpCount with
  | none => return (-1, b)
  | some n =>
    let b := if n ≠ b.maxfp then { b with maxfp := if n > 16 then 16 else n } else b
    match findAddr b.maxfp b.fpState b.fpAddr addr with
    | some n =>
      if add then return (0, b)
      let _ ← swdpAhbWrite (fpComp n) 0
      return (0, { b with fpState := Function.update b.fpState n false })
    | none =>
      -- no breakpoint to remove
      if !add then return (-1, b)
      match findFree b.maxfp b.fpState with
      | none => return (-1, b)
      | some n =>
        let _ ← swdpAhbWrite fpCtrl 3
        let _ ← swdpAhbWrite (fpComp n) (fpCompValue addr)
        return (0, { b with
          fpState := Function.update b.fpState n true
          fpAddr := Function.update b.fpAddr n addr })

/-- The number of DWT comparators, 0 where there is no DWT. -/
def readDwtCount : HostProg (Option ℕ) := do
  let (rc, x) ← swdpAhbRead romtabDwt 0
  if rc ≠ 0 then return none
  if x &&& 1 ≠ 0 then
    let (rc, x) ← swdpAhbRead dwtCtrl x
    if rc ≠ 0 then return none
    return some (x >>> 28).toNat
  else return some 0

/-- `handle_breakpoint` from the DWT on. -/
def handleWatchpoint (b : BreakTables) (add : Bool) (addr : Word) :
    HostProg (ℤ × BreakTables) := do
  match ← readDwtCount with
  | none => return (-1, b)
  | some n =>
    let b := if n ≠ b.maxbp then { b with maxbp := n } else b
    match add, findAddr b.maxbp b.bpState b.bpAddr addr with
    | true, some _ =>
      -- already setup
      return (0, b)
    | true, none =>
      match findFree b.maxbp b.bpState with
      | some n =>
        let _ ← swdpWatchpointPc (BitVec.ofNat 32 n) addr
        return (0, { b with
          bpAddr := Function.update b.bpAddr n addr
          bpState := Function.update b.bpState n true })
      | none =>
        -- out of hardware breakpoints
        return (1, b)
    | false, some n =>
      let _ ← swdpWatchpointDisable (BitVec.ofNat 32 n)
      return (0, { b with bpState := Function.update b.bpState n false })
    | false, none => return (0, b)

/-- `kind` is not looked at. -/
def handleBreakpoint (b : BreakTables) (add : Bool) (addr : Word) :
    HostProg (ℤ × BreakTables) := do
  if addr < 0x20000000 then
    let (rc, b) ← handleFlashpatch b add addr
    if rc = 0 then return (0, b)
    handleWatchpoint b add addr
  else handleWatchpoint b add addr

end M3Dev.Gdb
