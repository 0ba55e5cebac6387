import M3Dev.FlashHost
import M3Dev.HostBench

/-! A target with a core, as the debugger finds it at the other end of the cable. Every transaction
succeeds. -/
namespace M3Dev.Flash
open CallTree WhileLoop ByteBlock Tools

/-- What does not change: the agent's functions on their chip, the file that the host may download,
what else the core comes to run, which halts at a watchpoint or never, what a reset makes of the
registers and of the rest, and when the user asks for attention. -/
structure Setting where
  agent : Agent
  file : AgentFile
  rom : Target → (ℕ → Word) → Option (Target × (ℕ → Word))
  reset : Target → Target × (ℕ → Word)
  attn : ℕ → ℤ

/-- `csr` are the control bits last written to the debug status, `loaded` says that the agent's code
is in place, and `passed` are the addresses and lengths passed to its `erase` and `write`. -/
structure Station where
  target : Target
  regs : ℕ → Word
  dcrdr : Word
  csr : Word
  halted : Bool
  loaded : Bool
  passed : List (Word × Word)
  attns : ℕ

namespace Station

/-- A function of the agent's, the registers that it finds, and what of them is on record. -/
def function (m : Setting) (regs : ℕ → Word) : Option (IoProg ℤ × List (Word × Word)) :=
  if regs 15 ||| 1 = m.file.setup ||| 1 then
    some (m.agent.setup, [])
  else if regs 15 ||| 1 = m.file.erase ||| 1 then
    some (m.agent.erase (regs 0) (regs 1), [(regs 0, regs 1)])
  else if regs 15 ||| 1 = m.file.write ||| 1 then
    some (m.agent.write (regs 0) (regs 1) (regs 2), [(regs 0, regs 2)])
  else
    none

/-- A function that returns comes to the breakpoint that stands where the agent's magic number was. -/
def runs (m : Setting) (s : Station) : Station :=
  match if s.loaded ∧ s.regs 14 = m.file.loadAddr ||| 1 then function m s.regs else none with
  | some (p, region) =>
    let s := { s with passed := s.passed ++ region }
    match p.run m.agent.chip s.target with
    | some (.ok rc, t) =>
      { s with target := t, regs := Function.update (Function.update s.regs 0 (r0 rc)) 15 m.file.loadAddr }
    | _ => { s with halted := false }
  | none =>
    match m.rom s.target s.regs with
    | some (t, regs) => { s with target := t, regs := regs, loaded := false }
    | none => { s with halted := false, loaded := false }

/-- A write to the debug status halts the core or lets it go. -/
def writeCsr (m : Setting) (value : Word) (s : Station) : Station :=
  let s := { s with csr := value }
  if value.getLsbD 1 then { s with halted := true } else if s.halted then s.runs m else s

def readCsr (s : Station) : Word :=
  (s.csr &&& (cdbgCMaskints ||| cdbgCDebugen)) ||| if s.halted then cdbgSHalt ||| cdbgCHalt else 0

/-- Registers are transferred while the core is halted; bit 16 is for a write. -/
def transfer (value : Word) (s : Station) : Station :=
  if s.halted = false then
    s
  else if value.getLsbD 16 then
    { s with regs := Function.update s.regs (value &&& 0x1F).toNat s.dcrdr }
  else
    { s with dcrdr := s.regs (value &&& 0x1F).toNat }

def write (m : Setting) (addr value : Word) (s : Station) : Station :=
  if addr = cdbgCsr then
    s.writeCsr m value
  else if addr = cdbgRegData then
    { s with dcrdr := value }
  else if addr = cdbgRegAddr then
    s.transfer value
  else if addr = aircr ∧ value = 0x05FA0005 then
    { s with target := (m.reset s.target).1, regs := (m.reset s.target).2, halted := true, loaded := false }
  else if 0xE0000000 ≤ addr then
    s
  else
    { s with target := { s.target with
        ram := patch s.target.ram addr 4 fun k => (wordBytes value).getD k 0 }, loaded := false }

def read (addr : Word) (s : Station) : Word :=
  if addr = cdbgCsr then
    s.readCsr
  else if addr = cdbgRegData then
    s.dcrdr
  else
    leWord fun k => s.target.ram (byteAddr addr k)

/-- The accesses of one transaction; the words read go to `buf` from `i` on. -/
def access (m : Setting) : List AhbOp → ℕ → (ℕ → Word) → Station → (ℕ → Word) × Station
  | [], _, buf, s => (buf, s)
  | .write addr value :: ops, i, buf, s => access m ops i buf (s.write m addr value)
  | .read addr :: ops, i, buf, s => access m ops (i + 1) (Function.update buf i (s.read addr)) s

/-- A block of words written. The agent's code is in place once its file is there, as long as nothing
is written over it. -/
def download (m : Setting) (addr : Word) (buf : ℕ → Word) (count : ℕ) (s : Station) : Station :=
  let code := m.file.patched
  let whole := addr = code.loadAddr ∧ count = code.size / 4 ∧ ∀ i < count, buf i = code.word i
  let apart := code.size ≤ (addr - code.loadAddr).toNat ∧ (addr - code.loadAddr).toNat + 4 * count ≤ 2 ^ 32
  { s with
    target := { s.target with
      ram := patch s.target.ram addr (4 * count) fun i => (wordBytes (buf (i / 4))).getD (i % 4) 0 }
    loaded := decide whole || (s.loaded && decide apart) }

end Station

/-- What the station answers to a call of `rswdp.c`'s. -/
def stationSwdp (m : Setting) : Responder Tools.Call Answer Station
  | .exec ops buf, s =>
    some (statusAnswer 0 (s.access m ops 0 buf).1, (s.access m ops 0 buf).2)
  | .ahbRead32 addr _ _, s =>
    some (statusAnswer 0 fun i => leWord fun k => s.target.ram (byteAddr addr (4 * i + k)), s)
  | .ahbWrite32 addr buf count, s => some (statusAnswer 0 fun _ => 0, s.download m addr buf count.toNat)
  | .attn, s => some (statusAnswer (m.attn s.attns) fun _ => 0, { s with attns := s.attns + 1 })
  | _, s => some (statusAnswer 0 fun _ => 0, s)

/-- `swdp_reset` finds the debug port. -/
def station (m : Setting) : Responder HostCall Answer Station
  | .swdp c, s => stationSwdp m c s
  | .reset, s => some (statusAnswer 0 fun _ => 0, s)

end M3Dev.Flash
