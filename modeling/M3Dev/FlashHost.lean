import M3Dev.FlashSectors

/-! `run_flash_agent` of `tools/debugger-commands.c`, and a target with a core that the debugger
controls. -/
namespace M3Dev.Flash
open CallTree WhileLoop ByteBlock

/-! ### The host -/

/-- The calls of `rswdp.c`, and `swdp_reset`. -/
inductive HostCall where
  | swdp (c : Tools.Call)
  | reset

abbrev FlashProg := Prog HostCall Tools.Answer Tools.Halt

def swdp {α : Type} (p : Tools.HostProg α) : FlashProg α := p.via .swdp

/-- A `flash_agent` and what is behind it in its file, in words; the size is in bytes. -/
structure AgentFile where
  size : ℕ
  word : ℕ → Word

namespace AgentFile

def magic (a : AgentFile) : Word := a.word 0
def version (a : AgentFile) : Word := a.word 1
def flags (a : AgentFile) : Word := a.word 2
def loadAddr (a : AgentFile) : Word := a.word 3
def dataAddr (a : AgentFile) : Word := a.word 4
def dataSize (a : AgentFile) : Word := a.word 5
def flashAddr (a : AgentFile) : Word := a.word 6
def flashSize (a : AgentFile) : Word := a.word 7
def setup (a : AgentFile) : Word := a.word 12
def erase (a : AgentFile) : Word := a.word 13
def write (a : AgentFile) : Word := a.word 14

/-- The magic number replaced by two breakpoints. -/
def patched (a : AgentFile) : AgentFile := { a with word := Function.update a.word 0 0xBE00BE00 }

end AgentFile

def agentMagic : Word := 0x42776166
def agentVersion : Word := 0x00010000
def flagBootRomHack : Word := 0x00000001

def aircr : Word := 0xE000ED0C

/-- The debugger's settings: `swdp_step_no_ints` and `vcflags`. -/
structure Settings where
  swdpStepNoInts : ℤ
  vcflags : Word

variable (cfg : Settings)

def doAttach : FlashProg ℤ := do
  let a ← Prog.ask .reset
  return a.rc

/-- `do_stop`, which prints the registers. -/
def doStop : Tools.HostProg Unit := do
  let _ ← Tools.swdpCoreHalt
  let _ ← Tools.swdpCoreReadAll fun _ => 0
  return ()

def doResetStop : Tools.HostProg Unit := do
  let _ ← Tools.swdpCoreHalt
  -- enable vector-trap on reset, enable DWT/FPB
  let _ ← Tools.swdpAhbWrite Tools.demcr (Tools.demcrVcCorereset ||| Tools.demcrTrcena ||| cfg.vcflags)
  -- core reset and sys reset
  let _ ← Tools.swdpAhbWrite aircr 0x05FA0005
  doStop
  let _ ← Tools.swdpAhbWrite Tools.demcr (Tools.demcrTrcena ||| cfg.vcflags)
  return ()

/-- The registers and the return address of a function of the agent's. -/
def invokeRegs (agent func r0 r1 r2 r3 : Word) : Tools.HostProg Unit := do
  let _ ← Tools.swdpCoreWrite 0 r0
  let _ ← Tools.swdpCoreWrite 1 r1
  let _ ← Tools.swdpCoreWrite 2 r2
  let _ ← Tools.swdpCoreWrite 3 r3
  let _ ← Tools.swdpCoreWrite 13 (agent - 4)
  let _ ← Tools.swdpCoreWrite 14 (agent ||| 1)
  let _ ← Tools.swdpCoreWrite 15 (func ||| 1)
  -- VECTCLRACTIVE
  let _ ← Tools.swdpAhbWrite aircr 0x05FA0002
  let _ ← Tools.swdpCoreWrite 16 0x01000000
  return ()

/-- The status, once the core has halted. -/
def invokeStatus (agent : Word) : Tools.HostProg ℤ := do
  let (_, res) ← Tools.swdpCoreRead 0 0xFFFFFFFF
  let (_, pc) ← Tools.swdpCoreRead 15 0xFFFFFFFF
  if pc ≠ agent then
    return -1
  else
    return res.toInt

def invoke (fuel : ℕ) (agent func r0 r1 r2 r3 : Word) : Tools.HostProg ℤ := do
  invokeRegs agent func r0 r1 r2 r3
  let _ ← Tools.swdpCoreResume cfg.swdpStepNoInts
  let r ← Tools.swdpCoreWaitForHalt fuel
  if r = 0 then
    invokeStatus agent
  else
    return -1

def bootRomHack (fuel : ℕ) : Tools.HostProg ℤ := do
  let r ← Tools.swdpWatchpointRw 0 0
  if r ≠ 0 then
    return r
  else
    let _ ← Tools.swdpCoreResume cfg.swdpStepNoInts
    let _ ← Tools.swdpCoreWaitForHalt fuel
    let _ ← Tools.swdpWatchpointDisable 0
    return 0

/-- Nothing where the agent does not ask for it. -/
def runBootRom (fuel : ℕ) (agent : AgentFile) : FlashProg ℤ :=
  if agent.flags &&& flagBootRomHack ≠ 0 then swdp (bootRomHack cfg fuel) else pure 0

/-- Where the write loop is in the data, and `data_sz` and `flashaddr` then. -/
structure WriteState where
  ptr : ℕ
  dataSz : BitVec 64
  flashaddr : Word

/-- One pass of `while (data_sz > 0)`. -/
def writePass (fuel : ℕ) (agent : AgentFile) (dataAddr dataSize : Word) (data : ℕ → Byte) (s : WriteState) :
    Tools.HostProg (Pass WriteState ℤ) := do
  if 0 < s.dataSz then
    let xfer := if dataSize.setWidth 64 < s.dataSz then dataSize else s.dataSz.setWidth 32
    let r ← Tools.swdpAhbWrite32 dataAddr (fun i => leWord fun k => data (s.ptr + (4 * i + k))) (xfer / 4).toNat
    if r ≠ 0 then
      return .exit (-1)
    else
      let r ← invoke cfg fuel agent.loadAddr agent.write s.flashaddr dataAddr xfer 0
      if r ≠ 0 then
        return .exit (-1)
      else
        return .next ⟨s.ptr + xfer.toNat, s.dataSz - xfer.setWidth 64, s.flashaddr + xfer⟩
  else
    return .exit 0

/-- From the check of the region on. -/
def flashRegion (fuel : ℕ) (agent : AgentFile) (header : ℕ → Word) (flashaddr : Word) (data : Option (ℕ → Byte))
    (dataSz : BitVec 64) : Tools.HostProg ℤ := do
  let dataAddr := header 0
  let dataSize := header 1
  let flashAddr := header 2
  let flashSize := header 3
  if flashaddr < flashAddr ∨ flashSize.setWidth 64 < dataSz ∨
      (flashAddr + flashSize).setWidth 64 < flashaddr.setWidth 64 + dataSz then
    return -1
  else
    let r ← invoke cfg fuel agent.loadAddr agent.erase flashaddr (dataSz.setWidth 32) 0 0
    if r ≠ 0 then
      return -1
    else
      match data with
      | none => return 0
      | some data =>
        Prog.loop .spins (writePass cfg fuel agent dataAddr dataSize data) fuel ⟨0, dataSz, flashaddr⟩

/-- With the agent downloaded. -/
def runAgent (fuel : ℕ) (agent : AgentFile) (flashaddr : Word) (data : Option (ℕ → Byte)) (dataSz : BitVec 64) :
    Tools.HostProg ℤ := do
  let r ← invoke cfg fuel agent.loadAddr agent.setup 0 0 0 0
  if r ≠ 0 then
    return -1
  else
    let (r, header) ← Tools.swdpAhbRead32 (agent.loadAddr + 16) (fun i => agent.word (4 + i)) 4
    if r ≠ 0 then
      return -1
    else if flashaddr = 0 ∧ data.isNone ∧ dataSz = 0xFFFFFFFF then
      -- erase all
      flashRegion cfg fuel agent header (header 2) data ((header 3).setWidth 64)
    else
      flashRegion cfg fuel agent header flashaddr data dataSz

def runFlashAgent (fuel : ℕ) (file : Option AgentFile) (flashaddr : Word) (data : Option (ℕ → Byte))
    (dataSz : BitVec 64) : FlashProg ℤ := do
  match file with
  | none => return -1
  | some agent =>
    if agent.size < 64 ∨ agent.magic ≠ agentMagic ∨ agent.version ≠ agentVersion then
      return -1
    else
      let agent := agent.patched
      let r ← doAttach
      if r ≠ 0 then
        return -1
      else
        swdp (doResetStop cfg)
        let r ← runBootRom cfg fuel agent
        if r ≠ 0 then
          return -1
        else
          let r ← swdp (Tools.swdpAhbWrite32 agent.loadAddr agent.word (agent.size / 4 : ℕ))
          if r ≠ 0 then
            return -1
          else
            swdp (runAgent cfg fuel agent flashaddr data dataSz)

end M3Dev.Flash
