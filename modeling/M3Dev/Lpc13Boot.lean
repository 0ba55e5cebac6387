import M3Dev.CallTriple
import Mathlib.Data.Int.Notation

/-! The boot loader of the LPC13xx, `lpc13boot/main.c`. -/
namespace M3Dev.Boot
open CallTree WhileLoop

abbrev Word := BitVec 32

def ramBase : Word := 0x10000000
def ramSize : Word := 7 * 1024
def romBase : Word := 0x00001000
def romSize : Word := 28 * 1024

def opPrepare : Word := 50
def opWrite : Word := 51
def opErase : Word := 52

/-- What `handle` calls. The answers are `out[0]` of a ROM call and the results of the others. -/
inductive Call where
  | romcall (args : List Word)
  | usbXmit (data : List Word)
  /-- `usb_xmit` of `DEVICE` -/
  | usbXmitDevice
  | usbRecv (dest : Word) (count : Word)
  /-- `usb_recv_timeout` into `buf` -/
  | usbRecvTimeout (count msec : Word)
  | bootImage (img : Word)
  | writel (value addr : Word)
  | reboot
  deriving DecidableEq

inductive Stop where
  | spins
  deriving DecidableEq

abbrev Program := Prog Call ℤ Stop

def romcall (args : List Word) : Program Unit := do
  let _ ← Prog.ask (.romcall args)
  return ()

def usbXmit (data : List Word) : Program Unit := do
  let _ ← Prog.ask (.usbXmit data)
  return ()

def usbRecv (dest count : Word) : Program Unit := do
  let _ ← Prog.ask (.usbRecv dest count)
  return ()

def page (addr : Word) : Word := (addr >>> (12 : ℕ)) &&& 0xF

def iapErasePage (addr : Word) : Program Unit := do
  romcall [opPrepare, page addr, page addr]
  romcall [opErase, page addr, page addr, 48000]

def iapWritePage (addr src : Word) : Program Unit := do
  romcall [opPrepare, page addr, page addr]
  romcall [opWrite, addr, src, 0x1000, 48000]

/-- One pass of the loop of `W`, with `addr` and `arg`. -/
def writePass (ram : Word) (addr arg : Word) : Program (Pass (Word × Word) Unit) := do
  if 0 < arg then
    let xfer := if 4096 < arg then 4096 else arg
    usbRecv ram xfer
    iapErasePage addr
    iapWritePage addr ram
    return .next (addr + 4096, arg - xfer)
  return .exit ()

def gpreg0 : Word := 0x40038004
def gpreg1 : Word := 0x40038008

def handle (magic cmd arg : Word) : Program Unit := do
  let ram := ramBase
  if magic ≠ 0xDB00A5A5 then
    return ()
  if cmd = 0x45 then -- 'E'
    iapErasePage 0x1000
    usbXmit [magic, 0]
  else if cmd = 0x57 then -- 'W'
    if romSize < arg then
      usbXmit [magic, -1]
    else
      usbXmit [magic, 0]
      -- every pass takes a byte at least
      Prog.loop .spins (fun s => writePass ram s.1 s.2) (arg.toNat + 1) (romBase, arg)
      usbXmit [magic, 0]
  else if cmd = 0x58 then -- 'X'
    if ramSize < arg then
      usbXmit [magic, -1]
    else
      usbXmit [magic, 0]
      usbRecv ram arg
      usbXmit [magic, 0]
      let _ ← Prog.ask (.usbRecvTimeout 64 10)
      let _ ← Prog.ask (.bootImage ram)
      usbXmit [magic, 0]
  else if cmd = 0x51 then -- 'Q'
    usbXmit [magic, 0]
    let _ ← Prog.ask .usbXmitDevice
    return ()
  else if cmd = 0x41 ∨ cmd = 0x52 then -- 'A', 'R'
    if cmd = 0x41 then
      let _ ← Prog.ask (.writel 0x12345678 gpreg0)
      let _ ← Prog.ask (.writel 0xA5A50001 gpreg1)
    usbXmit [magic, 0]
    let _ ← Prog.ask (.usbRecvTimeout 64 10)
    let _ ← Prog.ask .reboot
    usbXmit [magic, 0]
  else
    usbXmit [magic, -1]

end M3Dev.Boot
