import M3Dev.UsbEndpoint
import M3Dev.Machine
import M3Dev.WhileLoop

/-! `usb_recv` of the three drivers: `arch/lpc13xx/usb-v1.c`, `arch/lpc13xx/usb-v2.c` and
`arch/stm32f1xx/usb.c`. The device is online throughout. -/
namespace M3Dev.UsbReceive
open WhileLoop

abbrev Byte := BitVec 8
abbrev Packet := List Byte

/-- What the host sends, packet by packet; `none` where the driver looks for one too early. -/
abbrev Line := List (Option Packet)

/-- The local variables of `usb_recv`. -/
structure Recv where
  data : ℕ
  rx : ℕ
  count : ℕ

/-- `r` bytes were received. -/
def Recv.add (l : Recv) (r : ℕ) : Recv := ⟨l.data + r, l.rx + r, l.count - r⟩

/-- One pass of the loop of `usb_recv_timeout` in both LPC13xx drivers, with a timeout of 0. -/
def recvPass {σ : Type} (ep1Read : ℕ → ℕ → σ → ℤ × σ) (handleIrq : σ → σ) : Body (Recv × σ) (ℤ × σ) :=
  fun (l, s) =>
    if l.count = 0 then
      some (.exit (l.rx, s))
    else
      let (r, s) := ep1Read l.data (if 64 < l.count then 64 else l.count) s
      if 0 ≤ r then
        let l := l.add r.toNat
        if r ≠ 64 then some (.exit (l.rx, s)) else some (.next (l, s))
      else if r = -UsbV2.ebusy then
        some (.next (l, handleIrq s))
      else
        some (.exit (r, s))

end M3Dev.UsbReceive

namespace M3Dev.UsbV1
open Buffer WhileLoop UsbReceive

/-- The buffer of the endpoint, with the length of the packet that it holds. -/
structure State where
  fifo : ℕ → Byte
  plen : Option ℕ
  line : Line
  mem : ℕ → Byte

/-- While `usb_handle_irq` runs the controller may take a packet, if it holds none. -/
def usbHandleIrq (s : State) : State :=
  match s.line, s.plen with
  | none :: line, _ => { s with line := line }
  | some p :: line, none => { s with fifo := put s.fifo 0 p, plen := some p.length, line := line }
  | _, _ => s

/-- The words that `while (len > 0)` takes from the buffer cover `len`. -/
def usbEpNRead (data len : ℕ) (s : State) : ℤ × State :=
  if 64 < len then
    (-UsbV2.efail, s)
  else
    match s.plen with
    | none => (-UsbV2.ebusy, s)
    | some plen =>
      let sz := plen % 512
      ((min sz len : ℕ), { s with plen := none, mem := put s.mem data (get s.fifo 0 ((len + 3) / 4 * 4)) })

def usbRecv : Body (Recv × State) (ℤ × State) := recvPass usbEpNRead usbHandleIrq

end M3Dev.UsbV1

namespace M3Dev.UsbV2
open Buffer WhileLoop UsbReceive

structure State where
  ep : UsbEp
  line : Line
  mem : ℕ → Byte

def usbHandleOut (ep : UsbEp) : UsbEp :=
  { ep with outLen := ep.outSize - ep.outCmd.size, outPos := 0 }

/-- The controller puts a packet into the buffer of the entry, and takes its length off the size. -/
def UsbEp.outDone (ep : UsbEp) (p : Packet) : UsbEp :=
  { ep with
    outBuf := put ep.outBuf ep.outCmd.addr p
    outCmd := { ep.outCmd with size := ep.outCmd.size - p.length, active := false } }

/-- While `usb_handle_irq` runs the controller may take a packet, if the entry is active. -/
def usbHandleIrq (s : State) : State :=
  match s.line with
  | none :: line => { s with line := line }
  | some p :: line =>
    if s.ep.outCmd.active then
      { s with ep := usbHandleOut (s.ep.outDone p), line := line }
    else
      s
  | [] => s

def usbEpRead (data max : ℕ) (s : State) : ℤ × State :=
  let len := min (s.ep.outLen - s.ep.outPos) max
  if len = 0 then
    (-ebusy, s)
  else
    let mem := put s.mem data (get s.ep.outBuf s.ep.outPos len)
    let ep : UsbEp := { s.ep with outPos := s.ep.outPos + len }
    if ep.outPos = ep.outLen then
      (len, { s with ep := { ep with outCmd := epCmd 0 ep.outSize }, mem := mem })
    else
      (len, { s with ep := ep, mem := mem })

def usbRecv : Body (Recv × State) (ℤ × State) := recvPass usbEpRead usbHandleIrq

end M3Dev.UsbV2

namespace M3Dev.Stm32Usb
open Buffer WhileLoop UsbReceive

/-- `STAT_RX` -/
def rxNak : BitVec 2 := 2
def rxValid : BitVec 2 := 3

/-- The buffer `ep1rxb` and the endpoint register's `STAT_RX`, and the driver's variables. -/
structure State where
  ep1rxb : ℕ → Byte
  statRx : BitVec 2
  ep1RxData : ℕ
  ep1RxStatus : ℤ
  line : Line
  mem : ℕ → Byte

/-- Written as ones, the bits of `STAT_RX` toggle. -/
def toggleRx (bits : BitVec 2) (s : State) : State := { s with statRx := s.statRx ^^^ bits }

/-- The part of the handler that is about received data: it copies halfwords. -/
def usbHandleEp1 (count : ℕ) (s : State) : State :=
  let len := count % 1024
  { s with ep1RxStatus := len, mem := put s.mem s.ep1RxData (get s.ep1rxb 0 ((len + 1) / 2 * 2)) }

/-- While `usb_handle_irq` runs the controller may take a packet, if the endpoint is valid, and
answers NAK from then on. -/
def usbHandleIrq (s : State) : State :=
  match s.line with
  | none :: line => { s with line := line }
  | some p :: line =>
    if s.statRx = rxValid then
      usbHandleEp1 p.length { s with ep1rxb := put s.ep1rxb 0 p, statRx := rxNak, line := line }
    else
      s
  | [] => s

/-- Where in `usb_recv`: at the outer loop, or at the one that waits. -/
inductive Loop where
  | outer
  | waits
  deriving DecidableEq

def usbRecv : Body ((Recv × Loop) × State) (ℤ × State)
  | ((l, .outer), s) =>
    if l.count = 0 then
      some (.exit (l.rx, s))
    else
      some (.next ((l, .waits), toggleRx 1 { s with ep1RxData := l.data, ep1RxStatus := -UsbV2.ebusy }))
  | ((l, .waits), s) =>
    if s.ep1RxStatus = -UsbV2.ebusy then
      some (.next ((l, .waits), usbHandleIrq s))
    else
      let r := s.ep1RxStatus
      if r < 0 then
        some (.exit (r, s))
      else
        let r : ℤ := if (l.count : ℤ) < r then l.count else r
        let l := l.add r.toNat
        if r ≠ 64 then some (.exit (l.rx, s)) else some (.next ((l, .outer), s))

end M3Dev.Stm32Usb
