import M3Dev.FifoLink
import M3Dev.Lpc13Boot
import M3Dev.Lpcboot
import M3Dev.UsbReceive

/-! `lpcboot` on one end of the link and the boot loader on the other. The parties go on in any order,
and a packet stays on its way as long as it may; no packet is lost. -/
namespace M3Dev.BootLink
open CallTree WhileLoop UsbReceive FifoLink ByteBlock

/-! ### The host -/

/-- `lpcboot`, with the packets left of a write under way, and what it has printed. -/
inductive HostAt where
  | running (p : Lpcboot.Program ℤ)
  | sending (ps : List Packet) (n : ℤ) (k : Lpcboot.Answer → Lpcboot.Program ℤ)

structure Host where
  pos : HostAt
  printed : List Lpcboot.Report

/-- So many packets of 64 bytes, the last of which may be shorter. -/
def chunks : ℕ → List Byte → List Packet
  | 0, _ => []
  | n + 1, bs => bs.take 64 :: chunks n (bs.drop 64)

def packets (bs : List Byte) : List Packet := chunks ((bs.length + 63) / 64) bs

/-- `usb_read` of up to a packet; a longer one overflows. -/
def readAnswer (len : ℕ) (p : Packet) : Lpcboot.Answer :=
  if p.length ≤ len then ⟨p.length, p⟩ else ⟨-1, []⟩

def hostAct (h : Host) : Act Host Packet :=
  match h.pos with
  | .running (.ret _) => .stop
  | .running (.stop _) => .stop
  | .running (.call (.usbWrite data) k) => .go { h with pos := .sending (packets data) data.length k }
  | .running (.call (.usbRead len) k) => .receive fun p => { h with pos := .running (k (readAnswer len p)) }
  | .running (.call (.print r) k) => .go ⟨.running (k ⟨0, []⟩), h.printed ++ [r]⟩
  | .sending [] n k => .go { h with pos := .running (k ⟨n, []⟩) }
  | .sending (p :: ps) n k => .send p { h with pos := .sending ps n k }

/-! ### The device -/

/-- The boot loader: in `usb_recv_timeout` of `main`, in `usb_recv` of `handle`, elsewhere in
`handle`, or no longer there. -/
inductive DeviceAt where
  | main (l : Recv)
  | recv (l : Recv) (k : ℤ → Boot.Program Unit)
  | running (p : Boot.Program Unit)
  | gone

/-- The endpoint and the memory are in `usb`; `calls` are the calls of the ROM that were made,
`touched` the sectors that it was to erase or to program, and `sent` the packets that were sent. -/
structure Device where
  pos : DeviceAt
  usb : UsbV1.State
  flash : ℕ → Byte
  calls : List (List Boot.Word)
  touched : List ℕ
  sent : List Packet

/-- The sectors of 4 KB of an LPC1343. -/
def flashSectors : ℕ := 8

/-- The ROM's IAP code, which is not ours: what a call makes of the flash, from the calls before
it and the memory. It does what it is asked to the sectors that were prepared for it. -/
structure Rom where
  iap : List (List Boot.Word) → List Boot.Word → (ℕ → Byte) → (ℕ → Byte) → ℕ → Byte
  prepares : ∀ calls first last flash mem, iap calls [Boot.opPrepare, first, last] flash mem = flash
  erases : ∀ calls (first last clock : Boot.Word) flash mem, last.toNat < flashSectors → ∀ x,
    iap (calls ++ [[Boot.opPrepare, first, last]]) [Boot.opErase, first, last, clock] flash mem x =
      if 4096 * first.toNat ≤ x ∧ x < 4096 * (last.toNat + 1) then 0xFF else flash x
  /-- of a page that is erased -/
  programs : ∀ calls (page dst src clock : Boot.Word) flash mem, page.toNat < flashSectors →
    dst.toNat = 4096 * page.toNat → (∀ i < 4096, flash (dst.toNat + i) = 0xFF) → ∀ x,
      iap (calls ++ [[Boot.opPrepare, page, page]]) [Boot.opWrite, dst, src, 0x1000, clock] flash mem x =
        if dst.toNat ≤ x ∧ x < dst.toNat + 4096 then mem (src.toNat + (x - dst.toNat)) else flash x

/-- The sectors that the call is to erase or to program. -/
def sectorsOf (args : List Boot.Word) : List ℕ :=
  match args with
  | [op, first, last, _] =>
    if op = Boot.opErase then List.range' first.toNat (last.toNat + 1 - first.toNat) else []
  | [op, dst, _, n, _] =>
    if op = Boot.opWrite then
      List.range' (dst.toNat / 4096) ((dst.toNat + n.toNat + 4095) / 4096 - dst.toNat / 4096)
    else []
  | _ => []

def Device.romcall (rom : Rom) (d : Device) (args : List Boot.Word) : Device :=
  { d with
    flash := rom.iap d.calls args d.flash d.usb.mem
    calls := d.calls ++ [args]
    touched := d.touched ++ sectorsOf args }

/-- A word in memory. -/
def loadWord (mem : ℕ → Byte) (addr : ℕ) : Word := leWord fun i => mem (addr + i)

/-- The device behind a pass of `usb_recv`. -/
def afterPass (goes : Recv → UsbV1.State → Device) (returns : ℤ → UsbV1.State → Device) (stays : Device) :
    Option (Pass (Recv × UsbV1.State) (ℤ × UsbV1.State)) → Device
  | some (.next (l, usb)) => goes l usb
  | some (.exit (n, usb)) => returns n usb
  | none => stays

/-- `usb_recv` goes on: a pass that finds nothing waits for the next packet. -/
def recvAct (l : Recv) (usb : UsbV1.State) (goes : Recv → UsbV1.State → Device)
    (returns : ℤ → UsbV1.State → Device) (stays : Device) : Act Device Packet :=
  if l.count ≠ 0 ∧ usb.plen = none then
    .receive fun p => afterPass goes returns stays (UsbV1.usbRecv (l, { usb with line := [some p] }))
  else
    .go (afterPass goes returns stays (UsbV1.usbRecv (l, usb)))

/-- `buf` is the address of `buf`, and `info` the contents of `DEVICE`. A wait in `main` that ends
without a packet only begins again. -/
def deviceAct (rom : Rom) (buf : ℕ) (info : Packet) (d : Device) : Act Device Packet :=
  match d.pos with
  | .main l => recvAct l d.usb
      (fun l usb => { d with pos := .main l, usb := usb })
      (fun n usb =>
        let pos := if n = 12 then
          .running (Boot.handle (loadWord usb.mem buf) (loadWord usb.mem (buf + 4)) (loadWord usb.mem (buf + 8)))
        else
          .main ⟨buf, 0, 64⟩
        { d with pos := pos, usb := usb })
      d
  | .recv l k => recvAct l d.usb
      (fun l usb => { d with pos := .recv l k, usb := usb })
      (fun n usb => { d with pos := .running (k n), usb := usb })
      d
  | .running (.ret ()) => .go { d with pos := .main ⟨buf, 0, 64⟩ }
  | .running (.stop _) => .stop
  | .running (.call (.romcall args) k) => .go { d.romcall rom args with pos := .running (k 0) }
  | .running (.call (.usbXmit data) k) =>
    let p := data.flatMap wordBytes
    .send p { d with pos := .running (k p.length), sent := d.sent ++ [p] }
  | .running (.call .usbXmitDevice k) =>
    .send info { d with pos := .running (k info.length), sent := d.sent ++ [info] }
  | .running (.call (.usbRecv dest count) k) => .go { d with pos := .recv ⟨dest.toNat, 0, count.toNat⟩ k }
  | .running (.call (.usbRecvTimeout _ _) k) => .go { d with pos := .running (k (-4)) }
  | .running (.call (.bootImage _) _) => .go { d with pos := .gone }
  | .running (.call (.writel _ _) k) => .go { d with pos := .running (k 0) }
  | .running (.call .reboot _) => .go { d with pos := .gone }
  | .gone => .stop

abbrev System := Pair Host Device Packet

/-- The boot loader waits for its first command. -/
structure Device.Waiting (buf : ℕ) (d : Device) : Prop where
  pos : d.pos = .main ⟨buf, 0, 64⟩
  plen : d.usb.plen = none
  line : d.usb.line = []
  touched : d.touched = []
  sent : d.sent = []

/-- `lpcboot flash` at its start. -/
def start (image : List Byte) (d : Device) : System where
  left := ⟨.running (Lpcboot.main .flash (some image)), []⟩
  right := d
  out := []
  inn := []

abbrev Run (rom : Rom) (room buf : ℕ) (info : Packet) (n : ℕ) (s t : System) : Prop :=
  Interleaving.Steps (leftStep room hostAct) (rightStep room (deviceAct rom buf info)) n s t

abbrev Ended (rom : Rom) (room buf : ℕ) (info : Packet) (s : System) : Prop :=
  Interleaving.Ended (leftStep room hostAct) (rightStep room (deviceAct rom buf info)) s

/-- The image is in the flash from 0x1000 on and its last page is the last one written; the host has
had two replies and says so; and the boot loader's own sector was left alone. -/
structure Stored (image : List Byte) (flash : ℕ → Byte) (t : System) : Prop where
  returned : t.left.pos = .running (.ret 0)
  printed : t.left.printed = [.sending image.length, .okay]
  replies : t.right.sent.length = 2 ∧ t.inn = []
  stored : ∀ i (h : i < image.length), t.right.flash (0x1000 + i) = image[i]
  rest : ∀ x, x < 0x1000 ∨ 0x1000 + 4096 * ((image.length + 4095) / 4096) ≤ x → t.right.flash x = flash x
  own : 0 ∉ t.right.touched

/-- The host says that it failed, and no flash was erased or programmed. -/
structure Refused (flash : ℕ → Byte) (t : System) : Prop where
  returned : t.left.pos = .running (.ret (-1))
  printed : t.left.printed = [.failure .flash]
  flash : t.right.flash = flash
  touched : t.right.touched = []

end M3Dev.BootLink
