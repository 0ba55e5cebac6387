import M3Dev.RswdpProtocol
import M3Dev.WhileLoop

/-! `process_txn` of the two debug probe firmwares (m3debug and swdp), over an
arbitrary SWD target. -/
namespace M3Dev.Rswdp
open WhileLoop

/-! ### The SWD target -/

/-- `swdp_read`, `swdp_write` and `swdp_reset` as the wire answers them. A read
leaves a word in `*out` whether it succeeds or not. -/
structure SwdTarget (σ : Type*) where
  swdpRead : Word → σ → σ × Word × Bool
  swdpWrite : Word → Word → σ → σ × Bool
  swdpReset : σ → σ

-- swdp_read/write() register codes
abbrev rdIdcode : Word := 0xA5
abbrev rdDpctrl : Word := 0xB1
abbrev rdResend : Word := 0xA9
abbrev rdBuffer : Word := 0xBD
abbrev wrAbort : Word := 0x81
abbrev wrDpctrl : Word := 0x95
abbrev wrSelect : Word := 0x8D
abbrev wrBuffer : Word := 0x99
abbrev rdAp0 : Word := 0xE1
abbrev rdAp1 : Word := 0xF5
abbrev rdAp2 : Word := 0xED
abbrev rdAp3 : Word := 0xF9
abbrev wrAp0 : Word := 0xC5
abbrev wrAp1 : Word := 0xD1
abbrev wrAp2 : Word := 0xC9
abbrev wrAp3 : Word := 0xDD

/-- Both firmwares index the table with the op byte as it comes; what lies past
its sixteen entries is not part of the protocol and reads as zero here. -/
def optable (op : Word) : Word :=
  [rdIdcode, wrAbort, rdAp0, wrAp0, rdDpctrl, wrDpctrl, rdAp1, wrAp1,
    rdResend, wrSelect, rdAp2, wrAp2, rdBuffer, wrBuffer, rdAp3, wrAp3].getD op.toNat 0

/-! ### Firmware state -/

/-- Where `process_txn` jumps once the reply is out. -/
inductive Func where
  | execute (addr : Word)
  | rebootBootloader
  deriving Repr

/-- What `func` is after an EXECUTE: a null pointer is nothing to jump to. -/
def executeAt (addr : Word) : Option Func := if addr = 0 then none else some (.execute addr)

/-- One `usb_xmit` of the probe: the reply, or the text `printu` sends about the
clock `ssp0_set_clock` chose. -/
inductive Xmit where
  | reply (tx : List Word)
  | swdpClockIsNow (khz : ℕ)
  deriving Repr

structure Device (σ : Type*) where
  target : σ
  /-- stores of `CMD_DOWNLOAD`, in order -/
  ram : List (Word × Word)
  resetN : Bool
  swdpTrace : Word
  /-- `usb_xmit` calls, in order -/
  usb : List Xmit
  /-- commands reported as unknown on the serial console -/
  unknown : List Word

/-- What the two firmwares do differently in `process_txn`. -/
structure Firmware where
  /-- `CMD_BOOTLOADER` and `CMD_SET_CLOCK` are commands -/
  hasClock : Bool
  /-- the mask under which a reply length gets a closing `CMD_NULL` -/
  padMask : ℕ
  rxWords : ℕ
  txWords : ℕ

def m3debug : Firmware := { hasClock := true, padMask := 0xf, rxWords := 512, txWords := 512 + 1 }

def swdp : Firmware := { hasClock := false, padMask := 0x3f, rxWords := 1024, txWords := 1024 }

def sspClocks : List ℕ := [24000, 12000, 8000, 6000, 4000, 3000, 2000, 1000]

def ssp0SetClock (khz : ℕ) : ℕ :=
  let khz := if khz < 1000 then 1000 else khz
  (sspClocks.find? (fun c => c ≤ khz)).getD 0

/-- The part of the state that outlives the message being parsed. -/
structure Session (σ : Type*) where
  tx : List Word
  func : Option Func
  dev : Device σ

/-- Locals of `process_txn`: `rx` counts words from the start of the receive buffer. -/
structure TxnState (σ : Type*) extends Session σ where
  rx : ℕ
  rxc : ℤ
  count : ℕ

variable {σ : Type*}

def Session.setTarget (s : Session σ) (target : σ) : Session σ :=
  { s with dev := { s.dev with target := target } }

/-! ### process_txn -/

def swdWriteLoop (T : SwdTarget σ) (rx : ℕ → Word) (hdr : Word) :
    ℕ → TxnState σ → Bool × TxnState σ
  | 0, s => (true, s)
  | n + 1, s =>
    let r := T.swdpWrite hdr (rx s.rx) s.dev.target
    let s := { s with toSession := s.setTarget r.1, rx := s.rx + 1, rxc := s.rxc - 1 }
    if r.2 then swdWriteLoop T rx hdr n s else (false, s)

def swdReadLoop (T : SwdTarget σ) (hdr : Word) : ℕ → TxnState σ → Bool × TxnState σ
  | 0, s => (true, s)
  | n + 1, s =>
    let r := T.swdpRead hdr s.dev.target
    let s := { s with toSession := { s.setTarget r.1 with tx := s.tx ++ [r.2.1] } }
    if r.2.2 then swdReadLoop T hdr n s
    else (false, { s with tx := s.tx ++ List.replicate n 0xfefefefe })

def swdDiscardLoop (T : SwdTarget σ) (hdr : Word) : ℕ → TxnState σ → Bool × TxnState σ
  | 0, s => (true, s)
  | n + 1, s =>
    let r := T.swdpRead hdr s.dev.target
    let s := { s with toSession := s.setTarget r.1 }
    if r.2.2 then swdDiscardLoop T hdr n s else (false, s)

/-- `while (n) { *addr++ = *rx++; rxc--; }`: the body leaves `n` as it is. -/
def downloadPass (rx : ℕ → Word) (n : ℕ) (d : Word × TxnState σ) :
    Option (Pass (Word × TxnState σ) (TxnState σ)) :=
  if n ≠ 0 then
    let s := d.2
    let dev := { s.dev with ram := s.dev.ram ++ [(d.1, rx s.rx)] }
    some (.next (d.1 + 4, { s with dev := dev, rx := s.rx + 1, rxc := s.rxc - 1 }))
  else some (.exit d.2)

/-- `continue` after a payload loop that ended, `goto done` after one that did not. -/
def continueOr (status : Word) (r : Bool × TxnState σ) :
    Option (Pass (TxnState σ) (Word × TxnState σ)) :=
  if r.1 then some (.next r.2) else some (.exit (status, r.2))

/-- One pass of the message loop; the value it is left with is `status`. -/
def txnPass (fw : Firmware) (T : SwdTarget σ) (rx : ℕ → Word) (fuel : ℕ) (s : TxnState σ) :
    Option (Pass (TxnState σ) (Word × TxnState σ)) :=
  if s.rxc ≤ 0 then some (.exit (0, { s with rxc := s.rxc - 1 }))
  else
    let msg := rx s.rx
    let cmd := rswdMsgCmd msg
    let op := rswdMsgOp msg
    let n := (rswdMsgArg msg).toNat
    let s := { s with rxc := s.rxc - 1, count := s.count + 1, rx := s.rx + 1 }
    if cmd = cmdNull then some (.next s)
    else if cmd = cmdSwdWrite then continueOr 3 (swdWriteLoop T rx (optable op) n s)
    else if cmd = cmdSwdRead then
      let hdr := rswdMsg cmdSwdData 0 (rswdMsgArg msg)
      continueOr 3 (swdReadLoop T (optable op) n { s with tx := s.tx ++ [hdr] })
    else if cmd = cmdSwdDiscard then continueOr 3 (swdDiscardLoop T (optable op) n s)
    else if cmd = cmdAttach then
      some (.next { s with toSession := s.setTarget (T.swdpReset s.dev.target) })
    else if cmd = cmdReset then
      -- n = 0 deasserts RESETn, anything else asserts it
      some (.next { s with dev := { s.dev with resetN := n == 0 } })
    else if cmd = cmdDownload then
      let addr := rx s.rx
      let s := { s with rx := s.rx + 1, rxc := s.rxc - 1 }
      (runLoop (downloadPass rx n) fuel (addr, s)).map .next
    else if cmd = cmdExecute then
      some (.next { s with func := executeAt (rx s.rx), rx := s.rx + 1, rxc := s.rxc - 1 })
    else if cmd = cmdTrace then
      some (.next { s with dev := { s.dev with swdpTrace := op } })
    else if fw.hasClock ∧ cmd = cmdBootloader then
      some (.next { s with func := some .rebootBootloader })
    else if fw.hasClock ∧ cmd = cmdSetClock then
      let khz := ssp0SetClock n
      some (.next { s with dev := { s.dev with usb := s.dev.usb ++ [.swdpClockIsNow khz] } })
    else
      some (.exit (1, { s with dev := { s.dev with unknown := s.dev.unknown ++ [cmd] } }))

/-- The label `done`: the status word, the closing null of a full last packet, and
the one `usb_xmit` of the reply. -/
def txnDone (fw : Firmware) (status : Word) (s : TxnState σ) : TxnState σ :=
  let tx := s.tx ++ [rswdMsg cmdStatus status (BitVec.ofNat 32 s.count)]
  let tx := if tx.length &&& fw.padMask = 0 then tx ++ [rswdMsg cmdNull 0 0] else tx
  { s with tx := tx, dev := { s.dev with usb := s.dev.usb ++ [.reply tx] } }

def txnStart (txnid : Word) (rx : ℕ) (rxc : ℤ) (dev : Device σ) : TxnState σ :=
  { tx := [txnid], func := none, dev := dev, rx := rx, rxc := rxc, count := 0 }

/-- `process_txn` up to the point where it returns or jumps to `func`. -/
def processTxn (fw : Firmware) (T : SwdTarget σ) (fuel : ℕ) (txnid : Word) (rx : ℕ → Word)
    (rxp : ℕ) (rxc : ℤ) (dev : Device σ) : Option (TxnState σ) :=
  (runLoop (txnPass fw T rx fuel) fuel (txnStart txnid rxp rxc dev)).map
    (fun r => txnDone fw r.1 r.2)

/-- `process_txn` to its end. With a `func` it has none: whatever the code that is jumped to does,
`for (;;) ;` stands behind it. -/
def processTxnReturns (fw : Firmware) (T : SwdTarget σ) (fuel : ℕ) (txnid : Word) (rx : ℕ → Word)
    (rxp : ℕ) (rxc : ℤ) (dev : Device σ) : Option (TxnState σ) :=
  (processTxn fw T fuel txnid rx rxp rxc dev).filter fun s => s.func.isNone

/-! ### A quiet target -/

/-- A target on which every transfer succeeds and every read gives zero. -/
def quietTarget : SwdTarget Unit where
  swdpRead _ t := (t, 0, true)
  swdpWrite _ _ t := (t, true)
  swdpReset t := t

def idleDevice : Device Unit :=
  { target := (), ram := [], resetN := true, swdpTrace := 0, usb := [], unknown := [] }

end M3Dev.Rswdp
