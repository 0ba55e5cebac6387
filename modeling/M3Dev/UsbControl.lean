import M3Dev.EventSystem
import M3Dev.Machine
import M3Dev.UsbReceive

/-! Control transfers of the second LPC13xx driver: what the interrupt handler makes of SETUP packets,
of completions on endpoint zero and of bus resets. -/
namespace M3Dev.UsbControl
open Buffer EventSystem UsbV2

/-- `struct usb_setup_req` -/
structure SetupReq where
  bmRequestType : Byte
  bRequest : Byte
  wValue : BitVec 16
  wIndex : BitVec 16
  wLength : BitVec 16

structure Descriptors where
  dev00 : List Byte
  cfg00 : List Byte
  langId : List Byte
  mfgString : List Byte
  prodString : List Byte

/-- The controller's registers and the driver's variables. The entries of `usb_ep_list` for an
endpoint are with its `struct usb_ep`, the STALL bits of endpoint zero's beside it. -/
structure Usb where
  intstat : Word
  inten : Word
  devcmdstat : Word
  ep0 : UsbEp
  outStall : Bool
  inStall : Bool
  ep1 : UsbEp
  setupBuf : SetupReq
  /-- `usb_state` is `USB_STATE_ONLINE` -/
  online : Bool
  frames : ℕ
  desc : Descriptors

/-- The callbacks of the board. They reach endpoint one, by `usb_ep1_read` and `usb_ep1_write`. -/
structure Callbacks where
  ep1RxFull : UsbEp → UsbEp
  ep1TxEmpty : UsbEp → UsbEp
  online : UsbEp → UsbEp

abbrev intEp0Out : Word := 0x1
abbrev intEp0In : Word := 0x2
abbrev intEp1Out : Word := 0x4
abbrev intEp1In : Word := 0x8
abbrev intFrame : Word := 0x40000000
abbrev intDev : Word := 0x80000000

abbrev cmdstatSetup : Word := 0x100
abbrev cmdstatDevAddr : Word := 0x7f
abbrev cmdstatDresC : Word := 0x04000000

/-- What is written as ones to `USB_INTSTAT` is cleared. -/
def Usb.clearInt (u : Usb) (bits : Word) : Usb := { u with intstat := u.intstat &&& ~~~bits }

/-- The bits of `USB_DEVCMDSTAT` that are cleared by writing ones: SETUP and the changes. -/
abbrev cmdstatChanges : Word := 0x07000100

def Usb.writeCmdstat (u : Usb) (v : Word) : Usb :=
  { u with devcmdstat := (v &&& ~~~cmdstatChanges) ||| (u.devcmdstat &&& cmdstatChanges &&& ~~~v) }

def usbSendZlp0 (u : Usb) : Usb := { u with ep0 := usbSendZlp u.ep0, inStall := false }

def usbNak (u : Usb) : Usb :=
  { u with
    ep0 := { u.ep0 with
      outCmd := { u.ep0.outCmd with active := false }, inCmd := { u.ep0.inCmd with active := false } }
    outStall := true
    inStall := true }

/-- `usb_ep_write(&usb_ep_data[0], data, len)`; what it returns is not looked at. -/
def usbEp0Write (u : Usb) (data : List Byte) : Usb :=
  let r := usbEpWrite u.ep0 data
  { u with ep0 := r.2, inStall := if r.1 = 0 then false else u.inStall }

def usbSendDesc (u : Usb) (desc : List Byte) (len : ℕ) : Usb :=
  if u.ep0.inSize < len then usbNak u else usbEp0Write u (desc.take len)

/-- The descriptors by `wValue`. -/
def Descriptors.find (d : Descriptors) (wValue : BitVec 16) : Option (List Byte) :=
  if wValue = 0x0100 then some d.dev00
  else if wValue = 0x0200 then some d.cfg00
  else if wValue = 0x0300 then some d.langId
  else if wValue = 0x0301 then some d.mfgString
  else if wValue = 0x0302 then some d.prodString
  else none

def usbHandleGetDesc (u : Usb) (req : SetupReq) : Usb :=
  match u.desc.find req.wValue with
  | some desc => usbSendDesc u desc (min desc.length req.wLength.toNat)
  | none => usbNak u

def usbConfigEp1 (u : Usb) : Usb :=
  { u with
    ep1 := { u.ep1 with outCmd := epCmd 0 u.ep1.outSize, inCmd := ⟨0, 0, false⟩ }
    inten := u.inten ||| (intEp1Out ||| intEp1In) }

def usbHandleSetConfig (cb : Callbacks) (u : Usb) (config : BitVec 16) : Usb :=
  if config ≠ 1 then usbNak u
  else
    let u := usbSendZlp0 (usbConfigEp1 u)
    { u with online := true, ep1 := cb.online u.ep1 }

def usbHandleSetupReq (cb : Callbacks) (u : Usb) (req : SetupReq) : Usb :=
  if req.bRequest = 6 then usbHandleGetDesc u req
  else if req.bRequest = 5 then
    let addr : Word := req.wValue.setWidth 32 &&& cmdstatDevAddr
    usbSendZlp0 (u.writeCmdstat (u.devcmdstat &&& ~~~cmdstatDevAddr ||| addr))
  else if req.bRequest = 8 then usbEp0Write u [if u.online then 1 else 0]
  else if req.bRequest = 9 then usbHandleSetConfig cb u req.wValue
  else usbNak u

/-- A reset disables the entries of the other endpoints. -/
def usbHandleDevInt (u : Usb) : Usb :=
  let cmdstat := u.devcmdstat
  let u := if cmdstat &&& cmdstatDresC ≠ 0 then
      { u with ep1 := { u.ep1 with outCmd := ⟨0, 0, false⟩, inCmd := ⟨0, 0, false⟩ } }
    else u
  (u.writeCmdstat cmdstat).clearInt intDev

/-- A SETUP makes both entries inactive and takes back the interrupt of a completion. -/
def Usb.takeSetup (u : Usb) : Usb :=
  let cmdstat := u.devcmdstat
  let u : Usb :=
    { u with
      ep0 := { u.ep0 with
        outCmd := { u.ep0.outCmd with active := false }, inCmd := { u.ep0.inCmd with active := false } }
      outStall := false
      inStall := false }
  (u.clearInt intEp0In).writeCmdstat cmdstat

def usbHandleEp0Out (cb : Callbacks) (u : Usb) : Usb :=
  let u := u.clearInt intEp0Out
  if u.devcmdstat &&& cmdstatSetup ≠ 0 then
    let u := u.takeSetup
    usbHandleSetupReq cb u u.setupBuf
  else { u with outStall := false }

def usbHandleEp0In (u : Usb) : Usb :=
  let u := u.clearInt intEp0In
  let pending := decide (0 ≤ u.ep0.inLen)
  let u := if pending then
      { u with ep0 := { u.ep0 with outCmd := epCmd 0 u.ep0.outSize }, outStall := true }
    else u
  let u := { u with ep0 := { u.ep0 with inCmd := { u.ep0.inCmd with active := false } }, inStall := true }
  if pending then
    let u := u.clearInt intEp0Out
    { u with ep0 := { u.ep0 with inLen := -1 } }
  else u

/-- `usb_handle_out(&usb_ep_data[1], USB_INT_EP1OUT)` -/
def usbHandleEp1Out (cb : Callbacks) (u : Usb) : Usb :=
  let u := { u with ep1 := cb.ep1RxFull (usbHandleOut u.ep1) }
  u.clearInt intEp1Out

/-- `usb_handle_in(&usb_ep_data[1], USB_INT_EP1IN)` -/
def usbHandleEp1In (cb : Callbacks) (u : Usb) : Usb :=
  let u := u.clearInt intEp1In
  let r := usbHandleIn u.ep1
  { u with ep1 := if r.2 then cb.ep1TxEmpty r.1 else r.1 }

def handleIrqUsbIrq (cb : Callbacks) (u : Usb) : Usb :=
  let status := u.intstat &&& u.inten
  let u := if status &&& intFrame ≠ 0 then { u with frames := u.frames + 1, inten := intFrame } else u
  let u := if status &&& intDev ≠ 0 then usbHandleDevInt u else u
  let u := if status &&& intEp0Out ≠ 0 then usbHandleEp0Out cb u else u
  let u := if status &&& intEp0In ≠ 0 then usbHandleEp0In u else u
  let u := if status &&& intEp1Out ≠ 0 then usbHandleEp1Out cb u else u
  if status &&& intEp1In ≠ 0 then usbHandleEp1In cb u else u

/-! ### The start -/

def dev00 : List Byte :=
  [18, 1, 0x00, 0x01, 0xFF, 0x00, 0x00, 0x40, 0xd1, 0x18, 0x02, 0x65, 0x00, 0x01, 0x00, 0x00, 0x00, 0x01]

def cfg00 : List Byte :=
  [9, 2, 0x20, 0x00, 0x01, 0x01, 0x00, 0x80, 50] ++
  [9, 4, 0x00, 0x00, 0x02, 0xFF, 0x00, 0x00, 0x00] ++
  [7, 5, 0x81, 0x02, 0x40, 0x00, 0x00] ++
  [7, 5, 0x01, 0x02, 0x40, 0x00, 0x00]

def langId : List Byte := [4, 3, 0x09, 0x04]

/-- `mfg_string` and `prod_string`, arrays of 24 halfwords. -/
def stringDesc : Option (List Byte) → List Byte
  | none => List.replicate 48 0
  | some s =>
    let s := s.take 23
    ([BitVec.ofNat 8 (s.length * 2 + 2), 3] ++ s.flatMap (fun c => [c, 0])) ++
      List.replicate (46 - 2 * s.length) 0

def descriptors (vid pid : BitVec 16) (mfg prod : Option (List Byte)) : Descriptors where
  dev00 := ((((dev00.set 8 (vid.setWidth 8)).set 9 ((vid >>> 8).setWidth 8)).set 10
    (pid.setWidth 8)).set 11 ((pid >>> 8).setWidth 8)).set 14 (if mfg.isSome then 1 else 0) |>.set 15
      (if prod.isSome then 2 else 0)
  cfg00 := cfg00
  langId := langId
  mfgString := stringDesc mfg
  prodString := stringDesc prod

/-- The driver after `usb_init`. -/
def usbInit (vid pid : BitVec 16) (mfg prod : Option (List Byte)) : Usb where
  intstat := 0
  inten := intDev ||| intEp0Out ||| intEp0In
  devcmdstat := 0x00030080
  ep0 := usbSetupEp 0 64 64 64
  outStall := false
  inStall := false
  ep1 := usbSetupEp 1 128 64 64
  setupBuf := ⟨0, 0, 0, 0, 0⟩
  online := false
  frames := 0
  desc := descriptors vid pid mfg prod

/-! ### Runs -/

inductive Event where
  /-- a SETUP packet -/
  | setup (req : SetupReq)
  /-- the host has collected what endpoint zero had for it -/
  | inDone
  /-- a packet for endpoint zero, without data -/
  | outDone
  | reset
  | ep1Out (p : List Byte)
  | ep1In
  /-- the handler runs -/
  | irq

def usbStep (cb : Callbacks) : Step Usb Event
  | u, .setup req =>
    some { u with
      setupBuf := req, devcmdstat := u.devcmdstat ||| cmdstatSetup, intstat := u.intstat ||| intEp0Out }
  | u, .inDone =>
    if u.ep0.inCmd.active then
      some { u with ep0 := u.ep0.inDone, intstat := u.intstat ||| intEp0In }
    else none
  | u, .outDone => some { u with intstat := u.intstat ||| intEp0Out }
  | u, .reset =>
    some { u with devcmdstat := u.devcmdstat ||| cmdstatDresC, intstat := u.intstat ||| intDev }
  | u, .ep1Out p => some { u with ep1 := u.ep1.outDone p, intstat := u.intstat ||| intEp1Out }
  | u, .ep1In => some { u with ep1 := u.ep1.inDone, intstat := u.intstat ||| intEp1In }
  | u, .irq => some (handleIrqUsbIrq cb u)

/-- A SETUP waits for the interrupt handler. -/
def SetupPending (u : Usb) : Prop :=
  u.intstat &&& u.inten &&& intEp0Out ≠ 0 ∧ u.devcmdstat &&& cmdstatSetup ≠ 0

/-- The response to a supported request that fits: the part asked for of a descriptor, or the
configuration. -/
def response (u : Usb) (req : SetupReq) : Option (List Byte) :=
  if req.bRequest = 6 then
    ((u.desc.find req.wValue).map (·.take req.wLength.toNat)).filter (·.length ≤ u.ep0.inSize)
  else if req.bRequest = 8 then some [if u.online then 1 else 0]
  else none

/-- The entry for what endpoint zero sends is active, with these bytes. -/
def Armed (u : Usb) (data : List Byte) : Prop := u.ep0.inCmd.active = true ∧ inPacket u.ep0 = data

/-- Behind the handler endpoint zero is to send the response to the request that has waited for it. -/
def Answers (cb : Callbacks) (u : Usb) : Event → Prop
  | .irq => SetupPending u → ∀ data, response u u.setupBuf = some data → Armed (handleIrqUsbIrq cb u) data
  | _ => True

/-- A supported request is handled when the last response has been seen to go, and in no interrupt
that tells of one. In an interrupt that tells of a change of the device the request is taken back
unseen: there only the same response, left from an earlier request, helps. -/
def Separate (u : Usb) : Event → Prop
  | .irq => SetupPending u → ∀ data, response u u.setupBuf = some data →
      u.intstat &&& u.inten &&& intEp0In = 0 ∧
        if u.intstat &&& u.inten &&& intDev ≠ 0 then Armed u data else u.ep0.inLen < 0
  | _ => True

/-! ### What the handlers leave alone -/

variable {cb : Callbacks} {u : Usb} {req : SetupReq} {data : List Byte}

/-- The sizes of endpoint zero's buffer and packets, as `usb_init` sets them. -/
structure Sized (u : Usb) : Prop where
  inSize : u.ep0.inSize = 64
  inMaxPacket : u.ep0.inMaxPacket = 64

theorem Sized.write (h : Sized u) (data : List Byte) : Sized (usbEp0Write u data) := by
  unfold usbEp0Write usbEpWrite
  split
  · exact ⟨h.inSize, h.inMaxPacket⟩
  split
  · exact ⟨h.inSize, h.inMaxPacket⟩
  · exact ⟨h.inSize, h.inMaxPacket⟩

theorem Sized.setupReq (h : Sized u) (cb : Callbacks) (req : SetupReq) :
    Sized (usbHandleSetupReq cb u req) := by
  unfold usbHandleSetupReq
  split
  · unfold usbHandleGetDesc
    split
    · unfold usbSendDesc
      split
      · exact ⟨h.inSize, h.inMaxPacket⟩
      · exact h.write _
    · exact ⟨h.inSize, h.inMaxPacket⟩
  split
  · exact ⟨h.inSize, h.inMaxPacket⟩
  split
  · exact h.write _
  split
  · unfold usbHandleSetConfig
    split
    · exact ⟨h.inSize, h.inMaxPacket⟩
    · exact ⟨h.inSize, h.inMaxPacket⟩
  · exact ⟨h.inSize, h.inMaxPacket⟩

theorem Sized.ep0Out (h : Sized u) (cb : Callbacks) : Sized (usbHandleEp0Out cb u) := by
  unfold usbHandleEp0Out
  dsimp only
  split
  · refine Sized.setupReq ?_ cb _
    exact ⟨h.inSize, h.inMaxPacket⟩
  · exact ⟨h.inSize, h.inMaxPacket⟩

theorem Sized.ep0In (h : Sized u) : Sized (usbHandleEp0In u) := by
  unfold usbHandleEp0In
  dsimp only
  split
  · exact ⟨h.inSize, h.inMaxPacket⟩
  · exact ⟨h.inSize, h.inMaxPacket⟩

theorem usbHandleDevInt_ep0 (u : Usb) : (usbHandleDevInt u).ep0 = u.ep0 := by
  unfold usbHandleDevInt
  dsimp only
  split <;> rfl

theorem Sized.irq (h : Sized u) (cb : Callbacks) : Sized (handleIrqUsbIrq cb u) := by
  unfold handleIrqUsbIrq
  dsimp only
  have keep (p : Prop) [Decidable p] {a b : Usb} (ha : Sized a) (hb : Sized b) :
      Sized (if p then a else b) := by
    split
    · exact ha
    · exact hb
  have hframe := keep (u.intstat &&& u.inten &&& intFrame ≠ 0)
    (a := { u with frames := u.frames + 1, inten := intFrame }) ⟨h.inSize, h.inMaxPacket⟩ h
  have hdev := keep (u.intstat &&& u.inten &&& intDev ≠ 0)
    (a := usbHandleDevInt _) ⟨by rw [usbHandleDevInt_ep0, hframe.inSize],
      by rw [usbHandleDevInt_ep0, hframe.inMaxPacket]⟩ hframe
  have hout := keep (u.intstat &&& u.inten &&& intEp0Out ≠ 0) (hdev.ep0Out cb) hdev
  have hin := keep (u.intstat &&& u.inten &&& intEp0In ≠ 0) hout.ep0In hout
  have hout1 := keep (u.intstat &&& u.inten &&& intEp1Out ≠ 0)
    (a := usbHandleEp1Out cb _) ⟨hin.inSize, hin.inMaxPacket⟩ hin
  exact keep _ (a := usbHandleEp1In cb _) ⟨hout1.inSize, hout1.inMaxPacket⟩ hout1

theorem Sized.step {e : Event} {u' : Usb} (h : Sized u) (hstep : usbStep cb u e = some u') : Sized u' := by
  cases e with
  | inDone =>
    rw [usbStep] at hstep
    by_cases hactive : u.ep0.inCmd.active = true
    · rw [if_pos hactive] at hstep
      obtain rfl := Option.some.inj hstep
      exact ⟨h.inSize, h.inMaxPacket⟩
    · rw [if_neg hactive] at hstep
      exact absurd hstep (by simp)
  | irq =>
    obtain rfl := Option.some.inj hstep
    exact h.irq cb
  | setup | outDone | reset | ep1Out | ep1In =>
    obtain rfl := Option.some.inj hstep
    exact ⟨h.inSize, h.inMaxPacket⟩

/-! ### The response -/

/-- Written while nothing is being sent, the data are what the controller is to send. -/
theorem usbEp0Write_armed (h : Sized u) (hidle : u.ep0.inLen < 0) (hlen : data.length ≤ 64) :
    Armed (usbEp0Write u data) data ∧ 0 ≤ (usbEp0Write u data).ep0.inLen := by
  have hwrite : (usbEp0Write u data).ep0 =
      usbSendIn { u.ep0 with inBuf := put u.ep0.inBuf 0 data, inLen := data.length, inPos := 0 } := by
    rw [usbEp0Write, usbEpWrite, if_neg (by rw [h.inSize]; omega), if_neg (by omega)]
  have hsize : (min (data.length : ℤ) u.ep0.inMaxPacket).toNat % 1024 = data.length := by
    rw [h.inMaxPacket]
    omega
  rw [Armed, hwrite]
  refine ⟨⟨rfl, ?_⟩, Int.natCast_nonneg _⟩
  have hzero : 0 / 64 * 64 = 0 := rfl
  rw [inPacket, usbSendIn, epCmd]
  dsimp only
  rw [hsize, hzero, get_put (Nat.le_refl _), List.take_length]

theorem usbEp0Write_busy (hsize : data.length ≤ u.ep0.inSize) (hbusy : 0 ≤ u.ep0.inLen) :
    (usbEp0Write u data).ep0 = u.ep0 := by
  rw [usbEp0Write, usbEpWrite, if_neg (Nat.not_lt.mpr hsize), if_pos hbusy]

/-- A supported request is answered with one write. -/
theorem usbHandleSetupReq_response (h : Sized u) (hresp : response u req = some data) :
    usbHandleSetupReq cb u req = usbEp0Write u data ∧ data.length ≤ 64 := by
  unfold response at hresp
  unfold usbHandleSetupReq
  by_cases hdesc : req.bRequest = 6
  · rw [if_pos hdesc] at hresp ⊢
    obtain ⟨hpart, hfits⟩ := Option.filter_eq_some_iff.mp hresp
    obtain ⟨desc, hfind, rfl⟩ := Option.map_eq_some_iff.mp hpart
    have hfits' : (desc.take req.wLength.toNat).length ≤ u.ep0.inSize := of_decide_eq_true hfits
    have hlen : min desc.length req.wLength.toNat ≤ u.ep0.inSize := by
      rw [List.length_take] at hfits'
      omega
    refine ⟨?_, h.inSize ▸ hfits'⟩
    rw [usbHandleGetDesc, hfind]
    dsimp only
    rw [usbSendDesc, if_neg (Nat.not_lt.mpr hlen), Nat.min_comm, ← List.take_take, List.take_length]
  · rw [if_neg hdesc] at hresp ⊢
    by_cases hconfig : req.bRequest = 8
    · rw [if_pos hconfig] at hresp
      obtain rfl := Option.some.inj hresp
      rw [if_neg (by rw [hconfig]; decide), if_pos hconfig]
      exact ⟨rfl, by simp⟩
    · rw [if_neg hconfig] at hresp
      exact absurd hresp (by simp)

/-- An interrupt that tells of a completion leaves nothing to send. -/
theorem usbHandleEp0In_inactive (u : Usb) : (usbHandleEp0In u).ep0.inCmd.active = false := by
  unfold usbHandleEp0In
  dsimp only
  split <;> rfl

/-- A reset's handler acknowledges a SETUP that has come with it. -/
theorem usbHandleDevInt_setup (u : Usb) : (usbHandleDevInt u).devcmdstat &&& cmdstatSetup = 0 := by
  have hcleared : (usbHandleDevInt u).devcmdstat = (u.devcmdstat &&& ~~~cmdstatChanges) |||
      (u.devcmdstat &&& cmdstatChanges &&& ~~~u.devcmdstat) := by
    unfold usbHandleDevInt
    dsimp only
    split <;> rfl
  rw [hcleared]
  apply BitVec.eq_of_getLsbD_eq
  intro i hi
  simp only [BitVec.getLsbD_and, BitVec.getLsbD_or, BitVec.getLsbD_not]
  by_cases hbit : i = 8
  · subst hbit
    cases u.devcmdstat.getLsbD 8 <;> decide
  · have hother : BitVec.getLsbD cmdstatSetup i = false := by
      have hpow : cmdstatSetup = BitVec.twoPow 32 8 := rfl
      rw [hpow, BitVec.getLsbD_twoPow]
      simp [Ne.symm hbit]
    rw [hother, Bool.and_false]
    exact BitVec.getLsbD_zero.symm

/-- What the handler does for the frame counter and for endpoint one is nothing to endpoint zero. -/
theorem irq_frame (u : Usb) : ∃ w : Usb, (if u.intstat &&& u.inten &&& intFrame ≠ 0 then
    { u with frames := u.frames + 1, inten := intFrame } else u) = w ∧ w.ep0 = u.ep0 ∧
      w.setupBuf = u.setupBuf ∧ w.online = u.online ∧ w.desc = u.desc ∧ w.devcmdstat = u.devcmdstat := by
  refine ⟨_, rfl, ?_⟩
  split <;> exact ⟨rfl, rfl, rfl, rfl, rfl⟩

theorem irq_ep1 (cb : Callbacks) (status : Word) (v : Usb) : (if status &&& intEp1In ≠ 0 then
    usbHandleEp1In cb (if status &&& intEp1Out ≠ 0 then usbHandleEp1Out cb v else v)
  else if status &&& intEp1Out ≠ 0 then usbHandleEp1Out cb v else v).ep0 = v.ep0 := by
  split <;> split <;> rfl

/-- The state in which endpoint zero's part of the handler finds the driver, with a SETUP to handle. -/
theorem irq_ep0 (cb : Callbacks) (h : SetupPending u) (hdev : u.intstat &&& u.inten &&& intDev = 0) :
    ∃ v : Usb, (v.ep0 = u.ep0 ∧ v.setupBuf = u.setupBuf ∧ v.online = u.online ∧ v.desc = u.desc) ∧
    (handleIrqUsbIrq cb u).ep0 = if u.intstat &&& u.inten &&& intEp0In ≠ 0 then
      (usbHandleEp0In (usbHandleSetupReq cb v.takeSetup v.takeSetup.setupBuf)).ep0
    else (usbHandleSetupReq cb v.takeSetup v.takeSetup.setupBuf).ep0 := by
  obtain ⟨hout, hsetup⟩ := h
  obtain ⟨w, hw, hep0, hbuf, honline, hdesc, hcmdstat⟩ := irq_frame u
  refine ⟨w.clearInt intEp0Out, ⟨hep0, hbuf, honline, hdesc⟩, ?_⟩
  have hseen : usbHandleEp0Out cb w = usbHandleSetupReq cb (w.clearInt intEp0Out).takeSetup
      (w.clearInt intEp0Out).takeSetup.setupBuf := if_pos (hcmdstat ▸ hsetup)
  unfold handleIrqUsbIrq
  dsimp only
  rw [hw, if_neg (not_not.mpr hdev), if_pos hout, hseen, irq_ep1]
  split <;> rfl

/-- Behind the handling of a change of the device there is no SETUP left to see. -/
theorem irq_dev (cb : Callbacks) (h : SetupPending u) (hdev : u.intstat &&& u.inten &&& intDev ≠ 0) :
    ∃ v : Usb, v.ep0 = u.ep0 ∧ (handleIrqUsbIrq cb u).ep0 =
      if u.intstat &&& u.inten &&& intEp0In ≠ 0 then (usbHandleEp0In v).ep0 else v.ep0 := by
  obtain ⟨hout, -⟩ := h
  obtain ⟨w, hw, hep0, -⟩ := irq_frame u
  have hunseen : usbHandleEp0Out cb (usbHandleDevInt w) =
      { (usbHandleDevInt w).clearInt intEp0Out with outStall := false } :=
    if_neg (not_not.mpr (usbHandleDevInt_setup w))
  refine ⟨{ (usbHandleDevInt w).clearInt intEp0Out with outStall := false }, ?_, ?_⟩
  · exact (usbHandleDevInt_ep0 w).trans hep0
  · unfold handleIrqUsbIrq
    dsimp only
    rw [hw, if_pos hdev, if_pos hout, hunseen, irq_ep1]
    split <;> rfl

/-- With the device's interrupt the entry is what it was, unless a completion empties it. -/
theorem armed_dev_iff (cb : Callbacks) (h : SetupPending u)
    (hdev : u.intstat &&& u.inten &&& intDev ≠ 0) :
    Armed (handleIrqUsbIrq cb u) data ↔ u.intstat &&& u.inten &&& intEp0In = 0 ∧ Armed u data := by
  obtain ⟨v, hep0, hirq⟩ := irq_dev cb h hdev
  by_cases hin : u.intstat &&& u.inten &&& intEp0In ≠ 0
  · rw [Armed, hirq, if_pos hin, usbHandleEp0In_inactive]
    exact ⟨fun harmed => absurd harmed.1 (by decide), fun hseparate => absurd hseparate.1 hin⟩
  · rw [Armed, hirq, if_neg hin, hep0]
    exact ⟨fun harmed => ⟨not_not.mp hin, harmed⟩, fun hseparate => hseparate.2⟩

/-- A SETUP handled when nothing is being sent, in an interrupt that tells of no completion, is
answered; any other is not. -/
theorem armed_setup_iff (hsized : Sized u) (cb : Callbacks) (h : SetupPending u)
    (hdev : u.intstat &&& u.inten &&& intDev = 0) (hdata : response u u.setupBuf = some data) :
    Armed (handleIrqUsbIrq cb u) data ↔ u.intstat &&& u.inten &&& intEp0In = 0 ∧ u.ep0.inLen < 0 := by
  obtain ⟨v, ⟨hep0, hbuf, honline, hdesc⟩, hirq⟩ := irq_ep0 cb h hdev
  -- taking the SETUP changes neither the sizes nor what is being sent
  have htaken : Sized v.takeSetup := by
    constructor
    · show v.ep0.inSize = 64
      rw [hep0, hsized.inSize]
    · show v.ep0.inMaxPacket = 64
      rw [hep0, hsized.inMaxPacket]
  have hidle : v.takeSetup.ep0.inLen = u.ep0.inLen := by
    show v.ep0.inLen = _
    rw [hep0]
  obtain ⟨hwrite, hlen⟩ : usbHandleSetupReq cb v.takeSetup v.takeSetup.setupBuf =
      usbEp0Write v.takeSetup data ∧ data.length ≤ 64 := by
    apply usbHandleSetupReq_response htaken
    have honline' : v.takeSetup.online = u.online := honline
    have hdesc' : v.takeSetup.desc = u.desc := hdesc
    have hbuf' : v.takeSetup.setupBuf = u.setupBuf := hbuf
    rw [← hdata, hbuf', response, response, htaken.inSize, hsized.inSize, honline', hdesc']
  rw [Armed, hirq, hwrite]
  by_cases hin : u.intstat &&& u.inten &&& intEp0In ≠ 0
  · rw [if_pos hin, usbHandleEp0In_inactive]
    exact ⟨fun harmed => absurd harmed.1 (by decide), fun hseparate => absurd hseparate.1 hin⟩
  · rw [if_neg hin]
    constructor
    · intro harmed
      refine ⟨not_not.mp hin, ?_⟩
      by_contra hbusy
      have hfits : data.length ≤ v.takeSetup.ep0.inSize := htaken.inSize ▸ hlen
      rw [usbEp0Write_busy hfits (hidle ▸ Int.not_lt.mp hbusy)] at harmed
      exact absurd (show false = true from harmed.1) (by decide)
    · intro hseparate
      exact (usbEp0Write_armed htaken (hidle ▸ hseparate.2) hlen).1

theorem answers_iff (h : Sized u) (cb : Callbacks) (e : Event) : Answers cb u e ↔ Separate u e := by
  cases e with
  | irq =>
    refine forall_congr' fun hpending => forall_congr' fun data => forall_congr' fun hdata => ?_
    by_cases hdev : u.intstat &&& u.inten &&& intDev ≠ 0
    · rw [if_pos hdev]
      exact armed_dev_iff cb hpending hdev
    · rw [if_neg hdev]
      exact armed_setup_iff h cb hpending (not_not.mp hdev) hdata
  | setup | inDone | outDone | reset | ep1Out | ep1In => exact Iff.rfl

theorem usbInit_sized (vid pid : BitVec 16) (mfg prod : Option (List Byte)) :
    Sized (usbInit vid pid mfg prod) := ⟨rfl, rfl⟩

/-- In a run from `usb_init` on the handler answers every supported request that waits for it, exactly
where each comes with the completion of the response before it seen, in an interrupt of its own. -/
theorem setup_answered_iff (cb : Callbacks) (vid pid : BitVec 16) (mfg prod : Option (List Byte))
    (es : List Event) (u : Usb) :
    Run (usbStep cb) (Answers cb) (usbInit vid pid mfg prod) es u ↔
      Run (usbStep cb) Separate (usbInit vid pid mfg prod) es u := by
  constructor
  · intro h
    exact h.strengthen Sized (fun s e s' hs hC hstep => ⟨hs.step hstep, (answers_iff hs cb e).mp hC⟩)
      (usbInit_sized vid pid mfg prod)
  · intro h
    exact h.strengthen Sized (fun s e s' hs hC hstep => ⟨hs.step hstep, (answers_iff hs cb e).mpr hC⟩)
      (usbInit_sized vid pid mfg prod)

/-- A request for the device descriptor. -/
def getDevice : SetupReq := ⟨0x80, 6, 0x0100, 0, 18⟩

/-- The host gives up on a request and sends it again: the second is not answered. -/
theorem repeated_setup_dropped : ∃ u,
    Run (usbStep ⟨id, id, id⟩) (fun _ _ => True) (usbInit 0x18d1 0x6502 none none)
      [.setup getDevice, .irq, .setup getDevice] u ∧
    ¬ Answers ⟨id, id, id⟩ u .irq := by
  refine ⟨_, .cons trivial rfl (.cons trivial rfl (.cons trivial rfl (.nil _))), fun h => ?_⟩
  have harmed := h ⟨by decide, by decide⟩ _ rfl
  exact absurd harmed.1 (by decide)

end M3Dev.UsbControl
