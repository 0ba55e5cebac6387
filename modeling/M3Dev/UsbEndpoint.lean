import M3Dev.Buffer
import Mathlib.Data.Int.Notation
import Mathlib.Data.BitVec

/-! Endpoint one of the second LPC13xx driver, `arch/lpc13xx/usb-v2.c`. -/
namespace M3Dev.UsbV2
open Buffer

abbrev Byte := BitVec 8

abbrev efail : ℤ := 1
abbrev ebusy : ℤ := 2

/-- An entry of `usb_ep_list`: where in the buffer, how many bytes, and whether the controller is
to use it. -/
structure EpCmd where
  addr : ℕ
  size : ℕ
  active : Bool
  deriving DecidableEq

/-- `struct usb_ep`, with the contents of its two buffers and its two entries of `usb_ep_list`. -/
structure UsbEp where
  addr : ℕ
  inSize : ℕ
  inMaxPacket : ℕ
  inLen : ℤ
  inPos : ℕ
  outSize : ℕ
  outLen : ℕ
  outPos : ℕ
  outBuf : ℕ → Byte
  inBuf : ℕ → Byte
  outCmd : EpCmd
  inCmd : EpCmd

/-- The address is given in units of 64 bytes, and the buffer starts at one; the size has ten
bits. -/
def epCmd (pos size : ℕ) : EpCmd := ⟨pos / 64 * 64, size % 1024, true⟩

def usbSetupEp (addr inBufSize inMaxPacket outBufSize : ℕ) : UsbEp where
  addr := addr
  inSize := inBufSize
  inMaxPacket := inMaxPacket
  inLen := -1
  inPos := 0
  outSize := outBufSize
  outLen := 0
  outPos := 0
  outBuf := fun _ => 0
  inBuf := fun _ => 0
  outCmd := ⟨0, 0, false⟩
  inCmd := ⟨0, 0, false⟩

/-- Endpoint one, as `usb_init` sets it up. -/
def usbInitEp1 : UsbEp := usbSetupEp 1 128 64 64

/-! ### Sending -/

def usbSendIn (ep : UsbEp) : UsbEp :=
  { ep with inCmd := epCmd ep.inPos (min ep.inLen ep.inMaxPacket).toNat }

def usbSendZlp (ep : UsbEp) : UsbEp := usbSendIn { ep with inPos := 0, inLen := 0 }

def usbEpWrite (ep : UsbEp) (data : List Byte) : ℤ × UsbEp :=
  if ep.inSize < data.length then
    (-efail, ep)
  else if 0 ≤ ep.inLen then
    (-ebusy, ep)
  else
    (0, usbSendIn { ep with inBuf := put ep.inBuf 0 data, inLen := data.length, inPos := 0 })

/-- The state behind `usb_handle_in`, and whether it calls the callback of the empty endpoint. -/
def usbHandleIn (ep : UsbEp) : UsbEp × Bool :=
  let pos : ℤ := ep.inPos - ep.inMaxPacket
  if pos < 0 then
    ({ ep with inPos := 0, inLen := -1 }, true)
  else if pos = 0 then
    (usbSendZlp { ep with inPos := 0 }, false)
  else
    (usbSendIn { ep with inPos := pos.toNat }, false)

/-- The packet that the controller takes from an active entry. -/
def inPacket (ep : UsbEp) : List Byte := get ep.inBuf ep.inCmd.addr ep.inCmd.size

/-- The controller is done with the entry. -/
def UsbEp.inDone (ep : UsbEp) : UsbEp := { ep with inCmd := { ep.inCmd with active := false } }

/-- The controller sends, and the handler of its interrupt runs, up to the callback of the empty
endpoint: the packets, and the state at the callback. -/
def inTransfer : ℕ → UsbEp → Option (List (List Byte) × UsbEp)
  | 0, _ => none
  | fuel + 1, ep =>
    if ep.inCmd.active then
      match usbHandleIn ep.inDone with
      | (ep', true) => some ([inPacket ep], ep')
      | (ep', false) => (inTransfer fuel ep').map fun r => (inPacket ep :: r.1, r.2)
    else
      none

/-- Endpoint one at any time. -/
structure IsEp1 (ep : UsbEp) : Prop where
  inSize : ep.inSize = 128
  inMaxPacket : ep.inMaxPacket = 64

/-- The packets carry the data, and no packet is too large. -/
def Carries (ep : UsbEp) (data : List Byte) (packets : List (List Byte)) : Prop :=
  packets.flatten = data ∧ ∀ p ∈ packets, p.length ≤ ep.inMaxPacket

variable {ep : UsbEp} {data : List Byte}

/-- What there is to send after an accepted write. -/
theorem usbEpWrite_accepts (h : (usbEpWrite ep data).1 = 0) :
    data.length ≤ ep.inSize ∧ (usbEpWrite ep data).2 =
      usbSendIn { ep with inBuf := put ep.inBuf 0 data, inLen := data.length, inPos := 0 } := by
  unfold usbEpWrite at *
  by_cases hsize : ep.inSize < data.length
  · rw [if_pos hsize] at h
    exact absurd (show (-efail : ℤ) = 0 from h) (by decide)
  · by_cases hbusy : 0 ≤ ep.inLen
    · rw [if_neg hsize, if_pos hbusy] at h
      exact absurd (show (-ebusy : ℤ) = 0 from h) (by decide)
    · rw [if_neg hsize, if_neg hbusy]
      exact ⟨Nat.not_lt.mp hsize, rfl⟩

/-- `in_pos` is never past the first packet, so that one is taken for the last. -/
theorem usbHandleIn_first (ep : UsbEp) (hpos : ep.inPos = 0) (hmax : 0 < ep.inMaxPacket) :
    usbHandleIn ep = ({ ep with inPos := 0, inLen := -1 }, true) := by
  have hneg : (ep.inPos : ℤ) - ep.inMaxPacket < 0 := by
    rw [hpos]
    omega
  exact if_pos hneg

theorem inTransfer_first (ep : UsbEp) (hpos : ep.inPos = 0) (hmax : 0 < ep.inMaxPacket)
    (hactive : ep.inCmd.active = true) (fuel : ℕ) :
    ∃ ep', inTransfer (fuel + 1) ep = some ([inPacket ep], ep') ∧ ep'.inLen = -1 := by
  refine ⟨{ ep.inDone with inPos := 0, inLen := -1 }, ?_, rfl⟩
  rw [inTransfer, if_pos hactive, usbHandleIn_first ep.inDone hpos hmax]

/-- Only the first packet goes out. -/
theorem inTransfer_write (hep : IsEp1 ep) (haccept : (usbEpWrite ep data).1 = 0) (fuel : ℕ) :
    ∃ ep', inTransfer (fuel + 1) (usbEpWrite ep data).2 = some ([data.take 64], ep') ∧ ep'.inLen = -1 := by
  obtain ⟨_, hwrite⟩ := usbEpWrite_accepts haccept
  have hsize : (min (data.length : ℤ) ep.inMaxPacket).toNat % 1024 = min 64 data.length := by
    rw [hep.inMaxPacket]
    omega
  have hmax : 0 < ep.inMaxPacket := by
    rw [hep.inMaxPacket]
    decide
  have hpacket : inPacket (usbEpWrite ep data).2 = data.take 64 := by
    have hzero : 0 / 64 * 64 = 0 := rfl
    rw [hwrite, inPacket, usbSendIn, epCmd]
    dsimp only
    rw [hsize, hzero, get_put (Nat.min_le_right _ _), ← List.take_eq_take_min]
  rw [← hpacket, hwrite]
  apply inTransfer_first
  · rfl
  · exact hmax
  · rfl

/-- An accepted write is carried to the end exactly where one packet suffices. -/
theorem usbEpWrite_carries_iff (hep : IsEp1 ep) (haccept : (usbEpWrite ep data).1 = 0) (fuel : ℕ) :
    ∃ packets ep', inTransfer (fuel + 1) (usbEpWrite ep data).2 = some (packets, ep') ∧
      ep'.inLen = -1 ∧ (Carries ep data packets ↔ data.length ≤ ep.inMaxPacket) := by
  obtain ⟨ep', hrun, hlen⟩ := inTransfer_write hep haccept fuel
  refine ⟨_, ep', hrun, hlen, ?_⟩
  rw [hep.inMaxPacket]
  constructor
  · rintro ⟨hflat, _⟩
    have htake : data.take 64 = data := by simpa using hflat
    have hle := List.length_take_le 64 data
    rwa [htake] at hle
  · intro hle
    have htake : data.take 64 = data := List.take_of_length_le hle
    refine ⟨by simp [htake], ?_⟩
    intro p hp
    rw [List.mem_singleton.mp hp, hep.inMaxPacket]
    exact List.length_take_le 64 data

theorem usbEpWrite_carries_iff_three : ∃ packets ep',
    inTransfer 1 (usbEpWrite usbInitEp1 [0x12, 0x34, 0x56]).2 = some (packets, ep') ∧ ep'.inLen = -1 ∧
      (Carries usbInitEp1 [0x12, 0x34, 0x56] packets ↔ 3 ≤ 64) :=
  usbEpWrite_carries_iff ⟨rfl, rfl⟩ rfl 0

/-- Of 65 bytes the last one is lost. -/
theorem last_byte_lost : ¬ ∀ ep data packets ep', IsEp1 ep → (usbEpWrite ep data).1 = 0 →
    inTransfer 2 (usbEpWrite ep data).2 = some (packets, ep') → Carries ep data packets := by
  intro h
  have hep : IsEp1 usbInitEp1 := ⟨rfl, rfl⟩
  have haccept : (usbEpWrite usbInitEp1 (List.replicate 65 0)).1 = 0 := rfl
  obtain ⟨ep', hrun, _⟩ := inTransfer_write hep haccept 1
  have hflat := (h _ _ _ _ hep haccept hrun).1
  exact absurd (congrArg List.length hflat) (by decide)

end M3Dev.UsbV2
