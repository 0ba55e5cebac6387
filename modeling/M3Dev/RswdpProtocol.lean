import M3Dev.Machine
import Mathlib.Data.Nat.Notation
import Mathlib.Tactic.IntervalCases
import Mathlib.Tactic.NormNum

/-! The remote serial wire debug protocol: message words, command codes, and the
SWD and AHB-AP register names that host and device share. -/
namespace M3Dev.Rswdp

/-! ### Message words -/

def rswdMsg (cmd op n : Word) : Word :=
  ((cmd &&& 0xFF) <<< 24) ||| ((op &&& 0xFF) <<< 16) ||| (n &&& 0xFFFF)

def rswdMsgCmd (n : Word) : Word := (n >>> 24) &&& 0xFF

def rswdMsgOp (n : Word) : Word := (n >>> 16) &&& 0xFF

def rswdMsgArg (n : Word) : Word := n &&& 0xFFFF

def rswdTxnStart (seq : BitVec 16) : Word := 0xAA770000 ||| seq.setWidth 32

def rswdTxnAsync : Word := 0xAA001111

@[simp] theorem rswdMsgCmd_rswdMsg (cmd op n : Word) :
    rswdMsgCmd (rswdMsg cmd op n) = cmd &&& 0xFF := by
  unfold rswdMsgCmd rswdMsg
  apply BitVec.eq_of_getLsbD_eq
  intro i hi
  interval_cases i <;> simp

@[simp] theorem rswdMsgOp_rswdMsg (cmd op n : Word) :
    rswdMsgOp (rswdMsg cmd op n) = op &&& 0xFF := by
  unfold rswdMsgOp rswdMsg
  apply BitVec.eq_of_getLsbD_eq
  intro i hi
  interval_cases i <;> simp

@[simp] theorem rswdMsgArg_rswdMsg (cmd op n : Word) :
    rswdMsgArg (rswdMsg cmd op n) = n &&& 0xFFFF := by
  unfold rswdMsgArg rswdMsg
  apply BitVec.eq_of_getLsbD_eq
  intro i hi
  interval_cases i <;> simp

/-- Every transaction id passes the check of the probe's main loop. -/
theorem rswdTxnStart_frame (seq : BitVec 16) :
    rswdTxnStart seq &&& 0xFFFF0000 = 0xAA770000 := by
  unfold rswdTxnStart
  apply BitVec.eq_of_getLsbD_eq
  intro i hi
  interval_cases i <;> simp

/-- Masking with the low `k` bits is reduction modulo `2 ^ k`. -/
theorem toNat_and_low (w : Word) (k : ℕ) (hk : k ≤ 32) :
    (w &&& BitVec.ofNat 32 (2 ^ k - 1)).toNat = w.toNat % 2 ^ k := by
  have hlt : 2 ^ k - 1 < 2 ^ 32 := by
    have := Nat.pow_le_pow_right (n := 2) (by decide) hk
    have := Nat.two_pow_pos k
    omega
  rw [BitVec.toNat_and, BitVec.toNat_ofNat, Nat.mod_eq_of_lt hlt, Nat.and_two_pow_sub_one_eq_mod]

theorem toNat_and_ff (w : Word) : (w &&& 0xFF).toNat = w.toNat % 256 :=
  toNat_and_low w 8 (by decide)

theorem toNat_and_ffff (w : Word) : (w &&& 0xFFFF).toNat = w.toNat % 65536 :=
  toNat_and_low w 16 (by decide)

/-- The count field of a header built from a count that fits it. -/
theorem rswdMsgArg_count (cmd op : Word) (n : ℕ) (hn : n < 65536) :
    (rswdMsgArg (rswdMsg cmd op (BitVec.ofNat 32 n))).toNat = n := by
  rw [rswdMsgArg_rswdMsg, toNat_and_ffff, BitVec.toNat_ofNat]
  omega

/-! ### Command codes -/

-- valid: either
abbrev cmdNull : Word := 0x00
-- valid: host to target
abbrev cmdSwdWrite : Word := 0x01
abbrev cmdSwdRead : Word := 0x02
abbrev cmdSwdDiscard : Word := 0x03
abbrev cmdAttach : Word := 0x04
abbrev cmdReset : Word := 0x05
abbrev cmdDownload : Word := 0x06
abbrev cmdExecute : Word := 0x07
abbrev cmdTrace : Word := 0x08
abbrev cmdBootloader : Word := 0x09
abbrev cmdSetClock : Word := 0x0A
-- valid: target to host
abbrev cmdStatus : Word := 0x10
abbrev cmdSwdData : Word := 0x11
abbrev cmdSwoData : Word := 0x12
-- valid: target to host async
abbrev cmdDebugPrint : Word := 0x20
-- valid: bidirectional query/config messages
abbrev cmdVersion : Word := 0x30
abbrev cmdBuildStr : Word := 0x31
abbrev cmdBoardStr : Word := 0x32
abbrev cmdRxMaxdata : Word := 0x33
abbrev cmdClockKhz : Word := 0x34

/-! ### SWD operations and registers -/

abbrev opRd : Word := 0x00
abbrev opWr : Word := 0x01
abbrev opDp : Word := 0x00
abbrev opAp : Word := 0x02
abbrev opX0 : Word := 0x00
abbrev opX4 : Word := 0x04
abbrev opX8 : Word := 0x08
abbrev opXC : Word := 0x0C

abbrev dpIdcode : Word := opDp ||| opX0
abbrev dpAbort : Word := opDp ||| opX0
abbrev dpDpctrl : Word := opDp ||| opX4
abbrev dpResend : Word := opDp ||| opX8
abbrev dpSelect : Word := opDp ||| opX8
abbrev dpBuffer : Word := opDp ||| opXC

abbrev ahbCsw : Word := 0x00
abbrev ahbTar : Word := 0x04
abbrev ahbDrw : Word := 0x0C

abbrev ahbCswMdebug : Word := 1 <<< 29
abbrev ahbCswPriv : Word := 1 <<< 25
abbrev ahbCswDbgEn : Word := 1 <<< 6
abbrev ahbCswIncSingle : Word := 1 <<< 4
abbrev ahbCsw32bit : Word := 2 <<< 0

end M3Dev.Rswdp
