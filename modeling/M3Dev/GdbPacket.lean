import M3Dev.Machine
import Mathlib.Tactic.SplitIfs
import Mathlib.Algebra.BigOperators.Group.List.Basic
import Mathlib.Algebra.Ring.Nat
import Mathlib.Data.BitVec

/-! Packets the gdb bridge sends: `gdb_prologue`, the put functions, `gdb_epilogue`. -/
namespace M3Dev.Gdb

def maxpkt : ℕ := 8192

abbrev fAck : Word := 0x01

/-- `struct gdbcnxn` less the fields only `gdb_recv` uses; `tx` holds the bytes from
`txbuf` to `txptr`, `sent` the bytes written to `fd`, and `θ` stands for the thread
lists and what else `handle_command` works on. -/
structure GdbSide (θ : Type) where
  txsum : Word
  flags : Word
  tx : List Byte
  sent : List Byte
  rest : θ

variable {θ : Type}

def txFull (gc : GdbSide θ) : Bool := gc.tx.length == maxpkt - 1

def gdbPutc (gc : GdbSide θ) (n : Word) : GdbSide θ :=
  let c : Byte := n.setWidth 8
  if txFull gc then gc
  else { gc with txsum := gc.txsum + c.setWidth 32, tx := gc.tx ++ [c] }

/-- `s` is the string up to its NUL. -/
def gdbPuts (gc : GdbSide θ) (s : List Byte) : GdbSide θ :=
  s.foldl (fun gc c => gdbPutc gc (c.setWidth 32)) gc

def gdbPrologue (gc : GdbSide θ) : GdbSide θ := { gc with tx := [0x24], txsum := 0 }

def hexDigits : List Byte :=
  [0x30, 0x31, 0x32, 0x33, 0x34, 0x35, 0x36, 0x37, 0x38, 0x39, 0x61, 0x62, 0x63, 0x64, 0x65, 0x66]

/-- `HEX[n]` -/
def hexDigit (n : Byte) : Byte := hexDigits.getD n.toNat 0

/-- `%02x` of a byte -/
def hex2 (b : Byte) : List Byte := [hexDigit (b >>> 4), hexDigit (b &&& 15)]

def gdbPuthex (gc : GdbSide θ) (data : List Byte) : GdbSide θ :=
  data.foldl (fun gc (c : Byte) =>
    gdbPutc (gdbPutc gc ((hexDigit (c >>> 4)).setWidth 32)) ((hexDigit (c &&& 15)).setWidth 32)) gc

/-- What `write` answers: a count, `EINTR`, or another error. -/
inductive WriteResult where
  | wrote (r : ℕ)
  | eintr
  | failed
  deriving Repr

/-- The write loop against the answers of the descriptor: what was written, and
whether the loop has ended with nothing left, or `none` while it waits for more. -/
def writeLoop : List WriteResult → List Byte → List Byte × Option Bool
  | _, [] => ([], some true)
  | [], _ :: _ => ([], none)
  | .wrote r :: rs, p =>
    if r = 0 then ([], some false)
    else
      let q := writeLoop rs (p.drop r)
      (p.take r ++ q.1, q.2)
  | .eintr :: rs, p => writeLoop rs p
  | .failed :: _, _ => ([], some false)

/-- `gdb_epilogue` before its write loop: the packet it is going to write, if it is
not too large. -/
def gdbClose (gc : GdbSide θ) : GdbSide θ × Option (List Byte) :=
  let gc := gdbPuts gc (0x23 :: hex2 (gc.txsum.setWidth 8))
  (gc, if txFull gc then none else some gc.tx)

def gdbEpilogue (answers : List WriteResult) (gc : GdbSide θ) : GdbSide θ :=
  let r := gdbClose gc
  match r.2 with
  | none => r.1
  | some packet => { r.1 with sent := r.1.sent ++ (writeLoop answers packet).1 }

/-! ### Packets -/

inductive PutCall where
  | putc (n : Word)
  | puts (s : List Byte)
  | puthex (data : List Byte)

def PutCall.run (gc : GdbSide θ) : PutCall → GdbSide θ
  | .putc n => gdbPutc gc n
  | .puts s => gdbPuts gc s
  | .puthex data => gdbPuthex gc data

/-- The bytes the call asks for. -/
def PutCall.bytes : PutCall → List Byte
  | .putc n => [n.setWidth 8]
  | .puts s => s
  | .puthex data => data.flatMap hex2

/-- The sum of the bytes, as `txsum` and `rxsum` count it. -/
def byteSum (bs : List Byte) : Word := (bs.map (fun b => b.setWidth 32)).sum

/-- '$' payload '#' and the payload's sum mod 256 in two hex digits. -/
def framed (payload : List Byte) : List Byte :=
  0x24 :: payload ++ 0x23 :: hex2 (BitVec.ofNat 8 ((payload.map BitVec.toNat).sum % 256))

theorem byteSum_append (xs ys : List Byte) : byteSum (xs ++ ys) = byteSum xs + byteSum ys := by
  simp [byteSum]

/-- The low byte of the counted sum is the sum of the bytes modulo 256. -/
theorem byteSum_low (bs : List Byte) :
    (byteSum bs).setWidth 8 = BitVec.ofNat 8 ((bs.map BitVec.toNat).sum % 256) := by
  apply BitVec.eq_of_toNat_eq
  induction bs with
  | nil => rfl
  | cons b bs ih =>
    simp only [byteSum, List.map_cons, List.sum_cons, BitVec.toNat_setWidth, BitVec.toNat_add,
      BitVec.toNat_ofNat] at ih ⊢
    omega

/-- Puts of bytes as the put functions make them, one after another. -/
def putBytes (gc : GdbSide θ) (bs : List Byte) : GdbSide θ :=
  bs.foldl (fun gc c => gdbPutc gc (c.setWidth 32)) gc

theorem putBytes_append (gc : GdbSide θ) (xs ys : List Byte) :
    putBytes gc (xs ++ ys) = putBytes (putBytes gc xs) ys := by
  simp [putBytes]

theorem run_eq_putBytes (gc : GdbSide θ) (call : PutCall) :
    call.run gc = putBytes gc call.bytes := by
  cases call with
  | putc n =>
    simp only [PutCall.run, PutCall.bytes, putBytes, List.foldl_cons, List.foldl_nil, gdbPutc]
    simp
  | puts s => rfl
  | puthex data =>
    simp only [PutCall.run, PutCall.bytes, gdbPuthex]
    induction data generalizing gc with
    | nil => rfl
    | cons c data ih =>
      rw [List.foldl_cons, ih, List.flatMap_cons, putBytes_append]
      rfl

theorem putBytes_sent (gc : GdbSide θ) (bs : List Byte) : (putBytes gc bs).sent = gc.sent := by
  induction bs generalizing gc with
  | nil => rfl
  | cons b bs ih =>
    have hput : (gdbPutc gc (b.setWidth 32)).sent = gc.sent := by
      unfold gdbPutc
      split_ifs <;> rfl
    exact (ih _).trans hput

theorem gdbClose_sent (gc : GdbSide θ) : (gdbClose gc).1.sent = gc.sent :=
  putBytes_sent gc _

/-- With room for them, bytes are put behind what is there. -/
theorem putBytes_eq (gc : GdbSide θ) (bs : List Byte) (h : gc.tx.length + bs.length ≤ maxpkt - 1) :
    putBytes gc bs = { gc with txsum := gc.txsum + byteSum bs, tx := gc.tx ++ bs } := by
  induction bs generalizing gc with
  | nil => simp [putBytes, byteSum]
  | cons b bs ih =>
    rw [List.length_cons] at h
    have hput : gdbPutc gc (b.setWidth 32) =
        { gc with txsum := gc.txsum + b.setWidth 32, tx := gc.tx ++ [b] } := by
      have hroom : txFull gc = false := by
        simp only [txFull, beq_eq_false_iff_ne]
        omega
      simp [gdbPutc, hroom]
    have hrest := ih { gc with txsum := gc.txsum + b.setWidth 32, tx := gc.tx ++ [b] }
      (by simp only [List.length_append, List.length_singleton]; omega)
    have hsum : byteSum (b :: bs) = b.setWidth 32 + byteSum bs := by simp [byteSum]
    have hcons : putBytes gc (b :: bs) = putBytes (gdbPutc gc (b.setWidth 32)) bs := rfl
    rw [hcons, hput, hrest, hsum]
    simp [BitVec.add_assoc]

theorem calls_eq_putBytes (gc : GdbSide θ) (calls : List PutCall) :
    calls.foldl PutCall.run gc = putBytes gc (calls.flatMap PutCall.bytes) := by
  induction calls generalizing gc with
  | nil => rfl
  | cons call calls ih =>
    rw [List.foldl_cons, ih, run_eq_putBytes, List.flatMap_cons, putBytes_append]

/-- A packet of any put calls, with a payload that fits, is the payload framed. -/
theorem gdbClose_framed (gc : GdbSide θ) (calls : List PutCall)
    (h : (calls.flatMap PutCall.bytes).length ≤ 8186) :
    (gdbClose (calls.foldl PutCall.run (gdbPrologue gc))).2 =
      some (framed (calls.flatMap PutCall.bytes)) := by
  rw [calls_eq_putBytes]
  generalize calls.flatMap PutCall.bytes = payload at h ⊢
  have hstart : (gdbPrologue gc).tx.length = 1 := rfl
  obtain ⟨htx, hsum⟩ : (putBytes (gdbPrologue gc) payload).tx = 0x24 :: payload ∧
      (putBytes (gdbPrologue gc) payload).txsum = byteSum payload := by
    rw [putBytes_eq _ _ (by rw [hstart, maxpkt]; omega)]
    exact ⟨rfl, BitVec.zero_add _⟩
  generalize putBytes (gdbPrologue gc) payload = gc' at htx hsum ⊢
  have hclose : (gdbPuts gc' (0x23 :: hex2 (gc'.txsum.setWidth 8))).tx =
      framed payload := by
    have hend := putBytes_eq gc' (0x23 :: hex2 (gc'.txsum.setWidth 8))
      (by simp only [htx, hex2, List.length_cons, List.length_nil, maxpkt]; omega)
    have htx' := congrArg GdbSide.tx hend
    rw [hsum, byteSum_low] at htx'
    rw [hsum, byteSum_low]
    rw [htx] at htx'
    exact htx'
  have hroom : txFull (gdbPuts gc' (0x23 :: hex2 (gc'.txsum.setWidth 8))) = false := by
    rw [txFull, hclose, framed]
    simp only [hex2, List.length_append, List.length_cons, List.length_nil, maxpkt,
      beq_eq_false_iff_ne]
    omega
  simp only [gdbClose, hroom, hclose, Bool.false_eq_true, ↓reduceIte]

/-- What the write loop has written is the beginning of the packet, and all of it when
it has ended well. -/
theorem writeLoop_sends (rs : List WriteResult) (p : List Byte) :
    (writeLoop rs p).1 <+: p ∧ ((writeLoop rs p).2 = some true → (writeLoop rs p).1 = p) := by
  induction rs generalizing p with
  | nil => cases p <;> simp [writeLoop]
  | cons r rs ih =>
    cases p with
    | nil => simp [writeLoop]
    | cons b p =>
      cases r with
      | wrote r =>
        simp only [writeLoop]
        split_ifs with h0
        · simp
        · obtain ⟨hpre, hall⟩ := ih ((b :: p).drop r)
          have hsplit := List.take_append_drop r (b :: p)
          constructor
          · have := (List.prefix_append_right_inj ((b :: p).take r)).mpr hpre
            rwa [hsplit] at this
          · intro hok
            rw [hall hok, hsplit]
      | eintr => exact ih (b :: p)
      | failed => simp [writeLoop]

end M3Dev.Gdb
