import M3Dev.GdbPacket
import Mathlib.Logic.Function.Basic

/-! `gdb_recv`: packets out of the byte stream from gdb. -/
namespace M3Dev.Gdb
variable {θ : Type}

/-! ### strtoul -/

def isSpace (c : Byte) : Bool := c == 0x20 || (0x09 ≤ c && c ≤ 0x0d)

def hexValue (c : Byte) : Option ℕ :=
  if 0x30 ≤ c ∧ c ≤ 0x39 then some (c.toNat - 0x30)
  else if 0x61 ≤ c ∧ c ≤ 0x66 then some (c.toNat - 0x61 + 10)
  else if 0x41 ≤ c ∧ c ≤ 0x46 then some (c.toNat - 0x41 + 10)
  else none

/-- The value of the digits the string starts with. -/
def hexPrefix : ℕ → List Byte → ℕ
  | v, [] => v
  | v, c :: cs =>
    match hexValue c with
    | some d => hexPrefix (16 * v + d) cs
    | none => v

/-- An optional 0x that a digit follows. -/
def skip0x : List Byte → List Byte
  | 0x30 :: x :: d :: cs =>
    if (x = 0x78 ∨ x = 0x58) ∧ (hexValue d).isSome then d :: cs else 0x30 :: x :: d :: cs
  | cs => cs

/-- `strtoul(s, NULL, 16)` of a string too short to overflow. -/
def strtoul16 (s : List Byte) : ℕ :=
  match s.dropWhile isSpace with
  | 0x2d :: cs => (2 ^ 64 - hexPrefix 0 (skip0x cs)) % 2 ^ 64
  | 0x2b :: cs => hexPrefix 0 (skip0x cs)
  | cs => hexPrefix 0 (skip0x cs)

theorem strtoul16_hex2 (b : Byte) : strtoul16 (text (hex2 b ++ [0])) = b.toNat := by
  revert b
  decide

/-! ### gdb_recv -/

inductive RecvState where
  | idle | recv | chk1 | chk2
  deriving Repr, DecidableEq

/-- `struct gdbcnxn`; `rxptr` counts from the start of `rxbuf`. -/
structure GdbCnxn (θ : Type) extends GdbSide θ where
  state : RecvState
  rxsum : Word
  rxptr : ℕ
  rxbuf : ℕ → Byte
  chk0 : Byte
  chk1 : Byte
  chk2 : Byte

/-- `handle_command` on the receive buffer: it decodes in the buffer and uses the
sending side, and has no business with the fields of the receiver. -/
abbrev Handler (θ : Type) := (ℕ → Byte) → GdbSide θ → (ℕ → Byte) × GdbSide θ

namespace GdbCnxn

def rxFull (gc : GdbCnxn θ) : Bool := gc.rxptr == maxpkt - 1

/-- `rxbuf[i] = c` -/
def store (gc : GdbCnxn θ) (i : ℕ) (c : Byte) : Except Stop (GdbCnxn θ) :=
  if i < maxpkt then .ok { gc with rxbuf := Function.update gc.rxbuf i c }
  else .error .outOfBounds

/-- `if (gc->flags & F_ACK) write(gc->fd, &c, 1)` -/
def ack (gc : GdbCnxn θ) (c : Byte) : GdbCnxn θ :=
  if gc.flags &&& fAck ≠ 0 then { gc with sent := gc.sent ++ [c] } else gc

def gdbRecvCmd (handle : Handler θ) (gc : GdbCnxn θ) : GdbCnxn θ :=
  let r := handle gc.rxbuf gc.toGdbSide
  { gc with toGdbSide := r.2, rxbuf := r.1 }

/-- One byte of the stream: the connection after it, and the receive buffer as it was
handed to `handle_command`, if it was. -/
def gdbRecvByte (handle : Handler θ) (gc : GdbCnxn θ) (c : Byte) :
    Except Stop (GdbCnxn θ × List (ℕ → Byte)) :=
  match gc.state with
  | .idle =>
    if c = 3 then do
      let gc ← gc.store 0 0x24
      let gc ← gc.store 1 0
      return (gc.gdbRecvCmd handle, [gc.rxbuf])
    else if c = 0x24 then .ok ({ gc with state := .recv, rxsum := 0, rxptr := 0 }, [])
    else .ok (gc, [])
  | .recv =>
    if c = 0x23 then .ok ({ gc with state := .chk1 }, [])
    else if gc.rxFull then .ok ({ gc with rxptr := 0, state := .idle }, [])
    else do
      let gc ← gc.store gc.rxptr c
      return ({ gc with rxptr := gc.rxptr + 1, rxsum := gc.rxsum + c.setWidth 32 }, [])
  | .chk1 => .ok ({ gc with chk0 := c, state := .chk2 }, [])
  | .chk2 => do
    let gc ← { gc with chk1 := c, state := .idle }.store gc.rxptr 0
    let gc := { gc with rxptr := gc.rxptr + 1 }
    if strtoul16 (text [gc.chk0, gc.chk1, gc.chk2]) = (gc.rxsum &&& 0xFF).toNat then
      return ((gc.ack 0x2b).gdbRecvCmd handle, [gc.rxbuf])
    else return (gc.ack 0x2d, [])

/-- A call of `gdb_recv`; it always takes its whole buffer. -/
def gdbRecv (handle : Handler θ) (gc : GdbCnxn θ) :
    List Byte → Except Stop (GdbCnxn θ × List (ℕ → Byte))
  | [] => .ok (gc, [])
  | c :: cs => do
    let r ← gc.gdbRecvByte handle c
    let q ← r.1.gdbRecv handle cs
    return (q.1, r.2 ++ q.2)

/-- Call after call. -/
def gdbRecvs (handle : Handler θ) (gc : GdbCnxn θ) :
    List (List Byte) → Except Stop (GdbCnxn θ × List (ℕ → Byte))
  | [] => .ok (gc, [])
  | chunk :: chunks => do
    let r ← gc.gdbRecv handle chunk
    let q ← r.1.gdbRecvs handle chunks
    return (q.1, r.2 ++ q.2)

/-! ### Stores stay in the buffer -/

/-- Inside a packet there is room for one more byte. -/
def RxOk (gc : GdbCnxn θ) : Prop := gc.state ≠ .idle → gc.rxptr < maxpkt

theorem store_ok {gc : GdbCnxn θ} {i : ℕ} (h : i < maxpkt) (c : Byte) :
    gc.store i c = .ok { gc with rxbuf := Function.update gc.rxbuf i c } :=
  if_pos h

@[simp] theorem ack_state (gc : GdbCnxn θ) (c : Byte) : (gc.ack c).state = gc.state := by
  unfold ack
  split_ifs <;> rfl

@[simp] theorem ack_chk2 (gc : GdbCnxn θ) (c : Byte) : (gc.ack c).chk2 = gc.chk2 := by
  unfold ack
  split_ifs <;> rfl

theorem gdbRecvByte_ok (handle : Handler θ) (gc : GdbCnxn θ) (c : Byte) (h : gc.RxOk) :
    ∃ r, gc.gdbRecvByte handle c = .ok r ∧ r.1.RxOk := by
  unfold gdbRecvByte
  cases hs : gc.state with
  | idle =>
    simp only
    split_ifs
    · rw [store_ok (by decide)]
      refine ⟨_, rfl, ?_⟩
      intro hne
      exact absurd hs hne
    · exact ⟨_, rfl, fun _ => show 0 < maxpkt by decide⟩
    · exact ⟨_, rfl, h⟩
  | recv =>
    have hlt := h (by rw [hs]; decide)
    simp only
    split_ifs with hc hfull
    · exact ⟨_, rfl, fun _ => hlt⟩
    · exact ⟨_, rfl, fun hne => absurd rfl hne⟩
    · rw [store_ok hlt]
      refine ⟨_, rfl, ?_⟩
      intro _
      simp only [rxFull, beq_iff_eq] at hfull
      show gc.rxptr + 1 < maxpkt
      simp only [maxpkt] at hlt hfull ⊢
      omega
  | chk1 =>
    have hlt := h (by rw [hs]; decide)
    exact ⟨_, rfl, fun _ => hlt⟩
  | chk2 =>
    have hlt := h (by rw [hs]; decide)
    simp only
    rw [store_ok hlt]
    simp only [bind, Except.bind]
    split_ifs
    · exact ⟨_, rfl, fun hne => absurd (ack_state _ _) hne⟩
    · exact ⟨_, rfl, fun hne => absurd (ack_state _ _) hne⟩

theorem gdbRecv_ok (handle : Handler θ) (gc : GdbCnxn θ) (cs : List Byte) (h : gc.RxOk) :
    ∃ r, gc.gdbRecv handle cs = .ok r ∧ r.1.RxOk := by
  induction cs generalizing gc with
  | nil => exact ⟨_, rfl, h⟩
  | cons c cs ih =>
    obtain ⟨r, hr, hr'⟩ := gdbRecvByte_ok handle gc c h
    obtain ⟨q, hq, hq'⟩ := ih r.1 hr'
    refine ⟨(q.1, r.2 ++ q.2), ?_, hq'⟩
    simp only [gdbRecv, hr, hq, bind, Except.bind, pure, Except.pure]

theorem gdbRecv_append (handle : Handler θ) (gc : GdbCnxn θ) (xs ys : List Byte) :
    gc.gdbRecv handle (xs ++ ys) = (do
      let r ← gc.gdbRecv handle xs
      let q ← r.1.gdbRecv handle ys
      return (q.1, r.2 ++ q.2)) := by
  induction xs generalizing gc with
  | nil =>
    cases h : gc.gdbRecv handle ys <;>
      simp [gdbRecv, h, bind, Except.bind, pure, Except.pure]
  | cons c cs ih =>
    simp only [List.cons_append, gdbRecv, ih, bind, Except.bind, pure, Except.pure]
    cases gc.gdbRecvByte handle c with
    | error e => rfl
    | ok r =>
      simp only
      cases r.1.gdbRecv handle cs with
      | error e => rfl
      | ok q =>
        simp only
        cases q.1.gdbRecv handle ys with
        | error e => rfl
        | ok p => simp only [List.append_assoc]

/-- How the stream is cut into calls makes no difference. -/
theorem gdbRecvs_eq (handle : Handler θ) (gc : GdbCnxn θ) (chunks : List (List Byte)) :
    gc.gdbRecvs handle chunks = gc.gdbRecv handle chunks.flatten := by
  induction chunks generalizing gc with
  | nil => rfl
  | cons chunk chunks ih =>
    simp only [gdbRecvs, ih, List.flatten_cons, gdbRecv_append]

end GdbCnxn

end M3Dev.Gdb
