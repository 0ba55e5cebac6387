import M3Dev.Machine
import Mathlib.Tactic.SplitIfs

/-! The decoder of the serial wire viewer byte stream. -/
namespace M3Dev.Swo

inductive SwvState where
  | sync | s1x1 | s1x2 | s1x4 | s2x2 | s2x4 | s3x4 | s4x4 | proto | idle
  deriving Repr, DecidableEq

/-- The state as `swv->state = (x & 3)` sets it, by the order of the enumeration. -/
def stateOf (ss : Byte) : SwvState :=
  if ss = 1 then .s1x1 else if ss = 2 then .s1x2 else if ss = 3 then .s1x4 else .sync

/-- `swv_t`; `data` holds the first `ccount` bytes of the array. -/
structure Swv where
  state : SwvState
  zcount : BitVec 32
  id : Word
  val : Word
  data : List Byte
  deriving Repr

def swvInit : Swv := { state := .sync, zcount := 0, id := 0, val := 0, data := [] }

/-- The calls `handle_swv` makes. -/
inductive SwvCall where
  | src (id val : Word) (n : ℕ)
  | proto (data : List Byte)
  deriving Repr, DecidableEq

/-- The switch on the state. -/
def swvSwitch (s : Swv) (x : Byte) : Swv × List SwvCall :=
  let w : Word := x.setWidth 32
  match s.state with
  | .idle =>
    if x &&& 7 ≠ 0 then
      -- AAAAAHSS source packet
      ({ s with id := (w >>> 3) ||| ((w &&& 4) <<< 6), val := 0, state := stateOf (x &&& 3) }, [])
    else if x ≠ 0 then
      -- CXXXXX00 protocol packet
      if x &&& 0x80 ≠ 0 then ({ s with data := [x], state := .proto }, [])
      else ({ s with data := [x] }, [.proto [x]])
    else
      -- 00 packets are for sync, ignore
      (s, [])
  | .proto =>
    let data := s.data ++ [x]
    -- protocol packets end at 7 total bytes or a byte with bit7 clear
    if data.length = 7 ∨ x &&& 0x80 = 0 then
      ({ s with data := data, state := .idle }, [.proto data])
    else ({ s with data := data }, [])
  | .s1x1 => ({ s with state := .idle }, [.src s.id w 1])
  | .s1x2 => ({ s with val := w, state := .s2x2 }, [])
  | .s2x2 => ({ s with state := .idle }, [.src s.id (s.val ||| (w <<< 8)) 2])
  | .s1x4 => ({ s with val := w, state := .s2x4 }, [])
  | .s2x4 => ({ s with val := s.val ||| (w <<< 8), state := .s3x4 }, [])
  | .s3x4 => ({ s with val := s.val ||| (w <<< 16), state := .s4x4 }, [])
  | .s4x4 => ({ s with state := .idle }, [.src s.id (s.val ||| (w <<< 24)) 4])
  | .sync => (s, [])

def handleSwv (s : Swv) (x : Byte) : Swv × List SwvCall :=
  -- any sequence ending in 00 00 00 00 00 80 is a re-sync
  if x = 0 then swvSwitch { s with zcount := s.zcount + 1 } x
  else if 5 ≤ s.zcount ∧ x = 0x80 then ({ s with state := .idle, zcount := 0 }, [])
  else swvSwitch { s with zcount := 0 } x

def processSwoData (s : Swv) : List Byte → Swv × List SwvCall
  | [] => (s, [])
  | x :: xs =>
    let r := handleSwv s x
    let q := processSwoData r.1 xs
    (q.1, r.2 ++ q.2)

theorem processSwoData_append (s : Swv) (xs ys : List Byte) :
    processSwoData s (xs ++ ys) =
      ((processSwoData (processSwoData s xs).1 ys).1,
        (processSwoData s xs).2 ++ (processSwoData (processSwoData s xs).1 ys).2) := by
  induction xs generalizing s with
  | nil => simp [processSwoData]
  | cons x xs ih => simp [processSwoData, ih]

/-! ### The zero counter -/

/-- The zero counter follows the bytes alone, whatever the state. -/
def zcountAfter (z : BitVec 32) (x : Byte) : BitVec 32 := if x = 0 then z + 1 else 0

@[simp] theorem swvSwitch_zcount (s : Swv) (x : Byte) : (swvSwitch s x).1.zcount = s.zcount := by
  unfold swvSwitch
  cases s.state <;> simp only <;> split_ifs <;> rfl

theorem handleSwv_zcount (s : Swv) (x : Byte) :
    (handleSwv s x).1.zcount = zcountAfter s.zcount x := by
  unfold handleSwv zcountAfter
  split_ifs <;> simp

/-- Away from a re-sync a byte goes through the switch. -/
theorem handleSwv_switch (s : Swv) (x : Byte) (h : ¬ (5 ≤ s.zcount ∧ x = 0x80)) :
    handleSwv s x = swvSwitch { s with zcount := zcountAfter s.zcount x } x := by
  unfold handleSwv zcountAfter
  split_ifs <;> rfl

end M3Dev.Swo
