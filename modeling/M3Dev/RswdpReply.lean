import M3Dev.RswdpQueue
import Mathlib.Data.List.TakeDrop
import Mathlib.Data.List.TakeWhile
import Mathlib.Data.Nat.SuccPred
import Mathlib.Algebra.Order.SuccPred

/-! The host's readers of received transactions. Each gets the words from its `data`
pointer up to the end of the receive buffer, and how many of them it may take for
received; going past them is an access outside the buffer. -/
namespace M3Dev.Rswdp

/-- What `%s` prints of the buffer from a pointer on. -/
def cString : List Word → Except Stop (List Byte)
  | [] => .error .outOfBounds
  | w :: ws =>
    if 0 ∈ wordBytes w then .ok (text (wordBytes w))
    else (cString ws).map (fun s => wordBytes w ++ s)

/-! ### process_async -/

/-- What `xprintf` writes of a text: `vsnprintf` cuts it to fit `line[256]`. -/
def printedLine (s : List Byte) : List Byte := s.take 255

inductive AsyncEvent where
  /-- `xprintf(XSWD, "%s", ..)`, as it is written -/
  | print (s : List Byte)
  /-- `process_swo_data` -/
  | swo (data : List Byte)
  deriving Repr

def processAsync (data : List Word) (count : ℕ) : Except Stop (List AsyncEvent) :=
  match count, data with
  | 0, _ => .ok []
  | _ + 1, [] => .error .outOfBounds
  | count + 1, msg :: data =>
    let cmd := rswdMsgCmd msg
    let n := (rswdMsgArg msg).toNat
    if cmd = cmdNull then processAsync data count
    else if cmd = cmdDebugPrint then
      if n > count then .ok []
      -- data[n] is saved, zeroed for the print and put back
      else if n < data.length then
        match cString (data.set n 0), processAsync (data.drop n) (count - n) with
        | .ok s, .ok es => .ok (.print (printedLine s) :: es)
        | .error e, _ => .error e
        | _, .error e => .error e
      else .error .outOfBounds
    else if cmd = cmdSwoData then
      if n > count then .ok []
      else if n ≤ data.length then
        -- no break: the case runs on into `default: return`
        .ok [.swo ((data.take n).flatMap wordBytes)]
      else .error .outOfBounds
    else .ok []
termination_by count

/-! ### process_query -/

structure QueryState where
  board : Option (List Word)
  build : Option (List Word)
  version : ℕ
  maxdata : ℕ
  deriving Repr

def queryInit : QueryState := { board := none, build := none, version := 0x0005, maxdata := 2048 }

def queryLoop : ℕ → List Word → QueryState → Except Stop QueryState
  | 0, _, q => .ok q
  | _ + 1, [], _ => .error .outOfBounds
  | count + 1, msg :: data, q =>
    let cmd := rswdMsgCmd msg
    let n := (rswdMsgArg msg).toNat
    if cmd = cmdNull then queryLoop count data q
    else if cmd = cmdBuildStr then
      if n > count then .ok q else queryLoop count (data.drop n) { q with build := some data }
    else if cmd = cmdBoardStr then
      if n > count then .ok q else queryLoop count (data.drop n) { q with board := some data }
    else if cmd = cmdVersion then queryLoop count data { q with version := n }
    else if cmd = cmdRxMaxdata then queryLoop count data { q with maxdata := n }
    else .ok q

/-- What is printed about the device, and the values kept of it. -/
structure QueryRun where
  boardId : List Byte
  buildId : List Byte
  swdVersion : ℕ
  maxdata : ℕ
  swdMaxwords : ℕ
  deriving Repr

def unknownId : List Byte := [0x75, 0x6e, 0x6b, 0x6e, 0x6f, 0x77, 0x6e]

def idString : Option (List Word) → Except Stop (List Byte)
  | none => .ok unknownId
  | some data => cString data

def queryDone (q : QueryState) : Except Stop QueryRun := do
  let maxdata := if q.maxdata > maxwords * 4 then maxwords * 4 else q.maxdata
  let board ← idString q.board
  let build ← idString q.build
  return { boardId := board, buildId := build, swdVersion := q.version, maxdata := maxdata,
           swdMaxwords := maxdata / 4 }

def processQuery (data : List Word) (count : ℕ) : Except Stop QueryRun := do
  let q ← queryLoop count data queryInit
  queryDone q

/-! ### process_reply -/

inductive ReplyPrint where
  | replyOverrun (n rxc : ℕ)
  | swdError (op : ℕ)
  | swdClock (khz : ℕ)
  | unknownCommand (cmd : Word)
  deriving Repr

/-- What a call of `process_reply` does: the stores through the rx pointers in order,
the new value of `swd_error` if it is set, the lines printed, and the result. -/
structure ReplyRun where
  stores : List (Ptr × Word)
  swdError : Option ℤ
  prints : List ReplyPrint
  ret : ℤ
  deriving Repr

def ReplyRun.stored (ss : List (Ptr × Word)) (r : ReplyRun) : ReplyRun :=
  { r with stores := ss ++ r.stores }

def ReplyRun.printed (p : ReplyPrint) (r : ReplyRun) : ReplyRun :=
  { r with prints := p :: r.prints }

def replyEnd (ret : ℤ) : ReplyRun := { stores := [], swdError := none, prints := [], ret := ret }

/-- `while (n-- > 0) *(t->rx[rxp++]) = *data++;` -/
def replyCopy : ℕ → List Ptr → List Word → Except Stop (List (Ptr × Word))
  | 0, _, _ => .ok []
  | n + 1, p :: rx, w :: data => (replyCopy n rx data).map (fun ss => (p, w) :: ss)
  | _ + 1, _, _ => .error .outOfBounds

/-- The loop of `process_reply` with the pointers not stored to yet in `rx`, so that
`rxc` is the length of `rx`. -/
def replyLoop (verbose : Bool) : ℕ → List Ptr → List Word → Except Stop ReplyRun
  | 0, _, _ => .ok (replyEnd 0)
  | _ + 1, _, [] => .error .outOfBounds
  | count + 1, rx, msg :: data =>
    let cmd := rswdMsgCmd msg
    let op := (rswdMsgOp msg).toNat
    let n := (rswdMsgArg msg).toNat
    if cmd = cmdNull then replyLoop verbose count rx data
    else if cmd = cmdSwdData then
      if n > rx.length then .ok ((replyEnd (-1)).printed (.replyOverrun n rx.length))
      else do
        let ss ← replyCopy n rx data
        let r ← replyLoop verbose count (rx.drop n) (data.drop n)
        return r.stored ss
    else if cmd = cmdStatus then
      if op ≠ 0 then
        .ok { stores := [], swdError := some (-op),
              prints := if verbose then [.swdError op] else [], ret := -op }
      else .ok (replyEnd 0)
    else if cmd = cmdClockKhz then
      (replyLoop verbose count rx data).map (ReplyRun.printed (.swdClock n))
    else .ok ((replyEnd (-1)).printed (.unknownCommand cmd))

def processReply (verbose : Bool) (t : Txn) (data : List Word) (count : ℕ) :
    Except Stop ReplyRun :=
  replyLoop verbose count t.rx data

/-! ### Reading lemmas -/

theorem cString_ends {w : Word} (ws : List Word) (h : 0 ∈ wordBytes w) :
    cString (w :: ws) = .ok (text (wordBytes w)) := if_pos h

theorem cString_goes_on {w : Word} (ws : List Word) (h : 0 ∉ wordBytes w) :
    cString (w :: ws) = (cString ws).map (fun s => wordBytes w ++ s) := if_neg h

theorem cString_words (ws rest : List Word) :
    cString (ws ++ 0 :: rest) = .ok (text (ws.flatMap wordBytes)) := by
  induction ws with
  | nil => rfl
  | cons w ws ih =>
    rw [List.cons_append, List.flatMap_cons]
    by_cases h : 0 ∈ wordBytes w
    · have hne : ¬ ∀ b ∈ wordBytes w, (decide (b ≠ 0)) = true := by
        intro hall
        exact absurd (hall 0 h) (by decide)
      rw [cString_ends _ h, text, text, List.takeWhile_append, if_neg]
      intro hlen
      exact hne (List.takeWhile_eq_self_iff.mp
        ((List.takeWhile_prefix _).eq_of_length hlen))
    · have hall : ∀ b ∈ wordBytes w, (decide (b ≠ 0)) = true := by
        intro b hb
        exact decide_eq_true (fun hz => h (hz ▸ hb))
      rw [cString_goes_on _ h, ih, text, text, List.takeWhile_append_of_pos hall]
      rfl

theorem cString_set (data : List Word) (n : ℕ) (h : n < data.length) :
    cString (data.set n 0) = .ok (text ((data.take n).flatMap wordBytes)) := by
  rw [List.set_eq_take_append_cons_drop, if_pos h, cString_words]

theorem printedLine_eq_self {s : List Byte} : printedLine s = s ↔ s.length ≤ 255 :=
  List.take_eq_self_iff s

theorem processAsync_null {msg : Word} (h : rswdMsgCmd msg = cmdNull) (data : List Word)
    (count : ℕ) : processAsync (msg :: data) (count + 1) = processAsync data count := by
  rw [processAsync]
  simp [h]

/-- A payload longer than what is left ends the loop. -/
theorem processAsync_cut {msg : Word}
    (h : rswdMsgCmd msg = cmdDebugPrint ∨ rswdMsgCmd msg = cmdSwoData) {data : List Word}
    {count : ℕ} (hn : (rswdMsgArg msg).toNat > count) :
    processAsync (msg :: data) (count + 1) = .ok [] := by
  rw [processAsync]
  rcases h with h | h <;> simp [h, hn]

/-- A debug message is printed if there is a word behind it for the zero. -/
theorem processAsync_print {msg : Word} (h : rswdMsgCmd msg = cmdDebugPrint) {data : List Word}
    {count : ℕ} (hn : (rswdMsgArg msg).toNat ≤ count) :
    processAsync (msg :: data) (count + 1) =
      if (rswdMsgArg msg).toNat < data.length then
        (processAsync (data.drop (rswdMsgArg msg).toNat) (count - (rswdMsgArg msg).toNat)).map
          (fun es =>
            .print (printedLine (text ((data.take (rswdMsgArg msg).toNat).flatMap wordBytes))) :: es)
      else .error .outOfBounds := by
  have h0 : ¬ cmdDebugPrint = cmdNull := by decide
  rw [processAsync]
  simp only [h, h0, Nat.not_lt.mpr hn, ↓reduceIte]
  split_ifs with hlt
  · rw [cString_set data _ hlt]
    cases processAsync (data.drop (rswdMsgArg msg).toNat) (count - (rswdMsgArg msg).toNat) <;> rfl
  · rfl

theorem processAsync_swo {msg : Word} (h : rswdMsgCmd msg = cmdSwoData) {data : List Word}
    {count : ℕ} (hn : (rswdMsgArg msg).toNat ≤ count) :
    processAsync (msg :: data) (count + 1) =
      if (rswdMsgArg msg).toNat ≤ data.length then
        .ok [.swo ((data.take (rswdMsgArg msg).toNat).flatMap wordBytes)]
      else .error .outOfBounds := by
  rw [processAsync]
  simp [h, Nat.not_lt.mpr hn]

theorem replyCopy_eq (n : ℕ) (rx : List Ptr) (data : List Word) (hrx : n ≤ rx.length) :
    replyCopy n rx data =
      if n ≤ data.length then .ok ((rx.take n).zip (data.take n)) else .error .outOfBounds := by
  induction n generalizing rx data with
  | zero => simp [replyCopy]
  | succ n ih =>
    cases rx with
    | nil => simp at hrx
    | cons p rx =>
      cases data with
      | nil => simp [replyCopy]
      | cons w data =>
        simp only [List.length_cons, Nat.add_le_add_iff_right] at hrx
        simp only [replyCopy, ih rx data hrx, List.length_cons, Nat.add_le_add_iff_right]
        split_ifs <;> rfl

end M3Dev.Rswdp
