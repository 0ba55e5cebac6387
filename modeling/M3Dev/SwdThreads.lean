import M3Dev.EventSystem
import M3Dev.RswdpProtocol
import Mathlib.Data.Fintype.Basic
import Mathlib.Logic.Function.Basic

/-! The threads around `swd_lock`: `q_exec` callers, `swd_reader`, and the device at the
other end of the cable. Each critical section is one step. -/
namespace M3Dev.Threads
open EventSystem Rswdp

/-- What `usb_open` returned, by number. -/
abbrev Handle := ℕ

/-- A packet from the device, of one word or more. `txn` is the number of the transaction
it answers, for the record; the code sees the words only. -/
structure Packet where
  txn : Option ℕ
  first : Word
  rest : List Word
  deriving DecidableEq, Repr

def Packet.words (p : Packet) : List Word := p.first :: p.rest

/-- A thread outside `q_exec`, or in its `pthread_cond_wait`: the number and the id of the
transaction it sent, and what its `data` array holds. -/
inductive CallState where
  | idle
  | waiting (txn : ℕ) (id : Word) (data : List Word)
  deriving DecidableEq, Repr

def CallState.isWaiting : CallState → Bool
  | .idle => false
  | .waiting _ _ _ => true

/-- Where `swd_reader` is: looking for the device, with a device opened and `swd_lock` not
taken yet, in `usb_read_forever` with its `query_id`, or waiting for the shutdown to be
acknowledged. -/
inductive Reader where
  | opening
  | opened
  | reading (queryId : Word)
  | closing
  deriving DecidableEq, Repr

def txnStatusWait : ℤ := -2

def txnStatusFail : ℤ := -1

/-- The variables under `swd_lock`, the threads, and the wire. -/
structure Swd (κ : Type*) where
  sequence : BitVec 16
  swdOnline : ℤ
  usb : Option Handle
  swdTxnId : Word
  /-- the thread whose `data` array `swd_txn_data` points to -/
  swdTxnData : Option κ
  swdTxnStatus : ℤ
  calls : κ → CallState
  reader : Reader
  /-- transactions sent so far -/
  txns : ℕ
  /-- transactions the device has not answered, by number and id -/
  pending : List (ℕ × Word)
  /-- packets that have not been read -/
  replies : List Packet
  /-- handles that `usb_open` has returned so far -/
  handles : ℕ
  /-- calls of `usb_close` -/
  closed : List (Option Handle)
  /-- calls of `process_reply`: the id of the transaction and the `data` array -/
  processed : List (Word × List Word)
  /-- packets reported as `unexpected txn` -/
  unexpected : List Packet

inductive Event (κ : Type*) where
  /-- `q_exec` up to its wait or its end; `ok` when `usb_write` takes everything. `stale` is
  what the `data` array holds. -/
  | enter (t : κ) (stale : List Word) (ok : Bool)
  /-- `pthread_cond_wait` returns -/
  | wake (t : κ)
  /-- `usb_open` finds the device -/
  | usbOpen
  /-- the version query; `ok` when it is written -/
  | query (ok : Bool)
  /-- the device answers a transaction, with more words behind the id -/
  | answer (i : ℕ) (words : List Word)
  /-- the device sends an asynchronous transaction -/
  | async (words : List Word)
  /-- `usb_read_forever` returns a packet -/
  | read
  /-- `usb_read_forever` fails; `lost` when what was on the wire is gone -/
  | readError (lost : Bool)
  /-- the shutdown is seen acknowledged -/
  | restart
  deriving Repr

variable {κ : Type*} [DecidableEq κ]

/-- A transaction handed to the device. -/
def Swd.send (s : Swd κ) (id : Word) : Swd κ :=
  { s with txns := s.txns + 1, pending := s.pending ++ [(s.txns, id)] }

/-- `q_exec` from the lock to `pthread_cond_wait`, or to its end. -/
def qEnter (t : κ) (stale : List Word) (ok : Bool) (s : Swd κ) : Swd κ :=
  let id := rswdTxnStart s.sequence
  let s := { s with sequence := s.sequence + 1 }
  if s.swdOnline ≠ 1 then
    -- ack disconnect
    if s.swdOnline = -1 then
      { s with usb := none, closed := s.closed ++ [s.usb], swdOnline := 0 }
    else s
  else if ok then
    { s.send id with
      swdTxnId := id, swdTxnData := some t, swdTxnStatus := txnStatusWait,
      calls := Function.update s.calls t (.waiting s.txns id stale) }
  else s

/-- `q_exec` from the return of `pthread_cond_wait` on. -/
def qWake (t : κ) (id : Word) (data : List Word) (s : Swd κ) : Swd κ :=
  if s.swdTxnStatus = txnStatusWait then s
  else
    let r := if s.swdTxnStatus = txnStatusFail then -1 else s.swdTxnStatus
    let s := { s with swdTxnData := none, calls := Function.update s.calls t .idle }
    if r > 0 then { s with processed := s.processed ++ [(id, data)] } else s

/-- `memcpy(swd_txn_data, data, r)` -/
def copyReply (words : List Word) : CallState → CallState
  | .idle => .idle
  | .waiting txn id data => .waiting txn id (words ++ data.drop words.length)

/-- One turn of the loop of `swd_reader`. A `memcpy` to `NULL` has no next state. -/
def readerTurn (queryId : Word) (p : Packet) (s : Swd κ) : Option (Swd κ) :=
  if queryId ≠ 0 ∧ p.first = queryId then some { s with reader := .reading 0, swdOnline := 1 }
  else if p.first = rswdTxnAsync then some s
  else if s.swdTxnStatus = txnStatusWait ∧ p.first = s.swdTxnId then
    match s.swdTxnData with
    | none => none
    | some t =>
      some { s with
        swdTxnStatus := 4 * p.words.length,
        calls := Function.update s.calls t (copyReply p.words (s.calls t)) }
  else some { s with unexpected := s.unexpected ++ [p] }

def step : Step (Swd κ) (Event κ)
  | s, .enter t stale ok => if s.calls t = .idle then some (qEnter t stale ok s) else none
  | s, .wake t =>
    match s.calls t with
    | .idle => none
    | .waiting _ id data => some (qWake t id data s)
  | s, .usbOpen =>
    if s.reader = .opening then
      some { s with reader := .opened, usb := some s.handles, handles := s.handles + 1 }
    else none
  | s, .query ok =>
    if s.reader = .opened then
      let id := rswdTxnStart s.sequence
      let s := { s with sequence := s.sequence + 1, reader := .reading id }
      some (if ok then s.send id else s)
    else none
  | s, .answer i words =>
    match s.pending[i]? with
    | none => none
    | some (txn, id) =>
      some { s with
        pending := s.pending.eraseIdx i
        replies := s.replies ++ [{ txn := some txn, first := id, rest := words }] }
  | s, .async words =>
    some { s with replies := s.replies ++ [{ txn := none, first := rswdTxnAsync, rest := words }] }
  | s, .read =>
    match s.reader, s.replies with
    | .reading queryId, p :: ps => readerTurn queryId p { s with replies := ps }
    | _, _ => none
  | s, .readError lost =>
    match s.reader with
    | .reading _ =>
      some { s with
        swdOnline := -1, swdTxnStatus := txnStatusFail, reader := .closing
        pending := if lost then [] else s.pending
        replies := if lost then [] else s.replies }
    | _ => none
  | s, .restart =>
    if s.reader = .closing ∧ s.swdOnline ≠ -1 then some { s with reader := .opening } else none

def init : Swd κ :=
  { sequence := 1, swdOnline := 0, usb := none, swdTxnId := 0, swdTxnData := none,
    swdTxnStatus := 0, calls := fun _ => .idle, reader := .opening, txns := 0, pending := [],
    replies := [], handles := 0, closed := [], processed := [], unexpected := [] }

/-! ### What a step does -/

/-- What a turn of the reader does with a packet. -/
inductive Turns (q : Word) (p : Packet) (s : Swd κ) : Swd κ → Prop
  | queried : q ≠ 0 → p.first = q → Turns q p s { s with reader := .reading 0, swdOnline := 1 }
  | async : p.first = rswdTxnAsync → Turns q p s s
  | replied {t : κ} : s.swdTxnStatus = txnStatusWait → p.first = s.swdTxnId →
      s.swdTxnData = some t → Turns q p s { s with
        swdTxnStatus := 4 * p.words.length
        calls := Function.update s.calls t (copyReply p.words (s.calls t)) }
  | unexpected : ¬ (s.swdTxnStatus = txnStatusWait ∧ p.first = s.swdTxnId) →
      Turns q p s { s with unexpected := s.unexpected ++ [p] }

theorem readerTurn_turns {q : Word} {p : Packet} {s s' : Swd κ} (h : readerTurn q p s = some s') :
    Turns q p s s' := by
  unfold readerTurn at h
  split_ifs at h with hquery hasync hreply
  · obtain rfl := Option.some.inj h
    exact .queried hquery.1 hquery.2
  · obtain rfl := Option.some.inj h
    exact .async hasync
  · split at h
    · exact absurd h (by simp)
    · next hdata =>
      obtain rfl := Option.some.inj h
      exact .replied hreply.1 hreply.2 hdata
  · obtain rfl := Option.some.inj h
    exact .unexpected hreply

/-- What an event does, and when it can happen. -/
inductive Takes (s : Swd κ) : Event κ → Swd κ → Prop
  | enter {t : κ} {stale : List Word} {ok : Bool} : s.calls t = .idle →
      Takes s (.enter t stale ok) (qEnter t stale ok s)
  | wake {t : κ} {txn : ℕ} {id : Word} {data : List Word} : s.calls t = .waiting txn id data →
      Takes s (.wake t) (qWake t id data s)
  | usbOpen : s.reader = .opening →
      Takes s .usbOpen { s with
        reader := .opened, usb := some s.handles, handles := s.handles + 1 }
  | query {ok : Bool} : s.reader = .opened →
      Takes s (.query ok)
        (if ok then
          Swd.send { s with
            sequence := s.sequence + 1, reader := .reading (rswdTxnStart s.sequence) }
            (rswdTxnStart s.sequence)
        else { s with sequence := s.sequence + 1, reader := .reading (rswdTxnStart s.sequence) })
  | answer {i txn : ℕ} {id : Word} {words : List Word} : s.pending[i]? = some (txn, id) →
      Takes s (.answer i words) { s with
        pending := s.pending.eraseIdx i
        replies := s.replies ++ [{ txn := some txn, first := id, rest := words }] }
  | async {words : List Word} :
      Takes s (.async words) { s with
        replies := s.replies ++ [{ txn := none, first := rswdTxnAsync, rest := words }] }
  | read {q : Word} {p : Packet} {ps : List Packet} {s' : Swd κ} : s.reader = .reading q →
      s.replies = p :: ps → Turns q p { s with replies := ps } s' → Takes s .read s'
  | readError {q : Word} {lost : Bool} : s.reader = .reading q →
      Takes s (.readError lost) { s with
        swdOnline := -1, swdTxnStatus := txnStatusFail, reader := .closing
        pending := if lost then [] else s.pending
        replies := if lost then [] else s.replies }
  | restart : s.reader = .closing → s.swdOnline ≠ -1 →
      Takes s .restart { s with reader := .opening }

theorem step_takes {s s' : Swd κ} {e : Event κ} (h : step s e = some s') : Takes s e s' := by
  -- by the event; where its guard fails there is no step
  cases e with
  | enter t stale ok =>
    simp only [step] at h
    split_ifs at h with hidle
    obtain rfl := Option.some.inj h
    exact .enter hidle
  | wake t =>
    simp only [step] at h
    split at h
    · exact absurd h (by simp)
    · next hwaiting =>
      obtain rfl := Option.some.inj h
      exact .wake hwaiting
  | usbOpen =>
    simp only [step] at h
    split_ifs at h with hopening
    obtain rfl := Option.some.inj h
    exact .usbOpen hopening
  | query ok =>
    simp only [step] at h
    by_cases hopened : s.reader = .opened
    · rw [if_pos hopened] at h
      obtain rfl := Option.some.inj h
      exact .query hopened
    · rw [if_neg hopened] at h
      exact absurd h (by simp)
  | answer i words =>
    simp only [step] at h
    split at h
    · exact absurd h (by simp)
    · next hpending =>
      obtain rfl := Option.some.inj h
      exact .answer hpending
  | async words =>
    obtain rfl := Option.some.inj h
    exact .async
  | read =>
    simp only [step] at h
    split at h
    · next hreading hreplies => exact .read hreading hreplies (readerTurn_turns h)
    · exact absurd h (by simp)
  | readError lost =>
    simp only [step] at h
    split at h
    · next hreading =>
      obtain rfl := Option.some.inj h
      exact .readError hreading
    · exact absurd h (by simp)
  | restart =>
    simp only [step] at h
    split_ifs at h with hend
    obtain rfl := Option.some.inj h
    exact .restart hend.1 hend.2

/-! ### The debugger's threads -/

inductive Thread where
  | monitor
  | gdb
  | console
  deriving DecidableEq, Repr

instance : Fintype Thread where
  elems := {.monitor, .gdb, .console}
  complete := by
    intro t
    cases t <;> decide

/-- Threads that evaluate operands: `parse_number` calls `q_exec` without the debugger
lock, from the console and from a `qRcmd` of gdb. -/
def Thread.parsesNumbers : Thread → Bool
  | .monitor => false
  | _ => true

/-- The threads with `_dbg_lock`. -/
structure Debugger where
  swd : Swd Thread
  dbgLock : Option Thread

inductive DbgEvent where
  | lock (t : Thread)
  | unlock (t : Thread)
  | swd (e : Event Thread)
  deriving Repr

/-- Who may call `q_exec`: the holder of the debugger lock, and `parse_number`. -/
def Debugger.mayCall (d : Debugger) : Event Thread → Bool
  | .enter t _ _ => d.dbgLock = some t ∨ t.parsesNumbers
  | _ => true

def dbgStep : Step Debugger DbgEvent
  | d, .lock t =>
    if d.dbgLock = none ∧ d.swd.calls t = .idle then some { d with dbgLock := some t } else none
  | d, .unlock t =>
    if d.dbgLock = some t ∧ d.swd.calls t = .idle then some { d with dbgLock := none } else none
  | d, .swd e =>
    if d.mayCall e then (step d.swd e).map (fun s => { d with swd := s }) else none

def dbgInit : Debugger := { swd := init, dbgLock := none }

end M3Dev.Threads
