import M3Dev.RswdpFirmware
import Mathlib.Tactic.SplitIfs

/-! Request messages as the protocol means them, and the meaning of a transaction as
a list of them: what each message asks of the SWD target, what it adds to the
reply, and when it ends the transaction. -/
namespace M3Dev.Rswdp
open WhileLoop
variable {σ : Type*}

/-! ### SWD transfers -/

/-- One thing the probe does on the wire. -/
inductive Act where
  | read (hdr : Word)
  | write (hdr value : Word)
  | lineReset
  deriving Repr

/-- The target after the act, the word read (zero for the other acts), and success. -/
def SwdTarget.act (T : SwdTarget σ) (t : σ) : Act → σ × Word × Bool
  | .read hdr => T.swdpRead hdr t
  | .write hdr value => ((T.swdpWrite hdr value t).1, 0, (T.swdpWrite hdr value t).2)
  | .lineReset => (T.swdpReset t, 0, true)

/-- A sequence of acts up to and including the first that fails. -/
structure ActsRun (σ : Type*) where
  target : σ
  values : List Word
  ok : Bool

def SwdTarget.acts (T : SwdTarget σ) : List Act → σ → ActsRun σ
  | [], t => ⟨t, [], true⟩
  | a :: as, t =>
    let r := T.act t a
    if r.2.2 then
      let q := T.acts as r.1
      ⟨q.target, r.2.1 :: q.values, q.ok⟩
    else ⟨r.1, [r.2.1], false⟩

theorem acts_values_length_le (T : SwdTarget σ) (as : List Act) (t : σ) :
    (T.acts as t).values.length ≤ as.length := by
  induction as generalizing t with
  | nil => simp [SwdTarget.acts]
  | cons a as ih =>
    simp only [SwdTarget.acts]
    split
    · simpa using ih _
    · simp

theorem acts_ok_length (T : SwdTarget σ) (as : List Act) (t : σ) (h : (T.acts as t).ok = true) :
    (T.acts as t).values.length = as.length := by
  induction as generalizing t with
  | nil => simp [SwdTarget.acts]
  | cons a as ih =>
    simp only [SwdTarget.acts] at h ⊢
    split at h
    · rename_i hok
      simpa [hok] using ih _ h
    · exact absurd h (by simp)

theorem acts_append_ok (T : SwdTarget σ) (as bs : List Act) (t : σ)
    (h : (T.acts as t).ok = true) :
    T.acts (as ++ bs) t =
      ⟨(T.acts bs (T.acts as t).target).target,
        (T.acts as t).values ++ (T.acts bs (T.acts as t).target).values,
        (T.acts bs (T.acts as t).target).ok⟩ := by
  induction as generalizing t with
  | nil => simp [SwdTarget.acts]
  | cons a as ih =>
    simp only [SwdTarget.acts, List.cons_append] at h ⊢
    split at h
    · rename_i hok
      simp only [hok, ↓reduceIte, ih _ h, List.cons_append]
    · exact absurd h (by simp)

theorem acts_append_fail (T : SwdTarget σ) (as bs : List Act) (t : σ)
    (h : (T.acts as t).ok = false) : T.acts (as ++ bs) t = T.acts as t := by
  induction as generalizing t with
  | nil => simp [SwdTarget.acts] at h
  | cons a as ih =>
    simp only [SwdTarget.acts, List.cons_append] at h ⊢
    split at h
    · rename_i hok
      simp only [hok, ↓reduceIte, ih _ h]
    · rename_i hok
      simp [hok]

/-! ### Messages -/

inductive Msg where
  | null
  | swdWrite (op : Word) (data : List Word)
  | swdRead (op : Word) (n : ℕ)
  | swdDiscard (op : Word) (n : ℕ)
  | attach
  | reset (n : ℕ)
  | download (addr : Word) (data : List Word)
  | execute (addr : Word)
  | trace (op : Word)
  | bootloader
  | setClock (khz : ℕ)
  | other (cmd : Word)
  deriving Repr

namespace Msg

/-- Words the message takes in a transaction, its header included. -/
def size : Msg → ℕ
  | swdWrite _ data => 1 + data.length
  | download _ data => 2 + data.length
  | execute _ => 2
  | _ => 1

/-- What the message asks of the target. -/
def acts : Msg → List Act
  | swdWrite op data => data.map (Act.write (optable op))
  | swdRead op n => List.replicate n (Act.read (optable op))
  | swdDiscard op n => List.replicate n (Act.read (optable op))
  | attach => [Act.lineReset]
  | _ => []

/-- Words the message asks for in the reply. -/
def replySize : Msg → ℕ
  | swdRead _ n => 1 + n
  | _ => 0

/-- What the message adds to the reply when the target answered `values`: a read
that stopped early is filled up to the length its header announces. -/
def reply (values : List Word) : Msg → List Word
  | swdRead _ n => rswdMsg cmdSwdData 0 (BitVec.ofNat 32 n) ::
      (values ++ List.replicate (n - values.length) 0xfefefefe)
  | _ => []

/-- Commands the firmware has a case for. -/
def known (fw : Firmware) : Msg → Bool
  | other _ => false
  | bootloader => fw.hasClock
  | setClock _ => fw.hasClock
  | _ => true

/-- The status with which the message ends the transaction, 0 when it does not. -/
def status (fw : Firmware) (ok : Bool) (m : Msg) : Word :=
  if m.known fw then if ok then 0 else 3 else 1

/-- Words `data` stored from `addr` on, upwards. -/
def stores (addr : Word) : List Word → List (Word × Word)
  | [] => []
  | w :: ws => (addr, w) :: stores (addr + 4) ws

/-- What the message does to the probe itself. -/
def effect (fw : Firmware) (s : Session σ) : Msg → Session σ
  | reset n => { s with dev := { s.dev with resetN := n == 0 } }
  | download addr data => { s with dev := { s.dev with ram := s.dev.ram ++ stores addr data } }
  | execute addr => { s with func := executeAt addr }
  | trace op => { s with dev := { s.dev with swdpTrace := op } }
  | bootloader =>
    if fw.hasClock then { s with func := some .rebootBootloader }
    else { s with dev := { s.dev with unknown := s.dev.unknown ++ [cmdBootloader] } }
  | setClock khz =>
    if fw.hasClock then
      { s with dev := { s.dev with usb := s.dev.usb ++ [.swdpClockIsNow (ssp0SetClock khz)] } }
    else { s with dev := { s.dev with unknown := s.dev.unknown ++ [cmdSetClock] } }
  | other cmd => { s with dev := { s.dev with unknown := s.dev.unknown ++ [cmd] } }
  | _ => s

/-- The message served: the session after it and its status. -/
def serve (fw : Firmware) (T : SwdTarget σ) (m : Msg) (s : Session σ) : Session σ × Word :=
  let r := T.acts m.acts s.dev.target
  (m.effect fw { s.setTarget r.target with tx := s.tx ++ m.reply r.values }, m.status fw r.ok)

/-- The address an EXECUTE gives. -/
def executes : Msg → Option Word
  | execute addr => some addr
  | _ => none

/-- A download of at least one word. -/
def IsDownload : Msg → Prop
  | download _ data => data ≠ []
  | _ => False

instance : DecidablePred IsDownload := fun m => by
  cases m <;> simp only [IsDownload] <;> infer_instance

end Msg

/-- A transaction served message by message, up to the first that ends it: the
session, the status and the number of messages started. -/
def serveAll (fw : Firmware) (T : SwdTarget σ) : List Msg → Session σ → Session σ × Word × ℕ
  | [], s => (s, 0, 0)
  | m :: ms, s =>
    let r := m.serve fw T s
    if r.2 = 0 then
      let q := serveAll fw T ms r.1
      (q.1, q.2.1, q.2.2 + 1)
    else (r.1, r.2, 1)

/-- The messages that are started: all up to the first that ends the transaction. -/
def started (fw : Firmware) (T : SwdTarget σ) : List Msg → σ → List Msg
  | [], _ => []
  | m :: ms, t =>
    let r := T.acts m.acts t
    m :: if m.status fw r.ok = 0 then started fw T ms r.target else []

/-- A download of at least one word is among the messages started. -/
def startsDownload (fw : Firmware) (T : SwdTarget σ) (ms : List Msg) (t : σ) : Prop :=
  ∃ m ∈ started fw T ms t, m.IsDownload

/-- The last EXECUTE among the messages started gives an address that is no null pointer. -/
def startsExecute (fw : Firmware) (T : SwdTarget σ) (ms : List Msg) (t : σ) : Prop :=
  ∃ addr, ((started fw T ms t).filterMap Msg.executes).getLast? = some addr ∧ addr ≠ 0

theorem startsDownload_cons (fw : Firmware) (T : SwdTarget σ) (m : Msg) (ms : List Msg) (t : σ) :
    startsDownload fw T (m :: ms) t ↔
      m.IsDownload ∨ (m.status fw (T.acts m.acts t).ok = 0 ∧
        startsDownload fw T ms (T.acts m.acts t).target) := by
  simp only [startsDownload, started, List.mem_cons, exists_eq_or_imp]
  split_ifs with h
  · simp only [h, true_and]
  · simp only [h, false_and, or_false, List.not_mem_nil, exists_false]

theorem not_startsDownload_nil (fw : Firmware) (T : SwdTarget σ) (t : σ) :
    ¬ startsDownload fw T [] t := by
  simp [startsDownload, started]

theorem mem_of_mem_started {fw : Firmware} {T : SwdTarget σ} {ms : List Msg} {t : σ} {m : Msg}
    (h : m ∈ started fw T ms t) : m ∈ ms := by
  induction ms generalizing t with
  | nil => exact h
  | cons m' ms ih =>
    simp only [started, List.mem_cons] at h ⊢
    rcases h with h | h
    · exact Or.inl h
    · split_ifs at h
      · exact Or.inr (ih h)
      · exact absurd h (by simp)

theorem serve_target (fw : Firmware) (T : SwdTarget σ) (m : Msg) (s : Session σ) :
    (m.serve fw T s).1.dev.target = (T.acts m.acts s.dev.target).target := by
  unfold Msg.serve Session.setTarget
  cases m <;> simp only [Msg.effect] <;> split_ifs <;> rfl

theorem serve_tx (fw : Firmware) (T : SwdTarget σ) (m : Msg) (s : Session σ) :
    (m.serve fw T s).1.tx = s.tx ++ m.reply (T.acts m.acts s.dev.target).values := by
  unfold Msg.serve Session.setTarget
  cases m <;> simp only [Msg.effect] <;> split_ifs <;> rfl

theorem reply_length (T : SwdTarget σ) (m : Msg) (t : σ) :
    (m.reply (T.acts m.acts t).values).length = m.replySize := by
  cases m with
  | swdRead op n =>
    have h := acts_values_length_le T (List.replicate n (Act.read (optable op))) t
    simp only [List.length_replicate] at h
    simp only [Msg.reply, Msg.acts, Msg.replySize, List.length_cons, List.length_append,
      List.length_replicate]
    omega
  | _ => rfl

/-- The count the status word carries is the number of messages started. -/
theorem serveAll_count (fw : Firmware) (T : SwdTarget σ) (ms : List Msg) (s : Session σ) :
    (serveAll fw T ms s).2.2 = (started fw T ms s.dev.target).length := by
  induction ms generalizing s with
  | nil => rfl
  | cons m ms ih =>
    have hst : (m.serve fw T s).2 = m.status fw (T.acts m.acts s.dev.target).ok := rfl
    simp only [serveAll, started, hst]
    split_ifs with h
    · simp only [ih, serve_target, List.length_cons]
    · rfl

/-- The reply grows by what each started message asks for, whether it ends well or not. -/
theorem serveAll_tx_length (fw : Firmware) (T : SwdTarget σ) (ms : List Msg) (s : Session σ) :
    (serveAll fw T ms s).1.tx.length =
      s.tx.length + ((started fw T ms s.dev.target).map Msg.replySize).sum := by
  induction ms generalizing s with
  | nil => simp [serveAll, started]
  | cons m ms ih =>
    have hst : (m.serve fw T s).2 = m.status fw (T.acts m.acts s.dev.target).ok := rfl
    simp only [serveAll, started, hst]
    split_ifs with h
    · simp only [ih, serve_target, serve_tx, List.length_append, reply_length, List.map_cons,
        List.sum_cons]
      omega
    · simp only [serve_tx, List.length_append, reply_length, List.map_cons, List.map_nil,
        List.sum_cons, List.sum_nil, Nat.add_zero]

/-! ### The messages of a receive buffer -/

/-- The `n` words from position `rx` of the receive buffer on. -/
def payload (rx : ℕ → Word) (rxp n : ℕ) : List Word := (List.range n).map (fun i => rx (rxp + i))

@[simp] theorem payload_length (rx : ℕ → Word) (rxp n : ℕ) : (payload rx rxp n).length = n := by
  simp [payload]

theorem payload_succ (rx : ℕ → Word) (rxp n : ℕ) :
    payload rx rxp (n + 1) = rx rxp :: payload rx (rxp + 1) n := by
  simp only [payload, List.range_succ_eq_map, List.map_cons, List.map_map, Nat.add_zero]
  congr 1
  apply List.map_congr_left
  intro i _
  simp only [Function.comp_apply]
  congr 1
  omega

/-- The message whose header stands at `rxp`. -/
def msgAt (rx : ℕ → Word) (rxp : ℕ) : Msg :=
  let msg := rx rxp
  let cmd := rswdMsgCmd msg
  let op := rswdMsgOp msg
  let n := (rswdMsgArg msg).toNat
  if cmd = cmdNull then .null
  else if cmd = cmdSwdWrite then .swdWrite op (payload rx (rxp + 1) n)
  else if cmd = cmdSwdRead then .swdRead op n
  else if cmd = cmdSwdDiscard then .swdDiscard op n
  else if cmd = cmdAttach then .attach
  else if cmd = cmdReset then .reset n
  else if cmd = cmdDownload then .download (rx (rxp + 1)) (payload rx (rxp + 2) n)
  else if cmd = cmdExecute then .execute (rx (rxp + 1))
  else if cmd = cmdTrace then .trace op
  else if cmd = cmdBootloader then .bootloader
  else if cmd = cmdSetClock then .setClock n
  else .other cmd

/-- The messages of a transaction of `rxc` words at `rxp`, each header found right
after the message before it. -/
def requests (rx : ℕ → Word) : ℕ → ℕ → ℤ → List Msg
  | 0, _, _ => []
  | k + 1, rxp, rxc =>
    if rxc ≤ 0 then []
    else
      let m := msgAt rx rxp
      m :: requests rx k (rxp + m.size) (rxc - m.size)

theorem msg_size_pos (m : Msg) : 1 ≤ m.size := by
  cases m <;> simp only [Msg.size] <;> omega

theorem requests_ended (rx : ℕ → Word) (k rxp : ℕ) (rxc : ℤ) (h : rxc ≤ 0) :
    requests rx k rxp rxc = [] := by
  cases k <;> simp [requests, h]

theorem requests_step (rx : ℕ → Word) (k rxp : ℕ) (rxc : ℤ) (h : ¬ rxc ≤ 0) :
    requests rx (k + 1) rxp rxc =
      msgAt rx rxp :: requests rx k (rxp + (msgAt rx rxp).size) (rxc - (msgAt rx rxp).size) := by
  simp only [requests, h, ↓reduceIte]

end M3Dev.Rswdp
