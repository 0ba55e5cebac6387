import M3Dev.RswdpEncode
import M3Dev.RswdpServe
import Mathlib.Data.List.Forall2

/-! What `process_txn` makes of a well-formed request: whether it comes to its end,
what it consumes and stores, the reply it sends, and whether it returns. -/
namespace M3Dev.Rswdp
open WhileLoop
variable {σ : Type*}

/-- Words the message stores in the probe's memory. -/
def Msg.stored : Msg → List (Word × Word)
  | .download addr data => Msg.stores addr data
  | _ => []

/-- What the message leaves in `func`. -/
def Msg.setsFunc (f : Option Func) (m : Msg) : Option Func := m.executes.elim f executeAt

/-- What `process_txn` does on the `rxc` words of the messages `ms` at `rxp`. -/
structure Answered (fw : Firmware) (T : SwdTarget σ) (ms : List Msg) (rxp rxc : ℕ)
    (dev : Device σ) (s : TxnState σ) : Prop where
  /-- when no transfer fails, exactly the received words are consumed -/
  consumed : (T.acts (ms.flatMap Msg.acts) dev.target).ok = true → s.rx = rxp + rxc
  /-- the downloads store their words, and nothing else is stored -/
  stored : s.dev.ram = dev.ram ++ (started fw T ms dev.target).flatMap Msg.stored
  /-- one reply is sent -/
  sent : s.dev.usb = dev.usb ++ [.reply s.tx]
  /-- its last word that is no null is the status, with the number of messages started -/
  status : ∃ w, s.tx.reverse.find? (fun w => rswdMsgCmd w ≠ cmdNull) = some w ∧
    rswdMsgCmd w = cmdStatus ∧ (rswdMsgArg w).toNat = (started fw T ms dev.target).length

/-! ### What a transaction accumulates -/

/-- What every message adds to a part of the session, the transaction adds up over
the messages it starts. -/
theorem serveAll_accumulates {α : Type*} (fw : Firmware) (T : SwdTarget σ) (part : Session σ → α)
    (add : α → Msg → α) (ms : List Msg)
    (step : ∀ m ∈ ms, ∀ s, part (m.serve fw T s).1 = add (part s) m) (s : Session σ) :
    part (serveAll fw T ms s).1 = (started fw T ms s.dev.target).foldl add (part s) := by
  induction ms generalizing s with
  | nil => rfl
  | cons m ms ih =>
    have hst : (m.serve fw T s).2 = m.status fw (T.acts m.acts s.dev.target).ok := rfl
    have hm := step m (by simp) s
    have hrest := ih (fun m' hm' => step m' (by simp [hm'])) (m.serve fw T s).1
    simp only [serveAll, started, hst]
    split_ifs with h
    · rw [hrest, serve_target, List.foldl_cons, hm]
    · rw [hm, List.foldl_cons, List.foldl_nil]

theorem serve_ram (fw : Firmware) (T : SwdTarget σ) (m : Msg) (s : Session σ) :
    (m.serve fw T s).1.dev.ram = s.dev.ram ++ m.stored := by
  unfold Msg.serve Session.setTarget
  cases m <;> simp only [Msg.effect, Msg.stored, List.append_nil] <;> split_ifs <;> rfl

theorem serve_usb {m : Msg} {ws : List Word} (h : m.EncodedAs ws) (fw : Firmware)
    (T : SwdTarget σ) (s : Session σ) : (m.serve fw T s).1.dev.usb = s.dev.usb := by
  unfold Msg.serve Session.setTarget
  cases m <;> first | exact h.elim | rfl

theorem serve_func {m : Msg} {ws : List Word} (h : m.EncodedAs ws) (fw : Firmware)
    (T : SwdTarget σ) (s : Session σ) : (m.serve fw T s).1.func = m.setsFunc s.func := by
  unfold Msg.serve Session.setTarget
  cases m <;> first | exact h.elim | rfl

theorem encoded_known {m : Msg} {ws : List Word} (h : m.EncodedAs ws) (fw : Firmware) :
    m.known fw = true := by
  cases m <;> first | exact h.elim | rfl

theorem exists_encoded {ms : List Msg} {wss : List (List Word)}
    (h : List.Forall₂ Msg.EncodedAs ms wss) {m : Msg} (hm : m ∈ ms) : ∃ ws, m.EncodedAs ws := by
  obtain ⟨i, hi, rfl⟩ := List.getElem_of_mem hm
  have hlen := h.length_eq
  exact ⟨wss[i], h.get hi (by omega)⟩

/-- No failed transfer and no unknown command: the status is 0. -/
theorem serveAll_status_zero (fw : Firmware) (T : SwdTarget σ) (ms : List Msg)
    (hknown : ∀ m ∈ ms, m.known fw = true) (s : Session σ)
    (hok : (T.acts (ms.flatMap Msg.acts) s.dev.target).ok = true) :
    (serveAll fw T ms s).2.1 = 0 := by
  induction ms generalizing s with
  | nil => rfl
  | cons m ms ih =>
    rw [List.flatMap_cons] at hok
    have hm : (T.acts m.acts s.dev.target).ok = true := by
      by_contra hne
      rw [acts_append_fail T _ _ _ (by simpa using hne)] at hok
      exact hne hok
    rw [acts_append_ok T _ _ _ hm, ← serve_target fw T m s] at hok
    have hst : (m.serve fw T s).2 = 0 := by
      show m.status fw (T.acts m.acts s.dev.target).ok = 0
      simp only [Msg.status, hknown m (by simp), hm, ↓reduceIte]
    simp only [serveAll, hst, ↓reduceIte]
    exact ih (fun m' hm' => hknown m' (by simp [hm'])) _ hok

/-! ### The reply -/

/-- The reply ends in the status word, whether or not a null follows it. -/
theorem txnDone_status (fw : Firmware) (status : Word) (s : TxnState σ) (hc : s.count < 65536) :
    ∃ w, (txnDone fw status s).tx.reverse.find? (fun w => rswdMsgCmd w ≠ cmdNull) = some w ∧
      rswdMsgCmd w = cmdStatus ∧ (rswdMsgArg w).toNat = s.count := by
  refine ⟨rswdMsg cmdStatus status (BitVec.ofNat 32 s.count), ?_, ?_, ?_⟩
  · simp only [txnDone]
    split_ifs <;> simp
  · rw [rswdMsgCmd_rswdMsg]
    decide
  · exact rswdMsgArg_count cmdStatus status s.count hc

theorem started_length_le (fw : Firmware) (T : SwdTarget σ) (ms : List Msg) (t : σ) :
    (started fw T ms t).length ≤ ms.length := by
  induction ms generalizing t with
  | nil => rfl
  | cons m ms ih =>
    simp only [started, List.length_cons]
    split_ifs
    · exact Nat.succ_le_succ (ih _)
    · exact Nat.succ_le_succ (Nat.zero_le _)

theorem encoded_sizes {ms : List Msg} {wss : List (List Word)}
    (h : List.Forall₂ Msg.EncodedAs ms wss) : (ms.map Msg.size).sum = wss.flatten.length := by
  induction h with
  | nil => rfl
  | cons hm _ ih =>
    rw [List.map_cons, List.sum_cons, List.flatten_cons, List.length_append, ih,
      encoded_length hm]

theorem encoded_count_le {ms : List Msg} {wss : List (List Word)}
    (h : List.Forall₂ Msg.EncodedAs ms wss) : ms.length ≤ wss.flatten.length := by
  induction h with
  | nil => simp
  | @cons m ws _ _ hm _ ih =>
    have hlen := encoded_length hm
    have hpos := msg_size_pos m
    simp only [List.length_cons, List.flatten_cons, List.length_append]
    omega

/-- A request in the receive buffer of a probe, behind the word that starts the
transaction. What lies past it in the buffer is arbitrary. -/
structure Request (fw : Firmware) (ms : List Msg) (wss : List (List Word)) (rx : ℕ → Word) :
    Prop where
  encoded : List.Forall₂ Msg.EncodedAs ms wss
  held : payload rx 1 wss.flatten.length = wss.flatten
  fits : 1 + wss.flatten.length ≤ fw.rxWords

/-- The last EXECUTE decides. -/
theorem foldl_setsFunc (ms : List Msg) (f : Option Func) :
    ms.foldl Msg.setsFunc f = (ms.filterMap Msg.executes).getLast?.elim f executeAt := by
  induction ms generalizing f with
  | nil => rfl
  | cons m ms ih =>
    rw [List.foldl_cons, ih, List.filterMap_cons, Msg.setsFunc]
    cases m.executes with
    | none => rfl
    | some addr =>
      dsimp only
      rw [List.getLast?_cons]
      cases (ms.filterMap Msg.executes).getLast? with
      | none => rfl
      | some addr' => rfl

theorem func_isNone_iff (fw : Firmware) (T : SwdTarget σ) (ms : List Msg) (t : σ) :
    ((started fw T ms t).foldl Msg.setsFunc none).isNone = true ↔ ¬ startsExecute fw T ms t := by
  rw [foldl_setsFunc, startsExecute]
  cases ((started fw T ms t).filterMap Msg.executes).getLast? with
  | none => simp
  | some addr => simp [executeAt]

/-- The reply that is sent is the right one. -/
theorem processTxn_answered (fw : Firmware) (hfw : fw ∈ [m3debug, swdp])
    (T : SwdTarget σ) (txnid : Word) {ms : List Msg} {wss : List (List Word)} {rx : ℕ → Word}
    (dev : Device σ) (hreq : Request fw ms wss rx) {fuel : ℕ} {s : TxnState σ}
    (hs : processTxn fw T fuel txnid rx 1 wss.flatten.length dev = some s) :
    Answered fw T ms 1 wss.flatten.length dev s ∧
      s.func = (started fw T ms dev.target).foldl Msg.setsFunc none := by
  have hms : requests rx (wss.flatten.length : ℤ).toNat 1 wss.flatten.length = ms :=
    requests_encoded hreq.encoded rx 1 _ hreq.held (Int.toNat_natCast _).ge
  obtain ⟨r, rfl, hR⟩ := processTxn_some fw T fuel txnid rx 1 wss.flatten.length dev s hs
  rw [hms] at hR
  have hsession : r.2.toSession = (serveAll fw T ms (txnStart txnid 1 wss.flatten.length
    dev).toSession).1 := hR.session
  have hencoded {m : Msg} (hm : m ∈ ms) : ∃ ws, m.EncodedAs ws := exists_encoded hreq.encoded hm
  have hknown : ∀ m ∈ ms, m.known fw = true := by
    intro m hm
    obtain ⟨ws, hws⟩ := hencoded hm
    exact encoded_known hws fw
  have hcount : r.2.count = (started fw T ms dev.target).length := by
    have h := hR.count
    rw [serveAll_count] at h
    simpa [txnStart] using h
  -- what the session of the messages gathers, the answer reports
  refine ⟨?_, ?_⟩
  · constructor
    · intro hok
      have hzero := serveAll_status_zero fw T ms hknown
        (txnStart txnid 1 wss.flatten.length dev).toSession hok
      have hrx := hR.consumed (hR.status.trans hzero)
      rw [encoded_sizes hreq.encoded] at hrx
      exact hrx
    · have hram := serveAll_accumulates fw T (fun s => s.dev.ram) (fun ram m => ram ++ m.stored) ms
        (fun m _ s => serve_ram fw T m s) (txnStart txnid 1 wss.flatten.length dev).toSession
      rw [← hsession, List.foldl_append_eq_append] at hram
      exact hram
    · have husb := serveAll_accumulates fw T (fun s => s.dev.usb) (fun usb _ => usb) ms
        (fun m hm s => by
          obtain ⟨ws, hws⟩ := hencoded hm
          exact serve_usb hws fw T s) (txnStart txnid 1 wss.flatten.length dev).toSession
      rw [← hsession, List.foldl_fixed] at husb
      simp only [txnDone, husb]
      rfl
    · rw [← hcount]
      apply txnDone_status
      have h1 := started_length_le fw T ms dev.target
      have h2 := encoded_count_le hreq.encoded
      have h3 := hreq.fits
      have h4 : fw.rxWords ≤ 1024 := by
        simp only [List.mem_cons, List.not_mem_nil, or_false] at hfw
        rcases hfw with h | h <;> rw [h] <;> decide
      omega
  · have hfunc := serveAll_accumulates fw T (fun s => s.func) Msg.setsFunc ms
      (fun m hm s => by
        obtain ⟨ws, hws⟩ := hencoded hm
        exact serve_func hws fw T s) (txnStart txnid 1 wss.flatten.length dev).toSession
    rw [← hsession] at hfunc
    exact hfunc

/-- `process_txn` returns, having sent the right reply, exactly when it starts no download of a
word, whose loop never ends, and no EXECUTE that is still to be jumped to when the reply is out. -/
theorem answered_iff (fw : Firmware) (hfw : fw ∈ [m3debug, swdp])
    (T : SwdTarget σ) (txnid : Word) (ms : List Msg) (wss : List (List Word)) (rx : ℕ → Word)
    (dev : Device σ) (hreq : Request fw ms wss rx) :
    (∃ fuel s, processTxnReturns fw T fuel txnid rx 1 wss.flatten.length dev = some s ∧
      Answered fw T ms 1 wss.flatten.length dev s) ↔
        ¬ startsDownload fw T ms dev.target ∧ ¬ startsExecute fw T ms dev.target := by
  have hms : requests rx (wss.flatten.length : ℤ).toNat 1 wss.flatten.length = ms :=
    requests_encoded hreq.encoded rx 1 _ hreq.held (Int.toNat_natCast _).ge
  constructor
  · rintro ⟨fuel, s, hs, _⟩
    obtain ⟨hrun, hnone⟩ := Option.filter_eq_some_iff.mp hs
    constructor
    · intro hd
      rw [processTxn_diverges fw T txnid rx 1 _ dev (by rwa [hms])] at hrun
      exact absurd hrun (by simp)
    · rw [← func_isNone_iff, ← (processTxn_answered fw hfw T txnid dev hreq hrun).2]
      exact hnone
  · rintro ⟨hd, he⟩
    obtain ⟨r, hrun, _⟩ := processTxn_serves fw T txnid rx 1 wss.flatten.length dev
      (by rwa [hms]) _ (Nat.lt_succ_self _)
    obtain ⟨hanswered, hfunc⟩ := processTxn_answered fw hfw T txnid dev hreq hrun
    refine ⟨_, _, Option.filter_eq_some_iff.mpr ⟨hrun, ?_⟩, hanswered⟩
    rw [hfunc]
    exact (func_isNone_iff fw T ms dev.target).mpr he

/-! ### A download -/

/-- The request that downloads one word to the start of the probe's RAM. -/
def oneWordDownload : ℕ → Word :=
  fun i => [rswdTxnStart 1, rswdMsg cmdDownload 0 1, 0x20000000, 0x12345678].getD i 0

theorem oneWordDownload_request :
    Request m3debug [.download 0x20000000 [0x12345678]]
      [[rswdMsg cmdDownload 0 1, 0x20000000, 0x12345678]] oneWordDownload := by
  refine ⟨List.Forall₂.cons ⟨by decide, 0, rfl⟩ List.Forall₂.nil, by decide, by decide⟩

/-- A well-formed request `process_txn` never answers. -/
theorem oneWordDownload_unanswered :
    Request m3debug [.download 0x20000000 [0x12345678]]
      [[rswdMsg cmdDownload 0 1, 0x20000000, 0x12345678]] oneWordDownload ∧
    ¬ ∃ fuel s, processTxnReturns m3debug quietTarget fuel (rswdTxnStart 1) oneWordDownload 1
        (3 : ℕ) idleDevice = some s ∧
      Answered m3debug quietTarget [.download 0x20000000 [0x12345678]] 1 3 idleDevice s := by
  refine ⟨oneWordDownload_request, ?_⟩
  rintro ⟨fuel, s, hs, _⟩
  obtain ⟨hrun, _⟩ := Option.filter_eq_some_iff.mp hs
  have hms : requests oneWordDownload 3 1 (3 : ℕ) = [.download 0x20000000 [0x12345678]] :=
    requests_encoded oneWordDownload_request.encoded oneWordDownload 1 3
      oneWordDownload_request.held (by decide)
  have hd : startsDownload m3debug quietTarget (requests oneWordDownload 3 1 (3 : ℕ)) () := by
    rw [hms]
    simp [startsDownload, started, Msg.IsDownload]
  rw [processTxn_diverges m3debug quietTarget _ _ 1 (3 : ℕ) idleDevice hd] at hrun
  exact absurd hrun (by simp)

/-- A request that reads two words, writes one, downloads nothing to 0x1000, and takes an EXECUTE
back. -/
def readAndWrite : ℕ → Word :=
  fun i => [rswdTxnStart 1, rswdMsg cmdSwdRead dpIdcode 2, rswdMsg cmdSwdWrite dpBuffer 1, 0xFFFFFFFF,
    rswdMsg cmdDownload 0 0, 0x1000, rswdMsg cmdExecute 0 0, 0x1000, rswdMsg cmdExecute 0 0, 0].getD i 0

theorem answered_iff_readAndWrite :
    ∃ fuel s, processTxnReturns swdp quietTarget fuel (rswdTxnStart 1) readAndWrite 1 (9 : ℕ)
        idleDevice = some s ∧
      Answered swdp quietTarget [.swdRead dpIdcode 2, .swdWrite dpBuffer [0xFFFFFFFF],
        .download 0x1000 [], .execute 0x1000, .execute 0] 1 9 idleDevice s := by
  have hreq : Request swdp [.swdRead dpIdcode 2, .swdWrite dpBuffer [0xFFFFFFFF],
        .download 0x1000 [], .execute 0x1000, .execute 0]
      [[rswdMsg cmdSwdRead dpIdcode 2], [rswdMsg cmdSwdWrite dpBuffer 1, 0xFFFFFFFF],
        [rswdMsg cmdDownload 0 0, 0x1000], [rswdMsg cmdExecute 0 0, 0x1000],
        [rswdMsg cmdExecute 0 0, 0]] readAndWrite := by
    refine ⟨?_, by decide, by decide⟩
    apply List.Forall₂.cons ⟨by decide, by decide, rfl⟩
    apply List.Forall₂.cons ⟨by decide, by decide, rfl⟩
    apply List.Forall₂.cons ⟨by decide, 0, rfl⟩
    apply List.Forall₂.cons ⟨0, 0, rfl⟩
    exact List.Forall₂.cons ⟨0, 0, rfl⟩ List.Forall₂.nil
  have hall : started swdp quietTarget [.swdRead dpIdcode 2, .swdWrite dpBuffer [0xFFFFFFFF],
      .download 0x1000 [], .execute 0x1000, .execute 0] idleDevice.target = _ := rfl
  apply (answered_iff swdp (by simp) quietTarget (rswdTxnStart 1) _ _ readAndWrite idleDevice hreq).mpr
  constructor
  · rw [startsDownload, hall]
    decide
  · rintro ⟨addr, hlast, hne⟩
    rw [hall] at hlast
    exact hne (Option.some.inj hlast).symm

end M3Dev.Rswdp
