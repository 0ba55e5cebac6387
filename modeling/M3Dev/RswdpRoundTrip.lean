import M3Dev.RswdpMessages
import M3Dev.RswdpServe

/-! A queued transaction through the probe and back: the reply answers the messages
one by one, and `process_reply` finds the words of each under its own pointers. -/
namespace M3Dev.Rswdp
open WhileLoop
variable {σ : Type*}

/-! ### Transfers performed -/

/-- One act of the probe on the wire, the word it brought, and whether it succeeded. -/
structure Transfer where
  act : Act
  value : Word
  ok : Bool
  deriving Repr

/-- The target `T` with a record of every transfer made on it. -/
def SwdTarget.logged (T : SwdTarget σ) : SwdTarget (σ × List Transfer) where
  swdpRead hdr t :=
    let r := T.swdpRead hdr t.1
    ((r.1, t.2 ++ [⟨.read hdr, r.2.1, r.2.2⟩]), r.2)
  swdpWrite hdr value t :=
    let r := T.swdpWrite hdr value t.1
    ((r.1, t.2 ++ [⟨.write hdr value, 0, r.2⟩]), r.2)
  swdpReset t := (T.swdpReset t.1, t.2 ++ [⟨.lineReset, 0, true⟩])

/-- The transfers a sequence of acts comes to, up to and including the first that fails. -/
def SwdTarget.transfers (T : SwdTarget σ) : List Act → σ → List Transfer
  | [], _ => []
  | a :: as, t =>
    let r := T.act t a
    ⟨a, r.2.1, r.2.2⟩ :: if r.2.2 then T.transfers as r.1 else []

/-- The last transfer failed, and no other. -/
def StopsAtFailure (log : List Transfer) : Prop :=
  ∃ done last, log = done ++ [last] ∧ last.ok = false ∧ ∀ x ∈ done, x.ok = true

theorem transfers_values (T : SwdTarget σ) (as : List Act) (t : σ) :
    (T.transfers as t).map Transfer.value = (T.acts as t).values := by
  induction as generalizing t with
  | nil => rfl
  | cons a as ih =>
    simp only [SwdTarget.transfers, SwdTarget.acts, List.map_cons]
    split_ifs
    · rw [ih]
    · rfl

theorem transfers_end (T : SwdTarget σ) (as : List Act) (t : σ) :
    ((T.acts as t).ok = true ∧ (T.transfers as t).length = as.length ∧
        ∀ x ∈ T.transfers as t, x.ok = true) ∨
      ((T.acts as t).ok = false ∧ (T.transfers as t).length ≤ as.length ∧
        StopsAtFailure (T.transfers as t)) := by
  induction as generalizing t with
  | nil => exact Or.inl ⟨rfl, rfl, by simp [SwdTarget.transfers]⟩
  | cons a as ih =>
    simp only [SwdTarget.transfers, SwdTarget.acts]
    by_cases hok : (T.act t a).2.2 = true
    · rw [if_pos hok, if_pos hok, List.length_cons, List.length_cons]
      rcases ih (T.act t a).1 with ⟨h, hlen, hall⟩ | ⟨h, hlen, done, last, hlog, hlast, hall⟩
      · exact Or.inl ⟨h, by rw [hlen], by simpa [hok] using hall⟩
      · rw [hlog] at hlen ⊢
        exact Or.inr ⟨h, Nat.succ_le_succ hlen, _ :: done, last, rfl, hlast,
          by simpa [hok] using hall⟩
    · rw [if_neg hok, if_neg hok, List.length_cons, List.length_cons]
      have hfail : (T.act t a).2.2 = false := by simpa using hok
      exact Or.inr ⟨rfl, Nat.succ_le_succ (Nat.zero_le _), [], _, rfl, hfail, by simp⟩

theorem transfers_append (T : SwdTarget σ) (as bs : List Act) (t : σ) :
    T.transfers (as ++ bs) t = T.transfers as t ++
      if (T.acts as t).ok then T.transfers bs (T.acts as t).target else [] := by
  induction as generalizing t with
  | nil => rfl
  | cons a as ih =>
    simp only [SwdTarget.transfers, SwdTarget.acts, List.cons_append]
    by_cases hok : (T.act t a).2.2 = true
    · rw [if_pos hok, if_pos hok, if_pos hok, ih]
    · rw [if_neg hok, if_neg hok, if_neg hok]
      rfl

theorem logged_act (T : SwdTarget σ) (t : σ × List Transfer) (a : Act) :
    T.logged.act t a = (((T.act t.1 a).1, t.2 ++ [⟨a, (T.act t.1 a).2.1, (T.act t.1 a).2.2⟩]),
      (T.act t.1 a).2) := by
  cases a <;> rfl

/-- The record is one of what happened, and changes nothing. -/
theorem acts_logged (T : SwdTarget σ) (as : List Act) (t : σ × List Transfer) :
    T.logged.acts as t = ⟨((T.acts as t.1).target, t.2 ++ T.transfers as t.1),
      (T.acts as t.1).values, (T.acts as t.1).ok⟩ := by
  induction as generalizing t with
  | nil => simp [SwdTarget.acts, SwdTarget.transfers]
  | cons a as ih =>
    simp only [SwdTarget.acts, SwdTarget.transfers, logged_act, ih]
    split_ifs
    · rw [List.append_assoc]
      rfl
    · rfl

/-- Those of the values of a sequence of transfers that `CMD_SWD_READ` messages asked
for, in order. -/
def readsOf : List Msg → List Word → List Word
  | [], _ => []
  | m :: ms, vs => vs.take m.readWords ++ readsOf ms (vs.drop m.acts.length)

/-! ### Between device and host -/

/-- `Answers ms log d ok`: serving the messages `ms` took the transfers `log`, put `d` in
the reply, and came to the end or stopped at a failure. -/
inductive Answers : List Msg → List Transfer → List Word → Bool → Prop where
  | done : Answers [] [] [] true
  | served {m : Msg} {ms : List Msg} {log rest : List Transfer} {d : List Word} {ok : Bool}
      (hlen : log.length = m.acts.length) (hok : ∀ x ∈ log, x.ok = true)
      (h : Answers ms rest d ok) :
      Answers (m :: ms) (log ++ rest) (m.reply (log.map Transfer.value) ++ d) ok
  | failed {m : Msg} {ms : List Msg} {log : List Transfer} (hlen : log.length ≤ m.acts.length)
      (hstop : StopsAtFailure log) :
      Answers (m :: ms) log (m.reply (log.map Transfer.value)) false

theorem known_of_isSwd {m : Msg} (h : m.IsSwd) (fw : Firmware) : m.known fw = true := by
  cases m <;> first | rfl | exact h.elim

/-- The device end: what it sends answers the messages it was sent. -/
theorem serveAll_answers (fw : Firmware) (T : SwdTarget σ) {ms : List Msg}
    (hswd : ∀ m ∈ ms, m.IsSwd) (s : Session σ) :
    ∃ d, Answers ms (T.transfers (ms.flatMap Msg.acts) s.dev.target) d
        (T.acts (ms.flatMap Msg.acts) s.dev.target).ok ∧
      (serveAll fw T ms s).1.tx = s.tx ++ d ∧
      (serveAll fw T ms s).1.dev.target = (T.acts (ms.flatMap Msg.acts) s.dev.target).target ∧
      (serveAll fw T ms s).2.1 =
        if (T.acts (ms.flatMap Msg.acts) s.dev.target).ok then 0 else 3 := by
  induction ms generalizing s with
  | nil => exact ⟨[], .done, by simp [serveAll], rfl, rfl⟩
  | cons m ms ih =>
    have hm := hswd m List.mem_cons_self
    have htx := serve_tx fw T m s
    have hdev := serve_target fw T m s
    have hst : (m.serve fw T s).2 = if (T.acts m.acts s.dev.target).ok then 0 else 3 := by
      simp only [Msg.serve, Msg.status, known_of_isSwd hm, ↓reduceIte]
    rw [← transfers_values] at htx
    rw [List.flatMap_cons, transfers_append]
    rcases transfers_end T m.acts s.dev.target with ⟨hok, hlen, hall⟩ | ⟨hok, hlen, hstop⟩
    · have h0 : (m.serve fw T s).2 = 0 := by rw [hst, hok, if_pos rfl]
      obtain ⟨d, hans, htx', htgt', hst'⟩ :=
        ih (fun m' hm' => hswd m' (List.mem_cons_of_mem m hm')) (m.serve fw T s).1
      rw [hdev] at hans htgt' hst'
      rw [if_pos hok, acts_append_ok T _ _ _ hok]
      refine ⟨_, .served hlen hall hans, ?_⟩
      simp only [serveAll, h0, ↓reduceIte]
      refine ⟨?_, htgt', hst'⟩
      rw [htx', htx, List.append_assoc]
    · have h3 : (m.serve fw T s).2 = 3 := by rw [hst, hok]; rfl
      have hne : ¬ (3 : Word) = 0 := by decide
      have hokf : ¬ (T.acts m.acts s.dev.target).ok = true := by simp [hok]
      rw [if_neg hokf, acts_append_fail T _ _ _ hok, List.append_nil, hok]
      refine ⟨_, .failed hlen hstop, ?_⟩
      simp only [serveAll, h3, hne, ↓reduceIte]
      exact ⟨htx, hdev, rfl⟩

/-! ### The host end -/

theorem replyLoop_swdData (verbose : Bool) {n : ℕ} (hn : n < 65536) {vs : List Word}
    (hvs : vs.length = n) {rx : List Ptr} (hrx : n ≤ rx.length) (count : ℕ) (data : List Word) :
    replyLoop verbose (count + 1) rx
        (rswdMsg cmdSwdData 0 (BitVec.ofNat 32 n) :: (vs ++ data)) =
      (replyLoop verbose count (rx.drop n) data).map (ReplyRun.stored ((rx.take n).zip vs)) := by
  have harg : (rswdMsgArg (rswdMsg cmdSwdData 0 (BitVec.ofNat 32 n))).toNat = n :=
    rswdMsgArg_count cmdSwdData 0 n hn
  have hcmd : rswdMsgCmd (rswdMsg cmdSwdData 0 (BitVec.ofNat 32 n)) = cmdSwdData := by simp
  have hnull : ¬ cmdSwdData = cmdNull := by decide
  have hcopy : replyCopy n rx (vs ++ data) = .ok ((rx.take n).zip vs) := by
    rw [replyCopy_eq n rx _ hrx, List.length_append, if_pos (by omega), ← hvs, List.take_left]
  simp only [replyLoop, hcmd, harg, hnull, Nat.not_lt.mpr hrx, ↓reduceIte, hcopy]
  rw [← hvs, List.drop_left, hvs]
  cases replyLoop verbose count (rx.drop n) data <;> rfl

theorem replyLoop_ok (verbose : Bool) (count : ℕ) (rx : List Ptr) (c : Word)
    (data : List Word) :
    replyLoop verbose (count + 1) rx (rswdMsg cmdStatus 0 c :: data) = .ok (replyEnd 0) := by
  simp [replyLoop]

theorem replyLoop_swdError (verbose : Bool) (count : ℕ) (rx : List Ptr) (c : Word)
    (data : List Word) :
    ∃ prints, replyLoop verbose (count + 1) rx (rswdMsg cmdStatus 3 c :: data) =
      .ok { stores := [], swdError := some (-3), prints := prints, ret := -3 } := by
  refine ⟨if verbose then [.swdError 3] else [], ?_⟩
  simp [replyLoop]

theorem readWords_le_acts (m : Msg) : m.readWords ≤ m.acts.length := by
  cases m <;> simp [Msg.readWords, Msg.acts]

theorem reply_tail_length {m : Msg} {vs : List Word} (h : vs.length ≤ m.acts.length) :
    (m.reply vs).tail.length = m.readWords := by
  cases m with
  | swdRead op n =>
    simp only [Msg.acts, List.length_replicate] at h
    simp only [Msg.reply, List.tail_cons, List.length_append, List.length_replicate, Msg.readWords]
    omega
  | _ => rfl

/-- A message whose transfers all succeeded has just their words in the reply. -/
theorem reply_tail_full {m : Msg} {vs : List Word} (h : vs.length = m.acts.length) :
    (m.reply vs).tail = vs.take m.readWords := by
  cases m with
  | swdRead op n =>
    have hn : vs.length = n := by simpa [Msg.acts] using h
    simp only [Msg.reply, Msg.readWords, List.tail_cons, ← hn, Nat.sub_self, List.replicate_zero,
      List.append_nil, List.take_length]
  | _ => rfl

/-- What one message put in the reply, filler words included, goes under its pointers. -/
theorem replyLoop_reply (verbose : Bool) {m : Msg} (hm : m.IsSwd) {vs : List Word}
    (hvs : vs.length ≤ m.acts.length) {rx : List Ptr} (hrx : m.readWords ≤ rx.length)
    {count k : ℕ} (hc : (m.reply vs).length + k < count) (data : List Word) :
    ∃ count', k < count' ∧ replyLoop verbose count rx (m.reply vs ++ data) =
      (replyLoop verbose count' (rx.drop m.readWords) data).map
        (ReplyRun.stored ((rx.take m.readWords).zip (m.reply vs).tail)) := by
  have htail := reply_tail_length hvs
  cases m with
  | swdRead op n =>
    obtain ⟨count, rfl⟩ : ∃ c, count = c + 1 := ⟨count - 1, by omega⟩
    simp only [Msg.reply, List.length_cons] at hc
    exact ⟨count, by omega, replyLoop_swdData verbose hm htail hrx count data⟩
  | _ =>
    -- nothing in the reply and no pointer: the loop is where it was
    refine ⟨count, by simpa [Msg.reply] using hc, ?_⟩
    simp only [Msg.reply, Msg.readWords, List.nil_append, List.drop_zero]
    cases replyLoop verbose count rx data <;> rfl

/-- The host end: a reply without a failure leaves every word under its pointer. -/
theorem replyLoop_answers {ms : List Msg} {log : List Transfer} {d : List Word} {ok : Bool}
    (h : Answers ms log d ok) (hok : ok = true) (hswd : ∀ m ∈ ms, m.IsSwd) (verbose : Bool)
    (rx : List Ptr) (hrx : (ms.map Msg.readWords).sum ≤ rx.length) (count : ℕ)
    (hc : d.length < count) (c : Word) (data : List Word) :
    replyLoop verbose count rx (d ++ rswdMsg cmdStatus 0 c :: data) =
        .ok { replyEnd 0 with stores := rx.zip (readsOf ms (log.map Transfer.value)) } ∧
      (readsOf ms (log.map Transfer.value)).length = (ms.map Msg.readWords).sum := by
  induction h generalizing rx count with
  | done =>
    obtain ⟨count, rfl⟩ : ∃ k, count = k + 1 := ⟨count - 1, by omega⟩
    have hnone : rx.zip (readsOf [] (([] : List Transfer).map Transfer.value)) = [] :=
      List.zip_nil_right
    rw [hnone]
    exact ⟨replyLoop_ok verbose count rx c data, rfl⟩
  | @served m ms log rest d ok hlen _ _ ih =>
    rw [List.map_cons, List.sum_cons] at hrx ⊢
    rw [List.length_append] at hc
    have hvs : (log.map Transfer.value).length = m.acts.length := by rw [List.length_map, hlen]
    have hrxm : m.readWords ≤ rx.length := by omega
    obtain ⟨count', hc', hstep⟩ := replyLoop_reply verbose (hswd m List.mem_cons_self)
      (le_of_eq hvs) hrxm hc (d ++ rswdMsg cmdStatus 0 c :: data)
    have hdrop : (ms.map Msg.readWords).sum ≤ (rx.drop m.readWords).length := by
      rw [List.length_drop]
      omega
    obtain ⟨hrest, hlenrest⟩ := ih hok (fun m' hm' => hswd m' (List.mem_cons_of_mem m hm'))
      (rx.drop m.readWords) hdrop count' hc'
    have hreads : readsOf (m :: ms) ((log ++ rest).map Transfer.value) =
        (m.reply (log.map Transfer.value)).tail ++ readsOf ms (rest.map Transfer.value) := by
      have hle : m.readWords ≤ (log.map Transfer.value).length := hvs ▸ readWords_le_acts m
      rw [reply_tail_full hvs, readsOf, List.map_append, ← hvs, List.drop_left,
        List.take_append_of_le_length hle]
    have htail := reply_tail_length (le_of_eq hvs)
    rw [List.append_assoc, hstep, hrest, hreads]
    constructor
    · have hzip : (rx.take m.readWords).length =
          (m.reply (log.map Transfer.value)).tail.length := by
        rw [htail, List.length_take_of_le hrxm]
      simp only [Except.map, ReplyRun.stored, replyEnd]
      rw [← List.zip_append hzip, List.take_append_drop]
    · rw [List.length_append, htail, hlenrest]
  | failed => exact absurd hok (by simp)

/-- A reply with a failure makes the host return it, whatever was stored before. -/
theorem replyLoop_answers_failed {ms : List Msg} {log : List Transfer} {d : List Word} {ok : Bool}
    (h : Answers ms log d ok) (hok : ok = false) (hswd : ∀ m ∈ ms, m.IsSwd) (verbose : Bool)
    (rx : List Ptr) (hrx : (ms.map Msg.readWords).sum ≤ rx.length) (count : ℕ)
    (hc : d.length < count) (c : Word) (data : List Word) :
    ∃ run, replyLoop verbose count rx (d ++ rswdMsg cmdStatus 3 c :: data) = .ok run ∧
      run.ret = -3 ∧ run.swdError = some (-3) := by
  induction h generalizing rx count with
  | done => exact absurd hok (by simp)
  | @served m ms log rest d ok hlen _ _ ih =>
    rw [List.map_cons, List.sum_cons] at hrx
    rw [List.length_append] at hc
    have hvs : (log.map Transfer.value).length ≤ m.acts.length := by rw [List.length_map, hlen]
    have hrxm : m.readWords ≤ rx.length := by omega
    obtain ⟨count', hc', hstep⟩ := replyLoop_reply verbose (hswd m List.mem_cons_self)
      hvs hrxm hc (d ++ rswdMsg cmdStatus 3 c :: data)
    have hdrop : (ms.map Msg.readWords).sum ≤ (rx.drop m.readWords).length := by
      rw [List.length_drop]
      omega
    obtain ⟨run, hrun, hret, herr⟩ := ih hok
      (fun m' hm' => hswd m' (List.mem_cons_of_mem m hm')) (rx.drop m.readWords) hdrop count' hc'
    rw [List.append_assoc, hstep, hrun]
    exact ⟨_, rfl, hret, herr⟩
  | @failed m ms log hlen _ =>
    rw [List.map_cons, List.sum_cons] at hrx
    have hvs : (log.map Transfer.value).length ≤ m.acts.length := by rwa [List.length_map]
    have hrxm : m.readWords ≤ rx.length := by omega
    obtain ⟨count', hc', hstep⟩ := replyLoop_reply verbose (hswd m List.mem_cons_self)
      hvs hrxm (k := 0) hc (rswdMsg cmdStatus 3 c :: data)
    obtain ⟨count', rfl⟩ : ∃ k, count' = k + 1 := ⟨count' - 1, by omega⟩
    obtain ⟨prints, hstatus⟩ := replyLoop_swdError verbose count' (rx.drop m.readWords) c data
    rw [hstep, hstatus]
    exact ⟨_, rfl, rfl, rfl⟩

/-! ### The round trip -/

/-- The word `process_txn` ends a reply with, and what follows it. -/
theorem txnDone_tx (fw : Firmware) (status : Word) (s : TxnState σ) :
    ∃ c pad, (txnDone fw status s).tx = s.tx ++ rswdMsg cmdStatus status c :: pad := by
  simp only [txnDone]
  split_ifs
  · exact ⟨_, [rswdMsg cmdNull 0 0], by rw [List.append_assoc]; rfl⟩
  · exact ⟨_, [], rfl⟩

theorem runServes_target {fw : Firmware} {T : SwdTarget σ} {ms : List Msg}
    (hswd : ∀ m ∈ ms, m.IsSwd) {txnid : Word} {rxp : ℕ} {rxc : ℤ} {dev : Device σ}
    {r : Word × TxnState σ} (hR : RunServes fw T ms (txnStart txnid rxp rxc dev) r) :
    r.2.dev.target = (T.acts (ms.flatMap Msg.acts) dev.target).target := by
  obtain ⟨d, _, _, htgt, _⟩ := serveAll_answers fw T hswd (txnStart txnid rxp rxc dev).toSession
  rwa [← hR.session] at htgt

/-- `process_reply` on the reply to messages that were served. -/
theorem processReply_serveAll {fw : Firmware} {T : SwdTarget σ} {ms : List Msg}
    (hswd : ∀ m ∈ ms, m.IsSwd) {txnid : Word} {rxp : ℕ} {rxc : ℤ} {dev : Device σ}
    {r : Word × TxnState σ} (hR : RunServes fw T ms (txnStart txnid rxp rxc dev) r) {t : Txn}
    (hrx : (ms.map Msg.readWords).sum ≤ t.rx.length) (verbose : Bool) (stale : List Word) :
    ∃ run, processReply verbose t (((txnDone fw r.1 r.2).tx ++ stale).drop 1)
        ((txnDone fw r.1 r.2).tx.length - 1) = .ok run ∧
      ((T.acts (ms.flatMap Msg.acts) dev.target).ok = true →
        run = { replyEnd 0 with
          stores := t.rx.zip (readsOf ms (T.acts (ms.flatMap Msg.acts) dev.target).values) } ∧
        (readsOf ms (T.acts (ms.flatMap Msg.acts) dev.target).values).length =
          (ms.map Msg.readWords).sum) ∧
      ((T.acts (ms.flatMap Msg.acts) dev.target).ok = false →
        run.ret = -3 ∧ run.swdError = some (-3)) := by
  obtain ⟨d, hans, htx, _, hst⟩ := serveAll_answers fw T hswd (txnStart txnid rxp rxc dev).toSession
  rw [← hR.session] at htx
  rw [← hR.status] at hst
  have hdev : (txnStart txnid rxp rxc dev).toSession.dev.target = dev.target := rfl
  rw [hdev] at hans hst
  obtain ⟨c, pad, hdone⟩ := txnDone_tx fw r.1 r.2
  have hwords : (txnDone fw r.1 r.2).tx = txnid :: (d ++ rswdMsg cmdStatus r.1 c :: pad) := by
    rw [hdone, htx]
    rfl
  have hcount : d.length < (txnDone fw r.1 r.2).tx.length - 1 := by
    rw [hwords]
    simp only [List.length_cons, List.length_append]
    omega
  have hdata : ((txnDone fw r.1 r.2).tx ++ stale).drop 1 =
      d ++ rswdMsg cmdStatus r.1 c :: (pad ++ stale) := by
    rw [hwords]
    simp only [List.cons_append, List.append_assoc, List.drop_succ_cons, List.drop_zero]
  rw [hdata, ← transfers_values]
  unfold processReply
  generalize (txnDone fw r.1 r.2).tx.length - 1 = count at hcount ⊢
  cases hok : (T.acts (ms.flatMap Msg.acts) dev.target).ok with
  | true =>
    have h0 : r.1 = 0 := hst.trans (if_pos hok)
    obtain ⟨hrun, hlen⟩ :=
      replyLoop_answers hans hok hswd verbose t.rx hrx _ hcount c (pad ++ stale)
    rw [h0]
    exact ⟨_, hrun, fun _ => ⟨rfl, hlen⟩, fun h => absurd h (by simp)⟩
  | false =>
    have h3 : r.1 = 3 := hst.trans (if_neg (by simp [hok]))
    obtain ⟨run, hrun, hret, herr⟩ :=
      replyLoop_answers_failed hans hok hswd verbose t.rx hrx _ hcount c (pad ++ stale)
    rw [h3]
    exact ⟨run, hrun, fun h => absurd h (by simp), fun _ => ⟨hret, herr⟩⟩

theorem not_isDownload_of_isSwd {m : Msg} (h : m.IsSwd) : ¬ m.IsDownload := by
  cases m <;> first | exact fun hd => hd | exact h.elim

/-- `process_txn` on a framed transaction serves its messages, the padding included. -/
theorem processTxn_framed (fw : Firmware) (T : SwdTarget σ) {t t' : Txn} {ms : List Msg}
    (hms : t.Holds ms) {swdMaxwords : ℕ} {id : Word} (hf : qFrame swdMaxwords id t = .ok t')
    {rx : ℕ → Word} (hrx : payload rx 0 t'.txc = t'.tx) (dev : Device σ) {fuel : ℕ}
    (hfuel : t'.txc ≤ fuel) :
    rx 0 = id ∧ t'.rx = t.rx ∧ ∃ ms' r, (ms' = ms ∨ ms' = ms ++ [.null]) ∧
      requests rx (t'.txc - 1) 1 (t'.txc - 1 : ℕ) = ms' ∧ (∀ m ∈ ms', m.IsSwd) ∧
      t'.rx.length = (ms'.map Msg.readWords).sum ∧
      processTxn fw T fuel (rx 0) rx 1 ((t'.txc - 1 : ℕ) : ℤ) dev = some (txnDone fw r.1 r.2) ∧
      RunServes fw T ms' (txnStart (rx 0) 1 ((t'.txc - 1 : ℕ) : ℤ) dev) r := by
  obtain ⟨ms', wss, hpad, henc, htx, hptr, hlen, hswd⟩ := holds_qFrame hms hf
  have htxc : t'.txc = wss.flatten.length + 1 := by rw [Txn.txc, htx, List.length_cons]
  rw [htxc] at hfuel ⊢
  rw [htxc, htx] at hrx
  obtain ⟨hid, hpay⟩ := payload_eq_cons hrx
  have hreq : requests rx wss.flatten.length 1 (wss.flatten.length : ℕ) = ms' :=
    requests_encoded henc rx 1 _ hpay le_rfl
  have hd : ¬ startsDownload fw T ms' dev.target := by
    rintro ⟨m, hm, hdl⟩
    exact not_isDownload_of_isSwd (hswd m (mem_of_mem_started hm)) hdl
  rw [Nat.add_sub_cancel]
  have hserves := processTxn_serves fw T (rx 0) rx 1 (wss.flatten.length : ℕ) dev
  rw [Int.toNat_natCast, hreq] at hserves
  obtain ⟨r, hrun, hR⟩ := hserves hd fuel (by omega)
  exact ⟨hid, hptr, ms', r, hpad, hreq, hswd, hlen, hrun, hR⟩

/-- A queued transaction, sent through m3debug's `process_txn` into `process_reply`.
Either every transfer succeeded, and the queued pointers get the words read, in order;
or one failed, nothing came after it on the wire, and the host reports it. -/
theorem queued_transaction_round_trip (T : SwdTarget σ) (calls : List QueueCall) (t t' : Txn)
    (swdMaxwords : ℕ) (id : Word) (hq : runCalls qInit calls = .ok t)
    (hf : qFrame swdMaxwords id t = .ok t') (rx : ℕ → Word) (hrx : payload rx 0 t'.txc = t'.tx)
    (dev : Device (σ × List Transfer)) (hlog : dev.target.2 = []) (fuel : ℕ)
    (hfuel : t'.txc ≤ fuel) :
    ∃ s : TxnState (σ × List Transfer),
      processTxn m3debug T.logged fuel (rx 0) rx 1 ((t'.txc - 1 : ℕ) : ℤ) dev = some s ∧
      ∀ (stale : List Word) (h : Host), ∃ run,
        processReply h.swdVerbose t' ((s.tx ++ stale).drop 1) (s.tx.length - 1) = .ok run ∧
        let log := s.dev.target.2
        let words :=
          readsOf (requests rx (t'.txc - 1) 1 (t'.txc - 1 : ℕ)) (log.map Transfer.value)
        ((∀ x ∈ log, x.ok = true) →
          run.ret = 0 ∧ run.stores = t'.rx.zip words ∧ t'.rx.length = words.length ∧
          ∀ (k : ℕ) (p : Ptr) (w : Word), t'.rx[k]? = some p → words[k]? = some w →
            p ∉ t'.rx.drop (k + 1) → (h.take run).mem p = w) ∧
        ((∃ x ∈ log, x.ok = false) →
          run.ret ≠ 0 ∧ (h.take run).swdError ≠ 0 ∧ StopsAtFailure log) := by
  obtain ⟨ms, hms⟩ := holds_runCalls holds_qInit hq
  obtain ⟨_, _, ms', r, _, hreq, hswd, hptrs, hrun, hR⟩ :=
    processTxn_framed m3debug T.logged hms hf hrx dev hfuel
  rw [hreq]
  refine ⟨_, hrun, ?_⟩
  intro stale h
  obtain ⟨run, hreply, hgood, hbad⟩ := processReply_serveAll hswd hR hptrs.ge h.swdVerbose stale
  -- the record on the device is the list of transfers of the messages
  have hlogged : (txnDone m3debug r.1 r.2).dev.target.2 =
      T.transfers (ms'.flatMap Msg.acts) dev.target.1 := by
    show r.2.dev.target.2 = _
    rw [runServes_target hswd hR, acts_logged, hlog, List.nil_append]
  have hvalues := transfers_values T (ms'.flatMap Msg.acts) dev.target.1
  rw [acts_logged, ← hvalues] at hgood
  rw [acts_logged] at hbad
  refine ⟨run, hreply, ?_⟩
  simp only [hlogged]
  rcases transfers_end T (ms'.flatMap Msg.acts) dev.target.1 with
    ⟨hok, _, hall⟩ | ⟨hok, _, hstop⟩
  · constructor
    · intro _
      obtain ⟨hrun, hlen⟩ := hgood hok
      rw [← hptrs] at hlen
      refine ⟨by rw [hrun]; rfl, by rw [hrun], hlen.symm, ?_⟩
      intro k p w hp hw hlast
      obtain ⟨hk, rfl⟩ := List.getElem?_eq_some_iff.mp hp
      obtain ⟨_, rfl⟩ := List.getElem?_eq_some_iff.mp hw
      rw [hrun]
      exact storeAll_getElem h t'.rx _ hlen.symm k hk hlast
    · rintro ⟨x, hx, hfail⟩
      exact absurd (hall x hx) (by simp [hfail])
  · constructor
    · intro hall
      obtain ⟨done, last, hdone, hlast, _⟩ := hstop
      exact absurd (hall last (by simp [hdone])) (by simp [hlast])
    · intro _
      obtain ⟨hret, herr⟩ := hbad hok
      have hget : (h.take run).swdError = -3 := by
        show run.swdError.getD h.swdError = -3
        rw [herr]
        rfl
      exact ⟨by rw [hret]; decide, by rw [hget]; decide, hstop⟩

/-- One AP register read into pointer 5, as `swdp_ap_read` queues it. -/
def apReadTxn : Txn :=
  { tx := [rswdTxnStart 1, swdWr dpSelect 1, 0xF0, swdRx 0xE 1, swdRd dpBuffer 1], rx := [5],
    cacheApaddr := 0xF0, cacheAhbtar := 0xffffffff, magic := 0 }

/-- A target that reads as its IDCODE, of which the reads of RDBUFF succeed or fail. -/
def rdbuffTarget (ok : Bool) : SwdTarget Unit where
  swdpRead hdr t := (t, 0x24770011, ok || hdr ≠ rdBuffer)
  swdpWrite _ _ t := (t, true)
  swdpReset t := t

/-- The firmware's run over that transaction. -/
def apReadServed (ok : Bool) : Option (TxnState (Unit × List Transfer)) :=
  processTxn m3debug (rdbuffTarget ok).logged 5 (rswdTxnStart 1) (fun i => apReadTxn.tx.getD i 0)
    1 4 { idleDevice with target := ((), []) }

theorem apReadServed_transfers {ok : Bool} {s : TxnState (Unit × List Transfer)}
    (hs : apReadServed ok = some s) : s.dev.target.2.map (fun x => (x.value, x.ok)) =
      [(0, true), (0x24770011, true), (0x24770011, ok)] := by
  have hlogs : ∀ ok, (apReadServed ok).map
      (fun s => s.dev.target.2.map fun x => (x.value, x.ok)) =
        some [(0, true), (0x24770011, true), (0x24770011, ok)] := by decide
  have hlog := hlogs ok
  rw [hs] at hlog
  exact Option.some.inj hlog

/-- The register is read and stored; and RDBUFF is not, and nothing said to have been. -/
theorem queued_transaction_round_trip_apRead :
    (∃ s run, apReadServed true = some s ∧
      processReply false apReadTxn (s.tx.drop 1) (s.tx.length - 1) = .ok run ∧
      run.ret = 0 ∧ run.stores = [(5, 0x24770011)]) ∧
    ∃ s run, apReadServed false = some s ∧
      processReply false apReadTxn (s.tx.drop 1) (s.tx.length - 1) = .ok run ∧ run.ret ≠ 0 := by
  have hrun : runCalls qInit [.apRead 0xFC 5] = .ok { apReadTxn with
      tx := apReadTxn.tx.set 0 0, magic := 0x12345678 } := rfl
  have hframe : qFrame 512 (rswdTxnStart 1) { apReadTxn with
      tx := apReadTxn.tx.set 0 0, magic := 0x12345678 } = .ok apReadTxn := rfl
  let h : Host := ⟨2, 1, 512, 5, 0, false, fun _ => 0⟩
  constructor
  · obtain ⟨s, hs, hreply⟩ := queued_transaction_round_trip (rdbuffTarget true) _ _ _ 512 _
      hrun hframe (fun i => apReadTxn.tx.getD i 0) rfl
      { idleDevice with target := ((), []) } rfl 5 (by decide)
    have hserved : apReadServed true = some s := hs
    have hpairs := apReadServed_transfers hserved
    have hvalues : s.dev.target.2.map Transfer.value = [0, 0x24770011, 0x24770011] := by
      have hfst := congrArg (List.map Prod.fst) hpairs
      rwa [List.map_map] at hfst
    have hok : ∀ x ∈ s.dev.target.2, x.ok = true := by
      intro x hx
      have hmem : (x.value, x.ok) ∈ s.dev.target.2.map fun x => (x.value, x.ok) :=
        List.mem_map_of_mem hx
      rw [hpairs] at hmem
      simp only [List.mem_cons, List.not_mem_nil, or_false, Prod.mk.injEq] at hmem
      rcases hmem with h | h | h <;> exact h.2
    obtain ⟨run, hr, hgood, -⟩ := hreply [] h
    rw [List.append_nil] at hr
    have hstores := (hgood hok).2.1
    rw [hvalues] at hstores
    exact ⟨s, run, hserved, hr, (hgood hok).1, hstores⟩
  · obtain ⟨s, hs, hreply⟩ := queued_transaction_round_trip (rdbuffTarget false) _ _ _ 512 _
      hrun hframe (fun i => apReadTxn.tx.getD i 0) rfl
      { idleDevice with target := ((), []) } rfl 5 (by decide)
    have hserved : apReadServed false = some s := hs
    have hmem : (0x24770011, false) ∈ s.dev.target.2.map fun x => (x.value, x.ok) := by
      rw [apReadServed_transfers hserved]
      simp
    obtain ⟨x, hx, hfail⟩ := List.mem_map.mp hmem
    obtain ⟨run, hr, -, hbad⟩ := hreply [] h
    rw [List.append_nil] at hr
    exact ⟨s, run, hserved, hr, (hbad ⟨x, hx, (Prod.mk.inj hfail).2⟩).1⟩

end M3Dev.Rswdp
