import M3Dev.RswdpAccesses

/-! The mode `swdp_ahb_read32` and `swdp_ahb_write32` leave in `CSW` when a transfer may fail:
every batch turns the increment on, and only the end of the last one turns it off. -/
namespace M3Dev.Rswdp
open WhileLoop WordBlock

/-! ### A wire that fails -/

/-- The MEM-AP, and the transfers tried on the wire so far. -/
structure FaultyAp where
  ap : MemAp
  transfers : ℕ

/-- The transfers that `fails` picks get no OK from the target, and it takes no part in them. -/
def faultyAp (fails : ℕ → Bool) : SwdTarget FaultyAp where
  swdpRead hdr t :=
    if fails t.transfers then ({ t with transfers := t.transfers + 1 }, 0xffffffff, false)
    else
      let r := memAp.swdpRead hdr t.ap
      ({ ap := r.1, transfers := t.transfers + 1 }, r.2)
  swdpWrite hdr value t :=
    if fails t.transfers then ({ t with transfers := t.transfers + 1 }, false)
    else
      let r := memAp.swdpWrite hdr value t.ap
      ({ ap := r.1, transfers := t.transfers + 1 }, r.2)
  swdpReset t := { t with ap := memAp.swdpReset t.ap }

/-- The `n` transfers from number `k` on succeed. -/
def AllOk (fails : ℕ → Bool) (k n : ℕ) : Prop := ∀ i < n, fails (k + i) = false

theorem allOk_add {fails : ℕ → Bool} {k m n : ℕ} :
    AllOk fails k (m + n) ↔ AllOk fails k m ∧ AllOk fails (k + m) n := by
  constructor
  · intro h
    refine ⟨fun i hi => h i (by omega), fun i hi => ?_⟩
    rw [Nat.add_assoc]
    exact h (m + i) (by omega)
  · rintro ⟨hfirst, hrest⟩ i hi
    by_cases him : i < m
    · exact hfirst i him
    · have hat := hrest (i - m) (by omega)
      rwa [Nat.add_assoc, Nat.add_sub_cancel' (by omega)] at hat

theorem AllOk.mono {fails : ℕ → Bool} {k m n : ℕ} (h : AllOk fails k n) (hle : m ≤ n) :
    AllOk fails k m :=
  fun i hi => h i (hi.trans_le hle)

theorem allOk_one {fails : ℕ → Bool} {k : ℕ} : AllOk fails k 1 ↔ fails k = false := by
  constructor
  · intro h
    exact h 0 Nat.zero_lt_one
  · intro h i hi
    rw [Nat.lt_one_iff.mp hi]
    exact h

/-- The transfers that select the bank and set the mode are the first two. -/
theorem AllOk.first_two {fails : ℕ → Bool} {k n : ℕ} (h : AllOk fails k n) (hn : 2 ≤ n) :
    ¬ (fails k = true ∨ fails (k + 1) = true) := by
  have h0 := h 0 (by omega)
  have h1 := h 1 (by omega)
  rw [Nat.add_zero] at h0
  simp [h0, h1]

section Wire

variable {fails : ℕ → Bool} {a : Act} (as : List Act) {t : FaultyAp}

theorem faulty_act_fails (hwire : a ≠ .lineReset) (h : fails t.transfers = true) :
    ((faultyAp fails).act t a).1 = { t with transfers := t.transfers + 1 } ∧
      ((faultyAp fails).act t a).2.2 = false := by
  cases a with
  | read hdr => simp only [SwdTarget.act, faultyAp, h, ↓reduceIte, and_self]
  | write hdr value => simp only [SwdTarget.act, faultyAp, h, ↓reduceIte, and_self]
  | lineReset => exact absurd rfl hwire

theorem faulty_act_succeeds (hwire : a ≠ .lineReset) (h : fails t.transfers = false) :
    ((faultyAp fails).act t a).1 =
        { ap := (memAp.act t.ap a).1, transfers := t.transfers + 1 } ∧
      ((faultyAp fails).act t a).2.2 = true := by
  have hok := memAp_act_ok t.ap a
  cases a with
  | read hdr =>
    simp only [SwdTarget.act] at hok
    simp only [SwdTarget.act, faultyAp, h, Bool.false_eq_true, ↓reduceIte, hok, and_self]
  | write hdr value =>
    simp only [SwdTarget.act] at hok
    simp only [SwdTarget.act, faultyAp, h, Bool.false_eq_true, ↓reduceIte, hok, and_self]
  | lineReset => exact absurd rfl hwire

/-- A transfer that fails is the last one. -/
theorem faulty_acts_fails (hwire : a ≠ .lineReset) (h : fails t.transfers = true) :
    ((faultyAp fails).acts (a :: as) t).target = { t with transfers := t.transfers + 1 } ∧
      ((faultyAp fails).acts (a :: as) t).ok = false := by
  obtain ⟨htarget, hok⟩ := faulty_act_fails hwire h
  simp only [SwdTarget.acts, hok, Bool.false_eq_true, ↓reduceIte, htarget, and_self]

theorem faulty_acts_succeeds (hwire : a ≠ .lineReset) (h : fails t.transfers = false)
    {u : FaultyAp} (hu : u = { ap := (memAp.act t.ap a).1, transfers := t.transfers + 1 }) :
    ((faultyAp fails).acts (a :: as) t).target = ((faultyAp fails).acts as u).target ∧
      ((faultyAp fails).acts (a :: as) t).ok = ((faultyAp fails).acts as u).ok := by
  obtain ⟨htarget, hok⟩ := faulty_act_succeeds hwire h
  simp only [SwdTarget.acts, hok, ↓reduceIte, htarget, hu, and_self]

/-- Success means that every transfer has been made and none failed. -/
theorem faulty_acts_ok (hwire : ∀ a ∈ as, a ≠ .lineReset) :
    (((faultyAp fails).acts as t).ok = true ↔ AllOk fails t.transfers as.length) ∧
      (((faultyAp fails).acts as t).ok = true →
        ((faultyAp fails).acts as t).target.transfers = t.transfers + as.length) := by
  induction as generalizing t with
  | nil => exact ⟨⟨fun _ i hi => absurd hi (Nat.not_lt_zero i), fun _ => rfl⟩, fun _ => rfl⟩
  | cons a as ih =>
    have ha := hwire a List.mem_cons_self
    have has : ∀ a ∈ as, a ≠ .lineReset := fun b hb => hwire b (List.mem_cons_of_mem a hb)
    rw [List.length_cons, Nat.add_comm as.length 1, allOk_add, allOk_one]
    cases hfail : fails t.transfers with
    | true =>
      rw [(faulty_acts_fails as ha hfail).2]
      simp
    | false =>
      obtain ⟨htarget, hok⟩ := faulty_acts_succeeds as ha hfail rfl
      obtain ⟨hiff, hdone⟩ := ih has
        (t := { ap := (memAp.act t.ap a).1, transfers := t.transfers + 1 })
      rw [htarget, hok, ← Nat.add_assoc]
      exact ⟨⟨fun h => ⟨rfl, hiff.mp h⟩, fun h => hiff.mpr h.2⟩, hdone⟩

end Wire

/-! ### The mode over a batch -/

/-- A transfer that changes neither `SELECT` nor `CSW`. -/
structure Act.LeavesMode (a : Act) : Prop where
  transfer : a ≠ .lineReset
  keeps : ∀ m : MemAp, m.select = 0 →
    (memAp.act m a).1.select = 0 ∧ (memAp.act m a).1.csw = m.csw

theorem leavesMode_tar (addr : Word) : (Act.write wrAp1 addr).LeavesMode where
  transfer := Act.noConfusion
  keeps m h := by
    rw [act_tar h]
    exact ⟨h, rfl⟩

theorem leavesMode_drw_write (value : Word) : (Act.write wrAp3 value).LeavesMode where
  transfer := Act.noConfusion
  keeps m h := by
    rw [act_drw_write h]
    obtain ⟨tar, hbump⟩ := bump_frame { m with
      mem := Function.update m.mem m.tar value, log := m.log ++ [.write m.tar value] }
    rw [hbump]
    exact ⟨h, rfl⟩

theorem leavesMode_drw_read : (Act.read rdAp3).LeavesMode where
  transfer := Act.noConfusion
  keeps m h := by
    rw [act_drw_read h]
    obtain ⟨tar, hbump⟩ := bump_frame
      { m with rdbuff := m.mem m.tar, log := m.log ++ [.read m.tar] }
    rw [hbump]
    exact ⟨h, rfl⟩

theorem leavesMode_rdbuff : (Act.read rdBuffer).LeavesMode where
  transfer := Act.noConfusion
  keeps m h := by
    rw [act_rdbuff]
    exact ⟨h, rfl⟩

/-- Whether they succeed or not. -/
theorem acts_leaveMode (fails : ℕ → Bool) {as : List Act} (has : ∀ a ∈ as, a.LeavesMode)
    {t : FaultyAp} (hsel : t.ap.select = 0) :
    ((faultyAp fails).acts as t).target.ap.select = 0 ∧
      ((faultyAp fails).acts as t).target.ap.csw = t.ap.csw := by
  induction as generalizing t with
  | nil => exact ⟨hsel, rfl⟩
  | cons a as ih =>
    have ha := has a List.mem_cons_self
    cases hfail : fails t.transfers with
    | true =>
      rw [(faulty_acts_fails as ha.transfer hfail).1]
      exact ⟨hsel, rfl⟩
    | false =>
      obtain ⟨hsel', hcsw'⟩ := ha.keeps t.ap hsel
      obtain ⟨hsel'', hcsw''⟩ := ih (fun b hb => has b (List.mem_cons_of_mem a hb))
        (t := { ap := (memAp.act t.ap a).1, transfers := t.transfers + 1 }) hsel'
      rw [(faulty_acts_succeeds as ha.transfer hfail rfl).1]
      exact ⟨hsel'', hcsw''.trans hcsw'⟩

def restoreActs (count : ℤ) : List Act := if count = 0 then [.write wrAp0 cswNoInc] else []

/-- The transfers of a batch around those of its words. -/
def batchActs (words : List Act) (count : ℤ) : List Act :=
  .write wrSelect 0 :: .write wrAp0 cswInc :: (words ++ restoreActs count)

theorem restoreMsgs_acts (count : ℤ) :
    (restoreMsgs count).flatMap Msg.acts = restoreActs count := by
  unfold restoreMsgs restoreActs
  split_ifs <;> rfl

/-- The words and the end of a batch, with the increment on. -/
theorem words_mode {fails : ℕ → Bool} {words : List Act} (hwords : ∀ a ∈ words, a.LeavesMode)
    (count : ℤ) {t : FaultyAp} (hsel : t.ap.select = 0) (hcsw : t.ap.csw = cswInc) :
    ((faultyAp fails).acts (words ++ restoreActs count) t).target.ap.csw =
      if ((faultyAp fails).acts (words ++ restoreActs count) t).ok = true ∧ count = 0 then cswNoInc
      else cswInc := by
  obtain ⟨hsel', hcsw'⟩ := acts_leaveMode fails hwords hsel
  rw [hcsw] at hcsw'
  unfold restoreActs
  by_cases hc : count = 0
  · simp only [hc, ↓reduceIte, and_true]
    cases hok : ((faultyAp fails).acts words t).ok with
    | false =>
      rw [acts_append_fail _ _ _ _ hok, hok, if_neg Bool.false_ne_true, hcsw']
    | true =>
      rw [acts_append_ok _ _ _ _ hok]
      generalize ((faultyAp fails).acts words t).target = u at hsel' hcsw'
      have hwire : Act.write wrAp0 cswNoInc ≠ .lineReset := Act.noConfusion
      -- the write that turns the increment off
      cases hfail : fails u.transfers with
      | true =>
        obtain ⟨htarget, hend⟩ := faulty_acts_fails [] hwire hfail
        simp only [htarget, hend, Bool.false_eq_true, ↓reduceIte, hcsw']
      | false =>
        obtain ⟨htarget, hend⟩ := faulty_acts_succeeds [] hwire hfail rfl
        simp only [htarget, hend]
        simp only [SwdTarget.acts, ↓reduceIte, act_csw hsel']
  · rw [if_neg hc, List.append_nil, if_neg (fun h => hc h.2), hcsw']

/-- The mode after a batch: off where it came to its end and was the last one, as before
where it did not come to set it, on everywhere else. -/
theorem batch_mode (fails : ℕ → Bool) {words : List Act} (hwords : ∀ a ∈ words, a.LeavesMode)
    (count : ℤ) (t : FaultyAp) :
    ((faultyAp fails).acts (batchActs words count) t).target.ap.csw =
      if fails t.transfers = true ∨ fails (t.transfers + 1) = true then t.ap.csw
      else if ((faultyAp fails).acts (batchActs words count) t).ok = true ∧ count = 0 then cswNoInc
      else cswInc := by
  have hselect : Act.write wrSelect 0 ≠ .lineReset := Act.noConfusion
  have hset : Act.write wrAp0 cswInc ≠ .lineReset := Act.noConfusion
  unfold batchActs
  cases h0 : fails t.transfers with
  | true => rw [(faulty_acts_fails _ hselect h0).1, if_pos (Or.inl rfl)]
  | false =>
    obtain ⟨htarget, hok⟩ := faulty_acts_succeeds
      (.write wrAp0 cswInc :: (words ++ restoreActs count)) hselect h0
      (u := { ap := { t.ap with select := 0 }, transfers := t.transfers + 1 }) rfl
    rw [htarget, hok]
    cases h1 : fails (t.transfers + 1) with
    | true => rw [(faulty_acts_fails _ hset h1).1, if_pos (Or.inr rfl)]
    | false =>
      obtain ⟨htarget', hok'⟩ := faulty_acts_succeeds (words ++ restoreActs count)
        (t := { ap := { t.ap with select := 0 }, transfers := t.transfers + 1 }) hset h1
        (u := { ap := { t.ap with select := 0, csw := cswInc },
                transfers := t.transfers + 1 + 1 }) (by rw [act_csw rfl])
      rw [htarget', hok', words_mode hwords count rfl rfl]
      simp

/-- A batch succeeds where all its transfers do. -/
theorem batch_ok (fails : ℕ → Bool) {words : List Act} (hwords : ∀ a ∈ words, a.LeavesMode)
    {len : ℕ} (hlen : words.length + 2 = len) (count : ℤ) (t : FaultyAp) :
    (((faultyAp fails).acts (batchActs words count) t).ok = true ↔
        AllOk fails t.transfers (len + if count = 0 then 1 else 0)) ∧
      (((faultyAp fails).acts (batchActs words count) t).ok = true →
        ((faultyAp fails).acts (batchActs words count) t).target.transfers =
          t.transfers + (len + if count = 0 then 1 else 0)) := by
  have hwire : ∀ a ∈ batchActs words count, a ≠ .lineReset := by
    intro a ha
    simp only [batchActs, restoreActs, List.mem_cons, List.mem_append] at ha
    rcases ha with rfl | rfl | ha | ha
    · exact Act.noConfusion
    · exact Act.noConfusion
    · exact (hwords a ha).transfer
    · split_ifs at ha
      · rw [List.mem_singleton.mp ha]
        exact Act.noConfusion
      · exact absurd ha List.not_mem_nil
  have hlength : (batchActs words count).length = len + if count = 0 then 1 else 0 := by
    simp only [batchActs, restoreActs, List.length_cons, List.length_append]
    split_ifs <;> simp only [List.length_cons, List.length_nil] <;> omega
  rw [← hlength]
  exact faulty_acts_ok _ hwire

/-! ### The bulk transfers -/

inductive BulkOp where
  | read32
  | write32
  deriving DecidableEq, Repr

namespace BulkOp

def batch : BulkOp → Batch
  | read32 => ahbRead32Batch
  | write32 => ahbWrite32Batch

def pass {δ : Type*} (usb : Link δ) (stale : List Word) :
    BulkOp → Body (BulkState δ) (Except Stop (ℤ × BulkState δ))
  | read32 => ahbRead32Pass usb stale
  | write32 => ahbWrite32Pass usb stale

/-- Transfers of a batch besides one for each word: `SELECT`, `CSW`, `TAR`, and the last
result of a read. -/
def setup : BulkOp → ℕ
  | read32 => 4
  | write32 => 3

theorem two_le_setup (op : BulkOp) : 2 ≤ op.setup := by
  cases op <;> decide

theorem pass_eq {δ : Type*} (op : BulkOp) (usb : Link δ) (stale : List Word) :
    op.pass usb stale = bulkPass op.batch (qExec usb stale) := by
  cases op <;> rfl

theorem pass_end {δ : Type*} (op : BulkOp) (usb : Link δ) (stale : List Word) {s : BulkState δ}
    (hc : s.count ≤ 0) : op.pass usb stale s = some (.exit (.ok (0, s))) := by
  rw [op.pass_eq]
  exact bulkPass_end hc

end BulkOp

/-- The batches a count takes. -/
def batches (swdMaxwords : ℕ) : ℕ → Word → ℤ → ℕ
  | 0, _, _ => 0
  | fuel + 1, addr, count =>
    if count ≤ 0 then 0
    else
      let xfer := ahbXfer swdMaxwords addr count
      1 + batches swdMaxwords fuel (addr + BitVec.ofInt 32 (xfer * 4)) (count - xfer)

/-- The transfers of a whole call, the write that turns the increment off included. -/
def BulkOp.transfers (op : BulkOp) (swdMaxwords : ℕ) (addr : Word) (count : ℤ) : ℕ :=
  count.toNat + op.setup * batches swdMaxwords count.toNat addr count + 1

/-- A batch of `n` words in the buffer. -/
structure Prepared (op : BulkOp) (h : Host) (a : BulkArgs) (n : ℕ) (t : Txn) : Prop where
  batch : op.batch h a =
    .ok (t, { addr := wordAddr a.addr n, ptr := a.ptr + n, count := a.count - n })
  magic : t.magic = 0x12345678
  fits : t.txc < h.swdMaxwords
  holds : ∃ ms words, t.Holds ms ∧ ms.flatMap Msg.acts = batchActs words (a.count - n) ∧
    words.length + 2 = n + op.setup ∧ ∀ x ∈ words, x.LeavesMode

section Batches

variable {h : Host} {a : BulkArgs} (hlow : 16 < h.swdMaxwords) (hmw : h.swdMaxwords ≤ maxwords)
  (hc : 0 < a.count) {n : ℕ} (hx : ahbXfer h.swdMaxwords a.addr a.count = n) (h1 : 1 ≤ n)
  (hbuf : n ≤ h.swdMaxwords - 16) (hsmall : n ≤ 1024)

include hlow hmw hc hx h1 hbuf hsmall

theorem prepared_read32 : Prepared .read32 h a n
    (batchTxn (readBatchWords a.addr n (a.count - n)) (List.range' a.ptr n)) where
  batch := by
    have hbatch := ahbRead32Batch_eq h a hmw hc hx
    have hsucc : ((n : ℤ) - 1).toNat + 1 = n := by omega
    rw [hsucc, add_ofInt_words] at hbatch
    exact hbatch
  magic := rfl
  fits := by
    simp only [Txn.txc, batchTxn, readBatchWords, setupWords, List.length_append,
      restoreWords_length, List.length_cons, List.length_nil]
    split_ifs <;> omega
  holds := by
    refine ⟨readBatchMsgs a.addr n (a.count - n),
      .write wrAp1 a.addr :: (List.replicate n (.read rdAp3) ++ [.read rdBuffer]),
      readBatch_holds a.addr a.ptr h1 hsmall (a.count - n), ?_, ?_, ?_⟩
    · obtain ⟨k, rfl⟩ : ∃ k, n = k + 1 := ⟨n - 1, by omega⟩
      have hdrw : (Msg.swdRead (opRd ||| (opAp ||| (ahbDrw &&& 0xC))) k).acts =
          List.replicate k (.read rdAp3) := rfl
      simp only [readBatchMsgs, List.flatMap_append, setup_acts, restoreMsgs_acts,
        List.flatMap_cons, List.flatMap_nil, Nat.add_sub_cancel, hdrw, List.replicate_succ,
        batchActs, List.append_assoc, List.cons_append]
      rfl
    · simp only [BulkOp.setup, List.length_cons, List.length_append, List.length_replicate,
        List.length_nil]
    · intro x hx
      rcases List.mem_cons.mp hx with rfl | hx
      · exact leavesMode_tar a.addr
      · rcases List.mem_append.mp hx with hx | hx
        · rw [List.eq_of_mem_replicate hx]
          exact leavesMode_drw_read
        · rw [List.mem_singleton.mp hx]
          exact leavesMode_rdbuff

omit h1 in
theorem prepared_write32 : Prepared .write32 h a n
    (batchTxn (writeBatchWords a.addr ((List.range' a.ptr n).map h.mem) n (a.count - n)) []) where
  batch := by
    have hbatch := ahbWrite32Batch_eq h a hmw hc hx
    rw [Int.toNat_natCast, add_ofInt_words] at hbatch
    exact hbatch
  magic := rfl
  fits := by
    simp only [Txn.txc, batchTxn, writeBatchWords, setupWords, List.length_append,
      restoreWords_length, List.length_cons, List.length_nil, List.length_map,
      List.length_range']
    split_ifs <;> omega
  holds := by
    have hdata : ((List.range' a.ptr n).map h.mem).length = n := by
      rw [List.length_map, List.length_range']
    generalize (List.range' a.ptr n).map h.mem = data at hdata
    have hle : data.length ≤ 1024 := by omega
    have hholds := writeBatch_holds a.addr hle (a.count - n)
    rw [hdata] at hholds
    refine ⟨writeBatchMsgs a.addr data (a.count - n),
      .write wrAp1 a.addr :: data.map (.write wrAp3), hholds, ?_, ?_, ?_⟩
    · have hdrw : (Msg.swdWrite (opWr ||| (opAp ||| (ahbDrw &&& 0xC))) data).acts =
          data.map (.write wrAp3) := rfl
      simp only [writeBatchMsgs, List.flatMap_append, setup_acts, restoreMsgs_acts,
        List.flatMap_cons, hdrw, batchActs, List.append_assoc,
        List.cons_append, List.nil_append]
    · simp only [BulkOp.setup, List.length_cons, List.length_map, hdata]
    · intro x hx
      rcases List.mem_cons.mp hx with rfl | hx
      · exact leavesMode_tar a.addr
      · obtain ⟨w, _, rfl⟩ := List.mem_map.mp hx
        exact leavesMode_drw_write w

theorem BulkOp.prepared (op : BulkOp) : ∃ t, Prepared op h a n t := by
  cases op with
  | read32 => exact ⟨_, prepared_read32 hlow hmw hc hx h1 hbuf hsmall⟩
  | write32 => exact ⟨_, prepared_write32 hlow hmw hc hx hbuf hsmall⟩

end Batches

/-! ### The mode over a call -/

theorem still_cswNoInc : Still cswNoInc := by
  show cswNoInc &&& 0x37 = ahbCsw32bit
  decide

theorem not_still_cswInc : ¬ Still cswInc := by
  show ¬ cswInc &&& 0x37 = ahbCsw32bit
  decide

/-- The failure that a batch of a bulk loop returns. -/
theorem bulkPass_failed {δ : Type*} {batch : Batch}
    {exec : Txn → Host → δ → Except Stop (ℤ × Host × δ)} {s : BulkState δ} {t : Txn}
    {a : BulkArgs} {h : Host} {d : δ} {r : ℤ} (hc : 0 < s.count)
    (hb : batch s.host s.toBulkArgs = .ok (t, a)) (he : exec t s.host s.dev = .ok (r, h, d))
    (hr : r ≠ 0) :
    bulkPass batch exec s = some (.exit (.ok (-1, { toBulkArgs := a, host := h, dev := d }))) := by
  have hle : ¬ s.count ≤ 0 := by omega
  simp only [bulkPass, if_neg hle, hb, he, if_pos hr]

/-- The probe is online, and what the host takes its buffer for (512 words where it announces
none, and never more than its own) it has, and more than the sixteen words kept free. -/
structure LinkUp (fw : Firmware) (h : Host) : Prop where
  online : h.swdOnline = 1
  low : 16 < h.swdMaxwords
  max : h.swdMaxwords ≤ maxwords
  room : h.swdMaxwords ≤ fw.rxWords

theorem LinkUp.take {fw : Firmware} {h : Host} (hup : LinkUp fw h) (run : ReplyRun) :
    LinkUp fw (Host.take { h with sequence := h.sequence + 1 } run) := by
  obtain ⟨hmax, honline, _⟩ := take_frame { h with sequence := h.sequence + 1 } run
  constructor
  · exact honline.trans hup.online
  · rw [hmax]
    exact hup.low
  · rw [hmax]
    exact hup.max
  · rw [hmax]
    exact hup.room

theorem Prepared.framed {op : BulkOp} {fw : Firmware} {h : Host} {a : BulkArgs} {n : ℕ} {t : Txn}
    (hp : Prepared op h a n t) (hup : LinkUp fw h) (id : Word) :
    ∃ t', qFrame h.swdMaxwords id t = .ok t' ∧ t'.txc ≤ fw.rxWords := by
  obtain ⟨t', hframe, hfit⟩ := qFrame_fits hup.max id hp.magic hp.fits
  exact ⟨t', hframe, hfit.trans hup.room⟩

/-- One batch on the wire: the pass goes on where all its transfers succeed and leaves the
loop with -1 where one fails, and the mode is that of `batch_mode`. -/
theorem BulkOp.pass_mode (op : BulkOp) {fw : Firmware} (fails : ℕ → Bool)
    (beyond : Device FaultyAp → ℕ → Word) (stale : List Word)
    {s : BulkState (Device FaultyAp)} (hup : LinkUp fw s.host) (hc : 0 < s.count) {n : ℕ}
    {t : Txn} (hp : Prepared op s.host s.toBulkArgs n t) :
    ∃ s' : BulkState (Device FaultyAp),
      s'.addr = wordAddr s.addr n ∧ s'.count = s.count - n ∧ LinkUp fw s'.host ∧
      s'.host.swdMaxwords = s.host.swdMaxwords ∧
      let k := s.dev.target.transfers
      let len := n + op.setup + if s'.count = 0 then 1 else 0
      (AllOk fails k len →
        op.pass (probeLink fw (faultyAp fails) beyond) stale s = some (.next s') ∧
        s'.dev.target.transfers = k + len ∧
        s'.dev.target.ap.csw = if s'.count = 0 then cswNoInc else cswInc) ∧
      (¬ AllOk fails k len →
        op.pass (probeLink fw (faultyAp fails) beyond) stale s = some (.exit (.ok (-1, s'))) ∧
        s'.dev.target.ap.csw =
          if fails k = true ∨ fails (k + 1) = true then s.dev.target.ap.csw else cswInc) := by
  obtain ⟨ms, words, hholds, hacts, hlen, hwords⟩ := hp.holds
  obtain ⟨t', hframe, hfit⟩ := hp.framed hup (rswdTxnStart s.host.sequence)
  obtain ⟨run, d', hexec, htarget, hgood, hbad⟩ :=
    qExec_answered fw (faultyAp fails) hholds hup.online hframe hfit beyond stale s.dev
  rw [hacts] at htarget hgood hbad
  have hmax := (take_frame { s.host with sequence := s.host.sequence + 1 } run).1
  have hmode := batch_mode fails hwords (s.count - n) s.dev.target
  obtain ⟨hok, hdone⟩ := batch_ok fails hwords hlen (s.count - n) s.dev.target
  refine ⟨{ addr := wordAddr s.addr n, ptr := s.ptr + n, count := s.count - n,
            host := Host.take { s.host with sequence := s.host.sequence + 1 } run, dev := d' },
    rfl, rfl, hup.take run, hmax, ?_, ?_⟩
  · -- no transfer fails, and the last one written to the mode stays
    intro hall
    have hran := hok.mpr hall
    have hfirst := hall.first_two (by omega)
    have hret : run.ret = 0 := by
      rw [(hgood hran).1]
      rfl
    rw [hret] at hexec
    rw [if_neg hfirst, ← htarget] at hmode
    rw [← htarget] at hdone
    refine ⟨?_, hdone hran, ?_⟩
    · rw [op.pass_eq]
      exact bulkPass_of_ok hc hp.batch hexec
    · show d'.target.ap.csw = _
      rw [hmode]
      simp only [hran, true_and]
  · -- one fails: whether the mode was written before depends on which
    intro hfail
    have hstopped : ((faultyAp fails).acts (batchActs words (s.count - n)) s.dev.target).ok =
        false := Bool.not_eq_true _ ▸ fun h => hfail (hok.mp h)
    have hret : run.ret ≠ 0 := by
      rw [hbad hstopped]
      decide
    rw [hstopped, ← htarget] at hmode
    refine ⟨?_, ?_⟩
    · rw [op.pass_eq]
      exact bulkPass_failed hc hp.batch hexec hret
    · show d'.target.ap.csw = _
      rw [hmode]
      simp only [Bool.false_eq_true, false_and, ↓reduceIte]

theorem batches_end (swdMaxwords fuel : ℕ) (addr : Word) {count : ℤ} (hc : count ≤ 0) :
    batches swdMaxwords fuel addr count = 0 := by
  cases fuel with
  | zero => rfl
  | succ fuel => rw [batches, if_pos hc]

theorem batches_succ {swdMaxwords : ℕ} (fuel : ℕ) {addr : Word} {count : ℤ} (hc : 0 < count)
    {n : ℕ} (hx : ahbXfer swdMaxwords addr count = n) :
    batches swdMaxwords (fuel + 1) addr count =
      1 + batches swdMaxwords fuel (wordAddr addr n) (count - n) := by
  have hle : ¬ count ≤ 0 := by omega
  simp only [batches, if_neg hle, hx, add_ofInt_words]

/-- The call from a pass on: it returns, with the increment off if no transfer of what is left
fails, or if the mode was right and the first failure comes before it is changed. -/
theorem BulkOp.run_mode (op : BulkOp) {fw : Firmware} (fails : ℕ → Bool)
    (beyond : Device FaultyAp → ℕ → Word) (stale : List Word) (fuel : ℕ)
    {s : BulkState (Device FaultyAp)} (hup : LinkUp fw s.host) (haligned : s.addr.toNat % 4 = 0)
    (hc : 0 < s.count) (hfuel : s.count.toNat ≤ fuel) :
    ∃ r s', Leaves (op.pass (probeLink fw (faultyAp fails) beyond) stale) s (.ok (r, s')) ∧
      (Still s'.dev.target.ap.csw ↔
        (Still s.dev.target.ap.csw ∧ (fails s.dev.target.transfers = true ∨
          fails (s.dev.target.transfers + 1) = true)) ∨
        AllOk fails s.dev.target.transfers (s.count.toNat +
          op.setup * batches s.host.swdMaxwords fuel s.addr s.count + 1)) := by
  -- on the words still to come, a batch at a time
  induction fuel generalizing s with
  | zero => omega
  | succ fuel ih =>
    obtain ⟨n, hx, h1, hbuf, hle, hpage, hnext, _⟩ := ahbXfer_fits hup.low hup.max haligned hc
    have hsmall : n ≤ 1024 := by omega
    obtain ⟨t, hp⟩ := op.prepared hup.low hup.max hc hx h1 hbuf hsmall
    obtain ⟨s', haddr, hcount, hup', hmw, hgood, hbad⟩ := op.pass_mode fails beyond stale hup hc hp
    -- the transfers of this batch, and those of the rest with the one that restores the mode
    have htotal : s.count.toNat + op.setup * batches s.host.swdMaxwords (fuel + 1) s.addr s.count +
        1 = n + op.setup + (s'.count.toNat +
          op.setup * batches s.host.swdMaxwords fuel s'.addr s'.count + 1) := by
      rw [batches_succ fuel hc hx, Nat.mul_add, Nat.mul_one, haddr, hcount]
      omega
    rw [htotal]
    generalize hk : s.dev.target.transfers = k at hgood hbad ⊢
    generalize hrest : s'.count.toNat +
      op.setup * batches s.host.swdMaxwords fuel s'.addr s'.count + 1 = rest
    have hone : 1 ≤ rest := by omega
    have hend : s'.count = 0 → rest = 1 := by
      intro hz
      rw [← hrest, hz, batches_end _ _ _ le_rfl]
      rfl
    by_cases hall : AllOk fails k (n + op.setup + if s'.count = 0 then 1 else 0)
    · obtain ⟨hpass, htransfers, hmode⟩ := hgood hall
      -- the first two transfers of the batch are among those that succeeded
      have hsetup := op.two_le_setup
      have hfirst := hall.first_two (by omega)
      by_cases hz : s'.count = 0
      · -- the last batch writes the mode itself
        have hexit := op.pass_end (probeLink fw (faultyAp fails) beyond) stale hz.le
        rw [if_pos hz] at hmode hall
        rw [hend hz]
        refine ⟨0, s', (Leaves.exit hexit).next hpass, ?_⟩
        rw [hmode]
        exact ⟨fun _ => Or.inr hall, fun _ => still_cswNoInc⟩
      · have hpos : 0 < s'.count := by omega
        obtain ⟨r, s'', hleaves, hiff⟩ := ih hup' (haddr ▸ hnext) hpos (by omega)
        rw [if_neg hz] at hmode
        rw [if_neg hz, Nat.add_zero] at hall htransfers
        rw [hmode, hmw, hrest, htransfers] at hiff
        refine ⟨r, s'', hleaves.next hpass, hiff.trans ?_⟩
        rw [allOk_add]
        constructor
        · rintro (⟨hstill, _⟩ | hlater)
          · exact absurd hstill not_still_cswInc
          · exact Or.inr ⟨hall, hlater⟩
        · rintro (⟨_, hfail⟩ | ⟨_, hlater⟩)
          · exact absurd hfail hfirst
          · exact Or.inr hlater
    · -- the loop is left at the batch that fails; only its first two transfers touch the mode
      obtain ⟨hpass, hmode⟩ := hbad hall
      have hsome : ¬ AllOk fails k (n + op.setup + rest) := by
        intro h
        refine hall (h.mono ?_)
        split_ifs <;> omega
      refine ⟨-1, s', Leaves.exit hpass, ?_⟩
      rw [hmode]
      split_ifs with hfail
      · exact ⟨fun h => Or.inl ⟨h, hfail⟩, fun h => (h.resolve_right hsome).1⟩
      · exact ⟨fun h => absurd h not_still_cswInc,
          fun h => absurd (h.resolve_right hsome).2 hfail⟩

/-- A call on the wire that fails as `fails` says. -/
abbrev BulkOp.call (op : BulkOp) (fw : Firmware) (fails : ℕ → Bool)
    (beyond : Device FaultyAp → ℕ → Word) (stale : List Word) :
    Body (BulkState (Device FaultyAp)) (Except Stop (ℤ × BulkState (Device FaultyAp))) :=
  op.pass (probeLink fw (faultyAp fails) beyond) stale

/-- Whatever the call returns, the target is in the mode that single words are accessed in. -/
def RestoresMode
    (body : Body (BulkState (Device FaultyAp)) (Except Stop (ℤ × BulkState (Device FaultyAp))))
    (s : BulkState (Device FaultyAp)) : Prop :=
  ∀ r s', Leaves body s (.ok (r, s')) → Still s'.dev.target.ap.csw

/-- There is nothing to do, or the first failure comes before the mode is changed, or there
is none. -/
def FailsBeforeModeOrNever (op : BulkOp) (fails : ℕ → Bool) (s : BulkState (Device FaultyAp)) :
    Prop :=
  let k := s.dev.target.transfers
  s.count ≤ 0 ∨ fails k = true ∨ fails (k + 1) = true ∨
    AllOk fails k (op.transfers s.host.swdMaxwords s.addr s.count)

/-- `swdp_ahb_read32` and `swdp_ahb_write32` return, and leave the increment on whenever a
transfer behind the first batch's write of `CSW` fails. -/
theorem restoresMode_iff (op : BulkOp) {fw : Firmware} (fails : ℕ → Bool)
    (beyond : Device FaultyAp → ℕ → Word) (stale : List Word) {s : BulkState (Device FaultyAp)}
    (hup : LinkUp fw s.host) (haligned : s.addr.toNat % 4 = 0)
    (hstill : Still s.dev.target.ap.csw) :
    (∃ r s', Leaves (op.call fw fails beyond stale) s (.ok (r, s'))) ∧
      (RestoresMode (op.call fw fails beyond stale) s ↔ FailsBeforeModeOrNever op fails s) := by
  obtain ⟨r, s', hleaves, hiff⟩ : ∃ r s', Leaves (op.call fw fails beyond stale) s (.ok (r, s')) ∧
      (Still s'.dev.target.ap.csw ↔ FailsBeforeModeOrNever op fails s) := by
    unfold FailsBeforeModeOrNever
    by_cases hc : 0 < s.count
    · obtain ⟨r, s', hleaves, hiff⟩ :=
        op.run_mode fails beyond stale s.count.toNat hup haligned hc le_rfl
      refine ⟨r, s', hleaves, hiff.trans ?_⟩
      have hle : ¬ s.count ≤ 0 := by omega
      simp only [hstill, true_and, hle, false_or, BulkOp.transfers, or_assoc]
    · have hle : s.count ≤ 0 := by omega
      have hexit := op.pass_end (probeLink fw (faultyAp fails) beyond) stale hle
      exact ⟨0, s, Leaves.exit hexit, fun _ => Or.inl hle, fun _ => hstill⟩
  refine ⟨⟨r, s', hleaves⟩, ?_⟩
  rw [← hiff]
  constructor
  · intro h
    exact h r s' hleaves
  · intro h r' s'' hleaves'
    -- the loop is left in one way
    obtain rfl := (Prod.mk.inj (Except.ok.inj (hleaves.unique hleaves'))).2
    exact h

/-- A call for `count` words of RAM, with nothing tried on the wire yet. -/
def freshCall (count : ℤ) : BulkState (Device FaultyAp) where
  addr := 0x20000000
  ptr := 0
  count := count
  host := { sequence := 0, swdOnline := 1, swdMaxwords := 512, swdVersion := 0, swdError := 0,
            swdVerbose := false, mem := fun _ => 0 }
  dev := { idleDevice with target := { ap := resetDevice.target, transfers := 0 } }

theorem freshCall_linkUp (count : ℤ) : LinkUp m3debug (freshCall count).host where
  online := rfl
  low := (by decide : 16 < 512)
  max := (by decide : 512 ≤ maxwords)
  room := le_rfl

theorem restoresMode_iff_write :
    RestoresMode (BulkOp.write32.call m3debug (fun _ => false) (fun _ _ => 0) []) (freshCall 700) :=
  ((restoresMode_iff .write32 (fun _ => false) (fun _ _ => 0) [] (freshCall_linkUp 700) (by decide)
    still_cswNoInc).2).mpr (Or.inr (Or.inr (Or.inr fun _ _ => rfl)))

/-- A word that cannot be read: the access fails, which shows in the transfer after it. -/
theorem mode_not_restored :
    ¬ RestoresMode (BulkOp.read32.call m3debug (fun i => i == 4) (fun _ _ => 0) [])
      (freshCall 1) := by
  intro h
  have hx : ahbXfer (freshCall 1).host.swdMaxwords (freshCall 1).addr (freshCall 1).count =
      (1 : ℕ) := by decide
  obtain ⟨r, s', hleaves, hiff⟩ := BulkOp.read32.run_mode (fun i => i == 4) (fun _ _ => 0) [] 1
    (freshCall_linkUp 1) (by decide) (by decide) (by decide)
  rcases hiff.mp (h r s' hleaves) with ⟨_, hearly⟩ | hnever
  · exact absurd hearly (by decide)
  · have hlast : 4 < (freshCall 1).count.toNat + BulkOp.read32.setup *
        batches (freshCall 1).host.swdMaxwords 1 (freshCall 1).addr (freshCall 1).count + 1 := by
      rw [batches_succ 0 (by decide) hx]
      decide
    exact absurd (hnever 4 hlast) (by decide)

end M3Dev.Rswdp
