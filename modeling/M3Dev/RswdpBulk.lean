import M3Dev.MemAp
import M3Dev.RswdpBatches
import M3Dev.RswdpProbe

/-! The bulk transfers against a probe with a MEM-AP behind it: what a batch does to the
target and brings back, and from that what the whole loop does. -/
namespace M3Dev.Rswdp
open WhileLoop WordBlock

/-! ### Batches as messages -/

def setupMsgs (addr : Word) : List Msg :=
  [.swdWrite (opWr ||| dpSelect) [0],
    .swdWrite (opWr ||| (opAp ||| (ahbCsw &&& 0xC))) [cswInc],
    .swdWrite (opWr ||| (opAp ||| (ahbTar &&& 0xC))) [addr]]

def restoreMsgs (count : ℤ) : List Msg :=
  if count = 0 then [.swdWrite (opWr ||| (opAp ||| (ahbCsw &&& 0xC))) [cswNoInc]] else []

def readBatchMsgs (addr : Word) (n : ℕ) (count : ℤ) : List Msg :=
  setupMsgs addr ++ [.swdDiscard (opRd ||| (opAp ||| (ahbDrw &&& 0xC))) 1,
    .swdRead (opRd ||| (opAp ||| (ahbDrw &&& 0xC))) (n - 1), .swdRead (opRd ||| dpBuffer) 1] ++
    restoreMsgs count

def writeBatchMsgs (addr : Word) (data : List Word) (count : ℤ) : List Msg :=
  setupMsgs addr ++ [.swdWrite (opWr ||| (opAp ||| (ahbDrw &&& 0xC))) data] ++ restoreMsgs count

/-- One register write as a message. -/
theorem write_encoded {a : Word} (ha : a.toNat < 16) (w : Word) :
    Msg.EncodedAs (.swdWrite (opWr ||| a) [w]) [swdWr a 1, w] :=
  swdWr_encoded ha [w] (by simp)

theorem setupMsgs_encoded (addr : Word) :
    ∃ wss, List.Forall₂ Msg.EncodedAs (setupMsgs addr) wss ∧
      setupWords addr = 0 :: wss.flatten := by
  refine ⟨[[swdWr dpSelect 1, 0], [swdWr (opAp ||| (ahbCsw &&& 0xC)) 1, cswInc],
    [swdWr (opAp ||| (ahbTar &&& 0xC)) 1, addr]], ?_, rfl⟩
  exact .cons (write_encoded (by decide) _) (.cons (write_encoded (by decide) _)
    (.cons (write_encoded (by decide) _) .nil))

theorem restoreMsgs_encoded (count : ℤ) :
    ∃ wss, List.Forall₂ Msg.EncodedAs (restoreMsgs count) wss ∧
      restoreWords count = wss.flatten := by
  unfold restoreMsgs restoreWords
  split_ifs
  · exact ⟨[[swdWr (opAp ||| (ahbCsw &&& 0xC)) 1, cswNoInc]],
      .cons (write_encoded (by decide) _) .nil, rfl⟩
  · exact ⟨[], .nil, rfl⟩

theorem batch_holds {ms : List Msg} {wss : List (List Word)} {addr : Word} {count : ℤ}
    {rx : List Ptr} (henc : List.Forall₂ Msg.EncodedAs ms wss)
    (hrx : rx.length = (ms.map Msg.readWords).sum) (hswd : ∀ m ∈ ms, m.IsSwd) :
    Txn.Holds (batchTxn (setupWords addr ++ wss.flatten ++ restoreWords count) rx)
      (setupMsgs addr ++ ms ++ restoreMsgs count) := by
  obtain ⟨ss, hss, hset⟩ := setupMsgs_encoded addr
  obtain ⟨rs, hrs, hres⟩ := restoreMsgs_encoded count
  refine ⟨⟨ss ++ wss ++ rs, List.rel_append (List.rel_append hss henc) hrs, ?_⟩, ?_, ?_, rfl⟩
  · simp only [batchTxn, hset, hres, List.flatten_append, List.cons_append]
  · have hzero : ((restoreMsgs count).map Msg.readWords).sum = 0 := by
      unfold restoreMsgs
      split_ifs <;> rfl
    rw [List.map_append, List.map_append, List.sum_append, List.sum_append, hzero]
    simp [setupMsgs, Msg.readWords, batchTxn, hrx]
  · intro m hm
    rcases List.mem_append.mp hm with hm | hm
    · rcases List.mem_append.mp hm with hm | hm
      · simp only [setupMsgs, List.mem_cons, List.not_mem_nil, or_false] at hm
        rcases hm with rfl | rfl | rfl <;> exact trivial
      · exact hswd m hm
    · unfold restoreMsgs at hm
      split_ifs at hm
      · rw [List.mem_singleton.mp hm]
        exact trivial
      · exact absurd hm (by simp)

theorem readBatch_holds (addr : Word) (ptr : Ptr) {n : ℕ} (hn : 1 ≤ n) (hle : n ≤ 1024)
    (count : ℤ) :
    Txn.Holds (batchTxn (readBatchWords addr n count) (List.range' ptr n))
      (readBatchMsgs addr n count) := by
  have hdrw : (opAp ||| (ahbDrw &&& 0xC)).toNat < 16 := by decide
  have hbuf : dpBuffer.toNat < 16 := by decide
  have hcount : BitVec.ofInt 32 ((n : ℤ) - 1) = BitVec.ofNat 32 (n - 1) := by
    rw [← Nat.cast_pred hn]
    exact BitVec.ofInt_natCast 32 (n - 1)
  have hwords : readBatchWords addr n count = setupWords addr ++
      [[swdRx (opAp ||| (ahbDrw &&& 0xC)) 1],
        [swdRd (opAp ||| (ahbDrw &&& 0xC)) (BitVec.ofNat 32 (n - 1))],
        [swdRd dpBuffer 1]].flatten ++ restoreWords count := by
    rw [readBatchWords, hcount]
    rfl
  have hsmall : n - 1 < 65536 := by omega
  have hone : 1 < 65536 := by decide
  rw [hwords]
  refine batch_holds (.cons (swdRx_encoded hdrw hone) (.cons (swdRd_encoded hdrw hsmall)
    (.cons (swdRd_encoded hbuf hone) .nil))) ?_ ?_
  · simp only [List.length_range', List.map_cons, List.map_nil, Msg.readWords, List.sum_cons,
      List.sum_nil]
    omega
  · intro m hm
    simp only [List.mem_cons, List.not_mem_nil, or_false] at hm
    rcases hm with rfl | rfl | rfl
    · exact trivial
    · exact hsmall
    · exact hone

theorem writeBatch_holds (addr : Word) {data : List Word} (hle : data.length ≤ 1024)
    (count : ℤ) :
    Txn.Holds (batchTxn (writeBatchWords addr data data.length count) [])
      (writeBatchMsgs addr data count) := by
  have hdrw : (opAp ||| (ahbDrw &&& 0xC)).toNat < 16 := by decide
  have hwords : writeBatchWords addr data data.length count = setupWords addr ++
      [swdWr (opAp ||| (ahbDrw &&& 0xC)) (BitVec.ofNat 32 data.length) :: data].flatten ++
      restoreWords count := by
    rw [writeBatchWords, BitVec.ofInt_natCast, List.flatten_singleton]
  rw [hwords]
  refine batch_holds (.cons (swdWr_encoded hdrw data (by omega)) .nil) rfl ?_
  intro m hm
  rw [List.mem_singleton.mp hm]
  exact trivial

/-! ### Batches on the target -/

theorem setup_acts (addr : Word) :
    (setupMsgs addr).flatMap Msg.acts =
      [.write wrSelect 0, .write wrAp0 cswInc, .write wrAp1 addr] := rfl

theorem setup_target (m : MemAp) (addr : Word) :
    memAp.acts [.write wrSelect 0, .write wrAp0 cswInc, .write wrAp1 addr] m =
      ⟨{ m with select := 0, csw := cswInc, tar := addr }, [0, 0, 0], true⟩ := by
  rw [memAp_acts_cons, act_select, memAp_acts_cons, act_csw rfl, memAp_acts_cons, act_tar rfl]
  rfl

theorem restore_target {m : MemAp} (h : m.select = 0) (hinc : m.csw = cswInc) (count : ℤ) :
    ∃ vs, memAp.acts ((restoreMsgs count).flatMap Msg.acts) m =
      ⟨{ m with csw := if count = 0 then cswNoInc else cswInc }, vs, true⟩ := by
  unfold restoreMsgs
  split_ifs
  · have hacts : [Msg.swdWrite (opWr ||| (opAp ||| (ahbCsw &&& 0xC))) [cswNoInc]].flatMap
        Msg.acts = [.write wrAp0 cswNoInc] := rfl
    rw [hacts, memAp_acts_cons, act_csw h]
    exact ⟨_, rfl⟩
  · refine ⟨[], ?_⟩
    rw [← hinc]
    rfl

theorem readsOf_restore (count : ℤ) (vs : List Word) : readsOf (restoreMsgs count) vs = [] := by
  unfold restoreMsgs
  split_ifs <;> rfl

/-- The target after a batch: only what the batch set, and the accesses it made. -/
def MemAp.afterBatch (m : MemAp) (count : ℤ) (tar rdbuff : Word) (mem : Word → Word)
    (log : List Access) : MemAp :=
  { select := 0, csw := if count = 0 then cswNoInc else cswInc, tar := tar, rdbuff := rdbuff,
    mem := mem, log := m.log ++ log }

/-- A read batch inside a page reads its words once each, and the words it asks for are
theirs, the posted one last. -/
theorem readBatch_target (m : MemAp) (addr : Word) {n : ℕ} (hn : 1 ≤ n)
    (hpage : addr.toNat % 0x1000 + 4 * n ≤ 0x1000) (count : ℤ) :
    (∃ tar rdbuff, (memAp.acts ((readBatchMsgs addr n count).flatMap Msg.acts) m).target =
      m.afterBatch count tar rdbuff m.mem (load .read addr n)) ∧
    readsOf (readBatchMsgs addr n count)
        (memAp.acts ((readBatchMsgs addr n count).flatMap Msg.acts) m).values =
      load m.mem addr n := by
  obtain ⟨n, rfl⟩ : ∃ k, n = k + 1 := ⟨n - 1, by omega⟩
  have hacts : (readBatchMsgs addr (n + 1) count).flatMap Msg.acts =
      [.write wrSelect 0, .write wrAp0 cswInc, .write wrAp1 addr] ++
        (List.replicate (n + 1) (.read rdAp3) ++
          ([.read rdBuffer] ++ (restoreMsgs count).flatMap Msg.acts)) := by
    have hdrw : (Msg.swdRead (opRd ||| (opAp ||| (ahbDrw &&& 0xC))) n).acts =
        List.replicate n (.read rdAp3) := rfl
    simp only [readBatchMsgs, List.flatMap_append, setup_acts, List.flatMap_cons,
      List.flatMap_nil, Nat.add_sub_cancel, hdrw, List.replicate_succ, List.append_assoc,
      List.cons_append]
    rfl
  obtain ⟨tar, last, vs, hreads, hvs⟩ := acts_drw_reads (n + 1)
    (m := { m with select := 0, csw := cswInc, tar := addr }) rfl rfl hpage
  obtain ⟨rs, hrestore⟩ := restore_target
    (m := { m with select := 0, csw := cswInc, tar := tar, rdbuff := last,
                   log := m.log ++ load .read addr (n + 1) }) rfl rfl count
  rw [hacts, memAp_acts_append, setup_target, memAp_acts_append, hreads, memAp_acts_append,
    memAp_acts_cons, act_rdbuff]
  simp only [SwdTarget.acts, hrestore]
  constructor
  · exact ⟨tar, last, rfl⟩
  · -- what the messages ask for: all but the first, which is the read before
    have hlen : (load m.mem addr (n + 1)).length = n + 1 := load_length _ _ _
    have hall : vs ++ ([last] ++ rs) = m.rdbuff :: (load m.mem addr (n + 1) ++ rs) := by
      rw [← List.append_assoc, hvs, List.cons_append]
    simp only [List.cons_append, List.nil_append] at hall ⊢
    rw [hall]
    simp only [readBatchMsgs, setupMsgs, List.cons_append, List.nil_append, readsOf,
      Msg.readWords, Msg.acts, readsOf_restore, List.length_map, List.length_replicate,
      List.length_cons, List.length_nil, List.take_zero, List.drop_succ_cons, List.drop_zero,
      Nat.add_sub_cancel, List.append_nil]
    have hdrop : ((load m.mem addr (n + 1)).drop n).length = 1 := by
      rw [List.length_drop, hlen]
      omega
    rw [List.take_append_of_le_length (by omega), List.drop_append_of_le_length (by omega),
      List.take_append_of_le_length hdrop.ge, List.take_of_length_le hdrop.le,
      List.take_append_drop]

/-- A write batch inside a page stores its words, each once. -/
theorem writeBatch_target (m : MemAp) (addr : Word) (data : List Word)
    (hpage : addr.toNat % 0x1000 + 4 * data.length ≤ 0x1000) (count : ℤ) :
    ∃ tar, (memAp.acts ((writeBatchMsgs addr data count).flatMap Msg.acts) m).target =
      m.afterBatch count tar m.rdbuff (store m.mem addr data)
        ((load id addr data.length).zipWith .write data) := by
  have hacts : (writeBatchMsgs addr data count).flatMap Msg.acts =
      [.write wrSelect 0, .write wrAp0 cswInc, .write wrAp1 addr] ++
        (data.map (.write wrAp3) ++ (restoreMsgs count).flatMap Msg.acts) := by
    have hdrw : (Msg.swdWrite (opWr ||| (opAp ||| (ahbDrw &&& 0xC))) data).acts =
        data.map (.write wrAp3) := rfl
    simp only [writeBatchMsgs, List.flatMap_append, setup_acts, List.flatMap_cons,
      List.flatMap_nil, hdrw, List.append_nil, List.append_assoc]
  obtain ⟨tar, vs, hwrites⟩ := acts_drw_writes data
    (m := { m with select := 0, csw := cswInc, tar := addr }) rfl rfl hpage
  obtain ⟨rs, hrestore⟩ := restore_target
    (m := { m with
      select := 0, csw := cswInc, tar := tar, mem := store m.mem addr data,
      log := m.log ++ (load id addr data.length).zipWith .write data }) rfl rfl count
  rw [hacts, memAp_acts_append, setup_target, memAp_acts_append, hwrites]
  simp only [hrestore]
  exact ⟨tar, rfl⟩

/-! ### The loops -/

/-- `m3debug` with a MEM-AP behind it, at the far end of the cable. -/
abbrev bench (beyond : Device MemAp → ℕ → Word) : Link (Device MemAp) := probeLink m3debug memAp beyond

/-- The batch size with a probe's buffer of more than the sixteen words kept free. -/
theorem ahbXfer_fits {swdMaxwords : ℕ} (hlow : 16 < swdMaxwords) (hmw : swdMaxwords ≤ maxwords)
    {addr : Word} (haligned : addr.toNat % 4 = 0) {count : ℤ} (hc : 0 < count) :
    ∃ n : ℕ, ahbXfer swdMaxwords addr count = n ∧ 1 ≤ n ∧ n ≤ swdMaxwords - 16 ∧ (n : ℤ) ≤ count ∧
      addr.toNat % 0x1000 + 4 * n ≤ 0x1000 ∧ (wordAddr addr n).toNat % 4 = 0 ∧
      addr + BitVec.ofInt 32 (ahbXfer swdMaxwords addr count * 4) = wordAddr addr n := by
  have heq := ahbXfer_eq hmw addr hc
  have hsmall : ¬ swdMaxwords < 16 := by omega
  rw [if_neg hsmall] at heq
  obtain ⟨h0, hle, hpage⟩ := ahbXfer_bounds hmw addr hc
  have hwhole : 1 ≤ pageWords addr := by
    unfold pageWords
    omega
  obtain ⟨n, hn⟩ : ∃ n : ℕ, ahbXfer swdMaxwords addr count = n :=
    ⟨(ahbXfer swdMaxwords addr count).toNat, (Int.toNat_of_nonneg h0).symm⟩
  rw [hn] at heq hle hpage
  refine ⟨n, hn, by omega, by omega, hle, ?_, ?_, ?_⟩
  · unfold pageWords at hpage
    omega
  · exact wordAddr_aligned haligned n
  · rw [hn, add_ofInt_words]

/-- The batch size with the 512 words of `m3debug`. -/
theorem ahbXfer_512 {addr : Word} (haligned : addr.toNat % 4 = 0) {count : ℤ} (hc : 0 < count) :
    ∃ n : ℕ, ahbXfer 512 addr count = n ∧ 1 ≤ n ∧ n ≤ 496 ∧ (n : ℤ) ≤ count ∧
      addr.toNat % 0x1000 + 4 * n ≤ 0x1000 ∧ (wordAddr addr n).toNat % 4 = 0 ∧
      addr + BitVec.ofInt 32 (ahbXfer 512 addr count * 4) = wordAddr addr n :=
  ahbXfer_fits (by decide) (by decide) haligned hc

/-- What the passes over `n` words of a bulk loop leave of the arguments and the link. -/
structure Advanced (s s' : BulkState (Device MemAp)) (n : ℕ) : Prop where
  addr : s'.addr = wordAddr s.addr n
  ptr : s'.ptr = s.ptr + n
  count : s'.count = s.count - n
  online : s'.host.swdOnline = 1
  maxwords : s'.host.swdMaxwords = 512
  csw : s'.count = 0 → s'.dev.target.csw = cswNoInc

/-- `n` words read into the host's memory, each once. -/
structure ReadEffect (s s' : BulkState (Device MemAp)) (n : ℕ) : Prop where
  host : s'.host.mem =
    (((List.range' s.ptr n).zip (load s.dev.target.mem s.addr n)).foldl Host.store s.host).mem
  mem : s'.dev.target.mem = s.dev.target.mem
  log : s'.dev.target.log = s.dev.target.log ++ load .read s.addr n

/-- `n` words stored into the target's memory, each once. -/
structure WriteEffect (s s' : BulkState (Device MemAp)) (n : ℕ) : Prop where
  host : s'.host.mem = s.host.mem
  mem : s'.dev.target.mem =
    store s.dev.target.mem s.addr ((List.range' s.ptr n).map s.host.mem)
  log : s'.dev.target.log = s.dev.target.log ++
    (load id s.addr n).zipWith .write ((List.range' s.ptr n).map s.host.mem)

structure ReadDone (s s' : BulkState (Device MemAp)) (n : ℕ) : Prop
    extends Advanced s s' n, ReadEffect s s' n

structure WriteDone (s s' : BulkState (Device MemAp)) (n : ℕ) : Prop
    extends Advanced s s' n, WriteEffect s s' n

theorem Advanced.trans {s s' s'' : BulkState (Device MemAp)} {m n : ℕ} (h : Advanced s s' m)
    (h' : Advanced s' s'' n) : Advanced s s'' (m + n) where
  addr := by rw [h'.addr, h.addr, wordAddr_add]
  ptr := by rw [h'.ptr, h.ptr, Nat.add_assoc]
  count := by
    rw [h'.count, h.count]
    push_cast
    omega
  online := h'.online
  maxwords := h'.maxwords
  csw := h'.csw

theorem ReadDone.trans {s s' s'' : BulkState (Device MemAp)} {m n : ℕ} (h : ReadDone s s' m)
    (h' : ReadDone s' s'' n) : ReadDone s s'' (m + n) where
  toAdvanced := h.toAdvanced.trans h'.toAdvanced
  host := by
    have hlen : (List.range' s.ptr m).length = (load s.dev.target.mem s.addr m).length := by
      rw [List.length_range', load_length]
    rw [h'.host, h.ptr, h.addr, h.mem, ← List.range'_append_1, load_add, List.zip_append hlen,
      List.foldl_append]
    exact storeAll_mem _ h.host
  mem := h'.mem.trans h.mem
  log := by rw [h'.log, h.log, h.addr, load_add, List.append_assoc]

theorem WriteDone.trans {s s' s'' : BulkState (Device MemAp)} {m n : ℕ} (h : WriteDone s s' m)
    (h' : WriteDone s' s'' n) : WriteDone s s'' (m + n) where
  toAdvanced := h.toAdvanced.trans h'.toAdvanced
  host := h'.host.trans h.host
  mem := by
    rw [h'.mem, h.mem, h.addr, h.ptr, h.host, ← List.range'_append_1, List.map_append,
      store_append, List.length_map, List.length_range']
  log := by
    have hlen : (load id s.addr m).length = ((List.range' s.ptr m).map s.host.mem).length := by
      rw [load_length, List.length_map, List.length_range']
    rw [h'.log, h.log, h.addr, h.ptr, h.host, ← List.range'_append_1, load_add, List.map_append,
      List.zipWith_append hlen, List.append_assoc]

/-- One pass of the read loop. -/
theorem ahbRead32_pass (beyond : Device MemAp → ℕ → Word) (stale : List Word) (s : BulkState (Device MemAp))
    (hon : s.host.swdOnline = 1) (hmw : s.host.swdMaxwords = 512)
    (haligned : s.addr.toNat % 4 = 0) (hc : 0 < s.count) :
    ∃ s' n, ahbRead32Pass (bench beyond) stale s = some (.next s') ∧ ReadDone s s' n ∧
      1 ≤ n ∧ (n : ℤ) ≤ s.count ∧ s'.addr.toNat % 4 = 0 := by
  have hmax : s.host.swdMaxwords ≤ maxwords := by rw [hmw]; decide
  obtain ⟨n, hx, h1, h496, hle, hpage, hnext, haddr⟩ := ahbXfer_512 haligned hc
  rw [← hmw] at hx haddr
  have hbatch := ahbRead32Batch_eq s.host s.toBulkArgs hmax hc hx
  -- a read answers with the word read before it; the last word comes from `RDBUFF`
  have hsucc : ((n : ℤ) - 1).toNat + 1 = n := by omega
  rw [hsucc, ← hx, haddr, hx] at hbatch
  have hholds := readBatch_holds s.addr s.ptr h1 (by omega) (s.count - n)
  have hlen : (batchTxn (readBatchWords s.addr n (s.count - n)) (List.range' s.ptr n)).txc <
      s.host.swdMaxwords := by
    simp only [Txn.txc, batchTxn, readBatchWords, setupWords, List.length_append,
      restoreWords_length, List.length_cons, List.length_nil]
    split_ifs <;> omega
  obtain ⟨t', hframe, hfit⟩ := qFrame_fits hmax (rswdTxnStart s.host.sequence) rfl hlen
  rw [hmw] at hfit
  obtain ⟨h', d', hexec, htarget, hmem, _, hon', hmw'⟩ := qExec_probe m3debug memAp hholds hon
    hframe hfit beyond stale s.dev (memAp_acts_ok _ _)
  obtain ⟨⟨tar, rdbuff, hafter⟩, hreads⟩ :=
    readBatch_target s.dev.target s.addr h1 hpage (s.count - n)
  rw [hafter] at htarget
  rw [hreads] at hmem
  refine ⟨_, n, bulkPass_of_ok hc hbatch hexec, ?_, h1, hle, hnext⟩
  exact
    { addr := rfl
      ptr := rfl
      count := rfl
      online := hon'
      maxwords := hmw'.trans hmw
      csw := fun hz => by
        show d'.target.csw = _
        rw [htarget]
        exact if_pos hz
      host := hmem
      mem := by rw [htarget]; rfl
      log := by rw [htarget]; rfl }

theorem ahbWrite32_pass (beyond : Device MemAp → ℕ → Word) (stale : List Word) (s : BulkState (Device MemAp))
    (hon : s.host.swdOnline = 1) (hmw : s.host.swdMaxwords = 512)
    (haligned : s.addr.toNat % 4 = 0) (hc : 0 < s.count) :
    ∃ s' n, ahbWrite32Pass (bench beyond) stale s = some (.next s') ∧ WriteDone s s' n ∧
      1 ≤ n ∧ (n : ℤ) ≤ s.count ∧ s'.addr.toNat % 4 = 0 := by
  have hmax : s.host.swdMaxwords ≤ maxwords := by rw [hmw]; decide
  obtain ⟨n, hx, h1, h496, hle, hpage, hnext, haddr⟩ := ahbXfer_512 haligned hc
  rw [← hmw] at hx haddr
  have hbatch := ahbWrite32Batch_eq s.host s.toBulkArgs hmax hc hx
  rw [← hx, haddr, hx, Int.toNat_natCast] at hbatch
  have hdata : ((List.range' s.ptr n).map s.host.mem).length = n := by
    rw [List.length_map, List.length_range']
  generalize hws : (List.range' s.ptr n).map s.host.mem = data at hbatch hdata
  have hsmall : data.length ≤ 1024 := by omega
  have hholds := writeBatch_holds s.addr hsmall (s.count - n)
  rw [hdata] at hholds
  have hlen : (batchTxn (writeBatchWords s.addr data n (s.count - n)) []).txc <
      s.host.swdMaxwords := by
    simp only [Txn.txc, batchTxn, writeBatchWords, setupWords, List.length_append,
      restoreWords_length, List.length_cons, List.length_nil, hdata]
    split_ifs <;> omega
  obtain ⟨t', hframe, hfit⟩ := qFrame_fits hmax (rswdTxnStart s.host.sequence) rfl hlen
  rw [hmw] at hfit
  obtain ⟨h', d', hexec, htarget, hmem, _, hon', hmw'⟩ := qExec_probe m3debug memAp hholds hon
    hframe hfit beyond stale s.dev (memAp_acts_ok _ _)
  obtain ⟨tar, hafter⟩ :=
    writeBatch_target s.dev.target s.addr data (by omega) (s.count - n)
  rw [hafter] at htarget
  refine ⟨_, n, bulkPass_of_ok hc hbatch hexec, ?_, h1, hle, hnext⟩
  exact
    { addr := rfl
      ptr := rfl
      count := rfl
      online := hon'
      maxwords := hmw'.trans hmw
      csw := fun hz => by
        show d'.target.csw = _
        rw [htarget]
        exact if_pos hz
      host := hmem
      mem := by rw [htarget, hws]; rfl
      log := by rw [htarget, hws, ← hdata]; rfl }

/-- The induction both loops go by: passes that advance add up to the whole count. -/
theorem bulk_run {body : Body (BulkState (Device MemAp)) (Except Stop (ℤ × BulkState (Device MemAp)))}
    (Done : BulkState (Device MemAp) → BulkState (Device MemAp) → ℕ → Prop)
    (hadv : ∀ s s' n, Done s s' n → Advanced s s' n)
    (htrans : ∀ s s' s'' m n, Done s s' m → Done s' s'' n → Done s s'' (m + n))
    (hend : ∀ s, s.count ≤ 0 → body s = some (.exit (.ok (0, s))))
    (hstep : ∀ s, s.host.swdOnline = 1 → s.host.swdMaxwords = 512 → s.addr.toNat % 4 = 0 →
      0 < s.count → ∃ s' n, body s = some (.next s') ∧ Done s s' n ∧ 1 ≤ n ∧
        (n : ℤ) ≤ s.count ∧ s'.addr.toNat % 4 = 0)
    {s : BulkState (Device MemAp)} (hon : s.host.swdOnline = 1) (hmw : s.host.swdMaxwords = 512)
    (haligned : s.addr.toNat % 4 = 0) (hc : 0 < s.count) :
    ∃ s', Leaves body s (.ok (0, s')) ∧ Done s s' s.count.toNat ∧ s'.count = 0 := by
  induction hk : s.count.toNat using Nat.strongRecOn generalizing s with
  | ind k ih =>
    obtain ⟨s', n, hpass, hdone, h1, hle, haligned'⟩ := hstep s hon hmw haligned hc
    have hnext := hadv _ _ _ hdone
    have hcount := hnext.count
    by_cases hleft : 0 < s'.count
    · have hless : s'.count.toNat < k := by omega
      obtain ⟨s'', hleaves, hrest, hzero⟩ :=
        ih _ hless hnext.online hnext.maxwords haligned' hleft rfl
      have hsum : n + s'.count.toNat = k := by omega
      rw [← hsum]
      exact ⟨s'', hleaves.next hpass, htrans _ _ _ _ _ hdone hrest, hzero⟩
    · have hall : n = k := by omega
      rw [← hall]
      exact ⟨s', (Leaves.exit (hend s' (by omega))).next hpass, hdone, by omega⟩

/-- `swdp_ahb_read32` against m3debug: it returns 0 with all words read. -/
theorem ahbRead32_run (beyond : Device MemAp → ℕ → Word) (stale : List Word) {s : BulkState (Device MemAp)}
    (hon : s.host.swdOnline = 1) (hmw : s.host.swdMaxwords = 512)
    (haligned : s.addr.toNat % 4 = 0) (hc : 0 < s.count) :
    ∃ s', Leaves (ahbRead32Pass (bench beyond) stale) s (.ok (0, s')) ∧
      ReadDone s s' s.count.toNat ∧ s'.count = 0 :=
  bulk_run ReadDone (fun _ _ _ h => h.toAdvanced) (fun _ _ _ _ _ => ReadDone.trans)
    (fun _ => bulkPass_end) (fun s => ahbRead32_pass beyond stale s) hon hmw haligned hc

theorem ahbWrite32_run (beyond : Device MemAp → ℕ → Word) (stale : List Word) {s : BulkState (Device MemAp)}
    (hon : s.host.swdOnline = 1) (hmw : s.host.swdMaxwords = 512)
    (haligned : s.addr.toNat % 4 = 0) (hc : 0 < s.count) :
    ∃ s', Leaves (ahbWrite32Pass (bench beyond) stale) s (.ok (0, s')) ∧
      WriteDone s s' s.count.toNat ∧ s'.count = 0 :=
  bulk_run WriteDone (fun _ _ _ h => h.toAdvanced) (fun _ _ _ _ _ => WriteDone.trans)
    (fun _ => bulkPass_end) (fun s => ahbWrite32_pass beyond stale s) hon hmw haligned hc

end M3Dev.Rswdp
