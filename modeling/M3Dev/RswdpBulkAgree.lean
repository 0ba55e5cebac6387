import M3Dev.RswdpPlain
import Mathlib.Data.List.Nodup

/-! The bulk transfers next to their plain versions: what each leaves behind, and for which
counts the two are the same. -/
namespace M3Dev.Rswdp
open WhileLoop WordBlock

/-! ### Plain batches -/

theorem plainXfer_eq {count : ℤ} (hc : 0 < count) :
    plainXfer count = (min count.toNat 128 : ℕ) := by
  unfold plainXfer
  split_ifs <;> omega

theorem plainStep_eq {a : BulkArgs} (hc : 0 < a.count) :
    a.plainStep =
      { addr := wordAddr a.addr (min a.count.toNat 128), ptr := a.ptr + min a.count.toNat 128,
        count := a.count - (min a.count.toNat 128 : ℕ) } := by
  unfold BulkArgs.plainStep
  rw [plainXfer_eq hc]
  simp only [add_ofInt_words, Int.toNat_natCast]

/-- A plain read batch queues the words up to 128. -/
theorem plainRead32Batch_eq (h : Host) {a : BulkArgs} (haligned : a.addr.toNat % 4 = 0)
    (hc : 0 < a.count) :
    ∃ t, plainRead32Batch h a = .ok (t, a.plainStep) ∧
      t.Holds (.swdWrite (opWr ||| dpSelect) [0] ::
        wordsMsgs (fun addr _ => plainReadMsgs addr) (min a.count.toNat 128) a.addr a.ptr) ∧
      t.txc = 3 + 4 * min a.count.toNat 128 ∧ t.rx = List.range' a.ptr (min a.count.toNat 128) := by
  have hone : ∀ p : Ptr, [p].length ≤ 1 := fun p => le_rfl
  obtain ⟨t, hloop, hholds, htxc, hrx⟩ := plainLoop_qInit qAhbRead_queuesWord hone
    (n := min a.count.toNat 128) (by omega) (Nat.min_le_right _ _) haligned a.ptr
  have hflat : (List.range' a.ptr (min a.count.toNat 128)).flatMap (fun p => [p]) =
      List.range' a.ptr (min a.count.toNat 128) := List.flatMap_singleton' _
  rw [hflat] at hrx
  refine ⟨t, ?_, hholds, htxc, hrx⟩
  unfold plainRead32Batch plainReads
  rw [plainXfer_eq hc, Int.toNat_natCast, hloop]
  rfl

theorem plainWrite32Batch_eq (h : Host) {a : BulkArgs} (haligned : a.addr.toNat % 4 = 0)
    (hc : 0 < a.count) :
    ∃ t, plainWrite32Batch h a = .ok (t, a.plainStep) ∧
      t.Holds (.swdWrite (opWr ||| dpSelect) [0] ::
        wordsMsgs (fun addr p => plainWriteMsgs addr (h.mem p)) (min a.count.toNat 128) a.addr
          a.ptr) ∧
      t.txc = 3 + 4 * min a.count.toNat 128 ∧ t.rx = [] := by
  have hnone : ∀ p : Ptr, ([] : List Ptr).length ≤ 1 := fun p => Nat.zero_le 1
  obtain ⟨t, hloop, hholds, htxc, hrx⟩ := plainLoop_qInit (qAhbWrite_queuesWord h.mem) hnone
    (n := min a.count.toNat 128) (by omega) (Nat.min_le_right _ _) haligned a.ptr
  have hflat : (List.range' a.ptr (min a.count.toNat 128)).flatMap (fun _ => ([] : List Ptr)) =
      [] := by simp
  rw [hflat] at hrx
  refine ⟨t, ?_, hholds, htxc, hrx⟩
  unfold plainWrite32Batch plainWrites
  rw [plainXfer_eq hc, Int.toNat_natCast, hloop]
  rfl

/-- A plain batch of up to 127 words is no longer than the probe's buffer. -/
theorem plain_fits {t : Txn} {n : ℕ} (htxc : t.txc = 3 + 4 * n) (hle : n ≤ 127)
    (hm : t.magic = 0x12345678) (id : Word) :
    ∃ t', qFrame 512 id t = .ok t' ∧ t'.txc ≤ m3debug.rxWords := by
  have hroom : t.txc < maxwords := by
    show t.txc < 2048
    omega
  obtain ⟨t', hf, hlen⟩ := qFrame_of_room 512 id hm hroom
  refine ⟨t', hf, ?_⟩
  have hodd : ¬ (t.txc % 16 = 0 ∧ t.txc ≠ 512) := by omega
  rw [hlen, paddedLength, if_neg hodd, htxc]
  show 3 + 4 * n ≤ 512
  omega

/-! ### One plain batch -/

/-- The `SELECT` in front of a plain batch. -/
theorem select_target (m : MemAp) (ms : List Msg) :
    memAp.acts ((Msg.swdWrite (opWr ||| dpSelect) [0] :: ms).flatMap Msg.acts) m =
      ⟨(memAp.acts (ms.flatMap Msg.acts) { m with select := 0 }).target,
        0 :: (memAp.acts (ms.flatMap Msg.acts) { m with select := 0 }).values, true⟩ := by
  have hacts : (Msg.swdWrite (opWr ||| dpSelect) [0]).acts = [.write wrSelect 0] := rfl
  rw [List.flatMap_cons, hacts, List.singleton_append, memAp_acts_cons, act_select,
    memAp_acts_ok]

/-- The transaction of a plain batch the probe takes whole: it succeeds, with every word
read, and the link is as before. -/
theorem plainRead32_exec (beyond : Device MemAp → ℕ → Word) (stale : List Word) {s : BulkState (Device MemAp)}
    (hon : s.host.swdOnline = 1) (hmw : s.host.swdMaxwords = 512)
    (haligned : s.addr.toNat % 4 = 0) (hc : 0 < s.count) (hle : s.count ≤ 127) :
    ∃ t h' d', plainRead32Batch s.host s.toBulkArgs = .ok (t, s.plainStep) ∧
      qExec (bench beyond) stale t s.host s.dev = .ok (0, h', d') ∧
      ReadEffect s ⟨s.plainStep, h', d'⟩ s.count.toNat ∧ h'.swdOnline = 1 ∧
      h'.swdMaxwords = 512 := by
  have hn : min s.count.toNat 128 = s.count.toNat := by omega
  obtain ⟨t, hbatch, hholds, htxc, hrx⟩ := plainRead32Batch_eq s.host haligned hc
  rw [hn] at hholds htxc hrx
  obtain ⟨t', hframe, hfit⟩ := plain_fits htxc (by omega) hholds.2.2.2
    (rswdTxnStart s.host.sequence)
  rw [← hmw] at hframe
  obtain ⟨h', d', hexec, htarget, hmem, _, hon', hmw'⟩ := qExec_probe m3debug memAp hholds hon
    hframe hfit beyond stale s.dev (memAp_acts_ok _ _)
  obtain ⟨⟨tar, rdbuff, hafter⟩, hreads⟩ := plainReads_target s.count.toNat
    (m := { s.dev.target with select := 0 }) rfl s.addr s.ptr
  rw [select_target] at htarget hmem
  rw [hafter] at htarget
  have hskip : ∀ ms vs, readsOf (.swdWrite (opWr ||| dpSelect) [0] :: ms) (0 :: vs) =
      readsOf ms vs := fun ms vs => rfl
  rw [hskip, hreads, hrx] at hmem
  refine ⟨t, h', d', hbatch, hexec, ?_, hon', hmw'.trans hmw⟩
  exact
    { host := hmem
      mem := by rw [htarget]
      log := by rw [htarget] }

/-- Words queued from anywhere: the host's memory has no part in the transaction. -/
theorem plainWrite32_exec (beyond : Device MemAp → ℕ → Word) (stale : List Word) {s : BulkState (Device MemAp)}
    (words : Ptr → Word) (hon : s.host.swdOnline = 1) (hmw : s.host.swdMaxwords = 512)
    (haligned : s.addr.toNat % 4 = 0) (hc : 0 < s.count) (hle : s.count ≤ 127) :
    ∃ t h' d', plainWrite32Batch { s.host with mem := words } s.toBulkArgs =
        .ok (t, s.plainStep) ∧
      qExec (bench beyond) stale t s.host s.dev = .ok (0, h', d') ∧
      h'.mem = s.host.mem ∧
      d'.target.mem =
        store s.dev.target.mem s.addr ((List.range' s.ptr s.count.toNat).map words) ∧
      d'.target.log = s.dev.target.log ++ (load id s.addr s.count.toNat).zipWith .write
        ((List.range' s.ptr s.count.toNat).map words) ∧
      h'.swdOnline = 1 ∧ h'.swdMaxwords = 512 := by
  have hn : min s.count.toNat 128 = s.count.toNat := by omega
  obtain ⟨t, hbatch, hholds, htxc, hrx⟩ :=
    plainWrite32Batch_eq { s.host with mem := words } haligned hc
  rw [hn] at hholds htxc
  obtain ⟨t', hframe, hfit⟩ := plain_fits htxc (by omega) hholds.2.2.2
    (rswdTxnStart s.host.sequence)
  rw [← hmw] at hframe
  obtain ⟨h', d', hexec, htarget, hmem, _, hon', hmw'⟩ := qExec_probe m3debug memAp hholds hon
    hframe hfit beyond stale s.dev (memAp_acts_ok _ _)
  obtain ⟨tar, hafter⟩ := plainWrites_target words s.count.toNat
    (m := { s.dev.target with select := 0 }) rfl s.addr s.ptr
  rw [select_target] at htarget
  rw [hafter] at htarget
  rw [hrx] at hmem
  refine ⟨t, h', d', hbatch, hexec, hmem, ?_, ?_, hon', hmw'.trans hmw⟩
  · rw [htarget]
  · rw [htarget]

/-- After one batch that was the last, the loop ends. -/
theorem plain_leaves {batch : Batch} {exec : Txn → Host → Device MemAp →
    Except Stop (ℤ × Host × Device MemAp)} {s : BulkState (Device MemAp)} {t : Txn} {h' : Host}
    {d' : Device MemAp} (hc : 0 < s.count) (hle : s.count ≤ 128)
    (hbatch : batch s.host s.toBulkArgs = .ok (t, s.plainStep))
    (hexec : exec t s.host s.dev = .ok (0, h', d')) :
    Leaves (bulkPass batch exec) s (.ok (0, ⟨s.plainStep, h', d'⟩)) := by
  have hdone : s.plainStep.count ≤ 0 := by
    rw [plainStep_eq hc]
    show s.count - ((min s.count.toNat 128 : ℕ) : ℤ) ≤ 0
    omega
  have hlast : bulkPass batch exec ⟨s.plainStep, h', d'⟩ = _ := bulkPass_end hdone
  exact (Leaves.exit hlast).next (bulkPass_of_ok hc hbatch hexec)

/-- `swdp_ahb_read32` as it was, for a count that makes one batch the probe takes whole. -/
theorem plainRead32_run (beyond : Device MemAp → ℕ → Word) (stale : List Word) {s : BulkState (Device MemAp)}
    (hon : s.host.swdOnline = 1) (hmw : s.host.swdMaxwords = 512)
    (haligned : s.addr.toNat % 4 = 0) (hc : 0 < s.count) (hle : s.count ≤ 127) :
    ∃ s', Leaves (plainRead32Pass (bench beyond) stale) s (.ok (0, s')) ∧
      ReadEffect s s' s.count.toNat := by
  obtain ⟨t, h', d', hbatch, hexec, heff, _⟩ :=
    plainRead32_exec beyond stale hon hmw haligned hc hle
  exact ⟨_, plain_leaves hc (by omega) hbatch hexec, heff⟩

theorem plainWrite32_run (beyond : Device MemAp → ℕ → Word) (stale : List Word) {s : BulkState (Device MemAp)}
    (hon : s.host.swdOnline = 1) (hmw : s.host.swdMaxwords = 512)
    (haligned : s.addr.toNat % 4 = 0) (hc : 0 < s.count) (hle : s.count ≤ 127) :
    ∃ s', Leaves (plainWrite32Pass (bench beyond) stale) s (.ok (0, s')) ∧
      WriteEffect s s' s.count.toNat := by
  obtain ⟨t, h', d', hbatch, hexec, hhost, hmem, hlog, _⟩ :=
    plainWrite32_exec beyond stale s.host.mem hon hmw haligned hc hle
  exact ⟨_, plain_leaves hc (by omega) hbatch hexec, ⟨hhost, hmem, hlog⟩⟩

/-! ### A plain batch that is too long -/

theorem wordsMsgs_succ (msgs : Word → Ptr → List Msg) (n : ℕ) (addr : Word) (p : Ptr) :
    wordsMsgs msgs (n + 1) addr p =
      wordsMsgs msgs n addr p ++ msgs (wordAddr addr n) (p + n) := by
  induction n generalizing addr p with
  | zero =>
    rw [wordAddr_zero]
    exact List.append_nil _
  | succ n ih =>
    have hfour : addr + 4 = wordAddr addr 1 := rfl
    have hptr : p + 1 + n = p + (n + 1) := by rw [Nat.add_assoc, Nat.add_comm 1]
    rw [wordsMsgs, ih, hfour, wordAddr_add, Nat.add_comm 1, hptr, ← List.append_assoc]
    rfl

theorem wordsMsgs_sizes {msgs : Word → Ptr → List Msg} (size : Msg → ℕ) (k : ℕ)
    (hk : ∀ addr p, ((msgs addr p).map size).sum = k) (n : ℕ) (addr : Word) (p : Ptr) :
    ((wordsMsgs msgs n addr p).map size).sum = k * n := by
  induction n generalizing addr p with
  | zero => rfl
  | succ n ih =>
    rw [wordsMsgs, List.map_append, List.sum_append, hk, ih, Nat.mul_succ, Nat.add_comm]

/-- A full batch of plain reads: the probe's buffer ends before the last word's reads, and
the host takes the words of the others for all. -/
theorem plainRead_cut (beyond : Device MemAp → ℕ → Word) (stale : List Word) {t : Txn} {addr : Word} {p : Ptr}
    (hms : t.Holds (.swdWrite (opWr ||| dpSelect) [0] ::
      wordsMsgs (fun addr _ => plainReadMsgs addr) 128 addr p))
    (htxc : t.txc = 515) (hrx : t.rx = List.range' p 128) {h : Host} (hon : h.swdOnline = 1)
    (d : Device MemAp) :
    ∃ h' d', qExec (bench beyond) stale t h d = .ok (0, h', d') ∧
      h'.mem (p + 127) = h.mem (p + 127) := by
  have hroom : t.txc < maxwords := by
    rw [htxc]
    decide
  obtain ⟨t', hf, _⟩ := qFrame_of_room h.swdMaxwords (rswdTxnStart h.sequence) hms.2.2.2 hroom
  rw [wordsMsgs_succ] at hms
  -- the header of the last `TAR` is the last word that fits
  have hsize : ((Msg.swdWrite (opWr ||| dpSelect) [0] ::
      wordsMsgs (fun addr _ => plainReadMsgs addr) 127 addr p).map Msg.size).sum = 510 := by
    rw [List.map_cons, List.sum_cons, wordsMsgs_sizes Msg.size 4 (fun _ _ => rfl)]
    rfl
  have hwords : ((Msg.swdWrite (opWr ||| dpSelect) [0] ::
      wordsMsgs (fun addr _ => plainReadMsgs addr) 127 addr p).map Msg.readWords).sum = 127 := by
    rw [List.map_cons, List.sum_cons, wordsMsgs_sizes Msg.readWords 1 (fun _ _ => rfl)]
    rfl
  have hcut : ((Msg.swdWrite (opWr ||| dpSelect) [0] ::
      wordsMsgs (fun addr _ => plainReadMsgs addr) 127 addr p).map Msg.size).sum + 2 =
      m3debug.rxWords := by
    rw [hsize]
    rfl
  obtain ⟨h', d', words, hexec, hlen, hmem⟩ :=
    qExec_cut m3debug memAp hms hon hf hcut beyond stale d (memAp_acts_ok _ _)
  refine ⟨h', d', hexec, ?_⟩
  rw [hmem, hrx]
  apply storeAll_frame
  intro hp
  obtain ⟨s, hs, heq⟩ := List.mem_map.mp hp
  obtain ⟨i, hi, rfl⟩ := List.mem_iff_getElem.mp hs
  rw [List.length_zip, hlen, hwords, List.length_range'] at hi
  rw [List.getElem_zip, List.getElem_range'] at heq
  have hle : i < 127 := lt_of_lt_of_le hi (Nat.min_le_right _ _)
  have hsame : 1 * i = 127 := Nat.add_left_cancel heq
  omega

/-- Passes over later words leave the words before them alone. -/
theorem plainRead32_frame {δ : Type*} (usb : Link δ) (stale : List Word) {s s' : BulkState δ}
    {r : ℤ} (haligned : s.addr.toNat % 4 = 0) {q : Ptr} (hq : q < s.ptr)
    (h : Leaves (plainRead32Pass usb stale) s (.ok (r, s'))) :
    s'.host.mem q = s.host.mem q := by
  -- one transaction, whatever the pass does next
  have hexec : ∀ (u : BulkState δ) (t : Txn) (r' : ℤ) (a : BulkArgs) (h' : Host) (d' : δ),
      u.addr.toNat % 4 = 0 → q < u.ptr → 0 < u.count →
      plainRead32Batch u.host u.toBulkArgs = .ok (t, a) →
      qExec usb stale t u.host u.dev = .ok (r', h', d') →
      a = u.plainStep ∧ h'.mem q = u.host.mem q := by
    intro u t r' a h' d' ha hlt hc hb he
    obtain ⟨t', hbatch, _, _, hrx⟩ := plainRead32Batch_eq u.host ha hc
    obtain ⟨rfl, rfl⟩ := Prod.mk.inj (Except.ok.inj (hb.symm.trans hbatch))
    refine ⟨rfl, qExec_frame he ?_⟩
    rw [hrx, List.mem_range'_1]
    exact fun hin => absurd hin.1 (Nat.not_le.mpr hlt)
  have hrun := Leaves.invariant
    (fun u : BulkState δ => u.addr.toNat % 4 = 0 ∧ q < u.ptr ∧ u.host.mem q = s.host.mem q)
    (fun b => ∀ r u, b = .ok (r, u) → u.host.mem q = s.host.mem q) ?_ ?_
    ⟨haligned, hq, rfl⟩ h
  · exact hrun r s' rfl
  · rintro u u' ⟨ha, hlt, hmem⟩ hpass
    obtain ⟨hc, t, hb, he⟩ := bulkPass_next hpass
    obtain ⟨hargs, hframe⟩ := hexec u t _ _ _ _ ha hlt hc hb he
    rw [hargs, plainStep_eq hc]
    exact ⟨wordAddr_aligned ha _, Nat.lt_add_right _ hlt, hframe.trans hmem⟩
  · rintro u b ⟨ha, hlt, hmem⟩ hpass r' u' rfl
    rcases bulkPass_exit hpass with rfl | ⟨hc, t, _, hb, he⟩
    · exact hmem
    · exact (hexec u t _ _ _ _ ha hlt hc hb he).2.trans hmem

/-! ### What the loops are for -/

/-- The target's words in the host's memory, each read once. -/
structure ReadsBlock (s s' : BulkState (Device MemAp)) : Prop where
  out : ∀ i < s.count.toNat, s'.host.mem (s.ptr + i) = s.dev.target.mem (wordAddr s.addr i)
  rest : ∀ p, (∀ i < s.count.toNat, p ≠ s.ptr + i) → s'.host.mem p = s.host.mem p
  mem : s'.dev.target.mem = s.dev.target.mem
  log : s'.dev.target.log = s.dev.target.log ++ load .read s.addr s.count.toNat
  once : (load Access.read s.addr s.count.toNat).Nodup
  csw : s'.dev.target.csw = cswNoInc

/-- The host's words in the target's memory, and nothing else changed. -/
structure WritesBlock (s s' : BulkState (Device MemAp)) : Prop where
  words : ∀ i < s.count.toNat, s'.dev.target.mem (wordAddr s.addr i) = s.host.mem (s.ptr + i)
  rest : ∀ a, (∀ i < s.count.toNat, a ≠ wordAddr s.addr i) →
    s'.dev.target.mem a = s.dev.target.mem a
  host : s'.host.mem = s.host.mem
  csw : s'.dev.target.csw = cswNoInc

/-- The same memories, and the same accesses made on the target. -/
structure SameEffect (s s' : BulkState (Device MemAp)) : Prop where
  host : s.host.mem = s'.host.mem
  mem : s.dev.target.mem = s'.dev.target.mem
  log : s.dev.target.log = s'.dev.target.log

/-- The bulk transfers do what they are for. -/
def BulkCorrect (a : BulkArgs) (d : Device MemAp) : Prop :=
  ∀ (h : Host) (beyond : Device MemAp → ℕ → Word) (stale : List Word), h.swdOnline = 1 →
    h.swdMaxwords = 512 →
    (∃ s', Leaves (ahbRead32Pass (bench beyond) stale) ⟨a, h, d⟩ (.ok (0, s')) ∧
      ReadsBlock ⟨a, h, d⟩ s') ∧
    (∃ s', Leaves (ahbWrite32Pass (bench beyond) stale) ⟨a, h, d⟩ (.ok (0, s')) ∧
      WritesBlock ⟨a, h, d⟩ s')

/-- The plain versions return 0 as the bulk transfers do, with the same effect. -/
def PlainAgrees (a : BulkArgs) (d : Device MemAp) : Prop :=
  ∀ (h : Host) (beyond : Device MemAp → ℕ → Word) (stale : List Word), h.swdOnline = 1 →
    h.swdMaxwords = 512 →
    (∃ s' p', Leaves (ahbRead32Pass (bench beyond) stale) ⟨a, h, d⟩ (.ok (0, s')) ∧
      Leaves (plainRead32Pass (bench beyond) stale) ⟨a, h, d⟩ (.ok (0, p')) ∧ SameEffect s' p') ∧
    (∃ s' p', Leaves (ahbWrite32Pass (bench beyond) stale) ⟨a, h, d⟩ (.ok (0, s')) ∧
      Leaves (plainWrite32Pass (bench beyond) stale) ⟨a, h, d⟩ (.ok (0, p')) ∧ SameEffect s' p')

theorem load_read_nodup (addr : Word) {n : ℕ} (hn : n ≤ 2 ^ 30) :
    (load Access.read addr n).Nodup := by
  refine List.Nodup.map_on ?_ List.nodup_range
  intro i hi j hj heq
  rw [List.mem_range] at hi hj
  exact wordAddr_injective addr (by omega) (by omega) (Access.read.inj heq)

theorem ReadDone.readsBlock {s s' : BulkState (Device MemAp)} (h : ReadDone s s' s.count.toNat)
    (hzero : s'.count = 0) (hn : s.count.toNat ≤ 2 ^ 30) : ReadsBlock s s' where
  out := by
    intro i hi
    have hlen : (List.range' s.ptr s.count.toNat).length =
        (load s.dev.target.mem s.addr s.count.toNat).length := by
      rw [List.length_range', load_length]
    have hk : i < (List.range' s.ptr s.count.toNat).length := by rwa [List.length_range']
    have hlast : (List.range' s.ptr s.count.toNat)[i] ∉
        (List.range' s.ptr s.count.toNat).drop (i + 1) := by
      intro hin
      rw [List.drop_range', List.mem_range', List.getElem_range'] at hin
      obtain ⟨j, _, hj⟩ := hin
      have hsame : s.ptr + (1 * i) = s.ptr + ((i + 1) * 1 + 1 * j) := by
        rw [hj, Nat.add_assoc]
      have hcancel := Nat.add_left_cancel hsame
      omega
    have hword := storeAll_getElem s.host _ _ hlen i hk hlast
    rw [List.getElem_range', Nat.one_mul] at hword
    rw [h.host, hword]
    unfold load
    rw [List.getElem_map, List.getElem_range]
  rest := by
    intro p hp
    rw [h.host]
    apply storeAll_frame
    intro hin
    obtain ⟨x, hx, rfl⟩ := List.mem_map.mp hin
    have hptr := (List.of_mem_zip (a := x.1) (b := x.2) hx).1
    obtain ⟨i, hi, heq⟩ := List.mem_range'.mp hptr
    rw [Nat.one_mul] at heq
    exact hp i hi heq
  mem := h.mem
  log := h.log
  once := load_read_nodup s.addr hn
  csw := h.csw hzero

theorem WriteDone.writesBlock {s s' : BulkState (Device MemAp)} (h : WriteDone s s' s.count.toNat)
    (hzero : s'.count = 0) (hn : s.count.toNat ≤ 2 ^ 30) : WritesBlock s s' where
  words := by
    intro i hi
    have hlen : ((List.range' s.ptr s.count.toNat).map s.host.mem).length = s.count.toNat := by
      rw [List.length_map, List.length_range']
    rw [h.mem, store_getElem _ _ _ (hlen.symm ▸ hn) i (hlen.symm ▸ hi), List.getElem_map,
      List.getElem_range', Nat.one_mul]
  rest := by
    intro a ha
    rw [h.mem]
    apply store_frame
    intro i hi
    rw [List.length_map, List.length_range'] at hi
    exact ha i hi
  host := h.host
  csw := h.csw hzero

/-- Where the plain reads miss: with 128 words or more, the last of the first batch. -/
theorem plainRead32_misses (beyond : Device MemAp → ℕ → Word) (stale : List Word)
    {s : BulkState (Device MemAp)} (hon : s.host.swdOnline = 1) (haligned : s.addr.toNat % 4 = 0)
    (hc : 128 ≤ s.count) :
    ∃ u, plainRead32Pass (bench beyond) stale s = some (.next u) ∧ u.count = s.count - 128 ∧
      u.host.mem (s.ptr + 127) = s.host.mem (s.ptr + 127) ∧
      ∀ r p', Leaves (plainRead32Pass (bench beyond) stale) s (.ok (r, p')) →
        p'.host.mem (s.ptr + 127) = s.host.mem (s.ptr + 127) := by
  have hpos : 0 < s.count := by omega
  have hn : min s.count.toNat 128 = 128 := by omega
  obtain ⟨t, hbatch, hholds, htxc, hrx⟩ := plainRead32Batch_eq s.host haligned hpos
  have hstep := plainStep_eq (a := s.toBulkArgs) hpos
  rw [hn] at hholds htxc hrx hstep
  obtain ⟨h', d', hexec, hmem⟩ := plainRead_cut beyond stale hholds htxc hrx hon s.dev
  have hpass := bulkPass_of_ok hpos hbatch hexec
  rw [hstep] at hpass
  refine ⟨_, hpass, rfl, hmem, ?_⟩
  intro r p' hleaves
  have hnext : s.ptr + 127 < s.ptr + 128 := Nat.add_lt_add_left (by decide) _
  have ha : (wordAddr s.addr 128).toNat % 4 = 0 := wordAddr_aligned haligned 128
  have hframe := plainRead32_frame (bench beyond) stale
    (s := ⟨⟨wordAddr s.addr 128, s.ptr + 128, s.count - (128 : ℕ)⟩, h', d'⟩) ha hnext
    (hleaves.of_next hpass)
  exact hframe.trans hmem

theorem bulkCorrect {a : BulkArgs} (d : Device MemAp) (haligned : a.addr.toNat % 4 = 0)
    (hc : 1 ≤ a.count) (hn : a.count.toNat ≤ 2 ^ 30) : BulkCorrect a d := by
  intro h beyond stale hon hmw
  have hpos : 0 < a.count := hc
  constructor
  · obtain ⟨s', hrun, hdone, hzero⟩ :=
      ahbRead32_run beyond stale (s := ⟨a, h, d⟩) hon hmw haligned hpos
    exact ⟨s', hrun, hdone.readsBlock hzero hn⟩
  · obtain ⟨s', hrun, hdone, hzero⟩ :=
      ahbWrite32_run beyond stale (s := ⟨a, h, d⟩) hon hmw haligned hpos
    exact ⟨s', hrun, hdone.writesBlock hzero hn⟩

theorem plainAgrees_of_le {a : BulkArgs} (d : Device MemAp) (haligned : a.addr.toNat % 4 = 0)
    (hc : 1 ≤ a.count) (hle : a.count ≤ 127) : PlainAgrees a d := by
  intro h beyond stale hon hmw
  have hpos : 0 < a.count := hc
  constructor
  · obtain ⟨s', hrun, hdone, _⟩ :=
      ahbRead32_run beyond stale (s := ⟨a, h, d⟩) hon hmw haligned hpos
    obtain ⟨p', hplain, heff⟩ :=
      plainRead32_run beyond stale (s := ⟨a, h, d⟩) hon hmw haligned hpos hle
    exact ⟨s', p', hrun, hplain, hdone.host.trans heff.host.symm, hdone.mem.trans heff.mem.symm,
      hdone.log.trans heff.log.symm⟩
  · obtain ⟨s', hrun, hdone, _⟩ :=
      ahbWrite32_run beyond stale (s := ⟨a, h, d⟩) hon hmw haligned hpos
    obtain ⟨p', hplain, heff⟩ :=
      plainWrite32_run beyond stale (s := ⟨a, h, d⟩) hon hmw haligned hpos hle
    exact ⟨s', p', hrun, hplain, hdone.host.trans heff.host.symm, hdone.mem.trans heff.mem.symm,
      hdone.log.trans heff.log.symm⟩

/-- The bulk transfers are correct for every aligned block; the plain versions do the same
as they do exactly up to the largest count whose batch the probe's buffer holds. -/
theorem bulk_transfers_agree_iff {a : BulkArgs} (d : Device MemAp)
    (haligned : a.addr.toNat % 4 = 0) (hc : 1 ≤ a.count)
    (hend : (a.addr.toNat : ℤ) + 4 * a.count ≤ 2 ^ 32) :
    BulkCorrect a d ∧ (PlainAgrees a d ↔ a.count ≤ 127) := by
  have hn : a.count.toNat ≤ 2 ^ 30 := by omega
  have hcorrect := bulkCorrect d haligned hc hn
  refine ⟨hcorrect, ?_, plainAgrees_of_le d haligned hc⟩
  intro hagrees
  by_contra hlong
  -- a host that holds another word where the first batch's last one belongs
  let w := d.target.mem (wordAddr a.addr 127)
  let h : Host :=
    { sequence := 1, swdOnline := 1, swdMaxwords := 512, swdVersion := 5, swdError := 0,
      swdVerbose := false, mem := fun _ => w + 1 }
  obtain ⟨⟨s', p', hrun, hplain, hsame⟩, _⟩ := hagrees h (fun _ _ => 0) [] rfl rfl
  obtain ⟨⟨u', hrun', hreads⟩, _⟩ := hcorrect h (fun _ _ => 0) [] rfl rfl
  obtain ⟨_, _, _, _, hmiss⟩ := plainRead32_misses (fun _ _ => 0) []
    (s := ⟨a, h, d⟩) rfl haligned (by show 128 ≤ a.count; omega)
  obtain ⟨_, rfl⟩ := Prod.mk.inj (Except.ok.inj (hrun.unique hrun'))
  have hin : 127 < a.count.toNat := by omega
  have hout : s'.host.mem (a.ptr + 127) = w := hreads.out 127 hin
  have hleft : p'.host.mem (a.ptr + 127) = w + 1 := hmiss 0 p' hplain
  rw [hsame.host, hleft] at hout
  exact absurd hout (by simp)

/-- A target whose memory holds ones, and a host that holds zeros. -/
def onesDevice : Device MemAp :=
  { idleDevice with
    target := { select := 0, csw := 0, tar := 0, rdbuff := 0, mem := fun _ => 1, log := [] } }

def zerosHost : Host :=
  { sequence := 1, swdOnline := 1, swdMaxwords := 512, swdVersion := 5, swdError := 0,
    swdVerbose := false, mem := fun _ => 0 }

/-- Two words over the end of a page. -/
theorem bulk_transfers_agree_iff_page :
    BulkCorrect { addr := 0x20000ffc, ptr := 0, count := 2 } onesDevice ∧
      PlainAgrees { addr := 0x20000ffc, ptr := 0, count := 2 } onesDevice := by
  have h := bulk_transfers_agree_iff (a := { addr := 0x20000ffc, ptr := 0, count := 2 })
    onesDevice (by decide) (by decide) (by decide)
  exact ⟨h.1, h.2.mpr (by decide)⟩

/-- A plain read of 128 words says it is done, with the last word not read. -/
theorem full_plain_batch_misses :
    let s : BulkState (Device MemAp) :=
      ⟨{ addr := 0x20000000, ptr := 0, count := 128 }, zerosHost, onesDevice⟩
    ∃ s' p', Leaves (ahbRead32Pass (bench fun _ _ => 0) []) s (.ok (0, s')) ∧
      Leaves (plainRead32Pass (bench fun _ _ => 0) []) s (.ok (0, p')) ∧
      s'.host.mem 127 = 1 ∧ p'.host.mem 127 = 0 := by
  have haligned : (0x20000000 : Word).toNat % 4 = 0 := by decide
  obtain ⟨⟨s', hrun, hreads⟩, _⟩ :=
    bulkCorrect (a := { addr := 0x20000000, ptr := 0, count := 128 }) onesDevice haligned
      (by decide) (by decide) zerosHost (fun _ _ => 0) [] rfl rfl
  obtain ⟨u, hpass, hcount, hmem, _⟩ := plainRead32_misses (fun _ _ => 0) []
    (s := ⟨{ addr := 0x20000000, ptr := 0, count := 128 }, zerosHost, onesDevice⟩) rfl haligned
    (by decide)
  have hdone : u.count ≤ 0 := by
    rw [hcount]
    decide
  have hlast : plainRead32Pass (bench fun _ _ => 0) [] u = _ := bulkPass_end hdone
  exact ⟨s', u, hrun, (Leaves.exit hlast).next hpass, hreads.out 127 (by decide), hmem⟩

end M3Dev.Rswdp
