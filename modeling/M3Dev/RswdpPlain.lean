import M3Dev.RswdpBulk

/-! The plain word-by-word versions of the bulk transfers, and where the fast ones agree
with them. -/
namespace M3Dev.Rswdp
open WhileLoop WordBlock

/-- `while (xfer-- > 0)` over words: `addr += 4` and the host pointer one on. -/
def plainLoop (queue : Word → Ptr → Txn → Except Stop Txn) :
    ℕ → Word → Ptr → Txn → Except Stop Txn
  | 0, _, _, t => .ok t
  | xfer + 1, addr, p, t => do
    let t ← queue addr p t
    plainLoop queue xfer (addr + 4) (p + 1) t

def plainReads : ℕ → Word → Ptr → Txn → Except Stop Txn :=
  plainLoop (fun addr out t => qAhbRead t addr out)

def plainWrites (mem : Ptr → Word) : ℕ → Word → Ptr → Txn → Except Stop Txn :=
  plainLoop (fun addr inp t => qAhbWrite t addr (mem inp))

def plainXfer (count : ℤ) : ℤ := if count > 128 then 128 else count

/-- The arguments after a plain batch. -/
def BulkArgs.plainStep (a : BulkArgs) : BulkArgs :=
  let xfer := plainXfer a.count
  { addr := a.addr + BitVec.ofInt 32 (xfer * 4), ptr := a.ptr + xfer.toNat,
    count := a.count - xfer }

def plainRead32Batch : Batch := fun _ a => do
  let t ← plainReads (plainXfer a.count).toNat a.addr a.ptr qInit
  return (t, a.plainStep)

def plainWrite32Batch : Batch := fun h a => do
  let t ← plainWrites h.mem (plainXfer a.count).toNat a.addr a.ptr qInit
  return (t, a.plainStep)

def plainRead32Pass {δ : Type*} (usb : Link δ) (stale : List Word) :
    Body (BulkState δ) (Except Stop (ℤ × BulkState δ)) :=
  bulkPass plainRead32Batch (qExec usb stale)

def plainWrite32Pass {δ : Type*} (usb : Link δ) (stale : List Word) :
    Body (BulkState δ) (Except Stop (ℤ × BulkState δ)) :=
  bulkPass plainWrite32Batch (qExec usb stale)

/-! ### What the plain batches queue -/

def selectMsgs (t : Txn) : List Msg :=
  if t.cacheApaddr ≠ 0 then [.swdWrite (opWr ||| dpSelect) [0]] else []

/-- One word of a plain batch: `TAR` is set for each. -/
def plainReadMsgs (addr : Word) : List Msg :=
  [.swdWrite (opWr ||| (opAp ||| (ahbTar &&& 0xC))) [addr],
    .swdDiscard (opRd ||| (opAp ||| (ahbDrw &&& 0xC))) 1, .swdRead (opRd ||| dpBuffer) 1]

def plainWriteMsgs (addr w : Word) : List Msg :=
  [.swdWrite (opWr ||| (opAp ||| (ahbTar &&& 0xC))) [addr],
    .swdWrite (opWr ||| (opAp ||| (ahbDrw &&& 0xC))) [w]]

theorem Txn.Holds.selectMsgs {t : Txn} {ms : List Msg} (h : t.Holds ms) :
    Txn.Holds { t with tx := t.tx ++ selectWords t ahbTar } (ms ++ selectMsgs t) := by
  have hbank : (ahbTar &&& 0xF0 : Word) = 0 := by decide
  unfold selectWords Rswdp.selectMsgs
  rw [hbank]
  split_ifs
  · exact h.write (write_encoded (by decide) 0) trivial rfl
  · simpa using h

/-- `TAR` set for an address that is not the last one used. -/
theorem qAhbTar_plain {t : Txn} {ms : List Msg} (h : t.Holds ms) {addr : Word}
    (hne : t.cacheAhbtar ≠ addr) (hroom : t.txc + 8 < maxwords) :
    ∃ u, qAhbTar t addr = .ok u ∧
      u.Holds (ms ++ selectMsgs t ++ [.swdWrite (opWr ||| (opAp ||| (ahbTar &&& 0xC))) [addr]]) ∧
      u.txc = t.txc + (selectWords t ahbTar).length + 2 ∧ u.rx = t.rx ∧
      u.cacheApaddr = 0 ∧ u.cacheAhbtar = addr := by
  have hw := qApWrite_of_room (t := t) (by omega) ahbTar addr
  refine ⟨{ t with
    tx := t.tx ++ (selectWords t ahbTar ++ [swdWr (opAp ||| (ahbTar &&& 0xC)) 1, addr])
    cacheApaddr := ahbTar &&& 0xF0
    cacheAhbtar := addr }, ?_, ?_, ?_, rfl, rfl, rfl⟩
  · rw [qAhbTar, if_pos hne, hw]
    rfl
  · have hsel := h.selectMsgs
    have hset := (hsel.write (write_encoded (a := opAp ||| (ahbTar &&& 0xC)) (by decide) addr)
      trivial rfl).cache 0 addr
    rw [← List.append_assoc]
    exact hset
  · simp only [Txn.txc, List.length_append, List.length_cons, List.length_nil]
    omega

theorem selectWords_cached {t : Txn} (h : t.cacheApaddr = 0) : selectWords t ahbDrw = [] :=
  if_neg (not_not.mpr h)

/-- What a helper queues for a word at an address that is not the last one used. -/
def QueuesWord (queue : Word → Ptr → Txn → Except Stop Txn) (msgs : Word → Ptr → List Msg)
    (ptrs : Ptr → List Ptr) : Prop :=
  ∀ (t : Txn) (ms : List Msg) (addr : Word) (p : Ptr), t.Holds ms → t.cacheAhbtar ≠ addr →
    t.txc + 8 < maxwords → t.rxc < maxwords →
    ∃ t', queue addr p t = .ok t' ∧ t'.Holds (ms ++ selectMsgs t ++ msgs addr p) ∧
      t'.txc = t.txc + (selectWords t ahbTar).length + 4 ∧ t'.rx = t.rx ++ ptrs p ∧
      t'.cacheApaddr = 0 ∧ t'.cacheAhbtar = addr

theorem qAhbRead_queuesWord :
    QueuesWord (fun addr out t => qAhbRead t addr out) (fun addr _ => plainReadMsgs addr)
      (fun p => [p]) := by
  intro t ms addr p h hne hroom hrx
  have hlen := selectWords_length t ahbTar
  obtain ⟨u, htar, hu, htxc, hurx, happ, hahb⟩ := qAhbTar_plain h hne hroom
  have hurxc : u.rxc < maxwords := by rwa [Txn.rxc, hurx]
  have hr := qApRead_of_room (t := u) (by omega) hurxc ahbDrw p
  rw [selectWords_cached happ, List.nil_append] at hr
  refine ⟨{ u with
    tx := u.tx ++ [swdRx (opAp ||| (ahbDrw &&& 0xC)) 1, swdRd dpBuffer 1]
    rx := u.rx ++ [p]
    cacheApaddr := ahbDrw &&& 0xF0 }, ?_, ?_, ?_, ?_, rfl, hahb⟩
  · show qAhbRead t addr p = _
    rw [qAhbRead_eq, htar, ok_bind, hr]
  · have hone : 1 < 65536 := by decide
    have hptr : [p].length = Msg.readWords (.swdRead (opRd ||| dpBuffer) 1) := rfl
    have hx := hu.write (swdRx_encoded (ap_op_lt ahbDrw) hone) trivial rfl
    have hd := (hx.push (swdRd_encoded (a := dpBuffer) (by decide) hone) hone hptr).cache 0
      u.cacheAhbtar
    simpa [plainReadMsgs] using hd
  · simp only [Txn.txc, List.length_append, List.length_cons, List.length_nil] at htxc ⊢
    omega
  · show u.rx ++ [p] = _
    rw [hurx]

theorem qAhbWrite_queuesWord (mem : Ptr → Word) :
    QueuesWord (fun addr inp t => qAhbWrite t addr (mem inp))
      (fun addr p => plainWriteMsgs addr (mem p)) (fun _ => []) := by
  intro t ms addr p h hne hroom _
  have hlen := selectWords_length t ahbTar
  obtain ⟨u, htar, hu, htxc, hurx, happ, hahb⟩ := qAhbTar_plain h hne hroom
  have hw := qApWrite_of_room (t := u) (by omega) ahbDrw (mem p)
  rw [selectWords_cached happ, List.nil_append] at hw
  refine ⟨{ u with
    tx := u.tx ++ [swdWr (opAp ||| (ahbDrw &&& 0xC)) 1, mem p]
    cacheApaddr := ahbDrw &&& 0xF0 }, ?_, ?_, ?_, ?_, rfl, hahb⟩
  · show qAhbWrite t addr (mem p) = _
    rw [qAhbWrite_eq, htar, ok_bind, hw]
  · have hd := (hu.write (write_encoded (a := opAp ||| (ahbDrw &&& 0xC)) (by decide) (mem p))
      trivial rfl).cache 0 u.cacheAhbtar
    simpa [plainWriteMsgs] using hd
  · simp only [Txn.txc, List.length_append, List.length_cons, List.length_nil] at htxc ⊢
    omega
  · show u.rx = _
    rw [hurx, List.append_nil]

/-- The messages of `n` words from `addr` and `p` on. -/
def wordsMsgs (msgs : Word → Ptr → List Msg) : ℕ → Word → Ptr → List Msg
  | 0, _, _ => []
  | n + 1, addr, p => msgs addr p ++ wordsMsgs msgs n (addr + 4) (p + 1)

theorem ne_add_four (addr : Word) : addr ≠ addr + 4 := by
  intro heq
  have hzero : (4 : Word) = 0 := by simpa using heq.symm
  exact absurd hzero (by decide)

/-- A batch of plain words behind a `SELECT` of the bank. -/
theorem plainLoop_cached {queue : Word → Ptr → Txn → Except Stop Txn}
    {msgs : Word → Ptr → List Msg} {ptrs : Ptr → List Ptr} (hq : QueuesWord queue msgs ptrs)
    (hptrs : ∀ p, (ptrs p).length ≤ 1) (n : ℕ) {t : Txn} {ms : List Msg} (h : t.Holds ms)
    (happ : t.cacheApaddr = 0) {addr : Word} (hne : t.cacheAhbtar ≠ addr) (p : Ptr)
    (hroom : t.txc + 4 * n + 8 < maxwords) (hrx : t.rxc + n < maxwords) :
    ∃ t', plainLoop queue n addr p t = .ok t' ∧ t'.Holds (ms ++ wordsMsgs msgs n addr p) ∧
      t'.txc = t.txc + 4 * n ∧ t'.rx = t.rx ++ (List.range' p n).flatMap ptrs := by
  induction n generalizing t ms addr p with
  | zero => exact ⟨t, rfl, by simpa [wordsMsgs] using h, rfl, by simp⟩
  | succ n ih =>
    obtain ⟨u, hu, hholds, htxc, hurx, hcache, hahb⟩ :=
      hq t ms addr p h hne (by omega) (by omega)
    have hsel : selectMsgs t = [] := if_neg (not_not.mpr happ)
    have hselw : selectWords t ahbTar = [] := if_neg (not_not.mpr happ)
    rw [hsel, List.append_nil] at hholds
    rw [hselw, List.length_nil] at htxc
    have hurxc : u.rxc = t.rxc + (ptrs p).length := by rw [Txn.rxc, hurx, List.length_append, Txn.rxc]
    have hp := hptrs p
    have hne' : u.cacheAhbtar ≠ addr + 4 := hahb ▸ ne_add_four addr
    obtain ⟨t', ht', hholds', htxc', hrx'⟩ :=
      ih hholds hcache hne' (p + 1) (by omega) (by omega)
    refine ⟨t', ?_, ?_, by omega, ?_⟩
    · rw [plainLoop, hu, ok_bind, ht']
    · rw [wordsMsgs, ← List.append_assoc]
      exact hholds'
    · rw [hrx', hurx, List.range'_succ, List.flatMap_cons, List.append_assoc]

/-- A batch of plain words from an empty transaction. -/
theorem plainLoop_qInit {queue : Word → Ptr → Txn → Except Stop Txn}
    {msgs : Word → Ptr → List Msg} {ptrs : Ptr → List Ptr} (hq : QueuesWord queue msgs ptrs)
    (hptrs : ∀ p, (ptrs p).length ≤ 1) {n : ℕ} (hn : 1 ≤ n) (hle : n ≤ 128) {addr : Word}
    (haligned : addr.toNat % 4 = 0) (p : Ptr) :
    ∃ t', plainLoop queue n addr p qInit = .ok t' ∧
      t'.Holds (.swdWrite (opWr ||| dpSelect) [0] :: wordsMsgs msgs n addr p) ∧
      t'.txc = 3 + 4 * n ∧ t'.rx = (List.range' p n).flatMap ptrs := by
  obtain ⟨n, rfl⟩ : ∃ k, n = k + 1 := ⟨n - 1, by omega⟩
  have hmax : maxwords = 2048 := rfl
  have htx : qInit.txc = 1 := rfl
  have hrx : qInit.rxc = 0 := rfl
  have hne : qInit.cacheAhbtar ≠ addr := by
    intro heq
    rw [← heq] at haligned
    exact absurd haligned (by decide)
  obtain ⟨u, hu, hholds, htxc, hurx, hcache, hahb⟩ :=
    hq qInit [] addr p holds_qInit hne (by omega) (by omega)
  have hsel : selectMsgs qInit = [.swdWrite (opWr ||| dpSelect) [0]] := rfl
  have hselw : (selectWords qInit ahbTar).length = 2 := rfl
  rw [hsel, List.nil_append, List.singleton_append] at hholds
  have hurxc : u.rxc = (ptrs p).length := by rw [Txn.rxc, hurx]; rfl
  have hp := hptrs p
  have hne' : u.cacheAhbtar ≠ addr + 4 := hahb ▸ ne_add_four addr
  obtain ⟨t', ht', hholds', htxc', hrx'⟩ :=
    plainLoop_cached hq hptrs n hholds hcache hne' (p + 1) (by omega) (by omega)
  refine ⟨t', ?_, hholds', by omega, ?_⟩
  · rw [plainLoop, hu, ok_bind, ht']
  · rw [hrx', hurx, List.range'_succ, List.flatMap_cons]
    rfl

/-! ### What they do to the target -/

theorem plainRead_target {m : MemAp} (hsel : m.select = 0) (addr : Word) :
    ∃ tar, memAp.acts ((plainReadMsgs addr).flatMap Msg.acts) m =
      ⟨{ m with tar := tar, rdbuff := m.mem addr, log := m.log ++ [.read addr] },
        [0, m.rdbuff, m.mem addr], true⟩ := by
  have hacts : (plainReadMsgs addr).flatMap Msg.acts =
      [.write wrAp1 addr, .read rdAp3, .read rdBuffer] := rfl
  obtain ⟨tar, hbump⟩ := bump_frame
    { m with tar := addr, rdbuff := m.mem addr, log := m.log ++ [.read addr] }
  have hread := act_drw_read (m := { m with tar := addr }) hsel
  refine ⟨tar, ?_⟩
  simp only [hacts, memAp_acts_cons, act_tar hsel, hread, hbump, act_rdbuff]
  rfl

theorem plainWrite_target {m : MemAp} (hsel : m.select = 0) (addr w : Word) :
    ∃ tar, memAp.acts ((plainWriteMsgs addr w).flatMap Msg.acts) m =
      ⟨{ m with tar := tar, mem := Function.update m.mem addr w,
                log := m.log ++ [.write addr w] }, [0, 0], true⟩ := by
  have hacts : (plainWriteMsgs addr w).flatMap Msg.acts =
      [.write wrAp1 addr, .write wrAp3 w] := rfl
  obtain ⟨tar, hbump⟩ := bump_frame
    { m with tar := addr, mem := Function.update m.mem addr w, log := m.log ++ [.write addr w] }
  have hwrite := act_drw_write (m := { m with tar := addr }) hsel w
  refine ⟨tar, ?_⟩
  simp only [hacts, memAp_acts_cons, act_tar hsel, hwrite, hbump]
  rfl

/-- Of the three transfers of a plain read, the last one is asked for. -/
theorem plainRead_readsOf (addr : Word) (ms : List Msg) (a b w : Word) (vs : List Word) :
    readsOf (plainReadMsgs addr ++ ms) (a :: b :: w :: vs) = w :: readsOf ms vs := rfl

/-- The words of plain reads, and the accesses made for them. -/
theorem plainReads_target (n : ℕ) {m : MemAp} (hsel : m.select = 0) (addr : Word) (p : Ptr) :
    (∃ tar rdbuff, (memAp.acts ((wordsMsgs (fun a _ => plainReadMsgs a) n addr p).flatMap
        Msg.acts) m).target =
      { m with tar := tar, rdbuff := rdbuff, log := m.log ++ load .read addr n }) ∧
    readsOf (wordsMsgs (fun a _ => plainReadMsgs a) n addr p)
        (memAp.acts ((wordsMsgs (fun a _ => plainReadMsgs a) n addr p).flatMap Msg.acts) m).values =
      load m.mem addr n := by
  induction n generalizing m addr p with
  | zero => exact ⟨⟨m.tar, m.rdbuff, by simp [wordsMsgs, SwdTarget.acts, load]⟩, rfl⟩
  | succ n ih =>
    obtain ⟨tar, hword⟩ := plainRead_target hsel addr
    obtain ⟨⟨tar', rdbuff, htarget⟩, hreads⟩ := ih
      (m := { m with tar := tar, rdbuff := m.mem addr, log := m.log ++ [.read addr] }) hsel
      (addr + 4) (p + 1)
    have hfour : addr + 4 = wordAddr addr 1 := rfl
    rw [wordsMsgs, List.flatMap_append, memAp_acts_append, hword]
    constructor
    · refine ⟨tar', rdbuff, ?_⟩
      rw [htarget, hfour, load_succ _ addr, List.append_assoc]
      rfl
    · rw [List.cons_append, List.cons_append, List.cons_append, List.nil_append,
        plainRead_readsOf, hreads, hfour, load_succ _ addr]

theorem plainWrites_target (mem : Ptr → Word) (n : ℕ) {m : MemAp} (hsel : m.select = 0)
    (addr : Word) (p : Ptr) :
    ∃ tar, (memAp.acts ((wordsMsgs (fun a q => plainWriteMsgs a (mem q)) n addr p).flatMap
        Msg.acts) m).target =
      { m with
        tar := tar
        mem := store m.mem addr ((List.range' p n).map mem)
        log := m.log ++ (load id addr n).zipWith .write ((List.range' p n).map mem) } := by
  induction n generalizing m addr p with
  | zero => exact ⟨m.tar, by simp [wordsMsgs, SwdTarget.acts, load, store]⟩
  | succ n ih =>
    obtain ⟨tar, hword⟩ := plainWrite_target hsel addr (mem p)
    obtain ⟨tar', htarget⟩ := ih
      (m := { m with tar := tar, mem := Function.update m.mem addr (mem p),
                     log := m.log ++ [.write addr (mem p)] }) hsel (addr + 4) (p + 1)
    have hfour : addr + 4 = wordAddr addr 1 := rfl
    refine ⟨tar', ?_⟩
    rw [wordsMsgs, List.flatMap_append, memAp_acts_append, hword, htarget, hfour,
      load_succ _ addr, List.range'_succ, List.map_cons, List.zipWith_cons_cons,
      List.append_assoc]
    rfl

end M3Dev.Rswdp
