import M3Dev.Buffer
import M3Dev.HostBench
import M3Dev.RswdpModeRestore

/-! The whole of the probe, taken for memory: what the debugger's programs see of queues, frames,
firmware and MEM-AP is one access after the other. -/
namespace M3Dev.Tools
open CallTree WhileLoop WordBlock Rswdp Buffer

/-- Memory, the accesses made to it, and the packets sent to gdb. -/
structure Direct where
  mem : Word → Word
  log : List Access
  sent : List (List Byte)

namespace Direct

/-- One access after the other, and the words that are read. -/
def access : List AhbOp → Direct → List Word × Direct
  | [], s => ([], s)
  | .read addr :: ops, s =>
    let r := access ops { s with log := s.log ++ [.read addr] }
    (s.mem addr :: r.1, r.2)
  | .write addr value :: ops, s =>
    access ops { s with
      mem := Function.update s.mem addr value
      log := s.log ++ [.write addr value] }

/-- The words read go to the front of the buffer. -/
def answer (ops : List AhbOp) (buf : ℕ → Word) (s : Direct) : Answer × Direct :=
  let r := access ops s
  (statusAnswer 0 (put buf 0 r.1), r.2)

end Direct

def AhbOp.addr : AhbOp → Word
  | write addr _ => addr
  | read addr => addr

/-- The accesses of a block, word by word. -/
def blockOps (op : ℕ → Word → AhbOp) (addr : Word) (count : ℤ) : List AhbOp :=
  (List.range count.toNat).map fun i => op i (wordAddr addr i)

/-- The calls that are made: of no more accesses than the probe has room for, the first of them
not at the address that stands for an empty cache, and of aligned blocks. -/
def Call.Admitted : Call → Prop
  | .exec ops _ => ops.length ≤ 127 ∧ ∀ op ∈ ops.head?, op.addr ≠ 0xffffffff
  | .ahbRead32 addr _ _ => addr.toNat % 4 = 0
  | .ahbWrite32 addr _ _ => addr.toNat % 4 = 0
  | _ => True

instance : DecidablePred Call.Admitted
  | .exec ops _ =>
    inferInstanceAs (Decidable (ops.length ≤ 127 ∧ ∀ op ∈ ops.head?, op.addr ≠ 0xffffffff))
  | .ahbRead32 addr _ _ => inferInstanceAs (Decidable (addr.toNat % 4 = 0))
  | .ahbWrite32 addr _ _ => inferInstanceAs (Decidable (addr.toNat % 4 = 0))
  | .attn => .isTrue trivial
  | .calloc => .isTrue trivial
  | .frame => .isTrue trivial
  | .send _ => .isTrue trivial
  | .debuggerCommand _ => .isTrue trivial

def Direct.respond (s : Direct) : Call → Answer × Direct
  | .exec ops buf => s.answer ops buf
  | .ahbRead32 addr buf count => s.answer (blockOps (fun _ => .read) addr count) buf
  | .ahbWrite32 addr buf count => s.answer (blockOps (fun i a => .write a (buf i)) addr count) buf
  | .send packet => (statusAnswer 0 fun _ => 0, { s with sent := s.sent ++ [packet] })
  | _ => (statusAnswer 0 fun _ => 0, s)

def directResponder : Responder Call Answer Direct := fun c s =>
  if c.Admitted then some (s.respond c) else none

/-! ### Queued accesses -/

/-- The accesses as they are queued; the words read go to `p` on. -/
def ahbCalls : List AhbOp → Ptr → List AhbCall
  | [], _ => []
  | .write addr value :: ops, p => .write addr value :: ahbCalls ops p
  | .read addr :: ops, p => .read addr p :: ahbCalls ops (p + 1)

theorem ahbCalls_queue (ops : List AhbOp) (p : Ptr) :
    (ahbCalls ops p).map AhbCall.queue = queueOps ops p := by
  induction ops generalizing p with
  | nil => rfl
  | cons op ops ih =>
    cases op with
    | write addr value => exact congrArg (_ :: ·) (ih p)
    | read addr => exact congrArg (_ :: ·) (ih (p + 1))

theorem ahbCalls_length (ops : List AhbOp) (p : Ptr) : (ahbCalls ops p).length = ops.length := by
  induction ops generalizing p with
  | nil => rfl
  | cons op ops ih =>
    cases op with
    | write addr value => exact congrArg (· + 1) (ih p)
    | read addr => exact congrArg (· + 1) (ih (p + 1))

theorem ahbCalls_head {ops : List AhbOp} (h : ∀ op ∈ ops.head?, op.addr ≠ 0xffffffff) (p : Ptr) :
    ∀ c ∈ (ahbCalls ops p).head?, c.addr ≠ 0xffffffff := by
  cases ops with
  | nil => exact fun c hc => absurd hc (by simp [ahbCalls])
  | cons op ops =>
    have hop := h op rfl
    cases op with
    | write addr value => exact fun c hc => Option.some.inj hc ▸ hop
    | read addr => exact fun c hc => Option.some.inj hc ▸ hop

/-- An access behind the caches takes two words more than the words it is made of. -/
theorem queue_room (c : AhbCall) {t : Txn} (hroom : t.txc + 8 < maxwords) (hrx : t.rxc < maxwords) :
    ∃ t', c.queue.run t = .ok t' ∧ t'.txc ≤ t.txc + (selectWords t ahbTar).length + 4 ∧
      t'.rxc ≤ t.rxc + 1 ∧ t'.cacheApaddr = 0 := by
  have hlen := selectWords_length t ahbTar
  -- the address, which is queued unless the cache has it, then the access
  obtain ⟨u, hu, htxc, hurx⟩ : ∃ u, qAhbTar t c.addr = .ok u ∧
      u.txc + (selectWords u ahbTar).length ≤ t.txc + (selectWords t ahbTar).length + 2 ∧
      u.rx = t.rx := by
    by_cases hne : t.cacheAhbtar ≠ c.addr
    · refine ⟨{ t with
        tx := t.tx ++ (selectWords t ahbTar ++ [swdWr (opAp ||| (ahbTar &&& 0xC)) 1, c.addr])
        cacheApaddr := ahbTar &&& 0xF0
        cacheAhbtar := c.addr }, ?_, ?_, rfl⟩
      · rw [qAhbTar, if_pos hne, qApWrite_of_room (by omega)]
        rfl
      · have hcached : (selectWords { t with
            tx := t.tx ++ (selectWords t ahbTar ++ [swdWr (opAp ||| (ahbTar &&& 0xC)) 1, c.addr])
            cacheApaddr := ahbTar &&& 0xF0
            cacheAhbtar := c.addr } ahbTar) = [] := if_neg (not_not.mpr rfl)
        rw [hcached]
        simp only [Txn.txc, List.length_append, List.length_cons, List.length_nil]
        omega
    · refine ⟨t, ?_, by omega, rfl⟩
      rw [qAhbTar, if_neg hne]
  have hsel : selectWords u ahbDrw = selectWords u ahbTar := selectWords_bank (by decide) u
  have hlen' := selectWords_length u ahbTar
  have hurxc : u.rxc = t.rxc := congrArg List.length hurx
  cases c with
  | read addr value =>
    have hr := qApRead_of_room (t := u) (by omega) (by omega) ahbDrw value
    rw [hsel] at hr
    have hrun : (AhbCall.read addr value).queue.run t = qApRead u ahbDrw value := by
      show qAhbRead t addr value = _
      have haddr : qAhbTar t addr = .ok u := hu
      rw [qAhbRead_eq, haddr, ok_bind]
    refine ⟨_, hrun.trans hr, ?_, ?_, rfl⟩
    · simp only [Txn.txc, List.length_append, List.length_cons, List.length_nil] at htxc ⊢
      omega
    · simp only [Txn.rxc, List.length_append, List.length_cons, List.length_nil] at hurxc ⊢
      omega
  | write addr value =>
    have hw := qApWrite_of_room (t := u) (by omega) ahbDrw value
    rw [hsel] at hw
    have hrun : (AhbCall.write addr value).queue.run t = qApWrite u ahbDrw value := by
      show qAhbWrite t addr value = _
      have haddr : qAhbTar t addr = .ok u := hu
      rw [qAhbWrite_eq, haddr, ok_bind]
    refine ⟨_, hrun.trans hw, ?_, ?_, rfl⟩
    · simp only [Txn.txc, List.length_append, List.length_cons, List.length_nil] at htxc ⊢
      omega
    · simp only [Txn.rxc] at hurxc ⊢
      omega

theorem runCalls_room (calls : List AhbCall) {t : Txn} (happ : t.cacheApaddr = 0)
    (hroom : t.txc + 4 * calls.length + 8 < maxwords) (hrx : t.rxc + calls.length < maxwords) :
    ∃ t', runCalls t (calls.map AhbCall.queue) = .ok t' ∧ t'.txc ≤ t.txc + 4 * calls.length := by
  induction calls generalizing t with
  | nil => exact ⟨t, rfl, Nat.le_refl _⟩
  | cons c cs ih =>
    rw [List.length_cons] at hroom hrx
    have hsel : selectWords t ahbTar = [] := if_neg (not_not.mpr happ)
    obtain ⟨u, hu, htxc, hurx, hucache⟩ := queue_room c (t := t) (by omega) (by omega)
    rw [hsel, List.length_nil] at htxc
    obtain ⟨t', ht', hlen⟩ := ih hucache (by omega) (by omega)
    refine ⟨t', ?_, ?_⟩
    · rw [List.map_cons, runCalls, hu, ok_bind, ht']
    · rw [List.length_cons]
      omega

/-- What a transaction takes that is queued into an empty one. -/
theorem runCalls_qInit (calls : List AhbCall) (hlen : calls.length ≤ 127) :
    ∃ t, runCalls qInit (calls.map AhbCall.queue) = .ok t ∧ t.txc ≤ 3 + 4 * calls.length := by
  have hmax : maxwords = 2048 := rfl
  have htx : qInit.txc = 1 := rfl
  have hrx : qInit.rxc = 0 := rfl
  have hselw : (selectWords qInit ahbTar).length = 2 := rfl
  cases calls with
  | nil => exact ⟨qInit, rfl, by rw [htx]; omega⟩
  | cons c cs =>
    rw [List.length_cons] at hlen
    obtain ⟨u, hu, htxc, hurx, hucache⟩ := queue_room c (t := qInit) (by omega) (by omega)
    obtain ⟨t, ht, hlen'⟩ := runCalls_room cs hucache (by omega) (by omega)
    refine ⟨t, ?_, ?_⟩
    · rw [List.map_cons, runCalls, hu, ok_bind, ht]
    · rw [List.length_cons]
      omega

/-! ### One by one -/

theorem zip_range_cons (p : Ptr) (w : Word) (ws : List Word) :
    (List.range' p (w :: ws).length).zip (w :: ws) =
      (p, w) :: (List.range' (p + 1) ws.length).zip ws := by
  rw [List.length_cons, List.range'_succ, List.zip_cons_cons]

/-- The accesses one by one, through `SELECT` and `TAR`, are accesses to memory. -/
theorem aloneAll_direct (ops : List AhbOp) (p : Ptr) {m : MemAp} (hcsw : Still m.csw) {s : Direct}
    (hmem : m.mem = s.mem) (hlog : m.log = s.log) :
    let r := aloneAll (ahbCalls ops p) m
    let direct := Direct.access ops s
    r.1.mem = direct.2.mem ∧ r.1.log = direct.2.log ∧ Still r.1.csw ∧
      r.2 = (List.range' p direct.1.length).zip direct.1 := by
  induction ops generalizing p m s with
  | nil => exact ⟨hmem, hlog, hcsw, rfl⟩
  | cons op ops ih =>
    cases op with
    | read addr =>
      have halone := (AhbCall.read addr p).alone_eq hcsw
      have hrest := ih (p + 1) (m := ((AhbCall.read addr p).alone m).1)
        (s := { s with log := s.log ++ [.read addr] }) (by rw [halone]; exact hcsw)
        (by rw [halone]; exact hmem) (by rw [halone, AhbCall.access_log, hlog]; rfl)
      obtain ⟨hmem', hlog', hcsw', hwords⟩ := hrest
      refine ⟨hmem', hlog', hcsw', ?_⟩
      have hfirst : ((AhbCall.read addr p).alone m).2 = [(p, s.mem addr)] := by
        rw [halone, ← hmem]
        rfl
      show ((AhbCall.read addr p).alone m).2 ++ _ = _
      rw [hfirst, hwords]
      exact (zip_range_cons p _ _).symm
    | write addr value =>
      have halone := (AhbCall.write addr value).alone_eq hcsw
      have hrest := ih p (m := ((AhbCall.write addr value).alone m).1)
        (s := { s with mem := Function.update s.mem addr value, log := s.log ++ [.write addr value] })
        (by rw [halone]; exact hcsw) (by rw [halone, ← hmem]; rfl)
        (by rw [halone, AhbCall.access_log, hlog]; rfl)
      obtain ⟨hmem', hlog', hcsw', hwords⟩ := hrest
      refine ⟨hmem', hlog', hcsw', ?_⟩
      have hfirst : ((AhbCall.write addr value).alone m).2 = [] := by
        rw [halone]
        rfl
      show ((AhbCall.write addr value).alone m).2 ++ _ = _
      rw [hfirst, List.nil_append]
      exact hwords

/-- The words of a reply, stored one after the other. -/
theorem storeAll_put (p : Ptr) (ws : List Word) (h : Host) :
    (((List.range' p ws.length).zip ws).foldl Host.store h).mem = put h.mem p ws := by
  induction ws generalizing p h with
  | nil => exact (put_nil h.mem p).symm
  | cons w ws ih =>
    rw [zip_range_cons, List.foldl_cons, ih, put_cons]
    rfl

/-! ### Blocks -/

theorem access_sent (ops : List AhbOp) (s : Direct) : (Direct.access ops s).2.sent = s.sent := by
  induction ops generalizing s with
  | nil => rfl
  | cons op ops ih =>
    cases op with
    | write addr value => exact ih _
    | read addr => exact ih _

theorem blockOps_succ (op : ℕ → Word → AhbOp) (addr : Word) (n : ℕ) :
    blockOps op addr (n + 1 : ℕ) =
      op 0 addr :: blockOps (fun i => op (i + 1)) (wordAddr addr 1) (n : ℕ) := by
  simp only [blockOps, Int.toNat_natCast]
  rw [List.range_succ_eq_map, List.map_cons, wordAddr_zero, List.map_map]
  congr 1
  apply List.map_congr_left
  intro i _
  rw [Function.comp_apply, wordAddr_add, Nat.add_comm 1]

theorem access_readBlock (addr : Word) (n : ℕ) (s : Direct) :
    Direct.access (blockOps (fun _ => .read) addr n) s =
      (load s.mem addr n, { s with log := s.log ++ load .read addr n }) := by
  induction n generalizing addr s with
  | zero => simp [blockOps, Direct.access, load]
  | succ n ih =>
    rw [blockOps_succ, Direct.access, ih, load_succ s.mem, load_succ Access.read, List.append_assoc]
    rfl

theorem access_writeBlock (value : ℕ → Word) (addr : Word) (n : ℕ) (s : Direct) :
    Direct.access (blockOps (fun i a => .write a (value i)) addr n) s =
      ([], { s with
        mem := store s.mem addr ((List.range n).map value)
        log := s.log ++ (load id addr n).zipWith .write ((List.range n).map value) }) := by
  induction n generalizing value addr s with
  | zero => simp [blockOps, Direct.access, load, store]
  | succ n ih =>
    have hmap : (List.range n).map (value ∘ Nat.succ) = (List.range n).map fun i => value (i + 1) := rfl
    rw [blockOps_succ, Direct.access, ih fun i => value (i + 1)]
    rw [List.range_succ_eq_map, List.map_cons, List.map_map, hmap, load_succ id, List.zipWith_cons_cons,
      List.append_assoc]
    rfl

/-! ### The bench and the memory -/

/-- The bench is up, single accesses stay where they are, and it has this memory and log. -/
structure Bench.Shows (s : Direct) (b : Bench) : Prop where
  up : b.Up
  still : Still b.dev.target.csw
  mem : b.mem = s.mem
  log : b.log = s.log
  sent : b.sent = s.sent

section
variable (beyond : Device MemAp → ℕ → Word) (stale : List Word) {b : Bench} {s : Direct}

theorem exec_shows (hb : b.Shows s) {ops : List AhbOp} (hlen : ops.length ≤ 127)
    (hfirst : ∀ op ∈ ops.head?, op.addr ≠ 0xffffffff) (buf : ℕ → Word) :
    ∃ b', b'.Shows (s.answer ops buf).2 ∧
      ∀ fuel, benchResponder beyond stale fuel (.exec ops buf) b = some ((s.answer ops buf).1, b') := by
  have hcount := ahbCalls_length ops 0
  obtain ⟨t, hq, htxc⟩ := runCalls_qInit (ahbCalls ops 0) (by omega)
  have hcached : ∀ c ∈ (ahbCalls ops 0).head?, Cached qInit b.dev.target c := fun c hc =>
    cached_qInit fun haddr => absurd haddr (ahbCalls_head hfirst 0 c hc)
  obtain ⟨ms, ws, hholds, ⟨vs, hacts, hreads⟩, hptrs, hzip⟩ :=
    runCalls_effect (ahbCalls ops 0) holds_qInit hq hb.still hcached
  rw [List.nil_append] at hholds
  obtain ⟨hmem, hlog, hcsw, hwords⟩ := aloneAll_direct ops 0 hb.still hb.mem hb.log
  have hroom : t.txc < maxwords := by
    show t.txc < 2048
    omega
  obtain ⟨t', hframe, hpad⟩ := qFrame_of_room b.host.swdMaxwords (rswdTxnStart b.host.sequence)
    hholds.2.2.2 hroom
  have hfit : t'.txc ≤ m3debug.rxWords := by
    rw [hpad, paddedLength, hb.up.2]
    show (if t.txc % 16 = 0 ∧ t.txc ≠ 512 then t.txc + 1 else t.txc) ≤ 512
    split <;> omega
  obtain ⟨h', d', hexec, htarget, hhost, -, hon, hmw⟩ := qExec_probe m3debug memAp hholds
    (h := { b.host with mem := buf }) hb.up.1 hframe hfit beyond stale b.dev (memAp_acts_ok _ _)
  rw [hacts] at htarget hhost
  have hanswer : h'.mem = put buf 0 (Direct.access ops s).1 := by
    rw [hhost, hreads, hptrs]
    have hstores : (qInit.rx ++ (ahbCalls ops 0).flatMap AhbCall.ptrs).zip ws =
        (List.range' 0 (Direct.access ops s).1.length).zip (Direct.access ops s).1 :=
      hzip.trans hwords
    rw [hstores, storeAll_put]
  refine ⟨{ b with host := h', dev := d' }, ⟨⟨hon, hmw.trans hb.up.2⟩, ?_, ?_, ?_, ?_⟩, ?_⟩
  · show Still d'.target.csw
    rw [htarget]
    exact hcsw
  · show d'.target.mem = _
    rw [htarget]
    exact hmem
  · show d'.target.log = _
    rw [htarget]
    exact hlog
  · exact hb.sent.trans (access_sent ops s).symm
  · intro fuel
    have hqueue : runCalls qInit (queueOps ops 0) = .ok t := by rw [← ahbCalls_queue, hq]
    simp only [benchResponder, benchExec, hqueue, hexec, hanswer]
    rfl

theorem block_shows {ops : List AhbOp} (hb : b.Shows s) {addr : Word} {buf : ℕ → Word} {count : ℤ}
    {body : Body (BulkState (Device MemAp)) (Except Stop (ℤ × BulkState (Device MemAp)))}
    {t : BulkState (Device MemAp)} (hleaves : Leaves body
      ⟨{ addr := addr, ptr := 0, count := count }, { b.host with mem := buf }, b.dev⟩ (.ok (0, t)))
    (hup : t.host.swdOnline = 1 ∧ t.host.swdMaxwords = 512) (hstill : Still t.dev.target.csw)
    (hmem : t.dev.target.mem = (s.answer ops buf).2.mem)
    (hlog : t.dev.target.log = (s.answer ops buf).2.log)
    (hanswer : t.host.mem = (s.answer ops buf).1.buf) :
    ∃ b', b'.Shows (s.answer ops buf).2 ∧ ∃ F, ∀ fuel ≥ F,
      benchLoop body fuel addr buf count b = some ((s.answer ops buf).1, b') := by
  obtain ⟨F, hF⟩ := benchLoop_of_leaves hleaves
  refine ⟨{ b with host := t.host, dev := t.dev }, ⟨hup, hstill, hmem, hlog, ?_⟩, F, ?_⟩
  · exact hb.sent.trans (access_sent ops s).symm
  · intro fuel hfuel
    rw [hF fuel hfuel, hanswer]
    rfl

theorem blockOps_toNat (op : ℕ → Word → AhbOp) (addr : Word) (count : ℤ) :
    blockOps op addr count = blockOps op addr (count.toNat : ℤ) := by
  rw [blockOps, blockOps, Int.toNat_natCast]

theorem blockOps_none (op : ℕ → Word → AhbOp) (addr : Word) {count : ℤ} (h : count ≤ 0) :
    blockOps op addr count = [] := by
  rw [blockOps, Int.toNat_of_nonpos h]
  rfl

theorem answer_none (buf : ℕ → Word) (s : Direct) : s.answer [] buf = (statusAnswer 0 buf, s) := by
  rw [Direct.answer, Direct.access, put_nil]

theorem read32_shows (hb : b.Shows s) {addr : Word} (haligned : addr.toNat % 4 = 0) (buf : ℕ → Word)
    (count : ℤ) :
    let ops := blockOps (fun _ => .read) addr count
    ∃ b', b'.Shows (s.answer ops buf).2 ∧ ∃ F, ∀ fuel ≥ F,
      benchLoop (ahbRead32Pass (bench beyond) stale) fuel addr buf count b =
        some ((s.answer ops buf).1, b') := by
  by_cases hc : 0 < count
  · obtain ⟨t, hleaves, hdone, hcount⟩ := ahbRead32_run beyond stale
      (s := ⟨{ addr := addr, ptr := 0, count := count }, { b.host with mem := buf }, b.dev⟩)
      hb.up.1 hb.up.2 haligned hc
    have hstill : Still t.dev.target.csw := hdone.csw hcount ▸ still_cswNoInc
    have hanswer : s.answer (blockOps (fun _ => .read) addr count) buf =
        (statusAnswer 0 (put buf 0 (load s.mem addr count.toNat)),
          { s with log := s.log ++ load .read addr count.toNat }) := by
      rw [Direct.answer, blockOps_toNat, access_readBlock]
    refine block_shows hb hleaves ⟨hdone.online, hdone.maxwords⟩ hstill ?_ ?_ ?_
    · rw [hdone.mem, hanswer]
      exact hb.mem
    · rw [hdone.log, hanswer]
      exact congrArg (· ++ _) hb.log
    · have hlen : count.toNat = (load b.dev.target.mem addr count.toNat).length :=
        (load_length _ _ _).symm
      rw [hdone.host, hanswer]
      show (((List.range' 0 count.toNat).zip (load b.dev.target.mem addr count.toNat)).foldl
        Host.store { b.host with mem := buf }).mem = put buf 0 (load s.mem addr count.toNat)
      nth_rewrite 1 [hlen]
      rw [storeAll_put]
      have hmem : b.dev.target.mem = s.mem := hb.mem
      rw [hmem]
  · have hle : count ≤ 0 := by omega
    have hleaves : Leaves (ahbRead32Pass (bench beyond) stale)
        ⟨{ addr := addr, ptr := 0, count := count }, { b.host with mem := buf }, b.dev⟩ _ :=
      Leaves.exit (bulkPass_end hle)
    refine block_shows hb hleaves hb.up hb.still ?_ ?_ ?_
    · rw [blockOps_none _ _ hle, answer_none]
      exact hb.mem
    · rw [blockOps_none _ _ hle, answer_none]
      exact hb.log
    · rw [blockOps_none _ _ hle, answer_none]
      rfl

theorem write32_shows (hb : b.Shows s) {addr : Word} (haligned : addr.toNat % 4 = 0) (buf : ℕ → Word)
    (count : ℤ) :
    let ops := blockOps (fun i a => .write a (buf i)) addr count
    ∃ b', b'.Shows (s.answer ops buf).2 ∧ ∃ F, ∀ fuel ≥ F,
      benchLoop (ahbWrite32Pass (bench beyond) stale) fuel addr buf count b =
        some ((s.answer ops buf).1, b') := by
  by_cases hc : 0 < count
  · obtain ⟨t, hleaves, hdone, hcount⟩ := ahbWrite32_run beyond stale
      (s := ⟨{ addr := addr, ptr := 0, count := count }, { b.host with mem := buf }, b.dev⟩)
      hb.up.1 hb.up.2 haligned hc
    have hstill : Still t.dev.target.csw := hdone.csw hcount ▸ still_cswNoInc
    have hrange : List.range' (0 : Ptr) count.toNat = List.range count.toNat :=
      List.range_eq_range'.symm
    have hanswer : s.answer (blockOps (fun i a => .write a (buf i)) addr count) buf =
        (statusAnswer 0 buf, { s with
          mem := store s.mem addr ((List.range count.toNat).map buf)
          log := s.log ++
            (load id addr count.toNat).zipWith .write ((List.range count.toNat).map buf) }) := by
      rw [Direct.answer, blockOps_toNat, access_writeBlock, put_nil]
    have hmem := hdone.mem
    have hlog := hdone.log
    dsimp only at hmem hlog
    rw [hrange] at hmem hlog
    refine block_shows hb hleaves ⟨hdone.online, hdone.maxwords⟩ hstill ?_ ?_ ?_
    · rw [hmem, hanswer]
      exact congrArg (store · addr _) hb.mem
    · rw [hlog, hanswer]
      exact congrArg (· ++ _) hb.log
    · rw [hdone.host, hanswer]
      rfl
  · have hle : count ≤ 0 := by omega
    have hleaves : Leaves (ahbWrite32Pass (bench beyond) stale)
        ⟨{ addr := addr, ptr := 0, count := count }, { b.host with mem := buf }, b.dev⟩ _ :=
      Leaves.exit (bulkPass_end hle)
    refine block_shows hb hleaves hb.up hb.still ?_ ?_ ?_
    · rw [blockOps_none _ _ hle, answer_none]
      exact hb.mem
    · rw [blockOps_none _ _ hle, answer_none]
      exact hb.log
    · rw [blockOps_none _ _ hle, answer_none]
      rfl

/-- A call that is admitted is answered as by the memory. -/
theorem bench_simulates : Prog.Simulates directResponder (benchResponder beyond stale)
    fun s b => b.Shows s := by
  intro c s a s' b hb hc
  obtain ⟨hadmitted, hanswer⟩ : c.Admitted ∧ s.respond c = (a, s') := by
    by_cases h : c.Admitted
    · rw [directResponder, if_pos h] at hc
      exact ⟨h, Option.some.inj hc⟩
    · rw [directResponder, if_neg h] at hc
      exact absurd hc (by simp)
  cases c with
  | exec ops buf =>
    obtain ⟨rfl, rfl⟩ := Prod.mk.inj hanswer
    obtain ⟨b', hb', hrun⟩ := exec_shows beyond stale hb hadmitted.1 hadmitted.2 buf
    exact ⟨b', hb', 0, fun fuel _ => hrun fuel⟩
  | ahbRead32 addr buf count =>
    obtain ⟨rfl, rfl⟩ := Prod.mk.inj hanswer
    exact read32_shows beyond stale hb hadmitted buf count
  | ahbWrite32 addr buf count =>
    obtain ⟨rfl, rfl⟩ := Prod.mk.inj hanswer
    exact write32_shows beyond stale hb hadmitted buf count
  | send packet =>
    obtain ⟨rfl, rfl⟩ := Prod.mk.inj hanswer
    refine ⟨{ b with sent := b.sent ++ [packet] }, ⟨hb.up, hb.still, hb.mem, hb.log, ?_⟩, 0,
      fun _ _ => rfl⟩
    exact congrArg (· ++ [packet]) hb.sent
  | attn =>
    obtain ⟨rfl, rfl⟩ := Prod.mk.inj hanswer
    exact ⟨b, hb, 0, fun _ _ => rfl⟩
  | calloc =>
    obtain ⟨rfl, rfl⟩ := Prod.mk.inj hanswer
    exact ⟨b, hb, 0, fun _ _ => rfl⟩
  | frame =>
    obtain ⟨rfl, rfl⟩ := Prod.mk.inj hanswer
    exact ⟨b, hb, 0, fun _ _ => rfl⟩
  | debuggerCommand args =>
    obtain ⟨rfl, rfl⟩ := Prod.mk.inj hanswer
    exact ⟨b, hb, 0, fun _ _ => rfl⟩

/-- A program of the debugger gets from the probe what it would get from memory: through queues
and frames, the link, the firmware and the MEM-AP come its own accesses, in its order, and back
come the words they read. -/
theorem probe_refines_memory {α : Type} {p : HostProg α} {s s' : Direct} {b : Bench}
    {r : Except Tools.Halt α} (hb : b.Shows s) (hrun : p.run directResponder s = some (r, s')) :
    ∃ b', b'.Shows s' ∧
      ∃ F, ∀ fuel ≥ F, p.run (benchResponder beyond stale fuel) b = some (r, b') :=
  (bench_simulates beyond stale).run hb hrun

end

/-- A bench that is up, with an idle probe. -/
def resetBench : Bench where
  host := { sequence := 1, swdOnline := 1, swdMaxwords := 512, swdVersion := 5, swdError := 0,
            swdVerbose := false, mem := fun _ => 0 }
  dev := resetDevice
  sent := []

/-- A word is written, and a block with it read back. -/
theorem probe_refines_memory_block :
    ∃ b' : Bench, (∃ F, ∀ fuel ≥ F, (do
        let _ ← swdpAhbWrite 0x20000004 7
        let (_, out) ← swdpAhbRead32 0x20000000 (fun _ => 1) 2
        return [out 0, out 1, out 2]).run (benchResponder (fun _ _ => 0) [] fuel) resetBench =
          some (.ok [0, 7, 1], b')) ∧
      b'.log = [.write 0x20000004 7, .read 0x20000000, .read 0x20000004] := by
  have hshows : resetBench.Shows ⟨fun _ => 0, [], []⟩ := ⟨⟨rfl, rfl⟩, still_cswNoInc, rfl, rfl, rfl⟩
  obtain ⟨b', hb', hrun⟩ := probe_refines_memory (fun _ _ => 0) [] hshows
    (p := do
      let _ ← swdpAhbWrite 0x20000004 7
      let (_, out) ← swdpAhbRead32 0x20000000 (fun _ => 1) 2
      return [out 0, out 1, out 2]) rfl
  exact ⟨b', hrun, hb'.log⟩

end M3Dev.Tools
