import M3Dev.RswdpAhb32

/-! When the bulk loops make progress, keep to the device's buffer, and end. -/
namespace M3Dev.Rswdp
open WhileLoop

/-- A batch of at least one word and no more than are left, in a transaction that,
framed by `q_exec`, fits the device's buffer. -/
def BatchInBounds (batch : Batch) (h : Host) (a : BulkArgs) : Prop :=
  ∃ t a' t', batch h a = .ok (t, a') ∧ a'.count < a.count ∧ 0 ≤ a'.count ∧
    a'.ptr = a.ptr + (a.count - a'.count).toNat ∧
    qFrame h.swdMaxwords (rswdTxnStart h.sequence) t = .ok t' ∧ t'.txc ≤ h.swdMaxwords

/-- Every `q_exec` of the loop entered at `s` succeeds. -/
def AllSucceed {δ : Type} (batch : Batch) (usb : Link δ) (stale : List Word) (s : BulkState δ) :
    Prop :=
  ∀ s', Reaches (bulkPass batch (qExec usb stale)) s s' → 0 < s'.count →
    ∀ t a, batch s'.host s'.toBulkArgs = .ok (t, a) →
      ∃ h d, qExec usb stale t s'.host s'.dev = .ok (0, h, d)

/-- On every device and host, all batches are in bounds, and where every `q_exec`
succeeds the loop is left with all words transferred. -/
def RunsInBounds (batch : Batch) (swdMaxwords : ℕ) (addr : Word) (count : ℤ) : Prop :=
  ∀ (δ : Type) (usb : Link δ) (stale : List Word) (s : BulkState δ),
    s.addr = addr → s.count = count → s.host.swdMaxwords = swdMaxwords →
    (∀ s', Reaches (bulkPass batch (qExec usb stale)) s s' → 0 < s'.count →
      BatchInBounds batch s'.host s'.toBulkArgs) ∧
    (AllSucceed batch usb stale s →
      ∃ s', Leaves (bulkPass batch (qExec usb stale)) s (.ok (0, s')) ∧ s'.count = 0 ∧
        s'.ptr = s.ptr + count.toNat)

/-! ### Passes -/

theorem qExec_swdMaxwords {δ : Type*} {usb : Link δ} {stale : List Word} {t : Txn} {h h' : Host}
    {d d' : δ} {r : ℤ} (hrun : qExec usb stale t h d = .ok (r, h', d')) :
    h'.swdMaxwords = h.swdMaxwords := by
  unfold qExec at hrun
  split at hrun
  · exact absurd hrun (by simp)
  simp only at hrun
  split_ifs at hrun
  -- not online, and the disconnect acknowledged or not
  · cases hrun
    rfl
  · cases hrun
    rfl
  -- a reply came
  · split at hrun
    · exact absurd hrun (by simp)
    · cases hrun
      exact (take_frame _ _).1
  · cases hrun
    rfl

theorem bulkPass_next {δ : Type*} {batch : Batch}
    {exec : Txn → Host → δ → Except Stop (ℤ × Host × δ)} {s s' : BulkState δ}
    (h : bulkPass batch exec s = some (.next s')) :
    0 < s.count ∧ ∃ t, batch s.host s.toBulkArgs = .ok (t, s'.toBulkArgs) ∧
      exec t s.host s.dev = .ok (0, s'.host, s'.dev) := by
  unfold bulkPass at h
  have hc : ¬ s.count ≤ 0 := by
    intro hle
    rw [if_pos hle] at h
    exact absurd h (by simp)
  rw [if_neg hc] at h
  refine ⟨by omega, ?_⟩
  split at h
  · exact absurd h (by simp)
  rename_i t a hb
  split at h
  · exact absurd h (by simp)
  rename_i r host dev he
  simp only at h
  have hr0 : r = 0 := by
    by_contra hr
    rw [if_pos hr] at h
    exact absurd h (by simp)
  rw [if_neg (not_not.mpr hr0), Option.some.injEq, Pass.next.injEq] at h
  subst h
  exact ⟨t, hb, by rw [he, hr0]⟩

/-- A pass that returns from the function: at its start, or after a transaction. -/
theorem bulkPass_exit {δ : Type*} {batch : Batch}
    {exec : Txn → Host → δ → Except Stop (ℤ × Host × δ)} {s s' : BulkState δ} {r : ℤ}
    (h : bulkPass batch exec s = some (.exit (.ok (r, s')))) :
    s' = s ∨ 0 < s.count ∧ ∃ t r', batch s.host s.toBulkArgs = .ok (t, s'.toBulkArgs) ∧
      exec t s.host s.dev = .ok (r', s'.host, s'.dev) := by
  unfold bulkPass at h
  split_ifs at h with hc
  · cases h
    exact Or.inl rfl
  · right
    refine ⟨Int.not_le.mp hc, ?_⟩
    split at h
    · cases h
    · rename_i t a hb
      split at h
      · cases h
      · rename_i r' host dev he
        simp only at h
        split_ifs at h
        · cases h
          exact ⟨t, r', hb, he⟩
        · cases h

theorem bulkPass_of_ok {δ : Type*} {batch : Batch}
    {exec : Txn → Host → δ → Except Stop (ℤ × Host × δ)} {s : BulkState δ} {t : Txn}
    {a : BulkArgs} {h : Host} {d : δ} (hc : 0 < s.count)
    (hb : batch s.host s.toBulkArgs = .ok (t, a)) (he : exec t s.host s.dev = .ok (0, h, d)) :
    bulkPass batch exec s = some (.next { toBulkArgs := a, host := h, dev := d }) := by
  have hle : ¬ s.count ≤ 0 := by omega
  simp only [bulkPass, if_neg hle, hb, he, ne_eq, not_true_eq_false, ↓reduceIte]

theorem bulkPass_end {δ : Type*} {batch : Batch}
    {exec : Txn → Host → δ → Except Stop (ℤ × Host × δ)} {s : BulkState δ} (hc : s.count ≤ 0) :
    bulkPass batch exec s = some (.exit (.ok (0, s))) := if_pos hc

/-! ### Sizes -/

/-- The length of a transaction of `n` words once `q_exec` has padded it. -/
def paddedLength (swdMaxwords n : ℕ) : ℕ := if n % 16 = 0 ∧ n ≠ swdMaxwords then n + 1 else n

theorem qFrame_of_room (swdMaxwords : ℕ) (id : Word) {t : Txn} (hm : t.magic = 0x12345678)
    (h : t.txc < maxwords) :
    ∃ t', qFrame swdMaxwords id t = .ok t' ∧ t'.txc = paddedLength swdMaxwords t.txc := by
  have hm' : ¬ t.magic ≠ 0x12345678 := not_not.mpr hm
  have htxc : Txn.txc { t with magic := 0 } = t.txc := rfl
  have hpush : Txn.pushTx { t with magic := 0 } (rswdMsg cmdNull 0 0) =
      .ok { t with tx := t.tx ++ [rswdMsg cmdNull 0 0], magic := 0 } := if_pos h
  unfold qFrame qPad paddedLength
  rw [if_neg hm', htxc]
  split_ifs with hpad
  · rw [hpush]
    exact ⟨_, rfl, by simp [Txn.txc]⟩
  · exact ⟨_, rfl, by simp [Txn.txc]⟩

/-- A transaction shorter than the probe's buffer fits it with the padding. -/
theorem qFrame_fits {swdMaxwords : ℕ} (hmax : swdMaxwords ≤ maxwords) (id : Word) {t : Txn}
    (hm : t.magic = 0x12345678) (hlt : t.txc < swdMaxwords) :
    ∃ t', qFrame swdMaxwords id t = .ok t' ∧ t'.txc ≤ swdMaxwords := by
  obtain ⟨t', hframe, htxc⟩ := qFrame_of_room swdMaxwords id hm (hlt.trans_le hmax)
  refine ⟨t', hframe, ?_⟩
  rw [htxc, paddedLength]
  split_ifs <;> omega

/-- What a batch function queues for a batch of `xfer` words: a transaction of
`len xfer` words, two more for the last one. -/
def Queues (batch : Batch) (len : ℤ → ℕ) : Prop :=
  ∀ (h : Host) (a : BulkArgs), h.swdMaxwords ≤ maxwords → 0 < a.count →
    let xfer := ahbXfer h.swdMaxwords a.addr a.count
    ∃ t ptr, batch h a =
        .ok (t, { addr := a.addr + BitVec.ofInt 32 (xfer * 4), ptr := ptr,
                  count := a.count - xfer }) ∧
      t.magic = 0x12345678 ∧ t.txc = len xfer + (if a.count - xfer = 0 then 2 else 0) ∧
      t.txc < maxwords ∧ (1 ≤ xfer → ptr = a.ptr + xfer.toNat)

theorem ahbRead32Batch_queues : Queues ahbRead32Batch (fun _ => 10) := by
  intro h a hmw hc xfer
  have hlen : (batchTxn (readBatchWords a.addr xfer (a.count - xfer))
      (List.range' a.ptr ((xfer - 1).toNat + 1))).txc =
      10 + (if a.count - xfer = 0 then 2 else 0) := by
    simp only [Txn.txc, batchTxn, readBatchWords, setupWords, List.length_append,
      restoreWords_length, List.length_cons, List.length_nil]
  refine ⟨_, _, ahbRead32Batch_eq h a hmw hc rfl, rfl, hlen, ?_, ?_⟩
  · rw [hlen, maxwords]
    split_ifs <;> omega
  · intro hx
    have hsucc : (xfer - 1).toNat + 1 = xfer.toNat := by omega
    exact congrArg (a.ptr + ·) hsucc

theorem ahbWrite32Batch_queues : Queues ahbWrite32Batch (fun xfer => 8 + xfer.toNat) := by
  intro h a hmw hc xfer
  have hbound : 0 ≤ xfer ∧ xfer ≤ a.count ∧ xfer ≤ pageWords a.addr :=
    ahbXfer_bounds hmw a.addr hc
  have hpage := pageWords_le a.addr
  have hlen : (batchTxn (writeBatchWords a.addr ((List.range' a.ptr xfer.toNat).map h.mem) xfer
      (a.count - xfer)) []).txc = 8 + xfer.toNat + (if a.count - xfer = 0 then 2 else 0) := by
    simp only [Txn.txc, batchTxn, writeBatchWords, setupWords, List.length_append,
      restoreWords_length, List.length_cons, List.length_nil, List.length_map, List.length_range']
    omega
  refine ⟨_, _, ahbWrite32Batch_eq h a hmw hc rfl, rfl, hlen, ?_, fun _ => rfl⟩
  rw [hlen, maxwords]
  split_ifs <;> omega

/-! ### Runs -/

/-- The batch at `addr` with `count` words left moves at least one word and fits. -/
def BatchFits (len : ℤ → ℕ) (swdMaxwords : ℕ) (addr : Word) (count : ℤ) : Prop :=
  let xfer := ahbXfer swdMaxwords addr count
  1 ≤ xfer ∧
    paddedLength swdMaxwords (len xfer + (if count - xfer = 0 then 2 else 0)) ≤ swdMaxwords

theorem batchInBounds_iff {batch : Batch} {len : ℤ → ℕ} (hb : Queues batch len) (h : Host)
    (a : BulkArgs) (hmw : h.swdMaxwords ≤ maxwords) (hc : 0 < a.count) :
    BatchInBounds batch h a ↔ BatchFits len h.swdMaxwords a.addr a.count := by
  obtain ⟨t, ptr, hbatch, hmagic, htxc, hroom, hptr⟩ := hb h a hmw hc
  obtain ⟨t', hframe, hlen⟩ := qFrame_of_room h.swdMaxwords (rswdTxnStart h.sequence)
    hmagic hroom
  have hbound := ahbXfer_bounds hmw a.addr hc
  rw [htxc] at hlen
  constructor
  · rintro ⟨u, a', u', hu, hlt, _, _, hu', hle⟩
    rw [hbatch] at hu
    obtain ⟨rfl, rfl⟩ := Prod.mk.inj (Except.ok.inj hu)
    rw [hframe] at hu'
    obtain rfl := Except.ok.inj hu'
    simp only at hlt
    exact ⟨by omega, hlen ▸ hle⟩
  · rintro ⟨hx, hle⟩
    refine ⟨t, _, t', hbatch, ?_, ?_, ?_, hframe, hlen ▸ hle⟩
    · show a.count - _ < a.count
      omega
    · show 0 ≤ a.count - _
      omega
    · show ptr = _
      rw [hptr hx, sub_sub_cancel]

/-- The transfer under way: the buffer size is as it was, a condition holds of the words still
to come, and the pointer moves on as they get fewer. -/
structure UnderWay {δ : Type*} (swdMaxwords : ℕ) (C : Word → ℤ → Prop) (last : Ptr)
    (s : BulkState δ) : Prop where
  room : s.host.swdMaxwords = swdMaxwords
  nonneg : 0 ≤ s.count
  cond : 0 < s.count → C s.addr s.count
  last : s.ptr + s.count.toNat = last

/-- A pass moves the transfer on, and leaves fewer words to come. -/
theorem UnderWay.step {δ : Type*} {usb : Link δ} {stale : List Word} {batch : Batch} {len : ℤ → ℕ}
    (hb : Queues batch len) {swdMaxwords : ℕ} (hmw : swdMaxwords ≤ maxwords) {C : Word → ℤ → Prop}
    (hC : ∀ addr count, 0 < count → C addr count → BatchFits len swdMaxwords addr count ∧
      let xfer := ahbXfer swdMaxwords addr count
      (0 < count - xfer → C (addr + BitVec.ofInt 32 (xfer * 4)) (count - xfer)))
    {last : Ptr} {s s' : BulkState δ} (h : UnderWay swdMaxwords C last s)
    (hpass : bulkPass batch (qExec usb stale) s = some (.next s')) :
    UnderWay swdMaxwords C last s' ∧ s'.count < s.count := by
  obtain ⟨hmax, hnn, hcond, hleft⟩ := h
  obtain ⟨hpos, t, hbatch, hexec⟩ := bulkPass_next hpass
  obtain ⟨hfits, hrest⟩ := hC _ _ hpos (hcond hpos)
  have hmax' : s.host.swdMaxwords ≤ maxwords := hmax ▸ hmw
  obtain ⟨t', ptr, hbatch', _, _, _, hptr⟩ := hb s.host s.toBulkArgs hmax' hpos
  have hbound := ahbXfer_bounds hmax' s.addr hpos
  -- what the batch leaves of address, count and pointer
  have hargs := (Prod.mk.inj (Except.ok.inj (hbatch.symm.trans hbatch'))).2
  have haddr : s'.addr = s.addr +
      BitVec.ofInt 32 (ahbXfer s.host.swdMaxwords s.addr s.count * 4) :=
    congrArg BulkArgs.addr hargs
  have hcount : s'.count = s.count - ahbXfer s.host.swdMaxwords s.addr s.count :=
    congrArg BulkArgs.count hargs
  have hptr' : s'.ptr = ptr := congrArg BulkArgs.ptr hargs
  have hx : 1 ≤ ahbXfer s.host.swdMaxwords s.addr s.count := by
    rw [hmax]
    exact hfits.1
  have hless : (ahbXfer s.host.swdMaxwords s.addr s.count).toNat + s'.count.toNat =
      s.count.toNat := by omega
  refine ⟨⟨(qExec_swdMaxwords hexec).trans hmax, by omega, ?_, ?_⟩, by omega⟩
  · intro hpos'
    rw [hmax] at haddr hcount
    rw [haddr, hcount]
    exact hrest (by omega)
  · rw [hptr', hptr hx, Nat.add_assoc, hless]
    exact hleft

/-- A condition that says of every batch that it fits and of the rest that it meets the
condition again is enough. -/
theorem runsInBounds_of {batch : Batch} {len : ℤ → ℕ} (hb : Queues batch len) {swdMaxwords : ℕ}
    (hmw : swdMaxwords ≤ maxwords) (C : Word → ℤ → Prop)
    (hC : ∀ addr count, 0 < count → C addr count → BatchFits len swdMaxwords addr count ∧
      let xfer := ahbXfer swdMaxwords addr count
      (0 < count - xfer → C (addr + BitVec.ofInt 32 (xfer * 4)) (count - xfer)))
    {addr : Word} {count : ℤ} (hc : 0 < count) (h : C addr count) :
    RunsInBounds batch swdMaxwords addr count := by
  intro δ usb stale s haddr hcount hs
  have hstart : UnderWay swdMaxwords C (s.ptr + count.toNat) s := by
    refine ⟨hs, by omega, ?_, by rw [hcount]⟩
    intro _
    rwa [haddr, hcount]
  constructor
  · intro s' hreach hpos
    have hinv := hreach.invariant (UnderWay swdMaxwords C (s.ptr + count.toNat))
      (fun _ _ hI hpass => (hI.step hb hmw hC hpass).1) hstart
    rw [batchInBounds_iff hb _ _ (hinv.room ▸ hmw) hpos, hinv.room]
    exact (hC _ _ hpos (hinv.cond hpos)).1
  · -- where every transaction is answered, the words still to come run out
    intro hall
    have hvariant : ∀ a, (UnderWay swdMaxwords C (s.ptr + count.toNat) a ∧
        Reaches (bulkPass batch (qExec usb stale)) s a) → 0 < a.count →
        ∃ a', bulkPass batch (qExec usb stale) a = some (.next a') ∧
          (UnderWay swdMaxwords C (s.ptr + count.toNat) a' ∧
            Reaches (bulkPass batch (qExec usb stale)) s a') ∧
          a'.count.toNat < a.count.toNat := by
      rintro a ⟨hinv, hreach⟩ hpos
      obtain ⟨t, ptr, hbatch, _⟩ := hb a.host a.toBulkArgs (hinv.room ▸ hmw) hpos
      obtain ⟨g, d, hexec⟩ := hall a hreach hpos _ _ hbatch
      have hpass := bulkPass_of_ok hpos hbatch hexec
      obtain ⟨hinv', hlt⟩ := hinv.step hb hmw hC hpass
      exact ⟨_, hpass, ⟨hinv', hreach.tail hpass⟩, by omega⟩
    obtain ⟨a, hreach, ⟨hinv, _⟩, hend⟩ := reaches_of_variant
      (fun a => UnderWay swdMaxwords C (s.ptr + count.toNat) a ∧
        Reaches (bulkPass batch (qExec usb stale)) s a) (fun a => 0 < a.count)
      (fun a => a.count.toNat) hvariant ⟨hstart, Relation.ReflTransGen.refl⟩
    have hnn := hinv.nonneg
    have hzero : a.count = 0 := by omega
    have hlast := hinv.last
    refine ⟨a, hreach.leaves (Leaves.exit (bulkPass_end (by omega))), hzero, ?_⟩
    rw [← hlast, hzero]
    rfl

/-! ### An obliging device -/

/-- A device that reports success for every transaction. -/
def okLink : Link Unit := fun tx d => (d, [tx.headD 0, rswdMsg cmdStatus 0 0])

theorem qExec_okLink {t : Txn} {h : Host} (hm : t.magic = 0x12345678) (hroom : t.txc < maxwords)
    (hon : h.swdOnline = 1) :
    ∃ h', qExec okLink [] t h () = .ok (0, h', ()) ∧ h'.swdMaxwords = h.swdMaxwords ∧
      h'.swdOnline = 1 := by
  obtain ⟨t', hframe, _⟩ := qFrame_of_room h.swdMaxwords (rswdTxnStart h.sequence) hm hroom
  have hreply : processReply h.swdVerbose t' (([t'.tx.headD 0, rswdMsg cmdStatus 0 0] ++ []).drop 1)
      1 = .ok (replyEnd 0) := by
    simp [processReply, replyLoop]
  refine ⟨{ h with sequence := h.sequence + 1 }.take (replyEnd 0), ?_, rfl, hon⟩
  have hlink : okLink t'.tx () = ((), [t'.tx.headD 0, rswdMsg cmdStatus 0 0]) := rfl
  exact qExec_of_reply hon hframe hlink Nat.two_pos hreply

/-- With the obliging device every batch is reached. -/
theorem of_okLink_in_bounds {batch : Batch} {len : ℤ → ℕ} (hb : Queues batch len)
    {swdMaxwords : ℕ} (hmw : swdMaxwords ≤ maxwords) (C : Word → ℤ → Prop)
    (hC : ∀ addr count, 0 < count → BatchFits len swdMaxwords addr count →
      (0 < count - ahbXfer swdMaxwords addr count →
        C (addr + BitVec.ofInt 32 (ahbXfer swdMaxwords addr count * 4))
          (count - ahbXfer swdMaxwords addr count)) → C addr count)
    (s : BulkState Unit) (hs : s.host.swdMaxwords = swdMaxwords) (hon : s.host.swdOnline = 1)
    (hc : 0 < s.count)
    (hall : ∀ s', Reaches (bulkPass batch (qExec okLink [])) s s' → 0 < s'.count →
      BatchInBounds batch s'.host s'.toBulkArgs) : C s.addr s.count := by
  induction hn : s.count.toNat using Nat.strongRecOn generalizing s with
  | ind n ih =>
    have hmax : s.host.swdMaxwords ≤ maxwords := hs ▸ hmw
    have hfits := (batchInBounds_iff hb _ _ hmax hc).mp (hall s Relation.ReflTransGen.refl hc)
    rw [hs] at hfits
    refine hC _ _ hc hfits ?_
    intro hleft
    obtain ⟨t, ptr, hbatch, hmagic, _, hroom, _⟩ := hb s.host s.toBulkArgs hmax hc
    obtain ⟨h', hexec, hmax', hon'⟩ := qExec_okLink hmagic hroom hon
    have hpass := bulkPass_of_ok hc hbatch hexec
    rw [hs] at hpass
    have hpos : 1 ≤ ahbXfer swdMaxwords s.addr s.count := hfits.1
    have hless : (s.count - ahbXfer swdMaxwords s.addr s.count).toNat < n := by omega
    exact ih _ hless _ (hmax'.trans hs) hon' hleft
      (fun s' hreach => hall s' (Relation.ReflTransGen.head hpass hreach)) rfl

/-- A condition that holds of a batch just if the batch fits, and the rest, if there is
one, meets the condition, is what the loop needs. -/
theorem runsInBounds_iff {batch : Batch} {len : ℤ → ℕ} (hb : Queues batch len) {swdMaxwords : ℕ}
    (hmw : swdMaxwords ≤ maxwords) (C : Word → ℤ → Prop)
    (hC : ∀ addr count, 0 < count → (C addr count ↔ BatchFits len swdMaxwords addr count ∧
      let xfer := ahbXfer swdMaxwords addr count
      (0 < count - xfer → C (addr + BitVec.ofInt 32 (xfer * 4)) (count - xfer))))
    {addr : Word} {count : ℤ} (hc : 0 < count) :
    RunsInBounds batch swdMaxwords addr count ↔ C addr count := by
  constructor
  · intro hrun
    let host : Host :=
      { sequence := 1, swdOnline := 1, swdMaxwords := swdMaxwords, swdVersion := 1,
        swdError := 0, swdVerbose := false, mem := fun _ => 0 }
    let s : BulkState Unit := { addr := addr, ptr := 0, count := count, host := host, dev := () }
    have hall := (hrun Unit okLink [] s rfl rfl rfl).1
    exact of_okLink_in_bounds hb hmw C
      (fun addr count hpos hfits hrest => (hC addr count hpos).mpr ⟨hfits, hrest⟩)
      s rfl rfl hc hall
  · intro h
    exact runsInBounds_of hb hmw C (fun addr count hpos hcond => (hC addr count hpos).mp hcond) hc h

/-! ### The two loops -/

/-- The words from `addr` on never start inside a word that runs over the end of a page. -/
def KeepsToWords (addr : Word) (count : ℤ) : Prop :=
  addr.toNat % 4 = 0 ∨ count ≤ pageWords addr

instance (addr : Word) (count : ℤ) : Decidable (KeepsToWords addr count) :=
  inferInstanceAs (Decidable (_ ∨ _))

/-- The buffers with which `swdp_ahb_read32` works. -/
def ReadsInBounds (swdMaxwords : ℕ) (addr : Word) (count : ℤ) : Prop :=
  KeepsToWords addr count ∧ 12 ≤ swdMaxwords ∧ swdMaxwords ≠ 16

/-- The buffers with which `swdp_ahb_write32` works: more than sixteen words, or fewer,
where the batches are not limited by the buffer and have to fit it by themselves. -/
def WritesInBounds (swdMaxwords : ℕ) (addr : Word) (count : ℤ) : Prop :=
  KeepsToWords addr count ∧
    (17 ≤ swdMaxwords ∨ (swdMaxwords ≤ 15 ∧
      if count ≤ pageWords addr then 10 + count ≤ swdMaxwords
      else 8 + (pageWords addr : ℤ) ≤ swdMaxwords ∧
        10 + (count - pageWords addr) ≤ swdMaxwords))

/-- The address after a batch that stays in its page. -/
theorem addr_step (addr : Word) {xfer : ℤ} (h0 : 0 ≤ xfer) (hx : xfer ≤ pageWords addr) :
    (addr + BitVec.ofInt 32 (xfer * 4)).toNat % 4 = addr.toNat % 4 ∧
      (pageWords (addr + BitVec.ofInt 32 (xfer * 4)) : ℤ) =
        if addr.toNat % 4 = 0 ∧ xfer = pageWords addr then 1024 else pageWords addr - xfer := by
  have hpage := pageWords_le addr
  have hnat : (addr + BitVec.ofInt 32 (xfer * 4)).toNat =
      (addr.toNat + (xfer * 4).toNat) % 2 ^ 32 := by
    have hmod : (BitVec.ofInt 32 (xfer * 4)).toNat = (xfer * 4).toNat := by
      rw [BitVec.toNat_ofInt]
      omega
    rw [BitVec.toNat_add, hmod]
  rw [pageWords, hnat]
  unfold pageWords at hx hpage ⊢
  constructor
  · omega
  · split_ifs <;> omega

theorem keepsToWords_step (addr : Word) {count xfer : ℤ} (h0 : 0 ≤ xfer)
    (hx : xfer ≤ pageWords addr) :
    KeepsToWords (addr + BitVec.ofInt 32 (xfer * 4)) (count - xfer) ↔ KeepsToWords addr count := by
  obtain ⟨hmod, hpage⟩ := addr_step addr h0 hx
  unfold KeepsToWords
  rw [hmod, hpage]
  split_ifs <;> omega

theorem readsInBounds_unfold {swdMaxwords : ℕ} (hmw : swdMaxwords ≤ maxwords) (addr : Word)
    (count : ℤ) (hc : 0 < count) :
    ReadsInBounds swdMaxwords addr count ↔ BatchFits (fun _ => 10) swdMaxwords addr count ∧
      let xfer := ahbXfer swdMaxwords addr count
      (0 < count - xfer →
        ReadsInBounds swdMaxwords (addr + BitVec.ofInt 32 (xfer * 4)) (count - xfer)) := by
  obtain ⟨hx0, hxc, hxp⟩ := ahbXfer_bounds hmw addr hc
  have hxfer := ahbXfer_eq hmw addr hc
  have hstep := @keepsToWords_step addr count _ hx0 hxp
  -- neither ten nor twelve words get a padding word
  have hpad : ∀ (last : Prop) [Decidable last],
      paddedLength swdMaxwords (10 + if last then 2 else 0) = 10 + if last then 2 else 0 := by
    intro last _
    by_cases h : last
    · rw [if_pos h]
      exact if_neg (fun h12 => absurd h12.1 (by decide))
    · rw [if_neg h]
      exact if_neg (fun h10 => absurd h10.1 (by decide))
  simp only [BatchFits, ReadsInBounds, hpad, hstep]
  unfold KeepsToWords
  have hwhole : addr.toNat % 4 = 0 → 1 ≤ pageWords addr := by
    unfold pageWords
    omega
  generalize ahbXfer swdMaxwords addr count = xfer at *
  constructor
  · rintro ⟨hkeeps, h12, h16⟩
    refine ⟨⟨?_, ?_⟩, fun _ => ⟨hkeeps, h12, h16⟩⟩
    · split_ifs at hxfer <;> omega
    · split_ifs <;> omega
  · rintro ⟨⟨hone, hfit⟩, hrest⟩
    by_cases hleft : 0 < count - xfer
    · exact hrest hleft
    · rw [if_pos (by omega)] at hfit
      refine ⟨by omega, hfit, ?_⟩
      split_ifs at hxfer <;> omega

theorem writesInBounds_unfold {swdMaxwords : ℕ} (hmw : swdMaxwords ≤ maxwords) (addr : Word)
    (count : ℤ) (hc : 0 < count) :
    WritesInBounds swdMaxwords addr count ↔
      BatchFits (fun xfer => 8 + xfer.toNat) swdMaxwords addr count ∧
      let xfer := ahbXfer swdMaxwords addr count
      (0 < count - xfer →
        WritesInBounds swdMaxwords (addr + BitVec.ofInt 32 (xfer * 4)) (count - xfer)) := by
  obtain ⟨hx0, hxc, hxp⟩ := ahbXfer_bounds hmw addr hc
  have hxfer := ahbXfer_eq hmw addr hc
  have hstep := @keepsToWords_step addr count _ hx0 hxp
  obtain ⟨_, hpage⟩ := addr_step addr hx0 hxp
  have hbound := pageWords_le addr
  simp only [BatchFits, WritesInBounds, hstep, hpage]
  unfold KeepsToWords
  have hwhole : addr.toNat % 4 = 0 → 1 ≤ pageWords addr := by
    unfold pageWords
    omega
  have hbroken : addr.toNat % 4 ≠ 0 → pageWords addr ≤ 1023 := by
    unfold pageWords
    omega
  generalize ahbXfer swdMaxwords addr count = xfer at *
  generalize pageWords addr = page at *
  unfold paddedLength
  constructor
  · rintro ⟨hkeeps, hfit⟩
    refine ⟨⟨?_, ?_⟩, ?_⟩
    · split_ifs at hxfer hfit <;> omega
    · split_ifs at hxfer hfit ⊢ <;> omega
    · intro hleft
      refine ⟨hkeeps, ?_⟩
      split_ifs at hxfer hfit ⊢ <;> omega
  · rintro ⟨⟨hone, hfit⟩, hrest⟩
    by_cases hleft : 0 < count - xfer
    · obtain ⟨hkeeps, hrest⟩ := hrest hleft
      refine ⟨hkeeps, ?_⟩
      split_ifs at hxfer hfit hrest ⊢ <;> omega
    · have hlast : count - xfer = 0 := by omega
      rw [if_pos hlast] at hfit
      refine ⟨Or.inr (by omega), ?_⟩
      split_ifs at hxfer hfit ⊢ <;> omega

theorem ahbRead32_runsInBounds_iff {swdMaxwords : ℕ} (hmw : swdMaxwords ≤ maxwords) (addr : Word)
    {count : ℤ} (hc : 0 < count) :
    RunsInBounds ahbRead32Batch swdMaxwords addr count ↔ ReadsInBounds swdMaxwords addr count :=
  runsInBounds_iff ahbRead32Batch_queues hmw (ReadsInBounds swdMaxwords)
    (readsInBounds_unfold hmw) hc

theorem ahbWrite32_runsInBounds_iff {swdMaxwords : ℕ} (hmw : swdMaxwords ≤ maxwords) (addr : Word)
    {count : ℤ} (hc : 0 < count) :
    RunsInBounds ahbWrite32Batch swdMaxwords addr count ↔ WritesInBounds swdMaxwords addr count :=
  runsInBounds_iff ahbWrite32Batch_queues hmw (WritesInBounds swdMaxwords)
    (writesInBounds_unfold hmw) hc

/-- Two bytes before the end of a page a batch has no words, and the loop no end. -/
theorem brokenWord_not_in_bounds :
    ¬ RunsInBounds ahbRead32Batch 512 0x20000FFE 1 ∧
      ¬ RunsInBounds ahbWrite32Batch 512 0x20000FFE 1 := by
  have hmw : 512 ≤ maxwords := by decide
  have hpage : pageWords 0x20000FFE = 0 := by decide
  have hkeeps : ¬ KeepsToWords 0x20000FFE 1 := by
    rintro (h | h)
    · exact absurd h (by decide)
    · rw [hpage] at h
      omega
  constructor
  · rw [ahbRead32_runsInBounds_iff hmw _ one_pos]
    exact fun h => hkeeps h.1
  · rw [ahbWrite32_runsInBounds_iff hmw _ one_pos]
    exact fun h => hkeeps h.1

/-- What `process_query` makes of the buffer size a device reports. -/
theorem processQuery_swdMaxwords {data : List Word} {n : ℕ} {q : QueryRun}
    (hq : processQuery data n = .ok q) :
    q.swdMaxwords = q.maxdata / 4 ∧ q.maxdata ≤ maxwords * 4 := by
  obtain ⟨st, _, hdone⟩ := bind_eq_ok.mp hq
  obtain ⟨board, _, h⟩ := bind_eq_ok.mp hdone
  obtain ⟨build, _, h⟩ := bind_eq_ok.mp h
  obtain rfl := Except.ok.inj h
  refine ⟨rfl, ?_⟩
  show (if st.maxdata > maxwords * 4 then maxwords * 4 else st.maxdata) ≤ maxwords * 4
  split_ifs <;> omega

theorem processQuery_rxMaxdata (v : BitVec 16) :
    processQuery [rswdMsg cmdRxMaxdata 0 (BitVec.ofNat 32 v.toNat)] 1 =
      .ok { boardId := unknownId, buildId := unknownId, swdVersion := 0x0005,
            maxdata := min v.toNat 8192, swdMaxwords := min v.toNat 8192 / 4 } := by
  have harg := rswdMsgArg_count cmdRxMaxdata 0 v.toNat v.isLt
  have hcmd : rswdMsgCmd (rswdMsg cmdRxMaxdata 0 (BitVec.ofNat 32 v.toNat)) = cmdRxMaxdata :=
    rswdMsgCmd_rswdMsg _ _ _
  have hloop : queryLoop 1 [rswdMsg cmdRxMaxdata 0 (BitVec.ofNat 32 v.toNat)] queryInit =
      .ok { queryInit with maxdata := v.toNat } := by
    simp only [queryLoop, hcmd, harg]
    rfl
  have hmin : (if v.toNat > maxwords * 4 then maxwords * 4 else v.toNat) = min v.toNat 8192 := by
    rcases Nat.lt_or_ge 8192 v.toNat with h | h
    · rw [min_eq_right h.le]
      exact if_pos h
    · rw [min_eq_left h]
      exact if_neg (Nat.not_lt.mpr h)
  rw [processQuery, hloop, ok_bind]
  simp only [queryDone, hmin]
  rfl

/-- Whatever buffer the device reports: the read loop works just if it has twelve words
and not sixteen, the write loop just if it has more than sixteen or the batches are
small enough by themselves, and both just if no word runs over the end of a page. -/
theorem bulk_loops_in_bounds_iff {data : List Word} {n : ℕ} {q : QueryRun}
    (hq : processQuery data n = .ok q) (addr : Word) {count : ℤ} (hc : 0 < count) :
    (RunsInBounds ahbRead32Batch q.swdMaxwords addr count ↔
      ReadsInBounds q.swdMaxwords addr count) ∧
    (RunsInBounds ahbWrite32Batch q.swdMaxwords addr count ↔
      WritesInBounds q.swdMaxwords addr count) := by
  obtain ⟨hwords, hmax⟩ := processQuery_swdMaxwords hq
  have hmw : q.swdMaxwords ≤ maxwords := by omega
  exact ⟨ahbRead32_runsInBounds_iff hmw addr hc, ahbWrite32_runsInBounds_iff hmw addr hc⟩

theorem bulk_loops_in_bounds_iff_page :
    RunsInBounds ahbRead32Batch 512 0x20000FF0 1000 ∧
      RunsInBounds ahbWrite32Batch 512 0x20000FF0 1000 := by
  have hcount : (0 : ℤ) < 1000 := by decide
  have h := bulk_loops_in_bounds_iff (processQuery_rxMaxdata 2048) 0x20000FF0 hcount
  have hkeeps : KeepsToWords 0x20000FF0 1000 := Or.inl (by decide)
  exact ⟨h.1.mpr ⟨hkeeps, by decide, by decide⟩, h.2.mpr ⟨hkeeps, Or.inl (by decide)⟩⟩

end M3Dev.Rswdp
