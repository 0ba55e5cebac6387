import M3Dev.RswdpBatches

/-! The stores to the arrays of `struct txn`: `q_check` asks for fewer words than
`q_ap_write` may queue, and the bulk loops and the padding of `q_exec` ask for none. -/
namespace M3Dev.Rswdp
open WhileLoop

/-- A call of a helper that goes by `q_check`. -/
inductive HelperCall where
  | apWrite (addr value : Word)
  | apRead (addr : Word) (value : Ptr)
  | ahbWrite (addr value : Word)
  | ahbRead (addr : Word) (value : Ptr)
  deriving DecidableEq, Repr

def HelperCall.queue : HelperCall → QueueCall
  | apWrite addr value => .apWrite addr value
  | apRead addr value => .apRead addr value
  | ahbWrite addr value => .ahbWrite addr value
  | ahbRead addr value => .ahbRead addr value

/-- `q_check` has ended the program, or everything is queued, and `q_exec` comes to its
`usb_write`: the indices of all stores are below the counts. -/
def StoresInBounds (swdMaxwords : ℕ) (x : Except Stop Txn) : Prop :=
  x = .error (.fatal "txn buffer overflow") ∨
    ∃ t, x = .ok t ∧ t.rxc ≤ maxwords ∧
      ∀ id, ∃ t', qFrame swdMaxwords id t = .ok t' ∧ t'.txc ≤ maxwords

/-! ### The helpers -/

/-- A place is left for the padding. There is one because messages come in pairs of words behind
the id's place. -/
structure Txn.InArrays (t : Txn) : Prop where
  magic : t.magic = 0x12345678
  odd : t.txc % 2 = 1
  room : t.txc < maxwords
  ptrs : t.rxc < t.txc

theorem qInit_inArrays : qInit.InArrays := ⟨rfl, rfl, by decide, by decide⟩

/-- A pair of words is queued, or two behind a `SELECT`, and a pointer at most. -/
theorem Txn.InArrays.queued {t u : Txn} (h : t.InArrays) {addr w w' : Word} (ps : List Ptr)
    (hps : ps.length ≤ 1) (htx : u.tx = t.tx ++ (selectWords t addr ++ [w, w']))
    (hrx : u.rx = t.rx ++ ps) (hmagic : u.magic = t.magic) (hroom : t.txc + 3 < maxwords) :
    u.InArrays := by
  have hselect : (selectWords t addr).length = 0 ∨ (selectWords t addr).length = 2 := by
    unfold selectWords
    split_ifs
    · exact Or.inr rfl
    · exact Or.inl rfl
  have htxc : u.txc = t.txc + ((selectWords t addr).length + 2) := by
    rw [Txn.txc, htx, List.length_append, List.length_append]
    rfl
  have hrxc : u.rxc = t.rxc + ps.length := by
    rw [Txn.rxc, hrx, List.length_append]
    rfl
  have hodd := h.odd
  have hptrs := h.ptrs
  -- four words fit behind an odd number of them that leaves more than three
  have heven : maxwords % 2 = 0 := rfl
  exact ⟨hmagic.trans h.magic, by omega, by omega, by omega⟩

/-- The program has ended, or the next store is inside the arrays. -/
def Queued (x : Except Stop Txn) : Prop :=
  x = .error (.fatal "txn buffer overflow") ∨ ∃ t, x = .ok t ∧ t.InArrays

theorem Queued.bind {x : Except Stop Txn} {f : Txn → Except Stop Txn} (hx : Queued x)
    (hf : ∀ t, t.InArrays → Queued (f t)) : Queued (x >>= f) := by
  rcases hx with rfl | ⟨t, rfl, ht⟩
  · exact Or.inl rfl
  · exact hf t ht

theorem qApWrite_queued {t : Txn} (h : t.InArrays) (addr value : Word) :
    Queued (qApWrite t addr value) := by
  by_cases hroom : t.txc + 3 < maxwords
  · right
    refine ⟨_, qApWrite_of_room hroom addr value, ?_⟩
    exact h.queued [] (Nat.zero_le 1) rfl (List.append_nil _).symm rfl hroom
  · left
    have hcheck : qCheck t 3 = .error (.fatal "txn buffer overflow") := if_pos (Nat.not_lt.mp hroom)
    rw [qApWrite, hcheck]
    rfl

theorem qApRead_queued {t : Txn} (h : t.InArrays) (addr : Word) (value : Ptr) :
    Queued (qApRead t addr value) := by
  by_cases hroom : t.txc + 4 < maxwords
  · right
    refine ⟨_, qApRead_of_room hroom (h.ptrs.trans h.room) addr value, ?_⟩
    exact h.queued [value] (Nat.le_refl 1) rfl rfl rfl (by omega)
  · left
    have hcheck : qCheck t 4 = .error (.fatal "txn buffer overflow") := if_pos (Nat.not_lt.mp hroom)
    rw [qApRead, hcheck]
    rfl

theorem qAhbTar_queued {t : Txn} (h : t.InArrays) (addr : Word) : Queued (qAhbTar t addr) := by
  unfold qAhbTar
  split_ifs
  · rcases qApWrite_queued h ahbTar addr with hstop | ⟨u, hu, hin⟩
    · rw [hstop]
      exact Or.inl rfl
    · rw [hu]
      exact Or.inr ⟨_, rfl, hin.magic, hin.odd, hin.room, hin.ptrs⟩
  · exact Or.inr ⟨t, rfl, h⟩

theorem HelperCall.run_queued (c : HelperCall) {t : Txn} (h : t.InArrays) :
    Queued (c.queue.run t) := by
  cases c with
  | apWrite addr value => exact qApWrite_queued h addr value
  | apRead addr value => exact qApRead_queued h addr value
  | ahbWrite addr value =>
    show Queued (qAhbWrite t addr value)
    rw [qAhbWrite_eq]
    exact (qAhbTar_queued h addr).bind fun u hu => qApWrite_queued hu ahbDrw value
  | ahbRead addr value =>
    show Queued (qAhbRead t addr value)
    rw [qAhbRead_eq]
    exact (qAhbTar_queued h addr).bind fun u hu => qApRead_queued hu ahbDrw value

theorem runCalls_queued (calls : List HelperCall) {t : Txn} (h : t.InArrays) :
    Queued (runCalls t (calls.map HelperCall.queue)) := by
  induction calls generalizing t with
  | nil => exact Or.inr ⟨t, rfl, h⟩
  | cons c calls ih => exact (c.run_queued h).bind fun u hu => ih hu

theorem paddedLength_le (swdMaxwords n : ℕ) : paddedLength swdMaxwords n ≤ n + 1 := by
  unfold paddedLength
  split_ifs <;> omega

/-- A place left for the padding is enough for `q_exec`. -/
theorem StoresInBounds.of_room (swdMaxwords : ℕ) {t : Txn} (hmagic : t.magic = 0x12345678)
    (hroom : t.txc < maxwords) (hrx : t.rxc ≤ maxwords) : StoresInBounds swdMaxwords (.ok t) := by
  refine Or.inr ⟨t, rfl, hrx, ?_⟩
  intro id
  obtain ⟨t', hframe, hlen⟩ := qFrame_of_room swdMaxwords id hmagic hroom
  refine ⟨t', hframe, ?_⟩
  have hpadded := paddedLength_le swdMaxwords t.txc
  omega

theorem Queued.storesInBounds {x : Except Stop Txn} (h : Queued x) (swdMaxwords : ℕ) :
    StoresInBounds swdMaxwords x := by
  rcases h with rfl | ⟨t, rfl, ht⟩
  · exact Or.inl rfl
  · exact .of_room swdMaxwords ht.magic ht.room (ht.ptrs.trans ht.room).le

/-! ### The bulk loops -/

/-- The buffer of the probe is the same in the whole run. -/
theorem bulkPass_swdMaxwords {δ : Type} {batch : Batch} {usb : Link δ} {stale : List Word}
    {s s' : BulkState δ} (h : Reaches (bulkPass batch (qExec usb stale)) s s') :
    s'.host.swdMaxwords = s.host.swdMaxwords := by
  refine h.invariant (fun u => u.host.swdMaxwords = s.host.swdMaxwords) ?_ rfl
  intro u v hu hpass
  obtain ⟨_, t, _, hexec⟩ := bulkPass_next hpass
  exact (qExec_swdMaxwords hexec).trans hu

theorem ahbRead32Batch_storesInBounds (h : Host) (a : BulkArgs) (hmw : h.swdMaxwords ≤ maxwords)
    (hc : 0 < a.count) :
    StoresInBounds h.swdMaxwords ((ahbRead32Batch h a).map Prod.fst) := by
  obtain ⟨t, ptr, hbatch, hmagic, _, hroom, _⟩ := ahbRead32Batch_queues h a hmw hc
  have hxfer := ahbXfer_bounds hmw a.addr hc
  have hpage := pageWords_le a.addr
  have hrx : t.rxc ≤ maxwords := by
    -- a pointer for each word of a page at most
    rw [ahbRead32Batch_eq h a hmw hc rfl] at hbatch
    obtain ⟨rfl, _⟩ := Prod.mk.inj (Except.ok.inj hbatch)
    show (List.range' _ _).length ≤ 2048
    rw [List.length_range']
    omega
  rw [hbatch]
  exact .of_room h.swdMaxwords hmagic hroom hrx

theorem ahbWrite32Batch_storesInBounds (h : Host) (a : BulkArgs) (hmw : h.swdMaxwords ≤ maxwords)
    (hc : 0 < a.count) :
    StoresInBounds h.swdMaxwords ((ahbWrite32Batch h a).map Prod.fst) := by
  obtain ⟨t, ptr, hbatch, hmagic, _, hroom, _⟩ := ahbWrite32Batch_queues h a hmw hc
  have hrx : t.rxc ≤ maxwords := by
    rw [ahbWrite32Batch_eq h a hmw hc rfl] at hbatch
    obtain ⟨rfl, _⟩ := Prod.mk.inj (Except.ok.inj hbatch)
    exact Nat.zero_le _
  rw [hbatch]
  exact .of_room h.swdMaxwords hmagic hroom hrx

/-- No transaction of a run of the loop has a store outside the arrays. -/
def RunStoresInBounds (batch : Batch) : Prop :=
  ∀ (δ : Type) (usb : Link δ) (stale : List Word) (s s' : BulkState δ),
    s.host.swdMaxwords ≤ maxwords → Reaches (bulkPass batch (qExec usb stale)) s s' →
    0 < s'.count → StoresInBounds s'.host.swdMaxwords ((batch s'.host s'.toBulkArgs).map Prod.fst)

theorem runStoresInBounds_of {batch : Batch}
    (h : ∀ h a, h.swdMaxwords ≤ maxwords → 0 < a.count →
      StoresInBounds h.swdMaxwords ((batch h a).map Prod.fst)) : RunStoresInBounds batch := by
  intro δ usb stale s s' hmw hreach hc
  exact h s'.host s'.toBulkArgs ((bulkPass_swdMaxwords hreach).trans_le hmw) hc

/-- `q_ap_write` may queue a word more than it asks for, and `q_exec` one more; neither is
stored behind the arrays. -/
theorem stores_in_bounds :
    (∀ (calls : List HelperCall) (swdMaxwords : ℕ),
      StoresInBounds swdMaxwords (runCalls qInit (calls.map HelperCall.queue))) ∧
    RunStoresInBounds ahbRead32Batch ∧ RunStoresInBounds ahbWrite32Batch :=
  ⟨fun calls swdMaxwords => (runCalls_queued calls qInit_inArrays).storesInBounds swdMaxwords,
    runStoresInBounds_of ahbRead32Batch_storesInBounds,
    runStoresInBounds_of ahbWrite32Batch_storesInBounds⟩

/-- A page for a probe with the host's buffer size. -/
def pageRead : BulkState Unit :=
  { addr := 0x20000000, ptr := 0, count := 1024, dev := (),
    host := { sequence := 1, swdOnline := 1, swdMaxwords := 2048, swdVersion := 1,
              swdError := 0, swdVerbose := false, mem := fun _ => 0 } }

theorem stores_in_bounds_page :
    StoresInBounds 2048 (runCalls qInit ([HelperCall.ahbRead 0x20000000 0].map HelperCall.queue)) ∧
    StoresInBounds 2048 ((ahbRead32Batch pageRead.host pageRead.toBulkArgs).map Prod.fst) :=
  ⟨stores_in_bounds.1 [.ahbRead 0x20000000 0] 2048,
    stores_in_bounds.2.1 Unit okLink [] pageRead pageRead (Nat.le_refl _)
      Relation.ReflTransGen.refl (by decide)⟩

end M3Dev.Rswdp
