import M3Dev.RswdpMessages
import M3Dev.WhileLoop

/-! `swdp_ahb_read32` and `swdp_ahb_write32`: bulk transfers in batches that stay inside
a page of the auto-increment and inside the device's buffer. -/
namespace M3Dev.Rswdp
open WhileLoop

/-- The arguments as the loops step them: `ptr` is `out` or `in`. -/
structure BulkArgs where
  addr : Word
  ptr : Ptr
  count : ℤ

/-- The arguments, what the host keeps, and the device. -/
structure BulkState (δ : Type*) extends BulkArgs where
  host : Host
  dev : δ

/-- What a pass queues, and the arguments after it. -/
abbrev Batch := Host → BulkArgs → Except Stop (Txn × BulkArgs)

/-- One pass of a bulk loop: queue a batch, run it, and give up if it fails. -/
def bulkPass {δ : Type*} (batch : Batch) (exec : Txn → Host → δ → Except Stop (ℤ × Host × δ))
    (s : BulkState δ) : Option (Pass (BulkState δ) (Except Stop (ℤ × BulkState δ))) :=
  if s.count ≤ 0 then some (.exit (.ok (0, s)))
  else
    match batch s.host s.toBulkArgs with
    | .error e => some (.exit (.error e))
    | .ok (t, a) =>
      match exec t s.host s.dev with
      | .error e => some (.exit (.error e))
      | .ok (r, host, dev) =>
        let s' : BulkState δ := { toBulkArgs := a, host := host, dev := dev }
        if r ≠ 0 then some (.exit (.ok (-1, s'))) else some (.next s')

/-- `MAXDATAWORDS`, an unsigned difference. -/
def maxdatawords (swdMaxwords : ℕ) : Word := BitVec.ofNat 32 swdMaxwords - 16

/-- The batch size: what is left of the page, of the count and of the device's buffer.
The last comparison is one of unsigned values. -/
def ahbXfer (swdMaxwords : ℕ) (addr : Word) (count : ℤ) : ℤ :=
  let xfer : ℤ := ((0x1000 - (addr &&& 0xFFF)) / 4 : Word).toNat
  let xfer := if xfer > count then count else xfer
  if BitVec.ofInt 32 xfer > maxdatawords swdMaxwords then (maxdatawords swdMaxwords).toInt
  else xfer

def cswInc : Word :=
  ahbCswMdebug ||| ahbCswPriv ||| ahbCswIncSingle ||| ahbCswDbgEn ||| ahbCsw32bit

def cswNoInc : Word := ahbCswMdebug ||| ahbCswPriv ||| ahbCswDbgEn ||| ahbCsw32bit

/-- restore state after last batch -/
def qRestore (count : ℤ) (t : Txn) : Except Stop Txn :=
  if count = 0 then qApWrite t ahbCsw cswNoInc else .ok t

def ahbRead32Batch : Batch := fun h a => do
  let xfer := ahbXfer h.swdMaxwords a.addr a.count
  let count := a.count - xfer
  let t ← qApWrite qInit ahbCsw cswInc
  let t ← qApWrite t ahbTar a.addr
  let addr := a.addr + BitVec.ofInt 32 (xfer * 4)
  -- the first read is discarded, its result shows up during the next one
  let t ← t.pushTx (swdRx (opAp ||| (ahbDrw &&& 0xC)) 1)
  let t ← t.pushTx (swdRd (opAp ||| (ahbDrw &&& 0xC)) (BitVec.ofInt 32 (xfer - 1)))
  let n := (xfer - 1).toNat
  let t ← t.pushRxs (List.range' a.ptr n)
  let t ← t.pushTx (swdRd dpBuffer 1)
  let t ← t.pushRx (a.ptr + n)
  let t ← qRestore count t
  return (t, { addr := addr, ptr := a.ptr + n + 1, count := count })

def ahbWrite32Batch : Batch := fun h a => do
  let xfer := ahbXfer h.swdMaxwords a.addr a.count
  let count := a.count - xfer
  let t ← qApWrite qInit ahbCsw cswInc
  let t ← qApWrite t ahbTar a.addr
  let t ← t.pushTx (swdWr (opAp ||| (ahbDrw &&& 0xC)) (BitVec.ofInt 32 xfer))
  let addr := a.addr + BitVec.ofInt 32 (xfer * 4)
  let t ← t.pushTxs ((List.range' a.ptr xfer.toNat).map h.mem)
  let t ← qRestore count t
  return (t, { addr := addr, ptr := a.ptr + xfer.toNat, count := count })

def ahbRead32Pass {δ : Type*} (usb : Link δ) (stale : List Word) :
    Body (BulkState δ) (Except Stop (ℤ × BulkState δ)) :=
  bulkPass ahbRead32Batch (qExec usb stale)

def ahbWrite32Pass {δ : Type*} (usb : Link δ) (stale : List Word) :
    Body (BulkState δ) (Except Stop (ℤ × BulkState δ)) :=
  bulkPass ahbWrite32Batch (qExec usb stale)

/-! ### Batch sizes -/

/-- Words from `addr` to the end of its page, a broken one at the end left out. -/
def pageWords (addr : Word) : ℕ := (0x1000 - addr.toNat % 0x1000) / 4

theorem pageWords_le (addr : Word) : pageWords addr ≤ 1024 := by
  unfold pageWords
  omega

theorem pageWords_toNat (addr : Word) :
    ((0x1000 - (addr &&& 0xFFF)) / 4 : Word).toNat = pageWords addr := by
  have hmask : (addr &&& 0xFFF).toNat = addr.toNat % 0x1000 := by
    rw [BitVec.toNat_and]
    exact Nat.and_two_pow_sub_one_eq_mod _ 12
  have hlt : addr.toNat % 0x1000 < 0x1000 := Nat.mod_lt _ (by decide)
  rw [BitVec.toNat_udiv, BitVec.toNat_sub, hmask, pageWords]
  show (2 ^ 32 - addr.toNat % 0x1000 + 0x1000) % 2 ^ 32 / 4 = _
  omega

theorem maxdatawords_toNat {swdMaxwords : ℕ} (h : swdMaxwords ≤ maxwords) :
    (maxdatawords swdMaxwords).toNat =
      if swdMaxwords < 16 then 2 ^ 32 - 16 + swdMaxwords else swdMaxwords - 16 := by
  have h' : swdMaxwords ≤ 2048 := h
  rw [maxdatawords, BitVec.toNat_sub, BitVec.toNat_ofNat]
  show (2 ^ 32 - 16 + swdMaxwords % 2 ^ 32) % 2 ^ 32 = _
  split_ifs <;> omega

/-- Under sixteen words of buffer the difference wraps, and bounds nothing. -/
theorem ahbXfer_eq {swdMaxwords : ℕ} (h : swdMaxwords ≤ maxwords) (addr : Word) {count : ℤ}
    (hc : 0 < count) :
    ahbXfer swdMaxwords addr count =
      if swdMaxwords < 16 then min (pageWords addr : ℤ) count
      else min (min (pageWords addr : ℤ) count) ((swdMaxwords - 16 : ℕ) : ℤ) := by
  have hpage := pageWords_le addr
  have hmax := maxdatawords_toNat h
  have h' : swdMaxwords ≤ 2048 := h
  have hxfer : (if (pageWords addr : ℤ) > count then count else (pageWords addr : ℤ)) =
      min (pageWords addr : ℤ) count := by
    split_ifs <;> omega
  have hnat : (BitVec.ofInt 32 (min (pageWords addr : ℤ) count)).toNat =
      (min (pageWords addr : ℤ) count).toNat := by
    rw [BitVec.toNat_ofInt]
    omega
  simp only [ahbXfer, pageWords_toNat, hxfer, gt_iff_lt, BitVec.lt_def, hnat, hmax]
  by_cases hsmall : swdMaxwords < 16
  · rw [if_pos hsmall, if_pos hsmall, if_neg (by omega)]
  · have hint : (maxdatawords swdMaxwords).toInt = ((swdMaxwords - 16 : ℕ) : ℤ) := by
      rw [BitVec.toInt_eq_toNat_of_lt (by rw [hmax, if_neg hsmall]; omega), hmax, if_neg hsmall]
    rw [if_neg hsmall, if_neg hsmall, hint]
    split_ifs <;> omega

theorem ahbXfer_bounds {swdMaxwords : ℕ} (h : swdMaxwords ≤ maxwords) (addr : Word) {count : ℤ}
    (hc : 0 < count) :
    0 ≤ ahbXfer swdMaxwords addr count ∧ ahbXfer swdMaxwords addr count ≤ count ∧
      ahbXfer swdMaxwords addr count ≤ pageWords addr := by
  rw [ahbXfer_eq h addr hc]
  split_ifs <;> omega

/-! ### What a batch queues -/

def restoreWords (count : ℤ) : List Word :=
  if count = 0 then [swdWr (opAp ||| (ahbCsw &&& 0xC)) 1, cswNoInc] else []

/-- The words before the data of a batch, the id's place included. -/
def setupWords (addr : Word) : List Word :=
  [0, swdWr dpSelect 1, 0, swdWr (opAp ||| (ahbCsw &&& 0xC)) 1, cswInc,
    swdWr (opAp ||| (ahbTar &&& 0xC)) 1, addr]

/-- A batch in the buffer, ready for `q_exec`. -/
def batchTxn (tx : List Word) (rx : List Ptr) : Txn :=
  { tx := tx, rx := rx, cacheApaddr := 0, cacheAhbtar := 0xffffffff, magic := 0x12345678 }

theorem restoreWords_length (count : ℤ) :
    (restoreWords count).length = if count = 0 then 2 else 0 := by
  unfold restoreWords
  split_ifs <;> rfl

theorem setup_eq (addr : Word) :
    (do
      let t ← qApWrite qInit ahbCsw cswInc
      qApWrite t ahbTar addr) = .ok (batchTxn (setupWords addr) []) := rfl

theorem batchTxn_pushTxs {tx ws : List Word} {rx : List Ptr}
    (h : tx.length + ws.length ≤ maxwords) :
    (batchTxn tx rx).pushTxs ws = .ok (batchTxn (tx ++ ws) rx) :=
  pushTxs_of_room _ ws h

theorem batchTxn_pushTx {tx : List Word} {w : Word} {rx : List Ptr} (h : tx.length < maxwords) :
    (batchTxn tx rx).pushTx w = .ok (batchTxn (tx ++ [w]) rx) :=
  if_pos h

theorem batchTxn_pushRxs {tx : List Word} {rx ps : List Ptr}
    (h : rx.length + ps.length ≤ maxwords) :
    (batchTxn tx rx).pushRxs ps = .ok (batchTxn tx (rx ++ ps)) :=
  pushRxs_of_room _ ps h

theorem batchTxn_pushRx {tx : List Word} {p : Ptr} {rx : List Ptr} (h : rx.length < maxwords) :
    (batchTxn tx rx).pushRx p = .ok (batchTxn tx (rx ++ [p])) :=
  if_pos h

theorem qRestore_eq {count : ℤ} {tx : List Word} {rx : List Ptr} (h : tx.length + 3 < maxwords) :
    qRestore count (batchTxn tx rx) = .ok (batchTxn (tx ++ restoreWords count) rx) := by
  have hroom : (batchTxn tx rx).txc + 3 < maxwords := h
  unfold qRestore restoreWords
  split_ifs
  · rw [qApWrite_of_room hroom]
    rfl
  · rw [List.append_nil]

/-- Words a read batch of `xfer` words queues. -/
def readBatchWords (addr : Word) (xfer count : ℤ) : List Word :=
  setupWords addr ++ [swdRx (opAp ||| (ahbDrw &&& 0xC)) 1,
    swdRd (opAp ||| (ahbDrw &&& 0xC)) (BitVec.ofInt 32 (xfer - 1)), swdRd dpBuffer 1] ++
    restoreWords count

/-- Words a write batch of the words `data` queues. -/
def writeBatchWords (addr : Word) (data : List Word) (xfer count : ℤ) : List Word :=
  setupWords addr ++ swdWr (opAp ||| (ahbDrw &&& 0xC)) (BitVec.ofInt 32 xfer) :: data ++
    restoreWords count

theorem ahbRead32Batch_eq (h : Host) (a : BulkArgs) (hmw : h.swdMaxwords ≤ maxwords)
    (hc : 0 < a.count) {xfer : ℤ} (hx : ahbXfer h.swdMaxwords a.addr a.count = xfer) :
    ahbRead32Batch h a = .ok
      (batchTxn (readBatchWords a.addr xfer (a.count - xfer))
        (List.range' a.ptr ((xfer - 1).toNat + 1)),
      { addr := a.addr + BitVec.ofInt 32 (xfer * 4), ptr := a.ptr + ((xfer - 1).toNat + 1),
        count := a.count - xfer }) := by
  have hbound := ahbXfer_bounds hmw a.addr hc
  have hpage := pageWords_le a.addr
  rw [hx] at hbound
  have hn : (xfer - 1).toNat < 1024 := by omega
  have hmax : maxwords = 2048 := rfl
  have hrange : List.range' a.ptr ((xfer - 1).toNat + 1) =
      List.range' a.ptr (xfer - 1).toNat ++ [a.ptr + (xfer - 1).toNat] := by
    rw [List.range'_concat, Nat.one_mul]
  unfold ahbRead32Batch
  simp only [hx]
  rw [← bind_assoc, setup_eq, ok_bind, batchTxn_pushTx (by simp [setupWords, hmax]), ok_bind,
    batchTxn_pushTx (by simp [setupWords, hmax]), ok_bind, batchTxn_pushRxs, ok_bind,
    batchTxn_pushTx (by simp [setupWords, hmax]), ok_bind, batchTxn_pushRx, ok_bind, qRestore_eq,
    ok_bind]
  · rw [hrange]
    simp [readBatchWords, Nat.add_assoc]
    rfl
  · simp [setupWords, hmax]
  · rw [List.nil_append, List.length_range', hmax]
    omega
  · rw [List.length_nil, List.length_range', hmax]
    omega

theorem ahbWrite32Batch_eq (h : Host) (a : BulkArgs) (hmw : h.swdMaxwords ≤ maxwords)
    (hc : 0 < a.count) {xfer : ℤ} (hx : ahbXfer h.swdMaxwords a.addr a.count = xfer) :
    ahbWrite32Batch h a = .ok
      (batchTxn (writeBatchWords a.addr ((List.range' a.ptr xfer.toNat).map h.mem) xfer
        (a.count - xfer)) [],
      { addr := a.addr + BitVec.ofInt 32 (xfer * 4), ptr := a.ptr + xfer.toNat,
        count := a.count - xfer }) := by
  have hbound := ahbXfer_bounds hmw a.addr hc
  have hpage := pageWords_le a.addr
  rw [hx] at hbound
  have hn : xfer.toNat ≤ 1024 := by omega
  have hmax : maxwords = 2048 := rfl
  unfold ahbWrite32Batch
  simp only [hx]
  rw [← bind_assoc, setup_eq, ok_bind, batchTxn_pushTx (by simp [setupWords, hmax]), ok_bind, batchTxn_pushTxs,
    ok_bind, qRestore_eq, ok_bind]
  · simp [writeBatchWords]
    rfl
  · simp only [setupWords, hmax, List.length_append, List.length_cons, List.length_nil,
      List.length_map, List.length_range']
    omega
  · simp only [setupWords, hmax, List.length_append, List.length_cons, List.length_nil,
      List.length_map, List.length_range']
    omega

end M3Dev.Rswdp
