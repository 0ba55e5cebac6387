import M3Dev.RswdpEncode
import M3Dev.RswdpExec
import Mathlib.Data.List.Forall2

/-! What the queue helpers write: well-formed SWD messages, with a pointer queued for
every word a read message asks for. -/
namespace M3Dev.Rswdp

/-- Words the message asks the probe to return. -/
def Msg.readWords : Msg → ℕ
  | .swdRead _ n => n
  | _ => 0

/-- The messages the host queues, and the padding. -/
def Msg.IsSwd : Msg → Prop
  | .null => True
  | .swdWrite _ _ => True
  | .swdRead _ n => n < 65536
  | .swdDiscard _ _ => True
  | _ => False

/-- The transaction holds the messages `ms` behind its first word. -/
def Txn.Holds (t : Txn) (ms : List Msg) : Prop :=
  (∃ wss, List.Forall₂ Msg.EncodedAs ms wss ∧ t.tx = 0 :: wss.flatten) ∧
    t.rx.length = (ms.map Msg.readWords).sum ∧ (∀ m ∈ ms, m.IsSwd) ∧ t.magic = 0x12345678

theorem holds_qInit : qInit.Holds [] :=
  ⟨⟨[], List.Forall₂.nil, rfl⟩, rfl, by simp, rfl⟩

/-- A queued message with its pointers. -/
theorem Txn.Holds.push {t : Txn} {ms : List Msg} (h : t.Holds ms) {m : Msg} {ws : List Word}
    (hm : m.EncodedAs ws) (hswd : m.IsSwd) {ps : List Ptr} (hps : ps.length = m.readWords) :
    Txn.Holds { t with tx := t.tx ++ ws, rx := t.rx ++ ps } (ms ++ [m]) := by
  obtain ⟨⟨wss, henc, htx⟩, hrx, hall, hmagic⟩ := h
  refine ⟨⟨wss ++ [ws], ?_, ?_⟩, ?_, ?_, hmagic⟩
  · exact List.rel_append henc (List.Forall₂.cons hm List.Forall₂.nil)
  · show t.tx ++ ws = _
    rw [htx, List.cons_append, List.flatten_append]
    simp
  · simp [hrx, hps]
  · intro m' hm'
    rcases List.mem_append.mp hm' with hold | hnew
    · exact hall m' hold
    · rwa [List.mem_singleton.mp hnew]

theorem Txn.Holds.write {t : Txn} {ms : List Msg} (h : t.Holds ms) {m : Msg} {ws : List Word}
    (hm : m.EncodedAs ws) (hswd : m.IsSwd) (hn : m.readWords = 0) :
    Txn.Holds { t with tx := t.tx ++ ws } (ms ++ [m]) := by
  have hnone : ([] : List Ptr).length = m.readWords := hn.symm
  have hpush := h.push hm hswd hnone
  simpa using hpush

/-! ### Messages by their macros -/

theorem or_lt_16 {a b : Word} (ha : a.toNat < 16) (hb : b.toNat < 16) : (a ||| b).toNat < 16 := by
  rw [BitVec.toNat_or]
  exact Nat.or_lt_two_pow (n := 4) ha hb

theorem and_c_lt_16 (a : Word) : (a &&& 0xC).toNat < 16 := by
  rw [BitVec.toNat_and]
  exact Nat.and_lt_two_pow _ (n := 4) (by decide)

/-- The op of an AP register access. -/
theorem ap_op_lt (addr : Word) : (opAp ||| (addr &&& 0xC)).toNat < 16 :=
  or_lt_16 (by decide) (and_c_lt_16 addr)

theorem swdWr_encoded {a : Word} (ha : a.toNat < 16) (data : List Word)
    (hn : data.length < 65536) :
    (Msg.swdWrite (opWr ||| a) data).EncodedAs (swdWr a (BitVec.ofNat 32 data.length) :: data) :=
  ⟨or_lt_16 (by decide) ha, hn, rfl⟩

theorem swdRd_encoded {a : Word} (ha : a.toNat < 16) {n : ℕ} (hn : n < 65536) :
    (Msg.swdRead (opRd ||| a) n).EncodedAs [swdRd a (BitVec.ofNat 32 n)] :=
  ⟨or_lt_16 (by decide) ha, hn, rfl⟩

theorem swdRx_encoded {a : Word} (ha : a.toNat < 16) {n : ℕ} (hn : n < 65536) :
    (Msg.swdDiscard (opRd ||| a) n).EncodedAs [swdRx a (BitVec.ofNat 32 n)] :=
  ⟨or_lt_16 (by decide) ha, hn, rfl⟩

/-! ### The helpers -/

/-- What `q_ap_select` queues. -/
def selectWords (t : Txn) (addr : Word) : List Word :=
  if t.cacheApaddr ≠ addr &&& 0xF0 then [swdWr dpSelect 1, addr &&& 0xF0] else []

theorem selectWords_length (t : Txn) (addr : Word) : (selectWords t addr).length ≤ 2 := by
  unfold selectWords
  split_ifs <;> simp

theorem pushTx_pushTx (t : Txn) (a b : Word) :
    (do
      let t ← t.pushTx a
      t.pushTx b) = t.pushTxs [a, b] := by
  have hend : ∀ u : Txn, (u.pushTx b >>= fun t => .ok t) = u.pushTx b := fun u => bind_pure _
  simp only [Txn.pushTxs, hend]

theorem qApSelect_of_room {t : Txn} (h : t.txc + 2 ≤ maxwords) (addr : Word) :
    qApSelect t addr = .ok { t with
      tx := t.tx ++ selectWords t addr
      cacheApaddr := addr &&& 0xF0 } := by
  have hpush := pushTxs_of_room t [swdWr dpSelect 1, addr &&& 0xF0] h
  rw [← pushTx_pushTx] at hpush
  unfold qApSelect selectWords
  simp only
  split_ifs with hne
  · rw [← bind_assoc, hpush]
    rfl
  · have heq : t.cacheApaddr = addr &&& 0xF0 := not_not.mp hne
    rw [← heq, List.append_nil]
    rfl

/-- `q_ap_write` past its check. -/
theorem qApWrite_of_room {t : Txn} (h : t.txc + 3 < maxwords) (addr value : Word) :
    qApWrite t addr value = .ok { t with
      tx := t.tx ++ (selectWords t addr ++ [swdWr (opAp ||| (addr &&& 0xC)) 1, value])
      cacheApaddr := addr &&& 0xF0 } := by
  have hlen := selectWords_length t addr
  have hcheck : qCheck t 3 = .ok () := if_neg (by omega)
  have hpush := pushTxs_of_room { t with
      tx := t.tx ++ selectWords t addr
      cacheApaddr := addr &&& 0xF0 } [swdWr (opAp ||| (addr &&& 0xC)) 1, value] (by
    simp only [Txn.txc, List.length_append, List.length_cons, List.length_nil] at h ⊢
    omega)
  rw [← pushTx_pushTx] at hpush
  rw [qApWrite, hcheck]
  show (qApSelect t addr >>= _) = _
  rw [qApSelect_of_room (by omega)]
  show _ = _
  rw [← List.append_assoc]
  exact hpush

theorem qApRead_of_room {t : Txn} (h : t.txc + 4 < maxwords) (hrx : t.rxc < maxwords)
    (addr : Word) (value : Ptr) :
    qApRead t addr value = .ok { t with
      tx := t.tx ++ (selectWords t addr ++ [swdRx (opAp ||| (addr &&& 0xC)) 1, swdRd dpBuffer 1])
      rx := t.rx ++ [value]
      cacheApaddr := addr &&& 0xF0 } := by
  have hlen := selectWords_length t addr
  have hcheck : qCheck t 4 = .ok () := if_neg (by omega)
  have hpush := pushTxs_of_room { t with
      tx := t.tx ++ selectWords t addr
      cacheApaddr := addr &&& 0xF0 } [swdRx (opAp ||| (addr &&& 0xC)) 1, swdRd dpBuffer 1] (by
    simp only [Txn.txc, List.length_append, List.length_cons, List.length_nil] at h ⊢
    omega)
  rw [← pushTx_pushTx] at hpush
  rw [qApRead, hcheck]
  show (qApSelect t addr >>= _) = _
  rw [qApSelect_of_room (by omega)]
  rw [← List.append_assoc]
  show (Txn.pushTx _ _ >>= fun t : Txn => t.pushTx _ >>= fun t : Txn => t.pushRx value) = _
  rw [← bind_assoc, hpush]
  exact if_pos hrx

theorem qCheck_ok {t : Txn} {n : ℕ} {u : Unit} (h : qCheck t n = .ok u) : t.txc + n < maxwords := by
  unfold qCheck at h
  split_ifs at h with hge
  omega

/-- `q_ap_write` queues its messages or ends the program. -/
theorem qApWrite_ok {t t' : Txn} {addr value : Word} (h : qApWrite t addr value = .ok t') :
    t.txc + 3 < maxwords := by
  obtain ⟨_, hcheck, _⟩ := bind_eq_ok.mp h
  exact qCheck_ok hcheck

theorem qApRead_ok {t t' : Txn} {addr : Word} {value : Ptr} (h : qApRead t addr value = .ok t') :
    t.txc + 4 < maxwords ∧ t.rxc < maxwords := by
  obtain ⟨_, hcheck, h1⟩ := bind_eq_ok.mp h
  have hroom := qCheck_ok hcheck
  refine ⟨hroom, ?_⟩
  rw [qApSelect_of_room (by omega)] at h1
  obtain ⟨t1, heq1, h2⟩ := bind_eq_ok.mp h1
  obtain ⟨t2, heq2, h3⟩ := bind_eq_ok.mp h2
  obtain ⟨t3, heq3, h4⟩ := bind_eq_ok.mp h3
  obtain rfl := Except.ok.inj heq1
  obtain ⟨_, rfl⟩ := pushTx_ok heq2
  obtain ⟨_, rfl⟩ := pushTx_ok heq3
  exact (pushRx_ok h4).1

theorem Txn.Holds.select {t : Txn} {ms : List Msg} (h : t.Holds ms) (addr : Word) :
    ∃ ms', Txn.Holds { t with tx := t.tx ++ selectWords t addr } (ms ++ ms') := by
  unfold selectWords
  split_ifs
  · exact ⟨_, h.write (swdWr_encoded (a := dpSelect) (by decide) [addr &&& 0xF0] (by simp))
      trivial rfl⟩
  · exact ⟨[], by simpa using h⟩

theorem Txn.Holds.cache {t : Txn} {ms : List Msg} (h : t.Holds ms) (apaddr ahbtar : Word) :
    Txn.Holds { t with cacheApaddr := apaddr, cacheAhbtar := ahbtar } ms := h

theorem holds_qApWrite {t t' : Txn} {ms : List Msg} {addr value : Word} (h : t.Holds ms)
    (hrun : qApWrite t addr value = .ok t') : ∃ ms', t'.Holds (ms ++ ms') := by
  rw [qApWrite_of_room (qApWrite_ok hrun)] at hrun
  obtain rfl := Except.ok.inj hrun
  obtain ⟨ms', hsel⟩ := h.select addr
  have hw := hsel.write (swdWr_encoded (ap_op_lt addr) [value] (by simp)) trivial rfl
  refine ⟨ms' ++ [.swdWrite (opWr ||| (opAp ||| (addr &&& 0xC))) [value]], ?_⟩
  rw [← List.append_assoc, ← List.append_assoc]
  exact hw

theorem holds_qApRead {t t' : Txn} {ms : List Msg} {addr : Word} {value : Ptr} (h : t.Holds ms)
    (hrun : qApRead t addr value = .ok t') : ∃ ms', t'.Holds (ms ++ ms') := by
  obtain ⟨hroom, hrx⟩ := qApRead_ok hrun
  rw [qApRead_of_room hroom hrx] at hrun
  obtain rfl := Except.ok.inj hrun
  obtain ⟨ms', hsel⟩ := h.select addr
  have hx := hsel.write (swdRx_encoded (ap_op_lt addr) (n := 1) (by decide)) trivial rfl
  have hone : 1 < 65536 := by decide
  have hptr : [value].length = Msg.readWords (.swdRead (opRd ||| dpBuffer) 1) := rfl
  have hr := hx.push (swdRd_encoded (a := dpBuffer) (by decide) hone) hone hptr
  refine ⟨ms' ++ [.swdDiscard (opRd ||| (opAp ||| (addr &&& 0xC))) 1] ++
    [.swdRead (opRd ||| dpBuffer) 1], ?_⟩
  have htx : t.tx ++ (selectWords t addr ++ [swdRx (opAp ||| (addr &&& 0xC)) 1, swdRd dpBuffer 1]) =
      t.tx ++ selectWords t addr ++ [swdRx (opAp ||| (addr &&& 0xC)) 1] ++ [swdRd dpBuffer 1] := by
    simp
  rw [htx, ← List.append_assoc, ← List.append_assoc]
  exact hr

/-- The `AHB_TAR` write both AHB helpers begin with. -/
def qAhbTar (t : Txn) (addr : Word) : Except Stop Txn :=
  if t.cacheAhbtar ≠ addr then
    (qApWrite t ahbTar addr).map (fun t => { t with cacheAhbtar := addr })
  else .ok t

theorem qAhbWrite_eq (t : Txn) (addr value : Word) :
    qAhbWrite t addr value = qAhbTar t addr >>= fun t => qApWrite t ahbDrw value := by
  unfold qAhbWrite qAhbTar
  split_ifs
  · cases qApWrite t ahbTar addr <;> rfl
  · rfl

theorem qAhbRead_eq (t : Txn) (addr : Word) (value : Ptr) :
    qAhbRead t addr value = qAhbTar t addr >>= fun t => qApRead t ahbDrw value := by
  unfold qAhbRead qAhbTar
  split_ifs
  · cases qApWrite t ahbTar addr <;> rfl
  · rfl

theorem holds_qAhbTar {t t' : Txn} {ms : List Msg} {addr : Word} (h : t.Holds ms)
    (hrun : qAhbTar t addr = .ok t') : ∃ ms', t'.Holds (ms ++ ms') := by
  unfold qAhbTar at hrun
  split_ifs at hrun
  · obtain ⟨u, hu, rfl⟩ := map_eq_ok.mp hrun
    obtain ⟨ms', hu'⟩ := holds_qApWrite h hu
    exact ⟨ms', hu'⟩
  · obtain rfl := Except.ok.inj hrun
    exact ⟨[], by rwa [List.append_nil]⟩

theorem holds_qAhbWrite {t t' : Txn} {ms : List Msg} {addr value : Word} (h : t.Holds ms)
    (hrun : qAhbWrite t addr value = .ok t') : ∃ ms', t'.Holds (ms ++ ms') := by
  rw [qAhbWrite_eq] at hrun
  obtain ⟨u, hu, hr⟩ := bind_eq_ok.mp hrun
  obtain ⟨ms', hu'⟩ := holds_qAhbTar h hu
  obtain ⟨ms'', ht'⟩ := holds_qApWrite hu' hr
  exact ⟨ms' ++ ms'', by rwa [← List.append_assoc]⟩

theorem holds_qAhbRead {t t' : Txn} {ms : List Msg} {addr : Word} {value : Ptr} (h : t.Holds ms)
    (hrun : qAhbRead t addr value = .ok t') : ∃ ms', t'.Holds (ms ++ ms') := by
  rw [qAhbRead_eq] at hrun
  obtain ⟨u, hu, hr⟩ := bind_eq_ok.mp hrun
  obtain ⟨ms', hu'⟩ := holds_qAhbTar h hu
  obtain ⟨ms'', ht'⟩ := holds_qApRead hu' hr
  exact ⟨ms' ++ ms'', by rwa [← List.append_assoc]⟩

/-! ### Sequences of calls -/

/-- A call of a queue helper, or a message queued by its macro: `a` is a port register. -/
inductive QueueCall where
  | apWrite (addr value : Word)
  | apRead (addr : Word) (value : Ptr)
  | ahbWrite (addr value : Word)
  | ahbRead (addr : Word) (value : Ptr)
  | wr (a : BitVec 4) (data : List Word)
  | rd (a : BitVec 4) (ps : List Ptr)
  | rx (a : BitVec 4) (n : BitVec 16)

def QueueCall.run (t : Txn) : QueueCall → Except Stop Txn
  | apWrite addr value => qApWrite t addr value
  | apRead addr value => qApRead t addr value
  | ahbWrite addr value => qAhbWrite t addr value
  | ahbRead addr value => qAhbRead t addr value
  | wr a data => t.pushTxs (swdWr (a.setWidth 32) (BitVec.ofNat 32 data.length) :: data)
  | rd a ps => do
    let t ← t.pushTx (swdRd (a.setWidth 32) (BitVec.ofNat 32 ps.length))
    t.pushRxs ps
  | rx a n => t.pushTx (swdRx (a.setWidth 32) (n.setWidth 32))

def runCalls (t : Txn) : List QueueCall → Except Stop Txn
  | [] => .ok t
  | c :: cs => do
    let t ← c.run t
    runCalls t cs

theorem port_lt (a : BitVec 4) : (a.setWidth 32 : Word).toNat < 16 := by
  rw [BitVec.toNat_setWidth]
  have := a.isLt
  omega

theorem pushTxs_room {t t' : Txn} {ws : List Word} (h : t.pushTxs ws = .ok t') :
    t.txc + ws.length ≤ max t.txc maxwords := by
  induction ws generalizing t with
  | nil => exact le_max_left _ _
  | cons w ws ih =>
    obtain ⟨u, hu, hr⟩ := bind_eq_ok.mp h
    obtain ⟨hlt, rfl⟩ := pushTx_ok hu
    have hrest := ih hr
    simp only [Txn.txc, List.length_append, List.length_cons, List.length_nil] at hlt hrest ⊢
    omega

theorem pushRxs_room {t t' : Txn} {ps : List Ptr} (h : t.pushRxs ps = .ok t') :
    t.rxc + ps.length ≤ max t.rxc maxwords := by
  induction ps generalizing t with
  | nil => exact le_max_left _ _
  | cons p ps ih =>
    obtain ⟨u, hu, hr⟩ := bind_eq_ok.mp h
    obtain ⟨hlt, rfl⟩ := pushRx_ok hu
    have hrest := ih hr
    simp only [Txn.rxc, List.length_append, List.length_cons, List.length_nil] at hlt hrest ⊢
    omega

theorem holds_run {t t' : Txn} {ms : List Msg} {c : QueueCall} (h : t.Holds ms)
    (hrun : c.run t = .ok t') : ∃ ms', t'.Holds (ms ++ ms') := by
  cases c with
  | apWrite addr value => exact holds_qApWrite h hrun
  | apRead addr value => exact holds_qApRead h hrun
  | ahbWrite addr value => exact holds_qAhbWrite h hrun
  | ahbRead addr value => exact holds_qAhbRead h hrun
  | wr a data =>
    have hroom := pushTxs_room hrun
    simp only [List.length_cons, maxwords] at hroom
    obtain rfl := pushTxs_ok hrun
    exact ⟨_, h.write (swdWr_encoded (port_lt a) data (by omega)) trivial rfl⟩
  | rd a ps =>
    obtain ⟨u, hu, hr⟩ := bind_eq_ok.mp hrun
    have hroom := pushRxs_room hr
    simp only [maxwords] at hroom
    obtain ⟨_, rfl⟩ := pushTx_ok hu
    obtain rfl := pushRxs_ok hr
    have hn : ps.length < 65536 := by omega
    exact ⟨_, h.push (swdRd_encoded (port_lt a) hn) hn rfl⟩
  | rx a n =>
    obtain ⟨_, rfl⟩ := pushTx_ok hrun
    have henc := swdRx_encoded (port_lt a) n.isLt
    rw [BitVec.ofNat_toNat] at henc
    exact ⟨_, h.write henc trivial rfl⟩

/-- Whatever was queued, a transaction holds well-formed SWD messages. -/
theorem holds_runCalls {t t' : Txn} {ms : List Msg} {cs : List QueueCall} (h : t.Holds ms)
    (hrun : runCalls t cs = .ok t') : ∃ ms', t'.Holds ms' := by
  induction cs generalizing t ms with
  | nil =>
    obtain rfl := Except.ok.inj hrun
    exact ⟨ms, h⟩
  | cons c cs ih =>
    obtain ⟨u, hu, hr⟩ := bind_eq_ok.mp hrun
    obtain ⟨ms', hu'⟩ := holds_run h hu
    exact ih hu' hr

/-- The padding of `q_exec` is one more message, and the id takes the first word. -/
theorem holds_qFrame {t t' : Txn} {ms : List Msg} {swdMaxwords : ℕ} {id : Word} (h : t.Holds ms)
    (hrun : qFrame swdMaxwords id t = .ok t') :
    ∃ ms' wss, (ms' = ms ∨ ms' = ms ++ [.null]) ∧ List.Forall₂ Msg.EncodedAs ms' wss ∧
      t'.tx = id :: wss.flatten ∧ t'.rx = t.rx ∧
      t'.rx.length = (ms'.map Msg.readWords).sum ∧ ∀ m ∈ ms', m.IsSwd := by
  obtain ⟨pad, hpad, htx, hrx, _⟩ := qFrame_ok hrun
  rcases hpad with rfl | rfl
  · obtain ⟨⟨wss, henc, htx0⟩, hlen, hall, _⟩ := h
    refine ⟨ms, wss, Or.inl rfl, henc, ?_, hrx, ?_, hall⟩
    · rw [htx, List.append_nil, htx0]
      rfl
    · rw [hrx, hlen]
  · have hnull : Msg.EncodedAs .null [rswdMsg cmdNull 0 0] := ⟨0, 0, rfl⟩
    obtain ⟨⟨wss, henc, htx0⟩, hlen, hall, _⟩ := h.write hnull trivial rfl
    refine ⟨_, wss, Or.inr rfl, henc, ?_, hrx, ?_, hall⟩
    · rw [htx, show t.tx ++ [rswdMsg cmdNull 0 0] = 0 :: wss.flatten from htx0]
      rfl
    · rw [hrx]
      exact hlen

end M3Dev.Rswdp
