import M3Dev.RswdpProtocol
import Mathlib.Tactic.SplitIfs

/-! The host's transaction buffer and the helpers that queue SWD messages into it. -/
namespace M3Dev.Rswdp

def maxwords : ℕ := 8192 / 4

/-- A `u32 *` of the host. -/
abbrev Ptr := ℕ

/-- `struct txn`; `txc` and `rxc` are the lengths of the two lists. -/
structure Txn where
  tx : List Word
  rx : List Ptr
  cacheApaddr : Word
  cacheAhbtar : Word
  magic : Word
  deriving Repr

def Txn.txc (t : Txn) : ℕ := t.tx.length

def Txn.rxc (t : Txn) : ℕ := t.rx.length

/-- `t->tx[t->txc++] = w` -/
def Txn.pushTx (t : Txn) (w : Word) : Except Stop Txn :=
  if t.txc < maxwords then .ok { t with tx := t.tx ++ [w] } else .error .outOfBounds

/-- `t->rx[t->rxc++] = p` -/
def Txn.pushRx (t : Txn) (p : Ptr) : Except Stop Txn :=
  if t.rxc < maxwords then .ok { t with rx := t.rx ++ [p] } else .error .outOfBounds

def Txn.pushTxs (t : Txn) : List Word → Except Stop Txn
  | [] => .ok t
  | w :: ws => do
    let t ← t.pushTx w
    t.pushTxs ws

def Txn.pushRxs (t : Txn) : List Ptr → Except Stop Txn
  | [] => .ok t
  | p :: ps => do
    let t ← t.pushRx p
    t.pushRxs ps

def qCheck (t : Txn) (n : ℕ) : Except Stop Unit :=
  if t.txc + n ≥ maxwords then .error (.fatal "txn buffer overflow") else .ok ()

/-- `tx[0]` is left for `q_exec` to fill in. -/
def qInit : Txn :=
  { tx := [0], rx := [], cacheApaddr := 0xffffffff, cacheAhbtar := 0xffffffff,
    magic := 0x12345678 }

def swdWr (a n : Word) : Word := rswdMsg cmdSwdWrite (opWr ||| a) n

def swdRd (a n : Word) : Word := rswdMsg cmdSwdRead (opRd ||| a) n

def swdRx (a n : Word) : Word := rswdMsg cmdSwdDiscard (opRd ||| a) n

def qApSelect (t : Txn) (addr : Word) : Except Stop Txn :=
  let addr := addr &&& 0xF0
  if t.cacheApaddr ≠ addr then do
    let t ← t.pushTx (swdWr dpSelect 1)
    let t ← t.pushTx addr
    return { t with cacheApaddr := addr }
  else return t

def qApWrite (t : Txn) (addr value : Word) : Except Stop Txn := do
  qCheck t 3
  let t ← qApSelect t addr
  let t ← t.pushTx (swdWr (opAp ||| (addr &&& 0xC)) 1)
  t.pushTx value

def qApRead (t : Txn) (addr : Word) (value : Ptr) : Except Stop Txn := do
  qCheck t 4
  let t ← qApSelect t addr
  let t ← t.pushTx (swdRx (opAp ||| (addr &&& 0xC)) 1)
  let t ← t.pushTx (swdRd dpBuffer 1)
  t.pushRx value

def qAhbWrite (t : Txn) (addr value : Word) : Except Stop Txn := do
  let t ← if t.cacheAhbtar ≠ addr then do
      let t ← qApWrite t ahbTar addr
      pure { t with cacheAhbtar := addr }
    else pure t
  qApWrite t ahbDrw value

def qAhbRead (t : Txn) (addr : Word) (value : Ptr) : Except Stop Txn := do
  let t ← if t.cacheAhbtar ≠ addr then do
      let t ← qApWrite t ahbTar addr
      pure { t with cacheAhbtar := addr }
    else pure t
  qApRead t ahbDrw value

/-! ### Queueing as appending -/

theorem pushTx_ok {t t' : Txn} {w : Word} (h : t.pushTx w = .ok t') :
    t.txc < maxwords ∧ t' = { t with tx := t.tx ++ [w] } := by
  unfold Txn.pushTx at h
  split_ifs at h with hlt
  exact ⟨hlt, (Except.ok.inj h).symm⟩

theorem pushRx_ok {t t' : Txn} {p : Ptr} (h : t.pushRx p = .ok t') :
    t.rxc < maxwords ∧ t' = { t with rx := t.rx ++ [p] } := by
  unfold Txn.pushRx at h
  split_ifs at h with hlt
  exact ⟨hlt, (Except.ok.inj h).symm⟩

theorem pushTxs_ok {t t' : Txn} {ws : List Word} (h : t.pushTxs ws = .ok t') :
    t' = { t with tx := t.tx ++ ws } := by
  induction ws generalizing t with
  | nil =>
    have := Except.ok.inj h
    simp [← this]
  | cons w ws ih =>
    obtain ⟨u, hu, hr⟩ := bind_eq_ok.mp h
    rw [ih hr, (pushTx_ok hu).2]
    simp

theorem pushRxs_ok {t t' : Txn} {ps : List Ptr} (h : t.pushRxs ps = .ok t') :
    t' = { t with rx := t.rx ++ ps } := by
  induction ps generalizing t with
  | nil =>
    have := Except.ok.inj h
    simp [← this]
  | cons p ps ih =>
    obtain ⟨u, hu, hr⟩ := bind_eq_ok.mp h
    rw [ih hr, (pushRx_ok hu).2]
    simp

theorem pushTxs_of_room (t : Txn) (ws : List Word) (h : t.txc + ws.length ≤ maxwords) :
    t.pushTxs ws = .ok { t with tx := t.tx ++ ws } := by
  induction ws generalizing t with
  | nil => simp [Txn.pushTxs]
  | cons w ws ih =>
    simp only [List.length_cons] at h
    have hlt : t.txc < maxwords := by omega
    simp only [Txn.pushTxs, Txn.pushTx, hlt, ↓reduceIte, bind, Except.bind]
    rw [ih]
    · simp
    · simp only [Txn.txc, List.length_append, List.length_singleton] at h ⊢
      omega

theorem pushRxs_of_room (t : Txn) (ps : List Ptr) (h : t.rxc + ps.length ≤ maxwords) :
    t.pushRxs ps = .ok { t with rx := t.rx ++ ps } := by
  induction ps generalizing t with
  | nil => simp [Txn.pushRxs]
  | cons p ps ih =>
    simp only [List.length_cons] at h
    have hlt : t.rxc < maxwords := by omega
    simp only [Txn.pushRxs, Txn.pushRx, hlt, ↓reduceIte, bind, Except.bind]
    rw [ih]
    · simp
    · simp only [Txn.rxc, List.length_append, List.length_singleton] at h ⊢
      omega

end M3Dev.Rswdp
