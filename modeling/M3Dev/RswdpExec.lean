import M3Dev.RswdpReply

/-! `q_exec`: a queued transaction framed, sent, and its reply processed. -/
namespace M3Dev.Rswdp

/-- What the host keeps between transactions. -/
structure Host where
  sequence : BitVec 16
  swdOnline : ℤ
  swdMaxwords : ℕ
  swdVersion : ℕ
  swdError : ℤ
  swdVerbose : Bool
  /-- the words the rx pointers point to -/
  mem : Ptr → Word

def Host.store (h : Host) (s : Ptr × Word) : Host := { h with mem := Function.update h.mem s.1 s.2 }

/-- What `process_reply` leaves behind. -/
def Host.take (h : Host) (r : ReplyRun) : Host :=
  { r.stores.foldl Host.store h with swdError := r.swdError.getD h.swdError }

/-- If we are a multiple of 64, and not exactly 4K, add padding. -/
def qPad (swdMaxwords : ℕ) (t : Txn) : Except Stop Txn :=
  if t.txc % 16 = 0 ∧ t.txc ≠ swdMaxwords then t.pushTx (rswdMsg cmdNull 0 0) else .ok t

/-- `q_exec` up to `usb_write`: the transaction as it is sent. -/
def qFrame (swdMaxwords : ℕ) (id : Word) (t : Txn) : Except Stop Txn :=
  if t.magic ≠ 0x12345678 then .error (.fatal "bogus txn magic")
  else do
    let t ← qPad swdMaxwords { t with magic := 0 }
    return { t with tx := t.tx.set 0 id }

/-- The device end of `usb_write` and of the wait for its reply; no words stand for a
write that failed or a wait that ended in `TXN_STATUS_FAIL`. -/
abbrev Link (δ : Type*) := List Word → δ → δ × List Word

/-- `q_exec` as one caller sees it. `stale` is what the `data` array holds behind the
words of the reply. -/
def qExec {δ : Type*} (usb : Link δ) (stale : List Word) (t : Txn) (h : Host) (d : δ) :
    Except Stop (ℤ × Host × δ) :=
  match qFrame h.swdMaxwords (rswdTxnStart h.sequence) t with
  | .error e => .error e
  | .ok t =>
    let h : Host := { h with sequence := h.sequence + 1 }
    if h.swdOnline ≠ 1 then
      -- ack disconnect
      .ok (-1, { h with swdOnline := if h.swdOnline = -1 then 0 else h.swdOnline }, d)
    else
      let r := usb t.tx d
      if 0 < r.2.length then
        match processReply h.swdVerbose t ((r.2 ++ stale).drop 1) (r.2.length - 1) with
        | .error e => .error e
        | .ok run => .ok (run.ret, h.take run, r.1)
      else .ok (-1, h, r.1)

/-- `q_exec` with a reply that `process_reply` has taken. -/
theorem qExec_of_reply {δ : Type*} {usb : Link δ} {stale : List Word} {t t' : Txn} {h : Host}
    {d d' : δ} {reply : List Word} {run : ReplyRun} (hon : h.swdOnline = 1)
    (hf : qFrame h.swdMaxwords (rswdTxnStart h.sequence) t = .ok t')
    (hlink : usb t'.tx d = (d', reply)) (hpos : 0 < reply.length)
    (hreply : processReply h.swdVerbose t' ((reply ++ stale).drop 1) (reply.length - 1) =
      .ok run) :
    qExec usb stale t h d =
      .ok (run.ret, Host.take { h with sequence := h.sequence + 1 } run, d') := by
  have hon' : ¬ h.swdOnline ≠ 1 := not_not.mpr hon
  simp only [qExec, hf, if_neg hon', hlink, if_pos hpos, hreply]

/-! ### Memory -/

/-- Stores touch the memory only. -/
theorem take_frame (h : Host) (r : ReplyRun) :
    (h.take r).swdMaxwords = h.swdMaxwords ∧ (h.take r).swdOnline = h.swdOnline ∧
      (h.take r).sequence = h.sequence := by
  have hfold : ∀ (ss : List (Ptr × Word)) (g : Host),
      (ss.foldl Host.store g).swdMaxwords = g.swdMaxwords ∧
      (ss.foldl Host.store g).swdOnline = g.swdOnline ∧
      (ss.foldl Host.store g).sequence = g.sequence := by
    intro ss
    induction ss with
    | nil => exact fun g => ⟨rfl, rfl, rfl⟩
    | cons s ss ih => exact fun g => ih (g.store s)
  exact hfold r.stores h

theorem storeAll_mem (ss : List (Ptr × Word)) {g h : Host} (hmem : g.mem = h.mem) :
    (ss.foldl Host.store g).mem = (ss.foldl Host.store h).mem := by
  induction ss generalizing g h with
  | nil => exact hmem
  | cons s ss ih =>
    apply ih
    show Function.update g.mem s.1 s.2 = Function.update h.mem s.1 s.2
    rw [hmem]

theorem storeAll_frame (h : Host) (ss : List (Ptr × Word)) (p : Ptr)
    (hp : p ∉ ss.map Prod.fst) : (ss.foldl Host.store h).mem p = h.mem p := by
  induction ss generalizing h with
  | nil => rfl
  | cons s ss ih =>
    rw [List.map_cons, List.mem_cons, not_or] at hp
    rw [List.foldl_cons, ih _ hp.2]
    exact Function.update_of_ne hp.1 _ _

/-- A pointer stored to holds the word of its last place in the list. -/
theorem storeAll_getElem (h : Host) (ps : List Ptr) (ws : List Word)
    (hlen : ps.length = ws.length) (k : ℕ) (hk : k < ps.length) (hlast : ps[k] ∉ ps.drop (k + 1)) :
    ((ps.zip ws).foldl Host.store h).mem ps[k] = ws[k] := by
  induction ps generalizing h ws k with
  | nil => exact absurd hk (Nat.not_lt_zero k)
  | cons p ps ih =>
    cases ws with
    | nil => exact absurd hlen (by simp)
    | cons w ws =>
      rw [List.length_cons, List.length_cons, Nat.add_right_cancel_iff] at hlen
      rw [List.zip_cons_cons, List.foldl_cons]
      cases k with
      | zero =>
        have hfst : (ps.zip ws).map Prod.fst = ps := List.map_fst_zip (le_of_eq hlen)
        have hp : p ∉ (ps.zip ws).map Prod.fst := by rwa [hfst]
        rw [List.getElem_cons_zero, List.getElem_cons_zero, storeAll_frame _ _ _ hp]
        exact Function.update_self _ _ _
      | succ k => exact ih _ ws hlen k (by simpa using hk) (by simpa using hlast)

/-! ### Framing -/

theorem qPad_ok {swdMaxwords : ℕ} {t t' : Txn} (h : qPad swdMaxwords t = .ok t') :
    ∃ pad, (pad = [] ∨ pad = [rswdMsg cmdNull 0 0]) ∧ t' = { t with tx := t.tx ++ pad } ∧
      (pad ≠ [] ↔ t.txc % 16 = 0 ∧ t.txc ≠ swdMaxwords) := by
  unfold qPad at h
  split_ifs at h with hpad
  · obtain ⟨_, rfl⟩ := pushTx_ok h
    exact ⟨[rswdMsg cmdNull 0 0], Or.inr rfl, rfl, by simp [hpad]⟩
  · obtain rfl := Except.ok.inj h
    exact ⟨[], Or.inl rfl, by simp, by simp [hpad]⟩

theorem qFrame_ok {swdMaxwords : ℕ} {id : Word} {t t' : Txn}
    (h : qFrame swdMaxwords id t = .ok t') :
    ∃ pad, (pad = [] ∨ pad = [rswdMsg cmdNull 0 0]) ∧ t'.tx = (t.tx ++ pad).set 0 id ∧
      t'.rx = t.rx ∧ (pad ≠ [] ↔ t.txc % 16 = 0 ∧ t.txc ≠ swdMaxwords) := by
  unfold qFrame at h
  split_ifs at h with hm
  obtain ⟨u, hu, hr⟩ := bind_eq_ok.mp h
  obtain ⟨pad, hpad, rfl, hiff⟩ := qPad_ok hu
  obtain rfl := Except.ok.inj hr
  exact ⟨pad, hpad, rfl, rfl, hiff⟩

/-- What is sent is no multiple of the packet size, or the device's whole buffer. -/
theorem qFrame_length {swdMaxwords : ℕ} {id : Word} {t t' : Txn}
    (h : qFrame swdMaxwords id t = .ok t') : t'.txc % 16 ≠ 0 ∨ t'.txc = swdMaxwords := by
  obtain ⟨pad, hpad, htx, _, hiff⟩ := qFrame_ok h
  have hlen : t'.txc = t.txc + pad.length := by
    rw [Txn.txc, htx, List.length_set, List.length_append, Txn.txc]
  rcases hpad with rfl | rfl
  · simp only [ne_eq, not_true_eq_false, false_iff, not_and, not_not, List.length_nil] at hiff hlen
    by_cases h0 : t.txc % 16 = 0
    · exact Or.inr (by rw [hlen, Nat.add_zero]; exact hiff h0)
    · exact Or.inl (by rwa [hlen, Nat.add_zero])
  · have h0 := (hiff.mp (by simp)).1
    simp only [List.length_singleton] at hlen
    exact Or.inl (by omega)

/-! ### Frame -/

/-- `process_reply` stores through the queued pointers only. -/
theorem replyLoop_stores {verbose : Bool} {count : ℕ} {rx : List Ptr} {data : List Word}
    {run : ReplyRun} (h : replyLoop verbose count rx data = .ok run) :
    ∀ s ∈ run.stores, s.1 ∈ rx := by
  induction count generalizing rx data run with
  | zero =>
    obtain rfl := Except.ok.inj h
    simp [replyEnd]
  | succ count ih =>
    cases data with
    | nil => exact absurd h (by simp [replyLoop])
    | cons msg data =>
      simp only [replyLoop] at h
      split_ifs at h with hnull hdata hover
      · exact ih h
      · obtain rfl := Except.ok.inj h
        simp [ReplyRun.printed, replyEnd]
      · obtain ⟨ss, hss, h⟩ := bind_eq_ok.mp h
        obtain ⟨r, hr, h⟩ := bind_eq_ok.mp h
        obtain rfl := Except.ok.inj h
        rw [replyCopy_eq _ _ _ (Nat.not_lt.mp hover)] at hss
        split_ifs at hss
        obtain rfl := Except.ok.inj hss
        intro s hs
        rcases List.mem_append.mp hs with hs | hs
        · exact List.mem_of_mem_take (List.of_mem_zip (a := s.1) (b := s.2) hs).1
        · exact List.mem_of_mem_drop (ih hr s hs)
      -- a status, the clock, or an unknown command
      · obtain rfl := Except.ok.inj h
        simp
      · obtain rfl := Except.ok.inj h
        simp
      · obtain rfl := Except.ok.inj h
        simp [replyEnd]
      · obtain ⟨r, hr, rfl⟩ := map_eq_ok.mp h
        intro s hs
        exact ih hr s hs
      · obtain rfl := Except.ok.inj h
        simp [ReplyRun.printed, replyEnd]

/-- `q_exec` leaves alone what no rx pointer of the transaction points to. -/
theorem qExec_frame {δ : Type*} {usb : Link δ} {stale : List Word} {t : Txn} {h h' : Host}
    {d d' : δ} {r : ℤ} (hexec : qExec usb stale t h d = .ok (r, h', d')) {p : Ptr}
    (hp : p ∉ t.rx) : h'.mem p = h.mem p := by
  unfold qExec at hexec
  cases hf : qFrame h.swdMaxwords (rswdTxnStart h.sequence) t with
  | error e =>
    rw [hf] at hexec
    exact absurd hexec (by simp)
  | ok t' =>
    rw [hf] at hexec
    simp only at hexec
    split_ifs at hexec
    · cases hexec
      rfl
    · cases hexec
      rfl
    -- a reply came
    · split at hexec
      · exact absurd hexec (by simp)
      · rename_i run hrun
        cases hexec
        obtain ⟨_, _, _, hptr, _⟩ := qFrame_ok hf
        apply storeAll_frame
        intro hmem
        obtain ⟨s, hs, rfl⟩ := List.mem_map.mp hmem
        have hrx : s.1 ∈ t'.rx := replyLoop_stores hrun s hs
        exact hp (hptr ▸ hrx)
    · cases hexec
      rfl

end M3Dev.Rswdp
