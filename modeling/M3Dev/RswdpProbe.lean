import M3Dev.RswdpRoundTrip

/-! The probe at the other end of the cable: `q_exec` against its main loop. -/
namespace M3Dev.Rswdp
variable {σ : Type*}

/-- What `usb_recv` leaves in the receive buffer and the memory after it: the words sent,
as far as they fit, over what was there. -/
def usbRecv (fw : Firmware) (tx : List Word) (old : ℕ → Word) : ℕ → Word :=
  fun i => (tx.take fw.rxWords).getD i (old i)

/-- The main loop once `usb_recv` has returned with `rxc` words. -/
def mainTurn (fw : Firmware) (T : SwdTarget σ) (rxc : ℕ) (rxbuffer : ℕ → Word) (d : Device σ) :
    Device σ × List Word :=
  -- runt frame
  if rxc < 1 then (d, [])
  -- invalid frame
  else if rxbuffer 0 &&& 0xFFFF0000 ≠ 0xAA770000 then (d, [])
  else
    match processTxn fw T (fw.rxWords + 1) (rxbuffer 0) rxbuffer 1 ((rxc - 1 : ℕ) : ℤ) d with
    | some s => (s.dev, s.tx)
    | none => (d, [])

/-- The turns that take what the first one left of a transfer. -/
def mainTurns (fw : Firmware) (T : SwdTarget σ) :
    ℕ → List Word → (ℕ → Word) → Device σ → Device σ
  | 0, _, _, d => d
  | fuel + 1, tx, old, d =>
    if tx = [] then d
    else
      let rxbuffer := usbRecv fw tx old
      let r := mainTurn fw T (tx.take fw.rxWords).length rxbuffer d
      mainTurns fw T fuel (tx.drop fw.rxWords) rxbuffer r.1

/-- The probe at the far end of the cable. `beyond` is what its receive buffer and the
memory after it hold before, which may depend on all that happened. The reply is the one of the first turn: once the host has it,
nothing waits for what a later turn sends. -/
def probeLink (fw : Firmware) (T : SwdTarget σ) (beyond : Device σ → ℕ → Word) : Link (Device σ) :=
  fun tx d =>
    let rxbuffer := usbRecv fw tx (beyond d)
    let r := mainTurn fw T (tx.take fw.rxWords).length rxbuffer d
    (mainTurns fw T tx.length (tx.drop fw.rxWords) rxbuffer r.1, r.2)

theorem mainTurns_nil (fw : Firmware) (T : SwdTarget σ) (fuel : ℕ) (old : ℕ → Word)
    (d : Device σ) : mainTurns fw T fuel [] old d = d := by
  cases fuel <;> rfl

/-- A transfer that fits the receive buffer takes one turn. -/
theorem probeLink_fit (fw : Firmware) (T : SwdTarget σ) (beyond : Device σ → ℕ → Word) {tx : List Word}
    (hfit : tx.length ≤ fw.rxWords) (d : Device σ) :
    probeLink fw T beyond tx d = mainTurn fw T tx.length (fun i => tx.getD i (beyond d i)) d := by
  have htake : tx.take fw.rxWords = tx := List.take_of_length_le hfit
  have hdrop : tx.drop fw.rxWords = [] := List.drop_of_length_le hfit
  have hbuf : usbRecv fw tx (beyond d) = fun i => tx.getD i (beyond d i) := by
    unfold usbRecv
    rw [htake]
  simp only [probeLink, hbuf, htake, hdrop, mainTurns_nil]

/-- The turn of a frame that starts as one and is answered. -/
theorem mainTurn_answers {fw : Firmware} {T : SwdTarget σ} {rxc : ℕ} {rxbuffer : ℕ → Word}
    {d : Device σ} {s : TxnState σ} (hne : 1 ≤ rxc)
    (hframe : rxbuffer 0 &&& 0xFFFF0000 = 0xAA770000)
    (hrun : processTxn fw T (fw.rxWords + 1) (rxbuffer 0) rxbuffer 1 ((rxc - 1 : ℕ) : ℤ) d =
      some s) : mainTurn fw T rxc rxbuffer d = (s.dev, s.tx) := by
  have hlen : ¬ rxc < 1 := Nat.not_lt.mpr hne
  simp only [mainTurn, if_neg hlen, if_neg (not_not.mpr hframe), hrun]

theorem txnDone_tx_pos (fw : Firmware) (status : Word) (s : TxnState σ) :
    0 < (txnDone fw status s).tx.length := by
  obtain ⟨c, pad, htx⟩ := txnDone_tx fw status s
  rw [htx, List.length_append, List.length_cons]
  omega

theorem payload_getD (ws : List Word) (beyond : ℕ → Word) :
    payload (fun i => ws.getD i (beyond i)) 0 ws.length = ws := by
  apply List.ext_getElem
  · rw [payload_length]
  · intro i _ hi
    simp [payload, hi]

/-- The padding message asks for nothing. -/
theorem pad_flatMap_acts {ms ms' : List Msg} (h : ms' = ms ∨ ms' = ms ++ [.null]) :
    ms'.flatMap Msg.acts = ms.flatMap Msg.acts := by
  rcases h with rfl | rfl
  · rfl
  · rw [List.flatMap_append]
    exact List.append_nil _

theorem pad_readsOf {ms ms' : List Msg} (h : ms' = ms ∨ ms' = ms ++ [.null]) (vs : List Word) :
    readsOf ms' vs = readsOf ms vs := by
  rcases h with rfl | rfl
  · rfl
  · induction ms generalizing vs with
    | nil => rfl
    | cons m ms ih => rw [List.cons_append, readsOf, readsOf, ih]

/-- A transaction that fits the probe's buffer: the target goes through the acts of its
messages, and `q_exec` returns what `process_reply` makes of the answer. -/
theorem qExec_answered (fw : Firmware) (T : SwdTarget σ) {t : Txn} {ms : List Msg}
    (hms : t.Holds ms) {h : Host} (hon : h.swdOnline = 1) {t' : Txn}
    (hf : qFrame h.swdMaxwords (rswdTxnStart h.sequence) t = .ok t') (hfit : t'.txc ≤ fw.rxWords)
    (beyond : Device σ → ℕ → Word) (stale : List Word) (d : Device σ) :
    ∃ run d', qExec (probeLink fw T beyond) stale t h d =
        .ok (run.ret, Host.take { h with sequence := h.sequence + 1 } run, d') ∧
      d'.target = (T.acts (ms.flatMap Msg.acts) d.target).target ∧
      ((T.acts (ms.flatMap Msg.acts) d.target).ok = true →
        run = { replyEnd 0 with
          stores := t.rx.zip (readsOf ms (T.acts (ms.flatMap Msg.acts) d.target).values) } ∧
        t.rx.length = (readsOf ms (T.acts (ms.flatMap Msg.acts) d.target).values).length) ∧
      ((T.acts (ms.flatMap Msg.acts) d.target).ok = false → run.ret = -3) := by
  have hfuel : t'.txc ≤ fw.rxWords + 1 := Nat.le_succ_of_le hfit
  obtain ⟨hid, hptr, ms', r, hpad, _, hswd, hlen, hrun, hR⟩ :=
    processTxn_framed fw T hms hf (payload_getD t'.tx (beyond d)) d hfuel
  obtain ⟨run, hreply, hgood, hbad⟩ := processReply_serveAll hswd hR hlen.ge h.swdVerbose stale
  have htarget := runServes_target hswd hR
  rw [pad_flatMap_acts hpad] at hgood hbad htarget
  rw [← hlen, pad_readsOf hpad, hptr] at hgood
  -- the frame is taken and answered
  have hne : 1 ≤ t'.tx.length := by
    obtain ⟨pad, _, htx, _⟩ := qFrame_ok hf
    obtain ⟨⟨wss, _, hcons⟩, _⟩ := hms
    rw [htx, hcons, List.length_set, List.length_append, List.length_cons]
    omega
  have hframe : (t'.tx.getD 0 (beyond d 0) &&& 0xFFFF0000 : Word) = 0xAA770000 := by
    rw [hid]
    exact rswdTxnStart_frame h.sequence
  have hlink := (probeLink_fit fw T beyond hfit d).trans (mainTurn_answers hne hframe hrun)
  have hexec := qExec_of_reply hon hf hlink (txnDone_tx_pos fw r.1 r.2) hreply
  refine ⟨run, (txnDone fw r.1 r.2).dev, hexec, htarget, ?_, ?_⟩
  · intro hok
    obtain ⟨hrunEq, hlenReads⟩ := hgood hok
    exact ⟨hrunEq, hlenReads.symm⟩
  · intro hok
    exact (hbad hok).1

/-- Without a failure the words read go under the queued pointers. -/
theorem qExec_probe (fw : Firmware) (T : SwdTarget σ) {t : Txn} {ms : List Msg}
    (hms : t.Holds ms) {h : Host} (hon : h.swdOnline = 1) {t' : Txn}
    (hf : qFrame h.swdMaxwords (rswdTxnStart h.sequence) t = .ok t') (hfit : t'.txc ≤ fw.rxWords)
    (beyond : Device σ → ℕ → Word) (stale : List Word) (d : Device σ)
    (hok : (T.acts (ms.flatMap Msg.acts) d.target).ok = true) :
    ∃ h' d', qExec (probeLink fw T beyond) stale t h d = .ok (0, h', d') ∧
      d'.target = (T.acts (ms.flatMap Msg.acts) d.target).target ∧
      h'.mem = ((t.rx.zip (readsOf ms (T.acts (ms.flatMap Msg.acts) d.target).values)).foldl
        Host.store h).mem ∧
      t.rx.length = (readsOf ms (T.acts (ms.flatMap Msg.acts) d.target).values).length ∧
      h'.swdOnline = 1 ∧ h'.swdMaxwords = h.swdMaxwords := by
  obtain ⟨run, d', hexec, htarget, hgood, _⟩ :=
    qExec_answered fw T hms hon hf hfit beyond stale d
  obtain ⟨hrunEq, hlenReads⟩ := hgood hok
  have hret : run.ret = 0 := by rw [hrunEq]; rfl
  rw [hret] at hexec
  obtain ⟨hmax, honline, _⟩ := take_frame { h with sequence := h.sequence + 1 } run
  refine ⟨Host.take { h with sequence := h.sequence + 1 } run, d', hexec, htarget, ?_, hlenReads,
    honline.trans hon, hmax⟩
  show (run.stores.foldl Host.store { h with sequence := h.sequence + 1 }).mem = _
  rw [hrunEq]
  exact storeAll_mem _ rfl

/-- Of a message that is longer the probe's buffer holds the beginning, and nothing of the rest. -/
theorem usbRecv_cut (fw : Firmware) {w : Word} {ws : List Word} (hwhole : (w :: ws).length = fw.rxWords)
    (more : List Word) (beyond : ℕ → Word) :
    usbRecv fw (w :: ws ++ more) beyond 0 = w ∧
      payload (usbRecv fw (w :: ws ++ more) beyond) 1 ws.length = ws ∧
      usbRecv fw (w :: ws ++ more) beyond (1 + ws.length) = beyond fw.rxWords := by
  have htake : (w :: ws ++ more).take fw.rxWords = w :: ws := by rw [← hwhole, List.take_left]
  have hpay := payload_getD ((w :: ws ++ more).take fw.rxWords) beyond
  have hbuf : usbRecv fw (w :: ws ++ more) beyond 0 = w ∧
      payload (usbRecv fw (w :: ws ++ more) beyond) 1 ws.length = ws := by
    apply payload_eq_cons
    rw [htake, List.length_cons, ← htake] at hpay
    exact hpay.trans htake
  have hat : 1 + ws.length = fw.rxWords := by
    rw [← hwhole, List.length_cons, Nat.add_comm]
  have hlast : ((w :: ws ++ more).take fw.rxWords).length ≤ fw.rxWords := List.length_take_le _ _
  refine ⟨hbuf.1, hbuf.2, ?_⟩
  rw [hat]
  unfold usbRecv
  rw [List.getD_eq_getElem?_getD, List.getElem?_eq_none hlast, Option.getD_none]

/-- A queued transaction up to the header of a write of one word. -/
theorem holds_qFrame_cut {t t' : Txn} {ms ms₂ : List Msg} {op w id : Word} {swdMaxwords : ℕ}
    (hms : t.Holds (ms ++ .swdWrite op [w] :: ms₂)) (hf : qFrame swdMaxwords id t = .ok t') :
    ∃ ws hdr more, List.Forall₂ Msg.EncodedAs ms ws ∧ Msg.EncodedAs (.swdWrite op [w]) [hdr, w] ∧
      t'.tx = id :: (ws.flatten ++ [hdr]) ++ more ∧ t'.rx = t.rx ∧
      (ms.map Msg.readWords).sum ≤ t'.rx.length ∧ ∀ m ∈ ms, m.IsSwd := by
  obtain ⟨ms', wss, hpad, henc, htx, hptr, hptrs, hswd⟩ := holds_qFrame hms hf
  obtain ⟨rest, rfl⟩ : ∃ rest, ms' = ms ++ .swdWrite op [w] :: rest := by
    rcases hpad with rfl | rfl
    · exact ⟨ms₂, rfl⟩
    · exact ⟨ms₂ ++ [.null], by rw [List.append_assoc]; rfl⟩
  obtain ⟨ws, vs, hws, hvs, rfl⟩ := encoded_split henc
  have hroom : (ms.map Msg.readWords).sum ≤ t'.rx.length := by
    rw [hptrs, List.map_append, List.sum_append]
    exact Nat.le_add_right _ _
  cases hvs with
  | @cons _ v _ vs hv hrest =>
    obtain ⟨hop, hone, rfl⟩ := hv
    refine ⟨ws, _, w :: vs.flatten, hws, ⟨hop, hone, rfl⟩, ?_, hptr, hroom,
      fun m hm => hswd m (List.mem_append_left _ hm)⟩
    rw [htx, List.flatten_append, List.flatten_cons]
    simp only [List.cons_append, List.nil_append, List.append_assoc]

/-- A transaction longer than the probe's buffer, cut between the header of a register
write and its value: the probe takes the value from behind the buffer, answers what it has
got so far, and the host takes that for the whole. -/
theorem qExec_cut (fw : Firmware) (T : SwdTarget σ) {t : Txn} {ms ms₂ : List Msg} {op w : Word}
    (hms : t.Holds (ms ++ .swdWrite op [w] :: ms₂)) {h : Host} (hon : h.swdOnline = 1) {t' : Txn}
    (hf : qFrame h.swdMaxwords (rswdTxnStart h.sequence) t = .ok t')
    (hcut : (ms.map Msg.size).sum + 2 = fw.rxWords) (beyond : Device σ → ℕ → Word) (stale : List Word)
    (d : Device σ)
    (hok : (T.acts ((ms ++ [Msg.swdWrite op [beyond d fw.rxWords]]).flatMap Msg.acts) d.target).ok =
      true) :
    ∃ (h' : Host) (d' : Device σ) (words : List Word),
      qExec (probeLink fw T beyond) stale t h d = .ok (0, h', d') ∧
      words.length = (ms.map Msg.readWords).sum ∧
      h'.mem = ((t.rx.zip words).foldl Host.store h).mem := by
  obtain ⟨ws, hdr, more, hws, hwrite, htx, hptr, hptrs, hswd⟩ := holds_qFrame_cut hms hf
  have hlen := encoded_flatten_length hws
  -- the header of the write is the last word the buffer holds
  have hwhole : (rswdTxnStart h.sequence :: (ws.flatten ++ [hdr])).length = fw.rxWords := by
    rw [List.length_cons, List.length_append, hlen, ← hcut]
    rfl
  have htake : t'.tx.take fw.rxWords = rswdTxnStart h.sequence :: (ws.flatten ++ [hdr]) := by
    rw [htx, ← hwhole, List.take_left]
  obtain ⟨hfirst, hpayload, hbehind⟩ := usbRecv_cut fw hwhole more (beyond d)
  rw [← htx, List.length_append, List.length_singleton] at hpayload hbehind
  rw [← htx] at hfirst
  generalize hrx : usbRecv fw t'.tx (beyond d) = rx at hfirst hpayload hbehind
  rw [← Nat.add_assoc] at hbehind
  -- so the probe serves a write of the word behind the buffer
  have hreq := requests_cut hws hwrite rx 1 hpayload
  rw [hbehind] at hreq
  have hswd' : ∀ m ∈ ms ++ [Msg.swdWrite op [beyond d fw.rxWords]], m.IsSwd := by
    intro m hm
    rcases List.mem_append.mp hm with hm | hm
    · exact hswd m hm
    · rw [List.mem_singleton.mp hm]
      exact trivial
  have hdl : ¬ startsDownload fw T (ms ++ [Msg.swdWrite op [beyond d fw.rxWords]]) d.target := by
    rintro ⟨m, hm, hdl⟩
    exact not_isDownload_of_isSwd (hswd' m (mem_of_mem_started hm)) hdl
  have hserves := processTxn_serves fw T (rx 0) rx 1 (ws.flatten.length + 1 : ℕ) d
  rw [Int.toNat_natCast, hreq] at hserves
  obtain ⟨r, hrun, hR⟩ := hserves hdl (fw.rxWords + 1) (by omega)
  -- a write answers no words: the answer has those of the messages before it
  have hsum : ((ms ++ [Msg.swdWrite op [beyond d fw.rxWords]]).map Msg.readWords).sum =
      (ms.map Msg.readWords).sum := by
    rw [List.map_append, List.sum_append]
    rfl
  obtain ⟨run, hreply, hgood, _⟩ :=
    processReply_serveAll hswd' hR (hsum.trans_le hptrs) h.swdVerbose stale
  obtain ⟨hrunEq, hwords⟩ := hgood hok
  have hlen512 : (t'.tx.take fw.rxWords).length = ws.flatten.length + 1 + 1 := by
    rw [htake, List.length_cons, List.length_append]
    rfl
  have hturn := mainTurn_answers (T := T) (s := txnDone fw r.1 r.2) (Nat.le_add_left 1 _)
    (hfirst ▸ rswdTxnStart_frame h.sequence) hrun
  have hlink : probeLink fw T beyond t'.tx d =
      (mainTurns fw T t'.tx.length (t'.tx.drop fw.rxWords) rx (txnDone fw r.1 r.2).dev,
        (txnDone fw r.1 r.2).tx) := by
    simp only [probeLink, hlen512, hrx, hturn]
  have hexec := qExec_of_reply hon hf hlink (txnDone_tx_pos fw r.1 r.2) hreply
  have hret : run.ret = 0 := by rw [hrunEq]; rfl
  rw [hret] at hexec
  refine ⟨_, _, _, hexec, hwords.trans hsum, ?_⟩
  show (run.stores.foldl Host.store { h with sequence := h.sequence + 1 }).mem = _
  rw [hrunEq, hptr]
  exact storeAll_mem _ rfl

end M3Dev.Rswdp
