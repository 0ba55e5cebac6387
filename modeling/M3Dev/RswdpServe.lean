import M3Dev.RswdpRequest

/-! The message loop of `process_txn` serves the messages of its receive buffer:
one pass is one message, and a run is the whole transaction. -/
namespace M3Dev.Rswdp
open WhileLoop
variable {σ : Type*}

/-! ### Payload loops -/

theorem swdWriteLoop_eq (T : SwdTarget σ) (rx : ℕ → Word) (hdr : Word) (n : ℕ) (s : TxnState σ) :
    swdWriteLoop T rx hdr n s =
      let r := T.acts ((payload rx s.rx n).map (Act.write hdr)) s.dev.target
      (r.ok, { s with toSession := s.setTarget r.target,
                      rx := s.rx + r.values.length, rxc := s.rxc - r.values.length }) := by
  induction n generalizing s with
  | zero => simp [swdWriteLoop, payload, SwdTarget.acts, Session.setTarget]
  | succ n ih =>
    rw [payload_succ]
    simp only [swdWriteLoop, List.map_cons, SwdTarget.acts, SwdTarget.act]
    by_cases hw : (T.swdpWrite hdr (rx s.rx) s.dev.target).2 = true
    · simp only [hw, ↓reduceIte, ih, Session.setTarget, List.length_cons]
      congr 2
      · omega
      · push_cast
        omega
    · simp [hw, Session.setTarget]

theorem swdReadLoop_eq (T : SwdTarget σ) (hdr : Word) (n : ℕ) (s : TxnState σ) :
    swdReadLoop T hdr n s =
      let r := T.acts (List.replicate n (Act.read hdr)) s.dev.target
      (r.ok, { s with toSession :=
        { s.setTarget r.target with
          tx := s.tx ++ (r.values ++ List.replicate (n - r.values.length) 0xfefefefe) } }) := by
  induction n generalizing s with
  | zero => simp [swdReadLoop, SwdTarget.acts, Session.setTarget]
  | succ n ih =>
    simp only [swdReadLoop, List.replicate_succ, SwdTarget.acts, SwdTarget.act]
    by_cases hr : (T.swdpRead hdr s.dev.target).2.2 = true
    · simp [hr, ih, Session.setTarget]
    · simp [hr, Session.setTarget]

theorem swdDiscardLoop_eq (T : SwdTarget σ) (hdr : Word) (n : ℕ) (s : TxnState σ) :
    swdDiscardLoop T hdr n s =
      let r := T.acts (List.replicate n (Act.read hdr)) s.dev.target
      (r.ok, { s with toSession := s.setTarget r.target }) := by
  induction n generalizing s with
  | zero => simp [swdDiscardLoop, SwdTarget.acts, Session.setTarget]
  | succ n ih =>
    simp only [swdDiscardLoop, List.replicate_succ, SwdTarget.acts, SwdTarget.act]
    by_cases hr : (T.swdpRead hdr s.dev.target).2.2 = true
    · simp [hr, ih, Session.setTarget]
    · simp [hr, Session.setTarget]

/-- The download loop body never changes its own condition. -/
theorem download_diverges (rx : ℕ → Word) (n : ℕ) (hn : n ≠ 0) (d : Word × TxnState σ) :
    Diverges (downloadPass rx n) d :=
  diverges_of_invariant (fun _ => True)
    (fun _ _ => ⟨_, if_pos hn, trivial⟩) trivial

theorem download_empty (rx : ℕ → Word) (d : Word × TxnState σ) (fuel : ℕ) :
    runLoop (downloadPass rx 0) (fuel + 1) d = some d.2 :=
  runLoop_exit (by simp [downloadPass]) fuel

/-! ### One pass -/

/-- The state after a message that lets the transaction go on. -/
def TxnState.after (s : TxnState σ) (m : Msg) (t : Session σ) : TxnState σ :=
  { toSession := t, rx := s.rx + m.size, rxc := s.rxc - m.size, count := s.count + 1 }

/-- How a pass ends: on to the next message, or out with the status. -/
def PassServes (p : Option (Pass (TxnState σ) (Word × TxnState σ))) (s : TxnState σ) (m : Msg)
    (r : Session σ × Word) : Prop :=
  (r.2 = 0 ∧ p = some (.next (s.after m r.1))) ∨
    (r.2 ≠ 0 ∧ ∃ s', p = some (.exit (r.2, s')) ∧ s'.toSession = r.1 ∧ s'.count = s.count + 1)

theorem PassServes.next {p : Option (Pass (TxnState σ) (Word × TxnState σ))} {s : TxnState σ}
    {m : Msg} {r : Session σ × Word} (hr : r.2 = 0) (hp : p = some (.next (s.after m r.1))) :
    PassServes p s m r :=
  Or.inl ⟨hr, hp⟩

theorem PassServes.exit {p : Option (Pass (TxnState σ) (Word × TxnState σ))} {s : TxnState σ}
    {m : Msg} {r : Session σ × Word} (s' : TxnState σ) (hr : r.2 ≠ 0)
    (hp : p = some (.exit (r.2, s'))) (hs : s'.toSession = r.1) (hc : s'.count = s.count + 1) :
    PassServes p s m r :=
  Or.inr ⟨hr, s', hp, hs, hc⟩

/-- A payload loop that ran the acts of its message ends the pass as the message's
status says. -/
theorem continueOr_serves (s : TxnState σ) (m : Msg) (t : Session σ) (ok : Bool)
    (s' : TxnState σ) (hs : s'.toSession = t) (hc : s'.count = s.count + 1)
    (hok : ok = true → s' = s.after m t) :
    PassServes (continueOr 3 (ok, s')) s m (t, if ok then 0 else 3) := by
  cases ok with
  | true => exact .next rfl (by simp only [continueOr, ↓reduceIte, hok rfl])
  | false => exact .exit s' (by simp) (by simp [continueOr]) hs hc

theorem txnPass_swdWrite (fw : Firmware) (T : SwdTarget σ) (rx : ℕ → Word) (fuel : ℕ)
    (s : TxnState σ) (hle : ¬ s.rxc ≤ 0) (h : rswdMsgCmd (rx s.rx) = cmdSwdWrite) :
    PassServes (txnPass fw T rx fuel s) s (msgAt rx s.rx)
      ((msgAt rx s.rx).serve fw T s.toSession) := by
  have hm : msgAt rx s.rx = .swdWrite (rswdMsgOp (rx s.rx))
      (payload rx (s.rx + 1) (rswdMsgArg (rx s.rx)).toNat) := by
    simp [msgAt, h]
  have hp : txnPass fw T rx fuel s =
      continueOr 3 (swdWriteLoop T rx (optable (rswdMsgOp (rx s.rx)))
        (rswdMsgArg (rx s.rx)).toNat
        { s with rxc := s.rxc - 1, count := s.count + 1, rx := s.rx + 1 }) := by
    simp [txnPass, h, hle]
  rw [hp, swdWriteLoop_eq, hm]
  refine continueOr_serves s _ _ _ _ ?_ rfl ?_
  · simp [Msg.effect, Msg.reply, Msg.acts, Session.setTarget]
  · intro hok
    have hl := acts_ok_length T _ _ hok
    simp only [List.length_map, payload_length] at hl
    simp [TxnState.after, Msg.size, hl, Msg.effect, Msg.reply, Msg.acts, Session.setTarget]
    omega

theorem txnPass_swdRead (fw : Firmware) (T : SwdTarget σ) (rx : ℕ → Word) (fuel : ℕ)
    (s : TxnState σ) (hle : ¬ s.rxc ≤ 0) (h : rswdMsgCmd (rx s.rx) = cmdSwdRead) :
    PassServes (txnPass fw T rx fuel s) s (msgAt rx s.rx)
      ((msgAt rx s.rx).serve fw T s.toSession) := by
  have hm : msgAt rx s.rx = .swdRead (rswdMsgOp (rx s.rx)) (rswdMsgArg (rx s.rx)).toNat := by
    simp [msgAt, h]
  have hp : txnPass fw T rx fuel s =
      continueOr 3 (swdReadLoop T (optable (rswdMsgOp (rx s.rx)))
        (rswdMsgArg (rx s.rx)).toNat
        { s with
          rxc := s.rxc - 1, count := s.count + 1, rx := s.rx + 1,
          tx := s.tx ++ [rswdMsg cmdSwdData 0 (rswdMsgArg (rx s.rx))] }) := by
    simp [txnPass, h, hle]
  rw [hp, swdReadLoop_eq, hm]
  refine continueOr_serves s _ _ _ _ ?_ rfl ?_
  · simp [Msg.effect, Msg.reply, Msg.acts, Session.setTarget]
  · intro _
    simp [TxnState.after, Msg.size, Msg.effect, Msg.reply, Msg.acts, Session.setTarget]

theorem txnPass_swdDiscard (fw : Firmware) (T : SwdTarget σ) (rx : ℕ → Word) (fuel : ℕ)
    (s : TxnState σ) (hle : ¬ s.rxc ≤ 0) (h : rswdMsgCmd (rx s.rx) = cmdSwdDiscard) :
    PassServes (txnPass fw T rx fuel s) s (msgAt rx s.rx)
      ((msgAt rx s.rx).serve fw T s.toSession) := by
  have hm : msgAt rx s.rx = .swdDiscard (rswdMsgOp (rx s.rx)) (rswdMsgArg (rx s.rx)).toNat := by
    simp [msgAt, h]
  have hp : txnPass fw T rx fuel s =
      continueOr 3 (swdDiscardLoop T (optable (rswdMsgOp (rx s.rx)))
        (rswdMsgArg (rx s.rx)).toNat
        { s with rxc := s.rxc - 1, count := s.count + 1, rx := s.rx + 1 }) := by
    simp [txnPass, h, hle]
  rw [hp, swdDiscardLoop_eq, hm]
  refine continueOr_serves s _ _ _ _ ?_ rfl ?_
  · simp [Msg.effect, Msg.reply, Msg.acts, Session.setTarget]
  · intro _
    simp [TxnState.after, Msg.size, Msg.effect, Msg.reply, Msg.acts, Session.setTarget]

/-- A message that asks nothing of the target is served by its effect alone. -/
theorem serve_of_acts_nil (fw : Firmware) (T : SwdTarget σ) (m : Msg) (s : Session σ)
    (ha : m.acts = []) (hr : m.reply [] = []) :
    m.serve fw T s = (m.effect fw s, if m.known fw then 0 else 1) := by
  simp only [Msg.serve, ha, SwdTarget.acts, Session.setTarget, Msg.status, hr, List.append_nil,
    ↓reduceIte]

/-- The firmware has a case for the message, and goes on. -/
theorem PassServes.known {fw : Firmware} {T : SwdTarget σ}
    {p : Option (Pass (TxnState σ) (Word × TxnState σ))} {s : TxnState σ} {m : Msg}
    (ha : m.acts = []) (hr : m.reply [] = []) (hk : m.known fw = true)
    (hp : p = some (.next (s.after m (m.effect fw s.toSession)))) :
    PassServes p s m (m.serve fw T s.toSession) := by
  rw [serve_of_acts_nil fw T m _ ha hr]
  exact .next (if_pos hk) hp

/-- It has none, and ends the transaction. -/
theorem PassServes.unknown {fw : Firmware} {T : SwdTarget σ}
    {p : Option (Pass (TxnState σ) (Word × TxnState σ))} {s : TxnState σ} {m : Msg}
    (ha : m.acts = []) (hr : m.reply [] = []) (hk : m.known fw = false) (s' : TxnState σ)
    (hp : p = some (.exit (1, s'))) (hs : s'.toSession = m.effect fw s.toSession)
    (hc : s'.count = s.count + 1) : PassServes p s m (m.serve fw T s.toSession) := by
  have hone : (if m.known fw = true then 0 else 1 : Word) = 1 := by rw [hk]; rfl
  rw [serve_of_acts_nil fw T m _ ha hr, hone]
  have hne : (1 : Word) ≠ 0 := by decide
  exact .exit s' hne hp hs hc

theorem txnPass_attach (fw : Firmware) (T : SwdTarget σ) (rx : ℕ → Word) (fuel : ℕ)
    (s : TxnState σ) (hle : ¬ s.rxc ≤ 0) (h : rswdMsgCmd (rx s.rx) = cmdAttach) :
    PassServes (txnPass fw T rx fuel s) s (msgAt rx s.rx)
      ((msgAt rx s.rx).serve fw T s.toSession) := by
  have hm : msgAt rx s.rx = .attach := by simp [msgAt, h]
  rw [hm]
  refine PassServes.next (by simp [Msg.serve, Msg.acts, SwdTarget.acts, SwdTarget.act,
    Msg.status, Msg.known]) ?_
  simp [txnPass, h, hle, Msg.serve, Msg.acts, SwdTarget.acts, SwdTarget.act, Msg.reply,
    Msg.effect, TxnState.after, Msg.size, Session.setTarget]

/-- An empty download stores nothing. -/
theorem txnPass_download (fw : Firmware) (T : SwdTarget σ) (rx : ℕ → Word) (fuel : ℕ)
    (s : TxnState σ) (hle : ¬ s.rxc ≤ 0) (h : rswdMsgCmd (rx s.rx) = cmdDownload)
    (hd : ¬ (msgAt rx s.rx).IsDownload) :
    PassServes (txnPass fw T rx (fuel + 1) s) s (msgAt rx s.rx)
      ((msgAt rx s.rx).serve fw T s.toSession) := by
  have hm : msgAt rx s.rx = .download (rx (s.rx + 1))
      (payload rx (s.rx + 2) (rswdMsgArg (rx s.rx)).toNat) := by
    simp [msgAt, h]
  rw [hm] at hd ⊢
  have hn : (rswdMsgArg (rx s.rx)).toNat = 0 := by
    by_contra hne
    exact hd (List.ne_nil_of_length_pos (by rw [payload_length]; omega))
  refine PassServes.known rfl rfl rfl ?_
  simp [txnPass, h, hle, hn, payload, download_empty, Msg.effect, Msg.stores,
    TxnState.after, Msg.size]
  omega

/-- The boot loader is entered where there is one; elsewhere the message is not known. -/
theorem txnPass_bootloader (fw : Firmware) (T : SwdTarget σ) (rx : ℕ → Word) (fuel : ℕ)
    (s : TxnState σ) (hle : ¬ s.rxc ≤ 0) (h : rswdMsgCmd (rx s.rx) = cmdBootloader) :
    PassServes (txnPass fw T rx fuel s) s (msgAt rx s.rx)
      ((msgAt rx s.rx).serve fw T s.toSession) := by
  have hm : msgAt rx s.rx = .bootloader := by simp [msgAt, h]
  rw [hm]
  by_cases hfw : fw.hasClock = true
  · refine PassServes.known rfl rfl hfw ?_
    simp [txnPass, h, hle, hfw, Msg.effect, TxnState.after, Msg.size]
  · have hno : fw.hasClock = false := Bool.not_eq_true _ ▸ hfw
    refine PassServes.unknown rfl rfl hno _ (by simp [txnPass, h, hle, hfw]; rfl) ?_ rfl
    simp [hfw, Msg.effect]

theorem txnPass_setClock (fw : Firmware) (T : SwdTarget σ) (rx : ℕ → Word) (fuel : ℕ)
    (s : TxnState σ) (hle : ¬ s.rxc ≤ 0) (h : rswdMsgCmd (rx s.rx) = cmdSetClock) :
    PassServes (txnPass fw T rx fuel s) s (msgAt rx s.rx)
      ((msgAt rx s.rx).serve fw T s.toSession) := by
  have hm : msgAt rx s.rx = .setClock (rswdMsgArg (rx s.rx)).toNat := by simp [msgAt, h]
  rw [hm]
  by_cases hfw : fw.hasClock = true
  · refine PassServes.known rfl rfl hfw ?_
    simp [txnPass, h, hle, hfw, Msg.effect, TxnState.after, Msg.size]
  · have hno : fw.hasClock = false := Bool.not_eq_true _ ▸ hfw
    refine PassServes.unknown rfl rfl hno _ (by simp [txnPass, h, hle, hfw]; rfl) ?_ rfl
    simp [hfw, Msg.effect]

/-- One pass of the loop serves the message under the cursor. A download of at
least one word is the exception: its payload loop never comes back. -/
theorem txnPass_serves (fw : Firmware) (T : SwdTarget σ) (rx : ℕ → Word) (fuel : ℕ)
    (s : TxnState σ) (hrxc : 0 < s.rxc) (hd : ¬ (msgAt rx s.rx).IsDownload) :
    PassServes (txnPass fw T rx (fuel + 1) s) s (msgAt rx s.rx)
      ((msgAt rx s.rx).serve fw T s.toSession) := by
  have hle : ¬ s.rxc ≤ 0 := by omega
  by_cases h0 : rswdMsgCmd (rx s.rx) = cmdNull
  · have hm : msgAt rx s.rx = .null := by simp [msgAt, h0]
    rw [hm]
    refine PassServes.known rfl rfl rfl ?_
    simp [txnPass, h0, hle, Msg.effect, TxnState.after, Msg.size]
  by_cases h1 : rswdMsgCmd (rx s.rx) = cmdSwdWrite
  · exact txnPass_swdWrite fw T rx _ s hle h1
  by_cases h2 : rswdMsgCmd (rx s.rx) = cmdSwdRead
  · exact txnPass_swdRead fw T rx _ s hle h2
  by_cases h3 : rswdMsgCmd (rx s.rx) = cmdSwdDiscard
  · exact txnPass_swdDiscard fw T rx _ s hle h3
  by_cases h4 : rswdMsgCmd (rx s.rx) = cmdAttach
  · exact txnPass_attach fw T rx _ s hle h4
  by_cases h5 : rswdMsgCmd (rx s.rx) = cmdReset
  · have hm : msgAt rx s.rx = .reset (rswdMsgArg (rx s.rx)).toNat := by simp [msgAt, h5]
    rw [hm]
    refine PassServes.known rfl rfl rfl ?_
    simp [txnPass, h5, hle, Msg.effect, TxnState.after, Msg.size]
  by_cases h6 : rswdMsgCmd (rx s.rx) = cmdDownload
  · exact txnPass_download fw T rx fuel s hle h6 hd
  by_cases h7 : rswdMsgCmd (rx s.rx) = cmdExecute
  · have hm : msgAt rx s.rx = .execute (rx (s.rx + 1)) := by simp [msgAt, h7]
    rw [hm]
    refine PassServes.known rfl rfl rfl ?_
    simp [txnPass, h7, hle, Msg.effect, TxnState.after, Msg.size]
    omega
  by_cases h8 : rswdMsgCmd (rx s.rx) = cmdTrace
  · have hm : msgAt rx s.rx = .trace (rswdMsgOp (rx s.rx)) := by simp [msgAt, h8]
    rw [hm]
    refine PassServes.known rfl rfl rfl ?_
    simp [txnPass, h8, hle, Msg.effect, TxnState.after, Msg.size]
  by_cases h9 : rswdMsgCmd (rx s.rx) = cmdBootloader
  · exact txnPass_bootloader fw T rx _ s hle h9
  by_cases h10 : rswdMsgCmd (rx s.rx) = cmdSetClock
  · exact txnPass_setClock fw T rx _ s hle h10
  · have hm : msgAt rx s.rx = .other (rswdMsgCmd (rx s.rx)) := by
      simp only [msgAt, h0, h1, h2, h3, h4, h5, h6, h7, h8, h9, h10, ↓reduceIte]
    rw [hm]
    refine PassServes.unknown rfl rfl rfl _
      (by simp only [txnPass, hle, h0, h1, h2, h3, h4, h5, h6, h7, h8, h9, h10, and_false,
        ↓reduceIte]; rfl) rfl rfl

theorem txnPass_download_stuck (fw : Firmware) (T : SwdTarget σ) (rx : ℕ → Word) (fuel : ℕ)
    (s : TxnState σ) (hrxc : 0 < s.rxc) (hd : (msgAt rx s.rx).IsDownload) :
    txnPass fw T rx fuel s = none := by
  have hle : ¬ s.rxc ≤ 0 := by omega
  have h6 : rswdMsgCmd (rx s.rx) = cmdDownload := by
    by_contra h6
    unfold msgAt at hd
    simp only [h6, ↓reduceIte] at hd
    split_ifs at hd <;> exact hd
  have hn : (rswdMsgArg (rx s.rx)).toNat ≠ 0 := by
    intro hn
    simp [msgAt, h6, hn, Msg.IsDownload, payload] at hd
  simp [txnPass, h6, hle, download_diverges rx _ hn _ fuel]

/-! ### Whole runs -/

/-- What a run of the message loop over `ms` comes out with. -/
structure RunServes (fw : Firmware) (T : SwdTarget σ) (ms : List Msg) (s : TxnState σ)
    (r : Word × TxnState σ) : Prop where
  session : r.2.toSession = (serveAll fw T ms s.toSession).1
  status : r.1 = (serveAll fw T ms s.toSession).2.1
  count : r.2.count = s.count + (serveAll fw T ms s.toSession).2.2
  consumed : r.1 = 0 → r.2.rx = s.rx + (ms.map Msg.size).sum

theorem txnPass_ended (fw : Firmware) (T : SwdTarget σ) (rx : ℕ → Word) (fuel : ℕ)
    (s : TxnState σ) (h : s.rxc ≤ 0) :
    txnPass fw T rx fuel s = some (.exit (0, { s with rxc := s.rxc - 1 })) := by
  simp only [txnPass, h, ↓reduceIte]

/-- With no download of a word started, the loop is left after serving the
messages of the buffer, whatever the fuel beyond one pass per word. -/
theorem runLoop_serves (fw : Firmware) (T : SwdTarget σ) (rx : ℕ → Word) (fuel' k : ℕ)
    (s : TxnState σ) (hk : s.rxc ≤ k)
    (hd : ¬ startsDownload fw T (requests rx k s.rx s.rxc) s.dev.target) (fuel : ℕ)
    (hf : k < fuel) :
    ∃ r, runLoop (txnPass fw T rx (fuel' + 1)) fuel s = some r ∧
      RunServes fw T (requests rx k s.rx s.rxc) s r := by
  obtain ⟨fuel, rfl⟩ : ∃ n, fuel = n + 1 := ⟨fuel - 1, by omega⟩
  -- on the words left; a pass takes one message off them
  induction k generalizing s fuel with
  | zero =>
    have h : s.rxc ≤ 0 := by simpa using hk
    refine ⟨_, runLoop_exit (txnPass_ended fw T rx _ s h) fuel, ?_⟩
    rw [requests_ended rx 0 _ _ h]
    exact ⟨rfl, rfl, rfl, fun _ => rfl⟩
  | succ k ih =>
    by_cases h : s.rxc ≤ 0
    · refine ⟨_, runLoop_exit (txnPass_ended fw T rx _ s h) fuel, ?_⟩
      rw [requests_ended rx _ _ _ h]
      exact ⟨rfl, rfl, rfl, fun _ => rfl⟩
    rw [requests_step rx k _ _ h] at hd ⊢
    have hsz := msg_size_pos (msgAt rx s.rx)
    rw [startsDownload_cons, not_or, not_and] at hd
    have hst : ((msgAt rx s.rx).serve fw T s.toSession).2 =
        (msgAt rx s.rx).status fw (T.acts (msgAt rx s.rx).acts s.dev.target).ok := rfl
    rcases txnPass_serves fw T rx fuel' s (by omega) hd.1 with ⟨h0, hp⟩ | ⟨h0, s', hp, hs, hc⟩
    · -- the message is served, and the loop goes on behind it
      have hrest := hd.2 (hst ▸ h0)
      rw [← serve_target fw T (msgAt rx s.rx) s.toSession] at hrest
      obtain ⟨f, rfl⟩ : ∃ f, fuel = f + 1 := ⟨fuel - 1, by omega⟩
      obtain ⟨r, hr, hR⟩ := ih
        (s.after (msgAt rx s.rx) ((msgAt rx s.rx).serve fw T s.toSession).1)
        (by simp only [TxnState.after]; omega) hrest f (by omega)
      refine ⟨r, by rw [runLoop_next hp, hr], ?_⟩
      constructor
      · simp only [serveAll, h0, ↓reduceIte]
        exact hR.session
      · simp only [serveAll, h0, ↓reduceIte]
        exact hR.status
      · simp only [serveAll, h0, ↓reduceIte]
        rw [hR.count]
        simp only [TxnState.after]
        omega
      · intro hz
        rw [hR.consumed hz]
        simp only [TxnState.after, List.map_cons, List.sum_cons]
        omega
    · -- it fails, and the rest of the transaction with it
      refine ⟨_, runLoop_exit hp fuel, ?_⟩
      constructor
      · simp only [serveAll, h0, ↓reduceIte, hs]
      · simp only [serveAll, h0, ↓reduceIte]
      · simp only [serveAll, h0, ↓reduceIte, hc]
      · exact fun hz => absurd hz h0

/-- A download of a word that is started holds the loop for ever. -/
theorem runLoop_diverges (fw : Firmware) (T : SwdTarget σ) (rx : ℕ → Word) (fuel' k : ℕ)
    (s : TxnState σ)
    (hd : startsDownload fw T (requests rx k s.rx s.rxc) s.dev.target) :
    Diverges (txnPass fw T rx (fuel' + 1)) s := by
  induction k generalizing s with
  | zero => exact absurd hd (not_startsDownload_nil fw T _)
  | succ k ih =>
    by_cases h : s.rxc ≤ 0
    · rw [requests_ended rx _ _ _ h] at hd
      exact absurd hd (not_startsDownload_nil fw T _)
    rw [requests_step rx k _ _ h, startsDownload_cons] at hd
    by_cases hdl : (msgAt rx s.rx).IsDownload
    · exact fun fuel => runLoop_stuck (txnPass_download_stuck fw T rx _ s (by omega) hdl) fuel
    · obtain ⟨hst, hrest⟩ := hd.resolve_left hdl
      rcases txnPass_serves fw T rx fuel' s (by omega) hdl with ⟨_, hp⟩ | ⟨h0, _⟩
      · rw [← serve_target fw T (msgAt rx s.rx) s.toSession] at hrest
        exact Diverges.next hp
          (ih (s.after (msgAt rx s.rx) ((msgAt rx s.rx).serve fw T s.toSession).1) hrest)
      · exact absurd hst h0

/-- `process_txn` on a buffer that starts no download of a word: it sends the reply
of the messages it served and nothing else after them. -/
theorem processTxn_serves (fw : Firmware) (T : SwdTarget σ) (txnid : Word) (rx : ℕ → Word)
    (rxp : ℕ) (rxc : ℤ) (dev : Device σ)
    (hd : ¬ startsDownload fw T (requests rx rxc.toNat rxp rxc) dev.target) (fuel : ℕ)
    (hf : rxc.toNat < fuel) :
    ∃ r, processTxn fw T fuel txnid rx rxp rxc dev = some (txnDone fw r.1 r.2) ∧
      RunServes fw T (requests rx rxc.toNat rxp rxc) (txnStart txnid rxp rxc dev) r := by
  obtain ⟨f, rfl⟩ : ∃ f, fuel = f + 1 := ⟨fuel - 1, by omega⟩
  obtain ⟨r, hr, hR⟩ := runLoop_serves fw T rx f rxc.toNat (txnStart txnid rxp rxc dev)
    (Int.self_le_toNat rxc) hd (f + 1) hf
  exact ⟨r, by simp only [processTxn, hr, Option.map_some], hR⟩

theorem processTxn_diverges (fw : Firmware) (T : SwdTarget σ) (txnid : Word) (rx : ℕ → Word)
    (rxp : ℕ) (rxc : ℤ) (dev : Device σ)
    (hd : startsDownload fw T (requests rx rxc.toNat rxp rxc) dev.target) (fuel : ℕ) :
    processTxn fw T fuel txnid rx rxp rxc dev = none := by
  cases fuel with
  | zero => rfl
  | succ f =>
    have h := runLoop_diverges fw T rx f rxc.toNat (txnStart txnid rxp rxc dev) hd (f + 1)
    simp only [processTxn, h, Option.map_none]

/-- Whatever the fuel, an answer of `process_txn` is the one of the messages it served. -/
theorem processTxn_some (fw : Firmware) (T : SwdTarget σ) (fuel : ℕ) (txnid : Word)
    (rx : ℕ → Word) (rxp : ℕ) (rxc : ℤ) (dev : Device σ) (s : TxnState σ)
    (h : processTxn fw T fuel txnid rx rxp rxc dev = some s) :
    ∃ r, s = txnDone fw r.1 r.2 ∧
      RunServes fw T (requests rx rxc.toNat rxp rxc) (txnStart txnid rxp rxc dev) r := by
  have hd : ¬ startsDownload fw T (requests rx rxc.toNat rxp rxc) dev.target := by
    intro hd
    rw [processTxn_diverges fw T txnid rx rxp rxc dev hd] at h
    exact absurd h (by simp)
  unfold processTxn at h
  rw [Option.map_eq_some_iff] at h
  obtain ⟨r, hrun, rfl⟩ := h
  obtain ⟨f, rfl⟩ : ∃ f, fuel = f + 1 := by
    refine ⟨fuel - 1, ?_⟩
    by_contra hne
    obtain rfl : fuel = 0 := by omega
    exact absurd hrun (by simp [runLoop])
  obtain ⟨r', hrun', hR⟩ := runLoop_serves fw T rx f rxc.toNat (txnStart txnid rxp rxc dev)
    (Int.self_le_toNat rxc) hd (rxc.toNat + 1) (Nat.lt_succ_self _)
  have hr : r = r' := Leaves.unique ⟨_, hrun⟩ ⟨_, hrun'⟩
  exact ⟨r, rfl, hr ▸ hR⟩

end M3Dev.Rswdp
