import M3Dev.MemAp
import M3Dev.SwdPort

/-! Transactions of the probe down to the bits on the line: the driver of m3debug against a debug
port, and `process_txn` over it. -/
namespace M3Dev.SwdPort
open CallTree SerialBits Wire WhileLoop Rswdp M3Debug
variable {σ : Type} {R : Registers σ}

/-! ### The driver -/

/-- The port waits for a request or will after one low bit, with the request put off so often and
these registers. -/
structure Rests (waited : ℕ) (s : σ) (p : DebugPort σ) : Prop where
  waited : p.waited = waited
  regs : p.regs = s
  phase : p.phase = .idle ∨ p.phase = .turn none ∨ ∃ ones, 50 ≤ ones ∧ p.phase = .lost ones

/-- The requests to read, or to write. -/
def headers (rnw : Bool) : List Word :=
  if rnw then [rdIdcode, rdAp0, rdDpctrl, rdAp1, rdResend, rdAp2, rdBuffer, rdAp3]
  else [wrAbort, wrAp0, wrDpctrl, wrAp1, wrSelect, wrAp2, wrBuffer, wrAp3]

/-- The bits of a request: the start bit, four that tell which register, their parity, stop and
park. -/
def requestBits (rnw : Bool) (hdr : Word) : List Bool :=
  let field := [hdr.getLsbD 6, rnw, hdr.getLsbD 4, hdr.getLsbD 3]
  true :: (field ++ [oddOnes field, false, true])

/-- What goes over the line for a request, and the request for what went over it. -/
theorem requestBits_eq {rnw : Bool} {hdr : Word} (h : hdr ∈ headers rnw) :
    msbFirst 16 hdr = List.replicate 8 false ++ requestBits rnw hdr ∧
      ofMsbFirst 32 (requestBits rnw hdr) = hdr := by
  cases rnw with
  | false =>
    simp only [headers, Bool.false_eq_true, ↓reduceIte, List.mem_cons, List.not_mem_nil, or_false] at h
    rcases h with rfl | rfl | rfl | rfl | rfl | rfl | rfl | rfl <;> exact ⟨by decide, by decide⟩
  | true =>
    simp only [headers, ↓reduceIte, List.mem_cons, List.not_mem_nil, or_false] at h
    rcases h with rfl | rfl | rfl | rfl | rfl | rfl | rfl | rfl <;> exact ⟨by decide, by decide⟩

section
variable {n v count : Word} {k : ℕ} {s : σ} {p p' : DebugPort σ}

theorem Rests.low (h : Rests k s p) :
    p.drives R (List.replicate 8 false) = some ⟨.idle, k, s⟩ := by
  obtain ⟨phase, waited, regs⟩ := p
  obtain ⟨rfl, rfl, hphase⟩ := h
  have hfirst : (⟨phase, waited, regs⟩ : DebugPort σ).drives R [false] = some ⟨.idle, waited, regs⟩ := by
    rcases hphase with hidle | hturn | ⟨ones, hlong, hlost⟩
    · obtain rfl : phase = .idle := hidle
      rfl
    · obtain rfl : phase = .turn none := hturn
      rfl
    · obtain rfl : phase = .lost ones := hlost
      simp [DebugPort.drives, DebugPort.clock, DebugPort.hear, hlong]
  show DebugPort.drives R ([false] ++ List.replicate 7 false) _ = _
  rw [DebugPort.drives_append hfirst]
  exact DebugPort.drives_low 7 waited regs

/-- What the port answers to a request of that direction. -/
def answered (R : Registers σ) (k : ℕ) (s : σ) (rnw : Bool) (hdr : Word) : DebugPort σ :=
  if k < R.waits hdr s then ⟨.answer true [false, true, false] none, k + 1, s⟩
  else if R.takes hdr s then
    if rnw then
      ⟨.answer true (true :: false :: false ::
        (lsbFirst 32 (R.read hdr s).1 ++ [oddOnes (lsbFirst 32 (R.read hdr s).1)])) none, 0, (R.read hdr s).2⟩
    else ⟨.answer true [true, false, false] (some hdr), 0, s⟩
  else ⟨.answer true [false, false, true] none, 0, R.fault hdr s⟩

theorem Rests.request (h : Rests k s p) {rnw : Bool} (hn : n ∈ headers rnw) :
    p.drives R (msbFirst 16 n) = some (answered R k s rnw n) := by
  obtain ⟨hbits, hword⟩ := requestBits_eq hn
  have hformed : wellFormed (requestBits rnw n) = true := by simp [wellFormed, requestBits]
  have hdir : (requestBits rnw n).getD 2 false = rnw := rfl
  have hidle : (⟨.idle, k, s⟩ : DebugPort σ).drives R (requestBits rnw n) =
      some (DebugPort.request R ⟨.header (requestBits rnw n).dropLast, k, s⟩ (requestBits rnw n)) := rfl
  rw [hbits, DebugPort.drives_append h.low, hidle]
  simp only [DebugPort.request, hformed, hword, hdir, not_true_eq_false, ↓reduceIte]
  rfl

/-! #### Frames -/

theorem xmit_run (h : p.drives R (msbFirst k n) = some p') :
    (xmit n).run (sspPort R) ⟨k, true, [], p⟩ = some (.ok (), ⟨k, true, [], p'⟩) := by
  have hwrite : sspPort R (.writeDr n) ⟨k, true, [], p⟩ =
      some (0, ⟨k, true, [ofMsbFirst 32 (msbFirst k n)], p'⟩) := by
    simp only [sspPort, Controller.frame, ↓reduceIte, h, Option.map_some, List.nil_append]
  exact (Prog.run_call hwrite _).trans rfl

theorem recv_run {bits : List Bool} (h : p.listens R k = some (bits, p')) :
    recv.run (sspPort R) ⟨k, false, [], p⟩ =
      some (.ok (ofMsbFirst 32 bits), ⟨k, false, [], p'⟩) := by
  have hwrite : sspPort R (.writeDr 0) ⟨k, false, [], p⟩ =
      some (0, ⟨k, false, [ofMsbFirst 32 bits], p'⟩) := by
    simp only [sspPort, Controller.frame, Bool.false_eq_true, ↓reduceIte, h, Option.map_some,
      List.nil_append]
  exact (Prog.run_call hwrite _).trans rfl

theorem dirOut_run (j : ℕ) (c : Controller σ) :
    (dirOut j).run (sspPort R) c = some (.ok (), { c with bits := j, out := true }) := rfl

theorem dirIn_run (j : ℕ) (c : Controller σ) :
    (dirIn j).run (sspPort R) c = some (.ok (), { c with bits := j, out := false }) := rfl

/-- The acknowledge behind the turnaround. -/
theorem ack_run (a b c : Bool) (bits : List Bool) (hdr : Option Word) (w : ℕ) (s : σ) :
    recv.run (sspPort R) ⟨4, false, [], ⟨.answer true (a :: b :: c :: bits) hdr, w, s⟩⟩ =
      some (.ok (ofMsbFirst 32 [true, a, b, c]),
        ⟨4, false, [], ⟨.rest bits hdr, w, s⟩⟩) := by
  apply recv_run
  cases bits with
  | nil => rfl
  | cons b' bits => rfl

/-! #### Passes -/

theorem writePass_waits (hn : n ∈ headers false) (hp : Rests k s p) (hk : k < R.waits n s) :
    ∃ p', Rests (k + 1) s p' ∧ (swdpWritePass n v count).run (sspPort R) (between p) =
      some (.ok (.next (count + 1)), between p') := by
  have hask := hp.request (R := R) hn
  rw [answered, if_pos hk] at hask
  refine ⟨⟨.turn none, k + 1, s⟩, ⟨rfl, rfl, .inr (.inl rfl)⟩, ?_⟩
  rw [swdpWritePass, between, Prog.run_bind (xmit_run hask), Prog.run_bind (dirIn_run _ _),
    Prog.run_bind (ack_run _ _ _ _ _ _ _), if_pos (by decide), if_pos (by decide)]
  rfl

theorem readPass_waits (hn : n ∈ headers true) (hp : Rests k s p) (hk : k < R.waits n s) :
    ∃ p', Rests (k + 1) s p' ∧ (swdpReadPass n count).run (sspPort R) (between p) =
      some (.ok (.next (count + 1)), between p') := by
  have hask := hp.request (R := R) hn
  rw [answered, if_pos hk] at hask
  refine ⟨⟨.turn none, k + 1, s⟩, ⟨rfl, rfl, .inr (.inl rfl)⟩, ?_⟩
  rw [swdpReadPass, between, Prog.run_bind (xmit_run hask), Prog.run_bind (dirIn_run _ _),
    Prog.run_bind (ack_run _ _ _ _ _ _ _), if_pos (by decide), if_pos (by decide)]
  rfl

theorem writePass_faults (hn : n ∈ headers false) (hp : Rests k s p) (hk : ¬ k < R.waits n s)
    (htakes : R.takes n s = false) :
    (swdpWritePass n v count).run (sspPort R) (between p) =
      some (.ok (.exit (-1, count)), between ⟨.turn none, 0, R.fault n s⟩) := by
  have hask := hp.request (R := R) hn
  rw [answered, if_neg hk, htakes, if_neg (by decide)] at hask
  rw [swdpWritePass, between, Prog.run_bind (xmit_run hask), Prog.run_bind (dirIn_run _ _),
    Prog.run_bind (ack_run _ _ _ _ _ _ _), if_pos (by decide), if_neg (by decide)]
  rfl

theorem readPass_faults (hn : n ∈ headers true) (hp : Rests k s p) (hk : ¬ k < R.waits n s)
    (htakes : R.takes n s = false) :
    (swdpReadPass n count).run (sspPort R) (between p) =
      some (.ok (.exit (-1, 0xffffffff, count)), between ⟨.turn none, 0, R.fault n s⟩) := by
  have hask := hp.request (R := R) hn
  rw [answered, if_neg hk, htakes, if_neg (by decide)] at hask
  rw [swdpReadPass, between, Prog.run_bind (xmit_run hask), Prog.run_bind (dirIn_run _ _),
    Prog.run_bind (ack_run _ _ _ _ _ _ _), if_pos (by decide), if_neg (by decide)]
  rfl

/-- The three frames of the data phase reach the port as one train of bits. -/
theorem writePass_taken (hn : n ∈ headers false) (hp : Rests k s p) (hk : ¬ k < R.waits n s)
    (htakes : R.takes n s = true) :
    (swdpWritePass n v count).run (sspPort R) (between p) =
      some (.ok (.exit (0, count)), between ⟨.idle, 0, R.write n v s⟩) := by
  have hask := hp.request (R := R) hn
  rw [answered, if_neg hk, if_pos htakes, if_neg (by decide)] at hask
  have hdata : (⟨.rest [] (some n), 0, s⟩ : DebugPort σ).drives R (dataPhase v) = _ :=
    DebugPort.drives_dataPhase n v 0 s
  rw [← frames_eq] at hdata
  obtain ⟨p2, htwo, hlow⟩ := DebugPort.drives_split hdata
  obtain ⟨p1, hhigh, hmid⟩ := DebugPort.drives_split htwo
  rw [swdpWritePass, between, Prog.run_bind (xmit_run hask), Prog.run_bind (dirIn_run _ _),
    Prog.run_bind (ack_run _ _ _ _ _ _ _), if_neg (by decide)]
  dsimp only
  rw [Prog.run_bind (dirOut_run _ _), Prog.run_bind (xmit_run hhigh), Prog.run_bind (dirOut_run _ _),
    Prog.run_bind (xmit_run hmid), Prog.run_bind (dirOut_run _ _), Prog.run_bind (xmit_run hlow),
    Prog.run_bind (dirOut_run _ _)]
  rfl

/-- The port's words come in three frames, with the parity and a clock for the turnaround. -/
theorem answer_frames {bits : List Bool} (hlen : bits.length = 32) (parity : Bool) (w : ℕ) (s : σ) :
    ∃ p1 p2, (⟨.rest (bits ++ [parity]) none, w, s⟩ : DebugPort σ).listens R 16 = some (bits.take 16, p1) ∧
      p1.listens R 8 = some ((bits.drop 16).take 8, p2) ∧
      p2.listens R 10 = some (bits.drop 24 ++ [parity, true], ⟨.idle, w, s⟩) := by
  have hfront (xs ys : List Bool) (hx : xs ≠ []) (hy : ys ≠ []) :
      (⟨.rest (xs ++ ys) none, w, s⟩ : DebugPort σ).listens R xs.length =
        some (xs, ⟨.rest ys none, w, s⟩) := by
    obtain ⟨x, xs, rfl⟩ := List.exists_cons_of_ne_nil hx
    obtain ⟨y, ys, rfl⟩ := List.exists_cons_of_ne_nil hy
    exact DebugPort.listens_front x xs y ys none w s
  have hhigh : (bits.take 16).length = 16 := by simp [hlen]
  have hmid : ((bits.drop 16).take 8).length = 8 := by simp [hlen]
  have hlow : (bits.drop 24).length = 8 := by simp [hlen]
  have hne {xs : List Bool} {j : ℕ} (h : xs.length = j + 1) : xs ≠ [] := by
    rintro rfl
    exact absurd h (by simp)
  have hsplit : bits ++ [parity] =
      bits.take 16 ++ ((bits.drop 16).take 8 ++ (bits.drop 24 ++ [parity])) := by
    have hdrop : (bits.drop 16).drop 8 = bits.drop 24 := by rw [List.drop_drop]
    rw [← hdrop, ← List.append_assoc, ← List.append_assoc, List.append_assoc (bits.take 16),
      List.take_append_drop, List.take_append_drop]
  refine ⟨⟨.rest ((bits.drop 16).take 8 ++ (bits.drop 24 ++ [parity])) none, w, s⟩,
    ⟨.rest (bits.drop 24 ++ [parity]) none, w, s⟩, ?_, ?_, ?_⟩
  · rw [hsplit]
    have h := hfront _ ((bits.drop 16).take 8 ++ (bits.drop 24 ++ [parity])) (hne hhigh) (by simp)
    rwa [hhigh] at h
  · have h := hfront _ (bits.drop 24 ++ [parity]) (hne hmid) (by simp)
    rwa [hmid] at h
  · obtain ⟨b, rest, hcons⟩ := List.exists_cons_of_ne_nil (hne hlow)
    have hwhole := DebugPort.listens_answer (R := R) b (rest ++ [parity]) none w s
    have hcount : (rest ++ [parity]).length + 1 = 9 := by
      rw [hcons, List.length_cons] at hlow
      rw [List.length_append, List.length_singleton]
      omega
    rw [hcount] at hwhole
    have hturn : (⟨.turn none, w, s⟩ : DebugPort σ).listens R 1 = some ([true], ⟨.idle, w, s⟩) := rfl
    rw [hcons]
    show (⟨.answer b (rest ++ [parity]) none, w, s⟩ : DebugPort σ).listens R (9 + 1) = _
    rw [DebugPort.listens_append hwhole hturn]
    simp

theorem readPass_taken (hn : n ∈ headers true) (hp : Rests k s p) (hk : ¬ k < R.waits n s)
    (htakes : R.takes n s = true) :
    (swdpReadPass n count).run (sspPort R) (between p) =
      some (.ok (.exit (0, (R.read n s).1, count)), between ⟨.idle, 0, (R.read n s).2⟩) := by
  have hask := hp.request (R := R) hn
  rw [answered, if_neg hk, if_pos htakes, if_pos rfl] at hask
  have hlen : (lsbFirst 32 (R.read n s).1).length = 32 := by simp [lsbFirst]
  obtain ⟨p1, p2, hhigh, hmid, hlow⟩ := answer_frames (R := R) hlen
    (oddOnes (lsbFirst 32 (R.read n s).1)) 0 (R.read n s).2
  rw [swdpReadPass, between, Prog.run_bind (xmit_run hask), Prog.run_bind (dirIn_run _ _),
    Prog.run_bind (ack_run _ _ _ _ _ _ _), if_neg (by decide)]
  rw [Prog.run_bind (dirIn_run _ _), Prog.run_bind (recv_run hhigh)]
  rw [Prog.run_bind (dirIn_run _ _), Prog.run_bind (recv_run hmid)]
  rw [Prog.run_bind (dirIn_run _ _), Prog.run_bind (recv_run hlow)]
  dsimp only
  rw [Prog.run_bind (dirOut_run _ _), revbits_joined _ true hlen, ofLsbFirst_lsbFirst]
  rfl

/-- The driver goes to `again` until the port has put the request off for the last time. -/
theorem loop_settles {α : Type} (pass : Word → Program (Pass Word α)) {waits : ℕ}
    (hpass : ∀ {k p} (count : Word), Rests k s p → k < waits → ∃ p', Rests (k + 1) s p' ∧
      (pass count).run (sspPort R) (between p) = some (.ok (.next (count + 1)), between p'))
    (count : Word) (hp : Rests k s p) (hk : k ≤ waits) {fuel : ℕ} (hfuel : waits < fuel + k) :
    ∃ count' p', Rests waits s p' ∧ ∀ b c,
      (pass count').run (sspPort R) (between p') = some (.ok (.exit b), c) →
        (Prog.loop .waits pass fuel count).run (sspPort R) (between p) = some (.ok b, c) := by
  induction fuel generalizing k count p with
  | zero => omega
  | succ fuel ih =>
    by_cases hlast : k = waits
    · subst hlast
      exact ⟨count, p, hp, fun b c hexit => Prog.run_loop_exit hexit fuel⟩
    · obtain ⟨p1, hp1, hnext⟩ := hpass count hp (by omega)
      obtain ⟨count', p', hp', hrest⟩ := ih (count + 1) hp1 (by omega) (by omega)
      refine ⟨count', p', hp', fun b c hexit => ?_⟩
      rw [Prog.run_loop_next hnext]
      exact hrest b c hexit

end

/-! ### The port and its registers -/

section
variable {s : σ} {w : Wired σ} {fuel : ℕ}

theorem wired_write {hdr : Word} (hn : hdr ∈ headers false) (hw : Rests 0 s w.port)
    (hfuel : R.waits hdr s < fuel) (v : Word) :
    ∃ w', (wired R fuel).swdpWrite hdr v w = (w', (R.target.swdpWrite hdr v s).2) ∧
      Rests 0 (R.target.swdpWrite hdr v s).1 w'.port := by
  obtain ⟨count, p, hp, hloop⟩ := loop_settles (swdpWritePass hdr v)
    (fun _ hp hk => writePass_waits (R := R) hn hp hk) w.countWrWait hw (Nat.zero_le _)
    ((Nat.add_zero fuel).symm ▸ hfuel)
  cases htakes : R.takes hdr s
  · have hrun := hloop _ _ (writePass_faults hn hp (Nat.lt_irrefl _) htakes)
    refine ⟨{ w with countWrWait := count, port := ⟨.turn none, 0, R.fault hdr s⟩ }, ?_, ?_⟩
    · simp only [wired, M3Debug.swdpWrite, hrun, Registers.target, htakes]
      rfl
    · simp only [Registers.target, htakes]
      exact ⟨rfl, rfl, .inr (.inl rfl)⟩
  · have hrun := hloop _ _ (writePass_taken hn hp (Nat.lt_irrefl _) htakes)
    refine ⟨{ w with countWrWait := count, port := ⟨.idle, 0, R.write hdr v s⟩ }, ?_, ?_⟩
    · simp only [wired, M3Debug.swdpWrite, hrun, Registers.target, htakes]
      rfl
    · simp only [Registers.target, htakes]
      exact ⟨rfl, rfl, .inl rfl⟩

theorem wired_read {hdr : Word} (hn : hdr ∈ headers true) (hw : Rests 0 s w.port)
    (hfuel : R.waits hdr s < fuel) :
    ∃ w', (wired R fuel).swdpRead hdr w = (w', (R.target.swdpRead hdr s).2) ∧
      Rests 0 (R.target.swdpRead hdr s).1 w'.port := by
  obtain ⟨count, p, hp, hloop⟩ := loop_settles (swdpReadPass hdr)
    (fun _ hp hk => readPass_waits (R := R) hn hp hk) w.countRdWait hw (Nat.zero_le _)
    ((Nat.add_zero fuel).symm ▸ hfuel)
  cases htakes : R.takes hdr s
  · have hrun := hloop _ _ (readPass_faults hn hp (Nat.lt_irrefl _) htakes)
    refine ⟨{ w with countRdWait := count, port := ⟨.turn none, 0, R.fault hdr s⟩ }, ?_, ?_⟩
    · simp only [wired, M3Debug.swdpRead, hrun, Registers.target, htakes]
      rfl
    · simp only [Registers.target, htakes]
      exact ⟨rfl, rfl, .inr (.inl rfl)⟩
  · have hrun := hloop _ _ (readPass_taken hn hp (Nat.lt_irrefl _) htakes)
    refine ⟨{ w with countRdWait := count, port := ⟨.idle, 0, (R.read hdr s).2⟩ }, ?_, ?_⟩
    · simp only [wired, M3Debug.swdpRead, hrun, Registers.target, htakes]
      rfl
    · simp only [Registers.target, htakes]
      exact ⟨rfl, rfl, .inl rfl⟩

/-! #### The line reset -/

/-- Sixty-four high bits put the port out of step and reset it, if they have not done so before. -/
theorem Rests.high {p : DebugPort σ} (h : Rests 0 s p) :
    ∃ ones s', 50 ≤ ones ∧ R.lineReset s' = R.lineReset s ∧
      p.drives R (List.replicate 64 true) = some ⟨.lost ones, 0, s'⟩ := by
  obtain ⟨phase, waited, regs⟩ := p
  obtain ⟨hwaited, rfl, hphase⟩ := h
  obtain rfl : waited = 0 := hwaited
  have hidle : (⟨.idle, 0, regs⟩ : DebugPort σ).drives R (List.replicate 8 true) =
      some ⟨.lost 8, 0, regs⟩ := rfl
  rcases hphase with hphase | hphase | ⟨ones, hlong, hphase⟩
  · obtain rfl : phase = .idle := hphase
    refine ⟨64, R.lineReset regs, by decide, R.lineReset_twice regs, ?_⟩
    rw [← List.replicate_append_replicate (n := 8) (m := 56), DebugPort.drives_append hidle,
      DebugPort.drives_high, if_pos (by decide), if_pos (by decide)]
  · obtain rfl : phase = .turn none := hphase
    have hturn : (⟨.turn none, 0, regs⟩ : DebugPort σ).drives R [true] = some ⟨.idle, 0, regs⟩ := rfl
    refine ⟨63, R.lineReset regs, by decide, R.lineReset_twice regs, ?_⟩
    rw [← List.replicate_append_replicate (n := 1) (m := 63), List.replicate_one,
      DebugPort.drives_append hturn, ← List.replicate_append_replicate (n := 8) (m := 55),
      DebugPort.drives_append hidle, DebugPort.drives_high, if_pos (by decide), if_pos (by decide)]
  · obtain rfl : phase = .lost ones := hphase
    have hdone : ¬ (ones < 50 ∧ 50 ≤ ones + 64) := by omega
    refine ⟨ones + 64, regs, by omega, rfl, ?_⟩
    rw [DebugPort.drives_high, if_neg hdone, if_neg hdone]

/-- The sixteen bits that tell a target from JTAG to SWD are no request. -/
theorem drives_jtag2swdp {ones : ℕ} (h : 50 ≤ ones) (s : σ) :
    (⟨.lost ones, 0, s⟩ : DebugPort σ).drives R (msbFirst 16 (0b0111100111100111 : Word)) =
      some ⟨.lost 3, 0, s⟩ := by
  have hbits : msbFirst 16 (0b0111100111100111 : Word) = [false] ++ [true, true, true, true, false,
      false, true, true, true, true, false, false, true, true, true] := by decide
  have hfirst : (⟨.lost ones, 0, s⟩ : DebugPort σ).drives R [false] = some ⟨.idle, 0, s⟩ := by
    simp [DebugPort.drives, DebugPort.clock, DebugPort.hear, h]
  rw [hbits, DebugPort.drives_append hfirst]
  rfl

theorem clockOnes_run {p p' : DebugPort σ} (h : p.drives R (List.replicate 64 true) = some p') :
    clockOnes.run (sspPort R) (between p) = some (.ok (), between p') := by
  have hframe {q q' : DebugPort σ} (hq : q.drives R (List.replicate 16 true) = some q')
      (received : List Word) : sspPort R (.writeDr 0xFFFF) ⟨16, true, received, q⟩ =
        some (0, ⟨16, true, received ++ [0xFFFF], q'⟩) := by
    have hones : msbFirst 16 (0xFFFF : Word) = List.replicate 16 true := by decide
    have hback : ofMsbFirst 32 (List.replicate 16 true) = (0xFFFF : Word) := by decide
    simp only [sspPort, Controller.frame, ↓reduceIte, hones, hback, hq, Option.map_some]
  rw [← List.replicate_append_replicate (n := 48) (m := 16)] at h
  obtain ⟨p3, h3, h4⟩ := DebugPort.drives_split h
  rw [← List.replicate_append_replicate (n := 32) (m := 16)] at h3
  obtain ⟨p2, h2, h3⟩ := DebugPort.drives_split h3
  rw [← List.replicate_append_replicate (n := 16) (m := 16)] at h2
  obtain ⟨p1, h1, h2⟩ := DebugPort.drives_split h2
  apply (Prog.run_call (hframe h1 []) _).trans
  apply (Prog.run_call (hframe h2 _) _).trans
  apply (Prog.run_call (hframe h3 _) _).trans
  exact (Prog.run_call (hframe h4 _) _).trans rfl

theorem wired_reset (hw : Rests 0 s w.port) :
    Rests 0 (R.target.swdpReset s) ((wired R fuel).swdpReset w).port := by
  obtain ⟨ones, s', hlong, hsame, hhigh⟩ := hw.high (R := R)
  have hlost : (⟨.lost 3, 0, s'⟩ : DebugPort σ).drives R (List.replicate 64 true) =
      some ⟨.lost 67, 0, R.lineReset s'⟩ := by
    rw [DebugPort.drives_high, if_pos (by decide), if_pos (by decide)]
  have hrun : swdpReset.run (sspPort R) (between w.port) =
      some (.ok (), between ⟨.lost 67, 0, R.lineReset s'⟩) := by
    rw [swdpReset, Prog.run_bind (dirOut_run _ _)]
    apply (Prog.run_bind (clockOnes_run hhigh) _).trans
    apply (Prog.run_bind (xmit_run (drives_jtag2swdp hlong s')) _).trans
    exact clockOnes_run hlost
  simp only [wired, hrun]
  exact ⟨rfl, hsame, .inr (.inr ⟨67, by decide, rfl⟩)⟩

/-! #### Acts -/

/-- A read that asks to read, a write that asks to write. -/
def Directed : Act → Prop
  | .read hdr => hdr ∈ headers true
  | .write hdr _ => hdr ∈ headers false
  | .lineReset => True

instance : DecidablePred Directed
  | .read hdr => inferInstanceAs (Decidable (hdr ∈ headers true))
  | .write hdr _ => inferInstanceAs (Decidable (hdr ∈ headers false))
  | .lineReset => .isTrue trivial

variable (hfuel : ∀ hdr s, R.waits hdr s < fuel)
include hfuel

theorem wired_act {a : Act} (ha : Directed a) (hw : Rests 0 s w.port) :
    ∃ w', (wired R fuel).act w a = (w', (R.target.act s a).2) ∧
      Rests 0 (R.target.act s a).1 w'.port := by
  cases a with
  | read hdr => exact wired_read ha hw (hfuel hdr s)
  | write hdr v =>
    obtain ⟨w', hrun, hrests⟩ := wired_write ha hw (hfuel hdr s) v
    refine ⟨w', ?_, hrests⟩
    simp only [SwdTarget.act, hrun]
  | lineReset => exact ⟨_, rfl, wired_reset hw⟩

theorem wired_acts {as : List Act} (has : ∀ a ∈ as, Directed a) (hw : Rests 0 s w.port) :
    ∃ w', (wired R fuel).acts as w = ⟨w', (R.target.acts as s).values, (R.target.acts as s).ok⟩ ∧
      Rests 0 (R.target.acts as s).target w'.port := by
  induction as generalizing s w with
  | nil => exact ⟨w, rfl, hw⟩
  | cons a as ih =>
    obtain ⟨w1, hfirst, hw1⟩ := wired_act hfuel (has a (List.mem_cons_self ..)) hw
    obtain ⟨w', hrest, hw'⟩ := ih (fun a' ha' => has a' (List.mem_cons_of_mem _ ha')) hw1
    simp only [SwdTarget.acts, hfirst, hrest]
    by_cases hok : (R.target.act s a).2.2
    · exact ⟨w', by simp only [if_pos hok], by simpa only [if_pos hok] using hw'⟩
    · exact ⟨w1, by simp only [if_neg hok], by simpa only [if_neg hok] using hw1⟩

/-! ### Transactions -/

omit hfuel

/-- The same probe with the target `t`. -/
def deviceOver {τ : Type} (d : Device σ) (t : τ) : Device τ :=
  { target := t, ram := d.ram, resetN := d.resetN, swdpTrace := d.swdpTrace, usb := d.usb,
    unknown := d.unknown }

def sessionOver {τ : Type} (s : Session σ) (t : τ) : Session τ :=
  { tx := s.tx, func := s.func, dev := deviceOver s.dev t }

theorem effect_over {τ : Type} (fw : Firmware) (s : Session σ) (t : τ) (m : Msg) :
    m.effect fw (sessionOver s t) = sessionOver (m.effect fw s) t := by
  cases m with
  | bootloader =>
    simp only [Msg.effect]
    by_cases hclock : fw.hasClock = true
    · rw [if_pos hclock, if_pos hclock]
      rfl
    · rw [if_neg hclock, if_neg hclock]
      rfl
  | setClock khz =>
    simp only [Msg.effect]
    by_cases hclock : fw.hasClock = true
    · rw [if_pos hclock, if_pos hclock]
      rfl
    · rw [if_neg hclock, if_neg hclock]
      rfl
  | _ => rfl

/-- What the messages ask of the target is asked the right way round. -/
def AllDirected (ms : List Msg) : Prop := ∀ m ∈ ms, ∀ a ∈ m.acts, Directed a

include hfuel

theorem serve_over (fw : Firmware) {m : Msg} (hm : ∀ a ∈ m.acts, Directed a) {s : Session σ}
    (hw : Rests 0 s.dev.target w.port) :
    ∃ w', m.serve fw (wired R fuel) (sessionOver s w) =
        (sessionOver (m.serve fw R.target s).1 w', (m.serve fw R.target s).2) ∧
      Rests 0 (m.serve fw R.target s).1.dev.target w'.port := by
  obtain ⟨w', hacts, hw'⟩ := wired_acts hfuel hm hw
  refine ⟨w', ?_, ?_⟩
  · have hdev : (sessionOver s w).dev.target = w := rfl
    simp only [Msg.serve, hdev, hacts]
    exact congrArg (·, _) (effect_over fw { s.setTarget (R.target.acts m.acts s.dev.target).target with
      tx := s.tx ++ m.reply (R.target.acts m.acts s.dev.target).values } w' m)
  · rw [serve_target]
    exact hw'

theorem serveAll_over (fw : Firmware) {ms : List Msg} (hms : AllDirected ms) {s : Session σ}
    (hw : Rests 0 s.dev.target w.port) :
    ∃ w', serveAll fw (wired R fuel) ms (sessionOver s w) =
        (sessionOver (serveAll fw R.target ms s).1 w', (serveAll fw R.target ms s).2) ∧
      Rests 0 (serveAll fw R.target ms s).1.dev.target w'.port := by
  induction ms generalizing s w with
  | nil => exact ⟨w, rfl, hw⟩
  | cons m ms ih =>
    obtain ⟨w1, hfirst, hw1⟩ := serve_over hfuel fw (hms m (List.mem_cons_self ..)) hw
    obtain ⟨w', hrest, hw'⟩ := ih (fun m' hm' => hms m' (List.mem_cons_of_mem _ hm')) hw1
    simp only [serveAll, hfirst]
    by_cases hgoes : (m.serve fw R.target s).2 = 0
    · exact ⟨w', by simp only [if_pos hgoes, hrest], by simpa only [if_pos hgoes] using hw'⟩
    · exact ⟨w1, by simp only [if_neg hgoes], by simpa only [if_neg hgoes] using hw1⟩

theorem started_over (fw : Firmware) {ms : List Msg} (hms : AllDirected ms)
    (hw : Rests 0 s w.port) : started fw (wired R fuel) ms w = started fw R.target ms s := by
  induction ms generalizing s w with
  | nil => rfl
  | cons m ms ih =>
    obtain ⟨w1, hacts, hw1⟩ := wired_acts hfuel (hms m (List.mem_cons_self ..)) hw
    simp only [started, hacts]
    rw [ih (fun m' hm' => hms m' (List.mem_cons_of_mem _ hm')) hw1]

/-- `process_txn` over the line, the driver's frames and the debug port at the other end, and
`process_txn` over the registers themselves send the same reply and leave the same registers and
the same probe, whatever the requests are put off with WAIT or refused with FAULT. -/
theorem transactions_over_wire (fw : Firmware) (f : ℕ) (txnid : Word) (rx : ℕ → Word) (rxp : ℕ) (rxc : ℤ)
    (hf : rxc.toNat < f) (hms : AllDirected (requests rx rxc.toNat rxp rxc)) (dev : Device σ)
    (hw : Rests 0 dev.target w.port) {s : TxnState σ}
    (hs : processTxn fw R.target f txnid rx rxp rxc dev = some s) :
    ∃ s' w', processTxn fw (wired R fuel) f txnid rx rxp rxc (deviceOver dev w) = some s' ∧
      s'.toSession = sessionOver s.toSession w' ∧ Rests 0 s.dev.target w'.port := by
  obtain ⟨r, rfl, hR⟩ := processTxn_some fw R.target f txnid rx rxp rxc dev s hs
  have hd : ¬ startsDownload fw R.target (requests rx rxc.toNat rxp rxc) dev.target := by
    intro hd
    rw [processTxn_diverges fw R.target txnid rx rxp rxc dev hd] at hs
    exact absurd hs (by simp)
  have hd' : ¬ startsDownload fw (wired R fuel) (requests rx rxc.toNat rxp rxc)
      (deviceOver dev w).target := by
    have hsame := started_over hfuel fw hms hw
    rintro ⟨m, hm, hdl⟩
    exact hd ⟨m, hsame ▸ hm, hdl⟩
  obtain ⟨r', hrun, hR'⟩ := processTxn_serves fw (wired R fuel) txnid rx rxp rxc (deviceOver dev w) hd' f hf
  obtain ⟨w', hserve, hw'⟩ := serveAll_over hfuel fw hms
    (s := (txnStart txnid rxp rxc dev).toSession) hw
  have hstart : (txnStart txnid rxp rxc (deviceOver dev w)).toSession =
      sessionOver (txnStart txnid rxp rxc dev).toSession w := rfl
  have hsession : r'.2.toSession = sessionOver r.2.toSession w' := by
    rw [hR'.session, hstart, hserve, hR.session]
  have hstatus : r'.1 = r.1 := by rw [hR'.status, hstart, hserve, hR.status]
  have hcount : r'.2.count = r.2.count := by
    rw [hR'.count, hstart, hserve, hR.count]
    rfl
  refine ⟨_, w', hrun, ?_, ?_⟩
  · have htx : r'.2.tx = r.2.tx := congrArg Session.tx hsession
    have hfunc : r'.2.func = r.2.func := congrArg Session.func hsession
    have hdev : r'.2.dev = deviceOver r.2.dev w' := congrArg Session.dev hsession
    simp only [txnDone, hstatus, hcount, htx, hfunc, hdev]
    rfl
  · show Rests 0 r.2.dev.target w'.port
    rw [hR.session]
    exact hw'

end

/-! ### A MEM-AP behind the port -/

/-- The MEM-AP takes every request, after as many WAITs as it likes. -/
def memApRegisters (waits : Word → MemAp → ℕ) : Registers MemAp where
  waits := waits
  takes _ _ := true
  read hdr m := ((memAp.swdpRead hdr m).2.1, (memAp.swdpRead hdr m).1)
  write hdr v m := (memAp.swdpWrite hdr v m).1
  fault _ m := m
  lineReset m := m
  lineReset_twice _ := rfl

theorem memApRegisters_target (waits : Word → MemAp → ℕ) : (memApRegisters waits).target = memAp := by
  have hread (hdr : Word) (m : MemAp) : (memAp.swdpRead hdr m).2.2 = true :=
    memAp_act_ok m (.read hdr)
  have hwrite (hdr v : Word) (m : MemAp) : (memAp.swdpWrite hdr v m).2 = true :=
    memAp_act_ok m (.write hdr v)
  have hreads : (memApRegisters waits).target.swdpRead = memAp.swdpRead := by
    funext hdr m
    show ((memAp.swdpRead hdr m).1, (memAp.swdpRead hdr m).2.1, true) = _
    rw [← hread hdr m]
  have hwrites : (memApRegisters waits).target.swdpWrite = memAp.swdpWrite := by
    funext hdr v m
    show ((memAp.swdpWrite hdr v m).1, true) = _
    rw [← hwrite hdr v m]
  calc (memApRegisters waits).target
      = ⟨(memApRegisters waits).target.swdpRead, (memApRegisters waits).target.swdpWrite, fun m => m⟩ := rfl
    _ = ⟨memAp.swdpRead, memAp.swdpWrite, fun m => m⟩ := by rw [hreads, hwrites]
    _ = memAp := rfl

/-- A line reset, `SELECT` and `TAR` written, a word read and its `RDBUFF` fetched. -/
def peekWords : List Word :=
  [rswdTxnStart 1, rswdMsg cmdAttach 0 0, rswdMsg cmdSwdWrite 9 1, 0, rswdMsg cmdSwdWrite 7 1, 0x20000000,
    rswdMsg cmdSwdDiscard 14 1, rswdMsg cmdSwdRead 12 1]

def peekDevice : Device MemAp where
  target := { select := 7, csw := 0, tar := 0, rdbuff := 0, mem := fun addr => addr + 1, log := [] }
  ram := []
  resetN := true
  swdpTrace := 0
  usb := []
  unknown := []

/-- Every read of a register waits twice. -/
def slowPort : Registers MemAp := memApRegisters fun hdr _ => if hdr = rdBuffer then 2 else 0

theorem transactions_over_wire_peek : ∃ s' w',
    processTxn m3debug (wired slowPort 3) 8 (rswdTxnStart 1) (fun i => peekWords.getD i 0) 1 7
        (deviceOver peekDevice ⟨0, 0, ⟨.idle, 0, peekDevice.target⟩⟩) = some s' ∧
      s'.tx = [rswdTxnStart 1, rswdMsg cmdSwdData 0 1, 0x20000001, rswdMsg cmdStatus 0 5] ∧
      w' = s'.dev.target ∧ w'.port.regs.tar = 0x20000000 := by
  have hwaits : ∀ hdr s, slowPort.waits hdr s < 3 := by
    intro hdr s
    show (if hdr = rdBuffer then 2 else 0) < 3
    split <;> decide
  have hdirected : AllDirected (requests (fun i => peekWords.getD i 0) (7 : ℤ).toNat 1 7) := by
    unfold AllDirected
    decide
  obtain ⟨s', w', hrun, hsession, hrests⟩ := transactions_over_wire (R := slowPort) hwaits m3debug 8
    (rswdTxnStart 1) (fun i => peekWords.getD i 0) 1 7 (by decide) hdirected peekDevice
    (w := ⟨0, 0, ⟨.idle, 0, peekDevice.target⟩⟩) ⟨rfl, rfl, .inl rfl⟩ rfl
  refine ⟨s', w', hrun, congrArg Session.tx hsession, ?_, ?_⟩
  · exact (congrArg (fun s : Session (Wired MemAp) => s.dev.target) hsession).symm
  · rw [hrests.regs]
    rfl

end M3Dev.SwdPort
