import M3Dev.FlashStation

/-! The calls of `run_flash_agent` on a target: its core's registers, a function of the agent's called,
and what is done before the agent is there. -/
namespace M3Dev.Flash
open CallTree WhileLoop ByteBlock Tools

section
variable {m : Setting} {s : Station}

/-! ### The core's registers -/

/-- A register as the debugger sets it. -/
def Station.setReg (s : Station) (n : ℕ) (v : Word) : Station :=
  { s with dcrdr := v, regs := if s.halted then Function.update s.regs n v else s.regs }

theorem transfer_write {n : ℕ} (hn : n < 32) (s : Station) :
    s.transfer ((BitVec.ofNat 32 n &&& 0x1F) ||| 0x10000) =
      { s with regs := if s.halted then Function.update s.regs n s.dcrdr else s.regs } := by
  have hwrite : ((BitVec.ofNat 32 n &&& 0x1F) ||| 0x10000).getLsbD 16 = true := by
    interval_cases n
    all_goals rfl
  have hnumber : (((BitVec.ofNat 32 n &&& 0x1F) ||| 0x10000) &&& 0x1F).toNat = n := by
    interval_cases n
    all_goals rfl
  obtain ⟨target, regs, dcrdr, csr, halted, loaded, passed, attns⟩ := s
  cases halted with
  | false => rfl
  | true =>
    rw [Station.transfer, if_neg (show ¬ true = false by decide), if_pos hwrite, hnumber]
    rfl

theorem transfer_read {n : ℕ} (hn : n < 32) (hs : s.halted = true) :
    s.transfer (BitVec.ofNat 32 n &&& 0x1F) = { s with dcrdr := s.regs n } := by
  have hread : (BitVec.ofNat 32 n &&& 0x1F : Word).getLsbD 16 = false := by
    interval_cases n
    all_goals rfl
  have hnumber : ((BitVec.ofNat 32 n &&& 0x1F) &&& 0x1F : Word).toNat = n := by
    interval_cases n
    all_goals rfl
  rw [Station.transfer, hs, if_neg (by decide), hread, if_neg (by decide), hnumber]

theorem coreWrite_run {x : Word} {n : ℕ} (hx : x = BitVec.ofNat 32 n) (hn : n < 32) (v : Word) (s : Station) :
    (swdpCoreWrite x v).run (stationSwdp m) s = some (.ok 0, s.setReg n v) := by
  subst hx
  have haccess : (s.access m [.write cdbgRegData v, .write cdbgRegAddr ((BitVec.ofNat 32 n &&& 0x1F) ||| 0x10000)]
      0 fun _ => 0).2 = s.setReg n v := by
    show ({ s with dcrdr := v } : Station).transfer _ = _
    rw [transfer_write hn]
    rfl
  rw [← haccess]
  rfl

theorem coreRead_run {x : Word} {n : ℕ} (hx : x = BitVec.ofNat 32 n) (hn : n < 32) (old : Word)
    (hs : s.halted = true) : (swdpCoreRead x old).run (stationSwdp m) s =
      some (.ok (0, s.regs n), { s with dcrdr := s.regs n }) := by
  subst hx
  have haccess : s.access m (coreReadOps (BitVec.ofNat 32 n)) 0 (fun _ => old) =
      (Function.update (fun _ => old) 0 (s.regs n), { s with dcrdr := s.regs n }) := by
    show ((Function.update (fun _ => old) 0 ((s.transfer (BitVec.ofNat 32 n &&& 0x1F)).read cdbgRegData) :
      ℕ → Word), s.transfer _) = _
    rw [transfer_read hn hs]
    rfl
  show some (Except.ok (0, (s.access m (coreReadOps (BitVec.ofNat 32 n)) 0 fun _ => old).1 0),
    (s.access m (coreReadOps (BitVec.ofNat 32 n)) 0 fun _ => old).2) = _
  rw [haccess]
  rfl

/-- The registers are set for a function of the agent's, if the core is halted. -/
structure Prepared (s s' : Station) (agent func a0 a1 a2 : Word) : Prop where
  target : s'.target = s.target
  halted : s'.halted = s.halted
  loaded : s'.loaded = s.loaded
  passed : s'.passed = s.passed
  regs : s.halted = true → s'.regs 0 = a0 ∧ s'.regs 1 = a1 ∧ s'.regs 2 = a2 ∧ s'.regs 14 = agent ||| 1 ∧
    s'.regs 15 = func ||| 1

theorem invokeRegs_run (s : Station) (agent func a0 a1 a2 a3 : Word) :
    ∃ s', (invokeRegs agent func a0 a1 a2 a3).run (stationSwdp m) s = some (.ok (), s') ∧
      Prepared s s' agent func a0 a1 a2 := by
  let s1 := ((((((s.setReg 0 a0).setReg 1 a1).setReg 2 a2).setReg 3 a3).setReg 13 (agent - 4)).setReg 14
    (agent ||| 1)).setReg 15 (func ||| 1)
  refine ⟨s1.setReg 16 0x01000000, ?_, ?_⟩
  · have haircr : (swdpAhbWrite aircr 0x05FA0002).run (stationSwdp m) s1 = some (.ok 0, s1) := rfl
    have hset (x : Word) (n : ℕ) (hx : x = BitVec.ofNat 32 n) (hn : n < 32) (v : Word) (s : Station) :
        (swdpCoreWrite x v).run (stationSwdp m) s = some (.ok 0, s.setReg n v) := coreWrite_run hx hn v s
    rw [invokeRegs, Prog.run_bind (hset 0 0 rfl (by decide) _ _), Prog.run_bind (hset 1 1 rfl (by decide) _ _),
      Prog.run_bind (hset 2 2 rfl (by decide) _ _), Prog.run_bind (hset 3 3 rfl (by decide) _ _),
      Prog.run_bind (hset 13 13 rfl (by decide) _ _), Prog.run_bind (hset 14 14 rfl (by decide) _ _),
      Prog.run_bind (hset 15 15 rfl (by decide) _ _), Prog.run_bind haircr,
      Prog.run_bind (hset 16 16 rfl (by decide) _ _)]
    rfl
  · refine ⟨rfl, rfl, rfl, rfl, ?_⟩
    intro hs
    simp [s1, Station.setReg, hs, Function.update]

/-! ### A function of the agent's, called from the host -/

theorem readCsr_halt (s : Station) : s.readCsr.getLsbD 1 = s.halted := by
  obtain ⟨target, regs, dcrdr, csr, halted, loaded, passed, attns⟩ := s
  cases halted
  all_goals simp [Station.readCsr]

theorem readCsr_shalt (s : Station) : s.readCsr &&& cdbgSHalt ≠ 0 ↔ s.halted = true := by
  have hbit : (s.readCsr &&& cdbgSHalt).getLsbD 17 = s.halted := by
    obtain ⟨target, regs, dcrdr, csr, halted, loaded, passed, attns⟩ := s
    cases halted
    all_goals simp [Station.readCsr]
  constructor
  · intro hne
    by_contra hrun
    apply hne
    obtain ⟨target, regs, dcrdr, csr, halted, loaded, passed, attns⟩ := s
    obtain rfl : halted = false := by simpa using hrun
    show ((csr &&& (cdbgCMaskints ||| cdbgCDebugen)) ||| 0#32) &&& cdbgSHalt = 0
    rw [BitVec.or_zero, BitVec.and_assoc]
    exact BitVec.and_zero
  · intro hs hzero
    rw [hzero, hs] at hbit
    exact absurd hbit (by decide)

theorem ahbRead_csr (s : Station) (old : Word) :
    (swdpAhbRead cdbgCsr old).run (stationSwdp m) s = some (.ok (0, s.readCsr), s) := rfl

theorem ahbWrite_csr (s : Station) (v : Word) :
    (swdpAhbWrite cdbgCsr v).run (stationSwdp m) s = some (.ok 0, s.writeCsr m v) := rfl

/-- The state of the core stays as it is. -/
theorem writeCsr_keep {v : Word} (hv : v.getLsbD 1 = s.halted) : s.writeCsr m v = { s with csr := v } := by
  obtain ⟨target, regs, dcrdr, csr, halted, loaded, passed, attns⟩ := s
  obtain rfl : v.getLsbD 1 = halted := hv
  unfold Station.writeCsr
  cases v.getLsbD 1
  · rfl
  · rfl

/-- A core that is halted goes on. -/
def Station.resumed (m : Setting) (s : Station) : Station := if s.halted then s.runs m else s

theorem coreResume_run (n : ℤ) (s : Station) : ∃ v, (swdpCoreResume n).run (stationSwdp m) s =
    some (.ok 0, Station.resumed m { s with csr := v }) := by
  have hgo (x : Word) (v : Word) : Prog.run (stationSwdp m) (swdpAhbWrite cdbgCsr
      (x &&& ~~~(cdbgCHalt ||| cdbgCStep))) { s with csr := v } =
        some (.ok 0, Station.resumed m { s with csr := x &&& ~~~(cdbgCHalt ||| cdbgCStep) }) := by
    have hbit : (x &&& ~~~(cdbgCHalt ||| cdbgCStep)).getLsbD 1 = false := by simp
    rw [ahbWrite_csr]
    simp only [Station.writeCsr, hbit]
    rfl
  have hkept (v : Word) (hv : v.getLsbD 1 = s.halted) : (swdpAhbWrite cdbgCsr v).run (stationSwdp m) s =
      some (.ok 0, { s with csr := v }) := by rw [ahbWrite_csr, writeCsr_keep hv]
  have hx : (csrKept s.readCsr ||| (cdbgCsrKey ||| cdbgCDebugen)).getLsbD 1 = s.halted := by
    rw [← readCsr_halt s]
    simp [csrKept]
  have hset : ((csrKept s.readCsr ||| (cdbgCsrKey ||| cdbgCDebugen)) ||| cdbgCMaskints).getLsbD 1 = s.halted := by
    rw [← hx]
    simp
  have hclear : ((csrKept s.readCsr ||| (cdbgCsrKey ||| cdbgCDebugen)) &&& ~~~cdbgCMaskints).getLsbD 1 =
      s.halted := by
    rw [← hx]
    simp
  rw [swdpCoreResume, Prog.run_bind (ahbRead_csr s 0)]
  dsimp only
  rw [if_neg (by decide)]
  split
  · split
    · rw [Prog.run_bind (hkept _ hset)]
      exact ⟨_, hgo _ _⟩
    · exact ⟨_, hgo _ s.csr⟩
  · split
    · rw [Prog.run_bind (hkept _ hclear)]
      exact ⟨_, hgo _ _⟩
    · exact ⟨_, hgo _ s.csr⟩

theorem repeatPasses_eq_loop {α β : Type} (body : α → HostProg (Pass α β)) (fuel : ℕ) (a : α) :
    repeatPasses body fuel a = Prog.loop .spins body fuel a := by
  induction fuel generalizing a with
  | zero => rfl
  | succ fuel ih =>
    rw [repeatPasses, Prog.loop]
    congr 1
    funext p
    cases p with
    | next a' => exact ih a'
    | exit b => rfl

/-- The wait is over with 0 only where the core has halted. -/
theorem waitForHalt_meets (fuel : ℕ) (s : Station) : (swdpCoreWaitForHalt fuel).Meets (stationSwdp m) s
    fun r s' => (∃ n, s' = { s with attns := n }) ∧ (r = 0 → s.halted = true) := by
  rw [swdpCoreWaitForHalt, repeatPasses_eq_loop]
  apply Prog.Meets.loop fun _ s' => ∃ n, s' = { s with attns := n }
  · rintro _ s1 ⟨n, rfl⟩
    rw [waitForHaltPass]
    apply Prog.Meets.run_bind (ahbRead_csr _ 0)
    dsimp only
    rw [if_neg (by decide)]
    apply Prog.Meets.ite
    · intro hhalt
      apply Prog.Meets.exit
      exact ⟨⟨n, rfl⟩, fun _ => (readCsr_shalt _).mp hhalt⟩
    · intro _
      apply Prog.Meets.ask
      intro a s2 hattn
      obtain ⟨rfl, rfl⟩ := Prod.mk.inj (Option.some.inj hattn)
      apply Prog.Meets.ite
      · intro _
        apply Prog.Meets.exit
        exact ⟨⟨n + 1, rfl⟩, fun h => absurd h (by decide)⟩
      · intro _
        exact Prog.Meets.next ⟨n + 1, rfl⟩
  · exact ⟨s.attns, rfl⟩

/-- The region of a call, if one is passed, is on record. -/
def Logged (s s' : Station) (region : List (Word × Word)) : Prop :=
  s'.passed = s.passed ∨ s'.passed = s.passed ++ region

/-- What a call that gives 0 means: the function was run on the target, and returned 0. -/
structure Called (m : Setting) (p : IoProg ℤ) (region : List (Word × Word)) (s s' : Station) : Prop where
  ran : ∃ r, p.run m.agent.chip s.target = some (.ok r, s'.target) ∧ r0 r = 0
  halted : s'.halted = true
  loaded : s'.loaded = true
  passed : s'.passed = s.passed ++ region

/-- A function that the registers are set for. -/
def Calls (m : Setting) (func a0 a1 a2 : Word) (p : IoProg ℤ) (region : List (Word × Word)) : Prop :=
  ∀ regs : ℕ → Word, regs 0 = a0 → regs 1 = a1 → regs 2 = a2 → regs 15 = func ||| 1 →
    Station.function m regs = some (p, region)

theorem invokeStatus_run (agent : Word) (hs : s.halted = true) : ∃ s', (invokeStatus agent).run (stationSwdp m) s =
    some (.ok (if s.regs 15 ≠ agent then -1 else (s.regs 0).toInt), s') ∧ s'.target = s.target ∧
      s'.halted = true ∧ s'.loaded = s.loaded ∧ s'.passed = s.passed := by
  have h0 : (swdpCoreRead 0 0xFFFFFFFF).run (stationSwdp m) s = _ := coreRead_run (n := 0) rfl (by decide) _ hs
  have h15 : (swdpCoreRead 15 0xFFFFFFFF).run (stationSwdp m) { s with dcrdr := s.regs 0 } = _ :=
    coreRead_run (n := 15) rfl (by decide) _ hs
  refine ⟨{ s with dcrdr := s.regs 15 }, ?_, rfl, hs, rfl, rfl⟩
  rw [invokeStatus, Prog.run_bind h0, Prog.run_bind h15]
  dsimp only
  split
  · rfl
  · rfl

variable {cfg : Settings} {func a0 a1 a2 a3 : Word} {p : IoProg ℤ} {region : List (Word × Word)}

/-- The core goes on in the function, and comes back or does not. -/
theorem runs_function (hloaded : s.loaded = true) (hlr : s.regs 14 = m.file.loadAddr ||| 1)
    (hfun : Station.function m s.regs = some (p, region)) :
    (s.runs m).passed = s.passed ++ region ∧ ((s.runs m).halted = true → s.halted = true →
      ∃ r, p.run m.agent.chip s.target = some (.ok r, (s.runs m).target) ∧ (s.runs m).loaded = true ∧
        (s.runs m).regs 0 = r0 r ∧ (s.runs m).regs 15 = m.file.loadAddr) := by
  rw [Station.runs, if_pos ⟨hloaded, hlr⟩, hfun]
  dsimp only
  split
  next rc t hrun => exact ⟨rfl, fun _ _ => ⟨rc, hrun, hloaded, rfl, rfl⟩⟩
  · exact ⟨rfl, fun h => Bool.noConfusion h⟩

theorem invoke_meets (cfg : Settings) (fuel : ℕ) (a3 : Word) (hcalls : Calls m func a0 a1 a2 p region) (hloaded : s.loaded = true) :
    (invoke cfg fuel m.file.loadAddr func a0 a1 a2 a3).Meets (stationSwdp m) s
      fun rc s' => Logged s s' region ∧ (rc = 0 → Called m p region s s') := by
  -- the registers are written, the core goes on, and its halt is waited for
  obtain ⟨s1, hregs, hprep⟩ := invokeRegs_run (m := m) s m.file.loadAddr func a0 a1 a2 a3
  obtain ⟨v, hresume⟩ := coreResume_run (m := m) cfg.swdpStepNoInts s1
  rw [invoke]
  apply Prog.Meets.run_bind hregs
  apply Prog.Meets.run_bind hresume
  apply (waitForHalt_meets fuel _).bind
  rintro r s3 ⟨⟨n, rfl⟩, hhalt⟩
  generalize hgo : ({ s1 with csr := v } : Station) = s2 at hhalt ⊢
  have htarget : s2.target = s.target := by
    rw [← hgo]
    exact hprep.target
  have hpass : s2.passed = s.passed := by
    rw [← hgo]
    exact hprep.passed
  have hload : s2.loaded = true := by
    rw [← hgo]
    exact hprep.loaded.trans hloaded
  have hregs2 : s2.regs = s1.regs := by rw [← hgo]
  by_cases hs : s2.halted = true
  · -- the core was halted, so the registers hold the call and it runs
    have hs1 : s.halted = true := by
      rw [← hgo] at hs
      exact hprep.halted.symm.trans hs
    obtain ⟨h0, h1, h2, h14, h15⟩ := hprep.regs hs1
    rw [← hregs2] at h0 h1 h2 h14 h15
    obtain ⟨hpassed, hback⟩ := runs_function hload h14 (hcalls _ h0 h1 h2 h15)
    rw [hpass] at hpassed
    rw [htarget] at hback
    rw [Station.resumed, if_pos hs] at hhalt ⊢
    apply Prog.Meets.ite
    · intro hr
      obtain ⟨rc, hrun, hloaded', hreg0, hreg15⟩ := hback (hhalt hr) hs
      obtain ⟨s4, hstatus, htarget4, hhalted4, hload4, hpass4⟩ := invokeStatus_run (m := m)
        (s := { s2.runs m with attns := n }) m.file.loadAddr (hhalt hr)
      constructor
      intro b s' hb
      rw [hstatus] at hb
      obtain ⟨hok, rfl⟩ := Prod.mk.inj (Option.some.inj hb)
      obtain rfl := Except.ok.inj hok
      refine ⟨.inr (hpass4.trans hpassed), ?_⟩
      intro hzero
      refine ⟨⟨rc, ?_, ?_⟩, hhalted4, hload4.trans hloaded', hpass4.trans hpassed⟩
      · rw [htarget4]
        exact hrun
      · have hreg : (if (s2.runs m).regs 15 ≠ m.file.loadAddr then -1 else ((s2.runs m).regs 0).toInt : ℤ) = 0 :=
          hzero
        rw [if_neg (not_not_intro hreg15), hreg0] at hreg
        exact BitVec.eq_of_toInt_eq (hreg.trans BitVec.toInt_zero.symm)
    · intro _
      apply Prog.Meets.ret
      exact ⟨.inr hpassed, fun h => absurd h (by decide)⟩
  · -- a core that runs on does not halt, and the wait for it ends without success
    rw [Station.resumed, if_neg hs] at hhalt ⊢
    rw [if_neg fun hr => hs (hhalt hr)]
    apply Prog.Meets.ret
    exact ⟨.inl hpass, fun h => absurd h (by decide)⟩

/-! ### Before the agent is there -/

variable {s' s'' : Station}

/-- The agent's code is not in place, and none of its functions has been called since. -/
structure Unloaded (s s' : Station) : Prop where
  loaded : s'.loaded = false
  passed : s'.passed = s.passed

theorem Unloaded.trans (h : Unloaded s s') (h' : Unloaded s' s'') : Unloaded s s'' :=
  ⟨h'.loaded, h'.passed.trans h.passed⟩

theorem runs_unloaded (hs : s.loaded = false) : Unloaded s (s.runs m) := by
  have hnone : ¬ (s.loaded = true ∧ s.regs 14 = m.file.loadAddr ||| 1) := by
    rw [hs]
    exact fun h => Bool.noConfusion h.1
  rw [Station.runs, if_neg hnone]
  cases m.rom s.target s.regs with
  | none => exact ⟨rfl, rfl⟩
  | some r => exact ⟨rfl, rfl⟩

theorem writeCsr_unloaded (hs : s.loaded = false) (v : Word) : Unloaded s (s.writeCsr m v) := by
  have hsame : Unloaded s { s with csr := v } := ⟨hs, rfl⟩
  have hruns := hsame.trans (runs_unloaded (m := m) hsame.loaded)
  have hhalted : Unloaded s { s with csr := v, halted := true } := ⟨hs, rfl⟩
  rw [Station.writeCsr]
  dsimp only
  split
  · exact hhalted
  split
  · exact hruns
  · exact hsame

theorem transfer_unloaded (hs : s.loaded = false) (v : Word) : Unloaded s (s.transfer v) := by
  rw [Station.transfer]
  split
  · exact ⟨hs, rfl⟩
  split
  · exact ⟨hs, rfl⟩
  · exact ⟨hs, rfl⟩

theorem write_unloaded (hs : s.loaded = false) (addr v : Word) : Unloaded s (s.write m addr v) := by
  rw [Station.write]
  split
  · exact writeCsr_unloaded hs v
  split
  · exact ⟨hs, rfl⟩
  split
  · exact transfer_unloaded hs v
  split
  · exact ⟨rfl, rfl⟩
  split
  · exact ⟨hs, rfl⟩
  · exact ⟨rfl, rfl⟩

theorem access_unloaded (ops : List AhbOp) (i : ℕ) (buf : ℕ → Word) (hs : s.loaded = false) :
    Unloaded s (s.access m ops i buf).2 := by
  induction ops generalizing i buf s with
  | nil => exact ⟨hs, rfl⟩
  | cons op ops ih =>
    cases op with
    | write addr value =>
      have hwrite := write_unloaded (m := m) hs addr value
      exact hwrite.trans (ih i buf hwrite.loaded)
    | read addr => exact ih (i + 1) _ hs

theorem resumed_unloaded (hs : s.loaded = false) : Unloaded s (Station.resumed m s) := by
  rw [Station.resumed]
  split
  · exact runs_unloaded hs
  · exact ⟨hs, rfl⟩

theorem coreHalt_run (s : Station) : ∃ v, swdpCoreHalt.run (stationSwdp m) s =
    some (.ok 0, { s with csr := v, halted := true }) := by
  have hbit : (csrKept s.readCsr ||| (cdbgCsrKey ||| cdbgCDebugen ||| cdbgCHalt)).getLsbD 1 = true := by simp
  refine ⟨csrKept s.readCsr ||| (cdbgCsrKey ||| cdbgCDebugen ||| cdbgCHalt), ?_⟩
  rw [swdpCoreHalt, Prog.run_bind (ahbRead_csr s 0)]
  dsimp only
  rw [if_neg (by decide), ahbWrite_csr, Station.writeCsr]
  simp only [hbit]
  rfl

theorem doStop_unloaded (hs : s.loaded = false) : doStop.Meets (stationSwdp m) s fun _ s' => Unloaded s s' := by
  obtain ⟨v, hhalt⟩ := coreHalt_run (m := m) s
  have hhalted : Unloaded s { s with csr := v, halted := true } := ⟨hs, rfl⟩
  rw [doStop]
  apply Prog.Meets.run_bind hhalt
  apply Prog.Meets.ask
  intro a s' hR
  obtain ⟨rfl, rfl⟩ := Prod.mk.inj (Option.some.inj hR)
  exact Prog.Meets.ret (hhalted.trans (access_unloaded _ _ _ hs))

/-- The reset takes the agent's code away. -/
theorem doResetStop_unloaded (s : Station) :
    (doResetStop cfg).Meets (stationSwdp m) s fun _ s' => Unloaded s s' := by
  obtain ⟨v, hhalt⟩ := coreHalt_run (m := m) s
  rw [doResetStop]
  apply Prog.Meets.run_bind hhalt
  have hdemcr (w : Word) (t : Station) : (swdpAhbWrite demcr w).run (stationSwdp m) t = some (.ok 0, t) := rfl
  apply Prog.Meets.run_bind (hdemcr _ _)
  apply Prog.Meets.ask
  intro a s1 hR
  obtain ⟨_, rfl⟩ := Prod.mk.inj (Option.some.inj hR)
  apply (doStop_unloaded rfl).bind
  intro _ s2 hstop
  apply Prog.Meets.run_bind (hdemcr _ _)
  apply Prog.Meets.ret
  exact ⟨hstop.loaded, hstop.passed⟩

theorem watchpoint_unloaded (hs : s.loaded = false) (n addr func : Word) :
    (swdpWatchpoint n addr func).Meets (stationSwdp m) s fun _ s' => Unloaded s s' := by
  rw [swdpWatchpoint]
  apply Prog.Meets.ite
  · intro _
    exact Prog.Meets.ret ⟨hs, rfl⟩
  · intro _
    apply Prog.Meets.ask
    intro a s' hR
    obtain ⟨_, rfl⟩ := Prod.mk.inj (Option.some.inj hR)
    exact Prog.Meets.ret (access_unloaded _ _ _ hs)

theorem bootRomHack_unloaded (fuel : ℕ) (hs : s.loaded = false) :
    (bootRomHack cfg fuel).Meets (stationSwdp m) s fun _ s' => Unloaded s s' := by
  rw [bootRomHack]
  apply (watchpoint_unloaded hs _ _ _).bind
  intro r s1 h1
  apply Prog.Meets.ite
  · intro _
    exact Prog.Meets.ret h1
  · intro _
    obtain ⟨v, hresume⟩ := coreResume_run (m := m) cfg.swdpStepNoInts s1
    apply Prog.Meets.run_bind hresume
    have hsame : Unloaded s1 { s1 with csr := v } := ⟨h1.loaded, rfl⟩
    have h2 := (h1.trans hsame).trans (resumed_unloaded (m := m) hsame.loaded)
    apply (waitForHalt_meets fuel _).bind
    rintro r s3 ⟨⟨n, rfl⟩, _⟩
    have h3 : Unloaded s { Station.resumed m { s1 with csr := v } with attns := n } := ⟨h2.loaded, h2.passed⟩
    apply (watchpoint_unloaded h3.loaded 0 0 dwtFnDisabled).bind
    intro _ s4 h4
    exact Prog.Meets.ret (h3.trans h4)

theorem runBootRom_unloaded (fuel : ℕ) (agent : AgentFile) (hs : s.loaded = false) :
    (runBootRom cfg fuel agent).Meets (station m) s fun _ s' => Unloaded s s' := by
  rw [runBootRom]
  apply Prog.Meets.ite
  · intro _
    apply Prog.Meets.via
    exact bootRomHack_unloaded fuel hs
  · intro _
    exact Prog.Meets.ret ⟨hs, rfl⟩

end

end M3Dev.Flash
