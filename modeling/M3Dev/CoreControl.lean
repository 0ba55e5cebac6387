import M3Dev.EventSystem
import M3Dev.GdbPacketSize
import M3Dev.HostCalls

/-! Halting, stepping and resuming the core: the writes of the debug control register, and the
interrupt mask in them. -/
namespace M3Dev.CoreControl
open CallTree EventSystem Tools

/-- The debug control and status register, and the writes made of it: what it held and what was
written. -/
structure Core where
  dhcsr : Word
  writes : List (Word × Word)

/-- The control bits are those of the value written, the status bits stay the core's. -/
def Core.follow (c : Core) (x : Word) : Core where
  dhcsr := (c.dhcsr &&& 0xFFFF0000) ||| (x &&& 0xFFFF)
  writes := c.writes ++ [(c.dhcsr, x)]

/-- Every transfer succeeds. -/
def coreSwdp : Responder Call Answer Core
  | .exec [.read addr] buf, c =>
    if addr = cdbgCsr then
      some ({ rc := 0, buf := Function.update buf 0 c.dhcsr, ptr := 0, writes := [], msgs := [] }, c)
    else none
  | .exec [.write addr value] buf, c =>
    if addr = cdbgCsr then
      some ({ rc := 0, buf := buf, ptr := 0, writes := [], msgs := [] }, c.follow value)
    else none
  | _, _ => none

/-- `do_maskints`: what it returns, what it prints, and `swdp_step_no_ints` afterwards. -/
def doMaskints (argv : List (List Byte)) (swdpStepNoInts : ℤ) : ℤ × List Byte × ℤ :=
  match argv with
  | [arg] =>
    if arg = Gdb.ascii "on" then (0, Gdb.ascii "maskints: while stepping\n", 1)
    else if arg = Gdb.ascii "always" then (0, Gdb.ascii "maskints: always\n", 2)
    else (0, Gdb.ascii "maskints: never\n", 0)
  | _ => (-1, Gdb.ascii "usage: maskints [on|off|always]\n", swdpStepNoInts)

inductive Event where
  | halt
  | step
  | resume
  | maskints (argv : List (List Byte))
  /-- the target halts or runs by itself, and has this for its status bits -/
  | target (halts : Bool) (status : Word)

structure Session where
  core : Core
  swdpStepNoInts : ℤ

def Core.turns (c : Core) (halts : Bool) (status : Word) : Core :=
  { c with dhcsr := (status &&& 0xFFFF0000) |||
      if halts then (c.dhcsr &&& 0xFFFF) ||| cdbgCHalt else (c.dhcsr &&& 0xFFFF) &&& ~~~cdbgCHalt }

def debugStep : Step Session Event
  | s, .halt => (swdpCoreHalt.run coreSwdp s.core).map fun r => { s with core := r.2 }
  | s, .step => ((swdpCoreStep s.swdpStepNoInts).run coreSwdp s.core).map fun r => { s with core := r.2 }
  | s, .resume =>
    ((swdpCoreResume s.swdpStepNoInts).run coreSwdp s.core).map fun r => { s with core := r.2 }
  | s, .maskints argv => some { s with swdpStepNoInts := (doMaskints argv s.swdpStepNoInts).2.2 }
  | s, .target halts status => some { s with core := s.core.turns halts status }

/-- To change C_MASKINTS, C_HALT "must already be and remain 1". -/
def KeepsHalt (w : Word × Word) : Prop :=
  (w.1 ^^^ w.2) &&& cdbgCMaskints ≠ 0 → w.1 &&& cdbgCHalt ≠ 0 ∧ w.2 &&& cdbgCHalt ≠ 0

/-- A resume finds the core halted, or C_MASKINTS as it would have it. -/
def ResumesHalted (s : Session) : Event → Prop
  | .resume => s.core.dhcsr &&& cdbgCHalt ≠ 0 ∨
      (s.core.dhcsr &&& cdbgCMaskints ≠ 0 ↔ s.swdpStepNoInts > 1)
  | _ => True

/-! ### Bits -/

theorem and_bit (x : Word) (i : ℕ) (hi : i < 32) :
    x &&& BitVec.twoPow 32 i ≠ 0 ↔ x.getLsbD i = true := by
  rw [BitVec.and_twoPow]
  by_cases hbit : x.getLsbD i = true
  · rw [if_pos hbit]
    refine ⟨fun _ => hbit, fun _ hzero => ?_⟩
    have h := congrArg (fun w : Word => w.getLsbD i) hzero
    simp [hi] at h
  · rw [if_neg hbit]
    exact ⟨fun h => absurd rfl h, fun h => absurd h hbit⟩

theorem and_halt (x : Word) : x &&& cdbgCHalt ≠ 0 ↔ x.getLsbD 1 = true := and_bit x 1 (by decide)

theorem and_maskints (x : Word) : x &&& cdbgCMaskints ≠ 0 ↔ x.getLsbD 3 = true :=
  and_bit x 3 (by decide)

theorem keepsHalt_iff (w : Word × Word) : KeepsHalt w ↔
    (w.1.getLsbD 3 ≠ w.2.getLsbD 3 → w.1.getLsbD 1 = true ∧ w.2.getLsbD 1 = true) := by
  rw [KeepsHalt, and_halt, and_halt, and_maskints, BitVec.getLsbD_xor, bne_iff_ne]

/-- The register is as the value has it. -/
structure Core.Shows (c : Core) (x : Word) : Prop where
  halt : c.dhcsr.getLsbD 1 = x.getLsbD 1
  maskints : c.dhcsr.getLsbD 3 = x.getLsbD 3

theorem follow_shows (c : Core) (x : Word) : (c.follow x).Shows x := by
  constructor <;> simp [Core.follow, -BitVec.getLsbD_eq_getElem]

/-! ### The writes of one command -/

/-- From `c` on the register was written, by values that keep the rule exactly where `P` holds. -/
def Wrote (P : Prop) (c c' : Core) : Prop :=
  ∃ ws, c'.writes = c.writes ++ ws ∧ ((∀ w ∈ ws, KeepsHalt w) ↔ P)

theorem Wrote.nothing {c c' : Core} (h : c'.writes = c.writes) : Wrote True c c' :=
  ⟨[], by rw [h, List.append_nil], by simp⟩

theorem Wrote.trans {P Q : Prop} {a b c : Core} (h : Wrote P a b) (h' : Wrote Q b c) :
    Wrote (P ∧ Q) a c := by
  obtain ⟨ws, hws, hP⟩ := h
  obtain ⟨us, hus, hQ⟩ := h'
  refine ⟨ws ++ us, by rw [hus, hws, List.append_assoc], ?_⟩
  rw [← hP, ← hQ, List.forall_mem_append]

theorem Wrote.congr {P Q : Prop} {c c' : Core} (h : Wrote P c c') (hiff : P ↔ Q) : Wrote Q c c' := by
  rwa [← propext hiff]

theorem wrote_follow (c : Core) (x : Word) : Wrote (KeepsHalt (c.dhcsr, x)) c (c.follow x) :=
  ⟨[(c.dhcsr, x)], rfl, by simp⟩

/-- A value with C_MASKINTS as the register has it. -/
theorem wrote_same {c : Core} {x : Word} (h : c.dhcsr.getLsbD 3 = x.getLsbD 3) :
    Wrote True c (c.follow x) :=
  (wrote_follow c x).congr <| iff_true_intro ((keepsHalt_iff _).mpr fun hne => absurd h hne)

theorem ahbRead_csr (c : Core) : (swdpAhbRead cdbgCsr 0).run coreSwdp c = some (.ok (0, c.dhcsr), c) :=
  rfl

theorem ahbWrite_csr (c : Core) (x : Word) :
    (swdpAhbWrite cdbgCsr x).run coreSwdp c = some (.ok 0, c.follow x) := rfl

/-- A value put in the place of `x` and written, where `p` holds. -/
theorem writeIf_run (p : Prop) [Decidable p] (c : Core) (x y : Word) :
    Prog.run coreSwdp (if p then do
        let _ ← swdpAhbWrite cdbgCsr y
        pure y
      else pure x : HostProg Word) c =
      some (.ok (if p then y else x), if p then c.follow y else c) := by
  by_cases hp : p
  · rw [if_pos hp, if_pos hp, if_pos hp]
    rfl
  · rw [if_neg hp, if_neg hp, if_neg hp]
    rfl

theorem coreHalt_wrote (c : Core) :
    ∃ c', swdpCoreHalt.run coreSwdp c = some (.ok 0, c') ∧ Wrote True c c' := by
  refine ⟨_, ?_, wrote_same (x := csrKept c.dhcsr ||| (cdbgCsrKey ||| cdbgCDebugen ||| cdbgCHalt)) ?_⟩
  · rw [swdpCoreHalt, Prog.run_bind (ahbRead_csr c)]
    dsimp only
    rw [if_neg (by decide), ahbWrite_csr]
  · simp [csrKept, -BitVec.getLsbD_eq_getElem]

/-- The value of the register with C_MASKINTS as wanted, written where that is a change. -/
def setMask (wanted : Prop) [Decidable wanted] (x : Word) : HostProg Word :=
  if wanted then
    if x &&& cdbgCMaskints = 0 then do
      let _ ← swdpAhbWrite cdbgCsr (x ||| cdbgCMaskints)
      pure (x ||| cdbgCMaskints)
    else pure x
  else
    if x &&& cdbgCMaskints ≠ 0 then do
      let _ ← swdpAhbWrite cdbgCsr (x &&& ~~~cdbgCMaskints)
      pure (x &&& ~~~cdbgCMaskints)
    else pure x

/-- A step and a resume have what follows in every branch. -/
theorem setMask_bind (wanted : Prop) [Decidable wanted] (x : Word) (f : Word → HostProg ℤ) :
    (if wanted then
      if x &&& cdbgCMaskints = 0 then do
        let _ ← swdpAhbWrite cdbgCsr (x ||| cdbgCMaskints)
        let x ← pure (x ||| cdbgCMaskints)
        f x
      else do
        let x ← pure x
        f x
    else
      if x &&& cdbgCMaskints ≠ 0 then do
        let _ ← swdpAhbWrite cdbgCsr (x &&& ~~~cdbgCMaskints)
        let x ← pure (x &&& ~~~cdbgCMaskints)
        f x
      else do
        let x ← pure x
        f x) = setMask wanted x >>= f := by
  unfold setMask
  split
  · split <;> rfl
  · split <;> rfl

/-- The register shows what was read of it, and the core is halted where the rule matters. -/
theorem setMask_wrote {c : Core} {x : Word} (hshows : c.Shows x) (wanted : Prop)
    [Decidable wanted] : ∃ x' c', (setMask wanted x).run coreSwdp c = some (.ok x', c') ∧
      c'.Shows x' ∧ Wrote (x.getLsbD 1 = true ∨ (x.getLsbD 3 = true ↔ wanted)) c c' := by
  unfold setMask
  have hmask := and_maskints x
  by_cases hwanted : wanted
  · rw [if_pos hwanted, writeIf_run]
    refine ⟨_, _, rfl, ?_⟩
    by_cases hclear : x &&& cdbgCMaskints = 0
    · have hbit : x.getLsbD 3 = false := Bool.eq_false_iff.mpr fun h => hmask.mpr h hclear
      have hset : (x ||| cdbgCMaskints).getLsbD 1 = x.getLsbD 1 := by
        simp [-BitVec.getLsbD_eq_getElem]
      rw [if_pos hclear, if_pos hclear]
      refine ⟨follow_shows _ _, (wrote_follow _ _).congr ?_⟩
      rw [keepsHalt_iff]
      simp only [hshows.halt, hshows.maskints, hset, hbit, hwanted]
      simp [-BitVec.getLsbD_eq_getElem]
    · have hbit : x.getLsbD 3 = true := hmask.mp hclear
      rw [if_neg hclear, if_neg hclear]
      exact ⟨hshows, (Wrote.nothing rfl).congr
        (iff_of_true trivial (.inr (iff_of_true hbit hwanted)))⟩
  · rw [if_neg hwanted, writeIf_run]
    refine ⟨_, _, rfl, ?_⟩
    by_cases hset : x &&& cdbgCMaskints ≠ 0
    · have hbit : x.getLsbD 3 = true := hmask.mp hset
      have hclear : (x &&& ~~~cdbgCMaskints).getLsbD 1 = x.getLsbD 1 := by
        simp [-BitVec.getLsbD_eq_getElem]
      rw [if_pos hset, if_pos hset]
      refine ⟨follow_shows _ _, (wrote_follow _ _).congr ?_⟩
      rw [keepsHalt_iff]
      simp only [hshows.halt, hshows.maskints, hclear, hbit, hwanted]
      simp [-BitVec.getLsbD_eq_getElem]
    · have hbit : ¬ x.getLsbD 3 = true := fun h => hset (hmask.mpr h)
      rw [if_neg hset, if_neg hset]
      exact ⟨hshows, (Wrote.nothing rfl).congr
        (iff_of_true trivial (.inr (iff_of_false hbit hwanted)))⟩

theorem coreResume_wrote (n : ℤ) (c : Core) : ∃ c', (swdpCoreResume n).run coreSwdp c = some (.ok 0, c') ∧
    Wrote (c.dhcsr.getLsbD 1 = true ∨ (c.dhcsr.getLsbD 3 = true ↔ n > 1)) c c' := by
  have hkept (i : ℕ) (hi : i = 1 ∨ i = 3) :
      (csrKept c.dhcsr ||| (cdbgCsrKey ||| cdbgCDebugen)).getLsbD i = c.dhcsr.getLsbD i := by
    rcases hi with rfl | rfl <;> simp [csrKept, -BitVec.getLsbD_eq_getElem]
  obtain ⟨x, c1, hmask, hshows, hwrote⟩ := setMask_wrote
    (x := csrKept c.dhcsr ||| (cdbgCsrKey ||| cdbgCDebugen))
    ⟨(hkept 1 (.inl rfl)).symm, (hkept 3 (.inr rfl)).symm⟩ (n > 1)
  rw [hkept 1 (.inl rfl), hkept 3 (.inr rfl)] at hwrote
  have hlast : c1.dhcsr.getLsbD 3 = (x &&& ~~~(cdbgCHalt ||| cdbgCStep)).getLsbD 3 := by
    rw [hshows.maskints]
    simp [-BitVec.getLsbD_eq_getElem]
  refine ⟨_, ?_, (hwrote.trans (wrote_same hlast)).congr (and_iff_left trivial)⟩
  rw [swdpCoreResume, Prog.run_bind (ahbRead_csr c)]
  dsimp only
  rw [if_neg (by decide), setMask_bind (n > 1), Prog.run_bind hmask, ahbWrite_csr]

/-- What a step does with a halted core. -/
theorem coreStep_halted {c : Core} {x : Word} (hshows : c.Shows x) (hhalted : x.getLsbD 1 = true)
    (n : ℤ) : ∃ c', Prog.run coreSwdp (setMask (n ≠ 0) x >>= fun x =>
        swdpAhbWrite cdbgCsr (x &&& ~~~cdbgCHalt ||| cdbgCStep)) c = some (.ok 0, c') ∧
      Wrote True c c' := by
  obtain ⟨x2, c2, hmask, hshows2, hwrote⟩ := setMask_wrote hshows (n ≠ 0)
  have hlast : c2.dhcsr.getLsbD 3 = (x2 &&& ~~~cdbgCHalt ||| cdbgCStep).getLsbD 3 := by
    rw [hshows2.maskints]
    simp [-BitVec.getLsbD_eq_getElem]
  refine ⟨_, ?_, (hwrote.trans (wrote_same hlast)).congr (iff_true_intro ⟨.inl hhalted, trivial⟩)⟩
  rw [Prog.run_bind hmask, ahbWrite_csr]

theorem coreStep_wrote (n : ℤ) (c : Core) :
    ∃ c', (swdpCoreStep n).run coreSwdp c = some (.ok 0, c') ∧ Wrote True c c' := by
  have hkept (i : ℕ) (hi : i = 1 ∨ i = 3) :
      (csrKept c.dhcsr ||| cdbgCsrKey).getLsbD i = c.dhcsr.getLsbD i := by
    rcases hi with rfl | rfl <;> simp [csrKept, -BitVec.getLsbD_eq_getElem]
  have htail (x : Word) := setMask_bind (n ≠ 0) x fun x =>
    swdpAhbWrite cdbgCsr (x &&& ~~~cdbgCHalt ||| cdbgCStep)
  rw [swdpCoreStep, Prog.run_bind (ahbRead_csr c)]
  dsimp only
  rw [if_neg (by decide)]
  by_cases hrun : (csrKept c.dhcsr ||| cdbgCsrKey) &&& cdbgCHalt = 0
  · -- the core is halted before anything else
    have hsame : c.dhcsr.getLsbD 3 =
        (csrKept c.dhcsr ||| cdbgCsrKey ||| (cdbgCHalt ||| cdbgCDebugen)).getLsbD 3 := by
      rw [BitVec.getLsbD_or, hkept 3 (.inr rfl)]
      simp [-BitVec.getLsbD_eq_getElem]
    obtain ⟨c', hrest, hwrote⟩ := coreStep_halted (follow_shows c
      (csrKept c.dhcsr ||| cdbgCsrKey ||| (cdbgCHalt ||| cdbgCDebugen)))
      (by simp [-BitVec.getLsbD_eq_getElem]) n
    refine ⟨c', ?_, ((wrote_same hsame).trans hwrote).congr (and_iff_left trivial)⟩
    rw [if_pos hrun, Prog.run_bind (ahbWrite_csr _ _)]
    exact (congrArg (Prog.run coreSwdp · _) (htail _)).trans hrest
  · obtain ⟨c', hrest, hwrote⟩ := coreStep_halted (c := c)
      ⟨(hkept 1 (.inl rfl)).symm, (hkept 3 (.inr rfl)).symm⟩ ((and_halt _).mp hrun) n
    refine ⟨c', ?_, hwrote⟩
    rw [if_neg hrun]
    exact (congrArg (Prog.run coreSwdp · _) (htail _)).trans hrest

/-! ### Runs -/

/-- Every event is possible; the writes made of it keep the rule unless it is a resume of a running
core that has another mask. -/
theorem debugStep_wrote (s : Session) (e : Event) :
    ∃ s', debugStep s e = some s' ∧ Wrote (ResumesHalted s e) s.core s'.core := by
  cases e with
  | halt =>
    obtain ⟨c, hrun, hwrote⟩ := coreHalt_wrote s.core
    exact ⟨{ s with core := c }, by rw [debugStep, hrun]; rfl, hwrote⟩
  | step =>
    obtain ⟨c, hrun, hwrote⟩ := coreStep_wrote s.swdpStepNoInts s.core
    exact ⟨{ s with core := c }, by rw [debugStep, hrun]; rfl, hwrote⟩
  | resume =>
    obtain ⟨c, hrun, hwrote⟩ := coreResume_wrote s.swdpStepNoInts s.core
    refine ⟨{ s with core := c }, by rw [debugStep, hrun]; rfl, hwrote.congr ?_⟩
    rw [ResumesHalted, and_halt, and_maskints]
  | maskints argv => exact ⟨_, rfl, .nothing rfl⟩
  | target halts status => exact ⟨_, rfl, .nothing rfl⟩

theorem run_wrote {s s' : Session} {es : List Event} (h : Run debugStep (fun _ _ => True) s es s') :
    Wrote (Run debugStep ResumesHalted s es s') s.core s'.core := by
  induction h with
  | nil s => exact (Wrote.nothing rfl).congr (iff_of_true trivial (.nil s))
  | @cons s u s' e es _ hstep rest ih =>
    obtain ⟨u', hstep', hwrote⟩ := debugStep_wrote s e
    obtain rfl := Option.some.inj (hstep.symm.trans hstep')
    refine (hwrote.trans ih).congr ⟨fun h => .cons h.1 hstep h.2, fun h => ?_⟩
    cases h with
    | cons hC h rest' =>
      obtain rfl := Option.some.inj (hstep.symm.trans h)
      exact ⟨hC, rest'⟩

/-- The writes of a run change C_MASKINTS under C_HALT alone, exactly where every resume finds the
core halted or the mask as it wants it. -/
theorem maskints_under_halt_iff {s s' : Session} {es : List Event}
    (h : Run debugStep (fun _ _ => True) s es s') :
    (∀ w ∈ s'.core.writes.drop s.core.writes.length, KeepsHalt w) ↔
      Run debugStep ResumesHalted s es s' := by
  obtain ⟨ws, hws, hiff⟩ := run_wrote h
  rw [hws, List.drop_left, hiff]

/-- A core that is halted, and the mask set while stepping only. -/
def halted : Session := { core := { dhcsr := 0x00030003, writes := [] }, swdpStepNoInts := 0 }

theorem maskints_under_halt_iff_step : ∃ s,
    Run debugStep (fun _ _ => True) halted [.maskints [Gdb.ascii "on"], .step, .halt, .resume] s ∧
    ((∀ w ∈ s.core.writes.drop halted.core.writes.length, KeepsHalt w) ↔
      Run debugStep ResumesHalted halted [.maskints [Gdb.ascii "on"], .step, .halt, .resume] s) := by
  have hrun : Run debugStep (fun _ _ => True) halted
      [.maskints [Gdb.ascii "on"], .step, .halt, .resume] _ :=
    .cons trivial rfl (.cons trivial rfl (.cons trivial rfl (.cons trivial rfl (.nil _))))
  exact ⟨_, hrun, maskints_under_halt_iff hrun⟩

/-- Always masked and running, the core has its mask cleared by a second resume. -/
theorem mask_cleared_running : ∃ s,
    Run debugStep (fun _ _ => True) halted
      [.maskints [Gdb.ascii "always"], .resume, .maskints [Gdb.ascii "off"], .resume] s ∧
    ∃ w ∈ s.core.writes.drop halted.core.writes.length, ¬ KeepsHalt w := by
  have hrun : Run debugStep (fun _ _ => True) halted
      [.maskints [Gdb.ascii "always"], .resume, .maskints [Gdb.ascii "off"], .resume] _ :=
    .cons trivial rfl (.cons trivial rfl (.cons trivial rfl (.cons trivial rfl (.nil _))))
  refine ⟨_, hrun, (0x00030009, 0xA05F0001), ?_, ?_⟩
  · decide +kernel
  · rw [keepsHalt_iff]
    decide

end M3Dev.CoreControl
