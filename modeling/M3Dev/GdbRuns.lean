import M3Dev.GdbServed

/-! Runs of the server: every stop reply that was not asked for answers a resume, and no
selection is followed that leads nowhere. -/
namespace M3Dev.Gdb
open CallTree EventSystem Tools Lk

theorem serverStep_cases {threads : ℕ} {s s' : Server} {e : ServerEvent × List Answer}
    (h : serverStep threads s e = some s') :
    s.lost = none ∧ ∃ t r, Prog.Path (serveEvent threads s.gc e.1) t r ∧
      s'.deeds = s.deeds ++ deeds (handed s.gc e.1) t ∧
      ((∃ gc, r = .ok gc ∧ s'.gc = gc ∧ s'.lost = none) ∨
        ∃ halt, r = .error halt ∧ s'.gc = s.gc ∧ s'.lost = some halt) := by
  unfold serverStep at h
  split at h
  next t gc hlost hfollow =>
    obtain rfl := Option.some.inj h
    exact ⟨hlost, t, _, Prog.path_of_follow hfollow, rfl, .inl ⟨gc, rfl, rfl, rfl⟩⟩
  next t halt hlost hfollow =>
    obtain rfl := Option.some.inj h
    exact ⟨hlost, t, _, Prog.path_of_follow hfollow, rfl, .inr ⟨halt, rfl, rfl, rfl⟩⟩
  · exact absurd h (by simp)

/-- A command among the deeds of an event is the packet's. -/
theorem command_of_deeds {packet : Option (ℕ → Byte)} {t : List (Call × Answer)} {l : Letter}
    {arg : Byte} {ds : List Deed} (h : deeds packet t = .command l arg :: ds) :
    ∃ rxbuf, packet = some rxbuf ∧ letter (rxbuf 0) = l ∧ rxbuf 1 = arg := by
  cases packet with
  | some rxbuf =>
    have hhead := (List.cons.inj h).1
    obtain ⟨hl, harg⟩ := Deed.command.inj hhead
    exact ⟨rxbuf, rfl, hl, harg⟩
  | none =>
    -- without a packet there are only stop replies
    have hmem : Deed.command l arg ∈ stopReplies false t := by
      rw [show stopReplies false t = .command l arg :: ds from h]
      exact List.mem_cons_self
    obtain ⟨e, _, he⟩ := List.mem_filterMap.mp hmem
    split at he
    · split at he
      · exact absurd (Option.some.inj he) (by simp)
      · exact absurd he (by simp)
    · exact absurd he (by simp)

/-! ### Stop replies -/

/-- The target was resumed, and no stop reply has been sent since. -/
def Outstanding (ds : List Deed) : Prop :=
  ∃ d1 d2 step arg, ds = d1 ++ .command (.resume step) arg :: d2 ∧ ∀ asked, .stopReply asked ∉ d2

/-- Every stop reply that does not answer `?` comes after a resume that no earlier stop
reply has answered. -/
def StopsAnswerResumes (ds : List Deed) : Prop :=
  ∀ d1 d2, ds = d1 ++ .stopReply false :: d2 → Outstanding d1

theorem Outstanding.append {ds es : List Deed} (h : Outstanding ds)
    (hes : ∀ asked, .stopReply asked ∉ es) : Outstanding (ds ++ es) := by
  obtain ⟨d1, d2, step, arg, rfl, hquiet⟩ := h
  refine ⟨d1, d2 ++ es, step, arg, by rw [List.append_assoc, List.cons_append], ?_⟩
  intro asked hmem
  rcases List.mem_append.mp hmem with hmem | hmem
  · exact hquiet asked hmem
  · exact hes asked hmem

theorem outstanding_resume (ds : List Deed) (step : Bool) (arg : Byte) :
    Outstanding (ds ++ [.command (.resume step) arg]) :=
  ⟨ds, [], step, arg, rfl, fun _ h => absurd h List.not_mem_nil⟩

/-- One more deed. -/
theorem StopsAnswerResumes.snoc {ds : List Deed} (h : StopsAnswerResumes ds) {d : Deed}
    (hd : d = .stopReply false → Outstanding ds) : StopsAnswerResumes (ds ++ [d]) := by
  intro d1 d2 heq
  rcases List.eq_nil_or_concat d2 with rfl | ⟨d2, d', rfl⟩
  · obtain ⟨rfl, hlast⟩ := List.append_inj' heq rfl
    exact hd (List.cons.inj hlast).1
  · rw [List.concat_eq_append, ← List.cons_append, ← List.append_assoc] at heq
    obtain ⟨hinit, _⟩ := List.append_inj' heq rfl
    exact h d1 d2 hinit

structure StopInv (s : Server) : Prop where
  rxOk : s.gc.RxOk
  answers : StopsAnswerResumes s.deeds
  running : s.lost = none → s.gc.flags &&& fRunning ≠ 0 → Outstanding s.deeds

/-- An interrupt comes only while the target runs, as far as the bridge knows. -/
def InterruptsRunning (s : Server) (e : ServerEvent × List Answer) : Prop :=
  ∀ rxbuf ∈ handed s.gc e.1, letter (rxbuf 0) = .halt → s.gc.flags &&& fRunning ≠ 0

instance (s : Server) (e : ServerEvent × List Answer) : Decidable (InterruptsRunning s e) :=
  inferInstanceAs (Decidable (∀ rxbuf ∈ handed s.gc e.1, letter (rxbuf 0) = .halt →
    s.gc.flags &&& fRunning ≠ 0))

theorem StopInv.init (gc : GdbCnxn Bridge) : StopInv (serverInit gc) where
  rxOk hne := absurd rfl hne
  answers := by
    intro d1 d2 h
    exact absurd h.symm (by simp [serverInit])
  running _ h := absurd (show (fAck ||| fLkThreads) &&& fRunning = 0 by decide) h

/-- What an event adds to the deeds. -/
theorem Outcome.answers {safe : Prop} {gc : Conn} {ds es : List Deed} {r : Except Halt Conn}
    (h : Outcome safe gc es r) (hds : StopsAnswerResumes ds)
    (hrunning : gc.flags &&& fRunning ≠ 0 → Outstanding ds)
    (hhalt : ∀ arg es', es = .command .halt arg :: es' → gc.flags &&& fRunning ≠ 0) :
    StopsAnswerResumes (ds ++ es) ∧
      ∀ gc', r = .ok gc' → gc'.flags &&& fRunning ≠ 0 → Outstanding (ds ++ es) := by
  cases h with
  | nothing hkept =>
    rw [List.append_nil]
    refine ⟨hds, ?_⟩
    intro gc' hr
    rw [← Except.ok.inj hr, hkept.running]
    exact hrunning
  | command hl hdone _ =>
    refine ⟨hds.snoc (by simp), ?_⟩
    intro gc' hr hflags
    rw [(hdone gc' hr).kept.running] at hflags
    exact (hrunning hflags).append (by simp)
  | resumed _ _ => exact ⟨hds.snoc (by simp), fun _ _ _ => outstanding_resume _ _ _⟩
  | @stopped l arg es' _ hl hes hsynced _ =>
    refine ⟨?_, fun gc' hr hflags => absurd (hsynced gc' hr).1 hflags⟩
    have hcommand : StopsAnswerResumes (ds ++ [.command l arg]) := hds.snoc (by simp)
    rcases hes with rfl | rfl
    · exact hcommand
    · rw [List.append_cons]
      apply hcommand.snoc
      intro hasked
      -- not the answer to `?`, so the interrupt
      rcases hl with rfl | rfl
      · exact (hrunning (hhalt arg _ rfl)).append (by simp)
      · exact absurd (Deed.stopReply.inj hasked) (by decide)
  | halted hrun hes hsynced _ =>
    refine ⟨?_, fun gc' hr hflags => absurd (hsynced gc' hr).1 hflags⟩
    rcases hes with rfl | rfl
    · rwa [List.append_nil]
    · exact hds.snoc fun _ => hrunning hrun

theorem StopInv.step {threads : ℕ} {s s' : Server} {e : ServerEvent × List Answer}
    (hinv : StopInv s) (hC : InterruptsRunning s e) (h : serverStep threads s e = some s') :
    StopInv s' := by
  obtain ⟨hlost, t, r, hpath, hdeeds, hend⟩ := serverStep_cases h
  obtain ⟨houtcome, hrx⟩ := serveEvent_outcome hinv.rxOk hpath
  obtain ⟨hanswers, hrunning⟩ := houtcome.answers hinv.answers (hinv.running hlost) (by
    intro arg es' hes
    obtain ⟨rxbuf, hhanded, hletter, _⟩ := command_of_deeds hes
    exact hC rxbuf hhanded hletter)
  rw [← hdeeds] at hanswers hrunning
  rcases hend with ⟨gc, rfl, hgc, _⟩ | ⟨halt, rfl, hgc, hlost'⟩
  · refine ⟨?_, hanswers, ?_⟩
    · rw [hgc]
      exact hrx gc rfl
    · intro _ hflags
      rw [hgc] at hflags
      exact hrunning gc.toGdbSide rfl hflags
  · refine ⟨?_, hanswers, ?_⟩
    · rw [hgc]
      exact hinv.rxOk
    · intro hnone
      exact absurd (hlost'.symm.trans hnone) (by simp)

/-- In every run in which interrupts come only while the target runs, every stop reply that
does not answer `?` answers a resume of its own. -/
theorem stops_answer_resumes {threads : ℕ} {gc : GdbCnxn Bridge}
    {es : List (ServerEvent × List Answer)} {s : Server}
    (h : Run (serverStep threads) InterruptsRunning (serverInit gc) es s) :
    StopsAnswerResumes s.deeds := by
  have hinv := h.invariant StopInv (fun _ _ _ hI hC hstep => hI.step hC hstep) (StopInv.init gc)
  exact hinv.answers

/-- A connection before `gdb_init`, with whatever is in it. -/
def rawCnxn (gselected : ℕ) : GdbCnxn Bridge where
  toGdbSide := { idleConn with rest := { idleConn.rest with gselected := gselected } }
  state := .chk1
  rxsum := 0
  rxptr := 0
  rxbuf := fun _ => 0
  chk0 := 0
  chk1 := 0
  chk2 := 0

/-- An answer with the given status. -/
def answered (rc : ℤ) : Answer := { rc := rc, buf := fun _ => 0, ptr := 0, writes := [], msgs := [] }

/-- The bytes of `$c#63`, the target out of reach, and the interrupt. -/
def resumeAndInterrupt : List (ServerEvent × List Answer) :=
  [(.byte 0x24, []), (.byte 0x63, []), (.byte 0x23, []), (.byte 0x36, []),
   (.byte 0x33, [answered 0, answered (-1)]),
   (.byte 3, [answered 0, answered (-1), answered (-1), answered (-1), answered 0])]

theorem stops_answer_resumes_interrupt :
    ∃ s, Run (serverStep 0) InterruptsRunning (serverInit (rawCnxn 1)) resumeAndInterrupt s ∧
      s.deeds = [.command (.resume false) 0, .command .halt 0, .stopReply false] ∧
      StopsAnswerResumes s.deeds := by
  have hrun : ∃ s, runEvents (serverStep 0) InterruptsRunning resumeAndInterrupt
      (serverInit (rawCnxn 1)) = some s ∧
      s.deeds = [.command (.resume false) 0, .command .halt 0, .stopReply false] := ⟨_, rfl, rfl⟩
  obtain ⟨s, hs, hdeeds⟩ := hrun
  exact ⟨s, run_of_runEvents hs, hdeeds, stops_answer_resumes (run_of_runEvents hs)⟩

/-- An interrupt while nothing was resumed is answered too. -/
theorem idle_interrupt_answered :
    ∃ s, Run (serverStep 0) (fun _ _ => True) (serverInit (rawCnxn 1))
        [(.byte 3, [answered 0, answered (-1), answered (-1), answered (-1), answered 0])] s ∧
      ¬ StopsAnswerResumes s.deeds := by
  have hrun : ∃ s, runEvents (serverStep 0) (fun _ _ => True)
      [(.byte 3, [answered 0, answered (-1), answered (-1), answered (-1), answered 0])]
      (serverInit (rawCnxn 1)) = some s ∧ s.deeds = [.command .halt 0, .stopReply false] :=
    ⟨_, rfl, rfl⟩
  obtain ⟨s, hs, hdeeds⟩ := hrun
  refine ⟨s, run_of_runEvents hs, ?_⟩
  rw [hdeeds]
  intro hanswers
  obtain ⟨d1, d2, step, arg, heq, _⟩ := hanswers [.command .halt 0] [] rfl
  have hmem : Deed.command (.resume step) arg ∈ [Deed.command .halt 0] := by
    rw [heq]
    exact List.mem_append_right d1 List.mem_cons_self
  exact absurd (List.mem_singleton.mp hmem) (by simp)

/-! ### Selections -/

/-- The deed sets the selection: with every stop reply the threads are looked at. -/
def Deed.Sets (sel : Selection) : Deed → Prop
  | .stopReply _ => True
  | .command l arg => l = .select ∧ arg = sel.arg

instance (sel : Selection) (d : Deed) : Decidable (d.Sets sel) :=
  match d with
  | .stopReply _ => .isTrue trivial
  | .command l arg => inferInstanceAs (Decidable (l = .select ∧ arg = sel.arg))

/-- A packet that follows a selection comes after one that has set it. -/
def FollowsSet (s : Server) (e : ServerEvent × List Answer) : Prop :=
  ∀ rxbuf ∈ handed s.gc e.1, ∀ sel, Uses rxbuf sel → ∃ d ∈ s.deeds, d.Sets sel

instance (rxbuf : ℕ → Byte) (sel : Selection) : Decidable (Uses rxbuf sel) :=
  match sel with
  | .general => inferInstanceAs (Decidable (_ ∨ _))
  | .continuing => inferInstanceAs (Decidable (_ ∧ _))

instance (s : Server) (e : ServerEvent × List Answer) : Decidable (FollowsSet s e) :=
  decidable_of_iff (∀ rxbuf ∈ handed s.gc e.1,
      (Uses rxbuf .general → ∃ d ∈ s.deeds, d.Sets .general) ∧
        (Uses rxbuf .continuing → ∃ d ∈ s.deeds, d.Sets .continuing)) <| by
    constructor
    · intro h rxbuf hmem sel
      cases sel with
      | general => exact (h rxbuf hmem).1
      | continuing => exact (h rxbuf hmem).2
    · intro h rxbuf hmem
      exact ⟨h rxbuf hmem .general, h rxbuf hmem .continuing⟩

structure SelectionInv (s : Server) : Prop where
  rxOk : s.gc.RxOk
  wild : s.lost ≠ some .wild
  selected : s.lost = none → ∀ sel : Selection, (∃ d ∈ s.deeds, d.Sets sel) →
    Selected s.gc.toGdbSide (sel.of s.gc.toGdbSide)

theorem SelectionInv.init (gc : GdbCnxn Bridge) : SelectionInv (serverInit gc) where
  rxOk hne := absurd rfl hne
  wild := by simp [serverInit]
  selected _ sel h := absurd h (by simp [serverInit])

/-- A selection stays good, and becomes good with the deeds that set it. -/
theorem Outcome.selected {safe : Prop} {gc gc' : Conn} {es : List Deed}
    (h : Outcome safe gc es (.ok gc')) {sel : Selection}
    (hsel : Selected gc (sel.of gc) ∨ ∃ d ∈ es, d.Sets sel) : Selected gc' (sel.of gc') := by
  cases h with
  | nothing hkept =>
    rcases hsel with hsel | ⟨d, hd, _⟩
    · exact hkept.selection_of hsel
    · exact absurd hd List.not_mem_nil
  | command _ hdone _ =>
    have hd := hdone gc' rfl
    rcases hsel with hsel | ⟨d, hmem, hsets⟩
    · exact hd.kept.selection_of hsel
    · obtain rfl := List.mem_singleton.mp hmem
      exact hd.selects sel hsets.1 hsets.2
  | resumed hresumed _ =>
    obtain ⟨_, hrest⟩ := hresumed gc' rfl
    rcases hsel with hsel | ⟨d, hmem, hsets⟩
    · unfold Selected Selection.of
      rw [hrest]
      exact hsel
    · obtain rfl := List.mem_singleton.mp hmem
      exact absurd hsets.1 (by simp)
  | stopped _ _ hsynced _ => exact (hsynced gc' rfl).2 sel
  | halted _ _ hsynced _ => exact (hsynced gc' rfl).2 sel

theorem Outcome.not_wild {safe : Prop} {gc : Conn} {es : List Deed} {r : Except Halt Conn}
    (h : Outcome safe gc es r) (hsafe : safe) : r ≠ .error .wild := by
  cases h with
  | nothing _ => simp
  | command _ _ hwild => exact fun hr => hwild hr hsafe
  | resumed _ hwild => exact hwild
  | stopped _ _ _ hwild => exact hwild
  | halted _ _ _ hwild => exact hwild

theorem SelectionInv.step {threads : ℕ} {s s' : Server} {e : ServerEvent × List Answer}
    (hinv : SelectionInv s) (hC : FollowsSet s e) (h : serverStep threads s e = some s') :
    SelectionInv s' := by
  obtain ⟨hlost, t, r, hpath, hdeeds, hend⟩ := serverStep_cases h
  obtain ⟨houtcome, hrx⟩ := serveEvent_outcome hinv.rxOk hpath
  have hsafe : ∀ rxbuf, handed s.gc e.1 = some rxbuf → SafeFor s.gc.toGdbSide rxbuf :=
    fun rxbuf hhanded sel huses => hinv.selected hlost sel (hC rxbuf hhanded sel huses)
  rcases hend with ⟨gc, rfl, hgc, hnone⟩ | ⟨halt, rfl, hgc, hlost'⟩
  · refine ⟨?_, ?_, ?_⟩
    · rw [hgc]
      exact hrx gc rfl
    · rw [hnone]
      simp
    · rintro _ sel ⟨d, hd, hsets⟩
      rw [hdeeds, List.mem_append] at hd
      rw [hgc]
      apply houtcome.selected
      rcases hd with hd | hd
      · exact .inl (hinv.selected hlost sel ⟨d, hd, hsets⟩)
      · exact .inr ⟨d, hd, hsets⟩
  · have hwild := houtcome.not_wild hsafe
    refine ⟨?_, ?_, ?_⟩
    · rw [hgc]
      exact hinv.rxOk
    · rw [hlost']
      intro hsome
      obtain rfl := Option.some.inj hsome
      exact hwild rfl
    · intro hnone
      exact absurd (hlost'.symm.trans hnone) (by simp)

/-- In every run in which a packet that follows a selection comes after one that has set it,
no pointer to a thread leads nowhere. -/
theorem selections_lead_somewhere {threads : ℕ} {gc : GdbCnxn Bridge}
    {es : List (ServerEvent × List Answer)} {s : Server}
    (h : Run (serverStep threads) FollowsSet (serverInit gc) es s) : s.lost ≠ some .wild := by
  have hinv := h.invariant SelectionInv (fun _ _ _ hI hC hstep => hI.step hC hstep)
    (SelectionInv.init gc)
  exact hinv.wild

/-- The bytes of `$?#3f` and `$p0#a0`, the target out of reach. -/
def askAndRead : List (ServerEvent × List Answer) :=
  [(.byte 0x24, []), (.byte 0x3f, []), (.byte 0x23, []), (.byte 0x33, []),
   (.byte 0x66, [answered 0, answered (-1), answered (-1), answered (-1), answered 0]),
   (.byte 0x24, []), (.byte 0x70, []), (.byte 0x30, []), (.byte 0x23, []), (.byte 0x61, []),
   (.byte 0x30, [answered 0, answered 0, answered 0])]

theorem selections_lead_somewhere_p :
    ∃ s, Run (serverStep 0) FollowsSet (serverInit (rawCnxn 1)) askAndRead s ∧
      s.deeds = [.command .why 0, .stopReply true, .command .readReg 0x30] ∧
      s.lost ≠ some .wild := by
  have hrun : ∃ s, runEvents (serverStep 0) FollowsSet askAndRead (serverInit (rawCnxn 1)) = some s ∧
      s.deeds = [.command .why 0, .stopReply true, .command .readReg 0x30] := ⟨_, rfl, rfl⟩
  obtain ⟨s, hs, hdeeds⟩ := hrun
  exact ⟨s, run_of_runEvents hs, hdeeds, selections_lead_somewhere (run_of_runEvents hs)⟩

/-- `g` as the first packet, with 1 where `gdb_init` has left `gselected`. -/
theorem unset_selection_followed :
    ∃ s, Run (serverStep 0) (fun _ _ => True) (serverInit (rawCnxn 1))
        [(.byte 0x24, []), (.byte 0x67, []), (.byte 0x23, []), (.byte 0x36, []),
         (.byte 0x37, [answered 0])] s ∧ s.lost = some .wild := by
  refine ⟨_, run_of_runEvents rfl, rfl⟩

end M3Dev.Gdb
