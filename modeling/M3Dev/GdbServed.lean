import M3Dev.GdbAnswers

/-! What one event of the server can come to: the one place where the commands are told
apart. -/
namespace M3Dev.Gdb
open CallTree Tools Lk

/-- Both selections are nothing or nodes of the list. -/
def Synced (gc : Conn) : Prop := ∀ sel : Selection, Selected gc (sel.of gc)

/-- The packet makes the bridge follow a selection. -/
def Uses (rxbuf : ℕ → Byte) : Selection → Prop
  | .general => letter (rxbuf 0) = .readRegs ∨ letter (rxbuf 0) = .writeRegs ∨
      letter (rxbuf 0) = .readReg ∨ letter (rxbuf 0) = .writeReg
  | .continuing => letter (rxbuf 0) = .extended true ∧ queryName rxbuf = ascii "C"

/-- The selections that the packet follows lead somewhere. -/
def SafeFor (gc : Conn) (rxbuf : ℕ → Byte) : Prop :=
  ∀ sel, Uses rxbuf sel → Selected gc (sel.of gc)

theorem Kept.synced {gc gc' : Conn} (h : Kept gc gc') (hs : Synced gc) : Synced gc' :=
  fun sel => h.selection_of (hs sel)

/-- A command that has to do with neither running nor stopping is done. -/
structure Done (l : Letter) (arg : Byte) (gc gc' : Conn) : Prop where
  kept : Kept gc gc'
  selects : ∀ sel : Selection, l = .select → arg = sel.arg → Selected gc' (sel.of gc')

theorem Done.of_kept {l : Letter} {gc gc' : Conn} (h : Kept gc gc') (hl : l ≠ .select)
    (arg : Byte) : Done l arg gc gc' :=
  ⟨h, fun _ hsel => absurd hsel hl⟩

theorem Done.trans {l : Letter} {arg : Byte} {gc gc' gc'' : Conn} (h : Done l arg gc gc')
    (h' : Kept gc' gc'') : Done l arg gc gc'' where
  kept := h.kept.trans h'
  selects sel hl harg := h'.selection_of (h.selects sel hl harg)

/-- What an event comes to: its deeds, and the connection or how the code got lost. -/
inductive Outcome (safe : Prop) (gc : Conn) : List Deed → Except Halt Conn → Prop where
  /-- nothing to do -/
  | nothing {gc' : Conn} (hkept : Kept gc gc') : Outcome safe gc [] (.ok gc')
  /-- a command that has to do with neither running nor stopping -/
  | command {l : Letter} {arg : Byte} {r : Except Halt Conn}
      (hl : l ≠ .halt ∧ l ≠ .why ∧ ∀ step, l ≠ .resume step)
      (hdone : ∀ gc', r = .ok gc' → Done l arg gc gc')
      (hwild : r = .error .wild → ¬ safe) : Outcome safe gc [.command l arg] r
  | resumed {step : Bool} {arg : Byte} {r : Except Halt Conn}
      (hkept : ∀ gc', r = .ok gc' → gc'.flags &&& fRunning ≠ 0 ∧ gc'.rest = gc.rest)
      (hwild : r ≠ .error .wild) : Outcome safe gc [.command (.resume step) arg] r
  /-- the interrupt or `?` -/
  | stopped {l : Letter} {arg : Byte} {ds : List Deed} {r : Except Halt Conn}
      (hl : l = .halt ∨ l = .why) (hds : ds = [] ∨ ds = [.stopReply (l == .why)])
      (hsynced : ∀ gc', r = .ok gc' → gc'.flags &&& fRunning = 0 ∧ Synced gc')
      (hwild : r ≠ .error .wild) : Outcome safe gc (.command l arg :: ds) r
  /-- the target was seen to have halted -/
  | halted {ds : List Deed} {r : Except Halt Conn} (hrunning : gc.flags &&& fRunning ≠ 0)
      (hds : ds = [] ∨ ds = [.stopReply false])
      (hsynced : ∀ gc', r = .ok gc' → gc'.flags &&& fRunning = 0 ∧ Synced gc')
      (hwild : r ≠ .error .wild) : Outcome safe gc ds r

/-- For a connection with the same flags, list and selections. -/
theorem Outcome.of_eq {safe safe' : Prop} {gc gc1 : Conn} {ds : List Deed} {r : Except Halt Conn}
    (h : Outcome safe gc1 ds r) (hflags : gc1.flags = gc.flags) (hrest : gc1.rest = gc.rest)
    (hsafe : safe' → safe) : Outcome safe' gc ds r := by
  have hkept : Kept gc gc1 := Kept.of_eq hflags hrest
  cases h with
  | nothing h => exact .nothing (hkept.trans h)
  | command hl hdone hwild =>
    refine .command hl ?_ fun hr hs => hwild hr (hsafe hs)
    intro gc' hr
    have hd := hdone gc' hr
    exact ⟨hkept.trans hd.kept, hd.selects⟩
  | resumed hresumed hwild =>
    refine .resumed ?_ hwild
    intro gc' hr
    obtain ⟨hrunning, hsame⟩ := hresumed gc' hr
    exact ⟨hrunning, hsame.trans hrest⟩
  | stopped hl hds hsynced hwild => exact .stopped hl hds hsynced hwild
  | halted hrunning hds hsynced hwild =>
    rw [hflags] at hrunning
    exact .halted hrunning hds hsynced hwild

/-! ### Stop replies -/

theorem stopReplies_append (asked : Bool) (t t' : List (Call × Answer)) :
    stopReplies asked (t ++ t') = stopReplies asked t ++ stopReplies asked t' :=
  List.filterMap_append

/-- A program that keeps to the rules sends none. -/
theorem stopReplies_orderly {α : Type} {safe : Prop} {Q : List (Call × Answer) → α → Prop}
    {past : List (Call × Answer)} {p : HostProg α} (h : p.Ensures (orderly safe) Q past)
    {t : List (Call × Answer)} {r : Except Halt α} (hpath : Prog.Path p t r) (asked : Bool) :
    stopReplies asked t = [] := by
  rw [stopReplies, List.filterMap_eq_nil_iff]
  intro e he
  obtain ⟨t1, t2, ht⟩ := List.append_of_mem he
  have hallowed : e.1 ≠ Call.send (framed (ascii "S05")) := h.allows hpath ht
  split
  next packet hsend =>
    rw [if_neg]
    rintro rfl
    exact hallowed hsend
  · rfl

/-- A silent program leads nowhere only by going on for too long. -/
theorem Silent.not_wild {α : Type} {p : HostProg α} (h : Silent p) {t : List (Call × Answer)}
    {r : Except Halt α} (hpath : Prog.Path p t r) : r ≠ .error .wild := by
  rintro rfl
  exact (h True []).stops hpath rfl trivial

theorem epilogue_path {gc : Conn} {t : List (Call × Answer)} {r : Except Halt Conn}
    (hpath : Prog.Path (epilogue gc) t r) (asked : Bool) :
    (stopReplies asked t = [] ∨ stopReplies asked t = [.stopReply asked]) ∧
      ∃ writes, r = .ok (gdbEpilogue writes gc) := by
  unfold epilogue at hpath
  split at hpath
  · obtain ⟨rfl, rfl⟩ := Prog.path_ret.mp hpath
    exact ⟨.inl rfl, [], rfl⟩
  · obtain ⟨a, t', rfl, hrest⟩ := Prog.path_call.mp hpath
    obtain ⟨rfl, rfl⟩ := Prog.path_ret.mp hrest
    refine ⟨?_, a.writes, rfl⟩
    simp only [stopReplies, List.filterMap_cons, List.filterMap_nil]
    split
    · exact .inl rfl
    next hsome =>
      split at hsome
      · exact .inr (by rw [← Option.some.inj hsome])
      · exact absurd hsome (by simp)

/-! ### Commands -/

section
variable {threads : ℕ} {frame : ℕ → Word} {rxbuf : ℕ → Byte} {gc : Conn}

/-- The body of a command that has to do with neither running nor stopping. -/
theorem answerCommand_done {l : Letter} (hletter : letter (rxbuf 0) = l)
    (hl : l ≠ .halt ∧ l ≠ .why) (past : List (Call × Answer)) :
    (answerCommand threads frame l rxbuf (gdbPrologue gc)).Ensures (orderly (SafeFor gc rxbuf))
      (fun _ r => Plain r.2 ∧ Done l (rxbuf 1) gc r.2) past := by
  have hplain := plain_prologue gc
  have hbegin : Kept gc (gdbPrologue gc) := Kept.of_eq rfl rfl
  have hg : Uses rxbuf .general → SafeFor gc rxbuf →
      Selected (gdbPrologue gc) (Selection.general.of (gdbPrologue gc)) :=
    fun huses hsafe => hsafe .general huses
  have hanswers : ∀ {p : HostProg Packet}, l ≠ .select →
      Answers (SafeFor gc rxbuf) (gdbPrologue gc) p →
      p.Ensures (orderly (SafeFor gc rxbuf)) (fun _ r => Plain r.2 ∧ Done l (rxbuf 1) gc r.2) past := by
    intro p hne hp
    apply (hp past).mono
    intro t r hr
    exact ⟨hr.2, Done.of_kept (hbegin.trans hr.1) hne _⟩
  cases l with
  | why => exact absurd rfl hl.2
  | halt => exact absurd rfl hl.1
  | select =>
    obtain ⟨hreplied, hsel⟩ := @handleSelect_replied (gdbPrologue gc) rxbuf hplain
    exact ⟨hreplied.2, hbegin.trans hreplied.1, fun sel _ harg => hsel sel harg⟩
  | alive => exact hanswers (by simp) fun _ => handleAlive_replied hplain
  | readMemory => exact hanswers (by simp) (handleReadMemory_answers hplain frame)
  | writeMemory => exact hanswers (by simp) (handleWriteMemory_answers hplain frame)
  | readRegs => exact hanswers (by simp) (handleReadRegs_answers hplain (hg (.inl hletter)) frame)
  | writeRegs =>
    exact hanswers (by simp) (handleWriteRegs_answers hplain (hg (.inr (.inl hletter))))
  | readReg =>
    exact hanswers (by simp) (handleReadReg_answers hplain (hg (.inr (.inr (.inl hletter)))) frame)
  | writeReg =>
    exact hanswers (by simp) (handleWriteReg_answers hplain (hg (.inr (.inr (.inr hletter)))))
  | extended query =>
    apply hanswers (by simp)
    apply handleExtended_answers hplain
    rintro hsafe ⟨rfl, hname⟩
    exact hsafe .continuing ⟨hletter, hname⟩
  | point add => exact hanswers (by simp) (handlePoint_answers hplain add)
  | resume step => exact hanswers (by simp) fun _ => hplain.replied
  | unknown => exact hanswers (by simp) fun _ => hplain.replied

theorem handleCommand_done (hhalt : letter (rxbuf 0) ≠ .halt) (hwhy : letter (rxbuf 0) ≠ .why)
    (hresume : ∀ step, letter (rxbuf 0) ≠ .resume step) (past : List (Call × Answer)) :
    (handleCommand threads frame rxbuf gc).Ensures (orderly (SafeFor gc rxbuf))
      (fun _ r => Done (letter (rxbuf 0)) (rxbuf 1) gc r.2) past := by
  rw [handleCommand_answered hresume]
  apply (answerCommand_done rfl ⟨hhalt, hwhy⟩ past).bind
  rintro t r ⟨hplain, hdone⟩
  apply (epilogue_orderly hplain.replied t).bind
  intro t' gc' hkept
  exact hdone.trans hkept

theorem handleResume_silent (step : Bool) (rxbuf : ℕ → Byte) (gc : Conn) (safe : Prop)
    (past : List (Call × Answer)) :
    (handleResume step rxbuf gc).Ensures (orderly safe)
      (fun _ r => r.2 = { gc with flags := gc.flags ||| fRunning }) past := by
  have hgo : ∀ {p : HostProg ℤ}, Silent p → ∀ past, (p >>= fun _ =>
      (.ret (rxbuf, { gc with flags := gc.flags ||| fRunning }) : HostProg Packet)).Ensures
        (orderly safe) (fun _ r => r.2 = { gc with flags := gc.flags ||| fRunning }) past :=
    fun hp past => (hp safe past).bind fun _ _ _ => rfl
  unfold handleResume
  by_cases haddr : rxbuf 1 ≠ 0
  · rw [if_pos haddr]
    apply (swdpCoreWrite_silent _ _ safe past).bind
    intro t _ _
    cases step with
    | true => exact hgo (swdpCoreStep_silent _) t
    | false => exact hgo (swdpCoreResume_silent _) t
  · rw [if_neg haddr]
    cases step with
    | true => exact hgo (swdpCoreStep_silent _) past
    | false => exact hgo (swdpCoreResume_silent _) past

theorem gdbUpdateThreads_synced (threads : ℕ) (gc : Conn) (safe : Prop)
    (past : List (Call × Answer)) :
    (gdbUpdateThreads threads gc).Ensures (orderly safe)
      (fun _ gc' => gc'.flags = gc.flags ∧ Synced gc') past := by
  have hlist : ∀ list : ThreadList, let gc' : Conn := { gc with rest := { gc.rest with
      threadlist := list, cselected := list.head, gselected := list.head } }
      gc'.flags = gc.flags ∧ Synced gc' := by
    intro list gc'
    refine ⟨rfl, ?_⟩
    rintro (_ | _)
    · exact selected_head gc'
    · exact selected_head gc'
  unfold gdbUpdateThreads
  split
  · apply (findLkThreads_silent threads safe past).bind
    intro t list _
    exact hlist list
  · exact hlist []

theorem running_or_ne (f : Word) : (f ||| fRunning) &&& fRunning ≠ 0 := by
  intro h
  have hbit := congrArg (fun w => w.getLsbD 2) h
  simp [fRunning] at hbit

/-- The interrupt and `?`: the target is halted, the threads are looked at. -/
theorem answerCommand_stops {l : Letter} (hl : l = .halt ∨ l = .why) (gc : Conn) (safe : Prop)
    (past : List (Call × Answer)) :
    (answerCommand threads frame l rxbuf gc).Ensures (orderly safe)
      (fun _ r => r.2.flags &&& fRunning = 0 ∧ Synced r.2) past := by
  have hput : ∀ gc : Conn, (gdbPuts gc (ascii "S05")).flags = gc.flags ∧
      (gdbPuts gc (ascii "S05")).rest = gc.rest := by
    intro gc
    obtain ⟨hflags, hrest, _⟩ := putBytes_fields gc (ascii "S05")
    exact ⟨hflags, hrest⟩
  rcases hl with rfl | rfl
  · apply (swdpCoreHalt_silent safe past).bind
    intro t _ _
    apply (gdbUpdateThreads_synced threads gc safe t).bind
    rintro t' gc' ⟨_, hsynced⟩
    show _ ∧ _
    obtain ⟨hflags, hrest⟩ := hput { gc' with flags := gc'.flags &&& ~~~fRunning }
    refine ⟨?_, ?_⟩
    · rw [hflags]
      exact running_without _
    · exact (Kept.of_eq hflags hrest).synced hsynced
  · apply (swdpCoreHalt_silent safe past).bind
    intro t _ _
    apply (gdbUpdateThreads_synced threads _ safe t).bind
    rintro t' gc' ⟨hflags, hsynced⟩
    refine ⟨?_, hsynced⟩
    show gc'.flags &&& fRunning = 0
    rw [hflags]
    exact running_without _

end

/-- `?` and a halt end with a stop reply. -/
theorem stops_outcome {threads : ℕ} {frame : ℕ → Word} {rxbuf : ℕ → Byte} {gc : Conn}
    (hstops : letter (rxbuf 0) = .halt ∨ letter (rxbuf 0) = .why)
    {t : List (Call × Answer)} {r : Except Halt Packet}
    (hpath : Prog.Path (handleCommand threads frame rxbuf gc) t r) :
    Outcome (SafeFor gc rxbuf) gc (deeds (some rxbuf) t) (r.map Prod.snd) := by
  have hresume : ∀ step, letter (rxbuf 0) ≠ .resume step := by
    intro step h
    rw [h] at hstops
    simp at hstops
  rw [handleCommand_answered hresume] at hpath
  have hbody := @answerCommand_stops threads frame rxbuf _ hstops
    (gdbPrologue gc) True []
  rcases Prog.path_bind.mp hpath with ⟨e, rfl, herr⟩ | ⟨r1, t1, t2, rfl, h1, h2⟩
  · -- cut off while the command is answered
    refine .stopped hstops (.inl (stopReplies_orderly hbody herr _)) ?_ ?_
    · intro gc' hr
      exact absurd hr (by simp [Except.map])
    · intro hr
      obtain rfl : e = .wild := Except.error.inj hr
      exact hbody.stops herr rfl trivial
  · have hsilent := stopReplies_orderly hbody h1 (letter (rxbuf 0) == .why)
    obtain ⟨hflags, hsynced⟩ := hbody.returns h1
    rcases Prog.path_bind.mp h2 with ⟨e, rfl, herr⟩ | ⟨gc1, t3, t4, rfl, h3, h4⟩
    · obtain ⟨_, writes, hwrites⟩ := epilogue_path herr true
      exact absurd hwrites (by simp)
    · -- the stop reply is what the epilogue sends
      obtain ⟨rfl, rfl⟩ := Prog.path_ret.mp h4
      obtain ⟨hreply, writes, hwrites⟩ := epilogue_path h3 (letter (rxbuf 0) == .why)
      obtain rfl := Except.ok.inj hwrites
      have hkept := gdbEpilogue_kept writes r1.2
      refine .stopped hstops ?_ ?_ (by simp [Except.map])
      · rwa [List.append_nil, stopReplies_append, hsilent, List.nil_append]
      · intro gc' hr
        rw [← Except.ok.inj hr]
        exact ⟨hkept.running.trans hflags, hkept.synced hsynced⟩

theorem eq_wild_of_map {r : Except Halt Packet} (h : r.map Prod.snd = .error .wild) :
    r = .error .wild := by
  cases r with
  | ok r => exact absurd h (by simp [Except.map])
  | error e => rw [Except.error.inj h]

/-- `s` and `c` answer nothing: the target runs. -/
theorem resume_outcome {threads : ℕ} {frame : ℕ → Word} {rxbuf : ℕ → Byte} {gc : Conn} {step : Bool}
    (hletter : letter (rxbuf 0) = .resume step) {t : List (Call × Answer)} {r : Except Halt Packet}
    (hpath : Prog.Path (handleCommand threads frame rxbuf gc) t r) :
    Outcome (SafeFor gc rxbuf) gc (deeds (some rxbuf) t) (r.map Prod.snd) := by
  simp only [handleCommand, hletter] at hpath
  have hdone := handleResume_silent step rxbuf gc True []
  have hnone := stopReplies_orderly hdone hpath (letter (rxbuf 0) == .why)
  have hdeeds : deeds (some rxbuf) t = [.command (.resume step) (rxbuf 1)] := by
    rw [deeds, hnone, command, hletter]
  rw [hdeeds]
  refine .resumed ?_ ?_
  · intro gc' hr
    cases r with
    | ok r =>
      obtain rfl := Except.ok.inj hr
      rw [hdone.returns hpath]
      exact ⟨running_or_ne _, rfl⟩
    | error e => exact absurd hr (by simp [Except.map])
  · intro hr
    rw [eq_wild_of_map hr] at hpath
    exact hdone.stops hpath rfl trivial

/-- Every command, along every sequence of answers. -/
theorem handleCommand_outcome {threads : ℕ} {frame : ℕ → Word} {rxbuf : ℕ → Byte} {gc : Conn}
    {t : List (Call × Answer)} {r : Except Halt Packet}
    (hpath : Prog.Path (handleCommand threads frame rxbuf gc) t r) :
    Outcome (SafeFor gc rxbuf) gc (deeds (some rxbuf) t) (r.map Prod.snd) := by
  by_cases hstops : letter (rxbuf 0) = .halt ∨ letter (rxbuf 0) = .why
  · exact stops_outcome hstops hpath
  by_cases hresume : ∃ step, letter (rxbuf 0) = .resume step
  · obtain ⟨step, hletter⟩ := hresume
    exact resume_outcome hletter hpath
  -- any other command is answered, and the target stays as it is
  rw [not_or] at hstops
  rw [not_exists] at hresume
  have hdone := @handleCommand_done threads frame _ gc hstops.1 hstops.2 hresume []
  have hnone := stopReplies_orderly hdone hpath (letter (rxbuf 0) == .why)
  have hdeeds : deeds (some rxbuf) t = [.command (letter (rxbuf 0)) (rxbuf 1)] := by
    rw [deeds, hnone, command]
  rw [hdeeds]
  refine .command ⟨hstops.1, hstops.2, hresume⟩ ?_ ?_
  · intro gc' hr
    cases r with
    | ok r =>
      rw [← Except.ok.inj hr]
      exact hdone.returns hpath
    | error e => exact absurd hr (by simp [Except.map])
  · intro hr
    rw [eq_wild_of_map hr] at hpath
    exact hdone.stops hpath rfl

/-! ### Events -/

/-- The look at the core reports a halt, or does nothing. -/
theorem checkHalted_outcome {threads : ℕ} {gc : GdbCnxn Bridge} {t : List (Call × Answer)}
    {r : Except Halt (GdbCnxn Bridge)} (hpath : Prog.Path (checkHalted threads gc) t r)
    (safe : Prop) :
    Outcome safe gc.toGdbSide (deeds none t) (r.map GdbCnxn.toGdbSide) ∧
      ∀ gc', r = .ok gc' → gc.RxOk → gc'.RxOk := by
  -- only of a running target is it asked whether it has halted
  by_cases hrunning : gc.flags &&& fRunning = 0
  · rw [checkHalted, if_pos hrunning] at hpath
    obtain ⟨rfl, rfl⟩ := Prog.path_ret.mp hpath
    refine ⟨.nothing (Kept.of_eq rfl rfl), ?_⟩
    intro gc' hr hok
    rwa [← Except.ok.inj hr]
  · rw [checkHalted, if_neg hrunning] at hpath
    obtain ⟨a, t1, rfl, hrest⟩ := Prog.path_call.mp hpath
    have hread : deeds none ((.exec [.read cdbgCsr] fun _ => 0, a) :: t1) =
        stopReplies false t1 := rfl
    rw [hread]
    change Prog.Path (if a.rc = 0 ∧ a.buf 0 &&& cdbgSHalt ≠ 0 then _ else Prog.ret gc) t1 r at hrest
    split at hrest
    · -- the report, and then the threads
      rcases Prog.path_bind.mp hrest with ⟨e, rfl, herr⟩ | ⟨side, t2, t3, rfl, h2, h3⟩
      · obtain ⟨_, writes, hwrites⟩ := epilogue_path herr false
        exact absurd hwrites (by simp)
      obtain ⟨hreply, writes, hwrites⟩ := epilogue_path h2 false
      rw [Except.ok.inj hwrites] at h3
      let stopped := gdbPrologue { gc.toGdbSide with flags := gc.flags &&& ~~~fRunning }
      have hcleared : (gdbEpilogue writes (gdbPuts stopped (ascii "S05"))).flags &&& fRunning = 0 := by
        rw [(gdbEpilogue_kept writes _).running]
        have hput : (gdbPuts stopped (ascii "S05")).flags = stopped.flags :=
          (putBytes_fields stopped (ascii "S05")).1
        rw [hput]
        exact running_without _
      have hsync := gdbUpdateThreads_synced threads
        (gdbEpilogue writes (gdbPuts stopped (ascii "S05"))) True []
      rcases Prog.path_bind.mp h3 with ⟨e, rfl, herr⟩ | ⟨side', t4, t5, rfl, h4, h5⟩
      · -- the report is out, but the threads are not read to the end
        rw [stopReplies_append, stopReplies_orderly hsync herr, List.append_nil]
        refine ⟨.halted hrunning hreply ?_ ?_, ?_⟩
        · intro gc' hr
          exact absurd hr (by simp [Except.map])
        · intro hr
          obtain rfl : e = .wild := Except.error.inj hr
          exact hsync.stops herr rfl trivial
        · intro gc' hr
          exact absurd hr (by simp)
      · obtain ⟨rfl, rfl⟩ := Prog.path_ret.mp h5
        rw [List.append_nil, stopReplies_append, stopReplies_orderly hsync h4, List.append_nil]
        obtain ⟨hflags, hsynced⟩ := hsync.returns h4
        refine ⟨.halted hrunning hreply ?_ (by simp [Except.map]), ?_⟩
        · intro gc' hr
          obtain rfl := Except.ok.inj hr
          refine ⟨?_, hsynced⟩
          show side'.flags &&& fRunning = 0
          rw [hflags]
          exact hcleared
        · intro gc' hr hok
          rw [← Except.ok.inj hr]
          exact hok
    · obtain ⟨rfl, rfl⟩ := Prog.path_ret.mp hrest
      refine ⟨.nothing (Kept.of_eq rfl rfl), ?_⟩
      intro gc' hr hok
      rwa [← Except.ok.inj hr]

theorem ack_fields (gc : GdbCnxn Bridge) (c : Byte) :
    (gc.ack c).flags = gc.flags ∧ (gc.ack c).rest = gc.rest := by
  unfold GdbCnxn.ack
  split <;> exact ⟨rfl, rfl⟩

theorem store_fields {gc gc' : GdbCnxn Bridge} {i : ℕ} {c : Byte} (h : gc.store i c = .ok gc') :
    gc'.flags = gc.flags ∧ gc'.rest = gc.rest := by
  unfold GdbCnxn.store at h
  split at h
  · rw [← Except.ok.inj h]
    exact ⟨rfl, rfl⟩
  · exact absurd h (by simp)

theorem gdbRecvByte_fields {gc gc' : GdbCnxn Bridge} {c : Byte} {log : List (ℕ → Byte)}
    (h : gc.gdbRecvByte (fun rxbuf side => (rxbuf, side)) c = .ok (gc', log)) :
    gc'.flags = gc.flags ∧ gc'.rest = gc.rest := by
  unfold GdbCnxn.gdbRecvByte at h
  cases hs : gc.state with
  | idle =>
    simp only [hs] at h
    split_ifs at h
    · obtain ⟨gc1, h1, h⟩ := bind_eq_ok.mp h
      obtain ⟨gc2, h2, h⟩ := bind_eq_ok.mp h
      obtain ⟨rfl, _⟩ := Prod.mk.inj (Except.ok.inj h)
      obtain ⟨hflags1, hrest1⟩ := store_fields h1
      obtain ⟨hflags2, hrest2⟩ := store_fields h2
      exact ⟨hflags2.trans hflags1, hrest2.trans hrest1⟩
    · obtain ⟨rfl, _⟩ := Prod.mk.inj (Except.ok.inj h)
      exact ⟨rfl, rfl⟩
    · obtain ⟨rfl, _⟩ := Prod.mk.inj (Except.ok.inj h)
      exact ⟨rfl, rfl⟩
  | recv =>
    simp only [hs] at h
    split_ifs at h
    · obtain ⟨rfl, _⟩ := Prod.mk.inj (Except.ok.inj h)
      exact ⟨rfl, rfl⟩
    · obtain ⟨rfl, _⟩ := Prod.mk.inj (Except.ok.inj h)
      exact ⟨rfl, rfl⟩
    · obtain ⟨gc1, h1, h⟩ := bind_eq_ok.mp h
      obtain ⟨rfl, _⟩ := Prod.mk.inj (Except.ok.inj h)
      obtain ⟨hflags, hrest⟩ := store_fields h1
      exact ⟨hflags, hrest⟩
  | chk1 =>
    simp only [hs] at h
    obtain ⟨rfl, _⟩ := Prod.mk.inj (Except.ok.inj h)
    exact ⟨rfl, rfl⟩
  | chk2 =>
    simp only [hs] at h
    obtain ⟨gc1, h1, h⟩ := bind_eq_ok.mp h
    obtain ⟨hflags, hrest⟩ := store_fields h1
    split_ifs at h
    · obtain ⟨rfl, _⟩ := Prod.mk.inj (Except.ok.inj h)
      obtain ⟨hflags', hrest'⟩ := ack_fields { gc1 with rxptr := gc1.rxptr + 1 } 0x2b
      exact ⟨hflags'.trans hflags, hrest'.trans hrest⟩
    · obtain ⟨rfl, _⟩ := Prod.mk.inj (Except.ok.inj h)
      obtain ⟨hflags', hrest'⟩ := ack_fields { gc1 with rxptr := gc1.rxptr + 1 } 0x2d
      exact ⟨hflags'.trans hflags, hrest'.trans hrest⟩

theorem serveByte_outcome {threads : ℕ} {gc : GdbCnxn Bridge} (hok : gc.RxOk) {c : Byte}
    {t : List (Call × Answer)} {r : Except Halt (GdbCnxn Bridge)}
    (hpath : Prog.Path (serveByte threads gc c) t r) :
    Outcome (∀ rxbuf, handed gc (.byte c) = some rxbuf → SafeFor gc.toGdbSide rxbuf) gc.toGdbSide
        (deeds (handed gc (.byte c)) t) (r.map GdbCnxn.toGdbSide) ∧
      ∀ gc', r = .ok gc' → gc'.RxOk := by
  obtain ⟨⟨gc1, log⟩, hbyte, hok1⟩ :=
    GdbCnxn.gdbRecvByte_ok (fun rxbuf side => (rxbuf, side)) gc c hok
  obtain ⟨hflags, hrest⟩ := gdbRecvByte_fields hbyte
  have hkept : Kept gc.toGdbSide gc1.toGdbSide := Kept.of_eq hflags hrest
  cases log with
  | nil =>
    have hhanded : handed gc (.byte c) = none := by simp only [handed, hbyte]
    rw [hhanded]
    simp only [serveByte, hbyte] at hpath
    obtain ⟨rfl, rfl⟩ := Prog.path_ret.mp hpath
    refine ⟨.nothing hkept, ?_⟩
    intro gc' hr
    rwa [← Except.ok.inj hr]
  | cons rxbuf log =>
    have hhanded : handed gc (.byte c) = some rxbuf := by simp only [handed, hbyte]
    rw [hhanded]
    simp only [serveByte, hbyte, Prog.ask_bind] at hpath
    obtain ⟨a, t1, rfl, hcommand⟩ := Prog.path_call.mp hpath
    have hdeeds : deeds (some rxbuf) ((.frame, a) :: t1) = deeds (some rxbuf) t1 := rfl
    have hsafe : (∀ rxbuf', some rxbuf = some rxbuf' → SafeFor gc.toGdbSide rxbuf') →
        SafeFor gc1.toGdbSide rxbuf := by
      intro h
      exact fun sel huses => hkept.selection_of (h rxbuf rfl sel huses)
    rw [hdeeds]
    rcases Prog.path_bind.mp hcommand with ⟨e, rfl, herr⟩ | ⟨r1, t2, t3, rfl, h2, h3⟩
    · refine ⟨(handleCommand_outcome herr).of_eq hflags hrest hsafe, ?_⟩
      intro gc' hr
      exact absurd hr (by simp)
    · obtain ⟨rfl, rfl⟩ := Prog.path_ret.mp h3
      rw [List.append_nil]
      refine ⟨(handleCommand_outcome h2).of_eq hflags hrest hsafe, ?_⟩
      intro gc' hr
      rw [← Except.ok.inj hr]
      exact hok1

/-- Whatever event and whatever answers. -/
theorem serveEvent_outcome {threads : ℕ} {gc : GdbCnxn Bridge} (hok : gc.RxOk) {e : ServerEvent}
    {t : List (Call × Answer)} {r : Except Halt (GdbCnxn Bridge)}
    (hpath : Prog.Path (serveEvent threads gc e) t r) :
    Outcome (∀ rxbuf, handed gc e = some rxbuf → SafeFor gc.toGdbSide rxbuf) gc.toGdbSide
        (deeds (handed gc e) t) (r.map GdbCnxn.toGdbSide) ∧
      ∀ gc', r = .ok gc' → gc'.RxOk := by
  cases e with
  | pass =>
    obtain ⟨houtcome, hrx⟩ := checkHalted_outcome hpath
      (∀ rxbuf, handed gc .pass = some rxbuf → SafeFor gc.toGdbSide rxbuf)
    exact ⟨houtcome, fun gc' hr => hrx gc' hr hok⟩
  | byte c => exact serveByte_outcome hok hpath

end M3Dev.Gdb
