import M3Dev.GdbOrderly

/-! What answering a command leaves alone: whether the target is said to be running, the
thread list, and selections in it. -/
namespace M3Dev.Gdb
open CallTree Tools Lk

/-- A pointer to nothing or to a node of the list. -/
def Selected (gc : Conn) (p : ℕ) : Prop := p = 0 ∨ ∃ t ∈ gc.rest.threadlist, t.1 = p

/-- The two selections a connection keeps, by the character that sets them. -/
inductive Selection where
  | general
  | continuing
  deriving Repr, DecidableEq

def Selection.arg : Selection → Byte
  | .general => 0x67
  | .continuing => 0x63

/-- The thread that is selected. -/
def Selection.of (sel : Selection) (gc : Conn) : ℕ :=
  match sel with
  | .general => gc.rest.gselected
  | .continuing => gc.rest.cselected

structure Kept (gc gc' : Conn) : Prop where
  running : gc'.flags &&& fRunning = gc.flags &&& fRunning
  threadlist : gc'.rest.threadlist = gc.rest.threadlist
  selection : ∀ sel : Selection, sel.of gc' = sel.of gc ∨ Selected gc' (sel.of gc')

/-- Nothing has changed but what is being put together. -/
theorem Kept.of_eq {gc gc' : Conn} (hflags : gc'.flags = gc.flags) (hrest : gc'.rest = gc.rest) :
    Kept gc gc' where
  running := by rw [hflags]
  threadlist := by rw [hrest]
  selection sel := .inl (by unfold Selection.of; rw [hrest])

theorem Kept.selected {gc gc' : Conn} (h : Kept gc gc') {p : ℕ} (hp : Selected gc p) :
    Selected gc' p := by
  unfold Selected
  rw [h.threadlist]
  exact hp

theorem Kept.trans {gc gc' gc'' : Conn} (h : Kept gc gc') (h' : Kept gc' gc'') : Kept gc gc'' where
  running := h'.running.trans h.running
  threadlist := h'.threadlist.trans h.threadlist
  selection sel := by
    rcases h'.selection sel with heq | hsel
    · rw [heq]
      rcases h.selection sel with heq' | hsel'
      · exact .inl heq'
      · exact .inr (h'.selected hsel')
    · exact .inr hsel

/-- A good selection stays good. -/
theorem Kept.selection_of {gc gc' : Conn} (h : Kept gc gc') {sel : Selection}
    (hsel : Selected gc (sel.of gc)) : Selected gc' (sel.of gc') := by
  rcases h.selection sel with heq | hsel'
  · rw [heq]
    exact h.selected hsel
  · exact hsel'

theorem Kept.put {gc gc' : Conn} (h : Kept gc gc') (bs : List Byte) : Kept gc (putBytes gc' bs) := by
  obtain ⟨hflags, hrest, _⟩ := putBytes_fields gc' bs
  exact h.trans (Kept.of_eq hflags hrest)

/-- A sent packet changes neither flags nor selections. -/
theorem gdbEpilogue_kept (writes : List WriteResult) (gc : Conn) : Kept gc (gdbEpilogue writes gc) := by
  have hclose : Kept gc (gdbClose gc).1 := (Kept.of_eq rfl rfl : Kept gc gc).put _
  simp only [gdbEpilogue]
  split
  · exact hclose
  · exact hclose.trans (Kept.of_eq rfl rfl)

theorem puthex_eq_putBytes (gc : Conn) (data : List Byte) :
    gdbPuthex gc data = putBytes gc (data.flatMap hex2) :=
  run_eq_putBytes gc (.puthex data)

/-- The reply is put together, and all else is kept. -/
def Replied (gc gc' : Conn) : Prop := Kept gc gc' ∧ Plain gc'

theorem Replied.puts {gc gc' : Conn} (h : Replied gc gc') {s : List Byte}
    (hs : s.head? ≠ some 0x53) : Replied gc (gdbPuts gc' s) :=
  ⟨h.1.put s, h.2.put hs⟩

theorem Replied.puthex {gc gc' : Conn} (h : Replied gc gc') (data : List Byte) :
    Replied gc (gdbPuthex gc' data) := by
  rw [puthex_eq_putBytes]
  exact ⟨h.1.put _, h.2.put (hexdump_head data)⟩

theorem Plain.replied {gc : Conn} (h : Plain gc) : Replied gc gc := ⟨Kept.of_eq rfl rfl, h⟩

/-- The program answers a command of the connection `gc`. -/
def Answers (safe : Prop) (gc : Conn) (p : HostProg Packet) : Prop :=
  ∀ past, p.Ensures (orderly safe) (fun _ r => Replied gc r.2) past

section
variable {safe : Prop} {gc : Conn} {rxbuf : ℕ → Byte}

theorem Answers.ret {rxbuf' : ℕ → Byte} {gc' : Conn} (h : Replied gc gc') :
    Answers safe gc (pure (rxbuf', gc')) := fun _ => h

theorem Silent.answers {α : Type} {p : HostProg α} {f : α → HostProg Packet} (h : Silent p)
    (hf : ∀ a, Answers safe gc (f a)) : Answers safe gc (p >>= f) :=
  fun past => (h safe past).bind fun t a _ => hf a t

/-! ### Selected threads -/

theorem derefThread_orderly {p : ℕ} (h : safe → Selected gc p) (past : List (Call × Answer)) :
    (derefThread gc p).Ensures (orderly safe) (fun _ _ => True) past := by
  unfold derefThread
  split
  · trivial
  next hne =>
    split
    · trivial
    next hnone =>
      -- a node of the list would have been found
      rintro _ hsafe
      rcases h hsafe with hzero | ⟨t, ht, hp⟩
      · exact hne hzero
      · exact List.find?_eq_none.mp hnone t ht (beq_iff_eq.mpr hp)

theorem inactiveSelected_answers {f : Option LkThread → HostProg Packet}
    (h : safe → Selected gc (Selection.general.of gc)) (hf : ∀ t, Answers safe gc (f t)) :
    Answers safe gc (inactiveSelected gc >>= f) := by
  intro past
  apply Prog.Ensures.bind (Q := fun _ _ => True)
  · apply (derefThread_orderly h past).bind
    intro t thread _
    cases thread <;> trivial
  · exact fun t thread _ => hf thread t

/-! ### Registers and memory -/

theorem handleReadMemory_answers (h : Plain gc) (frame : ℕ → Word) :
    Answers safe gc (handleReadMemory frame rxbuf gc) := by
  unfold handleReadMemory
  split
  · apply (swdpAhbRead32_silent _ _ _).answers
    intro r
    exact .ret (h.replied.puthex _)
  · exact .ret h.replied

theorem handleWriteMemory_answers (h : Plain gc) (frame : ℕ → Word) :
    Answers safe gc (handleWriteMemory frame rxbuf gc) := by
  unfold handleWriteMemory
  split
  · exact .ret h.replied
  · dsimp only
    split
    · apply (writeMemory_silent _ _ _).answers
      intro _
      exact .ret (h.replied.puts (by decide))
    · exact .ret h.replied

theorem handleReadRegs_answers (h : Plain gc) (hsel : safe → Selected gc (Selection.general.of gc))
    (frame : ℕ → Word) : Answers safe gc (handleReadRegs frame rxbuf gc) := by
  apply inactiveSelected_answers hsel
  intro t
  cases t with
  | none =>
    apply (swdpCoreReadAll_silent _).answers
    intro r
    exact .ret (h.replied.puthex _)
  | some t => exact .ret (h.replied.puthex _)

theorem handleWriteRegs_answers (h : Plain gc) (hsel : safe → Selected gc (Selection.general.of gc)) :
    Answers safe gc (handleWriteRegs rxbuf gc) := by
  apply inactiveSelected_answers hsel
  intro t
  cases t with
  | none =>
    apply (writeRegsFrom_silent _ _ _).answers
    intro _
    exact .ret (h.replied.puts (by decide))
  | some t => exact .ret h.replied

theorem handleReadReg_answers (h : Plain gc) (hsel : safe → Selected gc (Selection.general.of gc))
    (frame : ℕ → Word) : Answers safe gc (handleReadReg frame rxbuf gc) := by
  apply inactiveSelected_answers hsel
  intro t
  cases t with
  | none =>
    apply (swdpCoreRead_silent _ _).answers
    intro r
    exact .ret (h.replied.puthex _)
  | some t => exact .ret (h.replied.puthex _)

theorem handleWriteReg_answers (h : Plain gc) (hsel : safe → Selected gc (Selection.general.of gc)) :
    Answers safe gc (handleWriteReg rxbuf gc) := by
  apply inactiveSelected_answers hsel
  intro t
  cases t with
  | none =>
    dsimp only
    split
    · exact .ret h.replied
    · split
      · exact .ret h.replied
      · apply (swdpCoreWrite_silent _ _).answers
        intro _
        exact .ret (h.replied.puts (by decide))
  | some t => exact .ret h.replied

/-! ### Queries -/

/-- Flags that have nothing to do with running. -/
theorem running_or {f m : Word} (h : m &&& fRunning = 0) :
    (f ||| m) &&& fRunning = f &&& fRunning := by
  apply BitVec.eq_of_getLsbD_eq
  intro i _
  have hbit : (m.getLsbD i && fRunning.getLsbD i) = false := by
    rw [← BitVec.getLsbD_and, h]
    exact BitVec.getLsbD_zero
  rw [BitVec.getLsbD_and, BitVec.getLsbD_or, Bool.and_or_distrib_right, hbit, Bool.or_false,
    BitVec.getLsbD_and]

theorem running_andNot {f m : Word} (h : m &&& fRunning = 0) :
    (f &&& ~~~m) &&& fRunning = f &&& fRunning := by
  apply BitVec.eq_of_getLsbD_eq
  intro i hi
  have hbit : (m.getLsbD i && fRunning.getLsbD i) = false := by
    rw [← BitVec.getLsbD_and, h]
    exact BitVec.getLsbD_zero
  simp only [BitVec.getLsbD_and, BitVec.getLsbD_not, hi, decide_true, Bool.true_and]
  revert hbit
  cases m.getLsbD i <;> cases fRunning.getLsbD i <;> simp

theorem running_without (f : Word) : (f &&& ~~~fRunning) &&& fRunning = 0 := by
  rw [BitVec.and_assoc, BitVec.and_comm (~~~fRunning), BitVec.and_not_self]
  exact BitVec.and_zero

/-- The packet goes out: no stop reply, and the connection is kept. -/
theorem epilogue_orderly {gc' : Conn} (h : Replied gc gc') (past : List (Call × Answer)) :
    (epilogue gc').Ensures (orderly safe) (fun _ gc'' => Kept gc gc'') past := by
  unfold epilogue
  split
  · exact h.1.trans (gdbEpilogue_kept [] gc')
  next packet hpacket =>
    refine ⟨?_, fun a => h.1.trans (gdbEpilogue_kept a.writes gc')⟩
    intro hsend
    exact h.2.close hpacket (Call.send.inj hsend)

theorem consoleAll_orderly (msgs : List (List Byte)) {gc' : Conn} (h : Kept gc gc')
    (past : List (Call × Answer)) :
    (consoleAll msgs gc').Ensures (orderly safe) (fun _ gc'' => Kept gc gc'') past := by
  induction msgs generalizing gc' past with
  | nil => exact h
  | cons msg msgs ih =>
    apply Prog.Ensures.bind (Q := fun _ gc'' => Kept gc gc'')
    · unfold gdbConsolePuts
      split
      · exact h
      · have hstart : Replied gc (gdbPrologue gc') :=
          ⟨h.trans (Kept.of_eq rfl rfl), plain_prologue gc'⟩
        have hputc : gdbPutc (gdbPrologue gc') 0x4f = putBytes (gdbPrologue gc') [0x4f] := rfl
        rw [hputc]
        apply epilogue_orderly
        apply Replied.puthex
        exact hstart.puts (by decide)
    · intro t gc'' hkept
      exact ih hkept t

theorem handleRcmd_answers (args : ℕ) : Answers safe gc (handleRcmd rxbuf gc args) := by
  intro past
  unfold handleRcmd
  refine ⟨by simp [orderly], fun a => ?_⟩
  have hconsole : Kept gc { gc with flags := gc.flags ||| fConsole } :=
    ⟨running_or (by decide), rfl, fun _ => .inl rfl⟩
  apply (consoleAll_orderly a.msgs hconsole _).bind
  intro t gc' hkept
  have hdone : Replied gc (gdbPrologue { gc' with
      flags := gc'.flags &&& ~~~fConsole, rest := { gc'.rest with swdpStepNoInts := a.rc } }) :=
    ⟨hkept.trans ⟨running_andNot (by decide), rfl, fun _ => .inl rfl⟩, plain_prologue _⟩
  exact hdone.puts (by decide)

theorem threadInfo_head (ts : ThreadList) : (threadInfo ts).head? ≠ some 0x53 := by
  cases ts with
  | nil => decide
  | cons t ts => simp [threadInfo]

theorem ascii_append (s t : String) : ascii (s ++ t) = ascii s ++ ascii t := by
  simp only [ascii, String.toList_append, List.map_append]

theorem targetXml_head : targetXml.head? ≠ some 0x53 := by
  have hfirst : (ascii "<?xml version=\"1.0\"?>").head? = some 0x3c := by decide
  simp only [targetXml, ascii_append, List.head?_append, hfirst, Option.some_or]
  decide

theorem handleQuery_answers (h : Plain gc) {cmd : List Byte}
    (hsel : safe → cmd = ascii "C" → Selected gc (Selection.continuing.of gc)) (args : ℕ) : Answers safe gc (handleQuery rxbuf gc cmd args) := by
  unfold handleQuery
  split_ifs
  · exact .ret (h.replied.puts (threadInfo_head _))
  · exact .ret (h.replied.puts (by decide))
  · dsimp only
    split
    · exact .ret (h.replied.puthex _)
    · exact .ret (h.replied.puthex _)
  next hcmd =>
    intro past
    apply (derefThread_orderly (fun hs => hsel hs hcmd) past).bind
    intro t thread _
    cases thread with
    | none => exact h.replied.puts (by decide)
    | some thread =>
      apply h.replied.puts
      intro hhead
      exact absurd (Option.some.inj hhead) (by decide)
  · exact handleRcmd_answers args
  · exact .ret (h.replied.puts (by decide +kernel))
  · exact .ret ((h.replied.puts (by decide)).puts targetXml_head)
  · exact .ret h.replied
  · exact .ret h.replied

theorem handleSet_replied (h : Plain gc) (cmd : List Byte) : Replied gc (handleSet rxbuf gc cmd).2 := by
  unfold handleSet
  split
  · have hacked : Replied gc { gc with flags := gc.flags &&& ~~~fAck } :=
      ⟨⟨running_andNot (by decide), rfl, fun _ => .inl rfl⟩, h⟩
    exact hacked.puts (by decide)
  · exact h.replied

/-- The name of the query in the buffer, as it is cut off there. -/
def queryName (rxbuf : ℕ → Byte) : List Byte :=
  let name := cstr rxbuf 1
  let len := (name.takeWhile (fun c => c ≠ 0x3a && c ≠ 0x2c)).length
  cstr (if len < name.length then Function.update rxbuf (1 + len) 0 else rxbuf) 1

theorem handleExtended_answers (h : Plain gc) {query : Bool}
    (hsel : safe → query = true ∧ queryName rxbuf = ascii "C" → Selected gc (Selection.continuing.of gc)) :
    Answers safe gc (handleExtended query rxbuf gc) := by
  unfold handleExtended
  unfold queryName at hsel
  dsimp only at hsel ⊢
  cases query with
  | false =>
    rw [if_neg Bool.false_ne_true]
    exact fun _ => handleSet_replied h _
  | true =>
    rw [if_pos rfl]
    split_ifs at hsel ⊢
    · exact handleQuery_answers h (fun hs hcmd => hsel hs ⟨rfl, hcmd⟩) _
    · exact handleQuery_answers h (fun hs hcmd => hsel hs ⟨rfl, hcmd⟩) _

/-! ### Other commands -/

theorem selected_head (gc : Conn) : Selected gc gc.rest.threadlist.head := by
  unfold ThreadList.head
  cases hlist : gc.rest.threadlist with
  | nil => exact .inl rfl
  | cons t ts =>
    right
    rw [hlist]
    exact ⟨t, List.mem_cons_self, rfl⟩

theorem selected_find (gc : Conn) (tptr : Word) :
    Selected gc (findLkThread gc.rest.threadlist tptr) := by
  unfold findLkThread ThreadList.head
  cases hfound : gc.rest.threadlist.filter (fun t => t.2.threadptr == tptr) with
  | nil => exact .inl rfl
  | cons t ts =>
    right
    have hmem : t ∈ gc.rest.threadlist.filter (fun t => t.2.threadptr == tptr) := by
      rw [hfound]
      exact List.mem_cons_self
    exact ⟨t, (List.mem_filter.mp hmem).1, rfl⟩

/-- `Hg` and `Hc` select a thread of the list or none. -/
theorem handleSelect_replied (h : Plain gc) :
    Replied gc (handleSelect rxbuf gc).2 ∧
      ∀ sel : Selection, rxbuf 1 = sel.arg →
        Selected (handleSelect rxbuf gc).2 (sel.of (handleSelect rxbuf gc).2) := by
  unfold handleSelect
  dsimp only
  generalize ht : (if rxbuf 2 = 0x2d ∧ rxbuf 3 = 0x31 then gc.rest.threadlist.head
    else if findLkThread gc.rest.threadlist (strtoul (cstr rxbuf 2)) = 0 then
      gc.rest.threadlist.head
    else findLkThread gc.rest.threadlist (strtoul (cstr rxbuf 2))) = t
  have htsel : Selected gc t := by
    rw [← ht]
    split_ifs
    · exact selected_head gc
    · exact selected_head gc
    · exact selected_find gc _
  generalize hrest : (if rxbuf 1 = 0x67 then { gc.rest with gselected := t }
    else if rxbuf 1 = 0x63 then { gc.rest with cselected := t } else gc.rest) = rest
  have hset : ∀ sel : Selection, rxbuf 1 = sel.arg → sel.of { gc with rest := rest } = t := by
    intro sel harg
    rw [← hrest, harg]
    cases sel <;> rfl
  have hkept : Kept gc { gc with rest := rest } := by
    rw [← hrest]
    split_ifs
    · refine ⟨rfl, rfl, ?_⟩
      rintro (_ | _)
      · exact .inr htsel
      · exact .inl rfl
    · refine ⟨rfl, rfl, ?_⟩
      rintro (_ | _)
      · exact .inl rfl
      · exact .inr htsel
    · exact Kept.of_eq rfl rfl
  have hreplied : Replied gc { gc with rest := rest } := ⟨hkept, h⟩
  have hput : Kept { gc with rest := rest } (gdbPuts { gc with rest := rest } (ascii "OK")) :=
    (Kept.of_eq rfl rfl : Kept { gc with rest := rest } { gc with rest := rest }).put _
  refine ⟨hreplied.puts (by decide), ?_⟩
  intro sel harg
  apply hput.selection_of
  rw [hset sel harg]
  exact hkept.selected htsel

theorem handleAlive_replied (h : Plain gc) : Replied gc (handleAlive rxbuf gc).2 := by
  unfold handleAlive
  dsimp only
  split
  · exact h.replied.puts (by decide)
  · exact h.replied.puts (by decide)

theorem handlePoint_answers (h : Plain gc) (add : Bool) :
    Answers safe gc (handlePoint add rxbuf gc) := by
  unfold handlePoint
  split
  · apply (handleBreakpoint_silent _ _ _).answers
    intro r
    have hkept : Replied gc { gc with rest := { gc.rest with toBreakTables := r.2 } } :=
      ⟨⟨rfl, rfl, fun _ => .inl rfl⟩, h⟩
    dsimp only
    split
    · exact .ret (hkept.puts (by decide))
    · exact .ret (hkept.puts (by decide))
  · exact .ret h.replied

end

end M3Dev.Gdb
