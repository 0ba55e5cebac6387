import M3Dev.DebuggerLanguage

/-! Files of function definitions: what `do_script` makes of them, and what a call of one of
the functions then runs. -/
namespace M3Dev.Debugger
open Gdb (ascii isSpace)
variable {W H : Type}

/-- A function: its name and its lines. -/
abbrev Function := Text × List Text

/-- The functions there are, the latest first. -/
def Shell.functions (s : Shell W) : List Function :=
  s.allfuncs.map fun f => (f.name, f.lines.map s.lineText)

/-! ### What a file defines -/

/-- The functions read, and the one that is not complete. -/
structure Reader where
  done : List Function
  current : Option Function

/-- A line, without the blanks in front of it. -/
def unindented (t : Text) : Text := cstr t (skipSpaces t 0)

/-- The line is passed over. -/
def passedOver (t : Text) : Bool :=
  iscntrl (charAt t (skipSpaces t 0)) || charAt t (skipSpaces t 0) == 0x23

def headerName (t : Text) : Text :=
  (cstr t (skipSpaces t (skipSpaces t 0 + 9))).takeWhile (!isSpace ·)

/-- A line of a file that defines functions and does nothing else. -/
def Reader.read (σ : Reader) (t : Text) : Option Reader :=
  if passedOver t then some σ
  else if startsWith t (skipSpaces t 0) (ascii "function") then
    if σ.current.isSome ∨ headerName t = [] then none
    else some { σ with current := some (headerName t, []) }
  else
    σ.current.map fun f =>
      if startsWith t (skipSpaces t 0) (ascii "end") then ⟨f :: σ.done, none⟩
      else { σ with current := some (f.1, f.2 ++ [unindented t]) }

def Reader.readAll (σ : Reader) (ts : List Text) : Option Reader := ts.foldlM Reader.read σ

/-- The first line of a function. -/
def Header (t name : Text) : Prop :=
  ¬ passedOver t ∧ startsWith t (skipSpaces t 0) (ascii "function") ∧ headerName t = name ∧ name ≠ []

/-- A line that may stand in a function. -/
def InBody (t : Text) : Prop :=
  ¬ startsWith t (skipSpaces t 0) (ascii "function") ∧ ¬ startsWith t (skipSpaces t 0) (ascii "end")

/-- The last line of a function. -/
def Ends (t : Text) : Prop :=
  ¬ passedOver t ∧ ¬ startsWith t (skipSpaces t 0) (ascii "function") ∧
    startsWith t (skipSpaces t 0) (ascii "end")

/-- What is recorded of the lines of a function. -/
def recordedOf (body : List Text) : List Text := (body.filter (!passedOver ·)).map unindented

/-- The lines of a file that defines these functions, in order, and does nothing else; between
them are blank lines and comments, and behind them there may be one that has no end. -/
inductive Defines : List Text → List Function → Prop
  | nil : Defines [] []
  | blank {t : Text} {ts : List Text} {fs : List Function} (h : passedOver t)
    (rest : Defines ts fs) : Defines (t :: ts) fs
  | function {t name u : Text} {body ts : List Text} {fs : List Function} (head : Header t name)
    (lines : ∀ l ∈ body, InBody l) (ends : Ends u) (rest : Defines ts fs) :
    Defines (t :: body ++ u :: ts) ((name, recordedOf body) :: fs)
  | unfinished {t name : Text} {body : List Text} (head : Header t name)
    (lines : ∀ l ∈ body, InBody l) : Defines (t :: body) []

theorem Reader.readAll_append (σ : Reader) (ts us : List Text) :
    σ.readAll (ts ++ us) = (σ.readAll ts).bind (·.readAll us) := List.foldlM_append

theorem Reader.readAll_cons (σ : Reader) (t : Text) (ts : List Text) :
    σ.readAll (t :: ts) = (σ.read t).bind (·.readAll ts) := List.foldlM_cons

theorem Header.read {t name : Text} (h : Header t name) (done : List Function) :
    Reader.read ⟨done, none⟩ t = some ⟨done, some (name, [])⟩ := by
  obtain ⟨hover, hfunction, rfl, hname⟩ := h
  rw [Reader.read, if_neg hover, if_pos hfunction]
  simp [hname]

theorem Ends.read {t : Text} (h : Ends t) (done : List Function) (f : Function) :
    Reader.read ⟨done, some f⟩ t = some ⟨f :: done, none⟩ := by
  obtain ⟨hover, hfunction, hend⟩ := h
  rw [Reader.read, if_neg hover, if_neg hfunction, Option.map_some, if_pos hend]

theorem Reader.read_body {σ : Reader} {f : Function} (hσ : σ.current = some f) {ts : List Text}
    (hts : ∀ t ∈ ts, InBody t) :
    σ.readAll ts = some { σ with current := some (f.1, f.2 ++ recordedOf ts) } := by
  unfold recordedOf
  induction ts generalizing σ f with
  | nil =>
    rw [List.filter_nil, List.map_nil, List.append_nil, ← hσ]
    rfl
  | cons t ts ih =>
    obtain ⟨⟨hfunction, hend⟩, hts⟩ := List.forall_mem_cons.mp hts
    rw [Reader.readAll_cons, Reader.read]
    by_cases hover : passedOver t
    · rw [if_pos hover, List.filter_cons_of_neg (by simpa using hover)]
      exact ih hσ hts
    · rw [if_neg hover, if_neg hfunction, hσ, Option.map_some, if_neg hend,
        List.filter_cons_of_pos (by simpa using hover)]
      have hrest := ih (σ := { σ with current := some (f.1, f.2 ++ [unindented t]) }) rfl hts
      rw [List.append_assoc] at hrest
      exact hrest

/-- A function up to its last line. -/
theorem Header.read_body {t name : Text} (h : Header t name) {body : List Text}
    (hbody : ∀ l ∈ body, InBody l) (done : List Function) :
    Reader.readAll ⟨done, none⟩ (t :: body) = some ⟨done, some (name, recordedOf body)⟩ := by
  rw [Reader.readAll_cons, h.read, Option.bind_some]
  exact Reader.read_body (σ := ⟨done, some (name, [])⟩) rfl hbody

/-- A file of definitions is read as the functions they stand for. -/
theorem Defines.readAll {ts : List Text} {fs : List Function} (h : Defines ts fs)
    (done : List Function) :
    ∃ σ, Reader.readAll ⟨done, none⟩ ts = some σ ∧ σ.done = fs.reverse ++ done := by
  induction h generalizing done with
  | nil => exact ⟨_, rfl, rfl⟩
  | blank hover _ ih =>
    obtain ⟨σ, hσ, hdone⟩ := ih done
    refine ⟨σ, ?_, hdone⟩
    rw [Reader.readAll_cons, Reader.read, if_pos hover]
    exact hσ
  | @function t name u body ts fs hhead hlines hends _ ih =>
    obtain ⟨σ, hσ, hdone⟩ := ih ((name, recordedOf body) :: done)
    refine ⟨σ, ?_, ?_⟩
    · rw [Reader.readAll_append, hhead.read_body hlines, Option.bind_some, Reader.readAll_cons,
        hends.read]
      exact hσ
    · rw [hdone, List.reverse_cons, List.append_assoc]
      rfl
  | unfinished hhead hlines => exact ⟨_, hhead.read_body hlines done, rfl⟩

/-! ### What `do_script` reads -/

/-- The file has these lines to come, and there is memory for what is made of them. -/
def Feeds (sys : System W H) (fp : Option H) : List Text → W → Prop
  | [], w => (sys.fgets fp w).1 = none
  | t :: ts, w => (sys.fgets fp w).1 = some t ∧ Feeds sys fp ts (sys.fgets fp w).2 ∧
      (sys.malloc (sys.fgets fp w).2).1 ∧ Feeds sys fp ts (sys.malloc (sys.fgets fp w).2).2

/-- What has been read so far from where `do_script` started; `linebuf` is the text buffer `b`. -/
structure Reads (s : Shell W) (b : ℕ) (r : Recording W) (σ : Reader) : Prop where
  done : r.shell.functions = σ.done
  current : r.newfunc.map (fun f => (f.name, f.lines.map r.shell.lineText)) = σ.current
  room : b < r.shell.objects.length
  apart : r.shell.Apart b
  newApart : ∀ f ∈ r.newfunc, ∀ l ∈ f.lines, l ≠ b
  vars : r.shell.allVariables = s.allVariables
  frame : r.shell.frameArgv = s.frameArgv
  printed : r.shell.printed = s.printed

section
variable {s : Shell W} {b : ℕ} {r : Recording W} {σ σ' : Reader}

theorem lineText_set {t : Text} {l : ℕ} (hl : l ≠ b) (s : Shell W) :
    (s.setObject b t).lineText l = s.lineText l := by
  rw [Shell.lineText, Shell.setObject, List.getD_eq_getElem?_getD, List.getElem?_set_ne (Ne.symm hl),
    ← List.getD_eq_getElem?_getD, Shell.lineText]

/-- Another text in `linebuf`, and another world. -/
theorem Reads.overwrite (h : Reads s b r σ) (t : Text) (w : W) :
    Reads s b (r.filled b t w) σ := by
  have hkept (l : ℕ) (hl : l ≠ b) : (r.filled b t w).shell.lineText l = r.shell.lineText l :=
    lineText_set hl r.shell
  refine ⟨?_, ?_, ?_, h.apart, h.newApart, h.vars, h.frame, h.printed⟩
  · rw [← h.done]
    apply List.map_congr_left
    intro f hf
    have hlines : f.lines.map (r.filled b t w).shell.lineText = f.lines.map r.shell.lineText :=
      List.map_congr_left fun l hl => hkept l (h.apart f hf l hl)
    rw [hlines]
  · rw [← h.current]
    apply Option.map_congr
    intro f hf
    have hlines : f.lines.map (r.filled b t w).shell.lineText = f.lines.map r.shell.lineText :=
      List.map_congr_left fun l hl => hkept l (h.newApart f hf l hl)
    rw [hlines]
  · show b < (r.shell.objects.set b t).length
    rw [List.length_set]
    exact h.room

theorem Reads.begins (h : Reads s b r σ) (u : Text) (w : W) (name : Text) :
    Reads s b (.begin { r.shell.setObject b u with world := w } name)
      { σ with current := some (name, []) } := by
  have hset := h.overwrite u w
  refine ⟨hset.done, rfl, hset.room, hset.apart, ?_, hset.vars, hset.frame, hset.printed⟩
  rintro f ⟨⟩ l hl
  exact absurd hl List.not_mem_nil

theorem Reads.adds (h : Reads s b r σ) {f : FuncInfo} (hf : r.newfunc = some f) (u : Text) (w : W) :
    Reads s b ⟨{ (r.addLine f hf u).shell with world := w }, (r.addLine f hf u).newfunc,
      (r.addLine f hf u).allocated⟩
      { σ with current := some (f.name, f.lines.map r.shell.lineText ++ [cstr u 0]) } := by
  have hkept {l : ℕ} (hl : l < r.shell.objects.length) :
      (r.shell.alloc u).lineText l = r.shell.lineText l := r.shell.alloc_lineText hl
  have hlast : (r.shell.alloc u).lineText r.shell.objects.length = cstr u 0 := by
    rw [Shell.lineText, Shell.alloc, List.getD_eq_getElem?_getD, List.getElem?_concat_length,
      Option.getD_some]
  refine ⟨?_, ?_, ?_, h.apart, ?_, h.vars, h.frame, h.printed⟩
  · rw [← h.done]
    apply List.map_congr_left
    intro g hg
    have hlines : g.lines.map (r.shell.alloc u).lineText = g.lines.map r.shell.lineText :=
      List.map_congr_left fun l hl => hkept (r.shell.recorded g hg l hl)
    exact congrArg (Prod.mk g.name) hlines
  · have hlines : f.lines.map (r.shell.alloc u).lineText = f.lines.map r.shell.lineText :=
      List.map_congr_left fun l hl => hkept (r.allocated f hf l hl)
    show some (f.name, (f.lines ++ [r.shell.objects.length]).map (r.shell.alloc u).lineText) = _
    rw [List.map_append, hlines, List.map_singleton, hlast]
  · show b < (r.shell.objects ++ [u]).length
    exact Nat.lt_of_lt_of_le h.room (by simp)
  · rintro g ⟨⟩ l hl
    rcases List.mem_append.mp hl with hl | hl
    · exact h.newApart f hf l hl
    · rw [List.mem_singleton.mp hl]
      exact (Nat.ne_of_lt h.room).symm

theorem Reads.links (h : Reads s b r σ) {f : FuncInfo} (hf : r.newfunc = some f) :
    Reads s b (r.link f hf) ⟨(f.name, f.lines.map r.shell.lineText) :: σ.done, none⟩ := by
  refine ⟨?_, rfl, h.room, ?_, nofun, h.vars, h.frame, h.printed⟩
  · rw [← h.done]
    rfl
  · intro g hg l hl
    rcases List.mem_cons.mp hg with rfl | hg
    · exact h.newApart g hf l hl
    · exact h.apart g hg l hl

/-! A pass of the loop, by what the line in the buffer is. -/

section
variable {sys : System W H} (command : Command W) {t : Text} (hbuf : r.shell.objects.getD b [] = t)
include hbuf

theorem scriptLine_over (hover : passedOver t = true) : scriptLine sys command b r = .ok (.next r) := by
  have hskip : iscntrl (charAt t (skipSpaces t 0)) = true ∨ charAt t (skipSpaces t 0) = 0x23 := by
    simpa [passedOver] using hover
  unfold scriptLine
  dsimp only
  rw [hbuf, if_pos hskip]

theorem scriptLine_header (hover : ¬ passedOver t = true)
    (hfunction : startsWith t (skipSpaces t 0) (ascii "function") = true) (hnew : r.newfunc = none)
    (hname : headerName t ≠ []) (hmalloc : (sys.malloc r.shell.world).1 = true) :
    ∃ u, scriptLine sys command b r = .ok (.next (.begin
      { r.shell.setObject b u with world := (sys.malloc r.shell.world).2 } (headerName t))) := by
  have hskip : ¬ (iscntrl (charAt t (skipSpaces t 0)) = true ∨ charAt t (skipSpaces t 0) = 0x23) := by
    simpa [passedOver] using hover
  have hnone : ¬ r.newfunc.isSome = true := by simp [hnew]
  have hsome : ¬ (cstr t (skipSpaces t (skipSpaces t 0 + 9))).takeWhile (!isSpace ·) = [] := hname
  have hroom (u : Text) : (sys.malloc (r.shell.setObject b u).world).1 = true := hmalloc
  unfold scriptLine
  dsimp only
  rw [hbuf, if_neg hskip, if_pos hfunction, if_neg hnone, if_neg hsome, if_pos (hroom _)]
  exact ⟨_, rfl⟩

theorem scriptLine_body (hover : ¬ passedOver t = true)
    (hfunction : ¬ startsWith t (skipSpaces t 0) (ascii "function") = true) {f : FuncInfo}
    (hf : r.newfunc = some f) (hmalloc : (sys.malloc r.shell.world).1 = true) :
    scriptLine sys command b r = .ok (.next
      (if startsWith t (skipSpaces t 0) (ascii "end") then r.link f hf
      else
        let r' := r.addLine f hf (unindented t)
        ⟨{ r'.shell with world := (sys.malloc r.shell.world).2 }, r'.newfunc, r'.allocated⟩)) := by
  have hskip : ¬ (iscntrl (charAt t (skipSpaces t 0)) = true ∨ charAt t (skipSpaces t 0) = 0x23) := by
    simpa [passedOver] using hover
  unfold scriptLine
  dsimp only
  rw [hbuf, if_neg hskip, if_neg hfunction]
  split
  next f' hf' =>
    obtain rfl := Option.some.inj (hf.symm.trans hf')
    by_cases hend : startsWith t (skipSpaces t 0) (ascii "end") = true
    · rw [if_pos hend, if_pos hend]
    · rw [if_neg hend, if_neg hend, if_pos hmalloc]
      rfl
  next hnone => exact absurd (hf.symm.trans hnone) (by simp)

end

/-- A pass of the loop does with the line what it stands for. -/
theorem scriptLine_reads {sys : System W H} (command : Command W) {t : Text} {w : W}
    (hmalloc : (sys.malloc w).1) (h : Reads s b r σ) (hread : σ.read t = some σ') :
    ∃ r', scriptLine sys command b (r.filled b t w) = .ok (.next r') ∧ Reads s b r' σ' ∧
      (r'.shell.world = w ∨ r'.shell.world = (sys.malloc w).2) := by
  have hfill := h.overwrite t w
  have hbuffer : (r.filled b t w).shell.objects.getD b [] = t := by
    show (r.shell.objects.set b t).getD b [] = t
    rw [List.getD_eq_getElem?_getD, List.getElem?_set_self h.room, Option.getD_some]
  have hworld : (r.filled b t w).shell.world = w := rfl
  generalize r.filled b t w = r1 at *
  subst hworld
  rw [Reader.read] at hread
  by_cases hover : passedOver t
  · rw [if_pos hover] at hread
    obtain rfl := Option.some.inj hread
    exact ⟨r1, scriptLine_over command hbuffer hover, hfill, .inl rfl⟩
  rw [if_neg hover] at hread
  by_cases hfunction : startsWith t (skipSpaces t 0) (ascii "function")
  · rw [if_pos hfunction, Option.ite_none_left_eq_some, not_or] at hread
    obtain ⟨⟨hcurrent, hname⟩, hread⟩ := hread
    obtain rfl := Option.some.inj hread
    have hnew : r1.newfunc = none := by
      rw [← hfill.current] at hcurrent
      simpa using hcurrent
    obtain ⟨u, hpass⟩ := scriptLine_header command hbuffer hover hfunction hnew hname hmalloc
    exact ⟨_, hpass, hfill.begins u _ _, .inr rfl⟩
  · rw [if_neg hfunction] at hread
    obtain ⟨f, hσ, hread⟩ := Option.map_eq_some_iff.mp hread
    have hcurrent := hfill.current
    rw [hσ] at hcurrent
    obtain ⟨g, hg, rfl⟩ := Option.map_eq_some_iff.mp hcurrent
    refine ⟨_, scriptLine_body command hbuffer hover hfunction hg hmalloc, ?_⟩
    by_cases hend : startsWith t (skipSpaces t 0) (ascii "end")
    · rw [if_pos hend] at hread
      rw [if_pos hend, ← hread]
      exact ⟨hfill.links hg, .inl rfl⟩
    · rw [if_neg hend] at hread
      rw [if_neg hend, ← hread]
      have hadds := hfill.adds hg (unindented t) (sys.malloc r1.shell.world).2
      have hline : cstr (unindented t) 0 = unindented t := cstr_cstr t (skipSpaces t 0)
      rw [hline] at hadds
      exact ⟨hadds, .inr rfl⟩

theorem scriptLoop_reads {sys : System W H} (command : Command W) {fp : Option H} {ts : List Text}
    {fuel : ℕ} (hfuel : ts.length < fuel) (hfeeds : Feeds sys fp ts r.shell.world)
    (h : Reads s b r σ) (hread : σ.readAll ts = some σ') :
    ∃ s', scriptLoop sys command fp b fuel r = .ok (0, s') ∧ s'.functions = σ'.done ∧
      s'.allVariables = s.allVariables ∧ s'.frameArgv = s.frameArgv ∧ s'.printed = s.printed := by
  induction ts generalizing fuel r σ with
  | nil =>
    obtain ⟨n, rfl⟩ : ∃ n, fuel = n + 1 := ⟨fuel - 1, by simp at hfuel; omega⟩
    obtain rfl := Option.some.inj hread
    rw [scriptLoop]
    have hend : (sys.fgets fp r.shell.world).1 = none := hfeeds
    rcases heq : sys.fgets fp r.shell.world with ⟨_ | t, w⟩
    · refine ⟨_, rfl, ?_⟩
      cases fp with
      | none => exact ⟨h.done, h.vars, h.frame, h.printed⟩
      | some file => exact ⟨h.done, h.vars, h.frame, h.printed⟩
    · rw [heq] at hend
      exact absurd hend (by simp)
  | cons t ts ih =>
    obtain ⟨n, rfl⟩ : ∃ n, fuel = n + 1 := ⟨fuel - 1, by simp at hfuel; omega⟩
    obtain ⟨hline, hnext, hmalloc, hnext'⟩ := hfeeds
    rw [Reader.readAll_cons] at hread
    obtain ⟨σ1, hσ1, hrest⟩ := Option.bind_eq_some_iff.mp hread
    rw [scriptLoop]
    rcases heq : sys.fgets fp r.shell.world with ⟨_ | u, w⟩
    · rw [heq] at hline
      exact absurd hline (by simp)
    · rw [heq] at hline hnext hmalloc hnext'
      obtain rfl := Option.some.inj hline
      obtain ⟨r1, hpass, hreads, hw⟩ := scriptLine_reads command hmalloc h hσ1
      have hfeeds : Feeds sys fp ts r1.shell.world := by
        rcases hw with hw | hw
        · rwa [hw]
        · rwa [hw]
      simp only [bind, Except.bind, hpass]
      exact ih (by simp at hfuel; omega) hfeeds hreads hrest

/-- The name is of no command of the debugger itself. -/
structure Unclaimed (cmd : Text) : Prop where
  set : sameName cmd (ascii "set") = false
  script : sameName cmd (ascii "script") = false
  commands : debuggerCommands.find? (sameName cmd) = none

/-- A call goes to the latest function of that name. -/
theorem debuggerExec_function (sys : System W H) (command : Command W) (fuel : ℕ) {cmd : Text}
    (hcmd : Unclaimed cmd) (args : List Param) {g : Function}
    (h : s.functions.find? (fun f => sameName cmd f.1) = some g) :
    ∃ f ∈ s.allfuncs, debuggerExec sys command fuel cmd args s = execFunction command f args s ∧
      (f.name, f.lines.map s.lineText) = g := by
  rw [Shell.functions, List.find?_map, Option.map_eq_some_iff] at h
  obtain ⟨f, hf, rfl⟩ := h
  refine ⟨f, List.mem_of_find?_eq_some hf, ?_, rfl⟩
  rw [debuggerExec, hcmd.set, hcmd.script, hcmd.commands]
  have hfind : s.allfuncs.find? (fun f => sameName cmd f.name) = some f := hf
  simp only [hfind, Bool.false_eq_true, if_false]

/-- The file of a script: `stdin`, or one that is opened. -/
inductive Opens (sys : System W H) (name : Text) (w : W) : Option H → W → Prop
  | stdin (h : name = ascii "-") : Opens sys name w none w
  | file {fp : H} {w' : W} (h : name ≠ ascii "-") (hopen : sys.fopen name w = (some fp, w')) :
    Opens sys name w (some fp) w'

theorem Opens.doScript {sys : System W H} {command : Command W} {file : Param} {fp : Option H}
    {w : W} (h : Opens sys file.s s.world fp w) (fuel : ℕ) :
    doScript sys command fuel [file] s =
      scriptLoop sys command fp s.objects.length fuel (.outside ({ s with world := w }.alloc [])) := by
  cases h with
  | stdin hname => rw [Debugger.doScript, if_pos hname]
  | file hname hopen => rw [Debugger.doScript, if_neg hname, hopen]

/-- A script of definitions adds the functions they stand for, without the blanks and comments,
and nothing else; and a call in any case then runs the last one of that name, if the name is of
no command of the debugger. -/
theorem script_defines (sys : System W H) (command : Command W) {ts : List Text}
    {fs : List Function} (hts : Defines ts fs) {file : Param} {fp : Option H} {w : W}
    (hopen : Opens sys file.s s.world fp w) (hfeeds : Feeds sys fp ts w) {fuel : ℕ}
    (hfuel : ts.length < fuel) :
    ∃ s', doScript sys command fuel [file] s = .ok (0, s') ∧
      s'.functions = fs.reverse ++ s.functions ∧
      s'.allVariables = s.allVariables ∧ s'.frameArgv = s.frameArgv ∧ s'.printed = s.printed ∧
      ∀ cmd, Unclaimed cmd → ∀ g,
        (fs.reverse ++ s.functions).find? (fun f => sameName cmd f.1) = some g →
        ∀ fuel' args, ∃ f,
          debuggerExec sys command fuel' cmd args s' = execFunction command f args s' ∧
            (f.name, f.lines.map s'.lineText) = g := by
  let s1 : Shell W := { s with world := w }.alloc []
  have hstart : Reads s s.objects.length (.outside s1) ⟨s.functions, none⟩ := by
    refine ⟨?_, rfl, ?_, s.apart_new, nofun, rfl, rfl, rfl⟩
    · apply List.map_congr_left
      intro f hf
      have hlines : f.lines.map s1.lineText = f.lines.map s.lineText :=
        List.map_congr_left fun l hl => s.alloc_lineText (s.recorded f hf l hl)
      exact congrArg (Prod.mk f.name) hlines
    · show s.objects.length < (s.objects ++ [[]]).length
      simp
  obtain ⟨σ, hread, hdone⟩ := hts.readAll s.functions
  obtain ⟨s', hloop, hfunctions, hvars, hframe, hprinted⟩ :=
    scriptLoop_reads command hfuel hfeeds hstart hread
  rw [hdone] at hfunctions
  refine ⟨s', (hopen.doScript fuel).trans hloop, hfunctions, hvars, hframe, hprinted, ?_⟩
  intro cmd hcmd g hg fuel' args
  rw [← hfunctions] at hg
  obtain ⟨f, -, hexec, htexts⟩ := debuggerExec_function sys command fuel' hcmd args hg
  exact ⟨f, hexec, htexts⟩

end

/-- A program whose world is what is left of the one file it has. -/
def oneFile : System (List Text) Unit where
  swdpAhbRead _ w := (none, w)
  swdpCoreRead _ w := (none, w)
  func _ _ w := some (0, w)
  fopen _ w := (some (), w)
  fgets _ w := (w.head?, w.tail)
  fclose _ w := w
  malloc w := (true, w)

theorem oneFile_feeds (ts : List Text) : Feeds oneFile (some ()) ts ts := by
  induction ts with
  | nil => rfl
  | cons t ts ih => exact ⟨rfl, ih, rfl, ih⟩

/-- A function that is defined a second time, and one without an end. -/
def twiceDefined : List Text :=
  ["# show\n", "function show\n", "\tprint $1\n", "end\n", "\n", " function  Show $1 $2\n", "# both\n",
    "  print $1\n", "\n", "print $2\n", "  end\n", "function lost\n", "print $3\n"].map ascii

theorem twiceDefined_defines : Defines twiceDefined
    [(ascii "show", [ascii "print $1\n"]),
      (ascii "Show", [ascii "print $1\n", ascii "print $2\n"])] := by
  have hshow : Header (ascii "function show\n") (ascii "show") :=
    ⟨by decide, by decide, by decide, by decide⟩
  have hShow : Header (ascii " function  Show $1 $2\n") (ascii "Show") :=
    ⟨by decide, by decide, by decide, by decide⟩
  have hlost : Header (ascii "function lost\n") (ascii "lost") :=
    ⟨by decide, by decide, by decide, by decide⟩
  have hone : ∀ l ∈ [ascii "\tprint $1\n"], InBody l :=
    List.forall_mem_singleton.mpr ⟨by decide, by decide⟩
  have hboth : ∀ l ∈ [ascii "# both\n", ascii "  print $1\n", ascii "\n", ascii "print $2\n"],
      InBody l := by
    unfold InBody
    decide
  have hopen : ∀ l ∈ [ascii "print $3\n"], InBody l :=
    List.forall_mem_singleton.mpr ⟨by decide, by decide⟩
  have hend : Ends (ascii "end\n") := ⟨by decide, by decide, by decide⟩
  have hindented : Ends (ascii "  end\n") := ⟨by decide, by decide, by decide⟩
  apply Defines.blank rfl
  apply Defines.function hshow hone hend
  apply Defines.blank rfl
  apply Defines.function hShow hboth hindented
  exact Defines.unfinished hlost hopen

theorem script_defines_show : ∃ s' : Shell (List Text),
    s'.functions = [(ascii "Show", [ascii "print $1\n", ascii "print $2\n"]),
      (ascii "show", [ascii "print $1\n"])] ∧
    ∃ f, debuggerExec oneFile (command oneFile 0) 0 (ascii "SHOW") [] s' =
        execFunction (command oneFile 0) f [] s' ∧
      f.lines.map s'.lineText = [ascii "print $1\n", ascii "print $2\n"] := by
  let s : Shell (List Text) := .fresh [] twiceDefined
  have hopen : Opens oneFile (⟨ascii "defs", 0⟩ : Param).s s.world (some ()) twiceDefined :=
    .file (by decide) rfl
  obtain ⟨s', -, hfunctions, -, -, -, hcalls⟩ := script_defines oneFile (command oneFile 0)
    twiceDefined_defines (s := s) hopen (oneFile_feeds _) (Nat.lt_succ_self _)
  obtain ⟨f, hexec, htexts⟩ := hcalls (ascii "SHOW") ⟨by decide, by decide, by decide⟩
    (ascii "Show", [ascii "print $1\n", ascii "print $2\n"]) rfl 0 []
  exact ⟨s', hfunctions, f, hexec, (Prod.mk.inj htexts).2⟩

end M3Dev.Debugger
