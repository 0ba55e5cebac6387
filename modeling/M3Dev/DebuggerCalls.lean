import M3Dev.DebuggerOperand
import M3Dev.DebuggerScript

/-! Calls of functions: what comes back of them, at every depth. -/
namespace M3Dev.Debugger
open Gdb (ascii isSpace)
variable {W H : Type}

/-! ### What a call keeps -/

/-- Operands print and reach the target, and change nothing else. -/
def Quiet (s s' : Shell W) : Prop := ∃ p w, s' = { s with printed := p, world := w }

theorem Quiet.refl (s : Shell W) : Quiet s s := ⟨s.printed, s.world, rfl⟩

theorem Quiet.trans {s s' s'' : Shell W} (h : Quiet s s') (h' : Quiet s' s'') : Quiet s s'' := by
  obtain ⟨p, w, rfl⟩ := h
  obtain ⟨p', w', rfl⟩ := h'
  exact ⟨p', w', rfl⟩

theorem access_quiet (f : W → Option Word × W) (s : Shell W) : Quiet s (s.access f).2 :=
  ⟨s.printed, (f s.world).2, rfl⟩

theorem parsePlain_quiet (host : Host W) (t : Text) (s : Shell W) :
    Quiet s (parsePlain host t s).2 := by
  unfold parsePlain
  split
  · obtain ⟨p, hp⟩ := parseVariable_eq t t.tail s
    rw [hp]
    exact ⟨p, s.world, rfl⟩
  · rw [readRegister]
    cases registerNumber t with
    | some n => exact access_quiet _ s
    | none =>
      simp only [Option.map_none]
      split <;> exact .refl s

theorem parseNumber_quiet (host : Host W) (t : Text) (s : Shell W) :
    Quiet s (parseNumber host t s).2 := by
  fun_induction parseNumber host t s with
  | case1 => exact .refl _
  | case2 =>
    rename_i hbase ihbase
    rw [hbase] at ihbase
    exact ihbase
  | case3 =>
    rename_i hbase _ hindex ihbase ihindex
    rw [hbase] at ihbase
    rw [hindex] at ihindex
    exact ihbase.trans ihindex
  | case4 =>
    rename_i hbase _ _ hindex ihbase ihindex
    rw [hbase] at ihbase
    rw [hindex] at ihindex
    exact (ihbase.trans ihindex).trans (access_quiet _ _)
  | case5 => exact parsePlain_quiet _ _ _

theorem parseArgs_quiet {host : Host W} {words : List Text} {s s' : Shell W}
    {r : Option (List Param)} (h : parseArgs (parseNumber host) words s = (r, s')) : Quiet s s' := by
  induction words generalizing s s' r with
  | nil =>
    obtain ⟨-, rfl⟩ := Prod.mk.inj h
    exact .refl s
  | cons t ts ih =>
    have hnumber := parseNumber_quiet host t s
    rw [parseArgs] at h
    rcases hp : parseNumber host t s with ⟨_ | v, s1⟩
    · rw [hp] at h hnumber
      obtain ⟨-, rfl⟩ := Prod.mk.inj h
      exact hnumber.trans ⟨_, s1.world, rfl⟩
    · rw [hp] at h hnumber
      rcases ha : parseArgs (parseNumber host) ts s1 with ⟨_ | args, s2⟩
      · simp only [ha] at h
        obtain ⟨-, rfl⟩ := Prod.mk.inj h
        exact hnumber.trans (ih ha)
      · simp only [ha] at h
        obtain ⟨-, rfl⟩ := Prod.mk.inj h
        exact hnumber.trans (ih ha)

/-- What is left as it was by what has come back: the frame, the text buffers below a
number, and the functions there were. -/
structure Kept (n : ℕ) (s s' : Shell W) : Prop where
  frame : s'.frameArgv = s.frameArgv
  objects : ∀ i < n, s'.objects[i]? = s.objects[i]?
  room : s.objects.length ≤ s'.objects.length
  funcs : s.allfuncs <:+ s'.allfuncs

theorem Kept.refl (n : ℕ) (s : Shell W) : Kept n s s :=
  ⟨rfl, fun _ _ => rfl, Nat.le_refl _, List.suffix_refl _⟩

theorem Kept.trans {n : ℕ} {s s' s'' : Shell W} (h : Kept n s s') (h' : Kept n s' s'') :
    Kept n s s'' :=
  ⟨h'.frame.trans h.frame, fun i hi => (h'.objects i hi).trans (h.objects i hi),
    Nat.le_trans h.room h'.room, h.funcs.trans h'.funcs⟩

theorem Kept.mono {n m : ℕ} (hle : m ≤ n) {s s' : Shell W} (h : Kept n s s') : Kept m s s' :=
  ⟨h.frame, fun i hi => h.objects i (Nat.lt_of_lt_of_le hi hle), h.room, h.funcs⟩

/-- The text of a line in a buffer that is kept. -/
theorem Kept.lineText {n l : ℕ} {s s' : Shell W} (h : Kept n s s') (hl : l < n) :
    s'.lineText l = s.lineText l := by
  rw [Shell.lineText, Shell.lineText, List.getD_eq_getElem?_getD, List.getD_eq_getElem?_getD,
    h.objects l hl]

theorem Quiet.kept {s s' : Shell W} (h : Quiet s s') (n : ℕ) : Kept n s s' := by
  obtain ⟨p, w, rfl⟩ := h
  exact ⟨rfl, fun _ _ => rfl, Nat.le_refl _, List.suffix_refl _⟩

theorem variableSet_kept (s : Shell W) (name : Text) (value : Word) (n : ℕ) :
    Kept n s (s.variableSet name value) := by
  unfold Shell.variableSet
  split <;> exact ⟨rfl, fun _ _ => rfl, Nat.le_refl _, List.suffix_refl _⟩

/-- The buffers below the one that is written. -/
theorem setObject_kept (s : Shell W) {n b : ℕ} (hb : n ≤ b) (t : Text) :
    Kept n s (s.setObject b t) :=
  ⟨rfl, fun i hi => List.getElem?_set_ne (by omega), by simp [Shell.setObject], List.suffix_refl _⟩

theorem alloc_kept (s : Shell W) {n : ℕ} (hn : n ≤ s.objects.length) (t : Text) :
    Kept n s (s.alloc t) :=
  ⟨rfl, fun i hi => List.getElem?_append_left (by omega), by simp [Shell.alloc],
    List.suffix_refl _⟩

/-- A command keeps the frame, the functions and the buffers below its own. -/
def CommandKeeps (command : Command W) : Prop :=
  ∀ ⦃o line : ℕ⦄ ⦃s : Shell W⦄ ⦃r : ℤ⦄ ⦃s' : Shell W⦄, o < s.objects.length →
    command o line s = .ok (r, s') → Kept o s s'

theorem doSet_kept {args : List Param} {s s' : Shell W} {r : ℤ} (h : doSet args s = .ok (r, s'))
    (n : ℕ) : Kept n s s' := by
  have hprint (msg : String) : Kept n s (s.xprintf msg []) :=
    Quiet.kept ⟨_, s.world, rfl⟩ n
  unfold doSet at h
  split at h
  · split at h
    · obtain ⟨-, rfl⟩ := Prod.mk.inj (Except.ok.inj h)
      exact hprint _
    · obtain ⟨-, rfl⟩ := Prod.mk.inj (Except.ok.inj h)
      exact variableSet_kept s _ _ n
  · split at h
    · obtain ⟨-, rfl⟩ := Prod.mk.inj (Except.ok.inj h)
      exact hprint _
    · obtain ⟨v, -, h⟩ := bind_eq_ok.mp h
      cases v with
      | none =>
        obtain ⟨-, rfl⟩ := Prod.mk.inj (Except.ok.inj h)
        exact hprint _
      | some v =>
        obtain ⟨-, rfl⟩ := Prod.mk.inj (Except.ok.inj h)
        exact variableSet_kept s _ _ n
  · obtain ⟨-, rfl⟩ := Prod.mk.inj (Except.ok.inj h)
    exact hprint _

/-- A line that comes back ends the function, or the next one follows. -/
theorem execLines_cons {command : Command W} {f : FuncInfo} {b l : ℕ} {ls : List ℕ} {n : ℕ}
    {s s' : Shell W} {r : ℤ} (h : execLines command f b (l :: ls) n s = .ok (r, s')) :
    ∃ r1 s1, command b 0 (s.setObject b (s.lineText l)) = .ok (r1, s1) ∧
      ((r1 ≠ 0 ∧ r = r1 ∧ Quiet s1 s') ∨
        (r1 = 0 ∧ execLines command f b ls (n + 1) s1 = .ok (r, s'))) := by
  rw [execLines] at h
  split at h
  · obtain ⟨⟨r1, s1⟩, hline, h⟩ := bind_eq_ok.mp h
    refine ⟨r1, s1, hline, ?_⟩
    by_cases hr : r1 = 0
    · rw [hr] at h
      exact .inr ⟨hr, h⟩
    · simp only [if_pos hr] at h
      obtain ⟨rfl, rfl⟩ := Prod.mk.inj (Except.ok.inj h)
      exact .inl ⟨hr, rfl, _, s1.world, rfl⟩
  · exact absurd h (by simp)

theorem execLines_kept {command : Command W} (hc : CommandKeeps command) (f : FuncInfo) {b : ℕ}
    {ls : List ℕ} {n : ℕ} {s s' : Shell W} {r : ℤ} (hb : b < s.objects.length)
    (h : execLines command f b ls n s = .ok (r, s')) : Kept b s s' := by
  induction ls generalizing n s with
  | nil =>
    obtain ⟨-, rfl⟩ := Prod.mk.inj (Except.ok.inj h)
    exact .refl b s
  | cons l ls ih =>
    obtain ⟨r1, s1, hline, hrest⟩ := execLines_cons h
    have hset := setObject_kept s (Nat.le_refl b) (s.lineText l)
    have hkept := hset.trans (hc (Nat.lt_of_lt_of_le hb hset.room) hline)
    rcases hrest with ⟨-, -, hq⟩ | ⟨-, hrest⟩
    · exact hkept.trans (hq.kept b)
    · exact hkept.trans (ih (Nat.lt_of_lt_of_le hb hkept.room) hrest)

theorem execFunction_kept {command : Command W} (hc : CommandKeeps command) {f : FuncInfo}
    {args : List Param} {s s' : Shell W} {r : ℤ} (h : execFunction command f args s = .ok (r, s')) :
    Kept s.objects.length s s' := by
  obtain ⟨⟨r1, s1⟩, hlines, h⟩ := bind_eq_ok.mp h
  obtain ⟨-, rfl⟩ := Prod.mk.inj (Except.ok.inj h)
  have halloc := alloc_kept { s with frameArgv := args } (Nat.le_refl s.objects.length) []
  have hroom : s.objects.length < ({ s with frameArgv := args }.alloc []).objects.length := by
    simp [Shell.alloc]
  have hkept := halloc.trans (execLines_kept hc f hroom hlines)
  exact ⟨rfl, hkept.objects, hkept.room, hkept.funcs⟩

theorem closeFile_kept (sys : System W H) (fp : Option H) (s : Shell W) (n : ℕ) :
    Kept n s (closeFile sys fp s) := by
  cases fp with
  | none => exact .refl n s
  | some file => exact Quiet.kept ⟨s.printed, _, rfl⟩ n

/-- Where a pass over a line leaves the state. -/
def ScriptStep.shell : ScriptStep W → Shell W
  | next r => r.shell
  | leave s => s
  | ret _ s => s

theorem scriptLine_kept (sys : System W H) {command : Command W} (hc : CommandKeeps command) {b : ℕ}
    {r : Recording W} (hb : b < r.shell.objects.length) {step : ScriptStep W}
    (h : scriptLine sys command b r = .ok step) : Kept b r.shell step.shell := by
  have hprint (fmt : String) (args : List Text) : Kept b r.shell (r.shell.xprintf fmt args) :=
    Quiet.kept ⟨_, r.shell.world, rfl⟩ b
  unfold scriptLine at h
  dsimp only at h
  split at h
  · obtain rfl := Except.ok.inj h
    exact .refl b _
  split at h
  · split at h
    · obtain rfl := Except.ok.inj h
      exact hprint _ _
    · have hset (t : Text) := setObject_kept r.shell (Nat.le_refl b) t
      split at h
      · obtain rfl := Except.ok.inj h
        exact (hset _).trans (Quiet.kept ⟨_, r.shell.world, rfl⟩ b)
      · split at h
        · obtain rfl := Except.ok.inj h
          exact (hset _).trans (Quiet.kept ⟨_, _, rfl⟩ b)
        · obtain rfl := Except.ok.inj h
          exact (hset _).trans (Quiet.kept ⟨_, _, rfl⟩ b)
  split at h
  · split at h
    · obtain rfl := Except.ok.inj h
      exact ⟨rfl, fun _ _ => rfl, Nat.le_refl _, List.suffix_cons _ _⟩
    · split at h
      · obtain rfl := Except.ok.inj h
        exact (alloc_kept r.shell (Nat.le_of_lt hb) _).trans (Quiet.kept ⟨_, _, rfl⟩ b)
      · obtain rfl := Except.ok.inj h
        exact Quiet.kept ⟨_, _, rfl⟩ b
  · obtain ⟨⟨rc, s1⟩, hcommand, h⟩ := bind_eq_ok.mp h
    have hkept := (hprint _ _).trans (hc hb hcommand)
    dsimp only at h
    split at h
    · obtain rfl := Except.ok.inj h
      exact hkept
    · obtain rfl := Except.ok.inj h
      exact hkept

theorem scriptLoop_kept (sys : System W H) {command : Command W} (hc : CommandKeeps command)
    (fp : Option H) {b fuel : ℕ} {r : Recording W} {s' : Shell W} {rc : ℤ}
    (hb : b < r.shell.objects.length) (h : scriptLoop sys command fp b fuel r = .ok (rc, s')) :
    Kept b r.shell s' := by
  induction fuel generalizing r with
  | zero => exact absurd h (by simp [scriptLoop])
  | succ fuel ih =>
    rw [scriptLoop] at h
    split at h
    · obtain ⟨-, rfl⟩ := Prod.mk.inj (Except.ok.inj h)
      exact (Quiet.kept ⟨_, _, rfl⟩ b).trans (closeFile_kept sys fp _ b)
    · next t world hline =>
      obtain ⟨step, hstep, h⟩ := bind_eq_ok.mp h
      have hfill : Kept b r.shell (r.filled b t world).shell :=
        (setObject_kept r.shell (Nat.le_refl b) t).trans (Quiet.kept ⟨_, world, rfl⟩ b)
      have hkept := hfill.trans (scriptLine_kept sys hc (Nat.lt_of_lt_of_le hb hfill.room) hstep)
      cases step with
      | next r1 => exact hkept.trans (ih (Nat.lt_of_lt_of_le hb hkept.room) h)
      | leave s1 =>
        obtain ⟨-, rfl⟩ := Prod.mk.inj (Except.ok.inj h)
        exact hkept.trans (closeFile_kept sys fp s1 b)
      | ret closes s1 =>
        obtain ⟨-, rfl⟩ := Prod.mk.inj (Except.ok.inj h)
        cases closes with
        | true => exact hkept.trans (closeFile_kept sys fp s1 b)
        | false => exact hkept

theorem doScript_kept (sys : System W H) {command : Command W} (hc : CommandKeeps command)
    {fuel : ℕ} {args : List Param} {s s' : Shell W} {r : ℤ}
    (h : doScript sys command fuel args s = .ok (r, s')) : Kept s.objects.length s s' := by
  have hrun (s1 : Shell W) (hq : Quiet s s1) (fp : Option H)
      (h : scriptLoop sys command fp s.objects.length fuel (.outside (s1.alloc [])) = .ok (r, s')) :
      Kept s.objects.length s s' := by
    obtain ⟨p, w, rfl⟩ := hq
    have halloc := alloc_kept { s with printed := p, world := w } (Nat.le_refl s.objects.length) []
    have hroom : s.objects.length <
        ({ s with printed := p, world := w }.alloc []).objects.length := by
      simp [Shell.alloc]
    exact ((Quiet.kept ⟨p, w, rfl⟩ _).trans halloc).trans (scriptLoop_kept sys hc fp hroom h)
  unfold doScript at h
  split at h
  · split at h
    · exact hrun s (.refl s) none h
    · split at h
      · obtain ⟨-, rfl⟩ := Prod.mk.inj (Except.ok.inj h)
        exact Quiet.kept ⟨_, _, rfl⟩ _
      · exact hrun _ ⟨s.printed, _, rfl⟩ _ h
  · obtain ⟨-, rfl⟩ := Prod.mk.inj (Except.ok.inj h)
    exact .refl _ s

theorem debuggerExec_kept (sys : System W H) {command : Command W} (hc : CommandKeeps command)
    {fuel : ℕ} {cmd : Text} {args : List Param} {s s' : Shell W} {r : ℤ}
    (h : debuggerExec sys command fuel cmd args s = .ok (r, s')) : Kept s.objects.length s s' := by
  unfold debuggerExec at h
  split at h
  · exact doSet_kept h _
  split at h
  · exact doScript_kept sys hc h
  split at h
  · split at h
    · obtain ⟨-, rfl⟩ := Prod.mk.inj (Except.ok.inj h)
      exact Quiet.kept ⟨s.printed, _, rfl⟩ _
    · exact absurd h (by simp)
  · split at h
    · exact execFunction_kept hc h
    · obtain ⟨-, rfl⟩ := Prod.mk.inj (Except.ok.inj h)
      exact .refl _ s

theorem passOn_kept (sys : System W H) {command : Command W} (hc : CommandKeeps command)
    {fuel : ℕ} {words : List Text} {s s' : Shell W} {r : ℤ}
    (h : passOn (callees sys command fuel) words s = .ok (r, s')) :
    Kept s.objects.length s s' := by
  unfold passOn at h
  split at h
  · next hargs =>
    obtain ⟨-, rfl⟩ := Prod.mk.inj (Except.ok.inj h)
    exact (parseArgs_quiet hargs).kept _
  · next hargs =>
    obtain ⟨-, rfl⟩ := Prod.mk.inj (Except.ok.inj h)
    exact (parseArgs_quiet hargs).kept _
  · next cmd args s1 hargs =>
    obtain ⟨p, w, rfl⟩ := parseArgs_quiet hargs
    obtain ⟨⟨r2, s2⟩, hexec, h⟩ := bind_eq_ok.mp h
    have hkept := (Quiet.kept ⟨p, w, rfl⟩ s.objects.length).trans (debuggerExec_kept sys hc hexec)
    obtain ⟨-, rfl⟩ := Prod.mk.inj (Except.ok.inj h)
    split
    · exact hkept.trans (Quiet.kept ⟨_, s2.world, rfl⟩ _)
    · exact hkept

theorem debuggerCommand_kept (sys : System W H) {command : Command W} (hc : CommandKeeps command)
    (fuel : ℕ) : CommandKeeps (debuggerCommand (callees sys command fuel)) := by
  intro o line s r s' ho h
  unfold debuggerCommand at h
  dsimp only at h
  split at h
  · simp only [callees] at h
    exact (debuggerExec_kept sys hc h).mono (Nat.le_of_lt ho)
  · obtain ⟨⟨buf, arg, n⟩, -, h⟩ := bind_eq_ok.mp h
    have hset := setObject_kept s (Nat.le_refl o) buf
    exact hset.trans ((passOn_kept sys hc h).mono (Nat.le_of_lt (Nat.lt_of_lt_of_le ho hset.room)))

theorem command_keeps (sys : System W H) (fuel : ℕ) : CommandKeeps (command sys fuel) := by
  induction fuel with
  | zero =>
    intro o line s r s' _ h
    exact absurd h (by simp [command])
  | succ fuel ih => exact debuggerCommand_kept sys ih fuel

/-! ### The lines of a call -/

/-- The operand `$d` of a line. -/
def localOperand (d : ℕ) : Text := [0x24, BitVec.ofNat 8 (0x30 + d)]

/-- The value of the call's argument number `d`; 0 where it has no such argument. -/
def argValue (args : List Param) (d : ℕ) : Word := (args[d - 1]?.map Param.n).getD 0

/-- The words `$1` to `$9` of a line that starts in this state are passed on with the
values of the arguments. -/
def Denotes (host : Host W) (args : List Param) (s : Shell W) : Prop :=
  ∀ words params s', parseArgs (parseNumber host) words s = (some params, s') →
    ∀ p ∈ params, ∀ d, 1 ≤ d → d ≤ 9 → p.s = localOperand d → p.n = argValue args d

/-- A line of a call is run on a copy of its text, in the frame of the call. -/
structure RunsLine (sys : System W H) (command : Command W) (b : ℕ) (args : List Param)
    (t : Text) (s : Shell W) (r : ℤ) (s' : Shell W) : Prop where
  frame : s.frameArgv = args
  denotes : Denotes sys.toHost args s
  runs : command b 0 (s.setObject b t) = .ok (r, s')

/-- Lines are run in order, up to the first that fails: its result, or 0. -/
inductive Executes (sys : System W H) (command : Command W) (b : ℕ) (args : List Param) :
    List Text → Shell W → ℤ → Shell W → Prop where
  | done (s : Shell W) : Executes sys command b args [] s 0 s
  | next {t : Text} {ts : List Text} {s s1 s' : Shell W} {r : ℤ}
      (line : RunsLine sys command b args t s 0 s1)
      (rest : Executes sys command b args ts s1 r s') :
      Executes sys command b args (t :: ts) s r s'
  | fails {t : Text} {s s1 : Shell W} {r : ℤ} (ts : List Text)
      (line : RunsLine sys command b args t s r s1) (hr : r ≠ 0) :
      Executes sys command b args (t :: ts) s r s1

theorem localDigit : ∀ d < 10, 1 ≤ d → isdigit (BitVec.ofNat 8 (0x30 + d)) ∧
    BitVec.ofNat 8 (0x30 + d) ≠ 0x30 ∧ (BitVec.ofNat 8 (0x30 + d)).toNat - 0x31 = d - 1 ∧
    0x5b ∉ localOperand d := by decide

theorem parseNumber_local (host : Host W) {d : ℕ} (h1 : 1 ≤ d) (h9 : d ≤ 9) (s : Shell W) :
    (parseNumber host (localOperand d) s).1 = some (argValue s.frameArgv d) := by
  obtain ⟨hdigit, h0, hindex, hopen⟩ := localDigit d (by omega) h1
  have hcopy : operandCopy (localOperand d) = localOperand d := rfl
  have hvalue : s.vars [BitVec.ofNat 8 (0x30 + d)] = argValue s.frameArgv d := by
    rw [Shell.vars, variableValue, if_pos hdigit, if_neg h0, hindex, argValue]
  obtain ⟨p, hp⟩ := parsePlain_named host [BitVec.ofNat 8 (0x30 + d)] s
  rw [parseNumber_plain host (by rw [hcopy]; exact hopen), hcopy, localOperand, hp, hvalue]

/-- Operands leave the frame as it is, so that all of a line's are parsed in it. -/
theorem denotes_frame (host : Host W) (s : Shell W) : Denotes host s.frameArgv s := by
  intro words
  induction words generalizing s with
  | nil =>
    intro params s' h p hp
    obtain ⟨hparams, -⟩ := Prod.mk.inj h
    obtain rfl := Option.some.inj hparams
    exact absurd hp List.not_mem_nil
  | cons t ts ih =>
    intro params s' h p hp d h1 h9 hpd
    have hquiet := parseNumber_quiet host t s
    rw [parseArgs] at h
    rcases hn : parseNumber host t s with ⟨_ | v, s1⟩
    · rw [hn] at h
      exact absurd (Prod.mk.inj h).1 (by simp)
    · rw [hn] at h hquiet
      rcases ha : parseArgs (parseNumber host) ts s1 with ⟨_ | rest, s2⟩
      · simp only [ha] at h
        exact absurd (Prod.mk.inj h).1 (by simp)
      · simp only [ha] at h
        obtain rfl := Option.some.inj (Prod.mk.inj h).1
        rcases List.mem_cons.mp hp with rfl | hp
        · have hlocal := parseNumber_local host h1 h9 s
          have ht : t = localOperand d := hpd
          rw [← ht, hn] at hlocal
          exact Option.some.inj hlocal
        · have hframe : s1.frameArgv = s.frameArgv := (hquiet.kept 0).frame
          have hrest := ih s1 rest s2 ha p hp d h1 h9 hpd
          rwa [hframe] at hrest

theorem execLines_executes (sys : System W H) {command : Command W} (hc : CommandKeeps command)
    (f : FuncInfo) {b : ℕ} {args : List Param} {ls : List ℕ} (hls : ∀ l ∈ ls, l < b) {n : ℕ}
    {s s' : Shell W} {r : ℤ} (hb : b < s.objects.length) (hargs : s.frameArgv = args)
    (h : execLines command f b ls n s = .ok (r, s')) :
    ∃ s1, Executes sys command b args (ls.map s.lineText) s r s1 ∧ Quiet s1 s' := by
  induction ls generalizing n s with
  | nil =>
    obtain ⟨rfl, rfl⟩ := Prod.mk.inj (Except.ok.inj h)
    exact ⟨s, .done s, .refl s⟩
  | cons l ls ih =>
    obtain ⟨r1, s1, hline, hrest⟩ := execLines_cons h
    have hruns : RunsLine sys command b args (s.lineText l) s r1 s1 :=
      ⟨hargs, hargs ▸ denotes_frame sys.toHost s, hline⟩
    rcases hrest with ⟨hr, rfl, hq⟩ | ⟨rfl, hrest⟩
    · exact ⟨s1, .fails _ hruns hr, hq⟩
    · have hset := setObject_kept s (Nat.le_refl b) (s.lineText l)
      have hkept := hset.trans (hc (Nat.lt_of_lt_of_le hb hset.room) hline)
      obtain ⟨s2, hexec, hq⟩ := ih (fun l hl => hls l (List.mem_cons_of_mem _ hl))
        (Nat.lt_of_lt_of_le hb hkept.room) (hkept.frame.trans hargs) hrest
      have htexts : ls.map s1.lineText = ls.map s.lineText :=
        List.map_congr_left fun l hl => hkept.lineText (hls l (List.mem_cons_of_mem _ hl))
      rw [htexts] at hexec
      exact ⟨s2, .next hruns hexec, hq⟩

/-- A call of a function runs the lines it was recorded with, in order, with `$1` to `$9`
for its arguments, up to the first that fails; and whatever the lines call and define, the
caller's frame and the text of every function are as they were. -/
theorem exec_function_frame (sys : System W H) (fuel : ℕ) {f : FuncInfo} (args : List Param)
    {s s' : Shell W} {r : ℤ} (hf : f ∈ s.allfuncs)
    (h : execFunction (command sys fuel) f args s = .ok (r, s')) :
    (∃ s1, Executes sys (command sys fuel) s.objects.length args (f.lines.map s.lineText)
        ({ s with frameArgv := args }.alloc []) r s1 ∧
      Quiet { s1 with frameArgv := s.frameArgv } s') ∧
    s'.frameArgv = s.frameArgv ∧ s.allfuncs <:+ s'.allfuncs ∧
      ∀ g ∈ s.allfuncs, g.lines.map s'.lineText = g.lines.map s.lineText := by
  have hc := command_keeps sys fuel
  have hkept := execFunction_kept hc h
  obtain ⟨⟨r1, s1⟩, hlines, hret⟩ := bind_eq_ok.mp h
  obtain ⟨rfl, rfl⟩ := Prod.mk.inj (Except.ok.inj hret)
  have halloc := alloc_kept { s with frameArgv := args } (Nat.le_refl s.objects.length) []
  have hroom : s.objects.length < ({ s with frameArgv := args }.alloc []).objects.length := by
    simp [Shell.alloc]
  obtain ⟨s2, hexec, p, w, hq⟩ := execLines_executes sys hc f (s.recorded f hf) hroom rfl hlines
  have htexts : f.lines.map ({ s with frameArgv := args }.alloc []).lineText =
      f.lines.map s.lineText :=
    List.map_congr_left fun l hl => halloc.lineText (s.recorded f hf l hl)
  rw [htexts] at hexec
  refine ⟨⟨s2, hexec, p, w, by rw [hq]⟩, rfl, hkept.funcs, fun g hg => ?_⟩
  exact List.map_congr_left fun l hl => hkept.lineText (s.recorded g hg l hl)

theorem execFunction_returns {W : Type} {command : Command W} {f : FuncInfo} {args : List Param}
    {s s1 : Shell W} {r : ℤ} (h : execLines command f s.objects.length f.lines 1
      ({ s with frameArgv := args }.alloc []) = .ok (r, s1)) :
    execFunction command f args s = .ok (r, { s1 with frameArgv := s.frameArgv }) := by
  rw [execFunction, h]
  rfl

/-- A program whose commands do nothing and come back. -/
def idleSystem : System Unit Unit where
  swdpAhbRead _ w := (none, w)
  swdpCoreRead _ w := (none, w)
  func _ _ w := some (0, w)
  fopen _ w := (none, w)
  fgets _ w := (none, w)
  fclose _ w := w
  malloc w := (true, w)

def echoSecond : FuncInfo := ⟨ascii "second", [0]⟩

/-- A function that prints its second argument, called with two of a caller's five. -/
def echoShell : Shell Unit where
  objects := [ascii "echo $2\n"]
  allVariables := []
  allfuncs := [echoSecond]
  frameArgv := [⟨ascii "caller", 5⟩]
  printed := []
  world := ()
  recorded := by decide

def echoArgs : List Param := [⟨ascii "10", 0x10⟩, ⟨ascii "11", 0x11⟩]

theorem echo_comes_back : ∃ s', execFunction (command idleSystem 1) echoSecond echoArgs echoShell =
    .ok (0, s') := by
  have hecho (s : Shell Unit) :
      parseNumber idleSystem.toHost (ascii "echo") s = (some 0xec, s) := by
    rw [parseNumber_plain _ (by decide)]
    rfl
  have hsecond (s : Shell Unit) (hs : s.frameArgv = echoArgs) :
      parseNumber idleSystem.toHost (ascii "$2") s = (some 0x11, s) := by
    rw [parseNumber_plain _ (by decide)]
    show (some (parseVariable (ascii "$2") [0x32] s).1, (parseVariable (ascii "$2") [0x32] s).2) = _
    simp only [parseVariable, hs]
    rfl
  have hpass (s : Shell Unit) (hs : s.frameArgv = echoArgs) :
      passOn (callees idleSystem (command idleSystem 0) 0) [ascii "echo", ascii "$2"] s =
        .ok (0, s) := by
    simp only [passOn, callees, parseArgs, hecho, hsecond s hs]
    rfl
  have hline (s : Shell Unit) (hs : s.frameArgv = echoArgs) (ho : s.objects[1]? = some (ascii "echo $2\n")) :
      command idleSystem 1 1 0 s = .ok (0, s.setObject 1 (ascii "echo\x00$2\x00")) := by
    have hget : s.objects.getD 1 [] = ascii "echo $2\n" := by
      rw [List.getD_eq_getElem?_getD, ho]
      rfl
    rw [command, debuggerCommand, hget]
    exact hpass _ hs
  let s0 : Shell Unit := { echoShell with frameArgv := echoArgs }.alloc []
  have hlines : execLines (command idleSystem 1) echoSecond 1 [0] 1 s0 =
      .ok (0, (s0.setObject 1 (ascii "echo $2\n")).setObject 1 (ascii "echo\x00$2\x00")) := by
    rw [execLines, if_pos (by decide)]
    have hcommand := hline (s0.setObject 1 (s0.lineText 0)) rfl rfl
    rw [hcommand]
    rfl
  exact ⟨_, execFunction_returns hlines⟩

/-- The line passes 0x11 on, the function's second argument, and the caller's frame is back. -/
theorem exec_function_frame_echo :
    ∃ s', execFunction (command idleSystem 1) echoSecond echoArgs echoShell = .ok (0, s') ∧
      s'.frameArgv = [⟨ascii "caller", 5⟩] ∧ s'.lineText 0 = ascii "echo $2\n" := by
  obtain ⟨s', h⟩ := echo_comes_back
  obtain ⟨-, hframe, -, htexts⟩ :=
    exec_function_frame idleSystem 1 echoArgs (List.mem_singleton.mpr rfl) h
  exact ⟨s', h, hframe, List.head_eq_of_cons_eq (htexts echoSecond (List.mem_singleton.mpr rfl))⟩

end M3Dev.Debugger
