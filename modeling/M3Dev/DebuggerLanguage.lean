import M3Dev.DebuggerCalls
import Mathlib.Logic.Relation

/-! The rule of invariants of the command language: what every line keeps that a run may come
to, the run keeps, through functions and scripts to every depth. -/
namespace M3Dev.Debugger
open Gdb (ascii isSpace)
open MaximalRuns
variable {W H : Type}

/-! ### What a line says -/

/-- The words of a line: a command and its arguments. -/
def said (t : Text) : List Text :=
  let u := t.dropWhile (· = 0x20)
  if u.head? = some 0x2f then [ascii "wconsole", u.tail] else words (beforeHash t)

/-- The line sets the variable. -/
def Sets (name t : Text) : Prop :=
  ∃ cmd var rest, said t = cmd :: var :: rest ∧ sameName cmd (ascii "set") ∧
    setName var = .ok name

/-- The line is for the command of that name in `debugger_commands`. -/
def Names (name t : Text) : Prop :=
  ∃ cmd rest, said t = cmd :: rest ∧ debuggerCommands.find? (sameName cmd) = some name

/-- No word is passed on that the line does not say. -/
theorem Scans.said {t : Text} {ts : List Text} {k : ℕ} (h : Scans t ts k) :
    ts <+: words (beforeHash t) := by
  induction h with
  | done => exact List.nil_prefix
  | @skip c t ts k hc rest ih =>
    have hwords : words (beforeHash (c :: t)) = words (beforeHash t) := by
      have hbefore : beforeHash (c :: t) = c :: beforeHash t :=
        beforeHash_blank List.not_mem_nil hc t
      rw [hbefore]
      exact runs_cons_sep (isBlank_iff.mpr hc) _
    rwa [hwords]
  | @last w hne hw =>
    have hwords : words (beforeHash w) = [w] := by
      rw [beforeHash_none (hash_not_inWord hw)]
      exact runs_run hne (inWord_not_sep hw)
    rw [hwords]
  | comment => exact List.nil_prefix
  | @word w t c ts k hne hw hc rest ih =>
    have hwords : words (beforeHash (w ++ c :: t)) = w :: words (beforeHash t) := by
      rw [beforeHash_blank (hash_not_inWord hw) hc]
      exact runs_run_sep hne (inWord_not_sep hw) (isBlank_iff.mpr hc) _
    rw [hwords]
    exact (List.prefix_cons_inj w).mpr ih

theorem parseArgs_texts {parse : Text → Shell W → Option Word × Shell W} {ts : List Text}
    {args : List Param} {s s' : Shell W} (h : parseArgs parse ts s = (some args, s')) :
    args.map Param.s = ts := by
  induction ts generalizing args s s' with
  | nil =>
    obtain rfl := Option.some.inj (Prod.mk.inj h).1
    rfl
  | cons t ts ih =>
    rw [parseArgs] at h
    rcases hp : parse t s with ⟨_ | v, s1⟩
    · rw [hp] at h
      exact absurd (Prod.mk.inj h).1 (by simp)
    · rw [hp] at h
      rcases ha : parseArgs parse ts s1 with ⟨_ | rest, s2⟩
      · simp only [ha] at h
        exact absurd (Prod.mk.inj h).1 (by simp)
      · simp only [ha] at h
        obtain rfl := Option.some.inj (Prod.mk.inj h).1
        exact congrArg (t :: ·) (ih ha)

/-- The variables, once one of them has been set. -/
def setVar (name : Text) (value : Word) (vis : List VarInfo) : List VarInfo :=
  (assign name value vis).getD (⟨name, value⟩ :: vis)

theorem variableSet_eq (s : Shell W) (name : Text) (value : Word) :
    s.variableSet name value = { s with allVariables := setVar name value s.allVariables } := by
  unfold Shell.variableSet setVar
  split
  next h => rw [h, Option.getD_some]
  next h => rw [h, Option.getD_none]

/-! ### Invariants -/

/-- What the interpreter itself does to the world: its operands, files and memory. -/
inductive Access (sys : System W H) (w : W) : W → Prop
  | swdpAhbRead (addr : Word) : Access sys w (sys.swdpAhbRead addr w).2
  | swdpCoreRead (n : ℕ) : Access sys w (sys.swdpCoreRead n w).2
  | fopen (name : Text) : Access sys w (sys.fopen name w).2
  | fgets (fp : Option H) : Access sys w (sys.fgets fp w).2
  | fclose (fp : H) : Access sys w (sys.fclose fp w)
  | malloc : Access sys w (sys.malloc w).2

/-- Any number of them. -/
abbrev Accesses (sys : System W H) : W → W → Prop := Relation.ReflTransGen (Access sys)

/-- Which lines may run once the world is as it is, among them all that are read, and what is to
hold of the variables and the world: each of those lines and each access keeps it, and takes no
line back. -/
structure Keeps (sys : System W H) where
  line : W → Text → Prop
  holds : List VarInfo → W → Prop
  access : ∀ {vs w w'}, Access sys w w' → holds vs w → holds vs w'
  access_line : ∀ {w w' t}, Access sys w w' → line w t → line w' t
  read : ∀ {w fp t}, (sys.fgets fp w).1 = some t →
    line (sys.fgets fp w).2 (cstr t (skipSpaces t 0))
  func : ∀ {vs w t name args r w'}, holds vs w → line w t → Names name t →
    sys.func name args w = some (r, w') → holds vs w'
  func_line : ∀ {w name args r w' t}, sys.func name args w = some (r, w') → line w t → line w' t
  set : ∀ {vs w t name} value, holds vs w → line w t → Sets name t → holds (setVar name value vs) w

/-- The text buffer is none with a recorded line. -/
def Shell.Apart (s : Shell W) (b : ℕ) : Prop := ∀ f ∈ s.allfuncs, ∀ l ∈ f.lines, l ≠ b

/-- The invariant holds, and every recorded line is one that may run. -/
structure Keeps.Sound {sys : System W H} (K : Keeps sys) (s : Shell W) : Prop where
  holds : K.holds s.allVariables s.world
  lines : ∀ f ∈ s.allfuncs, ∀ l ∈ f.lines, K.line s.world (s.lineText l)

/-- What a run leaves, where the text buffers below a number are in use. -/
structure Keeps.Leaves {sys : System W H} (K : Keeps sys) (n : ℕ) (s s' : Shell W) : Prop where
  sound : K.Sound s'
  line : ∀ t, K.line s.world t → K.line s'.world t
  room : s.objects.length ≤ s'.objects.length
  apart : ∀ b < n, s.Apart b → s'.Apart b

theorem Keeps.accesses {sys : System W H} (K : Keeps sys) {vs : List VarInfo} {w w' : W}
    (h : Accesses sys w w') (hw : K.holds vs w) : K.holds vs w' := by
  induction h with
  | refl => exact hw
  | tail _ hlast ih => exact K.access hlast ih

theorem Keeps.accesses_line {sys : System W H} (K : Keeps sys) {w w' : W} (h : Accesses sys w w')
    (t : Text) (ht : K.line w t) : K.line w' t := by
  induction h with
  | refl => exact ht
  | tail _ hlast ih => exact K.access_line hlast ih

/-- A command keeps the invariant, if its own line is one that may run. -/
def Keeps.KeptBy {sys : System W H} (K : Keeps sys) (command : Command W) : Prop :=
  ∀ ⦃o line : ℕ⦄ ⦃s : Shell W⦄ ⦃r : ℤ⦄ ⦃s' : Shell W⦄, o < s.objects.length → s.Apart o →
    K.Sound s → K.line s.world (cstr (s.objects.getD o []) line) →
    command o line s = .ok (r, s') → K.Leaves (o + 1) s s'

section
variable {sys : System W H} {K : Keeps sys} {n : ℕ} {s s' s'' : Shell W}

theorem Keeps.Leaves.refl (h : K.Sound s) (n : ℕ) : K.Leaves n s s :=
  ⟨h, fun _ ht => ht, Nat.le_refl _, fun _ _ ha => ha⟩

theorem Keeps.Leaves.trans (h : K.Leaves n s s') (h' : K.Leaves n s' s'') : K.Leaves n s s'' :=
  ⟨h'.sound, fun t ht => h'.line t (h.line t ht), Nat.le_trans h.room h'.room,
    fun b hb ha => h'.apart b hb (h.apart b hb ha)⟩

theorem Keeps.Leaves.mono {m : ℕ} (h : K.Leaves n s s') (hm : m ≤ n) : K.Leaves m s s' :=
  ⟨h.sound, h.line, h.room, fun b hb => h.apart b (Nat.lt_of_lt_of_le hb hm)⟩

/-- Where only the output, the world and the frame are other than they were. -/
theorem Keeps.Sound.leaves (h : K.Sound s) (n : ℕ) {a : List Param} {p : List (String × List Text)}
    {w : W} (hw : K.holds s.allVariables w) (hline : ∀ t, K.line s.world t → K.line w t) :
    K.Leaves n s { s with frameArgv := a, printed := p, world := w } :=
  ⟨⟨hw, fun f hf l hl => hline _ (h.lines f hf l hl)⟩, hline, Nat.le_refl _, fun _ _ ha => ha⟩

theorem Keeps.Sound.quiet (h : K.Sound s) (n : ℕ) (hq : Quiet s s')
    (hw : Accesses sys s.world s'.world) : K.Leaves n s s' := by
  obtain ⟨p, w, rfl⟩ := hq
  exact h.leaves n (K.accesses hw h.holds) (K.accesses_line hw)

theorem Keeps.Sound.xprintf (h : K.Sound s) (n : ℕ) (fmt : String) (args : List Text) :
    K.Leaves n s (s.xprintf fmt args) := h.leaves n h.holds fun _ ht => ht

/-- A buffer without a recorded line is overwritten. -/
theorem Keeps.Sound.setObject (h : K.Sound s) (n : ℕ) {b : ℕ} (hb : s.Apart b) (t : Text) :
    K.Leaves n s (s.setObject b t) := by
  refine ⟨⟨h.holds, fun f hf l hl => ?_⟩, fun _ ht => ht,
    (setObject_kept s (Nat.le_refl b) t).room, fun _ _ ha => ha⟩
  have htext : (s.setObject b t).lineText l = s.lineText l := by
    rw [Shell.lineText, Shell.lineText, Shell.setObject, List.getD_eq_getElem?_getD,
      List.getElem?_set_ne (Ne.symm (hb f hf l hl)), ← List.getD_eq_getElem?_getD]
  rw [htext]
  exact h.lines f hf l hl

theorem Shell.alloc_lineText (s : Shell W) {t : Text} {l : ℕ} (hl : l < s.objects.length) :
    (s.alloc t).lineText l = s.lineText l :=
  (alloc_kept s (Nat.le_refl _) t).lineText hl

theorem Keeps.Sound.alloc (h : K.Sound s) (n : ℕ) (t : Text) : K.Leaves n s (s.alloc t) := by
  refine ⟨⟨h.holds, fun f hf l hl => ?_⟩, fun _ ht => ht, (alloc_kept s (Nat.zero_le _) t).room,
    fun _ _ ha => ha⟩
  rw [s.alloc_lineText (s.recorded f hf l hl)]
  exact h.lines f hf l hl

/-! ### The operands -/

theorem parsePlain_accesses (sys : System W H) (t : Text) (s : Shell W) :
    Accesses sys s.world (parsePlain sys.toHost t s).2.world := by
  unfold parsePlain
  split
  · obtain ⟨p, hp⟩ := parseVariable_eq t t.tail s
    rw [hp]
  · rw [readRegister]
    cases registerNumber t with
    | some n => exact Relation.ReflTransGen.single (.swdpCoreRead n)
    | none =>
      simp only [Option.map_none]
      split <;> exact Relation.ReflTransGen.refl

theorem parseNumber_accesses (sys : System W H) (t : Text) (s : Shell W) :
    Accesses sys s.world (parseNumber sys.toHost t s).2.world := by
  fun_induction parseNumber sys.toHost t s with
  | case1 => exact Relation.ReflTransGen.refl
  | case2 =>
    rename_i hbase ihbase
    rw [hbase] at ihbase
    exact ihbase
  | case3 =>
    rename_i hbase _ hindex ihbase ihindex
    rw [hbase] at ihbase
    rw [hindex] at ihindex
    exact ihbase.trans ihindex
  | case4 =>
    rename_i hbase _ _ hindex ihbase ihindex
    rw [hbase] at ihbase
    rw [hindex] at ihindex
    exact (ihbase.trans ihindex).tail (.swdpAhbRead _)
  | case5 => exact parsePlain_accesses sys _ _

theorem parseArgs_accesses {ts : List Text} {r : Option (List Param)}
    (hrun : parseArgs (parseNumber sys.toHost) ts s = (r, s')) :
    Accesses sys s.world s'.world := by
  induction ts generalizing r s with
  | nil =>
    obtain ⟨-, rfl⟩ := Prod.mk.inj hrun
    exact Relation.ReflTransGen.refl
  | cons t ts ih =>
    have hnumber := parseNumber_accesses sys t s
    rw [parseArgs] at hrun
    rcases hp : parseNumber sys.toHost t s with ⟨_ | v, s1⟩
    · rw [hp] at hrun hnumber
      obtain ⟨-, rfl⟩ := Prod.mk.inj hrun
      exact hnumber
    · rw [hp] at hrun hnumber
      rcases ha : parseArgs (parseNumber sys.toHost) ts s1 with ⟨_ | args, s2⟩
      · simp only [ha] at hrun
        obtain ⟨-, rfl⟩ := Prod.mk.inj hrun
        exact hnumber.trans (ih ha)
      · simp only [ha] at hrun
        obtain ⟨-, rfl⟩ := Prod.mk.inj hrun
        exact hnumber.trans (ih ha)

theorem Keeps.Sound.parseArgs (h : K.Sound s) (n : ℕ) {ts : List Text} {r : Option (List Param)}
    (hrun : parseArgs (parseNumber sys.toHost) ts s = (r, s')) : K.Leaves n s s' :=
  h.quiet n (parseArgs_quiet hrun) (parseArgs_accesses hrun)

/-! ### The commands -/

/-- The arguments are words that the line says behind its first one. -/
def SaidArgs (t cmd : Text) (args : List Param) : Prop := cmd :: args.map Param.s <+: said t

theorem Keeps.doSet_sound (K : Keeps sys) (h : K.Sound s) (n : ℕ) {t cmd : Text}
    (ht : K.line s.world t) (hcmd : sameName cmd (ascii "set")) {args : List Param} (hargs : SaidArgs t cmd args) {r : ℤ}
    (hrun : doSet args s = .ok (r, s')) : K.Leaves n s s' := by
  have hset {var : Param} {rest : List Param} (hvar : args = var :: rest) {name : Text}
      (hname : setName var.s = .ok name) (value : Word) : K.Leaves n s (s.variableSet name value) := by
    obtain ⟨more, hmore⟩ := hargs
    rw [hvar] at hmore
    have hsets : Sets name t := ⟨cmd, var.s, rest.map Param.s ++ more, hmore.symm, hcmd, hname⟩
    rw [variableSet_eq]
    exact ⟨⟨K.set value h.holds ht hsets, h.lines⟩, fun _ ht => ht, Nat.le_refl _,
      fun _ _ ha => ha⟩
  unfold doSet at hrun
  split at hrun
  · split at hrun
    · obtain ⟨-, rfl⟩ := Prod.mk.inj (Except.ok.inj hrun)
      exact h.xprintf n _ _
    · next hname =>
      obtain ⟨-, rfl⟩ := Prod.mk.inj (Except.ok.inj hrun)
      exact hset rfl hname _
  · split at hrun
    · obtain ⟨-, rfl⟩ := Prod.mk.inj (Except.ok.inj hrun)
      exact h.xprintf n _ _
    · next hname =>
      obtain ⟨v, -, hrun⟩ := bind_eq_ok.mp hrun
      cases v with
      | none =>
        obtain ⟨-, rfl⟩ := Prod.mk.inj (Except.ok.inj hrun)
        exact h.xprintf n _ _
      | some v =>
        obtain ⟨-, rfl⟩ := Prod.mk.inj (Except.ok.inj hrun)
        exact hset rfl hname v
  · obtain ⟨-, rfl⟩ := Prod.mk.inj (Except.ok.inj hrun)
    exact h.xprintf n _ _

theorem cstr_cstr (buf : Text) (i : ℕ) : cstr (cstr buf i) 0 = cstr buf i := by
  have hcopy : cstr ([] ++ cstr buf i ++ []) ([] : Text).length = cstr buf i :=
    cstr_append (cstr_no_nul buf i) rfl
  rwa [List.nil_append, List.append_nil] at hcopy

theorem Keeps.execLines_sound (K : Keeps sys) {command : Command W} (hc : K.KeptBy command) (f : FuncInfo) {b : ℕ}
    {ls : List ℕ} (hls : ∀ l ∈ ls, l < b ∧ K.line s.world (s.lineText l)) {k : ℕ} {r : ℤ}
    (hb : b < s.objects.length) (hapart : s.Apart b) (h : K.Sound s) (hkeeps : CommandKeeps command)
    (hrun : execLines command f b ls k s = .ok (r, s')) : K.Leaves (b + 1) s s' := by
  induction ls generalizing k s with
  | nil =>
    obtain ⟨-, rfl⟩ := Prod.mk.inj (Except.ok.inj hrun)
    exact .refl h _
  | cons l ls ih =>
    rw [execLines] at hrun
    split at hrun
    · obtain ⟨⟨r1, s1⟩, hline, hrest⟩ := bind_eq_ok.mp hrun
      have hset := h.setObject (b + 1) hapart (s.lineText l)
      have hroom := Nat.lt_of_lt_of_le hb hset.room
      have hbuffer : (s.setObject b (s.lineText l)).objects.getD b [] = s.lineText l := by
        rw [Shell.setObject, List.getD_eq_getElem?_getD, List.getElem?_set_self hb, Option.getD_some]
      have htext : K.line s.world (cstr ((s.setObject b (s.lineText l)).objects.getD b []) 0) := by
        rw [hbuffer, Shell.lineText, cstr_cstr]
        exact (hls l List.mem_cons_self).2
      have hleaves := hset.trans
        (hc hroom (hset.apart b (Nat.lt_succ_self b) hapart) hset.sound htext hline)
      dsimp only at hrest
      split at hrest
      · obtain ⟨-, rfl⟩ := Prod.mk.inj (Except.ok.inj hrest)
        exact hleaves.trans (hleaves.sound.xprintf _ _ _)
      · have hkept := (setObject_kept s (Nat.le_refl b) (s.lineText l)).trans (hkeeps hroom hline)
        apply hleaves.trans
        refine ih (fun l' hl' => ?_) (Nat.lt_of_lt_of_le hb hleaves.room)
          (hleaves.apart b (Nat.lt_succ_self b) hapart) hleaves.sound hrest
        obtain ⟨hlt, htext'⟩ := hls l' (List.mem_cons_of_mem l hl')
        rw [hkept.lineText hlt]
        exact ⟨hlt, hleaves.line _ htext'⟩
    · exact absurd hrun (by simp)

theorem Keeps.execFunction_sound (K : Keeps sys) {command : Command W} (hc : K.KeptBy command)
    (hkeeps : CommandKeeps command) {f : FuncInfo} (hf : f ∈ s.allfuncs) {args : List Param} {r : ℤ}
    (h : K.Sound s) (hrun : execFunction command f args s = .ok (r, s')) :
    K.Leaves s.objects.length s s' := by
  obtain ⟨⟨r1, s1⟩, hlines, hret⟩ := bind_eq_ok.mp hrun
  obtain ⟨-, rfl⟩ := Prod.mk.inj (Except.ok.inj hret)
  let s0 : Shell W := { s with frameArgv := args }
  have hframe : K.Leaves s.objects.length s s0 := h.leaves _ h.holds fun _ ht => ht
  have henter := hframe.trans (hframe.sound.alloc _ [])
  have hroom : s.objects.length < (s0.alloc []).objects.length := by simp [s0, Shell.alloc]
  have hapart : (s0.alloc []).Apart s.objects.length := fun g hg l hl =>
    Nat.ne_of_lt (s.recorded g hg l hl)
  have htexts : ∀ l ∈ f.lines, l < s.objects.length ∧ K.line s.world ((s0.alloc []).lineText l) := by
    intro l hl
    have hlt := s.recorded f hf l hl
    rw [s0.alloc_lineText hlt]
    exact ⟨hlt, h.lines f hf l hl⟩
  have hbody := K.execLines_sound hc f htexts hroom hapart henter.sound hkeeps hlines
  have hleave : K.Leaves s.objects.length s1 { s1 with frameArgv := s.frameArgv } :=
    hbody.sound.leaves _ hbody.sound.holds fun _ ht => ht
  exact (henter.trans (hbody.mono (Nat.le_succ _))).trans hleave

/-! ### Scripts -/

/-- The lines of a function that is still read. -/
def Keeps.Recorded (K : Keeps sys) (b : ℕ) (s : Shell W) (newfunc : Option FuncInfo) : Prop :=
  ∀ f ∈ newfunc, ∀ l ∈ f.lines, b < l ∧ K.line s.world (s.lineText l)

/-- The function that is read after the pass. -/
def ScriptStep.newfunc : ScriptStep W → Option FuncInfo
  | next r => r.newfunc
  | leave _ => none
  | ret _ _ => none

theorem Keeps.recorded_none (K : Keeps sys) (b : ℕ) (s : Shell W) : K.Recorded b s none := by
  intro f hf
  exact absurd hf (by simp)

theorem Keeps.Sound.malloc (h : K.Sound s) (n : ℕ) :
    K.Leaves n s { s with world := (sys.malloc s.world).2 } :=
  h.quiet n ⟨s.printed, _, rfl⟩ (.single .malloc)

theorem Keeps.link_sound {b : ℕ} {r : Recording W} (h : K.Sound r.shell)
    (hnew : K.Recorded b r.shell r.newfunc) {f : FuncInfo} (hf : r.newfunc = some f) :
    K.Leaves (b + 1) r.shell (r.link f hf).shell := by
  refine ⟨⟨h.holds, fun g hg => ?_⟩, fun _ ht => ht, Nat.le_refl _, fun i hi ha g hg l hl => ?_⟩
  · rcases List.mem_cons.mp hg with rfl | hg
    · exact fun l hl => (hnew g hf l hl).2
    · exact h.lines g hg
  · rcases List.mem_cons.mp hg with rfl | hg
    · have hlt := (hnew g hf l hl).1
      omega
    · exact ha g hg l hl

theorem Keeps.addLine_recorded {b : ℕ} {r : Recording W} (hb : b < r.shell.objects.length)
    (hnew : K.Recorded b r.shell r.newfunc) {f : FuncInfo} (hf : r.newfunc = some f) {t : Text}
    (ht : K.line r.shell.world (cstr t 0)) :
    K.Recorded b (r.addLine f hf t).shell (r.addLine f hf t).newfunc := by
  rintro g ⟨⟩ l hl
  show b < l ∧ K.line r.shell.world ((r.shell.alloc t).lineText l)
  rcases List.mem_append.mp hl with hl | hl
  · rw [r.shell.alloc_lineText (r.allocated f hf l hl)]
    exact hnew f hf l hl
  · rw [List.mem_singleton.mp hl]
    have hlast : (r.shell.alloc t).lineText r.shell.objects.length = cstr t 0 := by
      rw [Shell.lineText, Shell.alloc, List.getD_eq_getElem?_getD, List.getElem?_concat_length,
        Option.getD_some]
    rw [hlast]
    exact ⟨hb, ht⟩

theorem Keeps.scriptLine_sound {command : Command W} (hc : K.KeptBy command) {b : ℕ}
    {r : Recording W} (h : K.Sound r.shell) (hb : b < r.shell.objects.length)
    (hapart : r.shell.Apart b) (hnew : K.Recorded b r.shell r.newfunc)
    (hline : K.line r.shell.world
      (cstr (r.shell.objects.getD b []) (skipSpaces (r.shell.objects.getD b []) 0)))
    {step : ScriptStep W} (hrun : scriptLine sys command b r = .ok step) :
    K.Leaves (b + 1) r.shell step.shell ∧ K.Recorded b step.shell step.newfunc := by
  unfold scriptLine at hrun
  dsimp only at hrun
  split at hrun
  · obtain rfl := Except.ok.inj hrun
    exact ⟨.refl h _, hnew⟩
  split at hrun
  · split at hrun
    · obtain rfl := Except.ok.inj hrun
      -- a function in a function
      exact ⟨h.xprintf _ _ _, K.recorded_none b _⟩
    · -- the name is cut out of the buffer, which holds no recorded line
      have hset (t : Text) := h.setObject (b + 1) hapart t
      split at hrun
      · obtain rfl := Except.ok.inj hrun
        exact ⟨(hset _).trans ((hset _).sound.xprintf _ _ _), K.recorded_none b _⟩
      · have halloc (t : Text) := (hset t).trans ((hset t).sound.malloc (b + 1))
        split at hrun
        · obtain rfl := Except.ok.inj hrun
          refine ⟨halloc _, ?_⟩
          rintro f ⟨⟩ l hl
          exact absurd hl List.not_mem_nil
        · obtain rfl := Except.ok.inj hrun
          exact ⟨(halloc _).trans ((halloc _).sound.xprintf _ _ _), K.recorded_none b _⟩
  split at hrun
  · -- a line of the function that is read: its last one, or one to record
    next f hf =>
    split at hrun
    · obtain rfl := Except.ok.inj hrun
      exact ⟨K.link_sound h hnew hf, K.recorded_none b _⟩
    · split at hrun
      · obtain rfl := Except.ok.inj hrun
        have hadd := h.alloc (b + 1) (cstr (r.shell.objects.getD b []) (skipSpaces (r.shell.objects.getD b []) 0))
        refine ⟨hadd.trans (hadd.sound.quiet _ ⟨_, _, rfl⟩ (.single .malloc)), fun g hg l hl => ?_⟩
        obtain ⟨hlt, htext⟩ := K.addLine_recorded hb hnew hf (by rwa [cstr_cstr]) g hg l hl
        exact ⟨hlt, K.access_line .malloc htext⟩
      · obtain rfl := Except.ok.inj hrun
        have hmalloc := h.malloc (b + 1)
        exact ⟨hmalloc.trans (hmalloc.sound.xprintf _ _ _), K.recorded_none b _⟩
  · -- any other line is a command, run in the same buffer
    obtain ⟨⟨rc, s1⟩, hcommand, hrun⟩ := bind_eq_ok.mp hrun
    have hprint := h.xprintf (b + 1) "script> %s"
      [cstr (r.shell.objects.getD b []) (skipSpaces (r.shell.objects.getD b []) 0)]
    have hleaves := hprint.trans
      (hc hb (hprint.apart b (Nat.lt_succ_self b) hapart) hprint.sound hline hcommand)
    dsimp only at hrun
    split at hrun
    · obtain rfl := Except.ok.inj hrun
      exact ⟨hleaves, K.recorded_none b _⟩
    · obtain rfl := Except.ok.inj hrun
      exact ⟨hleaves, K.recorded_none b _⟩

theorem Keeps.closeFile_sound (h : K.Sound s) (n : ℕ) (fp : Option H) :
    K.Leaves n s (closeFile sys fp s) := by
  cases fp with
  | none => exact .refl h n
  | some file => exact h.quiet n ⟨s.printed, _, rfl⟩ (.single (.fclose file))

/-- A line is read into the buffer. -/
theorem Keeps.filled_sound {b : ℕ} {r : Recording W} (h : K.Sound r.shell)
    (hapart : r.shell.Apart b) (hnew : K.Recorded b r.shell r.newfunc) {t : Text} {world : W}
    (hworld : Access sys r.shell.world world) :
    K.Leaves (b + 1) r.shell (r.filled b t world).shell ∧
      K.Recorded b (r.filled b t world).shell r.newfunc := by
  have hset := h.setObject (b + 1) hapart t
  refine ⟨hset.trans (hset.sound.quiet _ ⟨_, _, rfl⟩ (.single hworld)), fun f hf l hl => ?_⟩
  obtain ⟨hlt, htext⟩ := hnew f hf l hl
  refine ⟨hlt, ?_⟩
  have hkept : (r.filled b t world).shell.lineText l = r.shell.lineText l := by
    show cstr ((r.shell.objects.set b t).getD l []) 0 = _
    rw [List.getD_eq_getElem?_getD, List.getElem?_set_ne (Nat.ne_of_lt hlt),
      ← List.getD_eq_getElem?_getD, Shell.lineText]
  rw [hkept]
  exact K.access_line hworld htext

theorem Keeps.scriptLoop_sound {command : Command W} (hc : K.KeptBy command) (fp : Option H)
    {b fuel : ℕ} {r : Recording W} (h : K.Sound r.shell) (hb : b < r.shell.objects.length)
    (hapart : r.shell.Apart b) (hnew : K.Recorded b r.shell r.newfunc) {rc : ℤ}
    (hrun : scriptLoop sys command fp b fuel r = .ok (rc, s')) : K.Leaves (b + 1) r.shell s' := by
  induction fuel generalizing r with
  | zero => exact absurd hrun (by simp [scriptLoop])
  | succ fuel ih =>
    have hread : Access sys r.shell.world (sys.fgets fp r.shell.world).2 := .fgets fp
    have htext (t : Text) : (sys.fgets fp r.shell.world).1 = some t →
        K.line (sys.fgets fp r.shell.world).2 (cstr t (skipSpaces t 0)) := K.read
    rw [scriptLoop] at hrun
    split at hrun
    · next world hline =>
      rw [hline] at hread
      obtain ⟨-, rfl⟩ := Prod.mk.inj (Except.ok.inj hrun)
      have hquiet : K.Leaves (b + 1) r.shell { r.shell with world } :=
        h.quiet _ ⟨_, _, rfl⟩ (.single hread)
      exact hquiet.trans (K.closeFile_sound hquiet.sound _ fp)
    · next t world hline =>
      rw [hline] at hread htext
      obtain ⟨step, hstep, hrun⟩ := bind_eq_ok.mp hrun
      obtain ⟨hfill, hnew'⟩ := K.filled_sound (t := t) h hapart hnew hread
      have hbuffer : (r.filled b t world).shell.objects.getD b [] = t := by
        show (r.shell.objects.set b t).getD b [] = t
        rw [List.getD_eq_getElem?_getD, List.getElem?_set_self hb, Option.getD_some]
      have hlt := Nat.lt_of_lt_of_le hb hfill.room
      have hmay : K.line world (cstr ((r.filled b t world).shell.objects.getD b [])
          (skipSpaces ((r.filled b t world).shell.objects.getD b []) 0)) := by
        rw [hbuffer]
        exact htext t rfl
      obtain ⟨hpass, hnew''⟩ := K.scriptLine_sound hc hfill.sound hlt
        (hfill.apart b (Nat.lt_succ_self b) hapart) hnew' hmay hstep
      have hleaves := hfill.trans hpass
      cases step with
      | next r1 =>
        exact hleaves.trans (ih hleaves.sound (Nat.lt_of_lt_of_le hb hleaves.room)
          (hleaves.apart b (Nat.lt_succ_self b) hapart) hnew'' hrun)
      | leave s1 =>
        obtain ⟨-, rfl⟩ := Prod.mk.inj (Except.ok.inj hrun)
        exact hleaves.trans (K.closeFile_sound hleaves.sound _ fp)
      | ret closes s1 =>
        obtain ⟨-, rfl⟩ := Prod.mk.inj (Except.ok.inj hrun)
        cases closes with
        | true => exact hleaves.trans (K.closeFile_sound hleaves.sound _ fp)
        | false => exact hleaves

theorem Shell.apart_new (s : Shell W) : s.Apart s.objects.length := fun f hf l hl =>
  Nat.ne_of_lt (s.recorded f hf l hl)

theorem Keeps.doScript_sound {command : Command W} (hc : K.KeptBy command) {fuel : ℕ}
    {args : List Param} {r : ℤ} (h : K.Sound s)
    (hrun : doScript sys command fuel args s = .ok (r, s')) : K.Leaves (s.objects.length + 1) s s' := by
  have hscript (s1 : Shell W) (hs1 : K.Leaves (s.objects.length + 1) s s1)
      (hobjects : s1.objects = s.objects) (fp : Option H)
      (hrun : scriptLoop sys command fp s.objects.length fuel (.outside (s1.alloc [])) = .ok (r, s')) :
      K.Leaves (s.objects.length + 1) s s' := by
    have halloc := hs1.sound.alloc (s.objects.length + 1) []
    have hroom : s.objects.length < (s1.alloc []).objects.length := by
      simp [Shell.alloc, hobjects]
    have hapart : s1.Apart s.objects.length := hobjects ▸ s1.apart_new
    exact (hs1.trans halloc).trans (K.scriptLoop_sound hc fp halloc.sound hroom
      (halloc.apart _ (Nat.lt_succ_self _) hapart) (K.recorded_none _ _) hrun)
  unfold doScript at hrun
  split at hrun
  · next file =>
    split at hrun
    · exact hscript s (.refl h _) rfl none hrun
    · have hopen : Access sys s.world (sys.fopen file.s s.world).2 := .fopen file.s
      split at hrun
      · next heq =>
        rw [heq] at hopen
        obtain ⟨-, rfl⟩ := Prod.mk.inj (Except.ok.inj hrun)
        exact h.quiet _ ⟨_, _, rfl⟩ (.single hopen)
      · next heq =>
        rw [heq] at hopen
        exact hscript _ (h.quiet _ ⟨s.printed, _, rfl⟩ (.single hopen)) rfl _ hrun
  · obtain ⟨-, rfl⟩ := Prod.mk.inj (Except.ok.inj hrun)
    exact .refl h _

/-! ### Lines -/

theorem Keeps.debuggerExec_sound {command : Command W} (hc : K.KeptBy command)
    (hkeeps : CommandKeeps command) {fuel : ℕ} {t cmd : Text} (ht : K.line s.world t)
    {args : List Param} (hargs : SaidArgs t cmd args) {r : ℤ} (h : K.Sound s)
    (hrun : debuggerExec sys command fuel cmd args s = .ok (r, s')) :
    K.Leaves s.objects.length s s' := by
  unfold debuggerExec at hrun
  split at hrun
  · next hset => exact K.doSet_sound h _ ht hset hargs hrun
  split at hrun
  · exact (K.doScript_sound hc h hrun).mono (Nat.le_succ _)
  split at hrun
  · next name hname =>
    split at hrun
    · next hfunc =>
      obtain ⟨-, rfl⟩ := Prod.mk.inj (Except.ok.inj hrun)
      obtain ⟨more, hmore⟩ := hargs
      have hnames : Names name t := ⟨cmd, args.map Param.s ++ more, hmore.symm, hname⟩
      exact h.leaves _ (K.func h.holds ht hnames hfunc) fun _ hu => K.func_line hfunc hu
    · exact absurd hrun (by simp)
  · split at hrun
    · next f hf => exact K.execFunction_sound hc hkeeps (List.mem_of_find?_eq_some hf) h hrun
    · obtain ⟨-, rfl⟩ := Prod.mk.inj (Except.ok.inj hrun)
      exact .refl h _

theorem Keeps.passOn_sound {command : Command W} (hc : K.KeptBy command)
    (hkeeps : CommandKeeps command) {fuel : ℕ} {t : Text} (ht : K.line s.world t)
    {ts : List Text} (hts : ts <+: said t) {r : ℤ} (h : K.Sound s)
    (hrun : passOn (callees sys command fuel) ts s = .ok (r, s')) :
    K.Leaves s.objects.length s s' := by
  unfold passOn at hrun
  split at hrun
  · next hargs =>
    obtain ⟨-, rfl⟩ := Prod.mk.inj (Except.ok.inj hrun)
    exact h.parseArgs _ hargs
  · next hargs =>
    obtain ⟨-, rfl⟩ := Prod.mk.inj (Except.ok.inj hrun)
    exact h.parseArgs _ hargs
  · next cmd args s1 hargs =>
    have hparse := h.parseArgs s.objects.length hargs
    have hsaid : SaidArgs t cmd.s args := by
      have htexts := parseArgs_texts hargs
      rw [← htexts] at hts
      exact hts
    obtain ⟨⟨r2, s2⟩, hexec, hrun⟩ := bind_eq_ok.mp hrun
    have hleaves := hparse.trans
      ((K.debuggerExec_sound hc hkeeps (hparse.line t ht) hsaid hparse.sound hexec).mono hparse.room)
    obtain ⟨-, rfl⟩ := Prod.mk.inj (Except.ok.inj hrun)
    split
    · exact hleaves.trans (hleaves.sound.xprintf _ _ _)
    · exact hleaves

theorem charAt_behind {buf : Text} {i : ℕ} (h : buf.length ≤ i) : charAt buf i = 0 := by
  rw [charAt, List.getD_eq_getElem?_getD, List.getElem?_eq_none h, Option.getD_none]

/-- Behind a `/` stands what goes to the remote console. -/
theorem said_slash {buf : Text} {line : ℕ} (h : charAt buf (skipBlanks buf line) = 0x2f) :
    said (cstr buf line) = [ascii "wconsole", cstr buf (skipBlanks buf line + 1)] := by
  have hline : line ≤ buf.length := by
    by_contra hlt
    have hdrop : buf.drop line = [] := List.drop_eq_nil_of_le (by omega)
    have hend : charAt buf (skipBlanks buf line) = 0 := by
      rw [skipBlanks, hdrop]
      exact charAt_behind (by simp only [List.takeWhile_nil, List.length_nil]; omega)
    rw [hend] at h
    exact absurd h (by decide)
  obtain ⟨pre, tail, hbuf, htail, hskip⟩ := exists_line hline
  have ht : 0 ∉ (cstr buf line).dropWhile (· = 0x20) := fun h0 =>
    cstr_no_nul buf line ((List.dropWhile_suffix _).subset h0)
  generalize hu : (cstr buf line).dropWhile (· = 0x20) = u at *
  rw [hskip, hbuf, charAt_append] at h
  cases u with
  | nil =>
    have h0 : tail.headD 0 = 0 := htail
    rw [List.nil_append, h0] at h
    exact absurd h (by decide)
  | cons c cs =>
    obtain rfl : c = 0x2f := h
    have hrest : cstr buf (skipBlanks buf line + 1) = cs := by
      have hstring : cstr (pre ++ [0x2f] ++ cs ++ tail) (pre ++ [0x2f]).length = cs :=
        cstr_append (fun h0 => ht (List.mem_cons_of_mem _ h0)) htail
      rw [hskip, hbuf]
      simpa only [List.append_assoc, List.nil_append, List.cons_append,
        List.length_append, List.length_singleton] using hstring
    rw [said, hu, hrest]
    rfl

/-- The words that are passed on are words of the line. -/
theorem debuggerCommand_said (call : Callees W) {o line : ℕ} (ho : o < s.objects.length)
    (hslash : charAt (s.objects.getD o []) (skipBlanks (s.objects.getD o []) line) ≠ 0x2f) {r : ℤ}
    (hrun : debuggerCommand call o line s = .ok (r, s')) :
    ∃ ts buf', ts <+: said (cstr (s.objects.getD o []) line) ∧
      passOn call ts (s.setObject o buf') = .ok (r, s') := by
  have hbuf : s.objects[o]? = some (s.objects.getD o []) := by
    rw [List.getD_eq_getElem?_getD, List.getElem?_eq_getElem ho, Option.getD_some]
  generalize s.objects.getD o [] = buf at *
  by_cases hline : line ≤ buf.length
  · have hfirst : ((cstr buf line).dropWhile (· = 0x20)).head? ≠ some 0x2f := by
      obtain ⟨pre, tail, hsplit, -, hskip⟩ := exists_line hline
      intro hhead
      obtain ⟨u, hu⟩ := List.head?_eq_some_iff.mp hhead
      apply hslash
      rw [hskip]
      rw [hu] at hsplit
      rw [hsplit]
      exact charAt_cons pre 0x2f (u ++ tail)
    obtain ⟨ts, k, hscan, hok, hover⟩ := debuggerCommand_scans hline hfirst
    have hsaid : said (cstr buf line) = words (beforeHash (cstr buf line)) := if_neg hfirst
    by_cases hk : k ≤ maxArgs
    · obtain ⟨buf', hpass⟩ := hok hk
      rw [hpass W call o s hbuf] at hrun
      exact ⟨ts, buf', hsaid ▸ hscan.said, hrun⟩
    · rw [hover (Nat.not_le.mp hk) W call o s hbuf] at hrun
      exact absurd hrun (by simp)
  · -- there is no text there
    have hget : s.objects.getD o [] = buf := by rw [List.getD_eq_getElem?_getD, hbuf, Option.getD_some]
    have hdrop : buf.drop line = [] := List.drop_eq_nil_of_le (by omega)
    have hskip : skipBlanks buf line = line := by rw [skipBlanks, hdrop]; rfl
    have hend : charAt buf line = 0 := charAt_behind (by omega)
    have hleft : buf.length - line = 0 := by omega
    rw [debuggerCommand, hget] at hrun
    simp only [hskip, hend, hleft] at hrun
    exact ⟨[], buf, List.nil_prefix, hrun⟩

theorem Keeps.debuggerCommand_kept {command : Command W} (hc : K.KeptBy command)
    (hkeeps : CommandKeeps command) (fuel : ℕ) :
    K.KeptBy (debuggerCommand (callees sys command fuel)) := by
  intro o line s r s' ho hapart h hline hrun
  by_cases hslash : charAt (s.objects.getD o []) (skipBlanks (s.objects.getD o []) line) = 0x2f
  · rw [debuggerCommand] at hrun
    dsimp only at hrun
    rw [if_pos hslash] at hrun
    have hargs : SaidArgs (cstr (s.objects.getD o []) line) (ascii "wconsole")
        [⟨cstr (s.objects.getD o []) (skipBlanks (s.objects.getD o []) line + 1), 0⟩] := by
      rw [SaidArgs, said_slash hslash]
      exact List.prefix_refl _
    have hexec : debuggerExec sys command fuel (ascii "wconsole")
        [⟨cstr (s.objects.getD o []) (skipBlanks (s.objects.getD o []) line + 1), 0⟩] s =
          .ok (r, s') := hrun
    exact (K.debuggerExec_sound hc hkeeps hline hargs h hexec).mono ho
  · obtain ⟨ts, buf', hts, hpass⟩ := debuggerCommand_said _ ho hslash hrun
    have hset := h.setObject (o + 1) hapart buf'
    have hroom := Nat.lt_of_lt_of_le ho hset.room
    have hline' : K.line (s.setObject o buf').world (cstr (s.objects.getD o []) line) := hline
    exact hset.trans ((K.passOn_sound hc hkeeps hline' hts hset.sound hpass).mono hroom)

/-- What every line that may run keeps, a line keeps with all that it comes to. -/
theorem Keeps.command_kept (K : Keeps sys) (fuel : ℕ) : K.KeptBy (command sys fuel) := by
  induction fuel with
  | zero =>
    intro o line s r s' _ _ _ _ hrun
    exact absurd hrun (by simp [command])
  | succ fuel ih => exact K.debuggerCommand_kept ih (command_keeps sys fuel) fuel

end

end M3Dev.Debugger
