import M3Dev.DebuggerLanguage
import M3Dev.Linenoise

/-! `main` of `tools/debugger.c`: the loop over the lines of the prompt. -/
namespace M3Dev.Debugger
open Gdb (ascii)
variable {W H : Type}

/-- `sizeof(lastline)` -/
def maxLastline : ℕ := 1024

structure Main (W : Type) where
  lastline : Text
  history : List Text
  shell : Shell W

/-- `strcpy` into an array of `size` cells. -/
def strcpy (size : ℕ) (t : Text) : Except Halt Text :=
  if t.length < size then .ok t else .error .undefined

/-- The line that is passed to `debugger_command`: `line` is as long as what `linenoise` has
copied into it. -/
def recalled (line : Text) (m : Main W) : Except Halt (Text × Main W) :=
  if line = [] then do
    let line ← strcpy (line.length + 1) m.lastline
    return (line, m)
  else do
    let history := Linenoise.historyAdd Linenoise.historyMaxLen line m.history
    let lastline ← strcpy maxLastline line
    return (line, { m with lastline, history })

/-- A pass of `while ((line = linenoise("debugger> ")) != NULL)`. -/
def mainPass (command : Command W) (line : Text) (m : Main W) : Except Halt (Main W) := do
  let (line, m) ← recalled line m
  let (_, s) ← command m.shell.objects.length 0 (m.shell.alloc line)
  return { m with shell := s }

/-- The loop, up to the end of the input. -/
def mainLoop (command : Command W) : List Text → Main W → Except Halt (Main W)
  | [], m => .ok m
  | line :: lines, m => do
    let m ← mainPass command line m
    mainLoop command lines m

/-! ### Which lines it has room for -/

variable {line : Text} {lines : List Text} {m m' : Main W}

theorem strcpy_ok {size : ℕ} {t : Text} : (∃ u, strcpy size t = .ok u) ↔ t.length < size := by
  rw [strcpy]
  split
  next h => exact ⟨fun _ => h, fun _ => ⟨t, rfl⟩⟩
  next h => exact ⟨fun ⟨_, hu⟩ => absurd hu (by simp), fun hlt => absurd hlt h⟩

/-- An empty line has no room for another one. -/
theorem recall_ok : (∃ r, recalled line m = .ok r) ↔
    line.length < maxLastline ∧ (line = [] → m.lastline = []) := by
  have hpair (size : ℕ) (t : Text) (f : Text → Text × Main W) :
      (∃ r, (strcpy size t >>= fun u => .ok (f u)) = .ok r) ↔ t.length < size := by
    rw [← strcpy_ok]
    constructor
    · rintro ⟨r, hr⟩
      obtain ⟨u, hu, -⟩ := bind_eq_ok.mp hr
      exact ⟨u, hu⟩
    · rintro ⟨u, hu⟩
      exact ⟨f u, bind_eq_ok.mpr ⟨u, hu, rfl⟩⟩
  by_cases hline : line = []
  · rw [recalled, if_pos hline]
    refine (hpair _ _ fun u => (u, m)).trans ?_
    rw [hline, List.length_nil, Nat.zero_add, Nat.lt_one_iff, List.length_eq_zero_iff]
    exact ⟨fun h => ⟨by decide, fun _ => h⟩, fun h => h.2 rfl⟩
  · rw [recalled, if_neg hline]
    refine (hpair _ _ _).trans ?_
    exact ⟨fun h => ⟨h, fun he => absurd he hline⟩, fun h => h.1⟩

theorem strcpy_eq {size : ℕ} {t u : Text} (h : strcpy size t = .ok u) : u = t := by
  rw [strcpy] at h
  split at h
  · exact (Except.ok.inj h).symm
  · exact absurd h (by simp)

/-- The line that is passed on is left in `lastline`. -/
theorem recall_line {line' : Text} (h : recalled line m = .ok (line', m')) :
    line' = (if line = [] then m.lastline else line) ∧ m'.lastline = line' ∧
      m'.shell = m.shell := by
  by_cases hline : line = []
  · rw [recalled, if_pos hline] at h
    obtain ⟨u, hcopy, hu⟩ := bind_eq_ok.mp h
    obtain ⟨rfl, rfl⟩ := Prod.mk.inj (Except.ok.inj hu)
    have hu := strcpy_eq hcopy
    rw [if_pos hline]
    exact ⟨hu, hu.symm, rfl⟩
  · rw [recalled, if_neg hline] at h
    obtain ⟨u, hcopy, hu⟩ := bind_eq_ok.mp h
    obtain ⟨rfl, rfl⟩ := Prod.mk.inj (Except.ok.inj hu)
    rw [if_neg hline]
    exact ⟨rfl, strcpy_eq hcopy, rfl⟩

/-- What a pass leaves in `lastline`. -/
theorem mainPass_lastline {command : Command W} (h : mainPass command line m = .ok m') :
    m'.lastline = if line = [] then m.lastline else line := by
  obtain ⟨⟨line', m1⟩, hrecall, hpass⟩ := bind_eq_ok.mp h
  obtain ⟨⟨r, s⟩, -, hret⟩ := bind_eq_ok.mp hpass
  obtain rfl := Except.ok.inj hret
  obtain ⟨hline', hlast, -⟩ := recall_line hrecall
  exact hlast.trans hline'

/-- What is in `lastline`: nothing, as long as only empty lines came. -/
theorem mainLoop_lastline {command : Command W} (h : mainLoop command lines m = .ok m') :
    m'.lastline = [] ↔ m.lastline = [] ∧ ∀ l ∈ lines, l = [] := by
  induction lines generalizing m with
  | nil =>
    obtain rfl := Except.ok.inj h
    simp
  | cons line lines ih =>
    obtain ⟨m1, hpass, hloop⟩ := bind_eq_ok.mp h
    rw [ih hloop, mainPass_lastline hpass, List.forall_mem_cons]
    by_cases hline : line = []
    · simp [hline]
    · simp [hline]

/-- At a prompt that is come to from the first one, the next line is copied within the arrays
exactly if it is shorter than `lastline`, and not an empty line after one that is not. The line
that an empty one stands for never fits. -/
theorem recall_fits_iff {command : Command W} (h : mainLoop command lines m = .ok m')
    (hstart : m.lastline = []) (line : Text) : (∃ r, recalled line m' = .ok r) ↔
      line.length < maxLastline ∧ (line = [] → ∀ l ∈ lines, l = []) := by
  rw [recall_ok, mainLoop_lastline h, and_iff_right hstart]

/-- At the first prompt. -/
def firstPrompt : Main Unit where
  lastline := []
  history := []
  shell := .fresh [] ()

/-- An empty line after `go` is no line that there is room for. -/
theorem recall_fits_iff_go : ∃ m', mainLoop (fun _ _ s => .ok (0, s)) [Gdb.ascii "go"] firstPrompt = .ok m' ∧
    ¬ ∃ r, recalled [] m' = .ok r := by
  have hloop : mainLoop (fun _ _ s => .ok (0, s)) [Gdb.ascii "go"] firstPrompt =
      .ok ⟨Gdb.ascii "go", [Gdb.ascii "go"], firstPrompt.shell.alloc (Gdb.ascii "go")⟩ := rfl
  refine ⟨_, hloop, fun hr => ?_⟩
  have hall := ((recall_fits_iff hloop rfl []).mp hr).2 rfl
  exact absurd (hall _ (List.mem_singleton_self _)) (by decide)

/-! ### What a session leaves alone -/

/-- The program, with a record of the lines that are read from scripts. -/
def System.logged (sys : System W H) : System (W × List Text) H where
  swdpAhbRead addr w := ((sys.swdpAhbRead addr w.1).1, (sys.swdpAhbRead addr w.1).2, w.2)
  swdpCoreRead n w := ((sys.swdpCoreRead n w.1).1, (sys.swdpCoreRead n w.1).2, w.2)
  func name args w := (sys.func name args w.1).map fun r => (r.1, r.2, w.2)
  fopen name w := ((sys.fopen name w.1).1, (sys.fopen name w.1).2, w.2)
  fgets fp w := ((sys.fgets fp w.1).1, (sys.fgets fp w.1).2, w.2 ++ (sys.fgets fp w.1).1.toList)
  fclose fp w := (sys.fclose fp w.1, w.2)
  malloc w := ((sys.malloc w.1).1, (sys.malloc w.1).2, w.2)

theorem logged_access {sys : System W H} {w w' : W × List Text} (h : Access sys.logged w w') :
    Access sys w.1 w'.1 ∧ w.2 <+: w'.2 := by
  cases h with
  | swdpAhbRead addr => exact ⟨.swdpAhbRead addr, List.prefix_refl _⟩
  | swdpCoreRead n => exact ⟨.swdpCoreRead n, List.prefix_refl _⟩
  | fopen name => exact ⟨.fopen name, List.prefix_refl _⟩
  | fgets fp => exact ⟨.fgets fp, List.prefix_append _ _⟩
  | fclose fp => exact ⟨.fclose fp, List.prefix_refl _⟩
  | malloc => exact ⟨.malloc, List.prefix_refl _⟩

/-- The lines of a session: those typed, the one there is to repeat, those of the functions there
are, and those read from scripts. -/
inductive SessionLine (m : Main W) (lines read : List Text) : Text → Prop
  | typed {l : Text} (h : l ∈ lines) : SessionLine m lines read (cstr l 0)
  | repeated : SessionLine m lines read (cstr m.lastline 0)
  | recorded {f : FuncInfo} (hf : f ∈ m.shell.allfuncs) {l : ℕ} (hl : l ∈ f.lines) :
    SessionLine m lines read (m.shell.lineText l)
  | read {t : Text} (h : t ∈ read) : SessionLine m lines read (cstr t (skipSpaces t 0))

theorem SessionLine.later {m : Main W} {lines read read' : List Text} (h : read <+: read')
    {t : Text} (ht : SessionLine m lines read t) : SessionLine m lines read' t := by
  cases ht with
  | typed hl => exact .typed hl
  | repeated => exact .repeated
  | recorded hf hl => exact .recorded hf hl
  | read hr => exact .read (h.subset hr)

/-- What is kept as long as the lines that come are of a kind. -/
def sessionKeeps (sys : System W H) (m : Main (W × List Text)) (lines : List Text)
    (kind : Text → Prop) (holds : List VarInfo → W → Prop)
    (access : ∀ {vs w w'}, Access sys w w' → holds vs w → holds vs w')
    (func : ∀ {vs t name args w r w'}, kind t → Names name t →
      sys.func name args w = some (r, w') → holds vs w → holds vs w')
    (set : ∀ {vs w t name} value, kind t → Sets name t → holds vs w →
      holds (setVar name value vs) w) : Keeps sys.logged where
  line w := SessionLine m lines w.2
  holds vs w := (∀ t, SessionLine m lines w.2 t → kind t) → holds vs w.1
  access h hw hkind :=
    access (logged_access h).1 (hw fun t ht => hkind t (ht.later (logged_access h).2))
  access_line h ht := ht.later (logged_access h).2
  read := by
    intro w fp t h
    apply SessionLine.read
    show t ∈ w.2 ++ (sys.fgets fp w.1).1.toList
    have hread : (sys.fgets fp w.1).1 = some t := h
    rw [hread]
    simp
  func := by
    intro vs w t name args r w' hw ht hname hrun hkind
    obtain ⟨⟨r1, w1⟩, hfunc, heq⟩ := Option.map_eq_some_iff.mp hrun
    obtain ⟨-, rfl⟩ := Prod.mk.inj heq
    exact func (hkind t ht) hname hfunc (hw hkind)
  func_line := by
    intro w name args r w' t hrun ht
    obtain ⟨r1, -, heq⟩ := Option.map_eq_some_iff.mp hrun
    obtain ⟨-, rfl⟩ := Prod.mk.inj heq
    exact ht
  set value hw ht hsets hkind := set value (hkind _ ht) hsets (hw hkind)

theorem mainPass_returns {command : Command W} {line' : Text} {r : ℤ} {s : Shell W}
    (hrecall : recalled line m = .ok (line', m'))
    (hcommand : command m'.shell.objects.length 0 (m'.shell.alloc line') = .ok (r, s)) :
    mainPass command line m = .ok { m' with shell := s } := by
  rw [mainPass, hrecall]
  simp only [bind, Except.bind, hcommand]
  rfl

section
variable {sys : System W H}

/-- The line to repeat is one that may run, and the state is sound. -/
structure Keeps.Prompts (K : Keeps sys) (m : Main W) : Prop where
  lastline : K.line m.shell.world (cstr m.lastline 0)
  sound : K.Sound m.shell

theorem Keeps.mainPass_kept (K : Keeps sys) {fuel : ℕ} (hm : K.Prompts m)
    (hline : K.line m.shell.world (cstr line 0))
    (hrun : mainPass (command sys fuel) line m = .ok m') :
    K.Prompts m' ∧ ∀ t, K.line m.shell.world t → K.line m'.shell.world t := by
  obtain ⟨⟨line', m1⟩, hrecall, hrun⟩ := bind_eq_ok.mp hrun
  obtain ⟨⟨r, s⟩, hcommand, hret⟩ := bind_eq_ok.mp hrun
  obtain rfl := Except.ok.inj hret
  obtain ⟨hline', hlast, hshell⟩ := recall_line hrecall
  rw [hshell] at hcommand
  have hmay : K.line m.shell.world (cstr line' 0) := by
    rw [hline']
    split
    · exact hm.lastline
    · exact hline
  have halloc := hm.sound.alloc (m.shell.objects.length + 1) line'
  have hroom : m.shell.objects.length < (m.shell.alloc line').objects.length := by
    simp [Shell.alloc]
  have hbuffer : (m.shell.alloc line').objects.getD m.shell.objects.length [] = line' := by
    rw [Shell.alloc, List.getD_eq_getElem?_getD, List.getElem?_concat_length, Option.getD_some]
  have hleaves := halloc.trans (K.command_kept fuel hroom
    (halloc.apart _ (Nat.lt_succ_self _) m.shell.apart_new) halloc.sound (by rwa [hbuffer]) hcommand)
  refine ⟨⟨?_, hleaves.sound⟩, hleaves.line⟩
  show K.line s.world (cstr m1.lastline 0)
  rw [hlast]
  exact hleaves.line _ hmay

theorem Keeps.mainLoop_kept (K : Keeps sys) {fuel : ℕ} (hm : K.Prompts m)
    (hlines : ∀ l ∈ lines, K.line m.shell.world (cstr l 0))
    (hrun : mainLoop (command sys fuel) lines m = .ok m') : K.Prompts m' := by
  induction lines generalizing m with
  | nil =>
    obtain rfl := Except.ok.inj hrun
    exact hm
  | cons line lines ih =>
    obtain ⟨m1, hpass, hrun⟩ := bind_eq_ok.mp hrun
    obtain ⟨hline, hlines⟩ := List.forall_mem_cons.mp hlines
    obtain ⟨hm1, hlater⟩ := K.mainPass_kept hm hline hpass
    exact ih hm1 (fun l hl => hlater _ (hlines l hl)) hrun

/-- The rule for sessions: what is kept by every line of the kind is kept by a session that has
no other lines. -/
theorem session_kept {m m' : Main (W × List Text)} {fuel : ℕ} {kind : Text → Prop}
    (holds : List VarInfo → W → Prop)
    (access : ∀ {vs w w'}, Access sys w w' → holds vs w → holds vs w')
    (func : ∀ {vs t name args w r w'}, kind t → Names name t →
      sys.func name args w = some (r, w') → holds vs w → holds vs w')
    (set : ∀ {vs w t name} value, kind t → Sets name t → holds vs w →
      holds (setVar name value vs) w)
    (hrun : mainLoop (command sys.logged fuel) lines m = .ok m')
    (hkind : ∀ t, SessionLine m lines m'.shell.world.2 t → kind t)
    (h : holds m.shell.allVariables m.shell.world.1) :
    holds m'.shell.allVariables m'.shell.world.1 := by
  let K := sessionKeeps sys m lines kind holds access func set
  have hstart : K.Prompts m := ⟨.repeated, fun _ => h, fun f hf l hl => .recorded hf hl⟩
  exact (K.mainLoop_kept hstart (fun l hl => .typed hl) hrun).sound.holds hkind

/-- The value of a variable, by its name. -/
def valueOf (name : Text) (vis : List VarInfo) : Option Word :=
  (vis.find? fun vi => name = vi.name).map VarInfo.value

theorem valueOf_cons (name : Text) (vi : VarInfo) (vis : List VarInfo) :
    valueOf name (vi :: vis) = if name = vi.name then some vi.value else valueOf name vis := by
  by_cases h : name = vi.name <;> simp [valueOf, h]

theorem valueOf_assign {name name' : Text} (hne : name ≠ name') {value : Word}
    {vis vis' : List VarInfo} (h : assign name' value vis = some vis') :
    valueOf name vis' = valueOf name vis := by
  induction vis generalizing vis' with
  | nil => exact absurd h (by simp [assign])
  | cons vi vis ih =>
    rw [assign] at h
    split at h
    next hname =>
      obtain rfl := Option.some.inj h
      rw [valueOf_cons, valueOf_cons, if_neg (hname ▸ hne), if_neg (hname ▸ hne)]
    next hname =>
      obtain ⟨vis1, hvis, rfl⟩ := Option.map_eq_some_iff.mp h
      rw [valueOf_cons, valueOf_cons, ih hvis]

theorem valueOf_setVar {name name' : Text} (hne : name ≠ name') (value : Word)
    (vis : List VarInfo) : valueOf name (setVar name' value vis) = valueOf name vis := by
  unfold setVar
  cases h : assign name' value vis with
  | none =>
    rw [Option.getD_none, valueOf_cons]
    exact if_neg hne
  | some vis' =>
    rw [Option.getD_some]
    exact valueOf_assign hne h

/-- A variable is set by lines that say so and by nothing else: if no line of the session sets
it, whether typed, recorded or read from a script, it has the value it had. -/
theorem variable_untouched {m m' : Main (W × List Text)} {fuel : ℕ} {name : Text}
    (hrun : mainLoop (command sys.logged fuel) lines m = .ok m')
    (hlines : ∀ t, SessionLine m lines m'.shell.world.2 t → ¬ Sets name t) :
    m'.shell.variableGet name = m.shell.variableGet name := by
  have hset {vs : List VarInfo} {t name' : Text} (value : Word) (ht : ¬ Sets name t)
      (hsets : Sets name' t) (hvs : valueOf name vs = m.shell.variableGet name) :
      valueOf name (setVar name' value vs) = m.shell.variableGet name := by
    have hne : name ≠ name' := fun he => ht (he ▸ hsets)
    rwa [valueOf_setVar hne]
  exact session_kept (fun vs _ => valueOf name vs = m.shell.variableGet name)
    (fun _ hvs => hvs) (fun _ _ _ hvs => hvs) hset hrun hlines rfl

/-- The lines a script has left, and whether `flash` was come to. -/
structure Desk where
  script : List Text
  flashed : Bool

def desk : System Desk Unit where
  swdpAhbRead _ w := (none, w)
  swdpCoreRead _ w := (none, w)
  func name _ w := some (0, { w with flashed := w.flashed || name == ascii "flash" })
  fopen _ w := (some (), w)
  fgets _ w := (w.script.head?, { w with script := w.script.tail })
  fclose _ w := w
  malloc w := (true, w)

/-- At the first prompt, with `$a` set, where the script sets `$b`. -/
def deskPrompt : Main (Desk × List Text) where
  lastline := []
  history := []
  shell := .fresh [⟨ascii "a", 7⟩] (⟨[ascii "set b 2\n"], false⟩, [])

theorem desk_word {t : Text} (v : Word) (h : 0x5b ∉ operandCopy t)
    (hplain : ∀ s : Shell (Desk × List Text),
      parsePlain desk.logged.toHost (operandCopy t) s = (some v, s))
    (s : Shell (Desk × List Text)) : parseNumber desk.logged.toHost t s = (some v, s) := by
  rw [parseNumber_plain desk.logged.toHost h, hplain]

theorem desk_set_b (c : Command (Desk × List Text)) (k : ℕ) (s : Shell (Desk × List Text)) :
    passOn (callees desk.logged c k) [ascii "set", ascii "b", ascii "2"] s =
      .ok (0, s.variableSet (ascii "b") 2) := by
  have hset := desk_word (t := ascii "set") 0 (by decide) fun _ => rfl
  have hb := desk_word (t := ascii "b") 0xb (by decide) fun _ => rfl
  have h2 := desk_word (t := ascii "2") 2 (by decide) fun _ => rfl
  simp only [passOn, callees, parseArgs, hset, hb, h2]
  rfl

theorem desk_script (c : Command (Desk × List Text)) (k : ℕ) (s : Shell (Desk × List Text)) :
    passOn (callees desk.logged c k) [ascii "script", ascii "s"] s =
      scriptLoop desk.logged c (some ()) s.objects.length k (.outside (s.alloc [])) >>= fun r =>
        .ok (r.1, if r.1 = errorUnknown then r.2.xprintf "unknown command: %s\n" [ascii "script"]
          else r.2) := by
  have hscript := desk_word (t := ascii "script") 0 (by decide) fun _ => rfl
  have hs := desk_word (t := ascii "s") 0 (by decide) fun _ => rfl
  simp only [passOn, callees, parseArgs, hscript, hs]
  rfl

/-- The session `script s`, up to the prompt behind it. -/
theorem desk_session : ∃ m', mainLoop (command desk.logged 3) [ascii "script s"] deskPrompt = .ok m' ∧
    m'.shell.world.2 = [ascii "set b 2\n"] ∧ m'.shell.variableGet (ascii "b") = some 2 := by
  let s0 : Shell (Desk × List Text) := (deskPrompt.shell.alloc (ascii "script s")).setObject 0 (ascii "script\x00s")
  let s1 : Shell (Desk × List Text) :=
    { ((s0.alloc []).setObject 1 (ascii "set b 2\n")) with
      world := (⟨[], false⟩, [ascii "set b 2\n"]) }
  let s2 := (s1.xprintf "script> %s" [ascii "set b 2\n"]).setObject 1 (ascii "set\x00b\x002\x00")
  have hset : command desk.logged 2 1 0 (s1.xprintf "script> %s" [ascii "set b 2\n"]) =
      .ok (0, s2.variableSet (ascii "b") 2) := desk_set_b _ _ _
  have hpass : scriptLine desk.logged (command desk.logged 2) 1 (.outside s1) =
      .ok (.next (.outside (s2.variableSet (ascii "b") 2))) := by
    have h : scriptLine desk.logged (command desk.logged 2) 1 (.outside s1) =
      (command desk.logged 2 1 0 (s1.xprintf "script> %s" [ascii "set b 2\n"]) >>= fun r =>
        if r.1 ≠ 0 then .ok (.ret false r.2) else .ok (.next (.outside r.2))) := rfl
    rw [h, hset]
    rfl
  have hloop : scriptLoop desk.logged (command desk.logged 2) (some ()) 1 2 (.outside (s0.alloc [])) =
      .ok (0, s2.variableSet (ascii "b") 2) := by
    rw [scriptLoop_next (r := .outside (s0.alloc [])) rfl hpass, scriptLoop_end rfl]
    rfl
  have hcommand : command desk.logged 3 0 0 (deskPrompt.shell.alloc (ascii "script s")) =
      .ok (0, s2.variableSet (ascii "b") 2) := by
    refine (desk_script (command desk.logged 2) 2 s0).trans ?_
    have hlen : s0.objects.length = 1 := rfl
    rw [hlen, hloop]
    rfl
  have hrecall : recalled (ascii "script s") deskPrompt =
      .ok (ascii "script s", ⟨ascii "script s", [ascii "script s"], deskPrompt.shell⟩) := rfl
  rw [mainLoop, mainPass_returns hrecall hcommand]
  exact ⟨_, rfl, rfl, rfl⟩

/-- The lines of that session. -/
theorem desk_lines {t : Text}
    (h : SessionLine deskPrompt [ascii "script s"] [ascii "set b 2\n"] t) :
    said t = [ascii "script", ascii "s"] ∨ said t = [] ∨
      said t = [ascii "set", ascii "b", ascii "2"] := by
  cases h with
  | typed hl =>
    left
    rw [List.mem_singleton.mp hl]
    decide
  | repeated =>
    right
    left
    decide
  | recorded hf => exact absurd hf List.not_mem_nil
  | read hr =>
    right
    right
    rw [List.mem_singleton.mp hr]
    decide

/-- A script that sets `$b` leaves `$a` alone. -/
theorem variable_untouched_a : ∃ m', mainLoop (command desk.logged 3) [ascii "script s"] deskPrompt = .ok m' ∧
    m'.shell.variableGet (ascii "b") = some 2 ∧ m'.shell.variableGet (ascii "a") = some 7 := by
  obtain ⟨m', hrun, hread, hb⟩ := desk_session
  refine ⟨m', hrun, hb, variable_untouched hrun ?_⟩
  rw [hread]
  rintro t ht ⟨cmd, var, rest, hsaid, -, hname⟩
  rcases desk_lines ht with h | h | h
  · rw [h] at hsaid
    obtain ⟨-, htail⟩ := List.cons.inj hsaid
    rw [← (List.cons.inj htail).1] at hname
    exact absurd hname (by decide)
  · rw [h] at hsaid
    exact absurd hsaid (by simp)
  · rw [h] at hsaid
    obtain ⟨-, htail⟩ := List.cons.inj hsaid
    rw [← (List.cons.inj htail).1] at hname
    exact absurd hname (by decide)

/-- What the interpreter's own accesses keep, and every command that a line of the session names,
the session keeps. -/
theorem target_untouched {m m' : Main (W × List Text)} {fuel : ℕ} {J : W → Prop}
    (hown : ∀ {w w'}, Access sys w w' → J w → J w')
    (hrun : mainLoop (command sys.logged fuel) lines m = .ok m')
    (hlines : ∀ t, SessionLine m lines m'.shell.world.2 t → ∀ name, Names name t →
      ∀ args w r w', sys.func name args w = some (r, w') → J w → J w')
    (hworld : J m.shell.world.1) : J m'.shell.world.1 :=
  session_kept (fun _ w => J w) hown
    (fun ht hname hrun => ht _ hname _ _ _ _ hrun) (fun _ _ _ hw => hw) hrun hlines hworld

/-- It does not come to `flash`. -/
theorem target_untouched_flash : ∃ m', mainLoop (command desk.logged 3) [ascii "script s"] deskPrompt = .ok m' ∧
    m'.shell.world.1.flashed = false := by
  obtain ⟨m', hrun, hread, -⟩ := desk_session
  have hown {w w' : Desk} (h : Access desk w w') (hw : w.flashed = false) : w'.flashed = false := by
    cases h <;> exact hw
  refine ⟨m', hrun, target_untouched hown hrun ?_ rfl⟩
  rw [hread]
  rintro t ht name ⟨cmd, rest, hsaid, hname⟩
  have hscript : debuggerCommands.find? (sameName (ascii "script")) = none := by decide
  have hset : debuggerCommands.find? (sameName (ascii "set")) = none := by decide
  rcases desk_lines ht with h | h | h
  · rw [h] at hsaid
    rw [← (List.cons.inj hsaid).1, hscript] at hname
    exact absurd hname (by simp)
  · rw [h] at hsaid
    exact absurd hsaid (by simp)
  · rw [h] at hsaid
    rw [← (List.cons.inj hsaid).1, hset] at hname
    exact absurd hname (by simp)

end

end M3Dev.Debugger
