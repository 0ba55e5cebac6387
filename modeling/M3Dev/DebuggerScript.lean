import M3Dev.DebuggerLine

/-! The interpreter of commands: variables, scripts, and the functions scripts define. A
command line may come to a function or a script, and these to command lines; the depth of
that is bounded by a fuel. -/
namespace M3Dev.Debugger
open Gdb (ascii isSpace)
variable {W H : Type}

/-- The rest of the program: the commands on the target, files (none is `stdin`), and the
heap. A command that does not return has no result. -/
structure System (W H : Type) extends Host W where
  func : Text → List Param → W → Option (ℤ × W)
  fopen : Text → W → Option H × W
  /-- up to the end of a line, at most 255 characters -/
  fgets : Option H → W → Option Text × W
  fclose : H → W → W
  malloc : W → Bool × W

/-- `debugger_command` on the line at a place of a text buffer. -/
abbrev Command (W : Type) := ℕ → ℕ → Shell W → Except Halt (ℤ × Shell W)

/-! ### set -/

def isalpha (c : Byte) : Bool := (0x41 ≤ c && c ≤ 0x5a) || (0x61 ≤ c && c ≤ 0x7a)

/-- `a op b`; none is an operation there is not. -/
def setValue (op : Text) (a b : Word) : Except Halt (Option Word) :=
  if op = ascii "+" then .ok (some (a + b))
  else if op = ascii "-" then .ok (some (a - b))
  else if op = ascii "<<" then
    if b.toNat < 32 then .ok (some (a <<< b.toNat)) else .error .undefined
  else if op = ascii ">>" then
    if b.toNat < 32 then .ok (some (a >>> b.toNat)) else .error .undefined
  else if op = ascii "*" then .ok (some (a * b))
  else if op = ascii "/" then .ok (some (if b = 0 then 0 else a / b))
  else .ok none

/-- The variable's name, or the message that it is none. -/
def setName (s : Text) : Except String Text :=
  let name := if s.head? = some 0x24 then s.tail else s
  match name with
  | [] => .error "error: empty name?!\n"
  | c :: _ =>
    if isalpha c then .ok name else .error "error: variable name must begin with a letter\n"

def doSet (args : List Param) (s : Shell W) : Except Halt (ℤ × Shell W) :=
  match args with
  | [var, value] =>
    match setName var.s with
    | .error msg => .ok (-1, s.xprintf msg [])
    | .ok name => .ok (0, s.variableSet name value.n)
  | [var, a, op, b] =>
    match setName var.s with
    | .error msg => .ok (-1, s.xprintf msg [])
    | .ok name => do
      match ← setValue op.s a.n b.n with
      | none =>
        return (-1, s.xprintf "error: set <var> <a> <op> <b> requires op: + - * / << >>\n" [])
      | some n => return (0, s.variableSet name n)
  | _ => .ok (-1, s.xprintf "error: set requires two or four arguments\n" [])

/-! ### Scripts -/

def Shell.alloc (s : Shell W) (t : Text) : Shell W :=
  { s with
    objects := s.objects ++ [t]
    recorded := fun f hf l hl => by
      have hlt := s.recorded f hf l hl
      rw [List.length_append]
      omega }

/-- A script as it is read: `newfunc` is the function it is in. -/
structure Recording (W : Type) where
  shell : Shell W
  newfunc : Option FuncInfo
  allocated : ∀ f ∈ newfunc, ∀ l ∈ f.lines, l < shell.objects.length

/-- Outside functions. -/
def Recording.outside (s : Shell W) : Recording W := ⟨s, none, nofun⟩

/-- In a new function. -/
def Recording.begin (s : Shell W) (name : Text) : Recording W :=
  ⟨s, some ⟨name, []⟩, by
    rintro f ⟨⟩ l hl
    exact absurd hl List.not_mem_nil⟩

/-- Another line of the function. -/
def Recording.addLine (r : Recording W) (f : FuncInfo) (h : r.newfunc = some f) (t : Text) :
    Recording W where
  shell := r.shell.alloc t
  newfunc := some { f with lines := f.lines ++ [r.shell.objects.length] }
  allocated := by
    rintro g ⟨⟩ l hl
    have hlen : (r.shell.alloc t).objects.length = r.shell.objects.length + 1 := by
      rw [Shell.alloc, List.length_append, List.length_singleton]
    rw [hlen]
    rcases List.mem_append.mp hl with hl | hl
    · have hlt := r.allocated f h l hl
      omega
    · rw [List.mem_singleton.mp hl]
      omega

/-- The function is complete. -/
def Recording.link (r : Recording W) (f : FuncInfo) (h : r.newfunc = some f) : Recording W :=
  .outside
    { r.shell with
      allfuncs := f :: r.shell.allfuncs
      recorded := by
        intro g hg
        rcases List.mem_cons.mp hg with rfl | hg
        · exact r.allocated g h
        · exact r.shell.recorded g hg }

/-- `linebuf` is filled. -/
def Recording.filled (r : Recording W) (b : ℕ) (t : Text) (world : W) : Recording W :=
  ⟨{ r.shell.setObject b t with world }, r.newfunc, fun f hf l hl => by
    have hlt := r.allocated f hf l hl
    rwa [show ({ r.shell.setObject b t with world } : Shell W).objects = r.shell.objects.set b t
      from rfl, List.length_set]⟩

def skipSpaces (buf : Text) (i : ℕ) : ℕ := i + ((buf.drop i).takeWhile isSpace).length

def iscntrl (c : Byte) : Bool := c < 0x20 || c == 0x7f

/-- `!strncmp(line, word, n) && isspace(line[n])` -/
def startsWith (buf : Text) (line : ℕ) (word : Text) : Bool :=
  (cstr buf line).take word.length == word && isSpace (charAt buf (line + word.length))

/-- How a pass of the loop over the lines ends. -/
inductive ScriptStep (W : Type) where
  | next (r : Recording W)
  | leave (s : Shell W)
  | ret (closes : Bool) (s : Shell W)

/-- The pass for the line in `linebuf`, which is the text buffer `b`. -/
def scriptLine (sys : System W H) (command : Command W) (b : ℕ) (r : Recording W) :
    Except Halt (ScriptStep W) :=
  let s := r.shell
  let buf := s.objects.getD b []
  let line := skipSpaces buf 0
  if iscntrl (charAt buf line) ∨ charAt buf line = 0x23 then .ok (.next r)
  else if startsWith buf line (ascii "function") then
    if r.newfunc.isSome then .ok (.leave (s.xprintf "error: nested functions not allowed\n" []))
    else
      let start := skipSpaces buf (line + 9)
      let name := (cstr buf start).takeWhile (!isSpace ·)
      let s := s.setObject b (buf.set (start + name.length) 0)
      if name = [] then .ok (.leave (s.xprintf "error: functions must have names\n" []))
      else
        let (ok, world) := sys.malloc s.world
        let s := { s with world }
        if ok then .ok (.next (.begin s name))
        else .ok (.leave (s.xprintf "error: out of memory\n" []))
  else
    match h : r.newfunc with
    | some f =>
      if startsWith buf line (ascii "end") then .ok (.next (r.link f h))
      else if (sys.malloc s.world).1 then
        let r := r.addLine f h (cstr buf line)
        .ok (.next ⟨{ r.shell with world := (sys.malloc s.world).2 }, r.newfunc, r.allocated⟩)
      else .ok (.ret true ({ s with world := (sys.malloc s.world).2 }.xprintf "out of memory" []))
    | none => do
      let (rc, s) ← command b line (s.xprintf "script> %s" [cstr buf line])
      if rc ≠ 0 then return .ret false s else return .next (.outside s)

/-- `if (fp != stdin) fclose(fp)` -/
def closeFile (sys : System W H) (fp : Option H) (s : Shell W) : Shell W :=
  match fp with
  | some file => { s with world := sys.fclose file s.world }
  | none => s

/-- The loop over the lines, and what is behind it. -/
def scriptLoop (sys : System W H) (command : Command W) (fp : Option H) (b : ℕ) :
    ℕ → Recording W → Except Halt (ℤ × Shell W)
  | 0, _ => .error .running
  | fuel + 1, r =>
    match sys.fgets fp r.shell.world with
    | (none, world) => .ok (0, closeFile sys fp { r.shell with world })
    | (some t, world) => do
      match ← scriptLine sys command b (r.filled b t world) with
      | .next r => scriptLoop sys command fp b fuel r
      | .leave s => return (0, closeFile sys fp s)
      | .ret closes s => return (-1, if closes then closeFile sys fp s else s)

theorem scriptLoop_next {sys : System W H} {command : Command W} {fp : Option H} {b fuel : ℕ}
    {r r' : Recording W} {t : Text} {w : W} (hread : sys.fgets fp r.shell.world = (some t, w))
    (hline : scriptLine sys command b (r.filled b t w) = .ok (.next r')) :
    scriptLoop sys command fp b (fuel + 1) r = scriptLoop sys command fp b fuel r' := by
  rw [scriptLoop, hread]
  simp only [bind, Except.bind, hline]

theorem scriptLoop_end {sys : System W H} {command : Command W} {fp : Option H} {b fuel : ℕ}
    {r : Recording W} {w : W} (hread : sys.fgets fp r.shell.world = (none, w)) :
    scriptLoop sys command fp b (fuel + 1) r =
      .ok (0, closeFile sys fp { r.shell with world := w }) := by
  rw [scriptLoop, hread]

def doScript (sys : System W H) (command : Command W) (fuel : ℕ) (args : List Param)
    (s : Shell W) : Except Halt (ℤ × Shell W) :=
  match args with
  | [file] =>
    if file.s = ascii "-" then
      scriptLoop sys command none s.objects.length fuel (.outside (s.alloc []))
    else
      match sys.fopen file.s s.world with
      | (none, world) => .ok (-1, { s with world }.xprintf "error: cannot open '%s'\n" [file.s])
      | (some fp, world) =>
        scriptLoop sys command (some fp) s.objects.length fuel (.outside ({ s with world }.alloc []))
  | _ => .ok (-1, s)

/-! ### Functions -/

/-- The text of a recorded line. -/
def Shell.lineText (s : Shell W) (l : ℕ) : Text := cstr (s.objects.getD l []) 0

/-- `sizeof(text)` in `exec_function` -/
def maxLine : ℕ := 256

/-- The loop over the lines of a function; `text` is the text buffer `b`. -/
def execLines (command : Command W) (f : FuncInfo) (b : ℕ) :
    List ℕ → ℕ → Shell W → Except Halt (ℤ × Shell W)
  | [], _, s => .ok (0, s)
  | l :: ls, n, s =>
    if (s.lineText l).length < maxLine then do
      let (r, s) ← command b 0 (s.setObject b (s.lineText l))
      if r ≠ 0 then return (r, s.xprintf "error: %s: line %d\n" [f.name, ascii (toString n)])
      else execLines command f b ls (n + 1) s
    else .error .undefined

def execFunction (command : Command W) (f : FuncInfo) (args : List Param) (s : Shell W) :
    Except Halt (ℤ × Shell W) := do
  let (r, s') ← execLines command f s.objects.length f.lines 1 ({ s with frameArgv := args }.alloc [])
  return (r, { s' with frameArgv := s.frameArgv })

/-! ### Commands -/

/-- The names in `debugger_commands`. -/
def debuggerCommands : List Text :=
  ["exit", "attach", "regs", "finfo", "stop", "step", "go", "dw", "db", "dr", "wr", "download",
    "run", "flash", "erase", "reset", "reset-stop", "reset-hw", "watch-pc", "watch-rw",
    "watch-off", "log", "maskints", "print", "echo", "bootloader", "setclock", "swoclock",
    "arch", "threads", "text", "wconsole", "help"].map ascii

def debuggerExec (sys : System W H) (command : Command W) (fuel : ℕ) (cmd : Text)
    (args : List Param) (s : Shell W) : Except Halt (ℤ × Shell W) :=
  if sameName cmd (ascii "set") then doSet args s
  else if sameName cmd (ascii "script") then doScript sys command fuel args s
  else
    match debuggerCommands.find? (sameName cmd) with
    | some name =>
      match sys.func name args s.world with
      | some (r, world) => .ok (r, { s with world })
      | none => .error .running
    | none =>
      match s.allfuncs.find? (fun f => sameName cmd f.name) with
      | some f => execFunction command f args s
      | none => .ok (errorUnknown, s)

def callees (sys : System W H) (command : Command W) (fuel : ℕ) : Callees W where
  parseNumber := parseNumber sys.toHost
  debuggerExec := debuggerExec sys command fuel

/-- `debugger_command`, with calls in calls down to a depth. -/
def command (sys : System W H) : ℕ → Command W
  | 0 => fun _ _ _ => .error .running
  | fuel + 1 => debuggerCommand (callees sys (command sys fuel) fuel)

end M3Dev.Debugger
