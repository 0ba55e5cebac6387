import M3Dev.GdbText

/-! The state of the debugger's command interpreter, and `parse_number`: what the operands
of a command stand for. -/
namespace M3Dev.Debugger
variable {W : Type}

/-- A C string, without its NUL. -/
abbrev Text := List Byte

/-! ### Strings -/

/-- `strchr(s, c)`: what stands before the character, and behind it. -/
def strchr (c : Byte) : Text → Option (Text × Text)
  | [] => none
  | x :: xs =>
    if x = c then some ([], xs)
    else (strchr c xs).map fun r => (x :: r.1, r.2)

def tolower (c : Byte) : Byte := if 0x41 ≤ c ∧ c ≤ 0x5a then c + 0x20 else c

/-- `!strcasecmp(a, b)` -/
def sameName (a b : Text) : Bool := a.map tolower == b.map tolower

def isdigit (c : Byte) : Bool := 0x30 ≤ c && c ≤ 0x39

/-- The value of the decimal digits the string starts with. -/
def decPrefix : ℕ → Text → ℕ
  | v, [] => v
  | v, c :: cs => if isdigit c then decPrefix (10 * v + (c.toNat - 0x30)) cs else v

/-- `strtoul(s, 0, 10)`, kept in an `unsigned`. -/
def strtoul10 (s : Text) : Word :=
  let (neg, cs) := Gdb.scanSign (s.dropWhile Gdb.isSpace)
  BitVec.ofNat 32 (Gdb.toUlong neg (decPrefix 0 cs))

theorem strchr_eq_none {c : Byte} {t : Text} : strchr c t = none ↔ c ∉ t := by
  induction t with
  | nil => simp [strchr]
  | cons x xs ih =>
    by_cases hx : x = c
    · simp [strchr, hx]
    · simp [strchr, hx, ih, Ne.symm hx]

theorem strchr_append {c : Byte} {t u : Text} (h : c ∉ t) :
    strchr c (t ++ c :: u) = some (t, u) := by
  induction t with
  | nil => simp [strchr]
  | cons x xs ih =>
    have hx : x ≠ c := fun he => h (he ▸ List.mem_cons_self)
    have hxs : c ∉ xs := fun hm => h (List.mem_cons_of_mem x hm)
    simp [strchr, hx, ih hxs]

theorem strchr_eq_some {c : Byte} {t before behind : Text} :
    strchr c t = some (before, behind) ↔ t = before ++ c :: behind ∧ c ∉ before := by
  constructor
  · intro h
    induction t generalizing before with
    | nil => simp [strchr] at h
    | cons x xs ih =>
      by_cases hx : x = c
      · simp only [strchr, hx, if_true, Option.some.injEq, Prod.mk.injEq] at h
        obtain ⟨rfl, rfl⟩ := h
        simp [hx]
      · simp only [strchr, hx, if_false, Option.map_eq_some_iff, Prod.mk.injEq] at h
        obtain ⟨⟨b, b'⟩, hxs, rfl, rfl⟩ := h
        obtain ⟨rfl, hb⟩ := ih hxs
        simp [hb, Ne.symm hx]
  · rintro ⟨rfl, h⟩
    exact strchr_append h

theorem strchr_length {c : Byte} {t before behind : Text} (h : strchr c t = some (before, behind)) :
    before.length + behind.length < t.length := by
  have hlen := congrArg List.length (strchr_eq_some.mp h).1
  simp only [List.length_append, List.length_cons] at hlen
  omega

theorem strchr_take_length {c : Byte} {t before behind : Text} {n : ℕ}
    (h : strchr c (t.take n) = some (before, behind)) : before.length + behind.length < t.length :=
  Nat.lt_of_lt_of_le (strchr_length h) (List.length_take_le' n t)

/-! ### The state -/

/-- `param` -/
structure Param where
  s : Text
  n : Word
  deriving DecidableEq, Repr

/-- `struct varinfo` -/
structure VarInfo where
  name : Text
  value : Word
  deriving DecidableEq, Repr

/-- `struct funcinfo`; a line is the number of the object its text is in. -/
structure FuncInfo where
  name : Text
  lines : List ℕ
  deriving DecidableEq, Repr

/-- What the interpreter keeps between two of its steps. -/
structure Shell (W : Type) where
  /-- the text buffers there are, by number: recorded lines, and buffers of calls -/
  objects : List Text
  allVariables : List VarInfo
  allfuncs : List FuncInfo
  /-- `frame_argv`, of which there are `frame_argc` -/
  frameArgv : List Param
  /-- what was printed: formats and the texts in them -/
  printed : List (String × List Text)
  /-- the target and the files -/
  world : W
  /-- the text of a recorded line is in a buffer there is -/
  recorded : ∀ f ∈ allfuncs, ∀ l ∈ f.lines, l < objects.length

/-- As the program starts, but for the variables. -/
def Shell.fresh (allVariables : List VarInfo) (world : W) : Shell W :=
  ⟨[], allVariables, [], [], [], world, fun _ hf => absurd hf List.not_mem_nil⟩

/-- The accesses to the target that an operand may ask for; `none` where one fails. -/
structure Host (W : Type) where
  swdpAhbRead : Word → W → Option Word × W
  swdpCoreRead : ℕ → W → Option Word × W

/-- The loop of `variable_set`; `none` where no variable has the name. -/
def assign (name : Text) (value : Word) : List VarInfo → Option (List VarInfo)
  | [] => none
  | vi :: vis =>
    if name = vi.name then some ({ vi with value } :: vis)
    else (assign name value vis).map (vi :: ·)

namespace Shell

def xprintf (s : Shell W) (fmt : String) (args : List Text) : Shell W :=
  { s with printed := s.printed ++ [(fmt, args)] }

/-- What is in a text buffer is overwritten. -/
def setObject (s : Shell W) (o : ℕ) (t : Text) : Shell W :=
  { s with
    objects := s.objects.set o t
    recorded := fun f hf l hl => by
      rw [List.length_set]
      exact s.recorded f hf l hl }

def variableSet (s : Shell W) (name : Text) (value : Word) : Shell W :=
  match assign name value s.allVariables with
  | some vis => { s with allVariables := vis }
  | none => { s with allVariables := ⟨name, value⟩ :: s.allVariables }

def variableGet (s : Shell W) (name : Text) : Option Word :=
  (s.allVariables.find? fun vi => name = vi.name).map VarInfo.value

/-- An access to the target. -/
def access (f : W → Option Word × W) (s : Shell W) : Option Word × Shell W :=
  let (r, world) := f s.world
  (r, { s with world })

end Shell

/-! ### Operands -/

def coreRegmap : List (Text × ℕ) :=
  [(Gdb.ascii "r0", 0), (Gdb.ascii "r1", 1), (Gdb.ascii "r2", 2), (Gdb.ascii "r3", 3),
    (Gdb.ascii "r4", 4), (Gdb.ascii "r5", 5), (Gdb.ascii "r6", 6), (Gdb.ascii "r7", 7),
    (Gdb.ascii "r8", 8), (Gdb.ascii "r9", 9), (Gdb.ascii "r10", 10), (Gdb.ascii "r11", 11),
    (Gdb.ascii "r12", 12), (Gdb.ascii "r13", 13), (Gdb.ascii "sp", 13), (Gdb.ascii "r14", 14),
    (Gdb.ascii "lr", 14), (Gdb.ascii "r15", 15), (Gdb.ascii "pc", 15), (Gdb.ascii "psr", 16),
    (Gdb.ascii "msp", 17), (Gdb.ascii "psp", 18)]

/-- The register of that name. -/
def registerNumber (name : Text) : Option ℕ :=
  (coreRegmap.find? fun r => sameName name r.1).map Prod.snd

def readMemoryWord (host : Host W) (addr : Word) : Shell W → Option Word × Shell W :=
  Shell.access (host.swdpAhbRead addr)

/-- `none` is `ERROR_UNKNOWN`. -/
def readRegister (host : Host W) (name : Text) (s : Shell W) : Option (Option Word × Shell W) :=
  (registerNumber name).map fun n => s.access (host.swdpCoreRead n)

def parseGlobal (name : Text) (s : Shell W) : Word × Shell W :=
  match s.variableGet name with
  | some value => (value, s)
  | none => (0, s.xprintf "undefined variable '%s'\n" [name])

/-- `$` and a name: the arguments of the active call are `$1` to `$9`. -/
def parseVariable (text name : Text) (s : Shell W) : Word × Shell W :=
  match name with
  | [d] =>
    if isdigit d then
      let r := d.toNat - 0x30
      match if 0 < r then s.frameArgv[r - 1]? else none with
      | some arg => (arg.n, s)
      | none => (0, s.xprintf "no local variable %s\n" [text])
    else parseGlobal name s
  | _ => parseGlobal name s

/-- The operands of `parse_number` without a bracket. -/
def parsePlain (host : Host W) (text : Text) (s : Shell W) : Option Word × Shell W :=
  if text.head? = some 0x24 then
    let (value, s) := parseVariable text text.tail s
    (some value, s)
  else
    match readRegister host text s with
    | some r => r
    | none =>
      if text.head? = some 0x2e then (some (strtoul10 text.tail), s)
      else (some (Gdb.strtoul text), s)

/-- `sizeof(text)` -/
def maxOperand : ℕ := 64

/-- What `parse_number` works on; it copies no more than that. -/
def operandCopy (input : Text) : Text := input.take (maxOperand - 1)

/-- The value `parse_number` returns 0 with; `none` where it returns -1. -/
def parseNumber (host : Host W) (input : Text) (s : Shell W) : Option Word × Shell W :=
  let text := operandCopy input
  match _hopen : strchr 0x5b text with
  | some (base, obrack) =>
    match _hclose : strchr 0x5d obrack with
    | none => (none, s)
    | some (index, _) =>
      match parseNumber host base s with
      | (none, s) => (none, s)
      | (some base, s) =>
        match parseNumber host index s with
        | (none, s) => (none, s)
        | (some index, s) => readMemoryWord host (base + index) s
  | none => parsePlain host text s
termination_by input.length
decreasing_by
  · have hlen := strchr_take_length _hopen
    omega
  · have hlen := strchr_take_length _hopen
    have hlen' := strchr_length _hclose
    omega

theorem operandCopy_short {t : Text} (h : t.length < maxOperand) : operandCopy t = t :=
  List.take_of_length_le (by omega)

theorem operandCopy_length (t : Text) : (operandCopy t).length < maxOperand := by
  have hlen : (operandCopy t).length ≤ maxOperand - 1 := List.length_take_le _ _
  exact Nat.lt_of_le_of_lt hlen (by decide)

theorem parseNumber_plain (host : Host W) {t : Text} (h : 0x5b ∉ operandCopy t) (s : Shell W) :
    parseNumber host t s = parsePlain host (operandCopy t) s := by
  rw [parseNumber]
  split
  · next hopen => exact absurd (hopen.symm.trans (strchr_eq_none.mpr h)) (by simp)
  · rfl

theorem parseNumber_open (host : Host W) {t base obrack : Text}
    (h : strchr 0x5b (operandCopy t) = some (base, obrack)) (s : Shell W) :
    parseNumber host t s =
      match strchr 0x5d obrack with
      | none => (none, s)
      | some (index, _) =>
        match parseNumber host base s with
        | (none, s) => (none, s)
        | (some base, s) =>
          match parseNumber host index s with
          | (none, s) => (none, s)
          | (some index, s) => readMemoryWord host (base + index) s := by
  rw [parseNumber]
  split
  · next hopen =>
    obtain ⟨rfl, rfl⟩ := Prod.mk.inj (Option.some.inj (hopen.symm.trans h))
    split
    · next hclose => rw [hclose]
    · next hclose => rw [hclose]
  · next hopen => exact absurd (hopen.symm.trans h) (by simp)

end M3Dev.Debugger
