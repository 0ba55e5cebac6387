import M3Dev.DebuggerState

/-! `parse_number` against the grammar of operands it is written for. -/
namespace M3Dev.Debugger
variable {W : Type}

/-! ### The grammar -/

/-- A constant, as `strtoul` reads one to its end: a sign if any, and digits, which are
decimal behind a dot and otherwise hexadecimal. -/
def isConstant (t : Text) : Bool :=
  if t.head? = some 0x2e then
    let digits := (Gdb.scanSign t.tail).2
    !digits.isEmpty && digits.all isdigit
  else
    let digits := Gdb.skip0x (Gdb.scanSign t).2
    !digits.isEmpty && digits.all Gdb.isHex

/-- `E ::= constant | $variable | register | E[E]` -/
inductive Operand where
  | constant (t : Text)
  | named (name : Text)
  | register (name : Text)
  | word (base index : Operand)
  deriving DecidableEq, Repr

namespace Operand

def text : Operand → Text
  | constant t => t
  | named name => 0x24 :: name
  | register name => name
  | word base index => base.text ++ 0x5b :: (index.text ++ [0x5d])

def Formed : Operand → Prop
  | constant t => isConstant t
  | named name => name ≠ [] ∧ 0x5b ∉ name ∧ 0x5d ∉ name
  | register name => (registerNumber name).isSome
  | word base index => base.Formed ∧ index.Formed

instance decidableFormed : (e : Operand) → Decidable e.Formed
  | constant t => inferInstanceAs (Decidable (isConstant t = true))
  | named name => inferInstanceAs (Decidable (name ≠ [] ∧ 0x5b ∉ name ∧ 0x5d ∉ name))
  | register name => inferInstanceAs (Decidable ((registerNumber name).isSome = true))
  | word base index =>
    have := base.decidableFormed
    have := index.decidableFormed
    inferInstanceAs (Decidable (base.Formed ∧ index.Formed))

/-- How many words of memory it asks for. -/
def words : Operand → ℕ
  | word base index => base.words + index.words + 1
  | _ => 0

end Operand

/-- The text is an operand of the grammar. -/
def InGrammar (t : Text) : Prop := ∃ e : Operand, e.Formed ∧ e.text = t

/-- A target of which every access succeeds; it may be running. -/
structure Target (W : Type) where
  word : Word → W → Word × W
  /-- the word where the access before this one was -/
  stale : W → Word × W
  register : ℕ → W → Word × W

/-- For `0xffffffff` TAR is not written: `q_init` takes that for what is in it. -/
def Target.ahbRead (target : Target W) (addr : Word) (w : W) : Word × W :=
  if addr = 0xffffffff then target.stale w else target.word addr w

def Target.host (target : Target W) : Host W where
  swdpAhbRead addr w := (some (target.ahbRead addr w).1, (target.ahbRead addr w).2)
  swdpCoreRead n w := (some (target.register n w).1, (target.register n w).2)

/-- The number digits stand for. -/
def number (base : ℕ) (digit : Byte → ℕ) (ds : Text) : ℕ :=
  ds.foldl (fun v c => base * v + digit c) 0

/-- A constant of too many digits is `ULONG_MAX`, and the lower half of that is kept. -/
def constantValue (t : Text) : Word :=
  if t.head? = some 0x2e then
    let (neg, ds) := Gdb.scanSign t.tail
    BitVec.ofNat 32 (Gdb.toUlong neg (number 10 (fun c => c.toNat - 0x30) ds))
  else
    let (neg, ds) := Gdb.scanSign t
    BitVec.ofNat 32 (Gdb.toUlong neg (number 16 (fun c => (Gdb.hexValue c).getD 0) (Gdb.skip0x ds)))

def globalValue (vis : List VarInfo) (name : Text) : Word :=
  ((vis.find? fun vi => name = vi.name).map VarInfo.value).getD 0

/-- What a variable stands for: `$1` to `$9` are the arguments of the active call. What
has not been set is 0. -/
def variableValue (vis : List VarInfo) (frame : List Param) (name : Text) : Word :=
  match name with
  | [d] =>
    if isdigit d then
      if d = 0x30 then 0 else (frame[d.toNat - 0x31]?.map Param.n).getD 0
    else globalValue vis name
  | _ => globalValue vis name

/-- The variables as an operand sees them. -/
def Shell.vars (s : Shell W) : Text → Word := variableValue s.allVariables s.frameArgv

/-- The value of an operand, with the target as the accesses leave it. -/
def Operand.value (target : Target W) (vars : Text → Word) : Operand → W → Word × W
  | constant t, w => (constantValue t, w)
  | named name, w => (vars name, w)
  | register name, w => target.register ((registerNumber name).getD 0) w
  | word base index, w =>
    let (b, w) := base.value target vars w
    let (i, w) := index.value target vars w
    target.word (b + i) w

/-! ### Variables, registers and constants -/

theorem parseGlobal_eq (name : Text) (s : Shell W) :
    ∃ p, parseGlobal name s = (globalValue s.allVariables name, { s with printed := p }) := by
  rw [parseGlobal, Shell.variableGet, globalValue]
  cases s.allVariables.find? fun vi => name = vi.name with
  | some vi => exact ⟨s.printed, rfl⟩
  | none => exact ⟨_, rfl⟩

theorem isdigit_toNat {d : Byte} (h : isdigit d) : 0x30 ≤ d.toNat ∧ d.toNat ≤ 0x39 := by
  revert h
  simp only [isdigit, Bool.and_eq_true, decide_eq_true_eq, BitVec.le_def]
  exact id

theorem parseVariable_eq (text name : Text) (s : Shell W) :
    ∃ p, parseVariable text name s = (s.vars name, { s with printed := p }) := by
  match name with
  | [] => exact parseGlobal_eq [] s
  | a :: b :: cs => exact parseGlobal_eq (a :: b :: cs) s
  | [d] =>
    unfold parseVariable Shell.vars variableValue
    by_cases hd : isdigit d
    · simp only [if_pos hd]
      by_cases h0 : d = 0x30
      · subst h0
        exact ⟨_, rfl⟩
      · have hr : 0 < d.toNat - 0x30 := by
          have hne : d.toNat ≠ 0x30 := fun he => h0 (BitVec.eq_of_toNat_eq he)
          have hlow := (isdigit_toNat hd).1
          omega
        simp only [if_neg h0, if_pos hr, Nat.sub_sub]
        cases s.frameArgv[d.toNat - 0x31]? with
        | some arg => exact ⟨s.printed, rfl⟩
        | none => exact ⟨_, rfl⟩
    · simp only [if_neg hd]
      exact parseGlobal_eq [d] s

theorem parsePlain_named (host : Host W) (name : Text) (s : Shell W) :
    ∃ p, parsePlain host (0x24 :: name) s = (some (s.vars name), { s with printed := p }) := by
  obtain ⟨p, hp⟩ := parseVariable_eq (0x24 :: name) name s
  refine ⟨p, ?_⟩
  rw [parsePlain, if_pos List.head?_cons, List.tail_cons, hp]

/-- The registers' names are told from constants by their first letter. -/
def registerInitials : List Byte := Gdb.ascii "rslpm"

theorem registerNumber_some {name : Text} {n : ℕ} (h : registerNumber name = some n) :
    ∃ r ∈ coreRegmap, name.map tolower = r.1.map tolower := by
  obtain ⟨r, hr, -⟩ := Option.map_eq_some_iff.mp h
  have hsame := List.find?_some hr
  exact ⟨r, List.mem_of_find?_eq_some hr, eq_of_beq hsame⟩

theorem register_initial {name : Text} {n : ℕ} (h : registerNumber name = some n) :
    ∃ c cs, name = c :: cs ∧ tolower c ∈ registerInitials := by
  have hinitials : ∀ r ∈ coreRegmap, ∃ c ∈ registerInitials, (r.1.map tolower).head? = some c := by
    decide
  obtain ⟨r, hr, he⟩ := registerNumber_some h
  obtain ⟨c, hc, hhead⟩ := hinitials r hr
  rw [← he] at hhead
  cases name with
  | nil => exact absurd hhead (by simp)
  | cons d ds =>
    rw [List.map_cons, List.head?_cons, Option.some.injEq] at hhead
    exact ⟨d, ds, rfl, hhead ▸ hc⟩

theorem register_no_bracket {name : Text} {n : ℕ} (h : registerNumber name = some n) :
    0x5b ∉ name ∧ 0x5d ∉ name := by
  have hnames : ∀ r ∈ coreRegmap, 0x5b ∉ r.1.map tolower ∧ 0x5d ∉ r.1.map tolower := by decide
  obtain ⟨r, hr, he⟩ := registerNumber_some h
  obtain ⟨hopen, hclose⟩ := hnames r hr
  rw [← he] at hopen hclose
  exact ⟨fun hm => hopen (List.mem_map_of_mem (f := tolower) hm),
    fun hm => hclose (List.mem_map_of_mem (f := tolower) hm)⟩

theorem parsePlain_register (target : Target W) {name : Text} {n : ℕ}
    (h : registerNumber name = some n) (s : Shell W) :
    parsePlain target.host name s =
      (some (target.register n s.world).1, { s with world := (target.register n s.world).2 }) := by
  have hdollar : tolower 0x24 ∉ registerInitials := by decide
  obtain ⟨c, cs, rfl, hc⟩ := register_initial h
  have hc' : (c :: cs).head? ≠ some 0x24 := by
    rintro he
    rw [List.head?_cons, Option.some.injEq] at he
    exact hdollar (he ▸ hc)
  rw [parsePlain, if_neg hc', readRegister, h]
  rfl

theorem scanSign_snd_mem {t : Text} {c : Byte} (h : c ∈ t) :
    c ∈ (Gdb.scanSign t).2 ∨ c = 0x2d ∨ c = 0x2b := by
  unfold Gdb.scanSign
  split
  · next cs => exact (List.mem_cons.mp h).elim (fun he => .inr (.inl he)) .inl
  · next cs => exact (List.mem_cons.mp h).elim (fun he => .inr (.inr he)) .inl
  · exact .inl h

theorem skip0x_mem {t : Text} {c : Byte} (h : c ∈ t) :
    c ∈ Gdb.skip0x t ∨ c = 0x30 ∨ c = 0x78 ∨ c = 0x58 := by
  unfold Gdb.skip0x
  split
  · next x d cs =>
    split
    · next hx =>
      rcases List.mem_cons.mp h with he | h
      · exact .inr (.inl he)
      · rcases List.mem_cons.mp h with he | h
        · exact .inr (.inr (he ▸ hx.1))
        · exact .inl h
    · exact .inl h
  · exact .inl h

/-- The characters constants are made of. -/
def inConstant (c : Byte) : Bool :=
  Gdb.isHex c || c == 0x2e || c == 0x2d || c == 0x2b || c == 0x78 || c == 0x58

theorem isdigit_isHex {c : Byte} (h : isdigit c) : Gdb.isHex c := by
  revert c
  decide

theorem isConstant_chars {t : Text} (h : isConstant t) : ∀ c ∈ t, inConstant c := by
  intro c hc
  unfold isConstant at h
  split at h
  · next hdot =>
    simp only [Bool.and_eq_true, List.all_eq_true] at h
    obtain ⟨cs, rfl⟩ := List.head?_eq_some_iff.mp hdot
    rcases List.mem_cons.mp hc with he | hc
    · simp [inConstant, he]
    · rcases scanSign_snd_mem hc with hm | he | he
      · simp [inConstant, isdigit_isHex (h.2 c hm)]
      · simp [inConstant, he]
      · simp [inConstant, he]
  · simp only [Bool.and_eq_true, List.all_eq_true] at h
    rcases scanSign_snd_mem hc with hm | he | he
    · rcases skip0x_mem hm with hm | he | he | he
      · simp [inConstant, h.2 c hm]
      · rw [he]; decide
      · simp [inConstant, he]
      · simp [inConstant, he]
    · simp [inConstant, he]
    · simp [inConstant, he]

theorem isConstant_no_bracket {t : Text} (h : isConstant t) : 0x5b ∉ t ∧ 0x5d ∉ t :=
  ⟨fun hm => absurd (isConstant_chars h _ hm) (by decide),
    fun hm => absurd (isConstant_chars h _ hm) (by decide)⟩

theorem isConstant_not_register {t : Text} (h : isConstant t) : registerNumber t = none := by
  have hinitials : ∀ c : Byte, inConstant c → tolower c ∉ registerInitials := by decide
  rw [Option.eq_none_iff_forall_not_mem]
  intro n hn
  obtain ⟨c, cs, rfl, hc⟩ := register_initial hn
  exact hinitials c (isConstant_chars h c List.mem_cons_self) hc

theorem hexPrefix_number (ds : Text) : ∀ v, ds.all Gdb.isHex →
    Gdb.hexPrefix v ds = ds.foldl (fun v c => 16 * v + (Gdb.hexValue c).getD 0) v := by
  induction ds with
  | nil => intro v _; rfl
  | cons c cs ih =>
    intro v hall
    rw [List.all_cons, Bool.and_eq_true] at hall
    obtain ⟨d, hd⟩ := Option.isSome_iff_exists.mp hall.1
    rw [Gdb.hexPrefix, List.foldl_cons, hd]
    exact ih _ hall.2

theorem decPrefix_number (ds : Text) : ∀ v, ds.all isdigit →
    decPrefix v ds = ds.foldl (fun v c => 10 * v + (c.toNat - 0x30)) v := by
  induction ds with
  | nil => intro v _; rfl
  | cons c cs ih =>
    intro v hall
    rw [List.all_cons, Bool.and_eq_true] at hall
    rw [decPrefix, if_pos hall.1, List.foldl_cons]
    exact ih _ hall.2

theorem strtoul_scanSign {s : Text} (h : s.dropWhile Gdb.isSpace = s) :
    Gdb.strtoul s = BitVec.ofNat 32 (Gdb.toUlong (Gdb.scanSign s).1
      (Gdb.hexPrefix 0 (Gdb.skip0x (Gdb.scanSign s).2))) := by
  rw [Gdb.strtoul, h]
  unfold Gdb.scanSign
  split <;> rfl

theorem no_space {t : Text} (h : ∀ c ∈ t, inConstant c) : t.dropWhile Gdb.isSpace = t := by
  have hspace : ∀ c : Byte, inConstant c → Gdb.isSpace c = false := by decide
  cases t with
  | nil => rfl
  | cons c cs =>
    rw [List.dropWhile_cons_of_neg]
    simp [hspace c (h c List.mem_cons_self)]

theorem parsePlain_constant (host : Host W) {t : Text} (h : isConstant t) (s : Shell W) :
    parsePlain host t s = (some (constantValue t), s) := by
  have hchars := isConstant_chars h
  have hhead : t.head? ≠ some 0x24 := fun he =>
    absurd (hchars _ (List.mem_of_head? he)) (by decide)
  rw [parsePlain, if_neg hhead, readRegister, isConstant_not_register h, constantValue]
  unfold isConstant at h
  split at h
  · next hdot =>
    simp only [Bool.and_eq_true] at h
    have htail : ∀ c ∈ t.tail, inConstant c := fun c hc => hchars c (List.mem_of_mem_tail hc)
    simp only [Option.map_none, if_pos hdot, strtoul10, no_space htail,
      decPrefix_number _ 0 h.2, number]
  · next hdot =>
    simp only [Bool.and_eq_true] at h
    simp only [Option.map_none, if_neg hdot, strtoul_scanSign (no_space hchars),
      hexPrefix_number _ 0 h.2, number]

/-! ### Operands without brackets -/

theorem parsePlain_total (target : Target W) (t : Text) (s : Shell W) :
    ∃ v w p, parsePlain target.host t s = (some v, { s with world := w, printed := p }) ∧
      (w = s.world ∨ ∃ n, w = (target.register n s.world).2) := by
  by_cases hdollar : t.head? = some 0x24
  · obtain ⟨name, rfl⟩ := List.head?_eq_some_iff.mp hdollar
    obtain ⟨p, hp⟩ := parsePlain_named target.host name s
    exact ⟨_, s.world, p, hp, .inl rfl⟩
  · cases hr : registerNumber t with
    | some n => exact ⟨_, _, s.printed, parsePlain_register target hr s, .inr ⟨n, rfl⟩⟩
    | none =>
      rw [parsePlain, if_neg hdollar, readRegister, hr]
      by_cases hdot : t.head? = some 0x2e
      · exact ⟨_, s.world, s.printed, if_pos hdot, .inl rfl⟩
      · exact ⟨_, s.world, s.printed, if_neg hdot, .inl rfl⟩

theorem Operand.leaf_value (target : Target W) {e : Operand} (hleaf : e.words = 0) (hf : e.Formed)
    (s : Shell W) :
    ∃ p, parsePlain target.host e.text s = (some (e.value target s.vars s.world).1,
      { s with world := (e.value target s.vars s.world).2, printed := p }) := by
  cases e with
  | constant t => exact ⟨s.printed, parsePlain_constant target.host hf s⟩
  | named name => exact parsePlain_named target.host name s
  | register name =>
    obtain ⟨n, hn⟩ := Option.isSome_iff_exists.mp hf
    refine ⟨s.printed, ?_⟩
    rw [Operand.text, parsePlain_register target hn, Operand.value, hn]
    rfl
  | word base index => exact absurd hleaf (by simp [words])

theorem Operand.leaf_no_bracket {e : Operand} (hleaf : e.words = 0) (hf : e.Formed) :
    0x5b ∉ e.text ∧ 0x5d ∉ e.text := by
  cases e with
  | constant t => exact isConstant_no_bracket hf
  | named name =>
    have hopen : (0x5b : Byte) ≠ 0x24 := by decide
    have hclose : (0x5d : Byte) ≠ 0x24 := by decide
    simp only [Operand.text, List.mem_cons, not_or]
    exact ⟨⟨hopen, hf.2.1⟩, hclose, hf.2.2⟩
  | register name =>
    obtain ⟨n, hn⟩ := Option.isSome_iff_exists.mp hf
    exact register_no_bracket hn
  | word base index => exact absurd hleaf (by simp [words])

theorem Operand.count_text {e : Operand} (hf : e.Formed) : e.text.count 0x5b = e.words := by
  induction e with
  | word base index ihb ihi =>
    rw [Operand.text, List.count_append, List.count_cons_self, List.count_append, ihb hf.1, ihi hf.2,
      List.count_eq_zero.mpr (by simp), words]
    omega
  | constant t => exact List.count_eq_zero.mpr (leaf_no_bracket rfl hf).1
  | named name => exact List.count_eq_zero.mpr (leaf_no_bracket rfl hf).1
  | register name => exact List.count_eq_zero.mpr (leaf_no_bracket rfl hf).1

/-! ### Operands with brackets -/

/-- A `[` that `parse_number` finds no index for: no `]` follows it, or another `[` does
before. -/
def Unsplit (t : Text) : Prop :=
  ∃ base obrack, strchr 0x5b t = some (base, obrack) ∧
    ∀ index tail, strchr 0x5d obrack = some (index, tail) → 0x5b ∈ index

theorem parseNumber_unclosed (host : Host W) {t : Text} (hlen : t.length < maxOperand)
    (hopen : 0x5b ∈ t) (hclose : 0x5d ∉ t) (s : Shell W) : parseNumber host t s = (none, s) := by
  cases h : strchr 0x5b t with
  | none => exact absurd hopen (strchr_eq_none.mp h)
  | some r =>
    obtain ⟨base, obrack⟩ := r
    have hclose' : 0x5d ∉ obrack := by
      rw [(strchr_eq_some.mp h).1] at hclose
      exact fun hm => hclose (List.mem_append_right _ (List.mem_cons_of_mem _ hm))
    rw [parseNumber_open host (by rw [operandCopy_short hlen]; exact h), strchr_eq_none.mpr hclose']

theorem strchr_copy_short {t base obrack : Text} (h : strchr 0x5b (operandCopy t) = some (base, obrack)) :
    base.length < maxOperand ∧ obrack.length < maxOperand := by
  have hlen := strchr_length h
  have hcopy := operandCopy_length t
  omega

/-- An operand that is not split is rejected, by any target. -/
theorem unsplit_rejected {t : Text} (h : Unsplit (operandCopy t)) (host : Host W) (s : Shell W) :
    (parseNumber host t s).1 = none := by
  obtain ⟨base, obrack, hopen, hindex⟩ := h
  rw [parseNumber_open host hopen]
  cases hclose : strchr 0x5d obrack with
  | none => rfl
  | some r =>
    obtain ⟨index, tail⟩ := r
    have hlen := strchr_length hclose
    have hshort := (strchr_copy_short hopen).2
    simp only
    rcases parseNumber host base s with ⟨v | v, s'⟩
    · rfl
    · simp only
      rw [parseNumber_unclosed host (by omega) (hindex _ _ hclose) (strchr_eq_some.mp hclose).2]

/-- One that is split is evaluated, whatever follows its `]`. -/
theorem split_evaluated {t base obrack index tail : Text}
    (hopen : strchr 0x5b (operandCopy t) = some (base, obrack))
    (hclose : strchr 0x5d obrack = some (index, tail)) (hindex : 0x5b ∉ index) (host : Host W)
    (s : Shell W) :
    parseNumber host t s =
      match parsePlain host base s with
      | (none, s) => (none, s)
      | (some base, s) =>
        match parsePlain host index s with
        | (none, s) => (none, s)
        | (some index, s) => readMemoryWord host (base + index) s := by
  have hlen := strchr_length hclose
  obtain ⟨hbase, hobrack⟩ := strchr_copy_short hopen
  have hb : operandCopy base = base := operandCopy_short hbase
  have hi : operandCopy index = index := operandCopy_short (by omega)
  have hpb (s : Shell W) : parseNumber host base s = parsePlain host base s := by
    have h := parseNumber_plain host (t := base) (by rw [hb]; exact (strchr_eq_some.mp hopen).2) s
    rwa [hb] at h
  have hpi (s : Shell W) : parseNumber host index s = parsePlain host index s := by
    have h := parseNumber_plain host (t := index) (by rw [hi]; exact hindex) s
    rwa [hi] at h
  have heval := parseNumber_open host hopen s
  simp only [hclose, hpb, hpi] at heval
  exact heval

theorem split_total {t base obrack index tail : Text}
    (hopen : strchr 0x5b (operandCopy t) = some (base, obrack))
    (hclose : strchr 0x5d obrack = some (index, tail)) (hindex : 0x5b ∉ index)
    (target : Target W) (s : Shell W) : ∃ v, (parseNumber target.host t s).1 = some v := by
  rw [split_evaluated hopen hclose hindex]
  obtain ⟨b, w, p, hb, -⟩ := parsePlain_total target base s
  rw [hb]
  obtain ⟨i, w', p', hi, -⟩ := parsePlain_total target index { s with world := w, printed := p }
  simp only [hi]
  exact ⟨_, rfl⟩

/-- What is rejected by every target. -/
theorem rejected_iff (t : Text) :
    (∀ (W : Type) (host : Host W) (s : Shell W), (parseNumber host t s).1 = none) ↔
      Unsplit (operandCopy t) := by
  refine ⟨fun h => ?_, fun h W host s => unsplit_rejected h host s⟩
  let target : Target Unit := ⟨fun _ w => (0, w), fun w => (0, w), fun _ w => (0, w)⟩
  let s : Shell Unit := .fresh [] ()
  have hnone := h Unit target.host s
  cases hopen : strchr 0x5b (operandCopy t) with
  | none =>
    obtain ⟨v, w, p, hp, -⟩ := parsePlain_total target (operandCopy t) s
    rw [parseNumber_plain _ (strchr_eq_none.mp hopen), hp] at hnone
    exact absurd hnone (by simp)
  | some r =>
    obtain ⟨base, obrack⟩ := r
    refine ⟨base, obrack, hopen, fun index tail hclose => ?_⟩
    by_contra hindex
    obtain ⟨v, hv⟩ := split_total hopen hclose hindex target s
    exact absurd (hv.symm.trans hnone) (by simp)

/-! ### Against the grammar -/

/-- What an operand without brackets is read with: the registers, which may change as they are
read, and the variables. -/
structure Setting (R : Type) where
  register : ℕ → R → Word × R
  core : R
  allVariables : List VarInfo
  frameArgv : List Param

namespace Setting
variable {R M : Type}

/-- A target with these registers. -/
def target (g : Setting R) (word : Word → M × R → Word × M × R) (stale : M × R → Word × M × R) :
    Target (M × R) where
  word := word
  stale := stale
  register n w := ((g.register n w.2).1, w.1, (g.register n w.2).2)

def vars (g : Setting R) : Text → Word := variableValue g.allVariables g.frameArgv

/-- The shell has these variables, and the target these registers. -/
structure Holds (g : Setting R) (s : Shell (M × R)) : Prop where
  allVariables : s.allVariables = g.allVariables
  frameArgv : s.frameArgv = g.frameArgv
  core : s.world.2 = g.core

theorem Holds.vars {g : Setting R} {s : Shell (M × R)} (h : g.Holds s) : s.vars = g.vars := by
  rw [Shell.vars, h.allVariables, h.frameArgv, Setting.vars]

/-- The value of an operand without brackets, and the registers behind it. -/
def leaf (g : Setting R) (e : Operand) (r : R) : Word × R :=
  let value := e.value (g.target (fun _ (w : Unit × R) => (0, w)) fun w => (0, w)) g.vars ((), r)
  (value.1, value.2.2)

/-- Where an operand with one pair of brackets has its word. -/
def address (g : Setting R) (base index : Operand) : Word :=
  let (b, r) := g.leaf base g.core
  b + (g.leaf index r).1

/-- A shell with this setting. -/
def shell (g : Setting R) (m : M) : Shell (M × R) :=
  { Shell.fresh g.allVariables (m, g.core) with frameArgv := g.frameArgv }

theorem shell_holds (g : Setting R) (m : M) : g.Holds (g.shell m) := ⟨rfl, rfl, rfl⟩

end Setting

section
variable {R : Type} {g : Setting R}

/-- What is asked of `parse_number` for one text. -/
structure ParsesOperand (g : Setting R) (t : Text) : Prop where
  value : ∀ e : Operand, e.Formed → e.text = t → t.length < maxOperand →
    ∀ (M : Type) (word : Word → M × R → Word × M × R) (stale : M × R → Word × M × R)
      (s : Shell (M × R)), g.Holds s →
      (parseNumber (g.target word stale).host t s).1 =
        some (e.value (g.target word stale) s.vars s.world).1
  rejected : 0x5b ∈ t ∨ 0x5d ∈ t → ¬InGrammar t →
    ∀ (W : Type) (host : Host W) (s : Shell W), (parseNumber host t s).1 = none

theorem leaf_parses {e : Operand} (hleaf : e.words = 0) (hf : e.Formed)
    (hlen : e.text.length < maxOperand) (target : Target W) (s : Shell W) :
    (parseNumber target.host e.text s).1 = some (e.value target s.vars s.world).1 := by
  have hcopy := operandCopy_short hlen
  obtain ⟨p, hp⟩ := e.leaf_value target hleaf hf s
  rw [parseNumber_plain _ (by rw [hcopy]; exact (e.leaf_no_bracket hleaf hf).1), hcopy, hp]

/-- The memory has no part in an operand without brackets. -/
theorem leaf_value_setting {M : Type} {e : Operand} (hleaf : e.words = 0)
    (word : Word → M × R → Word × M × R) (stale : M × R → Word × M × R) (m : M) (r : R) :
    e.value (g.target word stale) g.vars (m, r) = ((g.leaf e r).1, m, (g.leaf e r).2) := by
  cases e with
  | constant t => rfl
  | named name => rfl
  | register name => rfl
  | word base index => exact absurd hleaf (by simp [Operand.words])

theorem address_eq {M : Type} {base index : Operand} (hb : base.words = 0) (hi : index.words = 0)
    (word : Word → M × R → Word × M × R) (stale : M × R → Word × M × R) (m : M) :
    ∃ r, (Operand.word base index).value (g.target word stale) g.vars (m, g.core) =
        word (g.address base index) (m, r) ∧
      (base.value (g.target word stale) g.vars (m, g.core)).1 +
        (index.value (g.target word stale) g.vars
          (base.value (g.target word stale) g.vars (m, g.core)).2).1 = g.address base index ∧
      (index.value (g.target word stale) g.vars
        (base.value (g.target word stale) g.vars (m, g.core)).2).2 = (m, r) := by
  refine ⟨(g.leaf index (g.leaf base g.core).2).2, ?_, ?_, ?_⟩
  · simp only [Operand.value, leaf_value_setting hb, leaf_value_setting hi]
    rfl
  · simp only [leaf_value_setting hb, leaf_value_setting hi]
    rfl
  · simp only [leaf_value_setting hb, leaf_value_setting hi]

/-- One pair of brackets: both operands are read before the word is. -/
theorem word_parses {base index : Operand} (hb : base.words = 0) (hi : index.words = 0)
    (hf : (Operand.word base index).Formed)
    (hlen : (Operand.word base index).text.length < maxOperand) (target : Target W) (s : Shell W) :
    (parseNumber target.host (Operand.word base index).text s).1 =
      some (target.ahbRead ((base.value target s.vars s.world).1 +
          (index.value target s.vars (base.value target s.vars s.world).2).1)
        (index.value target s.vars (base.value target s.vars s.world).2).2).1 := by
  have hopen : strchr 0x5b (operandCopy (Operand.word base index).text) =
      some (base.text, index.text ++ [0x5d]) := by
    rw [operandCopy_short hlen]
    exact strchr_append (base.leaf_no_bracket hb hf.1).1
  have hclose : strchr 0x5d (index.text ++ [0x5d]) = some (index.text, []) :=
    strchr_append (index.leaf_no_bracket hi hf.2).2
  rw [split_evaluated hopen hclose (index.leaf_no_bracket hi hf.2).1]
  obtain ⟨p, hp⟩ := base.leaf_value target hb hf.1 s
  rw [hp]
  obtain ⟨p', hp'⟩ := index.leaf_value target hi hf.2
    { s with world := (base.value target s.vars s.world).2, printed := p }
  simp only [hp']
  rfl

/-- The word of one pair of brackets is read wherever TAR is written for it. -/
theorem one_word_parses {base index : Operand} (hb : base.words = 0) (hi : index.words = 0)
    (hf : (Operand.word base index).Formed)
    (hlen : (Operand.word base index).text.length < maxOperand)
    (haddr : g.address base index ≠ 0xffffffff) {M : Type}
    (word : Word → M × R → Word × M × R) (stale : M × R → Word × M × R) {s : Shell (M × R)}
    (hs : g.Holds s) : (parseNumber (g.target word stale).host (Operand.word base index).text s).1 =
      some ((Operand.word base index).value (g.target word stale) s.vars s.world).1 := by
  have hworld : s.world = (s.world.1, g.core) := by rw [← hs.core]
  obtain ⟨r, hvalue, hsum, hworld'⟩ := address_eq hb hi word stale s.world.1
  rw [word_parses hb hi hf hlen, hs.vars, hworld, hvalue, hsum, hworld', Target.ahbRead,
    if_neg haddr]
  rfl

/-- At the last address another word is read. -/
theorem last_address_misread {base index : Operand} (hb : base.words = 0) (hi : index.words = 0)
    (hf : (Operand.word base index).Formed)
    (hlen : (Operand.word base index).text.length < maxOperand)
    (haddr : g.address base index = 0xffffffff) : ¬ParsesOperand g (Operand.word base index).text := by
  intro hp
  have hs := g.shell_holds ()
  have hvalue := hp.value _ hf rfl hlen Unit (fun _ w => (1, w)) (fun w => (0, w)) _ hs
  obtain ⟨r, hword, hsum, hworld⟩ := address_eq (g := g) hb hi (fun _ w => (1, w)) (fun w => (0, w)) ()
  have hstart : (g.shell ()).world = ((), g.core) := rfl
  rw [word_parses hb hi hf hlen, hs.vars, hstart, hword, hsum, hworld, Target.ahbRead,
    if_pos haddr] at hvalue
  exact absurd (Option.some.inj hvalue) (by decide : (0 : Word) ≠ 1)

/-- A target that answers its first read of memory with 0 and every later one with 1. -/
def firstRead (g : Setting R) : Target (Bool × R) :=
  g.target (fun _ w => (if w.1 then 1 else 0, true, w.2)) fun w => (if w.1 then 1 else 0, true, w.2)

theorem firstRead_ahbRead (addr : Word) (w : Bool × R) :
    (firstRead g).ahbRead addr w = (if w.1 then 1 else 0, true, w.2) := by
  rw [Target.ahbRead]
  split <;> rfl

theorem firstRead_world (vars : Text → Word) (e : Operand) (w : Bool × R) :
    (e.value (firstRead g) vars w).2.1 = (w.1 || decide (0 < e.words)) := by
  induction e generalizing w with
  | word base index _ _ => simp [Operand.value, Operand.words, firstRead, Setting.target]
  | constant t => simp [Operand.value, Operand.words]
  | named name => simp [Operand.value, Operand.words]
  | register name => simp [Operand.value, Operand.words, firstRead, Setting.target]

/-- The value of an operand with brackets in brackets is not the first word read. -/
theorem firstRead_value (vars : Text → Word) {e : Operand} (h : 2 ≤ e.words) (r : R) :
    (e.value (firstRead g) vars (false, r)).1 = 1 := by
  cases e with
  | word base index =>
    have hread : (index.value (firstRead g) vars (base.value (firstRead g) vars (false, r)).2).2.1 =
        true := by
      rw [firstRead_world, firstRead_world]
      simp only [Operand.words] at h
      simp only [Bool.false_or, Bool.or_eq_true, decide_eq_true_eq]
      omega
    exact if_pos hread
  | constant t => exact absurd h (by simp [Operand.words])
  | named name => exact absurd h (by simp [Operand.words])
  | register name => exact absurd h (by simp [Operand.words])

theorem parsePlain_firstRead (t : Text) (s : Shell (Bool × R)) : ∃ v w p,
    parsePlain (firstRead g).host t s = (some v, { s with world := w, printed := p }) ∧
      w.1 = s.world.1 := by
  obtain ⟨v, w, p, hp, hw⟩ := parsePlain_total (firstRead g) t s
  refine ⟨v, w, p, hp, ?_⟩
  rcases hw with rfl | ⟨n, rfl⟩
  · rfl
  · rfl

/-- What is evaluated reads one word, the first. -/
theorem split_firstRead {t base obrack index tail : Text}
    (hopen : strchr 0x5b (operandCopy t) = some (base, obrack))
    (hclose : strchr 0x5d obrack = some (index, tail)) (hindex : 0x5b ∉ index)
    {s : Shell (Bool × R)} (hs : s.world.1 = false) :
    (parseNumber (firstRead g).host t s).1 = some 0 := by
  rw [split_evaluated hopen hclose hindex]
  obtain ⟨b, w, p, hb, hw⟩ := parsePlain_firstRead (g := g) base s
  rw [hb]
  obtain ⟨i, w', p', hi, hw'⟩ := parsePlain_firstRead (g := g) index { s with world := w, printed := p }
  have hfirst : w'.1 = false := by rw [hw', hw, hs]
  simp only [hi]
  show some ((firstRead g).ahbRead (b + i) w').1 = some 0
  rw [firstRead_ahbRead, hfirst]
  rfl

/-- An operand of the grammar with brackets in or behind brackets is rejected, or taken
for the first word read. -/
theorem nested_misread {e : Operand} (hf : e.Formed) (hlen : e.text.length < maxOperand)
    (h : 2 ≤ e.words) : ¬ParsesOperand g e.text := by
  intro hp
  let s : Shell (Bool × R) := g.shell false
  have hvalue : (parseNumber (firstRead g).host e.text s).1 =
      some (e.value (firstRead g) s.vars s.world).1 :=
    hp.value e hf rfl hlen Bool _ _ s (g.shell_holds false)
  have hworld : s.world = (false, g.core) := rfl
  rw [hworld, firstRead_value s.vars h] at hvalue
  cases hopen : strchr 0x5b (operandCopy e.text) with
  | none =>
    rw [operandCopy_short hlen, strchr_eq_none, ← List.count_eq_zero, e.count_text hf] at hopen
    omega
  | some split =>
    obtain ⟨base, obrack⟩ := split
    by_cases hsplit : ∀ index tail, strchr 0x5d obrack = some (index, tail) → 0x5b ∈ index
    · rw [unsplit_rejected ⟨base, obrack, hopen, hsplit⟩] at hvalue
      exact absurd hvalue (by simp)
    · push Not at hsplit
      obtain ⟨index, tail, hclose, hindex⟩ := hsplit
      rw [split_firstRead hopen hclose hindex rfl] at hvalue
      exact absurd hvalue (by decide)

/-- The operands of one pair of brackets ask for no words. -/
theorem one_pair {base index : Operand} (h : (Operand.word base index).words ≤ 1) :
    base.words = 0 ∧ index.words = 0 := by
  simp only [Operand.words] at h
  omega

/-- `parse_number` is right about an operand of the grammar when it has at most one pair of
brackets, and its word is not at the last address, and about a text with brackets that is none when
it finds no index in it. -/
theorem parse_number_grammar_iff (g : Setting R) (t : Text) :
    ParsesOperand g t ↔
      (InGrammar t → maxOperand ≤ t.length ∨ (t.count 0x5b ≤ 1 ∧
        ∀ base index, (Operand.word base index).Formed → (Operand.word base index).text = t →
          g.address base index ≠ 0xffffffff)) ∧
        (¬InGrammar t → 0x5b ∈ t ∨ 0x5d ∈ t → Unsplit (operandCopy t)) := by
  constructor
  · intro hp
    refine ⟨?_, fun hout hbracket => (rejected_iff t).mp (hp.rejected hbracket hout)⟩
    rintro ⟨e, hf, rfl⟩
    rw [Decidable.or_iff_not_imp_left, e.count_text hf]
    intro hlong
    have hlen := Nat.not_le.mp hlong
    have hone : e.words ≤ 1 := by
      by_contra hmany
      exact nested_misread hf hlen (by omega) hp
    refine ⟨hone, fun base index hword htext haddr => ?_⟩
    have hwords : (Operand.word base index).words ≤ 1 := by
      rw [← Operand.count_text hword, htext, e.count_text hf]
      exact hone
    obtain ⟨hb, hi⟩ := one_pair hwords
    exact last_address_misread hb hi hword (htext ▸ hlen) haddr (htext ▸ hp)
  · rintro ⟨hin, hout⟩
    refine ⟨?_, fun hbracket hnot => (rejected_iff t).mpr (hout hnot hbracket)⟩
    rintro e hf rfl hlen M word stale s hs
    rcases hin ⟨e, hf, rfl⟩ with hlong | ⟨hone, haddr⟩
    · exact absurd hlen (Nat.not_lt.mpr hlong)
    rw [e.count_text hf] at hone
    cases e with
    | word base index =>
      obtain ⟨hb, hi⟩ := one_pair hone
      exact one_word_parses hb hi hf hlen (haddr base index hf rfl) word stale hs
    | constant t => exact leaf_parses rfl hf hlen _ s
    | named name => exact leaf_parses rfl hf hlen _ s
    | register name => exact leaf_parses rfl hf hlen _ s

end

/-- `r0[r1[4]]` is an operand, and not parsed. -/
theorem parse_number_rejects_nested : ¬∀ (g : Setting Unit) (t : Text), ParsesOperand g t := by
  intro h
  have hf : (Operand.word (.register (Gdb.ascii "r0"))
      (.word (.register (Gdb.ascii "r1")) (.constant (Gdb.ascii "4")))).Formed := by
    decide
  exact nested_misread hf (by decide) (by decide) (h ⟨fun _ r => (0, r), (), [], []⟩ _)

end M3Dev.Debugger
