import M3Dev.CString
import M3Dev.CTokens
import M3Dev.GdbPacketSize
import M3Dev.Pieces
import Mathlib.Data.List.Find

/-! `mkbuiltins`: files written out as a table in C, and what the debugger that is compiled with
the table finds in it. -/
namespace M3Dev.Builtins
open CTokens Numerals Pieces Gdb

abbrev Text := List Byte

/-! ### mkbuiltins -/

/-- `load_file`: what the file system has under a name. -/
abbrev Files := Text → Option (List Byte)

/-- `struct entry` -/
structure Entry where
  fn : Text
  data : List Byte

/-- Behind the last `/`. -/
def baseName (fn : Text) : Text := (fn.reverse.takeWhile fun c => c != 0x2f).reverse

/-- `import` -/
def importFile (files : Files) (fn : Text) : Option Entry :=
  (files fn).map fun data => { fn := baseName fn, data := data }

/-- `"0123456789ABCDEF"[n]` -/
def upperDigit (n : Byte) : Byte := (ascii "0123456789ABCDEF").getD n.toNat 0

/-- `%02X` -/
def hexUpper (b : Byte) : Text := [upperDigit (b >>> 4), upperDigit (b &&& 15)]

/-- `exportline` -/
def exportLine (bytes : List Byte) : Text :=
  ascii "\t\"" ++ bytes.flatMap (fun b => 0x5c :: 0x78 :: hexUpper b) ++ ascii "\"\n"

/-- The passes of the loop of `export`. -/
def exportLines : ℕ → List Byte → Text
  | 0, _ => []
  | passes + 1, data =>
    if data.length > 0 then
      let xfer := if data.length > 16 then 16 else data.length
      exportLine (data.take xfer) ++ exportLines passes (data.drop xfer)
    else []

/-- `%zu` -/
def decimal (n : ℕ) : Text := (numeral 10 n).map Lexer.digitChar

/-- `export` -/
def exportEntry (e : Entry) : Text :=
  ascii "\t\x7b \"" ++ e.fn ++ ascii "\", " ++ decimal e.data.length ++ ascii ",\n" ++
    exportLines e.data.length e.data ++ ascii "\t\x7d,\n"

def prologue : Text :=
  ascii "/* this file is machine-generated by mkbuiltins -- do not modify */\n\n" ++
  ascii "#include <string.h>\n" ++
  ascii "#include <stdint.h>\n\n" ++
  ascii "static struct \x7b\n" ++
  ascii "\tconst char *name;\n" ++
  ascii "\tsize_t size;\n" ++
  ascii "\tvoid *data;\n" ++
  ascii "\x7d files[] = \x7b\n"

def epilogue : Text :=
  ascii "\x7d;\n\n" ++
  ascii "void *get_builtin_file(const char *name, size_t *sz) \x7b\n" ++
  ascii "\tint n;\n" ++
  ascii "\tfor (n = 0; n < (sizeof(files)/sizeof(files[0])); n++) \x7b\n" ++
  ascii "\t\tif (!strcmp(name, files[n].name)) \x7b\n" ++
  ascii "\t\t\t*sz = files[n].size;\n" ++
  ascii "\t\t\treturn files[n].data;\n" ++
  ascii "\t\t\x7d\n" ++
  ascii "\t\x7d\n" ++
  ascii "\treturn NULL;\n" ++
  ascii "\x7d\n"

/-- `main`: nothing is written if one of the files cannot be read. -/
def mkbuiltins (files : Files) (fns : List Text) : Option Text :=
  (fns.mapM (importFile files)).map fun es => prologue ++ es.flatMap exportEntry ++ epilogue

/-! ### The compiled table -/

/-- An element of `files[]`; without a literal its `data` is `NULL`. -/
structure Builtin where
  name : Text
  size : ℕ
  data : Option (List Byte)
  deriving Repr, DecidableEq

/-- The elements between the braces of the array. -/
def elements : List Token → Option (List Builtin)
  | [] => some []
  | .opening :: .string name :: .comma :: .number size :: .comma :: .string data :: .closing :: .comma :: ts =>
    (elements ts).map (⟨name, size, some data⟩ :: ·)
  | .opening :: .string name :: .comma :: .number size :: .comma :: .closing :: .comma :: ts =>
    (elements ts).map (⟨name, size, none⟩ :: ·)
  | _ => none

/-- The text is a C file with this table. -/
def Declares (source : Text) (table : List Builtin) : Prop :=
  ∃ body, source = prologue ++ body ++ epilogue ∧ (tokens body).bind elements = some table

/-- `get_builtin_file`: the size and the pointer. -/
def getBuiltinFile (table : List Builtin) (name : Text) : Option (ℕ × List Byte) :=
  match table.find? fun b => text b.name == text name with
  | none => none
  | some b => b.data.map fun data => (b.size, data)

/-- `load_agent`. The literal has a NUL behind its bytes. -/
def loadAgent (table : List Builtin) (files : Files) : Option Text → Option (List Byte)
  | none => none
  | some arch =>
    match getBuiltinFile table ((ascii "agent-" ++ arch ++ ascii ".bin").take 255) with
    | some (sz, data) => some ((data ++ [0]).take sz)
    | none => files ((ascii "out/agent-" ++ arch ++ ascii ".bin").take 255)

/-! ### The table is read back -/

theorem exportLines_eq {passes : ℕ} {data : List Byte} (hpasses : data.length ≤ passes) :
    exportLines passes data = (pieces 16 data).flatMap exportLine := by
  induction passes generalizing data with
  | zero =>
    obtain rfl : data = [] := List.eq_nil_of_length_eq_zero (by omega)
    rfl
  | succ passes ih =>
    rw [exportLines]
    by_cases hsome : data.length > 0
    · have hne : data ≠ [] := List.length_pos_iff.mp hsome
      have hrest : exportLines passes (data.drop 16) = _ := ih (by rw [List.length_drop]; omega)
      rw [if_pos hsome, pieces_cons (by decide) hne, List.flatMap_cons, ← hrest]
      by_cases hlong : data.length > 16
      · simp only [if_pos hlong]
      · have htake : data.take 16 = data := List.take_of_length_le (by omega)
        have hdrop : data.drop 16 = [] := List.drop_of_length_le (by omega)
        simp only [if_neg hlong, htake, hdrop, List.take_length, List.drop_length]
    · obtain rfl : data = [] := List.eq_nil_of_length_eq_zero (by omega)
      rw [if_neg hsome]
      rfl

theorem hexDigitValue_upper {n : Byte} (hn : n.toNat < 16) : hexDigitValue (upperDigit n) = some n.toNat := by
  have hall : ∀ d < 16, hexDigitValue ((ascii "0123456789ABCDEF").getD d 0) = some d := by decide
  exact hall n.toNat hn

theorem nibbles_toNat (b : Byte) :
    (b >>> 4).toNat < 16 ∧ (b &&& 15).toNat < 16 ∧ b.toNat = 16 * (b >>> 4).toNat + (b &&& 15).toNat := by
  have hlt : b.toNat < 256 := b.isLt
  have hhigh : (b >>> 4).toNat = b.toNat / 16 := by
    rw [BitVec.toNat_ushiftRight, Nat.shiftRight_eq_div_pow]
  have hlow : (b &&& 15).toNat = b.toNat % 16 := by
    rw [BitVec.toNat_and]
    exact Nat.and_two_pow_sub_one_eq_mod b.toNat 4
  omega

/-- The bytes of a line, escape by escape. -/
theorem run_hexBytes (bytes : List Byte) {l : Lexer} {before : List Byte} (h : l.Holds before) :
    ∃ l', l.run (bytes.flatMap fun b => 0x5c :: 0x78 :: hexUpper b) = some (l', []) ∧
      l'.Holds (before ++ bytes) := by
  induction bytes generalizing l before with
  | nil =>
    refine ⟨l, rfl, ?_⟩
    rw [List.append_nil]
    exact h
  | cons b bytes ih =>
    obtain ⟨hhigh, hlow, hb⟩ := nibbles_toNat b
    obtain ⟨l1, hbyte, h1⟩ := h.hexByte (hexDigitValue_upper hhigh) (hexDigitValue_upper hlow) hb
    obtain ⟨l', hrest, h'⟩ := ih h1
    refine ⟨l', Lexer.run_append hbyte hrest, ?_⟩
    rwa [List.append_assoc] at h'

theorem run_exportLine (bytes : List Byte) :
    Lexer.between.run (exportLine bytes) = some (.between, [.string bytes]) := by
  have hopen : Lexer.between.run (ascii "\t\"") = some (.literal [], []) := rfl
  obtain ⟨l, hbytes, hl⟩ := run_hexBytes bytes (.inl rfl : (Lexer.literal []).Holds [])
  have hquote : l.step 0x22 = some (.between, [.string bytes]) := hl.step (by decide)
  have hclose : l.run (ascii "\"\n") = some (.between, [.string bytes]) := Lexer.run_cons hquote rfl
  exact Lexer.run_append (Lexer.run_append hopen hbytes) hclose

theorem run_lines (ps : List (List Byte)) :
    Lexer.between.run (ps.flatMap exportLine) = some (.between, ps.map .string) := by
  induction ps with
  | nil => rfl
  | cons p ps ih => exact Lexer.run_append (run_exportLine p) ih

/-- The tokens of an element. -/
def entryTokens (e : Entry) : List Token :=
  .opening :: .string e.fn :: .comma :: .number e.data.length :: .comma ::
    ((pieces 16 e.data).map .string ++ [.closing, .comma])

theorem run_exportEntry {e : Entry} (hfn : ∀ c ∈ e.fn, Lexer.PlainChar c) :
    Lexer.between.run (exportEntry e) = some (.between, entryTokens e) := by
  have hopen : Lexer.between.run (ascii "\t\x7b \"") = some (.literal [], [.opening]) := rfl
  have hname : (Lexer.literal []).run e.fn = some (.literal e.fn, []) := Lexer.run_literal hfn []
  have hquote : (Lexer.literal e.fn).run (ascii "\", ") = some (.between, [.string e.fn, .comma]) := rfl
  have hsize := Lexer.run_number e.data.length
  have hline : Lexer.between.run [0x0a] = some (.between, []) := rfl
  have hdata := run_lines (pieces 16 e.data)
  have hclose : Lexer.between.run (ascii "\t\x7d,\n") = some (.between, [.closing, .comma]) := rfl
  have hcomma : decimal e.data.length ++ ascii ",\n" =
      ((numeral 10 e.data.length).map Lexer.digitChar ++ [0x2c]) ++ [0x0a] := by
    rw [List.append_assoc]
    rfl
  have hall := Lexer.run_append (Lexer.run_append (Lexer.run_append (Lexer.run_append hopen hname) hquote)
    (Lexer.run_append hsize hline)) (Lexer.run_append hdata hclose)
  have htext : exportEntry e = ((ascii "\t\x7b \"" ++ e.fn ++ ascii "\", ") ++
      (((numeral 10 e.data.length).map Lexer.digitChar ++ [0x2c]) ++ [0x0a])) ++
        ((pieces 16 e.data).flatMap exportLine ++ ascii "\t\x7d,\n") := by
    rw [exportEntry, exportLines_eq (le_refl _), ← hcomma]
    simp only [List.append_assoc]
  rw [htext, hall]
  rfl

/-- The element that is declared. -/
def Entry.builtin (e : Entry) : Builtin :=
  ⟨e.fn, e.data.length, if e.data = [] then none else some e.data⟩

theorem joined_entry (e : Entry) (ts : List Token) :
    (entryTokens e ++ ts).foldr join [] =
      .opening :: .string e.fn :: .comma :: .number e.data.length :: .comma ::
        ((if e.data = [] then [] else [.string e.data]) ++ .closing :: .comma :: ts.foldr join []) := by
  have hdata : ((pieces 16 e.data).map Token.string ++ [Token.closing, Token.comma] ++ ts).foldr join [] =
      (if e.data = [] then [] else [.string e.data]) ++ .closing :: .comma :: ts.foldr join [] := by
    rw [List.append_assoc, foldr_join_append]
    show ((pieces 16 e.data).map Token.string).foldr join (.closing :: .comma :: ts.foldr join []) = _
    by_cases hnone : e.data = []
    · rw [hnone, pieces_nil (by decide), if_pos rfl]
      rfl
    · have hsome : pieces 16 e.data ≠ [] := by
        rw [pieces_cons (by decide) hnone]
        exact List.cons_ne_nil _ _
      rw [foldr_join_strings hsome (fun b => Token.noConfusion), flatten_pieces (by decide), if_neg hnone]
      rfl
  calc (entryTokens e ++ ts).foldr join []
      = .opening :: join (.string e.fn) (.comma :: .number e.data.length :: .comma ::
          ((pieces 16 e.data).map Token.string ++ [Token.closing, Token.comma] ++ ts).foldr join []) := rfl
    _ = .opening :: .string e.fn :: .comma :: .number e.data.length :: .comma ::
          ((pieces 16 e.data).map Token.string ++ [Token.closing, Token.comma] ++ ts).foldr join [] := rfl
    _ = _ := by rw [hdata]

theorem elements_entries (es : List Entry) :
    elements ((es.flatMap entryTokens).foldr join []) = some (es.map Entry.builtin) := by
  induction es with
  | nil => rfl
  | cons e es ih =>
    rw [List.flatMap_cons, joined_entry]
    by_cases hnone : e.data = []
    · rw [if_pos hnone, List.nil_append, elements, ih, List.map_cons, Entry.builtin, if_pos hnone]
      rfl
    · rw [if_neg hnone, List.singleton_append, elements, ih, List.map_cons, Entry.builtin, if_neg hnone]
      rfl

theorem tokens_entries {es : List Entry} (hes : ∀ e ∈ es, ∀ c ∈ e.fn, Lexer.PlainChar c) :
    tokens (es.flatMap exportEntry) = some ((es.flatMap entryTokens).foldr join []) := by
  have hrun : Lexer.between.run (es.flatMap exportEntry) = some (.between, es.flatMap entryTokens) := by
    induction es with
    | nil => rfl
    | cons e es ih =>
      have hfirst := run_exportEntry (hes e (List.mem_cons_self ..))
      exact Lexer.run_append hfirst (ih fun e' he' => hes e' (List.mem_cons_of_mem e he'))
  rw [tokens, hrun, Option.bind_some, if_pos rfl]

theorem declares_iff {es : List Entry} (hes : ∀ e ∈ es, ∀ c ∈ e.fn, Lexer.PlainChar c)
    (table : List Builtin) :
    Declares (prologue ++ es.flatMap exportEntry ++ epilogue) table ↔ table = es.map Entry.builtin := by
  have hread : (tokens (es.flatMap exportEntry)).bind elements = some (es.map Entry.builtin) := by
    rw [tokens_entries hes, Option.bind_some, elements_entries]
  constructor
  · rintro ⟨body, hbody, htable⟩
    have hsame : es.flatMap exportEntry = body := List.append_cancel_left (List.append_cancel_right hbody)
    rw [← hsame, hread] at htable
    exact (Option.some.inj htable).symm
  · rintro rfl
    exact ⟨_, rfl, hread⟩

/-! ### What is found -/

/-- The first of the files with that name, without its directory; an empty one is not found. -/
def builtIn (files : Files) (fns : List Text) (name : Text) : Option (List Byte) :=
  (fns.find? fun fn => baseName fn == name).bind fun fn =>
    (files fn).bind fun data => if data = [] then none else some data

theorem importFile_fn {files : Files} {fn : Text} {e : Entry} (h : importFile files fn = some e) :
    e.fn = baseName fn ∧ files fn = some e.data := by
  obtain ⟨data, hdata, rfl⟩ := Option.map_eq_some_iff.mp h
  exact ⟨rfl, hdata⟩

theorem imported_cons {files : Files} {fn : Text} {fns : List Text} {es : List Entry}
    (h : (fn :: fns).mapM (importFile files) = some es) :
    ∃ e es', es = e :: es' ∧ importFile files fn = some e ∧ fns.mapM (importFile files) = some es' := by
  rw [List.mapM_cons] at h
  obtain ⟨e, he, hrest⟩ := Option.bind_eq_some_iff.mp h
  obtain ⟨es', hes', heq⟩ := Option.bind_eq_some_iff.mp hrest
  exact ⟨e, es', (Option.some.inj heq).symm, he, hes'⟩

theorem imported_names {files : Files} {fns : List Text} {es : List Entry}
    (h : fns.mapM (importFile files) = some es) : ∀ e ∈ es, ∃ fn ∈ fns, e.fn = baseName fn := by
  induction fns generalizing es with
  | nil =>
    obtain rfl : [] = es := Option.some.inj h
    exact fun e he => absurd he List.not_mem_nil
  | cons fn fns ih =>
    obtain ⟨e, es', rfl, he, hes'⟩ := imported_cons h
    intro e' he'
    rcases List.mem_cons.mp he' with rfl | he'
    · exact ⟨fn, List.mem_cons_self .., (importFile_fn he).1⟩
    · obtain ⟨fn', hfn', hname⟩ := ih hes' e' he'
      exact ⟨fn', List.mem_cons_of_mem fn hfn', hname⟩

/-- The table is looked through in the order of the files. -/
theorem imported_find {files : Files} {fns : List Text} {es : List Entry}
    (h : fns.mapM (importFile files) = some es) (name : Text) :
    ((es.find? fun e => e.fn == name).bind fun e => if e.data = [] then none else some e.data) =
      builtIn files fns name := by
  induction fns generalizing es with
  | nil =>
    obtain rfl : [] = es := Option.some.inj h
    rfl
  | cons fn fns ih =>
    obtain ⟨e, es', rfl, he, hes'⟩ := imported_cons h
    obtain ⟨hname, hdata⟩ := importFile_fn he
    rw [builtIn, List.find?_cons, List.find?_cons, hname]
    cases baseName fn == name with
    | true =>
      show (if e.data = [] then none else some e.data) = _
      rw [Option.bind_some, hdata, Option.bind_some]
    | false => exact ih hes'

theorem getBuiltinFile_entries {es : List Entry} (hes : ∀ e ∈ es, 0 ∉ e.fn) {name : Text} (hname : 0 ∉ name) :
    getBuiltinFile (es.map Entry.builtin) name =
      ((es.find? fun e => e.fn == name).bind fun e => if e.data = [] then none else some e.data).map
        fun data => (data.length, data) := by
  have hfind : ((es.map Entry.builtin).find? fun b => text b.name == text name) =
      (es.find? fun e => e.fn == name).map Entry.builtin := by
    rw [List.find?_map]
    congr 1
    apply List.find?_congr
    intro e he
    show (text e.fn == text name) = (e.fn == name)
    rw [text_eq_self (hes e he), text_eq_self hname]
  rw [getBuiltinFile, hfind]
  cases es.find? fun e => e.fn == name with
  | none => rfl
  | some e =>
    show (if e.data = [] then none else some e.data).map (fun data => (e.data.length, data)) = _
    rw [Option.bind_some]
    by_cases hnone : e.data = []
    · rw [if_pos hnone]
      rfl
    · rw [if_neg hnone]
      rfl

/-- `"agent-%s.bin"` -/
def agentName (arch : Text) : Text := (ascii "agent-" ++ arch ++ ascii ".bin").take 255

/-- The text that `mkbuiltins` writes declares one table, in which `get_builtin_file` finds the
first file of a name with all its bytes and their number, and the debugger loads an agent from there
if it is there and not empty, and else from its file. -/
theorem agents_built_in {files : Files} {fns : List Text} {source : Text}
    (hmk : mkbuiltins files fns = some source)
    (hnames : ∀ fn ∈ fns, 0 ∉ baseName fn ∧ ∀ c ∈ baseName fn, Lexer.PlainChar c) :
    ∃ table, (∀ table', Declares source table' ↔ table' = table) ∧
      (∀ name, 0 ∉ name → getBuiltinFile table name =
        (builtIn files fns name).map fun data => (data.length, data)) ∧
      ∀ (disk : Files) (arch : Text), 0 ∉ arch → loadAgent table disk (some arch) =
        (builtIn files fns (agentName arch)).or
          (disk ((ascii "out/agent-" ++ arch ++ ascii ".bin").take 255)) := by
  obtain ⟨es, hes, rfl⟩ := Option.map_eq_some_iff.mp hmk
  have hfree : ∀ e ∈ es, 0 ∉ e.fn ∧ ∀ c ∈ e.fn, Lexer.PlainChar c := by
    intro e he
    obtain ⟨fn, hfn, hname⟩ := imported_names hes e he
    rw [hname]
    exact hnames fn hfn
  have hget : ∀ name, 0 ∉ name → getBuiltinFile (es.map Entry.builtin) name =
      (builtIn files fns name).map fun data => (data.length, data) := by
    intro name hname
    rw [getBuiltinFile_entries (fun e he => (hfree e he).1) hname, imported_find hes]
  refine ⟨es.map Entry.builtin, declares_iff fun e he => (hfree e he).2, hget, ?_⟩
  intro disk arch harch
  have hname : 0 ∉ agentName arch := by
    intro hmem
    have hwhole := List.mem_of_mem_take hmem
    rw [List.mem_append, List.mem_append] at hwhole
    rcases hwhole with (hfront | hmid) | hback
    · exact absurd hfront (by decide)
    · exact harch hmid
    · exact absurd hback (by decide)
  have hfound := hget (agentName arch) hname
  rw [agentName] at hfound
  rw [loadAgent, hfound, agentName]
  cases builtIn files fns ((ascii "agent-" ++ arch ++ ascii ".bin").take 255) with
  | none => rfl
  | some data =>
    -- what is copied stops short of the NUL behind the literal
    have hcopy : (data ++ [0]).take data.length = data := List.take_left' rfl
    exact congrArg some hcopy

/-- Two agents, the second of them empty. -/
def twoAgents : Files := fun fn =>
  if fn = ascii "out/agent-a.bin" then some [0xef, 0x30, 0x0a]
  else if fn = ascii "out/agent-b.bin" then some [] else none

theorem agents_built_in_two : ∃ source table,
    mkbuiltins twoAgents [ascii "out/agent-a.bin", ascii "out/agent-b.bin"] = some source ∧
      Declares source table ∧
      loadAgent table (fun _ => none) (some (ascii "a")) = some [0xef, 0x30, 0x0a] ∧
      loadAgent table (fun _ => none) (some (ascii "b")) = none := by
  have hnames : ∀ fn ∈ [ascii "out/agent-a.bin", ascii "out/agent-b.bin"],
      0 ∉ baseName fn ∧ ∀ c ∈ baseName fn, Lexer.PlainChar c := by
    intro fn hfn
    rcases List.mem_pair.mp hfn with rfl | rfl
    · exact ⟨by decide, by unfold Lexer.PlainChar; decide⟩
    · exact ⟨by decide, by unfold Lexer.PlainChar; decide⟩
  have hmk : mkbuiltins twoAgents [ascii "out/agent-a.bin", ascii "out/agent-b.bin"] = some _ := rfl
  obtain ⟨table, hdeclares, _, hload⟩ := agents_built_in hmk hnames
  refine ⟨_, table, hmk, (hdeclares table).mpr rfl, ?_, ?_⟩
  · rw [hload _ _ (by decide)]
    decide
  · rw [hload _ _ (by decide)]
    decide

end M3Dev.Builtins
