import M3Dev.DebuggerState
import M3Dev.MaximalRuns
import Mathlib.Data.List.TakeWhile

/-! `debugger_command`: a line taken apart in place, and its words handed on. -/
namespace M3Dev.Debugger
open MaximalRuns
variable {W : Type}

/-- What keeps a call from returning: it does what C leaves undefined, such as a store
outside an array, or it still runs. -/
inductive Halt where
  | undefined
  | running
  deriving DecidableEq, Repr

/-- The character at a place of a buffer; behind its text there is the NUL. -/
def charAt (buf : Text) (i : ℕ) : Byte := buf.getD i 0

/-- The string at a place of a buffer. -/
def cstr (buf : Text) (i : ℕ) : Text := (buf.drop i).takeWhile (· ≠ 0)

/-- The number of entries of `arg`. -/
def maxArgs : ℕ := 32

/-- The loop over the characters of a word: where `line` is behind it, the buffer and `n`.
There are `left` characters before the end. -/
def scanWord : ℕ → Text → ℕ → ℕ → ℕ × Text × ℕ
  | 0, buf, line, n => (line, buf, n + 1)
  | left + 1, buf, line, n =>
    let c := charAt buf line
    if c = 0 then (line, buf, n + 1)
    else if c = 0x23 then (line, buf.set line 0, n)
    else if c ≤ 0x20 then (line + 1, buf.set line 0, n + 1)
    else scanWord left buf (line + 1) n

/-- The loop over the words: the buffer, the places in `arg` and `n`. -/
def scanLine : ℕ → Text → ℕ → (ℕ → ℕ) → ℕ → Except Halt (Text × (ℕ → ℕ) × ℕ)
  | 0, buf, _, arg, n => .ok (buf, arg, n)
  | left + 1, buf, line, arg, n =>
    let c := charAt buf line
    if c = 0 then .ok (buf, arg, n)
    else if c ≤ 0x20 then scanLine left buf (line + 1) arg n
    else if n < maxArgs then
      let (line', buf, n') := scanWord (left + 1) buf line n
      scanLine left buf line' (Function.update arg n line) n'
    else .error .undefined

/-- `ERROR_UNKNOWN` -/
def errorUnknown : ℤ := -2

/-- What `debugger_command` calls. -/
structure Callees (W : Type) where
  /-- `none` is a result other than 0 -/
  parseNumber : Text → Shell W → Option Word × Shell W
  debuggerExec : Text → List Param → Shell W → Except Halt (ℤ × Shell W)

/-- The loop over `arg` that fills in the numbers. -/
def parseArgs (parse : Text → Shell W → Option Word × Shell W) :
    List Text → Shell W → Option (List Param) × Shell W
  | [], s => (some [], s)
  | t :: ts, s =>
    match parse t s with
    | (none, s) => (none, s.xprintf "error: bad number: %s\n" [t])
    | (some n, s) =>
      match parseArgs parse ts s with
      | (none, s) => (none, s)
      | (some args, s) => (some (⟨t, n⟩ :: args), s)

/-- `debugger_command` from `if (n == 0)` on, with the texts of `arg`. -/
def passOn (call : Callees W) (words : List Text) (s : Shell W) : Except Halt (ℤ × Shell W) :=
  match parseArgs call.parseNumber words s with
  | (none, s) => .ok (-1, s)
  | (some [], s) => .ok (0, s)
  | (some (cmd :: args), s) => do
    let (r, s) ← call.debuggerExec cmd.s args s
    return (r, if r = errorUnknown then s.xprintf "unknown command: %s\n" [cmd.s] else s)

/-- `while (*line && (*line == ' ')) line++` -/
def skipBlanks (buf : Text) (line : ℕ) : ℕ :=
  line + ((buf.drop line).takeWhile (· = 0x20)).length

/-- `debugger_command` for the line at a place of the text buffer `o`. A line to the remote
console leaves the number of its argument as it was on the stack; nothing reads it. -/
def debuggerCommand (call : Callees W) (o line : ℕ) (s : Shell W) : Except Halt (ℤ × Shell W) := do
  let buf := s.objects.getD o []
  let line := skipBlanks buf line
  if charAt buf line = 0x2f then
    call.debuggerExec (Gdb.ascii "wconsole") [⟨cstr buf (line + 1), 0⟩] s
  else do
    let (buf', arg, n) ← scanLine (buf.length - line) buf line (fun _ => 0) 0
    passOn call ((List.range n).map fun i => cstr buf' (arg i)) (s.setObject o buf')

/-! ### Words -/

/-- What ends a word. -/
def isBlank (c : Byte) : Bool := c ≤ 0x20

theorem isBlank_iff {c : Byte} : isBlank c ↔ c ≤ 0x20 := decide_eq_true_iff

/-- The words of a text: its longest runs of characters above the blank. -/
def words (t : Text) : List Text := runs isBlank t

/-- What stands before the comment. -/
def beforeHash (t : Text) : Text := t.takeWhile (· ≠ 0x23)

/-- No word touches the comment. -/
def Untouched (t : Text) : Prop := 0x23 ∈ t → ∀ c ∈ (beforeHash t).getLast?, c ≤ 0x20

instance (t : Text) : Decidable (Untouched t) :=
  inferInstanceAs (Decidable (_ → ∀ c ∈ (beforeHash t).getLast?, c ≤ 0x20))

/-- The entries of `arg` a line needs: one a word, and one for the comment. -/
def entries (t : Text) : ℕ := (words (beforeHash t)).length + if 0x23 ∈ t then 1 else 0

/-- The characters of words. -/
def inWord (c : Byte) : Prop := ¬c ≤ 0x20 ∧ c ≠ 0x23

/-- How the loops take a text: the words they count, and the entries they store. -/
inductive Scans : Text → List Text → ℕ → Prop where
  | done : Scans [] [] 0
  | skip {c : Byte} {t : Text} {ts : List Text} {k : ℕ} (hc : c ≤ 0x20) (rest : Scans t ts k) :
      Scans (c :: t) ts k
  | last {w : Text} (hne : w ≠ []) (hw : ∀ c ∈ w, inWord c) : Scans w [w] 1
  | comment {w : Text} (hw : ∀ c ∈ w, inWord c) (t : Text) : Scans (w ++ 0x23 :: t) [] 1
  | word {w t : Text} {c : Byte} {ts : List Text} {k : ℕ} (hne : w ≠ []) (hw : ∀ c ∈ w, inWord c)
      (hc : c ≤ 0x20) (rest : Scans t ts k) : Scans (w ++ c :: t) (w :: ts) (k + 1)

/-- A text starts with characters of a word, and what follows them ends it. -/
theorem exists_word (t : Text) : ∃ w rest, t = w ++ rest ∧ (∀ c ∈ w, inWord c) ∧
    (rest = [] ∨ ∃ c u, rest = c :: u ∧ (c ≤ 0x20 ∨ c = 0x23)) := by
  induction t with
  | nil => exact ⟨[], [], rfl, by simp, .inl rfl⟩
  | cons c cs ih =>
    by_cases hc : inWord c
    · obtain ⟨w, rest, rfl, hw, hrest⟩ := ih
      exact ⟨c :: w, rest, rfl, List.forall_mem_cons.mpr ⟨hc, hw⟩, hrest⟩
    · refine ⟨[], c :: cs, rfl, by simp, .inr ⟨c, cs, rfl, ?_⟩⟩
      rw [inWord, not_and_or, not_not, not_not] at hc
      exact hc

/-- Every text is taken, in one way. -/
theorem exists_scans (t : Text) : ∃ ts k, Scans t ts k := by
  induction hlen : t.length using Nat.strongRecOn generalizing t with
  | ind len ih =>
    obtain ⟨w, rest, rfl, hw, rfl | ⟨c, u, rfl, hc⟩⟩ := exists_word t
    · by_cases hne : w = []
      · subst hne
        exact ⟨[], 0, .done⟩
      · exact ⟨_, _, by simpa using .last hne hw⟩
    · rcases hc with hc | rfl
      · obtain ⟨ts, k, hrest⟩ := ih u.length (by simp at hlen; omega) u rfl
        by_cases hne : w = []
        · subst hne
          exact ⟨ts, k, .skip hc hrest⟩
        · exact ⟨_, _, .word hne hw hc hrest⟩
      · exact ⟨_, _, .comment hw u⟩

theorem hash_not_inWord {w : Text} (hw : ∀ c ∈ w, inWord c) : 0x23 ∉ w := fun h => (hw _ h).2 rfl

theorem inWord_not_sep {w : Text} (hw : ∀ c ∈ w, inWord c) :
    ∀ c ∈ w, isBlank c = false := fun c hc => decide_eq_false (hw c hc).1

theorem blank_ne_hash {c : Byte} (hc : c ≤ 0x20) : 0x23 ≠ c := by
  rintro rfl
  exact absurd hc (by decide)

theorem hash_mem_append {t u : Text} {c : Byte} (ht : 0x23 ∉ t) (hc : c ≤ 0x20) :
    0x23 ∈ t ++ c :: u ↔ 0x23 ∈ u := by
  rw [List.mem_append, or_iff_right ht, List.mem_cons, or_iff_right (blank_ne_hash hc)]

theorem beforeHash_append {t : Text} (h : 0x23 ∉ t) (u : Text) :
    beforeHash (t ++ u) = t ++ beforeHash u := by
  rw [beforeHash, List.takeWhile_append_of_pos]
  · rfl
  · intro c hc
    exact decide_eq_true fun he => h (he ▸ hc)

theorem beforeHash_none {t : Text} (h : 0x23 ∉ t) : beforeHash t = t := by
  have ht := beforeHash_append h []
  rwa [List.append_nil, show beforeHash [] = [] from rfl, List.append_nil] at ht

theorem beforeHash_blank {t : Text} (h : 0x23 ∉ t) {c : Byte} (hc : c ≤ 0x20) (u : Text) :
    beforeHash (t ++ c :: u) = t ++ c :: beforeHash u := by
  have hcons : beforeHash (c :: u) = c :: beforeHash u :=
    List.takeWhile_cons_of_pos (decide_eq_true (blank_ne_hash hc).symm)
  rw [beforeHash_append h, hcons]

theorem beforeHash_hash {t : Text} (h : 0x23 ∉ t) (u : Text) : beforeHash (t ++ 0x23 :: u) = t := by
  have hcons : beforeHash (0x23 :: u) = [] := List.takeWhile_cons_of_neg (by decide)
  rw [beforeHash_append h, hcons, List.append_nil]

/-- A text is touched or not, whatever stands in front of it and a blank. -/
theorem untouched_append {t u : Text} {c : Byte} (ht : 0x23 ∉ t) (hc : c ≤ 0x20) :
    Untouched (t ++ c :: u) ↔ Untouched u := by
  rw [Untouched, Untouched, hash_mem_append ht hc, beforeHash_blank ht hc]
  refine imp_congr_right fun _ => ?_
  cases beforeHash u with
  | nil =>
    have hlast : (t ++ [c]).getLast? = some c := List.getLast?_concat
    rw [hlast]
    simpa using hc
  | cons b bs => rw [List.getLast?_append_cons, List.getLast?_cons_cons]

/-- What is counted and stored, of a line whose comment is not touched; of another, a word
is missing. -/
theorem Scans.spec {t : Text} {ts : List Text} {k : ℕ} (h : Scans t ts k) :
    (Untouched t → ts = words (beforeHash t) ∧ k = entries t) ∧
      (¬Untouched t → ts.length < (words (beforeHash t)).length) := by
  -- on the parts of the line: blanks, words, and a comment with or without a word at it
  induction h with
  | done => exact ⟨fun _ => ⟨rfl, rfl⟩, fun h => absurd (fun hm => absurd hm List.not_mem_nil) h⟩
  | @skip c t ts k hc rest ih =>
    have hbefore : beforeHash (c :: t) = c :: beforeHash t :=
      beforeHash_blank List.not_mem_nil hc t
    have hw : words (beforeHash (c :: t)) = words (beforeHash t) := by
      rw [hbefore]
      exact runs_cons_sep (isBlank_iff.mpr hc) _
    have hmem : 0x23 ∈ c :: t ↔ 0x23 ∈ t := hash_mem_append (t := []) List.not_mem_nil hc
    have htouch : Untouched (c :: t) ↔ Untouched t := untouched_append (t := []) List.not_mem_nil hc
    rw [entries, hw, htouch]
    simp only [hmem]
    exact ih
  | @last w hne hw =>
    have hhash := hash_not_inWord hw
    have hwords : words (beforeHash w) = [w] := by
      rw [beforeHash_none hhash]
      exact runs_run hne (inWord_not_sep hw)
    refine ⟨fun _ => ⟨hwords.symm, ?_⟩, fun h => absurd (fun hm => absurd hm hhash) h⟩
    rw [entries, hwords, if_neg hhash]
    rfl
  | @comment w hw t =>
    have hbefore := beforeHash_hash (hash_not_inWord hw) t
    have hmem : 0x23 ∈ w ++ 0x23 :: t := List.mem_append_right w List.mem_cons_self
    by_cases hne : w = []
    · -- the comment stands alone
      subst hne
      have hwords : words (beforeHash ([] ++ 0x23 :: t)) = [] := by
        rw [hbefore]
        rfl
      refine ⟨fun _ => ⟨hwords.symm, ?_⟩, fun h => absurd (fun _ => ?_) h⟩
      · rw [entries, hwords, if_pos hmem]
        rfl
      · rw [hbefore]
        simp
    · -- a word touches it, and is not counted
      have hlast : w.getLast hne ∈ (beforeHash (w ++ 0x23 :: t)).getLast? := by
        rw [hbefore]
        exact List.getLast?_eq_some_getLast hne
      refine ⟨fun h => absurd (h hmem _ hlast) (hw _ (List.getLast_mem hne)).1, fun _ => ?_⟩
      have hwords : words w = [w] := runs_run hne (inWord_not_sep hw)
      rw [hbefore, hwords]
      exact Nat.one_pos
  | @word w t c ts k hne hw hc rest ih =>
    have hhash := hash_not_inWord hw
    have hwords : words (beforeHash (w ++ c :: t)) = w :: words (beforeHash t) := by
      rw [beforeHash_blank hhash hc]
      exact runs_run_sep hne (inWord_not_sep hw) (isBlank_iff.mpr hc) _
    have he : entries (w ++ c :: t) = entries t + 1 := by
      rw [entries, entries, hwords]
      simp only [hash_mem_append hhash hc, List.length_cons]
      omega
    rw [untouched_append hhash hc, hwords, he]
    refine ⟨fun h => ?_, fun h => Nat.succ_lt_succ (ih.2 h)⟩
    obtain ⟨hts, hk⟩ := ih.1 h
    exact ⟨congrArg _ hts, congrArg _ hk⟩

/-! ### The loops over a line -/

theorem charAt_append (pre t : Text) : charAt (pre ++ t) pre.length = t.headD 0 := by
  cases t <;> simp [charAt]

theorem charAt_cons (pre : Text) (c : Byte) (t : Text) :
    charAt (pre ++ c :: t) pre.length = c := charAt_append pre (c :: t)

theorem set_cons (pre : Text) (c : Byte) (t : Text) :
    (pre ++ c :: t).set pre.length 0 = pre ++ 0 :: t := by simp

/-- The text ends here. -/
def Ended (tail : Text) : Prop := tail.headD 0 = 0

/-- The string at a place is what stands there up to a NUL or the end. -/
theorem cstr_append {pre t u : Text} (ht : 0 ∉ t) (hu : Ended u) :
    cstr (pre ++ t ++ u) pre.length = t := by
  have hall : ∀ c ∈ t, decide (c ≠ (0 : Byte)) = true := fun c hc =>
    decide_eq_true fun he => ht (he ▸ hc)
  rw [cstr, List.append_assoc, List.drop_left, List.takeWhile_append_of_pos hall]
  cases u with
  | nil => exact List.append_nil t
  | cons c cs =>
    have hc : c = 0 := hu
    rw [hc, List.takeWhile_cons_of_neg (by decide), List.append_nil]

theorem inWord_ne_zero {w : Text} (hw : ∀ c ∈ w, inWord c) : 0 ∉ w := fun h =>
  (hw 0 h).1 (by decide)

/-- The characters of a word are passed over. -/
theorem scanWord_skip {w : Text} (hw : ∀ c ∈ w, inWord c) (pre t : Text) (left n : ℕ) :
    scanWord (w.length + left) (pre ++ w ++ t) pre.length n =
      scanWord left (pre ++ w ++ t) (pre ++ w).length n := by
  induction w generalizing pre with
  | nil => simp
  | cons c cs ih =>
    have hc := hw c List.mem_cons_self
    have h0 : c ≠ 0 := by
      rintro rfl
      exact hc.1 (by decide)
    have hrest := ih (fun d hd => hw d (List.mem_cons_of_mem c hd)) (pre ++ [c])
    simp only [List.append_assoc, List.length_append, List.length_cons, List.length_nil,
      Nat.zero_add, List.cons_append, List.nil_append] at hrest ⊢
    rw [Nat.add_right_comm, scanWord, charAt_cons]
    simp only [if_neg h0, if_neg hc.2, if_neg hc.1]
    exact hrest

theorem scanWord_end {tail : Text} (htail : Ended tail) (pre : Text) (left n : ℕ) :
    scanWord left (pre ++ tail) pre.length n = (pre.length, pre ++ tail, n + 1) := by
  cases left with
  | zero => rfl
  | succ left =>
    have hc : charAt (pre ++ tail) pre.length = 0 := (charAt_append pre tail).trans htail
    simp only [scanWord, if_pos hc]

theorem scanWord_hash (pre t : Text) (left n : ℕ) :
    scanWord (left + 1) (pre ++ 0x23 :: t) pre.length n = (pre.length, pre ++ 0 :: t, n) := by
  rw [scanWord, charAt_cons, set_cons]
  rfl

theorem scanWord_blank {c : Byte} (h0 : c ≠ 0) (hc : c ≤ 0x20) (pre t : Text) (left n : ℕ) :
    scanWord (left + 1) (pre ++ c :: t) pre.length n =
      (pre.length + 1, pre ++ 0 :: t, n + 1) := by
  rw [scanWord, charAt_cons, set_cons]
  simp only [if_neg h0, if_neg (blank_ne_hash hc).symm, if_pos hc]

theorem scanLine_end {tail : Text} (htail : Ended tail) (pre : Text) (left : ℕ) (arg : ℕ → ℕ)
    (n : ℕ) : scanLine left (pre ++ tail) pre.length arg n = .ok (pre ++ tail, arg, n) := by
  cases left with
  | zero => rfl
  | succ left =>
    have hc : charAt (pre ++ tail) pre.length = 0 := (charAt_append pre tail).trans htail
    simp only [scanLine, if_pos hc]

theorem scanLine_blank {c : Byte} (h0 : c ≠ 0) (hc : c ≤ 0x20) (pre t : Text) (left : ℕ)
    (arg : ℕ → ℕ) (n : ℕ) :
    scanLine (left + 1) (pre ++ c :: t) pre.length arg n =
      scanLine left (pre ++ c :: t) (pre.length + 1) arg n := by
  rw [scanLine, charAt_cons]
  simp only [if_neg h0, if_pos hc]

/-- A word, or the comment, takes an entry. -/
theorem scanLine_word {c : Byte} (hc : ¬c ≤ 0x20) (pre t : Text) (left : ℕ) (arg : ℕ → ℕ) (n : ℕ) :
    scanLine (left + 1) (pre ++ c :: t) pre.length arg n =
      if n < maxArgs then
        let r := scanWord (left + 1) (pre ++ c :: t) pre.length n
        scanLine left r.2.1 r.1 (Function.update arg n pre.length) r.2.2
      else .error .undefined := by
  have h0 : c ≠ 0 := by
    rintro rfl
    exact hc (by decide)
  rw [scanLine, charAt_cons]
  simp only [if_neg h0, if_neg hc]

/-- What the loops leave: the buffer up to where they began, the entries there were, and
behind them the places of the words. -/
structure Placed (pre : Text) (ts : List Text) (arg : ℕ → ℕ) (n : ℕ) (buf : Text) (arg' : ℕ → ℕ) :
    Prop where
  kept : pre <+: buf
  before : ∀ i, i < n → arg' i = arg i
  texts : (List.range ts.length).map (fun i => cstr buf (arg' (n + i))) = ts

theorem Placed.mono {pre u : Text} {ts : List Text} {arg arg' : ℕ → ℕ} {n : ℕ} {buf : Text}
    (h : Placed (pre ++ u) ts arg n buf arg') : Placed pre ts arg n buf arg' :=
  ⟨(List.prefix_append pre u).trans h.kept, h.before, h.texts⟩

/-- A word that is counted comes before those found behind it. -/
theorem Placed.cons {pre w : Text} (hw : 0 ∉ w) {ts : List Text} {arg arg' : ℕ → ℕ} {n : ℕ}
    {buf : Text}
    (h : Placed (pre ++ w ++ [0]) ts (Function.update arg n pre.length) (n + 1) buf arg') :
    Placed pre (w :: ts) arg n buf arg' := by
  obtain ⟨rest, rfl⟩ := h.kept
  have hplace : arg' n = pre.length := by rw [h.before n (by omega), Function.update_self]
  have hword : cstr (pre ++ w ++ [0] ++ rest) pre.length = w := by
    rw [List.append_assoc (pre ++ w)]
    exact cstr_append hw rfl
  refine ⟨?_, fun i hi => ?_, ?_⟩
  · simp only [List.append_assoc, List.prefix_append]
  · rw [h.before i (by omega), Function.update_of_ne (by omega)]
  · have htexts := h.texts
    rw [List.length_cons, List.range_succ_eq_map, List.map_cons, Nat.add_zero, hplace, hword,
      List.map_map]
    refine congrArg (w :: ·) (Eq.trans (List.map_congr_left fun i _ => ?_) htexts)
    simp only [Function.comp_apply, Nat.succ_eq_add_one, Nat.add_assoc, Nat.add_comm 1]

/-- A word takes an entry, and so does the comment. -/
theorem scanLine_first {w rest : Text} (hw : ∀ c ∈ w, inWord c)
    (hrest : w = [] → rest.head? = some 0x23) (pre : Text) {left : ℕ} (hpos : 0 < left)
    (hleft : w.length ≤ left) (arg : ℕ → ℕ) (n : ℕ) :
    scanLine left (pre ++ (w ++ rest)) pre.length arg n =
      if n < maxArgs then
        let r := scanWord (left - w.length) (pre ++ w ++ rest) (pre ++ w).length n
        scanLine (left - 1) r.2.1 r.1 (Function.update arg n pre.length) r.2.2
      else .error .undefined := by
  have hfirst : ∃ c cs, w ++ rest = c :: cs ∧ ¬c ≤ 0x20 := by
    cases w with
    | nil =>
      obtain ⟨u, rfl⟩ := List.head?_eq_some_iff.mp (hrest rfl)
      exact ⟨0x23, u, rfl, by decide⟩
    | cons c cs => exact ⟨c, cs ++ rest, rfl, (hw c List.mem_cons_self).1⟩
  obtain ⟨c, cs, hcs, hc⟩ := hfirst
  obtain ⟨l, rfl⟩ : ∃ l, left = l + 1 := ⟨left - 1, by omega⟩
  have hskip := scanWord_skip hw pre rest (l + 1 - w.length) n
  have hlen : w.length + (l + 1 - w.length) = l + 1 := by omega
  rw [hlen] at hskip
  rw [← hskip, List.append_assoc, hcs, scanLine_word hc]
  rfl

theorem Scans.scanLine {t : Text} {ts : List Text} {k : ℕ} (h : Scans t ts k) (ht : 0 ∉ t)
    {tail : Text} (htail : Ended tail) (pre : Text) {left : ℕ} (hleft : t.length ≤ left)
    (arg : ℕ → ℕ) {n : ℕ} (hn : n ≤ maxArgs) :
    (n + k ≤ maxArgs → ∃ buf arg', scanLine left (pre ++ (t ++ tail)) pre.length arg n =
        .ok (buf, arg', n + ts.length) ∧ Placed pre ts arg n buf arg') ∧
      (maxArgs < n + k →
        scanLine left (pre ++ (t ++ tail)) pre.length arg n = .error .undefined) := by
  induction h generalizing pre left arg n with
  | done =>
    refine ⟨fun _ => ⟨pre ++ tail, arg, scanLine_end htail pre left arg n, ?_⟩, fun hk => ?_⟩
    · exact ⟨List.prefix_append pre tail, fun _ _ => rfl, rfl⟩
    · exact absurd hk (Nat.not_lt.mpr hn)
  | @skip c t ts k hc rest ih =>
    have h0 : c ≠ 0 := fun he => ht (he ▸ List.mem_cons_self)
    obtain ⟨l, rfl⟩ : ∃ l, left = l + 1 := ⟨left - 1, by rw [List.length_cons] at hleft; omega⟩
    have hrest := ih (fun hm => ht (List.mem_cons_of_mem c hm)) (pre ++ [c])
      (Nat.le_of_succ_le_succ hleft) arg hn
    rw [List.length_append, List.append_assoc] at hrest
    rw [List.cons_append, scanLine_blank h0 hc]
    refine ⟨fun hk => ?_, hrest.2⟩
    obtain ⟨buf, arg', hscan, hplaced⟩ := hrest.1 hk
    exact ⟨buf, arg', hscan, hplaced.mono⟩
  | @last w hne hw =>
    -- the word runs on to the NUL that ends the line
    have hpos : 0 < left := Nat.lt_of_lt_of_le (List.length_pos_iff.mpr hne) hleft
    rw [scanLine_first hw (fun he => absurd he hne) pre hpos hleft, scanWord_end htail]
    refine ⟨fun hk => ?_, fun hk => if_neg (by omega)⟩
    rw [if_pos (by omega)]
    refine ⟨_, _, scanLine_end htail (pre ++ w) _ _ _, ?_, fun i hi => ?_, ?_⟩
    · rw [List.append_assoc]
      exact List.prefix_append pre _
    · exact Function.update_of_ne (by omega) _ _
    · have hword : cstr (pre ++ w ++ tail) pre.length = w := cstr_append (inWord_ne_zero hw) htail
      simp only [List.length_singleton, List.range_one, List.map_singleton, Nat.add_zero,
        Function.update_self, hword]
  | @comment w hw t =>
    -- an entry is filled in, but `n` stays: a word that touches the `#` is lost
    have hlen : w.length < left := by
      rw [List.length_append, List.length_cons] at hleft
      omega
    obtain ⟨m, hm⟩ : ∃ m, left - w.length = m + 1 := ⟨left - w.length - 1, by omega⟩
    rw [List.append_assoc, List.cons_append, scanLine_first hw (fun _ => rfl) pre (by omega)
      (Nat.le_of_lt hlen), hm, scanWord_hash]
    refine ⟨fun hk => ?_, fun hk => if_neg (by omega)⟩
    rw [if_pos (by omega)]
    refine ⟨_, _, scanLine_end (by rfl) (pre ++ w) _ _ _, ?_, fun i hi => ?_, rfl⟩
    · rw [List.append_assoc]
      exact List.prefix_append pre _
    · exact Function.update_of_ne (by omega) _ _
  | @word w t c ts k hne hw hc rest ih =>
    rw [List.length_append, List.length_cons] at hleft
    have h0 : c ≠ 0 := fun he => ht (he ▸ List.mem_append_right w List.mem_cons_self)
    have ht' : 0 ∉ t := fun hm => ht (List.mem_append_right w (List.mem_cons_of_mem c hm))
    obtain ⟨m, hm⟩ : ∃ m, left - w.length = m + 1 := ⟨left - w.length - 1, by omega⟩
    rw [List.append_assoc, List.cons_append, scanLine_first hw (fun he => absurd he hne) pre
      (by omega) (by omega), hm, scanWord_blank h0 hc]
    by_cases hfull : n < maxArgs
    · have hleft' : t.length ≤ left - 1 := by omega
      have hrest := ih ht' (pre ++ w ++ [0]) hleft' (Function.update arg n pre.length) hfull
      rw [List.length_append, List.append_assoc (pre ++ w)] at hrest
      rw [if_pos hfull]
      refine ⟨fun hk => ?_, fun hk => hrest.2 (by omega)⟩
      obtain ⟨buf, arg', hscan, hplaced⟩ := hrest.1 (by omega)
      refine ⟨buf, arg', ?_, hplaced.cons (inWord_ne_zero hw)⟩
      rw [List.length_cons, Nat.add_comm ts.length 1, ← Nat.add_assoc]
      exact hscan
    · exact ⟨fun hk => absurd hk (by omega), fun _ => if_neg hfull⟩

/-! ### debugger_command -/

theorem Scans.blanks {sp t : Text} {ts : List Text} {k : ℕ} (hsp : ∀ c ∈ sp, c ≤ 0x20)
    (h : Scans t ts k) : Scans (sp ++ t) ts k := by
  induction sp with
  | nil => exact h
  | cons c cs ih =>
    exact .skip (hsp c List.mem_cons_self) (ih fun d hd => hsp d (List.mem_cons_of_mem c hd))

theorem ended_dropWhile (u : Text) : Ended (u.dropWhile (· ≠ 0)) := by
  induction u with
  | nil => rfl
  | cons c cs ih =>
    by_cases hc : c = 0
    · rw [List.dropWhile_cons_of_neg (by simpa using hc)]
      exact hc
    · rwa [List.dropWhile_cons_of_pos (by simpa using hc)]

theorem takeWhile_blank_ended (t : Text) {tail : Text} (htail : Ended tail) :
    (t ++ tail).takeWhile (· = 0x20) = t.takeWhile (· = 0x20) := by
  induction t with
  | nil =>
    cases tail with
    | nil => rfl
    | cons c cs =>
      have hc : c = 0 := htail
      rw [hc]
      rfl
  | cons c cs ih => simp only [List.cons_append, List.takeWhile_cons, ih]

/-- A buffer around the line in it: what stands in front of the line and its blanks, the
rest of the line, and what ends it. -/
theorem exists_line {buf : Text} {line : ℕ} (hline : line ≤ buf.length) :
    ∃ pre tail, buf = pre ++ ((cstr buf line).dropWhile (· = 0x20) ++ tail) ∧ Ended tail ∧
      skipBlanks buf line = pre.length := by
  refine ⟨buf.take line ++ (cstr buf line).takeWhile (· = 0x20), (buf.drop line).dropWhile (· ≠ 0),
    ?_, ended_dropWhile _, ?_⟩
  · rw [List.append_assoc, ← List.append_assoc (List.takeWhile _ _), List.takeWhile_append_dropWhile,
      cstr, List.takeWhile_append_dropWhile, List.take_append_drop]
  · have hsplit : buf.drop line = cstr buf line ++ (buf.drop line).dropWhile (· ≠ 0) :=
      List.takeWhile_append_dropWhile.symm
    rw [skipBlanks, hsplit, takeWhile_blank_ended _ (ended_dropWhile _), List.length_append,
      List.length_take, Nat.min_eq_left hline]

theorem cstr_no_nul (buf : Text) (line : ℕ) : 0 ∉ cstr buf line := by
  intro h
  simpa using List.mem_takeWhile_imp h

theorem debuggerCommand_scans {buf : Text} {line : ℕ} (hline : line ≤ buf.length)
    (hslash : ((cstr buf line).dropWhile (· = 0x20)).head? ≠ some 0x2f) :
    ∃ ts k, Scans (cstr buf line) ts k ∧
      (k ≤ maxArgs → ∃ buf', ∀ (W : Type) (call : Callees W) (o : ℕ) (s : Shell W),
        s.objects[o]? = some buf → debuggerCommand call o line s =
          passOn call ts (s.setObject o buf')) ∧
      (maxArgs < k → ∀ (W : Type) (call : Callees W) (o : ℕ) (s : Shell W),
        s.objects[o]? = some buf → debuggerCommand call o line s = .error .undefined) := by
  obtain ⟨pre, tail, hbuf, htail, hskip⟩ := exists_line hline
  have hsplit : (cstr buf line).takeWhile (· = 0x20) ++ (cstr buf line).dropWhile (· = 0x20) =
      cstr buf line := List.takeWhile_append_dropWhile
  have ht : 0 ∉ (cstr buf line).dropWhile (· = 0x20) := fun h =>
    cstr_no_nul buf line (hsplit ▸ List.mem_append_right _ h)
  generalize (cstr buf line).dropWhile (· = 0x20) = t at *
  obtain ⟨ts, k, hscan⟩ := exists_scans t
  -- the line is no `/` line, so it is cut into words
  have hfirst : charAt buf (skipBlanks buf line) ≠ 0x2f := by
    rw [hskip, hbuf, charAt_append]
    cases t with
    | nil =>
      rw [List.nil_append, show tail.headD 0 = 0 from htail]
      decide
    | cons c cs =>
      intro hc
      exact hslash (congrArg some hc)
  have hleft : t.length ≤ buf.length - skipBlanks buf line := by
    rw [hskip, hbuf, List.length_append, List.length_append]
    omega
  -- what the loop does with the buffer is that of `Scans`
  have hrun := hscan.scanLine ht htail pre hleft (fun _ => 0) (n := 0) (Nat.zero_le _)
  rw [← hbuf, ← hskip, Nat.zero_add, Nat.zero_add] at hrun
  have hcommand (W : Type) (call : Callees W) (o : ℕ) (s : Shell W) (ho : s.objects[o]? = some buf) :
      debuggerCommand call o line s =
        scanLine (buf.length - skipBlanks buf line) buf (skipBlanks buf line) (fun _ => 0) 0 >>=
          fun r => passOn call ((List.range r.2.2).map fun i => cstr r.1 (r.2.1 i))
            (s.setObject o r.1) := by
    have hget : s.objects.getD o [] = buf := by rw [List.getD_eq_getElem?_getD, ho]; rfl
    rw [debuggerCommand, hget]
    exact if_neg hfirst
  refine ⟨ts, k, ?_, fun hk => ?_, fun hk W call o s ho => ?_⟩
  · rw [← hsplit]
    refine hscan.blanks fun c hc => ?_
    have hblank : c = 0x20 := by simpa using List.mem_takeWhile_imp hc
    rw [hblank]
    decide
  · obtain ⟨buf', arg, hok, hplaced⟩ := hrun.1 hk
    refine ⟨buf', fun W call o s ho => ?_⟩
    have htexts := hplaced.texts
    simp only [Nat.zero_add] at htexts
    rw [hcommand W call o s ho, hok]
    simp only [bind, Except.bind, htexts]
  · rw [hcommand W call o s ho, hrun.2 hk]
    rfl

/-- The words of the line are passed on: each once and in order, and nothing else; and no
entry is stored outside `arg`. -/
def PassesWords (buf : Text) (line : ℕ) : Prop :=
  ∀ (W : Type) (call : Callees W) (o : ℕ) (s : Shell W), s.objects[o]? = some buf →
    ∃ buf', debuggerCommand call o line s =
      passOn call (words (beforeHash (cstr buf line))) (s.setObject o buf')

/-- Callees that take every number, and keep what they are passed. -/
def recorder : Callees Unit where
  parseNumber _ s := (some 0, s)
  debuggerExec cmd args s := .ok (0, s.xprintf "" (cmd :: args.map Param.s))

theorem parseArgs_recorder (ts : List Text) (s : Shell Unit) :
    parseArgs recorder.parseNumber ts s = (some (ts.map fun t => ⟨t, 0⟩), s) := by
  induction ts with
  | nil => rfl
  | cons t ts ih =>
    rw [parseArgs]
    simp only [recorder] at ih ⊢
    rw [ih]
    rfl

theorem passOn_recorder (ts : List Text) (s : Shell Unit) :
    passOn recorder ts s = .ok (0, if ts = [] then s else s.xprintf "" ts) := by
  rw [passOn, parseArgs_recorder]
  cases ts with
  | nil => rfl
  | cons t ts =>
    have hargs : (ts.map fun t => (⟨t, 0⟩ : Param)).map Param.s = ts := by
      rw [List.map_map]
      exact List.map_id ts
    simp only [List.map_cons, recorder, hargs]
    rfl

theorem passOn_recorder_inj {ts ts' : List Text} {s s' : Shell Unit} (hs : s.printed = s'.printed)
    (h : passOn recorder ts s = passOn recorder ts' s') : ts = ts' := by
  rw [passOn_recorder, passOn_recorder] at h
  have hp := congrArg Shell.printed (Prod.mk.inj (Except.ok.inj h)).2
  by_cases h1 : ts = [] <;> by_cases h2 : ts' = []
  · rw [h1, h2]
  · simp [h1, h2, Shell.xprintf, hs] at hp
  · simp [h1, h2, Shell.xprintf, hs] at hp
  · simpa [h1, h2, Shell.xprintf, hs] using hp

/-- `debugger_command` passes on the words in front of the comment exactly when no word
touches it and there are no more entries than `arg` has. -/
theorem debugger_command_words_iff (buf : Text) (line : ℕ) (hline : line ≤ buf.length)
    (hslash : ((cstr buf line).dropWhile (· = 0x20)).head? ≠ some 0x2f) :
    PassesWords buf line ↔ Untouched (cstr buf line) ∧ entries (cstr buf line) ≤ maxArgs := by
  obtain ⟨ts, k, hscan, hok, herror⟩ := debuggerCommand_scans hline hslash
  obtain ⟨hclean, htouched⟩ := hscan.spec
  constructor
  · intro h
    let s : Shell Unit :=
      { Shell.fresh [] () with objects := [buf], recorded := fun _ hf => absurd hf List.not_mem_nil }
    obtain ⟨buf', hpass⟩ := h Unit recorder 0 s rfl
    have hk : k ≤ maxArgs := by
      by_contra hk
      rw [herror (Nat.not_le.mp hk) Unit recorder 0 s rfl, passOn_recorder] at hpass
      exact absurd hpass (by simp)
    obtain ⟨buf'', hrun⟩ := hok hk
    have hts : ts = words (beforeHash (cstr buf line)) :=
      passOn_recorder_inj (by rfl) ((hrun Unit recorder 0 s rfl).symm.trans hpass)
    have hun : Untouched (cstr buf line) := by
      by_contra hun
      have hlt := htouched hun
      rw [← hts] at hlt
      exact absurd hlt (Nat.lt_irrefl _)
    exact ⟨hun, (hclean hun).2 ▸ hk⟩
  · rintro ⟨hun, hlen⟩ W call o s ho
    obtain ⟨hts, hk⟩ := hclean hun
    obtain ⟨buf', hrun⟩ := hok (hk ▸ hlen)
    exact ⟨buf', hts ▸ hrun W call o s ho⟩

/-- A word that touches the comment is dropped, and so is its place in `arg`: nothing is
passed on of `go#now`. -/
theorem touching_word_dropped : ¬∀ buf line, line ≤ buf.length →
    ((cstr buf line).dropWhile (· = 0x20)).head? ≠ some 0x2f → PassesWords buf line := by
  intro h
  have hwords := h (Gdb.ascii "go#now") 0 (by decide) (by decide)
  exact absurd ((debugger_command_words_iff _ _ (by decide) (by decide)).mp hwords).1 (by decide)

theorem debugger_command_words_iff_go : 0 ≤ (Gdb.ascii "go #now").length ∧
    PassesWords (Gdb.ascii "go #now") 0 :=
  ⟨Nat.zero_le _, (debugger_command_words_iff _ 0 (by decide) (by decide)).mpr (by decide)⟩

end M3Dev.Debugger
