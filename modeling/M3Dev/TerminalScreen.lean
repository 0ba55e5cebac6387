import M3Dev.Machine
import M3Dev.Numerals
import Mathlib.Data.List.GetD
import Mathlib.Logic.Function.Basic

/-! Terminals with rows of a fixed width: what is asked of them for characters and a few escape
sequences, and one that does so. -/
namespace M3Dev.TerminalScreen

def blank : Byte := 0x20

def printable (c : Byte) : Bool := 0x20 ≤ c && c ≤ 0x7e

/-- The character of a digit. -/
def digit (d : ℕ) : Byte := 0x30 + BitVec.ofNat 8 d

/-- `ESC [ 0 K` -/
def eraseRight : List Byte := [0x1b, 0x5b, 0x30, 0x4b]

/-- `ESC [ n C` -/
def forward (n : ℕ) : List Byte := [0x1b, 0x5b] ++ (Numerals.numeral 10 n).map digit ++ [0x43]

/-- `ESC [ H ESC [ 2 J` -/
def clearScreen : List Byte := [0x1b, 0x5b, 0x48, 0x1b, 0x5b, 0x32, 0x4a]

/-- A terminal: what a character does to it, the cells of the cursor's row and the cursor's column, and
whether no escape sequence has begun. -/
structure Terminal (σ : Type*) where
  feed : σ → Byte → σ
  cell : σ → ℕ → Byte
  col : σ → ℕ
  Ground : σ → Prop

namespace Terminal
variable {σ : Type*} {T : Terminal σ} {cols : ℕ} {s : σ} {t u : List Byte}

def write (T : Terminal σ) (s : σ) (t : List Byte) : σ := t.foldl T.feed s

/-- What is asked of a terminal with rows of `cols` cells. A cursor at column `cols` is behind a
character in the last cell, and the next character goes to the next row: `ESC [ 0 K` may then take the
last cell with it or not. -/
structure Obeys (T : Terminal σ) (cols : ℕ) : Prop where
  put : ∀ s c, T.Ground s → printable c = true → T.col s < cols →
    T.Ground (T.feed s c) ∧ T.col (T.feed s c) = T.col s + 1 ∧
      ∀ i < cols, T.cell (T.feed s c) i = if i = T.col s then c else T.cell s i
  carriageReturn : ∀ s, T.Ground s → T.Ground (T.feed s 0x0d) ∧ T.col (T.feed s 0x0d) = 0 ∧
    ∀ i < cols, T.cell (T.feed s 0x0d) i = T.cell s i
  eraseRight : ∀ s, T.Ground s → T.col s ≤ cols → T.Ground (T.write s eraseRight) ∧
    ∀ i < cols, i + 1 < cols ∨ T.col s < cols →
      T.cell (T.write s eraseRight) i = if T.col s ≤ i then blank else T.cell s i
  forward : ∀ s n, T.Ground s → 0 < n → T.col s + n < cols → T.Ground (T.write s (forward n)) ∧
    T.col (T.write s (forward n)) = T.col s + n ∧
      ∀ i < cols, T.cell (T.write s (forward n)) i = T.cell s i
  clearScreen : ∀ s, T.Ground s → T.Ground (T.write s clearScreen)

/-- The cursor's row reads `t`, with blanks behind it, and the cursor is at a column. Of a text that
fills the row the last cell is not asked for. -/
structure Shows (T : Terminal σ) (cols : ℕ) (s : σ) (t : List Byte) (col : ℕ) : Prop where
  ground : T.Ground s
  col : T.col s = col
  cells : ∀ i < cols, i + 1 < cols ∨ t.length < cols → T.cell s i = t.getD i blank

theorem write_append : T.write s (t ++ u) = T.write (T.write s t) u := List.foldl_append

theorem write_cons {c : Byte} : T.write s (c :: t) = T.write (T.feed s c) t := rfl

theorem write_singleton {c : Byte} : T.write s [c] = T.feed s c := rfl

/-- What printable characters leave on the cursor's row. -/
structure Printed (T : Terminal σ) (cols : ℕ) (s : σ) (t : List Byte) (s' : σ) : Prop where
  ground : T.Ground s'
  col : T.col s' = T.col s + t.length
  cells : ∀ i < cols, T.cell s' i =
    if T.col s ≤ i ∧ i < T.col s + t.length then t.getD (i - T.col s) blank else T.cell s i

theorem Obeys.feed_printed (h : T.Obeys cols) (hs : T.Ground s) {c : Byte} (hc : printable c = true)
    (hcol : T.col s < cols) : T.Printed cols s [c] (T.feed s c) := by
  obtain ⟨hground, hnext, hcells⟩ := h.put s c hs hc hcol
  refine ⟨hground, hnext, fun i hi => ?_⟩
  rw [hcells i hi]
  by_cases hat : i = T.col s
  · rw [if_pos hat, if_pos (by simp [hat]), hat, Nat.sub_self]
    rfl
  · rw [if_neg hat, if_neg (by simp; omega)]

theorem Printed.trans {s' s'' : σ} (h : T.Printed cols s t s') (h' : T.Printed cols s' u s'') :
    T.Printed cols s (t ++ u) s'' where
  ground := h'.ground
  col := by rw [h'.col, h.col, List.length_append, Nat.add_assoc]
  cells i hcols := by
    rw [h'.cells i hcols, h.cells i hcols, h.col, List.length_append]
    by_cases hi : T.col s ≤ i ∧ i < T.col s + (t.length + u.length)
    · rw [if_pos hi]
      by_cases ht : i < T.col s + t.length
      · rw [if_neg (by omega), if_pos ⟨hi.1, ht⟩, List.getD_append _ _ _ _ (by omega)]
      · rw [if_pos (by omega), List.getD_append_right _ _ _ _ (by omega)]
        congr 1
        omega
    · rw [if_neg (by omega), if_neg (by omega), if_neg hi]

/-- Characters up to the end of the row are written where the cursor is. -/
theorem Obeys.write_printable (h : T.Obeys cols) (hs : T.Ground s) (ht : ∀ c ∈ t, printable c = true)
    (hfits : T.col s + t.length ≤ cols) : T.Printed cols s t (T.write s t) := by
  induction t generalizing s with
  | nil => exact ⟨hs, rfl, fun i _ => by rw [if_neg (by simp)]; rfl⟩
  | cons c t ih =>
    rw [List.length_cons] at hfits
    have hc := h.feed_printed hs (ht c List.mem_cons_self) (by omega)
    have hcol : T.col (T.feed s c) = T.col s + 1 := hc.col
    rw [write_cons]
    exact hc.trans (ih hc.ground (fun d hd => ht d (List.mem_cons_of_mem c hd)) (by omega))

/-- Characters behind a text that is shown, with the cursor there. -/
theorem Shows.write_printable (h : T.Shows cols s t t.length) (hT : T.Obeys cols)
    (hu : ∀ c ∈ u, printable c = true) (hfits : t.length + u.length ≤ cols) (ht : t.length < cols) :
    T.Shows cols (T.write s u) (t ++ u) (t ++ u).length := by
  have hprinted := hT.write_printable h.ground hu (by rw [h.col]; exact hfits)
  refine ⟨hprinted.ground, ?_, fun i hi _ => ?_⟩
  · rw [hprinted.col, h.col, List.length_append]
  · rw [hprinted.cells i hi, h.col, h.cells i hi (.inr ht)]
    by_cases hlt : i < t.length
    · rw [if_neg (by omega), List.getD_append _ _ _ _ hlt]
    · rw [List.getD_append_right _ _ _ _ (by omega)]
      by_cases hi' : i < t.length + u.length
      · rw [if_pos ⟨by omega, hi'⟩]
      · rw [if_neg (by omega), List.getD_eq_default _ _ (by omega), List.getD_eq_default _ _ (by omega)]

/-- A row is written anew: its text, blanks to the end, and the cursor to a column. -/
theorem Obeys.rewrite (h : T.Obeys cols) (hs : T.Ground s) (ht : ∀ c ∈ t, printable c = true)
    (hfits : t.length ≤ cols) {column : ℕ} (hpos : 0 < column) (hcolumn : column < cols) :
    T.Shows cols (T.write s ([0x0d] ++ t ++ TerminalScreen.eraseRight ++ [0x0d] ++
      TerminalScreen.forward column)) t column := by
  rw [write_append, write_append, write_append, write_append, write_singleton, write_singleton]
  obtain ⟨hground0, hcol0, -⟩ := h.carriageReturn s hs
  generalize T.feed s 0x0d = s0 at hground0 hcol0 ⊢
  have hprinted := h.write_printable hground0 ht (by omega)
  generalize T.write s0 t = s1 at hprinted ⊢
  have hcol1 : T.col s1 = t.length := by rw [hprinted.col, hcol0, Nat.zero_add]
  obtain ⟨hground2, hcells2⟩ := h.eraseRight s1 hprinted.ground (by omega)
  generalize T.write s1 TerminalScreen.eraseRight = s2 at hground2 hcells2 ⊢
  obtain ⟨hground3, hcol3, hcells3⟩ := h.carriageReturn s2 hground2
  generalize T.feed s2 0x0d = s3 at hground3 hcol3 hcells3 ⊢
  obtain ⟨hground4, hcol4, hcells4⟩ := h.forward s3 column hground3 hpos (by omega)
  refine ⟨hground4, by omega, fun i hi hlast => ?_⟩
  rw [hcells4 i hi, hcells3 i hi, hcells2 i hi (by omega), hcol1]
  by_cases hle : t.length ≤ i
  · rw [if_pos hle, List.getD_eq_default _ _ hle]
  · rw [if_neg hle, hprinted.cells i hi, if_pos ⟨by omega, by omega⟩, hcol0, Nat.sub_zero]

end Terminal

/-! ### A terminal -/

/-- What the characters of an escape sequence have come to. -/
inductive Mode where
  | ground
  | escape
  | csi (n : Option ℕ)
  deriving DecidableEq, Repr

structure Screen where
  cells : ℕ → ℕ → Byte
  row : ℕ
  col : ℕ
  mode : Mode

namespace Screen

/-- The cells of the cursor's row, each with what `f` makes of it and its column. -/
def mapRow (s : Screen) (f : ℕ → Byte → Byte) : Screen :=
  { s with cells := Function.update s.cells s.row fun i => f i (s.cells s.row i) }

/-- A character goes where the cursor is, and the cursor behind it; behind a full row to the next one. -/
def put (cols : ℕ) (s : Screen) (c : Byte) : Screen :=
  let s := if s.col < cols then s else { s with row := s.row + 1, col := 0 }
  { s.mapRow (fun i x => if i = s.col then c else x) with col := s.col + 1 }

/-- The end of an escape sequence. -/
def control (cols : ℕ) (s : Screen) (n : Option ℕ) (final : Byte) : Screen :=
  let at_ := min s.col (cols - 1)
  match final.toNat with
  | 0x41 => { s with row := s.row - max 1 (n.getD 1) }
  | 0x42 => { s with row := s.row + max 1 (n.getD 1) }
  | 0x43 => { s with col := min (at_ + max 1 (n.getD 1)) (cols - 1) }
  | 0x44 => { s with col := at_ - max 1 (n.getD 1) }
  | 0x47 => { s with col := min (n.getD 1 - 1) (cols - 1) }
  | 0x48 => { s with row := 0, col := 0 }
  | 0x4a => if n = some 2 then { s with cells := fun _ _ => blank } else s
  | 0x4b =>
    match n.getD 0 with
    | 0 => s.mapRow fun i x => if at_ ≤ i then blank else x
    | 1 => s.mapRow fun i x => if i ≤ at_ then blank else x
    | 2 => s.mapRow fun _ _ => blank
    | _ => s
  | _ => s

def isDigit (c : Byte) : Bool := 0x30 ≤ c && c ≤ 0x39

def feed (cols : ℕ) (s : Screen) (c : Byte) : Screen :=
  match s.mode with
  | .ground =>
    if c = 0x1b then { s with mode := .escape }
    else if c = 0x0d then { s with col := 0 }
    else if c = 0x0a then { s with row := s.row + 1 }
    else if printable c then s.put cols c
    else s
  | .escape => { s with mode := if c = 0x5b then .csi none else .ground }
  | .csi n =>
    if isDigit c then { s with mode := .csi (some (10 * n.getD 0 + (c.toNat - 0x30))) }
    else { s.control cols n c with mode := .ground }

def terminal (cols : ℕ) : Terminal Screen where
  feed := feed cols
  cell s := s.cells s.row
  col := Screen.col
  Ground s := s.mode = .ground

variable {cols : ℕ} {s : Screen}

theorem printable_ne {c : Byte} (h : printable c = true) : c ≠ 0x1b ∧ c ≠ 0x0d ∧ c ≠ 0x0a := by
  rw [printable, Bool.and_eq_true, decide_eq_true_eq, decide_eq_true_eq] at h
  refine ⟨?_, ?_, ?_⟩
  all_goals
    rintro rfl
    exact absurd h.1 (by decide)

theorem feed_printable {c : Byte} (hs : s.mode = .ground) (h : printable c = true) :
    s.feed cols c = s.put cols c := by
  obtain ⟨h1, h2, h3⟩ := printable_ne h
  rw [feed, hs]
  simp only [if_neg h1, if_neg h2, if_neg h3, if_pos h]

theorem mapRow_cells (s : Screen) (f : ℕ → Byte → Byte) (i : ℕ) :
    (s.mapRow f).cells s.row i = f i (s.cells s.row i) :=
  congrFun (Function.update_self s.row _ s.cells) i

theorem terminal_col (s : Screen) : (terminal cols).col s = s.col := rfl

theorem terminal_feed (cols : ℕ) : (terminal cols).feed = feed cols := rfl

theorem write_csi (hs : s.mode = .ground) :
    (terminal cols).write s [0x1b, 0x5b] = { s with mode := .csi none } := by
  have hescape : s.feed cols 0x1b = { s with mode := .escape } := by
    rw [feed, hs]
    rfl
  have hbracket : (terminal cols).write s [0x1b, 0x5b] = (s.feed cols 0x1b).feed cols 0x5b := rfl
  rw [hbracket, hescape]
  rfl

theorem feed_final {n : Option ℕ} (hs : s.mode = .csi n) {c : Byte} (hc : isDigit c = false) :
    s.feed cols c = { s.control cols n c with mode := .ground } := by
  rw [feed, hs]
  simp only [hc, Bool.false_eq_true, if_false]

theorem digit_facts : ∀ d < 10, isDigit (digit d) = true ∧ (digit d).toNat - 0x30 = d := by decide

/-- A numeral in an escape sequence stands for its number. -/
theorem write_digits (hs : s.mode = .csi none) {ds : List ℕ} (hds : ∀ d ∈ ds, d < 10) :
    (terminal cols).write s (ds.map digit) =
      { s with mode := .csi (if ds = [] then none else some (Numerals.value 10 ds)) } := by
  induction ds using List.reverseRecOn with
  | nil =>
    rw [if_pos rfl, ← hs]
    rfl
  | append_singleton ds d ih =>
    obtain ⟨hdigit, hvalue⟩ := digit_facts d (hds d (by simp))
    have hmode : ∀ n : Option ℕ, ({ s with mode := .csi n } : Screen).feed cols (digit d) =
        { s with mode := .csi (some (10 * n.getD 0 + d)) } := by
      intro n
      rw [feed]
      simp only [hdigit, if_true, hvalue]
    have hgetD : (if ds = [] then none else some (Numerals.value 10 ds)).getD 0 =
        Numerals.value 10 ds := by
      by_cases hnil : ds = []
      · rw [if_pos hnil, hnil]
        rfl
      · rw [if_neg hnil, Option.getD_some]
    rw [List.map_append, Terminal.write_append, ih fun d hd => hds d (List.mem_append_left _ hd),
      List.map_singleton, Terminal.write_singleton, terminal_feed, hmode, hgetD, Numerals.value_concat,
      if_neg (List.append_ne_nil_of_right_ne_nil ds (List.cons_ne_nil d []))]

/-- A whole escape sequence with a number. -/
theorem write_sequence (cols : ℕ) (hs : s.mode = .ground) (ds : List ℕ) (hds : ∀ d ∈ ds, d < 10) {c : Byte}
    (hc : isDigit c = false) {n : Option ℕ} (hn : n = if ds = [] then none else some (Numerals.value 10 ds)) :
    (terminal cols).write s ([0x1b, 0x5b] ++ ds.map digit ++ [c]) =
      { Screen.control cols { s with mode := .csi n } n c with mode := .ground } := by
  have hmode : ({ s with mode := .csi n } : Screen).mode = .csi n := rfl
  rw [Terminal.write_append, Terminal.write_append, write_csi hs, write_digits rfl hds, ← hn,
    Terminal.write_singleton, terminal_feed]
  exact feed_final hmode hc

theorem put_cells (hcol : s.col < cols) (c : Byte) (i : ℕ) :
    (s.put cols c).cells (s.put cols c).row i = if i = s.col then c else s.cells s.row i := by
  rw [put, if_pos hcol]
  exact mapRow_cells s (fun i x => if i = s.col then c else x) i

/-- `ESC [ 0 K` at the end of a full row takes the last cell with it. -/
theorem control_eraseRight (s : Screen) (i : ℕ) : (s.control cols (some 0) 0x4b).cells s.row i =
    if min s.col (cols - 1) ≤ i then blank else s.cells s.row i :=
  mapRow_cells s (fun i x => if min s.col (cols - 1) ≤ i then blank else x) i

theorem terminal_obeys (hcols : 0 < cols) : (terminal cols).Obeys cols where
  put s c hs hc hcol := by
    have hfeed : (terminal cols).feed s c = s.put cols c := feed_printable hs hc
    rw [hfeed]
    have hroom : s.col < cols := hcol
    refine ⟨?_, ?_, fun i _ => put_cells hcol c i⟩
    · rw [put, if_pos hroom]
      exact hs
    · show (s.put cols c).col = s.col + 1
      rw [put, if_pos hroom]
  carriageReturn s hs := by
    have hfeed : (terminal cols).feed s 0x0d = { s with col := 0 } := by
      have hground : s.mode = .ground := hs
      show s.feed cols 0x0d = _
      rw [feed, hground]
      rfl
    rw [hfeed]
    exact ⟨hs, rfl, fun _ _ => rfl⟩
  eraseRight s hs _ := by
    have hwrite : (terminal cols).write s eraseRight =
        { s.control cols (some 0) 0x4b with mode := .ground } :=
      write_sequence cols hs [0] (by simp) (by decide) rfl
    rw [hwrite]
    refine ⟨rfl, fun i hi hlast => (control_eraseRight s i).trans ?_⟩
    rw [terminal_col] at hlast ⊢
    -- a cursor behind the row erases its last cell
    have hat : min s.col (cols - 1) ≤ i ↔ s.col ≤ i := by omega
    by_cases hle : s.col ≤ i
    · rw [if_pos (hat.mpr hle), if_pos hle]
    · rw [if_neg (hat.not.mpr hle), if_neg hle]
      rfl
  forward s n hs hpos hcol := by
    have hnum := Numerals.isNumeral_numeral (b := 10) (by decide) n
    have hwrite : (terminal cols).write s (forward n) = { s.control cols (some n) 0x43 with mode := .ground } := by
      apply write_sequence cols hs _ hnum.digit (by decide)
      rw [if_neg hnum.nonempty, Numerals.value_numeral]
    rw [hwrite]
    refine ⟨rfl, ?_, fun _ _ => rfl⟩
    show min (min s.col (cols - 1) + max 1 n) (cols - 1) = s.col + n
    have hcol' : s.col + n < cols := hcol
    omega
  clearScreen s hs := by
    have hhome : (terminal cols).write s [0x1b, 0x5b, 0x48] =
        { s.control cols none 0x48 with mode := .ground } :=
      write_sequence cols hs [] (by simp) (by decide) rfl
    -- two sequences, home and erase
    have hparts : clearScreen = [0x1b, 0x5b, 0x48] ++ [0x1b, 0x5b, 0x32, 0x4a] := rfl
    rw [hparts, Terminal.write_append, hhome]
    have hclear : (terminal cols).write { s.control cols none 0x48 with mode := .ground }
        [0x1b, 0x5b, 0x32, 0x4a] = { Screen.control cols { s.control cols none 0x48 with mode := .ground }
          (some 2) 0x4a with mode := .ground } := write_sequence cols rfl [2] (by simp) (by decide) rfl
    rw [hclear]
    rfl

end Screen

end M3Dev.TerminalScreen
