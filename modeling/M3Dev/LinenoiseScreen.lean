import M3Dev.LinenoiseEdits
import M3Dev.TerminalScreen

/-! The line on the terminal: what refreshing it writes, and what the terminal shows then. -/
namespace M3Dev.Linenoise
open CallTree TextCursor Buffer TerminalScreen

/-! ### The part of the line that is shown -/

namespace Setup

/-- The characters that are scrolled out on the left. -/
def start (S : Setup) (z : Cursor Byte) : ℕ := S.prompt.length + z.position + 1 - S.cols

/-- The characters of the line that are shown. -/
def window (S : Setup) (z : Cursor Byte) : Text :=
  (z.text.drop (S.start z)).take (S.cols - S.prompt.length)

def column (S : Setup) (z : Cursor Byte) : ℕ := S.prompt.length + z.position - S.start z

/-- The prompt and the window fit on the terminal, with the cursor behind the prompt. -/
theorem window_fits (S : Setup) (z : Cursor Byte) :
    (S.prompt ++ S.window z).length ≤ S.cols ∧ S.column z < S.cols ∧
      S.prompt.length ≤ S.column z := by
  have hwide := S.wide
  have hle := z.position_le
  rw [window, column, start, List.length_append, List.length_take, List.length_drop]
  refine ⟨?_, ?_, ?_⟩
  all_goals omega

/-- What stands before the cursor on the row is the end of what stands before it in the line. -/
theorem window_cursor (S : Setup) (z : Cursor Byte) :
    (S.window z).take (S.column z - S.prompt.length) = z.before.reverse.drop (S.start z) := by
  have hwide := S.wide
  have hpos : z.before.reverse.length = z.position := List.length_reverse
  have hle : S.column z - S.prompt.length ≤ S.cols - S.prompt.length := by
    rw [column, start]
    omega
  have hcount : S.column z - S.prompt.length = (z.before.reverse.drop (S.start z)).length := by
    rw [List.length_drop, hpos, column, start]
    omega
  rw [window, List.take_take, Nat.min_eq_left hle, Cursor.text,
    List.drop_append_of_le_length (by rw [hpos, start]; omega), hcount, List.take_left']
  rfl

/-- Nothing is scrolled out of a line that is shorter than the row. -/
theorem window_short (S : Setup) {z : Cursor Byte} (h : S.prompt.length + z.text.length < S.cols) :
    S.window z = z.text ∧ S.column z = S.prompt.length + z.position := by
  have hle := z.position_le
  have hstart : S.start z = 0 := by
    rw [start]
    omega
  refine ⟨?_, ?_⟩
  · rw [window, hstart, List.drop_zero, List.take_of_length_le (by omega)]
  · rw [column, hstart, Nat.sub_zero]

end Setup

variable {S : Setup} {l : State} {e : Editor}

theorem scroll_eq {plen cols : ℕ} (hwide : plen < cols) (start len pos : ℕ) :
    State.scroll plen cols start len pos =
      some (start + (plen + pos + 1 - cols), len - (plen + pos + 1 - cols),
        pos - (plen + pos + 1 - cols)) := by
  induction pos generalizing start len with
  | zero =>
    have hzero : plen + 0 + 1 - cols = 0 := by omega
    rw [State.scroll, if_neg (by omega), hzero]
    rfl
  | succ pos ih =>
    rw [State.scroll]
    by_cases hout : plen + (pos + 1) ≥ cols
    · have hstep : plen + (pos + 1) + 1 - cols = (plen + pos + 1 - cols) + 1 := by omega
      have hstart : start + 1 + (plen + pos + 1 - cols) = start + (plen + pos + 1 - cols + 1) := by omega
      have hlen : len - 1 - (plen + pos + 1 - cols) = len - (plen + pos + 1 - cols + 1) := by omega
      have hpos : pos - (plen + pos + 1 - cols) = pos + 1 - (plen + pos + 1 - cols + 1) := by omega
      rw [if_pos hout, ih, hstep, hstart, hlen, hpos]
    · have hzero : plen + (pos + 1) + 1 - cols = 0 := by omega
      rw [if_neg hout, hzero]
      rfl

theorem trim_eq {plen cols : ℕ} (hwide : plen < cols) (len : ℕ) :
    State.trim plen cols len = min len (cols - plen) := by
  induction len with
  | zero => exact (Nat.zero_min _).symm
  | succ len ih =>
    rw [State.trim]
    by_cases hlong : plen + (len + 1) > cols
    · rw [if_pos hlong, ih]
      omega
    · rw [if_neg hlong]
      omega

theorem Holds.get_drop {buf : ℕ → Byte} {t : Text} (h : Holds buf 0 t) (k n : ℕ) :
    get buf k (min (t.length - k) n) = (t.drop k).take n := by
  rcases Nat.lt_or_ge k t.length with hlt | hle
  · rw [← List.take_append_drop k t] at h
    have hback := (holds_append.mp h).2
    rw [Nat.zero_add, List.length_take, Nat.min_eq_left (Nat.le_of_lt hlt)] at hback
    have hget := hback.get_eq
    rw [List.length_drop] at hget
    rw [← get_take (Nat.min_le_left _ n), hget, List.take_eq_take_iff, List.length_drop]
    omega
  · rw [Nat.sub_eq_zero_of_le hle, Nat.zero_min, List.drop_of_length_le hle, List.take_nil]
    rfl

/-- What refreshing the line writes. -/
def Setup.picture (S : Setup) (z : Cursor Byte) : Text :=
  State.refreshText S.prompt (S.window z) (S.column z)

theorem refreshSingleLine_eq (h : Edits S l e) :
    l.refreshSingleLine = .call (.write (S.picture e.line)) fun _ => .ret () := by
  have hwide := S.wide
  have hline := (holds_append.mp h.holds).1
  have hwindow : get l.buf (S.start e.line)
      (State.trim S.prompt.length S.cols (e.line.text.length - S.start e.line)) = S.window e.line := by
    rw [trim_eq hwide]
    exact Holds.get_drop hline _ _
  have hcolumn : e.line.position - S.start e.line + S.prompt.length = S.column e.line := by
    rw [Setup.column, Setup.start]
    omega
  rw [State.refreshSingleLine, h.prompt, h.cols, h.len, h.pos, scroll_eq hwide, Nat.zero_add]
  simp only
  rw [show S.prompt.length + e.line.position + 1 - S.cols = S.start e.line from rfl, hwindow, hcolumn]
  rfl

theorem refreshLine_eq (h : Edits S l e) :
    l.refreshLine = .call (.write (S.picture e.line)) fun _ => .ret l := by
  rw [State.refreshLine, refreshSingleLine_eq h]
  rfl

/-! ### On the terminal -/

variable {σ : Type*} {T : Terminal σ} {s : σ} {z : Cursor Byte}

/-- A refresh writes the row anew. -/
theorem refreshText_eq (prompt shown : Text) (column : ℕ) : State.refreshText prompt shown column =
    [0x0d] ++ (prompt ++ shown) ++ eraseRight ++ [0x0d] ++ forward column := by
  rw [State.refreshText, State.decimal]
  simp only [List.append_assoc]
  rfl

/-- The terminal shows the line, with the cursor in it. -/
def Setup.Shows (S : Setup) (T : Terminal σ) (s : σ) (z : Cursor Byte) : Prop :=
  T.Shows S.cols s (S.prompt ++ S.window z) (S.column z)

/-- What a refresh leaves on the row, whatever was there. -/
theorem Setup.shows_picture (hT : T.Obeys S.cols) (hs : T.Ground s) (hnonempty : S.prompt ≠ [])
    (hprompt : ∀ c ∈ S.prompt, printable c = true) (hz : ∀ c ∈ z.text, printable c = true) :
    S.Shows T (T.write s (S.picture z)) z := by
  obtain ⟨hfits, hcolumn, hbehind⟩ := S.window_fits z
  have hpos := List.length_pos_iff.mpr hnonempty
  have htext : ∀ c ∈ S.prompt ++ S.window z, printable c = true := fun c hc =>
    (List.mem_append.mp hc).elim (hprompt c)
      (fun hw => hz c (List.mem_of_mem_drop (List.mem_of_mem_take hw)))
  rw [Setup.Shows, Setup.picture, refreshText_eq]
  exact hT.rewrite hs htext hfits (by omega) hcolumn

/-- One character behind a short line is written where a refresh would write it. -/
theorem Setup.shows_insert (hT : T.Obeys S.cols) (h : S.Shows T s z) (hafter : z.after = []) {c : Byte}
    (hc : printable c = true) (hshort : S.prompt.length + (z.insert c).text.length < S.cols) :
    S.Shows T (T.write s [c]) (z.insert c) := by
  have hinsert : (z.insert c).text = z.text ++ [c] := by
    simp [Cursor.insert, Cursor.text, hafter]
  have hposition : z.position = z.text.length := by
    rw [z.text_length, hafter]
    rfl
  rw [hinsert, List.length_append, List.length_singleton] at hshort
  obtain ⟨hwindow, hcolumn⟩ := S.window_short (z := z) (by omega)
  obtain ⟨hwindow', hcolumn'⟩ := S.window_short (z := z.insert c)
    (by rw [hinsert, List.length_append, List.length_singleton]; omega)
  have hend : S.column z = (S.prompt ++ z.text).length := by
    rw [hcolumn, hposition, List.length_append]
  rw [Setup.Shows, hwindow, hend] at h
  have hroom : (S.prompt ++ z.text).length + 1 < S.cols := by
    rw [List.length_append]
    omega
  have hshows := h.write_printable hT (u := [c]) (fun d hd => by rwa [List.mem_singleton.mp hd])
    (Nat.le_of_lt hroom) (by omega)
  rw [Setup.Shows, hwindow', hcolumn', hinsert, ← List.append_assoc]
  have hplace : S.prompt.length + (z.insert c).position = (S.prompt ++ z.text ++ [c]).length := by
    rw [List.length_append, List.length_append, List.length_singleton, ← hposition]
    rfl
  rwa [hplace]

end M3Dev.Linenoise
