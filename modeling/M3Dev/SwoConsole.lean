import M3Dev.Buffer
import M3Dev.SwoDecoder
import Mathlib.Data.List.DropRight

/-! The console of the serial wire viewer: the characters of channel 0 gathered into lines and
printed. -/
namespace M3Dev.Swo

/-- `console_data` and `console_ptr`. -/
structure Console where
  data : ℕ → Byte
  ptr : ℕ

def console0 : Console where
  data _ := 0
  ptr := 0

/-- A store to `console_data[i]`, of 256 characters. -/
def Console.store (c : Console) (i : ℕ) (v : Byte) : Except Stop Console :=
  if i < 256 then .ok { c with data := Function.update c.data i v } else .error .outOfBounds

/-- The string in `console_data`. -/
def Console.string (c : Console) : List Byte := text (Buffer.get c.data 0 256)

/-- What a printed character comes from. -/
inductive Part where
  | format
  | string
  deriving DecidableEq, Repr

/-- `xprintf` of a format with one `%s`: `vsnprintf` into `line[256]`, and the line written. -/
def xprintf (before s after : List Byte) : List (Part × Byte) :=
  (before.map (Prod.mk Part.format) ++ s.map (Prod.mk Part.string) ++
    after.map (Prod.mk Part.format)).take 255

/-- "[remote] " -/
def remote : List Byte := [0x5b, 0x72, 0x65, 0x6d, 0x6f, 0x74, 0x65, 0x5d, 0x20]

/-- The console afterwards, and the line printed. -/
def handleSwvSrc (c : Console) (id val : Word) : Except Stop (Console × List (Part × Byte)) :=
  if id = 0 then do
    let c ← c.store c.ptr (val.setWidth 8)
    let c : Console := { c with ptr := c.ptr + 1 }
    if val = 0x0a then do
      let c ← c.store c.ptr 0
      pure ({ c with ptr := 0 }, xprintf remote c.string [])
    else if c.ptr = 254 then do
      let c ← c.store c.ptr 0
      pure (c, xprintf remote c.string [0x0a])
    else pure (c, [])
  else pure (c, [])

/-! ### A run of the decoder's calls -/

/-- The console, and the values delivered to channel 0, each with the line printed for it. -/
structure Heard where
  console : Console
  log : List (Word × List (Part × Byte))

/-- A call of the decoder's; nothing is printed of protocol packets. -/
def hear (s : Heard) : SwvCall → Except Stop Heard
  | .src id val _ => do
    let r ← handleSwvSrc s.console id val
    pure ⟨r.1, if id = 0 then s.log ++ [(val, r.2)] else s.log⟩
  | .proto _ => .ok s

def hearAll (calls : List SwvCall) : Except Stop Heard := calls.foldlM hear ⟨console0, []⟩

/-- The values for channel 0. -/
def channel0 (calls : List SwvCall) : List Word :=
  calls.filterMap fun
    | .src id val _ => if id = 0 then some val else none
    | .proto _ => none

/-- The text printed, the prefixes and the added line breaks aside. -/
def printedText (log : List (Word × List (Part × Byte))) : List Byte :=
  (log.flatMap Prod.snd).filterMap fun p => if p.1 = .string then some p.2 else none

/-- The values delivered up to the last for which a line was printed. -/
def flushed (log : List (Word × List (Part × Byte))) : List Word :=
  (log.rdropWhile fun e => e.2 = []).map Prod.fst

def chars (vs : List Word) : List Byte := vs.map (BitVec.setWidth 8)

/-- The text printed is what was delivered up to the last flush. -/
def Heard.Printed (s : Heard) : Prop := printedText s.log = chars (flushed s.log)

/-- All along the calls every store is inside the array, and what is delivered up to a flush is
printed. -/
def PrintsDelivered (calls : List SwvCall) : Prop :=
  ∀ before, before <+: calls → ∃ s, hearAll before = .ok s ∧ s.Printed

/-- The values since the last newline. -/
def sinceNewline (vs : List Word) : List Word := vs.rtakeWhile fun v => v ≠ 0x0a

/-- At most 253 values come without a newline, and at most 245 before one. -/
def LinesFit (vs : List Word) : Prop :=
  ∀ before, before <+: vs → (sinceNewline before).length ≤ 253 ∧
    (before ++ [0x0a] <+: vs → (sinceNewline before).length ≤ 245)

/-! ### Lines -/

theorem sinceNewline_newline (vs : List Word) : sinceNewline (vs ++ [0x0a]) = [] := by
  simp [sinceNewline]

theorem sinceNewline_snoc (vs : List Word) {v : Word} (hv : v ≠ 0x0a) :
    sinceNewline (vs ++ [v]) = sinceNewline vs ++ [v] :=
  List.rtakeWhile_concat_pos _ _ _ (decide_eq_true hv)

theorem linesFit_snoc (vs : List Word) (v : Word) : LinesFit (vs ++ [v]) ↔
    LinesFit vs ∧ (sinceNewline (vs ++ [v])).length ≤ 253 ∧
      (v = 0x0a → (sinceNewline vs).length ≤ 245) := by
  constructor
  · intro h
    have hold (before : List Word) (hb : before <+: vs) : before <+: vs ++ [v] :=
      hb.trans (List.prefix_append vs [v])
    refine ⟨fun before hb => ?_, (h _ List.prefix_rfl).1, fun hv => ?_⟩
    · exact ⟨(h before (hold before hb)).1, fun hn => (h before (hold before hb)).2 (hold _ hn)⟩
    · exact (h vs (hold vs List.prefix_rfl)).2 (hv ▸ List.prefix_rfl)
  · rintro ⟨hvs, hlast, hline⟩ before hb
    rcases List.prefix_concat_iff.mp hb with rfl | hb
    · refine ⟨hlast, fun hn => ?_⟩
      have hlen := hn.length_le
      simp at hlen
    · refine ⟨(hvs before hb).1, fun hn => ?_⟩
      rcases List.prefix_concat_iff.mp hn with heq | hn
      · obtain ⟨rfl, hv⟩ := List.append_inj' heq rfl
        exact hline (List.singleton_inj.mp hv).symm
      · exact (hvs before hb).2 hn

/-! ### What is printed -/

theorem string_eq {c : Console} {n : ℕ} (hn : n < 256) (hend : c.data n = 0)
    (hchars : ∀ b ∈ Buffer.get c.data 0 n, b ≠ 0) : c.string = Buffer.get c.data 0 n := by
  have hsplit : Buffer.get c.data 0 256 =
      Buffer.get c.data 0 n ++ 0 :: (Buffer.get c.data 0 256).drop (n + 1) := by
    have hdrop : (Buffer.get c.data 0 256).drop n =
        0 :: (Buffer.get c.data 0 256).drop (n + 1) := by
      rw [List.drop_eq_getElem_cons (by simpa using hn), Buffer.get_getElem, Nat.zero_add, hend]
    rw [← hdrop, ← Buffer.get_take (Nat.le_of_lt hn), List.take_append_drop]
  rw [Console.string, hsplit, text, List.takeWhile_append_of_pos (by simpa using hchars)]
  simp

/-- Of what the format's `%s` stands for, as much as the line has room for is printed. -/
theorem xprintf_string (before s after : List Byte) :
    (xprintf before s after).filterMap (fun p => if p.1 = .string then some p.2 else none) =
      s.take (255 - before.length) := by
  have hformat (bs : List Byte) : (bs.map (Prod.mk Part.format)).filterMap
      (fun p => if p.1 = .string then some p.2 else none) = [] := by
    simp
  have hstring (bs : List Byte) : (bs.map (Prod.mk Part.string)).filterMap
      (fun p => if p.1 = .string then some p.2 else none) = bs := by
    rw [List.filterMap_map]
    exact List.filterMap_some
  rw [xprintf, List.take_append, List.take_append, List.filterMap_append, List.filterMap_append,
    ← List.map_take, ← List.map_take, ← List.map_take, hformat, hformat, hstring,
    List.length_map, List.nil_append, List.append_nil]

theorem xprintf_remote (s after : List Byte) : xprintf remote s after ≠ [] := by
  simp [xprintf, remote]

theorem printedText_snoc (log : List (Word × List (Part × Byte))) (v : Word) (s after : List Byte) :
    printedText (log ++ [(v, xprintf remote s after)]) = printedText log ++ s.take 246 := by
  rw [printedText, List.flatMap_append, List.filterMap_append, List.flatMap_singleton,
    xprintf_string]
  rfl

theorem flushed_snoc {log : List (Word × List (Part × Byte))} (v : Word)
    {line : List (Part × Byte)} (hline : line ≠ []) :
    flushed (log ++ [(v, line)]) = log.map Prod.fst ++ [v] := by
  rw [flushed, List.rdropWhile_concat_neg _ _ _ (by simpa using hline), List.map_append]
  rfl

theorem flushed_silent (log : List (Word × List (Part × Byte))) (v : Word) :
    flushed (log ++ [(v, [])]) = flushed log := by
  rw [flushed, List.rdropWhile_concat_pos _ _ _ (by simp)]
  rfl

/-! ### The console after values with lines that fit -/

/-- What came since the last newline is in the array, and all before it has been printed. -/
structure Gathered (s : Heard) (vs : List Word) : Prop where
  line : Buffer.get s.console.data 0 s.console.ptr = chars (sinceNewline vs)
  logged : s.log.map Prod.fst = vs
  settled : flushed s.log ++ sinceNewline vs = vs
  printed : s.Printed

variable {s : Heard} {vs : List Word} {v : Word}

theorem Gathered.ptr (h : Gathered s vs) : s.console.ptr = (sinceNewline vs).length := by
  calc
    s.console.ptr = (Buffer.get s.console.data 0 s.console.ptr).length := (Buffer.get_length ..).symm
    _ = (chars (sinceNewline vs)).length := by rw [h.line]
    _ = (sinceNewline vs).length := List.length_map ..

/-- The array with one more character and a NUL behind it. -/
theorem Gathered.string (h : Gathered s vs) (hlen : (sinceNewline vs).length < 255)
    (hchars : ∀ v ∈ vs, v.setWidth 8 ≠ (0 : Byte)) (hv : v.setWidth 8 ≠ (0 : Byte)) (p : ℕ) :
    ({ data := Function.update (Function.update s.console.data s.console.ptr (v.setWidth 8))
        (s.console.ptr + 1) 0, ptr := p } : Console).string = chars (sinceNewline vs) ++ [v.setWidth 8] := by
  have hptr := h.ptr
  have hget : Buffer.get (Function.update (Function.update s.console.data s.console.ptr
      (v.setWidth 8)) (s.console.ptr + 1) 0) 0 (s.console.ptr + 1) =
        chars (sinceNewline vs) ++ [v.setWidth 8] := by
    have hend := Buffer.get_update_end s.console.data 0 s.console.ptr (v.setWidth 8)
    rw [Nat.zero_add] at hend
    rw [Buffer.get_update_behind (Nat.le_of_eq (Nat.zero_add _)), hend, h.line]
  rw [string_eq (n := s.console.ptr + 1) (by omega) (Function.update_self ..), hget]
  rw [hget]
  intro b hb
  rcases List.mem_append.mp hb with hb | hb
  · obtain ⟨w, hw, rfl⟩ := List.mem_map.mp hb
    exact hchars w ((List.rtakeWhile_suffix _ vs).subset hw)
  · exact List.mem_singleton.mp hb ▸ hv

/-- The array after the stores for a character that a line ends with. -/
def Console.closed (c : Console) (v : Word) : ℕ → Byte :=
  Function.update (Function.update c.data c.ptr (v.setWidth 8)) (c.ptr + 1) 0

theorem handleSwvSrc_newline {c : Console} (hptr : c.ptr < 255) :
    handleSwvSrc c 0 0x0a = .ok (⟨c.closed 0x0a, 0⟩,
      xprintf remote (Console.string ⟨c.closed 0x0a, c.ptr + 1⟩) []) := by
  rw [handleSwvSrc, if_pos rfl, Console.store, if_pos (Nat.lt_succ_of_lt hptr), ok_bind]
  dsimp only
  rw [if_pos rfl, Console.store, if_pos (Nat.succ_lt_succ hptr)]
  rfl

theorem handleSwvSrc_full {c : Console} (hptr : c.ptr = 253) (hv : v ≠ 0x0a) :
    handleSwvSrc c 0 v = .ok (⟨c.closed v, c.ptr + 1⟩,
      xprintf remote (Console.string ⟨c.closed v, c.ptr + 1⟩) [0x0a]) := by
  rw [handleSwvSrc, if_pos rfl, Console.store, if_pos (by omega), ok_bind]
  dsimp only
  rw [if_neg hv, if_pos (by omega), Console.store, if_pos (by omega)]
  rfl

theorem handleSwvSrc_char {c : Console} (hptr : c.ptr < 253) (hv : v ≠ 0x0a) :
    handleSwvSrc c 0 v =
      .ok (⟨Function.update c.data c.ptr (v.setWidth 8), c.ptr + 1⟩, []) := by
  rw [handleSwvSrc, if_pos rfl, Console.store, if_pos (by omega), ok_bind]
  dsimp only
  rw [if_neg hv, if_neg (by omega)]
  rfl

theorem hear_src {r : Console × List (Part × Byte)} (n : ℕ)
    (h : handleSwvSrc s.console 0 v = .ok r) :
    hear s (.src 0 v n) = .ok ⟨r.1, s.log ++ [(v, r.2)]⟩ := by
  rw [hear, h]
  rfl

/-- Where a line was printed for a value, that was all of what came since the last newline. -/
theorem Gathered.printed_iff (h : Gathered s vs) (c : Console) (after : List Byte) :
    (⟨c, s.log ++ [(v, xprintf remote (chars (sinceNewline vs) ++ [v.setWidth 8]) after)]⟩ :
      Heard).Printed ↔ (sinceNewline vs).length ≤ 245 := by
  have hall : chars (flushed (s.log ++
      [(v, xprintf remote (chars (sinceNewline vs) ++ [v.setWidth 8]) after)])) =
        chars (flushed s.log) ++ (chars (sinceNewline vs) ++ [v.setWidth 8]) := by
    rw [flushed_snoc v (xprintf_remote _ _), h.logged]
    nth_rewrite 1 [← h.settled]
    simp only [chars, List.map_append, List.append_assoc, List.map_cons, List.map_nil]
  rw [Heard.Printed, hall, printedText_snoc, h.printed, List.append_cancel_left_eq,
    List.take_eq_self_iff]
  simp only [List.length_append, chars, List.length_map, List.length_singleton]
  omega

/-- A newline flushes the line. -/
theorem Gathered.newline (h : Gathered s vs) (hlen : (sinceNewline vs).length ≤ 253)
    (hchars : ∀ v ∈ vs, v.setWidth 8 ≠ (0 : Byte)) (n : ℕ) :
    ∃ s', hear s (.src 0 0x0a n) = .ok s' ∧
      (s'.Printed ↔ (sinceNewline vs).length ≤ 245) ∧ (s'.Printed → Gathered s' (vs ++ [0x0a])) := by
  have hptr : s.console.ptr < 255 := by
    rw [h.ptr]
    omega
  have hear' := hear_src n (handleSwvSrc_newline hptr)
  rw [Console.closed, h.string (by omega) hchars (by decide)] at hear'
  refine ⟨_, hear', h.printed_iff _ _, fun hprinted => ?_⟩
  constructor
  · rw [sinceNewline_newline]
    rfl
  · rw [List.map_append, h.logged]
    rfl
  · rw [flushed_snoc _ (xprintf_remote _ _), h.logged, sinceNewline_newline, List.append_nil]
  · exact hprinted

/-- A line without a newline is printed when 254 characters of it are there, but not all of it. -/
theorem Gathered.full (h : Gathered s vs) (hlen : (sinceNewline vs).length = 253) (hv : v ≠ 0x0a)
    (hchars : ∀ v ∈ vs, v.setWidth 8 ≠ (0 : Byte)) (hchar : v.setWidth 8 ≠ (0 : Byte)) (n : ℕ) :
    ∃ s', hear s (.src 0 v n) = .ok s' ∧ ¬ s'.Printed := by
  have hear' := hear_src n (handleSwvSrc_full (h.ptr.trans hlen) hv)
  rw [Console.closed, h.string (by omega) hchars hchar] at hear'
  refine ⟨_, hear', fun hprinted => ?_⟩
  have hfits := (h.printed_iff _ _).mp hprinted
  omega

theorem Gathered.char (h : Gathered s vs) (hlen : (sinceNewline vs).length < 253) (hv : v ≠ 0x0a)
    (n : ℕ) : ∃ s', hear s (.src 0 v n) = .ok s' ∧ Gathered s' (vs ++ [v]) := by
  have hptr : s.console.ptr < 253 := h.ptr ▸ hlen
  refine ⟨_, hear_src n (handleSwvSrc_char hptr hv), ?_⟩
  constructor
  · have hend := Buffer.get_update_end s.console.data 0 s.console.ptr
      (v.setWidth 8)
    rw [Nat.zero_add] at hend
    rw [sinceNewline_snoc vs hv, chars, List.map_append, ← chars, ← h.line]
    exact hend
  · rw [List.map_append, h.logged]
    rfl
  · rw [flushed_silent, sinceNewline_snoc vs hv, ← List.append_assoc, h.settled]
  · have hsilent : printedText (s.log ++ [(v, [])]) = printedText s.log := by
      rw [printedText, List.flatMap_append]
      simp [printedText]
    rw [Heard.Printed, flushed_silent, hsilent, h.printed]

/-! ### Runs -/

theorem hearAll_snoc (calls : List SwvCall) (x : SwvCall) :
    hearAll (calls ++ [x]) = hearAll calls >>= fun s => hear s x := by
  simp [hearAll]

theorem printsDelivered_snoc (calls : List SwvCall) (x : SwvCall) :
    PrintsDelivered (calls ++ [x]) ↔
      PrintsDelivered calls ∧ ∃ s, hearAll (calls ++ [x]) = .ok s ∧ s.Printed := by
  constructor
  · intro h
    exact ⟨fun before hb => h before (hb.trans (List.prefix_append calls [x])),
      h _ List.prefix_rfl⟩
  · rintro ⟨hcalls, hlast⟩ before hb
    rcases List.prefix_concat_iff.mp hb with rfl | hb
    · exact hlast
    · exact hcalls before hb

theorem channel0_src (id val : Word) (n : ℕ) :
    channel0 [.src id val n] = if id = 0 then [val] else [] := by
  unfold channel0
  by_cases hid : id = 0
  · rw [if_pos hid]
    exact List.filterMap_cons_some (if_pos hid)
  · rw [if_neg hid]
    exact List.filterMap_cons_none (if_neg hid)

/-- A value for another channel, or a protocol packet, leaves the console alone. -/
theorem hear_other (s : Heard) {x : SwvCall} (hx : channel0 [x] = []) : hear s x = .ok s := by
  cases x with
  | proto data => rfl
  | src id val n =>
    have hid : id ≠ 0 := by
      intro hid
      rw [channel0_src, if_pos hid] at hx
      exact absurd hx (by simp)
    rw [hear, handleSwvSrc, if_neg hid]
    simp only [if_neg hid]
    rfl

/-- The next value fits its line, and the console goes on, or what is delivered is not printed. -/
theorem Gathered.value (h : Gathered s vs) (hfit : (sinceNewline vs).length ≤ 253)
    (hchars : ∀ v ∈ vs, v.setWidth 8 ≠ (0 : Byte)) (hchar : v.setWidth 8 ≠ (0 : Byte)) (n : ℕ) :
    ∃ s', hear s (.src 0 v n) = .ok s' ∧
      (s'.Printed ↔ (sinceNewline (vs ++ [v])).length ≤ 253 ∧
        (v = 0x0a → (sinceNewline vs).length ≤ 245)) ∧
      (s'.Printed → Gathered s' (vs ++ [v])) := by
  by_cases hv : v = 0x0a
  · subst hv
    obtain ⟨s', hear', hiff, hgathered⟩ := h.newline hfit hchars n
    refine ⟨s', hear', ?_, hgathered⟩
    rw [hiff, sinceNewline_newline]
    simp
  · have hlen : (sinceNewline (vs ++ [v])).length = (sinceNewline vs).length + 1 := by
      rw [sinceNewline_snoc vs hv, List.length_append, List.length_singleton]
    rcases Nat.lt_or_eq_of_le hfit with hlt | hfull
    · obtain ⟨s', hear', hgathered⟩ := h.char hlt hv n
      refine ⟨s', hear', ⟨fun _ => ⟨?_, fun hn => absurd hn hv⟩, fun _ => hgathered.printed⟩,
        fun _ => hgathered⟩
      omega
    · obtain ⟨s', hear', hlost⟩ := h.full hfull hv hchars hchar n
      refine ⟨s', hear', ⟨fun hp => absurd hp hlost, fun hp => ?_⟩, fun hp => absurd hp hlost⟩
      omega

theorem gathered_init : Gathered ⟨console0, []⟩ [] := ⟨rfl, rfl, rfl, rfl⟩

/-- Where all has been printed so far, the console is as the values have it; and it has been exactly
where the lines fit. -/
theorem hearAll_tracks (calls : List SwvCall)
    (hchars : ∀ v ∈ channel0 calls, v.setWidth 8 ≠ (0 : Byte)) :
    (PrintsDelivered calls ↔ LinesFit (channel0 calls)) ∧
      (LinesFit (channel0 calls) → ∃ s, hearAll calls = .ok s ∧ Gathered s (channel0 calls)) := by
  -- from the end, as the console is after each call
  induction calls using List.reverseRecOn with
  | nil =>
    have hfit : LinesFit [] := fun before hb => by
      obtain rfl := List.prefix_nil.mp hb
      exact ⟨by decide, fun _ => by decide⟩
    refine ⟨⟨fun _ => hfit, fun _ before hb => ?_⟩, fun _ => ⟨_, rfl, gathered_init⟩⟩
    obtain rfl := List.prefix_nil.mp hb
    exact ⟨_, rfl, rfl⟩
  | append_singleton calls x ih =>
    have hsplit : channel0 (calls ++ [x]) = channel0 calls ++ channel0 [x] := List.filterMap_append
    rw [hsplit] at hchars ⊢
    have hold := fun v hv => hchars v (List.mem_append_left _ hv)
    obtain ⟨hiff, hgathered⟩ := ih hold
    rw [printsDelivered_snoc, hiff, hearAll_snoc]
    cases hx : channel0 [x] with
    | nil =>
      -- nothing for the console
      rw [List.append_nil]
      have hsame (hfit : LinesFit (channel0 calls)) :
          ∃ s, (hearAll calls >>= fun s => hear s x) = .ok s ∧ Gathered s (channel0 calls) := by
        obtain ⟨s, hs, hg⟩ := hgathered hfit
        exact ⟨s, by rw [hs, ok_bind, hear_other s hx], hg⟩
      refine ⟨⟨And.left, fun hfit => ⟨hfit, ?_⟩⟩, hsame⟩
      obtain ⟨s, hs, hg⟩ := hsame hfit
      exact ⟨s, hs, hg.printed⟩
    | cons v rest =>
      obtain ⟨n, rfl, rfl⟩ : ∃ n, x = .src 0 v n ∧ rest = [] := by
        cases x with
        | proto data => simp [channel0] at hx
        | src id val n =>
          by_cases hid : id = 0
          · rw [channel0_src, if_pos hid] at hx
            obtain ⟨rfl, rfl⟩ := List.cons.inj hx
            exact ⟨n, by rw [hid], rfl⟩
          · rw [channel0_src, if_neg hid] at hx
            exact absurd hx (by simp)
      rw [hx] at hchars
      have hchar := hchars v (List.mem_append_right _ (List.mem_singleton_self v))
      rw [linesFit_snoc]
      constructor
      · refine and_congr_right fun hfit => ?_
        obtain ⟨s, hs, hg⟩ := hgathered hfit
        obtain ⟨s', hear', hprinted, _⟩ := hg.value (hfit _ List.prefix_rfl).1 hold hchar n
        rw [hs, ok_bind, hear', ← hprinted]
        simp
      · rintro ⟨hfit, hnext⟩
        obtain ⟨s, hs, hg⟩ := hgathered hfit
        obtain ⟨s', hear', hprinted, hg'⟩ := hg.value (hfit _ List.prefix_rfl).1 hold hchar n
        exact ⟨s', by rw [hs, ok_bind, hear'], hg' (hprinted.mpr hnext)⟩

/-- What channel 0 delivers is printed, each character once and in order, exactly where the lines
are short enough for `line` and for the flush at 254. -/
theorem console_prints_iff (calls : List SwvCall)
    (hchars : ∀ v ∈ channel0 calls, v.setWidth 8 ≠ (0 : Byte)) :
    PrintsDelivered calls ↔ LinesFit (channel0 calls) :=
  (hearAll_tracks calls hchars).1

theorem console_prints_iff_hi :
    (∀ v ∈ channel0 [.src 0 0x68 1, .src 3 0 4, .proto [0x70], .src 0 0x0a 1],
      v.setWidth 8 ≠ (0 : Byte)) ∧
    (PrintsDelivered [.src 0 0x68 1, .src 3 0 4, .proto [0x70], .src 0 0x0a 1] ↔
      LinesFit (channel0 [.src 0 0x68 1, .src 3 0 4, .proto [0x70], .src 0 0x0a 1])) := by
  have hvals : channel0 [.src 0 0x68 1, .src 3 0 4, .proto [0x70], .src 0 0x0a 1] = [0x68, 0x0a] :=
    rfl
  have hchars : ∀ v ∈ channel0 [.src 0 0x68 1, .src 3 0 4, .proto [0x70], .src 0 0x0a 1],
      v.setWidth 8 ≠ (0 : Byte) := by
    rw [hvals]
    intro v hv
    rcases List.mem_cons.mp hv with rfl | hv
    · decide
    · rw [List.mem_singleton.mp hv]
      decide
  exact ⟨hchars, console_prints_iff _ hchars⟩

/-- Without a newline the index is never reset. -/
theorem hear_unbroken (hv : v ≠ 0x0a) (hptr : s.console.ptr < 256) (n : ℕ) :
    ∃ s', hear s (.src 0 v n) = .ok s' ∧ s'.console.ptr = s.console.ptr + 1 := by
  have hstore (c : Console) (i : ℕ) (b : Byte) (hi : i < 256) :
      c.store i b = .ok { c with data := Function.update c.data i b } := if_pos hi
  rw [hear, handleSwvSrc, if_pos rfl, hstore _ _ _ hptr, ok_bind]
  dsimp only
  rw [if_neg hv]
  by_cases hfull : s.console.ptr + 1 = 254
  · rw [if_pos hfull, hstore _ _ _ (by omega)]
    exact ⟨_, rfl, rfl⟩
  · rw [if_neg hfull]
    exact ⟨_, rfl, rfl⟩

theorem hearAll_unbroken (hv : v ≠ 0x0a) {k : ℕ} (hk : k ≤ 256) :
    ∃ s, hearAll (List.replicate k (.src 0 v 1)) = .ok s ∧ s.console.ptr = k := by
  induction k with
  | zero => exact ⟨_, rfl, rfl⟩
  | succ k ih =>
    obtain ⟨s, hs, hptr⟩ := ih (Nat.le_of_succ_le hk)
    obtain ⟨s', hear', hptr'⟩ := hear_unbroken hv (s := s) (by omega) 1
    exact ⟨s', by rw [List.replicate_succ', hearAll_snoc, hs, ok_bind, hear'], by rw [hptr', hptr]⟩

/-- The 257th character without a newline is stored behind the array. -/
theorem console_overrun :
    (∀ v ∈ channel0 (List.replicate 257 (.src 0 0x61 1)), v.setWidth 8 ≠ (0 : Byte)) ∧
    hearAll (List.replicate 257 (.src 0 0x61 1)) = .error .outOfBounds ∧
    ¬ PrintsDelivered (List.replicate 257 (.src 0 0x61 1)) := by
  have hstop : hearAll (List.replicate 257 (.src 0 0x61 1)) = .error .outOfBounds := by
    obtain ⟨s, hs, hptr⟩ := hearAll_unbroken (v := 0x61) (by decide) (Nat.le_refl 256)
    rw [List.replicate_succ' (n := 256), hearAll_snoc, hs, ok_bind, hear, handleSwvSrc, if_pos rfl,
      Console.store, if_neg (by omega)]
    rfl
  refine ⟨fun v hv => ?_, hstop, fun hprints => ?_⟩
  · have hvals : channel0 (List.replicate 257 (.src 0 0x61 1)) = List.replicate 257 0x61 :=
      List.filterMap_replicate_of_some rfl
    rw [hvals] at hv
    rw [List.eq_of_mem_replicate hv]
    decide
  · obtain ⟨s, hs, _⟩ := hprints _ List.prefix_rfl
    rw [hstop] at hs
    exact absurd hs (by simp)

end M3Dev.Swo
