import M3Dev.UsbConsole
import M3Dev.CountedRing
import Mathlib.Order.Basic
import Mathlib.Data.Nat.Basic

/-! Runs of the USB console: which bytes go out. -/
namespace M3Dev.UsbConsole
open EventSystem CountedRing

/-- After `head` bytes were stored and `tail` of them are done with. -/
structure Counts (uc : Console) (put : List Byte) (tail head : ℕ) : Prop where
  headAt : uc.outHead = BitVec.ofNat 32 head
  tailAt : uc.outTail = BitVec.ofNat 32 tail
  ring : Holds 256 uc.outData put tail head

variable {uc : Console} {put : List Byte} {tail head : ℕ} {l : Locals} {s s' : State}

theorem Counts.used (h : Counts uc put tail head) :
    (uc.outHead - uc.outTail).toNat = head - tail := by
  have hle := h.ring.le
  have hroom := h.ring.room
  rw [h.headAt, h.tailAt, BitVec.toNat_sub, BitVec.toNat_ofNat, BitVec.toNat_ofNat]
  omega

theorem Counts.used_eq (h : Counts uc put tail head) {n : ℕ} (hn : n < 2 ^ 32) :
    uc.outHead - uc.outTail = BitVec.ofNat 32 n ↔ head - tail = n := by
  rw [← h.used, ← BitVec.toNat_inj, BitVec.toNat_ofNat, Nat.mod_eq_of_lt hn]

theorem toNat_and_mask (n : ℕ) : (BitVec.ofNat 32 n &&& (ucOutSz - 1)).toNat = n % 256 := by
  have hmask : (ucOutSz - 1 : Word).toNat = 2 ^ 8 - 1 := rfl
  rw [BitVec.toNat_and, hmask, Nat.and_two_pow_sub_one_eq_mod, BitVec.toNat_ofNat]
  omega

/-- The bytes `uc_write` is to pass on are in the ring, and in a row. -/
structure Fits (tail head : ℕ) (l : Locals) : Prop where
  len : l.len.toNat ≤ head - tail
  pos : l.len ≠ 0 → l.pos.toNat = tail % 256
  row : l.len ≠ 0 → l.len.toNat ≤ 256 - tail % 256

/-- What holds before a statement of `uc_write`, and outside of it. -/
def LineHolds (put : List Byte) (tail head : ℕ) (l : Locals) (uc : Console) : Option WriteLine → Prop
  | none | some .pos | some .len => uc.irq = true ∧ uc.written = put.take tail
  | some .rem => uc.irq = true ∧ uc.written = put.take tail ∧ l.len.toNat ≤ head - tail ∧
      (l.len ≠ 0 → l.pos.toNat = tail % 256)
  | some .clipRem => uc.irq = true ∧ uc.written = put.take tail ∧ l.len.toNat ≤ head - tail ∧
      (l.len ≠ 0 → l.pos.toNat = tail % 256) ∧ (l.len ≠ 0 → l.rem.toNat = 256 - tail % 256)
  | some .clip64 | some .disable => uc.irq = true ∧ uc.written = put.take tail ∧ Fits tail head l
  | some .busy | some .write => uc.irq = false ∧ uc.written = put.take tail ∧ Fits tail head l
  | some .enable => uc.irq = false ∧ uc.written = put.take (tail + l.len.toNat) ∧ l.len.toNat ≤ head - tail
  | some .tail => uc.irq = true ∧ uc.written = put.take (tail + l.len.toNat) ∧ l.len.toNat ≤ head - tail

theorem line_pos (hl : LineHolds put tail head l uc (some .pos)) :
    LineHolds put tail head (ucWriteLine .pos l uc).1 (ucWriteLine .pos l uc).2 (some .len) := hl

theorem line_len (hc : Counts uc put tail head) (hl : LineHolds put tail head l uc (some .len))
    (hpos : l.pos = uc.outTail &&& (ucOutSz - 1) ∨ uc.outHead = uc.outTail) :
    LineHolds put tail head (ucWriteLine .len l uc).1 (ucWriteLine .len l uc).2 (some .rem) := by
  refine ⟨hl.1, hl.2, hc.used.le, ?_⟩
  intro hne
  rcases hpos with hpos | hempty
  · show l.pos.toNat = tail % 256
    rw [hpos, hc.tailAt, toNat_and_mask]
  · have hzero : uc.outHead - uc.outTail = 0 := by rw [hempty, BitVec.sub_self]; rfl
    exact absurd hzero hne

theorem line_rem (hl : LineHolds put tail head l uc (some .rem)) :
    LineHolds put tail head (ucWriteLine .rem l uc).1 (ucWriteLine .rem l uc).2 (some .clipRem) := by
  obtain ⟨hirq, hwritten, hlen, hpos⟩ := hl
  refine ⟨hirq, hwritten, hlen, hpos, ?_⟩
  intro hne
  show (ucOutSz - l.pos).toNat = 256 - tail % 256
  have hat := hpos hne
  have hsize : (ucOutSz : Word).toNat = 256 := rfl
  have hle : l.pos ≤ ucOutSz := by
    rw [BitVec.le_def, hat, hsize]
    omega
  rw [BitVec.toNat_sub_of_le hle, hat, hsize]

theorem line_clipRem (hl : LineHolds put tail head l uc (some .clipRem)) :
    LineHolds put tail head (ucWriteLine .clipRem l uc).1 (ucWriteLine .clipRem l uc).2 (some .clip64) := by
  obtain ⟨hirq, hwritten, hlen, hpos, hrem⟩ := hl
  refine ⟨hirq, hwritten, ?_⟩
  by_cases hclip : l.rem < l.len
  · have hne : l.len ≠ 0 := by
      rintro hzero
      rw [hzero] at hclip
      exact absurd hclip BitVec.not_lt_zero
    have hlt : l.rem.toNat < l.len.toNat := BitVec.lt_def.mp hclip
    have heq : (ucWriteLine .clipRem l uc).1 = { l with len := l.rem } := by
      simp only [ucWriteLine, if_pos hclip]
    rw [heq]
    exact ⟨le_trans hlt.le hlen, fun _ => hpos hne, fun _ => (hrem hne).le⟩
  · have heq : (ucWriteLine .clipRem l uc).1 = l := by simp only [ucWriteLine, if_neg hclip]
    have hle : l.len.toNat ≤ l.rem.toNat := BitVec.le_def.mp (BitVec.not_lt.mp hclip)
    rw [heq]
    exact ⟨hlen, hpos, fun hne => hle.trans (hrem hne).le⟩

theorem line_clip64 (hl : LineHolds put tail head l uc (some .clip64)) :
    LineHolds put tail head (ucWriteLine .clip64 l uc).1 (ucWriteLine .clip64 l uc).2 (some .disable) := by
  obtain ⟨hirq, hwritten, hfits⟩ := hl
  refine ⟨hirq, hwritten, ?_⟩
  by_cases hclip : 64 < l.len
  · have hlt : 64 < l.len.toNat := BitVec.lt_def.mp hclip
    have hne : l.len ≠ 0 := by
      rintro hzero
      rw [hzero] at hlt
      exact absurd hlt (by decide)
    have heq : (ucWriteLine .clip64 l uc).1 = { l with len := 64 } := by
      simp only [ucWriteLine, if_pos hclip]
    rw [heq]
    exact ⟨hlt.le.trans hfits.len, fun _ => hfits.pos hne, fun _ => hlt.le.trans (hfits.row hne)⟩
  · have heq : (ucWriteLine .clip64 l uc).1 = l := by simp only [ucWriteLine, if_neg hclip]
    rw [heq]
    exact hfits

theorem block_eq (hc : Counts uc put tail head) (hfits : Fits tail head l) :
    block uc.outData l.pos.toNat l.len.toNat = (put.drop tail).take l.len.toNat := by
  by_cases hzero : l.len = 0
  · rw [hzero]
    rfl
  · rw [block, hfits.pos hzero]
    exact hc.ring.block hfits.len (hfits.row hzero)

theorem line_write (hc : Counts uc put tail head) (hl : LineHolds put tail head l uc (some .write)) :
    LineHolds put tail head (ucWriteLine .write l uc).1 (ucWriteLine .write l uc).2 (some .enable) := by
  obtain ⟨hirq, hwritten, hfits⟩ := hl
  refine ⟨hirq, ?_, hfits.len⟩
  show uc.written ++ block uc.outData l.pos.toNat l.len.toNat = put.take (tail + l.len.toNat)
  rw [block_eq hc hfits, hwritten, List.take_add]

theorem counts_tail (hc : Counts uc put tail head) (hl : LineHolds put tail head l uc (some .tail)) :
    Counts (ucWriteLine .tail l uc).2 put (tail + l.len.toNat) head := by
  refine ⟨hc.headAt, ?_, hc.ring.shrink hl.2.2⟩
  show uc.outTail + l.len = BitVec.ofNat 32 (tail + l.len.toNat)
  rw [hc.tailAt, BitVec.ofNat_add, BitVec.ofNat_toNat, BitVec.setWidth_eq]

/-- What a statement of `uc_write` preserves. `pos` has to be fresh still when `len` is computed. -/
theorem ucWriteLine_holds {line : WriteLine} (hc : Counts uc put tail head)
    (hl : LineHolds put tail head l uc (some line))
    (hpos : line = .len → l.pos = uc.outTail &&& (ucOutSz - 1) ∨ uc.outHead = uc.outTail) :
    ∃ tail', tail ≤ tail' ∧ Counts (ucWriteLine line l uc).2 put tail' head ∧
      LineHolds put tail' head (ucWriteLine line l uc).1 (ucWriteLine line l uc).2 line.next := by
  cases line with
  | pos => exact ⟨tail, le_rfl, hc, line_pos hl⟩
  | len => exact ⟨tail, le_rfl, hc, line_len hc hl (hpos rfl)⟩
  | rem => exact ⟨tail, le_rfl, hc, line_rem hl⟩
  | clipRem => exact ⟨tail, le_rfl, hc, line_clipRem hl⟩
  | clip64 => exact ⟨tail, le_rfl, hc, line_clip64 hl⟩
  | disable => exact ⟨tail, le_rfl, ⟨hc.headAt, hc.tailAt, hc.ring⟩, rfl, hl.2⟩
  | busy => exact ⟨tail, le_rfl, ⟨hc.headAt, hc.tailAt, hc.ring⟩, hl⟩
  | write => exact ⟨tail, le_rfl, ⟨hc.headAt, hc.tailAt, hc.ring⟩, line_write hc hl⟩
  | enable => exact ⟨tail, le_rfl, ⟨hc.headAt, hc.tailAt, hc.ring⟩, rfl, hl.2⟩
  | tail => exact ⟨tail + l.len.toNat, Nat.le_add_right _ _, counts_tail hc hl, hl.1, hl.2.1⟩

/-- Nothing is under way in `uc_write`, and every byte that went out is done with. -/
def Settled (uc : Console) (put : List Byte) (tail : ℕ) : Prop :=
  uc.irq = true ∧ uc.written = put.take tail

theorem ucWrite_holds (hc : Counts uc put tail head) (hs : Settled uc put tail) :
    ∃ tail', tail ≤ tail' ∧ Counts (ucWrite uc) put tail' head ∧ Settled (ucWrite uc) put tail' := by
  have start : LineHolds put tail head ⟨0, 0, 0⟩ uc (some .pos) := hs
  obtain ⟨t1, e1, c1, h1⟩ := ucWriteLine_holds hc start (fun h => by cases h)
  obtain ⟨t2, e2, c2, h2⟩ := ucWriteLine_holds c1 h1 (fun _ => .inl rfl)
  obtain ⟨t3, e3, c3, h3⟩ := ucWriteLine_holds c2 h2 (fun h => by cases h)
  obtain ⟨t4, e4, c4, h4⟩ := ucWriteLine_holds c3 h3 (fun h => by cases h)
  obtain ⟨t5, e5, c5, h5⟩ := ucWriteLine_holds c4 h4 (fun h => by cases h)
  obtain ⟨t6, e6, c6, h6⟩ := ucWriteLine_holds c5 h5 (fun h => by cases h)
  obtain ⟨t7, e7, c7, h7⟩ := ucWriteLine_holds c6 h6 (fun h => by cases h)
  obtain ⟨t8, e8, c8, h8⟩ := ucWriteLine_holds c7 h7 (fun h => by cases h)
  obtain ⟨t9, e9, c9, h9⟩ := ucWriteLine_holds c8 h8 (fun h => by cases h)
  obtain ⟨t10, e10, c10, h10⟩ := ucWriteLine_holds c9 h9 (fun h => by cases h)
  exact ⟨t10, by omega, c10, h10⟩

theorem handleEp1TxEmpty_holds (hc : Counts uc put tail head) (hs : Settled uc put tail) :
    ∃ tail', tail ≤ tail' ∧ Counts (handleEp1TxEmpty uc) put tail' head ∧
      Settled (handleEp1TxEmpty uc) put tail' := by
  have hidle : Counts { uc with outBusy := 0 } put tail head := ⟨hc.headAt, hc.tailAt, hc.ring⟩
  unfold handleEp1TxEmpty
  dsimp only
  split
  · exact ucWrite_holds hidle hs
  · exact ⟨tail, le_rfl, hidle, hs⟩

theorem handleUsbOnline_holds (yes : Bool) (hc : Counts uc put tail head) (hs : Settled uc put tail) :
    ∃ tail', tail ≤ tail' ∧ Counts (handleUsbOnline yes uc) put tail' head ∧
      Settled (handleUsbOnline yes uc) put tail' := by
  cases yes
  · exact ⟨tail, le_rfl, ⟨hc.headAt, hc.tailAt, hc.ring⟩, hs⟩
  · exact handleEp1TxEmpty_holds hc hs

/-- A handler that finds nothing to send touches `out_busy` only. -/
theorem handleUsbOnline_empty (yes : Bool) (hempty : yes = true → uc.outHead = uc.outTail) :
    ∃ busy, handleUsbOnline yes uc = { uc with outBusy := busy } := by
  cases yes
  · exact ⟨1, rfl⟩
  · have hzero : ¬ uc.outHead - uc.outTail ≠ 0 := by
      rw [hempty rfl, BitVec.sub_self]
      exact not_not.mpr rfl
    refine ⟨0, ?_⟩
    show handleEp1TxEmpty uc = _
    unfold handleEp1TxEmpty
    dsimp only
    rw [if_neg hzero]

/-! ### The main thread -/

/-- All bytes were stored but the one in hand. -/
def Called (put : List Byte) (head : ℕ) : Option Word → Prop
  | none => put.length = head
  | some c => put.length = head + 1 ∧ put[head]? = some (c.setWidth 8)

def MainHolds (s : State) (tail head : ℕ) : Prop :=
  match s.main with
  | .idle => Called s.put head none ∧ Settled s.uc s.put tail
  | .full c | .busy c => Called s.put head (some c) ∧ Settled s.uc s.put tail
  | .write caller line l => Called s.put head caller ∧ LineHolds s.put tail head l s.uc (some line)
  | .store c => Called s.put head (some c) ∧ Settled s.uc s.put tail ∧ head < tail + 256
  | .head => s.put.length = head + 1 ∧ s.put[head]? = some (s.uc.outData (head % 256)) ∧
      Settled s.uc s.put tail ∧ head < tail + 256

/-- The invariant of the runs. -/
def Inv (s : State) : Prop := ∃ tail head, Counts s.uc s.put tail head ∧ MainHolds s tail head

/-- No handler comes into the way of a `uc_write` of the main thread: none that has something to
send between its computation of `len` and its last statement, and none that leaves something
between its computation of `pos` and that of `len`. -/
def Clear (s : State) : Event → Prop
  | .main => ∀ caller l, s.main = .write caller .len l →
      l.pos = s.uc.outTail &&& (ucOutSz - 1) ∨ s.uc.outHead = s.uc.outTail
  | .txEmpty | .usbOnline true => ∀ caller line l, s.main = .write caller line l →
      line = .pos ∨ line = .len ∨ s.uc.outHead = s.uc.outTail
  | _ => True

theorem putc_holds (c : Word) (hI : Inv s) (h : step s (.putc c) = some s') : Inv s' := by
  obtain ⟨tail, head, hc, hm⟩ := hI
  obtain ⟨uc, main, put⟩ := s
  cases main with
  | idle =>
    obtain rfl := Option.some.inj h
    obtain ⟨hlen, hirq, hwritten⟩ := hm
    have hlen : put.length = head := hlen
    have hle := hc.ring.le
    refine ⟨tail, head, ⟨hc.headAt, hc.tailAt, hc.ring.append _⟩, ⟨?_, ?_⟩, hirq, ?_⟩
    · show (put ++ [c.setWidth 8]).length = head + 1
      rw [List.length_append, hlen]
      rfl
    · show (put ++ [c.setWidth 8])[head]? = some (c.setWidth 8)
      rw [← hlen, List.getElem?_concat_length]
    · show uc.written = (put ++ [c.setWidth 8]).take tail
      rw [List.take_append_of_le_length (by omega)]
      exact hwritten
  | full | busy | write | store | head => exact absurd h (by simp [step])

theorem printuEnd_holds (hI : Inv s) (h : step s .printuEnd = some s') : Inv s' := by
  obtain ⟨tail, head, hc, hm⟩ := hI
  obtain ⟨uc, main, put⟩ := s
  cases main with
  | idle =>
    simp only [step] at h
    split at h
    · obtain rfl := Option.some.inj h
      exact ⟨tail, head, hc, hm⟩
    · obtain rfl := Option.some.inj h
      exact ⟨tail, head, hc, hm⟩
  | full | busy | write | store | head => exact absurd h (by simp [step])

theorem main_holds (hI : Inv s) (hC : Clear s .main) (h : step s .main = some s') : Inv s' := by
  obtain ⟨tail, head, hc, hm⟩ := hI
  obtain ⟨uc, main, put⟩ := s
  cases main with
  | idle => exact absurd h (by simp [step, mainStep])
  | full c =>
    simp only [step, mainStep] at h
    split at h
    · obtain rfl := Option.some.inj h
      exact ⟨tail, head, hc, hm⟩
    · next hroom =>
      obtain rfl := Option.some.inj h
      have hused : head - tail ≠ 256 := by
        intro heq
        exact hroom ((hc.used_eq (by decide)).mpr heq)
      have hbound := hc.ring.room
      exact ⟨tail, head, hc, hm.1, hm.2, by omega⟩
  | busy c =>
    simp only [step, mainStep] at h
    split at h
    · obtain rfl := Option.some.inj h
      exact ⟨tail, head, hc, hm⟩
    · obtain rfl := Option.some.inj h
      exact ⟨tail, head, hc, hm⟩
  | write caller line l =>
    obtain ⟨tail', _, hc', hl'⟩ := ucWriteLine_holds hc hm.2 (by
      rintro rfl
      exact hC caller l rfl)
    simp only [step, mainStep] at h
    cases hnext : line.next with
    | none =>
      simp only [hnext] at h
      obtain rfl := Option.some.inj h
      rw [hnext] at hl'
      refine ⟨tail', head, hc', ?_⟩
      cases caller with
      | none => exact ⟨hm.1, hl'⟩
      | some c => exact ⟨hm.1, hl'⟩
    | some line' =>
      simp only [hnext] at h
      obtain rfl := Option.some.inj h
      rw [hnext] at hl'
      exact ⟨tail', head, hc', hm.1, hl'⟩
  | store c =>
    -- the cell is free: it lies behind what is still to be sent
    simp only [step, mainStep] at h
    obtain rfl := Option.some.inj h
    obtain ⟨⟨hlen, hitem⟩, hs, hroom⟩ := hm
    have hcell : (uc.outHead &&& (ucOutSz - 1)).toNat = head % 256 := by
      rw [hc.headAt, toNat_and_mask]
    refine ⟨tail, head, ⟨hc.headAt, hc.tailAt, ?_⟩, hlen, ?_, hs, hroom⟩
    · show Holds 256 (Function.update uc.outData (uc.outHead &&& (ucOutSz - 1)).toNat (c.setWidth 8)) put tail head
      rw [hcell]
      exact hc.ring.store hroom _
    · show put[head]? = some (Function.update uc.outData (uc.outHead &&& (ucOutSz - 1)).toNat (c.setWidth 8) (head % 256))
      rw [hcell, Function.update_self]
      exact hitem
  | head =>
    simp only [step, mainStep] at h
    obtain rfl := Option.some.inj h
    obtain ⟨hlen, hitem, hs, hroom⟩ := hm
    refine ⟨tail, head + 1, ⟨?_, hc.tailAt, hc.ring.grow hroom hitem⟩, hlen, hs⟩
    show uc.outHead + 1 = BitVec.ofNat 32 (head + 1)
    rw [BitVec.ofNat_add, hc.headAt]
    rfl

theorem handleUsbOnline_outData (yes : Bool) : (handleUsbOnline yes uc).outData = uc.outData := by
  cases yes
  · rfl
  · show (handleEp1TxEmpty uc).outData = uc.outData
    unfold handleEp1TxEmpty
    dsimp only
    split
    · rfl
    · rfl

theorem lineHolds_busy (busy : Word) (line : WriteLine)
    (hl : LineHolds put tail head l uc (some line)) :
    LineHolds put tail head l { uc with outBusy := busy } (some line) := by
  cases line with
  | pos | len | rem | clipRem | clip64 | disable | busy | write | enable | tail => exact hl

theorem usbOnline_holds (yes : Bool) (hI : Inv s) (hC : Clear s (.usbOnline yes))
    (h : step s (.usbOnline yes) = some s') : Inv s' := by
  obtain ⟨tail, head, hc, hm⟩ := hI
  obtain ⟨uc, main, put⟩ := s
  simp only [step] at h
  split at h
  · obtain rfl := Option.some.inj h
    cases main with
    | idle =>
      obtain ⟨tail', _, hc', hs'⟩ := handleUsbOnline_holds yes hc hm.2
      exact ⟨tail', head, hc', hm.1, hs'⟩
    | full c | busy c =>
      obtain ⟨tail', _, hc', hs'⟩ := handleUsbOnline_holds yes hc hm.2
      exact ⟨tail', head, hc', hm.1, hs'⟩
    | store c =>
      obtain ⟨hcalled, hs, hroom⟩ := hm
      obtain ⟨tail', hle, hc', hs'⟩ := handleUsbOnline_holds yes hc hs
      exact ⟨tail', head, hc', hcalled, hs', by omega⟩
    | head =>
      obtain ⟨hlen, hitem, hs, hroom⟩ := hm
      obtain ⟨tail', hle, hc', hs'⟩ := handleUsbOnline_holds yes hc hs
      refine ⟨tail', head, hc', hlen, ?_, hs', by omega⟩
      show put[head]? = some ((handleUsbOnline yes uc).outData (head % 256))
      rw [handleUsbOnline_outData]
      exact hitem
    | write caller line l =>
      by_cases hearly : line = .pos ∨ line = .len
      · -- `len` is not computed yet, so the main thread will see what the handler leaves
        have hs : Settled uc put tail := by
          rcases hearly with rfl | rfl
          · exact hm.2
          · exact hm.2
        obtain ⟨tail', _, hc', hs'⟩ := handleUsbOnline_holds yes hc hs
        refine ⟨tail', head, hc', hm.1, ?_⟩
        rcases hearly with rfl | rfl
        · exact hs'
        · exact hs'
      · have hempty : yes = true → uc.outHead = uc.outTail := by
          rintro rfl
          rcases hC caller line l rfl with hpos | hlen | hempty
          · exact absurd (.inl hpos) hearly
          · exact absurd (.inr hlen) hearly
          · exact hempty
        obtain ⟨busy, heq⟩ := handleUsbOnline_empty yes hempty
        rw [heq]
        exact ⟨tail, head, ⟨hc.headAt, hc.tailAt, hc.ring⟩, hm.1, lineHolds_busy busy line hm.2⟩
  · exact absurd h (by simp)

theorem step_holds (e : Event) (hI : Inv s) (hC : Clear s e) (h : step s e = some s') : Inv s' := by
  cases e with
  | putc c => exact putc_holds c hI h
  | printuEnd => exact printuEnd_holds hI h
  | main => exact main_holds hI hC h
  | txEmpty => exact usbOnline_holds true hI hC h
  | usbOnline yes => exact usbOnline_holds yes hI hC h

theorem boot_holds : Inv boot := by
  refine ⟨0, 0, ⟨rfl, rfl, le_rfl, by decide, ?_⟩, rfl, rfl, rfl⟩
  intro i hi hlt
  omega

/-- The ring is never overfull, and the bytes that went out are the first ones put in. -/
def Orderly (s : State) : Prop :=
  (s.uc.outHead - s.uc.outTail).toNat ≤ 256 ∧ s.uc.written <+: s.put

theorem inv_orderly (hI : Inv s) : Orderly s := by
  obtain ⟨tail, head, hc, hm⟩ := hI
  have hroom := hc.ring.room
  refine ⟨by rw [hc.used]; omega, ?_⟩
  obtain ⟨uc, main, put⟩ := s
  cases main with
  | idle | full | busy =>
    have hwritten : uc.written = put.take tail := hm.2.2
    rw [hwritten]
    exact List.take_prefix _ _
  | store c =>
    have hwritten : uc.written = put.take tail := hm.2.1.2
    rw [hwritten]
    exact List.take_prefix _ _
  | head =>
    have hwritten : uc.written = put.take tail := hm.2.2.1.2
    rw [hwritten]
    exact List.take_prefix _ _
  | write caller line l =>
    have hprefix : ∃ n, uc.written = put.take n := by
      cases line with
      | pos | len => exact ⟨tail, hm.2.2⟩
      | rem | clipRem | clip64 | disable | busy | write => exact ⟨tail, hm.2.2.1⟩
      | enable | tail => exact ⟨tail + l.len.toNat, hm.2.2.1⟩
    obtain ⟨n, hwritten⟩ := hprefix
    rw [hwritten]
    exact List.take_prefix _ _

/-- In every run in which no handler comes into the way of a `uc_write` of the main thread, the
ring is never overfull, and every byte goes out once and in its place. -/
theorem runs_orderly (es : List Event) (h : Run step Clear boot es s) : Orderly s := by
  apply inv_orderly
  exact h.invariant Inv (fun s e s' hI hC hstep => step_holds e hI hC hstep) boot_holds

theorem runs_orderly_sent : ∃ s, s.uc.written = [65] ∧ s.put = [65] ∧ Orderly s := by
  have hclear {s : State} (h : s.main = .idle ∨ s.main = .head) : Clear s .txEmpty := by
    intro caller line l hwrite
    rw [hwrite] at h
    exact absurd h (by simp)
  have hmain {s : State} (h : ∀ caller line l, s.main ≠ .write caller line l) : Clear s .main := by
    intro caller l hwrite
    exact absurd hwrite (h caller .len l)
  -- the handler comes before the last statement of `uc_putc` and after it
  have hrun : Run step Clear boot [.putc 65, .main, .main, .txEmpty, .main, .txEmpty] _ :=
    .cons trivial rfl (.cons (hmain (by simp)) rfl (.cons (hmain (by simp)) rfl
      (.cons (hclear (.inr rfl)) rfl (.cons (hmain (by simp)) rfl
        (.cons (hclear (.inl rfl)) rfl (.nil _))))))
  exact ⟨_, rfl, rfl, runs_orderly _ hrun⟩

/-- `printu("A")`, with the endpoint empty once when the console comes up, and again when the main
thread has written and has not advanced the tail. -/
def lateTail : List Event :=
  [.usbOnline true, .putc 65, .main, .main, .main, .printuEnd] ++ List.replicate 9 .main ++
    [.txEmpty, .main]

/-- Not every run is orderly: here the byte goes out twice, and the tail passes the head. -/
theorem written_twice : ¬ ∀ es s, Run step (fun _ _ => True) boot es s → Orderly s := by
  intro h
  obtain ⟨s, hs, hused⟩ : ∃ s, runEvents step (fun _ _ => True) lateTail boot = some s ∧
      (s.uc.outHead - s.uc.outTail).toNat = 2 ^ 32 - 1 := ⟨_, rfl, rfl⟩
  have hle := (h lateTail s (run_of_runEvents hs)).1
  rw [hused] at hle
  exact absurd hle (by decide)

end M3Dev.UsbConsole
