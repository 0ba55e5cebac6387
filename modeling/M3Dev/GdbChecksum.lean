import M3Dev.GdbRoundTrip
import Mathlib.Data.List.Forall2

/-! Which packets `gdb_recv` dispatches, by their check bytes. -/
namespace M3Dev.Gdb
variable {θ : Type}

/-! ### Two characters as a number -/

/-- The value `strtoul` finds in two characters. -/
def checkValue (c0 c1 : Byte) : ℕ :=
  match hexValue c0, hexValue c1 with
  | some d, some e => 16 * d + e
  | some d, none => d
  | none, some e =>
    if isSpace c0 ∨ c0 = 0x2b then e else if c0 = 0x2d then (2 ^ 64 - e) % 2 ^ 64 else 0
  | none, none => 0

theorem text_cons {c : Byte} (hc : c ≠ 0) (cs : List Byte) : text (c :: cs) = c :: text cs := by
  unfold text
  rw [List.takeWhile_cons_of_pos (by simpa using hc)]

/-- What one more character adds to the digits before it. -/
theorem hexPrefix_one (v : ℕ) (c : Byte) :
    hexPrefix v (text [c, 0]) = match hexValue c with | some e => 16 * v + e | none => v := by
  by_cases hc : c = 0
  · subst hc
    rfl
  · have htext : text [c, 0] = [c] := by rw [text_cons hc]; rfl
    rw [htext]
    cases h : hexValue c <;> simp [hexPrefix, h]

theorem strtoul16_one (c : Byte) : strtoul16 (text [c, 0]) = (hexValue c).getD 0 := by
  revert c
  decide

theorem skip0x_short (cs : List Byte) (h : cs.length ≤ 2) : skip0x cs = cs := by
  unfold skip0x
  split
  · exact absurd h (by simp)
  · rfl

theorem text_one_length (c : Byte) : (text [c, 0]).length ≤ 1 := by
  revert c
  decide

/-- Neither blank nor sign: the number starts at once. -/
theorem strtoul16_cons {c : Byte} (hspace : isSpace c = false) (hminus : c ≠ 0x2d)
    (hplus : c ≠ 0x2b) (cs : List Byte) : strtoul16 (c :: cs) = hexPrefix 0 (skip0x (c :: cs)) := by
  have hdrop : (c :: cs).dropWhile isSpace = c :: cs := by
    rw [List.dropWhile_cons_of_neg (by rw [hspace]; decide)]
  unfold strtoul16
  rw [hdrop]
  split
  · rename_i heq
    exact absurd (List.cons.inj heq).1 hminus
  · rename_i heq
    exact absurd (List.cons.inj heq).1 hplus
  · rfl

theorem hexValue_some (c : Byte) (h : (hexValue c).isSome) :
    isSpace c = false ∧ c ≠ 0x2d ∧ c ≠ 0x2b ∧ c ≠ 0 := by
  revert c
  decide

theorem strtoul16_two (c0 c1 : Byte) : strtoul16 (text [c0, c1, 0]) = checkValue c0 c1 := by
  by_cases h0 : c0 = 0
  · subst h0
    have hnone : hexValue 0 = none := rfl
    have hempty : strtoul16 (text [0, c1, 0]) = 0 := rfl
    rw [hempty, checkValue, hnone]
    cases hexValue c1 <;> rfl
  rw [text_cons h0]
  cases hd : hexValue c0 with
  | some d =>
    obtain ⟨hspace, hminus, hplus, _⟩ := hexValue_some c0 (by rw [hd]; rfl)
    have hlen := text_one_length c1
    have hone := hexPrefix_one d c1
    rw [strtoul16_cons hspace hminus hplus,
      skip0x_short _ (by rw [List.length_cons]; omega), hexPrefix, hd]
    simp only [checkValue, hd]
    rw [Nat.mul_zero, Nat.zero_add, hone]
    cases hexValue c1 <;> rfl
  | none =>
    have hone := hexPrefix_one 0 c1
    have hlen := text_one_length c1
    have hskip := skip0x_short (text [c1, 0]) (by omega)
    simp only [checkValue, hd]
    -- no digit: `strtoul` still skips a blank or a sign
    by_cases hspace : isSpace c0 = true
    · have hdrop : strtoul16 (c0 :: text [c1, 0]) = strtoul16 (text [c1, 0]) := by
        unfold strtoul16
        rw [List.dropWhile_cons_of_pos hspace]
      rw [hdrop, strtoul16_one]
      cases hexValue c1 <;> simp [hspace]
    by_cases hplus : c0 = 0x2b
    · subst hplus
      have hsign : strtoul16 (0x2b :: text [c1, 0]) = hexPrefix 0 (skip0x (text [c1, 0])) := rfl
      rw [hsign, hskip, hone]
      cases hexValue c1 <;> simp
    by_cases hminus : c0 = 0x2d
    · subst hminus
      have hsign : strtoul16 (0x2d :: text [c1, 0]) =
          (2 ^ 64 - hexPrefix 0 (skip0x (text [c1, 0]))) % 2 ^ 64 := rfl
      rw [hsign, hskip, hone]
      cases hexValue c1 <;> simp [isSpace]
    · rw [strtoul16_cons (by simpa using hspace) hminus hplus,
        skip0x_short _ (by rw [List.length_cons]; omega), hexPrefix, hd]
      cases hexValue c1 with
      | none => rfl
      | some e =>
        dsimp only
        rw [if_neg (not_or.mpr ⟨hspace, hplus⟩), if_neg hminus]

/-! ### The stream as packets -/

/-- What has come of the packet that is coming in. -/
inductive Frame where
  | idle
  | payload (p : List Byte)
  | hash (p : List Byte)
  | check (p : List Byte) (c0 : Byte)

/-- An interrupt byte, or a packet with its two check bytes. -/
inductive Arrival where
  | interrupt
  | packet (p : List Byte) (c0 c1 : Byte)
  deriving Repr, DecidableEq

/-- What one byte completes; a packet with too much payload is forgotten. -/
def Frame.step : Frame → Byte → Frame × List Arrival
  | .idle, c =>
    if c = 3 then (.idle, [.interrupt])
    else if c = 0x24 then (.payload [], [])
    else (.idle, [])
  | .payload p, c =>
    if c = 0x23 then (.hash p, [])
    else if p.length = maxpkt - 1 then (.idle, [])
    else (.payload (p ++ [c]), [])
  | .hash p, c => (.check p c, [])
  | .check p c0, c => (.idle, [.packet p c0 c])

def Frame.arrivals : Frame → List Byte → List Arrival
  | _, [] => []
  | f, c :: cs => (f.step c).2 ++ (f.step c).1.arrivals cs

/-- The sum of the payload bytes mod 256. -/
def payloadSum (p : List Byte) : ℕ := (p.map BitVec.toNat).sum % 256

/-- What `gdb_recv` lets through. -/
def Arrival.accepted : Arrival → Bool
  | .interrupt => true
  | .packet p c0 c1 => checkValue c0 c1 == payloadSum p

/-- Two hexadecimal digits whose value is the sum of the payload. -/
def Arrival.wellChecked : Arrival → Bool
  | .interrupt => true
  | .packet p c0 c1 =>
    match hexValue c0, hexValue c1 with
    | some d, some e => 16 * d + e == payloadSum p
    | _, _ => false

/-- What `handle_command` finds in the buffer. -/
def Arrival.text : Arrival → List Byte
  | .interrupt => [0x24]
  | .packet p _ _ => p

def Arrival.ShownBy (rxbuf : ℕ → Byte) (a : Arrival) : Prop := Holds rxbuf a.text

/-- The payload so far is in the buffer and in the sum. -/
structure GdbCnxn.Collected (gc : GdbCnxn θ) (p : List Byte) : Prop where
  rxptr : gc.rxptr = p.length
  rxbuf : (List.range p.length).map gc.rxbuf = p
  rxsum : gc.rxsum = byteSum p
  room : p.length < maxpkt

def GdbCnxn.Tracks (gc : GdbCnxn θ) : Frame → Prop
  | .idle => gc.state = .idle
  | .payload p => gc.state = .recv ∧ gc.Collected p
  | .hash p => gc.state = .chk1 ∧ gc.Collected p
  | .check p c0 => gc.state = .chk2 ∧ gc.Collected p ∧ gc.chk0 = c0

namespace GdbCnxn

/-- One more byte behind the collected ones. -/
theorem Collected.update {gc : GdbCnxn θ} {p : List Byte} (h : gc.Collected p) (c : Byte) :
    (List.range (p.length + 1)).map (Function.update gc.rxbuf gc.rxptr c) = p ++ [c] := by
  have hold : (List.range p.length).map (Function.update gc.rxbuf gc.rxptr c) = p := by
    calc (List.range p.length).map (Function.update gc.rxbuf gc.rxptr c)
      _ = (List.range p.length).map gc.rxbuf := by
        apply List.map_congr_left
        intro i hi
        rw [List.mem_range] at hi
        rw [Function.update_of_ne (by rw [h.rxptr]; omega)]
      _ = p := h.rxbuf
  rw [List.range_succ, List.map_append, hold, List.map_singleton, ← h.rxptr, Function.update_self]

theorem Collected.snoc {gc : GdbCnxn θ} {p : List Byte} (h : gc.Collected p) (c : Byte)
    (hroom : p.length + 1 < maxpkt) :
    Collected { gc with
      rxbuf := Function.update gc.rxbuf gc.rxptr c
      rxptr := gc.rxptr + 1
      rxsum := gc.rxsum + c.setWidth 32 } (p ++ [c]) where
  rxptr := by
    rw [List.length_append]
    exact congrArg (· + 1) h.rxptr
  rxbuf := by
    rw [List.length_append]
    exact h.update c
  rxsum := by
    have hone : byteSum [c] = c.setWidth 32 := by simp [byteSum]
    rw [byteSum_append, hone, ← h.rxsum]
  room := by rwa [List.length_append]

/-- The counted sum and the two check bytes decide as `accepted` says. -/
theorem Collected.decides {gc : GdbCnxn θ} {p : List Byte} (h : gc.Collected p) (c0 c1 : Byte) :
    strtoul16 (text [c0, c1, 0]) = (gc.rxsum &&& 0xFF).toNat ↔
      (Arrival.packet p c0 c1).accepted = true := by
  have hsum : (gc.rxsum &&& 0xFF).toNat = payloadSum p := by
    have hlow := congrArg BitVec.toNat (byteSum_low p)
    have hand := Nat.and_two_pow_sub_one_eq_mod (byteSum p).toNat 8
    rw [BitVec.toNat_setWidth, BitVec.toNat_ofNat] at hlow
    rw [BitVec.toNat_and, h.rxsum]
    show (byteSum p).toNat &&& (2 ^ 8 - 1) = payloadSum p
    rw [hand, hlow, payloadSum]
    omega
  rw [strtoul16_two, hsum, Arrival.accepted, beq_iff_eq]

theorem Collected.holds {gc : GdbCnxn θ} {p : List Byte} (h : gc.Collected p) :
    Holds (Function.update gc.rxbuf gc.rxptr 0) p :=
  h.update 0

/-- The byte takes the connection along with the frame, and what it hands on shows the packets
it completes and accepts. -/
def Follows (handle : Handler θ) (gc : GdbCnxn θ) (f : Frame) (c : Byte) : Prop :=
  ∃ gc' log, gc.gdbRecvByte handle c = .ok (gc', log) ∧ gc'.Tracks (f.step c).1 ∧
    gc'.chk2 = 0 ∧ List.Forall₂ Arrival.ShownBy log ((f.step c).2.filter Arrival.accepted)

/-- A byte that completes nothing. -/
theorem Follows.quiet {handle : Handler θ} {gc : GdbCnxn θ} {f g : Frame} {c : Byte}
    (gc' : GdbCnxn θ) (hstep : f.step c = (g, [])) (hrun : gc.gdbRecvByte handle c = .ok (gc', []))
    (htracks : gc'.Tracks g) (hnul : gc'.chk2 = 0) : Follows handle gc f c := by
  refine ⟨gc', [], hrun, ?_, hnul, ?_⟩
  · rw [hstep]
    exact htracks
  · rw [hstep]
    exact List.Forall₂.nil

section Byte

variable (handle : Handler θ) {gc : GdbCnxn θ} {p : List Byte} {c0 : Byte} (c : Byte)
  (hnul : gc.chk2 = 0)

include hnul

theorem idle_follows (hs : gc.state = .idle) : Follows handle gc .idle c := by
  by_cases hint : c = 3
  · subst hint
    unfold Follows
    simp only [gdbRecvByte, hs, Frame.step, ↓reduceIte]
    rw [store_ok (by decide)]
    refine ⟨_, _, rfl, hs, hnul, ?_⟩
    refine List.Forall₂.cons ?_ List.Forall₂.nil
    show Holds (Function.update (Function.update gc.rxbuf 0 0x24) 1 0) [0x24]
    simp [Holds, List.range_succ]
  by_cases hstart : c = 0x24
  · subst hstart
    refine .quiet { gc with state := .recv, rxsum := 0, rxptr := 0 } rfl ?_
      ⟨rfl, rfl, rfl, rfl, by decide⟩ hnul
    simp only [gdbRecvByte, hs]
    rfl
  · refine .quiet (g := .idle) gc ?_ ?_ hs hnul
    · rw [Frame.step, if_neg hint, if_neg hstart]
    · simp only [gdbRecvByte, hs]
      rw [if_neg hint, if_neg hstart]

theorem payload_follows (hs : gc.state = .recv) (hcol : gc.Collected p) :
    Follows handle gc (.payload p) c := by
  have hfull : gc.rxFull = true ↔ p.length = maxpkt - 1 := by
    rw [rxFull, beq_iff_eq, hcol.rxptr]
  by_cases hhash : c = 0x23
  · subst hhash
    refine .quiet { gc with state := .chk1 } rfl ?_
      ⟨rfl, hcol.rxptr, hcol.rxbuf, hcol.rxsum, hcol.room⟩ hnul
    simp only [gdbRecvByte, hs]
    rfl
  by_cases hlen : p.length = maxpkt - 1
  · refine .quiet (g := .idle) { gc with rxptr := 0, state := .idle } ?_ ?_ rfl hnul
    · rw [Frame.step, if_neg hhash, if_pos hlen]
    · simp only [gdbRecvByte, hs]
      rw [if_neg hhash, if_pos (hfull.mpr hlen)]
  · have hroom : p.length + 1 < maxpkt := by
      have := hcol.room
      simp only [maxpkt] at this hlen ⊢
      omega
    refine .quiet (g := .payload (p ++ [c])) { gc with
      rxbuf := Function.update gc.rxbuf gc.rxptr c
      rxptr := gc.rxptr + 1
      rxsum := gc.rxsum + c.setWidth 32 } ?_ ?_ ⟨hs, hcol.snoc c hroom⟩ hnul
    · rw [Frame.step, if_neg hhash, if_neg hlen]
    · simp only [gdbRecvByte, hs]
      rw [if_neg hhash, if_neg (fun hf => hlen (hfull.mp hf)),
        store_ok (by rw [hcol.rxptr]; exact hcol.room), ← hs]
      rfl

theorem hash_follows (hs : gc.state = .chk1) (hcol : gc.Collected p) :
    Follows handle gc (.hash p) c := by
  refine .quiet { gc with chk0 := c, state := .chk2 } rfl ?_
    ⟨rfl, ⟨hcol.rxptr, hcol.rxbuf, hcol.rxsum, hcol.room⟩, rfl⟩ hnul
  simp only [gdbRecvByte, hs]

theorem check_follows (hs : gc.state = .chk2) (hcol : gc.Collected p) (hc0 : gc.chk0 = c0) :
    Follows handle gc (.check p c0) c := by
  subst hc0
  have hdecides := hcol.decides gc.chk0 c
  unfold Follows
  simp only [gdbRecvByte, hs, Frame.step]
  rw [store_ok (by show gc.rxptr < maxpkt; rw [hcol.rxptr]; exact hcol.room)]
  simp only [bind, Except.bind, hnul]
  by_cases hacc : (Arrival.packet p gc.chk0 c).accepted = true
  · rw [if_pos (hdecides.mpr hacc), List.filter_cons_of_pos hacc]
    refine ⟨_, _, rfl, ?_, ?_, List.Forall₂.cons hcol.holds List.Forall₂.nil⟩
    · exact ack_state _ _
    · rw [show (GdbCnxn.gdbRecvCmd handle _).chk2 = _ from ack_chk2 _ _]
  · rw [if_neg (fun heq => hacc (hdecides.mp heq)), List.filter_cons_of_neg hacc]
    refine ⟨_, _, rfl, ?_, ?_, List.Forall₂.nil⟩
    · exact ack_state _ _
    · rw [ack_chk2]

end Byte

theorem gdbRecvByte_tracks (handle : Handler θ) {gc : GdbCnxn θ} {f : Frame} (c : Byte)
    (h : gc.Tracks f) (hnul : gc.chk2 = 0) :
    ∃ gc' log, gc.gdbRecvByte handle c = .ok (gc', log) ∧ gc'.Tracks (f.step c).1 ∧
      gc'.chk2 = 0 ∧
      List.Forall₂ Arrival.ShownBy log ((f.step c).2.filter Arrival.accepted) := by
  cases f with
  | idle => exact idle_follows handle c hnul h
  | payload p => exact payload_follows handle c hnul h.1 h.2
  | hash p => exact hash_follows handle c hnul h.1 h.2
  | check p c0 => exact check_follows handle c hnul h.1 h.2.1 h.2.2

theorem gdbRecv_tracks (handle : Handler θ) {gc : GdbCnxn θ} {f : Frame} (bs : List Byte)
    (h : gc.Tracks f) (hnul : gc.chk2 = 0) :
    ∃ gc' log, gc.gdbRecv handle bs = .ok (gc', log) ∧
      List.Forall₂ Arrival.ShownBy log ((f.arrivals bs).filter Arrival.accepted) := by
  induction bs generalizing gc f with
  | nil => exact ⟨gc, [], rfl, List.Forall₂.nil⟩
  | cons c cs ih =>
    obtain ⟨gc1, log1, hbyte, htracks, hnul1, hlog1⟩ := gdbRecvByte_tracks handle c h hnul
    obtain ⟨gc2, log2, hrest, hlog2⟩ := ih htracks hnul1
    refine ⟨gc2, log1 ++ log2, ?_, ?_⟩
    · simp only [gdbRecv, hbyte, hrest, bind, Except.bind, pure, Except.pure]
    · rw [Frame.arrivals, List.filter_append]
      exact List.rel_append hlog1 hlog2

end GdbCnxn

/-! ### What passes for a check -/

/-- The sum for which two bytes that are not two digits pass: the digit they start with,
or the one behind a blank or a plus, and 0 where there is no digit. -/
def looseSum (c0 c1 : Byte) : Option ℕ :=
  match hexValue c0, hexValue c1 with
  | some _, some _ => none
  | some d, none => some d
  | none, some e =>
    if isSpace c0 ∨ c0 = 0x2b then some e else if c0 = 0x2d ∧ e ≠ 0 then none else some 0
  | none, none => some 0

theorem hexValue_lt {c : Byte} {d : ℕ} (h : hexValue c = some d) : d < 16 := by
  have hall : ∀ c : Byte, (hexValue c).getD 0 < 16 := by decide
  have := hall c
  rwa [h] at this

theorem accepted_packet_iff (p : List Byte) (c0 c1 : Byte) :
    (Arrival.packet p c0 c1).accepted = true ↔
      (Arrival.packet p c0 c1).wellChecked = true ∨ looseSum c0 c1 = some (payloadSum p) := by
  have hsum : payloadSum p < 256 := Nat.mod_lt _ (by decide)
  simp only [Arrival.accepted, Arrival.wellChecked, checkValue, looseSum, beq_iff_eq]
  cases h0 : hexValue c0 with
  | some d =>
    cases hexValue c1 with
    | some e => simp
    | none => simp
  | none =>
    cases h1 : hexValue c1 with
    | none => simp
    | some e =>
      have he := hexValue_lt h1
      dsimp only
      by_cases hskip : isSpace c0 = true ∨ c0 = 0x2b
      · rw [if_pos hskip, if_pos hskip]
        simp
      rw [if_neg hskip, if_neg hskip]
      by_cases hminus : c0 = 0x2d
      · by_cases hzero : e = 0
        · rw [if_pos hminus, if_neg (fun h => h.2 hzero), hzero]
          simp
        · -- a number below zero is far above every sum
          have hbig : (2 ^ 64 - e) % 2 ^ 64 ≠ payloadSum p := by omega
          rw [if_pos hminus, if_pos ⟨hminus, hzero⟩]
          simpa using hbig
      · rw [if_neg hminus, if_neg (fun h => hminus h.1)]
        simp

theorem not_loose_of_wellChecked {p : List Byte} {c0 c1 : Byte}
    (h : (Arrival.packet p c0 c1).wellChecked = true) : looseSum c0 c1 ≠ some (payloadSum p) := by
  simp only [Arrival.wellChecked] at h
  unfold looseSum
  split at h
  · rename_i h0 h1
    rw [h0, h1]
    exact fun h => absurd h (by simp)
  · exact absurd h (by simp)

theorem accepted_of_wellChecked {a : Arrival} (h : a.wellChecked = true) : a.accepted = true := by
  cases a with
  | interrupt => rfl
  | packet p c0 c1 => exact (accepted_packet_iff p c0 c1).mpr (.inl h)

/-- Where the weaker filter keeps no more elements, it keeps the same ones. -/
theorem mem_filter_of_length {α : Type*} {P Q : α → Bool} {l : List α} (hle : ∀ a, Q a → P a)
    (hlen : (l.filter P).length = (l.filter Q).length) {a : α} (ha : a ∈ l) (hP : P a = true) :
    Q a = true := by
  have hsub : (l.filter Q).Sublist (l.filter P) := List.monotone_filter_right l hle
  have heq := hsub.eq_of_length hlen.symm
  have hmem : a ∈ l.filter Q := by
    rw [heq]
    exact List.mem_filter.mpr ⟨ha, hP⟩
  exact (List.mem_filter.mp hmem).2

/-- What is dispatched is what is well checked, exactly on streams in which no pair of
other bytes passes for a check. -/
theorem dispatches_wellChecked_iff (handle : Handler θ) (gc : GdbCnxn θ) (bs : List Byte)
    (hready : gc.Ready) :
    ∃ gc' log, gc.gdbRecv handle bs = .ok (gc', log) ∧
      (List.Forall₂ Arrival.ShownBy log ((Frame.idle.arrivals bs).filter Arrival.wellChecked) ↔
        ∀ p c0 c1, Arrival.packet p c0 c1 ∈ Frame.idle.arrivals bs →
          looseSum c0 c1 ≠ some (payloadSum p)) := by
  obtain ⟨gc', log, hrun, hlog⟩ := GdbCnxn.gdbRecv_tracks handle bs (f := .idle) hready.1 hready.2
  refine ⟨gc', log, hrun, ?_, ?_⟩
  · intro hwell p c0 c1 hmem hloose
    have hlen := hlog.length_eq.symm.trans hwell.length_eq
    have hacc := (accepted_packet_iff p c0 c1).mpr (.inr hloose)
    have hchecked := mem_filter_of_length (fun _ => accepted_of_wellChecked) hlen hmem hacc
    exact not_loose_of_wellChecked hchecked hloose
  · intro hstrict
    have hsame : (Frame.idle.arrivals bs).filter Arrival.accepted =
        (Frame.idle.arrivals bs).filter Arrival.wellChecked := by
      apply List.filter_congr
      intro a ha
      cases a with
      | interrupt => rfl
      | packet p c0 c1 =>
        rw [Bool.eq_iff_iff, accepted_packet_iff]
        exact or_iff_left (hstrict p c0 c1 ha)
    rwa [hsame] at hlog

/-- `$g#67` has the one packet, and its sum in two digits. -/
theorem dispatches_wellChecked_iff_g :
    ∃ gc' log, freshCnxn.gdbRecv (fun rxbuf gc => (rxbuf, gc)) [0x24, 0x67, 0x23, 0x36, 0x37] =
        .ok (gc', log) ∧
      (List.Forall₂ Arrival.ShownBy log
          ((Frame.idle.arrivals [0x24, 0x67, 0x23, 0x36, 0x37]).filter Arrival.wellChecked) ↔
        ∀ p c0 c1, Arrival.packet p c0 c1 ∈ Frame.idle.arrivals [0x24, 0x67, 0x23, 0x36, 0x37] →
          looseSum c0 c1 ≠ some (payloadSum p)) :=
  dispatches_wellChecked_iff (fun rxbuf gc => (rxbuf, gc)) freshCnxn _ ⟨rfl, rfl⟩

/-- `$c9d#zz`: the payload sums up to 0 and `strtoul` makes 0 of the check, so that the
target goes on at 9d. -/
theorem zz_dispatched :
    ∃ gc' rxbuf, freshCnxn.gdbRecv (fun rxbuf gc => (rxbuf, gc))
        [0x24, 0x63, 0x39, 0x64, 0x23, 0x7a, 0x7a] = .ok (gc', [rxbuf]) ∧
      Holds rxbuf [0x63, 0x39, 0x64] ∧
      Frame.idle.arrivals [0x24, 0x63, 0x39, 0x64, 0x23, 0x7a, 0x7a] =
        [.packet [0x63, 0x39, 0x64] 0x7a 0x7a] ∧
      (Arrival.packet [0x63, 0x39, 0x64] 0x7a 0x7a).wellChecked = false := by
  obtain ⟨gc', log, hrun, hlog⟩ := @GdbCnxn.gdbRecv_tracks _
    (fun rxbuf gc => (rxbuf, gc)) freshCnxn .idle [0x24, 0x63, 0x39, 0x64, 0x23, 0x7a, 0x7a] rfl rfl
  have harrivals : Frame.idle.arrivals [0x24, 0x63, 0x39, 0x64, 0x23, 0x7a, 0x7a] =
      [.packet [0x63, 0x39, 0x64] 0x7a 0x7a] := by decide
  have hacc : (Arrival.packet [0x63, 0x39, 0x64] 0x7a 0x7a).accepted = true := by decide
  rw [harrivals, List.filter_cons_of_pos hacc, List.filter_nil] at hlog
  cases hlog with
  | cons hshown hnil =>
    cases hnil
    exact ⟨gc', _, hrun, hshown, harrivals, by decide⟩

end M3Dev.Gdb
