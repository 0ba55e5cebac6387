import M3Dev.ByteBlock
import M3Dev.CString
import M3Dev.Pieces
import M3Dev.PrintNumbers
import M3Dev.RswdpAsync

/-! Text a probe prints with `printu`, from the formats on the probe to the console of the host. -/
namespace M3Dev.RemotePrint
open Rswdp ByteBlock Pieces Print

/-! ### The probe -/

/-- `DEBUG_MAX` -/
def debugMax : ℕ := 52

/-- `pmsg.data` and `poff`, and what has been handed to `usb_xmit`. -/
structure Printer where
  data : ℕ → Byte
  poff : ℕ
  sent : List (List Byte)

namespace Printer

/-- `pmsg.data[poff++] = c` -/
def put (s : Printer) (c : Byte) : Except Stop Printer :=
  if s.poff < debugMax then
    .ok { s with data := Function.update s.data s.poff c, poff := s.poff + 1 }
  else .error .outOfBounds

/-- `pmsg`, with these bytes of text. -/
def pmsg (text : List Byte) : List Byte :=
  wordBytes rswdTxnAsync ++ (wordBytes (rswdMsg cmdDebugPrint 0 (BitVec.ofNat 32 (debugMax / 4))) ++ text)

/-- The passes of the loop of `flushu`. -/
def pad : ℕ → Printer → Except Stop Printer
  | 0, s => .ok s
  | passes + 1, s =>
    if s.poff < debugMax then do
      let s ← s.put 0
      pad passes s
    else .ok s

def flushu (s : Printer) : Except Stop Printer := do
  let s ← pad debugMax s
  return { s with sent := s.sent ++ [pmsg ((List.range debugMax).map s.data)], poff := 0 }

/-- `_putu` -/
def putu (s : Printer) (c : Word) : Except Stop Printer := do
  let s ← s.put (c.setWidth 8)
  if s.poff = debugMax then s.flushu else return s

end Printer

/-- The arguments of `printu`, and what `tmp` of `vprintx` happens to hold. -/
structure Printed where
  fmt : List Byte
  args : ℕ → Word
  tmp : Tmp

section
variable (strings : Word → List Byte)

def printu (s : Printer) (p : Printed) : Except Stop Printer := do
  let out ← vprintx strings p.fmt p.args p.tmp
  let s ← out.foldlM Printer.putu s
  if s.poff ≠ 0 then s.flushu else return s

/-- The characters of a call, as `pmsg.data` holds them. -/
def Printed.chars (p : Printed) : List Byte := (rendered strings p.fmt p.args).map (BitVec.setWidth 8)

end

/-! ### The host -/

/-- A packet comes in: the query that has not been answered, if any, and what the array of
`swd_reader` holds from before. -/
structure Moment where
  queryId : Option (BitVec 16)
  stale : List Word
  packet : List Byte

/-- The packet's words. -/
def packetWords (packet : List Byte) : List Word := (List.range (packet.length / 4)).map (wordsAt packet)

/-- Word by word, and marked as asynchronous. -/
def isAsync (packet : List Byte) : Bool :=
  !(decide (packet.length < 4) || decide (packet.length % 4 ≠ 0)) &&
    (packetWords packet).head? == some rswdTxnAsync

/-- What a pass of `swd_reader` prints and hands on of what the probe sends by itself. -/
def swdReaderPass (m : Moment) : Except Stop (List AsyncEvent) :=
  if m.packet.length < 4 ∨ m.packet.length % 4 ≠ 0 then .ok []
  else
    let r := m.packet.length
    match packetWords m.packet ++ m.stale.drop (r / 4) with
    | [] => .ok []
    | first :: data =>
      if m.queryId.map rswdTxnStart = some first then .ok []
      else if first = rswdTxnAsync then processAsync data (r / 4 - 1)
      else .ok []

/-- Pass after pass. -/
def swdReaderPasses : List Moment → Except Stop (List AsyncEvent)
  | [] => .ok []
  | m :: ms => do
    let es ← swdReaderPass m
    let es' ← swdReaderPasses ms
    return es ++ es'

/-! ### Packets are filled and sent -/

/-- The text with the zeros that fill its packet up. -/
def padded (text : List Byte) : List Byte := text ++ List.replicate (debugMax - text.length) 0

def packet (text : List Byte) : List Byte := Printer.pmsg (padded text)

theorem padded_length {p : List Byte} (hp : p.length ≤ debugMax) : (padded p).length = debugMax := by
  rw [padded, List.length_append, List.length_replicate]
  omega

section
variable {s s' : Printer} {c : Byte}

/-- The bytes in the packet that is being filled. -/
def Printer.held (s : Printer) : List Byte := (List.range s.poff).map s.data

theorem put_ok (h : s.poff < debugMax) (c : Byte) : ∃ s', s.put c = .ok s' ∧ s'.poff = s.poff + 1 ∧
    s'.sent = s.sent ∧ s'.held = s.held ++ [c] := by
  refine ⟨_, if_pos h, rfl, rfl, ?_⟩
  have hbelow : (List.range s.poff).map (Function.update s.data s.poff c) = s.held := by
    apply List.map_congr_left
    intro i hi
    have hne : i ≠ s.poff := Nat.ne_of_lt (List.mem_range.mp hi)
    exact Function.update_of_ne hne _ _
  show (List.range (s.poff + 1)).map (Function.update s.data s.poff c) = _
  rw [List.range_succ, List.map_append, hbelow, List.map_singleton, Function.update_self]

theorem pad_fills (passes : ℕ) (hpasses : debugMax ≤ s.poff + passes) (hroom : s.poff ≤ debugMax) :
    ∃ s', Printer.pad passes s = .ok s' ∧ s'.sent = s.sent ∧ s'.poff = debugMax ∧
      s'.held = s.held ++ List.replicate (debugMax - s.poff) 0 := by
  induction passes generalizing s with
  | zero =>
    have hfull : s.poff = debugMax := by omega
    refine ⟨s, rfl, rfl, hfull, ?_⟩
    rw [hfull, Nat.sub_self, List.replicate_zero, List.append_nil]
  | succ passes ih =>
    rw [Printer.pad]
    by_cases hmore : s.poff < debugMax
    · obtain ⟨s1, hput, hpoff, hsent, hheld⟩ := put_ok hmore 0
      obtain ⟨s', hpad, hsent', hpoff', hheld'⟩ := ih (s := s1) (by omega) (by omega)
      refine ⟨s', ?_, hsent'.trans hsent, hpoff', ?_⟩
      · rw [if_pos hmore, hput]
        exact hpad
      · have hcount : debugMax - s.poff = debugMax - s1.poff + 1 := by omega
        rw [hheld', hheld, hcount, List.replicate_succ, List.append_assoc]
        rfl
    · have hfull : s.poff = debugMax := by omega
      refine ⟨s, if_neg hmore, rfl, hfull, ?_⟩
      rw [hfull, Nat.sub_self, List.replicate_zero, List.append_nil]

theorem held_length (s : Printer) : s.held.length = s.poff := by
  rw [Printer.held, List.length_map, List.length_range]

theorem flushu_sends (hroom : s.poff ≤ debugMax) :
    ∃ s', s.flushu = .ok s' ∧ s'.poff = 0 ∧ s'.sent = s.sent ++ [packet s.held] := by
  obtain ⟨s1, hpad, hsent, hpoff, hheld⟩ := pad_fills debugMax (by omega) hroom
  have hdata : (List.range debugMax).map s1.data = padded s.held := by
    rw [padded, held_length, ← hheld, Printer.held, hpoff]
  refine ⟨{ s1 with sent := s1.sent ++ [packet s.held], poff := 0 }, ?_, rfl, ?_⟩
  · rw [Printer.flushu, hpad]
    show Except.ok { s1 with sent := s1.sent ++ [Printer.pmsg ((List.range debugMax).map s1.data)], poff := 0 } = _
    rw [hdata]
    rfl
  · show s1.sent ++ _ = _
    rw [hsent]

/-- Since `s0`, these characters have gone into packets: whole ones sent, the rest held. -/
structure Filled (s0 s : Printer) (cs : List Byte) : Prop where
  room : s.poff < debugMax
  split : ∃ whole : List (List Byte), (∀ p ∈ whole, p.length = debugMax) ∧ cs = whole.flatten ++ s.held ∧
    s.sent = s0.sent ++ whole.map packet

theorem Filled.start (hidle : s.poff = 0) : Filled s s [] where
  room := by
    rw [hidle]
    decide
  split := by
    refine ⟨[], fun p hp => absurd hp List.not_mem_nil, ?_, (List.append_nil _).symm⟩
    rw [Printer.held, hidle]
    rfl

theorem Filled.putu {s0 : Printer} {cs : List Byte} (h : Filled s0 s cs) (c : Word) :
    ∃ s', s.putu c = .ok s' ∧ Filled s0 s' (cs ++ [c.setWidth 8]) := by
  obtain ⟨whole, hwhole, hcs, hsent⟩ := h.split
  obtain ⟨s1, hput, hpoff, hsent1, hheld⟩ := put_ok h.room (c.setWidth 8)
  have hroom := h.room
  by_cases hfull : s1.poff = debugMax
  · obtain ⟨s', hflush, hidle, hsent'⟩ := @flushu_sends s1 (le_of_eq hfull)
    refine ⟨s', ?_, ?_, whole ++ [s1.held], ?_, ?_, ?_⟩
    · rw [Printer.putu, hput]
      show (if s1.poff = debugMax then s1.flushu else _) = _
      rw [if_pos hfull, hflush]
    · rw [hidle]
      decide
    · intro p hp
      rcases List.mem_append.mp hp with hp | hp
      · exact hwhole p hp
      · rw [List.mem_singleton.mp hp, held_length, hfull]
    · have hnone : s'.held = [] := by
        rw [Printer.held, hidle]
        rfl
      rw [hcs, hheld, hnone]
      simp only [List.flatten_append, List.flatten_cons, List.flatten_nil, List.append_nil, List.append_assoc]
    · rw [hsent', hsent1, hsent, List.map_append, List.append_assoc]
      rfl
  · refine ⟨s1, ?_, by omega, whole, hwhole, ?_, hsent1.trans hsent⟩
    · rw [Printer.putu, hput]
      exact if_neg hfull
    · rw [hcs, hheld, List.append_assoc]

theorem Filled.putAll {s0 : Printer} {cs : List Byte} (h : Filled s0 s cs) (out : List Word) :
    ∃ s', out.foldlM Printer.putu s = .ok s' ∧ Filled s0 s' (cs ++ out.map (BitVec.setWidth 8)) := by
  induction out generalizing s cs with
  | nil =>
    refine ⟨s, rfl, ?_⟩
    rw [List.map_nil, List.append_nil]
    exact h
  | cons c out ih =>
    obtain ⟨s1, hput, h1⟩ := h.putu c
    obtain ⟨s', hrest, h'⟩ := ih h1
    refine ⟨s', ?_, ?_⟩
    · rw [List.foldlM_cons, hput]
      exact hrest
    · rwa [List.append_assoc] at h'

/-- A call of `printu` sends its characters, 52 to a packet. -/
theorem printu_sends (strings : Word → List Byte) (p : Printed) (hidle : s.poff = 0) :
    ∃ s', printu strings s p = .ok s' ∧ s'.poff = 0 ∧
      s'.sent = s.sent ++ (pieces debugMax (p.chars strings)).map packet := by
  obtain ⟨s1, hput, hfilled⟩ := (Filled.start hidle).putAll (rendered strings p.fmt p.args)
  obtain ⟨whole, hwhole, hcs, hsent⟩ := hfilled.split
  have hpieces : pieces debugMax (p.chars strings) = whole ++ pieces debugMax s1.held := by
    rw [← pieces_append (by decide) hwhole, ← hcs]
    rfl
  have hprint : printu strings s p = if s1.poff ≠ 0 then s1.flushu else .ok s1 := by
    rw [printu, vprintx_renders]
    show (do
      let s ← (rendered strings p.fmt p.args).foldlM Printer.putu s
      if s.poff ≠ 0 then s.flushu else return s) = _
    rw [hput]
    rfl
  by_cases hrest : s1.poff = 0
  · refine ⟨s1, ?_, hrest, ?_⟩
    · rw [hprint]
      exact if_neg (not_not_intro hrest)
    · have hnone : s1.held = [] := by
        rw [Printer.held, hrest]
        rfl
      rw [hsent, hpieces, hnone, pieces_nil (by decide), List.append_nil]
  · obtain ⟨s', hflush, hidle', hsent'⟩ := flushu_sends (le_of_lt hfilled.room)
    have hsome : s1.held ≠ [] := by
      intro hnil
      apply hrest
      rw [← held_length, hnil]
      rfl
    have hlen : s1.held.length ≤ debugMax := by
      rw [held_length]
      exact le_of_lt hfilled.room
    refine ⟨s', ?_, hidle', ?_⟩
    · rw [hprint, if_pos hrest, hflush]
    · rw [hsent', hsent, hpieces, pieces_short hsome hlen, List.map_append, List.append_assoc]
      rfl

end

/-! ### Packets are received -/

/-- A word in front of a packet. -/
theorem packetWords_word (w : Word) (bytes : List Byte) :
    packetWords (wordBytes w ++ bytes) = w :: packetWords bytes := by
  have hcount : (wordBytes w ++ bytes).length / 4 = bytes.length / 4 + 1 := by
    rw [List.length_append, wordBytes_length]
    omega
  rw [packetWords, hcount, List.range_succ_eq_map, List.map_cons, List.map_map]
  apply congrArg₂ List.cons
  · have hfront : wordsAt (wordBytes w ++ bytes) 0 = leWord fun k => (wordBytes w).getD k 0 := by
      rw [wordsAt]
      apply leWord_congr
      intro k hk
      rw [Nat.mul_zero, Nat.zero_add, List.getD_append _ _ _ _ (by rwa [wordBytes_length])]
    rw [hfront, leWord_wordBytes]
  · apply List.map_congr_left
    intro i _
    rw [Function.comp_apply, wordsAt, wordsAt]
    apply leWord_congr
    intro k _
    have hplace : 4 * (i + 1) + k = (wordBytes w).length + (4 * i + k) := by
      rw [wordBytes_length]
      omega
    rw [hplace, List.getD_append_right _ _ _ _ (Nat.le_add_right _ _), Nat.add_sub_cancel_left]

/-- The words of a packet of the printer. -/
theorem packetWords_packet (p : List Byte) :
    packetWords (packet p) = rswdTxnAsync ::
      rswdMsg cmdDebugPrint 0 (BitVec.ofNat 32 (debugMax / 4)) :: packetWords (padded p) := by
  rw [packet, Printer.pmsg, packetWords_word, packetWords_word]

theorem packet_length {p : List Byte} (hp : p.length ≤ debugMax) : (packet p).length = 60 := by
  rw [packet, Printer.pmsg, List.length_append, List.length_append, padded_length hp]
  rfl

/-- A packet of the printer is printed, whatever the host is doing. -/
theorem swdReaderPass_packet {m : Moment} {p : List Byte} (hp : p.length ≤ debugMax)
    (hstale : m.stale.length = maxwords) (hm : m.packet = packet p) :
    swdReaderPass m = .ok [.print (text p)] := by
  have hlen := packet_length hp
  have hwords : (packetWords (padded p)).length = 13 := by
    rw [packetWords, List.length_map, List.length_range, padded_length hp]
    rfl
  have hbytes : (packetWords (padded p)).flatMap wordBytes = padded p := by
    have hwhole := wordsAt_bytes (padded p) (n := (padded p).length / 4) (by omega)
    rw [packetWords, hwhole, padded_length hp, ← padded_length hp, List.take_of_length_le]
    rw [padded_length hp]
    decide
  have hbehind : m.stale.drop 15 ≠ [] := by
    intro hnil
    have hnone := congrArg List.length hnil
    rw [List.length_drop, hstale] at hnone
    exact absurd hnone (by decide)
  have hquery : m.queryId.map rswdTxnStart ≠ some rswdTxnAsync := by
    cases m.queryId with
    | none => exact Option.some_ne_none _ ∘ Eq.symm
    | some seq =>
      intro heq
      have hframe := rswdTxnStart_frame seq
      rw [Option.some.inj heq] at hframe
      exact absurd hframe (by decide)
  have hprint := processAsync_debugPrint 0 (packetWords (padded p)) (m.stale.drop 15) 13
    (by omega) (by omega)
  -- the packet is too short for `xprintf` to cut the text
  have hline : printedLine (text p) = text p := by
    apply printedLine_eq_self.mpr
    have htext : (text p).length ≤ p.length := (List.takeWhile_prefix _).length_le
    have hmax : debugMax = 52 := rfl
    omega
  rw [hwords, if_pos hbehind, Nat.sub_self, hbytes, padded, text_append_zeros, hline] at hprint
  have hshort : ¬ (m.packet.length < 4 ∨ m.packet.length % 4 ≠ 0) := by
    rw [hm, hlen]
    decide
  rw [swdReaderPass, if_neg hshort]
  simp only [hm, hlen, packetWords_packet, List.cons_append, if_neg hquery, ↓reduceIte]
  have hdone : processAsync (m.stale.drop 15) 0 = .ok [] := by rw [processAsync]
  rw [hdone] at hprint
  exact hprint

/-- What is not marked as asynchronous is not printed. -/
theorem swdReaderPass_other {m : Moment} (hm : isAsync m.packet = false) : swdReaderPass m = .ok [] := by
  rw [swdReaderPass]
  by_cases hshort : m.packet.length < 4 ∨ m.packet.length % 4 ≠ 0
  · exact if_pos hshort
  · rw [if_neg hshort]
    obtain ⟨first, rest, hwords⟩ : ∃ first rest, packetWords m.packet = first :: rest := by
      apply List.exists_cons_of_ne_nil
      intro hnil
      have hnone := congrArg List.length hnil
      rw [packetWords, List.length_map, List.length_range, List.length_nil] at hnone
      omega
    have hfirst : first ≠ rswdTxnAsync := by
      rintro rfl
      rw [not_or] at hshort
      simp only [isAsync, hwords, hshort.1, hshort.2, List.head?_cons, decide_false, Bool.or_self,
        Bool.not_false, Bool.true_and, beq_self_eq_true, Bool.true_eq_false] at hm
    simp only [hwords, List.cons_append, if_neg hfirst, ite_self]

/-- Among whatever else comes in, the printer's packets are printed in order. -/
theorem swdReaderPasses_packets {ms : List Moment} (hstale : ∀ m ∈ ms, m.stale.length = maxwords)
    {ps : List (List Byte)} (hps : ∀ p ∈ ps, p.length ≤ debugMax)
    (hms : (ms.map Moment.packet).filter isAsync = ps.map packet) :
    swdReaderPasses ms = .ok (ps.map fun p => .print (text p)) := by
  induction ms generalizing ps with
  | nil =>
    obtain rfl : ps = [] := List.map_eq_nil_iff.mp hms.symm
    rfl
  | cons m ms ih =>
    have hlater : ∀ m' ∈ ms, m'.stale.length = maxwords :=
      fun m' hm' => hstale m' (List.mem_cons_of_mem m hm')
    cases hm : isAsync m.packet with
    | false =>
      rw [List.map_cons, List.filter_cons_of_neg (by rw [hm]; exact Bool.false_ne_true)] at hms
      rw [swdReaderPasses, swdReaderPass_other hm, ih hlater hps hms]
      rfl
    | true =>
      rw [List.map_cons, List.filter_cons_of_pos hm] at hms
      obtain ⟨p, ps, rfl, hp, hrest⟩ := List.map_eq_cons_iff.mp hms.symm
      have hfirst := swdReaderPass_packet (hps p (List.mem_cons_self ..))
        (hstale m (List.mem_cons_self ..)) hp.symm
      rw [swdReaderPasses, hfirst,
        ih hlater (fun q hq => hps q (List.mem_cons_of_mem p hq)) hrest.symm]
      rfl

/-! ### From one end to the other -/

/-- The characters of the calls, in the pieces that are sent together. -/
def lines (strings : Word → List Byte) (calls : List Printed) : List (List Byte) :=
  calls.flatMap fun p => pieces debugMax (p.chars strings)

theorem printus_send (strings : Word → List Byte) (calls : List Printed) {s : Printer} (hidle : s.poff = 0) :
    ∃ s', calls.foldlM (printu strings) s = .ok s' ∧ s'.poff = 0 ∧
      s'.sent = s.sent ++ (lines strings calls).map packet := by
  induction calls generalizing s with
  | nil => exact ⟨s, rfl, hidle, (List.append_nil _).symm⟩
  | cons p calls ih =>
    obtain ⟨s1, hprint, hidle1, hsent1⟩ := printu_sends strings p hidle
    obtain ⟨s', hrest, hidle', hsent'⟩ := ih hidle1
    refine ⟨s', ?_, hidle', ?_⟩
    · rw [List.foldlM_cons, hprint]
      exact hrest
    · have hlines : lines strings (p :: calls) =
          pieces debugMax (p.chars strings) ++ lines strings calls := List.flatMap_cons
      rw [hsent', hsent1, hlines, List.map_append, List.append_assoc]

theorem lines_length {strings : Word → List Byte} {calls : List Printed} {p : List Byte}
    (hp : p ∈ lines strings calls) : p.length ≤ debugMax := by
  obtain ⟨c, _, hpiece⟩ := List.mem_flatMap.mp hp
  exact length_le_of_mem hpiece

theorem lines_flatten (strings : Word → List Byte) (calls : List Printed) :
    (lines strings calls).flatten = calls.flatMap fun p => p.chars strings := by
  induction calls with
  | nil => rfl
  | cons p calls ih =>
    rw [lines, List.flatMap_cons, List.flatten_append, flatten_pieces (by decide), List.flatMap_cons]
    exact congrArg (p.chars strings ++ ·) ih

/-- A text without NULs is printed as it is. -/
theorem lines_text {strings : Word → List Byte} {calls : List Printed}
    (hnul : ∀ p ∈ calls, 0 ∉ p.chars strings) :
    ((lines strings calls).map text).flatten = calls.flatMap fun p => p.chars strings := by
  have hsame : (lines strings calls).map text = lines strings calls := by
    apply (List.map_congr_left _).trans (List.map_id _)
    intro p hp
    obtain ⟨c, hc, hpiece⟩ := List.mem_flatMap.mp hp
    apply text_eq_self
    intro hzero
    apply hnul c hc
    rw [← flatten_pieces (by decide : 0 < debugMax) (c.chars strings)]
    exact List.mem_flatten_of_mem hpiece hzero
  rw [hsame, lines_flatten]

/-- Whatever a probe prints arrives: no call stores outside the packet, which is empty again
behind it, and the host prints the packets in order among anything else it receives, each up to its
first NUL, so that a text without NULs is printed whole. -/
theorem printed_remotely (strings : Word → List Byte) (calls : List Printed) {s : Printer}
    (hidle : s.poff = 0) :
    ∃ s', calls.foldlM (printu strings) s = .ok s' ∧ s'.poff = 0 ∧
      s'.sent = s.sent ++ (lines strings calls).map packet ∧
      (∀ ms : List Moment, (∀ m ∈ ms, m.stale.length = maxwords) →
        (ms.map Moment.packet).filter isAsync = (lines strings calls).map packet →
        swdReaderPasses ms = .ok ((lines strings calls).map fun p => .print (text p))) ∧
      ((∀ p ∈ calls, 0 ∉ p.chars strings) →
        ((lines strings calls).map text).flatten = calls.flatMap fun p => p.chars strings) := by
  obtain ⟨s', hprint, hidle', hsent⟩ := printus_send strings calls hidle
  refine ⟨s', hprint, hidle', hsent, ?_, lines_text⟩
  intro ms hstale hms
  exact swdReaderPasses_packets hstale (fun p hp => lines_length hp) hms

/-- `printu("ok %b", 0x2a)` -/
def printedOk : Printed where
  fmt := [0x6f, 0x6b, 0x20, 0x25, 0x62]
  args := fun _ => 0x2a
  tmp := fun _ => 0x55

/-- Behind a reply to a transaction. -/
theorem printed_remotely_ok :
    ∃ s', [printedOk].foldlM (printu fun _ => []) ⟨fun _ => 0, 0, []⟩ = .ok s' ∧
      s'.sent = [packet [0x6f, 0x6b, 0x20, 0x32, 0x41]] ∧
      swdReaderPasses [⟨none, List.replicate 2048 0, wordBytes 0xAA770001 ++ wordBytes 0⟩,
          ⟨some 2, List.replicate 2048 0, packet [0x6f, 0x6b, 0x20, 0x32, 0x41]⟩] =
        .ok [.print [0x6f, 0x6b, 0x20, 0x32, 0x41]] := by
  obtain ⟨s', hprint, _, hsent, hshow, _⟩ :=
    printed_remotely (fun _ => []) [printedOk] (s := ⟨fun _ => 0, 0, []⟩) rfl
  have hlines : lines (fun _ => []) [printedOk] = [[0x6f, 0x6b, 0x20, 0x32, 0x41]] := by decide
  rw [hlines] at hsent hshow
  refine ⟨s', hprint, hsent, ?_⟩
  apply hshow
  · intro m hm
    rcases List.mem_pair.mp hm with rfl | rfl
    · exact List.length_replicate
    · exact List.length_replicate
  · decide

end M3Dev.RemotePrint
