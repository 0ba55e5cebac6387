import M3Dev.SwoDecoder
import Mathlib.Data.List.TakeWhile
import Mathlib.Tactic.IntervalCases

/-! Packets of the serial wire viewer stream, and what the decoder makes of them. -/
namespace M3Dev.Swo

/-! ### The grammar -/

inductive Payload where
  | one (b0 : Byte)
  | two (b0 b1 : Byte)
  | four (b0 b1 b2 b3 : Byte)
  deriving Repr

namespace Payload

/-- The SS field of the header. -/
def ss : Payload → BitVec 2
  | one _ => 1
  | two _ _ => 2
  | four _ _ _ _ => 3

def bytes : Payload → List Byte
  | one b0 => [b0]
  | two b0 b1 => [b0, b1]
  | four b0 b1 b2 b3 => [b0, b1, b2, b3]

/-- The little-endian value. -/
def value : Payload → Word
  | one b0 => b0.setWidth 32
  | two b0 b1 => (b1 ++ b0).setWidth 32
  | four b0 b1 b2 b3 => b3 ++ b2 ++ b1 ++ b0

def size (p : Payload) : ℕ := p.bytes.length

end Payload

/-- AAAAAHSS source packet -/
structure SourcePacket where
  a : BitVec 5
  h : BitVec 1
  payload : Payload
  deriving Repr

def SourcePacket.header (p : SourcePacket) : Byte := p.a ++ p.h ++ p.payload.ss

/-- The address, with H as bit 8. -/
def SourcePacket.id (p : SourcePacket) : Word := (p.h ++ (0 : BitVec 3) ++ p.a).setWidth 32

/-- CXXXXX00 protocol packet: bytes with bit 7 set, then one that ends it by having
bit 7 clear or by being the seventh. -/
structure ProtoPacket where
  init : List Byte
  last : Byte
  continued : ∀ b ∈ init, b &&& 0x80 ≠ 0
  ended : last &&& 0x80 = 0 ∨ init.length = 6
  short : init.length ≤ 6
  header_ne : (init ++ [last]).head (by simp) ≠ 0
  header_low : (init ++ [last]).head (by simp) &&& 3 = 0

def ProtoPacket.header (p : ProtoPacket) : Byte := (p.init ++ [p.last]).head (by simp)

inductive Packet where
  | source (p : SourcePacket)
  | protocol (p : ProtoPacket)

namespace Packet

def bytes : Packet → List Byte
  | source p => p.header :: p.payload.bytes
  | protocol p => p.init ++ [p.last]

/-- The call the packet is worth. -/
def call : Packet → SwvCall
  | source p => .src p.id p.payload.value p.payload.size
  | protocol p => .proto (p.init ++ [p.last])

def isSource : Packet → Bool
  | source _ => true
  | protocol _ => false

/-- A protocol header with bit 2 set, which the mask 7 takes for a source header. -/
def misread : Packet → Bool
  | source _ => false
  | protocol p => p.header &&& 4 ≠ 0

end Packet

def SwvCall.isSrc : SwvCall → Bool
  | .src _ _ _ => true
  | .proto _ => false

theorem isSrc_call (p : Packet) : p.call.isSrc = p.isSource := by
  cases p <;> rfl

/-! ### No false re-sync -/

/-- No byte of the stream meets the re-sync test. -/
def NoResync : BitVec 32 → List Byte → Prop
  | _, [] => True
  | z, x :: xs => ¬ (5 ≤ z ∧ x = 0x80) ∧ NoResync (zcountAfter z x) xs

def zcountRun (z : BitVec 32) (xs : List Byte) : BitVec 32 := xs.foldl zcountAfter z

/-- The stream through the switch alone. -/
def switchAll (s : Swv) : List Byte → Swv × List SwvCall
  | [] => (s, [])
  | x :: xs =>
    let r := swvSwitch { s with zcount := zcountAfter s.zcount x } x
    let q := switchAll r.1 xs
    (q.1, r.2 ++ q.2)

theorem processSwoData_switchAll (s : Swv) (xs : List Byte) (h : NoResync s.zcount xs) :
    processSwoData s xs = switchAll s xs := by
  induction xs generalizing s with
  | nil => rfl
  | cons x xs ih =>
    have hrest : NoResync (swvSwitch { s with zcount := zcountAfter s.zcount x } x).1.zcount xs := by
      rw [swvSwitch_zcount]
      exact h.2
    simp only [processSwoData, switchAll, handleSwv_switch s x h.1, ih _ hrest]

theorem switchAll_zcount (s : Swv) (xs : List Byte) :
    (switchAll s xs).1.zcount = zcountRun s.zcount xs := by
  induction xs generalizing s with
  | nil => rfl
  | cons x xs ih => simp only [switchAll, ih, swvSwitch_zcount, zcountRun, List.foldl_cons]

theorem switchAll_sync (s : Swv) (xs : List Byte) (h : s.state = .sync) :
    (switchAll s xs).1.state = .sync ∧ (switchAll s xs).2 = [] := by
  induction xs generalizing s with
  | nil => exact ⟨h, rfl⟩
  | cons x xs ih => 
    have hnext := ih { s with zcount := zcountAfter s.zcount x } h
    simpa [switchAll, swvSwitch, h] using hnext

theorem zcountAfter_le (z : BitVec 32) (x : Byte) (k : ℕ) (hz : z.toNat ≤ k) :
    (zcountAfter z x).toNat ≤ k + 1 := by
  unfold zcountAfter
  split_ifs
  · rw [BitVec.toNat_add]
    have := Nat.mod_le (z.toNat + (1 : BitVec 32).toNat) (2 ^ 32)
    have h1 : (1 : BitVec 32).toNat = 1 := rfl
    omega
  · simp

theorem not_resync_of_le {z : BitVec 32} (hz : z.toNat ≤ 4) (x : Byte) :
    ¬ (5 ≤ z ∧ x = 0x80) := by
  rintro ⟨h, _⟩
  have h5 : (5 : BitVec 32).toNat ≤ z.toNat := BitVec.le_def.mp h
  have h1 : (5 : BitVec 32).toNat = 5 := rfl
  omega

/-- A run that starts early enough stays below the five zeros of a re-sync. -/
theorem noResync_of_length (z : BitVec 32) (xs : List Byte) (k : ℕ) (hz : z.toNat ≤ k)
    (hk : k + xs.length ≤ 4) : NoResync z xs ∧ (zcountRun z xs).toNat ≤ 4 := by
  induction xs generalizing z k with
  | nil => exact ⟨trivial, by simp only [zcountRun, List.foldl_nil]; omega⟩
  | cons x xs ih =>
    rw [List.length_cons] at hk
    have hnext := ih (zcountAfter z x) (k + 1) (zcountAfter_le z x k hz) (by omega)
    exact ⟨⟨not_resync_of_le (by omega) x, hnext.1⟩, hnext.2⟩

theorem zcountAfter_ne {x : Byte} (hx : x ≠ 0) (z : BitVec 32) : zcountAfter z x = 0 :=
  if_neg hx

theorem noResync_of_ne (z : BitVec 32) (xs : List Byte) (hz : z.toNat ≤ 4)
    (hne : ∀ x ∈ xs, x ≠ 0) : NoResync z xs ∧ (zcountRun z xs).toNat ≤ 4 := by
  induction xs generalizing z with
  | nil => exact ⟨trivial, hz⟩
  | cons x xs ih =>
    have h0 := zcountAfter_ne (hne x (by simp)) z
    have hnext := ih (zcountAfter z x) (by rw [h0]; simp) (fun y hy => hne y (by simp [hy]))
    exact ⟨⟨not_resync_of_le hz x, hnext.1⟩, hnext.2⟩

/-- Bytes that are not zero reset the counter before one that may be. -/
theorem noResync_closed (z : BitVec 32) (xs : List Byte) (last : Byte) (hz : z.toNat ≤ 3)
    (hne : ∀ x ∈ xs, x ≠ 0) :
    NoResync z (xs ++ [last]) ∧ (zcountRun z (xs ++ [last])).toNat ≤ 4 := by
  induction xs generalizing z with
  | nil => exact noResync_of_length z [last] 3 hz (by simp)
  | cons x xs ih =>
    have h0 := zcountAfter_ne (hne x (by simp)) z
    have hnext := ih (zcountAfter z x) (by rw [h0]; simp) (fun y hy => hne y (by simp [hy]))
    exact ⟨⟨not_resync_of_le (by omega) x, hnext.1⟩, hnext.2⟩

theorem source_low (a : BitVec 5) (h : BitVec 1) (ss : BitVec 2) :
    (a ++ h ++ ss : Byte) &&& 3 = ss.setWidth 8 := by
  revert a h ss
  decide

theorem header_ne_zero (p : SourcePacket) : p.header ≠ 0 := by
  intro h
  have hss : p.header &&& 3 = p.payload.ss.setWidth 8 := source_low p.a p.h p.payload.ss
  rw [h] at hss
  cases hp : p.payload <;> rw [hp] at hss <;> exact absurd hss (by simp [Payload.ss])

theorem continued_ne_zero {b : Byte} (h : b &&& 0x80 ≠ 0) : b ≠ 0 := by
  rintro rfl
  exact h (by decide)

/-- A packet is never taken for part of a re-sync, and leaves at most four zeros
behind it. -/
theorem packet_noResync (p : Packet) (z : BitVec 32) (hz : z.toNat ≤ 4) :
    NoResync z p.bytes ∧ (zcountRun z p.bytes).toNat ≤ 4 := by
  cases p with
  | source p =>
    have h0 := zcountAfter_ne (header_ne_zero p) z
    have hlen : p.payload.bytes.length ≤ 4 := by
      cases p.payload <;> simp [Payload.bytes]
    have hrest := noResync_of_length (zcountAfter z p.header) p.payload.bytes 0
      (by rw [h0]; simp) (by omega)
    exact ⟨⟨not_resync_of_le hz _, hrest.1⟩, hrest.2⟩
  | protocol p =>
    show NoResync z (p.init ++ [p.last]) ∧ (zcountRun z (p.init ++ [p.last])).toNat ≤ 4
    cases hi : p.init with
    | nil =>
      have hne : p.last ≠ 0 := by simpa [hi] using p.header_ne
      exact noResync_of_ne z [p.last] hz (by simpa using hne)
    | cons b bs =>
      have hb : ∀ x ∈ b :: bs, x ≠ 0 := by
        intro x hx
        exact continued_ne_zero (p.continued x (hi ▸ hx))
      have h0 := zcountAfter_ne (hb b (by simp)) z
      have hrest := noResync_closed (zcountAfter z b) bs p.last (by rw [h0]; simp)
        (fun x hx => hb x (by simp [hx]))
      exact ⟨⟨not_resync_of_le hz b, hrest.1⟩, hrest.2⟩

/-! ### One packet -/

/-- The four-state mask tells a source header from a protocol header; the mask 7 of
the decoder also lets bit 2 in. -/
theorem and_seven (x : Byte) : x &&& 7 = 0 ↔ x &&& 3 = 0 ∧ x &&& 4 = 0 := by
  revert x
  decide

theorem source_id (a : BitVec 5) (h : BitVec 1) (ss : BitVec 2) :
    ((((a ++ h ++ ss : Byte).setWidth 32 : Word) >>> 3) |||
      ((((a ++ h ++ ss : Byte).setWidth 32 : Word) &&& 4) <<< 6)) =
      ((h ++ (0 : BitVec 3) ++ a).setWidth 32 : Word) := by
  revert a h ss
  decide

theorem value_two (b0 b1 : Byte) :
    (b0.setWidth 32 ||| (b1.setWidth 32 <<< 8) : Word) = (b1 ++ b0).setWidth 32 := by
  apply BitVec.eq_of_getLsbD_eq
  intro i hi
  simp only [BitVec.getLsbD_append, BitVec.getLsbD_setWidth, BitVec.getLsbD_or,
    BitVec.getLsbD_shiftLeft]
  interval_cases i <;> simp

theorem value_four (b0 b1 b2 b3 : Byte) :
    (b0.setWidth 32 ||| (b1.setWidth 32 <<< 8) ||| (b2.setWidth 32 <<< 16) |||
      (b3.setWidth 32 <<< 24) : Word) = b3 ++ b2 ++ b1 ++ b0 := by
  apply BitVec.eq_of_getLsbD_eq
  intro i hi
  simp only [BitVec.getLsbD_append, BitVec.getLsbD_setWidth, BitVec.getLsbD_or,
    BitVec.getLsbD_shiftLeft]
  interval_cases i <;> simp

theorem switch_source_header (s : Swv) (x : Byte) (h : s.state = .idle) (h7 : x &&& 7 ≠ 0) :
    swvSwitch s x = ({ s with
      id := ((x.setWidth 32 : Word) >>> 3) ||| (((x.setWidth 32 : Word) &&& 4) <<< 6)
      val := 0
      state := stateOf (x &&& 3) }, []) := by
  simp only [swvSwitch, h]
  rw [if_pos h7]

theorem switch_proto_header (s : Swv) (x : Byte) (h : s.state = .idle) (h7 : x &&& 7 = 0)
    (hx : x ≠ 0) :
    swvSwitch s x = if x &&& 0x80 ≠ 0 then ({ s with data := [x], state := .proto }, [])
      else ({ s with data := [x] }, [.proto [x]]) := by
  simp only [swvSwitch, h]
  rw [if_neg (not_not.mpr h7), if_pos hx]

/-- A source packet met in the idle state is delivered, and the decoder is idle again. -/
theorem switchAll_source (s : Swv) (p : SourcePacket) (h : s.state = .idle) :
    (switchAll s (Packet.source p).bytes).1.state = .idle ∧
      (switchAll s (Packet.source p).bytes).2 = [(Packet.source p).call] := by
  have hlow : p.header &&& 3 = p.payload.ss.setWidth 8 := source_low p.a p.h p.payload.ss
  have hid : (((p.header.setWidth 32 : Word) >>> 3) |||
      (((p.header.setWidth 32 : Word) &&& 4) <<< 6)) = p.id := source_id p.a p.h p.payload.ss
  have h7 : p.header &&& 7 ≠ 0 := by
    intro h7
    have hss := ((and_seven _).mp h7).1
    rw [hlow] at hss
    cases hp : p.payload <;> rw [hp] at hss <;> exact absurd hss (by simp [Payload.ss])
  have hstart := switch_source_header { s with zcount := zcountAfter s.zcount p.header } p.header
    h h7
  simp only [Packet.bytes, Packet.call, switchAll, hstart, hlow, hid]
  cases hp : p.payload with
  | one b0 =>
    simp [Payload.bytes, Payload.value, Payload.size, Payload.ss, stateOf, switchAll, swvSwitch]
  | two b0 b1 =>
    simp [Payload.bytes, Payload.value, Payload.size, Payload.ss, stateOf, switchAll, swvSwitch,
      value_two]
  | four b0 b1 b2 b3 =>
    simp [Payload.bytes, Payload.value, Payload.size, Payload.ss, stateOf, switchAll, swvSwitch,
      value_four]

/-- The bytes of a protocol packet behind its header, met in the protocol state. -/
theorem switchAll_continued (s : Swv) (xs : List Byte) (last : Byte) (h : s.state = .proto)
    (hcont : ∀ x ∈ xs, x &&& 0x80 ≠ 0) (hlen : s.data.length + xs.length ≤ 6)
    (hend : last &&& 0x80 = 0 ∨ s.data.length + xs.length = 6) :
    (switchAll s (xs ++ [last])).1.state = .idle ∧
      (switchAll s (xs ++ [last])).2 = [.proto (s.data ++ (xs ++ [last]))] := by
  induction xs generalizing s with
  | nil =>
    have hends : (s.data ++ [last]).length = 7 ∨ last &&& 0x80 = 0 := by
      rcases hend with hlast | hfull
      · exact Or.inr hlast
      · left
        simp only [List.length_append, List.length_singleton, List.length_nil] at hfull ⊢
        omega
    simp only [List.nil_append, switchAll, swvSwitch, h, hends, ↓reduceIte, List.append_nil,
      and_self]
  | cons x xs ih =>
    rw [List.length_cons] at hlen hend
    have hx := hcont x (by simp)
    have hgo : ¬ ((s.data ++ [x]).length = 7 ∨ x &&& 0x80 = 0) := by
      rw [List.length_append, List.length_singleton, not_or]
      exact ⟨by omega, hx⟩
    have hstep : swvSwitch { s with zcount := zcountAfter s.zcount x } x =
        ({ s with zcount := zcountAfter s.zcount x, data := s.data ++ [x] }, []) := by
      simp only [swvSwitch, h]
      rw [if_neg hgo]
    have hlen' : (s.data ++ [x]).length + xs.length = s.data.length + (xs.length + 1) := by
      rw [List.length_append, List.length_singleton]
      omega
    have hnext := ih { s with zcount := zcountAfter s.zcount x, data := s.data ++ [x] } h
      (fun y hy => hcont y (by simp [hy])) (by rw [hlen']; exact hlen) (by rw [hlen']; exact hend)
    simp only [List.cons_append, switchAll, hstep, List.nil_append]
    rw [List.append_assoc, List.singleton_append] at hnext
    exact hnext

/-- A protocol packet met in the idle state is delivered if bit 2 of its header is
clear; otherwise the decoder goes back to waiting for a sync. -/
theorem switchAll_protocol (s : Swv) (p : ProtoPacket) (h : s.state = .idle) :
    if p.header &&& 4 = 0 then
      (switchAll s (Packet.protocol p).bytes).1.state = .idle ∧
        (switchAll s (Packet.protocol p).bytes).2 = [(Packet.protocol p).call]
    else
      (switchAll s (Packet.protocol p).bytes).1.state = .sync ∧
        (switchAll s (Packet.protocol p).bytes).2 = [] := by
  have hne : p.header ≠ 0 := p.header_ne
  have hlow : p.header &&& 3 = 0 := p.header_low
  obtain ⟨rest, hrest⟩ : ∃ rest, p.init ++ [p.last] = p.header :: rest :=
    ⟨_, (List.cons_head_tail (by simp)).symm⟩
  have h7 := and_seven p.header
  simp only [hlow, true_and] at h7
  simp only [Packet.bytes, Packet.call]
  split_ifs with h4
  · cases hi : p.init with
    | nil =>
      have hhead : p.header = p.last := by simp [ProtoPacket.header, hi]
      have hend : p.last &&& 0x80 = 0 := by simpa [hi] using p.ended
      rw [hhead] at h7 hne h4
      have hstart := switch_proto_header { s with zcount := zcountAfter s.zcount p.last } p.last
        h (h7.mpr h4) hne
      rw [if_neg (not_not.mpr hend)] at hstart
      simp only [List.nil_append, switchAll, hstart, List.append_nil]
      exact ⟨h, trivial⟩
    | cons b bs =>
      -- the header says that more bytes follow
      have hhead : p.header = b := by simp [ProtoPacket.header, hi]
      have hcont : ∀ x ∈ b :: bs, x &&& 0x80 ≠ 0 := hi ▸ p.continued
      have hshort := p.short
      have hended := p.ended
      rw [hi, List.length_cons] at hshort hended
      rw [hhead] at h7 hne h4
      have hb := hcont b (by simp)
      have hnext := switchAll_continued
        { s with zcount := zcountAfter s.zcount b, data := [b], state := .proto } bs p.last rfl
        (fun x hx => hcont x (by simp [hx]))
        (by rw [List.length_singleton, Nat.add_comm]; exact hshort)
        (by rw [List.length_singleton, Nat.add_comm]; exact hended)
      have hstart := switch_proto_header { s with zcount := zcountAfter s.zcount b } b h
        (h7.mpr h4) hne
      rw [if_pos hb] at hstart
      simp only [List.cons_append, switchAll, hstart, List.nil_append]
      simpa using hnext
  · -- with bit 2 set the header is taken for that of a source packet, but has no size
    rw [hrest]
    have h70 : p.header &&& 7 ≠ 0 := fun hz => h4 (h7.mp hz)
    have hstart := switch_source_header { s with zcount := zcountAfter s.zcount p.header }
      p.header h h70
    rw [hlow] at hstart
    simp only [switchAll, hstart, List.nil_append]
    exact switchAll_sync _ rest rfl

/-! ### Streams -/

/-- What is delivered of packets that arrive in the sync state. -/
theorem packets_in_sync (s : Swv) (ps : List Packet) (h : s.state = .sync)
    (hz : s.zcount.toNat ≤ 4) : (processSwoData s (ps.flatMap Packet.bytes)).2 = [] := by
  induction ps generalizing s with
  | nil => rfl
  | cons p ps ih =>
    have hp := packet_noResync p s.zcount hz
    have hsync := switchAll_sync s p.bytes h
    rw [List.flatMap_cons, processSwoData_append, processSwoData_switchAll s _ hp.1, hsync.2]
    exact ih _ hsync.1 (by rw [switchAll_zcount]; exact hp.2)

/-- What is delivered of packets that arrive in the idle state: all up to the first
whose header is misread. -/
theorem packets_in_idle (s : Swv) (ps : List Packet) (h : s.state = .idle)
    (hz : s.zcount.toNat ≤ 4) :
    (processSwoData s (ps.flatMap Packet.bytes)).2 =
      (ps.takeWhile (fun p => !p.misread)).map Packet.call := by
  induction ps generalizing s with
  | nil => rfl
  | cons p ps ih =>
    have hp := packet_noResync p s.zcount hz
    have hz' : (switchAll s p.bytes).1.zcount.toNat ≤ 4 := by
      rw [switchAll_zcount]
      exact hp.2
    rw [List.flatMap_cons, processSwoData_append, processSwoData_switchAll s _ hp.1]
    cases p with
    | source p =>
      have hsrc := switchAll_source s p h
      have htake : (Packet.source p :: ps).takeWhile (fun p => !p.misread) =
          Packet.source p :: ps.takeWhile (fun p => !p.misread) := rfl
      rw [htake, List.map_cons, ih _ hsrc.1 hz', hsrc.2, List.singleton_append]
    | protocol p =>
      have hproto := switchAll_protocol s p h
      by_cases h4 : p.header &&& 4 = 0
      · rw [if_pos h4] at hproto
        have htake : (Packet.protocol p :: ps).takeWhile (fun p => !p.misread) =
            Packet.protocol p :: ps.takeWhile (fun p => !p.misread) := by
          simp [List.takeWhile_cons, Packet.misread]
          exact h4
        rw [htake, List.map_cons, ih _ hproto.1 hz', hproto.2, List.singleton_append]
      · rw [if_neg h4] at hproto
        have htake : (Packet.protocol p :: ps).takeWhile (fun p => !p.misread) = [] := by
          simp [List.takeWhile_cons, Packet.misread]
          exact h4
        rw [htake, packets_in_sync _ ps hproto.1 hz', hproto.2]
        rfl

/-- The zeros of a sync sequence are counted modulo the width of the counter. -/
theorem zeros_counted (s : Swv) (n : ℕ) (h : s.state = .sync) :
    processSwoData s (List.replicate n 0) =
      ({ s with zcount := s.zcount + BitVec.ofNat 32 n }, []) := by
  induction n generalizing s with
  | zero => simp [processSwoData]
  | succ n ih =>
    have hstep : handleSwv s 0 = ({ s with zcount := s.zcount + 1 }, []) := by
      simp [handleSwv, swvSwitch, h]
    have hsum : s.zcount + 1 + BitVec.ofNat 32 n = s.zcount + BitVec.ofNat 32 (n + 1) := by
      rw [BitVec.add_assoc, Nat.add_comm n 1, BitVec.ofNat_add]
      rfl
    rw [List.replicate_succ, processSwoData, hstep]
    simp only [ih { s with zcount := s.zcount + 1 } h, hsum, List.append_nil]

/-- The calls made on a sync sequence of `n` zeros and the packets behind it. -/
def streamCalls (n : ℕ) (ps : List Packet) : List SwvCall :=
  (processSwoData swvInit (List.replicate n 0 ++ (0x80 :: ps.flatMap Packet.bytes))).2

theorem sync_seen (n : ℕ) :
    handleSwv { swvInit with zcount := BitVec.ofNat 32 n } 0x80 =
      if 5 ≤ n % 2 ^ 32 then ({ swvInit with state := .idle }, []) else (swvInit, []) := by
  have hcount : (5 : BitVec 32) ≤ BitVec.ofNat 32 n ↔ 5 ≤ n % 2 ^ 32 := by
    rw [BitVec.le_def, BitVec.toNat_ofNat]
    rfl
  have hne : ¬ (0x80 : Byte) = 0 := by decide
  simp only [handleSwv, hcount, and_true]
  rw [if_neg hne]
  split_ifs <;> rfl

theorem streamCalls_eq (n : ℕ) (ps : List Packet) :
    streamCalls n ps = if 5 ≤ n % 2 ^ 32 then
      (ps.takeWhile (fun p => !p.misread)).map Packet.call else [] := by
  have hzeros : processSwoData swvInit (List.replicate n 0) =
      ({ swvInit with zcount := BitVec.ofNat 32 n }, []) := by
    rw [zeros_counted swvInit n rfl]
    rw [show swvInit.zcount + BitVec.ofNat 32 n = BitVec.ofNat 32 n from BitVec.zero_add _]
  rw [streamCalls, processSwoData_append, hzeros]
  simp only [processSwoData, sync_seen, List.nil_append]
  split_ifs
  · exact packets_in_idle _ ps rfl (by decide)
  · exact packets_in_sync _ ps rfl (by decide)

/-- The decoder delivers every packet exactly when the sync is seen and no protocol
header has bit 2 set; it delivers every source packet exactly when the sync is seen
and none follows such a header. -/
theorem swv_delivers_iff (n : ℕ) (ps : List Packet) :
    (streamCalls n ps = ps.map Packet.call ↔
      ps = [] ∨ (5 ≤ n % 2 ^ 32 ∧ ∀ p ∈ ps, p.misread = false)) ∧
    ((streamCalls n ps).filter SwvCall.isSrc = (ps.map Packet.call).filter SwvCall.isSrc ↔
      (∀ p ∈ ps, p.isSource = false) ∨
        (5 ≤ n % 2 ^ 32 ∧ ∀ p ∈ ps.dropWhile (fun p => !p.misread), p.isSource = false)) := by
  have hsrc : ∀ qs : List Packet, (qs.map Packet.call).filter SwvCall.isSrc = [] ↔
      ∀ p ∈ qs, p.isSource = false := by
    intro qs
    rw [List.filter_eq_nil_iff]
    simp [isSrc_call]
  -- the calls are those of the packets up to the first that is misread
  rw [streamCalls_eq]
  constructor
  · split_ifs with hn
    · have hlen : (ps.takeWhile (fun p => !p.misread)).map Packet.call = ps.map Packet.call ↔
          ps.takeWhile (fun p => !p.misread) = ps := by
        constructor
        · intro h
          have := congrArg List.length h
          simp only [List.length_map] at this
          exact (List.takeWhile_prefix _).eq_of_length this
        · intro h
          rw [h]
      rw [hlen, List.takeWhile_eq_self_iff]
      simp only [Bool.not_eq_true', hn, true_and]
      constructor
      · exact Or.inr
      · rintro (rfl | h)
        · simp
        · exact h
    · rw [eq_comm, List.map_eq_nil_iff]
      simp only [hn, false_and, or_false]
  · split_ifs with hn
    · have hsplit : (ps.map Packet.call).filter SwvCall.isSrc =
          ((ps.takeWhile (fun p => !p.misread)).map Packet.call).filter SwvCall.isSrc ++
            ((ps.dropWhile (fun p => !p.misread)).map Packet.call).filter SwvCall.isSrc := by
        rw [← List.filter_append, ← List.map_append, List.takeWhile_append_dropWhile]
      rw [hsplit, List.self_eq_append_right, hsrc]
      simp only [hn, true_and]
      constructor
      · exact Or.inr
      · rintro (h | h)
        · intro p hp
          exact h p ((List.dropWhile_sublist _).subset hp)
        · exact h
    · rw [List.filter_nil, eq_comm, hsrc]
      simp only [hn, false_and, or_false]

/-- A global timestamp packet (header 0x94, one byte behind it) and a source packet. -/
def timestampThenSource : List Packet :=
  [.protocol { init := [0x94], last := 0x01, continued := by decide, ended := by decide,
               short := by decide, header_ne := by decide, header_low := by decide },
    .source { a := 0, h := 0, payload := .one 0x41 }]

theorem source_lost_after_timestamp :
    (streamCalls 5 timestampThenSource).filter SwvCall.isSrc ≠
      (timestampThenSource.map Packet.call).filter SwvCall.isSrc := by
  decide

end M3Dev.Swo
