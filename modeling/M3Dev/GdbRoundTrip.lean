import M3Dev.GdbRecv

/-! What the bridge frames, a connection takes apart again. -/
namespace M3Dev.Gdb
variable {θ : Type}

/-- Bytes that may stand between packets. -/
def Noise (bs : List Byte) : Prop := ∀ b ∈ bs, b ≠ 0x24 ∧ b ≠ 3

/-- The buffer starts with the payload and a NUL. -/
def Holds (rxbuf : ℕ → Byte) (payload : List Byte) : Prop :=
  (List.range (payload.length + 1)).map rxbuf = payload ++ [0]

instance : DecidablePred Noise := fun bs => inferInstanceAs (Decidable (∀ b ∈ bs, b ≠ 0x24 ∧ b ≠ 3))

/-- Packets with noise before each of them and behind the last. -/
def noisyStream (parts : List (List Byte × List Byte)) (tail : List Byte) : List Byte :=
  parts.flatMap (fun p => p.1 ++ framed p.2) ++ tail

/-! ### The receive buffer -/

/-- The buffer after bytes are stored from position `i` on. -/
def fill (rxbuf : ℕ → Byte) : ℕ → List Byte → ℕ → Byte
  | _, [] => rxbuf
  | i, b :: bs => fill (Function.update rxbuf i b) (i + 1) bs

theorem fill_below (rxbuf : ℕ → Byte) (i j : ℕ) (bs : List Byte) (h : j < i) :
    fill rxbuf i bs j = rxbuf j := by
  induction bs generalizing rxbuf i with
  | nil => rfl
  | cons b bs ih =>
    rw [fill, ih _ (i + 1) (by omega), Function.update_of_ne (by omega)]

theorem fill_getElem (rxbuf : ℕ → Byte) (i k : ℕ) (bs : List Byte) (h : k < bs.length) :
    fill rxbuf i bs (i + k) = bs[k] := by
  induction bs generalizing rxbuf i k with
  | nil => exact absurd h (by simp)
  | cons b bs ih =>
    cases k with
    | zero =>
      rw [Nat.add_zero, fill, fill_below _ _ _ _ (Nat.lt_succ_self i), Function.update_self]
      rfl
    | succ k =>
      have hk : i + (k + 1) = i + 1 + k := by omega
      rw [fill, hk, ih _ _ _ (by simpa using h)]
      rfl

theorem holds_fill (rxbuf : ℕ → Byte) (payload : List Byte) :
    Holds (Function.update (fill rxbuf 0 payload) payload.length 0) payload := by
  apply List.ext_getElem
  · simp
  intro k hk _
  simp only [List.length_map, List.length_range] at hk
  rw [List.getElem_map, List.getElem_range]
  by_cases hlt : k < payload.length
  · have hfill := fill_getElem rxbuf 0 k payload hlt
    rw [Nat.zero_add] at hfill
    rw [Function.update_of_ne (by omega), hfill, List.getElem_append_left hlt]
  · obtain rfl : k = payload.length := by omega
    rw [Function.update_self]
    simp

/-! ### One packet -/

namespace GdbCnxn

/-- Waiting for a packet, with `chk[2]` as `gdb_init` leaves it. -/
def Ready (gc : GdbCnxn θ) : Prop := gc.state = .idle ∧ gc.chk2 = 0

theorem recv_noise (handle : Handler θ) (gc : GdbCnxn θ) (noise : List Byte)
    (hidle : gc.state = .idle) (h : Noise noise) : gc.gdbRecv handle noise = .ok (gc, []) := by
  induction noise with
  | nil => rfl
  | cons b bs ih =>
    have hb := h b (by simp)
    have hbyte : gc.gdbRecvByte handle b = .ok (gc, []) := by
      simp only [gdbRecvByte, hidle]
      rw [if_neg hb.2, if_neg hb.1]
    have hrest := ih (fun b' hb' => h b' (by simp [hb']))
    simp only [gdbRecv, hbyte, hrest, bind, Except.bind, pure, Except.pure, List.append_nil]

/-- Payload bytes are collected in the buffer and counted. -/
theorem recv_payload (handle : Handler θ) (gc : GdbCnxn θ) (payload : List Byte)
    (hrecv : gc.state = .recv) (h : 0x23 ∉ payload)
    (hroom : gc.rxptr + payload.length ≤ maxpkt - 1) :
    gc.gdbRecv handle payload = .ok ({ gc with
      rxbuf := fill gc.rxbuf gc.rxptr payload
      rxptr := gc.rxptr + payload.length
      rxsum := gc.rxsum + byteSum payload }, []) := by
  induction payload generalizing gc with
  | nil => simp [gdbRecv, fill, byteSum]
  | cons b bs ih =>
    rw [List.length_cons] at hroom
    have hb : b ≠ 0x23 := fun hb => h (by simp [hb])
    have hfull : gc.rxFull = false := by
      simp only [rxFull, beq_eq_false_iff_ne]
      omega
    have hbyte : gc.gdbRecvByte handle b = .ok ({ gc with
        rxbuf := Function.update gc.rxbuf gc.rxptr b
        rxptr := gc.rxptr + 1
        rxsum := gc.rxsum + b.setWidth 32 }, []) := by
      have hlt : gc.rxptr < maxpkt := by
        simp only [maxpkt] at hroom ⊢
        omega
      simp only [gdbRecvByte, hrecv, hfull, store_ok hlt, bind, Except.bind, pure, Except.pure]
      rw [if_neg hb]
      rfl
    have hrest := ih { gc with
        rxbuf := Function.update gc.rxbuf gc.rxptr b
        rxptr := gc.rxptr + 1
        rxsum := gc.rxsum + b.setWidth 32 } hrecv (fun hmem => h (List.mem_cons_of_mem b hmem))
      (by simp only; omega)
    have hsum : gc.rxsum + byteSum (b :: bs) = gc.rxsum + b.setWidth 32 + byteSum bs := by
      simp [byteSum, BitVec.add_assoc]
    have hlen : gc.rxptr + (b :: bs).length = gc.rxptr + 1 + bs.length := by
      simp only [List.length_cons]
      omega
    simp only [gdbRecv, hbyte, hrest, bind, Except.bind, pure, Except.pure, List.append_nil, fill,
      hsum, hlen]

/-- A framed payload that fits is dispatched, NUL-terminated. -/
theorem recv_framed (handle : Handler θ) (gc : GdbCnxn θ) (payload : List Byte)
    (hready : gc.Ready) (h : 0x23 ∉ payload) (hroom : payload.length ≤ maxpkt - 1) :
    ∃ gc' rxbuf, gc.gdbRecv handle (framed payload) = .ok (gc', [rxbuf]) ∧ gc'.Ready ∧
      Holds rxbuf payload := by
  have hstart : gc.gdbRecvByte handle 0x24 =
      .ok ({ gc with state := .recv, rxsum := 0, rxptr := 0 }, []) := by
    simp only [gdbRecvByte, hready.1]
    rfl
  have hpay := recv_payload handle { gc with state := .recv, rxsum := 0, rxptr := 0 } payload rfl h
    (by simpa using hroom)
  have hsum : (0 : Word) + byteSum payload = byteSum payload := BitVec.zero_add _
  simp only [hsum, Nat.zero_add] at hpay
  obtain ⟨v, hv⟩ : ∃ v : Byte, v = BitVec.ofNat 8 ((payload.map BitVec.toNat).sum % 256) :=
    ⟨_, rfl⟩
  -- the two check digits name the low byte of the sum
  have hcheck : strtoul16 (text [hexDigit (v >>> 4), hexDigit (v &&& 15), 0]) =
      (byteSum payload &&& 0xFF).toNat := by
    have hlow := congrArg BitVec.toNat (byteSum_low payload)
    rw [BitVec.toNat_setWidth] at hlow
    have hand := Nat.and_two_pow_sub_one_eq_mod (byteSum payload).toNat 8
    rw [BitVec.toNat_and]
    show strtoul16 (text (hex2 v ++ [0])) = (byteSum payload).toNat &&& (2 ^ 8 - 1)
    rw [strtoul16_hex2, hand, hlow, hv]
  have hlt : payload.length < maxpkt := by
    simp only [maxpkt] at hroom ⊢
    omega
  let full : GdbCnxn θ := { gc with
    state := .idle
    rxsum := byteSum payload
    rxptr := payload.length + 1
    rxbuf := Function.update (fill gc.rxbuf 0 payload) payload.length 0
    chk0 := hexDigit (v >>> 4)
    chk1 := hexDigit (v &&& 15)
    chk2 := 0 }
  refine ⟨(full.ack 0x2b).gdbRecvCmd handle, full.rxbuf, ?_, ?_, holds_fill gc.rxbuf payload⟩
  · have hend : gdbRecv handle { gc with
        state := .recv
        rxsum := byteSum payload
        rxptr := payload.length
        rxbuf := fill gc.rxbuf 0 payload } (0x23 :: hex2 v) =
        .ok ((full.ack 0x2b).gdbRecvCmd handle, [full.rxbuf]) := by
      simp only [hex2, gdbRecv, gdbRecvByte, bind, Except.bind, pure, Except.pure, ↓reduceIte,
        store_ok hlt, hready.2, hcheck, List.append_nil, List.nil_append]
      rfl
    rw [framed, List.cons_append, gdbRecv, hstart, ← hv]
    simp only [bind, Except.bind, gdbRecv_append, hpay, hend]
    rfl
  · refine ⟨?_, ?_⟩
    · simp [gdbRecvCmd, full]
    · simp [gdbRecvCmd, full]

/-- Packets and noise: every payload is dispatched, in order, and nothing else. -/
theorem recv_stream (handle : Handler θ) (gc : GdbCnxn θ)
    (parts : List (List Byte × List Byte)) (tail : List Byte) (hready : gc.Ready)
    (hparts : ∀ p ∈ parts, Noise p.1 ∧ 0x23 ∉ p.2 ∧ p.2.length ≤ 8186) (htail : Noise tail) :
    ∃ gc' log, gc.gdbRecv handle (noisyStream parts tail) = .ok (gc', log) ∧ gc'.Ready ∧
      List.Forall₂ Holds log (parts.map Prod.snd) := by
  induction parts generalizing gc with
  | nil =>
    refine ⟨gc, [], ?_, hready, List.Forall₂.nil⟩
    exact recv_noise handle gc tail hready.1 htail
  | cons p parts ih =>
    obtain ⟨hnoise, hhash, hlen⟩ := hparts p (by simp)
    obtain ⟨gc1, rxbuf, hrun, hready1, hholds⟩ := recv_framed handle gc p.2 hready hhash
      (by simp only [maxpkt]; omega)
    obtain ⟨gc2, log, hrest, hready2, hlog⟩ := ih gc1 hready1
      (fun q hq => hparts q (by simp [hq]))
    refine ⟨gc2, rxbuf :: log, ?_, hready2, List.Forall₂.cons hholds hlog⟩
    have hsplit : noisyStream (p :: parts) tail =
        p.1 ++ (framed p.2 ++ noisyStream parts tail) := by
      simp [noisyStream]
    rw [hsplit, gdbRecv_append, recv_noise handle gc p.1 hready.1 hnoise]
    simp only [bind, Except.bind, gdbRecv_append, hrun, hrest]
    rfl

end GdbCnxn

/-- What is put between `gdb_prologue` and `gdb_epilogue` is sent framed; a connection
that waits for packets dispatches what was framed, however the stream is cut and
whatever stands between; and no stream makes it store outside its buffer. -/
theorem packets_round_trip (handle : Handler θ) :
    (∀ (gc : GdbSide θ) (calls : List PutCall) (answers : List WriteResult),
      (calls.flatMap PutCall.bytes).length ≤ 8186 →
      (gdbClose (calls.foldl PutCall.run (gdbPrologue gc))).2 =
          some (framed (calls.flatMap PutCall.bytes)) ∧
        ((writeLoop answers (framed (calls.flatMap PutCall.bytes))).2 = some true →
          (gdbEpilogue answers (calls.foldl PutCall.run (gdbPrologue gc))).sent =
            gc.sent ++ framed (calls.flatMap PutCall.bytes))) ∧
    (∀ (gc : GdbCnxn θ) (parts : List (List Byte × List Byte)) (tail : List Byte)
        (chunks : List (List Byte)), gc.Ready →
      (∀ p ∈ parts, Noise p.1 ∧ 0x23 ∉ p.2 ∧ p.2.length ≤ 8186) → Noise tail →
      chunks.flatten = noisyStream parts tail →
      ∃ gc' log, gc.gdbRecvs handle chunks = .ok (gc', log) ∧
        List.Forall₂ Holds log (parts.map Prod.snd)) ∧
    (∀ (gc : GdbCnxn θ) (chunks : List (List Byte)), gc.state = .idle →
      ∃ r, gc.gdbRecvs handle chunks = .ok r) := by
  refine ⟨?_, ?_, ?_⟩
  · intro gc calls answers h
    have hclose := gdbClose_framed gc calls h
    refine ⟨hclose, ?_⟩
    intro hwritten
    have hall := (writeLoop_sends answers (framed (calls.flatMap PutCall.bytes))).2 hwritten
    have hsent : (gdbClose (calls.foldl PutCall.run (gdbPrologue gc))).1.sent = gc.sent := by
      rw [calls_eq_putBytes, gdbClose_sent, putBytes_sent]
      rfl
    simp only [gdbEpilogue, hclose, hall, hsent]
  · intro gc parts tail chunks hready hparts htail hchunks
    obtain ⟨gc', log, hrun, _, hlog⟩ := GdbCnxn.recv_stream handle gc parts tail hready hparts htail
    exact ⟨gc', log, by rw [GdbCnxn.gdbRecvs_eq, hchunks, hrun], hlog⟩
  · intro gc chunks hidle
    obtain ⟨r, hr, _⟩ := GdbCnxn.gdbRecv_ok handle gc chunks.flatten
      (fun hne => absurd hidle hne)
    exact ⟨r, by rw [GdbCnxn.gdbRecvs_eq, hr]⟩

/-- A connection as `gdb_init` sets it up. -/
def freshCnxn : GdbCnxn Unit :=
  { txsum := 0, flags := fAck, tx := [], sent := [], rest := (), state := .idle, rxsum := 0,
    rxptr := 0, rxbuf := fun _ => 0, chk0 := 0, chk1 := 0, chk2 := 0 }

/-- `m20000000,4` and `M20000001,2:a5B6`, with an acknowledgement before each of them. -/
def twoPackets : List (List Byte × List Byte) :=
  [([0x2b], [0x6d, 0x32, 0x30, 0x30, 0x30, 0x30, 0x30, 0x30, 0x30, 0x2c, 0x34]),
    ([0x0a, 0x2b, 0x23], [0x4d, 0x32, 0x30, 0x30, 0x30, 0x30, 0x30, 0x30, 0x31, 0x2c, 0x32, 0x3a,
      0x61, 0x35, 0x42, 0x36])]

/-- Both are read from pieces that end inside them, and `qCc1` is sent as it is put together. -/
theorem packets_round_trip_two :
    (∃ gc' log, freshCnxn.gdbRecvs (fun rxbuf gc => (rxbuf, gc))
        [(noisyStream twoPackets [0x2d]).take 9, ((noisyStream twoPackets [0x2d]).drop 9).take 11, [],
          (noisyStream twoPackets [0x2d]).drop 20] = .ok (gc', log) ∧
      List.Forall₂ Holds log (twoPackets.map Prod.snd)) ∧
    (gdbEpilogue [.wrote 5, .eintr, .wrote 3] ([PutCall.puts [0x71, 0x43], .puthex [0xc1]].foldl PutCall.run
      (gdbPrologue freshCnxn.toGdbSide))).sent = framed [0x71, 0x43, 0x63, 0x31] := by
  have h := packets_round_trip (θ := Unit) fun rxbuf gc => (rxbuf, gc)
  constructor
  · have hparts : ∀ p ∈ twoPackets, Noise p.1 ∧ 0x23 ∉ p.2 ∧ p.2.length ≤ 8186 := by decide
    exact h.2.1 freshCnxn twoPackets [0x2d] _ ⟨rfl, rfl⟩ hparts (by decide) (by decide)
  · exact (h.1 freshCnxn.toGdbSide [.puts [0x71, 0x43], .puthex [0xc1]] _ (by decide)).2 (by decide)

end M3Dev.Gdb
