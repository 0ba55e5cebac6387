import M3Dev.GdbCommand
import M3Dev.GdbHexData
import M3Dev.GdbReadMemory

/-! The `M` packet: decoded bytes stored at any address by accesses to whole words. -/
namespace M3Dev.Gdb
open CallTree Tools ByteBlock WordBlock Rswdp

/-- The access is to the word at a multiple of 4. -/
def WordAligned : Access → Prop
  | .read addr => addr.toNat % 4 = 0
  | .write addr _ => addr.toNat % 4 = 0

/-- The bytes `bs` have been stored at `addr`, by accesses to whole words. -/
structure Wrote (s s' : Bench) (addr : Word) (bs : List Byte) : Prop where
  up : s'.Up
  stored : Stored s.mem s'.mem addr bs
  log : ∃ accesses, s'.log = s.log ++ accesses ∧ ∀ a ∈ accesses, WordAligned a

theorem Wrote.nothing {s : Bench} (hup : s.Up) (addr : Word) : Wrote s s addr [] where
  up := hup
  stored := Stored.nil s.mem addr
  log := ⟨[], (List.append_nil _).symm, fun _ h => absurd h List.not_mem_nil⟩

theorem Wrote.append {s s' s'' : Bench} {addr : Word} {xs ys : List Byte} (h : Wrote s s' addr xs)
    (h' : Wrote s' s'' (byteAddr addr xs.length) ys) (hlen : xs.length + ys.length ≤ 2 ^ 32) :
    Wrote s s'' addr (xs ++ ys) where
  up := h'.up
  stored := h.stored.append h'.stored hlen
  log := by
    obtain ⟨t, ht, haligned⟩ := h.log
    obtain ⟨t', ht', haligned'⟩ := h'.log
    refine ⟨t ++ t', by rw [ht', ht, List.append_assoc], ?_⟩
    intro a ha
    rcases List.mem_append.mp ha with ha | ha
    · exact haligned a ha
    · exact haligned' a ha

section
variable (beyond : Device MemAp → ℕ → Word) (stale : List Word)

/-- Bytes put over a part of a word. -/
theorem rewriteWord_yields (x : Word) {addr : Word} (haligned : addr.toNat % 4 = 0) {offset : ℕ}
    {bs : List Byte} (hfit : offset + bs.length ≤ 4) {s : Bench} (hup : s.Up) :
    ∃ x' s', Yields beyond stale (rewriteWord x addr offset bs) s x' s' ∧
      Wrote s s' (byteAddr addr offset) bs := by
  obtain ⟨a, s1, hread, _, hbuf, hup1, hmem1, _, hlog1⟩ :=
    bench_read beyond stale hup haligned (fun _ => x)
  obtain ⟨a', s2, hwrite, _, hup2, hmem2, _, hlog2⟩ := bench_write beyond stale hup1 haligned
    (patchWord (a.buf 0) offset bs) (fun _ => 0)
  refine ⟨patchWord (a.buf 0) offset bs, s2, ?_, hup2, ?_, ?_⟩
  · apply Yields.call ⟨0, fun fuel _ => hread fuel⟩
    exact Yields.call ⟨0, fun fuel _ => hwrite fuel⟩ (Yields.ret _ _)
  · rw [hmem2, hmem1, hbuf]
    exact stored_patch s.mem haligned hfit
  · refine ⟨[.read addr, .write addr (patchWord (a.buf 0) offset bs)], ?_, ?_⟩
    · rw [hlog2, hlog1, List.append_assoc]
      rfl
    · intro b hb
      rcases List.mem_pair.mp hb with rfl | rfl
      · exact haligned
      · exact haligned

/-- The head is written: what is left starts at a word boundary or is nothing. -/
theorem writeHead_yields (x addr : Word) (data : List Byte) {s : Bench} (hup : s.Up) :
    ∃ k x' s', Yields beyond stale (writeHead (x, addr, data)) s
        (x', byteAddr addr k, data.drop k) s' ∧ Wrote s s' addr (data.take k) ∧
      k ≤ data.length ∧ (data.length = k ∨ (byteAddr addr k).toNat % 4 = 0) := by
  by_cases haligned : addr &&& 3 = 0
  · refine ⟨0, x, s, ?_, Wrote.nothing hup addr, Nat.zero_le _, .inr ?_⟩
    · simp only [writeHead, haligned, ne_eq, not_true_eq_false, ↓reduceIte, byteAddr_zero,
        List.drop_zero]
      exact Yields.ret _ _
    · rw [byteAddr_zero, ← and_three_toNat, haligned]
      rfl
  · have hoff : addr.toNat % 4 < 4 := Nat.mod_lt _ (by decide)
    let k := min (4 - addr.toNat % 4) data.length
    obtain ⟨x', s', hrun, hwrote⟩ := @rewriteWord_yields beyond stale x _
      (align_aligned addr) (addr.toNat % 4) (data.take k) (by rw [List.length_take]; omega) _ hup
    rw [byteAddr_align] at hwrote
    refine ⟨k, x', s', ?_, hwrote, Nat.min_le_right _ _, ?_⟩
    · simp only [writeHead, haligned, ne_eq, not_false_eq_true, ↓reduceIte, and_three_toNat]
      exact hrun.bind (Yields.ret _ _)
    · by_cases hall : data.length ≤ 4 - addr.toNat % 4
      · exact .inl (Nat.min_eq_right hall).symm
      · right
        have hk : k = 4 - addr.toNat % 4 := Nat.min_eq_left (by omega)
        rw [byteAddr_toNat, hk]
        omega

/-- The whole words are written: less than a word is left. -/
theorem writeWords_yields (x addr : Word) (data : List Byte) {s : Bench} (hup : s.Up)
    (haligned : data.length = 0 ∨ addr.toNat % 4 = 0) (hlen : data.length ≤ 2 ^ 30) :
    ∃ k s', Yields beyond stale (writeWords (x, addr, data)) s
        (x, byteAddr addr k, data.drop k) s' ∧ Wrote s s' addr (data.take k) ∧
      k ≤ data.length ∧ data.length - k ≤ 3 ∧ (data.length = k ∨ (byteAddr addr k).toNat % 4 = 0) := by
  by_cases hlong : data.length > 3
  · have haddr : addr.toNat % 4 = 0 := by
      rcases haligned with h | h
      · omega
      · exact h
    obtain ⟨F, a, s', hrun, _, hup', hmem, _, hlog⟩ := bench_write32 beyond stale hup haddr
      (wordsAt data) (n := data.length / 4) (by omega)
    have hbytes := wordsAt_bytes data (n := data.length / 4) (by omega)
    refine ⟨4 * (data.length / 4), s', ?_, ⟨hup', ?_, ?_⟩, by omega, by omega, .inr ?_⟩
    · simp only [writeWords, hlong, ↓reduceIte]
      exact Yields.call ⟨F, hrun⟩ (Yields.ret _ _)
    · rw [hmem, ← hbytes]
      exact stored_words s.mem haddr _ (by rw [List.length_map, List.length_range]; omega)
    · refine ⟨_, hlog, ?_⟩
      intro b hb
      obtain ⟨i, hi, rfl⟩ := List.mem_iff_getElem.mp hb
      rw [List.getElem_zipWith]
      simp only [WordAligned, load, List.getElem_map, List.getElem_range, id]
      exact wordAddr_aligned haddr i
    · exact wordAddr_aligned haddr (data.length / 4)
  · refine ⟨0, s, ?_, Wrote.nothing hup addr, Nat.zero_le _, by omega, ?_⟩
    · simp only [writeWords, hlong, ↓reduceIte, byteAddr_zero, List.drop_zero]
      exact Yields.ret _ _
    · rw [byteAddr_zero]
      exact haligned

theorem writeTail_yields (x addr : Word) (data : List Byte) {s : Bench} (hup : s.Up)
    (haligned : data.length = 0 ∨ addr.toNat % 4 = 0) (hlen : data.length ≤ 3) :
    ∃ s', Yields beyond stale (writeTail (x, addr, data)) s () s' ∧ Wrote s s' addr data := by
  by_cases hsome : data.length > 0
  · have haddr : addr.toNat % 4 = 0 := by
      rcases haligned with h | h
      · omega
      · exact h
    obtain ⟨x', s', hrun, hwrote⟩ := @rewriteWord_yields beyond stale x _ haddr 0
      data (by omega) _ hup
    rw [byteAddr_zero] at hwrote
    refine ⟨s', ?_, hwrote⟩
    simp only [writeTail, hsome, ↓reduceIte]
    exact hrun.bind (Yields.ret _ _)
  · have hnone : data = [] := List.eq_nil_of_length_eq_zero (by omega)
    subst hnone
    exact ⟨s, Yields.ret _ _, Wrote.nothing hup addr⟩

theorem writeMemory_yields (x addr : Word) (data : List Byte) {s : Bench} (hup : s.Up)
    (hlen : data.length ≤ 2 ^ 30) :
    ∃ s', Yields beyond stale (writeMemory x addr data) s () s' ∧ Wrote s s' addr data := by
  by_cases hshort : data.length < 1
  · have hnone : data = [] := List.eq_nil_of_length_eq_zero (by omega)
    subst hnone
    exact ⟨s, Yields.ret _ _, Wrote.nothing hup addr⟩
  · obtain ⟨k, x1, s1, hhead, hwrote1, hk, haligned1⟩ := writeHead_yields beyond stale x addr data hup
    obtain ⟨m, s2, hwords, hwrote2, hm, hrest, haligned2⟩ := writeWords_yields beyond stale x1
      (byteAddr addr k) (data.drop k) hwrote1.up
      (by rw [List.length_drop]; omega) (by rw [List.length_drop]; omega)
    rw [List.length_drop] at hm hrest haligned2
    obtain ⟨s3, htail, hwrote3⟩ := writeTail_yields beyond stale x1 (byteAddr (byteAddr addr k) m)
      ((data.drop k).drop m) hwrote2.up
      (by rw [List.length_drop, List.length_drop]; omega)
      (by rw [List.length_drop, List.length_drop]; omega)
    refine ⟨s3, ?_, ?_⟩
    · simp only [writeMemory, hshort, ↓reduceIte]
      exact hhead.bind (hwords.bind htail)
    · -- the three blocks are next to each other
      have hmiddle := @Wrote.append _ _ _ _ _ ((data.drop k).drop m) hwrote2
        (by rwa [List.length_take, List.length_drop, Nat.min_eq_left hm])
        (by rw [List.length_take, List.length_drop, List.length_drop, List.length_drop]; omega)
      rw [List.take_append_drop] at hmiddle
      have hall := @Wrote.append _ _ _ _ _ (data.drop k) hwrote1
        (by rwa [List.length_take, Nat.min_eq_left hk])
        (by rw [List.length_take, List.length_drop]; omega)
      rwa [List.take_append_drop] at hall

/-- The reply leaves the target alone. -/
theorem epilogue_yields (gc : Conn) (s : Bench) :
    ∃ r s', Yields beyond stale (epilogue gc) s r s' ∧ s'.host = s.host ∧ s'.dev = s.dev := by
  cases hclose : (gdbClose gc).2 with
  | none =>
    refine ⟨gdbEpilogue [] gc, s, ?_, rfl, rfl⟩
    simp only [epilogue, hclose]
    exact Yields.ret _ _
  | some packet =>
    refine ⟨gdbEpilogue [] gc, { s with sent := s.sent ++ [packet] }, ?_, rfl, rfl⟩
    simp only [epilogue, hclose]
    exact Yields.call ⟨0, fun _ _ => rfl⟩ (Yields.ret _ _)

end

/-! ### The packet -/

/-- A packet `M head:ds` is in the buffer, its head the address `x` and a count `n`. -/
structure WritePacket (rxbuf : ℕ → Byte) (x n : Word) (ds : List Byte) : Prop where
  packet : ∃ head, cstr rxbuf 0 = 0x4d :: (head ++ 0x3a :: ds) ∧ 0x3a ∉ head ∧
    scanHexes 2 head = [x, n]
  fits : (cstr rxbuf 0).length < maxpkt

/-- The handler stores the bytes decoded from the packet. -/
theorem handleWriteMemory_eq {rxbuf : ℕ → Byte} {x n : Word} {ds : List Byte}
    (h : WritePacket rxbuf x n ds) (frame : ℕ → Word) (gc : Conn) :
    ∃ rxbuf', handleWriteMemory frame rxbuf gc =
      (do
        writeMemory (frame 258) x (hexBytes ds)
        return (rxbuf', gdbPuts gc (ascii "OK"))) := by
  obtain ⟨⟨head, hpacket, hcolon, hscan⟩, hfits⟩ := h
  rw [hpacket, List.length_cons, List.length_append, List.length_cons] at hfits
  obtain ⟨hat, hfree⟩ := cstrFrom_holdsAt hpacket
    (by rw [List.length_cons, List.length_append, List.length_cons]; omega)
  rw [List.mem_cons, not_or, List.mem_append, not_or, List.mem_cons, not_or] at hfree
  obtain ⟨_, hhead, _, hds⟩ := hfree
  have hbehind : HoldsAt rxbuf 1 (head ++ 0x3a :: ds) := (holdsAt_cons.mp hat).2
  have hstr : cstr rxbuf 1 = head ++ 0x3a :: ds := by
    apply hbehind.cstr
    · rw [List.mem_append, not_or, List.mem_cons, not_or]
      exact ⟨hhead, by decide, hds⟩
    · rw [List.length_append, List.length_cons]
      omega
  have hfound : strchr rxbuf 1 0x3a = some (1 + head.length) := by
    rw [strchr, hstr, idxOf?_append hcolon]
    rfl
  -- the colon becomes the end of the head
  have hcut := (hbehind.cut).cstr hhead (by omega)
  have hdata := ((holdsAt_cons.mp hbehind.drop).2).update (j := 1 + head.length)
    (.inl (Nat.lt_succ_self _)) 0
  obtain ⟨rxbuf', hrun, hbytes, _⟩ := @hextobin_decodes _ _ _ _ hdata hds (Nat.zero_le _)
    maxpkt (by omega)
  refine ⟨rxbuf', ?_⟩
  simp only [Nat.zero_add] at hbytes
  simp only [handleWriteMemory, hfound, hcut, hscan, hrun, hbytes]

/-- The packet's bytes are stored at its address and nothing else changes. -/
theorem writeMemory_stores (beyond : Device MemAp → ℕ → Word) (stale : List Word)
    {rxbuf : ℕ → Byte} {x n : Word} {ds : List Byte} (h : WritePacket rxbuf x n ds) (gc : Conn)
    {s : Bench} (hup : s.Up) (frame : ℕ → Word) (threads : ℕ) :
    ∃ r s', Yields beyond stale (handleCommand threads frame rxbuf gc) s r s' ∧
      Wrote s s' x (hexBytes ds) := by
  have hletter : letter (rxbuf 0) = .writeMemory := by
    obtain ⟨⟨head, hpacket, _, _⟩, hfits⟩ := h
    rw [hpacket] at hfits
    have hat := (cstrFrom_holdsAt hpacket hfits).1
    rw [(holdsAt_cons.mp hat).1]
    rfl
  obtain ⟨rxbuf', hbody⟩ := handleWriteMemory_eq h frame (gdbPrologue gc)
  have hshort : (hexBytes ds).length ≤ 2 ^ 30 := by
    obtain ⟨⟨head, hpacket, _, _⟩, hfits⟩ := h
    rw [hpacket, List.length_cons, List.length_append, List.length_cons] at hfits
    rw [hexBytes_length]
    have : maxpkt = 8192 := rfl
    omega
  obtain ⟨s1, hwrite, hwrote⟩ :=
    writeMemory_yields beyond stale (frame 258) x (hexBytes ds) hup hshort
  obtain ⟨gc', s2, hreply, hhost, hdev⟩ :=
    epilogue_yields beyond stale (gdbPuts (gdbPrologue gc) (ascii "OK")) s1
  have hanswer : Yields beyond stale
      (answerCommand threads frame .writeMemory rxbuf (gdbPrologue gc)) s
      (rxbuf', gdbPuts (gdbPrologue gc) (ascii "OK")) s1 := by
    rw [answerCommand, hbody]
    exact hwrite.bind (Yields.ret _ s1)
  refine ⟨(rxbuf', gc'), s2, ?_, ?_⟩
  · rw [handleCommand, hletter]
    apply hanswer.bind
    exact hreply.bind (Yields.ret _ s2)
  · refine ⟨?_, ?_, ?_⟩
    · rw [Bench.Up, hhost]
      exact hwrote.up
    · have hmem : s2.mem = s1.mem := congrArg (fun d => d.target.mem) hdev
      rw [hmem]
      exact hwrote.stored
    · have hlog : s2.log = s1.log := congrArg (fun d => d.target.log) hdev
      rw [hlog]
      exact hwrote.log

theorem writeMemory_stores_M :
    ∃ r s', Yields (fun _ _ => 0) []
        (handleCommand 0 (fun _ => 0) (holding (ascii "M20000003,2:a5B6")) idleConn)
        emptyBench r s' ∧ Wrote emptyBench s' 0x20000003 [0xa5, 0xb6] := by
  have h : WritePacket (holding (ascii "M20000003,2:a5B6")) 0x20000003 2 (ascii "a5B6") :=
    ⟨⟨ascii "20000003,2", by decide, by decide, by decide⟩, by decide⟩
  exact writeMemory_stores (fun _ _ => 0) [] h idleConn emptyBench_up (fun _ => 0) 0

end M3Dev.Gdb
