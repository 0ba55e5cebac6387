import M3Dev.GdbCommand
import M3Dev.HostBench

/-! The `m` packet: the bytes asked for, out of the words fetched for them. -/
namespace M3Dev.Gdb
open CallTree Tools Lk ByteBlock WordBlock Rswdp

/-! ### Replies -/

theorem hex2_injective {a b : Byte} (h : hex2 a = hex2 b) : a = b := by
  have hnat := congrArg (fun ds => strtoul16 (text (ds ++ [0]))) h
  simp only [strtoul16_hex2] at hnat
  exact BitVec.eq_of_toNat_eq hnat

theorem hexdump_injective {as bs : List Byte} (h : as.flatMap hex2 = bs.flatMap hex2) : as = bs := by
  induction as generalizing bs with
  | nil =>
    cases bs with
    | nil => rfl
    | cons b bs => exact absurd h (by simp [hex2])
  | cons a as ih =>
    cases bs with
    | nil => exact absurd h (by simp [hex2])
    | cons b bs =>
      rw [List.flatMap_cons, List.flatMap_cons] at h
      obtain ⟨hhead, htail⟩ := List.append_inj h rfl
      rw [hex2_injective hhead, ih htail]

theorem hexdump_length (bs : List Byte) : (bs.flatMap hex2).length = 2 * bs.length := by
  induction bs with
  | nil => rfl
  | cons b bs ih =>
    rw [List.flatMap_cons, List.length_append, ih, List.length_cons]
    show 2 + 2 * bs.length = _
    omega

/-- The payload can be told from the packet. -/
theorem framed_injective {p q : List Byte} (h : framed p = framed q) : p = q := by
  have hsame := (List.append_inj' h rfl).1
  exact (List.cons.inj hsame).2

/-- A packet put together by put calls is sent framed. -/
theorem epilogue_framed (gc : Conn) (calls : List PutCall)
    (h : (calls.flatMap PutCall.bytes).length ≤ 8186) :
    epilogue (calls.foldl PutCall.run (gdbPrologue gc)) =
      .call (.send (framed (calls.flatMap PutCall.bytes))) fun a =>
        .ret (gdbEpilogue a.writes (calls.foldl PutCall.run (gdbPrologue gc))) := by
  simp only [epilogue, gdbClose_framed gc calls h, Prog.ask_bind, Prog.pure_eq]

/-- The reply is one `gdb_puts`. -/
theorem epilogue_puts (gc : Conn) {bs : List Byte} (hlen : bs.length ≤ 8186) :
    epilogue (gdbPuts (gdbPrologue gc) bs) =
      .call (.send (framed bs)) fun a => .ret (gdbEpilogue a.writes (gdbPuts (gdbPrologue gc) bs)) := by
  have hflat : [PutCall.puts bs].flatMap PutCall.bytes = bs := List.append_nil bs
  have h := epilogue_framed gc [.puts bs] (by rwa [hflat])
  rwa [hflat] at h

/-! ### The words that are fetched -/

/-- `((n + 3) & ~3) / 4` -/
theorem words_toNat {n : Word} (hn : n.toNat ≤ 1024) :
    (((n + 3) &&& ~~~3) / 4).toNat = (n.toNat + 3) / 4 := by
  have hadd : (n + 3).toNat = n.toNat + 3 := by
    rw [BitVec.toNat_add]
    show (n.toNat + 3) % 2 ^ 32 = _
    omega
  rw [BitVec.toNat_udiv, align_toNat, hadd]
  show (n.toNat + 3 - (n.toNat + 3) % 4) / 4 = _
  omega

theorem take_drop_bytesFrom (mem : Word → Word) (addr : Word) {off n m : ℕ} (h : off + n ≤ m) :
    ((bytesFrom mem addr m).drop off).take n = bytesFrom mem (byteAddr addr off) n := by
  obtain ⟨r, rfl⟩ : ∃ r, m = off + (n + r) := ⟨m - off - n, by omega⟩
  have hlen : ∀ a k, (bytesFrom mem a k).length = k := by
    intro a k
    rw [bytesFrom, List.length_map, List.length_range]
  rw [bytesFrom_add, bytesFrom_add, List.drop_left' (hlen _ _), List.take_left' (hlen _ _)]

theorem bytesOf_add (w : ℕ → Word) (m n : ℕ) :
    bytesOf w (m + n) = bytesOf w m ++ bytesOf (fun i => w (m + i)) n := by
  simp only [bytesOf, List.range_add, List.map_append, List.flatMap_append, List.map_map]
  rfl

theorem bytesFrom_getElem? (mem : Word → Word) (addr : Word) {i n : ℕ} (hi : i < n) :
    (bytesFrom mem addr n)[i]? = some (byteAt mem (byteAddr addr i)) := by
  rw [bytesFrom, List.getElem?_map, List.getElem?_range hi, Option.map_some]

theorem bytesOf_length (w : ℕ → Word) (n : ℕ) : (bytesOf w n).length = 4 * n := by
  rw [bytesOf, flatMap_wordBytes_length, List.length_map, List.length_range]

/-- What is dumped: part of the fetched words, and then of what the buffer held. -/
theorem dumped_bytes {mem : Word → Word} {x : Word} {tmp : ℕ → Word} {k n : ℕ}
    (htmp : ∀ i < k, tmp i = mem (wordAddr (x &&& ~~~3) i)) (hfit : x.toNat % 4 + n ≤ 4 * k)
    (hk : k ≤ 258) :
    ((bytesOf tmp 258).drop (x &&& 3).toNat).take n = bytesFrom mem x n := by
  have hwords : bytesOf tmp k = bytesFrom mem (x &&& ~~~3) (4 * k) := by
    rw [← load_wordBytes mem (align_aligned x), bytesOf, load]
    congr 1
    apply List.map_congr_left
    intro i hi
    exact htmp i (List.mem_range.mp hi)
  have hsplit := bytesOf_add tmp k (258 - k)
  rw [Nat.add_sub_cancel' hk] at hsplit
  have hlen : (bytesOf tmp k).length = 4 * k := bytesOf_length tmp k
  rw [hsplit, and_three_toNat, List.drop_append_of_le_length (by omega),
    List.take_append_of_le_length (by rw [List.length_drop]; omega), hwords,
    take_drop_bytesFrom mem _ hfit, byteAddr_align]

/-! ### The packet -/

/-- An `m` packet is in the buffer, asking for `n` bytes at `x`. -/
def AsksFor (rxbuf : ℕ → Byte) (x n : Word) : Prop :=
  rxbuf 0 = 0x6d ∧ scanHexes 2 (cstr rxbuf 1) = [x, n]

/-- The packet is answered with a dump of the target's memory, whatever that memory and
the local buffer hold, and however the connection stands. -/
def DumpsMemory (beyond : Device MemAp → ℕ → Word) (stale : List Word) (rxbuf : ℕ → Byte)
    (x n : Word) : Prop :=
  ∀ (gc : Conn) (s : Bench) (frame : ℕ → Word) (threads : ℕ), s.Up →
    ∃ r s', Yields beyond stale (handleCommand threads frame rxbuf gc) s r s' ∧
      s'.mem = s.mem ∧ s'.sent = s.sent ++ [framed ((bytesFrom s.mem x n.toNat).flatMap hex2)]

/-- The reply is one `gdb_puthex`. -/
theorem epilogue_puthex (gc : Conn) {data : List Byte} (hlen : data.length ≤ 1024) :
    epilogue (gdbPuthex (gdbPrologue gc) data) = .call (.send (framed (data.flatMap hex2)))
      fun a => .ret (gdbEpilogue a.writes (gdbPuthex (gdbPrologue gc) data)) := by
  have hflat : ([PutCall.puthex data].flatMap PutCall.bytes) = data.flatMap hex2 := by
    simp [PutCall.bytes]
  have h := epilogue_framed gc [.puthex data] (by rw [hflat, hexdump_length]; omega)
  rwa [hflat] at h

/-- The handler on a bench that is up: what it sends is cut from the fetched words. -/
theorem readMemory_yields (beyond : Device MemAp → ℕ → Word) (stale : List Word) {rxbuf : ℕ → Byte}
    {x n : Word} (hask : AsksFor rxbuf x n) (hn : n.toNat ≤ 1024) (gc : Conn) {s : Bench}
    (hup : s.Up) (frame : ℕ → Word) (threads : ℕ) :
    ∃ tmp r s', (∀ i < (n.toNat + 3) / 4, tmp i = s.mem (wordAddr (x &&& ~~~3) i)) ∧
      (∀ i, (n.toNat + 3) / 4 ≤ i → tmp i = frame i) ∧
      Yields beyond stale (handleCommand threads frame rxbuf gc) s r s' ∧ s'.mem = s.mem ∧
      s'.sent = s.sent ++
        [framed ((((bytesOf tmp 258).drop (x &&& 3).toNat).take n.toNat).flatMap hex2)] := by
  have hsmall : ¬ n > 1024 := by
    intro h
    have : 1024 < n.toNat := h
    omega
  obtain ⟨F, a, s', hread, _, hin, hout, _, hmem, hsent⟩ := bench_read32 beyond stale hup
    (align_aligned x) frame (n := (n.toNat + 3) / 4) (by omega)
  let data := ((bytesOf a.buf 258).drop (x &&& 3).toNat).take n.toNat
  have hdata : data.length ≤ 1024 := le_trans (List.length_take_le _ _) hn
  have hletter : letter (rxbuf 0) = .readMemory := by rw [hask.1]; rfl
  have hbody : handleCommand threads frame rxbuf gc =
      .call (.ahbRead32 (x &&& ~~~3) frame ((n.toNat + 3) / 4 : ℕ)) fun a => do
        let gc ← epilogue (gdbPuthex (gdbPrologue gc)
          (((bytesOf a.buf 258).drop (x &&& 3).toNat).take n.toNat))
        return (rxbuf, gc) := by
    simp only [handleCommand, hletter, answerCommand, handleReadMemory, hask.2, if_neg hsmall,
      swdpAhbRead32, Prog.ask_bind, Prog.call_bind, words_toNat hn]
    rfl
  refine ⟨a.buf, (rxbuf, gdbEpilogue [] (gdbPuthex (gdbPrologue gc) data)),
    { s' with sent := s'.sent ++ [framed (data.flatMap hex2)] }, hin, hout, ?_, hmem, ?_⟩
  · rw [hbody]
    apply Yields.call ⟨F, hread⟩
    rw [epilogue_puthex gc hdata, Prog.call_bind]
    exact Yields.call ⟨0, fun _ _ => rfl⟩ (Yields.ret _ _)
  · show s'.sent ++ _ = _
    rw [hsent]

/-- A bench with nothing in the target's memory. -/
def emptyBench : Bench where
  host := { sequence := 0, swdOnline := 1, swdMaxwords := 512, swdVersion := 0, swdError := 0,
            swdVerbose := false, mem := fun _ => 0 }
  dev := { target := { select := 0, csw := 0, tar := 0, rdbuff := 0, mem := fun _ => 0, log := [] },
           ram := [], resetN := true, swdpTrace := 0, usb := [], unknown := [] }
  sent := []

theorem emptyBench_up : emptyBench.Up := ⟨rfl, rfl⟩

/-- Behind the words that are fetched lies what the buffer held. -/
theorem bytesOf_beyond {tmp frame : ℕ → Word} {k m : ℕ} (hout : ∀ i, k ≤ i → tmp i = frame i)
    (hk : k < m) :
    (bytesOf tmp m).drop (4 * k) = wordBytes (frame k) ++
      bytesOf (fun i => tmp (k + (1 + i))) (m - k - 1) := by
  have hsplit := bytesOf_add tmp k (1 + (m - k - 1))
  rw [show k + (1 + (m - k - 1)) = m by omega] at hsplit
  rw [hsplit, List.drop_left' (bytesOf_length _ _), bytesOf_add]
  have hone : bytesOf (fun i => tmp (k + i)) 1 = wordBytes (frame k) := by
    rw [← hout k (le_refl k)]
    simp [bytesOf]
  rw [hone]

/-- Where the words fetched do not reach to the end of what was asked for, the dump goes on
with what the buffer held. -/
theorem fits_of_dumpsMemory {beyond : Device MemAp → ℕ → Word} {stale : List Word}
    {rxbuf : ℕ → Byte} {x n : Word} (hask : AsksFor rxbuf x n) (hn : n.toNat ≤ 1024)
    (hdumps : DumpsMemory beyond stale rxbuf x n) :
    n = 0 ∨ x.toNat % 4 + n.toNat ≤ 4 * ((n.toNat + 3) / 4) := by
  by_contra hshort
  rw [not_or] at hshort
  obtain ⟨hne, hshort⟩ := hshort
  have hpos : n.toNat ≠ 0 := fun h => hne (BitVec.eq_of_toNat_eq h)
  -- a buffer of ones over a memory of zeros
  let frame : ℕ → Word := fun _ => 0xffffffff
  obtain ⟨r, s, hs, _, hsent⟩ := hdumps idleConn emptyBench frame 0 emptyBench_up
  obtain ⟨tmp, r', s', _, hout, hs', _, hsent'⟩ :=
    readMemory_yields beyond stale hask hn idleConn emptyBench_up frame 0
  have hsame : s = s' := hs.bench_eq hs'
  rw [← hsame, hsent] at hsent'
  have hdata := hexdump_injective (framed_injective (List.cons.inj (List.append_cancel_left hsent')).1)
  -- the first byte behind the words fetched
  have hpast := congrArg (fun bs => bs[4 * ((n.toNat + 3) / 4) - x.toNat % 4]?) hdata
  have hleft : (bytesFrom emptyBench.mem x n.toNat)[4 * ((n.toNat + 3) / 4) - x.toNat % 4]? = some 0 := by
    rw [bytesFrom_getElem? _ _ (by omega)]
    show some ((wordBytes 0).getD _ 0) = some 0
    have hzero : ∀ i, (wordBytes 0).getD i 0 = 0 := by
      intro i
      match i with
      | 0 | 1 | 2 | 3 | _ + 4 => rfl
    rw [hzero]
  have hright : (((bytesOf tmp 258).drop (x &&& 3).toNat).take
      n.toNat)[4 * ((n.toNat + 3) / 4) - x.toNat % 4]? = some 0xff := by
    have hbyte := congrArg (fun bs => bs[0]?)
      (bytesOf_beyond (m := 258) hout (by omega : (n.toNat + 3) / 4 < 258))
    rw [List.getElem?_drop, Nat.add_zero] at hbyte
    rw [List.getElem?_take_of_lt (by omega), List.getElem?_drop, and_three_toNat,
      Nat.add_sub_cancel' (by omega), hbyte,
      List.getElem?_append_left (by rw [wordBytes_length]; decide)]
    have hones : (wordBytes 0xffffffff)[0]? = some 0xff := by decide
    exact hones
  rw [hleft, hright] at hpast
  exact absurd hpast (by decide)

/-- The words fetched start at the word boundary below `x` but are counted from `x`: the
dump is right exactly where they reach to its end. -/
theorem readMemory_dumps_iff (beyond : Device MemAp → ℕ → Word) (stale : List Word)
    {rxbuf : ℕ → Byte} {x n : Word} (hask : AsksFor rxbuf x n) (hn : n.toNat ≤ 1024) :
    DumpsMemory beyond stale rxbuf x n ↔
      n = 0 ∨ x.toNat % 4 + n.toNat ≤ 4 * ((n.toNat + 3) / 4) := by
  constructor
  · exact fits_of_dumpsMemory hask hn
  · intro hfits gc s frame threads hup
    obtain ⟨tmp, r, s', hin, _, hrun, hmem, hsent⟩ :=
      readMemory_yields beyond stale hask hn gc hup frame threads
    have hcut : ((bytesOf tmp 258).drop (x &&& 3).toNat).take n.toNat =
        bytesFrom s.mem x n.toNat := by
      rcases hfits with rfl | hfits
      · rfl
      · exact dumped_bytes hin hfits (by omega)
    rw [hcut] at hsent
    exact ⟨r, s', hrun, hmem, hsent⟩

theorem readMemory_dumps_iff_m :
    DumpsMemory (fun _ _ => 0) [] (holding (ascii "m20000002,2")) 0x20000002 2 ↔
      (2 : Word) = 0 ∨ (0x20000002 : Word).toNat % 4 + (2 : Word).toNat ≤
        4 * (((2 : Word).toNat + 3) / 4) :=
  readMemory_dumps_iff _ _ ⟨by decide, by decide⟩ (by decide)

/-- Four bytes at the address 1. -/
theorem readMemory_unaligned :
    AsksFor (holding (ascii "m1,4")) 1 4 ∧
      ¬ DumpsMemory (fun _ _ => 0) [] (holding (ascii "m1,4")) 1 4 := by
  have hask : AsksFor (holding (ascii "m1,4")) 1 4 := ⟨by decide, by decide⟩
  refine ⟨hask, ?_⟩
  intro hdumps
  have hfits := fits_of_dumpsMemory hask (by decide) hdumps
  exact absurd hfits (by decide)

end M3Dev.Gdb
