import M3Dev.CallTriple
import M3Dev.GdbRuns
import M3Dev.GdbRoundTrip
import M3Dev.GdbWriteMemory

/-! A session of gdb with the memory of the target: packets read, taken apart, carried out over
the probe and answered, as if the bytes were read and written where they are. -/
namespace M3Dev.Gdb
open CallTree Tools ByteBlock WordBlock Rswdp

/-! ### Bytes -/

/-- What is asked of the memory. -/
inductive Ask where
  | read (x n : Word)
  /-- the digits of the bytes to be written -/
  | write (x : Word) (ds : List Byte)
  /-- anything the bridge does not know -/
  | unknown
  deriving Repr, DecidableEq

/-- The bytes `bs` in the place of those from `x` on. -/
def poke (m : Word → Byte) (x : Word) (bs : List Byte) (a : Word) : Byte := bs.getD (a - x).toNat (m a)

/-- No more than 1024 bytes are read at once. -/
def clipped (n : Word) : Word := if n > 1024 then 1024 else n

def Ask.answer (m : Word → Byte) : Ask → List Byte
  | read x n => ((List.range (clipped n).toNat).map fun i => m (byteAddr x i)).flatMap hex2
  | write _ _ => ascii "OK"
  | unknown => []

def Ask.effect (m : Word → Byte) : Ask → Word → Byte
  | write x ds => poke m x (hexBytes ds)
  | _ => m

/-- One ask after the other: the answers, and the bytes afterwards. -/
def dialogue : List Ask → (Word → Byte) → List (List Byte) × (Word → Byte)
  | [], m => ([], m)
  | a :: as, m =>
    let r := dialogue as (a.effect m)
    (a.answer m :: r.1, r.2)

/-! ### The server -/

/-- The loop of `gdb_server`, for these events. -/
def serveEvents (threads : ℕ) : List ServerEvent → GdbCnxn Bridge → HostProg (GdbCnxn Bridge)
  | [], gc => return gc
  | e :: es, gc => do
    let gc ← serveEvent threads gc e
    serveEvents threads es gc

def ServerEvent.received : ServerEvent → Option Byte
  | .pass => none
  | .byte c => some c

/-- The packet asks it, in any spelling of its numbers. -/
def Ask.Spelled : Ask → List Byte → Prop
  | read x n, packet => ∃ rest, packet = 0x6d :: rest ∧ scanHexes 2 rest = [x, n]
  | write x ds, packet => ∃ head n, packet = 0x4d :: (head ++ 0x3a :: ds) ∧ 0x3a ∉ head ∧
      scanHexes 2 head = [x, n]
  | unknown, packet => ∃ c rest, packet = c :: rest ∧ letter c = .unknown

/-- The words that are fetched for a read are counted from its first byte, and must reach to its
last. -/
def Ask.Fits : Ask → Prop
  | read x n => clipped n = 0 ∨ x.toNat % 4 + (clipped n).toNat ≤ 4 * (((clipped n).toNat + 3) / 4)
  | _ => True

/-- A packet with what comes before it on the line. -/
structure Turn where
  noise : List Byte
  packet : List Byte
  ask : Ask

structure Turn.Sound (t : Turn) : Prop where
  noise : Noise t.noise
  hash : 0x23 ∉ t.packet
  nul : 0 ∉ t.packet
  length : t.packet.length ≤ 8186
  spelled : t.ask.Spelled t.packet
  fits : t.ask.Fits

/-- What gdb sends, with the noise behind it. -/
def sentBy (turns : List Turn) (tail : List Byte) : List Byte :=
  noisyStream (turns.map fun t => (t.noise, t.packet)) tail

/-! ### The bytes of a packet -/

section
variable {θ : Type} (handle : Handler θ) {gc : GdbCnxn θ} {packet : List Byte}

/-- Up to the last check digit a packet is only collected. -/
theorem recv_unchecked (hready : gc.Ready) (hhash : 0x23 ∉ packet) (hroom : packet.length ≤ maxpkt - 1)
    (d : Byte) : ∃ gc', gc.gdbRecv handle (0x24 :: (packet ++ [0x23, d])) = .ok (gc', []) := by
  have hstart : gc.gdbRecvByte handle 0x24 =
      .ok ({ gc with state := .recv, rxsum := 0, rxptr := 0 }, []) := by
    simp only [GdbCnxn.gdbRecvByte, hready.1]
    rfl
  have hpay := GdbCnxn.recv_payload handle { gc with state := .recv, rxsum := 0, rxptr := 0 } packet rfl
    hhash (by simpa using hroom)
  refine ⟨{ gc with
    state := .chk2
    rxsum := 0 + byteSum packet
    rxptr := 0 + packet.length
    rxbuf := fill gc.rxbuf 0 packet
    chk0 := d }, ?_⟩
  rw [GdbCnxn.gdbRecv, hstart]
  simp only [bind, Except.bind, GdbCnxn.gdbRecv_append, hpay, GdbCnxn.gdbRecv,
    GdbCnxn.gdbRecvByte, ↓reduceIte, pure, Except.pure]
  rfl

/-- The last check digit hands the packet over. -/
theorem recv_last (hready : gc.Ready) (hhash : 0x23 ∉ packet) (hroom : packet.length ≤ maxpkt - 1) :
    ∃ front last gc1 gc2 rxbuf, framed packet = front ++ [last] ∧
      gc.gdbRecv handle front = .ok (gc1, []) ∧
      gc1.gdbRecvByte handle last = .ok (gc2, [rxbuf]) ∧ gc2.Ready ∧ Holds rxbuf packet := by
  obtain ⟨gc2, rxbuf, hwhole, hready2, hholds⟩ := GdbCnxn.recv_framed handle gc packet hready hhash hroom
  obtain ⟨high, low, hframed⟩ : ∃ high low, framed packet = (0x24 :: (packet ++ [0x23, high])) ++ [low] := by
    let sum : Byte := BitVec.ofNat 8 ((packet.map BitVec.toNat).sum % 256)
    refine ⟨hexDigit (sum >>> 4), hexDigit (sum &&& 15), ?_⟩
    rw [List.cons_append, List.append_assoc]
    rfl
  obtain ⟨gc1, hfront⟩ := recv_unchecked handle hready hhash hroom high
  refine ⟨_, low, gc1, gc2, rxbuf, hframed, hfront, ?_, hready2, hholds⟩
  rw [hframed, GdbCnxn.gdbRecv_append, hfront] at hwhole
  simp only [bind, Except.bind, pure, Except.pure, GdbCnxn.gdbRecv, List.nil_append] at hwhole
  cases hlast : gc1.gdbRecvByte handle low with
  | error e =>
    rw [hlast] at hwhole
    exact absurd hwhole (by simp)
  | ok r =>
    rw [hlast] at hwhole
    obtain ⟨hgc, hlog⟩ := Prod.mk.inj (Except.ok.inj hwhole)
    rw [List.append_nil] at hlog
    exact congrArg Except.ok (Prod.ext hgc hlog)

end

/-! ### Events -/

/-- Bytes that hand nothing over, and looks at a target that is not running. -/
theorem serveEvents_quiet (threads : ℕ) {es : List ServerEvent} {gc gc' : GdbCnxn Bridge}
    (hstill : gc.flags &&& fRunning = 0)
    (hrecv : gc.gdbRecv (fun rxbuf side => (rxbuf, side)) (es.filterMap ServerEvent.received) =
      .ok (gc', [])) : serveEvents threads es gc = .ret gc' ∧ gc'.flags &&& fRunning = 0 := by
  induction es generalizing gc with
  | nil =>
    obtain ⟨rfl, _⟩ := Prod.mk.inj (Except.ok.inj hrecv)
    exact ⟨rfl, hstill⟩
  | cons e es ih =>
    cases e with
    | pass =>
      obtain ⟨hrest, hflags⟩ := ih hstill hrecv
      refine ⟨?_, hflags⟩
      rw [serveEvents, serveEvent, checkHalted, if_pos hstill]
      exact hrest
    | byte c =>
      obtain ⟨⟨gc1, log⟩, hbyte, hafter⟩ := bind_eq_ok.mp hrecv
      obtain ⟨⟨gc2, log'⟩, hlater, hresult⟩ := bind_eq_ok.mp hafter
      obtain ⟨rfl, hnone⟩ := Prod.mk.inj (Except.ok.inj hresult)
      obtain ⟨rfl, rfl⟩ := List.append_eq_nil_iff.mp hnone
      have hflags1 : gc1.flags &&& fRunning = 0 := by
        rw [(gdbRecvByte_fields hbyte).1]
        exact hstill
      obtain ⟨hrest, hflags⟩ := ih hflags1 hlater
      refine ⟨?_, hflags⟩
      rw [serveEvents, serveEvent, serveByte, hbyte]
      exact hrest

theorem serveEvents_append (threads : ℕ) (es es' : List ServerEvent) (gc : GdbCnxn Bridge) :
    serveEvents threads (es ++ es') gc =
      (do
        let gc ← serveEvents threads es gc
        serveEvents threads es' gc) := by
  induction es generalizing gc with
  | nil => rfl
  | cons e es ih =>
    rw [List.cons_append, serveEvents, serveEvents, Prog.bind_assoc]
    congr 1
    ext gc'
    exact ih gc'

/-! ### Programs that send nothing -/

section
variable {beyond : Device MemAp → ℕ → Word} {stale : List Word} {α β : Type}

/-- Where the program comes back, it has sent nothing. -/
def Mute (beyond : Device MemAp → ℕ → Word) (stale : List Word) (p : HostProg α) : Prop :=
  ∀ fuel s, p.Meets (benchResponder beyond stale fuel) s fun _ s' => s'.sent = s.sent

theorem Mute.ret (a : α) : Mute beyond stale (.ret a) := fun _ _ => Prog.Meets.ret rfl

theorem Mute.bind {p : HostProg α} {f : α → HostProg β} (h : Mute beyond stale p)
    (hf : ∀ a, Mute beyond stale (f a)) : Mute beyond stale (p >>= f) := by
  intro fuel s
  apply (h fuel s).bind
  intro a s' hs'
  apply (hf a fuel s').mono
  intro b s'' hs''
  exact hs''.trans hs'

theorem Mute.ite {c : Prop} [Decidable c] {p q : HostProg α} (hp : Mute beyond stale p)
    (hq : Mute beyond stale q) : Mute beyond stale (if c then p else q) :=
  fun fuel s => Prog.Meets.ite (fun _ => hp fuel s) (fun _ => hq fuel s)

variable (beyond stale)

theorem exec_mute (ops : List AhbOp) (buf : ℕ → Word) (k : Answer → α) :
    Mute beyond stale (.call (.exec ops buf) fun a => .ret (k a)) := by
  intro fuel s
  apply Prog.Meets.call
  intro a s' hcall
  apply Prog.Meets.ret
  simp only [benchResponder, benchExec] at hcall
  split at hcall
  · exact absurd hcall (by simp)
  · split at hcall
    · exact absurd hcall (by simp)
    · rw [← (Prod.mk.inj (Option.some.inj hcall)).2]

theorem ahbWrite32_mute (addr : Word) (buf : ℕ → Word) (count : ℤ) :
    Mute beyond stale (swdpAhbWrite32 addr buf count) := by
  intro fuel s
  apply Prog.Meets.call
  intro a s' hcall
  apply Prog.Meets.ret
  simp only [benchResponder, benchLoop] at hcall
  split at hcall
  · rw [← (Prod.mk.inj (Option.some.inj hcall)).2]
  · exact absurd hcall (by simp)

theorem rewriteWord_mute (x addr : Word) (offset : ℕ) (bs : List Byte) :
    Mute beyond stale (rewriteWord x addr offset bs) := by
  apply Mute.bind (exec_mute beyond stale _ _ _)
  intro r
  apply Mute.bind (exec_mute beyond stale _ _ _)
  intro _
  exact Mute.ret _

theorem writeMemory_mute (x addr : Word) (data : List Byte) :
    Mute beyond stale (writeMemory x addr data) := by
  apply Mute.ite (Mute.ret _)
  apply Mute.bind
  · apply Mute.ite _ (Mute.ret _)
    apply (rewriteWord_mute beyond stale _ _ _ _).bind
    intro _
    exact Mute.ret _
  intro s
  apply Mute.bind
  · apply Mute.ite _ (Mute.ret _)
    apply (ahbWrite32_mute beyond stale _ _ _).bind
    intro _
    exact Mute.ret _
  intro s
  apply Mute.ite _ (Mute.ret _)
  apply (rewriteWord_mute beyond stale _ _ _ _).bind
  intro _
  exact Mute.ret _

end

/-! ### Asks -/

/-- The byte at a distance from `x`. -/
theorem byteAddr_sub (x a : Word) : byteAddr x (a - x).toNat = a := by
  rw [byteAddr, BitVec.ofNat_toNat, BitVec.setWidth_eq]
  exact add_sub_cancel x a

/-- Bytes stored are bytes put in place. -/
theorem stored_poke {mem mem' : Word → Word} {x : Word} {bs : List Byte}
    (hlen : bs.length ≤ 2 ^ 32) (h : Stored mem mem' x bs) :
    byteAt mem' = poke (byteAt mem) x bs := by
  ext1 a
  by_cases hin : (a - x).toNat < bs.length
  · have hbyte := h.bytes (a - x).toNat hin
    rw [byteAddr_sub] at hbyte
    rw [hbyte, poke, List.getD_eq_getElem _ _ hin]
  · have hout : ∀ i < bs.length, a ≠ byteAddr x i := by
      rintro i hi rfl
      apply hin
      have hback : (byteAddr x i - x).toNat = i := by
        have h32 : i < 2 ^ 32 := lt_of_lt_of_le hi hlen
        rw [byteAddr, add_sub_cancel_left, BitVec.toNat_ofNat, Nat.mod_eq_of_lt h32]
      rw [hback]
      exact hi
    rw [h.rest a hout, poke, List.getD_eq_default _ _ (by omega)]

theorem clipped_le (n : Word) : (clipped n).toNat ≤ 1024 := by
  unfold clipped
  split
  · decide
  next h => exact Nat.le_of_not_lt h

/-- The packet in the buffer, and the string behind its first character. -/
theorem Holds.packet {rxbuf : ℕ → Byte} {c : Byte} {rest : List Byte} (h : Holds rxbuf (c :: rest))
    (hnul : 0 ∉ c :: rest) (hlen : (c :: rest).length ≤ 8186) :
    rxbuf 0 = c ∧ cstr rxbuf 0 = c :: rest ∧ cstr rxbuf 1 = rest := by
  have hat : HoldsAt rxbuf 0 (c :: rest) := by
    simpa only [HoldsAt, Nat.zero_add] using h
  have hroom : (c :: rest).length < maxpkt := lt_of_le_of_lt hlen (by decide)
  obtain ⟨hhead, hbehind⟩ := holdsAt_cons.mp hat
  refine ⟨hhead, hat.cstr hnul (by omega), hbehind.cstr ?_ ?_⟩
  · exact fun hmem => hnul (List.mem_cons_of_mem c hmem)
  · rw [List.length_cons] at hroom
    omega

/-- The ask has been carried out on the target and answered. -/
structure Answered (a : Ask) (gc gc' : Conn) (s s' : Bench) : Prop where
  up : s'.Up
  bytes : byteAt s'.mem = a.effect (byteAt s.mem)
  sent : s'.sent = s.sent ++ [framed (a.answer (byteAt s.mem))]
  running : gc'.flags &&& fRunning = gc.flags &&& fRunning

section
variable (beyond : Device MemAp → ℕ → Word) (stale : List Word) (threads : ℕ) (frame : ℕ → Word)
  {rxbuf : ℕ → Byte} {packet : List Byte} (gc : Conn) {s : Bench} (hup : s.Up)

/-- The answer put together, and how the connection stands behind it. -/
theorem put_running (bs : List Byte) :
    (gdbEpilogue [] (putBytes (gdbPrologue gc) bs)).flags &&& fRunning = gc.flags &&& fRunning := by
  have hput := (Kept.of_eq rfl rfl : Kept gc (gdbPrologue gc)).put bs
  exact (hput.trans (gdbEpilogue_kept [] _)).running

include hup

theorem read_answered {x n : Word} (hletter : rxbuf 0 = 0x6d) (hscan : scanHexes 2 (cstr rxbuf 1) = [x, n])
    (hfits : (Ask.read x n).Fits) :
    ∃ r s', Yields beyond stale (handleCommand threads frame rxbuf gc) s r s' ∧
      Answered (.read x n) gc r.2 s s' := by
  have hn := clipped_le n
  obtain ⟨F, a, s', hread, _, hin, _, hup', hmem, hsent⟩ := bench_read32 beyond stale hup
    (align_aligned x) frame (n := ((clipped n).toNat + 3) / 4) (by omega)
  let data := ((bytesOf a.buf 258).drop (x &&& 3).toNat).take (clipped n).toNat
  have hdata : data = bytesFrom s.mem x (clipped n).toNat := by
    rcases hfits with hzero | hfits
    · simp only [data, hzero]
      rfl
    · exact dumped_bytes hin hfits (by omega)
  have hlen : data.length ≤ 1024 := le_trans (List.length_take_le _ _) hn
  have hbody : handleCommand threads frame rxbuf gc =
      .call (.ahbRead32 (x &&& ~~~3) frame (((clipped n).toNat + 3) / 4 : ℕ)) fun a => do
        let gc ← epilogue (gdbPuthex (gdbPrologue gc)
          (((bytesOf a.buf 258).drop (x &&& 3).toNat).take (clipped n).toNat))
        return (rxbuf, gc) := by
    have hcommand : letter (rxbuf 0) = .readMemory := by
      rw [hletter]
      rfl
    have hclip : (if n > 1024 then 1024 else n) = clipped n := rfl
    simp only [handleCommand, hcommand, answerCommand, handleReadMemory, hscan, hclip,
      swdpAhbRead32, words_toNat hn, Prog.ask_bind, Prog.call_bind, Prog.pure_eq, Prog.ret_bind]
  refine ⟨(rxbuf, gdbEpilogue [] (gdbPuthex (gdbPrologue gc) data)),
    { s' with sent := s'.sent ++ [framed (data.flatMap hex2)] }, ?_, hup', ?_, ?_, ?_⟩
  · rw [hbody]
    apply Yields.call ⟨F, hread⟩
    rw [epilogue_puthex gc hlen, Prog.call_bind]
    exact Yields.call ⟨0, fun _ _ => rfl⟩ (Yields.ret _ _)
  · exact congrArg byteAt hmem
  · show s'.sent ++ _ = _
    rw [hsent, hdata]
    rfl
  · rw [puthex_eq_putBytes]
    exact put_running gc _

theorem write_answered {x n : Word} {ds : List Byte} (hpacket : WritePacket rxbuf x n ds)
    (hletter : rxbuf 0 = 0x4d) :
    ∃ r s', Yields beyond stale (handleCommand threads frame rxbuf gc) s r s' ∧
      Answered (.write x ds) gc r.2 s s' := by
  obtain ⟨rxbuf', hbody⟩ := handleWriteMemory_eq hpacket frame (gdbPrologue gc)
  have hshort : (hexBytes ds).length ≤ 2 ^ 30 := by
    obtain ⟨⟨head, hcstr, _, _⟩, hroom⟩ := hpacket
    rw [hcstr, List.length_cons, List.length_append, List.length_cons] at hroom
    rw [hexBytes_length]
    have hmax : maxpkt = 8192 := rfl
    omega
  obtain ⟨s1, hwrite, hwrote⟩ := writeMemory_yields beyond stale (frame 258) x (hexBytes ds) hup hshort
  have hsent : s1.sent = s.sent := by
    obtain ⟨F, hF⟩ := hwrite
    exact (writeMemory_mute beyond stale (frame 258) x (hexBytes ds) F s).of_run
      () s1 (hF F (le_refl F))
  have hanswer : Yields beyond stale (answerCommand threads frame .writeMemory rxbuf (gdbPrologue gc)) s
      (rxbuf', gdbPuts (gdbPrologue gc) (ascii "OK")) s1 := by
    rw [answerCommand, hbody]
    exact hwrite.bind (Yields.ret _ s1)
  refine ⟨(rxbuf', gdbEpilogue [] (gdbPuts (gdbPrologue gc) (ascii "OK"))),
    { s1 with sent := s1.sent ++ [framed (ascii "OK")] }, ?_, hwrote.up, ?_, ?_, put_running gc _⟩
  · have hcommand : letter (rxbuf 0) = .writeMemory := by
      rw [hletter]
      rfl
    rw [handleCommand, hcommand]
    apply hanswer.bind
    dsimp only
    rw [epilogue_puts gc (by decide), Prog.call_bind]
    exact Yields.call ⟨0, fun _ _ => rfl⟩ (Yields.ret _ _)
  · exact stored_poke (le_trans hshort (by decide)) hwrote.stored
  · show s1.sent ++ _ = _
    rw [hsent]
    rfl

theorem unknown_answered (hletter : letter (rxbuf 0) = .unknown) :
    ∃ r s', Yields beyond stale (handleCommand threads frame rxbuf gc) s r s' ∧
      Answered .unknown gc r.2 s s' := by
  refine ⟨(rxbuf, gdbEpilogue [] (gdbPuts (gdbPrologue gc) [])), { s with sent := s.sent ++ [framed []] },
    ?_, hup, rfl, rfl, put_running gc []⟩
  have hempty : epilogue (gdbPrologue gc) = _ := @epilogue_puts gc [] (by decide)
  simp only [handleCommand, hletter, answerCommand, Prog.pure_eq, Prog.ret_bind, hempty, Prog.call_bind]
  exact Yields.call ⟨0, fun _ _ => rfl⟩ (Yields.ret _ _)

/-- A packet that asks something is answered. -/
theorem ask_answered {a : Ask} (hspelled : a.Spelled packet) (hfits : a.Fits) (hholds : Holds rxbuf packet)
    (hnul : 0 ∉ packet) (hlen : packet.length ≤ 8186) :
    ∃ r s', Yields beyond stale (handleCommand threads frame rxbuf gc) s r s' ∧
      Answered a gc r.2 s s' := by
  cases a with
  | read x n =>
    obtain ⟨rest, rfl, hscan⟩ := hspelled
    obtain ⟨hletter, _, hrest⟩ := hholds.packet hnul hlen
    apply read_answered beyond stale threads frame gc hup hletter _ hfits
    rw [hrest]
    exact hscan
  | write x ds =>
    obtain ⟨head, n, rfl, hcolon, hscan⟩ := hspelled
    obtain ⟨hletter, hwhole, _⟩ := hholds.packet hnul hlen
    apply write_answered beyond stale threads frame gc hup (n := n) _ hletter
    exact ⟨⟨head, hwhole, hcolon, hscan⟩, hwhole ▸ lt_of_le_of_lt hlen (by decide)⟩
  | unknown =>
    obtain ⟨c, rest, rfl, hletter⟩ := hspelled
    obtain ⟨hfirst, _, _⟩ := hholds.packet hnul hlen
    apply unknown_answered beyond stale threads frame gc hup
    rw [hfirst]
    exact hletter

end

/-! ### Sessions -/

section
variable (beyond : Device MemAp → ℕ → Word) (stale : List Word) (threads : ℕ)

/-- The byte that hands over a packet that asks something. -/
theorem serveByte_answered {gc1 gc2 : GdbCnxn Bridge} {last : Byte} {rxbuf : ℕ → Byte}
    (hbyte : gc1.gdbRecvByte (fun rxbuf side => (rxbuf, side)) last = .ok (gc2, [rxbuf]))
    {t : Turn} (ht : t.Sound) (hholds : Holds rxbuf t.packet) {s : Bench} (hup : s.Up) :
    ∃ gc3 s', Yields beyond stale (serveByte threads gc1 last) s gc3 s' ∧
      Answered t.ask gc1.toGdbSide gc3.toGdbSide s s' ∧ gc3.state = gc2.state ∧ gc3.chk2 = gc2.chk2 := by
  obtain ⟨r, s', hrun, hanswered⟩ := ask_answered beyond stale threads (fun _ => 0) gc2.toGdbSide hup
    ht.spelled ht.fits hholds ht.nul ht.length
  refine ⟨{ gc2 with toGdbSide := r.2, rxbuf := r.1 }, s', ?_, ?_, rfl, rfl⟩
  · simp only [serveByte, hbyte, Prog.ask_bind]
    have hframe : ∃ F, ∀ fuel ≥ F, benchResponder beyond stale fuel .frame s = some (_, s) :=
      ⟨0, fun _ _ => rfl⟩
    exact Yields.call hframe (hrun.bind (Yields.ret _ _))
  · refine ⟨hanswered.up, hanswered.bytes, hanswered.sent, ?_⟩
    have hflags : gc2.flags = gc1.flags := (gdbRecvByte_fields hbyte).1
    rw [← hflags]
    exact hanswered.running

/-- Whatever stands between the packets and however the looks at the target fall between the
bytes, every packet is carried out and answered once, in order, and what is read is what the
bytes of the target were last written to. -/
theorem session_serves (turns : List Turn) (hturns : ∀ t ∈ turns, t.Sound) {tail : List Byte}
    (htail : Noise tail) {es : List ServerEvent}
    (hes : es.filterMap ServerEvent.received = sentBy turns tail) {gc : GdbCnxn Bridge}
    (hready : gc.Ready) (hstill : gc.flags &&& fRunning = 0) {s : Bench} (hup : s.Up) :
    ∃ gc' s', Yields beyond stale (serveEvents threads es gc) s gc' s' ∧ s'.Up ∧
      s'.sent = s.sent ++ (dialogue (turns.map Turn.ask) (byteAt s.mem)).1.map framed ∧
      byteAt s'.mem = (dialogue (turns.map Turn.ask) (byteAt s.mem)).2 ∧
      gc'.Ready ∧ gc'.flags &&& fRunning = 0 := by
  -- a turn at a time; after each the server waits for the next packet
  induction turns generalizing es gc s with
  | nil =>
    have hnoise := GdbCnxn.recv_noise (fun rxbuf side => (rxbuf, side)) gc tail hready.1 htail
    have hbytes : es.filterMap ServerEvent.received = tail := hes
    rw [← hbytes] at hnoise
    obtain ⟨hquiet, hflags⟩ := serveEvents_quiet threads hstill hnoise
    refine ⟨gc, s, ?_, hup, (List.append_nil _).symm, rfl, hready, hflags⟩
    rw [hquiet]
    exact Yields.ret _ _
  | cons t turns ih =>
    have ht := hturns t (List.mem_cons_self ..)
    have hroom : t.packet.length ≤ maxpkt - 1 := le_trans ht.length (by decide)
    obtain ⟨front, last, gc1, gc2, rxbuf, hframed, hfront, hlast, hready2, hholds⟩ :=
      recv_last (fun rxbuf side => (rxbuf, side)) hready ht.hash hroom
    have hnoise := GdbCnxn.recv_noise (fun rxbuf side => (rxbuf, side)) gc t.noise hready.1 ht.noise
    have hsent : sentBy (t :: turns) tail = (t.noise ++ front) ++ last :: sentBy turns tail := by
      have hhead : sentBy (t :: turns) tail = t.noise ++ framed t.packet ++ sentBy turns tail := by
        simp only [sentBy, noisyStream, List.map_cons, List.flatMap_cons, List.append_assoc]
      rw [hhead, hframed]
      simp only [List.append_assoc, List.singleton_append]
    rw [hsent, List.filterMap_eq_append_iff] at hes
    obtain ⟨es1, behind, rfl, hes1, hbehind⟩ := hes
    obtain ⟨es2, e, es3, rfl, hnone, he, hes3⟩ := List.filterMap_eq_cons_iff.mp hbehind
    obtain rfl : e = .byte last := by
      cases e with
      | pass => exact absurd he (by simp [ServerEvent.received])
      | byte c => exact congrArg ServerEvent.byte (Option.some.inj he)
    -- up to the last check digit nothing is handed over
    have hcollected : gc.gdbRecv (fun rxbuf side => (rxbuf, side))
        ((es1 ++ es2).filterMap ServerEvent.received) = .ok (gc1, []) := by
      rw [List.filterMap_append, hes1, List.filterMap_eq_nil_iff.mpr hnone, List.append_nil,
        GdbCnxn.gdbRecv_append, hnoise]
      simp only [bind, Except.bind, hfront]
      rfl
    obtain ⟨hquiet, hflags1⟩ := serveEvents_quiet threads hstill hcollected
    obtain ⟨gc3, s1, hserved, hanswered, hstate, hchk2⟩ :=
      serveByte_answered beyond stale threads hlast ht hholds hup
    have hready3 : gc3.Ready := ⟨hstate.trans hready2.1, hchk2.trans hready2.2⟩
    have hflags3 : gc3.flags &&& fRunning = 0 := hanswered.running.trans hflags1
    obtain ⟨gc', s', hrest, hup', hsent', hbytes', hready', hflags'⟩ :=
      ih (fun t' ht' => hturns t' (List.mem_cons_of_mem _ ht')) hes3 hready3 hflags3 hanswered.up
    refine ⟨gc', s', ?_, hup', ?_, ?_, hready', hflags'⟩
    · rw [← List.append_assoc, serveEvents_append, hquiet]
      exact hserved.bind hrest
    · rw [hsent', hanswered.sent, hanswered.bytes, List.append_assoc]
      rfl
    · rw [hbytes', hanswered.bytes]
      rfl

end

/-- Two bytes are written inside a word, and the word read. -/
def writtenRead : List Turn :=
  [⟨ascii "+", ascii "M20000001,2:a5B6", .write 0x20000001 (ascii "a5B6")⟩,
    ⟨[], ascii "m20000000,4", .read 0x20000000 4⟩]

theorem session_serves_writtenRead : ∃ gc' s',
    Yields (fun _ _ => 0) []
        (serveEvents 0 (.pass :: (sentBy writtenRead [0x2b]).map .byte) (connect (rawCnxn 0)))
        emptyBench gc' s' ∧ s'.sent = [framed (ascii "OK"), framed (ascii "00a5b600")] := by
  have hsound : ∀ t ∈ writtenRead, t.Sound := by
    intro t ht
    rcases List.mem_pair.mp ht with rfl | rfl
    · exact ⟨by decide, by decide, by decide, by decide, ⟨ascii "20000001,2", 2, by decide, by decide, by decide⟩,
        trivial⟩
    · exact ⟨by decide, by decide, by decide, by decide, ⟨ascii "20000000,4", by decide, by decide⟩,
        .inr (by decide)⟩
  have htail : Noise [0x2b] := by decide
  have hes : (ServerEvent.pass :: (sentBy writtenRead [0x2b]).map .byte).filterMap ServerEvent.received =
      sentBy writtenRead [0x2b] := by decide
  have hready : (connect (rawCnxn 0)).Ready := ⟨rfl, rfl⟩
  obtain ⟨gc', s', hrun, _, hsent, _⟩ := session_serves (fun _ _ => 0) [] 0 writtenRead hsound htail hes
    hready (by decide) emptyBench_up
  exact ⟨gc', s', hrun, hsent⟩

end M3Dev.Gdb
