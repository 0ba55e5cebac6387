import M3Dev.UsbReceiveAgree

/-! The three drivers, as far as they do what `usb_recv` is for. -/
namespace M3Dev.UsbReceive
open Buffer WhileLoop

section
variable {σ : Type} {ep1Read : ℕ → ℕ → σ → ℤ × σ} (handleIrq : σ → σ) {l : Recv} {s s' : σ}

theorem recvPass_ends (hcount : l.count = 0) (s : σ) :
    recvPass ep1Read handleIrq (l, s) = some (.exit (l.rx, s)) := if_pos hcount

theorem recvPass_busy (hcount : 0 < l.count)
    (hread : ep1Read l.data (if 64 < l.count then 64 else l.count) s = (-UsbV2.ebusy, s)) :
    recvPass ep1Read handleIrq (l, s) = some (.next (l, handleIrq s)) := by
  rw [recvPass, if_neg hcount.ne', hread]
  rfl

theorem recvPass_got {r : ℕ} (hcount : 0 < l.count)
    (hread : ep1Read l.data (if 64 < l.count then 64 else l.count) s = ((r : ℤ), s')) :
    recvPass ep1Read handleIrq (l, s) =
      if r ≠ 64 then some (.exit (((l.add r).rx : ℕ), s')) else some (.next (l.add r, s')) := by
  have hcast : (r : ℤ) ≠ 64 ↔ r ≠ 64 := by omega
  rw [recvPass, if_neg hcount.ne', hread]
  dsimp only
  rw [if_pos (Int.natCast_nonneg r), Int.toNat_natCast]
  simp only [hcast]

/-- The read of the last packet ends the loop, at once or in the next pass. -/
theorem recvPass_last {r : ℕ} (hcount : 0 < l.count)
    (hread : ep1Read l.data (if 64 < l.count then 64 else l.count) s = ((r : ℤ), s'))
    (hr : r ≠ 64 ∨ l.count ≤ r) : Leaves (recvPass ep1Read handleIrq) (l, s) (((l.rx + r : ℕ) : ℤ), s') := by
  have hpass := recvPass_got handleIrq hcount hread
  by_cases hfull : r = 64
  · rw [if_neg (not_not_intro hfull)] at hpass
    apply Leaves.next hpass
    apply Leaves.exit
    apply recvPass_ends
    exact Nat.sub_eq_zero_of_le (hr.resolve_left (not_not_intro hfull))
  · rw [if_pos hfull] at hpass
    exact Leaves.exit hpass

theorem recvPass_full (hcount : 0 < l.count)
    (hread : ep1Read l.data (if 64 < l.count then 64 else l.count) s = (((64 : ℕ) : ℤ), s')) :
    recvPass ep1Read handleIrq (l, s) = some (.next (l.add 64, s')) :=
  (recvPass_got handleIrq hcount hread).trans (if_neg (not_not_intro rfl))

end

theorem reduceOption_eq_cons {p : Packet} {ps : List Packet} {line : Line} (h : line.reduceOption = p :: ps) :
    ∃ early line', line = List.replicate early none ++ some p :: line' ∧ line'.reduceOption = ps := by
  induction line with
  | nil => exact absurd h (by simp)
  | cons e line ih =>
    cases e with
    | none =>
      rw [List.reduceOption_cons_of_none] at h
      obtain ⟨early, line', rfl, hrest⟩ := ih h
      exact ⟨early + 1, line', rfl, hrest⟩
    | some q =>
      rw [List.reduceOption_cons_of_some] at h
      obtain ⟨rfl, hrest⟩ := List.cons.inj h
      exact ⟨0, line, rfl, hrest⟩

end M3Dev.UsbReceive

namespace M3Dev.UsbV1
open Buffer WhileLoop UsbReceive

def driver : Driver Recv State where
  pass := usbRecv
  top := id
  line := State.line
  mem := State.mem
  buf := State.fifo
  Ready s := s.plen = none
  block room _ := (min 64 room + 3) / 4 * 4
  hangs _ := False
  keeps _ _ := False
  fresh line mem := ⟨fun _ => 0, none, line, mem⟩

variable {l : Recv} {s : State} {p : Packet} {ps : List Packet}

theorem usbRecv_busy (hcount : 0 < l.count) (hs : s.plen = none) :
    usbRecv (l, s) = some (.next (l, usbHandleIrq s)) := by
  apply recvPass_busy usbHandleIrq hcount
  have hlen : ¬ 64 < if 64 < l.count then 64 else l.count := by
    split
    all_goals omega
  rw [usbEpNRead, if_neg hlen, hs]

/-- The packet next on the line comes into the buffer. -/
theorem usbRecv_takes (hcount : 0 < l.count) (hs : s.plen = none) (hpackets : s.line.reduceOption = p :: ps) :
    ∃ line, line.reduceOption = ps ∧ Reaches usbRecv (l, s)
      (l, { s with fifo := put s.fifo 0 p, plen := some p.length, line := line }) := by
  obtain ⟨early, line, hline, hrest⟩ := reduceOption_eq_cons hpackets
  refine ⟨line, hrest, ?_⟩
  clear hpackets
  induction early generalizing s with
  | zero =>
    apply Relation.ReflTransGen.single
    rw [usbRecv_busy hcount hs, usbHandleIrq, hline, hs]
    rfl
  | succ early ih =>
    apply Relation.ReflTransGen.head (b := (l, usbHandleIrq s)) (usbRecv_busy hcount hs)
    have hnext : usbHandleIrq s = { s with line := List.replicate early none ++ some p :: line } := by
      rw [usbHandleIrq, hline]
      rfl
    rw [hnext]
    exact ih hs rfl

theorem usbEpNRead_held (hp : p.length ≤ 64) (hs : s.plen = some p.length) :
    usbEpNRead l.data (if 64 < l.count then 64 else l.count) s =
      (((min p.length l.count : ℕ) : ℤ), { s with
        plen := none, mem := put s.mem l.data (get s.fifo 0 ((min 64 l.count + 3) / 4 * 4)) }) := by
  have hlen : (if 64 < l.count then 64 else l.count) = min 64 l.count := by
    split
    all_goals omega
  have hmin : min (p.length % 512) (min 64 l.count) = min p.length l.count := by omega
  rw [hlen, usbEpNRead, if_neg (by omega), hs]
  dsimp only
  rw [hmin]

theorem driver_works : driver.Works where
  fresh_ready _ _ := rfl
  fresh_line _ _ := rfl
  fresh_mem _ _ := rfl
  fresh_buf _ _ _ := rfl
  waits l s hs hcount hpackets := by
    apply diverges_of_invariant fun (a : Recv × State) => a.1 = l ∧ a.2.plen = none ∧ a.2.line.reduceOption = []
    · rintro ⟨l', s'⟩ ⟨rfl, hs', hline⟩
      refine ⟨_, usbRecv_busy hcount hs', rfl, ?_⟩
      obtain ⟨fifo, plen, line, mem⟩ := s'
      cases line with
      | nil => exact ⟨hs', rfl⟩
      | cons e line =>
        cases e with
        | none => exact ⟨hs', hline⟩
        | some p => exact absurd hline (by simp)
    · exact ⟨rfl, hs, hpackets⟩
  full l s p ps hs hcount hpackets hp := by
    obtain ⟨line, hrest, hreach⟩ := usbRecv_takes (l := l) (Nat.zero_lt_of_lt hcount) hs hpackets
    have hread := usbEpNRead_held (l := l)
      (s := { s with fifo := put s.fifo 0 p, plen := some p.length, line := line }) hp.le rfl
    have hall : min p.length l.count = 64 := by omega
    have hwords : (min 64 l.count + 3) / 4 * 4 = p.length := by omega
    rw [hall, hwords, get_put le_rfl, List.take_length] at hread
    refine ⟨_, hreach.tail (recvPass_full usbHandleIrq (Nat.zero_lt_of_lt hcount) hread), rfl, hrest, rfl, rfl⟩
  ends l s p ps hs hcount hpackets hp hend _ := by
    obtain ⟨line, hrest, hreach⟩ := usbRecv_takes (l := l) hcount hs hpackets
    have hread := usbEpNRead_held (l := l)
      (s := { s with fifo := put s.fifo 0 p, plen := some p.length, line := line }) hp rfl
    have hlast := recvPass_last usbHandleIrq hcount hread (by omega)
    exact ⟨_, hreach.leaves hlast, iff_of_true rfl id, hrest, rfl⟩
  hung _ _ _ _ _ _ _ h := h.elim
  covers room p hp := by
    show _ ≤ (min 64 room + 3) / 4 * 4
    omega

end M3Dev.UsbV1

namespace M3Dev.UsbV2
open Buffer WhileLoop UsbReceive

/-- The entry of the endpoint is active, and nothing is left in the buffer. -/
structure OutReady (ep : UsbEp) : Prop where
  size : ep.outSize = 64
  cmd : ep.outCmd = epCmd 0 64
  empty : ep.outLen = ep.outPos

def driver : Driver Recv State where
  pass := usbRecv
  top := id
  line := State.line
  mem := State.mem
  buf s := s.ep.outBuf
  Ready s := OutReady s.ep
  block room p := min p.length room
  hangs p := p = []
  keeps room p := room < p.length
  fresh line mem := ⟨{ usbInitEp1 with outCmd := epCmd 0 64 }, line, mem⟩

/-- The state with a packet in the buffer. -/
def State.hold (s : State) (p : Packet) (line : Line) : State :=
  { s with ep := usbHandleOut (s.ep.outDone p), line := line }

variable {l : Recv} {s : State} {p : Packet} {ps : List Packet}

theorem usbRecv_busy (hcount : 0 < l.count) (hempty : s.ep.outLen = s.ep.outPos) :
    usbRecv (l, s) = some (.next (l, usbHandleIrq s)) := by
  apply recvPass_busy usbHandleIrq hcount
  have hzero : min (s.ep.outLen - s.ep.outPos) (if 64 < l.count then 64 else l.count) = 0 := by
    rw [hempty, Nat.sub_self, Nat.zero_min]
  rw [usbEpRead, hzero]
  rfl

theorem usbRecv_takes (hcount : 0 < l.count) (hs : OutReady s.ep) (hpackets : s.line.reduceOption = p :: ps) :
    ∃ line, line.reduceOption = ps ∧ Reaches usbRecv (l, s) (l, s.hold p line) := by
  obtain ⟨early, line, hline, hrest⟩ := reduceOption_eq_cons hpackets
  refine ⟨line, hrest, ?_⟩
  clear hpackets
  induction early generalizing s with
  | zero =>
    apply Relation.ReflTransGen.single
    rw [usbRecv_busy hcount hs.empty, usbHandleIrq, hline]
    show some (Pass.next (l, if s.ep.outCmd.active = true then _ else _)) = _
    rw [hs.cmd]
    rfl
  | succ early ih =>
    apply Relation.ReflTransGen.head (b := (l, usbHandleIrq s)) (usbRecv_busy hcount hs.empty)
    have hnext : usbHandleIrq s = { s with line := List.replicate early none ++ some p :: line } := by
      rw [usbHandleIrq, hline]
      rfl
    rw [hnext]
    exact ih hs rfl

/-- What the controller and the handler make of a packet. -/
theorem hold_ep (hs : OutReady s.ep) (hp : p.length ≤ 64) (line : Line) : (s.hold p line).ep.outLen = p.length ∧
    (s.hold p line).ep.outPos = 0 ∧ (s.hold p line).ep.outBuf = put s.ep.outBuf 0 p ∧
      (s.hold p line).ep.outSize = 64 := by
  refine ⟨?_, rfl, ?_, hs.size⟩
  · show s.ep.outSize - (s.ep.outCmd.size - p.length) = p.length
    rw [hs.size, hs.cmd]
    show 64 - (64 - p.length) = p.length
    omega
  · show put s.ep.outBuf s.ep.outCmd.addr p = _
    rw [hs.cmd]
    rfl

theorem usbEpRead_held (hcount : 0 < l.count) (hs : OutReady s.ep) (hp : p.length ≤ 64) (hsome : p ≠ [])
    (line : Line) :
    ∃ s', usbEpRead l.data (if 64 < l.count then 64 else l.count) (s.hold p line) =
        (((min p.length l.count : ℕ) : ℤ), s') ∧ (OutReady s'.ep ↔ p.length ≤ l.count) ∧ s'.line = line ∧
      s'.ep.outBuf = put s.ep.outBuf 0 p ∧
      s'.mem = put s.mem l.data (get (put s.ep.outBuf 0 p) 0 (min p.length l.count)) := by
  obtain ⟨hlen, hpos, hbuf, hsize⟩ := hold_ep hs hp line
  have hpos' : 0 < p.length := List.length_pos_of_ne_nil hsome
  have hmin : min (p.length - 0) (if 64 < l.count then 64 else l.count) = min p.length l.count := by
    split
    all_goals omega
  have hne : min p.length l.count ≠ 0 := by omega
  rw [usbEpRead, hlen, hpos, hmin, if_neg hne, hbuf, Nat.zero_add]
  dsimp only
  rw [hsize]
  by_cases hall : min p.length l.count = (s.hold p line).ep.outLen
  · rw [if_pos hall]
    refine ⟨_, rfl, ?_, rfl, hbuf, rfl⟩
    rw [hlen] at hall
    exact iff_of_true ⟨rfl, rfl, hlen.trans hall.symm⟩ (by omega)
  · rw [if_neg hall]
    refine ⟨_, rfl, ?_, rfl, hbuf, rfl⟩
    rw [hlen] at hall
    apply iff_of_false
    · intro hready
      exact hall (hready.empty.symm.trans hlen)
    · omega

theorem driver_works : driver.Works where
  fresh_ready _ _ := ⟨rfl, rfl, rfl⟩
  fresh_line _ _ := rfl
  fresh_mem _ _ := rfl
  fresh_buf _ _ _ := rfl
  waits l s hs hcount hpackets := by
    apply diverges_of_invariant fun (a : Recv × State) => a.1 = l ∧ OutReady a.2.ep ∧ a.2.line.reduceOption = []
    · rintro ⟨l', s'⟩ ⟨rfl, hs', hline⟩
      refine ⟨_, usbRecv_busy hcount hs'.empty, rfl, ?_⟩
      obtain ⟨ep, line, mem⟩ := s'
      cases line with
      | nil => exact ⟨hs', rfl⟩
      | cons e line =>
        cases e with
        | none => exact ⟨hs', hline⟩
        | some p => exact absurd hline (by simp)
    · exact ⟨rfl, hs, hpackets⟩
  full l s p ps hs hcount hpackets hp := by
    have hpos : 0 < l.count := Nat.zero_lt_of_lt hcount
    obtain ⟨line, hrest, hreach⟩ := usbRecv_takes (l := l) hpos hs hpackets
    have hsome : p ≠ [] := by
      rintro rfl
      exact absurd hp (by decide)
    obtain ⟨s', hread, hready, hline, hbuf, hmem⟩ := usbEpRead_held hpos hs hp.le hsome line
    have hall : min p.length l.count = 64 := by omega
    rw [hall] at hread hmem
    rw [get_put hp.ge, ← hp, List.take_length] at hmem
    refine ⟨s', hreach.tail (recvPass_full usbHandleIrq hpos hread), hready.mpr (by omega), ?_, hmem, hbuf⟩
    show s'.line.reduceOption = ps
    rw [hline, hrest]
  ends l s p ps hs hcount hpackets hp hend hsome := by
    obtain ⟨line, hrest, hreach⟩ := usbRecv_takes (l := l) hcount hs hpackets
    obtain ⟨s', hread, hready, hline, _, hmem⟩ := usbEpRead_held hcount hs hp hsome line
    have hlast := recvPass_last usbHandleIrq hcount hread (by omega)
    refine ⟨s', hreach.leaves hlast, hready.trans Nat.not_lt.symm, ?_, hmem⟩
    show s'.line.reduceOption = ps
    rw [hline, hrest]
  -- the entry of an empty packet is not made active again
  hung l s p ps hs hcount hpackets hempty := by
    obtain rfl : p = [] := hempty
    obtain ⟨line, _, hreach⟩ := usbRecv_takes (l := l) hcount hs hpackets
    apply hreach.diverges
    apply diverges_of_invariant fun (a : Recv × State) =>
      a.1 = l ∧ a.2.ep.outLen = a.2.ep.outPos ∧ a.2.ep.outCmd.active = false
    · rintro ⟨l', s'⟩ ⟨rfl, hempty, hactive⟩
      refine ⟨_, usbRecv_busy hcount hempty, rfl, ?_⟩
      obtain ⟨ep, line, mem⟩ := s'
      cases line with
      | nil => exact ⟨hempty, hactive⟩
      | cons e line =>
        cases e with
        | none => exact ⟨hempty, hactive⟩
        | some p =>
          have hstay : usbHandleIrq ⟨ep, some p :: line, mem⟩ = ⟨ep, some p :: line, mem⟩ :=
            if_neg (Bool.not_eq_true _ ▸ hactive)
          rw [hstay]
          exact ⟨hempty, hactive⟩
    · exact ⟨rfl, (hold_ep (p := []) hs (Nat.zero_le 64) line).1, rfl⟩
  covers _ _ _ := le_rfl

end M3Dev.UsbV2

namespace M3Dev.Stm32Usb
open Buffer WhileLoop UsbReceive

def driver : Driver (Recv × Loop) State where
  pass := usbRecv
  top l := (l, .outer)
  line := State.line
  mem := State.mem
  buf := State.ep1rxb
  -- the toggle of the next pass makes it valid
  Ready s := s.statRx = rxNak
  block _ p := (p.length + 1) / 2 * 2
  hangs _ := False
  keeps _ _ := False
  fresh line mem := ⟨fun _ => 0, rxNak, 0, 0, line, mem⟩

/-- The state behind the first statements of a pass. -/
def State.arm (s : State) (l : Recv) : State :=
  toggleRx 1 { s with ep1RxData := l.data, ep1RxStatus := -UsbV2.ebusy }

/-- The state with a packet copied. -/
def State.got (s : State) (p : Packet) (line : Line) : State :=
  usbHandleEp1 p.length { s with ep1rxb := put s.ep1rxb 0 p, statRx := rxNak, line := line }

/-- The endpoint is valid and nothing has come. -/
structure Armed (s : State) : Prop where
  statRx : s.statRx = rxValid
  status : s.ep1RxStatus = -UsbV2.ebusy

variable {l : Recv} {s : State} {p : Packet} {ps : List Packet}

theorem usbRecv_arms (hcount : 0 < l.count) : usbRecv ((l, .outer), s) = some (.next ((l, .waits), s.arm l)) :=
  if_neg hcount.ne'

theorem arm_armed (l : Recv) (hs : s.statRx = rxNak) : Armed (s.arm l) := by
  refine ⟨?_, rfl⟩
  show s.statRx ^^^ 1 = rxValid
  rw [hs]
  rfl

theorem usbRecv_waits (hs : Armed s) : usbRecv ((l, .waits), s) = some (.next ((l, .waits), usbHandleIrq s)) :=
  if_pos hs.status

theorem usbRecv_takes (hs : Armed s) (hpackets : s.line.reduceOption = p :: ps) :
    ∃ line, line.reduceOption = ps ∧ Reaches usbRecv ((l, .waits), s) ((l, .waits), s.got p line) := by
  obtain ⟨early, line, hline, hrest⟩ := reduceOption_eq_cons hpackets
  refine ⟨line, hrest, ?_⟩
  clear hpackets
  induction early generalizing s with
  | zero =>
    apply Relation.ReflTransGen.single
    rw [usbRecv_waits hs, usbHandleIrq, hline]
    show some (Pass.next ((l, Loop.waits), if s.statRx = rxValid then _ else _)) = _
    rw [if_pos hs.statRx]
    rfl
  | succ early ih =>
    apply Relation.ReflTransGen.head (b := ((l, .waits), usbHandleIrq s)) (usbRecv_waits hs)
    have hnext : usbHandleIrq s = { s with line := List.replicate early none ++ some p :: line } := by
      rw [usbHandleIrq, hline]
      rfl
    rw [hnext]
    exact ih ⟨hs.statRx, hs.status⟩ rfl

theorem usbRecv_got (s : State) (line : Line) (hp : p.length ≤ 64) :
    usbRecv ((l, .waits), s.got p line) =
      if min p.length l.count ≠ 64 then
        some (.exit (((l.add (min p.length l.count)).rx : ℕ), s.got p line))
      else
        some (.next ((l.add (min p.length l.count), .outer), s.got p line)) := by
  have hstatus : (s.got p line).ep1RxStatus = p.length := by
    show ((p.length % 1024 : ℕ) : ℤ) = p.length
    omega
  have hready : ¬ (p.length : ℤ) = -UsbV2.ebusy := by
    intro h
    have : (p.length : ℤ) = -2 := h
    omega
  have hclip : (if (l.count : ℤ) < p.length then (l.count : ℤ) else p.length) = (min p.length l.count : ℕ) := by
    split
    all_goals omega
  have hcast : ((min p.length l.count : ℕ) : ℤ) ≠ 64 ↔ min p.length l.count ≠ 64 := by omega
  rw [usbRecv, hstatus, if_neg hready]
  dsimp only
  rw [if_neg (by omega), hclip, Int.toNat_natCast]
  simp only [hcast]

/-- What is copied for a packet. -/
theorem got_mem (l : Recv) (line : Line) (hp : p.length ≤ 64) : ((s.arm l).got p line).mem =
    put s.mem l.data (get (put s.ep1rxb 0 p) 0 ((p.length + 1) / 2 * 2)) := by
  have hlen : p.length % 1024 = p.length := by omega
  show put s.mem l.data (get (put s.ep1rxb 0 p) 0 ((p.length % 1024 + 1) / 2 * 2)) = _
  rw [hlen]

theorem driver_works : driver.Works where
  fresh_ready _ _ := rfl
  fresh_line _ _ := rfl
  fresh_mem _ _ := rfl
  fresh_buf _ _ _ := rfl
  waits l s hs hcount hpackets := by
    apply Diverges.next (usbRecv_arms hcount)
    apply diverges_of_invariant fun (a : (Recv × Loop) × State) =>
      a.1 = (l, .waits) ∧ Armed a.2 ∧ a.2.line.reduceOption = []
    · rintro ⟨l', s'⟩ ⟨rfl, hs', hline⟩
      refine ⟨_, usbRecv_waits hs', rfl, ?_⟩
      obtain ⟨ep1rxb, statRx, ep1RxData, ep1RxStatus, line, mem⟩ := s'
      cases line with
      | nil => exact ⟨hs', rfl⟩
      | cons e line =>
        cases e with
        | none => exact ⟨⟨hs'.statRx, hs'.status⟩, hline⟩
        | some p => exact absurd hline (by simp)
    · exact ⟨rfl, arm_armed l hs, hpackets⟩
  full l s p ps hs hcount hpackets hp := by
    obtain ⟨line, hrest, hreach⟩ := usbRecv_takes (l := l) (arm_armed l hs) hpackets
    have hpass := usbRecv_got (l := l) (s.arm l) line hp.le
    have hall : min p.length l.count = 64 := by omega
    have hmem := got_mem (s := s) l line hp.le
    have hwords : (p.length + 1) / 2 * 2 = p.length := by omega
    rw [hwords, get_put le_rfl, List.take_length] at hmem
    rw [hall, if_neg (not_not_intro rfl)] at hpass
    refine ⟨(s.arm l).got p line, ?_, rfl, hrest, hmem, rfl⟩
    exact (hreach.tail hpass).head (usbRecv_arms (Nat.zero_lt_of_lt hcount))
  ends l s p ps hs hcount hpackets hp hend _ := by
    obtain ⟨line, hrest, hreach⟩ := usbRecv_takes (l := l) (arm_armed l hs) hpackets
    have hpass := usbRecv_got (l := l) (s.arm l) line hp
    refine ⟨(s.arm l).got p line, ?_, iff_of_true rfl id, hrest, got_mem l line hp⟩
    apply Leaves.next (usbRecv_arms hcount)
    apply hreach.leaves
    by_cases hfull : min p.length l.count = 64
    · rw [hfull, if_neg (not_not_intro rfl)] at hpass
      have hdone : (l.add 64).count = 0 := by
        show l.count - 64 = 0
        omega
      rw [hfull]
      exact Leaves.next hpass (Leaves.exit (if_pos hdone))
    · rw [if_pos hfull] at hpass
      exact Leaves.exit hpass
  hung _ _ _ _ _ _ _ h := h.elim
  covers room p _ := by
    show _ ≤ (p.length + 1) / 2 * 2
    omega

end M3Dev.Stm32Usb

namespace M3Dev.UsbReceive

/-- The drivers. -/
inductive Chip where
  | lpc13xxV1
  | lpc13xxV2
  | stm32f1xx
  deriving DecidableEq

def Chip.Meets : Chip → ℕ → Line → Prop
  | lpc13xxV1 => UsbV1.driver.Meets
  | lpc13xxV2 => UsbV2.driver.Meets
  | stm32f1xx => Stm32Usb.driver.Meets

/-- A last packet that the driver is done with as it should be, with so much space left: a read by
words or halfwords stays inside, nothing remains in the endpoint, and something came. -/
def Chip.Suits : Chip → ℕ → Packet → Prop
  | lpc13xxV1, room, _ => room % 4 = 0 ∨ 64 ≤ room
  | lpc13xxV2, room, p => p ≠ [] ∧ p.length ≤ room
  | stm32f1xx, room, p => (p.length + 1) / 2 * 2 ≤ room

theorem v1_suits {room : ℕ} {p : Packet} : UsbV1.driver.Suits room p ↔ Chip.Suits .lpc13xxV1 room p := by
  constructor
  · intro h
    have hfits : (min 64 room + 3) / 4 * 4 ≤ room := h.fits
    show room % 4 = 0 ∨ 64 ≤ room
    omega
  · intro h
    have hsuits : room % 4 = 0 ∨ 64 ≤ room := h
    refine ⟨id, id, ?_⟩
    show (min 64 room + 3) / 4 * 4 ≤ room
    omega

theorem v2_suits {room : ℕ} {p : Packet} : UsbV2.driver.Suits room p ↔ Chip.Suits .lpc13xxV2 room p := by
  constructor
  · intro h
    exact ⟨h.ends, Nat.not_lt.mp h.whole⟩
  · rintro ⟨hsome, hroom⟩
    exact ⟨hsome, Nat.not_lt.mpr hroom, Nat.min_le_right _ _⟩

theorem stm32_suits {room : ℕ} {p : Packet} : Stm32Usb.driver.Suits room p ↔ Chip.Suits .stm32f1xx room p :=
  ⟨fun h => h.fits, fun h => ⟨id, id, h⟩⟩

/-- Each driver does what `usb_recv` is for exactly where the packet that ends it suits the driver. -/
theorem usbRecv_meets_iff (chip : Chip) {count : ℕ} {line : Line} (hcount : 0 < count)
    (hsize : ∀ p ∈ line.reduceOption, p.length ≤ 64) :
    chip.Meets count line ↔ ∀ room p, last count line.reduceOption = some (room, p) → chip.Suits room p := by
  cases chip with
  | lpc13xxV1 =>
    rw [Chip.Meets, UsbV1.driver_works.meets_iff hcount hsize]
    simp only [v1_suits]
  | lpc13xxV2 =>
    rw [Chip.Meets, UsbV2.driver_works.meets_iff hcount hsize]
    simp only [v2_suits]
  | stm32f1xx =>
    rw [Chip.Meets, Stm32Usb.driver_works.meets_iff hcount hsize]
    simp only [stm32_suits]

/-- Three bytes after a wait, with space for four. -/
theorem usbRecv_meets_iff_three : Chip.Meets .stm32f1xx 4 [none, some [1, 2, 3]] ↔
    ∀ room p, last 4 [[1, 2, 3]] = some (room, p) → (p.length + 1) / 2 * 2 ≤ room :=
  usbRecv_meets_iff .stm32f1xx (by decide) (by decide)

/-- An empty packet does not end it. -/
theorem empty_hangs : ¬ ∀ (chip : Chip) (count : ℕ) (line : Line), 0 < count →
    (∀ p ∈ line.reduceOption, p.length ≤ 64) → chip.Meets count line := by
  intro h
  have hmeets : UsbV2.driver.Meets 1 [some []] := h .lpc13xxV2 1 [some []] (by decide) (by decide)
  have hsuits := (UsbV2.driver_works.meets_iff (by decide) (by decide)).mp hmeets 1 [] rfl
  exact hsuits.ends rfl

end M3Dev.UsbReceive
