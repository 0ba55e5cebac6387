import M3Dev.RswdpFirmware
import M3Dev.SwdFrames

/-! The other end of the data line: the debug port of a target, clock by clock, and the serial
controller of m3debug connected to it. -/
namespace M3Dev.SwdPort
open CallTree SerialBits Wire WhileLoop

/-- What lies behind the port. A request is put off with WAIT so many times, is then taken or not,
and only a request that is taken reads or writes a register. -/
structure Registers (σ : Type) where
  waits : Word → σ → ℕ
  takes : Word → σ → Bool
  read : Word → σ → Word × σ
  write : Word → Word → σ → σ
  /-- after a FAULT, or a word with the wrong parity -/
  fault : Word → σ → σ
  lineReset : σ → σ
  lineReset_twice : ∀ s, lineReset (lineReset s) = lineReset s

/-- Where the port is in the protocol. -/
inductive Phase where
  | idle
  /-- bits of a request, the start bit first -/
  | header (seen : List Bool)
  /-- the bit the port puts on the line, and those behind it; `store` is the request whose word
  the host sends next -/
  | answer (bit : Bool) (bits : List Bool) (store : Option Word)
  /-- the clock in which the line goes back to the host -/
  | turn (store : Option Word)
  | data (hdr : Word) (seen : List Bool)
  /-- out of step, until fifty high bits in a row have been seen -/
  | lost (ones : ℕ)
  deriving DecidableEq

structure DebugPort (σ : Type) where
  phase : Phase
  /-- how often the request has been put off -/
  waited : ℕ
  regs : σ

variable {σ : Type} (R : Registers σ)

/-- The bits of a request: start, AP or DP, read or write, two of the address, parity, stop, park. -/
def wellFormed : List Bool → Bool
  | [start, ap, rnw, a2, a3, parity, stop, park] =>
    start && parity == oddOnes [ap, rnw, a2, a3] && !stop && park
  | _ => false

/-- The bits of an answer after its turnaround bit, which leaves the line high. -/
def Phase.rest : List Bool → Option Word → Phase
  | [], store => .turn store
  | b :: bits, store => .answer b bits store

namespace DebugPort

/-- The last bit of a request. -/
def request (s : DebugPort σ) (bits : List Bool) : DebugPort σ :=
  let hdr : Word := ofMsbFirst 32 bits
  if ¬ wellFormed bits then { s with phase := .lost (bits.reverse.takeWhile id).length }
  else if s.waited < R.waits hdr s.regs then
    { s with phase := .answer true [false, true, false] none, waited := s.waited + 1 }
  else if R.takes hdr s.regs then
    if bits.getD 2 false then
      let r := R.read hdr s.regs
      { phase := .answer true (true :: false :: false ::
          (lsbFirst 32 r.1 ++ [oddOnes (lsbFirst 32 r.1)])) none
        waited := 0, regs := r.2 }
    else { s with phase := .answer true [true, false, false] (some hdr), waited := 0 }
  else
    { phase := .answer true [false, false, true] none, waited := 0, regs := R.fault hdr s.regs }

/-- A word and its parity have come in. -/
def store (s : DebugPort σ) (hdr : Word) (bits : List Bool) : DebugPort σ :=
  if bits.getD 32 false = oddOnes (bits.take 32) then
    { s with phase := .idle, regs := R.write hdr (ofLsbFirst 32 (bits.take 32)) s.regs }
  else { s with phase := .idle, regs := R.fault hdr s.regs }

/-- The port sees a level that it has not put on the line itself. -/
def hear (s : DebugPort σ) (b : Bool) : DebugPort σ :=
  match s.phase with
  | .idle => { s with phase := if b then .header [b] else .idle }
  | .header seen =>
    if seen.length = 7 then s.request R (seen ++ [b]) else { s with phase := .header (seen ++ [b]) }
  | .answer _ _ _ => s
  | .turn none => { s with phase := .idle }
  | .turn (some hdr) => { s with phase := .data hdr [] }
  | .data hdr seen =>
    if seen.length = 32 then s.store R hdr (seen ++ [b]) else { s with phase := .data hdr (seen ++ [b]) }
  | .lost ones =>
    if b then
      { s with
        phase := .lost (ones + 1)
        regs := if ones + 1 = 50 then R.lineReset s.regs else s.regs
        waited := if ones + 1 = 50 then 0 else s.waited }
    else { s with phase := if 50 ≤ ones then .idle else .lost 0 }

/-- One clock, with the level the host drives if it does; `none` where both ends drive the line.
Where neither does, the line is pulled up. -/
def clock (driven : Option Bool) (s : DebugPort σ) : Option (Bool × DebugPort σ) :=
  match s.phase, driven with
  | .answer b bits store, none => some (b, { s with phase := .rest bits store })
  | .answer _ _ _, some _ => none
  | _, _ => some (driven.getD true, s.hear R (driven.getD true))

/-- The host drives the bits. -/
def drives : List Bool → DebugPort σ → Option (DebugPort σ)
  | [], s => some s
  | b :: bits, s => (s.clock R (some b)).bind fun r => drives bits r.2

/-- The host takes so many bits. -/
def listens : ℕ → DebugPort σ → Option (List Bool × DebugPort σ)
  | 0, s => some ([], s)
  | k + 1, s => (s.clock R none).bind fun r => (listens k r.2).map fun q => (r.1 :: q.1, q.2)

end DebugPort

/-- The serial controller, with the port at the other end of the line. -/
structure Controller (σ : Type) where
  bits : ℕ
  out : Bool
  received : List Word
  port : DebugPort σ

/-- One frame: it drives the line where the pin is the controller's, and takes what is on the
line where it is not. -/
def Controller.frame (c : Controller σ) (n : Word) : Option (Controller σ) :=
  if c.out then
    (c.port.drives R (msbFirst c.bits n)).map fun p =>
      { c with received := c.received ++ [ofMsbFirst 32 (msbFirst c.bits n)], port := p }
  else
    (c.port.listens R c.bits).map fun r =>
      { c with received := c.received ++ [ofMsbFirst 32 r.1], port := r.2 }

def sspPort : Responder M3Debug.Call Word (Controller σ)
  | .cr0 n, c => some (0, { c with bits := n })
  | .iocon mosi, c => some (0, { c with out := mosi })
  | .writeDr n, c => (c.frame R n).map fun c' => (0, c')
  | .readDr, c =>
    match c.received with
    | [] => some (0, c)
    | n :: ns => some (n, { c with received := ns })

/-- Sixty-four high bits, in four frames. -/
def clockOnes : M3Debug.Program Unit := do
  let _ ← Prog.ask (.writeDr 0xFFFF)
  let _ ← Prog.ask (.writeDr 0xFFFF)
  let _ ← Prog.ask (.writeDr 0xFFFF)
  let _ ← Prog.ask (.writeDr 0xFFFF)
  let _ ← Prog.ask .readDr
  let _ ← Prog.ask .readDr
  let _ ← Prog.ask .readDr
  let _ ← Prog.ask .readDr
  return ()

/-- `swdp_reset` of m3debug. -/
def swdpReset : M3Debug.Program Unit := do
  M3Debug.dirOut 16
  clockOnes
  M3Debug.xmit 0b0111100111100111
  clockOnes

/-- The controller between two transfers. -/
def between (p : DebugPort σ) : Controller σ := ⟨16, true, [], p⟩

/-- The driver's counters and the port. -/
structure Wired (σ : Type) where
  countRdWait : Word
  countWrWait : Word
  port : DebugPort σ

/-- `swdp_read`, `swdp_write` and `swdp_reset` of m3debug, bit by bit; `fuel` bounds the WAITs. -/
def wired (fuel : ℕ) : Rswdp.SwdTarget (Wired σ) where
  swdpRead hdr s :=
    match (M3Debug.swdpRead fuel hdr s.countRdWait).run (sspPort R) (between s.port) with
    | some (.ok (rc, out, count), c) => ({ s with countRdWait := count, port := c.port }, out, rc == 0)
    | _ => (s, 0, false)
  swdpWrite hdr v s :=
    match (M3Debug.swdpWrite fuel hdr v s.countWrWait).run (sspPort R) (between s.port) with
    | some (.ok (rc, count), c) => ({ s with countWrWait := count, port := c.port }, rc == 0)
    | _ => (s, false)
  swdpReset s :=
    match swdpReset.run (sspPort R) (between s.port) with
    | some (.ok (), c) => { s with port := c.port }
    | _ => s

/-- The registers without the line between. -/
def Registers.target : Rswdp.SwdTarget σ where
  swdpRead hdr s :=
    if R.takes hdr s then ((R.read hdr s).2, (R.read hdr s).1, true)
    else (R.fault hdr s, 0xffffffff, false)
  swdpWrite hdr v s := if R.takes hdr s then (R.write hdr v s, true) else (R.fault hdr s, false)
  swdpReset s := R.lineReset s

/-! ### Clocks -/

theorem ofLsbFirst_lsbFirst (v : Word) : ofLsbFirst 32 (lsbFirst 32 v) = v := by
  apply BitVec.eq_of_getLsbD_eq
  intro i hi
  rw [getLsbD_ofLsbFirst hi]
  simp [lsbFirst, hi]

namespace DebugPort
variable {R} {p p' p'' : DebugPort σ}

theorem drives_append {xs ys : List Bool} (h : p.drives R xs = some p') :
    p.drives R (xs ++ ys) = p'.drives R ys := by
  induction xs generalizing p with
  | nil => rw [← Option.some.inj h, List.nil_append]
  | cons x xs ih =>
    obtain ⟨r, hclock, hrest⟩ := Option.bind_eq_some_iff.mp h
    rw [List.cons_append, drives, hclock]
    exact ih hrest

/-- A train of bits that the port takes, it takes up to any place. -/
theorem drives_split {xs ys : List Bool} (h : p.drives R (xs ++ ys) = some p'') :
    ∃ p', p.drives R xs = some p' ∧ p'.drives R ys = some p'' := by
  induction xs generalizing p with
  | nil => exact ⟨p, rfl, h⟩
  | cons x xs ih =>
    obtain ⟨r, hclock, hrest⟩ := Option.bind_eq_some_iff.mp h
    obtain ⟨p', hxs, hys⟩ := ih hrest
    refine ⟨p', ?_, hys⟩
    rw [drives, hclock]
    exact hxs

theorem listens_append {j k : ℕ} {xs ys : List Bool} (h : p.listens R j = some (xs, p'))
    (h' : p'.listens R k = some (ys, p'')) : p.listens R (j + k) = some (xs ++ ys, p'') := by
  induction j generalizing p xs with
  | zero =>
    obtain ⟨rfl, rfl⟩ := Prod.mk.inj (Option.some.inj h)
    rwa [Nat.zero_add]
  | succ j ih =>
    obtain ⟨r, hclock, hrest⟩ := Option.bind_eq_some_iff.mp h
    obtain ⟨⟨zs, q⟩, hq, hcons⟩ := Option.map_eq_some_iff.mp hrest
    obtain ⟨rfl, rfl⟩ := Prod.mk.inj hcons
    rw [Nat.add_right_comm, listens, hclock]
    show Option.map _ _ = _
    rw [ih hq]
    rfl

/-- An answer comes bit by bit, and the line goes back to the host behind it. -/
theorem listens_answer (b : Bool) (bits : List Bool) (hdr : Option Word) (w : ℕ) (s : σ) :
    (⟨.answer b bits hdr, w, s⟩ : DebugPort σ).listens R (bits.length + 1) =
      some (b :: bits, ⟨.turn hdr, w, s⟩) := by
  induction bits generalizing b with
  | nil => rfl
  | cons b' bits ih =>
    rw [List.length_cons, listens]
    show Option.map _ ((⟨.answer b' bits hdr, w, s⟩ : DebugPort σ).listens R (bits.length + 1)) = _
    rw [ih]
    rfl

/-- The first bits of an answer. -/
theorem listens_front (b : Bool) (xs : List Bool) (b' : Bool) (ys : List Bool) (hdr : Option Word)
    (w : ℕ) (s : σ) :
    (⟨.answer b (xs ++ b' :: ys) hdr, w, s⟩ : DebugPort σ).listens R (xs.length + 1) =
      some (b :: xs, ⟨.answer b' ys hdr, w, s⟩) := by
  induction xs generalizing b with
  | nil => rfl
  | cons x xs ih =>
    rw [List.length_cons, List.cons_append, listens]
    show Option.map _ ((⟨.answer x (xs ++ b' :: ys) hdr, w, s⟩ : DebugPort σ).listens R
      (xs.length + 1)) = _
    rw [ih]
    rfl

/-- Low bits leave an idle port idle. -/
theorem drives_low (k w : ℕ) (s : σ) :
    (⟨.idle, w, s⟩ : DebugPort σ).drives R (List.replicate k false) = some ⟨.idle, w, s⟩ := by
  induction k with
  | zero => rfl
  | succ k ih => exact ih

/-- High bits out of step: the port is reset at the fiftieth. -/
theorem drives_high (n k w : ℕ) (s : σ) :
    (⟨.lost k, w, s⟩ : DebugPort σ).drives R (List.replicate n true) =
      some ⟨.lost (k + n), if k < 50 ∧ 50 ≤ k + n then 0 else w,
        if k < 50 ∧ 50 ≤ k + n then R.lineReset s else s⟩ := by
  induction n generalizing k w s with
  | zero =>
    have hnot : ¬ (k < 50 ∧ 50 ≤ k) := by omega
    simp [drives, hnot]
  | succ n ih =>
    rw [List.replicate_succ, drives]
    show (⟨.lost (k + 1), if k + 1 = 50 then 0 else w,
      if k + 1 = 50 then R.lineReset s else s⟩ : DebugPort σ).drives R _ = _
    rw [ih, Nat.add_assoc k 1 n, Nat.add_comm 1 n]
    by_cases hlast : k + 1 = 50
    · have hgone : ¬ (k + 1 < 50 ∧ 50 ≤ k + (n + 1)) := by omega
      have hnow : k < 50 ∧ 50 ≤ k + (n + 1) := by omega
      rw [if_neg hgone, if_neg hgone, if_pos hlast, if_pos hlast, if_pos hnow, if_pos hnow]
    · have hsame : (k + 1 < 50 ∧ 50 ≤ k + (n + 1)) ↔ (k < 50 ∧ 50 ≤ k + (n + 1)) := by omega
      simp only [if_neg hlast, hsame]

/-- A word and its parity. -/
theorem drives_data (hdr : Word) (seen bits : List Bool) (hlen : seen.length + bits.length ≤ 32)
    (w : ℕ) (s : σ) :
    (⟨.data hdr seen, w, s⟩ : DebugPort σ).drives R bits = some ⟨.data hdr (seen ++ bits), w, s⟩ := by
  induction bits generalizing seen with
  | nil => rw [List.append_nil]; rfl
  | cons b bits ih =>
    rw [List.length_cons] at hlen
    have hmore : seen.length ≠ 32 := by omega
    rw [drives]
    have hclock : (⟨.data hdr seen, w, s⟩ : DebugPort σ).clock R (some b) =
        some (b, ⟨.data hdr (seen ++ [b]), w, s⟩) := by
      simp only [clock, hear, if_neg hmore, Option.getD_some]
    rw [hclock]
    show DebugPort.drives R bits ⟨.data hdr (seen ++ [b]), w, s⟩ = _
    rw [ih (seen ++ [b]) (by rw [List.length_append, List.length_singleton]; omega),
      List.append_assoc]
    rfl

/-- The data phase of a write: the clock of the turnaround, the word, its parity. -/
theorem drives_dataPhase (hdr v : Word) (w : ℕ) (s : σ) :
    (⟨.turn (some hdr), w, s⟩ : DebugPort σ).drives R (M3Debug.dataPhase v) =
      some ⟨.idle, w, R.write hdr v s⟩ := by
  have hlen : (lsbFirst 32 v).length = 32 := by simp [lsbFirst]
  have hbits : (⟨.data hdr [], w, s⟩ : DebugPort σ).drives R (lsbFirst 32 v) =
      some ⟨.data hdr (lsbFirst 32 v), w, s⟩ := by
    apply drives_data
    rw [hlen]
    exact Nat.le_refl _
  have hturn : (⟨.turn (some hdr), w, s⟩ : DebugPort σ).drives R [true] = some ⟨.data hdr [], w, s⟩ :=
    rfl
  have hlast : (⟨.data hdr (lsbFirst 32 v), w, s⟩ : DebugPort σ).clock R
      (some (oddOnes (lsbFirst 32 v))) = some (oddOnes (lsbFirst 32 v), ⟨.idle, w, R.write hdr v s⟩) := by
    have htake : (lsbFirst 32 v ++ [oddOnes (lsbFirst 32 v)]).take 32 = lsbFirst 32 v :=
      List.take_left' hlen
    have hget : (lsbFirst 32 v ++ [oddOnes (lsbFirst 32 v)]).getD 32 false =
        oddOnes (lsbFirst 32 v) := by
      rw [List.getD_append_right _ _ _ _ (by omega), hlen]
      rfl
    simp only [clock, hear, hlen, ↓reduceIte, Option.getD_some, store, htake, hget, ofLsbFirst_lsbFirst]
  have hphase : M3Debug.dataPhase v = [true] ++ (lsbFirst 32 v ++ [oddOnes (lsbFirst 32 v)]) := rfl
  rw [hphase, drives_append hturn, drives_append hbits, drives, hlast]
  rfl

end DebugPort

end M3Dev.SwdPort
