import M3Dev.SwdFrames

/-! What the driver of the probe puts on the line and takes from it, clock by clock. -/
namespace M3Dev.Wire.Gpio
open CallTree SerialBits

/-- What a bit is sent with. -/
def dataOf (b : Bool) : Word := if b then d1 else d0

/-- The word whose lowest bit is the only one that may be set. -/
def bitWord (b : Bool) : Word := (BitVec.ofBool b).setWidth 32

/-- The clock is high and the data pin an output that was last at `dat`. -/
def sending (dat trace : Bool) (line : Line) : Port := ⟨true, dat, trace, true, line⟩

/-- The clock is high and the data pin an input. -/
def receiving (trace : Bool) (line : Line) : Port := ⟨true, true, trace, false, line⟩

theorem ite_dataOf {k : ℕ} {m : Word} (hk : k < 32) (hm : m = BitVec.twoPow 32 k) (n : Word) :
    (if n &&& m ≠ 0 then d1 else d0) = dataOf (n.getLsbD k) := by
  have hset : BitVec.twoPow 32 k ≠ 0 := by
    intro hzero
    have hbit : (BitVec.twoPow 32 k).getLsbD k = true := by simp [hk]
    rw [hzero] at hbit
    simp at hbit
  subst hm
  rw [BitVec.and_twoPow, dataOf]
  cases hbit : n.getLsbD k
  · rfl
  · exact if_pos hset

theorem and_one_eq (n : Word) : n &&& 1 = bitWord (n.getLsbD 0) :=
  BitVec.and_one_eq_setWidth_ofBool_getLsbD

theorem xmit_run (b dat trace : Bool) (line : Line) :
    (xmit (dataOf b)).run port (sending dat trace line) =
      some (.ok (), sending b trace { line with driven := line.driven ++ [b] }) := by
  cases b <;> cases dat <;> cases trace <;> rfl

theorem dIn_run (dat trace : Bool) (line : Line) :
    dIn.run port (sending dat trace line) = some (.ok (), ⟨true, dat, trace, false, line⟩) := rfl

theorem dOut_run (trace : Bool) (line : Line) :
    dOut.run port (receiving trace line) = some (.ok (), sending true trace line) := rfl

/-- The clock of the turnaround before the target answers. -/
theorem xmit_turn (dat trace x : Bool) (input driven : List Bool) :
    (xmit d1).run port ⟨true, dat, trace, false, ⟨x :: input, driven⟩⟩ =
      some (.ok (), receiving trace ⟨input, driven⟩) := by
  cases dat <;> cases trace <;> rfl

/-- The clock of the turnaround after it has. -/
theorem xmit_high (dat trace : Bool) (line : Line) :
    (xmit d1).run port (sending dat trace line) =
      some (.ok (), sending true trace { line with driven := line.driven ++ [true] }) :=
  xmit_run true dat trace line

theorem header_run (input : List Bool) (trace : Bool) {k : ℕ} (hk : k ≤ 8) (hdr : Word) (dat : Bool)
    (driven : List Bool) :
    ∃ dat', (header k hdr).run port (sending dat trace ⟨input, driven⟩) =
      some (.ok (), sending dat' trace
        ⟨input, driven ++ (List.range k).map fun i => hdr.getLsbD (7 - i)⟩) := by
  induction k generalizing hdr dat driven with
  | zero => exact ⟨dat, by simp [header]⟩
  | succ k ih =>
    obtain ⟨dat', hrest⟩ := ih (by omega) (hdr <<< 1) (hdr.getLsbD 7) (driven ++ [hdr.getLsbD 7])
    have hbits : ((List.range k).map fun i => (hdr <<< 1).getLsbD (7 - i)) =
        (List.range k).map fun i => hdr.getLsbD (7 - (i + 1)) := by
      apply List.map_congr_left
      intro i hi
      have hik : i < k := List.mem_range.mp hi
      have hnear : 7 - i < 32 := by omega
      have hpos : ¬ 7 - i < 1 := by omega
      rw [BitVec.getLsbD_shiftLeft, Nat.sub_sub]
      simp [hnear, hpos]
    refine ⟨dat', ?_⟩
    rw [header, ite_dataOf (k := 7) (m := 0x80) (by decide) rfl, Prog.run_bind (xmit_run _ _ _ _)]
    dsimp only
    rw [hrest, hbits, List.range_succ_eq_map, List.map_cons, List.map_map, List.append_assoc]
    rfl

/-- A clock of `recv`. -/
theorem recvLoop_clock (k : ℕ) (n bit : Word) (trace b : Bool) (input driven : List Bool) :
    (recvLoop (k + 1) n bit).run port (receiving trace ⟨b :: input, driven⟩) =
      (recvLoop k (if b then n ||| bit else n) (bit <<< 1)).run port (receiving trace ⟨input, driven⟩) := by
  cases b <;> cases trace <;> rfl

theorem recvLoop_run (trace : Bool) (bits : List Bool) (n : Word) (k : ℕ) (input driven : List Bool) :
    (recvLoop bits.length n (1#32 <<< k)).run port (receiving trace ⟨bits ++ input, driven⟩) =
      some (.ok (n ||| (ofLsbFirst 32 bits <<< k)), receiving trace ⟨input, driven⟩) := by
  induction bits generalizing n k with
  | nil =>
    have hzero : ofLsbFirst 32 [] <<< k = 0#32 := BitVec.zero_shiftLeft k
    rw [hzero, BitVec.or_zero]
    rfl
  | cons b bits ih =>
    have hnext : (if b then n ||| (1#32 <<< k) else n) = n ||| (bitWord b <<< k) := by
      cases b
      · rw [if_neg (by decide), show bitWord false = 0#32 from rfl, BitVec.zero_shiftLeft, BitVec.or_zero]
      · rfl
    rw [List.length_cons, List.cons_append, recvLoop_clock, ← BitVec.shiftLeft_add, hnext, ih,
      ofLsbFirst_cons, BitVec.shiftLeft_or_distrib, BitVec.or_assoc, ← BitVec.shiftLeft_add,
      Nat.add_comm 1 k]
    rfl

theorem recv_run (bits : List Bool) {k : ℕ} (hk : bits.length = k) (trace : Bool)
    (input driven : List Bool) :
    (recv k).run port (receiving trace ⟨bits ++ input, driven⟩) =
      some (.ok (ofLsbFirst 32 bits), receiving trace ⟨input, driven⟩) := by
  subst hk
  have hrun := recvLoop_run trace bits 0 0 input driven
  rw [BitVec.shiftLeft_zero, BitVec.shiftLeft_zero] at hrun
  exact hrun.trans (by rw [show (0 : Word) = 0#32 from rfl, BitVec.zero_or])

theorem recv_ok (trace : Bool) (input driven : List Bool) :
    (recv 3).run port (receiving trace ⟨[true, false, false] ++ input, driven⟩) =
      some (.ok 1, receiving trace ⟨input, driven⟩) := recv_run [true, false, false] rfl trace input driven

theorem sendLoop_run (input : List Bool) (trace : Bool) (k : ℕ) (n : Word) (p dat : Bool) (driven : List Bool) :
    ∃ dat', (sendLoop k n (bitWord p)).run port (sending dat trace ⟨input, driven⟩) =
      some (.ok (bitWord ((lsbFirst k n).foldl xor p)),
        sending dat' trace ⟨input, driven ++ lsbFirst k n⟩) := by
  induction k generalizing n p dat driven with
  | zero => exact ⟨dat, by simp [sendLoop, lsbFirst]⟩
  | succ k ih =>
    obtain ⟨dat', hrest⟩ := ih (n >>> 1) (p ^^ n.getLsbD 0) (n.getLsbD 0) (driven ++ [n.getLsbD 0])
    have hparity : bitWord p ^^^ (n &&& 1) = bitWord (p ^^ n.getLsbD 0) := by
      rw [and_one_eq]
      cases p <;> cases n.getLsbD 0 <;> rfl
    refine ⟨dat', ?_⟩
    rw [sendLoop, hparity, ite_dataOf (k := 0) (m := 1) (by decide) rfl, Prog.run_bind (xmit_run _ _ _ _)]
    dsimp only
    rw [hrest, lsbFirst_cons, List.foldl_cons, List.append_assoc]
    rfl

theorem send_run (input : List Bool) (n : Word) (dat trace : Bool) (driven : List Bool) :
    ∃ dat', (send n 32).run port (sending dat trace ⟨input, driven⟩) =
      some (.ok (), sending dat' trace ⟨input, driven ++ lsbFirst 32 n ++ [oddOnes (lsbFirst 32 n)]⟩) := by
  obtain ⟨dat', hloop⟩ := sendLoop_run input trace 32 n false dat driven
  have hlast (b : Bool) : (if bitWord b ≠ 0 then d1 else d0) = dataOf b := by cases b <;> rfl
  refine ⟨oddOnes (lsbFirst 32 n), ?_⟩
  rw [send]
  apply (Prog.run_bind hloop _).trans
  rw [hlast]
  exact xmit_run _ _ _ _

theorem clockLow_run (trace : Bool) (k : ℕ) (dat : Bool) (driven : List Bool) :
    (clockLow (k + 1)).run port (sending dat trace ⟨input, driven⟩) =
      some (.ok (), sending false trace ⟨input, driven ++ List.replicate (k + 1) false⟩) := by
  induction k generalizing dat driven with
  | zero => exact Prog.run_bind (xmit_run false dat trace ⟨input, driven⟩) _
  | succ k ih =>
    have hfirst := xmit_run false dat trace ⟨input, driven⟩
    rw [clockLow]
    apply (Prog.run_bind hfirst _).trans
    rw [ih false, List.append_assoc]
    rfl

theorem swdpWrite_run (hdr v : Word) (dat trace x : Bool) (rest driven : List Bool) :
    (swdpWrite hdr v).run port (sending dat trace ⟨M3Debug.ok x ++ rest, driven⟩) =
      some (.ok 0, sending false trace
        ⟨rest, driven ++ msbFirst 8 hdr ++ M3Debug.dataPhase v ++ List.replicate 8 false⟩) := by
  obtain ⟨d, hheader⟩ := header_run (M3Debug.ok x ++ rest) trace (le_refl 8) hdr dat driven
  obtain ⟨d', hsend⟩ := send_run rest v true trace (driven ++ msbFirst 8 hdr ++ [true])
  rw [swdpWrite, Prog.run_bind hheader, Prog.run_bind (dIn_run _ _ _), M3Debug.ok]
  rw [List.cons_append, Prog.run_bind (xmit_turn _ _ _ _ _), Prog.run_bind (recv_ok _ _ _)]
  rw [Prog.run_bind (dOut_run _ _), Prog.run_bind (xmit_high _ _ _)]
  apply (Prog.run_bind hsend _).trans
  rw [Prog.run_bind (clockLow_run _ _ _ _)]
  simp [M3Debug.dataPhase]

theorem swdpRead_run (hdr : Word) (dat trace x p : Bool) {bits : List Bool} (hlen : bits.length = 32)
    (rest driven : List Bool) :
    (swdpRead hdr).run port (sending dat trace ⟨M3Debug.ok x ++ (bits ++ p :: rest), driven⟩) =
      some (.ok (0, ofLsbFirst 32 bits), sending false true
        ⟨rest, driven ++ msbFirst 8 hdr ++ [true] ++ List.replicate 8 false⟩) := by
  have hclr : (gpioClr 2).run port (sending dat trace ⟨M3Debug.ok x ++ (bits ++ p :: rest), driven⟩) =
      some (.ok (), sending dat false ⟨M3Debug.ok x ++ (bits ++ p :: rest), driven⟩) := by
    cases dat <;> cases trace <;> rfl
  obtain ⟨d, hheader⟩ := header_run (M3Debug.ok x ++ (bits ++ p :: rest)) false (le_refl 8) hdr dat driven
  have hparity : p :: rest = [p] ++ rest := rfl
  rw [swdpRead, Prog.run_bind hclr, Prog.run_bind hheader, Prog.run_bind (dIn_run _ _ _), M3Debug.ok]
  rw [List.cons_append, Prog.run_bind (xmit_turn _ _ _ _ _), Prog.run_bind (recv_ok _ _ _)]
  rw [Prog.run_bind (recv_run bits hlen _ _ _), hparity, Prog.run_bind (recv_run [p] (k := 1) rfl _ _ _)]
  rw [Prog.run_bind (dOut_run _ _), Prog.run_bind (xmit_high _ _ _)]
  rw [Prog.run_bind (clockLow_run _ _ _ _)]
  rfl

end M3Dev.Wire.Gpio
