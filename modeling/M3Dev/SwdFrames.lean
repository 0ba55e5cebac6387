import M3Dev.WordFolds

/-! What the driver of m3debug puts on the line and takes from it, frame by frame. -/
namespace M3Dev.Wire.M3Debug
open CallTree WhileLoop SerialBits
variable {n v : Word} {line : Line}

/-- The controller between two transactions: sixteen bit frames, sent. -/
def idle (line : Line) : Ssp := ⟨16, true, [], line⟩

/-- The acknowledge `OK` behind the turnaround bit. -/
def ok (x : Bool) : List Bool := [x, true, false, false]

/-- The acknowledge `WAIT` behind the turnaround bit. -/
def wait (x : Bool) : List Bool := [x, false, true, false]

/-- The data phase of a write: a high bit, the word with its lowest bit first, its parity. -/
def dataPhase (v : Word) : List Bool := true :: lsbFirst 32 v ++ [oddOnes (lsbFirst 32 v)]

theorem dirOut_run (k : ℕ) (s : Ssp) :
    (dirOut k).run ssp s = some (.ok (), { s with bits := k, out := true }) := rfl

theorem dirIn_run (k : ℕ) (s : Ssp) :
    (dirIn k).run ssp s = some (.ok (), { s with bits := k, out := false }) := rfl

theorem xmit_run (n : Word) (k : ℕ) (line : Line) : (xmit n).run ssp ⟨k, true, [], line⟩ =
    some (.ok (), ⟨k, true, [], { line with driven := line.driven ++ msbFirst k n }⟩) := rfl

theorem recv_run {k : ℕ} {bits rest driven : List Bool} (hk : bits.length = k) :
    recv.run ssp ⟨k, false, [], ⟨bits ++ rest, driven⟩⟩ =
      some (.ok (ofMsbFirst 32 bits), ⟨k, false, [], ⟨rest, driven⟩⟩) := by
  subst hk
  have hle : bits.length ≤ (bits ++ rest).length := by simp
  have hframe : Ssp.frame ⟨bits.length, false, [], ⟨bits ++ rest, driven⟩⟩ 0 =
      some ⟨bits.length, false, [ofMsbFirst 32 bits], ⟨rest, driven⟩⟩ := by
    simp [Ssp.frame]
  have hwrite : ssp (.writeDr 0) ⟨bits.length, false, [], ⟨bits ++ rest, driven⟩⟩ =
      some (0, ⟨bits.length, false, [ofMsbFirst 32 bits], ⟨rest, driven⟩⟩) := by
    show (Ssp.frame _ 0).map _ = _
    rw [hframe]
    rfl
  exact (Prog.run_call hwrite _).trans rfl

theorem ack_ok (x : Bool) : ofMsbFirst 32 (ok x) &&& 7 = 4 := by
  cases x
  · rfl
  · rfl

theorem ack_wait (x : Bool) : ofMsbFirst 32 (wait x) &&& 7 = 2 := by
  cases x
  · rfl
  · rfl

/-! ### The frames of a write -/

theorem msbFirst_revbits {j k : ℕ} (v : Word) (hjk : j + k ≤ 32) :
    msbFirst k (revbits v >>> j) = (List.range k).map fun i => v.getLsbD (32 - j - k + i) := by
  apply List.map_congr_left
  intro i hi
  have hik : i < k := List.mem_range.mp hi
  rw [BitVec.getLsbD_ushiftRight, getLsbD_revbits v (by omega)]
  congr 1
  omega

theorem frame_high (v : Word) :
    msbFirst 9 (0x100#32 ||| (revbits v >>> 24)) = true :: lsbFirst 8 v := by
  simp (disch := decide) [-BitVec.getLsbD_eq_getElem, msbFirst, lsbFirst, List.range_succ, getLsbD_revbits]

theorem frame_mid (v : Word) :
    msbFirst 16 (revbits v >>> 8) = (List.range 16).map fun i => v.getLsbD (8 + i) := msbFirst_revbits v (by omega)

theorem frame_low (v : Word) : msbFirst 9 ((revbits v <<< 1) ||| parity v) =
    ((List.range 8).map fun i => v.getLsbD (24 + i)) ++ [oddOnes (lsbFirst 32 v)] := by
  simp (disch := decide) [-BitVec.getLsbD_eq_getElem, msbFirst, List.range_succ, getLsbD_revbits, parity_bit, parity_above]

theorem frames_eq (v : Word) :
    msbFirst 9 (0x100#32 ||| (revbits v >>> 24)) ++ msbFirst 16 (revbits v >>> 8) ++
      msbFirst 9 ((revbits v <<< 1) ||| parity v) = dataPhase v := by
  rw [frame_high, frame_mid, frame_low]
  simp [dataPhase, lsbFirst, List.range_succ]

theorem swdpWritePass_wait (n v count : Word) (x : Bool) (rest driven : List Bool) :
    (swdpWritePass n v count).run ssp (idle ⟨wait x ++ rest, driven⟩) =
      some (.ok (.next (count + 1)), idle ⟨rest, driven ++ msbFirst 16 n⟩) := by
  rw [swdpWritePass, idle, Prog.run_bind (xmit_run _ _ _), Prog.run_bind (dirIn_run _ _),
    Prog.run_bind (recv_run (by rfl))]
  rw [if_pos (by rw [ack_wait]; decide), if_pos (ack_wait x)]
  rfl

theorem swdpWritePass_ok (n v count : Word) (x : Bool) (rest driven : List Bool) :
    (swdpWritePass n v count).run ssp (idle ⟨ok x ++ rest, driven⟩) =
      some (.ok (.exit (0, count)), idle ⟨rest, driven ++ msbFirst 16 n ++ dataPhase v⟩) := by
  rw [swdpWritePass, idle, Prog.run_bind (xmit_run _ _ _), Prog.run_bind (dirIn_run _ _),
    Prog.run_bind (recv_run (by rfl)), if_neg (by rw [ack_ok]; decide)]
  dsimp only
  rw [Prog.run_bind (dirOut_run _ _), Prog.run_bind (xmit_run _ _ _), Prog.run_bind (dirOut_run _ _), Prog.run_bind (xmit_run _ _ _), Prog.run_bind (dirOut_run _ _), Prog.run_bind (xmit_run _ _ _), Prog.run_bind (dirOut_run _ _)]
  rw [← frames_eq]
  simp [idle]

/-- A transaction that goes to `again` at every WAIT. -/
theorem again_run {α : Type} {pass : Word → Program (Pass Word α)}
    (hwait : ∀ count x rest driven, (pass count).run ssp (idle ⟨wait x ++ rest, driven⟩) =
      some (.ok (.next (count + 1)), idle ⟨rest, driven ++ msbFirst 16 n⟩))
    (count : Word) (waits rest driven : List Bool) (fuel : ℕ) :
    (Prog.loop .waits pass (fuel + waits.length) count).run ssp
        (idle ⟨waits.flatMap wait ++ rest, driven⟩) =
      (Prog.loop .waits pass fuel (count + BitVec.ofNat 32 waits.length)).run ssp
        (idle ⟨rest, driven ++ waits.flatMap fun _ => msbFirst 16 n⟩) := by
  induction waits generalizing count driven with
  | nil => simp
  | cons x waits ih =>
    have hcount : count + 1 + BitVec.ofNat 32 waits.length =
        count + BitVec.ofNat 32 (waits.length + 1) := by
      rw [BitVec.ofNat_add, BitVec.add_assoc, BitVec.add_comm 1]
      rfl
    have hafter := ih (count + 1) (driven ++ msbFirst 16 n)
    rw [hcount, List.append_assoc] at hafter
    rw [List.flatMap_cons, List.append_assoc, List.length_cons, ← Nat.add_assoc,
      Prog.run_loop_next (hwait count x _ driven)]
    exact hafter

/-- Acknowledged with WAIT any number of times, and then with OK. -/
theorem swdpWrite_run (n v count : Word) (waits : List Bool) (x : Bool) (rest driven : List Bool)
    (fuel : ℕ) :
    (swdpWrite (fuel + 1 + waits.length) n v count).run ssp
        (idle ⟨waits.flatMap wait ++ (ok x ++ rest), driven⟩) =
      some (.ok (0, count + BitVec.ofNat 32 waits.length),
        idle ⟨rest, driven ++ waits.flatMap (fun _ => msbFirst 16 n) ++ msbFirst 16 n ++ dataPhase v⟩) := by
  rw [swdpWrite, again_run (fun count x rest driven => swdpWritePass_wait n v count x rest driven)]
  exact Prog.run_loop_exit (swdpWritePass_ok n v _ x rest _) fuel

/-! ### The frames of a read -/

theorem joined {bits : List Bool} (p x : Bool) (hlen : bits.length = 32) {i : ℕ} (hi : i < 32) :
    ((ofMsbFirst 32 (bits.take 16) <<< 16) ||| (ofMsbFirst 32 ((bits.drop 16).take 8) <<< 8) |||
      (ofMsbFirst 32 (bits.drop 24 ++ [p, x]) >>> 2)).getLsbD i = bits.getD (31 - i) false := by
  rw [BitVec.getLsbD_or, BitVec.getLsbD_or, BitVec.getLsbD_shiftLeft, BitVec.getLsbD_shiftLeft,
    BitVec.getLsbD_ushiftRight]
  have hhigh : (bits.take 16).length = 16 := by simp [hlen]
  have hmid : ((bits.drop 16).take 8).length = 8 := by simp [hlen]
  have hlow : (bits.drop 24 ++ [p, x]).length = 10 := by simp [hlen]
  by_cases h16 : 16 ≤ i
  · -- one of the first sixteen, which the other two frames do not reach
    have hnear : ¬ i < 16 := Nat.not_lt.mpr h16
    have hshift : ¬ i < 8 := by omega
    rw [getLsbD_ofMsbFirst (bits.take 16) (by omega) (by omega),
      getLsbD_ofMsbFirst_eq_false ((bits.drop 16).take 8) (by omega),
      getLsbD_ofMsbFirst_eq_false (bits.drop 24 ++ [p, x]) (by omega), hhigh]
    have hindex : 16 - 1 - (i - 16) = 31 - i := by omega
    have htake : 31 - i < 16 := by omega
    simp [hi, hnear, hindex, htake]
  · by_cases h8 : 8 ≤ i
    · have hnear : i < 16 := Nat.not_le.mp h16
      have hshift : ¬ i < 8 := Nat.not_lt.mpr h8
      rw [getLsbD_ofMsbFirst ((bits.drop 16).take 8) (by omega) (by omega),
        getLsbD_ofMsbFirst_eq_false (bits.drop 24 ++ [p, x]) (by omega), hmid]
      have hindex : 16 + (8 - 1 - (i - 8)) = 31 - i := by omega
      have htake : 8 - 1 - (i - 8) < 8 := by omega
      simp [hi, hnear, hshift, htake, hindex]
    · have hnear : i < 16 := Nat.not_le.mp h16
      have hshift : i < 8 := Nat.not_le.mp h8
      rw [getLsbD_ofMsbFirst (bits.drop 24 ++ [p, x]) (by omega) (by omega), hlow]
      have hindex : 24 + (10 - 1 - (2 + i)) = 31 - i := by omega
      have hfront : 10 - 1 - (2 + i) < (bits.drop 24).length := by
        rw [List.length_drop, hlen]
        omega
      simp [hi, hnear, hshift, List.getElem?_append_left hfront, hindex]

theorem revbits_joined {bits : List Bool} (p x : Bool) (hlen : bits.length = 32) :
    revbits ((ofMsbFirst 32 (bits.take 16) <<< 16) ||| (ofMsbFirst 32 ((bits.drop 16).take 8) <<< 8) |||
      (ofMsbFirst 32 (bits.drop 24 ++ [p, x]) >>> 2)) = ofLsbFirst 32 bits := by
  apply BitVec.eq_of_getLsbD_eq
  intro i hi
  have hback : 31 - (31 - i) = i := by omega
  rw [getLsbD_revbits _ hi, joined p x hlen (by omega), hback, getLsbD_ofLsbFirst hi]

theorem swdpReadPass_ok (n count : Word) (x p x' : Bool) {bits : List Bool} (hlen : bits.length = 32)
    (rest driven : List Bool) :
    (swdpReadPass n count).run ssp (idle ⟨ok x ++ (bits ++ [p, x'] ++ rest), driven⟩) =
      some (.ok (.exit (0, ofLsbFirst 32 bits, count)), idle ⟨rest, driven ++ msbFirst 16 n⟩) := by
  have hsplit : bits ++ [p, x'] ++ rest =
      bits.take 16 ++ ((bits.drop 16).take 8 ++ ((bits.drop 24 ++ [p, x']) ++ rest)) := by
    have hdrop : (bits.drop 16).drop 8 = bits.drop 24 := by rw [List.drop_drop]
    rw [← hdrop, ← List.append_assoc, ← List.append_assoc, ← List.append_assoc, List.append_assoc (bits.take 16),
      List.take_append_drop, List.take_append_drop]
  have hhigh : (bits.take 16).length = 16 := by simp [hlen]
  have hmid : ((bits.drop 16).take 8).length = 8 := by simp [hlen]
  have hlow : (bits.drop 24 ++ [p, x']).length = 10 := by simp [hlen]
  rw [hsplit, swdpReadPass, idle, Prog.run_bind (xmit_run _ _ _), Prog.run_bind (dirIn_run _ _),
    Prog.run_bind (recv_run (by rfl)), if_neg (by rw [ack_ok]; decide)]
  rw [Prog.run_bind (dirIn_run _ _), Prog.run_bind (recv_run hhigh)]
  rw [Prog.run_bind (dirIn_run _ _), Prog.run_bind (recv_run hmid)]
  rw [Prog.run_bind (dirIn_run _ _), Prog.run_bind (recv_run hlow)]
  dsimp only
  rw [Prog.run_bind (dirOut_run _ _), revbits_joined p x' hlen]
  rfl

theorem swdpReadPass_wait (n count : Word) (x : Bool) (rest driven : List Bool) :
    (swdpReadPass n count).run ssp (idle ⟨wait x ++ rest, driven⟩) =
      some (.ok (.next (count + 1)), idle ⟨rest, driven ++ msbFirst 16 n⟩) := by
  rw [swdpReadPass, idle, Prog.run_bind (xmit_run _ _ _), Prog.run_bind (dirIn_run _ _),
    Prog.run_bind (recv_run (by rfl))]
  rw [if_pos (by rw [ack_wait]; decide), if_pos (ack_wait x)]
  rfl

theorem swdpRead_run (n count : Word) (waits : List Bool) (x p x' : Bool) {bits : List Bool}
    (hlen : bits.length = 32) (rest driven : List Bool) (fuel : ℕ) :
    (swdpRead (fuel + 1 + waits.length) n count).run ssp
        (idle ⟨waits.flatMap wait ++ (ok x ++ (bits ++ [p, x'] ++ rest)), driven⟩) =
      some (.ok (0, ofLsbFirst 32 bits, count + BitVec.ofNat 32 waits.length),
        idle ⟨rest, driven ++ waits.flatMap (fun _ => msbFirst 16 n) ++ msbFirst 16 n⟩) := by
  rw [swdpRead, again_run (fun count x rest driven => swdpReadPass_wait n count x rest driven)]
  exact Prog.run_loop_exit (swdpReadPass_ok n _ x p x' hlen rest _) fuel

end M3Dev.Wire.M3Debug
