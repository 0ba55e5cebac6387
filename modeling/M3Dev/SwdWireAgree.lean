import M3Dev.SwdPins

/-! The two drivers of the SWD port against the same target. -/
namespace M3Dev.Wire
open CallTree SerialBits M3Debug Gpio

/-- After any acknowledge the target may give, up to the first OK, both drivers put the same data
phase on the line, and both read the word whose bits the target sends. The driver of m3debug goes
through every WAIT before; that of the probe leaves them to its caller. -/
theorem swdp_wires_agree (hdr : BitVec 8) (count : Word) (waits : List Bool) (x dat trace : Bool)
    (rest driven : List Bool) (fuel : ℕ) :
    (∀ v : Word,
      (M3Debug.swdpWrite (fuel + 1 + waits.length) (hdr.setWidth 32) v count).run ssp
          (idle ⟨waits.flatMap wait ++ (ok x ++ rest), driven⟩) =
        some (.ok (0, count + BitVec.ofNat 32 waits.length),
          idle ⟨rest, driven ++ waits.flatMap (fun _ => msbFirst 16 (hdr.setWidth 32)) ++
            msbFirst 16 (hdr.setWidth 32) ++ dataPhase v⟩) ∧
      (Gpio.swdpWrite (hdr.setWidth 32) v).run port (sending dat trace ⟨ok x ++ rest, driven⟩) =
        some (.ok 0, sending false trace
          ⟨rest, driven ++ msbFirst 8 (hdr.setWidth 32) ++ dataPhase v ++ List.replicate 8 false⟩)) ∧
    ∀ (d : Fin 32 → Bool) (p x' : Bool), ∃ value : Word,
      value.toNat = ∑ i : Fin 32, (d i).toNat * 2 ^ i.val ∧
      (M3Debug.swdpRead (fuel + 1 + waits.length) (hdr.setWidth 32) count).run ssp
          (idle ⟨waits.flatMap wait ++ (ok x ++ (List.ofFn d ++ [p, x'] ++ rest)), driven⟩) =
        some (.ok (0, value, count + BitVec.ofNat 32 waits.length),
          idle ⟨rest, driven ++ waits.flatMap (fun _ => msbFirst 16 (hdr.setWidth 32)) ++
            msbFirst 16 (hdr.setWidth 32)⟩) ∧
      (Gpio.swdpRead (hdr.setWidth 32)).run port
          (sending dat trace ⟨ok x ++ (List.ofFn d ++ [p, x'] ++ rest), driven⟩) =
        some (.ok (0, value), sending false true
          ⟨x' :: rest, driven ++ msbFirst 8 (hdr.setWidth 32) ++ [true] ++ List.replicate 8 false⟩) := by
  constructor
  · intro v
    constructor
    · exact M3Debug.swdpWrite_run _ v count waits x rest driven fuel
    · exact Gpio.swdpWrite_run _ v dat trace x rest driven
  · intro d p x'
    have hlen : (List.ofFn d).length = 32 := List.length_ofFn
    refine ⟨ofLsbFirst 32 (List.ofFn d), toNat_ofLsbFirst_ofFn d, ?_, ?_⟩
    · exact M3Debug.swdpRead_run _ count waits x p x' hlen rest driven fuel
    · -- the second turnaround bit is left to the target, the host drives the line by then
      rw [List.append_assoc]
      exact Gpio.swdpRead_run _ dat trace x p hlen (x' :: rest) driven

end M3Dev.Wire
