import M3Dev.Buffer
import M3Dev.GdbCommand
import M3Dev.HostBench

/-! The registers of a halted core, moved one at a time through `DCRDR` by what is written to
`DCRSR`. -/
namespace M3Dev.Gdb
open CallTree Tools Buffer

/-- The registers, by the selector in `DCRSR`. -/
structure CoreFile where
  reg : BitVec 5 → Word
  dcrdr : Word

namespace CoreFile

/-- Bit 16 of `DCRSR` tells which way the word goes. -/
def write (c : CoreFile) (addr value : Word) : CoreFile :=
  if addr = cdbgRegData then { c with dcrdr := value }
  else if addr = cdbgRegAddr then
    if value &&& 0x10000 ≠ 0 then
      { c with reg := Function.update c.reg (value.setWidth 5) c.dcrdr }
    else { c with dcrdr := c.reg (value.setWidth 5) }
  else c

def read (c : CoreFile) (addr : Word) : Word := if addr = cdbgRegData then c.dcrdr else 0

/-- The accesses of one transaction; the words read go to `buf` from `i` on. -/
def access : List AhbOp → ℕ → (ℕ → Word) → CoreFile → (ℕ → Word) × CoreFile
  | [], _, buf, c => (buf, c)
  | .write addr value :: ops, i, buf, c => access ops i buf (c.write addr value)
  | .read addr :: ops, i, buf, c => access ops (i + 1) (Function.update buf i (c.read addr)) c

end CoreFile

/-- Every transaction goes through; packets are kept. -/
def coreResponder : Responder Call Answer (CoreFile × List (List Byte))
  | .exec ops buf, (c, sent) =>
    let r := CoreFile.access ops 0 buf c
    some (statusAnswer 0 r.1, (r.2, sent))
  | .send packet, (c, sent) => some (statusAnswer 0 fun _ => 0, (c, sent ++ [packet]))
  | _, s => some (statusAnswer 0 fun _ => 0, s)

/-! ### Selectors -/

theorem selector_read (n : Word) :
    (n &&& 0x1F).setWidth 5 = n.setWidth 5 ∧ (n &&& 0x1F) &&& 0x10000 = 0 := by
  constructor
  · apply BitVec.eq_of_getLsbD_eq
    intro i hi
    interval_cases i <;> simp
  · rw [BitVec.and_assoc]
    exact BitVec.and_zero

theorem selector_write (n : Word) :
    ((n &&& 0x1F) ||| 0x10000).setWidth 5 = n.setWidth 5 ∧
      ((n &&& 0x1F) ||| 0x10000) &&& 0x10000 ≠ 0 := by
  constructor
  · apply BitVec.eq_of_getLsbD_eq
    intro i hi
    interval_cases i <;> simp
  · intro hzero
    have hbit := congrArg (fun w : Word => w.getLsbD 16) hzero
    simp at hbit

namespace CoreFile

theorem write_selector (c : CoreFile) (n v : Word) :
    (c.write cdbgRegData v).write cdbgRegAddr ((n &&& 0x1F) ||| 0x10000) =
      { reg := Function.update c.reg (n.setWidth 5) v, dcrdr := v } := by
  obtain ⟨hsel, hbit⟩ := selector_write n
  have hdata : c.write cdbgRegData v = { c with dcrdr := v } := if_pos rfl
  rw [hdata, write, if_neg (by decide), if_pos rfl, if_pos hbit, hsel]

theorem read_selector (c : CoreFile) (n : Word) :
    c.write cdbgRegAddr (n &&& 0x1F) = { c with dcrdr := c.reg (n.setWidth 5) } := by
  obtain ⟨hsel, hbit⟩ := selector_read n
  rw [write, if_neg (by decide), if_pos rfl, if_neg (not_not_intro hbit), hsel]

/-- One register after the other, into one word after the other. -/
theorem access_reads (ns : List Word) (i : ℕ) (buf : ℕ → Word) (c : CoreFile) :
    ∃ d, access (ns.flatMap coreReadOps) i buf c =
      (put buf i (ns.map fun n => c.reg (n.setWidth 5)), { c with dcrdr := d }) := by
  induction ns generalizing i buf c with
  | nil => exact ⟨c.dcrdr, by rw [List.map_nil, put_nil]; rfl⟩
  | cons n ns ih =>
    let c1 : CoreFile := { c with dcrdr := c.reg (n.setWidth 5) }
    obtain ⟨d, hrest⟩ := ih (i + 1) (Function.update buf i c1.dcrdr) c1
    refine ⟨d, ?_⟩
    have hop : access ((n :: ns).flatMap coreReadOps) i buf c =
        access (ns.flatMap coreReadOps) (i + 1) (Function.update buf i c1.dcrdr) c1 := by
      rw [List.flatMap_cons]
      show access (ns.flatMap coreReadOps) (i + 1)
        (Function.update buf i ((c.write cdbgRegAddr (n &&& 0x1F)).read cdbgRegData))
        (c.write cdbgRegAddr (n &&& 0x1F)) = _
      rw [read_selector]
      rfl
    rw [hop, hrest, List.map_cons, put_cons]

end CoreFile

/-! ### The functions of `rswdp.c` -/

theorem swdpCoreWrite_run (n v : Word) (c : CoreFile) (sent : List (List Byte)) :
    (swdpCoreWrite n v).run coreResponder (c, sent) =
      some (.ok 0, ({ reg := Function.update c.reg (n.setWidth 5) v, dcrdr := v }, sent)) := by
  rw [← c.write_selector n v]
  rfl

theorem swdpCoreRead_run (n old : Word) (c : CoreFile) (sent : List (List Byte)) :
    ∃ d, (swdpCoreRead n old).run coreResponder (c, sent) =
      some (.ok (0, c.reg (n.setWidth 5)), ({ c with dcrdr := d }, sent)) := by
  obtain ⟨d, hread⟩ := c.access_reads [n] 0 (fun _ => old)
  have hops : [n].flatMap coreReadOps = coreReadOps n := List.append_nil _
  have hrun : (swdpCoreRead n old).run coreResponder (c, sent) =
      some (.ok (0, (CoreFile.access (coreReadOps n) 0 (fun _ => old) c).1 0),
        ((CoreFile.access (coreReadOps n) 0 (fun _ => old) c).2, sent)) := rfl
  rw [hops] at hread
  refine ⟨d, ?_⟩
  rw [hrun, hread]
  rfl

theorem swdpCoreReadAll_run (v : ℕ → Word) (c : CoreFile) (sent : List (List Byte)) :
    ∃ regs d, (swdpCoreReadAll v).run coreResponder (c, sent) =
        some (.ok (0, regs), ({ c with dcrdr := d }, sent)) ∧
      ∀ n < 19, regs n = c.reg (BitVec.ofNat 5 n) := by
  let ns : List Word := (List.range 19).map (BitVec.ofNat 32)
  obtain ⟨d, hread⟩ := c.access_reads ns 0 v
  have hops : ns.flatMap coreReadOps =
      (List.range 19).flatMap (fun n => coreReadOps (BitVec.ofNat 32 n)) := List.flatMap_map ..
  rw [hops] at hread
  refine ⟨put v 0 (ns.map fun n => c.reg (n.setWidth 5)), d, ?_, ?_⟩
  · have hrun : (swdpCoreReadAll v).run coreResponder (c, sent) =
        some (.ok (0, (CoreFile.access ((List.range 19).flatMap
            (fun n => coreReadOps (BitVec.ofNat 32 n))) 0 v c).1),
          ((CoreFile.access ((List.range 19).flatMap
            (fun n => coreReadOps (BitVec.ofNat 32 n))) 0 v c).2, sent)) := rfl
    rw [hrun, hread]
  · intro n hn
    have hlt : n < (ns.map fun n => c.reg (n.setWidth 5)).length := by
      rw [List.length_map, List.length_map, List.length_range]
      exact hn
    have hinside : put v 0 (ns.map fun n => c.reg (n.setWidth 5)) (0 + n) = _ := put_inside hlt
    rw [Nat.zero_add] at hinside
    rw [hinside, List.getElem_map, List.getElem_map, List.getElem_range]
    congr 1
    apply BitVec.eq_of_toNat_eq
    rw [BitVec.toNat_setWidth, BitVec.toNat_ofNat, BitVec.toNat_ofNat]
    omega

end M3Dev.Gdb
