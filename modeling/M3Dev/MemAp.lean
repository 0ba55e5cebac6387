import M3Dev.RswdpAhb32
import M3Dev.RswdpRoundTrip
import M3Dev.WordBlock

/-! The MEM-AP of the target, as far as the bulk transfers use it: AP reads are posted,
and accesses through `DRW` step `TAR` when `CSW` asks for it. -/
namespace M3Dev.Rswdp
open WordBlock

/-- One access of the MEM-AP to the target's memory. -/
inductive Access where
  | read (addr : Word)
  | write (addr value : Word)
  deriving Repr

structure MemAp where
  select : Word
  csw : Word
  tar : Word
  /-- the result of the last AP read -/
  rdbuff : Word
  /-- words by the address they start at -/
  mem : Word → Word
  /-- accesses to the memory, in order -/
  log : List Access

/-- Single increment: four on, inside the page. -/
def MemAp.bump (m : MemAp) : MemAp :=
  if m.csw &&& 0x30 = ahbCswIncSingle then
    { m with tar := (m.tar &&& 0xFFFFF000) ||| ((m.tar + 4) &&& 0xFFF) }
  else m

/-- The register at place `a` of the selected AP's selected bank. -/
def MemAp.reg (m : MemAp) (a : Word) : Word := (m.select &&& 0xFF0000F0) ||| a

/-- A posted read: the result of the read before it, and its own into `RDBUFF`. -/
def MemAp.apRead (m : MemAp) (a : Word) : MemAp × Word × Bool :=
  let m' : MemAp :=
    if m.reg a = ahbCsw then { m with rdbuff := m.csw }
    else if m.reg a = ahbTar then { m with rdbuff := m.tar }
    else if m.reg a = ahbDrw then
      MemAp.bump { m with rdbuff := m.mem m.tar, log := m.log ++ [.read m.tar] }
    else { m with rdbuff := 0 }
  (m', m.rdbuff, true)

def MemAp.apWrite (m : MemAp) (a value : Word) : MemAp × Bool :=
  let m' : MemAp :=
    if m.reg a = ahbCsw then { m with csw := value }
    else if m.reg a = ahbTar then { m with tar := value }
    else if m.reg a = ahbDrw then
      MemAp.bump { m with mem := Function.update m.mem m.tar value,
                          log := m.log ++ [.write m.tar value] }
    else m
  (m', true)

/-- The MEM-AP behind the wire; no access faults. The DP registers that are no business
of the MEM-AP read as zero. -/
def memAp : SwdTarget MemAp where
  swdpRead hdr m :=
    if hdr = rdAp0 then m.apRead 0x0
    else if hdr = rdAp1 then m.apRead 0x4
    else if hdr = rdAp2 then m.apRead 0x8
    else if hdr = rdAp3 then m.apRead 0xC
    else if hdr = rdBuffer then (m, m.rdbuff, true)
    else (m, 0, true)
  swdpWrite hdr value m :=
    if hdr = wrSelect then ({ m with select := value }, true)
    else if hdr = wrAp0 then m.apWrite 0x0 value
    else if hdr = wrAp1 then m.apWrite 0x4 value
    else if hdr = wrAp2 then m.apWrite 0x8 value
    else if hdr = wrAp3 then m.apWrite 0xC value
    else (m, true)
  swdpReset m := m

/-! ### Acts -/

theorem memAp_act_ok (m : MemAp) (a : Act) : (memAp.act m a).2.2 = true := by
  cases a with
  | read hdr =>
    simp only [SwdTarget.act, memAp]
    split_ifs <;> rfl
  | write hdr value =>
    simp only [SwdTarget.act, memAp]
    split_ifs <;> rfl
  | lineReset => rfl

theorem memAp_acts_cons (a : Act) (as : List Act) (m : MemAp) :
    memAp.acts (a :: as) m =
      ⟨(memAp.acts as (memAp.act m a).1).target,
        (memAp.act m a).2.1 :: (memAp.acts as (memAp.act m a).1).values,
        (memAp.acts as (memAp.act m a).1).ok⟩ := by
  simp only [SwdTarget.acts, memAp_act_ok, ↓reduceIte]

theorem memAp_acts_ok (as : List Act) (m : MemAp) : (memAp.acts as m).ok = true := by
  induction as generalizing m with
  | nil => rfl
  | cons a as ih => rw [memAp_acts_cons, ih]

theorem memAp_acts_append (as bs : List Act) (m : MemAp) :
    memAp.acts (as ++ bs) m =
      ⟨(memAp.acts bs (memAp.acts as m).target).target,
        (memAp.acts as m).values ++ (memAp.acts bs (memAp.acts as m).target).values, true⟩ := by
  rw [acts_append_ok memAp as bs m (memAp_acts_ok as m), memAp_acts_ok]

theorem act_select (m : MemAp) (value : Word) :
    memAp.act m (.write wrSelect value) = ({ m with select := value }, 0, true) := rfl

theorem act_csw {m : MemAp} (h : m.select = 0) (value : Word) :
    memAp.act m (.write wrAp0 value) = ({ m with csw := value }, 0, true) := by
  show ((m.apWrite 0x0 value).1, (0 : Word), _) = _
  simp only [MemAp.apWrite, MemAp.reg, h]
  rfl

theorem act_tar {m : MemAp} (h : m.select = 0) (value : Word) :
    memAp.act m (.write wrAp1 value) = ({ m with tar := value }, 0, true) := by
  show ((m.apWrite 0x4 value).1, (0 : Word), _) = _
  simp only [MemAp.apWrite, MemAp.reg, h]
  rfl

theorem act_drw_write {m : MemAp} (h : m.select = 0) (value : Word) :
    memAp.act m (.write wrAp3 value) =
      (MemAp.bump { m with mem := Function.update m.mem m.tar value,
                           log := m.log ++ [.write m.tar value] }, 0, true) := by
  show ((m.apWrite 0xC value).1, (0 : Word), _) = _
  simp only [MemAp.apWrite, MemAp.reg, h]
  rfl

theorem act_drw_read {m : MemAp} (h : m.select = 0) :
    memAp.act m (.read rdAp3) =
      (MemAp.bump { m with rdbuff := m.mem m.tar, log := m.log ++ [.read m.tar] },
        m.rdbuff, true) := by
  show m.apRead 0xC = _
  simp only [MemAp.apRead, MemAp.reg, h]
  rfl

theorem act_rdbuff (m : MemAp) :
    memAp.act m (.read rdBuffer) = (m, m.rdbuff, true) := rfl

/-! ### Auto-increment -/

theorem page_step {tar : Word} (h : tar.toNat % 0x1000 + 4 < 0x1000) :
    (tar &&& 0xFFFFF000) ||| ((tar + 4) &&& 0xFFF) = tar + 4 := by
  have hmask : ∀ w : Word, w &&& (0xFFFFF000 : Word) = (w >>> 12) <<< 12 := by
    intro w
    apply BitVec.eq_of_getLsbD_eq
    intro i hi
    interval_cases i <;> simp
  have hshift : tar >>> 12 = (tar + 4) >>> 12 := by
    apply BitVec.eq_of_toNat_eq
    rw [BitVec.toNat_ushiftRight, BitVec.toNat_ushiftRight, Nat.shiftRight_eq_div_pow,
      Nat.shiftRight_eq_div_pow, BitVec.toNat_add]
    show tar.toNat / 2 ^ 12 = (tar.toNat + 4) % 2 ^ 32 / 2 ^ 12
    omega
  have hall : (0xFFFFF000 ||| 0xFFF : Word) = BitVec.allOnes 32 := by decide
  rw [hmask, hshift, ← hmask, ← BitVec.and_or_distrib_left, hall, BitVec.and_allOnes]

theorem bump_inc {m : MemAp} (hinc : m.csw = cswInc) (h : m.tar.toNat % 0x1000 + 4 < 0x1000) :
    m.bump = { m with tar := wordAddr m.tar 1 } := by
  have hsingle : m.csw &&& 0x30 = ahbCswIncSingle := by rw [hinc]; decide
  rw [MemAp.bump, if_pos hsingle, page_step h]
  rfl

/-- What increments leave alone. -/
theorem bump_frame (m : MemAp) : ∃ tar, m.bump = { m with tar := tar } := by
  unfold MemAp.bump
  split_ifs
  · exact ⟨_, rfl⟩
  · exact ⟨m.tar, rfl⟩

/-- Inside a page, `n` posted reads of `DRW` return the read before them and the first
`n - 1` words from `TAR` on; the last word is left for `RDBUFF`. -/
theorem acts_drw_reads (n : ℕ) {m : MemAp} (hsel : m.select = 0) (hinc : m.csw = cswInc)
    (hpage : m.tar.toNat % 0x1000 + 4 * n ≤ 0x1000) :
    ∃ tar last vs, memAp.acts (List.replicate n (.read rdAp3)) m =
        ⟨{ m with tar := tar, rdbuff := last, log := m.log ++ load .read m.tar n }, vs, true⟩ ∧
      vs ++ [last] = m.rdbuff :: load m.mem m.tar n := by
  induction n generalizing m with
  | zero => exact ⟨m.tar, m.rdbuff, [], by simp [SwdTarget.acts, load], by simp [load]⟩
  | succ n ih =>
    rw [List.replicate_succ, memAp_acts_cons, act_drw_read hsel]
    cases n with
    | zero =>
      -- the last access of the page may wrap
      obtain ⟨tar, hbump⟩ := bump_frame
        { m with rdbuff := m.mem m.tar, log := m.log ++ [.read m.tar] }
      exact ⟨tar, m.mem m.tar, [m.rdbuff], by simp [hbump, SwdTarget.acts, load], by simp [load]⟩
    | succ n =>
      have hbump := bump_inc (m := { m with rdbuff := m.mem m.tar, log := m.log ++ [.read m.tar] })
        hinc (by show m.tar.toNat % 0x1000 + 4 < 0x1000; omega)
      have hnext : (wordAddr m.tar 1).toNat % 0x1000 + 4 * (n + 1) ≤ 0x1000 := by
        rw [wordAddr, BitVec.toNat_add]
        show (m.tar.toNat + 4) % 2 ^ 32 % 0x1000 + _ ≤ _
        omega
      obtain ⟨tar, last, vs, hacts, hvs⟩ := ih
        (m := { m with tar := wordAddr m.tar 1, rdbuff := m.mem m.tar,
                       log := m.log ++ [.read m.tar] }) hsel hinc hnext
      refine ⟨tar, last, m.rdbuff :: vs, ?_, ?_⟩
      · simp only [hbump, hacts, load_succ _ m.tar, List.append_assoc]
        rfl
      · rw [List.cons_append, hvs, load_succ _ m.tar]

/-- Inside a page, `n` writes of `DRW` store a block. -/
theorem acts_drw_writes (ws : List Word) {m : MemAp} (hsel : m.select = 0)
    (hinc : m.csw = cswInc) (hpage : m.tar.toNat % 0x1000 + 4 * ws.length ≤ 0x1000) :
    ∃ tar vs, memAp.acts (ws.map (.write wrAp3)) m =
      ⟨{ m with
          tar := tar, mem := store m.mem m.tar ws,
          log := m.log ++ (load id m.tar ws.length).zipWith .write ws }, vs, true⟩ := by
  induction ws generalizing m with
  | nil => exact ⟨m.tar, [], by simp [SwdTarget.acts, load, store]⟩
  | cons w ws ih =>
    rw [List.map_cons, memAp_acts_cons, act_drw_write hsel]
    rw [List.length_cons] at hpage ⊢
    cases ws with
    | nil =>
      obtain ⟨tar, hbump⟩ := bump_frame { m with
        mem := Function.update m.mem m.tar w, log := m.log ++ [.write m.tar w] }
      exact ⟨tar, [0], by simp [hbump, SwdTarget.acts, load, store]⟩
    | cons v ws =>
      rw [List.length_cons] at hpage ih
      have hbump := bump_inc (m := { m with
        mem := Function.update m.mem m.tar w, log := m.log ++ [.write m.tar w] })
        hinc (by show m.tar.toNat % 0x1000 + 4 < 0x1000; omega)
      have hnext : (wordAddr m.tar 1).toNat % 0x1000 + 4 * (ws.length + 1) ≤ 0x1000 := by
        rw [wordAddr, BitVec.toNat_add]
        show (m.tar.toNat + 4) % 2 ^ 32 % 0x1000 + _ ≤ _
        omega
      obtain ⟨tar, vs, hacts⟩ := ih (m := { m with
        tar := wordAddr m.tar 1, mem := Function.update m.mem m.tar w,
        log := m.log ++ [.write m.tar w] }) hsel hinc hnext
      refine ⟨tar, 0 :: vs, ?_⟩
      simp only [hbump, hacts, List.length_cons, load_succ _ m.tar, List.zipWith_cons_cons,
        List.append_assoc, store]
      rfl

end M3Dev.Rswdp
