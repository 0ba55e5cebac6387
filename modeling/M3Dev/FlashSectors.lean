import M3Dev.AgentIap
import M3Dev.AgentSpifi
import M3Dev.AgentStm32

/-! The flash agents as `agents/module.mk` has them built, and the sectors that they erase. -/
namespace M3Dev.Flash
open CallTree ByteBlock

/-- The agents, by the names of their images. -/
inductive AgentKind where
  | lpc13xx
  | lpc15xx
  | stm32f4xx
  | lpclink2
  deriving Repr, DecidableEq

namespace AgentKind

/-- `CONFIG_FLASHSIZE`; `CONFIG_FLASHADDR` is 0 for all of them. -/
def flashSize : AgentKind → ℕ
  | lpc13xx => 0x8000
  | lpc15xx => 0x10000
  | stm32f4xx => 0x100000
  | lpclink2 => 0x100000

/-- `LPC_IAP_FUNC` -/
def lpcIapFunc : AgentKind → Word
  | lpc15xx => 0x03000205
  | _ => 0x1fff1ff1

/-- The sectors that the boot ROM has. -/
def iapSectors : AgentKind → ℕ
  | lpc13xx => 8
  | lpc15xx => 16
  | _ => 0

/-- The agent on its chip, whatever its cells make of a write to them, its statuses are and the
boot ROM does besides what it is asked. -/
def agent (kind : AgentKind) {cell : Cell} (rom : Iap.Rom cell kind.iapSectors) (status : ℕ → Word)
    (fuel : ℕ) : Agent :=
  match kind, rom with
  | lpc13xx, rom => Iap.agent rom status fuel lpc13xx.lpcIapFunc
  | lpc15xx, rom => Iap.agent rom status fuel lpc15xx.lpcIapFunc
  | stm32f4xx, _ => Stm32.agent cell status fuel
  | lpclink2, _ => Spi.agent cell status fuel

/-- The flash is open for writing and has nothing under way, as setup leaves it. -/
def Ready : AgentKind → Target → Prop
  | lpc13xx, _ => True
  | lpc15xx, _ => True
  | stm32f4xx, t => Stm32.Ready t
  | lpclink2, t => t.spifi.busy = false

/-- Sectors of 4 KB. -/
def pages (n : ℕ) : List (Word × ℕ) := (List.range n).map fun i => (BitVec.ofNat 32 (4096 * i), 4096)

/-- The sectors of the flash: where each begins, and its size. -/
def sectors : AgentKind → List (Word × ℕ)
  | lpc13xx => pages 8
  | lpc15xx => pages 16
  | stm32f4xx => (List.range 12).map fun n =>
      (Stm32.sector n, (Stm32.sector (n + 1)).toNat - (Stm32.sector n).toNat)
  | lpclink2 => pages 256

end AgentKind

/-- Some byte lies in both the sector and the region. -/
def Intersects (s : Word × ℕ) (addr length : Word) : Prop :=
  ∃ x, s.1.toNat ≤ x ∧ x < s.1.toNat + s.2 ∧ addr.toNat ≤ x ∧ x < addr.toNat + length.toNat

/-- Wherever the erasure succeeds, the sectors it has erased are those that the region
intersects. -/
def ErasesExactly (kind : AgentKind) (cell : Cell) (addr length : Word) : Prop :=
  ∀ (rom : Iap.Rom cell kind.iapSectors) status fuel t, kind.Ready t →
    ((kind.agent rom status fuel).erase addr length).Meets (kind.agent rom status fuel).chip t
      fun rc t' => rc = errNone → ∃ done, t'.erased = t.erased ++ done ∧
        ∀ start, start ∈ done ↔ ∃ size, (start, size) ∈ kind.sectors ∧ Intersects (start, size) addr length

/-- The pages from an aligned address on are the ones that the region intersects. -/
theorem mem_pagesFrom {addr length start : Word} {n : ℕ} (haligned : addr.toNat % 4096 = 0)
    (hfit : addr.toNat + length.toNat ≤ 4096 * n) (hn : n ≤ 2 ^ 20) :
    start ∈ pagesFrom addr ((length.toNat + 4095) / 4096) ↔
      ∃ size, (start, size) ∈ AgentKind.pages n ∧ Intersects (start, size) addr length := by
  have haddr := addr.isLt
  constructor
  · intro h
    obtain ⟨i, hi, rfl⟩ := List.mem_map.mp h
    have hi := List.mem_range.mp hi
    have hto : (byteAddr addr (4096 * i)).toNat = addr.toNat + 4096 * i := byteAddr_toNat_of_lt (by omega)
    refine ⟨4096, List.mem_map.mpr ⟨addr.toNat / 4096 + i, List.mem_range.mpr (by omega), ?_⟩, ?_⟩
    · have hpage : BitVec.ofNat 32 (4096 * (addr.toNat / 4096 + i)) = byteAddr addr (4096 * i) := by
        apply BitVec.eq_of_toNat_eq
        rw [hto, BitVec.toNat_ofNat, Nat.mod_eq_of_lt (by omega)]
        omega
      rw [hpage]
    · refine ⟨addr.toNat + 4096 * i, ?_, ?_, by omega, by omega⟩
      · exact hto.le
      · show _ < (byteAddr addr (4096 * i)).toNat + 4096
        omega
  · rintro ⟨size, hmem, x, hlow, hhigh, hin, hout⟩
    obtain ⟨j, hj, heq⟩ := List.mem_map.mp hmem
    obtain ⟨rfl, rfl⟩ := Prod.mk.inj heq
    have hj := List.mem_range.mp hj
    have hto : (BitVec.ofNat 32 (4096 * j)).toNat = 4096 * j := by
      rw [BitVec.toNat_ofNat, Nat.mod_eq_of_lt (by omega)]
    have hlow' : 4096 * j ≤ x := hto.symm.trans_le hlow
    have hhigh' : x < 4096 * j + 4096 := hhigh.trans_eq (by rw [hto])
    refine List.mem_map.mpr ⟨j - addr.toNat / 4096, List.mem_range.mpr (by omega), ?_⟩
    apply BitVec.eq_of_toNat_eq
    rw [byteAddr_toNat_of_lt (by omega), hto]
    omega

/-- The sectors of an STM32F4 up to where the erasure has come are the ones that a region
that is not empty intersects. -/
theorem mem_erasure {addr length start : Word} {n0 n : ℕ} {t t' : Target}
    (h : Stm32.Erasure addr length n0 n t t') (hlength : 0 < length.toNat) :
    start ∈ (List.range' n0 (n - n0)).map Stm32.sector ↔
      ∃ size, (start, size) ∈ AgentKind.stm32f4xx.sectors ∧ Intersects (start, size) addr length := by
  obtain ⟨haddr, hsome, hlast, _, hcovers, hneeded⟩ := h
  constructor
  · intro hmem
    obtain ⟨i, hi, rfl⟩ := List.mem_map.mp hmem
    have hi := List.mem_range'_1.mp hi
    have hlt := Stm32.sector_lt i (by omega)
    have hmono := Stm32.sector_mono i (by omega) n0 hi.1
    refine ⟨_, List.mem_map.mpr ⟨i, List.mem_range.mpr (by omega), rfl⟩, (Stm32.sector i).toNat, le_rfl, ?_,
      ?_, ?_⟩
    · show (Stm32.sector i).toNat < (Stm32.sector i).toNat + ((Stm32.sector (i + 1)).toNat - _)
      omega
    · rw [haddr]
      exact hmono
    · rcases Nat.lt_or_ge n0 i with hlater | hfirst
      · have hbefore := Stm32.sector_mono (n - 1) (by omega) i (by omega)
        have hneed := hneeded (by omega)
        omega
      · obtain rfl : i = n0 := by omega
        rw [haddr]
        omega
  · rintro ⟨size, hmem, x, hlow, hhigh, hin, hout⟩
    obtain ⟨i, hi, heq⟩ := List.mem_map.mp hmem
    obtain ⟨rfl, rfl⟩ := Prod.mk.inj heq
    have hi := List.mem_range.mp hi
    have hlt := Stm32.sector_lt i hi
    have hhigh' : x < (Stm32.sector i).toNat + ((Stm32.sector (i + 1)).toNat - (Stm32.sector i).toNat) := hhigh
    have hlow' : (Stm32.sector i).toNat ≤ x := hlow
    refine List.mem_map.mpr ⟨i, List.mem_range'_1.mpr ⟨?_, ?_⟩, rfl⟩
    · by_contra hbefore
      have hmono := Stm32.sector_mono n0 (by omega) (i + 1) (by omega)
      rw [haddr] at hin
      omega
    · by_contra hbehind
      have hmono := Stm32.sector_mono i hi n (by omega)
      omega

theorem iap_erases_exactly {cell : Cell} {n : ℕ} {rom : Iap.Rom cell n} {status : ℕ → Word}
    {fuel : ℕ} {lpcIapFunc addr length : Word} (hn : n ≤ 16)
    (hfit : addr.toNat + length.toNat ≤ 4096 * n) (t : Target) :
    ((Iap.agent rom status fuel lpcIapFunc).erase addr length).Meets
      (Iap.agent rom status fuel lpcIapFunc).chip t fun rc t' => rc = errNone →
        ∃ done, t'.erased = t.erased ++ done ∧
          ∀ start, start ∈ done ↔
            ∃ size, (start, size) ∈ AgentKind.pages n ∧ Intersects (start, size) addr length := by
  apply (Iap.flashAgentErase_meets hfit (by omega)).mono
  intro rc t' h hok
  obtain ⟨haligned, _, herased⟩ := h (congrArg r0 hok)
  exact ⟨_, herased, fun _ => mem_pagesFrom haligned hfit (by omega)⟩

theorem spi_erases_exactly {cell : Cell} {addr length : Word}
    (hfit : addr.toNat + length.toNat ≤ 0x100000) : ErasesExactly .lpclink2 cell addr length := by
  intro _ status fuel t hready
  apply (Spi.flashAgentErase_meets fuel hfit).mono
  intro rc t' h hok
  obtain ⟨haligned, n, hle, hlt, hn, herasing⟩ := h (congrArg r0 hok)
  have hcount : n / 4096 = (length.toNat + 4095) / 4096 := by omega
  have herased := (herasing.logged hready).2
  rw [hcount] at herased
  exact ⟨_, herased, fun _ => mem_pagesFrom haligned (by omega) (by decide)⟩

theorem stm_erases_exactly {cell : Cell} {addr length : Word}
    (hfit : addr.toNat + length.toNat ≤ 0x100000)
    (hlength : length ≠ 0 ∨ addr ∉ AgentKind.stm32f4xx.sectors.map Prod.fst) :
    ErasesExactly .stm32f4xx cell addr length := by
  intro _ status fuel t hready
  apply (Stm32.flashAgentErase_meets fuel hready hfit).mono
  intro rc t' h hok
  obtain ⟨n0, n, herasure⟩ := h (congrArg r0 hok)
  have hpositive : 0 < length.toNat := by
    rcases hlength with hsome | hout
    · apply Nat.pos_of_ne_zero
      intro hzero
      exact hsome (BitVec.eq_of_toNat_eq hzero)
    · refine absurd ?_ hout
      have hn0 : n0 < 12 := herasure.some.trans_le herasure.last
      rw [herasure.first]
      exact List.mem_map.mpr ⟨_, List.mem_map.mpr ⟨n0, List.mem_range.mpr hn0, rfl⟩, rfl⟩
  exact ⟨_, herasure.done.logged, fun _ => mem_erasure herasure hpositive⟩

/-- A target whose flash is open and that has done nothing yet. -/
def freshTarget : Target where
  ram _ := 0
  flash _ := 0
  erased := []
  stm := { keyed := false, locked := false, cr := 0 }
  spifi := { addr := 0, writeEnabled := false, busy := false, mode := .idle }
  prepared := none
  reads := 0

theorem stm_waits (cell : Cell) (t : Target) :
    (Stm32.waitBusy 1).run (Stm32.chip cell fun _ => 0) t = some (.ok 0, (t.answer fun _ => 0).2) := by
  have hne : Stm32.flashSr ≠ Stm32.flashCr := by decide
  have hread : Stm32.chip cell (fun _ => 0) (.readl Stm32.flashSr) t =
      some (0, (t.answer fun _ => 0).2) := by
    rw [Stm32.chip, if_neg hne]
    rfl
  have hwaited : (readl Stm32.flashSr).run (Stm32.chip cell fun _ => 0) t =
      some (.ok 0, (t.answer fun _ => 0).2) := Prog.run_call hread _
  rw [Stm32.waitBusy, Prog.loop, Prog.bind_assoc, Prog.run_bind hwaited]
  rfl

/-- Asked to erase nothing from the start of a sector on, the agent erases the sector. -/
theorem stm_erases_for_nothing (cell : Cell) {n : ℕ} (hn : n < 12) :
    ∃ t', (Stm32.flashAgentErase 1 (Stm32.sector n) 0).run (Stm32.chip cell fun _ => 0) freshTarget =
        some (.ok errNone, t') ∧ t'.erased = [Stm32.sector n] := by
  have hfind : (List.range 12).find? (fun m => Stm32.sector n == Stm32.sector m) = some n := by
    interval_cases n
    all_goals rfl
  obtain ⟨stm1, hstm1, hchosen⟩ := @Stm32.chooses_sector cell freshTarget rfl n hn
  obtain ⟨stm2, _, hstarted⟩ := @Stm32.starts_erase cell { freshTarget with stm := stm1 } hstm1 n hn
  have hwrite : ∀ v t, (writel v Stm32.flashCr).run (Stm32.chip cell fun _ => 0) t =
      some (.ok (), Stm32.chipWritel cell v Stm32.flashCr t) := fun _ _ => rfl
  have hpass : (Stm32.erasePass 1 (Stm32.sector n) 0 n).run (Stm32.chip cell fun _ => 0) freshTarget =
      some (.ok (.exit errNone), ((Stm32.eraseSector n { freshTarget with stm := stm2 }).answer fun _ => 0).2) := by
    have hnone : ¬ (0 : Word) &&& Stm32.flashSrErrmask ≠ 0 := by decide
    rw [Stm32.erasePass, Prog.run_bind (hwrite _ _), hchosen, Prog.run_bind (hwrite _ _), hstarted,
      Prog.run_bind (stm_waits cell _), if_neg hnone]
    by_cases hlast : n + 1 = 12
    · rw [if_pos hlast]
      rfl
    · have hfar : Stm32.sector (n + 1) - Stm32.sector n ≥ 0 := BitVec.le_def.mpr (Nat.zero_le _)
      rw [if_neg hlast, if_pos hfar]
      rfl
  refine ⟨((Stm32.eraseSector n { freshTarget with stm := stm2 }).answer fun _ => 0).2, ?_, rfl⟩
  rw [Stm32.flashAgentErase, hfind]
  show (Prog.loop _ _ 1 n).run _ _ = _
  rw [Prog.loop, Prog.run_bind hpass]
  rfl

theorem stm_not_exactly (cell : Cell) {addr : Word}
    (haddr : addr ∈ AgentKind.stm32f4xx.sectors.map Prod.fst) :
    ¬ ErasesExactly .stm32f4xx cell addr 0 := by
  obtain ⟨s, hs, hstart⟩ := List.mem_map.mp haddr
  obtain ⟨n, hn, rfl⟩ := List.mem_map.mp hs
  obtain rfl : Stm32.sector n = addr := hstart
  intro h
  obtain ⟨t', hrun, herased⟩ := stm_erases_for_nothing cell (List.mem_range.mp hn)
  obtain ⟨done, hdone, hexact⟩ := (h (Iap.plainRom cell 0) (fun _ => 0) 1 freshTarget rfl).of_run _ _ hrun rfl
  have hmem : Stm32.sector n ∈ done := by
    have hall : t'.erased = done := hdone
    rw [← hall, herased]
    exact List.mem_singleton_self _
  obtain ⟨size, _, x, _, _, hin, hout⟩ := (hexact _).mp hmem
  have hzero : (0 : Word).toNat = 0 := rfl
  omega

/-- Inside the device, an erasure that succeeds erases the sectors that the region
intersects and no others, unless an STM32F4 is asked for nothing at the start of a sector. -/
theorem erases_exactly_iff (kind : AgentKind) (cell : Cell) {addr length : Word}
    (hfit : addr.toNat + length.toNat ≤ kind.flashSize) :
    ErasesExactly kind cell addr length ↔
      ¬ (kind = .stm32f4xx ∧ length = 0 ∧ addr ∈ kind.sectors.map Prod.fst) := by
  cases kind with
  | lpc13xx =>
    apply iff_of_true
    · intro rom status fuel t _
      exact iap_erases_exactly (by decide) hfit t
    · intro h
      exact absurd h.1 (by decide)
  | lpc15xx =>
    apply iff_of_true
    · intro rom status fuel t _
      exact iap_erases_exactly (by decide) hfit t
    · intro h
      exact absurd h.1 (by decide)
  | lpclink2 =>
    apply iff_of_true
    · exact spi_erases_exactly hfit
    · intro h
      exact absurd h.1 (by decide)
  | stm32f4xx =>
    constructor
    · rintro h ⟨_, rfl, haddr⟩
      exact stm_not_exactly cell haddr h
    · intro h
      apply stm_erases_exactly hfit
      by_cases hlength : length = 0
      · exact .inr fun haddr => h ⟨rfl, hlength, haddr⟩
      · exact .inl hlength

/-- The first sector and a part of the second. -/
theorem erases_exactly_iff_partial : ErasesExactly .stm32f4xx (fun _ b => b) 0 0x5000 :=
  (erases_exactly_iff .stm32f4xx (fun _ b => b) (by decide)).mpr (by decide)

theorem erases_more : ¬ ∀ (kind : AgentKind) (cell : Cell) (addr length : Word),
    addr.toNat + length.toNat ≤ kind.flashSize → ErasesExactly kind cell addr length := by
  intro h
  exact stm_not_exactly (fun _ b => b) (by decide) (h .stm32f4xx (fun _ b => b) 0x4000 0 (by decide))

end M3Dev.Flash
