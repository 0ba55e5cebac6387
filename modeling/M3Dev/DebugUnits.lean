import M3Dev.GdbCommand
import M3Dev.HostBench

/-! The breakpoint units of a Cortex-M core, as seen over the debug port: flash patch and
watchpoint comparators. -/
namespace M3Dev.Gdb
open CallTree Tools

/-- `rom` holds the registers that tell what there is; they never change. -/
structure Units where
  rom : Word → Word
  reg : Word → Word
  fpEnable : Bool

namespace Units

/-- The ROM table entries and `DWT_CTRL`, whose comparator number is read only. -/
def fixed (addr : Word) : Bool := addr == romtabFpb || addr == romtabDwt || addr == dwtCtrl

def read (u : Units) (addr : Word) : Word :=
  if addr = fpCtrl then (u.rom addr &&& ~~~3) ||| (if u.fpEnable then 1 else 0)
  else if fixed addr then u.rom addr
  else u.reg addr

/-- `FP_CTRL` takes a write only with the key bit set. -/
def write (u : Units) (addr value : Word) : Units :=
  if addr = fpCtrl then
    if value &&& 2 ≠ 0 then { u with fpEnable := value &&& 1 ≠ 0 } else u
  else if fixed addr then u
  else { u with reg := Function.update u.reg addr value }

/-- The accesses of one transaction; the words read go to `buf` from `i` on. -/
def access : List AhbOp → ℕ → (ℕ → Word) → Units → (ℕ → Word) × Units
  | [], _, buf, u => (buf, u)
  | .write addr value :: ops, i, buf, u => access ops i buf (u.write addr value)
  | .read addr :: ops, i, buf, u => access ops (i + 1) (Function.update buf i (u.read addr)) u

/-- The number of comparators in `FP_CTRL`: its upper three bits are bits 14 to 12. -/
def fpCodes (ctrl : Word) : ℕ := ((ctrl >>> 4 &&& 0xF) ||| (ctrl >>> 12 &&& 7) <<< 4).toNat

def fpNumber (u : Units) : ℕ :=
  if u.rom romtabFpb &&& 1 ≠ 0 then fpCodes (u.rom fpCtrl) else 0

def dwtNumber (u : Units) : ℕ :=
  if u.rom romtabDwt &&& 1 ≠ 0 then (u.rom dwtCtrl >>> 28).toNat else 0

/-- The flash patch comparator is enabled for breakpoints and matches the address: the
lower half-word with bit 30, the upper with bit 31. -/
def fpMatches (comp addr : Word) : Prop :=
  comp &&& 1 ≠ 0 ∧
    ((comp &&& 0x40000000 ≠ 0 ∧ addr = comp &&& 0x1FFFFFFC) ∨
      (comp &&& 0x80000000 ≠ 0 ∧ addr = (comp &&& 0x1FFFFFFC) + 2))

/-- The watchpoint comparator watches the pc, and the address is the same above the mask. -/
def dwtMatches (func mask comp addr : Word) : Prop :=
  func &&& 0xF = dwtFnWatchPc ∧ addr >>> (mask &&& 0x1F) = comp >>> (mask &&& 0x1F)

def fpArms (u : Units) (n : ℕ) (addr : Word) : Prop := fpMatches (u.reg (fpComp n)) addr

def dwtArms (u : Units) (n : ℕ) (addr : Word) : Prop :=
  dwtMatches (u.reg (dwtFunc (BitVec.ofNat 32 n))) (u.reg (dwtMask (BitVec.ofNat 32 n)))
    (u.reg (dwtComp (BitVec.ofNat 32 n))) addr

/-- The trace units are on. -/
def traced (u : Units) : Prop := u.reg demcr &&& demcrTrcena ≠ 0

/-- Some comparator is armed as an instruction breakpoint on the address. -/
def Armed (u : Units) (addr : Word) : Prop :=
  (u.fpEnable = true ∧ ∃ n < u.fpNumber, u.fpArms n addr) ∨
    (u.traced ∧ ∃ n < u.dwtNumber, u.dwtArms n addr)

end Units

/-- Every transaction goes through; packets are kept. -/
def unitsResponder : Responder Call Answer (Units × List (List Byte))
  | .exec ops buf, (u, sent) =>
    let r := Units.access ops 0 buf u
    some (statusAnswer 0 r.1, (r.2, sent))
  | .send packet, (u, sent) => some (statusAnswer 0 fun _ => 0, (u, sent ++ [packet]))
  | _, s => some (statusAnswer 0 fun _ => 0, s)

namespace Units

/-! ### Counts -/

theorem fpCodes_lt (ctrl : Word) : fpCodes ctrl < 128 := by
  have hlow : (ctrl >>> 4 &&& 0xF).toNat < 2 ^ 7 := by
    rw [BitVec.toNat_and]
    exact lt_of_le_of_lt Nat.and_le_right (by decide)
  have hhigh : ((ctrl >>> 12 &&& 7) <<< 4).toNat < 2 ^ 7 := by
    have hdigit : (ctrl >>> 12 &&& 7).toNat ≤ 7 := by
      rw [BitVec.toNat_and]
      exact Nat.and_le_right
    rw [BitVec.toNat_shiftLeft, Nat.shiftLeft_eq]
    omega
  rw [fpCodes, BitVec.toNat_or]
  exact Nat.or_lt_two_pow hlow hhigh

theorem fpNumber_lt (u : Units) : u.fpNumber < 128 := by
  unfold fpNumber
  split
  · exact fpCodes_lt _
  · decide

theorem dwtNumber_lt (u : Units) : u.dwtNumber < 16 := by
  unfold dwtNumber
  split
  · rw [BitVec.toNat_ushiftRight, Nat.shiftRight_eq_div_pow]
    have := (u.rom dwtCtrl).isLt
    omega
  · decide

/-- The upper digit of the count is read in the wrong place, but where there is one, both
readings are more than the bridge has room for. -/
theorem fpCount_min (ctrl : Word) : min (fpCount ctrl) 16 = min (fpCodes ctrl) 16 := by
  have hlow : (ctrl &&& 0xF0) >>> 4 = ctrl >>> 4 &&& 0xF := by
    apply BitVec.eq_of_getLsbD_eq
    intro i hi
    interval_cases i <;> simp
  have hdigit : (ctrl &&& 0x7000) >>> 4 = (ctrl >>> 12 &&& 7) <<< 8 := by
    apply BitVec.eq_of_getLsbD_eq
    intro i hi
    interval_cases i <;> simp
  by_cases hzero : ctrl >>> 12 &&& 7 = 0
  · rw [fpCount, fpCodes, hlow, hdigit, hzero]
    rfl
  · have hle : (ctrl >>> 12 &&& 7).toNat ≤ 7 := by
      rw [BitVec.toNat_and]
      exact Nat.and_le_right
    have hpos : (ctrl >>> 12 &&& 7).toNat ≠ 0 := fun h => hzero (BitVec.eq_of_toNat_eq h)
    have hcount : 16 ≤ fpCount ctrl := by
      rw [fpCount, hdigit, BitVec.toNat_or]
      refine le_trans ?_ Nat.right_le_or
      rw [BitVec.toNat_shiftLeft, Nat.shiftLeft_eq]
      omega
    have hcodes : 16 ≤ fpCodes ctrl := by
      rw [fpCodes, BitVec.toNat_or]
      refine le_trans ?_ Nat.right_le_or
      rw [BitVec.toNat_shiftLeft, Nat.shiftLeft_eq]
      omega
    rw [min_eq_right hcount, min_eq_right hcodes]

/-- What is read from `FP_CTRL` tells the number of comparators whether or not the unit is on. -/
theorem fpCount_read (u : Units) : fpCount (u.read fpCtrl) = fpCount (u.rom fpCtrl) := by
  have hlow : u.read fpCtrl &&& 0xF0 = u.rom fpCtrl &&& 0xF0 := by
    rw [read, if_pos rfl, BitVec.and_or_distrib_right, BitVec.and_assoc]
    cases u.fpEnable <;> exact BitVec.or_zero
  have hhigh : u.read fpCtrl &&& 0x7000 = u.rom fpCtrl &&& 0x7000 := by
    rw [read, if_pos rfl, BitVec.and_or_distrib_right, BitVec.and_assoc]
    cases u.fpEnable <;> exact BitVec.or_zero
  rw [fpCount, fpCount, hlow, hhigh]

/-! ### Registers -/

theorem fpComp_toNat {n : ℕ} (hn : n < 128) : (fpComp n).toNat = 0xE0002008 + 4 * n := by
  rw [fpComp, BitVec.toNat_add, BitVec.toNat_mul, BitVec.toNat_ofNat]
  show (0xE0002008 + n % 2 ^ 32 * 4 % 2 ^ 32) % 2 ^ 32 = _
  omega

theorem dwtReg_toNat {base : Word} (hbase : base.toNat < 2 ^ 31 + 2 ^ 30 + 2 ^ 29 + 2 ^ 28) {n : ℕ}
    (hn : n < 16) : (base + BitVec.ofNat 32 n * 0x10).toNat = base.toNat + 16 * n := by
  rw [BitVec.toNat_add, BitVec.toNat_mul, BitVec.toNat_ofNat]
  show (base.toNat + n % 2 ^ 32 * 16 % 2 ^ 32) % 2 ^ 32 = _
  omega

theorem dwtComp_toNat {n : ℕ} (hn : n < 16) :
    (dwtComp (BitVec.ofNat 32 n)).toNat = 0xE0001020 + 16 * n := dwtReg_toNat (by decide) hn

theorem dwtMask_toNat {n : ℕ} (hn : n < 16) :
    (dwtMask (BitVec.ofNat 32 n)).toNat = 0xE0001024 + 16 * n := dwtReg_toNat (by decide) hn

theorem dwtFunc_toNat {n : ℕ} (hn : n < 16) :
    (dwtFunc (BitVec.ofNat 32 n)).toNat = 0xE0001028 + 16 * n := dwtReg_toNat (by decide) hn

theorem demcr_toNat : demcr.toNat = 0xE000EDFC := rfl

theorem ne_of_toNat {a b : Word} (h : a.toNat ≠ b.toNat) : a ≠ b := fun heq => h (congrArg _ heq)

/-- Registers at different addresses. -/
theorem reg_ne {a b : Word} {i j : ℕ} (ha : a.toNat = i) (hb : b.toNat = j) (hne : i ≠ j) :
    a ≠ b := by
  apply ne_of_toNat
  rw [ha, hb]
  exact hne

/-- A register that holds what is written to it, and nothing else happens. -/
def Plain (addr : Word) : Prop := addr ≠ fpCtrl ∧ fixed addr = false

theorem plain_of_toNat {addr : Word} (h1 : addr.toNat ≠ 0xE0002000) (h2 : addr.toNat ≠ 0xE00FF008)
    (h3 : addr.toNat ≠ 0xE00FF004) (h4 : addr.toNat ≠ 0xE0001000) : Plain addr := by
  refine ⟨ne_of_toNat h1, ?_⟩
  rw [fixed, beq_false_of_ne (ne_of_toNat h2), beq_false_of_ne (ne_of_toNat h3),
    beq_false_of_ne (ne_of_toNat h4)]
  rfl

theorem write_plain {addr : Word} (h : Plain addr) (u : Units) (value : Word) :
    u.write addr value = { u with reg := Function.update u.reg addr value } := by
  rw [write, if_neg h.1, h.2]
  rfl

theorem fpComp_plain {n : ℕ} (hn : n < 128) : Plain (fpComp n) := by
  have hval := fpComp_toNat hn
  apply plain_of_toNat <;> omega

theorem dwtReg_plain {addr : Word} (hlow : 0xE0001020 ≤ addr.toNat)
    (hhigh : addr.toNat ≤ 0xE0001128) : Plain addr := by
  apply plain_of_toNat <;> omega

theorem demcr_plain : Plain demcr := ⟨by decide, by decide⟩

/-! ### The writes that arm and disarm a comparator -/

/-- A flash patch comparator is written. -/
structure FpWritten (u u' : Units) (n : ℕ) (value : Word) : Prop where
  rom : u'.rom = u.rom
  comp : u'.reg (fpComp n) = value
  rest : ∀ addr, addr ≠ fpComp n → u'.reg addr = u.reg addr

/-- The writes of `swdp_watchpoint`: a comparator is set up, or only its function written. -/
structure DwtWritten (u u' : Units) (n : ℕ) (addr func : Word) : Prop where
  rom : u'.rom = u.rom
  enable : u'.fpEnable = u.fpEnable
  traced : u'.traced
  mode : u'.reg (dwtFunc (BitVec.ofNat 32 n)) = func
  set : func ≠ dwtFnDisabled →
    u'.reg (dwtComp (BitVec.ofNat 32 n)) = addr ∧ u'.reg (dwtMask (BitVec.ofNat 32 n)) = 0
  rest : ∀ a, a ≠ demcr → a ≠ dwtFunc (BitVec.ofNat 32 n) → a ≠ dwtComp (BitVec.ofNat 32 n) →
    a ≠ dwtMask (BitVec.ofNat 32 n) → u'.reg a = u.reg a

theorem fpWritten_write {n : ℕ} (hn : n < 128) (u : Units) (value : Word) :
    FpWritten u (u.write (fpComp n) value) n value := by
  rw [write_plain (fpComp_plain hn)]
  refine ⟨rfl, Function.update_self _ _ _, ?_⟩
  intro addr hne
  exact Function.update_of_ne hne _ _

theorem fpNumber_congr {u u' : Units} (h : u'.rom = u.rom) : u'.fpNumber = u.fpNumber := by
  rw [fpNumber, h]
  rfl

theorem dwtNumber_congr {u u' : Units} (h : u'.rom = u.rom) : u'.dwtNumber = u.dwtNumber := by
  rw [dwtNumber, h]
  rfl

theorem FpWritten.fpArms {u u' : Units} {n : ℕ} {value : Word} (h : FpWritten u u' n value)
    (hn : n < 128) {m : ℕ} (hm : m < 128) (hne : m ≠ n) (x : Word) :
    u'.fpArms m x ↔ u.fpArms m x := by
  have hother : fpComp m ≠ fpComp n := reg_ne (fpComp_toNat hm) (fpComp_toNat hn) (by omega)
  rw [Units.fpArms, h.rest _ hother]
  rfl

theorem FpWritten.dwtArms {u u' : Units} {n : ℕ} {value : Word} (h : FpWritten u u' n value)
    (hn : n < 128) {m : ℕ} (hm : m < 16) (x : Word) : u'.dwtArms m x ↔ u.dwtArms m x := by
  have hval := fpComp_toNat hn
  -- the unit's comparators lie behind those of the trace unit
  have hf : dwtFunc (BitVec.ofNat 32 m) ≠ fpComp n := reg_ne (dwtFunc_toNat hm) hval (by omega)
  have hk : dwtMask (BitVec.ofNat 32 m) ≠ fpComp n := reg_ne (dwtMask_toNat hm) hval (by omega)
  have hc : dwtComp (BitVec.ofNat 32 m) ≠ fpComp n := reg_ne (dwtComp_toNat hm) hval (by omega)
  rw [Units.dwtArms, h.rest _ hf, h.rest _ hk, h.rest _ hc]
  rfl

theorem FpWritten.traced_iff {u u' : Units} {n : ℕ} {value : Word} (h : FpWritten u u' n value)
    (hn : n < 128) : u'.traced ↔ u.traced := by
  have hne : demcr ≠ fpComp n := reg_ne demcr_toNat (fpComp_toNat hn) (by omega)
  rw [Units.traced, h.rest _ hne]
  rfl

/-- Away from `DEMCR` and the comparator's own registers nothing changes. -/
theorem DwtWritten.elsewhere {u u' : Units} {n : ℕ} {addr func : Word}
    (h : DwtWritten u u' n addr func) (hn : n < 16) {a : Word} {i : ℕ} (ha : a.toNat = i)
    (hd : i ≠ 0xE000EDFC) (hown : i < 0xE0001020 + 16 * n ∨ 0xE0001028 + 16 * n < i) :
    u'.reg a = u.reg a := by
  apply h.rest
  · exact reg_ne ha demcr_toNat hd
  · exact reg_ne ha (dwtFunc_toNat hn) (by omega)
  · exact reg_ne ha (dwtComp_toNat hn) (by omega)
  · exact reg_ne ha (dwtMask_toNat hn) (by omega)

theorem DwtWritten.dwtArms {u u' : Units} {n : ℕ} {addr func : Word}
    (h : DwtWritten u u' n addr func) (hn : n < 16) {m : ℕ} (hm : m < 16) (hne : m ≠ n) (x : Word) :
    u'.dwtArms m x ↔ u.dwtArms m x := by
  have hfunc := h.elsewhere hn (dwtFunc_toNat hm) (by omega) (by omega)
  have hmask := h.elsewhere hn (dwtMask_toNat hm) (by omega) (by omega)
  have hcomp := h.elsewhere hn (dwtComp_toNat hm) (by omega) (by omega)
  rw [Units.dwtArms, hfunc, hmask, hcomp]
  rfl

theorem DwtWritten.fpArms {u u' : Units} {n : ℕ} {addr func : Word}
    (h : DwtWritten u u' n addr func) (hn : n < 16) {m : ℕ} (hm : m < 128) (x : Word) :
    u'.fpArms m x ↔ u.fpArms m x := by
  have hsame := h.elsewhere hn (fpComp_toNat hm) (by omega) (by omega)
  rw [Units.fpArms, hsame]
  rfl

theorem DwtWritten.arms_iff {u u' : Units} {n : ℕ} {addr : Word}
    (h : DwtWritten u u' n addr dwtFnWatchPc) (x : Word) : u'.dwtArms n x ↔ x = addr := by
  obtain ⟨hcomp, hmask⟩ := h.set (by decide)
  rw [Units.dwtArms, h.mode, hcomp, hmask, dwtMatches]
  constructor
  · rintro ⟨_, heq⟩
    simpa using heq
  · rintro rfl
    exact ⟨by decide, rfl⟩

theorem DwtWritten.disarmed {u u' : Units} {n : ℕ} {addr : Word}
    (h : DwtWritten u u' n addr dwtFnDisabled) (x : Word) : ¬ u'.dwtArms n x := by
  rw [Units.dwtArms, h.mode]
  rintro ⟨hfunc, _⟩
  exact absurd hfunc (by decide)

/-- A comparator is disarmed before anything else of it is written. -/
theorem dwtWritten_disabled {n : ℕ} (hn : n < 16) (u : Units) (addr : Word) :
    DwtWritten u ((u.write demcr (demcrTrcena ||| demcrVcCorereset)).write
      (dwtFunc (BitVec.ofNat 32 n)) dwtFnDisabled) n addr dwtFnDisabled := by
  have hf := dwtFunc_toNat hn
  have hfp : Plain (dwtFunc (BitVec.ofNat 32 n)) := dwtReg_plain (by omega) (by omega)
  have hdf : demcr ≠ dwtFunc (BitVec.ofNat 32 n) := reg_ne demcr_toNat hf (by omega)
  rw [write_plain demcr_plain, write_plain hfp]
  refine ⟨rfl, rfl, ?_, Function.update_self _ _ _, fun h => absurd rfl h, ?_⟩
  · show Function.update (Function.update u.reg _ _) _ _ demcr &&& demcrTrcena ≠ 0
    rw [Function.update_of_ne hdf, Function.update_self]
    decide
  · intro a h1 h2 _ _
    show Function.update (Function.update u.reg _ _) _ _ a = _
    rw [Function.update_of_ne h2, Function.update_of_ne h1]

/-- Set up after that, address, mask and function in this order. -/
theorem DwtWritten.setUp {u u' : Units} {n : ℕ} {addr : Word}
    (h : DwtWritten u u' n addr dwtFnDisabled) (hn : n < 16) (func : Word) :
    DwtWritten u (((u'.write (dwtComp (BitVec.ofNat 32 n)) addr).write
      (dwtMask (BitVec.ofNat 32 n)) 0).write (dwtFunc (BitVec.ofNat 32 n)) func) n addr func := by
  have hf := dwtFunc_toNat hn
  have hk := dwtMask_toNat hn
  have hc := dwtComp_toNat hn
  have hfp : Plain (dwtFunc (BitVec.ofNat 32 n)) := dwtReg_plain (by omega) (by omega)
  have hkp : Plain (dwtMask (BitVec.ofNat 32 n)) := dwtReg_plain (by omega) (by omega)
  have hcp : Plain (dwtComp (BitVec.ofNat 32 n)) := dwtReg_plain (by omega) (by omega)
  rw [write_plain hcp, write_plain hkp, write_plain hfp]
  refine ⟨h.rom, h.enable, ?_, Function.update_self _ _ _, fun _ => ⟨?_, ?_⟩, ?_⟩
  · -- tracing is on since before
    dsimp only [Units.traced]
    rw [Function.update_of_ne (reg_ne demcr_toNat hf (by omega)),
      Function.update_of_ne (reg_ne demcr_toNat hk (by omega)),
      Function.update_of_ne (reg_ne demcr_toNat hc (by omega))]
    exact h.traced
  · dsimp only
    rw [Function.update_of_ne (reg_ne hc hf (by omega)),
      Function.update_of_ne (reg_ne hc hk (by omega)), Function.update_self]
  · dsimp only
    rw [Function.update_of_ne (reg_ne hk hf (by omega)), Function.update_self]
  · intro a h1 h2 h3 h4
    dsimp only
    rw [Function.update_of_ne h2, Function.update_of_ne h4, Function.update_of_ne h3]
    exact h.rest a h1 h2 h3 h4

/-- What `swdp_watchpoint` queues, for a comparator that it takes. -/
theorem dwtWritten_access {n : ℕ} (hn : n < 16) (u : Units) (addr func : Word) (buf : ℕ → Word) :
    ∃ u', (access ([.write demcr (demcrTrcena ||| demcrVcCorereset),
        .write (dwtFunc (BitVec.ofNat 32 n)) dwtFnDisabled] ++
        if func ≠ dwtFnDisabled then
          [.write (dwtComp (BitVec.ofNat 32 n)) addr, .write (dwtMask (BitVec.ofNat 32 n)) 0,
            .write (dwtFunc (BitVec.ofNat 32 n)) func]
        else []) 0 buf u) = (buf, u') ∧ DwtWritten u u' n addr func := by
  have hoff := dwtWritten_disabled hn u addr
  by_cases hfunc : func = dwtFnDisabled
  · rw [if_neg (not_not.mpr hfunc)]
    refine ⟨_, rfl, ?_⟩
    rw [hfunc]
    exact hoff
  · rw [if_pos hfunc]
    exact ⟨_, rfl, hoff.setUp hn func⟩

/-! ### What a flash patch comparator is armed for -/

theorem or_and_mask (v m k addr : Word) :
    (v ||| (addr &&& m)) &&& k = (v &&& k) ||| (addr &&& (m &&& k)) := by
  rw [BitVec.and_or_distrib_right, BitVec.and_assoc]

/-- The word an address in code memory lies in. -/
theorem codeWord_toNat {addr : Word} (h : addr < 0x20000000) :
    (addr &&& 0x1FFFFFFC).toNat = addr.toNat - addr.toNat % 4 := by
  have hlt : addr.toNat < 2 ^ 29 := h
  have hmask : (0x1FFFFFFC : Word) = 0x1FFFFFFF &&& ~~~3 := by decide
  have hcode : addr &&& 0x1FFFFFFF = addr := by
    apply BitVec.eq_of_toNat_eq
    rw [BitVec.toNat_and]
    show addr.toNat &&& (2 ^ 29 - 1) = _
    rw [Nat.and_two_pow_sub_one_eq_mod, Nat.mod_eq_of_lt hlt]
  rw [hmask, ← BitVec.and_assoc, hcode, ByteBlock.align_toNat]

theorem fpMatches_value {addr : Word} (h : addr < 0x20000000) (heven : addr &&& 1 = 0) (x : Word) :
    fpMatches (fpCompValue addr) x ↔ x = addr := by
  have hword := codeWord_toNat h
  have hlt : addr.toNat < 2 ^ 29 := h
  have hbits : (addr &&& 3).toNat = (addr &&& 2).toNat := by
    have hsplit : addr &&& (2 ||| 1) = (addr &&& 2) ||| (addr &&& 1) := BitVec.and_or_distrib_left
    rw [heven] at hsplit
    exact congrArg BitVec.toNat (hsplit.trans BitVec.or_zero)
  rw [ByteBlock.and_three_toNat] at hbits
  have hmod : addr.toNat % 2 = 0 := by
    have hone : (addr &&& 1).toNat = addr.toNat % 2 := by
      rw [BitVec.toNat_and]
      exact Nat.and_one_is_mod _
    rw [← hone, heven]
    rfl
  unfold fpMatches fpCompValue
  by_cases htwo : addr &&& 2 = 0
  · -- the lower half-word
    have hsame : addr &&& 0x1FFFFFFC = addr := by
      apply BitVec.eq_of_toNat_eq
      rw [htwo] at hbits
      have : addr.toNat % 4 = 0 := hbits
      omega
    rw [if_neg (not_not.mpr htwo), or_and_mask, or_and_mask, or_and_mask, or_and_mask]
    simpa using Iff.of_eq (congrArg (x = ·) hsame)
  · -- the upper half-word
    have hne : (addr &&& 2).toNat ≠ 0 := fun h => htwo (BitVec.eq_of_toNat_eq h)
    have hsame : (addr &&& 0x1FFFFFFC) + 2 = addr := by
      apply BitVec.eq_of_toNat_eq
      rw [BitVec.toNat_add, hword]
      show (addr.toNat - addr.toNat % 4 + 2) % 2 ^ 32 = _
      omega
    rw [if_pos htwo, or_and_mask, or_and_mask, or_and_mask, or_and_mask]
    simpa using Iff.of_eq (congrArg (x = ·) hsame)

theorem FpWritten.arms_iff {u u' : Units} {n : ℕ} {addr : Word}
    (h : FpWritten u u' n (fpCompValue addr)) (hcode : addr < 0x20000000) (heven : addr &&& 1 = 0)
    (x : Word) : u'.fpArms n x ↔ x = addr := by
  rw [Units.fpArms, h.comp]
  exact fpMatches_value hcode heven x

theorem FpWritten.disarmed {u u' : Units} {n : ℕ} (h : FpWritten u u' n 0) (x : Word) :
    ¬ u'.fpArms n x := by
  rw [Units.fpArms, h.comp]
  rintro ⟨henabled, _⟩
  exact henabled (by decide)

end Units

end M3Dev.Gdb
