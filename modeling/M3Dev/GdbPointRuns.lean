import M3Dev.EventSystem
import M3Dev.GdbOrderly
import M3Dev.GdbPoints
import M3Dev.GdbReadMemory

/-! Runs of `Z` and `z` packets: the comparators that are armed are those gdb has asked
for, as long as each packet changes the tables only where the comparators follow. -/
namespace M3Dev.Gdb
open CallTree Tools SlotBank EventSystem

/-! ### The invariant -/

/-- Every comparator is armed as its table entry says, and no address has two. -/
structure PointsWired (u : Units) (b : BreakTables) : Prop where
  maxfp : b.maxfp ≤ 16
  fp : Bank.Wired u.fpArms u.fpNumber (fpBank u b)
  fpOn : ∀ a, (fpBank u b).Holds a → u.fpEnable = true
  fpApart : (fpBank u b).Apart
  code : ∀ a, (fpBank u b).Holds a → a < 0x20000000
  dwt : Bank.Wired u.dwtArms u.dwtNumber (dwtBank u b)
  dwtOn : ∀ a, (dwtBank u b).Holds a → u.traced
  dwtApart : (dwtBank u b).Apart
  first : ∀ n a, dwtBank u b n = some a → n ≤ 3
  parted : ∀ a, (fpBank u b).Holds a → ¬ (dwtBank u b).Holds a

/-- The addresses in the tables. -/
def Pointing (u : Units) (b : BreakTables) (a : Word) : Prop :=
  (fpBank u b).Holds a ∨ (dwtBank u b).Holds a

theorem PointsWired.armed_iff {u : Units} {b : BreakTables} (h : PointsWired u b) (a : Word) :
    u.Armed a ↔ Pointing u b a := by
  have hfp := h.fp.armed_iff (x := a) (by
    intro n a hn
    exact lt_of_lt_of_le (slotBank_eq_some.mp hn).1 (Nat.min_le_left _ _))
  have hdwt := h.dwt.armed_iff (x := a) fun n a hn => (slotBank_eq_some.mp hn).1
  constructor
  · rintro (⟨_, harmed⟩ | ⟨_, harmed⟩)
    · exact .inl (hfp.mp harmed)
    · exact .inr (hdwt.mp harmed)
  · rintro (hholds | hholds)
    · exact .inl ⟨h.fpOn a hholds, hfp.mpr hholds⟩
    · exact .inr ⟨h.dwtOn a hholds, hdwt.mpr hholds⟩

section
variable {u u' : Units} {b b' : BreakTables} {addr : Word} {n : ℕ}

theorem fpBank_congr (h : u'.rom = u.rom) (b : BreakTables) : fpBank u' b = fpBank u b := by
  rw [fpBank, Units.fpSlots, Units.fpNumber, h]
  rfl

theorem dwtBank_congr (h : u'.rom = u.rom) (b : BreakTables) : dwtBank u' b = dwtBank u b := by
  rw [dwtBank, Units.dwtNumber, h]
  rfl

theorem fpBank_lt (h : fpBank u b n = some addr) : n < 128 := by
  have hlt := (slotBank_eq_some.mp h).1
  have hle := fpSlots_le u
  omega

theorem dwtBank_lt (h : dwtBank u b n = some addr) : n < 16 := by
  have hlt := (slotBank_eq_some.mp h).1
  have hle := u.dwtNumber_lt
  omega

theorem FpTakes.free (h : FpTakes u b addr n) :
    n < 128 ∧ fpBank u b n = none ∧ ¬ (fpBank u b).Holds addr := by
  obtain ⟨_, hmiss, hfree⟩ := h
  obtain ⟨hlt, hnone⟩ := @findFree_eq_some _ _ b.fpAddr _ hfree
  have hle := fpSlots_le u
  exact ⟨by omega, hnone, findAddr_eq_none hmiss⟩

theorem DwtTakes.free (h : DwtTakes u b addr n) :
    n < 16 ∧ dwtBank u b n = none ∧ ¬ (dwtBank u b).Holds addr ∧
      (addr < 0x20000000 → ¬ (fpBank u b).Holds addr) := by
  obtain ⟨hpasses, hmiss, hfree⟩ := h
  obtain ⟨hlt, hnone⟩ := @findFree_eq_some _ _ b.bpAddr _ hfree
  have hle := u.dwtNumber_lt
  exact ⟨by omega, hnone, findAddr_eq_none hmiss, fun h => findAddr_eq_none (hpasses h).1⟩

theorem PointsWired.same (h : PointsWired u b) (hb : Tabled u b' (fpBank u b) (dwtBank u b)) :
    PointsWired u b' := by
  obtain ⟨hmax, hfp, hdwt⟩ := hb
  exact ⟨hmax, hfp ▸ h.fp, hfp ▸ h.fpOn, hfp ▸ h.fpApart, hfp ▸ h.code, hdwt ▸ h.dwt, hdwt ▸ h.dwtOn,
    hdwt ▸ h.dwtApart, hdwt ▸ h.first, hfp ▸ hdwt ▸ h.parted⟩

/-- A breakpoint comparator is written: what is said of the watchpoint comparators stays. -/
theorem PointsWired.dwt_kept (h : PointsWired u b) {value : Word} (hn : n < 128) (hu : Units.FpWritten u u' n value)
    (hdwt : dwtBank u' b' = dwtBank u b) :
    Bank.Wired u'.dwtArms u'.dwtNumber (dwtBank u' b') ∧ (∀ a, (dwtBank u' b').Holds a → u'.traced) ∧
      (dwtBank u' b').Apart ∧ ∀ n a, dwtBank u' b' n = some a → n ≤ 3 := by
  rw [hdwt]
  refine ⟨?_, fun a ha => (hu.traced_iff hn).mpr (h.dwtOn a ha), h.dwtApart, h.first⟩
  rw [Units.dwtNumber_congr hu.rom]
  apply h.dwt.congr
  intro m hm x
  exact hu.dwtArms hn (lt_trans hm u.dwtNumber_lt) x

/-- A watchpoint comparator is written: what is said of the breakpoint comparators stays. -/
theorem PointsWired.fp_kept (h : PointsWired u b) {value func : Word} (hn : n < 16)
    (hu : Units.DwtWritten u u' n value func) (hfp : fpBank u' b' = fpBank u b) :
    Bank.Wired u'.fpArms u'.fpNumber (fpBank u' b') ∧ (∀ a, (fpBank u' b').Holds a → u'.fpEnable = true) ∧
      (fpBank u' b').Apart ∧ ∀ a, (fpBank u' b').Holds a → a < 0x20000000 := by
  rw [hfp]
  refine ⟨?_, fun a ha => hu.enable.trans (h.fpOn a ha), h.fpApart, h.code⟩
  rw [Units.fpNumber_congr hu.rom]
  apply h.fp.congr
  intro m hm x
  exact hu.fpArms hn (lt_trans hm u.fpNumber_lt) x

theorem PointsWired.fpPut (h : PointsWired u b) (htakes : FpTakes u b addr n)
    (hu : Units.FpWritten u u' n (fpCompValue addr)) (hon : u'.fpEnable = true)
    (heven : addr &&& 1 = 0) (hother : ¬ (dwtBank u b).Holds addr)
    (hb : Tabled u b' ((fpBank u b).put n addr) (dwtBank u b)) : PointsWired u' b' := by
  obtain ⟨hn, hfree, hnew⟩ := htakes.free
  have hfp : fpBank u' b' = (fpBank u b).put n addr := (fpBank_congr hu.rom b').trans hb.fp
  have hdwt : dwtBank u' b' = dwtBank u b := (dwtBank_congr hu.rom b').trans hb.dwt
  obtain ⟨hkept, hkeptOn, hkeptApart, hkeptFirst⟩ := h.dwt_kept hn hu hdwt
  refine ⟨hb.maxfp, ?_, fun _ _ => hon, ?_, ?_, hkept, hkeptOn, hkeptApart, hkeptFirst, ?_⟩
  · rw [hfp, Units.fpNumber_congr hu.rom]
    apply h.fp.put (hu.arms_iff htakes.1 heven)
    intro m hm hne x
    exact hu.fpArms hn (lt_trans hm u.fpNumber_lt) hne x
  · rw [hfp]
    exact h.fpApart.put hnew
  · intro a ha
    rw [hfp, Bank.holds_put hfree] at ha
    rcases ha with rfl | ha
    · exact htakes.1
    · exact h.code a ha
  · intro a ha
    rw [hfp, Bank.holds_put hfree] at ha
    rw [hdwt]
    rcases ha with rfl | ha
    · exact hother
    · exact h.parted a ha

theorem PointsWired.fpCleared (h : PointsWired u b) (hn : fpBank u b n = some addr)
    (hu : Units.FpWritten u u' n 0) (hon : u'.fpEnable = u.fpEnable)
    (hb : Tabled u b' ((fpBank u b).clear n) (dwtBank u b)) : PointsWired u' b' := by
  have hlt := fpBank_lt hn
  have hfp : fpBank u' b' = (fpBank u b).clear n := (fpBank_congr hu.rom b').trans hb.fp
  have hdwt : dwtBank u' b' = dwtBank u b := (dwtBank_congr hu.rom b').trans hb.dwt
  have hheld : ∀ a, (fpBank u' b').Holds a → (fpBank u b).Holds a := by
    intro a ha
    rw [hfp, h.fpApart.holds_clear hn] at ha
    exact ha.1
  obtain ⟨hkept, hkeptOn, hkeptApart, hkeptFirst⟩ := h.dwt_kept hlt hu hdwt
  refine ⟨hb.maxfp, ?_, ?_, ?_, fun a ha => h.code a (hheld a ha), hkept, hkeptOn, hkeptApart, hkeptFirst, ?_⟩
  · rw [hfp, Units.fpNumber_congr hu.rom]
    apply h.fp.clear hu.disarmed
    intro m hm hne x
    exact hu.fpArms hlt (lt_trans hm u.fpNumber_lt) hne x
  · intro a ha
    rw [hon]
    exact h.fpOn a (hheld a ha)
  · rw [hfp]
    exact h.fpApart.clear
  · intro a ha
    rw [hdwt]
    exact h.parted a (hheld a ha)

theorem PointsWired.dwtPut (h : PointsWired u b) (htakes : DwtTakes u b addr n) (hsmall : n ≤ 3)
    (hu : Units.DwtWritten u u' n addr dwtFnWatchPc)
    (hb : Tabled u b' (fpBank u b) ((dwtBank u b).put n addr)) : PointsWired u' b' := by
  obtain ⟨hn, hfree, hnew, hother⟩ := htakes.free
  have hfp : fpBank u' b' = fpBank u b := (fpBank_congr hu.rom b').trans hb.fp
  have hdwt : dwtBank u' b' = (dwtBank u b).put n addr := (dwtBank_congr hu.rom b').trans hb.dwt
  obtain ⟨hkept, hkeptOn, hkeptApart, hkeptCode⟩ := h.fp_kept hn hu hfp
  refine ⟨hb.maxfp, hkept, hkeptOn, hkeptApart, hkeptCode, ?_, fun _ _ => hu.traced, ?_, ?_, ?_⟩
  · rw [hdwt, Units.dwtNumber_congr hu.rom]
    apply h.dwt.put hu.arms_iff
    intro m hm hne x
    exact hu.dwtArms hn (lt_trans hm u.dwtNumber_lt) hne x
  · rw [hdwt]
    exact h.dwtApart.put hnew
  · intro m a hm
    rw [hdwt] at hm
    rcases Bank.put_eq_some.mp hm with ⟨rfl, _⟩ | ⟨_, hold⟩
    · exact hsmall
    · exact h.first m a hold
  · intro a ha hheld
    rw [hfp] at ha
    rw [hdwt, Bank.holds_put hfree] at hheld
    rcases hheld with rfl | hheld
    · exact hother (h.code a ha) ha
    · exact h.parted a ha hheld

theorem PointsWired.dwtCleared (h : PointsWired u b) (hn : dwtBank u b n = some addr)
    (hu : Units.DwtWritten u u' n 0 dwtFnDisabled)
    (hb : Tabled u b' (fpBank u b) ((dwtBank u b).clear n)) : PointsWired u' b' := by
  have hlt := dwtBank_lt hn
  have hfp : fpBank u' b' = fpBank u b := (fpBank_congr hu.rom b').trans hb.fp
  have hdwt : dwtBank u' b' = (dwtBank u b).clear n := (dwtBank_congr hu.rom b').trans hb.dwt
  obtain ⟨hkept, hkeptOn, hkeptApart, hkeptCode⟩ := h.fp_kept hlt hu hfp
  refine ⟨hb.maxfp, hkept, hkeptOn, hkeptApart, hkeptCode, ?_, fun _ _ => hu.traced, ?_, ?_, ?_⟩
  · rw [hdwt, Units.dwtNumber_congr hu.rom]
    apply h.dwt.clear hu.disarmed
    intro m hm hne x
    exact hu.dwtArms hlt (lt_trans hm u.dwtNumber_lt) hne x
  · rw [hdwt]
    exact h.dwtApart.clear
  · intro m a hm
    rw [hdwt] at hm
    exact h.first m a (Bank.clear_eq_some.mp hm).2
  · intro a ha hheld
    rw [hfp] at ha
    rw [hdwt, h.dwtApart.holds_clear hn] at hheld
    exact h.parted a ha hheld.1

end

/-! ### Packets -/

/-- Types 0 and 1 ask for an instruction breakpoint. -/
def isBreakpoint (type : Word) : Prop := type = 0 ∨ type = 1

instance (type : Word) : Decidable (isBreakpoint type) :=
  inferInstanceAs (Decidable (_ ∨ _))

/-- Where the packet changes a table it is one for a breakpoint, the FPB gets an even
address that the DWT does not have, and the DWT's comparator is among the first four. -/
structure Placed (u : Units) (b : BreakTables) (add : Bool) (type addr : Word) : Prop where
  fpPut : add = true → ∀ n, FpTakes u b addr n →
    isBreakpoint type ∧ addr &&& 1 = 0 ∧ findAddr u.dwtNumber b.bpState b.bpAddr addr = none
  dwtPut : add = true → ∀ n, DwtTakes u b addr n → isBreakpoint type ∧ n ≤ 3
  cleared : add = false → Pointing u b addr → isBreakpoint type

section
variable {u u' : Units} {b b' : BreakTables} {addr type : Word} {add : Bool} {rc : ℤ}

theorem findAddr_eq_none_iff {count : ℕ} {state : ℕ → Bool} {addrs : ℕ → Word} :
    findAddr count state addrs addr = none ↔ ¬ (slotBank count state addrs).Holds addr := by
  constructor
  · exact findAddr_eq_none
  · intro hmiss
    cases hfound : findAddr count state addrs addr with
    | none => rfl
    | some n => exact absurd ⟨n, findAddr_eq_some hfound⟩ hmiss

theorem Pointing.of_fp {n : ℕ} (h : fpBank u b n = some addr) : Pointing u b addr := .inl ⟨n, h⟩

theorem Pointing.of_dwt {n : ℕ} (h : dwtBank u b n = some addr) : Pointing u b addr := .inr ⟨n, h⟩

theorem pointing_tabled {fp dwt : Bank Word} (hrom : u'.rom = u.rom) (hb : Tabled u b' fp dwt)
    (a : Word) : Pointing u' b' a ↔ fp.Holds a ∨ dwt.Holds a := by
  rw [Pointing, fpBank_congr hrom, dwtBank_congr hrom, hb.fp, hb.dwt]

/-- What one packet does, where it is well placed: either nothing at all, or one comparator
follows its table. -/
theorem PointsWired.step (h : PointsWired u b) (hplaced : Placed u b add type addr)
    (hpointed : Pointed u b addr add rc u' b') :
    PointsWired u' b' ∧
      ((u' = u ∧ (∀ a, Pointing u' b' a ↔ Pointing u b a) ∧ (rc = 0 → (Pointing u b addr ↔ add = true))) ∨
        (rc = 0 ∧ isBreakpoint type ∧ ¬ (Pointing u b addr ↔ add = true) ∧
          ∀ a, Pointing u' b' a ↔ if a = addr then add = true else Pointing u b a)) := by
  -- what the bridge and the units may do; only the last four cases write a comparator
  cases hpointed with
  | fpKept hn hb =>
    refine ⟨h.same hb, .inl ⟨rfl, pointing_tabled rfl hb, fun _ => ?_⟩⟩
    simp [Pointing.of_fp hn]
  | dwtKept hn hb =>
    refine ⟨h.same hb, .inl ⟨rfl, pointing_tabled rfl hb, fun _ => ?_⟩⟩
    simp [Pointing.of_dwt hn]
  | absent hfp hdwt hb =>
    refine ⟨h.same hb, .inl ⟨rfl, pointing_tabled rfl hb, fun _ => ?_⟩⟩
    have hnone : ¬ Pointing u b addr := by
      rintro (hheld | hheld)
      · exact hfp (h.code addr hheld) hheld
      · exact hdwt hheld
    simp [hnone]
  | full hb => exact ⟨h.same hb, .inl ⟨rfl, pointing_tabled rfl hb, fun h => absurd h (by decide)⟩⟩
  | fpPut htakes hu hon hb =>
    obtain ⟨htype, heven, hmiss⟩ := hplaced.fpPut rfl _ htakes
    have hother := findAddr_eq_none hmiss
    obtain ⟨_, hfree, hnew⟩ := htakes.free
    refine ⟨h.fpPut htakes hu hon heven hother hb, .inr ⟨rfl, htype, ?_, ?_⟩⟩
    · have hnone : ¬ Pointing u b addr := fun hheld => hheld.elim hnew hother
      simp [hnone]
    · intro a
      rw [pointing_tabled hu.rom hb, Bank.holds_put hfree]
      by_cases ha : a = addr
      · simp [ha]
      · simp [ha, Pointing]
  | dwtPut htakes hu hb =>
    obtain ⟨htype, hsmall⟩ := hplaced.dwtPut rfl _ htakes
    obtain ⟨_, hfree, hnew, hother⟩ := htakes.free
    refine ⟨h.dwtPut htakes hsmall (hu hsmall) hb, .inr ⟨rfl, htype, ?_, ?_⟩⟩
    · have hnone : ¬ Pointing u b addr :=
        fun hheld => hheld.elim (fun hfp => hother (h.code addr hfp) hfp) hnew
      simp [hnone]
    · intro a
      rw [pointing_tabled (hu hsmall).rom hb, Bank.holds_put hfree]
      by_cases ha : a = addr
      · simp [ha]
      · simp [ha, Pointing]
  | fpCleared hn hu hon hb =>
    have hheld := Pointing.of_fp hn
    refine ⟨h.fpCleared hn hu hon hb, .inr ⟨rfl, hplaced.cleared rfl hheld, by simp [hheld], ?_⟩⟩
    intro a
    have hgone := h.parted addr ⟨_, hn⟩
    rw [pointing_tabled hu.rom hb, h.fpApart.holds_clear hn]
    by_cases ha : a = addr
    · simp [ha, hgone]
    · simp [ha, Pointing]
  | dwtCleared hn hfp hu hb =>
    have hsmall := h.first _ _ hn
    have hheld := Pointing.of_dwt hn
    refine ⟨h.dwtCleared hn (hu hsmall) hb, .inr ⟨rfl, hplaced.cleared rfl hheld, by simp [hheld], ?_⟩⟩
    intro a
    have hgone : ¬ (fpBank u b).Holds addr := fun hfound => hfp (h.code addr hfound) hfound
    rw [pointing_tabled (hu hsmall).rom hb, h.dwtApart.holds_clear hn]
    by_cases ha : a = addr
    · simp [ha, hgone]
    · simp [ha, Pointing]

end

/-! ### Runs -/

/-- `Z` or `z`, type and address, where the packet has them and a kind. -/
def pointOf (rxbuf : ℕ → Byte) : Option (Bool × Word × Word) :=
  match letter (rxbuf 0), scanHexes 3 (cstr rxbuf 1) with
  | .point add, [type, addr, _] => some (add, type, addr)
  | _, _ => none

/-- The bridge at the core's breakpoint units; `asked` tells of each address whether the
last packet of type 0 or 1 for it that was answered with `OK` was a `Z`. -/
structure Station where
  gc : Conn
  units : Units
  asked : Word → Bool

abbrev Station.tables (s : Station) : BreakTables := s.gc.rest.toBreakTables

/-- What gdb makes of the packets it gets back. -/
def heard (packet : Option (Bool × Word × Word)) (sent : List (List Byte)) (asked : Word → Bool) :
    Word → Bool :=
  match packet with
  | some (add, type, addr) =>
    if isBreakpoint type ∧ sent = [framed (ascii "OK")] then Function.update asked addr add
    else asked
  | none => asked

def pointStep (threads : ℕ) (frame : ℕ → Word) : Step Station (ℕ → Byte) := fun s rxbuf =>
  match (handleCommand threads frame rxbuf s.gc).run unitsResponder (s.units, []) with
  | some (.ok r, (u, sent)) =>
    some { gc := r.2, units := u, asked := heard (pointOf rxbuf) sent s.asked }
  | _ => none

/-- A `Z` or `z` packet that is well placed. -/
def WellPlaced (s : Station) (rxbuf : ℕ → Byte) : Prop :=
  (letter (rxbuf 0) = .point true ∨ letter (rxbuf 0) = .point false) ∧
    ∀ p ∈ pointOf rxbuf, Placed s.units s.tables p.1 p.2.1 p.2.2

/-- The tables are empty and no comparator is enabled. -/
structure Station.Fresh (s : Station) : Prop where
  maxfp : s.tables.maxfp = 0
  fpState : ∀ n, s.tables.fpState n = false
  bpState : ∀ n, s.tables.bpState n = false
  fpComp : ∀ n < s.units.fpNumber, s.units.reg (fpComp n) &&& 1 = 0
  dwtFunc : ∀ n < s.units.dwtNumber,
    s.units.reg (dwtFunc (BitVec.ofNat 32 n)) &&& 0xF = dwtFnDisabled
  asked : ∀ a, s.asked a = false

theorem epilogue_rest (answers : List WriteResult) (gc : Conn) :
    (gdbEpilogue answers gc).rest = gc.rest := by
  have hclose : (gdbClose gc).1.rest = gc.rest := (putBytes_fields gc _).2.1
  unfold gdbEpilogue
  dsimp only
  split <;> exact hclose

/-- A short reply is sent, and leaves the tables alone. -/
theorem reply_run (gc : Conn) {bs : List Byte} (hlen : bs.length ≤ 8186) (u : Units) :
    ∃ gc', gc'.rest = gc.rest ∧
      (epilogue (gdbPuts (gdbPrologue gc) bs)).run unitsResponder (u, []) =
        some (.ok gc', (u, [framed bs])) := by
  refine ⟨gdbEpilogue [] (gdbPuts (gdbPrologue gc) bs), ?_, ?_⟩
  · rw [epilogue_rest]
    exact (putBytes_fields (gdbPrologue gc) bs).2.1
  · rw [epilogue_puts gc hlen]
    rfl

section
variable {threads : ℕ} {frame : ℕ → Word} {s s' : Station} {rxbuf : ℕ → Byte}

theorem pointOf_eq_some {add : Bool} {type addr : Word} (h : pointOf rxbuf = some (add, type, addr)) :
    letter (rxbuf 0) = .point add ∧ ∃ kind, scanHexes 3 (cstr rxbuf 1) = [type, addr, kind] := by
  unfold pointOf at h
  split at h
  next add' type' addr' kind hletter hscan =>
    obtain ⟨rfl, hrest⟩ := Prod.mk.inj (Option.some.inj h)
    obtain ⟨rfl, rfl⟩ := Prod.mk.inj hrest
    exact ⟨hletter, kind, hscan⟩
  · exact absurd h (by simp)

/-- A packet without a type, an address and a kind is answered, and no more. -/
theorem pointStep_unparsed (hletter : letter (rxbuf 0) = .point true ∨ letter (rxbuf 0) = .point false)
    (hnone : pointOf rxbuf = none) :
    ∃ s', pointStep threads frame s rxbuf = some s' ∧ s'.tables = s.tables ∧ s'.units = s.units ∧
      s'.asked = s.asked := by
  have hbody : ∀ add, letter (rxbuf 0) = .point add →
      handlePoint add rxbuf (gdbPrologue s.gc) = .ret (rxbuf, gdbPuts (gdbPrologue s.gc) []) := by
    intro add hadd
    unfold handlePoint
    split
    next type addr kind hscan =>
      have hsome : pointOf rxbuf = some (add, type, addr) := by
        rw [pointOf, hadd, hscan]
      exact absurd (hnone.symm.trans hsome) (by simp)
    · rfl
  have hanswer : answerCommand threads frame (letter (rxbuf 0)) rxbuf (gdbPrologue s.gc) =
      .ret (rxbuf, gdbPuts (gdbPrologue s.gc) []) := by
    rcases hletter with hl | hl
    · rw [hl]
      exact hbody true hl
    · rw [hl]
      exact hbody false hl
  obtain ⟨gc', hrest, hrun⟩ := @reply_run s.gc [] (by decide) s.units
  have hresume : ∀ step, letter (rxbuf 0) ≠ .resume step := by
    intro step hstep
    rcases hletter with hl | hl <;> exact absurd (hl.symm.trans hstep) (by simp)
  refine ⟨⟨gc', s.units, s.asked⟩, ?_, congrArg Bridge.toBreakTables hrest, rfl, rfl⟩
  rw [pointStep, handleCommand_answered hresume, hanswer, Prog.ret_bind, Prog.run_bind hrun, hnone]
  rfl

theorem pointStep_parsed (hmax : s.tables.maxfp ≤ 16) {add : Bool} {type addr : Word}
    (hpoint : pointOf rxbuf = some (add, type, addr)) :
    ∃ s' rc, pointStep threads frame s rxbuf = some s' ∧
      Pointed s.units s.tables addr add rc s'.units s'.tables ∧
      s'.asked = if isBreakpoint type ∧ rc = 0 then Function.update s.asked addr add else s.asked := by
  obtain ⟨hletter, kind, hscan⟩ := pointOf_eq_some hpoint
  obtain ⟨rc, b', u', hbreak, hpointed⟩ := handleBreakpoint_returns (u := s.units) hmax add addr
  let gc1 : Conn := { s.gc with rest := { s.gc.rest with toBreakTables := b' } }
  let reply := if rc ≠ 0 then ascii "E1" else ascii "OK"
  have hlen : reply.length ≤ 8186 := by
    dsimp only [reply]
    split <;> decide
  obtain ⟨gc', hrest, hrun⟩ := reply_run gc1 hlen u'
  -- the handler first, then the reply on its way
  have hanswer : (answerCommand threads frame (letter (rxbuf 0)) rxbuf (gdbPrologue s.gc)).run
      unitsResponder (s.units, []) = some (.ok (rxbuf, gdbPuts (gdbPrologue gc1) reply), (u', [])) := by
    have hbody : answerCommand threads frame (letter (rxbuf 0)) rxbuf (gdbPrologue s.gc) =
        (do
          let r ← handleBreakpoint s.tables add addr
          let gc := { gdbPrologue s.gc with
            rest := { (gdbPrologue s.gc).rest with toBreakTables := r.2 } }
          return (rxbuf, gdbPuts gc (if r.1 ≠ 0 then ascii "E1" else ascii "OK"))) := by
      rw [hletter]
      dsimp only [answerCommand, handlePoint]
      rw [hscan]
      rfl
    rw [hbody, Prog.run_bind (hbreak [])]
    rfl
  have hresume : ∀ step, letter (rxbuf 0) ≠ .resume step := by
    intro step hstep
    exact absurd (hletter.symm.trans hstep) (by simp)
  have htables : gc'.rest.toBreakTables = b' := congrArg Bridge.toBreakTables hrest
  -- of the reply only whether it is OK is heard
  have hok : [framed reply] = [framed (ascii "OK")] ↔ rc = 0 := by
    constructor
    · intro hsame
      by_contra hrc
      have htext : reply = ascii "OK" := framed_injective (List.cons.inj hsame).1
      rw [show reply = ascii "E1" from if_pos hrc] at htext
      exact absurd htext (by decide)
    · intro hrc
      rw [show reply = ascii "OK" from if_neg (not_not.mpr hrc)]
  refine ⟨⟨gc', u', heard (pointOf rxbuf) [framed reply] s.asked⟩, rc, ?_, ?_, ?_⟩
  · rw [pointStep, handleCommand_answered hresume, Prog.run_bind hanswer, Prog.run_bind hrun]
    rfl
  · show Pointed s.units s.tables addr add rc u' gc'.rest.toBreakTables
    rw [htables]
    exact hpointed
  · dsimp only
    rw [hpoint, heard]
    simp only [hok]

structure StationInv (s : Station) : Prop where
  wired : PointsWired s.units s.tables
  asked : ∀ a, Pointing s.units s.tables a ↔ s.asked a = true

theorem StationInv.armed_iff (h : StationInv s) (a : Word) : s.units.Armed a ↔ s.asked a = true :=
  (h.wired.armed_iff a).trans (h.asked a)

theorem Station.Fresh.inv (h : s.Fresh) : StationInv s := by
  have hfp : ∀ n, fpBank s.units s.tables n = none := by
    intro n
    exact if_neg (by simp [h.fpState n])
  have hdwt : ∀ n, dwtBank s.units s.tables n = none := by
    intro n
    exact if_neg (by simp [h.bpState n])
  have hfpNone : ∀ a, ¬ (fpBank s.units s.tables).Holds a := by
    rintro a ⟨n, hn⟩
    exact absurd ((hfp n).symm.trans hn) (by simp)
  have hdwtNone : ∀ a, ¬ (dwtBank s.units s.tables).Holds a := by
    rintro a ⟨n, hn⟩
    exact absurd ((hdwt n).symm.trans hn) (by simp)
  refine ⟨⟨by rw [h.maxfp]; decide, ?_, fun a ha => absurd ha (hfpNone a), ?_,
    fun a ha => absurd ha (hfpNone a), ?_, fun a ha => absurd ha (hdwtNone a), ?_, ?_,
    fun a ha => absurd ha (hfpNone a)⟩, ?_⟩
  · intro n hn a
    constructor
    · intro harms
      exact absurd (h.fpComp n hn) harms.1
    · intro hsome
      exact absurd ⟨n, hsome⟩ (hfpNone a)
  · intro m n a hm _
    exact absurd ⟨m, hm⟩ (hfpNone a)
  · intro n hn a
    constructor
    · intro harms
      exact absurd ((h.dwtFunc n hn).symm.trans harms.1) (by decide)
    · intro hsome
      exact absurd ⟨n, hsome⟩ (hdwtNone a)
  · intro m n a hm _
    exact absurd ⟨m, hm⟩ (hdwtNone a)
  · intro n a hn
    exact absurd ⟨n, hn⟩ (hdwtNone a)
  · intro a
    rw [h.asked a]
    constructor
    · rintro (hheld | hheld)
      · exact absurd hheld (hfpNone a)
      · exact absurd hheld (hdwtNone a)
    · intro hfalse
      exact absurd hfalse (by decide)

/-- What a packet of gdb's leaves as it is. -/
def Spares (s s' : Station) (rxbuf : ℕ → Byte) : Prop :=
  ∀ add type addr, pointOf rxbuf = some (add, type, addr) →
    ((¬ isBreakpoint type → (∀ a, s'.units.Armed a ↔ s.units.Armed a) ∧ s'.asked = s.asked) ∧
      (add = true → s.asked addr = true → s'.units = s.units ∧ s'.asked = s.asked))

theorem StationInv.step (h : StationInv s) (hplaced : WellPlaced s rxbuf) :
    ∃ s', pointStep threads frame s rxbuf = some s' ∧ StationInv s' ∧ Spares s s' rxbuf := by
  -- a packet that is no Z or z says nothing about points
  cases hpoint : pointOf rxbuf with
  | none =>
    obtain ⟨s', hstep, htables, hunits, hasked⟩ :=
      @pointStep_unparsed threads frame s _ hplaced.1 hpoint
    refine ⟨s', hstep, ⟨?_, ?_⟩, ?_⟩
    · rw [htables, hunits]
      exact h.wired
    · rw [htables, hunits, hasked]
      exact h.asked
    · intro add type addr hsome
      exact absurd (hpoint.symm.trans hsome) (by simp)
  | some p =>
    obtain ⟨add, type, addr⟩ := p
    obtain ⟨s', rc, hstep, hpointed, hasked⟩ :=
      @pointStep_parsed threads frame _ _ h.wired.maxfp _ _ _ hpoint
    have hp : Placed s.units s.tables add type addr := hplaced.2 _ hpoint
    obtain ⟨hwired, hdone⟩ := h.wired.step hp hpointed
    refine ⟨s', hstep, ⟨hwired, ?_⟩, ?_⟩
    · intro a
      rw [hasked]
      rcases hdone with ⟨_, hsame, hok⟩ | ⟨rfl, htype, _, hnew⟩
      · -- nothing was written: where that is reported as success, it was so before
        rw [hsame, h.asked]
        split
        next hheard =>
          by_cases ha : a = addr
          · subst ha
            rw [Function.update_self, ← h.asked, hok hheard.2]
          · rw [Function.update_of_ne ha]
        · rfl
      · -- a comparator was written, and gdb told of it
        have hheard : isBreakpoint type ∧ (0 : ℤ) = 0 := ⟨htype, rfl⟩
        rw [hnew, if_pos hheard]
        by_cases ha : a = addr
        · rw [if_pos ha, ha, Function.update_self]
        · rw [if_neg ha, Function.update_of_ne ha, h.asked]
    · intro add' type' addr' hsome
      obtain ⟨rfl, hrest⟩ := Prod.mk.inj (Option.some.inj (hpoint.symm.trans hsome))
      obtain ⟨rfl, rfl⟩ := Prod.mk.inj hrest
      constructor
      · intro htype
        rcases hdone with ⟨hunits, _, _⟩ | ⟨_, hbreak, _, _⟩
        · rw [hunits, hasked, if_neg (fun hheard => htype hheard.1)]
          exact ⟨fun _ => Iff.rfl, rfl⟩
        · exact absurd hbreak htype
      · rintro rfl hagain
        have hheld : Pointing s.units s.tables addr := (h.asked addr).mpr hagain
        rcases hdone with ⟨hunits, _, _⟩ | ⟨_, _, hne, _⟩
        · refine ⟨hunits, ?_⟩
          rw [hasked, ← hagain, Function.update_eq_self, ite_self]
        · exact absurd ⟨fun _ => rfl, fun _ => hheld⟩ hne

/-- In every run of well placed packets the comparators are armed for what gdb has asked
for and nothing else, and the packets leave alone what they should. -/
theorem armed_as_asked {es : List (ℕ → Byte)} {s0 : Station} (hfresh : s0.Fresh)
    (h : Run (pointStep threads frame) WellPlaced s0 es s) :
    (∀ a, s.units.Armed a ↔ s.asked a = true) ∧
      ∀ rxbuf, WellPlaced s rxbuf → ∃ s', pointStep threads frame s rxbuf = some s' ∧
        Spares s s' rxbuf := by
  have hinv := h.invariant StationInv (by
    intro s rxbuf s' hI hC hstep
    obtain ⟨s'', hstep', hinv, _⟩ := @StationInv.step threads frame _ _ hI hC
    obtain rfl := Option.some.inj (hstep.symm.trans hstep')
    exact hinv) hfresh.inv
  refine ⟨hinv.armed_iff, ?_⟩
  intro rxbuf hplaced
  obtain ⟨s', hstep, _, hspares⟩ := hinv.step hplaced
  exact ⟨s', hstep, hspares⟩

end

/-! ### Runs on given packets -/

theorem pointing_iff (u : Units) (b : BreakTables) (addr : Word) : Pointing u b addr ↔
    findAddr u.fpSlots b.fpState b.fpAddr addr ≠ none ∨
      findAddr u.dwtNumber b.bpState b.bpAddr addr ≠ none := by
  rw [ne_eq, ne_eq, findAddr_eq_none_iff, findAddr_eq_none_iff, not_not, not_not]
  rfl

instance (u : Units) (b : BreakTables) (addr : Word) : Decidable (FpPasses u b addr) :=
  inferInstanceAs (Decidable (_ → _ ∧ _))

instance (u : Units) (b : BreakTables) (add : Bool) (type addr : Word) :
    Decidable (Placed u b add type addr) :=
  decidable_of_iff
    ((add = true → addr < 0x20000000 ∧ findAddr u.fpSlots b.fpState b.fpAddr addr = none →
        ∀ n ∈ findFree u.fpSlots b.fpState, isBreakpoint type ∧ addr &&& 1 = 0 ∧
          findAddr u.dwtNumber b.bpState b.bpAddr addr = none) ∧
      (add = true → FpPasses u b addr ∧ findAddr u.dwtNumber b.bpState b.bpAddr addr = none →
        ∀ n ∈ findFree u.dwtNumber b.bpState, isBreakpoint type ∧ n ≤ 3) ∧
      (add = false → (findAddr u.fpSlots b.fpState b.fpAddr addr ≠ none ∨
        findAddr u.dwtNumber b.bpState b.bpAddr addr ≠ none) → isBreakpoint type)) <| by
    constructor
    · rintro ⟨hfp, hdwt, hclear⟩
      refine ⟨?_, ?_, ?_⟩
      · intro hadd n htakes
        exact hfp hadd ⟨htakes.1, htakes.2.1⟩ n htakes.2.2
      · intro hadd n htakes
        exact hdwt hadd ⟨htakes.1, htakes.2.1⟩ n htakes.2.2
      · intro hadd hheld
        exact hclear hadd ((pointing_iff u b addr).mp hheld)
    · intro h
      refine ⟨?_, ?_, ?_⟩
      · intro hadd hmiss n hn
        exact h.fpPut hadd n ⟨hmiss.1, hmiss.2, hn⟩
      · intro hadd hmiss n hn
        exact h.dwtPut hadd n ⟨hmiss.1, hmiss.2, hn⟩
      · intro hadd hheld
        exact h.cleared hadd ((pointing_iff u b addr).mpr hheld)

instance (s : Station) (rxbuf : ℕ → Byte) : Decidable (WellPlaced s rxbuf) :=
  @instDecidableAnd _ _ _ (Option.decidableForallMem (pointOf rxbuf))

/-- A core with so many comparators of each kind, none of them enabled. -/
def coreUnits (fp dwt : ℕ) : Units where
  rom addr :=
    if addr = fpCtrl then BitVec.ofNat 32 (fp * 16)
    else if addr = dwtCtrl then BitVec.ofNat 32 (dwt * 2 ^ 28)
    else 1
  reg _ := 0
  fpEnable := false

def freshStation (fp dwt : ℕ) : Station where
  gc := idleConn
  units := coreUnits fp dwt
  asked _ := false

theorem freshStation_fresh (fp dwt : ℕ) : (freshStation fp dwt).Fresh where
  maxfp := rfl
  fpState _ := rfl
  bpState _ := rfl
  fpComp _ _ := by
    show (0 : Word) &&& 1 = 0
    decide
  dwtFunc _ _ := by
    show (0 : Word) &&& 0xF = 0
    decide
  asked _ := rfl

example : (coreUnits 6 4).fpNumber = 6 ∧ (coreUnits 6 4).dwtNumber = 4 := by decide

instance (comp addr : Word) : Decidable (Units.fpMatches comp addr) :=
  inferInstanceAs (Decidable (_ ∧ (_ ∨ _)))

instance (func mask comp addr : Word) : Decidable (Units.dwtMatches func mask comp addr) :=
  inferInstanceAs (Decidable (_ ∧ _))

instance (u : Units) (addr : Word) : Decidable (u.Armed addr) :=
  inferInstanceAs (Decidable
    ((u.fpEnable = true ∧ ∃ n < u.fpNumber, Units.fpMatches (u.reg (fpComp n)) addr) ∨
      (u.reg demcr &&& demcrTrcena ≠ 0 ∧ ∃ n < u.dwtNumber,
        Units.dwtMatches (u.reg (dwtFunc (BitVec.ofNat 32 n))) (u.reg (dwtMask (BitVec.ofNat 32 n)))
          (u.reg (dwtComp (BitVec.ofNat 32 n))) addr)))

theorem armed_as_asked_Z :
    ∃ s, Run (pointStep 0 fun _ => 0) WellPlaced (freshStation 6 4)
        [holding (ascii "Z0,100,2"), holding (ascii "Z1,20000000,2"), holding (ascii "z0,100,2")] s ∧
      s.asked 0x20000000 = true ∧ ∀ a, s.units.Armed a ↔ s.asked a = true := by
  have hrun : (runEvents (pointStep 0 fun _ => 0) WellPlaced
      [holding (ascii "Z0,100,2"), holding (ascii "Z1,20000000,2"), holding (ascii "z0,100,2")]
      (freshStation 6 4)).map (fun s => s.asked 0x20000000) = some true := rfl
  obtain ⟨s, hs, hasked⟩ := Option.map_eq_some_iff.mp hrun
  refine ⟨s, run_of_runEvents hs, hasked, ?_⟩
  exact (armed_as_asked (freshStation_fresh 6 4) (run_of_runEvents hs)).1

/-- The second breakpoint goes to the DWT, and once more to the FPB when there is room: the
watchpoint stays when gdb takes the breakpoint back. And a write watchpoint is taken for a
breakpoint. -/
theorem comparators_astray :
    (∃ s, Run (pointStep 0 fun _ => 0) (fun _ _ => True) (freshStation 1 1)
        [holding (ascii "Z0,100,2"), holding (ascii "Z0,200,2"), holding (ascii "z0,100,2"),
          holding (ascii "Z0,200,2"), holding (ascii "z0,200,2")] s ∧
      s.units.Armed 0x200 ∧ s.asked 0x200 = false) ∧
    ∃ s, Run (pointStep 0 fun _ => 0) (fun _ _ => True) (freshStation 0 1)
        [holding (ascii "Z2,20000000,4")] s ∧
      s.units.Armed 0x20000000 ∧ s.asked 0x20000000 = false := by
  constructor
  · have hrun : ∃ s, runEvents (pointStep 0 fun _ => 0) (fun _ _ => True)
        [holding (ascii "Z0,100,2"), holding (ascii "Z0,200,2"), holding (ascii "z0,100,2"),
          holding (ascii "Z0,200,2"), holding (ascii "z0,200,2")]
        (freshStation 1 1) = some s ∧ decide (s.units.Armed 0x200) = true ∧
        s.asked 0x200 = false := ⟨_, rfl, rfl, rfl⟩
    obtain ⟨s, hs, harmed, hasked⟩ := hrun
    exact ⟨s, run_of_runEvents hs, of_decide_eq_true harmed, hasked⟩
  · have hrun : ∃ s, runEvents (pointStep 0 fun _ => 0) (fun _ _ => True)
        [holding (ascii "Z2,20000000,4")] (freshStation 0 1) = some s ∧
        decide (s.units.Armed 0x20000000) = true ∧ s.asked 0x20000000 = false :=
      ⟨_, rfl, rfl, rfl⟩
    obtain ⟨s, hs, harmed, hasked⟩ := hrun
    exact ⟨s, run_of_runEvents hs, of_decide_eq_true harmed, hasked⟩

end M3Dev.Gdb
