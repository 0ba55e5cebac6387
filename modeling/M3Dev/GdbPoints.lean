import M3Dev.DebugUnits
import M3Dev.SlotBank

/-! `handle_breakpoint` against the breakpoint units: what it may do for one address. -/
namespace M3Dev.Gdb
open CallTree Tools SlotBank

/-! ### The tables as banks -/

def slotBank (count : ℕ) (state : ℕ → Bool) (addrs : ℕ → Word) : Bank Word := fun n =>
  if n < count ∧ state n = true then some (addrs n) else none

section
variable {count : ℕ} {state : ℕ → Bool} {addrs : ℕ → Word} {addr : Word} {n : ℕ}

theorem slotBank_eq_some :
    slotBank count state addrs n = some addr ↔ n < count ∧ state n = true ∧ addrs n = addr := by
  unfold slotBank
  split
  next h => simp [h]
  next h =>
    constructor
    · intro hnone
      exact absurd hnone (by simp)
    · rintro ⟨hn, hstate, _⟩
      exact absurd ⟨hn, hstate⟩ h

theorem findAddr_eq_some (h : findAddr count state addrs addr = some n) :
    slotBank count state addrs n = some addr := by
  have hn := List.mem_range.mp (List.mem_of_find?_eq_some h)
  have hfound := List.find?_some h
  rw [Bool.and_eq_true, beq_iff_eq] at hfound
  exact slotBank_eq_some.mpr ⟨hn, hfound.1, hfound.2⟩

theorem findAddr_eq_none (h : findAddr count state addrs addr = none) :
    ¬ (slotBank count state addrs).Holds addr := by
  rintro ⟨n, hn⟩
  obtain ⟨hlt, hstate, haddr⟩ := slotBank_eq_some.mp hn
  have hmiss := List.find?_eq_none.mp h n (List.mem_range.mpr hlt)
  exact hmiss (by rw [hstate, haddr, Bool.true_and, beq_self_eq_true])

theorem findFree_eq_some (h : findFree count state = some n) :
    n < count ∧ slotBank count state addrs n = none := by
  have hn := List.mem_range.mp (List.mem_of_find?_eq_some h)
  have hfree := List.find?_some h
  rw [Bool.not_eq_true'] at hfree
  exact ⟨hn, if_neg (by simp [hfree])⟩

theorem slotBank_put (hn : n < count) :
    slotBank count (Function.update state n true) (Function.update addrs n addr) =
      (slotBank count state addrs).put n addr := by
  funext m
  by_cases hm : m = n
  · subst hm
    simp [slotBank, Bank.put, hn]
  · simp [slotBank, Bank.put, hm]

theorem slotBank_clear :
    slotBank count (Function.update state n false) addrs = (slotBank count state addrs).clear n := by
  funext m
  by_cases hm : m = n
  · subst hm
    simp [slotBank, Bank.clear]
  · simp [slotBank, Bank.clear, hm]

end

/-- The FPB comparators the bridge uses. -/
def Units.fpSlots (u : Units) : ℕ := min u.fpNumber 16

def fpBank (u : Units) (b : BreakTables) : Bank Word := slotBank u.fpSlots b.fpState b.fpAddr

def dwtBank (u : Units) (b : BreakTables) : Bank Word := slotBank u.dwtNumber b.bpState b.bpAddr

/-! ### One packet -/

/-- The FPB has no comparator for the address yet, and `n` is free. -/
def FpTakes (u : Units) (b : BreakTables) (addr : Word) (n : ℕ) : Prop :=
  addr < 0x20000000 ∧ findAddr u.fpSlots b.fpState b.fpAddr addr = none ∧
    findFree u.fpSlots b.fpState = some n

/-- The FPB has no comparator for the address and none for more. -/
def FpPasses (u : Units) (b : BreakTables) (addr : Word) : Prop :=
  addr < 0x20000000 → findAddr u.fpSlots b.fpState b.fpAddr addr = none ∧
    findFree u.fpSlots b.fpState = none

/-- The address goes to the DWT, which has none for it yet, and `n` is free. -/
def DwtTakes (u : Units) (b : BreakTables) (addr : Word) (n : ℕ) : Prop :=
  FpPasses u b addr ∧ findAddr u.dwtNumber b.bpState b.bpAddr addr = none ∧
    findFree u.dwtNumber b.bpState = some n

/-- The tables keep their bounds, and stand for these banks. -/
structure Tabled (u : Units) (b : BreakTables) (fp dwt : Bank Word) : Prop where
  maxfp : b.maxfp ≤ 16
  fp : fpBank u b = fp
  dwt : dwtBank u b = dwt

/-- What `handle_breakpoint` may do for an address: the status, the units and the tables. -/
inductive Pointed (u : Units) (b : BreakTables) (addr : Word) :
    Bool → ℤ → Units → BreakTables → Prop where
  | fpKept {n : ℕ} {b' : BreakTables} (hn : fpBank u b n = some addr)
      (hb : Tabled u b' (fpBank u b) (dwtBank u b)) : Pointed u b addr true 0 u b'
  | fpPut {n : ℕ} {u' : Units} {b' : BreakTables} (htakes : FpTakes u b addr n)
      (hu : Units.FpWritten u u' n (fpCompValue addr)) (hon : u'.fpEnable = true)
      (hb : Tabled u b' ((fpBank u b).put n addr) (dwtBank u b)) : Pointed u b addr true 0 u' b'
  | fpCleared {n : ℕ} {u' : Units} {b' : BreakTables} (hn : fpBank u b n = some addr)
      (hu : Units.FpWritten u u' n 0) (hon : u'.fpEnable = u.fpEnable)
      (hb : Tabled u b' ((fpBank u b).clear n) (dwtBank u b)) : Pointed u b addr false 0 u' b'
  | dwtKept {n : ℕ} {b' : BreakTables} (hn : dwtBank u b n = some addr)
      (hb : Tabled u b' (fpBank u b) (dwtBank u b)) : Pointed u b addr true 0 u b'
  | dwtPut {n : ℕ} {u' : Units} {b' : BreakTables} (htakes : DwtTakes u b addr n)
      (hu : n ≤ 3 → Units.DwtWritten u u' n addr dwtFnWatchPc)
      (hb : Tabled u b' (fpBank u b) ((dwtBank u b).put n addr)) : Pointed u b addr true 0 u' b'
  | dwtCleared {n : ℕ} {u' : Units} {b' : BreakTables} (hn : dwtBank u b n = some addr)
      (hfp : addr < 0x20000000 → ¬ (fpBank u b).Holds addr)
      (hu : n ≤ 3 → Units.DwtWritten u u' n 0 dwtFnDisabled)
      (hb : Tabled u b' (fpBank u b) ((dwtBank u b).clear n)) : Pointed u b addr false 0 u' b'
  | absent {b' : BreakTables} (hfp : addr < 0x20000000 → ¬ (fpBank u b).Holds addr)
      (hdwt : ¬ (dwtBank u b).Holds addr) (hb : Tabled u b' (fpBank u b) (dwtBank u b)) :
      Pointed u b addr false 0 u b'
  | full {b' : BreakTables} (hb : Tabled u b' (fpBank u b) (dwtBank u b)) :
      Pointed u b addr true 1 u b'

section
variable {u : Units} {b : BreakTables} {sent : List (List Byte)} {addr : Word}

/-- A run against the units that comes back, with no packet sent on the way. -/
def Returns {α : Type} (p : HostProg α) (u : Units) (r : α) (u' : Units) : Prop :=
  ∀ sent, p.run unitsResponder (u, sent) = some (.ok r, (u', sent))

theorem Returns.ret {α : Type} (r : α) (u : Units) : Returns (.ret r) u r u := fun _ => rfl

theorem Returns.bind {α β : Type} {p : HostProg α} {f : α → HostProg β} {u u' u'' : Units} {a : α}
    {r : β} (h : Returns p u a u') (h' : Returns (f a) u' r u'') : Returns (p >>= f) u r u'' := by
  intro sent
  rw [Prog.run_bind (h sent), h' sent]

theorem swdpAhbRead_returns (u : Units) (addr old : Word) :
    Returns (swdpAhbRead addr old) u (0, u.read addr) u := by
  intro sent
  rfl

theorem swdpAhbWrite_returns (u : Units) (addr value : Word) :
    Returns (swdpAhbWrite addr value) u 0 (u.write addr value) := by
  intro sent
  rfl

theorem readFpCount_returns (u : Units) :
    ∃ n, Returns readFpCount u (some n) u ∧ min n 16 = u.fpSlots := by
  have hrom : u.read romtabFpb = u.rom romtabFpb := rfl
  by_cases hunit : u.rom romtabFpb &&& 1 ≠ 0
  · refine ⟨fpCount (u.read fpCtrl), ?_, ?_⟩
    · apply (swdpAhbRead_returns u romtabFpb 0).bind
      dsimp only
      rw [if_neg (not_not.mpr rfl), hrom, if_pos hunit]
      apply (swdpAhbRead_returns u fpCtrl _).bind
      exact Returns.ret _ u
    · rw [Units.fpCount_read, Units.fpCount_min, Units.fpSlots, Units.fpNumber, if_pos hunit]
  · refine ⟨0, ?_, ?_⟩
    · apply (swdpAhbRead_returns u romtabFpb 0).bind
      dsimp only
      rw [if_neg (not_not.mpr rfl), hrom, if_neg hunit]
      exact Returns.ret _ u
    · rw [Units.fpSlots, Units.fpNumber, if_neg hunit]

theorem readDwtCount_returns (u : Units) : Returns readDwtCount u (some u.dwtNumber) u := by
  have hrom : u.read romtabDwt = u.rom romtabDwt := rfl
  have hctrl : u.read dwtCtrl = u.rom dwtCtrl := rfl
  apply (swdpAhbRead_returns u romtabDwt 0).bind
  dsimp only
  rw [if_neg (not_not.mpr rfl), hrom, Units.dwtNumber]
  by_cases hunit : u.rom romtabDwt &&& 1 ≠ 0
  · rw [if_pos hunit, if_pos hunit, ← hctrl]
    apply (swdpAhbRead_returns u dwtCtrl _).bind
    exact Returns.ret _ u
  · rw [if_neg hunit, if_neg hunit]
    exact Returns.ret _ u

/-- The number of comparators that `maxfp` becomes. -/
theorem maxfp_updated (hmax : b.maxfp ≤ 16) {n : ℕ} (hn : min n 16 = u.fpSlots) :
    (if n ≠ b.maxfp then { b with maxfp := if n > 16 then 16 else n } else b) =
      { b with maxfp := u.fpSlots } := by
  by_cases hsame : n = b.maxfp
  · have hslots : u.fpSlots = b.maxfp := by omega
    rw [if_neg (not_not.mpr hsame), hslots]
  · have hslots : (if n > 16 then 16 else n) = u.fpSlots := by
      split <;> omega
    rw [if_pos hsame, hslots]

theorem maxbp_updated (n : ℕ) :
    (if n ≠ b.maxbp then { b with maxbp := n } else b) = { b with maxbp := n } := by
  by_cases hsame : n = b.maxbp
  · rw [if_neg (not_not.mpr hsame), hsame]
  · rw [if_pos hsame]

theorem fpSlots_le (u : Units) : u.fpSlots ≤ 16 := Nat.min_le_right _ _

/-- `handle_flashpatch` from the tables on. -/
theorem handleFlashpatch_counted (hmax : b.maxfp ≤ 16) {add : Bool} {r : ℤ × BreakTables} {u' : Units}
    (h : Returns (do
      let b := { b with maxfp := u.fpSlots }
      match findAddr b.maxfp b.fpState b.fpAddr addr with
      | some n =>
        if add then return (0, b)
        let _ ← swdpAhbWrite (fpComp n) 0
        return (0, { b with fpState := Function.update b.fpState n false })
      | none =>
        if !add then return (-1, b)
        match findFree b.maxfp b.fpState with
        | none => return (-1, b)
        | some n =>
          let _ ← swdpAhbWrite fpCtrl 3
          let _ ← swdpAhbWrite (fpComp n) (fpCompValue addr)
          return (0, { b with
            fpState := Function.update b.fpState n true
            fpAddr := Function.update b.fpAddr n addr })) u r u') :
    Returns (handleFlashpatch b add addr) u r u' := by
  obtain ⟨count, hcount, hslots⟩ := readFpCount_returns u
  apply hcount.bind
  dsimp only
  rw [maxfp_updated hmax hslots]
  exact h

/-- With 0 the FPB has done what was asked for; else it has done nothing, and the address
goes on to the DWT. -/
theorem handleFlashpatch_returns (hmax : b.maxfp ≤ 16) (hcode : addr < 0x20000000) (add : Bool) :
    ∃ rc b' u', Returns (handleFlashpatch b add addr) u (rc, b') u' ∧
      ((rc = 0 ∧ Pointed u b addr add 0 u' b') ∨
        (rc ≠ 0 ∧ u' = u ∧ b' = { b with maxfp := u.fpSlots } ∧
          findAddr u.fpSlots b.fpState b.fpAddr addr = none ∧
          (add = true → findFree u.fpSlots b.fpState = none))) := by
  have hle := fpSlots_le u
  -- the loop over the comparators finds the address or a free one
  cases hfound : findAddr u.fpSlots b.fpState b.fpAddr addr with
  | some n =>
    have hn := findAddr_eq_some hfound
    have hlt : n < u.fpSlots := (slotBank_eq_some.mp hn).1
    cases add with
    | true =>
      -- it is armed already
      refine ⟨0, { b with maxfp := u.fpSlots }, u, handleFlashpatch_counted hmax ?_, .inl ⟨rfl, .fpKept hn ⟨hle, rfl, rfl⟩⟩⟩
      dsimp only
      rw [hfound]
      exact Returns.ret _ u
    | false =>
      refine ⟨0, { b with
          maxfp := u.fpSlots, fpState := Function.update b.fpState n false },
        u.write (fpComp n) 0, handleFlashpatch_counted hmax ?_, .inl ⟨rfl, .fpCleared hn
          (Units.fpWritten_write (by omega) u 0) ?_ ⟨hle, slotBank_clear, rfl⟩⟩⟩
      · dsimp only
        rw [hfound]
        apply (swdpAhbWrite_returns u _ _).bind
        exact Returns.ret _ _
      · rw [Units.write_plain (Units.fpComp_plain (by omega))]
  | none =>
    cases add with
    | false =>
      refine ⟨-1, { b with maxfp := u.fpSlots }, u, handleFlashpatch_counted hmax ?_,
        .inr ⟨by decide, rfl, rfl, rfl, fun h => absurd h (by decide)⟩⟩
      dsimp only
      rw [hfound]
      exact Returns.ret _ u
    | true =>
      -- to be armed: in a free comparator, if there is one
      cases hfree : findFree u.fpSlots b.fpState with
      | none =>
        refine ⟨-1, { b with maxfp := u.fpSlots }, u, handleFlashpatch_counted hmax ?_,
          .inr ⟨by decide, rfl, rfl, rfl, fun _ => rfl⟩⟩
        dsimp only
        rw [hfound]
        dsimp only
        rw [hfree]
        exact Returns.ret _ u
      | some n =>
        obtain ⟨hlt, _⟩ := @findFree_eq_some _ _ b.fpAddr _ hfree
        have hwritten := Units.fpWritten_write (n := n) (by omega) (u.write fpCtrl 3) (fpCompValue addr)
        refine ⟨0, { b with
            maxfp := u.fpSlots, fpState := Function.update b.fpState n true,
            fpAddr := Function.update b.fpAddr n addr },
          (u.write fpCtrl 3).write (fpComp n) (fpCompValue addr), handleFlashpatch_counted hmax ?_,
          .inl ⟨rfl, .fpPut ⟨hcode, hfound, hfree⟩ ⟨hwritten.rom, hwritten.comp, hwritten.rest⟩ ?_
            ⟨hle, slotBank_put hlt, rfl⟩⟩⟩
        · dsimp only
          rw [hfound]
          dsimp only
          rw [hfree]
          apply (swdpAhbWrite_returns u _ _).bind
          apply (swdpAhbWrite_returns _ _ _).bind
          exact Returns.ret _ _
        · rw [Units.write_plain (Units.fpComp_plain (by omega))]
          rfl

theorem swdpWatchpoint_returns {n : ℕ} (hn : n < 16) (u : Units) (addr func : Word) :
    ∃ rc u', Returns (swdpWatchpoint (BitVec.ofNat 32 n) addr func) u rc u' ∧
      (n ≤ 3 → Units.DwtWritten u u' n addr func) := by
  have hval : (BitVec.ofNat 32 n).toNat = n := by
    rw [BitVec.toNat_ofNat]
    omega
  by_cases hlarge : BitVec.ofNat 32 n > 3
  · refine ⟨-1, u, ?_, ?_⟩
    · rw [swdpWatchpoint, if_pos hlarge]
      exact Returns.ret _ u
    · intro hsmall
      have : 3 < (BitVec.ofNat 32 n).toNat := hlarge
      omega
  · obtain ⟨u', haccess, hwritten⟩ := Units.dwtWritten_access hn u addr func fun _ => 0
    refine ⟨0, u', ?_, fun _ => hwritten⟩
    intro sent
    rw [swdpWatchpoint, if_neg hlarge]
    simp only [Prog.pure_eq, Prog.ask_bind]
    rw [@Prog.run_call _ _ _ _ _ _ _ _ (u', sent) (statusAnswer 0 fun _ => 0)]
    · rfl
    · rw [unitsResponder]
      simp only [haccess]

/-- `handle_breakpoint` from the DWT's tables on. -/
theorem handleWatchpoint_counted {add : Bool} {r : ℤ × BreakTables} {u' : Units}
    (h : Returns (do
      let b := { b with maxbp := u.dwtNumber }
      match add, findAddr b.maxbp b.bpState b.bpAddr addr with
      | true, some _ => return (0, b)
      | true, none =>
        match findFree b.maxbp b.bpState with
        | some n =>
          let _ ← swdpWatchpointPc (BitVec.ofNat 32 n) addr
          return (0, { b with
            bpAddr := Function.update b.bpAddr n addr
            bpState := Function.update b.bpState n true })
        | none => return (1, b)
      | false, some n =>
        let _ ← swdpWatchpointDisable (BitVec.ofNat 32 n)
        return (0, { b with bpState := Function.update b.bpState n false })
      | false, none => return (0, b)) u r u') :
    Returns (handleWatchpoint b add addr) u r u' := by
  apply (readDwtCount_returns u).bind
  dsimp only
  rw [maxbp_updated]
  exact h

/-- `handle_breakpoint` once the FPB has passed. -/
theorem handleWatchpoint_returns {m : ℕ} (hm : m ≤ 16) {add : Bool}
    (hfp : addr < 0x20000000 → findAddr u.fpSlots b.fpState b.fpAddr addr = none ∧
      (add = true → findFree u.fpSlots b.fpState = none)) :
    ∃ rc b' u', Returns (handleWatchpoint { b with maxfp := m } add addr) u (rc, b') u' ∧
      Pointed u b addr add rc u' b' := by
  have hlt := u.dwtNumber_lt
  have hmiss : addr < 0x20000000 → ¬ (fpBank u b).Holds addr :=
    fun h => findAddr_eq_none (hfp h).1
  -- as in the flash patch unit, with the other table
  cases hfound : findAddr u.dwtNumber b.bpState b.bpAddr addr with
  | some n =>
    have hn := findAddr_eq_some hfound
    have hnlt : n < u.dwtNumber := (slotBank_eq_some.mp hn).1
    cases add with
    | true =>
      refine ⟨0, { b with maxfp := m, maxbp := u.dwtNumber }, u, handleWatchpoint_counted ?_,
        .dwtKept hn ⟨hm, rfl, rfl⟩⟩
      dsimp only
      rw [hfound]
      exact Returns.ret _ u
    | false =>
      obtain ⟨rc, u', hwatch, hwritten⟩ := swdpWatchpoint_returns (n := n) (by omega) u 0 dwtFnDisabled
      refine ⟨0, { b with
          maxfp := m, maxbp := u.dwtNumber, bpState := Function.update b.bpState n false }, u',
        handleWatchpoint_counted ?_, .dwtCleared hn hmiss hwritten ⟨hm, rfl, slotBank_clear⟩⟩
      dsimp only
      rw [hfound]
      exact hwatch.bind (Returns.ret _ u')
  | none =>
    cases add with
    | false =>
      refine ⟨0, { b with maxfp := m, maxbp := u.dwtNumber }, u, handleWatchpoint_counted ?_,
        .absent hmiss (findAddr_eq_none hfound) ⟨hm, rfl, rfl⟩⟩
      dsimp only
      rw [hfound]
      exact Returns.ret _ u
    | true =>
      -- to be armed: in a free comparator, if there is one
      cases hfree : findFree u.dwtNumber b.bpState with
      | none =>
        refine ⟨1, { b with maxfp := m, maxbp := u.dwtNumber }, u, handleWatchpoint_counted ?_,
          .full ⟨hm, rfl, rfl⟩⟩
        dsimp only
        rw [hfound]
        dsimp only
        rw [hfree]
        exact Returns.ret _ u
      | some n =>
        obtain ⟨hnlt, _⟩ := @findFree_eq_some _ _ b.bpAddr _ hfree
        obtain ⟨rc, u', hwatch, hwritten⟩ :=
          swdpWatchpoint_returns (n := n) (by omega) u addr dwtFnWatchPc
        refine ⟨0, { b with
            maxfp := m, maxbp := u.dwtNumber, bpAddr := Function.update b.bpAddr n addr,
            bpState := Function.update b.bpState n true }, u', handleWatchpoint_counted ?_,
          .dwtPut ⟨fun h => ⟨(hfp h).1, (hfp h).2 rfl⟩, hfound, hfree⟩ hwritten
            ⟨hm, rfl, slotBank_put hnlt⟩⟩
        dsimp only
        rw [hfound]
        dsimp only
        rw [hfree]
        exact hwatch.bind (Returns.ret _ u')

theorem handleBreakpoint_returns (hmax : b.maxfp ≤ 16) (add : Bool) (addr : Word) :
    ∃ rc b' u', Returns (handleBreakpoint b add addr) u (rc, b') u' ∧
      Pointed u b addr add rc u' b' := by
  by_cases hcode : addr < 0x20000000
  · obtain ⟨rc, b', u', hfp, hdone⟩ := handleFlashpatch_returns (u := u) hmax hcode add
    rcases hdone with ⟨rfl, hpointed⟩ | ⟨hrc, rfl, rfl, hmiss, hfree⟩
    · refine ⟨0, b', u', ?_, hpointed⟩
      rw [handleBreakpoint, if_pos hcode]
      apply hfp.bind
      exact Returns.ret _ u'
    · obtain ⟨rc', b'', u'', hdwt, hpointed⟩ :=
        handleWatchpoint_returns (m := u'.fpSlots) (fpSlots_le u') (b := b) (u := u')
          (fun _ => ⟨hmiss, hfree⟩)
      refine ⟨rc', b'', u'', ?_, hpointed⟩
      rw [handleBreakpoint, if_pos hcode]
      apply hfp.bind
      dsimp only
      rw [if_neg hrc]
      exact hdwt
  · obtain ⟨rc, b', u', hdwt, hpointed⟩ := @handleWatchpoint_returns u b _
      b.maxfp hmax add (fun h => absurd h hcode)
    refine ⟨rc, b', u', ?_, hpointed⟩
    rw [handleBreakpoint, if_neg hcode]
    exact hdwt

end

end M3Dev.Gdb
