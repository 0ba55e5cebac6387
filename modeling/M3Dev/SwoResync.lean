import M3Dev.SwoPackets

/-! A sync sequence after any history of the stream, and what the decoder makes of the bytes
behind it. -/
namespace M3Dev.Swo

/-- Zeros, as many as they are, and the byte 0x80. -/
def syncBytes (n : ℕ) : List Byte := List.replicate n 0 ++ [0x80]

/-- The decoder that has heard `p` and then a sync. -/
def resynced (p : List Byte) (n : ℕ) : Swv := (processSwoData swvInit (p ++ syncBytes n)).1

/-- The calls of `handle_swv_src` made on `xs`. -/
def srcCalls (s : Swv) (xs : List Byte) : List SwvCall :=
  (processSwoData s xs).2.filter SwvCall.isSrc

/-- The zeros that a stream ends with. -/
def trailingZeros (p : List Byte) : ℕ := p.foldl (fun n x => if x = 0 then n + 1 else 0) 0

/-- The zeros before the byte 0x80, as the 32-bit counter has them, are enough. -/
def Counted (p : List Byte) (n : ℕ) : Prop := 5 ≤ (trailingZeros p + n) % 2 ^ 32

instance (p : List Byte) (n : ℕ) : Decidable (Counted p n) :=
  inferInstanceAs (Decidable (5 ≤ (trailingZeros p + n) % 2 ^ 32))

/-- The decoder waits for a sync. -/
def Waits (p : List Byte) : Prop := (processSwoData swvInit p).1.state = .sync

/-! ### The counter -/

theorem processSwoData_zcount (s : Swv) (xs : List Byte) :
    (processSwoData s xs).1.zcount = zcountRun s.zcount xs := by
  induction xs generalizing s with
  | nil => rfl
  | cons x xs ih =>
    show (processSwoData (handleSwv s x).1 xs).1.zcount = _
    rw [ih, handleSwv_zcount]
    rfl

theorem zcountRun_ofNat (k : ℕ) (xs : List Byte) : zcountRun (BitVec.ofNat 32 k) xs =
    BitVec.ofNat 32 (xs.foldl (fun n x => if x = 0 then n + 1 else 0) k) := by
  induction xs generalizing k with
  | nil => rfl
  | cons x xs ih =>
    have hstep : zcountAfter (BitVec.ofNat 32 k) x = BitVec.ofNat 32 (if x = 0 then k + 1 else 0) := by
      unfold zcountAfter
      split
      · rw [BitVec.ofNat_add]
        rfl
      · rfl
    show zcountRun (zcountAfter (BitVec.ofNat 32 k) x) xs = _
    rw [hstep, ih]
    rfl

theorem trailingZeros_zeros (p : List Byte) (n : ℕ) :
    trailingZeros (p ++ List.replicate n 0) = trailingZeros p + n := by
  induction n with
  | zero => rw [List.replicate_zero, List.append_nil, Nat.add_zero]
  | succ n ih =>
    rw [List.replicate_succ', ← List.append_assoc, trailingZeros, List.foldl_append]
    show trailingZeros (p ++ List.replicate n 0) + 1 = _
    rw [ih, Nat.add_assoc]

/-- The counter when the byte 0x80 comes. -/
theorem zcount_counted (p : List Byte) (n : ℕ) :
    5 ≤ (processSwoData swvInit (p ++ List.replicate n 0)).1.zcount ↔ Counted p n := by
  have hzero : swvInit.zcount = BitVec.ofNat 32 0 := rfl
  rw [processSwoData_zcount, hzero, zcountRun_ofNat]
  show (5 : BitVec 32) ≤ BitVec.ofNat 32 (trailingZeros (p ++ List.replicate n 0)) ↔ _
  rw [trailingZeros_zeros, BitVec.le_def, BitVec.toNat_ofNat]
  exact Iff.rfl

/-! ### Zeros -/

/-- Zeros leave a decoder waiting that waits, and one idle that is idle. -/
theorem zeros_sync (n : ℕ) {s : Swv} (h : s.state = .sync) :
    (processSwoData s (List.replicate n 0)).1.state = .sync := by
  induction n generalizing s with
  | zero => exact h
  | succ n ih =>
    apply ih
    simp [handleSwv, swvSwitch, h]

theorem zeros_idle (n : ℕ) {s : Swv} (h : s.state = .idle) :
    (processSwoData s (List.replicate n 0)).1.state = .idle := by
  induction n generalizing s with
  | zero => exact h
  | succ n ih =>
    apply ih
    simp [handleSwv, swvSwitch, h]

/-- No packet under way outlasts four zeros. -/
theorem four_zeros_idle {s : Swv} (h : s.state ≠ .sync) :
    (processSwoData s (List.replicate 4 0)).1.state = .idle := by
  cases hs : s.state
  case sync => exact absurd hs h
  all_goals simp [List.replicate, processSwoData, handleSwv, swvSwitch, hs]

theorem zeros_settle {n : ℕ} (hn : 5 ≤ n) {s : Swv} (h : s.state ≠ .sync) :
    (processSwoData s (List.replicate n 0)).1.state = .idle := by
  have hsplit : List.replicate n (0 : Byte) = List.replicate 4 0 ++ List.replicate (n - 4) 0 := by
    rw [List.replicate_append_replicate, Nat.add_sub_cancel' (by omega)]
  rw [hsplit, processSwoData_append]
  exact zeros_idle _ (four_zeros_idle h)

/-! ### The sync -/

theorem resynced_eq (p : List Byte) (n : ℕ) : resynced p n =
    (handleSwv (processSwoData swvInit (p ++ List.replicate n 0)).1 0x80).1 := by
  rw [resynced, syncBytes, ← List.append_assoc, processSwoData_append]
  rfl

theorem resynced_counted {p : List Byte} {n : ℕ} (h : Counted p n) :
    (resynced p n).state = .idle ∧ (resynced p n).zcount = 0 := by
  have hsync := And.intro ((zcount_counted p n).mpr h) (rfl : (0x80 : Byte) = 0x80)
  rw [resynced_eq, handleSwv, if_neg (by decide), if_pos hsync]
  exact ⟨rfl, rfl⟩

theorem resynced_switch {p : List Byte} {n : ℕ} (h : ¬ Counted p n) : resynced p n =
    (swvSwitch { (processSwoData swvInit (p ++ List.replicate n 0)).1 with zcount := 0 } 0x80).1 := by
  have hsync : ¬ (5 ≤ (processSwoData swvInit (p ++ List.replicate n 0)).1.zcount ∧
      (0x80 : Byte) = 0x80) := fun hand => h ((zcount_counted p n).mp hand.1)
  rw [resynced_eq, handleSwv, if_neg (by decide), if_neg hsync]

theorem switch_waiting (s : Swv) (x : Byte) (h : s.state = .sync) : swvSwitch s x = (s, []) := by
  simp [swvSwitch, h]

/-- The byte 0x80 not taken for the end of a sync is a protocol header to a decoder that is
idle, and nothing to one that waits. -/
theorem resynced_uncounted {p : List Byte} {n : ℕ} (h : ¬ Counted p n) (hn : 5 ≤ n) :
    (resynced p n).zcount = 0 ∧ (Waits p → (resynced p n).state = .sync) ∧
      (¬ Waits p → (resynced p n).state = .proto ∧ (resynced p n).data = [0x80]) := by
  rw [resynced_switch h, processSwoData_append]
  refine ⟨?_, ?_, ?_⟩
  · rw [swvSwitch_zcount]
  · intro hwaits
    have hstate := zeros_sync n hwaits
    have hswitch := switch_waiting
      { (processSwoData (processSwoData swvInit p).1 (List.replicate n 0)).1 with zcount := 0 } 0x80 hstate
    exact (congrArg (fun r => r.1.state) hswitch).trans hstate
  · intro hsynced
    have hidle := zeros_settle hn hsynced
    have hswitch := switch_proto_header
      { (processSwoData (processSwoData swvInit p).1 (List.replicate n 0)).1 with zcount := 0 } 0x80 hidle
      (by decide) (by decide)
    rw [if_pos (by decide)] at hswitch
    exact ⟨congrArg (fun r => r.1.state) hswitch, congrArg (fun r => r.1.data) hswitch⟩

/-! ### Decoders that go on alike -/

/-- The two are in the same state, with the same packet under way. -/
structure Alike (s s' : Swv) : Prop where
  state : s.state = s'.state
  zcount : s.zcount = s'.zcount
  data : s.state = .proto → s.data = s'.data
  packet : s.state ≠ .idle → s.state ≠ .sync → s.state ≠ .proto → s.id = s'.id ∧ s.val = s'.val

theorem Alike.switch {s s' : Swv} (h : Alike s s') (x : Byte) :
    Alike (swvSwitch s x).1 (swvSwitch s' x).1 ∧ (swvSwitch s x).2 = (swvSwitch s' x).2 := by
  obtain ⟨state, zcount, id, val, data⟩ := s
  obtain ⟨state', zcount', id', val', data'⟩ := s'
  obtain ⟨hstate, hzcount, hdata, hpacket⟩ := h
  obtain rfl : state = state' := hstate
  obtain rfl : zcount = zcount' := hzcount
  cases state with
  | idle =>
    simp only [swvSwitch]
    split
    · refine ⟨⟨rfl, rfl, ?_, fun _ _ _ => ⟨rfl, rfl⟩⟩, rfl⟩
      intro hproto
      exact absurd hproto (by unfold stateOf; split_ifs <;> simp)
    split
    · split
      · exact ⟨⟨rfl, rfl, fun _ => rfl, fun _ _ h => absurd rfl h⟩, rfl⟩
      · exact ⟨⟨rfl, rfl, fun _ => rfl, fun h => absurd rfl h⟩, rfl⟩
    · exact ⟨⟨rfl, rfl, fun h => absurd h (by simp), fun h => absurd rfl h⟩, rfl⟩
  | proto =>
    obtain rfl : data = data' := hdata rfl
    simp only [swvSwitch]
    split
    · exact ⟨⟨rfl, rfl, fun _ => rfl, fun h => absurd rfl h⟩, rfl⟩
    · exact ⟨⟨rfl, rfl, fun _ => rfl, fun _ _ h => absurd rfl h⟩, rfl⟩
  | sync => exact ⟨⟨rfl, rfl, hdata, fun _ h => absurd rfl h⟩, rfl⟩
  | _ =>
    obtain ⟨hid, hval⟩ := hpacket (by simp) (by simp) (by simp)
    obtain rfl : id = id' := hid
    obtain rfl : val = val' := hval
    exact ⟨⟨rfl, rfl, fun h => absurd h (by simp [swvSwitch]), fun _ _ _ => ⟨rfl, rfl⟩⟩, rfl⟩

theorem Alike.step {s s' : Swv} (h : Alike s s') (x : Byte) :
    Alike (handleSwv s x).1 (handleSwv s' x).1 ∧ (handleSwv s x).2 = (handleSwv s' x).2 := by
  have hcount : ∀ z, Alike { s with zcount := z } { s' with zcount := z } := by
    intro z
    exact ⟨h.state, rfl, h.data, h.packet⟩
  unfold handleSwv
  rw [h.zcount]
  split
  · exact (hcount _).switch x
  split
  · refine ⟨⟨rfl, rfl, ?_, ?_⟩, rfl⟩
    · intro hproto
      exact absurd hproto (by simp)
    · intro hidle
      exact absurd rfl hidle
  · exact (hcount _).switch x

theorem Alike.calls {s s' : Swv} (h : Alike s s') (xs : List Byte) :
    (processSwoData s xs).2 = (processSwoData s' xs).2 := by
  induction xs generalizing s s' with
  | nil => rfl
  | cons x xs ih =>
    obtain ⟨hnext, hcalls⟩ := h.step x
    show (handleSwv s x).2 ++ _ = (handleSwv s' x).2 ++ _
    rw [hcalls, ih hnext]

/-! ### Whom a sync recovers -/

/-- A source packet behind an idle decoder's sync, and behind the two others'. -/
theorem probe_idle {s : Swv} (h : s.state = .idle) (hz : s.zcount = 0) :
    (srcCalls s [0x01, 0x41]).length = 1 ∧ (srcCalls s [0x00, 0x01, 0x41]).length = 1 := by
  obtain ⟨state, zcount, id, val, data⟩ := s
  obtain rfl : state = .idle := h
  obtain rfl : zcount = 0 := hz
  exact ⟨rfl, rfl⟩

theorem probe_proto {s : Swv} (h : s.state = .proto) (hdata : s.data = [0x80]) (hz : s.zcount = 0) :
    (srcCalls s [0x01, 0x41]).length = 0 ∧ (srcCalls s [0x00, 0x01, 0x41]).length = 1 := by
  obtain ⟨state, zcount, id, val, data⟩ := s
  obtain rfl : state = .proto := h
  obtain rfl : zcount = 0 := hz
  obtain rfl : data = [0x80] := hdata
  exact ⟨rfl, rfl⟩

theorem probe_sync {s : Swv} (h : s.state = .sync) (hz : s.zcount = 0) :
    (srcCalls s [0x01, 0x41]).length = 0 ∧ (srcCalls s [0x00, 0x01, 0x41]).length = 0 := by
  obtain ⟨state, zcount, id, val, data⟩ := s
  obtain rfl : state = .sync := h
  obtain rfl : zcount = 0 := hz
  exact ⟨rfl, rfl⟩

/-- Only the two probes tell decoders apart. -/
theorem uncounted_probes {p : List Byte} {n : ℕ} (h : ¬ Counted p n) (hn : 5 ≤ n) :
    (srcCalls (resynced p n) [0x01, 0x41]).length = 0 ∧
      ((srcCalls (resynced p n) [0x00, 0x01, 0x41]).length = 0 ↔ Waits p) := by
  obtain ⟨hzcount, hwaits, hsynced⟩ := resynced_uncounted h hn
  by_cases hw : Waits p
  · have hprobe := probe_sync (hwaits hw) hzcount
    exact ⟨hprobe.1, iff_of_true hprobe.2 hw⟩
  · obtain ⟨hstate, hdata⟩ := hsynced hw
    have hprobe := probe_proto hstate hdata hzcount
    refine ⟨hprobe.1, iff_of_false ?_ hw⟩
    rw [hprobe.2]
    decide

theorem counted_alike {p q : List Byte} {n m : ℕ} (hp : Counted p n) (hq : Counted q m) :
    Alike (resynced p n) (resynced q m) := by
  obtain ⟨hstate, hzcount⟩ := resynced_counted hp
  obtain ⟨hstate', hzcount'⟩ := resynced_counted hq
  constructor
  · rw [hstate, hstate']
  · rw [hzcount, hzcount']
  · intro hproto
    exact absurd (hstate.symm.trans hproto) (by simp)
  · intro hidle
    exact absurd hstate hidle

theorem uncounted_alike {p q : List Byte} {n m : ℕ} (hp : ¬ Counted p n) (hq : ¬ Counted q m)
    (hn : 5 ≤ n) (hm : 5 ≤ m) (hwaits : Waits p ↔ Waits q) :
    Alike (resynced p n) (resynced q m) := by
  obtain ⟨hzcount, hsync, hproto⟩ := resynced_uncounted hp hn
  obtain ⟨hzcount', hsync', hproto'⟩ := resynced_uncounted hq hm
  by_cases hw : Waits p
  · have hstate := hsync hw
    have hstate' := hsync' (hwaits.mp hw)
    constructor
    · rw [hstate, hstate']
    · rw [hzcount, hzcount']
    · intro h
      exact absurd (hstate.symm.trans h) (by simp)
    · intro _ h
      exact absurd hstate h
  · obtain ⟨hstate, hdata⟩ := hproto hw
    obtain ⟨hstate', hdata'⟩ := hproto' fun h => hw (hwaits.mpr h)
    constructor
    · rw [hstate, hstate']
    · rw [hzcount, hzcount']
    · intro _
      rw [hdata, hdata']
    · intro _ _ h
      exact absurd hstate h

/-- Behind a sync two histories make no difference exactly if the 32-bit counter has the
zeros of both syncs as five or more, or of neither and the decoders waited for a sync both
or neither. -/
theorem sync_recovers_iff (p q : List Byte) {n m : ℕ} (hn : 5 ≤ n) (hm : 5 ≤ m) :
    (∀ s, srcCalls (resynced p n) s = srcCalls (resynced q m) s) ↔
      (Counted p n ∧ Counted q m) ∨
        (¬ Counted p n ∧ ¬ Counted q m ∧ (Waits p ↔ Waits q)) := by
  constructor
  · intro h
    have hshort := congrArg List.length (h [0x01, 0x41])
    have hlong := congrArg List.length (h [0x00, 0x01, 0x41])
    by_cases hp : Counted p n
    · have hprobe := probe_idle (resynced_counted hp).1 (resynced_counted hp).2
      by_cases hq : Counted q m
      · exact .inl ⟨hp, hq⟩
      · have hprobe' := uncounted_probes hq hm
        rw [hprobe.1, hprobe'.1] at hshort
        exact absurd hshort (by decide)
    · have hprobe := uncounted_probes hp hn
      by_cases hq : Counted q m
      · have hprobe' := probe_idle (resynced_counted hq).1 (resynced_counted hq).2
        rw [hprobe.1, hprobe'.1] at hshort
        exact absurd hshort (by decide)
      · have hprobe' := uncounted_probes hq hm
        refine .inr ⟨hp, hq, ?_⟩
        rw [← hprobe.2, ← hprobe'.2, hlong]
  · intro h s
    have halike : Alike (resynced p n) (resynced q m) := by
      rcases h with ⟨hp, hq⟩ | ⟨hp, hq, hwaits⟩
      · exact counted_alike hp hq
      · exact uncounted_alike hp hq hn hm hwaits
    exact congrArg (List.filter SwvCall.isSrc) (halike.calls s)

/-- A sync recovers a decoder that a misread header has sent back to waiting. -/
theorem sync_recovers_iff_misread :
    5 ≤ 6 ∧ ∀ s, srcCalls (resynced [] 5) s = srcCalls (resynced [0x04] 6) s :=
  ⟨by decide, (sync_recovers_iff [] [0x04] (by decide) (by decide)).mpr (.inl ⟨by decide, by decide⟩)⟩

/-- After 2^32 zeros the counter is back at 0, and the byte 0x80 ends no sync. -/
theorem sync_overlooked : ¬ ∀ (p q : List Byte) (n m : ℕ), 5 ≤ n → 5 ≤ m →
    ∀ s, srcCalls (resynced p n) s = srcCalls (resynced q m) s := by
  intro h
  have hcounted : Counted [] 5 := by decide
  have huncounted : ¬ Counted [] (2 ^ 32) := by decide
  have hsame := congrArg List.length (h [] [] 5 (2 ^ 32) (by decide) (by decide) [0x01, 0x41])
  rw [(probe_idle (resynced_counted hcounted).1 (resynced_counted hcounted).2).1,
    (uncounted_probes huncounted (by decide)).1] at hsame
  exact absurd hsame (by decide)

end M3Dev.Swo
