import M3Dev.GdbText

/-! Hex data in a packet: where the strings of a packet lie in the receive buffer, and
what decoding data over the beginning of the buffer leaves there. -/
namespace M3Dev.Gdb

/-! ### Strings -/

/-- The string `s` and its NUL are in the buffer from `i` on. -/
def HoldsAt (rxbuf : ℕ → Byte) (i : ℕ) (s : List Byte) : Prop := Holds (fun k => rxbuf (i + k)) s

theorem holdsAt_nil {rxbuf : ℕ → Byte} {i : ℕ} : HoldsAt rxbuf i [] ↔ rxbuf i = 0 := by
  simp [HoldsAt, Holds]

theorem holdsAt_cons {rxbuf : ℕ → Byte} {i : ℕ} {c : Byte} {s : List Byte} :
    HoldsAt rxbuf i (c :: s) ↔ rxbuf i = c ∧ HoldsAt rxbuf (i + 1) s := by
  unfold HoldsAt Holds
  rw [List.length_cons, List.range_succ_eq_map, List.map_cons, List.map_map, List.cons_append,
    List.cons.injEq, Nat.add_zero]
  have hshift : ((fun k => rxbuf (i + k)) ∘ Nat.succ) = fun k => rxbuf (i + 1 + k) := by
    funext k
    show rxbuf (i + (k + 1)) = _
    rw [Nat.add_comm k, Nat.add_assoc]
  rw [hshift]

theorem HoldsAt.drop {rxbuf : ℕ → Byte} {i : ℕ} {s t : List Byte} (h : HoldsAt rxbuf i (s ++ t)) :
    HoldsAt rxbuf (i + s.length) t := by
  induction s generalizing i with
  | nil => exact h
  | cons c s ih =>
    have hrest := ih (holdsAt_cons.mp h).2
    rwa [Nat.add_assoc, Nat.add_comm 1] at hrest

/-- What is stored elsewhere does not matter. -/
theorem HoldsAt.update {rxbuf : ℕ → Byte} {i : ℕ} {s : List Byte} (h : HoldsAt rxbuf i s) {j : ℕ}
    (hj : j < i ∨ i + s.length < j) (c : Byte) : HoldsAt (Function.update rxbuf j c) i s := by
  induction s generalizing i with
  | nil =>
    rw [holdsAt_nil] at h ⊢
    rw [List.length_nil] at hj
    rw [Function.update_of_ne (by omega), h]
  | cons d s ih =>
    rw [List.length_cons] at hj
    obtain ⟨hhead, htail⟩ := holdsAt_cons.mp h
    refine holdsAt_cons.mpr ⟨?_, ih htail (by omega)⟩
    rw [Function.update_of_ne (by omega), hhead]

/-- A string cut short by a NUL. -/
theorem HoldsAt.cut {rxbuf : ℕ → Byte} {i : ℕ} {s : List Byte} {c : Byte} {t : List Byte}
    (h : HoldsAt rxbuf i (s ++ c :: t)) :
    HoldsAt (Function.update rxbuf (i + s.length) 0) i s := by
  induction s generalizing i with
  | nil =>
    rw [holdsAt_nil, List.length_nil, Nat.add_zero, Function.update_self]
  | cons d s ih =>
    obtain ⟨hhead, htail⟩ := holdsAt_cons.mp h
    have hrest := ih htail
    rw [List.length_cons]
    refine holdsAt_cons.mpr ⟨?_, ?_⟩
    · rw [Function.update_of_ne (by omega), hhead]
    · rwa [Nat.add_assoc, Nat.add_comm 1] at hrest

theorem cstrFrom_holdsAt {rxbuf : ℕ → Byte} {room i : ℕ} {s : List Byte}
    (h : cstrFrom rxbuf room i = s) (hroom : s.length < room) :
    HoldsAt rxbuf i s ∧ 0 ∉ s := by
  induction s generalizing room i with
  | nil =>
    obtain ⟨room, rfl⟩ := Nat.exists_eq_succ_of_ne_zero (Nat.ne_zero_of_lt hroom)
    rw [cstrFrom] at h
    refine ⟨holdsAt_nil.mpr ?_, List.not_mem_nil⟩
    by_contra hne
    rw [if_neg hne] at h
    exact absurd h (List.cons_ne_nil _ _)
  | cons c s ih =>
    obtain ⟨room, rfl⟩ := Nat.exists_eq_succ_of_ne_zero (Nat.ne_zero_of_lt hroom)
    rw [cstrFrom] at h
    by_cases hzero : rxbuf i = 0
    · rw [if_pos hzero] at h
      exact absurd h.symm (List.cons_ne_nil _ _)
    · rw [if_neg hzero] at h
      obtain ⟨hhead, htail⟩ := List.cons.inj h
      obtain ⟨hat, hfree⟩ := ih htail (Nat.lt_of_succ_lt_succ hroom)
      refine ⟨holdsAt_cons.mpr ⟨hhead, hat⟩, ?_⟩
      rw [List.mem_cons, not_or]
      exact ⟨fun heq => hzero (hhead.trans heq.symm), hfree⟩

theorem HoldsAt.cstrFrom {rxbuf : ℕ → Byte} {i : ℕ} {s : List Byte} (h : HoldsAt rxbuf i s)
    (hfree : 0 ∉ s) {room : ℕ} (hroom : s.length < room) : cstrFrom rxbuf room i = s := by
  induction s generalizing room i with
  | nil =>
    obtain ⟨room, rfl⟩ := Nat.exists_eq_succ_of_ne_zero (Nat.ne_zero_of_lt hroom)
    rw [Gdb.cstrFrom, if_pos (holdsAt_nil.mp h)]
  | cons c s ih =>
    obtain ⟨room, rfl⟩ := Nat.exists_eq_succ_of_ne_zero (Nat.ne_zero_of_lt hroom)
    rw [List.mem_cons, not_or] at hfree
    obtain ⟨hhead, htail⟩ := holdsAt_cons.mp h
    rw [Gdb.cstrFrom, hhead, if_neg (fun heq => hfree.1 heq.symm),
      ih htail hfree.2 (Nat.lt_of_succ_lt_succ hroom)]

/-- The string in the buffer. -/
theorem HoldsAt.cstr {rxbuf : ℕ → Byte} {i : ℕ} {s : List Byte} (h : HoldsAt rxbuf i s)
    (hfree : 0 ∉ s) (hfits : i + s.length < maxpkt) : cstr rxbuf i = s :=
  h.cstrFrom hfree (by omega)

/-- The first character of its kind. -/
theorem idxOf?_append {c : Byte} {s : List Byte} (h : c ∉ s) (t : List Byte) :
    (s ++ c :: t).idxOf? c = some s.length := by
  induction s with
  | nil => simp [List.idxOf?, List.findIdx?_cons]
  | cons d s ih =>
    rw [List.mem_cons, not_or] at h
    have hne : (d == c) = false := by
      rw [beq_eq_false_iff_ne]
      exact fun heq => h.1 heq.symm
    rw [List.cons_append, List.idxOf?_cons, hne, ih h.2]
    rfl

/-! ### Data -/

/-- The bytes that pairs of hex digits stand for. -/
def hexBytes : List Byte → List Byte
  | c0 :: c1 :: cs => BitVec.ofNat 8 (checkValue c0 c1) :: hexBytes cs
  | _ => []

/-- What is left of the digits after the last pair. -/
theorem half_of_short {ds : List Byte} (hshort : ∀ c0 c1 cs, ds = c0 :: c1 :: cs → False) :
    ds.length / 2 = 0 := by
  rcases ds with _ | ⟨c0, _ | ⟨c1, cs⟩⟩
  · rfl
  · exact Nat.div_eq_of_lt Nat.one_lt_two
  · exact absurd rfl (hshort c0 c1 cs)

theorem hexBytes_length (ds : List Byte) : (hexBytes ds).length = ds.length / 2 := by
  induction ds using hexBytes.induct with
  | case1 c0 c1 cs ih =>
    rw [hexBytes, List.length_cons, ih, List.length_cons, List.length_cons]
    omega
  | case2 ds hshort => rw [hexBytes.eq_2 ds hshort, half_of_short hshort, List.length_nil]

/-- Where two digits are, the decoder finds a pair. -/
theorem HoldsAt.pair {rxbuf : ℕ → Byte} {src : ℕ} {c0 c1 : Byte} {cs : List Byte}
    (h : HoldsAt rxbuf src (c0 :: c1 :: cs)) (hfree : 0 ∉ c0 :: c1 :: cs) :
    (rxbuf src ≠ 0 ∧ rxbuf (src + 1) ≠ 0) ∧ HoldsAt rxbuf (src + 2) cs ∧ 0 ∉ cs := by
  obtain ⟨h0, htail⟩ := holdsAt_cons.mp h
  obtain ⟨h1, htail⟩ := holdsAt_cons.mp htail
  rw [List.mem_cons, not_or, List.mem_cons, not_or] at hfree
  refine ⟨?_, htail, hfree.2.2⟩
  rw [h0, h1]
  exact ⟨fun heq => hfree.1 heq.symm, fun heq => hfree.2.1 heq.symm⟩

/-- At the end of the data it finds none. -/
theorem HoldsAt.no_pair {rxbuf : ℕ → Byte} {src : ℕ} {ds : List Byte} (h : HoldsAt rxbuf src ds)
    (hshort : ∀ c0 c1 cs, ds = c0 :: c1 :: cs → False) :
    ¬ (rxbuf src ≠ 0 ∧ rxbuf (src + 1) ≠ 0) := by
  rcases ds with _ | ⟨c0, _ | ⟨c1, cs⟩⟩
  · exact fun hpair => hpair.1 (holdsAt_nil.mp h)
  · exact fun hpair => hpair.2 (holdsAt_nil.mp (holdsAt_cons.mp h).2)
  · exact absurd rfl (hshort c0 c1 cs)

theorem unhex_eq (c0 c1 : Byte) : unhex c0 c1 = BitVec.ofNat 8 (checkValue c0 c1) := by
  rw [unhex, strtoul16_two]

/-- Every byte stored is a pair of the buffer as it was, and nothing else changes: a pair is
read before a byte is stored over it, as `dst` is not behind `src`. -/
theorem hextobinPasses_reads (passes : ℕ) (rxbuf : ℕ → Byte) {dst src : ℕ} (hdst : dst ≤ src) :
    ∃ rxbuf' k, hextobinPasses passes rxbuf dst src = (rxbuf', dst + k) ∧
      (∀ i < k, rxbuf' (dst + i) = unhex (rxbuf (src + 2 * i)) (rxbuf (src + 2 * i + 1))) ∧
      ∀ j, j < dst ∨ dst + k ≤ j → rxbuf' j = rxbuf j := by
  induction passes generalizing rxbuf dst src with
  | zero => exact ⟨rxbuf, 0, rfl, fun i hi => absurd hi (Nat.not_lt_zero i), fun _ _ => rfl⟩
  | succ passes ih =>
    rw [hextobinPasses]
    by_cases hpair : rxbuf src ≠ 0 ∧ rxbuf (src + 1) ≠ 0
    · let b := unhex (rxbuf src) (rxbuf (src + 1))
      obtain ⟨rxbuf', k, hrun, hread, hrest⟩ :=
        @ih (Function.update rxbuf dst b) (dst + 1) (src + 2) (by omega)
      refine ⟨rxbuf', k + 1, ?_, ?_, ?_⟩
      · rw [if_pos hpair, hrun, Nat.add_assoc, Nat.add_comm 1]
      · intro i hi
        cases i with
        | zero =>
          rw [Nat.add_zero, hrest dst (.inl (Nat.lt_succ_self dst)), Function.update_self]
          rfl
        | succ i =>
          have hsame := hread i (by omega)
          rw [Function.update_of_ne (by omega), Function.update_of_ne (by omega)] at hsame
          rw [show dst + (i + 1) = dst + 1 + i by omega, hsame,
            show src + 2 + 2 * i = src + 2 * (i + 1) by omega]
      · intro j hj
        rw [hrest j (by omega), Function.update_of_ne (by omega)]
    · exact ⟨rxbuf, 0, by rw [if_neg hpair, Nat.add_zero], fun i hi => absurd hi (Nat.not_lt_zero i),
        fun _ _ => rfl⟩

/-- Decoding goes on to the end of the data. -/
theorem hextobinPasses_end {passes : ℕ} {rxbuf : ℕ → Byte} {dst src : ℕ} {ds : List Byte}
    (hdata : HoldsAt rxbuf src ds) (hfree : 0 ∉ ds) (hdst : dst ≤ src)
    (hpasses : ds.length / 2 ≤ passes) :
    (hextobinPasses passes rxbuf dst src).2 = dst + ds.length / 2 := by
  induction ds using hexBytes.induct generalizing rxbuf dst src passes with
  | case1 c0 c1 cs ih =>
    rw [List.length_cons, List.length_cons] at hpasses ⊢
    obtain ⟨passes, rfl⟩ := Nat.exists_eq_succ_of_ne_zero (by omega : passes ≠ 0)
    obtain ⟨hpair, hrest, hfree⟩ := hdata.pair hfree
    have hstored := hrest.update (.inl (by omega : dst < src + 2))
      (unhex (rxbuf src) (rxbuf (src + 1)))
    rw [hextobinPasses, if_pos hpair, ih hstored hfree (by omega) (by omega)]
    omega
  | case2 ds hshort =>
    rw [half_of_short hshort]
    cases passes with
    | zero => rfl
    | succ passes => rw [hextobinPasses, if_neg (hdata.no_pair hshort), Nat.add_zero]

/-- The pairs of a string in the buffer. -/
theorem HoldsAt.hexBytes {rxbuf : ℕ → Byte} {src : ℕ} {ds : List Byte} (h : HoldsAt rxbuf src ds) :
    (List.range (ds.length / 2)).map
      (fun i => unhex (rxbuf (src + 2 * i)) (rxbuf (src + 2 * i + 1))) = hexBytes ds := by
  induction ds using hexBytes.induct generalizing src with
  | case1 c0 c1 cs ih =>
    obtain ⟨h0, htail⟩ := holdsAt_cons.mp h
    obtain ⟨h1, htail⟩ := holdsAt_cons.mp htail
    have hhalf : (c0 :: c1 :: cs).length / 2 = cs.length / 2 + 1 := by
      rw [List.length_cons, List.length_cons]
      omega
    rw [hhalf, List.range_succ_eq_map, List.map_cons, List.map_map, Gdb.hexBytes, ← ih htail]
    congr 1
    · show unhex (rxbuf src) (rxbuf (src + 1)) = _
      rw [h0, h1, unhex_eq]
    · apply List.map_congr_left
      intro i _
      show unhex (rxbuf (src + 2 * (i + 1))) (rxbuf (src + 2 * (i + 1) + 1)) = _
      rw [show src + 2 * (i + 1) = src + 1 + 1 + 2 * i by omega]
  | case2 ds hshort =>
    rw [Gdb.hexBytes.eq_2 ds hshort, half_of_short hshort, List.range_zero, List.map_nil]

/-- The decoded data lies from `dst` on; nothing else has changed. -/
theorem hextobin_decodes {rxbuf : ℕ → Byte} {dst src : ℕ} {ds : List Byte}
    (hdata : HoldsAt rxbuf src ds) (hfree : 0 ∉ ds) (hdst : dst ≤ src) {max : ℕ}
    (hmax : ds.length ≤ max + 1) :
    ∃ rxbuf', hextobin rxbuf dst src max = (rxbuf', ds.length / 2) ∧
      (List.range (ds.length / 2)).map (fun i => rxbuf' (dst + i)) = hexBytes ds ∧
      ∀ j, j < dst ∨ dst + ds.length / 2 ≤ j → rxbuf' j = rxbuf j := by
  obtain ⟨rxbuf', k, hrun, hread, hrest⟩ := hextobinPasses_reads ((max + 1) / 2) rxbuf hdst
  have hend := @hextobinPasses_end ((max + 1) / 2) _ _ _ _ hdata hfree hdst (by omega)
  rw [hrun] at hend
  obtain rfl : k = ds.length / 2 := Nat.add_left_cancel hend
  refine ⟨rxbuf', ?_, ?_, hrest⟩
  · rw [hextobin, hrun]
    show (rxbuf', dst + ds.length / 2 - dst) = _
    rw [Nat.add_sub_cancel_left]
  · rw [← hdata.hexBytes]
    apply List.map_congr_left
    intro i hi
    exact hread i (List.mem_range.mp hi)

end M3Dev.Gdb
