import M3Dev.GdbReadMemory
import M3Dev.GdbHexData
import M3Dev.Buffer
import M3Dev.WhileLoop

/-! Hex text decoded over the buffer it is in: by `hextobin`, as the `M`, `G` and `P` packets use
it, and by the loop of `qRcmd`. -/
namespace M3Dev.Gdb
open WhileLoop Buffer

/-! ### The loop of `qRcmd` -/

structure RcmdState where
  rxbuf : ℕ → Byte
  p : ℕ
  cmd : ℕ

/-- `while (p[0] && p[1])`: left with the buffer and `cmd`. -/
def rcmdPass (s : RcmdState) : Option (Pass RcmdState ((ℕ → Byte) × ℕ)) :=
  if s.rxbuf s.p ≠ 0 ∧ s.rxbuf (s.p + 1) ≠ 0 then
    some (.next {
      rxbuf := Function.update s.rxbuf s.cmd (unhex (s.rxbuf s.p) (s.rxbuf (s.p + 1)))
      p := s.p + 2
      cmd := s.cmd + 1 })
  else some (.exit (s.rxbuf, s.cmd))

/-- The loop ends where `hextobin` ends that has passes enough, as `handleRcmd` has. -/
theorem rcmd_leaves {ds : List Byte} {rxbuf : ℕ → Byte} {dst src passes : ℕ}
    (hdata : HoldsAt rxbuf src ds) (hfree : 0 ∉ ds) (hdst : dst ≤ src)
    (hpasses : ds.length / 2 ≤ passes) :
    Leaves rcmdPass ⟨rxbuf, src, dst⟩ (hextobinPasses passes rxbuf dst src) := by
  induction ds using hexBytes.induct generalizing rxbuf dst src passes with
  | case1 c0 c1 cs ih =>
    rw [List.length_cons, List.length_cons] at hpasses
    obtain ⟨passes, rfl⟩ := Nat.exists_eq_succ_of_ne_zero (by omega : passes ≠ 0)
    obtain ⟨hpair, hrest, hfree⟩ := hdata.pair hfree
    have hstored := hrest.update (.inl (by omega : dst < src + 2))
      (unhex (rxbuf src) (rxbuf (src + 1)))
    have hle : dst + 1 ≤ src + 2 := by omega
    rw [hextobinPasses, if_pos hpair]
    exact .next (if_pos hpair) (ih hstored hfree hle (by omega))
  | case2 ds hshort =>
    have hend := hdata.no_pair hshort
    have hstop : hextobinPasses passes rxbuf dst src = (rxbuf, dst) := by
      cases passes with
      | zero => rfl
      | succ passes => rw [hextobinPasses, if_neg hend]
    rw [hstop]
    exact .exit (if_neg hend)

/-! ### Text -/

theorem unhex_hex2 (b : Byte) : unhex (hexDigit (b >>> 4)) (hexDigit (b &&& 15)) = b := by
  have htext : strtoul16 (text [hexDigit (b >>> 4), hexDigit (b &&& 15), 0]) = b.toNat :=
    strtoul16_hex2 b
  rw [unhex, htext, BitVec.ofNat_toNat, BitVec.setWidth_eq]

theorem hexDigits_ne_zero (n : Byte) (hn : n.toNat < 16) : hexDigit n ≠ 0 := by
  have hall : ∀ k < 16, hexDigits.getD k 0 ≠ 0 := by decide
  exact hall n.toNat hn

theorem hexDigit_high_ne_zero (b : Byte) : hexDigit (b >>> 4) ≠ 0 := by
  apply hexDigits_ne_zero
  have hb := b.isLt
  rw [BitVec.toNat_ushiftRight, Nat.shiftRight_eq_div_pow]
  omega

theorem hexDigit_low_ne_zero (b : Byte) : hexDigit (b &&& 15) ≠ 0 := by
  apply hexDigits_ne_zero
  rw [BitVec.toNat_and]
  exact Nat.and_lt_two_pow _ (n := 4) (by decide)

theorem text_nul_free (bs : List Byte) : 0 ∉ bs.flatMap hex2 := by
  intro hmem
  obtain ⟨b, _, hzero⟩ := List.mem_flatMap.mp hmem
  rcases List.mem_cons.mp hzero with h | h
  · exact hexDigit_high_ne_zero b h.symm
  · exact hexDigit_low_ne_zero b (List.mem_singleton.mp h).symm

/-- What `gdb_puthex` puts into a packet with room for it. -/
theorem gdbPuthex_text {θ : Type} (gc : GdbSide θ) {bs : List Byte}
    (hroom : gc.tx.length + 2 * bs.length ≤ maxpkt - 1) :
    (gdbPuthex gc bs).tx.drop gc.tx.length = bs.flatMap hex2 := by
  have hput : gdbPuthex gc bs = putBytes gc (bs.flatMap hex2) := run_eq_putBytes gc (.puthex bs)
  rw [hput, putBytes_eq gc _ (by rw [hexdump_length]; exact hroom)]
  exact List.drop_left

/-! ### In place -/

/-- After `k` pairs: `k` bytes are decoded, the digits that are not read yet are still there, and
nothing is changed but the bytes from `dst` on. -/
structure Decoded (bs : List Byte) (before : ℕ → Byte) (dst src k : ℕ) (rxbuf : ℕ → Byte) : Prop where
  bytes : get rxbuf dst k = bs.take k
  unread : HoldsAt rxbuf (src + 2 * k) ((bs.drop k).flatMap hex2)
  rest : ∀ j, j < dst ∨ dst + k ≤ j → rxbuf j = before j

section
variable {bs : List Byte} {before rxbuf : ℕ → Byte} {dst src k : ℕ}

theorem decoded_start (h : HoldsAt rxbuf src (bs.flatMap hex2)) : Decoded bs rxbuf dst src 0 rxbuf :=
  ⟨rfl, h, fun _ _ => rfl⟩

/-- The pair of the next byte is in the buffer, and its byte is stored before the pairs left. -/
theorem Decoded.step (h : Decoded bs before dst src k rxbuf) (hdst : dst ≤ src)
    (hk : k < bs.length) :
    (rxbuf (src + 2 * k) ≠ 0 ∧ rxbuf (src + 2 * k + 1) ≠ 0) ∧
      Decoded bs before dst src (k + 1) (Function.update rxbuf (dst + k)
        (unhex (rxbuf (src + 2 * k)) (rxbuf (src + 2 * k + 1)))) := by
  have hunread := h.unread
  rw [List.drop_eq_getElem_cons hk, List.flatMap_cons] at hunread
  obtain ⟨hhigh, htail⟩ := holdsAt_cons.mp hunread
  obtain ⟨hlow, htail⟩ := holdsAt_cons.mp htail
  have hbyte : unhex (rxbuf (src + 2 * k)) (rxbuf (src + 2 * k + 1)) = bs[k] := by
    rw [hhigh, hlow, unhex_hex2]
  refine ⟨⟨?_, ?_⟩, ?_, ?_, ?_⟩
  · rw [hhigh]
    exact hexDigit_high_ne_zero bs[k]
  · rw [hlow]
    exact hexDigit_low_ne_zero bs[k]
  · rw [get_update_end, h.bytes, hbyte, List.take_succ_eq_append_getElem hk]
  · -- the store is before the pair that was read, or on it
    exact htail.update (.inl (by omega)) _
  · intro j hj
    rw [Function.update_of_ne (by omega), h.rest j (by omega)]

/-- All bytes are decoded: the text has come to its NUL. -/
theorem Decoded.stop (h : Decoded bs before dst src bs.length rxbuf) :
    rxbuf (src + 2 * bs.length) = 0 := by
  have hunread := h.unread
  rw [List.drop_length] at hunread
  exact holdsAt_nil.mp hunread

/-- `hextobin` after some passes, or at the end of the text. -/
theorem Decoded.passes (h : Decoded bs before dst src k rxbuf) (hdst : dst ≤ src)
    (hk : k ≤ bs.length) (passes : ℕ) :
    ∃ rxbuf', hextobinPasses passes rxbuf (dst + k) (src + 2 * k) =
        (rxbuf', dst + min (k + passes) bs.length) ∧
      Decoded bs before dst src (min (k + passes) bs.length) rxbuf' := by
  induction passes generalizing rxbuf k with
  | zero =>
    rw [Nat.add_zero, Nat.min_eq_left hk]
    exact ⟨rxbuf, rfl, h⟩
  | succ passes ih =>
    rw [hextobinPasses]
    rcases Nat.lt_or_eq_of_le hk with hlt | rfl
    · obtain ⟨hpair, hnext⟩ := h.step hdst hlt
      obtain ⟨rxbuf', hrun, hdone⟩ := ih hnext hlt
      rw [if_pos hpair]
      rw [show k + 1 + passes = k + (passes + 1) by omega] at hrun hdone
      exact ⟨rxbuf', hrun, hdone⟩
    · have hend : ¬ (rxbuf (src + 2 * bs.length) ≠ 0 ∧ rxbuf (src + 2 * bs.length + 1) ≠ 0) :=
        fun hpair => hpair.1 h.stop
      rw [if_neg hend, Nat.min_eq_right (Nat.le_add_right _ _)]
      exact ⟨rxbuf, rfl, h⟩

/-- The states of the loop of `qRcmd`. -/
def RcmdDecoded (bs : List Byte) (before : ℕ → Byte) (dst src : ℕ) (s : RcmdState) : Prop :=
  ∃ k ≤ bs.length, s.p = src + 2 * k ∧ s.cmd = dst + k ∧ Decoded bs before dst src k s.rxbuf

theorem RcmdDecoded.pass {s s' : RcmdState} (h : RcmdDecoded bs before dst src s) (hdst : dst ≤ src)
    (hpass : rcmdPass s = some (.next s')) : RcmdDecoded bs before dst src s' := by
  obtain ⟨rxbuf, p, cmd⟩ := s
  obtain ⟨k, hk, rfl, rfl, hdone⟩ := h
  rw [rcmdPass] at hpass
  split_ifs at hpass with hpair
  · cases hpass
    rcases Nat.lt_or_eq_of_le hk with hlt | rfl
    · exact ⟨k + 1, hlt, rfl, rfl, (hdone.step hdst hlt).2⟩
    · exact absurd hdone.stop hpair.1
  · cases hpass

/-- All bytes and a NUL. -/
theorem Decoded.holdsAt (h : Decoded bs before dst src bs.length rxbuf) :
    HoldsAt (Function.update rxbuf (dst + bs.length) 0) dst bs := by
  have hget := get_update_end rxbuf dst bs.length 0
  rwa [h.bytes, List.take_length] at hget

/-- Both loops come to the end of the text, with the same buffer. -/
theorem text_decodes (htext : HoldsAt rxbuf src (bs.flatMap hex2)) (hdst : dst ≤ src) {max : ℕ}
    (hmax : bs.length ≤ (max + 1) / 2) :
    ∃ rxbuf', hextobin rxbuf dst src max = (rxbuf', bs.length) ∧
      Leaves rcmdPass ⟨rxbuf, src, dst⟩ (rxbuf', dst + bs.length) ∧
      Decoded bs rxbuf dst src bs.length rxbuf' := by
  have hstart : Decoded bs rxbuf dst src 0 rxbuf := decoded_start htext
  obtain ⟨rxbuf', hrun, hdone⟩ := hstart.passes hdst (Nat.zero_le _) ((max + 1) / 2)
  rw [Nat.zero_add, Nat.min_eq_right hmax] at hrun hdone
  change hextobinPasses ((max + 1) / 2) rxbuf dst src = (rxbuf', dst + bs.length) at hrun
  have hhalf : (bs.flatMap hex2).length / 2 ≤ (max + 1) / 2 := by
    rw [hexdump_length]
    omega
  have hleaves := rcmd_leaves htext (text_nul_free bs) hdst hhalf
  rw [hrun] at hleaves
  refine ⟨rxbuf', ?_, hleaves, hdone⟩
  rw [hextobin, hrun, Nat.add_sub_cancel_left]

end

/-- Text of `gdb_puthex` anywhere in the buffer, decoded to where it starts or before: no byte is
stored over a digit that is still to be read, and the bytes come out as they were. -/
theorem hex_decodes_in_place {θ : Type} (gc : GdbSide θ) {bs : List Byte}
    (hroom : gc.tx.length + 2 * bs.length ≤ maxpkt - 1) {rxbuf : ℕ → Byte} {dst src : ℕ}
    (htext : HoldsAt rxbuf src ((gdbPuthex gc bs).tx.drop gc.tx.length)) (hdst : dst ≤ src) :
    (∀ k ≤ bs.length, ∃ rxbuf', hextobinPasses k rxbuf dst src = (rxbuf', dst + k) ∧
      Decoded bs rxbuf dst src k rxbuf') ∧
    (∀ s, Reaches rcmdPass ⟨rxbuf, src, dst⟩ s → RcmdDecoded bs rxbuf dst src s) ∧
    ∃ rxbuf', hextobin rxbuf dst src maxpkt = (rxbuf', bs.length) ∧
      Leaves rcmdPass ⟨rxbuf, src, dst⟩ (rxbuf', dst + bs.length) ∧
      get rxbuf' dst bs.length = bs ∧
      HoldsAt (Function.update rxbuf' (dst + bs.length) 0) dst bs := by
  rw [gdbPuthex_text gc hroom] at htext
  have hstart : Decoded bs rxbuf dst src 0 rxbuf := decoded_start htext
  refine ⟨?_, ?_, ?_⟩
  · intro k hk
    obtain ⟨rxbuf', hrun, hdone⟩ := hstart.passes hdst (Nat.zero_le _) k
    rw [Nat.zero_add, Nat.min_eq_left hk] at hrun hdone
    exact ⟨rxbuf', hrun, hdone⟩
  · intro s hreach
    exact hreach.invariant (RcmdDecoded bs rxbuf dst src) (fun a a' ha hpass => ha.pass hdst hpass)
      ⟨0, Nat.zero_le _, rfl, rfl, hstart⟩
  · have hpasses : bs.length ≤ (maxpkt + 1) / 2 := by
      unfold maxpkt at hroom ⊢
      omega
    obtain ⟨rxbuf', hrun, hleaves, hdone⟩ := text_decodes htext hdst hpasses
    refine ⟨rxbuf', hrun, hleaves, ?_, hdone.holdsAt⟩
    rw [hdone.bytes, List.take_length]

/-- A connection with nothing in its packet. -/
def emptyCnxn : GdbSide Unit := { txsum := 0, flags := 0, tx := [], sent := [], rest := () }

/-- Registers as a `G` packet has them, decoded to the beginning of the buffer. -/
theorem hex_decodes_in_place_G :
    ∃ rxbuf', hextobin (holding (ascii "G00a5")) 0 1 maxpkt = (rxbuf', 2) ∧
      get rxbuf' 0 2 = [0x00, 0xa5] := by
  have htext : HoldsAt (holding (ascii "G00a5")) 1
      ((gdbPuthex emptyCnxn [0x00, 0xa5]).tx.drop emptyCnxn.tx.length) := rfl
  obtain ⟨_, _, rxbuf', hrun, _, hbytes, _⟩ :=
    hex_decodes_in_place emptyCnxn (by decide) htext (Nat.zero_le 1)
  exact ⟨rxbuf', hrun, hbytes⟩

end M3Dev.Gdb
