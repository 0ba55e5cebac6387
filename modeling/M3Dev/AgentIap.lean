import M3Dev.FlashTarget

/-! The flash agent for the LPC13xx and LPC15xx, which calls the boot ROM:
`agents/lpc13xx_lpc15xx.c`. -/
namespace M3Dev.Flash.Iap
open CallTree WhileLoop ByteBlock

abbrev lpcIapPrepare : Word := 50
abbrev lpcIapWrite : Word := 51
abbrev lpcIapErase : Word := 52

/-- `romcall(p, r)`, with `r[0]`. -/
def romcall (lpcIapFunc : Word) (p : List Word) : IoProg Word := Prog.ask (.romcall lpcIapFunc p)

def flashAgentSetup : IoProg ℤ := return errNone

def flashAgentErase (lpcIapFunc flashAddr length : Word) : IoProg ℤ := do
  let page := flashAddr >>> 12
  let last := page + (length - 1) >>> 12
  if flashAddr &&& 0xFFF ≠ 0 then return errAlignment
  let r ← romcall lpcIapFunc [lpcIapPrepare, page, last]
  if r ≠ 0 then return errFail
  let r ← romcall lpcIapFunc [lpcIapErase, page, last, 0x2ee0]
  if r ≠ 0 then return errFail
  return errNone

def flashAgentWrite (fuel : ℕ) (lpcIapFunc flashAddr data length : Word) : IoProg ℤ := do
  let page := flashAddr >>> 12
  if flashAddr &&& 0xFFF ≠ 0 then return errAlignment
  let r ← romcall lpcIapFunc [lpcIapPrepare, page, page]
  if r ≠ 0 then return errFail
  if length ≠ 4096 then Prog.loop .spins (padPass data 4096) fuel length.toInt
  let r ← romcall lpcIapFunc [lpcIapWrite, flashAddr, data, 0x1000, 0x2ee0]
  if r ≠ 0 then return errFail
  return errNone

/-! ### The boot ROM -/

/-- The ROM's code for a part with so many sectors, which is not ours: a command may fail at any
time, and one that is answered with `CMD_SUCCESS` has prepared sectors there are, or erased or
programmed what it was asked to. -/
structure Rom (cell : Cell) (sectors : ℕ) where
  command : List Word → Target → Word × Target
  prepares : ∀ {first last t t'}, command [lpcIapPrepare, first, last] t = (0, t') →
    last.toNat < sectors ∧ t'.flash = t.flash ∧ t'.ram = t.ram ∧ t'.erased = t.erased
  erases : ∀ {first last clock t t'}, command [lpcIapErase, first, last, clock] t = (0, t') →
    t'.flash = eraseBlock t.flash (first <<< 12) ((last.toNat - first.toNat + 1) * 4096) ∧
      t'.erased = t.erased ++ pagesFrom (first <<< 12) (last.toNat - first.toNat + 1)
  programs : ∀ {dst src n clock t t'}, command [lpcIapWrite, dst, src, n, clock] t = (0, t') →
    t'.flash = programBlock cell t.flash dst n.toNat fun i => t.ram (byteAddr src i)

def chip {cell : Cell} {sectors : ℕ} (rom : Rom cell sectors) (status : ℕ → Word)
    (lpcIapFunc : Word) : Responder IoCall Word Target
  | .romcall func p, t => if func = lpcIapFunc then some (rom.command p t) else none
  | c, t => some (memoryIo status c t)

def agent {cell : Cell} {sectors : ℕ} (rom : Rom cell sectors) (status : ℕ → Word) (fuel : ℕ)
    (lpcIapFunc : Word) : Agent where
  chip := chip rom status lpcIapFunc
  setup := flashAgentSetup
  erase := flashAgentErase lpcIapFunc
  write := flashAgentWrite fuel lpcIapFunc

/-- Are these sectors, and the ones that were prepared? -/
def prepared (sectors : Option (Word × Word)) (first last : Word) : Bool :=
  match sectors with
  | none => false
  | some (a, b) => a ≤ first && first ≤ last && last ≤ b

/-- A command that the ROM has the means for. -/
def carryOut (cell : Cell) (sectors : ℕ) (p : List Word) (t : Target) : Word × Target :=
  match p with
  | [50, first, last] =>
    if first ≤ last ∧ last.toNat < sectors then (0, { t with prepared := some (first, last) })
    else (7, t)
  | [51, dst, src, n, _] =>
    if prepared t.prepared (dst >>> 12) ((dst + (n - 1)) >>> 12) then
      (0, { t with
        prepared := none
        flash := programBlock cell t.flash dst n.toNat fun i => t.ram (byteAddr src i) })
    else (9, t)
  | [52, first, last, _] =>
    if prepared t.prepared first last then
      (0, { t with
        prepared := none
        flash := eraseBlock t.flash (first <<< 12) ((last.toNat - first.toNat + 1) * 4096)
        erased := t.erased ++ pagesFrom (first <<< 12) (last.toNat - first.toNat + 1) })
    else (9, t)
  | _ => (1, t)

theorem carryOut_prepare {cell : Cell} {sectors : ℕ} {t : Target} (first last : Word) :
    carryOut cell sectors [lpcIapPrepare, first, last] t =
      if first ≤ last ∧ last.toNat < sectors then (0, { t with prepared := some (first, last) })
      else (7, t) := rfl

theorem carryOut_erase {cell : Cell} {sectors : ℕ} {t : Target} (first last clock : Word) :
    carryOut cell sectors [lpcIapErase, first, last, clock] t =
      if prepared t.prepared first last then
        (0, { t with
          prepared := none
          flash := eraseBlock t.flash (first <<< 12) ((last.toNat - first.toNat + 1) * 4096)
          erased := t.erased ++ pagesFrom (first <<< 12) (last.toNat - first.toNat + 1) })
      else (9, t) := rfl

theorem carryOut_write {cell : Cell} {sectors : ℕ} {t : Target} (dst src n clock : Word) :
    carryOut cell sectors [lpcIapWrite, dst, src, n, clock] t =
      if prepared t.prepared (dst >>> 12) ((dst + (n - 1)) >>> 12) then
        (0, { t with
          prepared := none
          flash := programBlock cell t.flash dst n.toNat fun i => t.ram (byteAddr src i) })
      else (9, t) := rfl

/-- A ROM that asks for sectors to be prepared, and fails at nothing else. -/
def plainRom (cell : Cell) (sectors : ℕ) : Rom cell sectors where
  command := carryOut cell sectors
  prepares := by
    intro first last t t' h
    rw [carryOut_prepare] at h
    split at h
    next hle =>
      obtain ⟨_, rfl⟩ := Prod.mk.inj h
      exact ⟨hle.2, rfl, rfl, rfl⟩
    · exact absurd (Prod.mk.inj h).1 (by decide)
  erases := by
    intro first last clock t t' h
    rw [carryOut_erase] at h
    split at h
    · obtain ⟨_, rfl⟩ := Prod.mk.inj h
      exact ⟨rfl, rfl⟩
    · exact absurd (Prod.mk.inj h).1 (by decide)
  programs := by
    intro dst src n clock t t' h
    rw [carryOut_write] at h
    split at h
    · obtain ⟨_, rfl⟩ := Prod.mk.inj h
      rfl
    · exact absurd (Prod.mk.inj h).1 (by decide)

/-! ### The contract -/

section
variable {β : Type} {cell : Cell} {sectors : ℕ} {rom : Rom cell sectors} {status : ℕ → Word}
  {lpcIapFunc : Word} {t : Target}

theorem romcall_meets {Q : β → Target → Prop} {p : List Word} {f : Word → IoProg β}
    (h : ∀ v t', rom.command p t = (v, t') → (f v).Meets (chip rom status lpcIapFunc) t' Q) :
    (romcall lpcIapFunc p >>= f).Meets (chip rom status lpcIapFunc) t Q := by
  apply Prog.Meets.ask
  intro v t' hR
  rw [chip, if_pos rfl] at hR
  exact h v t' (Option.some.inj hR)

/-- A command that has to succeed: with any other status the agent gives up. -/
theorem romcall_checked {P : Target → Prop} {p : List Word} {f : IoProg ℤ}
    (h : ∀ t', rom.command p t = (0, t') →
      f.Meets (chip rom status lpcIapFunc) t' fun rc t'' => r0 rc = 0 → P t'') :
    (romcall lpcIapFunc p >>= fun r => if r ≠ 0 then return errFail else f).Meets
      (chip rom status lpcIapFunc) t fun rc t' => r0 rc = 0 → P t' := by
  apply romcall_meets
  intro r t1 hr
  by_cases hzero : r = 0
  · rw [if_neg (not_not.mpr hzero)]
    apply h
    rw [hr, hzero]
  · rw [if_pos hzero]
    apply Prog.Meets.ret
    intro hfail
    exact absurd hfail (by decide)

theorem flashAgentErase_meets {addr length : Word} (hfit : addr.toNat + length.toNat ≤ 4096 * sectors)
    (hsectors : sectors < 0xFFFFF) :
    (flashAgentErase lpcIapFunc addr length).Meets (chip rom status lpcIapFunc) t
      fun rc t' => r0 rc = 0 → addr.toNat % 4096 = 0 ∧
        (∀ i < length.toNat, t'.flash (byteAddr addr i) = 0xFF) ∧
        t'.erased = t.erased ++ pagesFrom addr ((length.toNat + 4095) / 4096) := by
  rw [flashAgentErase]
  split
  · apply Prog.Meets.ret
    intro hfail
    exact absurd hfail (by decide)
  next haligned =>
  have haligned : addr.toNat % 2 ^ 12 = 0 := aligned_of_and (by decide) (not_not.mp haligned)
  apply romcall_checked
  intro t1 hprepare
  obtain ⟨hlast, _, _, herased1⟩ := rom.prepares hprepare
  apply romcall_checked
  intro t2 herase
  obtain ⟨hflash, hlogged⟩ := rom.erases herase
  apply Prog.Meets.ret
  intro _
  have haddr := addr.isLt
  have hlength := length.isLt
  have hpage : (addr >>> 12).toNat = addr.toNat / 4096 := by
    rw [BitVec.toNat_ushiftRight, Nat.shiftRight_eq_div_pow]
  have hspan : ((length - 1) >>> 12).toNat = (2 ^ 32 - 1 + length.toNat) % 2 ^ 32 / 4096 := by
    rw [BitVec.toNat_ushiftRight, Nat.shiftRight_eq_div_pow, BitVec.toNat_sub]
    rfl
  have hsum : (addr >>> 12 + (length - 1) >>> 12).toNat =
      addr.toNat / 4096 + (2 ^ 32 - 1 + length.toNat) % 2 ^ 32 / 4096 := by
    rw [BitVec.toNat_add, hpage, hspan]
    omega
  -- a length of 0 would end in a sector the ROM does not have
  have hpositive : 0 < length.toNat := by
    by_contra hnone
    rw [hsum] at hlast
    omega
  have hcount : (addr >>> 12 + (length - 1) >>> 12).toNat - (addr >>> 12).toNat + 1 =
      (length.toNat + 4095) / 4096 := by
    rw [hsum, hpage]
    omega
  rw [shift_aligned haligned, hcount] at hflash hlogged
  refine ⟨haligned, ?_, ?_⟩
  · intro i hi
    rw [hflash, eraseBlock, patch_at (by omega)]
    omega
  · rw [hlogged, herased1]

/-- The image of a page in the flash, and nothing else changed below it or behind a whole page. -/
abbrev PageHeld (addr data length : Word) (t t' : Target) : Prop :=
  (∀ i < length.toNat, t'.flash (byteAddr addr i) = t.ram (byteAddr data i)) ∧
  (∀ x, x.toNat < addr.toNat → t'.flash x = t.flash x) ∧
  (length.toNat = 4096 → ∀ x, addr.toNat + length.toNat ≤ x.toNat → t'.flash x = t.flash x)

/-- The call that programs the page, from a buffer that holds the image. -/
theorem programPage_meets (hcell : ∀ b, cell 0xFF b = b) {addr data length : Word}
    (hlen : length.toNat ≤ 4096) (hfit : addr.toNat + length.toNat ≤ 0x10000)
    (herased : ∀ i < length.toNat, t.flash (byteAddr addr i) = 0xFF) {t2 : Target}
    (hflash : t2.flash = t.flash)
    (hram : ∀ i < length.toNat, t2.ram (byteAddr data i) = t.ram (byteAddr data i)) :
    (do let r ← romcall lpcIapFunc [lpcIapWrite, addr, data, 0x1000, 0x2ee0]
        if r ≠ 0 then return errFail
        return errNone : IoProg ℤ).Meets (chip rom status lpcIapFunc) t2 fun rc t' =>
      r0 rc = 0 → PageHeld addr data length t t' := by
  apply romcall_checked
  intro t3 hwrite
  apply Prog.Meets.ret
  intro _
  have hpage : (0x1000 : Word).toNat = 4096 := rfl
  rw [PageHeld, rom.programs hwrite, hpage, hflash]
  refine ⟨?_, ?_, ?_⟩
  · intro i hi
    rw [programBlock_erased hcell (by omega) (by omega) (herased i hi), hram i hi]
  · intro x hx
    exact patch_below hx (by omega)
  · intro hwhole x hx
    exact patch_above (by omega)

theorem flashAgentWrite_meets (hcell : ∀ b, cell 0xFF b = b) (fuel : ℕ) {addr data length : Word}
    (hlen : length.toNat ≤ 4096) (hfit : addr.toNat + length.toNat ≤ 0x10000)
    (herased : ∀ i < length.toNat, t.flash (byteAddr addr i) = 0xFF) :
    (flashAgentWrite fuel lpcIapFunc addr data length).Meets (chip rom status lpcIapFunc) t
      fun rc t' => r0 rc = 0 → PageHeld addr data length t t' := by
  rw [flashAgentWrite]
  split
  · apply Prog.Meets.ret
    intro hfail
    exact absurd hfail (by decide)
  apply romcall_checked
  intro t1 hprepare
  obtain ⟨_, hflash1, hram1, _⟩ := rom.prepares hprepare
  have hsame : ∀ i < length.toNat, t1.ram (byteAddr data i) = t.ram (byteAddr data i) :=
    fun i _ => congrFun hram1 _
  split
  · -- a shorter block is padded behind the image
    apply (pad_meets (m := 4096) (fun _ _ _ => rfl) fuel (by decide) hlen).bind
    rintro _ t2 ⟨hflash2, hram2⟩
    apply programPage_meets hcell hlen hfit herased (hflash2.trans hflash1)
    intro i hi
    rw [hram2 i hi, hsame i hi]
  · exact programPage_meets hcell hlen hfit herased hflash1 hsame

theorem contract (hcell : ∀ b, cell 0xFF b = b) (rom : Rom cell sectors) (fuel : ℕ)
    (lpcIapFunc dataAddr : Word) (hsectors : sectors ≤ 16) :
    (agent rom status fuel lpcIapFunc).Contract (fun _ => True) dataAddr 0x1000
      (4096 * sectors) 1 := by
  constructor
  · intro t
    apply Prog.Meets.ret
    exact fun _ => ⟨trivial, rfl⟩
  · intro t addr len _ _ hfit
    apply (flashAgentErase_meets hfit (by omega)).mono
    exact fun rc t' h hzero => ⟨trivial, (h hzero).2.1⟩
  · intro t addr len _ _ hle hfit herased
    apply (flashAgentWrite_meets hcell fuel hle (by omega) herased).mono
    exact fun rc t' h hzero => ⟨trivial, one_dvd _, h hzero⟩

end

end M3Dev.Flash.Iap
