import M3Dev.FlashTarget

/-! The flash agent for the STM32F4: `agents/stm32fxxx.c`. -/
namespace M3Dev.Flash.Stm32
open CallTree WhileLoop ByteBlock

abbrev flashKeyr : Word := 0x40023C04
abbrev flashKeyrKey1 : Word := 0x45670123
abbrev flashKeyrKey2 : Word := 0xCDEF89AB
abbrev flashSr : Word := 0x40023C0C
abbrev flashSrBsy : Word := 0x10000
abbrev flashSrErrmask : Word := 0xF2
abbrev flashCr : Word := 0x40023C10
abbrev flashCrLock : Word := 0x80000000
abbrev flashCrStrt : Word := 0x10000
abbrev flashCrPsize32 : Word := 0x200
abbrev flashCrSer : Word := 0x2
abbrev flashCrPg : Word := 0x1

def flashCrSnb (n : ℕ) : Word := (BitVec.ofNat 32 n &&& 15) <<< 3

/-- Where the sectors begin, and the end of the last one. -/
def sectors : List Word :=
  [0x00000000, 0x00004000, 0x00008000, 0x0000C000, 0x00010000, 0x00020000, 0x00040000,
   0x00060000, 0x00080000, 0x000A0000, 0x000C0000, 0x000E0000, 0x00100000]

def sector (n : ℕ) : Word := sectors.getD n 0

def flashAgentSetup : IoProg ℤ := do
  writel flashKeyrKey1 flashKeyr
  writel flashKeyrKey2 flashKeyr
  let v ← readl flashCr
  if v &&& flashCrLock ≠ 0 then return errFail
  return errNone

/-- `while ((v = readl(FLASH_SR)) & FLASH_SR_BSY) ;` -/
def waitBusy (fuel : ℕ) : IoProg Word :=
  Prog.loop .spins (fun _ => do
    let v ← readl flashSr
    if v &&& flashSrBsy ≠ 0 then return .next () else return .exit v) fuel ()

/-- One pass of the erase loop. -/
def erasePass (fuel : ℕ) (addr length : Word) (n : ℕ) : IoProg (Pass ℕ ℤ) := do
  writel (flashCrSer ||| flashCrSnb n) flashCr
  writel (flashCrStrt ||| flashCrSer ||| flashCrSnb n) flashCr
  let v ← waitBusy fuel
  if v &&& flashSrErrmask ≠ 0 then return .exit errFail
  if n + 1 = 12 then return .exit errNone
  if sector (n + 1) - addr ≥ length then return .exit errNone
  return .next (n + 1)

def flashAgentErase (fuel : ℕ) (addr length : Word) : IoProg ℤ :=
  match (List.range 12).find? (fun n => addr == sector n) with
  | none => return errAlignment
  | some n => Prog.loop .spins (erasePass fuel addr length) fuel n

/-- One pass of the write loop over address, data pointer and length. -/
def writePass (fuel : ℕ) (s : Word × Word × Word) : IoProg (Pass (Word × Word × Word) ℤ) := do
  let (addr, data, length) := s
  if length = 0 then
    writel 0 flashCr
    return .exit errNone
  let w ← loadl data
  writel w addr
  let v ← waitBusy fuel
  if v &&& flashSrErrmask ≠ 0 then
    writel 0 flashCr
    return .exit errFail
  return .next (addr + 4, data + 4, length - 4)

def flashAgentWrite (fuel : ℕ) (addr data length : Word) : IoProg ℤ := do
  if addr &&& 3 ≠ 0 ∨ length &&& 3 ≠ 0 then return errAlignment
  writel (flashCrPg ||| flashCrPsize32) flashCr
  Prog.loop .spins (writePass fuel) fuel (addr, data, length)

/-! ### The chip -/

def eraseSector (n : ℕ) (t : Target) : Target :=
  { t with
    flash := eraseBlock t.flash (sector n) ((sector (n + 1)).toNat - (sector n).toNat)
    erased := t.erased ++ [sector n] }

/-- The keys in their order unlock `FLASH_CR`; a write to it may start a sector's erasure,
and with `PG` set a word written to the flash is programmed. -/
def chipWritel (cell : Cell) (value addr : Word) (t : Target) : Target :=
  if addr = flashKeyr then
    if value = flashKeyrKey1 then { t with stm := { t.stm with keyed := true } }
    else if value = flashKeyrKey2 ∧ t.stm.keyed = true then
      { t with stm := { t.stm with keyed := false, locked := false } }
    else { t with stm := { t.stm with keyed := false } }
  else if t.stm.locked then t
  else if addr = flashCr then
    let t := { t with stm := { t.stm with cr := value, locked := value &&& flashCrLock ≠ 0 } }
    if value &&& flashCrStrt ≠ 0 ∧ value &&& flashCrSer ≠ 0 then
      eraseSector (value >>> 3 &&& 15).toNat t
    else t
  else if addr < 0x100000 ∧ t.stm.cr &&& flashCrPg ≠ 0 then
    { t with flash := programBlock cell t.flash addr 4 fun i => (wordBytes value).getD i 0 }
  else t

def chip (cell : Cell) (status : ℕ → Word) : Responder IoCall Word Target
  | .writel value addr, t => some (0, chipWritel cell value addr t)
  | .readl addr, t =>
    if addr = flashCr then some (t.stm.cr ||| if t.stm.locked then flashCrLock else 0, t)
    else some (t.answer status)
  | c, t => some (memoryIo status c t)

def agent (cell : Cell) (status : ℕ → Word) (fuel : ℕ) : Agent where
  chip := chip cell status
  setup := flashAgentSetup
  erase := flashAgentErase fuel
  write := flashAgentWrite fuel

/-! ### The contract -/

section
variable {cell : Cell} {status : ℕ → Word} {t : Target}

def Ready (t : Target) : Prop := t.stm.locked = false

theorem chipWritel_ram (value addr : Word) : (chipWritel cell value addr t).ram = t.ram := by
  unfold chipWritel
  split
  · split
    · rfl
    split
    · rfl
    · rfl
  split
  · rfl
  split
  · dsimp only
    split
    · rfl
    · rfl
  split
  · rfl
  · rfl

theorem waitBusy_meets (fuel : ℕ) (t : Target) :
    (waitBusy fuel).Meets (chip cell status) t fun _ t' => t.Waited t' := by
  have hne : flashSr ≠ flashCr := by decide
  apply poll_meets
  intro t'
  refine ⟨(t'.answer status).1, (t'.answer status).2, ?_, t'.answer_waited status⟩
  rw [chip, if_neg hne]

theorem lock_shows (x : Word) : (x ||| flashCrLock) &&& flashCrLock ≠ 0 := by
  intro h
  have hbit := congrArg (fun y => BitVec.getLsbD y 31) h
  simp at hbit

theorem setup_meets (t : Target) : flashAgentSetup.Meets (chip cell status) t fun rc t' =>
    r0 rc = 0 → Ready t' ∧ t'.ram = t.ram := by
  apply writel_meets rfl
  apply writel_meets rfl
  apply Prog.Meets.ask
  intro v t' hR
  rw [chip, if_pos rfl] at hR
  obtain ⟨hv, rfl⟩ := Prod.mk.inj (Option.some.inj hR)
  split
  · apply Prog.Meets.ret
    intro hfail
    exact absurd hfail (by decide)
  next hunlocked =>
    apply Prog.Meets.ret
    intro _
    constructor
    · apply Bool.eq_false_iff.mpr
      intro hlocked
      apply hunlocked
      rw [← hv, if_pos hlocked]
      exact lock_shows _
    · rw [chipWritel_ram, chipWritel_ram]

/-! ### Erasing -/

/-- What the sector number in `FLASH_CR` is to the chip. -/
theorem snb_decodes : ∀ n < 12,
    ((flashCrStrt ||| flashCrSer ||| flashCrSnb n) >>> 3 &&& 15).toNat = n ∧
    (flashCrStrt ||| flashCrSer ||| flashCrSnb n) &&& flashCrLock = 0 ∧
    (flashCrStrt ||| flashCrSer ||| flashCrSnb n) &&& flashCrStrt ≠ 0 ∧
    (flashCrStrt ||| flashCrSer ||| flashCrSnb n) &&& flashCrSer ≠ 0 ∧
    (flashCrSer ||| flashCrSnb n) &&& flashCrLock = 0 ∧
    (flashCrSer ||| flashCrSnb n) &&& flashCrStrt = 0 := by decide

theorem sector_lt : ∀ n < 12, (sector n).toNat < (sector (n + 1)).toNat := by decide

theorem sector_mono : ∀ n < 12, ∀ m ≤ n, (sector m).toNat ≤ (sector n).toNat := by decide

theorem sector_le : ∀ n < 12, (sector (n + 1)).toNat ≤ 0x100000 := by decide

/-- With the lock open, `FLASH_CR` takes a value. -/
theorem chipWritel_cr (hready : Ready t) {value : Word} (hlock : value &&& flashCrLock = 0) :
    chipWritel cell value flashCr t =
      if value &&& flashCrStrt ≠ 0 ∧ value &&& flashCrSer ≠ 0 then
        eraseSector (value >>> 3 &&& 15).toNat
          { t with stm := { t.stm with cr := value, locked := false } }
      else { t with stm := { t.stm with cr := value, locked := false } } := by
  have hne : flashCr ≠ flashKeyr := by decide
  have hopen : ¬ t.stm.locked = true := by
    rw [hready]
    decide
  have hkept : decide (value &&& flashCrLock ≠ 0) = false := decide_eq_false (not_not.mpr hlock)
  rw [chipWritel, if_neg hne, if_neg hopen, if_pos rfl, hkept]

/-- The sector is chosen. -/
theorem chooses_sector (hready : Ready t) {n : ℕ} (hn : n < 12) :
    ∃ stm : StmFlash, stm.locked = false ∧
      chipWritel cell (flashCrSer ||| flashCrSnb n) flashCr t = { t with stm := stm } := by
  obtain ⟨_, _, _, _, hlock, hstrt⟩ := snb_decodes n hn
  refine ⟨{ t.stm with cr := flashCrSer ||| flashCrSnb n, locked := false }, rfl, ?_⟩
  rw [chipWritel_cr hready hlock, if_neg fun h => h.1 hstrt]

/-- The sector is erased. -/
theorem starts_erase (hready : Ready t) {n : ℕ} (hn : n < 12) :
    ∃ stm : StmFlash, stm.locked = false ∧
      chipWritel cell (flashCrStrt ||| flashCrSer ||| flashCrSnb n) flashCr t =
        eraseSector n { t with stm := stm } := by
  obtain ⟨hdecode, hlock, hstrt, hser, _, _⟩ := snb_decodes n hn
  refine ⟨{ t.stm with cr := flashCrStrt ||| flashCrSer ||| flashCrSnb n, locked := false }, rfl, ?_⟩
  rw [chipWritel_cr hready hlock, if_pos ⟨hstrt, hser⟩, hdecode]

/-- The sectors from `n0` to before `n` are erased, and no others. -/
structure ErasedTo (n0 n : ℕ) (t t' : Target) : Prop where
  ready : Ready t'
  blank : ∀ x : Word, (sector n0).toNat ≤ x.toNat → x.toNat < (sector n).toNat → t'.flash x = 0xFF
  logged : t'.erased = t.erased ++ (List.range' n0 (n - n0)).map sector

theorem ErasedTo.waited {n0 n : ℕ} {t' t'' : Target} (h : ErasedTo n0 n t t')
    (hwaited : t'.Waited t'') : ErasedTo n0 n t t'' := by
  constructor
  · rw [Ready, hwaited.stm]
    exact h.ready
  · rw [hwaited.flash]
    exact h.blank
  · rw [hwaited.erased]
    exact h.logged

theorem ErasedTo.start {n0 n : ℕ} {t' : Target} (hle : n0 ≤ n) (hn : n < 12) (h : ErasedTo n0 n t t')
    {stm : StmFlash} (hstm : stm.locked = false) :
    ErasedTo n0 (n + 1) t (eraseSector n { t' with stm := stm }) := by
  constructor
  · exact hstm
  · intro x hlow hhigh
    have hlt := sector_lt n hn
    have hend := sector_le n hn
    show eraseBlock t'.flash (sector n) ((sector (n + 1)).toNat - (sector n).toNat) x = 0xFF
    by_cases hx : x.toNat < (sector n).toNat
    · rw [eraseBlock, patch_below hx (by omega)]
      exact h.blank x hlow hx
    · rw [eraseBlock, patch_inside (Nat.not_lt.mp hx) (by omega)]
  · have hcount : n + 1 - n0 = n - n0 + 1 := by omega
    have hlast : n0 + (n - n0) = n := by omega
    show t'.erased ++ [sector n] = _
    rw [h.logged, hcount, List.range'_concat, List.map_append, List.append_assoc, Nat.one_mul, hlast]
    rfl

/-- What an erasure from sector `n0` on has come to when it ends: behind the block, and not
farther than it has to. -/
structure Erasure (addr length : Word) (n0 n : ℕ) (t t' : Target) : Prop where
  first : addr = sector n0
  some : n0 < n
  last : n ≤ 12
  done : ErasedTo n0 n t t'
  covers : addr.toNat + length.toNat ≤ (sector n).toNat
  needed : n0 + 1 < n → (sector (n - 1)).toNat < addr.toNat + length.toNat

theorem erasePass_meets (fuel : ℕ) {addr length : Word} (hfit : addr.toNat + length.toNat ≤ 0x100000)
    {n0 n : ℕ} {t1 : Target} (haddr : addr = sector n0) (hle : n0 ≤ n) (hn : n < 12)
    (h : ErasedTo n0 n t t1)
    (hneeded : n0 < n → (sector n).toNat < addr.toNat + length.toNat) :
    (erasePass fuel addr length n).Meets (chip cell status) t1 fun p t' =>
      (∀ n', p = .next n' → n' = n + 1 ∧ n' < 12 ∧ ErasedTo n0 n' t t' ∧
        (sector n').toNat < addr.toNat + length.toNat) ∧
      ∀ rc, p = .exit rc → r0 rc = 0 → Erasure addr length n0 (n + 1) t t' := by
  obtain ⟨stm1, hstm1, hchosen⟩ := @chooses_sector cell _ h.ready _ hn
  have h1 : ErasedTo n0 n t { t1 with stm := stm1 } := ⟨hstm1, h.blank, h.logged⟩
  obtain ⟨stm2, hstm2, hstarted⟩ := @starts_erase cell _ h1.ready _ hn
  apply writel_meets rfl
  rw [hchosen]
  apply writel_meets rfl
  rw [hstarted]
  apply (waitBusy_meets fuel _).bind
  intro v t2 hwaited
  have hnext : ErasedTo n0 (n + 1) t t2 := (h1.start hle hn hstm2).waited hwaited
  have hlt := sector_lt n hn
  have hend := sector_le n hn
  have hmono := sector_mono n hn n0 hle
  have hsub : (sector (n + 1) - addr).toNat = (sector (n + 1)).toNat - addr.toNat := by
    apply BitVec.toNat_sub_of_le
    rw [BitVec.le_def, haddr]
    omega
  split
  · apply Prog.Meets.exit
    intro hfail
    exact absurd hfail (by decide)
  split
  next hlast =>
    -- behind the last sector the flash ends
    apply Prog.Meets.exit
    intro _
    refine ⟨haddr, by omega, by omega, hnext, ?_, fun hmore => hneeded (by omega)⟩
    rw [hlast]
    exact hfit
  split
  next hfar =>
    -- the next sector starts behind what was asked for
    apply Prog.Meets.exit
    intro _
    refine ⟨haddr, by omega, by omega, hnext, ?_, fun hmore => hneeded (by omega)⟩
    have hfar' := BitVec.le_def.mp hfar
    rw [hsub] at hfar'
    rw [haddr] at hfar' ⊢
    omega
  next hnot hnear =>
    apply Prog.Meets.next
    refine ⟨rfl, by omega, hnext, ?_⟩
    have hnear' : ¬ length.toNat ≤ (sector (n + 1) - addr).toNat := fun h => hnear (BitVec.le_def.mpr h)
    rw [hsub] at hnear'
    omega

theorem flashAgentErase_meets (fuel : ℕ) {addr length : Word} (hready : Ready t)
    (hfit : addr.toNat + length.toNat ≤ 0x100000) :
    (flashAgentErase fuel addr length).Meets (chip cell status) t fun rc t' => r0 rc = 0 →
      ∃ n0 n, Erasure addr length n0 n t t' := by
  rw [flashAgentErase]
  cases hfind : (List.range 12).find? (fun n => addr == sector n) with
  | none =>
    apply Prog.Meets.ret
    intro hfail
    exact absurd hfail (by decide)
  | some n0 =>
    have haddr : addr = sector n0 := by
      have hsome := List.find?_some hfind
      exact eq_of_beq hsome
    have hn0 : n0 < 12 := List.mem_range.mp (List.mem_of_find?_eq_some hfind)
    apply Prog.Meets.loop fun n t' => n0 ≤ n ∧ n < 12 ∧ ErasedTo n0 n t t' ∧
      (n0 < n → (sector n).toNat < addr.toNat + length.toNat)
    · rintro n t1 ⟨hle, hn, h, hneeded⟩
      apply (erasePass_meets fuel hfit haddr hle hn h hneeded).mono
      rintro p t2 ⟨hnext, hexit⟩
      constructor
      · intro n' hn'
        obtain ⟨rfl, hlt, h', hneeded'⟩ := hnext n' hn'
        exact ⟨by omega, hlt, h', fun _ => hneeded'⟩
      · intro rc hrc hzero
        exact ⟨n0, n + 1, hexit rc hrc hzero⟩
    · refine ⟨le_rfl, hn0, ⟨hready, ?_, ?_⟩, fun hlt => absurd hlt (lt_irrefl n0)⟩
      · intro x hlow hhigh
        omega
      · rw [Nat.sub_self]
        exact (List.append_nil _).symm

theorem Erasure.blank {addr length : Word} {n0 n : ℕ} {t' : Target} (h : Erasure addr length n0 n t t')
    {i : ℕ} (hi : i < length.toNat) : t'.flash (byteAddr addr i) = 0xFF := by
  have hto : (byteAddr addr i).toNat = addr.toNat + i := by
    have hend := (sector n).isLt
    have hcovers := h.covers
    exact byteAddr_toNat_of_lt (by omega)
  apply h.done.blank
  · rw [hto, h.first]
    exact Nat.le_add_right _ _
  · have hcovers := h.covers
    omega

/-! ### Writing -/

theorem chipWritel_flash (hready : Ready t) (hpg : t.stm.cr &&& flashCrPg ≠ 0) {addr : Word}
    (haddr : addr.toNat < 0x100000) (w : Word) :
    chipWritel cell w addr t =
      { t with flash := programBlock cell t.flash addr 4 fun i => (wordBytes w).getD i 0 } := by
  have hkeyr : addr ≠ flashKeyr := by
    rintro rfl
    exact absurd haddr (by decide)
  have hcr : addr ≠ flashCr := by
    rintro rfl
    exact absurd haddr (by decide)
  have hopen : ¬ t.stm.locked = true := by
    rw [hready]
    decide
  have hlt : addr < 0x100000 := BitVec.lt_def.mpr haddr
  rw [chipWritel, if_neg hkeyr, if_neg hopen, if_neg hcr, if_pos ⟨hlt, hpg⟩]

/-- The first `k` bytes of the buffer at `data` are programmed at `addr`. -/
structure Programmed (cell : Cell) (addr data : Word) (k : ℕ) (t t' : Target) : Prop where
  ready : Ready t'
  programming : t'.stm.cr &&& flashCrPg ≠ 0
  ram : t'.ram = t.ram
  flash : t'.flash = programBlock cell t.flash addr k fun i => t.ram (byteAddr data i)

theorem Programmed.waited {addr data : Word} {k : ℕ} {t' t'' : Target}
    (h : Programmed cell addr data k t t') (hwaited : t'.Waited t'') :
    Programmed cell addr data k t t'' := by
  constructor
  · rw [Ready, hwaited.stm]
    exact h.ready
  · rw [hwaited.stm]
    exact h.programming
  · rw [hwaited.ram]
    exact h.ram
  · rw [hwaited.flash]
    exact h.flash

/-- One more word. -/
theorem Programmed.word {addr data : Word} {k : ℕ} {t' : Target}
    (h : Programmed cell addr data k t t') (hk : addr.toNat + k + 4 ≤ 0x100000) :
    Programmed cell addr data (k + 4) t
      (chipWritel cell (leWord fun i => t'.ram (byteAddr (byteAddr data k) i)) (byteAddr addr k) t') := by
  have haddr : (byteAddr addr k).toNat < 0x100000 := by
    rw [byteAddr_toNat_of_lt (by omega)]
    omega
  rw [chipWritel_flash h.ready h.programming haddr]
  refine ⟨h.ready, h.programming, h.ram, ?_⟩
  have hbytes : programBlock cell t'.flash (byteAddr addr k) 4
      (fun i => (wordBytes (leWord fun j => t'.ram (byteAddr (byteAddr data k) j))).getD i 0) =
      programBlock cell t'.flash (byteAddr addr k) 4 fun i => t.ram (byteAddr data (k + i)) := by
    apply programBlock_congr
    intro i hi
    rw [getD_leWord _ hi, h.ram, byteAddr_add]
  calc programBlock cell t'.flash (byteAddr addr k) 4
        (fun i => (wordBytes (leWord fun j => t'.ram (byteAddr (byteAddr data k) j))).getD i 0)
      = programBlock cell t'.flash (byteAddr addr k) 4 fun i => t.ram (byteAddr data (k + i)) := hbytes
    _ = programBlock cell t.flash addr (k + 4) fun i => t.ram (byteAddr data i) := by
        rw [h.flash]
        exact programBlock_append (b := fun i => t.ram (byteAddr data i)) (by omega)

theorem writePass_meets (fuel : ℕ) {addr data length : Word}
    (hfit : addr.toNat + length.toNat ≤ 0x100000) (hwhole : length.toNat % 4 = 0) {k : ℕ} {t' : Target}
    (hk : k ≤ length.toNat) (hk4 : k % 4 = 0) (h : Programmed cell addr data k t t') :
    (writePass fuel (byteAddr addr k, byteAddr data k, BitVec.ofNat 32 (length.toNat - k))).Meets
      (chip cell status) t' fun p t'' =>
        (∀ s, p = .next s → k + 4 ≤ length.toNat ∧
          s = (byteAddr addr (k + 4), byteAddr data (k + 4), BitVec.ofNat 32 (length.toNat - (k + 4))) ∧
          Programmed cell addr data (k + 4) t t'') ∧
        ∀ rc, p = .exit rc → r0 rc = 0 → k = length.toNat ∧ Ready t'' ∧ t''.flash = t'.flash := by
  rw [writePass]
  split
  next hzero =>
    apply writel_meets rfl
    apply Prog.Meets.exit
    intro _
    have hdone := left_eq_zero.mp hzero
    rw [chipWritel_cr h.ready (by decide), if_neg (by decide)]
    exact ⟨by omega, rfl, rfl⟩
  next hnonzero =>
    have hmore : length.toNat - k ≠ 0 := fun hzero => hnonzero (left_eq_zero.mpr hzero)
    apply Prog.Meets.ask
    intro w t1 hR
    obtain ⟨hw, rfl⟩ := Prod.mk.inj (Option.some.inj hR)
    rw [← hw]
    apply writel_meets rfl
    have hword := h.word (by omega)
    apply (waitBusy_meets fuel _).bind
    intro v t2 hwaited
    split
    · apply writel_meets rfl
      apply Prog.Meets.exit
      intro hfail
      exact absurd hfail (by decide)
    · apply Prog.Meets.next
      refine ⟨by omega, ?_, hword.waited hwaited⟩
      have hlater : BitVec.ofNat 32 (length.toNat - k) - 4 = BitVec.ofNat 32 (length.toNat - (k + 4)) :=
        left_sub (c := 4) (by omega)
      rw [hlater, ← byteAddr_add addr, ← byteAddr_add data]
      rfl

theorem flashAgentWrite_meets (hcell : ∀ b, cell 0xFF b = b) (fuel : ℕ) {addr data length : Word}
    (hready : Ready t) (hfit : addr.toNat + length.toNat ≤ 0x100000)
    (herased : ∀ i < length.toNat, t.flash (byteAddr addr i) = 0xFF) :
    (flashAgentWrite fuel addr data length).Meets (chip cell status) t fun rc t' => r0 rc = 0 →
      Ready t' ∧ 4 ∣ length.toNat ∧
      (∀ i < length.toNat, t'.flash (byteAddr addr i) = t.ram (byteAddr data i)) ∧
      (∀ x, x.toNat < addr.toNat → t'.flash x = t.flash x) ∧
      ∀ x, addr.toNat + length.toNat ≤ x.toNat → t'.flash x = t.flash x := by
  rw [flashAgentWrite]
  split
  · apply Prog.Meets.ret
    intro hfail
    exact absurd hfail (by decide)
  next haligned =>
    rw [not_or, not_not, not_not] at haligned
    have hwhole : length.toNat % 4 = 0 := by
      rw [← and_three_toNat, haligned.2]
      rfl
    apply writel_meets rfl
    rw [chipWritel_cr hready (by decide), if_neg (by decide)]
    -- the words before the `k`-th are programmed
    apply Prog.Meets.loop fun s t' => ∃ k, k ≤ length.toNat ∧ k % 4 = 0 ∧
      s = (byteAddr addr k, byteAddr data k, BitVec.ofNat 32 (length.toNat - k)) ∧
      Programmed cell addr data k t t'
    · rintro s t1 ⟨k, hk, hk4, rfl, h⟩
      apply (writePass_meets fuel hfit hwhole hk hk4 h).mono
      rintro p t2 ⟨hnext, hexit⟩
      constructor
      · intro s hs
        obtain ⟨hle, hs', h'⟩ := hnext s hs
        exact ⟨k + 4, hle, by omega, hs', h'⟩
      · intro rc hrc hzero
        obtain ⟨rfl, hready2, hflash⟩ := hexit rc hrc hzero
        rw [hflash, h.flash]
        refine ⟨hready2, Nat.dvd_of_mod_eq_zero hwhole, ?_, ?_, ?_⟩
        · intro i hi
          exact programBlock_erased hcell (by omega) hi (herased i hi)
        · intro x hx
          exact patch_below hx (by omega)
        · intro x hx
          exact patch_above hx
    · refine ⟨0, Nat.zero_le _, rfl, ?_, ?_⟩
      · rw [byteAddr_zero, byteAddr_zero, left_zero]
      · have hpg : (flashCrPg ||| flashCrPsize32) &&& flashCrPg ≠ 0 := by decide
        refine ⟨rfl, hpg, rfl, ?_⟩
        rw [programBlock, patch_zero]

theorem contract (hcell : ∀ b, cell 0xFF b = b) (fuel : ℕ) (dataAddr : Word) :
    (agent cell status fuel).Contract Ready dataAddr 0x8000 0x100000 4 := by
  constructor
  · intro t
    exact setup_meets t
  · intro t addr len hready _ hfit
    apply (flashAgentErase_meets fuel hready hfit).mono
    intro rc t' h hzero
    obtain ⟨n0, n, herasure⟩ := h hzero
    exact ⟨herasure.done.ready, fun i hi => herasure.blank hi⟩
  · intro t addr len hready _ _ hfit herased
    apply (flashAgentWrite_meets hcell fuel hready hfit herased).mono
    intro rc t' h hzero
    obtain ⟨hready', hgrain, hheld, hbelow, habove⟩ := h hzero
    exact ⟨hready', hgrain, hheld, hbelow, fun _ => habove⟩

end

end M3Dev.Flash.Stm32
