import M3Dev.FlashTarget

/-! The flash agent for a serial flash behind an LPC43xx: `agents/lpc43xx-spifi.c`. -/
namespace M3Dev.Flash.Spi
open CallTree WhileLoop ByteBlock

def pinCfg (m n : Word) : Word := 0x40086000 + m * 0x80 + n * 4

abbrev pinPlain : Word := 0x10
abbrev pinInput : Word := 0x40

def pinMode (n : Word) : Word := n &&& 3

abbrev spifiCtrl : Word := 0x40003000
abbrev spifiCmd : Word := 0x40003004
abbrev spifiAddr : Word := 0x40003008
abbrev spifiData : Word := 0x40003014
abbrev spifiMcmd : Word := 0x40003018
abbrev spifiStat : Word := 0x4000301C

def cmdDatalen (n : Word) : Word := n &&& 0x3FFF

abbrev cmdPoll : Word := 0x4000
abbrev cmdPollbit0 : Word := 0
abbrev cmdPollclr : Word := 0
abbrev cmdDout : Word := 0x8000
abbrev cmdFfSerial : Word := 0
abbrev cmdFrOp : Word := 0x200000
abbrev cmdFrOp3B : Word := 0x800000

def cmdOpcode (n : Word) : Word := n <<< 24

abbrev statCmd : Word := 0x2
abbrev statReset : Word := 0x10

abbrev cmdPageProgram : Word := 0x02
abbrev cmdReadData : Word := 0x03
abbrev cmdReadStatus : Word := 0x05
abbrev cmdWriteEnable : Word := 0x06
abbrev cmdSectorErase : Word := 0x20

/-- `while (readl(SPIFI_STAT) & bit) ;` -/
def waitStat (fuel : ℕ) (bit : Word) : IoProg Unit :=
  Prog.loop .spins (fun _ => do
    let v ← readl spifiStat
    if v &&& bit ≠ 0 then return .next () else return .exit ()) fuel ()

def spifiWriteEnable (fuel : ℕ) : IoProg Unit := do
  writel (cmdFfSerial ||| cmdFrOp ||| cmdOpcode cmdWriteEnable) spifiCmd
  waitStat fuel statCmd

def spifiWaitBusy (fuel : ℕ) : IoProg Unit := do
  waitStat fuel statCmd
  writel (cmdPollbit0 ||| cmdPollclr ||| cmdPoll ||| cmdFfSerial ||| cmdFrOp |||
    cmdOpcode cmdReadStatus) spifiCmd
  waitStat fuel statCmd
  -- discard matching status byte from fifo
  let _ ← Prog.ask (.readb spifiData)

/-- `while (count-- > 0)` of `spifi_page_program`. -/
def programWords : ℕ → Word → IoProg Unit
  | 0, _ => return ()
  | count + 1, ptr => do
    let w ← loadl ptr
    writel w spifiData
    programWords count (ptr + 4)

def spifiPageProgram (fuel : ℕ) (addr ptr : Word) (count : ℕ) : IoProg Unit := do
  spifiWriteEnable fuel
  writel addr spifiAddr
  writel (cmdDatalen (BitVec.ofNat 32 (count * 4)) ||| cmdFfSerial ||| cmdFrOp3B ||| cmdDout |||
    cmdOpcode cmdPageProgram) spifiCmd
  programWords count ptr
  spifiWaitBusy fuel

def spifiSectorErase (fuel : ℕ) (addr : Word) : IoProg Unit := do
  spifiWriteEnable fuel
  writel addr spifiAddr
  writel (cmdFfSerial ||| cmdFrOp3B ||| cmdOpcode cmdSectorErase) spifiCmd
  spifiWaitBusy fuel

/-- The loop of `verify_erased` and `verify_page`, over the word expected at `ptr`. -/
def verifyWords (expected : Word → IoProg Word) : ℕ → Word → ℤ → IoProg ℤ
  | 0, _, err => return err
  | count + 1, ptr, err => do
    let v ← readl spifiData
    let w ← expected ptr
    verifyWords expected count (ptr + 4) (if v ≠ w then -1 else err)

def verify (expected : Word → IoProg Word) (fuel : ℕ) (addr ptr : Word) (count : ℕ) : IoProg ℤ := do
  writel addr spifiAddr
  writel (cmdDatalen (BitVec.ofNat 32 (count * 4)) ||| cmdFfSerial ||| cmdFrOp3B |||
    cmdOpcode cmdReadData) spifiCmd
  let err ← verifyWords expected count ptr 0
  waitStat fuel statCmd
  return err

def verifyErased (fuel : ℕ) (addr : Word) (count : ℕ) : IoProg ℤ :=
  verify (fun _ => return 0xFFFFFFFF) fuel addr 0 count

def verifyPage (fuel : ℕ) (addr ptr : Word) : IoProg ℤ := verify loadl fuel addr ptr (256 / 4)

def flashAgentSetup (fuel : ℕ) : IoProg ℤ := do
  -- configure pinmux
  writel (pinMode 3 ||| pinPlain) (pinCfg 3 3)
  writel (pinMode 3 ||| pinPlain ||| pinInput) (pinCfg 3 4)
  writel (pinMode 3 ||| pinPlain ||| pinInput) (pinCfg 3 5)
  writel (pinMode 3 ||| pinPlain ||| pinInput) (pinCfg 3 6)
  writel (pinMode 3 ||| pinPlain ||| pinInput) (pinCfg 3 7)
  writel (pinMode 3 ||| pinPlain) (pinCfg 3 8)
  -- reset spifi controller
  writel statReset spifiStat
  waitStat fuel statReset
  writel 0xFFFFF spifiCtrl
  return errNone

/-- One pass of the erase loop. -/
def erasePass (fuel : ℕ) (s : Word × Word) : IoProg (Pass (Word × Word) ℤ) := do
  let (flashAddr, length) := s
  if length = 0 then return .exit errNone
  spifiSectorErase fuel flashAddr
  let err ← verifyErased fuel flashAddr (0x1000 / 4)
  if err ≠ 0 then return .exit errFail
  if length < 0x1000 then return .exit errNone
  return .next (flashAddr + 0x1000, length - 0x1000)

def flashAgentErase (fuel : ℕ) (flashAddr length : Word) : IoProg ℤ := do
  if flashAddr &&& 0xFFF ≠ 0 then return errAlignment
  Prog.loop .spins (erasePass fuel) fuel (flashAddr, length)

/-- A page programmed and verified, as the write loop does it. -/
def writePage (fuel : ℕ) (flashAddr x : Word) : IoProg ℤ := do
  spifiPageProgram fuel flashAddr x (256 / 4)
  verifyPage fuel flashAddr x

/-- One pass of the write loop; it is left with `errNone` by its condition or `break`. -/
def writePass (fuel : ℕ) (s : Word × Word × Word) : IoProg (Pass (Word × Word × Word) ℤ) := do
  let (flashAddr, x, length) := s
  if length = 0 then return .exit errNone
  if length < 256 then Prog.loop .spins (padPass x 256) fuel length.toInt
  let err ← writePage fuel flashAddr x
  if err ≠ 0 then return .exit errFail
  if length < 256 then return .exit errNone
  return .next (flashAddr + 256, x + 256, length - 256)

def flashAgentWrite (fuel : ℕ) (flashAddr data length : Word) : IoProg ℤ := do
  if flashAddr &&& 0xFFF ≠ 0 then return errAlignment
  let rc ← Prog.loop .spins (writePass fuel) fuel (flashAddr, data, length)
  if rc ≠ errNone then return rc
  writel (cmdFfSerial ||| cmdFrOp3B ||| cmdOpcode cmdReadData) spifiMcmd
  return errNone

/-! ### The chip -/

/-- A word programmed into the page at `base`, `off` bytes after its start; behind the end of
the page is its start. -/
def programWord (cell : Cell) (flash : Word → Byte) (base : Word) (off : ℕ) (w : Word) :
    Word → Byte := fun x =>
  let k := ((x - base).toNat + 256 - off % 256) % 256
  if (x - base).toNat < 256 ∧ k < 4 then cell (flash x) ((wordBytes w).getD k 0) else flash x

/-- The three bytes of the address that go with a command. -/
def address (t : Target) : Word := t.spifi.addr &&& 0xFFFFFF

/-- While the flash is busy it hears nothing but the poll for its status, which ends when it
no longer is. -/
def command (v : Word) (t : Target) : Target :=
  if v >>> 24 = cmdReadStatus then
    { t with spifi := { t.spifi with busy := false, mode := .idle } }
  else if t.spifi.busy = true then { t with spifi := { t.spifi with mode := .idle } }
  else if v >>> 24 = cmdReadData then
    { t with spifi := { t.spifi with mode := .read (address t) 0 (v &&& 0x3FFF).toNat } }
  else if v >>> 24 = cmdWriteEnable then
    { t with spifi := { t.spifi with writeEnabled := true, mode := .idle } }
  else if t.spifi.writeEnabled = false then { t with spifi := { t.spifi with mode := .idle } }
  else if v >>> 24 = cmdPageProgram then
    { t with spifi := { t.spifi with
        writeEnabled := false
        busy := true
        mode := .program (address t >>> 8 <<< 8) ((address t).toNat % 256) (v &&& 0x3FFF).toNat } }
  else if v >>> 24 = cmdSectorErase then
    { t with
      spifi := { t.spifi with writeEnabled := false, busy := true, mode := .idle }
      flash := eraseBlock t.flash (address t >>> 12 <<< 12) 4096
      erased := t.erased ++ [address t >>> 12 <<< 12] }
  else { t with spifi := { t.spifi with mode := .idle } }

/-- A word of data for the flash. -/
def dataOut (cell : Cell) (w : Word) (t : Target) : Target :=
  match t.spifi.mode with
  | .program base off left =>
    if left < 4 then t
    else { t with
      spifi := { t.spifi with mode := .program base (off + 4) (left - 4) }
      flash := programWord cell t.flash base off w }
  | _ => t

/-- A word of data from the flash. -/
def dataIn (status : ℕ → Word) (t : Target) : Word × Target :=
  match t.spifi.mode with
  | .read base off left =>
    if left < 4 then t.answer status
    else (leWord fun k => t.flash (byteAddr base (off + k)),
      { t with spifi := { t.spifi with mode := .read base (off + 4) (left - 4) } })
  | _ => t.answer status

def chipWritel (cell : Cell) (value addr : Word) (t : Target) : Target :=
  if addr = spifiCmd then command value t
  else if addr = spifiAddr then { t with spifi := { t.spifi with addr := value } }
  else if addr = spifiData then dataOut cell value t
  else if addr = spifiStat ∧ value &&& statReset ≠ 0 then
    { t with spifi := { t.spifi with mode := .idle } }
  else t

def chip (cell : Cell) (status : ℕ → Word) : Responder IoCall Word Target
  | .writel value addr, t => some (0, chipWritel cell value addr t)
  | .readl addr, t => some (if addr = spifiData then dataIn status t else t.answer status)
  | c, t => some (memoryIo status c t)

def agent (cell : Cell) (status : ℕ → Word) (fuel : ℕ) : Agent where
  chip := chip cell status
  setup := flashAgentSetup fuel
  erase := flashAgentErase fuel
  write := flashAgentWrite fuel

/-! ### The contract -/

section
variable {cell : Cell} {status : ℕ → Word} {t : Target}

theorem waitStat_meets (fuel : ℕ) (bit : Word) (t : Target) :
    (waitStat fuel bit).Meets (chip cell status) t fun _ t' => t.Waited t' := by
  have hne : spifiStat ≠ spifiData := by decide
  apply poll_meets
  intro t'
  refine ⟨(t'.answer status).1, (t'.answer status).2, ?_, t'.answer_waited status⟩
  rw [chip, if_neg hne]

/-- The memories are as they were, and the flash is not busy. -/
structure Settled (t t' : Target) : Prop where
  ram : t'.ram = t.ram
  flash : t'.flash = t.flash
  erased : t'.erased = t.erased
  free : t'.spifi.busy = false

theorem spifiWaitBusy_meets (fuel : ℕ) (t : Target) :
    (spifiWaitBusy fuel).Meets (chip cell status) t fun _ t' => Settled t t' := by
  apply (waitStat_meets fuel _ t).bind
  intro _ t1 h1
  apply writel_meets rfl
  apply (waitStat_meets fuel _ _).bind
  intro _ t2 h2
  apply Prog.Meets.ask
  intro a t3 hR
  obtain ⟨_, rfl⟩ := Prod.mk.inj (Option.some.inj hR)
  apply Prog.Meets.ret
  constructor
  · exact h2.ram.trans h1.ram
  · exact h2.flash.trans h1.flash
  · exact h2.erased.trans h1.erased
  · show t2.spifi.busy = false
    rw [h2.spifi]
    rfl

/-- The memories are as they were, and a flash that was not busy may be written to. -/
structure Enabled (t t' : Target) : Prop where
  ram : t'.ram = t.ram
  flash : t'.flash = t.flash
  erased : t'.erased = t.erased
  enabled : t.spifi.busy = false → t'.spifi.writeEnabled = true ∧ t'.spifi.busy = false

theorem command_writeEnable (t : Target) :
    Enabled t (command (cmdFfSerial ||| cmdFrOp ||| cmdOpcode cmdWriteEnable) t) := by
  rw [command, if_neg (by decide)]
  by_cases hbusy : t.spifi.busy = true
  · rw [if_pos hbusy]
    refine ⟨rfl, rfl, rfl, ?_⟩
    intro hfree
    exact absurd (hbusy.symm.trans hfree) (by decide)
  · rw [if_neg hbusy, if_neg (by decide), if_pos (by decide)]
    exact ⟨rfl, rfl, rfl, fun hfree => ⟨rfl, hfree⟩⟩

theorem spifiWriteEnable_meets (fuel : ℕ) (t : Target) :
    (spifiWriteEnable fuel).Meets (chip cell status) t fun _ t' => Enabled t t' := by
  apply writel_meets rfl
  apply (waitStat_meets fuel _ _).mono
  intro _ t' h
  have hcommand := command_writeEnable t
  constructor
  · exact h.ram.trans hcommand.ram
  · exact h.flash.trans hcommand.flash
  · exact h.erased.trans hcommand.erased
  · intro hfree
    rw [h.spifi]
    exact hcommand.enabled hfree

/-- Nothing but the page at `base` is being programmed. -/
def Confined (base : Word) (t : Target) : Prop :=
  ∀ b off left, t.spifi.mode = .program b off left → b = base

theorem dataOut_confined {base : Word} (h : Confined base t) (w : Word) :
    Confined base (dataOut cell w t) ∧ (dataOut cell w t).ram = t.ram ∧
      ∀ x, 256 ≤ (x - base).toNat → (dataOut cell w t).flash x = t.flash x := by
  unfold dataOut
  split
  next b off left hmode =>
    have hb := h b off left hmode
    split
    · exact ⟨h, rfl, fun _ _ => rfl⟩
    · refine ⟨?_, rfl, ?_⟩
      · intro b' off' left' hmode'
        rw [← (SpiMode.program.inj hmode').1, hb]
      · intro x hx
        have hnot : ¬ (x - b).toNat < 256 := by
          rw [hb]
          omega
        exact if_neg fun hand => hnot hand.1
  · exact ⟨h, rfl, fun _ _ => rfl⟩

theorem programWords_meets {base : Word} (count : ℕ) (ptr : Word) (h : Confined base t) :
    (programWords count ptr).Meets (chip cell status) t fun _ t' => t'.ram = t.ram ∧
      ∀ x, 256 ≤ (x - base).toNat → t'.flash x = t.flash x := by
  induction count generalizing ptr t with
  | zero =>
    apply Prog.Meets.ret
    exact ⟨rfl, fun _ _ => rfl⟩
  | succ count ih =>
    apply Prog.Meets.ask
    intro w t1 hR
    obtain ⟨_, rfl⟩ := Prod.mk.inj (Option.some.inj hR)
    apply writel_meets rfl
    obtain ⟨hconfined, hram, hframe⟩ := @dataOut_confined cell _ _ h w
    apply (ih (ptr + 4) hconfined).mono
    intro _ t' h'
    refine ⟨h'.1.trans hram, ?_⟩
    intro x hx
    exact (h'.2 x hx).trans (hframe x hx)

theorem and_lowBits {x : Word} {k : ℕ} (hk : k < 32) (hx : x.toNat < 2 ^ k) :
    x &&& BitVec.ofNat 32 (2 ^ k - 1) = x := by
  have hle : 2 ^ k - 1 < 2 ^ 32 := by
    have := Nat.pow_lt_pow_right (show 1 < 2 by decide) hk
    omega
  apply BitVec.eq_of_toNat_eq
  rw [BitVec.toNat_and, BitVec.toNat_ofNat, Nat.mod_eq_of_lt hle, Nat.and_two_pow_sub_one_eq_mod,
    Nat.mod_eq_of_lt hx]

/-- A command that would change the flash is not heard while it is busy or not open for writing. -/
theorem command_changing {v : Word} (hv : v >>> 24 = cmdPageProgram ∨ v >>> 24 = cmdSectorErase) (t : Target) :
    (¬ (t.spifi.busy = false ∧ t.spifi.writeEnabled = true) ∧
        command v t = { t with spifi := { t.spifi with mode := .idle } }) ∨
      (command v t =
        if v >>> 24 = cmdPageProgram then
          { t with spifi := { t.spifi with
              writeEnabled := false
              busy := true
              mode := .program (address t >>> 8 <<< 8) ((address t).toNat % 256) (v &&& 0x3FFF).toNat } }
        else
          { t with
            spifi := { t.spifi with writeEnabled := false, busy := true, mode := .idle }
            flash := eraseBlock t.flash (address t >>> 12 <<< 12) 4096
            erased := t.erased ++ [address t >>> 12 <<< 12] }) := by
  have hother : v >>> 24 ≠ cmdReadStatus ∧ v >>> 24 ≠ cmdReadData ∧ v >>> 24 ≠ cmdWriteEnable := by
    rcases hv with hv | hv
    all_goals
      rw [hv]
      decide
  obtain ⟨hstatus, hread, henable⟩ := hother
  rw [command, if_neg hstatus]
  by_cases hbusy : t.spifi.busy = true
  · rw [if_pos hbusy]
    exact .inl ⟨fun h => absurd (hbusy.symm.trans h.1) (by decide), rfl⟩
  rw [if_neg hbusy, if_neg hread, if_neg henable]
  by_cases hoff : t.spifi.writeEnabled = false
  · rw [if_pos hoff]
    exact .inl ⟨fun h => absurd (h.2.symm.trans hoff) (by decide), rfl⟩
  · right
    rw [if_neg hoff]
    by_cases hprogram : v >>> 24 = cmdPageProgram
    · rw [if_pos hprogram, if_pos hprogram]
    · rw [if_neg hprogram, if_neg hprogram, if_pos (hv.resolve_left hprogram)]

/-- The command to program confines itself to the page of its address. -/
theorem command_program {addr v : Word} (hv : v >>> 24 = cmdPageProgram) (haddr : t.spifi.addr = addr)
    (hlt : addr.toNat < 2 ^ 24) (haligned : addr.toNat % 2 ^ 8 = 0) :
    Confined addr (command v t) ∧ (command v t).ram = t.ram ∧ (command v t).flash = t.flash := by
  have hpage : address t = addr := by
    rw [address, haddr]
    exact and_lowBits (k := 24) (by decide) hlt
  rcases command_changing (.inl hv) t with ⟨_, hidle⟩ | hprogram
  · rw [hidle]
    exact ⟨fun _ _ _ h => absurd h (by simp), rfl, rfl⟩
  · rw [hprogram, if_pos hv]
    refine ⟨?_, rfl, rfl⟩
    intro b off left hmode
    rw [← (SpiMode.program.inj hmode).1, hpage, shift_aligned haligned]

theorem spifiPageProgram_meets (fuel : ℕ) {addr : Word} (ptr : Word) (hlt : addr.toNat < 2 ^ 24)
    (haligned : addr.toNat % 2 ^ 8 = 0) (t : Target) :
    (spifiPageProgram fuel addr ptr (256 / 4)).Meets (chip cell status) t fun _ t' =>
      t'.ram = t.ram ∧ t'.spifi.busy = false ∧
      ∀ x, 256 ≤ (x - addr).toNat → t'.flash x = t.flash x := by
  apply (spifiWriteEnable_meets fuel t).bind
  intro _ t1 h1
  apply writel_meets rfl
  apply writel_meets rfl
  obtain ⟨hconfined, hram, hflash⟩ := command_program
    (t := chipWritel cell addr spifiAddr t1) (v := cmdDatalen (BitVec.ofNat 32 (256 / 4 * 4)) |||
      cmdFfSerial ||| cmdFrOp3B ||| cmdDout ||| cmdOpcode cmdPageProgram) (by decide) rfl hlt haligned
  apply (programWords_meets (256 / 4) ptr hconfined).bind
  intro _ t2 h2
  apply (spifiWaitBusy_meets fuel t2).mono
  intro _ t' h'
  refine ⟨?_, h'.free, ?_⟩
  · rw [h'.ram, h2.1, hram]
    exact h1.ram
  · intro x hx
    rw [h'.flash, h2.2 x hx, hflash]
    exact congrFun h1.flash x

/-- An erase command erases or does nothing. -/
theorem command_erase {v : Word} (hv : v >>> 24 = cmdSectorErase) (t : Target) :
    (∀ x, (command v t).flash x = 0xFF ∨ (command v t).flash x = t.flash x) ∧
      (t.spifi.writeEnabled = true → t.spifi.busy = false →
        (command v t).erased = t.erased ++ [address t >>> 12 <<< 12]) := by
  have hprogram : v >>> 24 ≠ cmdPageProgram := by
    rw [hv]
    decide
  rcases command_changing (.inr hv) t with ⟨hclosed, hidle⟩ | herase
  · rw [hidle]
    refine ⟨fun _ => .inr rfl, ?_⟩
    intro hopen hfree
    exact absurd ⟨hfree, hopen⟩ hclosed
  · rw [herase, if_neg hprogram]
    refine ⟨?_, fun _ _ => rfl⟩
    intro x
    show eraseBlock _ _ _ x = _ ∨ eraseBlock _ _ _ x = _
    unfold eraseBlock patch
    split
    · exact .inl rfl
    · exact .inr rfl

theorem spifiSectorErase_meets (fuel : ℕ) (addr : Word) (t : Target) :
    (spifiSectorErase fuel addr).Meets (chip cell status) t fun _ t' =>
      t'.spifi.busy = false ∧ (∀ x, t'.flash x = 0xFF ∨ t'.flash x = t.flash x) ∧
      (t.spifi.busy = false → addr.toNat < 2 ^ 24 → addr.toNat % 2 ^ 12 = 0 →
        t'.erased = t.erased ++ [addr]) := by
  apply (spifiWriteEnable_meets fuel t).bind
  intro _ t1 h1
  apply writel_meets rfl
  apply writel_meets rfl
  obtain ⟨hflash, hlogged⟩ := command_erase
    (v := cmdFfSerial ||| cmdFrOp3B ||| cmdOpcode cmdSectorErase) (by decide)
    (chipWritel cell addr spifiAddr t1)
  apply (spifiWaitBusy_meets fuel _).mono
  intro _ t' h'
  refine ⟨h'.free, ?_, ?_⟩
  · intro x
    rw [h'.flash, ← h1.flash]
    exact hflash x
  · intro hfree hlt haligned
    have haddr : address (chipWritel cell addr spifiAddr t1) >>> 12 <<< 12 = addr := by
      have hlow : address (chipWritel cell addr spifiAddr t1) = addr := and_lowBits (k := 24) (by decide) hlt
      rw [hlow, shift_aligned haligned]
    have hdone := hlogged (h1.enabled hfree).1 (h1.enabled hfree).2
    rw [haddr] at hdone
    rw [h'.erased, ← h1.erased]
    exact hdone

theorem setup_meets (fuel : ℕ) (t : Target) :
    (flashAgentSetup fuel).Meets (chip cell status) t fun rc t' => r0 rc = 0 → True ∧ t'.ram = t.ram := by
  rw [flashAgentSetup]
  apply writel_meets rfl
  apply writel_meets rfl
  apply writel_meets rfl
  apply writel_meets rfl
  apply writel_meets rfl
  apply writel_meets rfl
  apply writel_meets rfl
  apply (waitStat_meets fuel statReset _).bind
  intro _ t' hwaited
  apply writel_meets rfl
  apply Prog.Meets.ret
  intro _
  exact ⟨trivial, hwaited.ram⟩

/-! ### Verifying -/

/-- The verification ends with 0 only if the flash holds the words expected. -/
theorem verifyWords_meets {expected : Word → IoProg Word} {e : (Word → Byte) → Word → Word}
    (hexpected : ∀ ptr t, (expected ptr).run (chip cell status) t = some (.ok (e t.ram ptr), t))
    {base : Word} (count off : ℕ) (ptr : Word) (err : ℤ)
    (hmode : t.spifi.mode = .read base off (4 * count)) :
    (verifyWords expected count ptr err).Meets (chip cell status) t fun err' t' =>
      t'.ram = t.ram ∧ t'.flash = t.flash ∧ t'.erased = t.erased ∧ t'.spifi.busy = t.spifi.busy ∧
      (err' = 0 → err = 0 ∧ ∀ j < count,
        (leWord fun k => t.flash (byteAddr base (off + 4 * j + k))) = e t.ram (byteAddr ptr (4 * j))) := by
  induction count generalizing off ptr err t with
  | zero =>
    apply Prog.Meets.ret
    refine ⟨rfl, rfl, rfl, rfl, ?_⟩
    intro hzero
    exact ⟨hzero, fun j hj => absurd hj (Nat.not_lt_zero j)⟩
  | succ count ih =>
    apply Prog.Meets.ask
    intro v t1 hR
    have hread : dataIn status t = (leWord fun k => t.flash (byteAddr base (off + k)),
        { t with spifi := { t.spifi with mode := .read base (off + 4) (4 * count) } }) := by
      rw [dataIn, hmode]
      exact if_neg (by omega)
    rw [chip, if_pos rfl, hread] at hR
    obtain ⟨hv, rfl⟩ := Prod.mk.inj (Option.some.inj hR)
    apply Prog.Meets.run_bind (hexpected ptr _)
    apply (ih (off + 4) (ptr + 4) _ rfl).mono
    rintro err' t' ⟨hram, hflash, herased, hbusy, hheld⟩
    refine ⟨hram, hflash, herased, hbusy, ?_⟩
    intro hzero
    obtain ⟨herr, hlater⟩ := hheld hzero
    -- a word that differs leaves an error that no later word takes back
    have hfirst : v = e t.ram ptr := by
      by_contra hne
      rw [if_pos hne] at herr
      exact absurd herr (by decide)
    rw [if_neg (not_not.mpr hfirst)] at herr
    refine ⟨herr, ?_⟩
    intro j hj
    cases j with
    | zero =>
      rw [Nat.mul_zero, Nat.add_zero, byteAddr_zero, hv]
      exact hfirst
    | succ j =>
      have hj' := hlater j (by omega)
      have hoff : off + 4 * (j + 1) = off + 4 + 4 * j := by omega
      have hptr : byteAddr ptr (4 * (j + 1)) = byteAddr (ptr + 4) (4 * j) := by
        have hadd := byteAddr_add ptr 4 (4 * j)
        rw [show 4 * (j + 1) = 4 + 4 * j by omega, ← hadd]
        rfl
      rw [hoff, hptr]
      exact hj'

theorem command_read {v : Word} (hv : v >>> 24 = cmdReadData) (hfree : t.spifi.busy = false) :
    command v t =
      { t with spifi := { t.spifi with mode := .read (address t) 0 (v &&& 0x3FFF).toNat } } := by
  have hstatus : v >>> 24 ≠ cmdReadStatus := by
    rw [hv]
    decide
  have hbusy : ¬ t.spifi.busy = true := by
    rw [hfree]
    decide
  rw [command, if_neg hstatus, if_neg hbusy, if_pos hv]

/-- What a verification of `count` words at `addr` says of the flash. -/
structure Verified (e : (Word → Byte) → Word → Word) (addr ptr : Word) (count : ℕ) (t : Target)
    (err : ℤ) (t' : Target) : Prop where
  ram : t'.ram = t.ram
  flash : t'.flash = t.flash
  erased : t'.erased = t.erased
  free : t'.spifi.busy = false
  holds : err = 0 → ∀ j < count,
    (leWord fun k => t.flash (byteAddr addr (4 * j + k))) = e t.ram (byteAddr ptr (4 * j))

theorem verify_meets {expected : Word → IoProg Word} {e : (Word → Byte) → Word → Word}
    (hexpected : ∀ ptr t, (expected ptr).run (chip cell status) t = some (.ok (e t.ram ptr), t))
    (fuel : ℕ) {addr : Word} (ptr : Word) {count : ℕ} (hlt : addr.toNat < 2 ^ 24)
    (hcommand : (cmdDatalen (BitVec.ofNat 32 (count * 4)) ||| cmdFfSerial ||| cmdFrOp3B |||
      cmdOpcode cmdReadData) >>> 24 = cmdReadData)
    (hlength : ((cmdDatalen (BitVec.ofNat 32 (count * 4)) ||| cmdFfSerial ||| cmdFrOp3B |||
      cmdOpcode cmdReadData) &&& 0x3FFF).toNat = 4 * count)
    (hfree : t.spifi.busy = false) :
    (verify expected fuel addr ptr count).Meets (chip cell status) t (Verified e addr ptr count t) := by
  rw [verify]
  apply writel_meets rfl
  apply writel_meets rfl
  have haddr : address (chipWritel cell addr spifiAddr t) = addr := and_lowBits (k := 24) (by decide) hlt
  have hstart := command_read (t := chipWritel cell addr spifiAddr t) hcommand hfree
  rw [haddr, hlength] at hstart
  show (verifyWords expected count ptr 0 >>= _).Meets _ (command _ (chipWritel cell addr spifiAddr t)) _
  rw [hstart]
  apply (verifyWords_meets hexpected count 0 ptr 0 rfl).bind
  rintro err t1 ⟨hram, hflash, herased, hbusy, hheld⟩
  apply (waitStat_meets fuel statCmd t1).bind
  intro _ t' hwaited
  apply Prog.Meets.ret
  constructor
  · exact hwaited.ram.trans hram
  · exact hwaited.flash.trans hflash
  · exact hwaited.erased.trans herased
  · rw [hwaited.spifi, hbusy]
    exact hfree
  · intro hzero j hj
    have hword := (hheld hzero).2 j hj
    rw [Nat.zero_add] at hword
    exact hword

/-- The bytes of a block are those of its words. -/
theorem bytes_of_words {flash : Word → Byte} {addr : Word} {count : ℕ} {w : ℕ → Word}
    (h : ∀ j < count, (leWord fun k => flash (byteAddr addr (4 * j + k))) = w j) {i : ℕ}
    (hi : i < 4 * count) : flash (byteAddr addr i) = (wordBytes (w (i / 4))).getD (i % 4) 0 := by
  rw [← h (i / 4) (by omega), getD_leWord _ (by omega), Nat.div_add_mod]

theorem verifyErased_meets (fuel : ℕ) {addr : Word} (hlt : addr.toNat < 2 ^ 24)
    (hfree : t.spifi.busy = false) :
    (verifyErased fuel addr (0x1000 / 4)).Meets (chip cell status) t fun err t' =>
      t'.flash = t.flash ∧ t'.erased = t.erased ∧ t'.spifi.busy = false ∧ (err = 0 → ∀ i < 0x1000, t.flash (byteAddr addr i) = 0xFF) := by
  apply (verify_meets (e := fun _ _ => 0xFFFFFFFF) (fun _ _ => rfl) fuel 0 hlt (by decide) (by decide)
    hfree).mono
  intro err t' h
  refine ⟨h.flash, h.erased, h.free, ?_⟩
  intro hzero i hi
  rw [bytes_of_words (h.holds hzero) hi]
  have hones : ∀ k < 4, (wordBytes 0xFFFFFFFF).getD k 0 = 0xFF := by decide
  exact hones _ (Nat.mod_lt i (by decide))

theorem verifyPage_meets (fuel : ℕ) {addr : Word} (ptr : Word) (hlt : addr.toNat < 2 ^ 24)
    (hfree : t.spifi.busy = false) :
    (verifyPage fuel addr ptr).Meets (chip cell status) t fun err t' =>
      t'.ram = t.ram ∧ t'.flash = t.flash ∧
      (err = 0 → ∀ i < 256, t.flash (byteAddr addr i) = t.ram (byteAddr ptr i)) := by
  apply (verify_meets (e := fun ram ptr => leWord fun k => ram (byteAddr ptr k)) (fun _ _ => rfl) fuel
    ptr hlt (by decide) (by decide) hfree).mono
  intro err t' h
  refine ⟨h.ram, h.flash, ?_⟩
  intro hzero i hi
  rw [bytes_of_words (h.holds hzero) hi, getD_leWord _ (Nat.mod_lt i (by decide)), byteAddr_add,
    Nat.div_add_mod]

/-! ### Erasing and writing -/

/-- The first `k` bytes are blank, and where the flash was not busy to begin with, their
sectors are those erased. -/
structure Erasing (addr : Word) (k : ℕ) (t t' : Target) : Prop where
  blank : ∀ i < k, t'.flash (byteAddr addr i) = 0xFF
  logged : t.spifi.busy = false →
    t'.spifi.busy = false ∧ t'.erased = t.erased ++ pagesFrom addr (k / 4096)

/-- One more sector. -/
theorem Erasing.sector {addr : Word} {k : ℕ} {t1 t2 t3 : Target} (h : Erasing addr k t t1)
    (hk : k % 4096 = 0) (hkept : ∀ x, t2.flash x = 0xFF ∨ t2.flash x = t1.flash x)
    (hlogged : t1.spifi.busy = false → t2.erased = t1.erased ++ [byteAddr addr k])
    (hflash : t3.flash = t2.flash) (herased : t3.erased = t2.erased) (hfree : t3.spifi.busy = false)
    (hblank : ∀ i < 0x1000, t2.flash (byteAddr (byteAddr addr k) i) = 0xFF) :
    Erasing addr (k + 0x1000) t t3 := by
  constructor
  · intro i hi
    rw [hflash]
    by_cases hik : i < k
    · rcases hkept (byteAddr addr i) with hones | hsame
      · exact hones
      · rw [hsame, h.blank i hik]
    · have hnew := hblank (i - k) (by omega)
      rwa [byteAddr_add, Nat.add_sub_cancel' (Nat.not_lt.mp hik)] at hnew
  · intro hstart
    obtain ⟨hfree1, herased1⟩ := h.logged hstart
    refine ⟨hfree, ?_⟩
    have hcount : (k + 0x1000) / 4096 = k / 4096 + 1 := by omega
    have hback : 4096 * (k / 4096) = k := by omega
    rw [herased, hlogged hfree1, herased1, hcount, pagesFrom_succ, hback, List.append_assoc]

theorem erasePass_meets (fuel : ℕ) {addr length : Word}
    (hfit : addr.toNat + length.toNat ≤ 0x100000) (haligned : addr.toNat % 2 ^ 12 = 0) {k : ℕ}
    {t1 : Target} (hk : k ≤ length.toNat) (hk4096 : k % 4096 = 0) (h : Erasing addr k t t1) :
    (erasePass fuel (byteAddr addr k, BitVec.ofNat 32 (length.toNat - k))).Meets (chip cell status) t1
      fun p t' =>
        (∀ s, p = .next s → k + 0x1000 ≤ length.toNat ∧
          s = (byteAddr addr (k + 0x1000), BitVec.ofNat 32 (length.toNat - (k + 0x1000))) ∧
          Erasing addr (k + 0x1000) t t') ∧
        ∀ rc, p = .exit rc → r0 rc = 0 → ∃ n, length.toNat ≤ n ∧ n < length.toNat + 4096 ∧
          n % 4096 = 0 ∧ Erasing addr n t t' := by
  have haddr : (byteAddr addr k).toNat = addr.toNat + k := byteAddr_toNat_of_lt (by omega)
  rw [erasePass]
  split
  next hzero =>
    apply Prog.Meets.exit
    intro _
    have hdone := left_eq_zero.mp hzero
    exact ⟨k, by omega, by omega, hk4096, h⟩
  next hnonzero =>
    have hmore : length.toNat - k ≠ 0 := fun hzero => hnonzero (left_eq_zero.mpr hzero)
    have hlt : (byteAddr addr k).toNat < 2 ^ 24 := by omega
    apply (spifiSectorErase_meets fuel _ t1).bind
    rintro _ t2 ⟨hfree, hkept, hlogged⟩
    apply (verifyErased_meets fuel hlt hfree).bind
    rintro err t3 ⟨hflash, herased, hfree3, hholds⟩
    split
    · apply Prog.Meets.exit
      intro hfail
      exact absurd hfail (by decide)
    next herr =>
      have hsector := h.sector hk4096 hkept (fun hidle => hlogged hidle hlt (by omega)) hflash herased
        hfree3 (hholds (not_not.mp herr))
      split
      next hshort =>
        apply Prog.Meets.exit
        intro _
        have hshort' : length.toNat - k < 0x1000 := left_lt.mp hshort
        exact ⟨k + 0x1000, by omega, by omega, by omega, hsector⟩
      next hlong =>
        apply Prog.Meets.next
        have hlong' : 0x1000 ≤ length.toNat - k := Nat.not_lt.mp fun h => hlong (left_lt.mpr h)
        refine ⟨by omega, ?_, hsector⟩
        have hlater : BitVec.ofNat 32 (length.toNat - k) - 0x1000 =
            BitVec.ofNat 32 (length.toNat - (k + 0x1000)) := left_sub (c := 0x1000) (by omega)
        rw [hlater, ← byteAddr_add addr]
        rfl

theorem flashAgentErase_meets (fuel : ℕ) {addr length : Word}
    (hfit : addr.toNat + length.toNat ≤ 0x100000) :
    (flashAgentErase fuel addr length).Meets (chip cell status) t fun rc t' => r0 rc = 0 →
      addr.toNat % 4096 = 0 ∧ ∃ n, length.toNat ≤ n ∧ n < length.toNat + 4096 ∧ n % 4096 = 0 ∧
        Erasing addr n t t' := by
  rw [flashAgentErase]
  split
  · apply Prog.Meets.ret
    intro hfail
    exact absurd hfail (by decide)
  next hpage =>
    have haligned : addr.toNat % 2 ^ 12 = 0 := aligned_of_and (by decide) (not_not.mp hpage)
    -- the sectors so far are erased and verified
    apply Prog.Meets.loop fun (s : Word × Word) (t' : Target) => ∃ k, k ≤ length.toNat ∧
      k % 4096 = 0 ∧ s = (byteAddr addr k, BitVec.ofNat 32 (length.toNat - k)) ∧ Erasing addr k t t'
    · rintro s t1 ⟨k, hk, hk4096, rfl, h⟩
      apply (erasePass_meets fuel hfit haligned hk hk4096 h).mono
      rintro p t2 ⟨hnext, hexit⟩
      constructor
      · intro s hs
        obtain ⟨hle, hs', h'⟩ := hnext s hs
        exact ⟨k + 0x1000, hle, by omega, hs', h'⟩
      · intro rc hrc hzero
        exact ⟨haligned, hexit rc hrc hzero⟩
    · refine ⟨0, Nat.zero_le _, rfl, ?_, fun i hi => absurd hi (Nat.not_lt_zero i), ?_⟩
      · rw [byteAddr_zero, left_zero]
      · intro hfree
        exact ⟨hfree, (List.append_nil _).symm⟩

/-- A page is written: the flash outside it is left alone, and the page verified. -/
theorem writePage_meets (fuel : ℕ) {addr : Word} (x : Word) (hlt : addr.toNat < 2 ^ 24)
    (haligned : addr.toNat % 2 ^ 8 = 0) (t : Target) :
    (writePage fuel addr x).Meets (chip cell status) t fun err t' => t'.ram = t.ram ∧
      (∀ y, 256 ≤ (y - addr).toNat → t'.flash y = t.flash y) ∧
      (err = 0 → ∀ i < 256, t'.flash (byteAddr addr i) = t.ram (byteAddr x i)) := by
  apply (spifiPageProgram_meets fuel x hlt haligned t).bind
  rintro _ t1 ⟨hram1, hfree, hframe⟩
  apply (verifyPage_meets fuel x hlt hfree).mono
  rintro err t' ⟨hram, hflash, hholds⟩
  refine ⟨hram.trans hram1, ?_, ?_⟩
  · intro y hy
    rw [hflash, hframe y hy]
  · intro hzero i hi
    rw [hflash, ← hram1]
    exact hholds hzero i hi

/-- The first `k` bytes of the buffer are in the flash, and nothing else has changed there. -/
structure Copied (addr data : Word) (length k : ℕ) (t t' : Target) : Prop where
  held : ∀ i < k, i < length → t'.flash (byteAddr addr i) = t.ram (byteAddr data i)
  ram : ∀ i, k ≤ i → i < length → t'.ram (byteAddr data i) = t.ram (byteAddr data i)
  below : ∀ y, y.toNat < addr.toNat → t'.flash y = t.flash y
  above : ∀ y, addr.toNat + k ≤ y.toNat → t'.flash y = t.flash y

/-- One more page. -/
theorem Copied.page {addr data : Word} {length k : ℕ} {t' t1 t2 : Target}
    (h : Copied addr data length k t t') (hk : addr.toNat + k + 256 < 2 ^ 32)
    (hflash1 : t1.flash = t'.flash)
    (hram1 : ∀ i, k ≤ i → i < length → t1.ram (byteAddr data i) = t'.ram (byteAddr data i))
    (hram : t2.ram = t1.ram)
    (hframe : ∀ y, 256 ≤ (y - byteAddr addr k).toNat → t2.flash y = t1.flash y)
    (hpage : ∀ i < 256, t2.flash (byteAddr (byteAddr addr k) i) = t1.ram (byteAddr (byteAddr data k) i)) :
    Copied addr data length (k + 256) t t2 := by
  have haddr : (byteAddr addr k).toNat = addr.toNat + k := byteAddr_toNat_of_lt (by omega)
  constructor
  · intro i hi hlength
    by_cases hik : i < k
    · have hout : 256 ≤ (byteAddr addr i - byteAddr addr k).toNat := by
        rw [BitVec.toNat_sub, haddr, byteAddr_toNat_of_lt (by omega)]
        omega
      rw [hframe _ hout, hflash1]
      exact h.held i hik hlength
    · have hnew := hpage (i - k) (by omega)
      rw [byteAddr_add, byteAddr_add, Nat.add_sub_cancel' (Nat.not_lt.mp hik)] at hnew
      rw [hnew, hram1 i (Nat.not_lt.mp hik) hlength, h.ram i (Nat.not_lt.mp hik) hlength]
  · intro i hki hi
    rw [hram, hram1 i (by omega) hi, h.ram i (by omega) hi]
  · intro y hy
    have hout : 256 ≤ (y - byteAddr addr k).toNat := by
      rw [BitVec.toNat_sub, haddr]
      omega
    rw [hframe y hout, hflash1, h.below y hy]
  · intro y hy
    have hle : byteAddr addr k ≤ y := by
      rw [BitVec.le_def, haddr]
      omega
    have hsub : (y - byteAddr addr k).toNat = y.toNat - (addr.toNat + k) := by
      rw [BitVec.toNat_sub_of_le hle, haddr]
    have hout : 256 ≤ (y - byteAddr addr k).toNat := by
      have hfar : addr.toNat + k + 256 ≤ y.toNat := by
        rw [Nat.add_assoc]
        exact hy
      generalize (y - byteAddr addr k).toNat = d at hsub ⊢
      clear hle hy hframe hpage
      omega
    rw [hframe y hout, hflash1, h.above y (by omega)]

/-- How a pass leaves the image: a page further on, or, without an error, whole in the flash. -/
abbrev PageDone (addr data length : Word) (k : ℕ) (t : Target) (p : Pass (Word × Word × Word) ℤ)
    (t' : Target) : Prop :=
  (∀ s, p = .next s → k + 256 ≤ length.toNat ∧
    s = (byteAddr addr (k + 256), byteAddr data (k + 256), BitVec.ofNat 32 (length.toNat - (k + 256))) ∧
    Copied addr data length.toNat (k + 256) t t') ∧
  ∀ rc, p = .exit rc → r0 rc = 0 →
    ∃ n, length.toNat ≤ n ∧ (length.toNat % 2 ^ 8 = 0 → n = length.toNat) ∧
      Copied addr data length.toNat n t t'

/-- The page, from whatever the padding has made of the buffer behind the image. -/
theorem pageStep_meets (fuel : ℕ) {addr data length : Word}
    (hfit : addr.toNat + length.toNat ≤ 0x100000) (haligned : addr.toNat % 2 ^ 8 = 0) {k : ℕ}
    {t' t1 : Target} (hk : k < length.toNat) (hk256 : k % 2 ^ 8 = 0)
    (h : Copied addr data length.toNat k t t') (hflash1 : t1.flash = t'.flash)
    (hram1 : ∀ i, k ≤ i → i < length.toNat → t1.ram (byteAddr data i) = t'.ram (byteAddr data i)) :
    (do let err ← writePage fuel (byteAddr addr k) (byteAddr data k)
        if err ≠ 0 then return .exit errFail
        if BitVec.ofNat 32 (length.toNat - k) < 256 then return .exit errNone
        return .next (byteAddr addr k + 256, byteAddr data k + 256,
          BitVec.ofNat 32 (length.toNat - k) - 256) :
      IoProg (Pass (Word × Word × Word) ℤ)).Meets (chip cell status) t1
        (PageDone addr data length k t) := by
  have haddr : (byteAddr addr k).toNat = addr.toNat + k := byteAddr_toNat_of_lt (by omega)
  apply (writePage_meets fuel (byteAddr data k) (by omega) (by omega) t1).bind
  rintro err t2 ⟨hram, hframe, hholds⟩
  split
  · apply Prog.Meets.exit
    intro hfail
    exact absurd hfail (by decide)
  next herr =>
    have hcopied := h.page (by omega) hflash1 hram1 hram hframe (hholds (not_not.mp herr))
    split
    next hshort =>
      apply Prog.Meets.exit
      intro _
      have hshort' : length.toNat - k < 256 := left_lt.mp hshort
      exact ⟨k + 256, by omega, by omega, hcopied⟩
    next hlong =>
      apply Prog.Meets.next
      have hlong' : 256 ≤ length.toNat - k := Nat.not_lt.mp fun h => hlong (left_lt.mpr h)
      refine ⟨by omega, ?_, hcopied⟩
      have hlater : BitVec.ofNat 32 (length.toNat - k) - 256 =
          BitVec.ofNat 32 (length.toNat - (k + 256)) := left_sub (c := 256) (by omega)
      rw [hlater, ← byteAddr_add addr, ← byteAddr_add data]
      rfl

theorem writePass_meets (fuel : ℕ) {addr data length : Word}
    (hfit : addr.toNat + length.toNat ≤ 0x100000) (haligned : addr.toNat % 2 ^ 8 = 0) {k : ℕ} {t' : Target}
    (hk : k ≤ length.toNat) (hk256 : k % 2 ^ 8 = 0) (h : Copied addr data length.toNat k t t') :
    (writePass fuel (byteAddr addr k, byteAddr data k, BitVec.ofNat 32 (length.toNat - k))).Meets
      (chip cell status) t' (PageDone addr data length k t) := by
  rw [writePass]
  split
  next hzero =>
    apply Prog.Meets.exit
    intro _
    have hdone := left_eq_zero.mp hzero
    have hkeq : k = length.toNat := by omega
    exact ⟨k, hkeq.ge, fun _ => hkeq, h⟩
  next hnonzero =>
    have hmore : length.toNat - k ≠ 0 := fun hzero => hnonzero (left_eq_zero.mpr hzero)
    have hlt : k < length.toNat := by omega
    apply Prog.Meets.ite
    · -- less than a page is left: it is padded in the buffer first
      intro hshort
      have hshort' : length.toNat - k < 256 := left_lt.mp hshort
      have hleft := left_toNat length k
      apply (pad_meets (m := 256) (fun _ _ _ => rfl) fuel (by decide) (by omega)).bind
      rintro _ t1 ⟨hflash1, hram1⟩
      apply pageStep_meets fuel hfit haligned hlt hk256 h hflash1
      intro i hki hi
      have hkept := hram1 (i - k) (by omega)
      rwa [byteAddr_add, Nat.add_sub_cancel' hki] at hkept
    · intro _
      exact pageStep_meets fuel hfit haligned hlt hk256 h rfl fun _ _ _ => rfl

theorem flashAgentWrite_meets (fuel : ℕ) {addr data length : Word}
    (hfit : addr.toNat + length.toNat ≤ 0x100000) :
    (flashAgentWrite fuel addr data length).Meets (chip cell status) t fun rc t' => r0 rc = 0 →
      ∃ n, length.toNat ≤ n ∧ (length.toNat % 2 ^ 8 = 0 → n = length.toNat) ∧
        Copied addr data length.toNat n t t' := by
  rw [flashAgentWrite]
  split
  · apply Prog.Meets.ret
    intro hfail
    exact absurd hfail (by decide)
  next hpage =>
    have haligned : addr.toNat % 2 ^ 12 = 0 := aligned_of_and (by decide) (not_not.mp hpage)
    have hloop : (Prog.loop Tools.Halt.spins (writePass fuel) fuel (addr, data, length)).Meets
        (chip cell status) t fun rc t' => r0 rc = 0 →
          ∃ n, length.toNat ≤ n ∧ (length.toNat % 2 ^ 8 = 0 → n = length.toNat) ∧
            Copied addr data length.toNat n t t' := by
      apply Prog.Meets.loop fun (s : Word × Word × Word) (t' : Target) => ∃ k, k ≤ length.toNat ∧
        k % 2 ^ 8 = 0 ∧ s = (byteAddr addr k, byteAddr data k, BitVec.ofNat 32 (length.toNat - k)) ∧
        Copied addr data length.toNat k t t'
      · rintro s t1 ⟨k, hk, hk256, rfl, h⟩
        apply (writePass_meets fuel hfit (by omega) hk hk256 h).mono
        rintro p t2 ⟨hnext, hexit⟩
        refine ⟨?_, hexit⟩
        intro s hs
        obtain ⟨hle, hs', h'⟩ := hnext s hs
        exact ⟨k + 256, hle, by omega, hs', h'⟩
      · refine ⟨0, Nat.zero_le _, rfl, ?_, ?_⟩
        · rw [byteAddr_zero, byteAddr_zero, left_zero]
        · exact ⟨fun i hi => absurd hi (Nat.not_lt_zero i), fun _ _ _ => rfl, fun _ _ => rfl, fun _ _ => rfl⟩
    apply hloop.bind
    intro rc t1 h
    apply Prog.Meets.ite
    · intro hne
      apply Prog.Meets.ret
      exact h
    · intro heq
      rw [not_not.mp heq] at h
      apply writel_meets rfl
      apply Prog.Meets.ret
      -- the command to read from memory is no data and erases nothing
      intro hzero
      exact h hzero

theorem contract (fuel : ℕ) (dataAddr : Word) :
    (agent cell status fuel).Contract (fun _ => True) dataAddr 0x8000 0x100000 1 := by
  constructor
  · intro t
    exact setup_meets fuel t
  · intro t addr len _ _ hfit
    apply (flashAgentErase_meets fuel hfit).mono
    intro rc t' h hzero
    obtain ⟨_, n, hn, _, _, herasing⟩ := h hzero
    exact ⟨trivial, fun i hi => herasing.blank i (by omega)⟩
  · intro t addr len _ _ hle hfit _
    apply (flashAgentWrite_meets fuel hfit).mono
    intro rc t' h hzero
    obtain ⟨n, hn, hwhole, hcopied⟩ := h hzero
    refine ⟨trivial, one_dvd _, fun i hi => hcopied.held i (by omega) hi, hcopied.below, ?_⟩
    intro hbuffer x hx
    have hmod : len.toNat % 2 ^ 8 = 0 := by omega
    exact hcopied.above x (by rw [hwhole hmod]; exact hx)

end

end M3Dev.Flash.Spi
