import M3Dev.ByteBlock
import M3Dev.CallTriple
import M3Dev.HostCalls

/-! A target with flash, seen from the code of an agent that runs on it: memory in bytes,
blocks of it written, and the agent's accesses. -/
namespace M3Dev.Flash
open CallTree WhileLoop ByteBlock

/-- An access of the agent's: to a register, to memory through a pointer, or a call of the
boot ROM's. -/
inductive IoCall where
  | writel (value addr : Word)
  | readl (addr : Word)
  | readb (addr : Word)
  | loadl (addr : Word)
  | storeb (addr : Word) (b : Byte)
  | romcall (func : Word) (p : List Word)

abbrev IoProg := Prog IoCall Word Tools.Halt

def writel (value addr : Word) : IoProg Unit := do
  let _ ← Prog.ask (.writel value addr)

def readl (addr : Word) : IoProg Word := Prog.ask (.readl addr)

def loadl (addr : Word) : IoProg Word := Prog.ask (.loadl addr)

def storeb (addr : Word) (b : Byte) : IoProg Unit := do
  let _ ← Prog.ask (.storeb addr b)

abbrev errNone : ℤ := 0
abbrev errFail : ℤ := -1
abbrev errAlignment : ℤ := -3

/-- One pass of `for (n = length; n < limit; n++) data[n] = 0`. -/
def padPass (data : Word) (limit n : ℤ) : IoProg (Pass ℤ Unit) := do
  if n < limit then
    storeb (data + BitVec.ofInt 32 n) 0
    return .next (n + 1)
  return .exit ()

/-! ### Blocks -/

/-- `n` bytes from `addr` on replaced by `b 0`, `b 1`, … -/
def patch (m : Word → Byte) (addr : Word) (n : ℕ) (b : ℕ → Byte) : Word → Byte := fun x =>
  if (x - addr).toNat < n then b (x - addr).toNat else m x

/-- A block of flash erased. -/
def eraseBlock (flash : Word → Byte) (addr : Word) (n : ℕ) : Word → Byte :=
  patch flash addr n fun _ => 0xFF

/-- What programming makes of a byte that is there and a new one. -/
abbrev Cell := Byte → Byte → Byte

/-- A block of flash programmed, byte after byte. -/
def programBlock (cell : Cell) (flash : Word → Byte) (addr : Word) (n : ℕ) (b : ℕ → Byte) :
    Word → Byte :=
  patch flash addr n fun i => cell (flash (byteAddr addr i)) (b i)

section
variable {m : Word → Byte} {addr x : Word} {n k : ℕ} {b c : ℕ → Byte}

theorem byteAddr_sub {i : ℕ} (hi : i < 2 ^ 32) : (byteAddr addr i - addr).toNat = i := by
  have haddr := addr.isLt
  rw [byteAddr, BitVec.toNat_sub, BitVec.toNat_add, BitVec.toNat_ofNat]
  omega

theorem byteAddr_toNat_of_lt {i : ℕ} (h : addr.toNat + i < 2 ^ 32) :
    (byteAddr addr i).toNat = addr.toNat + i := by
  rw [byteAddr_toNat, Nat.mod_eq_of_lt h]

/-- The addresses of `n` sectors of 4 KB from `addr` on. -/
def pagesFrom (addr : Word) (n : ℕ) : List Word := (List.range n).map fun i => byteAddr addr (4096 * i)

theorem pagesFrom_succ (addr : Word) (n : ℕ) :
    pagesFrom addr (n + 1) = pagesFrom addr n ++ [byteAddr addr (4096 * n)] := by
  rw [pagesFrom, List.range_succ, List.map_append]
  rfl

/-! What is left of a length when `k` bytes are done. -/

theorem left_toNat (len : Word) (k : ℕ) : (BitVec.ofNat 32 (len.toNat - k)).toNat = len.toNat - k := by
  have := len.isLt
  rw [BitVec.toNat_ofNat, Nat.mod_eq_of_lt (by omega)]

theorem left_eq_zero {len : Word} {k : ℕ} :
    BitVec.ofNat 32 (len.toNat - k) = 0 ↔ len.toNat - k = 0 := by
  rw [← BitVec.toNat_inj, left_toNat]
  rfl

theorem left_lt {len : Word} {k : ℕ} {c : Word} :
    BitVec.ofNat 32 (len.toNat - k) < c ↔ len.toNat - k < c.toNat := by
  rw [BitVec.lt_def, left_toNat]

theorem left_sub {len : Word} {k c : ℕ} (h : k + c ≤ len.toNat) :
    BitVec.ofNat 32 (len.toNat - k) - BitVec.ofNat 32 c = BitVec.ofNat 32 (len.toNat - (k + c)) := by
  have hlen := len.isLt
  have hc : c % 2 ^ 32 = c := Nat.mod_eq_of_lt (by omega)
  apply BitVec.eq_of_toNat_eq
  rw [BitVec.toNat_sub, left_toNat, left_toNat, BitVec.toNat_ofNat, hc]
  omega

theorem left_zero (len : Word) : BitVec.ofNat 32 (len.toNat - 0) = len := by
  rw [Nat.sub_zero, BitVec.ofNat_toNat, BitVec.setWidth_eq]

/-- Shifted out and in again. -/
theorem shift_aligned {k : ℕ} (hx : x.toNat % 2 ^ k = 0) : x >>> k <<< k = x := by
  have hlt := x.isLt
  apply BitVec.eq_of_toNat_eq
  rw [BitVec.toNat_shiftLeft, BitVec.toNat_ushiftRight, Nat.shiftLeft_eq, Nat.shiftRight_eq_div_pow,
    Nat.div_mul_cancel (Nat.dvd_of_mod_eq_zero hx), Nat.mod_eq_of_lt hlt]

theorem aligned_of_and {k : ℕ} (hk : k < 32) (hx : x &&& BitVec.ofNat 32 (2 ^ k - 1) = 0) :
    x.toNat % 2 ^ k = 0 := by
  have hle : 2 ^ k - 1 < 2 ^ 32 := by
    have := Nat.pow_lt_pow_right (show 1 < 2 by decide) hk
    omega
  have hand := congrArg BitVec.toNat hx
  rw [BitVec.toNat_and, BitVec.toNat_ofNat, Nat.mod_eq_of_lt hle, Nat.and_two_pow_sub_one_eq_mod] at hand
  exact hand

theorem patch_at {i : ℕ} (hi : i < n) (hn : n ≤ 2 ^ 32) : patch m addr n b (byteAddr addr i) = b i := by
  rw [patch, byteAddr_sub (by omega), if_pos hi]

theorem patch_of_le (h : n ≤ (x - addr).toNat) : patch m addr n b x = m x := if_neg (by omega)

theorem patch_inside (hx : addr.toNat ≤ x.toNat) (hn : x.toNat < addr.toNat + n) :
    patch m addr n b x = b (x.toNat - addr.toNat) := by
  have hsub : (x - addr).toNat = x.toNat - addr.toNat := by
    have hxlt := x.isLt
    rw [BitVec.toNat_sub]
    omega
  rw [patch, hsub, if_pos (by omega)]

theorem patch_below (hx : x.toNat < addr.toNat) (hn : addr.toNat + n ≤ 2 ^ 32) :
    patch m addr n b x = m x := by
  apply patch_of_le
  rw [BitVec.toNat_sub]
  omega

theorem patch_above (hx : addr.toNat + n ≤ x.toNat) : patch m addr n b x = m x := by
  apply patch_of_le
  have := x.isLt
  rw [BitVec.toNat_sub]
  omega

theorem patch_zero : patch m addr 0 b = m := by
  funext x
  exact if_neg (Nat.not_lt_zero _)

/-- Two blocks one behind the other are one. -/
theorem patch_append (hnk : n + k ≤ 2 ^ 32) :
    patch (patch m addr n b) (byteAddr addr n) k c =
      patch m addr (n + k) fun i => if i < n then b i else c (i - n) := by
  funext x
  have hx := (x - addr).isLt
  have hshift : (x - byteAddr addr n).toNat = ((x - addr).toNat + (2 ^ 32 - n)) % 2 ^ 32 := by
    have haddr := addr.isLt
    have hxlt := x.isLt
    rw [byteAddr, BitVec.toNat_sub, BitVec.toNat_sub, BitVec.toNat_add, BitVec.toNat_ofNat]
    omega
  unfold patch
  rw [hshift]
  by_cases hlow : (x - addr).toNat < n
  · have hnot : ¬ ((x - addr).toNat + (2 ^ 32 - n)) % 2 ^ 32 < k := by omega
    have hboth : (x - addr).toNat < n + k := by omega
    rw [if_neg hnot, if_pos hlow, if_pos hboth]
    exact (if_pos hlow).symm
  · by_cases hhigh : (x - addr).toNat < n + k
    · have hin : ((x - addr).toNat + (2 ^ 32 - n)) % 2 ^ 32 = (x - addr).toNat - n := by omega
      have hk : (x - addr).toNat - n < k := by omega
      rw [hin, if_pos hk, if_pos hhigh]
      exact (if_neg hlow).symm
    · have hnot : ¬ ((x - addr).toNat + (2 ^ 32 - n)) % 2 ^ 32 < k := by omega
      rw [if_neg hnot, if_neg hlow, if_neg hhigh]

theorem patch_congr (h : ∀ i < n, b i = c i) : patch m addr n b = patch m addr n c := by
  funext x
  unfold patch
  by_cases hx : (x - addr).toNat < n
  · rw [if_pos hx, if_pos hx, h _ hx]
  · rw [if_neg hx, if_neg hx]

variable {cell : Cell}

theorem programBlock_congr (h : ∀ i < n, b i = c i) :
    programBlock cell m addr n b = programBlock cell m addr n c :=
  patch_congr fun i hi => congrArg (cell (m (byteAddr addr i))) (h i hi)

theorem programBlock_append (hnk : n + k ≤ 2 ^ 32) :
    programBlock cell (programBlock cell m addr n b) (byteAddr addr n) k (fun i => b (n + i)) =
      programBlock cell m addr (n + k) b := by
  have hrest : ∀ i < k, programBlock cell m addr n b (byteAddr (byteAddr addr n) i) =
      m (byteAddr addr (n + i)) := by
    intro i hi
    rw [byteAddr_add]
    apply patch_of_le
    rw [byteAddr_sub (by omega)]
    omega
  have hsecond : programBlock cell (programBlock cell m addr n b) (byteAddr addr n) k
      (fun i => b (n + i)) = patch (programBlock cell m addr n b) (byteAddr addr n) k
        fun i => cell (m (byteAddr addr (n + i))) (b (n + i)) :=
    patch_congr fun i hi => by rw [hrest i hi]
  rw [hsecond, programBlock, patch_append hnk, programBlock]
  apply patch_congr
  intro i hi
  split
  · rfl
  next hge => rw [Nat.add_sub_cancel' (Nat.not_lt.mp hge)]

theorem programBlock_erased (hcell : ∀ b, cell 0xFF b = b) (hn : n ≤ 2 ^ 32) {i : ℕ} (hi : i < n)
    (herased : m (byteAddr addr i) = 0xFF) : programBlock cell m addr n b (byteAddr addr i) = b i := by
  rw [programBlock, patch_at hi hn, herased, hcell]

end

/-! ### The target -/

/-- The flash registers of an STM32F4. -/
structure StmFlash where
  keyed : Bool
  locked : Bool
  cr : Word

/-- What a serial flash makes of the data that follows a command. -/
inductive SpiMode where
  | idle
  | program (base : Word) (off left : ℕ)
  | read (base : Word) (off left : ℕ)

/-- The serial flash controller of an LPC43xx and the flash behind it. -/
structure Spifi where
  addr : Word
  writeEnabled : Bool
  busy : Bool
  mode : SpiMode

/-- `erased` are the sectors erased so far, by their addresses, `prepared` those that the IAP
code of an LPC was asked to prepare; `reads` counts the status reads. A chip has only one of
the units. -/
structure Target where
  ram : Word → Byte
  flash : Word → Byte
  erased : List Word
  stm : StmFlash
  spifi : Spifi
  prepared : Option (Word × Word)
  reads : ℕ

/-- A status is read: whatever the chip says. -/
def Target.answer (status : ℕ → Word) (t : Target) : Word × Target :=
  (status t.reads, { t with reads := t.reads + 1 })

/-- Accesses to memory; what else the chip has not heard of is a status. -/
def memoryIo (status : ℕ → Word) : IoCall → Target → Word × Target
  | .loadl addr, t => (leWord fun k => t.ram (byteAddr addr k), t)
  | .storeb addr b, t => (0, { t with ram := Function.update t.ram addr b })
  | .writel _ _, t => (0, t)
  | _, t => t.answer status

/-- Nothing but statuses was read. -/
structure Target.Waited (t t' : Target) : Prop where
  ram : t'.ram = t.ram
  flash : t'.flash = t.flash
  erased : t'.erased = t.erased
  stm : t'.stm = t.stm
  spifi : t'.spifi = t.spifi
  prepared : t'.prepared = t.prepared

theorem Target.Waited.refl (t : Target) : t.Waited t := ⟨rfl, rfl, rfl, rfl, rfl, rfl⟩

theorem Target.Waited.trans {t t' t'' : Target} (h : t.Waited t') (h' : t'.Waited t'') :
    t.Waited t'' :=
  ⟨h'.ram.trans h.ram, h'.flash.trans h.flash, h'.erased.trans h.erased, h'.stm.trans h.stm,
    h'.spifi.trans h.spifi, h'.prepared.trans h.prepared⟩

theorem Target.answer_waited (status : ℕ → Word) (t : Target) : t.Waited (t.answer status).2 :=
  ⟨rfl, rfl, rfl, rfl, rfl, rfl⟩

/-- A status read until a bit of it is clear. -/
theorem poll_meets {β : Type} {chip : Responder IoCall Word Target} {addr bit : Word} {out : Word → β}
    (hread : ∀ t, ∃ v t', chip (.readl addr) t = some (v, t') ∧ t.Waited t') (fuel : ℕ) (t : Target) :
    (Prog.loop Tools.Halt.spins (fun _ => do
      let v ← readl addr
      if v &&& bit ≠ 0 then return .next () else return .exit (out v)) fuel ()).Meets chip t
        fun _ t' => t.Waited t' := by
  apply Prog.Meets.loop fun _ t' => t.Waited t'
  · intro _ t1 hwaited
    apply Prog.Meets.ask
    intro v t2 hR
    obtain ⟨v', t', hchip, hstep⟩ := hread t1
    rw [hchip] at hR
    obtain ⟨_, rfl⟩ := Prod.mk.inj (Option.some.inj hR)
    split
    · exact Prog.Meets.next (hwaited.trans hstep)
    · exact Prog.Meets.exit (hwaited.trans hstep)
  · exact Target.Waited.refl t

theorem writel_meets {β : Type} {chip : Responder IoCall Word Target} {t t' : Target}
    {Q : β → Target → Prop} {value addr a : Word} {f : Unit → IoProg β}
    (hR : chip (.writel value addr) t = some (a, t')) (h : (f ()).Meets chip t' Q) :
    (writel value addr >>= f).Meets chip t Q := by
  apply Prog.Meets.call
  intro b t'' hR'
  rw [hR] at hR'
  obtain ⟨_, rfl⟩ := Prod.mk.inj (Option.some.inj hR')
  exact h

/-- Padding leaves the bytes before the pad. -/
theorem pad_meets {chip : Responder IoCall Word Target} {t : Target}
    (hstore : ∀ addr b t, chip (.storeb addr b) t =
      some (0, { t with ram := Function.update t.ram addr b }))
    (fuel : ℕ) {data length : Word} {m : ℕ} (hm : m < 2 ^ 31) (hlen : length.toNat ≤ m) :
    (Prog.loop Tools.Halt.spins (padPass data m) fuel length.toInt).Meets chip t
      fun _ t' => t'.flash = t.flash ∧
        ∀ i < length.toNat, t'.ram (byteAddr data i) = t.ram (byteAddr data i) := by
  apply Prog.Meets.loop fun (n : ℤ) (t' : Target) => (∃ k : ℕ, n = k ∧ length.toNat ≤ k) ∧
    t'.flash = t.flash ∧ ∀ i < length.toNat, t'.ram (byteAddr data i) = t.ram (byteAddr data i)
  · rintro n t1 ⟨⟨k, rfl, hk⟩, hflash, hram⟩
    rw [padPass]
    split
    next hlt =>
      have hk' : k < m := by omega
      apply Prog.Meets.call
      intro a t2 hR
      rw [hstore] at hR
      obtain ⟨_, rfl⟩ := Prod.mk.inj (Option.some.inj hR)
      apply Prog.Meets.next
      refine ⟨⟨k + 1, rfl, by omega⟩, hflash, ?_⟩
      intro i hi
      have hne : byteAddr data i ≠ data + BitVec.ofInt 32 k := by
        intro heq
        rw [BitVec.ofInt_natCast] at heq
        have := byteAddr_injective data (by omega) (by omega) heq
        omega
      show Function.update t1.ram _ _ _ = _
      rw [Function.update_of_ne hne, hram i hi]
    · exact Prog.Meets.exit ⟨hflash, hram⟩
  · refine ⟨⟨length.toNat, ?_, le_rfl⟩, rfl, fun _ _ => rfl⟩
    rw [BitVec.toInt_eq_toNat_of_lt (by omega)]

/-! ### What the host may expect of an agent -/

/-- The functions of an agent, on a chip that answers their accesses. -/
structure Agent where
  chip : Responder IoCall Word Target
  setup : IoProg ℤ
  erase : Word → Word → IoProg ℤ
  write : Word → Word → Word → IoProg ℤ

/-- A returned `int` as the host reads it. -/
def r0 (rc : ℤ) : Word := BitVec.ofInt 32 rc

/-- Where setup succeeds the flash is ready; where an erase succeeds the block is erased;
where a write succeeds an erased block, a multiple of `grain`, holds what was in the buffer.
A write may go beyond its block, up to the end of a flash page, unless it writes a whole
buffer. -/
structure Agent.Contract (agent : Agent) (ready : Target → Prop) (dataAddr : Word)
    (dataSize flashSize grain : ℕ) : Prop where
  setup : ∀ t, agent.setup.Meets agent.chip t fun rc t' => r0 rc = 0 → ready t' ∧ t'.ram = t.ram
  erase : ∀ t addr len, ready t → 0 < len.toNat → addr.toNat + len.toNat ≤ flashSize →
    (agent.erase addr len).Meets agent.chip t fun rc t' => r0 rc = 0 →
      ready t' ∧ ∀ i < len.toNat, t'.flash (byteAddr addr i) = 0xFF
  write : ∀ t addr len, ready t → 0 < len.toNat → len.toNat ≤ dataSize →
    addr.toNat + len.toNat ≤ flashSize →
    (∀ i < len.toNat, t.flash (byteAddr addr i) = 0xFF) →
    (agent.write addr dataAddr len).Meets agent.chip t fun rc t' => r0 rc = 0 →
      ready t' ∧ grain ∣ len.toNat ∧
      (∀ i < len.toNat, t'.flash (byteAddr addr i) = t.ram (byteAddr dataAddr i)) ∧
      (∀ x, x.toNat < addr.toNat → t'.flash x = t.flash x) ∧
      (len.toNat = dataSize → ∀ x, addr.toNat + len.toNat ≤ x.toNat → t'.flash x = t.flash x)

end M3Dev.Flash
