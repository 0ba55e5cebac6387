import M3Dev.GdbServer

/-! What a command may do to the flags, the selections and the stop replies, whatever its
calls are answered. -/
namespace M3Dev.Gdb
open CallTree WhileLoop Tools Lk

/-- No stop reply is sent; where it is `safe`, no pointer leads nowhere. -/
def orderly (safe : Prop) : Prog.Rules Call Answer Halt where
  allows _ c := c ≠ Call.send (framed (ascii "S05"))
  stops _ e := e = .wild → ¬ safe

/-- Nothing is sent and no pointer leads nowhere. -/
def Silent {α : Type} (p : HostProg α) : Prop :=
  ∀ safe past, p.Ensures (orderly safe) (fun _ _ => True) past

section
variable {α β : Type}

theorem Silent.ret (a : α) : Silent (.ret a) := fun _ _ => trivial

theorem Silent.call {c : Call} (hc : ∀ packet, c ≠ .send packet) (k : Answer → α) :
    Silent (.call c fun a => .ret (k a)) :=
  fun _ _ => ⟨hc _, fun _ => trivial⟩

theorem Silent.bind {p : HostProg α} {f : α → HostProg β} (h : Silent p)
    (hf : ∀ a, Silent (f a)) : Silent (p >>= f) :=
  fun safe past => (h safe past).bind fun t a _ => hf a safe t

theorem Silent.ite {c : Prop} [Decidable c] {p q : HostProg α} (hp : Silent p) (hq : Silent q) :
    Silent (if c then p else q) := by
  split
  · exact hp
  · exact hq

/-- A loop that goes on for too long leads nowhere either, but not by a pointer. -/
theorem Silent.repeatPasses {body : α → HostProg (Pass α β)} (h : ∀ a, Silent (body a))
    (fuel : ℕ) (a : α) : Silent (repeatPasses body fuel a) := by
  induction fuel generalizing a with
  | zero => exact fun _ _ hwild => absurd hwild (by decide)
  | succ fuel ih =>
    apply (h a).bind
    intro p
    cases p with
    | next a' => exact ih a'
    | exit b => exact Silent.ret b

end

/-! ### The target -/

theorem swdpAhbRead_silent (addr old : Word) : Silent (swdpAhbRead addr old) :=
  Silent.call (by simp) _

theorem swdpAhbWrite_silent (addr value : Word) : Silent (swdpAhbWrite addr value) :=
  Silent.call (by simp) _

theorem swdpAhbRead32_silent (addr : Word) (out : ℕ → Word) (count : ℤ) :
    Silent (swdpAhbRead32 addr out count) :=
  Silent.call (by simp) _

theorem swdpAhbWrite32_silent (addr : Word) (inp : ℕ → Word) (count : ℤ) :
    Silent (swdpAhbWrite32 addr inp count) :=
  Silent.call (by simp) _

theorem swdpCoreWrite_silent (n v : Word) : Silent (swdpCoreWrite n v) := Silent.call (by simp) _

theorem swdpCoreRead_silent (n old : Word) : Silent (swdpCoreRead n old) := Silent.call (by simp) _

theorem swdpCoreReadAll_silent (v : ℕ → Word) : Silent (swdpCoreReadAll v) :=
  Silent.call (by simp) _

theorem swdpCoreHalt_silent : Silent swdpCoreHalt := by
  apply (swdpAhbRead_silent _ _).bind
  intro r
  exact Silent.ite (Silent.ret _) (swdpAhbWrite_silent _ _)

/-- Whatever bits are changed on the way, each change is one write. -/
theorem swdpCoreStep_silent (ints : ℤ) : Silent (swdpCoreStep ints) := by
  apply (swdpAhbRead_silent _ _).bind
  intro r
  apply Silent.ite (Silent.ret _)
  simp only [Prog.pure_eq, Prog.ret_bind]
  repeat' first
    | exact swdpAhbWrite_silent _ _
    | apply Silent.ite
    | (apply (swdpAhbWrite_silent _ _).bind; intro _)

theorem swdpCoreResume_silent (ints : ℤ) : Silent (swdpCoreResume ints) := by
  apply (swdpAhbRead_silent _ _).bind
  intro r
  apply Silent.ite (Silent.ret _)
  simp only [Prog.pure_eq, Prog.ret_bind]
  repeat' first
    | exact swdpAhbWrite_silent _ _
    | apply Silent.ite
    | (apply (swdpAhbWrite_silent _ _).bind; intro _)

theorem swdpWatchpoint_silent (n addr func : Word) : Silent (swdpWatchpoint n addr func) :=
  Silent.ite (Silent.ret _) (Silent.call (by simp) _)

/-! ### Threads -/

theorem readSavedRegs_silent (savedSp : Word) : Silent (readSavedRegs savedSp) := by
  apply (swdpAhbRead32_silent _ _ _).bind
  intro fr
  apply Silent.ite (Silent.ret _)
  apply Silent.ite _ (Silent.ret _)
  apply (swdpAhbRead32_silent _ _ _).bind
  intro ex
  exact Silent.ite (Silent.ret _) (Silent.ret _)

theorem readLkThread_silent (di : LkDebugInfo) (ptr : Word) (active : Bool) :
    Silent (readLkThread di ptr active) := by
  apply Silent.bind (Silent.call (by simp) _)
  intro t
  apply Silent.ite (Silent.ret _)
  apply (swdpAhbRead_silent _ _).bind
  intro magic
  apply Silent.ite (Silent.ret _)
  apply Silent.ite (Silent.ret _)
  apply (swdpAhbRead_silent _ _).bind
  intro next
  apply Silent.ite (Silent.ret _)
  apply (swdpAhbRead_silent _ _).bind
  intro state
  apply Silent.ite (Silent.ret _)
  apply (swdpAhbRead_silent _ _).bind
  intro savedSp
  apply Silent.ite (Silent.ret _)
  apply (swdpAhbRead_silent _ _).bind
  intro waitq
  apply Silent.ite (Silent.ret _)
  apply (swdpAhbRead32_silent _ _ _).bind
  intro name
  apply Silent.ite (Silent.ret _)
  apply Silent.ite
  -- a thread that runs is listed with registers nobody knows
  · exact Silent.ret _
  · apply (readSavedRegs_silent _).bind
    intro regs
    cases regs with
    | none => exact Silent.ret _
    | some regs => exact Silent.ret _

theorem loadDebuginfo_silent : Silent loadDebuginfo := by
  apply (swdpAhbRead_silent _ _).bind
  intro vtbl
  apply (swdpAhbRead_silent _ _).bind
  intro magic
  apply Silent.ite (Silent.ret _)
  apply Silent.ite (Silent.ret _)
  apply (swdpAhbRead_silent _ _).bind
  intro ptr
  apply Silent.ite (Silent.ret _)
  apply Silent.ite (Silent.ret _)
  apply (swdpAhbRead32_silent _ _ _).bind
  intro di
  apply Silent.ite (Silent.ret _)
  exact Silent.ite (Silent.ret _) (Silent.ret _)

theorem findLkThreadsPass_silent (di : LkDebugInfo) (current : Word) (s : Word × ThreadList) :
    Silent (findLkThreadsPass di current s) := by
  apply (swdpAhbRead_silent _ _).bind
  intro rtp
  apply Silent.ite (Silent.ret _)
  apply Silent.ite (Silent.ret _)
  apply Silent.ite (Silent.ret _)
  apply (readLkThread_silent _ _ _).bind
  intro t
  cases t with
  | none => exact Silent.ret _
  | some t => exact Silent.ret _

theorem findLkThreads_silent (threads : ℕ) : Silent (findLkThreads threads) := by
  apply loadDebuginfo_silent.bind
  intro di
  cases di with
  | none => exact Silent.ret _
  | some di =>
    apply (swdpAhbRead_silent _ _).bind
    intro x
    apply Silent.ite (Silent.ret _)
    apply (readLkThread_silent _ _ _).bind
    intro current
    cases current with
    | none => exact Silent.ret _
    | some current =>
      apply (Silent.repeatPasses (findLkThreadsPass_silent _ _) threads _).bind
      intro list
      cases list with
      | none => exact Silent.ret _
      | some list => exact Silent.ret _

/-! ### Breakpoints and memory -/

theorem readFpCount_silent : Silent readFpCount := by
  apply (swdpAhbRead_silent _ _).bind
  intro x
  apply Silent.ite (Silent.ret _)
  apply Silent.ite _ (Silent.ret _)
  apply (swdpAhbRead_silent _ _).bind
  intro ctrl
  exact Silent.ite (Silent.ret _) (Silent.ret _)

theorem handleFlashpatch_silent (b : BreakTables) (add : Bool) (addr : Word) :
    Silent (handleFlashpatch b add addr) := by
  apply readFpCount_silent.bind
  intro n
  cases n with
  | none => exact Silent.ret _
  | some n =>
    dsimp only
    split
    · apply Silent.ite (Silent.ret _)
      apply (swdpAhbWrite_silent _ _).bind
      intro _
      exact Silent.ret _
    · apply Silent.ite (Silent.ret _)
      split
      · exact Silent.ret _
      · apply (swdpAhbWrite_silent _ _).bind
        intro _
        apply (swdpAhbWrite_silent _ _).bind
        intro _
        exact Silent.ret _

theorem readDwtCount_silent : Silent readDwtCount := by
  apply (swdpAhbRead_silent _ _).bind
  intro x
  apply Silent.ite (Silent.ret _)
  apply Silent.ite _ (Silent.ret _)
  apply (swdpAhbRead_silent _ _).bind
  intro ctrl
  exact Silent.ite (Silent.ret _) (Silent.ret _)

theorem handleWatchpoint_silent (b : BreakTables) (add : Bool) (addr : Word) :
    Silent (handleWatchpoint b add addr) := by
  apply readDwtCount_silent.bind
  intro n
  cases n with
  | none => exact Silent.ret _
  | some n =>
    dsimp only
    split
    · exact Silent.ret _
    · split
      · apply (swdpWatchpoint_silent _ _ _).bind
        intro _
        exact Silent.ret _
      · exact Silent.ret _
    · apply (swdpWatchpoint_silent _ _ _).bind
      intro _
      exact Silent.ret _
    · exact Silent.ret _

theorem handleBreakpoint_silent (b : BreakTables) (add : Bool) (addr : Word) :
    Silent (handleBreakpoint b add addr) := by
  apply Silent.ite
  · apply (handleFlashpatch_silent _ _ _).bind
    intro r
    exact Silent.ite (Silent.ret _) (handleWatchpoint_silent _ _ _)
  · exact handleWatchpoint_silent _ _ _

theorem rewriteWord_silent (x addr : Word) (offset : ℕ) (bs : List Byte) :
    Silent (rewriteWord x addr offset bs) := by
  apply (swdpAhbRead_silent _ _).bind
  intro r
  apply (swdpAhbWrite_silent _ _).bind
  intro _
  exact Silent.ret _

theorem writeMemory_silent (x addr : Word) (data : List Byte) :
    Silent (writeMemory x addr data) := by
  apply Silent.ite (Silent.ret _)
  apply Silent.bind
  · apply Silent.ite _ (Silent.ret _)
    apply (rewriteWord_silent _ _ _ _).bind
    intro _
    exact Silent.ret _
  intro s
  apply Silent.bind
  · apply Silent.ite _ (Silent.ret _)
    apply (swdpAhbWrite32_silent _ _ _).bind
    intro _
    exact Silent.ret _
  intro s
  apply Silent.ite _ (Silent.ret _)
  apply (rewriteWord_silent _ _ _ _).bind
  intro _
  exact Silent.ret _

theorem writeRegsFrom_silent (rxbuf : ℕ → Byte) (k n : ℕ) : Silent (writeRegsFrom rxbuf k n) := by
  induction k generalizing n with
  | zero => exact Silent.ret _
  | succ k ih =>
    apply (swdpCoreWrite_silent _ _).bind
    intro _
    exact ih (n + 1)

/-! ### Replies -/

/-- What is put together does not begin as a stop reply does. -/
def Plain (gc : Conn) : Prop := ∃ rest, gc.tx = 0x24 :: rest ∧ rest.head? ≠ some 0x53

theorem plain_prologue (gc : Conn) : Plain (gdbPrologue gc) := ⟨[], rfl, by decide⟩

/-- Bytes put are put at the end, as long as there is room. -/
theorem putBytes_fields (gc : Conn) (bs : List Byte) :
    (putBytes gc bs).flags = gc.flags ∧ (putBytes gc bs).rest = gc.rest ∧
      ∃ bs', bs' <+: bs ∧ (putBytes gc bs).tx = gc.tx ++ bs' := by
  induction bs generalizing gc with
  | nil => exact ⟨rfl, rfl, [], List.nil_prefix, (List.append_nil _).symm⟩
  | cons b bs ih =>
    have hcons : putBytes gc (b :: bs) = putBytes (gdbPutc gc (b.setWidth 32)) bs := rfl
    by_cases hfull : txFull gc
    · -- a full buffer stays as it is
      have hall : ∀ cs : List Byte, putBytes gc cs = gc := by
        intro cs
        induction cs with
        | nil => rfl
        | cons c cs ih' =>
          have hput : gdbPutc gc (c.setWidth 32) = gc := if_pos hfull
          show putBytes (gdbPutc gc (c.setWidth 32)) cs = gc
          rw [hput, ih']
      rw [hall]
      exact ⟨rfl, rfl, [], List.nil_prefix, (List.append_nil _).symm⟩
    · have hput : gdbPutc gc (b.setWidth 32) =
          { gc with txsum := gc.txsum + b.setWidth 32, tx := gc.tx ++ [b] } := by
        simp [gdbPutc, hfull]
      obtain ⟨hflags, hrest, bs', hprefix, htx⟩ := ih (gdbPutc gc (b.setWidth 32))
      rw [hcons]
      rw [hput] at hflags hrest htx ⊢
      refine ⟨hflags, hrest, b :: bs', List.cons_prefix_cons.mpr ⟨rfl, hprefix⟩, ?_⟩
      rw [htx]
      exact List.append_assoc _ _ _

theorem Plain.put {gc : Conn} (h : Plain gc) {bs : List Byte} (hbs : bs.head? ≠ some 0x53) :
    Plain (putBytes gc bs) := by
  obtain ⟨rest, htx, hhead⟩ := h
  obtain ⟨_, _, bs', hprefix, htx'⟩ := putBytes_fields gc bs
  refine ⟨rest ++ bs', ?_, ?_⟩
  · rw [htx', htx]
    rfl
  · cases rest with
    | cons b rest => exact hhead
    | nil =>
      cases bs' with
      | nil => exact hhead
      | cons b bs' =>
        cases bs with
        | nil => exact absurd hprefix (by simp)
        | cons c bs =>
          obtain ⟨rfl, _⟩ := List.cons_prefix_cons.mp hprefix
          exact hbs

theorem hex2_head (b : Byte) : (hex2 b).head? ≠ some 0x53 := by
  have hdigit : ∀ n : Byte, (hexDigit n == 0x53) = false := by decide
  intro h
  have heq := Option.some.inj h
  have := hdigit (b >>> 4)
  rw [heq] at this
  exact absurd this (by decide)

theorem hexdump_head (bs : List Byte) : (bs.flatMap hex2).head? ≠ some 0x53 := by
  cases bs with
  | nil => simp
  | cons b bs => exact hex2_head b

/-- A plain packet is no stop reply. -/
theorem Plain.close {gc : Conn} (h : Plain gc) {packet : List Byte}
    (hclose : (gdbClose gc).2 = some packet) : packet ≠ framed (ascii "S05") := by
  have hend := @Plain.put _ h (0x23 :: hex2 (gc.txsum.setWidth 8)) (by simp)
  obtain ⟨rest, htx, hhead⟩ := hend
  have hpacket : packet = 0x24 :: rest := by
    simp only [gdbClose] at hclose
    split at hclose
    · exact absurd hclose (by simp)
    · rw [← htx]
      exact (Option.some.inj hclose).symm
  rintro rfl
  have hrest := (List.cons.inj hpacket).2
  rw [← hrest] at hhead
  exact hhead rfl

end M3Dev.Gdb
