import M3Dev.HostBench
import M3Dev.LkThreads

/-! The memory of a target that runs LK, and a thread read out of it. -/
namespace M3Dev.Lk
open CallTree Tools WordBlock
open Rswdp (KeepsToWords pageWords)

/-- What is read at each address; `none` where a read fails. -/
abbrev Memory := Word → Option Word

def Memory.word (mem : Memory) (addr : Word) : Word := (mem addr).getD 0

/-- The word that is read for an address by itself. For the last address there is none:
`q_init` takes TAR to hold `0xffffffff` already, and the access goes where the one before went. -/
def Memory.read (mem : Memory) (addr : Word) : Option Word :=
  if addr = 0xffffffff then none else mem addr

/-- `n` words from `addr` on. -/
def Memory.Words (mem : Memory) (addr : Word) (n : ℕ) : Prop :=
  ∀ i < n, (mem (wordAddr addr i)).isSome = true

instance (mem : Memory) (addr : Word) (n : ℕ) : Decidable (mem.Words addr n) :=
  inferInstanceAs (Decidable (∀ i < n, _))

/-- `n` words can be read from `addr` on: they are there, and none of them runs over the end of a
page, where `swdp_ahb_read32` comes to no end. -/
structure Memory.Readable (mem : Memory) (addr : Word) (n : ℕ) : Prop where
  words : mem.Words addr n
  keeps : KeepsToWords addr n

/-- A transfer of `n` words into `buf`. -/
def Memory.fill (mem : Memory) (addr : Word) (n : ℕ) (buf : ℕ → Word) : ℕ → Word := fun i =>
  if i < n then mem.word (wordAddr addr i) else buf i

/-- TAR, and how many nodes have been allocated. -/
structure Reader where
  tar : Word
  nodes : ℕ

/-- The memory does not change while it is read; `behind` is where TAR is after a block, and
`heap k` the node that is allocated next. -/
def memoryResponder (mem : Memory) (behind : Word → ℕ → Word) (heap : ℕ → ℕ) :
    Responder Call Answer Reader
  | .exec [.read addr] buf, s =>
    match mem (touched s.tar addr) with
    | some w => some (statusAnswer 0 (Function.update buf 0 w), { s with tar := touched s.tar addr })
    | none => some (statusAnswer (-1) buf, { s with tar := touched s.tar addr })
  | .ahbRead32 addr buf count, s =>
    if count ≤ 0 then some (statusAnswer 0 buf, s)
    else if KeepsToWords addr count then
      if mem.Words addr count.toNat then
        some (statusAnswer 0 (mem.fill addr count.toNat buf),
          { s with tar := behind addr count.toNat })
      else some (statusAnswer (-1) buf, { s with tar := behind addr count.toNat })
    -- up to the end of the page, and from there on batches of no words
    else if mem.Words addr (pageWords addr) then none
    else some (statusAnswer (-1) buf, { s with tar := behind addr (pageWords addr) })
  | .calloc, s =>
    some ({ statusAnswer 0 (fun _ => 0) with ptr := heap s.nodes }, { s with nodes := s.nodes + 1 })
  | _, s => some (statusAnswer 0 fun _ => 0, s)

/-! ### What a thread looks like -/

/-- The structure of a thread: its magic, and what else is read of it. -/
structure ThreadAt (mem : Memory) (di : LkDebugInfo) (tp : Word) : Prop where
  magic : mem.read tp = some lkThreadMagic
  next : (mem.read (ltNextPtr di tp)).isSome = true
  state : (mem.read (ltState di tp)).isSome = true
  savedSp : (mem.read (ltSavedSp di tp)).isSome = true
  waitq : (mem.read (ltWaitq di tp)).isSome = true
  name : mem.Readable (ltName di tp) 8

/-- The word of the saved frame at `sp`. -/
def Memory.frame (mem : Memory) (sp : Word) (i : ℕ) : Word := mem.word (wordAddr sp i)

/-- The saved frame can be read, as long as it is. -/
structure FrameAt (mem : Memory) (sp : Word) : Prop where
  short : mem.Readable sp 9
  long : isExceptionFrame (mem.frame sp) = true → mem.Readable (wordAddr sp 9) 8

/-- The registers in the saved frame at `sp`. -/
def savedRegs (mem : Memory) (sp : Word) : List Word :=
  if isExceptionFrame (mem.frame sp) then
    longFrameRegs sp (mem.frame sp) (mem.frame (wordAddr sp 9))
  else shortFrameRegs sp (mem.frame sp)

/-- Where the fields of a thread are read, one after the other. -/
def nextPtrAt (di : LkDebugInfo) (tp : Word) : Word := touched tp (ltNextPtr di tp)
def stateAt (di : LkDebugInfo) (tp : Word) : Word := touched (nextPtrAt di tp) (ltState di tp)
def savedSpAt (di : LkDebugInfo) (tp : Word) : Word := touched (stateAt di tp) (ltSavedSp di tp)
def waitqAt (di : LkDebugInfo) (tp : Word) : Word := touched (savedSpAt di tp) (ltWaitq di tp)

/-- The saved stack pointer of a thread. -/
def savedSpOf (mem : Memory) (di : LkDebugInfo) (tp : Word) : Word := mem.word (savedSpAt di tp)

/-- The thread as it is to be shown. -/
def threadOf (mem : Memory) (di : LkDebugInfo) (tp : Word) (active : Bool) : LkThread where
  active := active
  threadptr := tp
  nextptr := mem.word (nextPtrAt di tp)
  state :=
    if mem.word (stateAt di tp) > lkMaxState then lkMaxState + 1 else mem.word (stateAt di tp)
  savedSp := savedSpOf mem di tp
  waitq := mem.word (waitqAt di tp)
  name := readName fun i => mem.word (wordAddr (ltName di tp) i)
  regs := if active then unknownRegs else savedRegs mem (savedSpOf mem di tp)

/-- What `read_lk_thread` needs of a thread: there is a word wherever it reads. -/
structure ThreadRead (mem : Memory) (di : LkDebugInfo) (tp : Word) : Prop where
  magic : mem.read tp = some lkThreadMagic
  next : (mem (nextPtrAt di tp)).isSome = true
  state : (mem (stateAt di tp)).isSome = true
  savedSp : (mem (savedSpAt di tp)).isSome = true
  waitq : (mem (waitqAt di tp)).isSome = true
  name : mem.Readable (ltName di tp) 8

/-- Where TAR is once the saved frame at `sp` has been read. -/
def behindFrame (mem : Memory) (behind : Word → ℕ → Word) (sp : Word) : Word :=
  if isExceptionFrame (mem.frame sp) then behind (wordAddr sp 9) 8 else behind sp 9

/-- Where TAR is once a thread has been read. -/
def behindThread (mem : Memory) (behind : Word → ℕ → Word) (di : LkDebugInfo) (tp : Word)
    (active : Bool) : Word :=
  if active then behind (ltName di tp) 8 else behindFrame mem behind (savedSpOf mem di tp)

/-! ### Reading -/

section
variable {mem : Memory} {behind : Word → ℕ → Word} {heap : ℕ → ℕ} {s : Reader} {α : Type}

/-- The run against the memory comes back with `r`. -/
def Finds (mem : Memory) (behind : Word → ℕ → Word) (heap : ℕ → ℕ) (p : HostProg α) (s : Reader)
    (r : α) (s' : Reader) : Prop := p.run (memoryResponder mem behind heap) s = some (.ok r, s')

theorem Finds.ret (r : α) (s : Reader) : Finds mem behind heap (.ret r) s r s := rfl

theorem Finds.bind {β : Type} {p : HostProg α} {f : α → HostProg β} {s' s'' : Reader} {a : α}
    {r : β} (h : Finds mem behind heap p s a s') (h' : Finds mem behind heap (f a) s' r s'') :
    Finds mem behind heap (p >>= f) s r s'' := by
  unfold Finds
  rw [Prog.run_bind h]
  exact h'

theorem word_of_some {addr w : Word} (h : mem addr = some w) : mem.word addr = w := by
  rw [Memory.word, h]
  rfl

theorem read_eq_some {addr w : Word} : mem.read addr = some w ↔ addr ≠ 0xffffffff ∧ mem addr = some w := by
  rw [Memory.read]
  split <;> simp_all

/-- There is a word only where TAR is written. -/
theorem touched_of_read (tar : Word) {addr : Word} (h : (mem.read addr).isSome = true) :
    touched tar addr = addr ∧ (mem addr).isSome = true := by
  obtain ⟨w, hw⟩ := Option.isSome_iff_exists.mp h
  obtain ⟨hne, hw⟩ := read_eq_some.mp hw
  exact ⟨touched_of_ne tar hne, Option.isSome_iff_exists.mpr ⟨w, hw⟩⟩

theorem ThreadAt.savedSpOf {di : LkDebugInfo} {tp : Word} (h : ThreadAt mem di tp) :
    savedSpOf mem di tp = mem.word (ltSavedSp di tp) :=
  congrArg mem.word (touched_of_read _ h.savedSp).1

theorem ThreadAt.reads {di : LkDebugInfo} {tp : Word} (h : ThreadAt mem di tp) :
    ThreadRead mem di tp := by
  have hat {tar addr : Word} (h : (mem.read addr).isSome = true) :
      (mem (touched tar addr)).isSome = true := by
    obtain ⟨hsame, hsome⟩ := touched_of_read tar h
    rw [hsame]
    exact hsome
  exact ⟨h.magic, hat h.next, hat h.state, hat h.savedSp, hat h.waitq, h.name⟩

theorem swdpAhbRead_touched {addr w : Word} (h : mem (touched s.tar addr) = some w) (old : Word) :
    Finds mem behind heap (swdpAhbRead addr old) s (0, w) { s with tar := touched s.tar addr } := by
  have hanswer : memoryResponder mem behind heap (.exec [.read addr] fun _ => old) s =
      some (statusAnswer 0 (Function.update (fun _ => old) 0 w),
        { s with tar := touched s.tar addr }) := by
    rw [memoryResponder, h]
  exact Prog.run_call hanswer _

theorem swdpAhbRead_finds {addr w : Word} (h : mem.read addr = some w) (old : Word) :
    Finds mem behind heap (swdpAhbRead addr old) s (0, w) { s with tar := addr } := by
  obtain ⟨hne, hw⟩ := read_eq_some.mp h
  have hsame : touched s.tar addr = addr := touched_of_ne s.tar hne
  have hat : mem (touched s.tar addr) = some w := by
    rw [hsame]
    exact hw
  have htouched : Finds mem behind heap (swdpAhbRead addr old) s (0, w) _ :=
    swdpAhbRead_touched hat old
  rwa [hsame] at htouched

theorem swdpAhbRead_word {addr : Word} (h : (mem (touched s.tar addr)).isSome = true) (old : Word) :
    Finds mem behind heap (swdpAhbRead addr old) s (0, mem.word (touched s.tar addr))
      { s with tar := touched s.tar addr } := by
  obtain ⟨w, hw⟩ := Option.isSome_iff_exists.mp h
  rw [word_of_some hw]
  exact swdpAhbRead_touched hw old

theorem swdpAhbRead32_finds {addr : Word} {n : ℕ} (hn : 0 < n) (h : mem.Readable addr n)
    (buf : ℕ → Word) : Finds mem behind heap (swdpAhbRead32 addr buf n) s (0, mem.fill addr n buf)
      { s with tar := behind addr n } := by
  have hanswer : memoryResponder mem behind heap (.ahbRead32 addr buf n) s =
      some (statusAnswer 0 (mem.fill addr n buf), { s with tar := behind addr n }) := by
    rw [memoryResponder, if_neg (by omega), if_pos h.keeps, Int.toNat_natCast, if_pos h.words]
  exact Prog.run_call hanswer _

theorem fill_of_lt {addr : Word} {n i : ℕ} (hi : i < n) (buf : ℕ → Word) :
    mem.fill addr n buf i = mem.frame addr i := if_pos hi

/-- A name is cut from its eight words. -/
theorem readName_congr {w w' : ℕ → Word} (h : ∀ i < 8, w i = w' i) : readName w = readName w' := by
  have hbytes : (List.range 8).flatMap (fun i => wordBytes (w i)) =
      (List.range 8).flatMap fun i => wordBytes (w' i) := by
    apply List.flatMap_congr
    intro i hi
    rw [h i (List.mem_range.mp hi)]
  rw [readName, hbytes, readName]

theorem isExceptionFrame_congr {fr fr' : ℕ → Word} (h : fr 8 = fr' 8) :
    isExceptionFrame fr = isExceptionFrame fr' := by
  rw [isExceptionFrame, h, isExceptionFrame]

theorem shortFrameRegs_congr {fr fr' : ℕ → Word} (h : ∀ i < 9, fr i = fr' i) (sp : Word) :
    shortFrameRegs sp fr = shortFrameRegs sp fr' := by
  have hlow : (List.range 8).map fr = (List.range 8).map fr' := by
    apply List.map_congr_left
    intro i hi
    exact h i (by have := List.mem_range.mp hi; omega)
  rw [shortFrameRegs, hlow, h 8 (by decide), shortFrameRegs]

theorem longFrameRegs_congr {fr fr' ex ex' : ℕ → Word} (h : ∀ i < 8, fr i = fr' i)
    (hex : ∀ i < 8, ex i = ex' i) (sp : Word) :
    longFrameRegs sp fr ex = longFrameRegs sp fr' ex' := by
  have hlow : (List.range 8).map fr = (List.range 8).map fr' := by
    apply List.map_congr_left
    intro i hi
    exact h i (List.mem_range.mp hi)
  have hscratch : (List.range 4).map ex = (List.range 4).map ex' := by
    apply List.map_congr_left
    intro i hi
    exact hex i (by have := List.mem_range.mp hi; omega)
  rw [longFrameRegs, hlow, hscratch, hex 4 (by decide), hex 5 (by decide), hex 6 (by decide),
    hex 7 (by decide), longFrameRegs]

theorem readSavedRegs_finds {sp : Word} (h : FrameAt mem sp) :
    Finds mem behind heap (readSavedRegs sp) s (some (savedRegs mem sp))
      { s with tar := behindFrame mem behind sp } := by
  have hfr : ∀ i < 9, mem.fill sp 9 (fun _ => 0) i = mem.frame sp i := fun i hi => fill_of_lt hi _
  have hkind := isExceptionFrame_congr (hfr 8 (by decide))
  apply (swdpAhbRead32_finds (by decide) h.short _).bind
  dsimp only
  rw [if_neg (not_not.mpr rfl), hkind, savedRegs, behindFrame]
  by_cases hlong : isExceptionFrame (mem.frame sp) = true
  · rw [if_pos hlong, if_pos hlong, if_pos hlong]
    apply (swdpAhbRead32_finds (by decide) (h.long hlong) _).bind
    dsimp only
    rw [if_neg (not_not.mpr rfl), longFrameRegs_congr (fun i hi => hfr i (by omega))
      (fun i hi => fill_of_lt hi _)]
    exact Finds.ret _ _
  · rw [if_neg hlong, if_neg hlong, if_neg hlong, shortFrameRegs_congr hfr]
    exact Finds.ret _ _

theorem readLkThread_finds {di : LkDebugInfo} {tp : Word} {active : Bool}
    (hheap : heap s.nodes ≠ 0) (h : ThreadRead mem di tp)
    (hframe : active = false → FrameAt mem (savedSpOf mem di tp)) :
    Finds mem behind heap (readLkThread di tp active) s
      (some (heap s.nodes, threadOf mem di tp active))
      ⟨behindThread mem behind di tp active, s.nodes + 1⟩ := by
  have hcalloc : Finds mem behind heap (Prog.ask .calloc) s
      { statusAnswer 0 (fun _ => 0) with ptr := heap s.nodes } { s with nodes := s.nodes + 1 } := rfl
  have hname : readName (mem.fill (ltName di tp) 8 fun _ => 0) =
      readName fun i => mem.word (wordAddr (ltName di tp) i) :=
    readName_congr fun i hi => fill_of_lt hi _
  apply hcalloc.bind
  dsimp only
  rw [if_neg hheap]
  apply (swdpAhbRead_finds h.magic 0).bind
  dsimp only
  rw [if_neg (not_not.mpr rfl), if_neg (not_not.mpr rfl)]
  apply (swdpAhbRead_word h.next 0).bind
  dsimp only
  rw [if_neg (not_not.mpr rfl)]
  apply (swdpAhbRead_word h.state 0).bind
  dsimp only
  rw [if_neg (not_not.mpr rfl)]
  apply (swdpAhbRead_word h.savedSp 0).bind
  dsimp only
  rw [if_neg (not_not.mpr rfl)]
  apply (swdpAhbRead_word h.waitq 0).bind
  dsimp only
  rw [if_neg (not_not.mpr rfl)]
  apply (swdpAhbRead32_finds (by decide) h.name _).bind
  dsimp only
  rw [if_neg (not_not.mpr rfl), hname]
  cases active with
  | true => exact Finds.ret _ _
  | false =>
    apply (readSavedRegs_finds (hframe rfl)).bind
    exact Finds.ret _ _

end

end M3Dev.Lk
