import M3Dev.LkThreadList

/-! `find_lk_threads` on a memory that may hold anything: when the walk ends. -/
namespace M3Dev.Lk
open CallTree WhileLoop Tools WordBlock
open Rswdp (KeepsToWords pageWords)

/-- A memory of which every word can be read. -/
def whole (m : Word → Word) : Memory := fun addr => some (m addr)

/-- A thread has the magic word. The last address is not a thread's: what is read for it is the
word that led there. -/
def HasMagic (m : Word → Word) (tp : Word) : Prop := tp ≠ 0xffffffff ∧ m tp = lkThreadMagic

instance (m : Word → Word) (tp : Word) : Decidable (HasMagic m tp) :=
  inferInstanceAs (Decidable (_ ∧ _))

/-- The saved frame at `sp` runs, in the middle of a word, over the end of a page. -/
def FrameOverruns (m : Word → Word) (sp : Word) : Prop :=
  ¬ KeepsToWords sp (9 : ℕ) ∨
    (isExceptionFrame ((whole m).frame sp) = true ∧ ¬ KeepsToWords (wordAddr sp 9) (8 : ℕ))

/-- So does the name of a thread, or the frame of one that is not running. -/
def Overruns (m : Word → Word) (di : LkDebugInfo) (tp : Word) (active : Bool) : Prop :=
  ¬ KeepsToWords (ltName di tp) (8 : ℕ) ∨
    (active = false ∧ FrameOverruns m (savedSpOf (whole m) di tp))

/-- Where the walk stands: at a node of the list. -/
structure Stand where
  node : Word
  reader : Reader

section
variable (m : Word → Word) (behind : Word → ℕ → Word) (heap : ℕ → ℕ) (di : LkDebugInfo)
  (current : Word)

/-- Where the link of a node is read, and where it leads. -/
def Stand.nextAt (s : Stand) : Word := touched s.reader.tar (s.node + listOffNext)
def Stand.next (s : Stand) : Word := m s.nextAt

/-- The thread of the next node. -/
def Stand.thread (s : Stand) : Word := listToThread di (s.next m)

/-- The walk ends: the next node is the head again, or that of a thread other than the current one
that has no magic or for which there is no memory. -/
def Stand.Ends (s : Stand) : Prop :=
  s.next m = di.threadListPtr ∨
    (s.thread m di ≠ current ∧ (¬ HasMagic m (s.thread m di) ∨ heap s.reader.nodes = 0))

/-- The walk is stuck: a thread other than the current one overruns a page. -/
def Stand.Stuck (s : Stand) : Prop :=
  s.thread m di ≠ current ∧ Overruns m di (s.thread m di) false

/-- The next node, with its thread read unless it is the current one. -/
def Stand.go (s : Stand) : Stand where
  node := s.next m
  reader :=
    if s.thread m di = current then { s.reader with tar := s.nextAt }
    else ⟨behindThread (whole m) behind di (s.thread m di) false, s.reader.nodes + 1⟩

/-- The list can be followed from here to an end. -/
def Stand.Arrives (s : Stand) : Prop :=
  ∃ i, ((Stand.go m behind di current)^[i] s).Ends m heap di current ∧
    ∀ j < i, ¬ ((Stand.go m behind di current)^[j] s).Stuck m di current

/-- At the list's head, with the current thread read and `nodes` allocated before it. -/
def atHead (nodes : ℕ) : Stand where
  node := di.threadListPtr
  reader := ⟨behindThread (whole m) behind di current true, nodes + 1⟩

end

section
variable {m : Word → Word} {behind : Word → ℕ → Word} {heap : ℕ → ℕ} {di : LkDebugInfo}
  {current : Word} {s : Reader} {α β : Type}

/-- The run never comes back. -/
def Hangs (m : Word → Word) (behind : Word → ℕ → Word) (heap : ℕ → ℕ) (p : HostProg α)
    (s : Reader) : Prop := p.run (memoryResponder (whole m) behind heap) s = none

theorem Hangs.bind {p : HostProg α} (h : Hangs m behind heap p s) (f : α → HostProg β) :
    Hangs m behind heap (p >>= f) s := Prog.run_bind_none h f

theorem Finds.hangs {p : HostProg α} {f : α → HostProg β} {a : α} {s' : Reader}
    (h : Finds (whole m) behind heap p s a s') (h' : Hangs m behind heap (f a) s') :
    Hangs m behind heap (p >>= f) s := by
  unfold Hangs
  rw [Prog.run_bind h]
  exact h'

theorem Finds.not_hangs {p : HostProg α} {a : α} {s' : Reader}
    (h : Finds (whole m) behind heap p s a s') : ¬ Hangs m behind heap p s := by
  intro hnone
  exact absurd (h.symm.trans hnone) (by simp)

/-- A program that is known to come back, wherever with the reader, behind another. -/
theorem Finds.bind_exists {p : HostProg α} {f : α → HostProg β} {a : α} {r : β} {s' : Reader}
    (h : Finds (whole m) behind heap p s a s') (h' : ∃ s'', Finds (whole m) behind heap (f a) s' r s'') :
    ∃ s'', Finds (whole m) behind heap (p >>= f) s r s'' := by
  obtain ⟨s'', hrest⟩ := h'
  exact ⟨s'', h.bind hrest⟩

theorem whole_words (addr : Word) (n : ℕ) : (whole m).Words addr n := fun _ _ => rfl

theorem whole_readable {addr : Word} {n : ℕ} (h : KeepsToWords addr n) : (whole m).Readable addr n :=
  ⟨whole_words addr n, h⟩

theorem readWord_finds (addr old : Word) (s : Reader) :
    Finds (whole m) behind heap (swdpAhbRead addr old) s (0, m (touched s.tar addr))
      { s with tar := touched s.tar addr } := by
  have hword : whole m (touched s.tar addr) = some (m (touched s.tar addr)) := rfl
  exact swdpAhbRead_touched hword old

/-- A block in the middle of words is read up to the end of its page, and no further. -/
theorem swdpAhbRead32_hangs {addr : Word} {n : ℕ} (hn : 0 < n) (h : ¬ KeepsToWords addr n)
    (buf : ℕ → Word) (s : Reader) : Hangs m behind heap (swdpAhbRead32 addr buf n) s := by
  have hanswer : memoryResponder (whole m) behind heap (.ahbRead32 addr buf n) s = none := by
    rw [memoryResponder, if_neg (by omega), if_neg h, if_pos (whole_words addr _)]
  show Prog.run _ (.call _ _) s = none
  simp only [Prog.run, hanswer]

/-! ### A thread -/

theorem whole_threadRead {tp : Word} (h : HasMagic m tp) (hname : KeepsToWords (ltName di tp) (8 : ℕ)) :
    ThreadRead (whole m) di tp :=
  ⟨read_eq_some.mpr ⟨h.1, congrArg some h.2⟩, rfl, rfl, rfl, rfl, whole_readable hname⟩

theorem whole_frameAt {sp : Word} (h : ¬ FrameOverruns m sp) : FrameAt (whole m) sp := by
  rw [FrameOverruns, not_or, not_not, not_and, not_not] at h
  exact ⟨whole_readable h.1, fun hlong => whole_readable (h.2 hlong)⟩

/-- Where there is no memory or no magic there is no thread. -/
theorem readLkThread_finds_none {tp : Word} (di : LkDebugInfo) (active : Bool)
    (h : m (touched s.tar tp) ≠ lkThreadMagic ∨ heap s.nodes = 0) :
    ∃ s', Finds (whole m) behind heap (readLkThread di tp active) s none s' := by
  have hcalloc : Finds (whole m) behind heap (Prog.ask .calloc) s
      { statusAnswer 0 (fun _ => 0) with ptr := heap s.nodes } { s with nodes := s.nodes + 1 } := rfl
  apply hcalloc.bind_exists
  dsimp only
  by_cases hnull : heap s.nodes = 0
  · rw [if_pos hnull]
    exact ⟨_, Finds.ret _ _⟩
  · rw [if_neg hnull]
    apply (readWord_finds tp 0 _).bind_exists
    dsimp only
    rw [if_neg (not_not.mpr rfl), if_pos (h.resolve_right hnull)]
    exact ⟨_, Finds.ret _ _⟩

theorem readLkThread_finds_whole {tp : Word} {active : Bool} (hmagic : HasMagic m tp)
    (hheap : heap s.nodes ≠ 0) (h : ¬ Overruns m di tp active) : ∃ t, t.2.threadptr = tp ∧
      Finds (whole m) behind heap (readLkThread di tp active) s (some t)
        ⟨behindThread (whole m) behind di tp active, s.nodes + 1⟩ := by
  rw [Overruns, not_or, not_not, not_and] at h
  exact ⟨_, rfl, readLkThread_finds hheap (whole_threadRead hmagic h.1)
    fun hidle => whole_frameAt (h.2 hidle)⟩

theorem readSavedRegs_hangs {sp : Word} (h : FrameOverruns m sp) (s : Reader) :
    Hangs m behind heap (readSavedRegs sp) s := by
  by_cases hshort : KeepsToWords sp (9 : ℕ)
  · obtain ⟨hlong, hover⟩ := h.resolve_left (not_not.mpr hshort)
    have hkind : isExceptionFrame ((whole m).fill sp 9 fun _ => 0) = true := by
      rw [← hlong]
      exact isExceptionFrame_congr (fill_of_lt (by decide) _)
    apply (swdpAhbRead32_finds (by decide) (whole_readable hshort) _).hangs
    dsimp only
    rw [if_neg (not_not.mpr rfl), if_pos hkind]
    exact (swdpAhbRead32_hangs (by decide) hover _ _).bind _
  · exact (swdpAhbRead32_hangs (by decide) hshort _ s).bind _

theorem readLkThread_hangs {tp : Word} {active : Bool} (hmagic : HasMagic m tp)
    (hheap : heap s.nodes ≠ 0) (h : Overruns m di tp active) :
    Hangs m behind heap (readLkThread di tp active) s := by
  have hcalloc : Finds (whole m) behind heap (Prog.ask .calloc) s
      { statusAnswer 0 (fun _ => 0) with ptr := heap s.nodes } { s with nodes := s.nodes + 1 } := rfl
  have hfirst : m (touched s.tar tp) = lkThreadMagic := by
    rw [touched_of_ne _ hmagic.1]
    exact hmagic.2
  have hsavedSp : m (savedSpAt di tp) = savedSpOf (whole m) di tp := rfl
  apply hcalloc.hangs
  dsimp only
  rw [if_neg hheap]
  apply (readWord_finds tp 0 _).hangs
  dsimp only
  rw [if_neg (not_not.mpr rfl), if_neg (not_not.mpr hfirst), touched_of_ne _ hmagic.1]
  apply (readWord_finds (ltNextPtr di tp) 0 _).hangs
  dsimp only
  rw [if_neg (not_not.mpr rfl)]
  apply (readWord_finds (ltState di tp) 0 _).hangs
  dsimp only
  rw [if_neg (not_not.mpr rfl)]
  apply (readWord_finds (ltSavedSp di tp) 0 _).hangs
  dsimp only
  rw [if_neg (not_not.mpr rfl)]
  apply (readWord_finds (ltWaitq di tp) 0 _).hangs
  dsimp only
  rw [if_neg (not_not.mpr rfl)]
  by_cases hname : KeepsToWords (ltName di tp) (8 : ℕ)
  · obtain ⟨rfl, hframe⟩ := h.resolve_left (not_not.mpr hname)
    apply (swdpAhbRead32_finds (by decide) (whole_readable hname) _).hangs
    dsimp only
    rw [if_neg (not_not.mpr rfl)]
    exact (readSavedRegs_hangs hframe _).bind _
  · exact (swdpAhbRead32_hangs (by decide) hname _ _).bind _

/-! ### One pass -/

theorem readNode_finds (s : Stand) :
    Finds (whole m) behind heap (swdpAhbRead (s.node + listOffNext) s.node) s.reader
      (0, s.next m) { s.reader with tar := s.nextAt } := readWord_finds _ _ _

/-- Read by itself, a word without the magic is not taken for a thread, nor is the link to the
last address. -/
theorem touched_magic_ne (s : Stand) (h : ¬ HasMagic m (s.thread m di)) :
    m (touched s.nextAt (s.thread m di)) ≠ lkThreadMagic := by
  rw [touched]
  split
  next hlast =>
    -- the link itself is read once more, and is a small number
    intro hmagic
    have hlink : s.thread m di = lkThreadMagic - di.offListNode.setWidth 32 := by
      rw [Stand.thread, listToThread, Stand.next, hmagic]
    rw [hlast] at hlink
    have hnat := congrArg BitVec.toNat hlink
    have hbyte := di.offListNode.isLt
    rw [BitVec.toNat_sub, BitVec.toNat_setWidth] at hnat
    have hconst : (lkThreadMagic).toNat = 0x74687264 := rfl
    have hones : (0xffffffff : Word).toNat = 0xffffffff := rfl
    omega
  next hne => exact fun hmagic => h ⟨hne, hmagic⟩

theorem pass_ends {s : Stand} (h : s.Ends m heap di current) (found : ThreadList) :
    ∃ r s', Finds (whole m) behind heap (findLkThreadsPass di current (s.node, found)) s.reader
      (.exit r) s' := by
  by_cases hhead : s.next m = di.threadListPtr
  · refine ⟨some found, { s.reader with tar := s.nextAt }, ?_⟩
    apply (readNode_finds s).bind
    dsimp only
    rw [if_neg (not_not.mpr rfl), if_pos hhead]
    exact Finds.ret _ _
  · obtain ⟨hcurrent, hbad⟩ := h.resolve_left hhead
    have hother : current ≠ listToThread di (s.next m) := Ne.symm hcurrent
    obtain ⟨s', hnone⟩ : ∃ s', Finds (whole m) behind heap
        (readLkThread di (listToThread di (s.next m)) false) { s.reader with tar := s.nextAt } none s' :=
      readLkThread_finds_none di false (hbad.imp_left fun hmagic => touched_magic_ne s hmagic)
    refine ⟨none, s', ?_⟩
    apply (readNode_finds s).bind
    dsimp only
    rw [if_neg (not_not.mpr rfl), if_neg hhead, if_neg hother]
    apply hnone.bind
    exact Finds.ret _ _

/-- What is so where the walk does not end. -/
theorem not_ends {s : Stand} (h : ¬ s.Ends m heap di current) : s.next m ≠ di.threadListPtr ∧
    (s.thread m di ≠ current → HasMagic m (s.thread m di) ∧ heap s.reader.nodes ≠ 0) := by
  rw [Stand.Ends, not_or, not_and, not_or, not_not] at h
  exact h

theorem pass_goes {s : Stand} (h : ¬ s.Ends m heap di current) (hfree : ¬ s.Stuck m di current)
    (found : ThreadList) :
    ∃ found', Finds (whole m) behind heap (findLkThreadsPass di current (s.node, found)) s.reader
      (.next ((s.go m behind di current).node, found')) (s.go m behind di current).reader := by
  obtain ⟨hhead, hgood⟩ := not_ends h
  by_cases hcurrent : s.thread m di = current
  · have hreader : (s.go m behind di current).reader = { s.reader with tar := s.nextAt } :=
      if_pos hcurrent
    rw [hreader]
    refine ⟨found, ?_⟩
    apply (readNode_finds s).bind
    dsimp only
    rw [if_neg (not_not.mpr rfl), if_neg hhead,
      if_pos (show current = listToThread di _ from hcurrent.symm)]
    exact Finds.ret _ _
  · obtain ⟨hmagic, hheap⟩ := hgood hcurrent
    have hother : current ≠ listToThread di (s.next m) := Ne.symm hcurrent
    have hreader : (s.go m behind di current).reader =
        ⟨behindThread (whole m) behind di (s.thread m di) false, s.reader.nodes + 1⟩ :=
      if_neg hcurrent
    have hover : ¬ Overruns m di (s.thread m di) false := fun hover => hfree ⟨hcurrent, hover⟩
    obtain ⟨t, _, hread⟩ : ∃ t : ℕ × LkThread, t.2.threadptr = s.thread m di ∧
        Finds (whole m) behind heap (readLkThread di (s.thread m di) false)
          { s.reader with tar := s.nextAt } (some t)
          ⟨behindThread (whole m) behind di (s.thread m di) false, s.reader.nodes + 1⟩ :=
      readLkThread_finds_whole hmagic hheap hover
    rw [hreader]
    refine ⟨t :: found, ?_⟩
    apply (readNode_finds s).bind
    dsimp only
    rw [if_neg (not_not.mpr rfl), if_neg hhead, if_neg hother]
    apply hread.bind
    exact Finds.ret _ _

theorem pass_hangs {s : Stand} (h : ¬ s.Ends m heap di current) (hstuck : s.Stuck m di current)
    (found : ThreadList) :
    Hangs m behind heap (findLkThreadsPass di current (s.node, found)) s.reader := by
  obtain ⟨hhead, hgood⟩ := not_ends h
  obtain ⟨hmagic, hheap⟩ := hgood hstuck.1
  have hother : current ≠ listToThread di (s.next m) := Ne.symm hstuck.1
  apply (readNode_finds s).hangs
  dsimp only
  rw [if_neg (not_not.mpr rfl), if_neg hhead, if_neg hother]
  have hread : Hangs m behind heap (readLkThread di (s.thread m di) false)
      { s.reader with tar := s.nextAt } := readLkThread_hangs hmagic hheap hstuck.2
  exact hread.bind _

/-! ### The walk -/

theorem arrives_of_ends {s : Stand} (h : s.Ends m heap di current) : s.Arrives m behind heap di current :=
  ⟨0, h, fun _ hj => absurd hj (Nat.not_lt_zero _)⟩

/-- Where the walk goes on, the end is behind the next node. -/
theorem arrives_iff_go {s : Stand} (h : ¬ s.Ends m heap di current) : s.Arrives m behind heap di current ↔
    ¬ s.Stuck m di current ∧ (s.go m behind di current).Arrives m behind heap di current := by
  constructor
  · rintro ⟨i, hend, hfree⟩
    cases i with
    | zero => exact absurd hend h
    | succ i =>
      refine ⟨hfree 0 (Nat.succ_pos i), i, hend, ?_⟩
      intro j hj
      exact hfree (j + 1) (Nat.succ_lt_succ hj)
  · rintro ⟨hfirst, i, hend, hfree⟩
    refine ⟨i + 1, hend, ?_⟩
    intro j hj
    cases j with
    | zero => exact hfirst
    | succ j => exact hfree j (Nat.lt_of_succ_lt_succ hj)

theorem walk_returns {i : ℕ} {s : Stand}
    (hend : ((Stand.go m behind di current)^[i] s).Ends m heap di current)
    (hfree : ∀ j < i, ¬ ((Stand.go m behind di current)^[j] s).Stuck m di current)
    (found : ThreadList) : ∃ fuel r s', Finds (whole m) behind heap
      (repeatPasses (findLkThreadsPass di current) fuel (s.node, found)) s.reader r s' := by
  induction i generalizing s found with
  | zero =>
    obtain ⟨r, s', hpass⟩ := pass_ends hend found
    exact ⟨1, r, s', repeatPasses_exit hpass 0⟩
  | succ i ih =>
    by_cases hnow : s.Ends m heap di current
    · obtain ⟨r, s', hpass⟩ := pass_ends hnow found
      exact ⟨1, r, s', repeatPasses_exit hpass 0⟩
    · obtain ⟨found', hpass⟩ := pass_goes hnow (hfree 0 (Nat.succ_pos i)) found
      obtain ⟨fuel, r, s', hrest⟩ := ih hend (fun j hj => hfree (j + 1) (Nat.succ_lt_succ hj)) found'
      exact ⟨fuel + 1, r, s', repeatPasses_next hpass hrest⟩

/-- However many passes it takes, a walk that comes back has come to an end. -/
theorem walk_arrives {fuel : ℕ} {s : Stand} {found : ThreadList} {r : Option ThreadList} {s' : Reader}
    (h : Finds (whole m) behind heap
      (repeatPasses (findLkThreadsPass di current) fuel (s.node, found)) s.reader r s') :
    s.Arrives m behind heap di current := by
  induction fuel generalizing s found with
  | zero => exact absurd (Prod.mk.inj (Option.some.inj h)).1 (by simp)
  | succ fuel ih =>
    by_cases hnow : s.Ends m heap di current
    · exact arrives_of_ends hnow
    · by_cases hstuck : s.Stuck m di current
      · exact absurd ((pass_hangs hnow hstuck found).bind _) h.not_hangs
      · obtain ⟨found', hpass⟩ := pass_goes hnow hstuck found
        rw [Finds, repeatPasses, Prog.run_bind hpass] at h
        exact (arrives_iff_go hnow).mpr ⟨hstuck, ih h⟩

/-! ### From the debug info on -/

theorem loadDebuginfo_finds_whole (m : Word → Word) (behind : Word → ℕ → Word) (heap : ℕ → ℕ)
    (s : Reader) : (∃ di, InfoRead (whole m) di (m (infoPtrAt (whole m)))) ∨
      ∃ s', Finds (whole m) behind heap loadDebuginfo s none s' := by
  by_cases hinfo : ∃ di, InfoRead (whole m) di (m (infoPtrAt (whole m)))
  · exact .inl hinfo
  right
  have hat : touched s.tar 0xE000ED08 = 0xE000ED08 := touched_of_ne s.tar (by decide)
  have hvtor : Finds (whole m) behind heap (swdpAhbRead 0xE000ED08 0) s (0, m 0xE000ED08)
      { s with tar := 0xE000ED08 } := by
    have hread : Finds (whole m) behind heap (swdpAhbRead 0xE000ED08 0) s (0, _) _ :=
      readWord_finds 0xE000ED08 0 s
    rwa [hat] at hread
  have hmagicRead : Finds (whole m) behind heap (swdpAhbRead (diOffMagic + m 0xE000ED08) 0)
      { s with tar := 0xE000ED08 } (0, m (magicAt (whole m))) { s with tar := magicAt (whole m) } :=
    readWord_finds _ _ _
  have hpointerRead (old : Word) : Finds (whole m) behind heap
      (swdpAhbRead (diOffPtr + m 0xE000ED08) old) { s with tar := magicAt (whole m) }
      (0, m (infoPtrAt (whole m))) { s with tar := infoPtrAt (whole m) } := readWord_finds _ _ _
  -- the three checks, each of which gives up or goes on
  apply hvtor.bind_exists
  dsimp only
  rw [if_neg (not_not.mpr rfl)]
  apply hmagicRead.bind_exists
  dsimp only
  rw [if_neg (not_not.mpr rfl)]
  by_cases hmagic : m (magicAt (whole m)) = diMagic
  · rw [if_neg (not_not.mpr hmagic)]
    apply (hpointerRead _).bind_exists
    dsimp only
    rw [if_neg (not_not.mpr rfl)]
    by_cases haligned : m (infoPtrAt (whole m)) &&& 3 = 0
    · rw [if_neg (not_not.mpr haligned)]
      have hreadable : (whole m).Readable (m (infoPtrAt (whole m))) 5 :=
        readable_of_aligned haligned (whole_words _ _)
      let di := LkDebugInfo.ofWords ((whole m).frame (m (infoPtrAt (whole m))))
      have hdi : LkDebugInfo.ofWords ((whole m).fill (m (infoPtrAt (whole m))) 5 fun _ => 0) = di :=
        ofWords_congr fun i hi => fill_of_lt hi _
      have hversion : di.version ≠ 0x0100 := by
        intro hversion
        exact hinfo ⟨di, congrArg some hmagic, rfl, haligned, whole_words _ _, rfl, hversion⟩
      apply (swdpAhbRead32_finds (by decide) hreadable _).bind_exists
      dsimp only
      rw [if_neg (not_not.mpr rfl), hdi, if_pos hversion]
      exact ⟨_, Finds.ret _ _⟩
    · rw [if_pos haligned]
      exact ⟨_, Finds.ret _ _⟩
  · rw [if_pos hmagic]
    exact ⟨_, Finds.ret _ _⟩

/-- The call comes back, after some number of passes. -/
def Returns (m : Word → Word) (behind : Word → ℕ → Word) (heap : ℕ → ℕ) (s : Reader) : Prop :=
  ∃ fuel list s', Finds (whole m) behind heap (findLkThreads fuel) s list s'

/-- A current thread is found before the walk. -/
structure Starts (m : Word → Word) (behind : Word → ℕ → Word) (heap : ℕ → ℕ) (k : ℕ)
    (di : LkDebugInfo) (current : Word) : Prop where
  info : InfoRead (whole m) di (m (infoPtrAt (whole m)))
  pointer : m (touched (behind (m (infoPtrAt (whole m))) 5) di.currentThreadPtr) = current
  magic : HasMagic m current
  heap : heap k ≠ 0

/-- The call up to the walk, where the current thread is read. -/
theorem findLkThreads_starts (h : Starts m behind heap s.nodes di current)
    (hname : KeepsToWords (ltName di current) (8 : ℕ)) (fuel : ℕ) :
    ∃ t, (findLkThreads fuel).run (memoryResponder (whole m) behind heap) s =
      (repeatPasses (findLkThreadsPass di current) fuel ((atHead m behind di current s.nodes).node, []) >>=
        fun r => match r with
        | none => return []
        | some list => return t :: list).run (memoryResponder (whole m) behind heap)
          (atHead m behind di current s.nodes).reader := by
  have hactive : ¬ Overruns m di current true := by
    rintro (hover | ⟨hidle, _⟩)
    · exact hover hname
    · exact absurd hidle (by decide)
  let tar := touched (behind (m (infoPtrAt (whole m))) 5) di.currentThreadPtr
  have hpointer : Finds (whole m) behind heap (swdpAhbRead di.currentThreadPtr 0)
      { s with tar := behind (m (infoPtrAt (whole m))) 5 } (0, current) { s with tar := tar } := by
    rw [← h.pointer]
    exact readWord_finds _ _ _
  obtain ⟨t, hptr, hread⟩ : ∃ t : ℕ × LkThread, t.2.threadptr = current ∧
      Finds (whole m) behind heap (readLkThread di current true) { s with tar := tar } (some t)
        ⟨behindThread (whole m) behind di current true, s.nodes + 1⟩ :=
    readLkThread_finds_whole h.magic h.heap hactive
  refine ⟨t, ?_⟩
  rw [findLkThreads, Prog.run_bind (loadDebuginfo_finds h.info s)]
  dsimp only
  rw [Prog.run_bind hpointer]
  dsimp only
  rw [if_neg (not_not.mpr rfl), Prog.run_bind hread]
  dsimp only
  exact hptr ▸ rfl

/-- With the name of the current thread over the end of a page there is no walk. -/
theorem findLkThreads_hangs (h : Starts m behind heap s.nodes di current)
    (hname : ¬ KeepsToWords (ltName di current) (8 : ℕ)) (fuel : ℕ) :
    Hangs m behind heap (findLkThreads fuel) s := by
  let tar := touched (behind (m (infoPtrAt (whole m))) 5) di.currentThreadPtr
  have hpointer : Finds (whole m) behind heap (swdpAhbRead di.currentThreadPtr 0)
      { s with tar := behind (m (infoPtrAt (whole m))) 5 } (0, current) { s with tar := tar } := by
    rw [← h.pointer]
    exact readWord_finds _ _ _
  have hread : Hangs m behind heap (readLkThread di current true) { s with tar := tar } :=
    readLkThread_hangs h.magic h.heap (.inl hname)
  apply (loadDebuginfo_finds h.info s).hangs
  apply hpointer.hangs
  dsimp only
  rw [if_neg (not_not.mpr rfl)]
  exact hread.bind _

theorem findLkThreads_walks (h : Starts m behind heap s.nodes di current)
    (hname : KeepsToWords (ltName di current) (8 : ℕ)) : Returns m behind heap s ↔
      (atHead m behind di current s.nodes).Arrives m behind heap di current := by
  constructor
  · rintro ⟨fuel, list, s', hrun⟩
    obtain ⟨t, hstart⟩ := findLkThreads_starts h hname fuel
    -- the walk itself has come back
    rcases hwalk : (repeatPasses (findLkThreadsPass di current) fuel
        ((atHead m behind di current s.nodes).node, [])).run (memoryResponder (whole m) behind heap)
          (atHead m behind di current s.nodes).reader with _ | ⟨e | r, s''⟩
    · rw [Finds, hstart, Prog.run_bind_none hwalk] at hrun
      exact absurd hrun (by simp)
    · rw [Finds, hstart, Prog.run_bind_error hwalk] at hrun
      exact absurd (Prod.mk.inj (Option.some.inj hrun)).1 (by simp)
    · exact walk_arrives hwalk
  · rintro ⟨i, hend, hfree⟩
    obtain ⟨fuel, r, s', hwalk⟩ := walk_returns hend hfree []
    obtain ⟨t, hstart⟩ := findLkThreads_starts h hname fuel
    cases r with
    | none =>
      refine ⟨fuel, [], s', ?_⟩
      rw [Finds, hstart, Prog.run_bind hwalk]
      rfl
    | some list =>
      refine ⟨fuel, t :: list, s', ?_⟩
      rw [Finds, hstart, Prog.run_bind hwalk]
      rfl

/-- With no current thread to begin with the call comes back at once. -/
theorem findLkThreads_gives_up (h : ∀ di current, ¬ Starts m behind heap s.nodes di current) :
    Returns m behind heap s := by
  rcases loadDebuginfo_finds_whole m behind heap s with ⟨di, hdi⟩ | ⟨s', hnone⟩
  · let tar := touched (behind (m (infoPtrAt (whole m))) 5) di.currentThreadPtr
    have hpointer : Finds (whole m) behind heap (swdpAhbRead di.currentThreadPtr 0)
        { s with tar := behind (m (infoPtrAt (whole m))) 5 } (0, m tar) { s with tar := tar } :=
      readWord_finds _ _ _
    -- read for the last address, the pointer to it is no magic word
    have hbad : m (touched tar (m tar)) ≠ lkThreadMagic ∨ heap s.nodes = 0 := by
      by_contra hgood
      rw [not_or, not_not] at hgood
      have hlast : m tar ≠ 0xffffffff := by
        intro hlast
        have hmagic := hgood.1
        rw [touched, if_pos hlast, hlast] at hmagic
        exact absurd hmagic (by decide)
      have hmagic : HasMagic m (m tar) := ⟨hlast, by rw [← hgood.1, touched_of_ne tar hlast]⟩
      exact h di (m tar) ⟨hdi, rfl, hmagic, hgood.2⟩
    obtain ⟨s', hread⟩ : ∃ s', Finds (whole m) behind heap (readLkThread di (m tar) true)
        { s with tar := tar } none s' := readLkThread_finds_none di true hbad
    refine ⟨0, [], s', ?_⟩
    apply (loadDebuginfo_finds hdi s).bind
    apply hpointer.bind
    dsimp only
    rw [if_neg (not_not.mpr rfl)]
    apply hread.bind
    exact Finds.ret _ s'
  · refine ⟨0, [], s', ?_⟩
    apply hnone.bind
    exact Finds.ret _ s'

end

/-- On any memory the call comes back exactly if, where a walk begins, the name of the current
thread keeps to its page and the walk meets the head or a thread that cannot be taken before a
thread that overruns a page. -/
theorem findLkThreads_returns_iff (m : Word → Word) (behind : Word → ℕ → Word) (heap : ℕ → ℕ)
    (s : Reader) : Returns m behind heap s ↔
      ∀ di current, Starts m behind heap s.nodes di current →
        KeepsToWords (ltName di current) (8 : ℕ) ∧
          (atHead m behind di current s.nodes).Arrives m behind heap di current := by
  constructor
  · intro hreturns di current hstarts
    have hname : KeepsToWords (ltName di current) (8 : ℕ) := by
      by_contra hname
      obtain ⟨fuel, list, s', hrun⟩ := hreturns
      exact hrun.not_hangs (findLkThreads_hangs hstarts hname fuel)
    exact ⟨hname, (findLkThreads_walks hstarts hname).mp hreturns⟩
  · intro h
    by_cases hnone : ∀ di current, ¬ Starts m behind heap s.nodes di current
    · exact findLkThreads_gives_up hnone
    · rw [not_forall] at hnone
      obtain ⟨di, hdi⟩ := hnone
      rw [not_forall] at hdi
      obtain ⟨current, hstarts⟩ := hdi
      obtain ⟨hname, harrives⟩ := h di current (not_not.mp hstarts)
      exact (findLkThreads_walks (not_not.mp hstarts) hname).mpr harrives

/-- The kernel of two threads with the list's head led to the current thread, and that one
led to itself. -/
def loopedThreads : Word → Word := fun addr =>
  if addr = 0x308 then 0x304 else twoThreads.word addr

/-- At every node the walk looks at, the link leads to the current thread. -/
theorem looped_next (i : ℕ) : ((Stand.go loopedThreads wordAddr twoInfo 0x300)^[i]
    (atHead loopedThreads wordAddr twoInfo 0x300 0)).next loopedThreads = 0x304 := by
  induction i with
  | zero => decide
  | succ i ih =>
    rw [Function.iterate_succ_apply']
    have hnode : (Stand.go loopedThreads wordAddr twoInfo 0x300
        ((Stand.go loopedThreads wordAddr twoInfo 0x300)^[i]
          (atHead loopedThreads wordAddr twoInfo 0x300 0))).node = 0x304 := ih
    rw [Stand.next, Stand.nextAt, hnode,
      touched_of_ne _ (by decide : (0x304 : Word) + listOffNext ≠ 0xffffffff)]
    decide

theorem looped_starts : Starts loopedThreads wordAddr (· + 1) 0 twoInfo 0x300 where
  info := ⟨by decide, rfl, by decide, fun _ _ => rfl, by decide, by decide⟩
  pointer := by decide
  magic := by decide
  heap := by decide

/-- Round the current thread the call goes for ever. -/
theorem looped_never_returns : ¬ Returns loopedThreads wordAddr (· + 1) ⟨0, 0⟩ := by
  intro hreturns
  have hname : KeepsToWords (ltName twoInfo 0x300) (8 : ℕ) := .inl (by decide)
  obtain ⟨i, hend, _⟩ := (findLkThreads_walks (s := ⟨0, 0⟩) looped_starts hname).mp hreturns
  have hthread : ((Stand.go loopedThreads wordAddr twoInfo 0x300)^[i]
      (atHead loopedThreads wordAddr twoInfo 0x300 0)).thread loopedThreads twoInfo = 0x300 := by
    rw [Stand.thread, looped_next]
    decide
  rcases hend with hhead | hother
  · rw [looped_next] at hhead
    exact absurd hhead (by decide)
  · exact hother.1 hthread

end M3Dev.Lk
