import M3Dev.LinkedRing
import M3Dev.LkMemory

/-! `find_lk_threads`: the walk round the kernel's list of threads. -/
namespace M3Dev.Lk
open CallTree WhileLoop Tools WordBlock LinkedRing

/-- The vector table, where its register can be read. -/
def Memory.vectors (mem : Memory) : Word := (mem 0xE000ED08).getD 0

/-- The debug info behind the vector table. -/
structure DebugInfoAt (mem : Memory) (di : LkDebugInfo) : Prop where
  magic : mem.read (diOffMagic + mem.vectors) = some diMagic
  block : ∃ p, mem.read (diOffPtr + mem.vectors) = some p ∧ p &&& 3 = 0 ∧ mem.Words p 5 ∧
    LkDebugInfo.ofWords (mem.frame p) = di
  version : di.version = 0x0100

/-- Where a list node leads to. -/
def Memory.next (mem : Memory) (node : Word) : Option Word := mem.read (node + listOffNext)

/-- A kernel with these nodes on its thread list. The current thread need not be on it,
and has no saved frame. -/
structure KernelAt (mem : Memory) (di : LkDebugInfo) (nodes : List Word) (current : Word) :
    Prop where
  info : DebugInfoAt mem di
  pointer : mem.read di.currentThreadPtr = some current
  running : ThreadAt mem di current
  ring : Ring mem.next di.threadListPtr nodes
  thread : ∀ n ∈ nodes, ThreadAt mem di (listToThread di n)
  frame : ∀ n ∈ nodes, listToThread di n ≠ current →
    FrameAt mem (mem.word (ltSavedSp di (listToThread di n)))

/-- The threads on the list that are not running. -/
def waiting (di : LkDebugInfo) (nodes : List Word) (current : Word) : List Word :=
  (nodes.map (listToThread di)).filter (· ≠ current)

/-- Where the two words behind the vector table are read. -/
def magicAt (mem : Memory) : Word := touched 0xE000ED08 (diOffMagic + mem.vectors)
def infoPtrAt (mem : Memory) : Word := touched (magicAt mem) (diOffPtr + mem.vectors)

/-- What `load_debuginfo` needs: there is a word wherever it reads. -/
structure InfoRead (mem : Memory) (di : LkDebugInfo) (p : Word) : Prop where
  magic : mem (magicAt mem) = some diMagic
  pointer : mem (infoPtrAt mem) = some p
  aligned : p &&& 3 = 0
  words : mem.Words p 5
  info : LkDebugInfo.ofWords (mem.frame p) = di
  version : di.version = 0x0100

section
variable {mem : Memory} {behind : Word → ℕ → Word} {heap : ℕ → ℕ} {di : LkDebugInfo}
  {nodes : List Word} {current : Word}

theorem ofWords_congr {w w' : ℕ → Word} (h : ∀ i < 5, w i = w' i) :
    LkDebugInfo.ofWords w = LkDebugInfo.ofWords w' := by
  rw [LkDebugInfo.ofWords, h 0 (by decide), h 1 (by decide), h 2 (by decide), h 3 (by decide),
    h 4 (by decide), LkDebugInfo.ofWords]

theorem DebugInfoAt.reads (h : DebugInfoAt mem di) : ∃ p, InfoRead mem di p := by
  obtain ⟨p, hptr, haligned, hwords, hinfo⟩ := h.block
  obtain ⟨hmagic, hmagic'⟩ := read_eq_some.mp h.magic
  obtain ⟨hptr, hptr'⟩ := read_eq_some.mp hptr
  refine ⟨p, ?_, ?_, haligned, hwords, hinfo, h.version⟩
  · rw [magicAt, touched_of_ne _ hmagic]
    exact hmagic'
  · rw [infoPtrAt, touched_of_ne _ hptr]
    exact hptr'

/-- A multiple of four, as `load_debuginfo` makes sure. -/
theorem readable_of_aligned {p : Word} (h : p &&& 3 = 0) {n : ℕ} (hwords : mem.Words p n) :
    mem.Readable p n := by
  have hmod : p.toNat % 4 = 0 := by
    have hand := congrArg BitVec.toNat h
    rw [BitVec.toNat_and] at hand
    have hpow : p.toNat &&& (3 : Word).toNat = p.toNat % 4 := Nat.and_two_pow_sub_one_eq_mod p.toNat 2
    rw [hpow] at hand
    exact hand
  exact ⟨hwords, .inl hmod⟩

theorem loadDebuginfo_finds {p : Word} (h : InfoRead mem di p) (s : Reader) :
    Finds mem behind heap loadDebuginfo s (some di) { s with tar := behind p 5 } := by
  have hdi : LkDebugInfo.ofWords (mem.fill p 5 fun _ => 0) = di := by
    rw [← h.info]
    exact ofWords_congr fun i hi => fill_of_lt hi _
  have hat : touched s.tar 0xE000ED08 = 0xE000ED08 := touched_of_ne s.tar (by decide)
  have hvectors : ∃ rc x, Finds mem behind heap (swdpAhbRead 0xE000ED08 0) s (rc, x)
      { s with tar := 0xE000ED08 } ∧ (if rc ≠ 0 then 0 else x) = mem.vectors := by
    cases hvtor : mem 0xE000ED08 with
    | some w =>
      refine ⟨0, w, ?_, ?_⟩
      · exact swdpAhbRead_finds (read_eq_some.mpr ⟨by decide, hvtor⟩) 0
      · rw [Memory.vectors, hvtor]
        rfl
    | none =>
      refine ⟨-1, 0, ?_, ?_⟩
      · have hanswer : memoryResponder mem behind heap (.exec [.read 0xE000ED08] fun _ => 0) s =
            some (statusAnswer (-1) fun _ => 0, { s with tar := 0xE000ED08 }) := by
          rw [memoryResponder, hat, hvtor]
        exact Prog.run_call hanswer _
      · rw [Memory.vectors, hvtor]
        rfl
  obtain ⟨rc, x, hvtor, hvtbl⟩ := hvectors
  apply hvtor.bind
  dsimp only
  rw [hvtbl]
  apply (swdpAhbRead_touched h.magic 0).bind
  dsimp only
  rw [if_neg (not_not.mpr rfl), if_neg (not_not.mpr rfl)]
  apply (swdpAhbRead_touched h.pointer _).bind
  dsimp only
  rw [if_neg (not_not.mpr rfl), if_neg (not_not.mpr h.aligned)]
  apply (swdpAhbRead32_finds (by decide) (readable_of_aligned h.aligned h.words) _).bind
  dsimp only
  rw [if_neg (not_not.mpr rfl), hdi, if_neg (not_not.mpr h.version)]
  exact Finds.ret _ _

/-! ### The walk -/

theorem readNext_finds {node n : Word} {s : Reader} (h : mem.next node = some n) (old : Word) :
    Finds mem behind heap (swdpAhbRead (node + listOffNext) old) s (0, n)
      { s with tar := node + listOffNext } :=
  swdpAhbRead_finds (show mem.read (node + listOffNext) = some n from h) old

/-- The pass that comes back to the head. -/
theorem findLkThreadsPass_last {node : Word} (h : mem.next node = some di.threadListPtr)
    (found : ThreadList) (s : Reader) :
    Finds mem behind heap (findLkThreadsPass di current (node, found)) s (.exit (some found))
      { s with tar := node + listOffNext } := by
  apply (readNext_finds h _).bind
  dsimp only
  rw [if_neg (not_not.mpr rfl), if_pos rfl]
  exact Finds.ret _ _

/-- The thread that runs is passed over. -/
theorem findLkThreadsPass_current {node n : Word} (h : mem.next node = some n)
    (hhead : n ≠ di.threadListPtr) (hcurrent : listToThread di n = current) (found : ThreadList)
    (s : Reader) :
    Finds mem behind heap (findLkThreadsPass di current (node, found)) s (.next (n, found))
      { s with tar := node + listOffNext } := by
  apply (readNext_finds h _).bind
  dsimp only
  rw [if_neg (not_not.mpr rfl), if_neg hhead, if_pos hcurrent.symm]
  exact Finds.ret _ _

theorem findLkThreadsPass_thread {node n : Word} {s : Reader} (h : mem.next node = some n)
    (hhead : n ≠ di.threadListPtr) (hcurrent : listToThread di n ≠ current)
    (hheap : heap s.nodes ≠ 0) (hthread : ThreadAt mem di (listToThread di n))
    (hframe : FrameAt mem (savedSpOf mem di (listToThread di n))) (found : ThreadList) :
    Finds mem behind heap (findLkThreadsPass di current (node, found)) s
      (.next (n, (heap s.nodes, threadOf mem di (listToThread di n) false) :: found))
      ⟨behindThread mem behind di (listToThread di n) false, s.nodes + 1⟩ := by
  apply (readNext_finds h _).bind
  dsimp only
  rw [if_neg (not_not.mpr rfl), if_neg hhead, if_neg (Ne.symm hcurrent)]
  have hread : Finds mem behind heap (readLkThread di (listToThread di n) false)
      { s with tar := node + listOffNext } _ _ :=
    readLkThread_finds hheap hthread.reads fun _ => hframe
  apply hread.bind
  exact Finds.ret _ _

theorem repeatPasses_next {α β : Type} {body : α → HostProg (Pass α β)} {a a' : α} {r : β}
    {s s' s'' : Reader} {fuel : ℕ} (h : Finds mem behind heap (body a) s (.next a') s')
    (hrest : Finds mem behind heap (repeatPasses body fuel a') s' r s'') :
    Finds mem behind heap (repeatPasses body (fuel + 1) a) s r s'' := h.bind hrest

theorem repeatPasses_exit {α β : Type} {body : α → HostProg (Pass α β)} {a : α} {r : β}
    {s s' : Reader} (h : Finds mem behind heap (body a) s (.exit r) s') (fuel : ℕ) :
    Finds mem behind heap (repeatPasses body (fuel + 1) a) s r s' := h.bind (Finds.ret r s')

/-- From any node on, the threads behind it are put in front of those found so far, the last
one first. -/
theorem walk_finds (hheap : ∀ k, heap k ≠ 0) {a : Word} {ns : List Word}
    (hlinked : Linked mem.next a ns di.threadListPtr) (hhead : ∀ n ∈ ns, n ≠ di.threadListPtr)
    (hthread : ∀ n ∈ ns, ThreadAt mem di (listToThread di n))
    (hframe : ∀ n ∈ ns, listToThread di n ≠ current →
      FrameAt mem (savedSpOf mem di (listToThread di n))) (found : ThreadList) (s : Reader) :
    ∃ list s', list.map Prod.snd =
        ((waiting di ns current).map (fun tp => threadOf mem di tp false)).reverse ∧
      ∀ fuel > ns.length, Finds mem behind heap
        (repeatPasses (findLkThreadsPass di current) fuel (a, found)) s (some (list ++ found)) s' := by
  -- on the nodes to come, with what was found and where TAR is left
  induction ns generalizing a found s with
  | nil =>
    refine ⟨[], { s with tar := a + listOffNext }, rfl, ?_⟩
    intro fuel hfuel
    obtain ⟨fuel, rfl⟩ : ∃ f, fuel = f + 1 := ⟨fuel - 1, by omega⟩
    exact repeatPasses_exit (findLkThreadsPass_last hlinked found s) fuel
  | cons n ns ih =>
    have hne := hhead n List.mem_cons_self
    have hrest := ih hlinked.2 (fun m hm => hhead m (List.mem_cons_of_mem _ hm))
      (fun m hm => hthread m (List.mem_cons_of_mem _ hm))
      (fun m hm => hframe m (List.mem_cons_of_mem _ hm))
    by_cases hcurrent : listToThread di n = current
    · -- nothing is found here
      obtain ⟨list, s', hlist, hrun⟩ := hrest found { s with tar := a + listOffNext }
      have hsame : waiting di (n :: ns) current = waiting di ns current := by
        simp [waiting, hcurrent]
      refine ⟨list, s', ?_, ?_⟩
      · rw [hlist, hsame]
      · intro fuel hfuel
        rw [List.length_cons] at hfuel
        obtain ⟨fuel, rfl⟩ : ∃ f, fuel = f + 1 := ⟨fuel - 1, by omega⟩
        apply repeatPasses_next (findLkThreadsPass_current hlinked.1 hne hcurrent found s)
        exact hrun fuel (by omega)
    · -- found after those before it, listed in front of them
      let t := (heap s.nodes, threadOf mem di (listToThread di n) false)
      have hpass : Finds mem behind heap (findLkThreadsPass di current (a, found)) s
          (.next (n, t :: found)) _ :=
        findLkThreadsPass_thread hlinked.1 hne hcurrent (hheap s.nodes)
          (hthread n List.mem_cons_self) (hframe n List.mem_cons_self hcurrent) found
      obtain ⟨list, s', hlist, hrun⟩ := hrest (t :: found)
        ⟨behindThread mem behind di (listToThread di n) false, s.nodes + 1⟩
      have hmore : waiting di (n :: ns) current = listToThread di n :: waiting di ns current := by
        simp [waiting, hcurrent]
      refine ⟨list ++ [t], s', ?_, ?_⟩
      · rw [List.map_append, hlist, hmore]
        exact List.reverse_cons.symm
      · intro fuel hfuel
        rw [List.length_cons] at hfuel
        obtain ⟨fuel, rfl⟩ : ∃ f, fuel = f + 1 := ⟨fuel - 1, by omega⟩
        rw [List.append_assoc]
        exact repeatPasses_next hpass (hrun fuel (by omega))

/-- The walk round the whole list: the current thread, and behind it the others. -/
theorem findLkThreads_finds (hheap : ∀ k, heap k ≠ 0) (h : KernelAt mem di nodes current) (s : Reader) :
    ∃ list s', list.map Prod.snd =
        ((waiting di nodes current).map (fun tp => threadOf mem di tp false)).reverse ∧
      ∀ fuel > nodes.length, Finds mem behind heap (findLkThreads fuel) s
        ((heap s.nodes, threadOf mem di current true) :: list) s' := by
  obtain ⟨p, hinfo⟩ := h.info.reads
  have hframe : ∀ n ∈ nodes, listToThread di n ≠ current →
      FrameAt mem (savedSpOf mem di (listToThread di n)) := by
    intro n hn hne
    rw [(h.thread n hn).savedSpOf]
    exact h.frame n hn hne
  obtain ⟨list, s', hlist, hwalk⟩ := walk_finds hheap h.ring.linked
    (fun n hn => h.ring.head_ne hn) h.thread hframe []
    ⟨behindThread mem behind di current true, s.nodes + 1⟩
  refine ⟨list, s', hlist, ?_⟩
  intro fuel hfuel
  have hread : Finds mem behind heap (readLkThread di current true) ⟨di.currentThreadPtr, s.nodes⟩
      (some (heap s.nodes, threadOf mem di current true)) _ :=
    readLkThread_finds (hheap s.nodes) h.running.reads fun hfalse => absurd hfalse (by decide)
  have hend := hwalk fuel hfuel
  rw [List.append_nil] at hend
  apply (loadDebuginfo_finds hinfo s).bind
  apply (swdpAhbRead_finds h.pointer 0).bind
  dsimp only
  rw [if_neg (not_not.mpr rfl)]
  apply hread.bind
  apply hend.bind
  exact Finds.ret _ s'

/-! ### Registers -/

/-- The registers are those of the saved frame at `sp`, and their `sp` is just past it. -/
structure ShowsFrame (mem : Memory) (sp : Word) (regs : List Word) : Prop where
  length : regs.length = 17
  r4To11 : ∀ i < 8, regs[4 + i]? = mem (wordAddr sp i)
  short : isExceptionFrame (mem.frame sp) = false →
    regs[13]? = some (wordAddr sp 9) ∧ regs[15]? = mem (wordAddr sp 8)
  long : isExceptionFrame (mem.frame sp) = true →
    (∀ i < 4, regs[i]? = mem (wordAddr sp (9 + i))) ∧ regs[12]? = mem (wordAddr sp 13) ∧
      regs[13]? = some (wordAddr sp 17) ∧ regs[14]? = mem (wordAddr sp 14) ∧
      regs[15]? = mem (wordAddr sp 15) ∧ regs[16]? = mem (wordAddr sp 16)

theorem some_frame {sp : Word} {n i : ℕ} (h : mem.Readable sp n) (hi : i < n) :
    some (mem.frame sp i) = mem (wordAddr sp i) := by
  obtain ⟨w, hw⟩ := Option.isSome_iff_exists.mp (h.words i hi)
  rw [Memory.frame, Memory.word, hw]
  rfl

theorem longFrameRegs_saved (sp : Word) (fr ex : ℕ → Word) {i : ℕ} (hi : i < 8) :
    (longFrameRegs sp fr ex)[4 + i]? = some (fr i) := by
  interval_cases i <;> rfl

theorem shortFrameRegs_saved (sp : Word) (fr : ℕ → Word) {i : ℕ} (hi : i < 8) :
    (shortFrameRegs sp fr)[4 + i]? = some (fr i) := by
  interval_cases i <;> rfl

theorem longFrameRegs_scratch (sp : Word) (fr ex : ℕ → Word) {i : ℕ} (hi : i < 4) :
    (longFrameRegs sp fr ex)[i]? = some (ex i) := by
  interval_cases i <;> rfl

theorem savedRegs_shows {sp : Word} (h : FrameAt mem sp) : ShowsFrame mem sp (savedRegs mem sp) := by
  cases hkind : isExceptionFrame (mem.frame sp) with
  | false =>
    have hregs : savedRegs mem sp = shortFrameRegs sp (mem.frame sp) := by
      rw [savedRegs, hkind]
      rfl
    refine ⟨?_, ?_, ?_, fun hlong => absurd (hkind.symm.trans hlong) (by decide)⟩
    · rw [hregs]
      rfl
    · intro i hi
      rw [hregs, shortFrameRegs_saved _ _ hi]
      exact some_frame h.short (by omega)
    · intro _
      rw [hregs]
      exact ⟨rfl, some_frame h.short (by decide)⟩
  | true =>
    have hregs : savedRegs mem sp = longFrameRegs sp (mem.frame sp) (mem.frame (wordAddr sp 9)) := by
      rw [savedRegs, hkind]
      rfl
    have hpast : ∀ i < 8, some (mem.frame (wordAddr sp 9) i) = mem (wordAddr sp (9 + i)) := by
      intro i hi
      rw [some_frame (h.long hkind) hi, wordAddr_add]
    refine ⟨?_, ?_, fun hshort => absurd (hkind.symm.trans hshort) (by decide), ?_⟩
    · rw [hregs]
      rfl
    · intro i hi
      rw [hregs, longFrameRegs_saved _ _ _ hi]
      exact some_frame h.short (by omega)
    · intro _
      rw [hregs]
      refine ⟨?_, hpast 4 (by decide), rfl, hpast 5 (by decide), hpast 6 (by decide),
        hpast 7 (by decide)⟩
      intro i hi
      rw [longFrameRegs_scratch _ _ _ hi]
      exact hpast i (by omega)

/-! ### The list -/

/-- The current thread comes first, and is the active one; behind it is every other thread
on the kernel's list, once, with the registers of its saved frame. -/
structure Shows (mem : Memory) (di : LkDebugInfo) (nodes : List Word) (current : Word)
    (list : ThreadList) : Prop where
  first : ∃ t rest, list = t :: rest ∧ t.2.threadptr = current ∧ t.2.active = true
  once : ((list.tail).map fun t => t.2.threadptr).Nodup
  others : ∀ tp, tp ∈ list.tail.map (fun t => t.2.threadptr) ↔
    tp ≠ current ∧ ∃ n ∈ nodes, listToThread di n = tp
  saved : ∀ t ∈ list.tail, t.2.active = false ∧
    ∃ sp, mem (ltSavedSp di t.2.threadptr) = some sp ∧ ShowsFrame mem sp t.2.regs

theorem listToThread_injective (di : LkDebugInfo) : Function.Injective (listToThread di) := by
  intro m n h
  have hback : ∀ x : Word, listToThread di x + di.offListNode.setWidth 32 = x :=
    fun x => BitVec.sub_add_cancel _ _
  rw [← hback m, h, hback n]

theorem waiting_nodup (h : nodes.Nodup) : (waiting di nodes current).Nodup :=
  (h.map (listToThread_injective di)).filter _

theorem mem_waiting {tp : Word} :
    tp ∈ waiting di nodes current ↔ tp ≠ current ∧ ∃ n ∈ nodes, listToThread di n = tp := by
  simp only [waiting, List.mem_filter, List.mem_map, decide_eq_true_eq]
  exact and_comm

/-- For every kernel, given enough passes, the list shows its threads. -/
theorem findLkThreads_shows (hheap : ∀ k, heap k ≠ 0) (h : KernelAt mem di nodes current) (s : Reader) :
    ∃ list s', Shows mem di nodes current list ∧
      ∀ fuel > nodes.length, Finds mem behind heap (findLkThreads fuel) s list s' := by
  obtain ⟨rest, s', hrest, hrun⟩ := findLkThreads_finds hheap h s
  have hptrs : rest.map (fun t => t.2.threadptr) = (waiting di nodes current).reverse := by
    calc rest.map (fun t => t.2.threadptr)
        = (rest.map Prod.snd).map LkThread.threadptr := by rw [List.map_map]; rfl
      _ = ((waiting di nodes current).map fun tp => (threadOf mem di tp false).threadptr).reverse := by
          rw [hrest, List.map_reverse, List.map_map]
          rfl
      _ = (waiting di nodes current).reverse := congrArg List.reverse (List.map_id _)
  refine ⟨_, s', ⟨⟨_, rest, rfl, rfl, rfl⟩, ?_, ?_, ?_⟩, hrun⟩
  · rw [List.tail_cons, hptrs]
    exact List.nodup_reverse.mpr (waiting_nodup h.ring.nodup)
  · intro tp
    rw [List.tail_cons, hptrs, List.mem_reverse]
    exact mem_waiting
  · intro t ht
    rw [List.tail_cons] at ht
    -- it was read off the list
    have hmem : t.2 ∈ (waiting di nodes current).map (fun tp => threadOf mem di tp false) := by
      rw [← List.mem_reverse, ← hrest]
      exact List.mem_map_of_mem ht
    obtain ⟨tp, htp, heq⟩ := List.mem_map.mp hmem
    obtain ⟨hne, n, hn, rfl⟩ := mem_waiting.mp htp
    rw [← heq]
    have hsaved := (h.thread n hn).savedSpOf
    refine ⟨rfl, mem.word (ltSavedSp di (listToThread di n)), ?_, ?_⟩
    · obtain ⟨sp, hsp⟩ := Option.isSome_iff_exists.mp (h.thread n hn).savedSp
      obtain ⟨_, hword⟩ := read_eq_some.mp hsp
      show mem (ltSavedSp di (listToThread di n)) = _
      rw [word_of_some hword]
      exact hword
    · show ShowsFrame mem _ (savedRegs mem (savedSpOf mem di (listToThread di n)))
      rw [hsaved]
      exact savedRegs_shows (h.frame n hn hne)

end

/-! ### A kernel with two threads -/

def twoInfo : LkDebugInfo where
  version := 0x0100
  threadListPtr := 0x200
  currentThreadPtr := 0x210
  offListNode := 4
  offState := 12
  offSavedSp := 16
  offName := 24
  offWaitq := 20

/-- The current thread at `300`, and one that was interrupted at `400`; words not given are 0. -/
def twoThreads : Memory := fun addr =>
  some <| match addr.toNat with
    | 0x020 => diMagic
    | 0x024 => 0x100
    | 0x100 => 0x0100
    | 0x104 => 0x200
    | 0x108 => 0x210
    | 0x10c => 0x00100c04
    | 0x110 => 0x00001418
    | 0x204 => 0x304
    | 0x210 => 0x300
    | 0x300 => lkThreadMagic
    | 0x308 => 0x404
    | 0x400 => lkThreadMagic
    | 0x408 => 0x200
    | 0x410 => 0x500
    | 0x520 => 0xfffffffd
    | 0x53c => 0x8000abcc
    | _ => 0

theorem twoThreads_read {addr : Word} (h : addr ≠ 0xffffffff) :
    (twoThreads.read addr).isSome = true := by
  rw [Memory.read, if_neg h]
  rfl

theorem twoThreads_readable {addr : Word} (h : addr.toNat % 4 = 0) (n : ℕ) :
    twoThreads.Readable addr n := ⟨fun _ _ => rfl, .inl h⟩

theorem twoThreads_kernelAt : KernelAt twoThreads twoInfo [0x304, 0x404] 0x300 where
  info := ⟨by decide, ⟨0x100, by decide, by decide, fun _ _ => rfl, by decide⟩, by decide⟩
  pointer := by decide
  running := ⟨by decide, twoThreads_read (by decide), twoThreads_read (by decide),
    twoThreads_read (by decide), twoThreads_read (by decide), twoThreads_readable (by decide) 8⟩
  ring := ⟨⟨by decide, by decide, (by decide : twoThreads.next 0x404 = some 0x200)⟩, by decide⟩
  thread n hn := by
    simp only [List.mem_cons, List.not_mem_nil, or_false] at hn
    rcases hn with rfl | rfl
    all_goals exact ⟨by decide, twoThreads_read (by decide), twoThreads_read (by decide),
      twoThreads_read (by decide), twoThreads_read (by decide), twoThreads_readable (by decide) 8⟩
  frame n hn _ := by
    simp only [List.mem_cons, List.not_mem_nil, or_false] at hn
    rcases hn with rfl | rfl
    all_goals exact ⟨twoThreads_readable (by decide) 9, fun _ => twoThreads_readable (by decide) 8⟩

theorem findLkThreads_shows_two :
    ∃ list s', Shows twoThreads twoInfo [0x304, 0x404] 0x300 list ∧
      ∀ fuel > 2, Finds twoThreads (fun a n => wordAddr a n) (· + 1) (findLkThreads fuel)
        ⟨0, 0⟩ list s' :=
  findLkThreads_shows (fun k => Nat.succ_ne_zero k) twoThreads_kernelAt ⟨0, 0⟩

end M3Dev.Lk
