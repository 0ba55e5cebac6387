import M3Dev.CoreRegisters
import M3Dev.EventSystem
import M3Dev.GdbAnswers
import M3Dev.GdbHexData
import M3Dev.GdbReadMemory

/-! Runs of `g`, `G`, `p` and `P` packets, with any selections between them: the registers read
are those that were written, as long as no number written is taken for another one's. -/
namespace M3Dev.Gdb
open CallTree Tools Lk ByteBlock EventSystem

/-! ### Packets -/

/-- A packet in the buffer, and what is on the stack when it is handled. -/
structure Incoming where
  frame : ℕ → Word
  rxbuf : ℕ → Byte

/-- The registers a packet is to write, by their numbers, and the words. -/
def regWrites (rxbuf : ℕ → Byte) : List (ℕ × Word) :=
  let body := cstr rxbuf 1
  match letter (rxbuf 0) with
  | .writeRegs =>
    let data := hexBytes body
    (List.range (data.length / 4)).map fun n => (n, wordsAt data n)
  | .writeReg =>
    let number := body.takeWhile (fun c => c ≠ 0x3d)
    let data := hexBytes ((body.dropWhile (fun c => c ≠ 0x3d)).drop 1)
    if data.length = 4 then [((strtoul number).toNat, wordsAt data 0)] else []
  | _ => []

/-- A register file after some writes; `f` is the register a number stands for. -/
def regsAfter {ι : Type} [DecidableEq ι] (f : ℕ → ι) (reg : ι → Word) (ws : List (ℕ × Word)) :
    ι → Word :=
  ws.foldl (fun reg w => Function.update reg (f w.1) w.2) reg

/-- The selector of a register number. -/
abbrev selector (n : ℕ) : BitVec 5 := BitVec.ofNat 5 n

theorem regsAfter_of_ne {asked : ℕ → Word} {ws : List (ℕ × Word)} {n : ℕ} (h : ∀ w ∈ ws, w.1 ≠ n) :
    regsAfter id asked ws n = asked n := by
  induction ws generalizing asked with
  | nil => rfl
  | cons w ws ih =>
    have hrest := @ih (Function.update asked w.1 w.2) fun v hv => h v (List.mem_cons_of_mem w hv)
    have hne : n ≠ w.1 := fun heq => h w List.mem_cons_self heq.symm
    exact hrest.trans (Function.update_of_ne hne _ _)

/-- A number whose selector is that of no other register of the first nineteen. -/
def Distinct (n : ℕ) : Prop := n < 19 ∨ 19 ≤ n % 32

theorem Distinct.eq_of_selector {m n : ℕ} (hm : Distinct m) (hn : n < 19)
    (h : selector m = selector n) : m = n := by
  have hnat := congrArg BitVec.toNat h
  rw [BitVec.toNat_ofNat, BitVec.toNat_ofNat] at hnat
  unfold Distinct at hm
  omega

/-- What is written under distinct numbers is where it should be. -/
theorem regsAfter_selector {reg : BitVec 5 → Word} {asked : ℕ → Word} {ws : List (ℕ × Word)}
    (hws : ∀ w ∈ ws, Distinct w.1) (h : ∀ n < 19, reg (selector n) = asked n) {n : ℕ} (hn : n < 19) :
    regsAfter selector reg ws (selector n) = regsAfter id asked ws n := by
  induction ws generalizing reg asked with
  | nil => exact h n hn
  | cons w ws ih =>
    apply ih (fun v hv => hws v (List.mem_cons_of_mem w hv))
    intro k hk
    show Function.update reg (selector w.1) w.2 (selector k) = Function.update asked w.1 w.2 k
    by_cases heq : k = w.1
    · rw [heq, Function.update_self, Function.update_self]
    · have hsel : selector k ≠ selector w.1 := fun hsel =>
        heq ((hws w List.mem_cons_self).eq_of_selector hk hsel.symm).symm
      rw [Function.update_of_ne hsel, Function.update_of_ne heq, h k hk]

/-! ### Threads -/

/-- The selected thread, if it is not the active one. -/
def inactive (gc : Conn) : Option LkThread :=
  match gc.rest.threadlist.find? (fun t => t.1 == gc.rest.gselected) with
  | some t => if gc.rest.gselected = 0 ∨ t.2.active then none else some t.2
  | none => none

theorem inactiveSelected_eq {gc : Conn} (h : Selected gc (Selection.general.of gc)) :
    inactiveSelected gc = .ret (inactive gc) := by
  unfold inactiveSelected inactive derefThread
  by_cases hzero : gc.rest.gselected = 0
  · rw [if_pos hzero]
    split
    · rw [if_pos (.inl hzero)]
      rfl
    · rfl
  · rw [if_neg hzero]
    cases hfound : gc.rest.threadlist.find? (fun t => t.1 == gc.rest.gselected) with
    | some t =>
      simp only [Prog.pure_eq, Prog.ret_bind]
      by_cases hactive : t.2.active = true
      · rw [if_pos hactive, if_pos (.inr hactive)]
      · rw [if_neg hactive, if_neg (by simp [hzero, hactive])]
    | none =>
      -- what is selected is in the list
      rcases h with h0 | ⟨t, ht, hp⟩
      · exact absurd h0 hzero
      · exact absurd (beq_iff_eq.mpr hp) (List.find?_eq_none.mp hfound t ht)

/-! ### Replies -/

/-- A short reply is sent, and nothing else happens. -/
theorem core_reply (gc : Conn) {bs : List Byte} (hlen : bs.length ≤ 8186) (c : CoreFile)
    (sent : List (List Byte)) :
    ∃ gc', Kept gc gc' ∧ (epilogue (putBytes (gdbPrologue gc) bs)).run coreResponder (c, sent) =
      some (.ok gc', (c, sent ++ [framed bs])) := by
  have hkept : Kept gc (putBytes (gdbPrologue gc) bs) :=
    Kept.put (Kept.of_eq rfl rfl : Kept gc (gdbPrologue gc)) bs
  refine ⟨_, hkept.trans (gdbEpilogue_kept [] _), ?_⟩
  have hputs : gdbPuts (gdbPrologue gc) bs = putBytes (gdbPrologue gc) bs := rfl
  rw [← hputs, epilogue_puts gc hlen]
  rfl

/-- A command whose body leaves a short reply is answered with it. -/
theorem handleCommand_reply {threads : ℕ} {frame : ℕ → Word} {rxbuf rxbuf' : ℕ → Byte} {gc gc1 : Conn}
    {c c' : CoreFile} {bs : List Byte} (hletter : ∀ step, letter (rxbuf 0) ≠ .resume step)
    (hlen : bs.length ≤ 8186)
    (hbody : (answerCommand threads frame (letter (rxbuf 0)) rxbuf (gdbPrologue gc)).run coreResponder
      (c, []) = some (.ok (rxbuf', putBytes (gdbPrologue gc1) bs), (c', []))) :
    ∃ gc', Kept gc1 gc' ∧ (handleCommand threads frame rxbuf gc).run coreResponder (c, []) =
      some (.ok (rxbuf', gc'), (c', [framed bs])) := by
  obtain ⟨gc', hkept, hrun⟩ := core_reply gc1 hlen c' []
  refine ⟨gc', hkept, ?_⟩
  rw [handleCommand_answered hletter, Prog.run_bind hbody, Prog.run_bind hrun]
  rfl

/-! ### The handlers -/

/-- The string behind the first character, in a buffer with a NUL. -/
theorem body_holdsAt {rxbuf : ℕ → Byte} (hnul : ∃ i < maxpkt, rxbuf i = 0)
    (hfirst : letter (rxbuf 0) ≠ .unknown) :
    HoldsAt rxbuf 1 (cstr rxbuf 1) ∧ 0 ∉ cstr rxbuf 1 ∧ (cstr rxbuf 1).length + 1 < maxpkt := by
  obtain ⟨i, hi, hzero⟩ := hnul
  have hshort : ∀ room j, j ≤ i → i < j + room → (cstrFrom rxbuf room j).length < room := by
    intro room
    induction room with
    | zero => omega
    | succ room ih =>
      intro j hji hij
      rw [cstrFrom]
      split
      · exact Nat.succ_pos room
      next hne =>
        have hlt : j ≠ i := fun heq => hne (heq ▸ hzero)
        have hrest := ih (j + 1) (by omega) (by omega)
        rw [List.length_cons]
        omega
  have hone : 1 ≤ i := by
    by_contra hlt
    obtain rfl : i = 0 := by omega
    rw [hzero] at hfirst
    exact absurd rfl hfirst
  have hlen : (cstr rxbuf 1).length < maxpkt - 1 := hshort (maxpkt - 1) 1 hone (by omega)
  obtain ⟨hat, hfree⟩ := cstrFrom_holdsAt rfl hlen
  exact ⟨hat, hfree, by omega⟩

/-- The words of decoded data. -/
theorem wordAt_decoded {rxbuf : ℕ → Byte} {bs : List Byte} {m n : ℕ}
    (h : (List.range m).map (fun i => rxbuf (0 + i)) = bs) (hn : 4 * n + 4 ≤ m) :
    wordAt rxbuf (n * 4) = wordsAt bs n := by
  apply leWord_congr
  intro k hk
  have hlt : 4 * n + k < ((List.range m).map fun i => rxbuf (0 + i)).length := by
    rw [List.length_map, List.length_range]
    omega
  rw [← h, List.getD_eq_getElem _ _ hlt, List.getElem_map, List.getElem_range]
  congr 1
  omega

theorem selector_ofNat (n : ℕ) : (BitVec.ofNat 32 n).setWidth 5 = selector n := by
  apply BitVec.eq_of_toNat_eq
  rw [BitVec.toNat_setWidth, BitVec.toNat_ofNat, BitVec.toNat_ofNat]
  omega

theorem writeRegsFrom_run (rxbuf : ℕ → Byte) (k n : ℕ) (c : CoreFile) (sent : List (List Byte)) :
    ∃ d, (writeRegsFrom rxbuf k n).run coreResponder (c, sent) = some (.ok (),
      ({ reg := regsAfter selector c.reg ((List.range' n k).map fun i => (i, wordAt rxbuf (i * 4))),
         dcrdr := d }, sent)) := by
  induction k generalizing n c with
  | zero => exact ⟨c.dcrdr, rfl⟩
  | succ k ih =>
    have hwrite := swdpCoreWrite_run (BitVec.ofNat 32 n) (wordAt rxbuf (n * 4)) c sent
    rw [selector_ofNat] at hwrite
    obtain ⟨d, hrest⟩ := ih (n + 1)
      { reg := Function.update c.reg (selector n) (wordAt rxbuf (n * 4)),
        dcrdr := wordAt rxbuf (n * 4) }
    refine ⟨d, ?_⟩
    rw [writeRegsFrom, Prog.run_bind hwrite, hrest]
    rfl

section
variable {gc : Conn} {rxbuf : ℕ → Byte} (hsel : Selected gc (Selection.general.of gc)) (c : CoreFile)

/-- The words of `g`. -/
def allRegs (gc : Conn) (c : CoreFile) : List Word :=
  (List.range 19).map fun n =>
    match inactive gc with
    | some t => t.regs.getD n 0
    | none => c.reg (selector n)

/-- The word of `p`. -/
def oneReg (gc : Conn) (c : CoreFile) (n : Word) : Word :=
  match inactive gc with
  | some t => if n > 16 then 0xeeeeeeee else t.regs.getD n.toNat 0
  | none => c.reg (selector n.toNat)

include hsel

theorem handleReadRegs_run (frame : ℕ → Word) :
    ∃ d, (handleReadRegs frame rxbuf (gdbPrologue gc)).run coreResponder (c, []) =
      some (.ok (rxbuf, putBytes (gdbPrologue gc) (((allRegs gc c).flatMap wordBytes).flatMap hex2)),
        ({ c with dcrdr := d }, [])) := by
  have hinactive : inactiveSelected (gdbPrologue gc) = .ret (inactive gc) := inactiveSelected_eq hsel
  rw [handleReadRegs, hinactive, Prog.ret_bind]
  unfold allRegs
  cases inactive gc with
  | some t =>
    refine ⟨c.dcrdr, ?_⟩
    dsimp only
    rw [puthex_eq_putBytes]
    rfl
  | none =>
    obtain ⟨regs, d, hrun, hregs⟩ := swdpCoreReadAll_run (fun i => frame (260 + i)) c []
    refine ⟨d, ?_⟩
    have hwords : (List.range 19).map regs = (List.range 19).map fun n => c.reg (selector n) :=
      List.map_congr_left fun n hn => hregs n (List.mem_range.mp hn)
    dsimp only
    rw [Prog.run_bind hrun, puthex_eq_putBytes, bytesOf, hwords]
    rfl

theorem handleReadReg_run (frame : ℕ → Word) :
    ∃ d, (handleReadReg frame rxbuf (gdbPrologue gc)).run coreResponder (c, []) =
      some (.ok (rxbuf, putBytes (gdbPrologue gc)
          ((wordBytes (oneReg gc c (strtoul (cstr rxbuf 1)))).flatMap hex2)),
        ({ c with dcrdr := d }, [])) := by
  have hinactive : inactiveSelected (gdbPrologue gc) = .ret (inactive gc) := inactiveSelected_eq hsel
  unfold handleReadReg oneReg
  rw [hinactive, Prog.ret_bind]
  cases inactive gc with
  | some t =>
    refine ⟨c.dcrdr, ?_⟩
    dsimp only
    rw [puthex_eq_putBytes]
    rfl
  | none =>
    obtain ⟨d, hrun⟩ := swdpCoreRead_run (strtoul (cstr rxbuf 1)) (frame 259) c []
    refine ⟨d, ?_⟩
    dsimp only
    rw [Prog.run_bind hrun, puthex_eq_putBytes, selector, BitVec.ofNat_toNat]
    rfl

/-- The packet is answered with `OK` and its registers are written, or nothing happens. -/
def RegsWritten (gc : Conn) (c : CoreFile) (rxbuf : ℕ → Byte) (bs : List Byte) (c' : CoreFile) : Prop :=
  (inactive gc = none ∧ bs = ascii "OK" ∧ c'.reg = regsAfter selector c.reg (regWrites rxbuf)) ∨
    (bs = [] ∧ c'.reg = c.reg)

theorem handleWriteRegs_run (hletter : letter (rxbuf 0) = .writeRegs)
    (hnul : ∃ i < maxpkt, rxbuf i = 0) :
    ∃ rxbuf' bs c', (handleWriteRegs rxbuf (gdbPrologue gc)).run coreResponder (c, []) =
        some (.ok (rxbuf', putBytes (gdbPrologue gc) bs), (c', [])) ∧
      RegsWritten gc c rxbuf bs c' := by
  have hinactive : inactiveSelected (gdbPrologue gc) = .ret (inactive gc) := inactiveSelected_eq hsel
  rw [handleWriteRegs, hinactive, Prog.ret_bind]
  cases hthread : inactive gc with
  | some t => exact ⟨rxbuf, [], c, rfl, .inr ⟨rfl, rfl⟩⟩
  | none =>
    obtain ⟨hat, hfree, hlen⟩ := body_holdsAt hnul (by rw [hletter]; decide)
    obtain ⟨rxbuf', hrun, hbytes, _⟩ := @hextobin_decodes _ _ _ _ hat hfree (Nat.zero_le _)
      maxpkt (by omega)
    have hcount : (cstr rxbuf 1).length / 2 = (hexBytes (cstr rxbuf 1)).length :=
      (hexBytes_length _).symm
    rw [hcount] at hrun hbytes
    obtain ⟨d, hwrites⟩ := writeRegsFrom_run rxbuf' ((hexBytes (cstr rxbuf 1)).length / 4) 0 c []
    have hwords : (List.range' 0 ((hexBytes (cstr rxbuf 1)).length / 4)).map
        (fun n => (n, wordAt rxbuf' (n * 4))) = regWrites rxbuf := by
      unfold regWrites
      rw [hletter, ← List.range_eq_range']
      apply List.map_congr_left
      intro n hn
      have hlt := List.mem_range.mp hn
      rw [wordAt_decoded hbytes (by omega)]
    rw [hwords] at hwrites
    refine ⟨rxbuf', ascii "OK", ⟨_, d⟩, ?_, .inl ⟨hthread, rfl, rfl⟩⟩
    dsimp only
    rw [hrun]
    dsimp only
    rw [Prog.run_bind hwrites]
    rfl

omit hsel in
/-- The two halves of a `P` packet's body. -/
theorem halves {name ds : List Byte} (h : 0x3d ∉ name) :
    (name ++ 0x3d :: ds).takeWhile (fun c => c ≠ 0x3d) = name ∧
      (name ++ 0x3d :: ds).dropWhile (fun c => c ≠ 0x3d) = 0x3d :: ds := by
  have hall : ∀ c ∈ name, decide (c ≠ 0x3d) = true := by
    intro c hc
    exact decide_eq_true fun heq => h (heq ▸ hc)
  constructor
  · rw [List.takeWhile_append_of_pos hall]
    exact List.append_nil name
  · rw [List.dropWhile_append_of_pos hall]
    rfl

omit hsel in
/-- The number is cut off at the equals sign, and the data decoded over it. -/
theorem writeReg_decoded (hletter : letter (rxbuf 0) = .writeReg) (hnul : ∃ i < maxpkt, rxbuf i = 0)
    (hequals : 0x3d ∈ cstr rxbuf 1) :
    ∃ eq name data rxbuf', strchr rxbuf 1 0x3d = some eq ∧
      cstr (Function.update rxbuf eq 0) 1 = name ∧
      hextobin (Function.update rxbuf eq 0) 0 (eq + 1) maxpkt = (rxbuf', data.length) ∧
      (List.range data.length).map (fun i => rxbuf' (0 + i)) = data ∧
      regWrites rxbuf = if data.length = 4 then [((strtoul name).toNat, wordsAt data 0)] else [] := by
  obtain ⟨hat, hfree, hlen⟩ := body_holdsAt hnul (by rw [hletter]; decide)
  obtain ⟨name, ds, hbody, hname⟩ := List.eq_append_cons_of_mem hequals
  obtain ⟨hleft, hright⟩ := @halves name ds hname
  rw [hbody] at hat hfree hlen
  rw [List.mem_append, not_or, List.mem_cons, not_or] at hfree
  rw [List.length_append, List.length_cons] at hlen
  have hcut := (hat.cut).cstr hfree.1 (by omega)
  have hdata := ((holdsAt_cons.mp hat.drop).2).update (j := 1 + name.length)
    (.inl (Nat.lt_succ_self _)) 0
  obtain ⟨rxbuf', hrun, hbytes, _⟩ := @hextobin_decodes _ _ _ _ hdata hfree.2.2
    (Nat.zero_le _) maxpkt (by omega)
  rw [← hexBytes_length] at hrun hbytes
  refine ⟨1 + name.length, name, hexBytes ds, rxbuf', ?_, hcut, hrun, hbytes, ?_⟩
  · rw [strchr, hbody, idxOf?_append hname]
    rfl
  · unfold regWrites
    rw [hletter, hbody]
    dsimp only
    rw [hleft, hright]
    rfl

theorem handleWriteReg_run (hletter : letter (rxbuf 0) = .writeReg)
    (hnul : ∃ i < maxpkt, rxbuf i = 0) :
    ∃ rxbuf' bs c', (handleWriteReg rxbuf (gdbPrologue gc)).run coreResponder (c, []) =
        some (.ok (rxbuf', putBytes (gdbPrologue gc) bs), (c', [])) ∧
      RegsWritten gc c rxbuf bs c' := by
  have hinactive : inactiveSelected (gdbPrologue gc) = .ret (inactive gc) := inactiveSelected_eq hsel
  rw [handleWriteReg, hinactive, Prog.ret_bind]
  cases hthread : inactive gc with
  | some t => exact ⟨rxbuf, [], c, rfl, .inr ⟨rfl, rfl⟩⟩
  | none =>
    by_cases hequals : 0x3d ∈ cstr rxbuf 1
    · obtain ⟨eq, name, data, rxbuf', hfound, hcut, hrun, hbytes, hwrites⟩ :=
        writeReg_decoded hletter hnul hequals
      by_cases hfour : data.length = 4
      · have hword := wordAt_decoded (n := 0) hbytes (by omega)
        rw [Nat.zero_mul] at hword
        have hcore := swdpCoreWrite_run (strtoul name) (wordsAt data 0) c []
        have hreg : Function.update c.reg ((strtoul name).setWidth 5) (wordsAt data 0) =
            regsAfter selector c.reg (regWrites rxbuf) := by
          rw [hwrites, if_pos hfour, ← BitVec.ofNat_toNat]
          rfl
        refine ⟨rxbuf', ascii "OK", ⟨regsAfter selector c.reg (regWrites rxbuf), wordsAt data 0⟩, ?_,
          .inl ⟨hthread, rfl, rfl⟩⟩
        rw [← hreg]
        simp only [hfound, hcut, hrun, hfour, hword, ne_eq, not_true_eq_false, ↓reduceIte,
          Prog.run_bind hcore]
        rfl
      · refine ⟨rxbuf', [], c, ?_, .inr ⟨rfl, rfl⟩⟩
        simp only [hfound, hrun, ne_eq, hfour, not_false_eq_true, ↓reduceIte]
        rfl
    · have hmissing : strchr rxbuf 1 0x3d = none := by
        rw [strchr, List.idxOf?_eq_none_iff.mpr hequals]
        rfl
      refine ⟨rxbuf, [], c, ?_, .inr ⟨rfl, rfl⟩⟩
      simp only [hmissing]
      rfl

end

/-! ### Runs -/

/-- The bridge at a halted core. `asked` tells of each register number the word that was last written
to it by a packet that was answered with `OK`. -/
structure RegStation where
  gc : Conn
  core : CoreFile
  asked : ℕ → Word

/-- What a packet comes to, and the packets sent for it. -/
def handled (threads : ℕ) (s : RegStation) (e : Incoming) :
    Option (Conn × CoreFile × List (List Byte)) :=
  match (handleCommand threads e.frame e.rxbuf s.gc).run coreResponder (s.core, []) with
  | some (.ok r, (core, sent)) => some (r.2, core, sent)
  | _ => none

def regStep (threads : ℕ) : Step RegStation Incoming := fun s e =>
  (handled threads s e).map fun r =>
    { gc := r.1, core := r.2.1,
      asked := if r.2.2 = [framed (ascii "OK")] then regsAfter id s.asked (regWrites e.rxbuf)
        else s.asked }

/-- The packets for the registers, and `H`. -/
def isRegLetter : Letter → Bool
  | .readRegs | .writeRegs | .readReg | .writeReg | .select => true
  | _ => false

/-- A packet as `gdb_recv` leaves it in the buffer. -/
structure RegPacket (rxbuf : ℕ → Byte) : Prop where
  nul : ∃ i < maxpkt, rxbuf i = 0
  letter : isRegLetter (letter (rxbuf 0)) = true

/-- Every register number of a packet that is heeded has a selector of its own. -/
def KeepsApart (s : RegStation) (e : Incoming) : Prop :=
  RegPacket e.rxbuf ∧ (inactive s.gc ≠ none ∨ ∀ w ∈ regWrites e.rxbuf, Distinct w.1)

/-- The selected thread is in the list, its registers are as many as are saved, and the core has
what was written. -/
structure RegStation.Sound (s : RegStation) : Prop where
  selected : Selected s.gc (Selection.general.of s.gc)
  saved : ∀ t ∈ s.gc.rest.threadlist, t.2.regs.length = 17
  held : ∀ n < 19, s.core.reg (selector n) = s.asked n

section
variable {threads : ℕ} {s s' : RegStation} {e : Incoming}

/-- The handler's run is the packet's. -/
theorem handled_of {l : Letter} (hletter : letter (e.rxbuf 0) = l) (hreg : isRegLetter l = true)
    {gc1 : Conn} {rxbuf' : ℕ → Byte} {bs : List Byte} {c' : CoreFile} (hlen : bs.length ≤ 8186)
    (hbody : (answerCommand threads e.frame l e.rxbuf (gdbPrologue s.gc)).run coreResponder
      (s.core, []) = some (.ok (rxbuf', putBytes (gdbPrologue gc1) bs), (c', []))) :
    ∃ gc', Kept gc1 gc' ∧ handled threads s e = some (gc', c', [framed bs]) := by
  have hresume : ∀ step, letter (e.rxbuf 0) ≠ .resume step := by
    intro step hstep
    rw [← hletter, hstep] at hreg
    exact Bool.false_ne_true hreg
  rw [← hletter] at hbody
  obtain ⟨gc', hkept, hrun⟩ := handleCommand_reply hresume hlen hbody
  exact ⟨gc', hkept, by rw [handled, hrun]⟩

theorem hexdump_words_length (ws : List Word) :
    ((ws.flatMap wordBytes).flatMap hex2).length = 8 * ws.length := by
  rw [hexdump_length]
  induction ws with
  | nil => rfl
  | cons w ws ih =>
    rw [List.flatMap_cons, List.length_append, wordBytes_length, List.length_cons]
    omega

theorem handled_readRegs (h : s.Sound) (hletter : letter (e.rxbuf 0) = .readRegs) :
    ∃ gc' d, Kept s.gc gc' ∧ handled threads s e = some (gc', { s.core with dcrdr := d },
      [framed (((allRegs s.gc s.core).flatMap wordBytes).flatMap hex2)]) := by
  obtain ⟨d, hrun⟩ := @handleReadRegs_run s.gc e.rxbuf h.selected s.core e.frame
  have hlen : (((allRegs s.gc s.core).flatMap wordBytes).flatMap hex2).length ≤ 8186 := by
    rw [hexdump_words_length, allRegs, List.length_map, List.length_range]
    decide
  obtain ⟨gc', hkept, hhandled⟩ := @handled_of threads s e _ hletter rfl _ _ _ _ hlen hrun
  exact ⟨gc', d, hkept, hhandled⟩

theorem handled_readReg (h : s.Sound) (hletter : letter (e.rxbuf 0) = .readReg) :
    ∃ gc' d, Kept s.gc gc' ∧ handled threads s e = some (gc', { s.core with dcrdr := d },
      [framed ((wordBytes (oneReg s.gc s.core (strtoul (cstr e.rxbuf 1)))).flatMap hex2)]) := by
  obtain ⟨d, hrun⟩ := @handleReadReg_run s.gc e.rxbuf h.selected s.core e.frame
  have hlen : ((wordBytes (oneReg s.gc s.core (strtoul (cstr e.rxbuf 1)))).flatMap hex2).length ≤
      8186 := by
    rw [hexdump_length, wordBytes_length]
    decide
  obtain ⟨gc', hkept, hhandled⟩ := @handled_of threads s e _ hletter rfl _ _ _ _ hlen hrun
  exact ⟨gc', d, hkept, hhandled⟩

theorem handled_select (hletter : letter (e.rxbuf 0) = .select) :
    ∃ gc', Kept s.gc gc' ∧ handled threads s e = some (gc', s.core, [framed (ascii "OK")]) := by
  have hkept := (@handleSelect_replied (gdbPrologue s.gc) e.rxbuf (plain_prologue s.gc)).1.1
  obtain ⟨rest, hselect⟩ : ∃ rest, handleSelect e.rxbuf (gdbPrologue s.gc) =
      (e.rxbuf, putBytes (gdbPrologue { s.gc with rest := rest }) (ascii "OK")) := ⟨_, rfl⟩
  rw [hselect] at hkept
  obtain ⟨hflags, hrest, _⟩ := putBytes_fields (gdbPrologue { s.gc with rest := rest }) (ascii "OK")
  have hkept1 : Kept s.gc { s.gc with rest := rest } :=
    ((Kept.of_eq rfl rfl : Kept s.gc (gdbPrologue s.gc)).trans hkept).trans
      (Kept.of_eq hflags.symm hrest.symm)
  have hbody : (answerCommand threads e.frame .select e.rxbuf (gdbPrologue s.gc)).run coreResponder
      (s.core, []) = some (.ok (e.rxbuf,
        putBytes (gdbPrologue { s.gc with rest := rest }) (ascii "OK")), (s.core, [])) := by
    rw [answerCommand, hselect]
    rfl
  obtain ⟨gc', hkept', hhandled⟩ := handled_of hletter rfl (by decide) hbody
  exact ⟨gc', hkept1.trans hkept', hhandled⟩

/-- `G` and `P`. -/
theorem handled_write (h : s.Sound) (hletter : letter (e.rxbuf 0) = .writeRegs ∨
      letter (e.rxbuf 0) = .writeReg) (hnul : ∃ i < maxpkt, e.rxbuf i = 0) :
    ∃ gc' c' bs, Kept s.gc gc' ∧ handled threads s e = some (gc', c', [framed bs]) ∧
      RegsWritten s.gc s.core e.rxbuf bs c' := by
  have hshort : ∀ {bs : List Byte} {c' : CoreFile}, RegsWritten s.gc s.core e.rxbuf bs c' →
      bs.length ≤ 8186 := by
    rintro bs c' (⟨_, rfl, _⟩ | ⟨rfl, _⟩)
    · decide
    · decide
  rcases hletter with hl | hl
  · obtain ⟨rxbuf', bs, c', hrun, hwritten⟩ := handleWriteRegs_run h.selected s.core hl hnul
    obtain ⟨gc', hkept, hhandled⟩ := @handled_of threads s e _ hl rfl _ _ _ _ (hshort hwritten) hrun
    exact ⟨gc', c', bs, hkept, hhandled, hwritten⟩
  · obtain ⟨rxbuf', bs, c', hrun, hwritten⟩ := handleWriteReg_run h.selected s.core hl hnul
    obtain ⟨gc', hkept, hhandled⟩ := @handled_of threads s e _ hl rfl _ _ _ _ (hshort hwritten) hrun
    exact ⟨gc', c', bs, hkept, hhandled, hwritten⟩

/-- Either the packet's registers are written, or none is and nothing was to be. -/
theorem regStep_cases (h : s.Sound) (he : RegPacket e.rxbuf) :
    ∃ s', regStep threads s e = some s' ∧ Kept s.gc s'.gc ∧
      ((inactive s.gc = none ∧ s'.core.reg = regsAfter selector s.core.reg (regWrites e.rxbuf) ∧
          s'.asked = regsAfter id s.asked (regWrites e.rxbuf)) ∨
        (s'.core.reg = s.core.reg ∧ s'.asked = s.asked)) := by
  -- a packet that writes nothing, whatever it is answered with
  have hreads : ∀ {gc' : Conn} {c' : CoreFile} {sent : List (List Byte)}, Kept s.gc gc' →
      handled threads s e = some (gc', c', sent) → c'.reg = s.core.reg → regWrites e.rxbuf = [] →
      ∃ s', regStep threads s e = some s' ∧ Kept s.gc s'.gc ∧
        (s'.core.reg = s.core.reg ∧ s'.asked = s.asked) := by
    intro gc' c' sent hkept hhandled hreg hnone
    refine ⟨⟨gc', c', s.asked⟩, ?_, hkept, hreg, rfl⟩
    rw [regStep, hhandled, Option.map_some, hnone]
    congr 2
    exact ite_self _
  have hletter := he.letter
  cases hl : letter (e.rxbuf 0) with
  | readRegs =>
    obtain ⟨gc', d, hkept, hhandled⟩ := @handled_readRegs threads s e h hl
    obtain ⟨s', hstep, hgc, hsame⟩ := hreads hkept hhandled rfl (by rw [regWrites, hl])
    exact ⟨s', hstep, hgc, .inr hsame⟩
  | readReg =>
    obtain ⟨gc', d, hkept, hhandled⟩ := @handled_readReg threads s e h hl
    obtain ⟨s', hstep, hgc, hsame⟩ := hreads hkept hhandled rfl (by rw [regWrites, hl])
    exact ⟨s', hstep, hgc, .inr hsame⟩
  | select =>
    obtain ⟨gc', hkept, hhandled⟩ := @handled_select threads s e hl
    obtain ⟨s', hstep, hgc, hsame⟩ := hreads hkept hhandled rfl (by rw [regWrites, hl])
    exact ⟨s', hstep, hgc, .inr hsame⟩
  | writeRegs | writeReg =>
    obtain ⟨gc', c', bs, hkept, hhandled, hwritten⟩ :=
      @handled_write threads s e h (by simp [hl]) he.nul
    rcases hwritten with ⟨hnone, rfl, hreg⟩ | ⟨rfl, hreg⟩
    · refine ⟨⟨gc', c', regsAfter id s.asked (regWrites e.rxbuf)⟩, ?_, hkept, .inl ⟨hnone, hreg, rfl⟩⟩
      rw [regStep, hhandled, Option.map_some, if_pos rfl]
    · have hother : [framed []] ≠ [framed (ascii "OK")] := by decide
      refine ⟨⟨gc', c', s.asked⟩, ?_, hkept, .inr ⟨hreg, rfl⟩⟩
      rw [regStep, hhandled, Option.map_some, if_neg hother]
  | resume _ | why | alive | readMemory | writeMemory | halt | extended _ | point _ | unknown =>
    rw [hl] at hletter
    exact absurd hletter Bool.false_ne_true

/-- A register keeps its word unless its own number is written. -/
theorem RegStation.Sound.step (h : s.Sound) (he : KeepsApart s e) :
    ∃ s', regStep threads s e = some s' ∧ s'.Sound ∧
      ∀ n < 19, (∀ w ∈ regWrites e.rxbuf, w.1 ≠ n) →
        s'.core.reg (selector n) = s.core.reg (selector n) := by
  obtain ⟨s', hstep, hkept, hcases⟩ := @regStep_cases threads s e h he.1
  have hheld : ∀ n < 19, s'.core.reg (selector n) = s'.asked n := by
    intro n hn
    rcases hcases with ⟨hnone, hreg, hasked⟩ | ⟨hreg, hasked⟩
    · have hapart := he.2.resolve_left (not_not_intro hnone)
      rw [hreg, hasked]
      exact regsAfter_selector hapart h.held hn
    · rw [hreg, hasked, h.held n hn]
  refine ⟨s', hstep, ⟨hkept.selection_of h.selected, ?_, hheld⟩, ?_⟩
  · rw [hkept.threadlist]
    exact h.saved
  · intro n hn hother
    rw [hheld n hn, h.held n hn]
    rcases hcases with ⟨_, _, hasked⟩ | ⟨_, hasked⟩
    · rw [hasked, regsAfter_of_ne hother]
    · rw [hasked]

/-! ### What is read -/

/-- `p` with this number is answered with the word. -/
def AnswersReg (threads : ℕ) (s : RegStation) (n : ℕ) (v : Word) : Prop :=
  ∀ e : Incoming, e.rxbuf 0 = 0x70 → (strtoul (cstr e.rxbuf 1)).toNat = n →
    (handled threads s e).map (fun r => r.2.2) = some [framed ((wordBytes v).flatMap hex2)]

/-- `g` is answered with the words. -/
def AnswersAll (threads : ℕ) (s : RegStation) (ws : List Word) : Prop :=
  ∀ e : Incoming, e.rxbuf 0 = 0x67 →
    (handled threads s e).map (fun r => r.2.2) =
      some [framed ((ws.flatMap wordBytes).flatMap hex2)]

/-- `p n` answers the word at position `n` of `g`. -/
def SameWord (threads : ℕ) (s : RegStation) (n : ℕ) : Prop :=
  ∃ v ws, AnswersReg threads s n v ∧ AnswersAll threads s ws ∧ ws[n]? = some v

theorem regNumber {n : ℕ} (hn : n < 19) : (BitVec.ofNat 32 n).toNat = n := by
  rw [BitVec.toNat_ofNat]
  omega

theorem answersReg (h : s.Sound) {n : ℕ} (hn : n < 19) :
    AnswersReg threads s n (oneReg s.gc s.core (BitVec.ofNat 32 n)) := by
  intro e hp hnumber
  have hl : letter (e.rxbuf 0) = .readReg := by rw [hp]; rfl
  have hword : strtoul (cstr e.rxbuf 1) = BitVec.ofNat 32 n :=
    BitVec.eq_of_toNat_eq (hnumber.trans (regNumber hn).symm)
  obtain ⟨gc', d, _, hhandled⟩ := @handled_readReg threads s e h hl
  rw [hhandled, Option.map_some, hword]

theorem answersAll (h : s.Sound) : AnswersAll threads s (allRegs s.gc s.core) := by
  intro e hg
  have hl : letter (e.rxbuf 0) = .readRegs := by rw [hg]; rfl
  obtain ⟨gc', d, _, hhandled⟩ := @handled_readRegs threads s e h hl
  rw [hhandled, Option.map_some]

theorem wordBytes_injective {v w : Word} (h : wordBytes v = wordBytes w) : v = w := by
  rw [← leWord_wordBytes v, ← leWord_wordBytes w, h]

theorem words_injective {vs ws : List Word} (h : vs.flatMap wordBytes = ws.flatMap wordBytes) :
    vs = ws := by
  induction vs generalizing ws with
  | nil =>
    cases ws with
    | nil => rfl
    | cons w ws => exact absurd h (by simp [wordBytes])
  | cons v vs ih =>
    cases ws with
    | nil => exact absurd h (by simp [wordBytes])
    | cons w ws =>
      rw [List.flatMap_cons, List.flatMap_cons] at h
      obtain ⟨hhead, htail⟩ := List.append_inj h (by rw [wordBytes_length, wordBytes_length])
      rw [wordBytes_injective hhead, ih htail]

theorem inactive_mem {gc : Conn} {t : LkThread} (h : inactive gc = some t) :
    ∃ p ∈ gc.rest.threadlist, p.2 = t := by
  unfold inactive at h
  split at h
  next p hfound =>
    split_ifs at h
    exact ⟨p, List.mem_of_find?_eq_some hfound, Option.some.inj h⟩
  · cases h

theorem allRegs_getElem (gc : Conn) (c : CoreFile) {n : ℕ} (hn : n < 19) :
    (allRegs gc c)[n]? = some (match inactive gc with
      | some t => t.regs.getD n 0
      | none => c.reg (selector n)) := by
  rw [allRegs, List.getElem?_map, List.getElem?_range hn]
  rfl

/-- The number and the position are of one register. -/
theorem oneReg_small (gc : Conn) (c : CoreFile) {n : ℕ} (h : inactive gc = none ∨ n < 17)
    (hn : n < 19) : (allRegs gc c)[n]? = some (oneReg gc c (BitVec.ofNat 32 n)) := by
  rw [allRegs_getElem gc c hn, oneReg, regNumber hn]
  cases hthread : inactive gc with
  | none => rfl
  | some t =>
    rw [hthread] at h
    have hsmall : n < 17 := h.resolve_left (by simp)
    have hle : ¬ BitVec.ofNat 32 n > 16 := by
      rw [gt_iff_lt, BitVec.lt_def, regNumber hn]
      exact Nat.not_lt.mpr (Nat.le_of_lt_succ hsmall)
    dsimp only
    rw [if_neg hle]

theorem dumps_injective {xs ys : List Byte}
    (h : some [framed (xs.flatMap hex2)] = some [framed (ys.flatMap hex2)]) : xs = ys :=
  hexdump_injective (framed_injective (List.singleton_inj.mp (Option.some.inj h)))

/-- There is a packet to tell two answers of `g` apart. -/
theorem AnswersAll.unique {vs ws : List Word} (h : AnswersAll threads s vs)
    (h' : AnswersAll threads s ws) : vs = ws := by
  have hv := h ⟨fun _ => 0, holding (ascii "g")⟩ rfl
  have hw := h' ⟨fun _ => 0, holding (ascii "g")⟩ rfl
  exact words_injective (dumps_injective (hv.symm.trans hw))

/-- The packets are `p11` and `p12`. -/
theorem AnswersReg.unique {v w : Word} {n : ℕ} (hn : n = 17 ∨ n = 18) (h : AnswersReg threads s n v)
    (h' : AnswersReg threads s n w) : v = w := by
  obtain ⟨e, hp, hnumber⟩ : ∃ e : Incoming, e.rxbuf 0 = 0x70 ∧
      (strtoul (cstr e.rxbuf 1)).toNat = n := by
    rcases hn with rfl | rfl
    · exact ⟨⟨fun _ => 0, holding (ascii "p11")⟩, rfl, rfl⟩
    · exact ⟨⟨fun _ => 0, holding (ascii "p12")⟩, rfl, rfl⟩
  have hv := h e hp hnumber
  have hw := h' e hp hnumber
  exact wordBytes_injective (dumps_injective (hv.symm.trans hw))

/-- Registers 17 and 18 are not saved of an inactive thread: `p` says so, and `g` gives zeros. -/
theorem not_sameWord (h : s.Sound) {t : LkThread} (hthread : inactive s.gc = some t) {n : ℕ}
    (hn : n = 17 ∨ n = 18) : ¬ SameWord threads s n := by
  rintro ⟨v, ws, hone, hall, hsame⟩
  have hlt : n < 19 := by omega
  have hv : v = 0xeeeeeeee := by
    have hanswer := @answersReg threads s h n hlt
    have hbig : BitVec.ofNat 32 n > 16 := by
      rw [gt_iff_lt, BitVec.lt_def, regNumber hlt]
      show 16 < n
      omega
    rw [oneReg, hthread] at hanswer
    dsimp only at hanswer
    rw [if_pos hbig] at hanswer
    exact hone.unique hn hanswer
  have hzero : v = 0 := by
    obtain ⟨p, hp, rfl⟩ := inactive_mem hthread
    have hlen : p.2.regs.length ≤ n := by
      rw [h.saved p hp]
      omega
    rw [hall.unique (answersAll h), allRegs_getElem s.gc s.core hlt, hthread] at hsame
    dsimp only at hsame
    rw [List.getD_eq_default _ _ hlen] at hsame
    exact (Option.some.inj hsame).symm
  exact absurd (hv.symm.trans hzero) (by decide)

theorem sameWord_iff (h : s.Sound) {n : ℕ} (hn : n < 19) :
    SameWord threads s n ↔ inactive s.gc = none ∨ n < 17 := by
  constructor
  · intro hsame
    by_contra hneither
    rw [not_or] at hneither
    obtain ⟨t, hthread⟩ := Option.ne_none_iff_exists'.mp hneither.1
    exact not_sameWord h hthread (by omega) hsame
  · intro hcond
    exact ⟨_, _, answersReg h hn, answersAll h, oneReg_small s.gc s.core hcond hn⟩

/-- In every run in which no register number is taken for another register's, reads of one register
and of all agree, but for the two that are not saved of an inactive thread; they give what was
written; and only what is written to a register's own number changes it. -/
theorem registers_as_asked {es : List Incoming} {s0 : RegStation} (hstart : s0.Sound)
    (h : Run (regStep threads) KeepsApart s0 es s) :
    (∀ n < 19, SameWord threads s n ↔ inactive s.gc = none ∨ n < 17) ∧
    (inactive s.gc = none → ∀ n < 19, AnswersReg threads s n (s.asked n) ∧
      ∃ ws, AnswersAll threads s ws ∧ ws[n]? = some (s.asked n)) ∧
    ∀ e, KeepsApart s e → ∃ s', regStep threads s e = some s' ∧ ∀ n < 19,
      (∀ w ∈ regWrites e.rxbuf, w.1 ≠ n) → s'.core.reg (selector n) = s.core.reg (selector n) := by
  have hsound : s.Sound := by
    refine h.invariant RegStation.Sound ?_ hstart
    intro s e s' hs he hstep
    obtain ⟨s'', hstep', hs'', _⟩ := @RegStation.Sound.step threads s e hs he
    obtain rfl := Option.some.inj (hstep.symm.trans hstep')
    exact hs''
  refine ⟨fun n hn => sameWord_iff hsound hn, ?_, ?_⟩
  · intro hnone n hn
    have hone := @answersReg threads s hsound n hn
    have hword : oneReg s.gc s.core (BitVec.ofNat 32 n) = s.asked n := by
      rw [oneReg, hnone, regNumber hn]
      exact hsound.held n hn
    rw [hword] at hone
    refine ⟨hone, allRegs s.gc s.core, answersAll hsound, ?_⟩
    rw [oneReg_small s.gc s.core (.inl hnone) hn, hword]
  · intro e he
    obtain ⟨s', hstep, _, hsame⟩ := @RegStation.Sound.step threads s e hsound he
    exact ⟨s', hstep, hsame⟩

end

/-- A core with zeros in its registers, and no threads. -/
def zeroCore : RegStation where
  gc := idleConn
  core := { reg := fun _ => 0, dcrdr := 0 }
  asked _ := 0

theorem zeroCore_sound : zeroCore.Sound where
  selected := .inl rfl
  saved _ h := absurd h List.not_mem_nil
  held _ _ := rfl

def sleepingThread : LkThread where
  active := false
  threadptr := 0x20000000
  nextptr := 0x20000000
  state := 4
  savedSp := 0x20001000
  waitq := 0
  name := ascii "idle"
  regs := List.replicate 17 0

/-- A thread that is not running is selected. -/
def sleeper : RegStation :=
  { zeroCore with gc := { idleConn with rest := { idleConn.rest with
      threadlist := [(1, sleepingThread)], gselected := 1 } } }

theorem sleeper_sound : sleeper.Sound where
  selected := .inr ⟨_, List.mem_singleton_self _, rfl⟩
  saved t h := by
    obtain rfl := List.mem_singleton.mp h
    rfl
  held _ _ := rfl

theorem registers_as_asked_P :
    ∃ s, Run (regStep 0) KeepsApart zeroCore [⟨fun _ => 0, holding (ascii "P1=2a000000")⟩] s ∧
      s.asked 1 = 42 ∧ AnswersReg 0 s 1 42 := by
  let e : Incoming := ⟨fun _ => 0, holding (ascii "P1=2a000000")⟩
  have hwrites : regWrites e.rxbuf = [(1, 42)] := by decide +kernel
  have hapart : KeepsApart zeroCore e := by
    refine ⟨⟨⟨11, by decide, rfl⟩, rfl⟩, .inr ?_⟩
    rw [hwrites]
    intro w hw
    obtain rfl := List.mem_singleton.mp hw
    exact .inl (by decide)
  have hone : (regStep 0 zeroCore e).map (fun s => (s.asked 1, inactive s.gc)) = some (42, none) := by
    decide +kernel
  obtain ⟨s, hstep, hend⟩ := Option.map_eq_some_iff.mp hone
  obtain ⟨hasked, hthread⟩ := Prod.mk.inj hend
  have hrun : Run (regStep 0) KeepsApart zeroCore [e] s := .cons hapart hstep (.nil s)
  obtain ⟨hread, _⟩ := (registers_as_asked zeroCore_sound hrun).2.1 hthread 1 (by decide)
  rw [hasked] at hread
  exact ⟨s, hrun, hasked, hread⟩

/-- Register 32 is taken for register 0. And of a thread that is not running, register 17 read by
itself is not the one read with the others. -/
theorem registers_astray :
    (∃ s, Run (regStep 0) (fun _ e => RegPacket e.rxbuf) zeroCore
        [⟨fun _ => 0, holding (ascii "P20=2a000000")⟩] s ∧
      (∀ w ∈ regWrites (holding (ascii "P20=2a000000")), 19 ≤ w.1) ∧
      zeroCore.core.reg (selector 0) = 0 ∧ s.core.reg (selector 0) = 42) ∧
    ¬ SameWord 0 sleeper 17 := by
  constructor
  · let e : Incoming := ⟨fun _ => 0, holding (ascii "P20=2a000000")⟩
    have hwrites : regWrites e.rxbuf = [(32, 42)] := by decide +kernel
    have hpacket : RegPacket e.rxbuf := ⟨⟨12, by decide, rfl⟩, rfl⟩
    have hone : (regStep 0 zeroCore e).map (fun s => s.core.reg (selector 0)) = some 42 := by
      decide +kernel
    obtain ⟨s, hstep, hreg⟩ := Option.map_eq_some_iff.mp hone
    refine ⟨s, .cons hpacket hstep (.nil s), ?_, rfl, hreg⟩
    intro w hw
    rw [hwrites] at hw
    obtain rfl := List.mem_singleton.mp hw
    decide
  · exact not_sameWord sleeper_sound rfl (.inl rfl)

end M3Dev.Gdb
