import M3Dev.Buffer
import M3Dev.CallTriple
import M3Dev.GdbReadMemory

/-! The command `db`, which prints bytes of the target's memory. -/
namespace M3Dev.DumpBytes
open CallTree Tools ByteBlock Rswdp

/-- The calls of `rswdp.c`, `swdp_reset`, and a line printed. -/
inductive DumpCall where
  | swdp (c : Call)
  | reset
  | print (line : List Byte)

abbrev DumpProg := Prog DumpCall Answer Halt

def swdp {α : Type} (p : HostProg α) : DumpProg α := p.via .swdp

/-- `%08x` -/
def hex8 (w : Word) : List Byte := (wordBytes w).reverse.flatMap Gdb.hex2

/-- A line: an address and bytes. -/
def row (addr : Word) (bs : List Byte) : List Byte :=
  hex8 addr ++ [0x3a] ++ bs.flatMap (fun b => 0x20 :: Gdb.hex2 b) ++ [0x0a]

abbrev ahbCswMdebug : Word := 0x20000000
abbrev ahbCswPriv : Word := 0x02000000
abbrev ahbCswDbgEn : Word := 0x40
abbrev ahbCsw8bit : Word := 0x0
abbrev ahbCsw32bit : Word := 0x2

/-- The loop that fills `data`, with `left` of its passes to go. -/
def readBytes (addr : Word) : ℕ → ℕ → (ℕ → Byte) → DumpProg (ℕ → Byte)
  | 0, _, data => return data
  | left + 1, n, data => do
    let (rc, tmp) ← swdp (swdpAhbRead (addr + BitVec.ofNat 32 n) 0)
    if rc ≠ 0 then
      let _ ← Prog.ask .reset
      return data
    else
      readBytes addr left (n + 1) (Function.update data n ((tmp >>> (8 * (n % 4))).setWidth 8))

/-- The loop that prints: `count` bytes to go, from `n` on. -/
def printRows (addr : Word) (data : ℕ → Byte) (count n : ℕ) : DumpProg Unit :=
  if _h : count = 0 then return ()
  else do
    let xfer := min count 16
    let _ ← Prog.ask (.print (row (addr + BitVec.ofNat 32 n) (Buffer.get data n xfer)))
    printRows addr data (count - xfer) (n + xfer)
termination_by count
decreasing_by omega

/-- `do_db` with the numbers of its arguments. -/
def doDb (argv : List Word) : DumpProg ℤ :=
  match argv with
  | addr :: count :: _ => do
    let count : Word := if count > 1024 then 1024 else count
    let _ ← swdp (swdpAhbWrite ahbCsw (ahbCswMdebug ||| ahbCswPriv ||| ahbCswDbgEn ||| ahbCsw8bit))
    let data ← readBytes addr count.toNat 0 fun _ => 0xee
    let _ ← swdp (swdpAhbWrite ahbCsw (ahbCswMdebug ||| ahbCswPriv ||| ahbCswDbgEn ||| ahbCsw32bit))
    printRows addr data count.toNat 0
    return 0
  | _ => return -1

/-! ### The target -/

/-- The target's memory, in words, the MEM-AP's TAR, and the lines printed. -/
structure Screen where
  mem : Word → Word
  tar : Word
  lines : List (List Byte)

/-- Every transfer succeeds. The MEM-AP is in the mode that `swdp_reset` sets: an access goes to the
word that TAR lies in, and TAR stays. -/
def dumpResponder : Responder DumpCall Answer Screen
  | .swdp (.exec [.read addr] buf), s =>
    let tar := touched s.tar addr
    some (statusAnswer 0 (Function.update buf 0 (s.mem (tar &&& ~~~3))), { s with tar })
  | .swdp (.exec [.write addr value] buf), s =>
    let tar := touched s.tar addr
    some (statusAnswer 0 buf, { s with mem := Function.update s.mem (tar &&& ~~~3) value, tar })
  | .print line, s => some (statusAnswer 0 fun _ => 0, { s with lines := s.lines ++ [line] })
  | _, _ => none

/-- The lines for bytes from an address on, sixteen in each but the last. -/
def rows (addr : Word) (bs : List Byte) : List (List Byte) :=
  if h : bs = [] then []
  else row addr (bs.take 16) :: rows (addr + 16) (bs.drop 16)
termination_by bs.length
decreasing_by
  have := List.length_pos_iff.mpr h
  rw [List.length_drop]
  omega

/-- The bytes of the memory stay, and the bytes asked for are printed. -/
def Dumps (argv : List Word) (addr count : Word) (s : Screen) : Prop :=
  ∃ s', (doDb argv).run dumpResponder s = some (.ok 0, s') ∧
    (∀ a, byteAt s'.mem a = byteAt s.mem a) ∧
    s'.lines = s.lines ++ rows addr (bytesFrom s.mem addr (min count.toNat 1024))

/-- The memory while the bytes are read: the first value for CSW is at address 0. -/
def during (mem : Word → Word) : Word → Word := Function.update mem 0 0x22000040

/-- Where the byte is that is dumped for `addr + i`: the number, not the address, selects it in its
word. For the last address TAR is not written: the first read finds it at 0 there. -/
def shown (addr : Word) (i : ℕ) : Word :=
  if i = 0 ∧ addr = 0xffffffff then 0 else byteAddr (byteAddr addr i &&& ~~~3) (i % 4)

/-- The word at address 0 is the second value for CSW, and the bytes dumped are those asked for. -/
def Spared (addr count : Word) (mem : Word → Word) : Prop :=
  mem 0 = 0x22000042 ∧
    ∀ i < min count.toNat 1024, byteAt (during mem) (shown addr i) = byteAt mem (byteAddr addr i)

/-- The dump begins at a word and does not come to address 0. -/
def Aligned (addr count : Word) : Prop :=
  addr.toNat % 4 = 0 ∧ ∀ i < min count.toNat 1024, byteAddr addr i ≠ 0

/-! ### Reading -/

variable {addr : Word} {mem : Word → Word} {lines : List (List Byte)}

theorem lane (w : Word) (k : ℕ) (hk : k < 4) : (w >>> (8 * k)).setWidth 8 = (wordBytes w).getD k 0 := by
  interval_cases k
  · rw [Nat.mul_zero, BitVec.ushiftRight_zero]
    rfl
  · rfl
  · rfl
  · rfl

/-- TAR before the `n`-th read. -/
def tarAt (addr : Word) : ℕ → Word
  | 0 => 0
  | n + 1 => touched (tarAt addr n) (byteAddr addr n)

theorem tarAt_succ {n : ℕ} (h : byteAddr addr n ≠ 0xffffffff) : tarAt addr (n + 1) = byteAddr addr n :=
  touched_of_ne _ h

/-- The last address is behind another one of its word, or the first. -/
theorem tarAt_last {n : ℕ} (h : byteAddr addr (n + 1) = 0xffffffff) :
    tarAt addr (n + 2) &&& ~~~3 = byteAddr addr (n + 1) &&& ~~~3 := by
  have hbefore : byteAddr addr n = 0xfffffffe := by
    have hadd : byteAddr addr n + 1 = 0xffffffff := (byteAddr_add addr n 1).trans h
    exact eq_sub_of_add_eq hadd
  have hne : byteAddr addr n ≠ 0xffffffff := by
    rw [hbefore]
    decide
  rw [tarAt, h, touched, if_pos rfl, tarAt_succ hne, hbefore]
  decide

theorem byteAt_shown (mem : Word → Word) (addr : Word) (n : ℕ) : byteAt mem (shown addr n) =
    (wordBytes (mem (tarAt addr (n + 1) &&& ~~~3))).getD (n % 4) 0 := by
  by_cases hlast : byteAddr addr n = 0xffffffff
  · cases n with
    | zero =>
      have haddr : addr = 0xffffffff := by rwa [byteAddr_zero] at hlast
      rw [shown, if_pos ⟨rfl, haddr⟩, tarAt, hlast]
      rfl
    | succ n =>
      rw [shown, if_neg (by omega), tarAt_last hlast]
      exact byteAt_word mem (align_aligned _) (Nat.mod_lt _ (by decide))
  · have hfirst : ¬ (n = 0 ∧ addr = 0xffffffff) := by
      rintro ⟨rfl, haddr⟩
      rw [byteAddr_zero] at hlast
      exact hlast haddr
    rw [shown, if_neg hfirst, tarAt_succ hlast]
    exact byteAt_word mem (align_aligned _) (Nat.mod_lt _ (by decide))

theorem readBytes_run (left : ℕ) (n : ℕ) (data : ℕ → Byte) : ∃ data',
    (readBytes addr left n data).run dumpResponder ⟨mem, tarAt addr n, lines⟩ =
      some (.ok data', ⟨mem, tarAt addr (n + left), lines⟩) ∧
    (∀ i, n ≤ i → i < n + left → data' i = byteAt mem (shown addr i)) ∧ ∀ i < n, data' i = data i := by
  induction left generalizing n data with
  | zero => exact ⟨data, rfl, fun i hi hlt => absurd hlt (by omega), fun _ _ => rfl⟩
  | succ left ih =>
    obtain ⟨data', hrun, hread, hold⟩ := ih (n + 1)
      (Function.update data n ((mem (tarAt addr (n + 1) &&& ~~~3) >>> (8 * (n % 4))).setWidth 8))
    refine ⟨data', ?_, fun i hi hlt => ?_, fun i hi => ?_⟩
    · have hcall : (swdp (swdpAhbRead (addr + BitVec.ofNat 32 n) 0)).run dumpResponder
          ⟨mem, tarAt addr n, lines⟩ =
            some (.ok (0, mem (tarAt addr (n + 1) &&& ~~~3)), ⟨mem, tarAt addr (n + 1), lines⟩) := rfl
      have hcount : n + (left + 1) = n + 1 + left := by omega
      rw [readBytes, Prog.run_bind hcall, hcount]
      dsimp only
      rw [if_neg (by decide)]
      exact hrun
    · rcases Nat.lt_or_eq_of_le hi with hlt' | rfl
      · exact hread i hlt' (by omega)
      · rw [hold n (Nat.lt_succ_self n), Function.update_self, lane _ _ (Nat.mod_lt _ (by decide)),
          byteAt_shown]
    · rw [hold i (by omega), Function.update_of_ne (by omega)]

/-! ### Printing -/

@[simp] theorem rows_nil (addr : Word) : rows addr [] = [] := by rw [rows, dif_pos rfl]

theorem rows_cons {bs : List Byte} (h : bs ≠ []) (addr : Word) :
    rows addr bs = row addr (bs.take 16) :: rows (addr + 16) (bs.drop 16) := by rw [rows, dif_neg h]

theorem rows_append {bs : List Byte} {n : ℕ} (hpos : 0 < n) (hn : n = min bs.length 16) :
    rows addr bs = row addr (bs.take n) :: rows (byteAddr addr n) (bs.drop n) := by
  have hne : bs ≠ [] := by
    rintro rfl
    rw [List.length_nil, Nat.zero_min] at hn
    omega
  rw [rows_cons hne]
  rcases Nat.le_total 16 bs.length with hlong | hshort
  · obtain rfl : n = 16 := by omega
    rfl
  · obtain rfl : n = bs.length := by omega
    have hend : bs.drop 16 = [] := List.drop_eq_nil_of_le hshort
    rw [hend, List.take_of_length_le hshort, List.take_length, List.drop_length]
    rw [rows_nil, rows_nil]

theorem printRows_run (data : ℕ → Byte) (count n : ℕ) (tar : Word) (lines : List (List Byte)) :
    (printRows addr data count n).run dumpResponder ⟨mem, tar, lines⟩ =
      some (.ok (), ⟨mem, tar, lines ++ rows (byteAddr addr n) (Buffer.get data n count)⟩) := by
  induction count using Nat.strong_induction_on generalizing n lines with
  | _ count ih =>
    rw [printRows]
    by_cases hzero : count = 0
    · subst hzero
      have hnone : Buffer.get data n 0 = [] := rfl
      rw [dif_pos rfl, hnone, rows_nil, List.append_nil]
      rfl
    · rw [dif_neg hzero]
      have hcall (line : List Byte) : Prog.run dumpResponder (Prog.ask (.print line) : DumpProg Answer)
          ⟨mem, tar, lines⟩ = some (.ok (statusAnswer 0 fun _ => 0), ⟨mem, tar, lines ++ [line]⟩) := rfl
      have hxfer : min count 16 = min (Buffer.get data n count).length 16 := by
        rw [Buffer.get_length]
      have hdrop : (Buffer.get data n count).drop (min count 16) =
          Buffer.get data (n + min count 16) (count - min count 16) := by
        apply List.ext_getElem
        · simp
        intro i _ _
        rw [List.getElem_drop, Buffer.get_getElem, Buffer.get_getElem, Nat.add_assoc]
      dsimp only
      rw [Prog.run_bind (hcall _), ih (count - min count 16) (by omega),
        rows_append (by omega) hxfer, hdrop, Buffer.get_take (Nat.min_le_left _ _), byteAddr_add,
        List.append_assoc]
      rfl

/-! ### The command -/

theorem count_toNat (count : Word) : (if count > 1024 then 1024 else count : Word).toNat =
    min count.toNat 1024 := by
  by_cases hlarge : count > 1024
  · rw [if_pos hlarge]
    have hlt : 1024 < count.toNat := hlarge
    show 1024 = _
    omega
  · rw [if_neg hlarge]
    have hle : ¬ 1024 < count.toNat := hlarge
    omega

/-- A write for CSW goes to address 0 of the target's memory. -/
theorem csw_write_run (value : Word) (mem : Word → Word) (tar : Word) (lines : List (List Byte)) :
    (swdp (swdpAhbWrite ahbCsw value)).run dumpResponder ⟨mem, tar, lines⟩ =
      some (.ok (0 : ℤ), ⟨Function.update mem 0 value, 0, lines⟩) := by
  have hzero : touched tar ahbCsw = 0 := rfl
  have hword : (0 : Word) &&& ~~~3 = 0 := rfl
  have hcall : (swdp (swdpAhbWrite ahbCsw value)).run dumpResponder ⟨mem, tar, lines⟩ =
      some (.ok (0 : ℤ), ⟨Function.update mem (touched tar ahbCsw &&& ~~~3) value, touched tar ahbCsw,
        lines⟩) := rfl
  rw [hcall, hzero, hword]

theorem doDb_run (addr count : Word) (rest : List Word) (s : Screen) :
    (doDb (addr :: count :: rest)).run dumpResponder s = some (.ok 0,
      ⟨Function.update s.mem 0 0x22000042, 0, s.lines ++ rows addr
        ((List.range (min count.toNat 1024)).map fun i => byteAt (during s.mem) (shown addr i))⟩) := by
  have hreads : ∃ data, (readBytes addr (min count.toNat 1024) 0 fun _ => 0xee).run dumpResponder
      ⟨during s.mem, 0, s.lines⟩ =
        some (.ok data, ⟨during s.mem, tarAt addr (0 + min count.toNat 1024), s.lines⟩) ∧
      (∀ i, 0 ≤ i → i < 0 + min count.toNat 1024 → data i = byteAt (during s.mem) (shown addr i)) ∧
      ∀ i < 0, data i = 0xee := readBytes_run (min count.toNat 1024) 0 fun _ => 0xee
  obtain ⟨data, hread, hshown, -⟩ := hreads
  have hdata : Buffer.get data 0 (min count.toNat 1024) =
      (List.range (min count.toNat 1024)).map fun i => byteAt (during s.mem) (shown addr i) := by
    apply List.map_congr_left
    intro i hi
    rw [Nat.zero_add]
    exact hshown i (Nat.zero_le i) (by rw [Nat.zero_add]; exact List.mem_range.mp hi)
  have hfirst : Function.update s.mem 0 (ahbCswMdebug ||| ahbCswPriv ||| ahbCswDbgEn ||| ahbCsw8bit) =
      during s.mem := rfl
  rw [doDb, Prog.run_bind (csw_write_run _ s.mem s.tar s.lines), hfirst, count_toNat,
    Prog.run_bind hread, Prog.run_bind (csw_write_run ..), Prog.run_bind (printRows_run ..), byteAddr_zero, hdata, during,
    Function.update_idem]
  rfl

theorem row_injective {bs cs : List Byte} (h : row addr bs = row addr cs) : bs = cs := by
  have hbytes := List.append_cancel_left ((List.append_inj' h rfl).1)
  induction bs generalizing cs with
  | nil =>
    cases cs with
    | nil => rfl
    | cons c cs => exact absurd hbytes (by simp)
  | cons b bs ih =>
    cases cs with
    | nil => exact absurd hbytes (by simp)
    | cons c cs =>
      rw [List.flatMap_cons, List.flatMap_cons] at hbytes
      obtain ⟨hhead, htail⟩ := List.append_inj hbytes rfl
      have hrow : row addr bs = row addr cs := by rw [row, row, htail]
      rw [Gdb.hex2_injective (List.cons.inj hhead).2, ih hrow htail]

theorem rows_injective {bs cs : List Byte} (hlen : bs.length = cs.length)
    (h : rows addr bs = rows addr cs) : bs = cs := by
  induction hn : bs.length using Nat.strong_induction_on generalizing bs cs addr with
  | _ n ih =>
    by_cases hempty : bs = []
    · subst hempty
      exact (List.eq_nil_of_length_eq_zero hlen.symm).symm
    · have hpos := List.length_pos_iff.mpr hempty
      have hcs : cs ≠ [] := List.length_pos_iff.mp (hlen ▸ hpos)
      rw [rows_cons hempty, rows_cons hcs] at h
      obtain ⟨hrow, hrest⟩ := List.cons.inj h
      have htail := ih (bs.drop 16).length (by rw [List.length_drop]; omega)
        (by rw [List.length_drop, List.length_drop, hlen]) hrest rfl
      rw [← List.take_append_drop 16 bs, row_injective hrow, htail, List.take_append_drop]

/-- The memory is as it was exactly where the second value was at address 0 before. -/
theorem update_spares_iff (mem : Word → Word) (w : Word) :
    (∀ a, byteAt (Function.update mem 0 w) a = byteAt mem a) ↔ mem 0 = w := by
  constructor
  · intro h
    have hbytes : wordBytes w = wordBytes (mem 0) := by
      calc
        wordBytes w = wordBytes (Function.update mem 0 w 0) := by rw [Function.update_self]
        _ = bytesFrom (Function.update mem 0 w) 0 4 := wordBytes_eq_bytesFrom _ rfl
        _ = bytesFrom mem 0 4 := List.map_congr_left fun i _ => h _
        _ = wordBytes (mem 0) := (wordBytes_eq_bytesFrom _ rfl).symm
    rw [← leWord_wordBytes (mem 0), ← hbytes, leWord_wordBytes]
  · rintro rfl a
    rw [Function.update_eq_self]

/-- A dump leaves the memory as it is and prints its bytes exactly where the word at address 0 is
the value written there last, and the bytes that are picked are those of the addresses. -/
theorem dumps_iff_spared (addr count : Word) (rest : List Word) (s : Screen) :
    Dumps (addr :: count :: rest) addr count s ↔ Spared addr count s.mem := by
  have hrun := doDb_run addr count rest s
  have hlines : rows addr ((List.range (min count.toNat 1024)).map fun i =>
      byteAt (during s.mem) (shown addr i)) =
      rows addr (bytesFrom s.mem addr (min count.toNat 1024)) ↔
        ∀ i < min count.toNat 1024,
          byteAt (during s.mem) (shown addr i) = byteAt s.mem (byteAddr addr i) := by
    constructor
    · intro h i hi
      have hsame := rows_injective (by simp [bytesFrom]) h
      exact List.map_inj_left.mp hsame i (List.mem_range.mpr hi)
    · intro h
      congr 1
      exact List.map_congr_left fun i hi => h i (List.mem_range.mp hi)
  constructor
  · rintro ⟨s', hrun', hmem, hprinted⟩
    obtain ⟨_, rfl⟩ := Prod.mk.inj (Option.some.inj (hrun.symm.trans hrun'))
    exact ⟨(update_spares_iff _ _).mp hmem, hlines.mp (List.append_cancel_left hprinted)⟩
  · rintro ⟨hzero, hpicked⟩
    exact ⟨_, hrun, (update_spares_iff _ _).mpr hzero, by rw [hlines.mpr hpicked]⟩

/-- The two values for CSW differ in the byte at address 0. -/
theorem byteAt_during (hzero : mem 0 = 0x22000042) (a : Word) :
    byteAt (during mem) a = byteAt mem a ↔ a ≠ 0 := by
  by_cases hword : a &&& ~~~3 = 0
  · have halign := align_toNat a
    rw [hword] at halign
    have hsmall : a.toNat < 4 := by
      have hzero' : (0 : Word).toNat = 0 := rfl
      omega
    obtain ⟨k, hk, rfl⟩ : ∃ k < 4, a = BitVec.ofNat 32 k := ⟨a.toNat, hsmall, by simp⟩
    rw [byteAt, byteAt, hword, during, Function.update_self, hzero]
    interval_cases k <;> decide
  · have hne : a ≠ 0 := by
      rintro rfl
      exact hword rfl
    rw [byteAt, byteAt, during, Function.update_of_ne hword]
    exact iff_of_true rfl hne

/-- From an aligned address on the byte dumped is the one asked for. -/
theorem shown_aligned (haligned : addr.toNat % 4 = 0) (i : ℕ) : shown addr i = byteAddr addr i := by
  have hfirst : ¬ (i = 0 ∧ addr = 0xffffffff) := by
    rintro ⟨-, rfl⟩
    exact absurd haligned (by decide)
  have hlane : i % 4 = (byteAddr addr i).toNat % 4 := by
    rw [byteAddr_toNat]
    omega
  rw [shown, if_neg hfirst, hlane, byteAddr_align]

/-- A memory in which the four bytes of a word differ. -/
def lanes : Word → Word := Function.update (fun _ => 0x03020100) 0 0x22000042

theorem byteAt_lanes {a : Word} (h : a &&& ~~~3 ≠ 0) :
    byteAt lanes a = (wordBytes 0x03020100).getD (a.toNat % 4) 0 := by
  rw [byteAt, lanes, Function.update_of_ne h]

/-- There the first byte of a dump that begins in a word is another one. -/
theorem lanes_misread (hmis : addr.toNat % 4 ≠ 0) :
    byteAt (during lanes) (shown addr 0) ≠ byteAt lanes addr := by
  have hlane := Nat.mod_lt addr.toNat (by decide : 4 > 0)
  by_cases hlast : addr = 0xffffffff
  · subst hlast
    decide
  have hshown : shown addr 0 = addr &&& ~~~3 := by
    rw [shown, if_neg (fun h => hlast h.2), byteAddr_zero, byteAddr_zero]
  rw [hshown]
  by_cases hword : addr &&& ~~~3 = 0
  · have halign := align_toNat addr
    rw [hword] at halign
    have hsmall : addr.toNat < 4 := by
      have hzero : (0 : Word).toNat = 0 := rfl
      omega
    obtain ⟨k, hk, rfl⟩ : ∃ k < 4, addr = BitVec.ofNat 32 k := ⟨addr.toNat, hsmall, by simp⟩
    interval_cases k
    · exact absurd rfl hmis
    · decide
    · decide
    · decide
  · have hself : addr &&& ~~~3 &&& ~~~3 = addr &&& ~~~3 := by
      rw [BitVec.and_assoc, BitVec.and_self]
    have hfirst : byteAt (during lanes) (addr &&& ~~~3) = 0 := by
      rw [byteAt, during, hself, Function.update_of_ne hword, lanes, Function.update_of_ne hword,
        align_aligned]
      rfl
    rw [hfirst, byteAt_lanes hword]
    generalize addr.toNat % 4 = k at *
    interval_cases k
    · exact absurd rfl hmis
    · decide
    · decide
    · decide

/-- What a dump of any memory with the second value for CSW at address 0 needs. -/
theorem spared_all_iff (addr count : Word) :
    (∀ mem : Word → Word, mem 0 = 0x22000042 → Spared addr count mem) ↔ count = 0 ∨ Aligned addr count := by
  constructor
  · intro h
    by_cases hnone : count = 0
    · exact .inl hnone
    right
    have hpos : 0 < min count.toNat 1024 := by
      have hne : count.toNat ≠ 0 := fun hzero => hnone (BitVec.eq_of_toNat_eq hzero)
      omega
    have hzero : lanes 0 = 0x22000042 := rfl
    have hlanes := (h lanes hzero).2
    have haligned : addr.toNat % 4 = 0 := by
      by_contra hmis
      exact lanes_misread hmis ((hlanes 0 hpos).trans (by rw [byteAddr_zero]))
    refine ⟨haligned, fun i hi => (byteAt_during hzero _).mp ?_⟩
    rw [← hlanes i hi, shown_aligned haligned]
  · rintro (rfl | ⟨haligned, hzero⟩) mem hword
    · have hnone : min (0 : Word).toNat 1024 = 0 := rfl
      refine ⟨hword, fun i hi => absurd hi ?_⟩
      rw [hnone]
      exact Nat.not_lt_zero i
    · refine ⟨hword, fun i hi => ?_⟩
      rw [shown_aligned haligned]
      exact (byteAt_during hword _).mpr (hzero i hi)

/-- A dump is right for its memory exactly where that is spared. With the second value for CSW at
address 0 it is right whatever else is in the memory exactly where nothing is asked for, or the dump
begins at a word and does not come to address 0. -/
theorem dumps_iff (addr count : Word) (rest : List Word) :
    (∀ s, Dumps (addr :: count :: rest) addr count s ↔ Spared addr count s.mem) ∧
    ((∀ s : Screen, s.mem 0 = 0x22000042 → Dumps (addr :: count :: rest) addr count s) ↔
      count = 0 ∨ Aligned addr count) := by
  refine ⟨dumps_iff_spared addr count rest, ?_⟩
  rw [← spared_all_iff]
  constructor
  · intro h mem hword
    exact (dumps_iff_spared addr count rest ⟨mem, 0, []⟩).mp (h ⟨mem, 0, []⟩ hword)
  · intro h s hword
    exact (dumps_iff_spared addr count rest s).mpr (h s.mem hword)

/-- A byte is dumped from the middle of an empty memory: its first word is overwritten. -/
theorem dump_overwrites : ¬ Dumps [0x100, 1] 0x100 1 ⟨fun _ => 0, 0, []⟩ := by
  rintro ⟨s', hrun, hmem, _⟩
  obtain ⟨_, rfl⟩ := Prod.mk.inj (Option.some.inj ((doDb_run 0x100 1 [] ⟨fun _ => 0, 0, []⟩).symm.trans hrun))
  exact absurd (hmem 0) (by decide)

end M3Dev.DumpBytes
