import M3Dev.GdbWriteMemory

/-! Failing transactions under the packets that read and write registers and memory: what
is stored then, and what gdb is told. -/
namespace M3Dev.Gdb
open CallTree Tools Lk ByteBlock WordBlock

/-- The call issued a transaction and was answered with an error. A transfer of no words
issues none. -/
def Failed : Call × Answer → Prop
  | (.exec _ _, a) => a.rc ≠ 0
  | (.ahbRead32 _ _ count, a) => 0 < count ∧ a.rc ≠ 0
  | (.ahbWrite32 _ _ count, a) => 0 < count ∧ a.rc ≠ 0
  | _ => False

/-- No transaction has failed. -/
def Quiet (t : List (Call × Answer)) : Prop := ∀ e ∈ t, ¬ Failed e

/-- The words a call stores in the target's memory or registers. What selects a register
for the transfer beside it is not counted. -/
def wordsStored : Call → List Word
  | .exec [.write _ w] _ => [w]
  | .exec [.write _ w, .write _ _] _ => [w]
  | .ahbWrite32 _ buf count => (List.range count.toNat).map buf
  | _ => []

/-- The byte is a pair of hex digits of the packet, behind its letter and in front of its NUL. -/
def FromPacket (rxbuf : ℕ → Byte) (b : Byte) : Prop :=
  ∃ i, 0 < i ∧ (∀ j, 0 < j → j ≤ i + 1 → rxbuf j ≠ 0) ∧ b = unhex (rxbuf i) (rxbuf (i + 1))

/-- The byte is part of a word that was read without an error. -/
def FromRead (t : List (Call × Answer)) (b : Byte) : Prop :=
  ∃ addr buf a, (Call.exec [.read addr] buf, a) ∈ t ∧ a.rc = 0 ∧ b ∈ wordBytes (a.buf 0)

/-- The packet says that all went well: `OK`, or some bytes in hex. -/
def Reassuring (packet : List Byte) : Prop :=
  packet = framed (ascii "OK") ∨ ∃ bs : List Byte, bs ≠ [] ∧ packet = framed (bs.flatMap hex2)

/-- After an error gdb is not told that all went well, and no byte is stored that comes
from nowhere. -/
structure HandlesFailures (rxbuf : ℕ → Byte) (t : List (Call × Answer)) : Prop where
  reply : (∃ e ∈ t, Failed e) → ∀ packet a, (Call.send packet, a) ∈ t → ¬ Reassuring packet
  stored : ∀ t1 c a t2, t = t1 ++ (c, a) :: t2 → ∀ w ∈ wordsStored c, ∀ b ∈ wordBytes w,
    FromPacket rxbuf b ∨ FromRead t1 b

/-- While nothing has failed, stored bytes come from somewhere; only then may the code get
lost. -/
def wellSourced (rxbuf : ℕ → Byte) : Prog.Rules Call Answer Halt where
  allows past c := Quiet past → ∀ w ∈ wordsStored c, ∀ b ∈ wordBytes w,
    FromPacket rxbuf b ∨ FromRead past b
  stops past _ := Quiet past

/-- Nothing has failed, or the reply begun in `gc` has become one that says all went well. -/
def Glossed (gc : Conn) (past : List (Call × Answer)) (r : Packet) : Prop :=
  Quiet past ∨ r.2 = gdbPuts gc (ascii "OK") ∨
    ∃ bs : List Byte, bs ≠ [] ∧ bs.length ≤ 1024 ∧ r.2 = gdbPuthex gc bs

theorem quiet_nil : Quiet [] := fun _ h => absurd h List.not_mem_nil

/-! ### write_memory -/

theorem patchWord_bytes {x : Word} {offset : ℕ} {bs : List Byte} {b : Byte}
    (h : b ∈ wordBytes (patchWord x offset bs)) : b ∈ bs ∨ b ∈ wordBytes x := by
  obtain ⟨k, hk, rfl⟩ := List.mem_iff_getElem.mp h
  rw [wordBytes_length] at hk
  have hbyte := getD_leWord (fun i => if offset ≤ i then (bs[i - offset]?).getD ((wordBytes x).getD i 0)
    else (wordBytes x).getD i 0) hk
  have hold : (wordBytes x).getD k 0 ∈ wordBytes x := by
    rw [List.getD_eq_getElem _ _ (by rwa [wordBytes_length])]
    exact List.getElem_mem _
  rw [← List.getD_eq_getElem (d := 0), patchWord, hbyte]
  split_ifs with hle
  · cases hget : bs[k - offset]? with
    | none => exact .inr hold
    | some c => exact .inl (List.mem_of_getElem? hget)
  · exact .inr hold

section
variable {rxbuf : ℕ → Byte} {past : List (Call × Answer)}

/-- What is put over a part of a word comes from the packet, the rest from the read. -/
theorem rewriteWord_sourced (x addr : Word) (offset : ℕ) {bs : List Byte}
    (hbs : ∀ b ∈ bs, FromPacket rxbuf b) :
    (rewriteWord x addr offset bs).Ensures (wellSourced rxbuf) (fun _ _ => True) past := by
  refine ⟨fun _ w hw => absurd hw List.not_mem_nil, fun a => ⟨?_, fun _ => trivial⟩⟩
  intro hquiet w hw b hb
  obtain rfl := List.mem_singleton.mp hw
  rcases patchWord_bytes hb with hb | hb
  · exact .inl (hbs b hb)
  · have hread := hquiet _ (List.mem_append_right past (List.mem_singleton_self _))
    have hrc : a.rc = 0 := by
      by_contra hne
      exact hread hne
    exact .inr ⟨addr, _, a, List.mem_append_right past (List.mem_singleton_self _), hrc, hb⟩

/-- The bytes left to write come from the packet. -/
def Unwritten.Sourced (rxbuf : ℕ → Byte) (s : Unwritten) : Prop := ∀ b ∈ s.2.2, FromPacket rxbuf b

theorem writeHead_sourced {s : Unwritten} (hs : s.Sourced rxbuf) :
    (writeHead s).Ensures (wellSourced rxbuf) (fun _ s' => s'.Sourced rxbuf) past := by
  obtain ⟨x, addr, data⟩ := s
  dsimp only [writeHead]
  split
  · apply (rewriteWord_sourced x _ _ fun b hb => hs b (List.mem_of_mem_take hb)).bind
    intro t x' _ b hb
    exact hs b (List.mem_of_mem_drop hb)
  · exact hs

theorem wordsAt_mem {bs : List Byte} {n i : ℕ} (hn : 4 * n ≤ bs.length) (hi : i < n) {b : Byte}
    (hb : b ∈ wordBytes (wordsAt bs i)) : b ∈ bs := by
  have hword : b ∈ ((List.range n).map (wordsAt bs)).flatMap wordBytes :=
    List.mem_flatMap.mpr ⟨_, List.mem_map_of_mem (List.mem_range.mpr hi), hb⟩
  rw [wordsAt_bytes bs hn] at hword
  exact List.mem_of_mem_take hword

theorem writeWords_sourced {s : Unwritten} (hs : s.Sourced rxbuf) :
    (writeWords s).Ensures (wellSourced rxbuf) (fun _ s' => s'.Sourced rxbuf) past := by
  obtain ⟨x, addr, data⟩ := s
  dsimp only [writeWords]
  split
  · refine ⟨?_, fun a b hb => hs b (List.mem_of_mem_drop hb)⟩
    intro _ w hw b hb
    obtain ⟨i, hi, rfl⟩ := List.mem_map.mp hw
    rw [Int.toNat_natCast, List.mem_range] at hi
    have hwhole : 4 * (data.length / 4) ≤ data.length := by omega
    exact .inl (hs b (wordsAt_mem hwhole hi hb))
  · exact hs

theorem writeTail_sourced {s : Unwritten} (hs : s.Sourced rxbuf) :
    (writeTail s).Ensures (wellSourced rxbuf) (fun _ _ => True) past := by
  obtain ⟨x, addr, data⟩ := s
  dsimp only [writeTail]
  split
  · exact (rewriteWord_sourced x addr 0 hs).bind fun _ _ _ => trivial
  · trivial

theorem writeMemory_sourced (x addr : Word) {data : List Byte}
    (hdata : ∀ b ∈ data, FromPacket rxbuf b) :
    (writeMemory x addr data).Ensures (wellSourced rxbuf) (fun _ _ => True) past := by
  unfold writeMemory
  split
  · trivial
  · have hs : Unwritten.Sourced rxbuf (x, addr, data) := hdata
    apply (writeHead_sourced hs).bind
    intro t s' hs'
    apply (writeWords_sourced hs').bind
    intro t' s'' hs''
    exact writeTail_sourced hs''

/-! ### The packets -/

theorem cstrFrom_front {rxbuf : ℕ → Byte} {room i k : ℕ} (hk : k < (cstrFrom rxbuf room i).length) :
    ∀ j, i ≤ j → j ≤ i + k → rxbuf j ≠ 0 := by
  induction room generalizing i k with
  | zero => exact absurd hk (Nat.not_lt_zero k)
  | succ room ih =>
    intro j hij hjk
    rw [cstrFrom] at hk
    by_cases hzero : rxbuf i = 0
    · rw [if_pos hzero] at hk
      exact absurd hk (Nat.not_lt_zero k)
    · rw [if_neg hzero, List.length_cons] at hk
      rcases Nat.eq_or_lt_of_le hij with rfl | hlt
      · exact hzero
      · obtain ⟨k, rfl⟩ : ∃ k', k = k' + 1 := Nat.exists_eq_succ_of_ne_zero (by omega)
        exact ih (Nat.lt_of_succ_lt_succ hk) j hlt (by omega)

/-- There is no NUL up to the character that is found. -/
theorem strchr_front {rxbuf : ℕ → Byte} {i p : ℕ} {c : Byte} (h : strchr rxbuf i c = some p) :
    ∀ j, i ≤ j → j ≤ p → rxbuf j ≠ 0 := by
  obtain ⟨k, hk, rfl⟩ := Option.map_eq_some_iff.mp h
  have hlt : k < (cstr rxbuf i).length := (List.findIdx?_eq_some_iff_getElem.mp hk).1
  exact cstrFrom_front hlt

/-- Decoding stops at the NUL. -/
theorem hextobinPasses_front (passes : ℕ) {rxbuf rxbuf' : ℕ → Byte} {dst src k : ℕ} (hdst : dst ≤ src)
    (hrun : hextobinPasses passes rxbuf dst src = (rxbuf', dst + k)) :
    ∀ j, src ≤ j → j < src + 2 * k → rxbuf j ≠ 0 := by
  induction passes generalizing rxbuf dst src k with
  | zero =>
    have hk : dst = dst + k := (Prod.mk.inj hrun).2
    intro j hj hlt
    omega
  | succ passes ih =>
    rw [hextobinPasses] at hrun
    by_cases hpair : rxbuf src ≠ 0 ∧ rxbuf (src + 1) ≠ 0
    · rw [if_pos hpair] at hrun
      obtain ⟨_, k', hrun', -⟩ := hextobinPasses_reads passes
        (Function.update rxbuf dst (unhex (rxbuf src) (rxbuf (src + 1)))) (by omega : dst + 1 ≤ src + 2)
      have hk : dst + 1 + k' = dst + k := (Prod.mk.inj (hrun'.symm.trans hrun)).2
      obtain rfl : k = k' + 1 := by omega
      rw [← Nat.add_assoc, Nat.add_right_comm] at hrun
      intro j hj hlt
      by_cases hfirst : j < src + 2
      · rcases (by omega : j = src ∨ j = src + 1) with rfl | rfl
        · exact hpair.1
        · exact hpair.2
      · have hnext := ih (by omega) hrun j (by omega) (by omega)
        rwa [Function.update_of_ne (by omega)] at hnext
    · rw [if_neg hpair] at hrun
      have hk : dst = dst + k := (Prod.mk.inj hrun).2
      intro j hj hlt
      omega

/-- What is decoded over the buffer comes from the packet, of which only what lies in front
of the data has changed before. -/
theorem hextobin_sourced {rxbuf' : ℕ → Byte} {src : ℕ} (hpos : 0 < src)
    (hsame : ∀ j, src ≤ j → rxbuf' j = rxbuf j) (hfront : ∀ j, 0 < j → j < src → rxbuf j ≠ 0)
    (max : ℕ) : ∃ decoded len, hextobin rxbuf' 0 src max = (decoded, len) ∧
      ∀ i < len, FromPacket rxbuf (decoded i) := by
  obtain ⟨decoded, k, hrun, hread, _⟩ :=
    hextobinPasses_reads ((max + 1) / 2) rxbuf' (Nat.zero_le src)
  refine ⟨decoded, k, ?_, ?_⟩
  · rw [hextobin, hrun]
    show (decoded, 0 + k - 0) = _
    rw [Nat.zero_add, Nat.sub_zero]
  · intro i hi
    have hdigits := hextobinPasses_front _ (Nat.zero_le src) hrun
    have hbyte := hread i hi
    rw [Nat.zero_add, hsame _ (by omega), hsame _ (by omega)] at hbyte
    refine ⟨src + 2 * i, by omega, fun j hj hle => ?_, hbyte⟩
    by_cases hlt : j < src
    · exact hfront j hj hlt
    · rw [← hsame j (by omega)]
      exact hdigits j (by omega) (by omega)

theorem update_beyond (rxbuf : ℕ → Byte) (i : ℕ) (c : Byte) :
    ∀ j, i + 1 ≤ j → Function.update rxbuf i c j = rxbuf j := by
  intro j hj
  rw [Function.update_of_ne (by omega)]

theorem glossed_ok (past : List (Call × Answer)) (rxbuf' : ℕ → Byte) (gc : Conn) :
    Glossed gc past (rxbuf', gdbPuts gc (ascii "OK")) := .inr (.inl rfl)

theorem glossed_dump (past : List (Call × Answer)) (rxbuf' : ℕ → Byte) (gc : Conn)
    {bs : List Byte} (hpos : 0 < bs.length) (hle : bs.length ≤ 1024) :
    Glossed gc past (rxbuf', gdbPuthex gc bs) :=
  .inr (.inr ⟨bs, List.length_pos_iff.mp hpos, hle, rfl⟩)

/-- Looking at the selected thread takes no transaction. -/
theorem inactiveSelected_ensures (gc : Conn) :
    (inactiveSelected gc).Ensures (wellSourced rxbuf) (fun t _ => t = []) [] := by
  unfold inactiveSelected derefThread
  split
  · rfl
  · split
    · dsimp only [Prog.pure_eq, Prog.ret_bind]
      split <;> rfl
    · exact quiet_nil

theorem handleReadMemory_glossed (frame : ℕ → Word) (gc : Conn) :
    (handleReadMemory frame rxbuf gc).Ensures (wellSourced rxbuf) (Glossed gc) [] := by
  unfold handleReadMemory
  split
  next x n _ =>
    generalize hm : (if n > 1024 then 1024 else n) = m
    have hle : m.toNat ≤ 1024 := by
      rw [← hm]
      split_ifs with h
      · decide
      · exact Nat.not_lt.mp h
    refine ⟨fun _ w hw => absurd hw List.not_mem_nil, fun a => ?_⟩
    have hlen : (((bytesOf a.buf 258).drop (x &&& 3).toNat).take m.toNat).length = m.toNat := by
      have hoff : x.toNat % 4 < 4 := Nat.mod_lt _ (by decide)
      rw [List.length_take, List.length_drop, bytesOf_length, and_three_toNat]
      omega
    by_cases hzero : m.toNat = 0
    · -- no words are asked for
      left
      intro e he
      obtain rfl := List.mem_singleton.mp he
      rintro ⟨hcount, _⟩
      rw [words_toNat hle, hzero] at hcount
      exact absurd hcount (by decide)
    · exact glossed_dump _ rxbuf gc (by omega) (by omega)
  · exact .inl quiet_nil

theorem wordAt_sourced {decoded : ℕ → Byte} {i : ℕ}
    (h : ∀ k < 4, FromPacket rxbuf (decoded (i + k))) :
    ∀ b ∈ wordBytes (wordAt decoded i), FromPacket rxbuf b := by
  intro b hb
  rw [wordAt, wordBytes_leWord] at hb
  simp only [List.mem_cons, List.not_mem_nil, or_false] at hb
  rcases hb with rfl | rfl | rfl | rfl
  · exact h 0 (by decide)
  · exact h 1 (by decide)
  · exact h 2 (by decide)
  · exact h 3 (by decide)

/-- The registers written hold bytes of the packet. -/
theorem writeRegsFrom_sourced {decoded : ℕ → Byte} (k : ℕ) {n : ℕ}
    (hdecoded : ∀ i < 4 * (n + k), FromPacket rxbuf (decoded i)) :
    (writeRegsFrom decoded k n).Ensures (wellSourced rxbuf) (fun _ _ => True) past := by
  induction k generalizing n past with
  | zero => trivial
  | succ k ih =>
    refine ⟨?_, fun a => ih (by intro i hi; exact hdecoded i (by omega))⟩
    intro _ w hw b hb
    obtain rfl := List.mem_singleton.mp hw
    left
    exact wordAt_sourced (fun j hj => hdecoded _ (by omega)) b hb

theorem handleWriteMemory_glossed (frame : ℕ → Word) (gc : Conn) :
    (handleWriteMemory frame rxbuf gc).Ensures (wellSourced rxbuf) (Glossed gc) [] := by
  unfold handleWriteMemory
  split
  · exact .inl quiet_nil
  next colon hcolon =>
    dsimp only
    split
    next x n _ =>
      have hfront (j : ℕ) (hj : 0 < j) (hlt : j < colon + 1) : rxbuf j ≠ 0 :=
        strchr_front hcolon j hj (Nat.lt_succ_iff.mp hlt)
      obtain ⟨decoded, len, hrun, hsourced⟩ :=
        hextobin_sourced (Nat.succ_pos colon) (update_beyond rxbuf colon 0) hfront maxpkt
      rw [hrun]
      have hdata : ∀ b ∈ (List.range len).map decoded, FromPacket rxbuf b := by
        intro b hb
        obtain ⟨i, hi, rfl⟩ := List.mem_map.mp hb
        exact hsourced i (List.mem_range.mp hi)
      apply (writeMemory_sourced (frame 258) x hdata).bind
      intro t _ _
      exact glossed_ok t decoded gc
    · exact .inl quiet_nil

theorem handleReadRegs_glossed (frame : ℕ → Word) (gc : Conn) :
    (handleReadRegs frame rxbuf gc).Ensures (wellSourced rxbuf) (Glossed gc) [] := by
  apply (inactiveSelected_ensures gc).bind
  rintro _ (_ | t) rfl
  · refine ⟨fun _ w hw => absurd hw ?_, fun a => ?_⟩
    · exact List.not_mem_nil
    · exact glossed_dump _ rxbuf gc (by rw [bytesOf_length]; decide) (by rw [bytesOf_length]; decide)
  · exact .inl quiet_nil

theorem handleWriteRegs_glossed (gc : Conn) :
    (handleWriteRegs rxbuf gc).Ensures (wellSourced rxbuf) (Glossed gc) [] := by
  apply (inactiveSelected_ensures gc).bind
  rintro _ (_ | t) rfl
  · obtain ⟨decoded, len, hrun, hsourced⟩ :=
      @hextobin_sourced rxbuf rxbuf _ Nat.one_pos (fun _ _ => rfl) (fun j hj hlt => absurd hlt (by omega))
        maxpkt
    dsimp only
    rw [hrun]
    apply (writeRegsFrom_sourced (len / 4) ?_).bind
    · intro t _ _
      exact glossed_ok t decoded gc
    · intro i hi
      exact hsourced i (by omega)
  · exact .inl quiet_nil

theorem handleReadReg_glossed (frame : ℕ → Word) (gc : Conn) :
    (handleReadReg frame rxbuf gc).Ensures (wellSourced rxbuf) (Glossed gc) [] := by
  apply (inactiveSelected_ensures gc).bind
  rintro _ (_ | t) rfl
  · refine ⟨fun _ w hw => absurd hw List.not_mem_nil, fun a => ?_⟩
    exact glossed_dump _ rxbuf gc (by rw [wordBytes_length]; decide) (by rw [wordBytes_length]; decide)
  · exact .inl quiet_nil

theorem handleWriteReg_glossed (gc : Conn) :
    (handleWriteReg rxbuf gc).Ensures (wellSourced rxbuf) (Glossed gc) [] := by
  apply (inactiveSelected_ensures gc).bind
  rintro _ (_ | t) rfl
  · dsimp only
    split
    · exact .inl quiet_nil
    next eq heq =>
      have hfront (j : ℕ) (hj : 0 < j) (hlt : j < eq + 1) : rxbuf j ≠ 0 :=
        strchr_front heq j hj (Nat.lt_succ_iff.mp hlt)
      obtain ⟨decoded, len, hrun, hsourced⟩ :=
        hextobin_sourced (Nat.succ_pos eq) (update_beyond rxbuf eq 0) hfront maxpkt
      rw [hrun]
      dsimp only
      split
      · exact .inl quiet_nil
      next hlen =>
        refine ⟨?_, fun a => glossed_ok _ decoded gc⟩
        intro _ w hw b hb
        obtain rfl := List.mem_singleton.mp hw
        left
        exact wordAt_sourced (fun j hj => hsourced _ (by omega)) b hb
  · exact .inl quiet_nil

end

/-- The packets that read and write registers and memory. -/
def Letter.transfers : Letter → Bool
  | .readMemory | .writeMemory | .readRegs | .writeRegs | .readReg | .writeReg => true
  | _ => false

theorem answerCommand_glossed (threads : ℕ) (frame : ℕ → Word) (rxbuf : ℕ → Byte) (gc : Conn)
    {l : Letter} (hl : l.transfers = true) :
    (answerCommand threads frame l rxbuf gc).Ensures (wellSourced rxbuf) (Glossed gc) [] := by
  cases l with
  | readMemory => exact handleReadMemory_glossed frame gc
  | writeMemory => exact handleWriteMemory_glossed frame gc
  | readRegs => exact handleReadRegs_glossed frame gc
  | writeRegs => exact handleWriteRegs_glossed gc
  | readReg => exact handleReadReg_glossed frame gc
  | writeReg => exact handleWriteReg_glossed gc
  | resume | why | select | alive | halt | extended | point | unknown => exact absurd hl Bool.false_ne_true

/-- gdb is told that all went well. -/
def Reassured (t : List (Call × Answer)) : Prop :=
  ∃ packet a, (Call.send packet, a) ∈ t ∧ Reassuring packet

theorem epilogue_reassures {rxbuf : ℕ → Byte} {gc : Conn} {t : List (Call × Answer)} {r : Packet}
    (h : Glossed (gdbPrologue gc) t r) :
    (epilogue r.2).Ensures (wellSourced rxbuf) (fun t' _ => Quiet t' ∨ Reassured t') t := by
  have hsent : ∀ packet (k : Answer → Conn), Reassuring packet →
      (Prog.call (Call.send packet) fun a => .ret (k a) : HostProg Conn).Ensures (wellSourced rxbuf)
        (fun t' _ => Quiet t' ∨ Reassured t') t := by
    intro packet k hpacket
    refine ⟨fun _ w hw => absurd hw List.not_mem_nil, fun a => .inr ⟨packet, a, ?_, hpacket⟩⟩
    exact List.mem_append_right t (List.mem_singleton_self _)
  rcases h with hquiet | hok | ⟨bs, hne, hlen, hdump⟩
  · unfold epilogue
    split
    · exact .inl hquiet
    · refine ⟨fun _ w hw => absurd hw List.not_mem_nil, fun a => .inl ?_⟩
      intro e he
      rcases List.mem_append.mp he with he | he
      · exact hquiet e he
      · obtain rfl := List.mem_singleton.mp he
        exact id
  · rw [hok, epilogue_puts gc (by decide)]
    exact hsent _ _ (.inl rfl)
  · rw [hdump, epilogue_puthex gc hlen]
    exact hsent _ _ (.inr ⟨bs, hne, rfl⟩)

/-- Whatever the transactions are answered: stored bytes come from somewhere while nothing
has failed, and once something has failed the reply says that all went well. -/
theorem handleCommand_glossed (threads : ℕ) (frame : ℕ → Word) {rxbuf : ℕ → Byte}
    (hl : (letter (rxbuf 0)).transfers = true) (gc : Conn) :
    (handleCommand threads frame rxbuf gc).Ensures (wellSourced rxbuf)
      (fun t _ => Quiet t ∨ Reassured t) [] := by
  have hanswer := answerCommand_glossed threads frame rxbuf (gdbPrologue gc) hl
  have hresume : ∀ step, letter (rxbuf 0) ≠ .resume step := by
    intro step h
    rw [h] at hl
    exact absurd hl Bool.false_ne_true
  rw [handleCommand_answered hresume]
  apply hanswer.bind
  intro t r hr
  apply (epilogue_reassures hr).bind
  intro t' gc' h
  exact h

/-- The code handles the failures it meets as it should exactly where it meets none. -/
theorem handlesFailures_iff {threads : ℕ} {frame : ℕ → Word} {rxbuf : ℕ → Byte} {gc : Conn}
    (hl : (letter (rxbuf 0)).transfers = true) {t : List (Call × Answer)} {r : Except Halt Packet}
    (hpath : Prog.Path (handleCommand threads frame rxbuf gc) t r) :
    HandlesFailures rxbuf t ↔ Quiet t := by
  have hglossed := handleCommand_glossed threads frame hl gc
  constructor
  · intro hhandles
    have hend : Quiet t ∨ Reassured t := by
      cases r with
      | ok r => exact hglossed.returns hpath
      | error e => exact .inl (hglossed.stops hpath)
    rcases hend with hquiet | ⟨packet, a, hsend, hpacket⟩
    · exact hquiet
    · intro e he hfailed
      exact hhandles.reply ⟨e, he, hfailed⟩ packet a hsend hpacket
  · intro hquiet
    refine ⟨?_, ?_⟩
    · rintro ⟨e, he, hfailed⟩
      exact absurd hfailed (hquiet e he)
    · intro t1 c a t2 ht
      apply hglossed.allows hpath ht
      intro e he
      apply hquiet
      rw [ht]
      exact List.mem_append_left _ he

/-- What is asked for one byte to be stored at the address 1 over `stack`, with the answer
`a` to the read. -/
def storeByte (stack : Word) (a : Answer) : List (Call × Answer) :=
  [(.exec [.read 0] fun _ => stack, a),
   (.exec [.write 0 (patchWord (a.buf 0) 1 [0x5a])] fun _ => 0, statusAnswer 0 fun _ => 0),
   (.send (framed (ascii "OK")), statusAnswer 0 fun _ => 0)]

theorem storeByte_path (stack : Word) (a : Answer) :
    ∃ r, Prog.Path (handleCommand 0 (fun _ => stack) (holding (ascii "M1,1:5a")) idleConn)
      (storeByte stack a) (.ok r) := by
  have h : WritePacket (holding (ascii "M1,1:5a")) 1 1 (ascii "5a") :=
    ⟨⟨ascii "1,1", by decide, by decide, by decide⟩, by decide⟩
  obtain ⟨rxbuf', hbody⟩ := handleWriteMemory_eq h (fun _ => stack) (gdbPrologue idleConn)
  have hletter : letter (holding (ascii "M1,1:5a") 0) = .writeMemory := by decide
  have hbytes : hexBytes (ascii "5a") = [0x5a] := by decide
  have hcommand : handleCommand 0 (fun _ => stack) (holding (ascii "M1,1:5a")) idleConn =
      .call (.exec [.read 0] fun _ => stack) fun a =>
        .call (.exec [.write 0 (patchWord (a.buf 0) 1 [0x5a])] fun _ => 0) fun _ => do
          let gc ← epilogue (gdbPuts (gdbPrologue idleConn) (ascii "OK"))
          return (rxbuf', gc) := by
    rw [handleCommand, hletter]
    dsimp only [answerCommand]
    rw [hbody, hbytes]
    rfl
  rw [hcommand, epilogue_puts idleConn (by decide)]
  refine ⟨(rxbuf', gdbEpilogue [] (gdbPuts (gdbPrologue idleConn) (ascii "OK"))), ?_⟩
  exact .call (.call (.call (.ret _)))

/-- With all transactions answered. -/
theorem handlesFailures_iff_M :
    HandlesFailures (holding (ascii "M1,1:5a")) (storeByte 0 (statusAnswer 0 fun _ => 0)) ↔
      Quiet (storeByte 0 (statusAnswer 0 fun _ => 0)) := by
  obtain ⟨r, hpath⟩ := storeByte_path 0 (statusAnswer 0 fun _ => 0)
  exact handlesFailures_iff (by decide) hpath

/-- The read of the word fails: three bytes of what was on the stack are stored beside the
packet's, and the answer is `OK`. -/
theorem failed_read_stored :
    ∃ t r, Prog.Path (handleCommand 0 (fun _ => 0x12345678) (holding (ascii "M1,1:5a")) idleConn) t r ∧
      (.exec [.write 0 0x12345a78] fun _ => 0, statusAnswer 0 fun _ => 0) ∈ t ∧
      ¬ HandlesFailures (holding (ascii "M1,1:5a")) t := by
  obtain ⟨r, hpath⟩ := storeByte_path 0x12345678 (statusAnswer (-1) fun _ => 0x12345678)
  refine ⟨_, _, hpath, ?_, ?_⟩
  · have hword : patchWord 0x12345678 1 [0x5a] = 0x12345a78 := by decide
    rw [storeByte, statusAnswer, hword]
    exact List.mem_cons_of_mem _ List.mem_cons_self
  · intro hhandles
    apply hhandles.reply ⟨_, List.mem_cons_self, ?_⟩ (framed (ascii "OK"))
    · exact List.mem_cons_of_mem _ (List.mem_cons_of_mem _ List.mem_cons_self)
    · exact .inl rfl
    · show (-1 : ℤ) ≠ 0
      decide

end M3Dev.Gdb
