import M3Dev.Buffer
import M3Dev.CallTriple
import M3Dev.HostCalls

/-! `tools/stm32boot.c`: a file into the flash of an STM32, through its boot ROM at the other
end of a serial line. -/
namespace M3Dev.Stm32Boot
open CallTree WhileLoop Buffer

inductive Call where
  | write (data : List Byte)
  /-- `read(fd, &x, 1)` -/
  | read
  deriving DecidableEq, Repr

/-- How many bytes were written or read, and the byte read. -/
structure Answer where
  n : ℤ
  x : Byte
  deriving Repr

abbrev Program := Prog Call Answer Tools.Halt

abbrev ack : Byte := 0x79

/-- The `read`s that are left of `readAck`. -/
def readAckFrom : ℕ → Program ℤ
  | 0 => return -1
  | n + 1 => do
    let r ← Prog.ask .read
    if r.n = 1 then
      if r.x = ack then return 0 else return -1
    else readAckFrom n

/-- 3s timeout -/
def readAck : Program ℤ := readAckFrom 30

def sendCommand (cmd : Word) : Program ℤ := do
  let w ← Prog.ask (.write [cmd.setWidth 8, (cmd ^^^ 0xFF).setWidth 8])
  if w.n ≠ 2 then return -1
  if (← readAck) ≠ 0 then return -1
  return 0

/-- An address, the most significant byte first, and the XOR of its bytes. -/
def addressBytes (addr : Word) : List Byte :=
  let d0 := (addr >>> 24).setWidth 8
  let d1 := (addr >>> 16).setWidth 8
  let d2 := (addr >>> 8).setWidth 8
  let d3 := addr.setWidth 8
  [d0, d1, d2, d3, d0 ^^^ d1 ^^^ d2 ^^^ d3]

def sendAddress (addr : Word) : Program ℤ := do
  let w ← Prog.ask (.write (addressBytes addr))
  if w.n ≠ 5 then return -1
  if (← readAck) ≠ 0 then return -1
  return 0

/-- The size of `buf` in `main`. -/
def bufSize : ℕ := 32768

/-- `check` behind the loop of `sendData`, which starts from `x`. -/
def checkByte (x : Byte) (data : List Byte) : Byte := data.foldl (· ^^^ ·) x

/-- `sendData(fd, buf + data, len)` -/
def sendData (buf : ℕ → Byte) (data len : ℕ) : Program ℤ := do
  if len < 1 ∨ len > 256 then return -1
  -- the loop, and `write`, read past the array
  if data + len > bufSize then .stop .wild
  let x := BitVec.ofNat 8 (len - 1)
  let bytes := get buf data len
  let w ← Prog.ask (.write [x])
  if w.n ≠ 1 then return -1
  let w ← Prog.ask (.write bytes)
  if w.n ≠ len then return -1
  let w ← Prog.ask (.write [checkByte x bytes])
  if w.n ≠ 1 then return -1
  if (← readAck) ≠ 0 then return -1
  return 0

/-- The variables of `writeMemory`. -/
structure WriteState where
  addr : Word
  data : ℕ
  len : ℕ

def writePass (buf : ℕ → Byte) (s : WriteState) : Program (Pass WriteState ℤ) := do
  if s.len = 0 then return .exit 0
  let xfer := if s.len > 256 then 256 else s.len
  if (← sendCommand 0x31) ≠ 0 then return .exit (-1)
  if (← sendAddress s.addr) ≠ 0 then return .exit (-1)
  if (← sendData buf s.data xfer) ≠ 0 then return .exit (-1)
  return .next { addr := s.addr + BitVec.ofNat 32 xfer, data := s.data + xfer, len := s.len - xfer }

/-- A pass takes a byte off `len` at least, so that the passes are enough. -/
def writeMemory (buf : ℕ → Byte) (addr : Word) (len : ℕ) : Program ℤ :=
  Prog.loop .spins (writePass buf) (len + 1) { addr := addr, data := 0, len := len }

def eraseFlash : Program ℤ := do
  if (← sendCommand 0x43) ≠ 0 then return -1
  -- the array is one of `unsigned`s: these are two bytes of the first
  let w ← Prog.ask (.write ((wordBytes 0xFF).take 2))
  if w.n ≠ 2 then return -1
  if (← readAck) ≠ 0 then return -1
  return 0

def flashBase : Word := 0x08000000

/-- `stm32boot flash` once the boot ROM has answered. `stale` is what `buf` holds before the
file is read into it. -/
def flash (stale : ℕ → Byte) (file : List Byte) : Program ℤ := do
  let n := min file.length bufSize
  let buf := put stale 0 (file.take bufSize)
  if n = 0 then return -1
  let n := n + n % 4
  if (← eraseFlash) ≠ 0 then return -1
  if (← writeMemory buf flashBase n) ≠ 0 then return -1
  return 0

/-! ### Frames -/

/-- The writes of one pass of `writeMemory`. -/
structure Frame where
  command : List Byte
  address : List Byte
  count : List Byte
  data : List Byte
  check : List Byte

def Frame.writes (f : Frame) : List (List Byte) :=
  [f.command, f.address, f.count, f.data, f.check]

def xorAll (bytes : List Byte) : Byte := bytes.foldr (· ^^^ ·) 0

/-- The most significant byte first. -/
def bigEndian (addr : Word) : List Byte := (wordBytes addr).reverse

/-- A Write Memory command for `addr`, as the boot ROM takes it. -/
structure Frame.Sound (f : Frame) (addr : Word) : Prop where
  command : f.command = [0x31, 0xCE]
  address : f.address = bigEndian addr ++ [xorAll (bigEndian addr)]
  nonempty : 1 ≤ f.data.length
  room : f.data.length ≤ 256
  count : f.count = [BitVec.ofNat 8 (f.data.length - 1)]
  check : f.check = [xorAll (f.count ++ f.data)]

/-- Sound frames for consecutive addresses. -/
def Consecutive : Word → List Frame → Prop
  | _, [] => True
  | addr, f :: fs => f.Sound addr ∧ Consecutive (addr + BitVec.ofNat 32 f.data.length) fs

/-- The writes are frames of whole words that put the file at the beginning of the flash, and
fewer than four bytes behind it. -/
def Delivers (writes : List (List Byte)) (file : List Byte) : Prop :=
  ∃ frames padding, writes = frames.flatMap Frame.writes ∧ Consecutive flashBase frames ∧
    (∀ f ∈ frames, 4 ∣ f.data.length) ∧ frames.flatMap Frame.data = file ++ padding ∧
    padding.length < 4

theorem checkByte_eq (x : Byte) (data : List Byte) : checkByte x data = xorAll (x :: data) := by
  unfold checkByte
  induction data generalizing x with
  | nil => exact (BitVec.xor_zero).symm
  | cons b data ih =>
    rw [List.foldl_cons, ih]
    show (x ^^^ b) ^^^ xorAll data = x ^^^ (b ^^^ xorAll data)
    exact BitVec.xor_assoc x b _

theorem addressBytes_eq (addr : Word) :
    addressBytes addr = bigEndian addr ++ [xorAll (bigEndian addr)] := by
  simp [addressBytes, bigEndian, wordBytes, xorAll, BitVec.xor_assoc]

/-- The bytes on the line, counted in two ways. -/
theorem Consecutive.lengths {addr : Word} {frames : List Frame} (h : Consecutive addr frames) :
    (frames.flatMap Frame.writes).length = 5 * frames.length ∧
      (frames.flatMap Frame.writes).flatten.length =
        9 * frames.length + (frames.flatMap Frame.data).length := by
  induction frames generalizing addr with
  | nil => exact ⟨rfl, rfl⟩
  | cons f fs ih =>
    obtain ⟨hsound, hrest⟩ := h
    obtain ⟨hwrites, hbytes⟩ := ih hrest
    constructor
    · rw [List.flatMap_cons, List.length_append, hwrites, List.length_cons]
      show 5 + _ = _
      omega
    · rw [List.flatMap_cons, List.flatten_append, List.length_append, hbytes, List.flatMap_cons,
        List.length_append, List.length_cons]
      simp only [Frame.writes, List.flatten_cons, List.flatten_nil, List.length_append,
        List.length_nil, hsound.command, hsound.address, hsound.count, hsound.check, bigEndian,
        List.length_reverse, wordBytes_length, List.length_cons]
      omega

theorem data_words {frames : List Frame} (h : ∀ f ∈ frames, 4 ∣ f.data.length) :
    4 ∣ (frames.flatMap Frame.data).length := by
  induction frames with
  | nil => exact Nat.dvd_zero 4
  | cons f fs ih =>
    rw [List.flatMap_cons, List.length_append]
    exact Nat.dvd_add (h f List.mem_cons_self) (ih fun g hg => h g (List.mem_cons_of_mem f hg))

/-! ### A boot ROM that acknowledges -/

/-- Whatever is written is taken as a whole, and every wait for an ACK ends with one. `sent` is
what has been written. -/
structure Acks {σ : Type} (R : Responder Call Answer σ) (sent : σ → List (List Byte)) : Prop where
  write : ∀ s bytes, ∃ r s', R (.write bytes) s = some (r, s') ∧ r.n = bytes.length ∧
    sent s' = sent s ++ [bytes]
  acked : ∀ s, ∃ s', readAck.run R s = some (.ok 0, s') ∧ sent s' = sent s

section
variable {σ : Type} {R : Responder Call Answer σ} {sent : σ → List (List Byte)}

/-- The program comes back with `a`, and has written `ws`. -/
def Sends (R : Responder Call Answer σ) (sent : σ → List (List Byte)) {α : Type} (p : Program α)
    (s : σ) (a : α) (ws : List (List Byte)) : Prop :=
  ∃ s', p.run R s = some (.ok a, s') ∧ sent s' = sent s ++ ws

theorem Sends.ret {α : Type} (a : α) (s : σ) : Sends R sent (.ret a) s a [] :=
  ⟨s, rfl, (List.append_nil _).symm⟩

theorem Sends.bind {α β : Type} {p : Program α} {f : α → Program β} {s : σ} {a : α} {b : β}
    {ws ws' : List (List Byte)} (h : Sends R sent p s a ws)
    (hf : ∀ s, Sends R sent (f a) s b ws') : Sends R sent (p >>= f) s b (ws ++ ws') := by
  obtain ⟨s', hrun, hsent⟩ := h
  obtain ⟨s'', hrun', hsent'⟩ := hf s'
  refine ⟨s'', ?_, ?_⟩
  · rw [Prog.run_bind hrun, hrun']
  · rw [hsent', hsent, List.append_assoc]

/-- A write, and what is done when all of it was taken. -/
theorem Acks.sends_write (h : Acks R sent) {β : Type} {bytes : List Byte} {f : Answer → Program β}
    {b : β} {ws : List (List Byte)}
    (hf : ∀ r s, r.n = (bytes.length : ℤ) → Sends R sent (f r) s b ws) (s : σ) :
    Sends R sent (Prog.ask (.write bytes) >>= f) s b (bytes :: ws) := by
  obtain ⟨r, s', hanswer, hn, hsent⟩ := h.write s bytes
  have hask : Sends R sent (Prog.ask (.write bytes)) s r [bytes] :=
    ⟨s', Prog.run_call hanswer _, hsent⟩
  exact hask.bind fun s => hf r s hn

/-- A wait for an ACK, and what is done when it came. -/
theorem Acks.sends_ack (h : Acks R sent) {β : Type} {f : ℤ → Program β} {b : β}
    {ws : List (List Byte)} (hf : ∀ s, Sends R sent (f 0) s b ws) (s : σ) :
    Sends R sent (readAck >>= f) s b ws := by
  obtain ⟨s', hrun, hsent⟩ := h.acked s
  have hack : Sends R sent readAck s 0 [] := ⟨s', hrun, by rw [hsent, List.append_nil]⟩
  exact hack.bind hf

theorem sendCommand_sends (h : Acks R sent) (cmd : Word) (s : σ) :
    Sends R sent (sendCommand cmd) s 0 [[cmd.setWidth 8, (cmd ^^^ 0xFF).setWidth 8]] := by
  apply h.sends_write
  intro r s hn
  rw [if_neg (not_not_intro (show r.n = 2 from hn))]
  exact h.sends_ack (f := fun rc => if rc ≠ 0 then return -1 else return 0) (Sends.ret 0) s

theorem sendAddress_sends (h : Acks R sent) (addr : Word) (s : σ) :
    Sends R sent (sendAddress addr) s 0 [addressBytes addr] := by
  apply h.sends_write
  intro r s hn
  rw [if_neg (not_not_intro (show r.n = 5 from hn))]
  exact h.sends_ack (f := fun rc => if rc ≠ 0 then return -1 else return 0) (Sends.ret 0) s

theorem eraseFlash_sends (h : Acks R sent) (s : σ) :
    Sends R sent eraseFlash s 0 [[0x43, 0xBC], [0xFF, 0x00]] := by
  apply (sendCommand_sends h 0x43 s).bind
  intro s
  rw [if_neg (not_not_intro rfl)]
  apply h.sends_write
  intro r s hn
  rw [if_neg (not_not_intro (show r.n = 2 from hn))]
  exact h.sends_ack (f := fun rc => if rc ≠ 0 then return -1 else return 0) (Sends.ret 0) s

theorem sendData_sends (h : Acks R sent) (buf : ℕ → Byte) {data len : ℕ} (hlen : 1 ≤ len)
    (hroom : len ≤ 256) (hin : data + len ≤ bufSize) (s : σ) :
    Sends R sent (sendData buf data len) s 0 [[BitVec.ofNat 8 (len - 1)], get buf data len,
      [checkByte (BitVec.ofNat 8 (len - 1)) (get buf data len)]] := by
  have hsize : ¬ (len < 1 ∨ len > 256) := by omega
  unfold sendData
  rw [if_neg hsize, if_neg (by omega)]
  apply h.sends_write
  intro r s hn
  rw [if_neg (not_not_intro (show r.n = 1 from hn))]
  apply h.sends_write
  intro r s hn
  rw [get_length] at hn
  rw [if_neg (not_not_intro hn)]
  apply h.sends_write
  intro r s hn
  rw [if_neg (not_not_intro (show r.n = 1 from hn))]
  exact h.sends_ack (f := fun rc => if rc ≠ 0 then return -1 else return 0) (Sends.ret 0) s

/-- The frame for `len` bytes from `data` on. -/
def frame (buf : ℕ → Byte) (addr : Word) (data len : ℕ) : Frame where
  command := [0x31, 0xCE]
  address := addressBytes addr
  count := [BitVec.ofNat 8 (len - 1)]
  data := get buf data len
  check := [checkByte (BitVec.ofNat 8 (len - 1)) (get buf data len)]

theorem frame_sound (buf : ℕ → Byte) (addr : Word) (data : ℕ) {len : ℕ} (hlen : 1 ≤ len)
    (hroom : len ≤ 256) : (frame buf addr data len).Sound addr := by
  have hlength : (frame buf addr data len).data.length = len := get_length buf data len
  refine ⟨rfl, addressBytes_eq addr, ?_, ?_, ?_, ?_⟩
  · rw [hlength]
    exact hlen
  · rw [hlength]
    exact hroom
  · rw [hlength]
    rfl
  · exact congrArg (fun b => [b]) (checkByte_eq _ _)

/-- The bytes of a pass. -/
def xfer (len : ℕ) : ℕ := if len > 256 then 256 else len

theorem writePass_next (h : Acks R sent) (buf : ℕ → Byte) {w : WriteState} (hlen : 1 ≤ w.len)
    (hin : w.data + xfer w.len ≤ bufSize) (s : σ) :
    Sends R sent (writePass buf w) s
      (.next { addr := w.addr + BitVec.ofNat 32 (xfer w.len), data := w.data + xfer w.len,
               len := w.len - xfer w.len })
      (frame buf w.addr w.data (xfer w.len)).writes := by
  have hone : 1 ≤ xfer w.len := by
    unfold xfer
    split_ifs <;> omega
  have hroom : xfer w.len ≤ 256 := by
    unfold xfer
    split_ifs <;> omega
  unfold writePass
  rw [if_neg (by omega)]
  apply (sendCommand_sends h 0x31 s).bind
  intro s
  rw [if_neg (not_not_intro rfl)]
  apply (sendAddress_sends h w.addr s).bind
  intro s
  rw [if_neg (not_not_intro rfl)]
  apply (sendData_sends h buf hone hroom hin s).bind
  intro s
  rw [if_neg (not_not_intro rfl)]
  exact Sends.ret _ s

/-- A pass whose bytes are not all in the array. -/
theorem writePass_wild (h : Acks R sent) (buf : ℕ → Byte) {w : WriteState} (hlen : 1 ≤ w.len)
    (hin : bufSize < w.data + xfer w.len) (s : σ) :
    ∃ s', (writePass buf w).run R s = some (.error .wild, s') := by
  have hsize : ¬ (xfer w.len < 1 ∨ xfer w.len > 256) := by
    unfold xfer
    split_ifs <;> omega
  have hwild : sendData buf w.data (xfer w.len) = .stop .wild := by
    rw [sendData, if_neg hsize, if_pos hin]
    rfl
  obtain ⟨s1, hcommand, _⟩ := sendCommand_sends h 0x31 s
  obtain ⟨s2, haddress, _⟩ := sendAddress_sends h w.addr s1
  refine ⟨s2, ?_⟩
  unfold writePass
  rw [if_neg (by omega), Prog.run_bind hcommand, if_neg (not_not_intro rfl),
    Prog.run_bind haddress, if_neg (not_not_intro rfl)]
  show (sendData buf w.data (xfer w.len) >>= _).run R s2 = _
  rw [hwild]
  rfl

theorem writeLoop_sends (h : Acks R sent) (buf : ℕ → Byte) {passes : ℕ} {w : WriteState}
    (hpasses : w.len < passes) (hin : w.data + w.len ≤ bufSize) (s : σ) :
    ∃ frames, Sends R sent (Prog.loop .spins (writePass buf) passes w) s 0
        (frames.flatMap Frame.writes) ∧
      Consecutive w.addr frames ∧ frames.flatMap Frame.data = get buf w.data w.len ∧
      (4 ∣ w.len → ∀ f ∈ frames, 4 ∣ f.data.length) := by
  induction passes generalizing w s with
  | zero => omega
  | succ passes ih =>
    by_cases hzero : w.len = 0
    · refine ⟨[], ?_, trivial, by rw [hzero]; rfl, fun _ f hf => absurd hf List.not_mem_nil⟩
      refine ⟨s, Prog.run_loop_exit ?_ passes, (List.append_nil _).symm⟩
      rw [writePass, if_pos hzero]
      rfl
    · have hx : 1 ≤ xfer w.len ∧ xfer w.len ≤ w.len ∧ xfer w.len ≤ 256 ∧
          (4 ∣ w.len → 4 ∣ xfer w.len) := by
        unfold xfer
        split_ifs <;> omega
      obtain ⟨s1, hpass, hsent1⟩ := writePass_next h buf (Nat.one_le_iff_ne_zero.mpr hzero)
        (by omega) s
      generalize xfer w.len = x at hx hpass hsent1
      obtain ⟨frames, ⟨s2, hrun, hsent2⟩, hframes, hdata, hwords⟩ :=
        ih (w := { addr := w.addr + BitVec.ofNat 32 x, data := w.data + x, len := w.len - x })
          (by dsimp only; omega) (by dsimp only; omega) s1
      have hlength : (frame buf w.addr w.data x).data.length = x := get_length buf w.data x
      refine ⟨frame buf w.addr w.data x :: frames, ⟨s2, ?_, ?_⟩, ⟨?_, ?_⟩, ?_, ?_⟩
      · rw [Prog.run_loop_next hpass, hrun]
      · rw [hsent2, hsent1, List.append_assoc, List.flatMap_cons]
      · exact frame_sound buf w.addr w.data hx.1 hx.2.2.1
      · rw [hlength]
        exact hframes
      · have hsum : w.len = x + (w.len - x) := by omega
        rw [List.flatMap_cons, hdata, hsum, get_add, Nat.add_sub_cancel_left]
        rfl
      · intro h4 f hf
        rcases List.mem_cons.mp hf with rfl | hf
        · rw [hlength]
          exact hx.2.2.2 h4
        · exact hwords (Nat.dvd_sub h4 (hx.2.2.2 h4)) f hf

/-- The loop comes to the end of the array. -/
theorem writeLoop_wild (h : Acks R sent) (buf : ℕ → Byte) {passes : ℕ} {w : WriteState}
    (hpasses : w.len < passes) (hstart : w.data ≤ bufSize) (hout : bufSize < w.data + w.len) (s : σ) :
    ∃ s', (Prog.loop .spins (writePass buf) passes w).run R s = some (.error .wild, s') := by
  induction passes generalizing w s with
  | zero => omega
  | succ passes ih =>
    have hone : 1 ≤ w.len := by omega
    have hx : 1 ≤ xfer w.len ∧ xfer w.len ≤ w.len := by
      unfold xfer
      split_ifs <;> omega
    by_cases hin : w.data + xfer w.len ≤ bufSize
    · obtain ⟨s1, hpass, _⟩ := writePass_next h buf hone hin s
      obtain ⟨s2, hrun⟩ := ih
        (w := { addr := w.addr + BitVec.ofNat 32 (xfer w.len), data := w.data + xfer w.len,
                len := w.len - xfer w.len })
        (by dsimp only; omega) hin (by dsimp only; omega) s1
      exact ⟨s2, by rw [Prog.run_loop_next hpass, hrun]⟩
    · obtain ⟨s1, hpass⟩ := writePass_wild h buf hone (Nat.not_le.mp hin) s
      exact ⟨s1, Prog.run_bind_error hpass _⟩

/-- The bytes that are sent for the file. -/
theorem get_file (stale : ℕ → Byte) {file : List Byte} (hroom : file.length ≤ bufSize) (n : ℕ) :
    get (put stale 0 (file.take bufSize)) 0 (file.length + n) =
      file ++ get (put stale 0 file) file.length n := by
  rw [List.take_of_length_le hroom, get_add, get_put (Nat.le_refl _), List.take_length, Nat.zero_add]

/-- Past the erase. -/
theorem flash_erased (h : Acks R sent) (stale : ℕ → Byte) {file : List Byte}
    (hne : 1 ≤ file.length) (hroom : file.length ≤ bufSize) (s : σ) :
    ∃ s1, sent s1 = sent s ++ [[0x43, 0xBC], [0xFF, 0x00]] ∧
      (flash stale file).run R s =
        (writeMemory (put stale 0 (file.take bufSize)) flashBase
            (file.length + file.length % 4) >>= fun rc =>
          if rc ≠ 0 then return -1 else return 0 : Program ℤ).run R s1 := by
  obtain ⟨s1, herase, hsent⟩ := eraseFlash_sends h s
  refine ⟨s1, hsent, ?_⟩
  unfold flash
  rw [Nat.min_eq_left hroom, if_neg (by omega), Prog.run_bind herase, if_neg (not_not_intro rfl)]

/-- What is sent, when the bytes counted are all in the array. -/
theorem flash_sends (h : Acks R sent) (stale : ℕ → Byte) {file : List Byte}
    (hne : 1 ≤ file.length) (hin : file.length + file.length % 4 ≤ bufSize) (s : σ) :
    ∃ frames, Sends R sent (flash stale file) s 0
        ([[0x43, 0xBC], [0xFF, 0x00]] ++ frames.flatMap Frame.writes) ∧
      Consecutive flashBase frames ∧
      frames.flatMap Frame.data =
        file ++ get (put stale 0 file) file.length (file.length % 4) ∧
      (4 ∣ file.length + file.length % 4 → ∀ f ∈ frames, 4 ∣ f.data.length) := by
  have hroom : file.length ≤ bufSize := by omega
  obtain ⟨s1, herased, hflash⟩ := flash_erased h stale hne hroom s
  obtain ⟨frames, ⟨s2, hrun, hsent⟩, hframes, hdata, hwords⟩ :=
    writeLoop_sends h (put stale 0 (file.take bufSize))
      (w := { addr := flashBase, data := 0, len := file.length + file.length % 4 })
      (Nat.lt_succ_self _) (by dsimp only; omega) s1
  refine ⟨frames, ⟨s2, ?_, ?_⟩, hframes, ?_, hwords⟩
  · rw [hflash, writeMemory, Prog.run_bind hrun, if_neg (not_not_intro rfl)]
    rfl
  · rw [hsent, herased, List.append_assoc]
  · rw [hdata, get_file stale hroom]

/-- The bytes counted do not end in the array. -/
theorem flash_wild (h : Acks R sent) (stale : ℕ → Byte) {file : List Byte}
    (hroom : file.length ≤ bufSize) (hout : bufSize < file.length + file.length % 4) (s : σ) :
    ∃ s', (flash stale file).run R s = some (.error .wild, s') := by
  have hne : 1 ≤ file.length := by
    unfold bufSize at hout
    omega
  obtain ⟨s1, _, hflash⟩ := flash_erased h stale hne hroom s
  obtain ⟨s2, hrun⟩ := writeLoop_wild h (put stale 0 (file.take bufSize))
    (w := { addr := flashBase, data := 0, len := file.length + file.length % 4 })
    (Nat.lt_succ_self _) (Nat.zero_le _) (by dsimp only; omega) s1
  exact ⟨s2, by rw [hflash, writeMemory, Prog.run_bind_error hrun]⟩

/-- Frames of the same writes carry as many bytes. -/
theorem Consecutive.data_length {addr : Word} {frames frames' : List Frame}
    (h : Consecutive addr frames) (h' : Consecutive addr frames')
    (heq : frames.flatMap Frame.writes = frames'.flatMap Frame.writes) :
    (frames.flatMap Frame.data).length = (frames'.flatMap Frame.data).length := by
  obtain ⟨hwrites, hbytes⟩ := h.lengths
  obtain ⟨hwrites', hbytes'⟩ := h'.lengths
  rw [heq] at hwrites hbytes
  omega

/-- `n += (n % 4)` comes to a whole number of words for an even number of bytes only. -/
theorem pads_to_words (n : ℕ) : 4 ∣ n + n % 4 ↔ n % 2 = 0 := by omega

/-- When it writes whole words, the bytes counted are whole words. -/
theorem flash_words (h : Acks R sent) {stale : ℕ → Byte} {file : List Byte}
    (hne : 1 ≤ file.length) (hin : file.length + file.length % 4 ≤ bufSize) {s : σ}
    {writes : List (List Byte)}
    (hsends : Sends R sent (flash stale file) s 0 ([[0x43, 0xBC], [0xFF, 0x00]] ++ writes))
    (hdelivers : Delivers writes file) : 4 ∣ file.length + file.length % 4 := by
  obtain ⟨s', hrun, hsent⟩ := hsends
  obtain ⟨frames, padding, rfl, hframes, hwords, -, -⟩ := hdelivers
  obtain ⟨frames', ⟨s'', hrun', hsent'⟩, hframes', hdata', -⟩ := flash_sends h stale hne hin s
  -- the run is one and the same
  rw [hrun] at hrun'
  obtain ⟨-, rfl⟩ := Prod.mk.inj (Option.some.inj hrun')
  rw [hsent, List.append_cancel_left_eq, List.append_cancel_left_eq] at hsent'
  have hlength : (frames.flatMap Frame.data).length = file.length + file.length % 4 := by
    rw [hframes.data_length hframes' hsent', hdata', List.length_append, get_length]
  exact hlength ▸ data_words hwords

/-- `stm32boot flash` writes the file, padded to whole words, exactly when it has an even number
of bytes. -/
theorem flash_delivers_iff (h : Acks R sent) (stale : ℕ → Byte) (file : List Byte)
    (hne : 1 ≤ file.length) (hroom : file.length ≤ bufSize) (s : σ) :
    (∃ writes, Sends R sent (flash stale file) s 0
        ([[0x43, 0xBC], [0xFF, 0x00]] ++ writes) ∧ Delivers writes file) ↔
      file.length % 2 = 0 := by
  constructor
  · rintro ⟨writes, hsends, hdelivers⟩
    by_cases hin : file.length + file.length % 4 ≤ bufSize
    · exact (pads_to_words _).mp (flash_words h hne hin hsends hdelivers)
    · obtain ⟨s', hrun, -⟩ := hsends
      obtain ⟨s'', hwild⟩ := flash_wild h stale hroom (Nat.not_le.mp hin) s
      rw [hrun] at hwild
      cases hwild
  · intro heven
    have hin : file.length + file.length % 4 ≤ bufSize := by
      unfold bufSize at hroom ⊢
      omega
    obtain ⟨frames, hsends, hframes, hdata, hwords⟩ := flash_sends h stale hne hin s
    refine ⟨_, hsends, frames, _, rfl, hframes, hwords ((pads_to_words _).mpr heven), hdata, ?_⟩
    rw [get_length]
    exact Nat.mod_lt _ (by decide)

end

/-- A boot ROM that keeps what is written to it. -/
def bootRom : Responder Call Answer (List (List Byte))
  | .write bytes, log => some (⟨bytes.length, 0⟩, log ++ [bytes])
  | .read, log => some (⟨1, ack⟩, log)

theorem bootRom_acks : Acks bootRom id where
  write _ _ := ⟨_, _, rfl, rfl, rfl⟩
  acked log := ⟨log, rfl, rfl⟩

theorem flash_delivers_iff_halfword :
    ∃ writes, Sends bootRom id (flash (fun _ => 0xFF) [1, 2]) [] 0
        ([[0x43, 0xBC], [0xFF, 0x00]] ++ writes) ∧ Delivers writes [1, 2] :=
  (flash_delivers_iff bootRom_acks (fun _ => 0xFF) [1, 2] (by decide) (by decide) []).mpr rfl

/-- A file of one byte goes out as two. -/
theorem one_byte_padded_to_two :
    ¬ ∃ writes, Sends bootRom id (flash (fun _ => 0) [0xAA]) [] 0
        ([[0x43, 0xBC], [0xFF, 0x00]] ++ writes) ∧ Delivers writes [0xAA] := by
  rintro ⟨writes, hsends, hdelivers⟩
  have hwords : 4 ∣ 2 := flash_words bootRom_acks (by decide) (by decide) hsends hdelivers
  omega

end M3Dev.Stm32Boot
