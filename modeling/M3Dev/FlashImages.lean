import M3Dev.FlashRuns

/-! An image written through an agent: what is in the flash when the debugger says that it is done. -/
namespace M3Dev.Flash
open CallTree WhileLoop ByteBlock Tools

/-- What the host relies on of an agent's file: its data buffer is behind its code and holds whole
words, its flash begins at 0, and its functions are told apart by their addresses, whatever their T
bits are. -/
structure AgentFile.Valid (file : AgentFile) : Prop where
  size : file.size ≤ 0x400
  dataAddr : file.dataAddr = file.loadAddr + 0x400
  some : 0 < file.dataSize.toNat
  words : 4 ∣ file.dataSize.toNat
  half : file.dataSize.toNat ≤ 2 ^ 31
  flashAddr : file.flashAddr = 0
  erase : file.erase ||| 1 ≠ file.setup ||| 1
  write : file.write ||| 1 ≠ file.setup ||| 1 ∧ file.write ||| 1 ≠ file.erase ||| 1

@[simp] theorem AgentFile.patched_loadAddr (file : AgentFile) : file.patched.loadAddr = file.loadAddr := rfl

section
variable {m : Setting} {s s' s'' : Station} {cfg : Settings} {a0 a1 a2 : Word}

/-! ### With the agent in place -/

theorem calls_setup : Calls m m.file.setup a0 a1 a2 m.agent.setup [] := by
  intro regs _ _ _ h15
  have hsetup : regs 15 ||| 1 = m.file.setup ||| 1 := by rw [h15, BitVec.or_assoc, BitVec.or_self]
  rw [Station.function, if_pos hsetup]

theorem calls_erase (hfile : m.file.Valid) :
    Calls m m.file.erase a0 a1 a2 (m.agent.erase a0 a1) [(a0, a1)] := by
  intro regs h0 h1 _ h15
  have herase : regs 15 ||| 1 = m.file.erase ||| 1 := by rw [h15, BitVec.or_assoc, BitVec.or_self]
  have hsetup : regs 15 ||| 1 ≠ m.file.setup ||| 1 := by
    rw [herase]
    exact hfile.erase
  rw [Station.function, if_neg hsetup, if_pos herase, h0, h1]

theorem calls_write (hfile : m.file.Valid) :
    Calls m m.file.write a0 a1 a2 (m.agent.write a0 a1 a2) [(a0, a2)] := by
  intro regs h0 h1 h2 h15
  have hwrite : regs 15 ||| 1 = m.file.write ||| 1 := by rw [h15, BitVec.or_assoc, BitVec.or_self]
  have hsetup : regs 15 ||| 1 ≠ m.file.setup ||| 1 := by
    rw [hwrite]
    exact hfile.write.1
  have herase : regs 15 ||| 1 ≠ m.file.erase ||| 1 := by
    rw [hwrite]
    exact hfile.write.2
  rw [Station.function, if_neg hsetup, if_neg herase, if_pos hwrite, h0, h1, h2]

/-- The regions passed to the agent since lie in its flash. -/
def PassedInside (file : AgentFile) (s s' : Station) : Prop :=
  ∃ new, s'.passed = s.passed ++ new ∧ ∀ r ∈ new, file.flashAddr.toNat ≤ r.1.toNat ∧
    r.1.toNat + r.2.toNat ≤ file.flashAddr.toNat + file.flashSize.toNat

variable {file : AgentFile}

theorem PassedInside.same (h : s'.passed = s.passed) : PassedInside file s s' := by
  refine ⟨[], ?_, fun r hr => absurd hr List.not_mem_nil⟩
  rw [h, List.append_nil]

theorem PassedInside.trans (h : PassedInside file s s') (h' : PassedInside file s' s'') :
    PassedInside file s s'' := by
  obtain ⟨new, hnew, hin⟩ := h
  obtain ⟨new', hnew', hin'⟩ := h'
  refine ⟨new ++ new', ?_, ?_⟩
  · rw [hnew', hnew, List.append_assoc]
  · intro r hr
    rcases List.mem_append.mp hr with hold | hlater
    · exact hin r hold
    · exact hin' r hlater

theorem Logged.inside {addr len : Word} (h : Logged s s' [(addr, len)]) (haddr : file.flashAddr.toNat ≤ addr.toNat)
    (hlen : addr.toNat + len.toNat ≤ file.flashAddr.toNat + file.flashSize.toNat) : PassedInside file s s' := by
  rcases h with hsame | hone
  · exact .same hsame
  · refine ⟨[(addr, len)], hone, ?_⟩
    intro r hr
    rw [List.mem_singleton.mp hr]
    exact ⟨haddr, hlen⟩

theorem Logged.none_inside (h : Logged s s' []) : PassedInside file s s' := by
  rcases h with hsame | hone
  · exact .same hsame
  · exact ⟨[], hone, fun r hr => absurd hr List.not_mem_nil⟩

/-! ### Blocks downloaded -/

theorem ahbWrite32_run (addr : Word) (buf : ℕ → Word) (count : ℕ) :
    (swdpAhbWrite32 addr buf count).run (stationSwdp m) s = some (.ok 0, s.download m addr buf count) := rfl

/-- The agent's code is in place once it is downloaded. -/
theorem download_code (s : Station) :
    (s.download m m.file.loadAddr m.file.patched.word (m.file.size / 4)).loaded = true := by
  have hwhole : m.file.loadAddr = m.file.patched.loadAddr ∧ m.file.size / 4 = m.file.patched.size / 4 ∧
      ∀ i < m.file.size / 4, m.file.patched.word i = m.file.patched.word i := ⟨rfl, rfl, fun _ _ => rfl⟩
  show (decide _ || _) = true
  rw [decide_eq_true hwhole, Bool.true_or]

/-- A block in the data buffer leaves the code where it is. -/
theorem download_data (hfile : m.file.Valid) (hs : s.loaded = true) (buf : ℕ → Word) (count : ℕ)
    (hcount : 4 * count ≤ 2 ^ 31) : (s.download m m.file.dataAddr buf count).loaded = true := by
  have hbehind : (m.file.dataAddr - m.file.patched.loadAddr).toNat = 0x400 := by
    rw [hfile.dataAddr, AgentFile.patched_loadAddr, BitVec.add_comm, BitVec.add_sub_cancel]
    rfl
  have hsize : m.file.patched.size ≤ 0x400 := hfile.size
  have hapart : m.file.patched.size ≤ (m.file.dataAddr - m.file.patched.loadAddr).toNat ∧
      (m.file.dataAddr - m.file.patched.loadAddr).toNat + 4 * count ≤ 2 ^ 32 := by
    rw [hbehind]
    omega
  show (decide _ || (s.loaded && decide _)) = true
  rw [hs, decide_eq_true hapart, Bool.and_self, Bool.or_true]

/-- The bytes of a block that was downloaded. -/
theorem download_byte (addr : Word) (b : ℕ → Byte) {count i : ℕ} (hi : i < 4 * count) (hcount : 4 * count ≤ 2 ^ 32) :
    (s.download m addr (fun j => leWord fun k => b (4 * j + k)) count).target.ram (byteAddr addr i) = b i := by
  have hword : i % 4 < 4 := Nat.mod_lt _ (by decide)
  show patch s.target.ram addr (4 * count)
    (fun i => (wordBytes (leWord fun k => b (4 * (i / 4) + k))).getD (i % 4) 0) (byteAddr addr i) = b i
  rw [patch_at hi hcount, getD_leWord _ hword, Nat.div_add_mod]

theorem download_word (addr : Word) (buf : ℕ → Word) (count : ℕ) {i : ℕ} (hi : i < count) (hcount : 4 * count ≤ 2 ^ 32) :
    leWord (fun k => (s.download m addr buf count).target.ram (byteAddr addr (4 * i + k))) = buf i := by
  rw [← leWord_wordBytes (buf i)]
  apply leWord_congr
  intro k hk
  have hword : (4 * i + k) / 4 = i := by omega
  have hbyte : (4 * i + k) % 4 = k := by omega
  have hin : 4 * i + k < 4 * count := by omega
  show patch s.target.ram addr (4 * count) (fun i => (wordBytes (buf (i / 4))).getD (i % 4) 0)
    (byteAddr addr (4 * i + k)) = _
  rw [patch_at hin hcount, hword, hbyte]

/-! ### The loop -/

/-- The length of the next block. -/
theorem xfer_toNat (size : Word) (left : BitVec 64) :
    (if size.setWidth 64 < left then size else left.setWidth 32).toNat = min size.toNat left.toNat := by
  have hsize := size.isLt
  have hwide : (size.setWidth 64).toNat = size.toNat := by
    rw [BitVec.toNat_setWidth, Nat.mod_eq_of_lt (by omega)]
  split
  next hlt =>
    have hlt' := BitVec.lt_def.mp hlt
    omega
  next hge =>
    have hge' : ¬ (size.setWidth 64).toNat < left.toNat := fun h => hge (BitVec.lt_def.mpr h)
    rw [BitVec.toNat_setWidth, Nat.mod_eq_of_lt (by omega)]
    omega

variable {ready : Target → Prop} {grain n : ℕ} {flashaddr : Word} {image : ℕ → Byte}

/-- The first `k` bytes of the image are in the flash, but for those that belong to no whole word of
it, and the rest of its place is erased. -/
structure Written (m : Setting) (ready : Target → Prop) (grain : ℕ) (flashaddr : Word) (image : ℕ → Byte)
    (n k : ℕ) (s : Station) : Prop where
  ready : ready s.target
  loaded : s.loaded = true
  le : k ≤ n
  whole : k < n → 4 ∣ k
  grain : grain ∣ k
  held : ∀ i < k, i < n / 4 * 4 → s.target.flash (byteAddr flashaddr i) = image i
  blank : ∀ i, k ≤ i → i < n → s.target.flash (byteAddr flashaddr i) = 0xFF

/-- A block of the image in the buffer. -/
def blockOf (image : ℕ → Byte) (k : ℕ) : ℕ → Word := fun i => leWord fun j => image (k + (4 * i + j))

/-- Where the next block has been written. -/
theorem Written.block (hagent : m.agent.Contract ready m.file.dataAddr m.file.dataSize.toNat
      m.file.flashSize.toNat grain) (hram : ∀ t ram, ready t → ready { t with ram := ram }) (hfile : m.file.Valid)
    {k : ℕ} (h : Written m ready grain flashaddr image n k s) {xfer : Word} (hn : flashaddr.toNat + n ≤
      m.file.flashSize.toNat) (hx : xfer.toNat = min m.file.dataSize.toNat (n - k)) (hk : k < n)
    (hcalled : Called m (m.agent.write (byteAddr flashaddr k) m.file.dataAddr xfer) [(byteAddr flashaddr k, xfer)]
      (s.download m m.file.dataAddr (blockOf image k) (xfer.toNat / 4)) s') :
    Written m ready grain flashaddr image n (k + xfer.toNat) s' := by
  have hsome := hfile.some
  have hhalf := hfile.half
  have hsize := m.file.flashSize.isLt
  obtain ⟨q, hq⟩ := hfile.words
  obtain ⟨p, hp⟩ := h.whole hk
  obtain ⟨⟨rc, hrun, hrc⟩, _, hloaded, _⟩ := hcalled
  have hto : (byteAddr flashaddr k).toNat = flashaddr.toNat + k := byteAddr_toNat_of_lt (by omega)
  have hfit : (byteAddr flashaddr k).toNat + xfer.toNat ≤ m.file.flashSize.toNat := by omega
  have hblank : ∀ i < xfer.toNat, s.target.flash (byteAddr (byteAddr flashaddr k) i) = 0xFF := by
    intro i hi
    rw [byteAddr_add]
    exact h.blank (k + i) (by omega) (by omega)
  obtain ⟨hready, hgrain, hheld, hbelow, habove⟩ := (hagent.write (s.download m m.file.dataAddr (blockOf image k)
    (xfer.toNat / 4)).target (byteAddr flashaddr k) xfer (hram _ _ h.ready) (by omega) (by omega) hfit
    hblank).of_run rc s'.target hrun hrc
  refine ⟨hready, hloaded, by omega, ?_, Nat.dvd_add h.grain hgrain, ?_, ?_⟩
  · intro hmore
    exact ⟨p + q, by omega⟩
  · intro i hi hwhole
    have hlt : (byteAddr flashaddr i).toNat = flashaddr.toNat + i := byteAddr_toNat_of_lt (by omega)
    by_cases hold : i < k
    · rw [hbelow _ (by omega)]
      exact h.held i hold hwhole
    · have hword : i - k < 4 * (xfer.toNat / 4) := by omega
      have hbyte := download_byte (s := s) (m := m) m.file.dataAddr (fun j => image (k + j)) hword (by omega)
      have hsum : k + (i - k) = i := by omega
      have hnew := hheld (i - k) (by omega)
      rw [byteAddr_add, hsum] at hnew
      rw [hsum] at hbyte
      exact hnew.trans hbyte
  · intro i hbehind hi
    have hlt : (byteAddr flashaddr i).toNat = flashaddr.toNat + i := byteAddr_toNat_of_lt (by omega)
    rw [habove (by omega) _ (by omega)]
    exact h.blank i (by omega) hi

/-! What is left of the image, in the 64 bits of `data_sz`. -/

theorem left64_toNat {n : ℕ} (hn : n < 2 ^ 64) (k : ℕ) : (BitVec.ofNat 64 (n - k)).toNat = n - k := by
  rw [BitVec.toNat_ofNat, Nat.mod_eq_of_lt (by omega)]

theorem left64_pos {n : ℕ} (hn : n < 2 ^ 64) {k : ℕ} : 0 < BitVec.ofNat 64 (n - k) ↔ k < n := by
  rw [BitVec.lt_def, left64_toNat hn]
  exact Nat.sub_pos_iff_lt

theorem left64_sub {n : ℕ} (hn : n < 2 ^ 64) {k : ℕ} {xfer : Word} (hx : xfer.toNat ≤ n - k) :
    BitVec.ofNat 64 (n - k) - xfer.setWidth 64 = BitVec.ofNat 64 (n - (k + xfer.toNat)) := by
  have hwide : (xfer.setWidth 64).toNat = xfer.toNat := by
    rw [BitVec.toNat_setWidth, Nat.mod_eq_of_lt (by omega)]
  apply BitVec.eq_of_toNat_eq
  rw [BitVec.toNat_sub, hwide, left64_toNat hn, left64_toNat hn]
  omega

theorem byteAddr_add_word (addr : Word) (k : ℕ) (x : Word) :
    byteAddr addr k + x = byteAddr addr (k + x.toNat) := by
  rw [← byteAddr_add]
  show _ = byteAddr addr k + BitVec.ofNat 32 x.toNat
  rw [BitVec.ofNat_toNat, BitVec.setWidth_eq]

/-- What the loop has left behind when it says that it is done. -/
structure Flashed (grain : ℕ) (flashaddr : Word) (image : ℕ → Byte) (n : ℕ) (s : Station) : Prop where
  grain : grain ∣ n
  held : ∀ i < n, i < n / 4 * 4 → s.target.flash (byteAddr flashaddr i) = image i

theorem writePass_meets (fuel : ℕ) (hagent : m.agent.Contract ready m.file.dataAddr m.file.dataSize.toNat
      m.file.flashSize.toNat grain) (hram : ∀ t ram, ready t → ready { t with ram := ram }) (hfile : m.file.Valid)
    (hn : flashaddr.toNat + n ≤ m.file.flashSize.toNat) {k : ℕ} (h : Written m ready grain flashaddr image n k s) :
    (writePass cfg fuel m.file.patched m.file.dataAddr m.file.dataSize image
        ⟨k, BitVec.ofNat 64 (n - k), byteAddr flashaddr k⟩).Meets (stationSwdp m) s fun p s' =>
      PassedInside m.file s s' ∧
      (∀ w, p = .next w → ∃ k', w = ⟨k', BitVec.ofNat 64 (n - k'), byteAddr flashaddr k'⟩ ∧
        Written m ready grain flashaddr image n k' s') ∧
      ∀ rc, p = .exit rc → rc = 0 → Flashed grain flashaddr image n s' := by
  have hsize := m.file.flashSize.isLt
  have hhalf := hfile.half
  have hle := h.le
  have hwide : n < 2 ^ 64 := by omega
  have hfail {s' : Station} (hin : PassedInside m.file s s') :
      (.ret (.exit (-1)) : HostProg (Pass WriteState ℤ)).Meets (stationSwdp m) s' fun p s' =>
        PassedInside m.file s s' ∧
        (∀ w, p = .next w → ∃ k', w = ⟨k', BitVec.ofNat 64 (n - k'), byteAddr flashaddr k'⟩ ∧
          Written m ready grain flashaddr image n k' s') ∧
        ∀ rc, p = .exit rc → rc = 0 → Flashed grain flashaddr image n s' := by
    apply Prog.Meets.ret
    refine ⟨hin, fun _ h => absurd h (by simp), ?_⟩
    intro rc hrc hzero
    rw [← Pass.exit.inj hrc] at hzero
    exact absurd hzero (by decide)
  rw [writePass]
  apply Prog.Meets.ite
  · intro hpos
    have hk := (left64_pos hwide).mp hpos
    have hx := xfer_toNat m.file.dataSize (BitVec.ofNat 64 (n - k))
    rw [left64_toNat hwide] at hx
    dsimp only
    generalize (if m.file.dataSize.setWidth 64 < BitVec.ofNat 64 (n - k) then m.file.dataSize
      else (BitVec.ofNat 64 (n - k)).setWidth 32) = xfer at hx ⊢
    have hwords : (xfer / 4).toNat = xfer.toNat / 4 := BitVec.toNat_udiv
    have hto : (byteAddr flashaddr k).toNat = flashaddr.toNat + k := byteAddr_toNat_of_lt (by omega)
    have hzero : m.file.flashAddr.toNat = 0 := by
      rw [hfile.flashAddr]
      rfl
    rw [hwords]
    apply Prog.Meets.run_bind (ahbWrite32_run m.file.dataAddr (blockOf image k) (xfer.toNat / 4))
    rw [if_neg (by decide)]
    -- the block goes into the agent's buffer, and the agent is called on it
    have hdownload := download_data hfile h.loaded (blockOf image k) (xfer.toNat / 4) (by omega)
    apply (invoke_meets cfg fuel 0 (calls_write hfile) hdownload).bind
    rintro rc s' ⟨hlogged, hcalled⟩
    have hinside : PassedInside m.file s s' :=
      (PassedInside.same rfl).trans (hlogged.inside (by omega) (by omega))
    apply Prog.Meets.ite
    · intro _
      exact hfail hinside
    · intro hok
      have hnext := h.block hagent hram hfile hn hx hk (hcalled (not_not.mp hok))
      apply Prog.Meets.ret
      refine ⟨hinside, ?_, fun _ h => absurd h (by simp)⟩
      intro w hw
      refine ⟨k + xfer.toNat, ?_, hnext⟩
      rw [← Pass.next.inj hw, byteAddr_add_word, left64_sub hwide (by omega)]
  · intro hzero
    have hdone : k = n := by
      rw [left64_pos hwide] at hzero
      omega
    subst hdone
    apply Prog.Meets.ret
    exact ⟨.same rfl, fun _ h => absurd h (by simp), fun _ _ _ => ⟨h.grain, h.held⟩⟩

/-- The flash is erased, and the image is written into it. -/
theorem flashRegion_meets (fuel : ℕ) (hagent : m.agent.Contract ready m.file.dataAddr m.file.dataSize.toNat
      m.file.flashSize.toNat grain) (hram : ∀ t ram, ready t → ready { t with ram := ram }) (hfile : m.file.Valid)
    {header : ℕ → Word} (hheader : ∀ i < 4, header i = m.file.word (4 + i)) {dataSz : BitVec 64}
    (hsome : 0 < dataSz.toNat) (hready : ready s.target) (hs : s.loaded = true) :
    (flashRegion cfg fuel m.file.patched header flashaddr (some image) dataSz).Meets (stationSwdp m) s
      fun rc s' => PassedInside m.file s s' ∧ (rc = 0 → Flashed grain flashaddr image dataSz.toNat s') := by
  have hfail {s' : Station} (hin : PassedInside m.file s s') :
      (.ret (-1) : HostProg ℤ).Meets (stationSwdp m) s' fun rc s' => PassedInside m.file s s' ∧
        (rc = 0 → Flashed grain flashaddr image dataSz.toNat s') :=
    Prog.Meets.ret ⟨hin, fun h => absurd h (by decide)⟩
  have hdata : header 0 = m.file.dataAddr := hheader 0 (by decide)
  have hsize : header 1 = m.file.dataSize := hheader 1 (by decide)
  have hflash : header 2 = 0 := (hheader 2 (by decide)).trans hfile.flashAddr
  have hlen : header 3 = m.file.flashSize := hheader 3 (by decide)
  have hwide (w : Word) : (w.setWidth 64).toNat = w.toNat := by
    have hw := w.isLt
    rw [BitVec.toNat_setWidth, Nat.mod_eq_of_lt (by omega)]
  have hend : (0 : Word) + m.file.flashSize = m.file.flashSize := BitVec.zero_add _
  rw [flashRegion, hdata, hsize, hflash, hlen, hend]
  apply Prog.Meets.ite
  · intro _
    exact hfail (.same rfl)
  · intro hbounds
    have hflashsize := m.file.flashSize.isLt
    have haddr := flashaddr.isLt
    obtain ⟨_, hle, hend⟩ : ¬ flashaddr < 0 ∧ dataSz.toNat ≤ m.file.flashSize.toNat ∧
        flashaddr.toNat + dataSz.toNat ≤ m.file.flashSize.toNat := by
      rw [not_or, not_or, BitVec.lt_def (y := dataSz), BitVec.lt_def (x := m.file.flashSize.setWidth 64),
        BitVec.toNat_add, hwide, hwide] at hbounds
      refine ⟨hbounds.1, by omega, by omega⟩
    have hlow : (dataSz.setWidth 32).toNat = dataSz.toNat := by
      rw [BitVec.toNat_setWidth, Nat.mod_eq_of_lt (by omega)]
    have hzero : m.file.flashAddr.toNat = 0 := by
      rw [hfile.flashAddr]
      rfl
    -- the region is erased first
    apply (invoke_meets cfg fuel 0 (calls_erase hfile) hs).bind
    rintro rc s1 ⟨hlogged, hcalled⟩
    have hinside : PassedInside m.file s s1 := hlogged.inside (by omega) (by omega)
    apply Prog.Meets.ite
    · intro _
      exact hfail hinside
    · intro hok
      obtain ⟨⟨r, hrun, hr⟩, _, hloaded, _⟩ := hcalled (not_not.mp hok)
      obtain ⟨hready1, hblank⟩ := (hagent.erase s.target flashaddr (dataSz.setWidth 32) hready (by omega)
        (by omega)).of_run r s1.target hrun hr
      rw [hlow] at hblank
      have hstart : Written m ready grain flashaddr image dataSz.toNat 0 s1 :=
        ⟨hready1, hloaded, Nat.zero_le _, fun _ => Nat.dvd_zero 4, Nat.dvd_zero grain,
          fun _ h => absurd h (Nat.not_lt_zero _), fun i _ => hblank i⟩
      have hfirst : dataSz = BitVec.ofNat 64 (dataSz.toNat - 0) := by
        rw [Nat.sub_zero, BitVec.ofNat_toNat, BitVec.setWidth_eq]
      -- and then written block by block
      apply Prog.Meets.loop fun w s' => PassedInside m.file s s' ∧
        ∃ k, w = ⟨k, BitVec.ofNat 64 (dataSz.toNat - k), byteAddr flashaddr k⟩ ∧
          Written m ready grain flashaddr image dataSz.toNat k s'
      · rintro _ s2 ⟨hin, k, rfl, h⟩
        apply (writePass_meets fuel hagent hram hfile hend h).mono
        rintro p s3 ⟨hin', hnext, hexit⟩
        refine ⟨?_, fun rc hrc => ⟨hin.trans hin', hexit rc hrc⟩⟩
        intro w hw
        exact ⟨hin.trans hin', hnext w hw⟩
      · refine ⟨hinside, 0, ?_, hstart⟩
        rw [← hfirst, byteAddr_zero]

/-! ### The whole run -/

theorem ahbRead32_run (addr : Word) (out : ℕ → Word) (count : ℤ) :
    (swdpAhbRead32 addr out count).run (stationSwdp m) s =
      some (.ok (0, fun i => leWord fun k => s.target.ram (byteAddr addr (4 * i + k))), s) := rfl

/-- The header is in memory with the agent's code. -/
theorem download_header (hsize : 64 ≤ m.file.size) (hfit : m.file.size ≤ 0x400) {i : ℕ} (hi : i < 4) :
    leWord (fun k => (s.download m m.file.loadAddr m.file.patched.word (m.file.size / 4)).target.ram
      (byteAddr (m.file.loadAddr + 16) (4 * i + k))) = m.file.word (4 + i) := by
  have hword := download_word (s := s) (m := m) (i := 4 + i) m.file.loadAddr m.file.patched.word
    (m.file.size / 4) (by omega) (by omega)
  have hkept : m.file.patched.word (4 + i) = m.file.word (4 + i) :=
    Function.update_of_ne (by omega) _ _
  have haddr (k : ℕ) : byteAddr (m.file.loadAddr + 16) (4 * i + k) = byteAddr m.file.loadAddr (4 * (4 + i) + k) := by
    have hsum : 4 * (4 + i) + k = 16 + (4 * i + k) := by omega
    rw [hsum, ← byteAddr_add m.file.loadAddr 16]
    rfl
  rw [← hkept, ← hword]
  apply leWord_congr
  intro k _
  rw [haddr]

theorem runAgent_meets (fuel : ℕ) (hagent : m.agent.Contract ready m.file.dataAddr m.file.dataSize.toNat
      m.file.flashSize.toNat grain) (hram : ∀ t ram, ready t → ready { t with ram := ram }) (hfile : m.file.Valid)
    (hheader : ∀ i < 4, leWord (fun k => s.target.ram (byteAddr (m.file.loadAddr + 16) (4 * i + k))) =
      m.file.word (4 + i)) {dataSz : BitVec 64} (hsome : 0 < dataSz.toNat) (hs : s.loaded = true) :
    (runAgent cfg fuel m.file.patched flashaddr (some image) dataSz).Meets (stationSwdp m) s
      fun rc s' => PassedInside m.file s s' ∧ (rc = 0 → Flashed grain flashaddr image dataSz.toNat s') := by
  rw [runAgent]
  apply (invoke_meets cfg fuel 0 calls_setup hs).bind
  rintro rc s1 ⟨hlogged, hcalled⟩
  have hinside : PassedInside m.file s s1 := hlogged.none_inside
  apply Prog.Meets.ite
  · intro _
    exact Prog.Meets.ret ⟨hinside, fun h => absurd h (by decide)⟩
  · intro hok
    obtain ⟨⟨r, hrun, hr⟩, _, hloaded, _⟩ := hcalled (not_not.mp hok)
    obtain ⟨hready, hkept⟩ := (hagent.setup s.target).of_run r s1.target hrun hr
    apply Prog.Meets.run_bind (ahbRead32_run _ _ _)
    dsimp only
    rw [if_neg (by decide)]
    apply Prog.Meets.ite
    · intro hall
      exact absurd hall.2.1 (by simp)
    · intro _
      rw [AgentFile.patched_loadAddr, hkept]
      apply (flashRegion_meets fuel hagent hram hfile hheader hsome hready hloaded).mono
      rintro rc s2 ⟨hin, hflashed⟩
      exact ⟨hinside.trans hin, hflashed⟩

/-- Whatever was on the target: where the debugger says that it is done the image is in the flash, up
to the last whole word of it, and the agent was not asked for anything outside. -/
theorem runFlashAgent_meets (cfg : Settings) (fuel : ℕ) (flashaddr : Word) (image : ℕ → Byte) (hagent : m.agent.Contract ready m.file.dataAddr m.file.dataSize.toNat
      m.file.flashSize.toNat grain) (hram : ∀ t ram, ready t → ready { t with ram := ram }) (hfile : m.file.Valid)
    {dataSz : BitVec 64} (hsome : 0 < dataSz.toNat) (s : Station) :
    (runFlashAgent cfg fuel (some m.file) flashaddr (some image) dataSz).Meets (station m) s
      fun rc s' => PassedInside m.file s s' ∧ (rc = 0 → Flashed grain flashaddr image dataSz.toNat s') := by
  have hfail {s' : Station} (h : s'.passed = s.passed) : (.ret (-1) : FlashProg ℤ).Meets (station m) s'
      fun rc s' => PassedInside m.file s s' ∧ (rc = 0 → Flashed grain flashaddr image dataSz.toNat s') :=
    Prog.Meets.ret ⟨.same h, fun h => absurd h (by decide)⟩
  rw [runFlashAgent]
  dsimp only
  apply Prog.Meets.ite
  · intro _
    exact hfail rfl
  intro hchecked
  rw [not_or, Nat.not_lt] at hchecked
  have hattach : doAttach.run (station m) s = some (.ok 0, s) := rfl
  apply Prog.Meets.run_bind hattach
  rw [if_neg (by decide)]
  apply (Prog.Meets.via (f := HostCall.swdp) (R := station m) (doResetStop_unloaded s)).bind
  intro _ s1 hreset
  apply (runBootRom_unloaded fuel m.file.patched hreset.loaded).bind
  intro r s2 hafter
  have hpassed : s2.passed = s.passed := hafter.passed.trans hreset.passed
  apply Prog.Meets.ite
  · intro _
    exact hfail hpassed
  intro _
  have hdownload : (swdp (swdpAhbWrite32 m.file.patched.loadAddr m.file.patched.word (m.file.patched.size / 4 : ℕ))).run
      (station m) s2 = some (.ok 0, s2.download m m.file.loadAddr m.file.patched.word (m.file.size / 4)) := rfl
  apply Prog.Meets.run_bind hdownload
  rw [if_neg (by decide)]
  apply Prog.Meets.via
  apply (runAgent_meets fuel hagent hram hfile (fun i hi => download_header hchecked.1 hfile.size hi) hsome
    (download_code s2)).mono
  rintro rc s3 ⟨hin, hflashed⟩
  exact ⟨(PassedInside.same hpassed).trans hin, hflashed⟩

end

/-! ### The agents -/

namespace AgentKind

/-- `CONFIG_LOADADDR` -/
def loadAddr : AgentKind → Word
  | lpc13xx => 0x10000400
  | lpc15xx => 0x02000400
  | stm32f4xx => 0x20000400
  | lpclink2 => 0x10080400

def dataSize : AgentKind → ℕ
  | lpc13xx => 0x1000
  | lpc15xx => 0x1000
  | stm32f4xx => 0x8000
  | lpclink2 => 0x8000

/-- What the length of a write has to be a multiple of. -/
def grain : AgentKind → ℕ
  | stm32f4xx => 4
  | _ => 1

/-- How much of an image of `n` bytes is in the flash where the debugger says that it is done. -/
def covered (kind : AgentKind) (n : ℕ) : ℕ :=
  match kind with
  | stm32f4xx => n
  | _ => n / 4 * 4

/-- The file that is built of an agent, wherever its functions are in it. -/
structure IsImage (kind : AgentKind) (file : AgentFile) : Prop where
  size : file.size ≤ 0x400
  loadAddr : file.loadAddr = kind.loadAddr
  dataAddr : file.dataAddr = kind.loadAddr + 0x400
  dataSize : file.dataSize = BitVec.ofNat 32 kind.dataSize
  flashAddr : file.flashAddr = 0
  flashSize : file.flashSize = BitVec.ofNat 32 kind.flashSize
  erase : file.erase ||| 1 ≠ file.setup ||| 1
  write : file.write ||| 1 ≠ file.setup ||| 1 ∧ file.write ||| 1 ≠ file.erase ||| 1

variable {kind : AgentKind} {file : AgentFile}

theorem IsImage.dataSize_toNat (h : kind.IsImage file) : file.dataSize.toNat = kind.dataSize := by
  rw [h.dataSize]
  cases kind
  all_goals rfl

theorem IsImage.flashSize_toNat (h : kind.IsImage file) : file.flashSize.toNat = kind.flashSize := by
  rw [h.flashSize]
  cases kind
  all_goals rfl

theorem IsImage.valid (h : kind.IsImage file) : file.Valid := by
  refine ⟨h.size, ?_, ?_, ?_, ?_, h.flashAddr, h.erase, h.write⟩
  · rw [h.dataAddr, h.loadAddr]
  · rw [h.dataSize_toNat]
    cases kind
    all_goals decide
  · rw [h.dataSize_toNat]
    cases kind
    all_goals decide
  · rw [h.dataSize_toNat]
    cases kind
    all_goals decide

/-- Every agent keeps to its part where programming an erased byte stores it. -/
theorem contract (kind : AgentKind) {cell : Cell} (hcell : ∀ b, cell 0xFF b = b)
    (rom : Iap.Rom cell kind.iapSectors) (status : ℕ → Word) (fuel : ℕ) (dataAddr : Word) :
    ∃ ready, (kind.agent rom status fuel).Contract ready dataAddr kind.dataSize kind.flashSize
      kind.grain ∧ ∀ t ram, ready t → ready { t with ram := ram } := by
  cases kind with
  | lpc13xx => exact ⟨_, Iap.contract hcell rom fuel _ dataAddr (by decide), fun _ _ h => h⟩
  | lpc15xx => exact ⟨_, Iap.contract hcell rom fuel _ dataAddr (by decide), fun _ _ h => h⟩
  | stm32f4xx => exact ⟨_, Stm32.contract hcell fuel dataAddr, fun _ _ h => h⟩
  | lpclink2 => exact ⟨_, Spi.contract fuel dataAddr, fun _ _ h => h⟩

end AgentKind

/-- Where the debugger says that it is done the image is in the flash: all of it on an STM32F4, and on
the others as far as it is whole words. The agent was not asked for anything outside its flash. -/
theorem image_flashed (kind : AgentKind) (cell : Cell) (hcell : ∀ b, cell 0xFF b = b)
    (rom : Iap.Rom cell kind.iapSectors) (status : ℕ → Word) (agentFuel fuel : ℕ) (cfg : Settings)
    (m : Setting) (hagent : m.agent = kind.agent rom status agentFuel)
    (hfile : kind.IsImage m.file) (flashaddr : Word) (image : ℕ → Byte) (dataSz : BitVec 64) (hsome : 0 < dataSz.toNat)
    (s : Station) :
    (runFlashAgent cfg fuel (some m.file) flashaddr (some image) dataSz).Meets (station m) s fun rc s' =>
      (rc = 0 → ∀ i < kind.covered dataSz.toNat, s'.target.flash (byteAddr flashaddr i) = image i) ∧
        PassedInside m.file s s' := by
  obtain ⟨ready, hcontract, hram⟩ := kind.contract hcell rom status agentFuel m.file.dataAddr
  rw [← hagent, ← hfile.dataSize_toNat, ← hfile.flashSize_toNat] at hcontract
  apply (runFlashAgent_meets cfg fuel flashaddr image hcontract hram hfile.valid
    hsome s).mono
  rintro rc s' ⟨hinside, hflashed⟩
  refine ⟨?_, hinside⟩
  intro hzero i hi
  obtain ⟨hgrain, hheld⟩ := hflashed hzero
  apply hheld i
  · cases kind
    all_goals simp only [AgentKind.covered] at hi
    all_goals omega
  · cases kind
    all_goals simp only [AgentKind.covered, AgentKind.grain] at hi hgrain
    all_goals omega

/-- A file with the header, and zeros where the functions would be. -/
def headerFile (kind : AgentKind) (flags : Word) : AgentFile where
  size := 128
  word i := ([agentMagic, agentVersion, flags, kind.loadAddr, kind.loadAddr + 0x400, BitVec.ofNat 32 kind.dataSize, 0,
    BitVec.ofNat 32 kind.flashSize, 0, 0, 0, 0, kind.loadAddr + 0x41, kind.loadAddr + 0x43, kind.loadAddr + 0x45,
    kind.loadAddr + 0x47] : List Word).getD i 0

/-- Flash that stores what is written to it, statuses that report nothing, and a boot ROM that comes
to the watchpoint at once. -/
def plainSetting (kind : AgentKind) (flags : Word) : Setting where
  agent := kind.agent (Iap.plainRom (fun _ b => b) _) (fun _ => 0) 4096
  file := headerFile kind flags
  rom t regs := some (t, regs)
  reset t := (t, fun _ => 0)
  attn _ := 0

def freshStation : Station where
  target := freshTarget
  regs _ := 0
  dcrdr := 0
  csr := 0
  halted := false
  loaded := false
  passed := []
  attns := 0

/-- A byte of the flash after a run that says that it is done. -/
def flashAfter (r : Option (Except Halt ℤ × Station)) (x : Word) : Option Byte :=
  match r with
  | some (.ok rc, s) => if rc = 0 then some (s.target.flash x) else none
  | _ => none

theorem done_of_flashAfter {r : Option (Except Halt ℤ × Station)} {x : Word} {b : Byte}
    (h : flashAfter r x = some b) : ∃ s, r = some (.ok 0, s) ∧ s.target.flash x = b := by
  unfold flashAfter at h
  split at h
  next rc s =>
    split at h
    next hzero =>
      subst hzero
      exact ⟨s, rfl, Option.some.inj h⟩
    · exact absurd h (by simp)
  · exact absurd h (by simp)

/-- Of 10000 bytes an LPC13xx gets two buffers full and a third that is not, which is padded. -/
theorem image_flashed_buffers : ∃ s', (runFlashAgent ⟨0, 0⟩ 4 (some (headerFile .lpc13xx flagBootRomHack)) 0x1000
      (some fun i => BitVec.ofNat 8 (i / 16)) 10000).run (station (plainSetting .lpc13xx flagBootRomHack))
        freshStation = some (.ok 0, s') ∧
    (∀ i < 10000, s'.target.flash (byteAddr 0x1000 i) = BitVec.ofNat 8 (i / 16)) ∧
    PassedInside (headerFile .lpc13xx flagBootRomHack) freshStation s' := by
  have hdone : flashAfter ((runFlashAgent ⟨0, 0⟩ 4 (some (headerFile .lpc13xx flagBootRomHack)) 0x1000
      (some fun i => BitVec.ofNat 8 (i / 16)) 10000).run (station (plainSetting .lpc13xx flagBootRomHack))
        freshStation) 0x370F = some 0x70 := by decide +kernel
  obtain ⟨s', hrun, _⟩ := done_of_flashAfter hdone
  have hfile : AgentKind.lpc13xx.IsImage (headerFile .lpc13xx flagBootRomHack) := by
    constructor
    all_goals decide
  obtain ⟨hheld, hinside⟩ := (image_flashed .lpc13xx (fun _ b => b) (fun _ => rfl) (Iap.plainRom _ 8)
    (fun _ => 0) 4096 4 ⟨0, 0⟩ (plainSetting .lpc13xx flagBootRomHack) rfl hfile 0x1000
    (fun i => BitVec.ofNat 8 (i / 16)) 10000 (by decide) freshStation).of_run 0 s' hrun
  exact ⟨s', hrun, hheld rfl, hinside⟩

/-- Of 4095 bytes the host downloads 1023 words to an LPC13xx, and the last three bytes in the flash
are what was in the buffer before. -/
theorem image_cut_short : ¬ ∀ (kind : AgentKind) (cell : Cell), (∀ b, cell 0xFF b = b) →
    ∀ (rom : Iap.Rom cell kind.iapSectors) (status : ℕ → Word) (agentFuel fuel : ℕ) (cfg : Settings)
      (m : Setting), m.agent = kind.agent rom status agentFuel → kind.IsImage m.file →
    ∀ (flashaddr : Word) (image : ℕ → Byte) (dataSz : BitVec 64), 0 < dataSz.toNat → ∀ s : Station,
      (runFlashAgent cfg fuel (some m.file) flashaddr (some image) dataSz).Meets (station m) s fun rc s' => rc = 0 →
        (∀ i < dataSz.toNat, s'.target.flash (byteAddr flashaddr i) = image i) ∧ PassedInside m.file s s' := by
  intro h
  have hdone : flashAfter ((runFlashAgent ⟨0, 0⟩ 2 (some (headerFile .lpc13xx flagBootRomHack)) 0
      (some fun _ => 0xA5) 4095).run (station (plainSetting .lpc13xx flagBootRomHack)) freshStation) 4092 =
        some 0 := by decide +kernel
  obtain ⟨s', hrun, hstale⟩ := done_of_flashAfter hdone
  have hfile : AgentKind.lpc13xx.IsImage (headerFile .lpc13xx flagBootRomHack) := by
    constructor
    all_goals decide
  obtain ⟨hheld, _⟩ := (h .lpc13xx (fun _ b => b) (fun _ => rfl) (Iap.plainRom _ 8) (fun _ => 0) 4096 2 ⟨0, 0⟩
    (plainSetting .lpc13xx flagBootRomHack) rfl hfile 0 (fun _ => 0xA5) 4095 (by decide) freshStation).of_run 0 s'
    hrun rfl
  have hlast : s'.target.flash 4092 = 0xA5 := hheld 4092 (by decide)
  rw [hstale] at hlast
  exact absurd hlast (by decide)

end M3Dev.Flash
