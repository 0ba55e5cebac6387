import M3Dev.BootLink
import M3Dev.BootStatus
import M3Dev.UsbReceiveRuns

/-! An image on its way into the flash. -/
namespace M3Dev.BootLink
open CallTree WhileLoop UsbReceive FifoLink ByteBlock

abbrev Goes (rom : Rom) (room buf : ℕ) (info : Packet) (s t : System) : Prop :=
  FifoLink.Goes room hostAct (deviceAct rom buf info) s t

/-! ### A packet after the other -/

/-- The endpoint and the memory after a read of a packet. -/
def received (usb : UsbV1.State) (l : Recv) (p : Packet) : UsbV1.State where
  fifo := Buffer.put usb.fifo 0 p
  plen := none
  line := []
  mem := Buffer.put usb.mem l.data (Buffer.get (Buffer.put usb.fifo 0 p) 0 ((min 64 l.count + 3) / 4 * 4))

section
variable {rom : Rom} {room buf : ℕ} {info : Packet} {goes : Recv → UsbV1.State → Device} {returns : ℤ → UsbV1.State → Device}
  {stays : Recv → UsbV1.State → Device} {l : Recv} {usb : UsbV1.State} {x : Host} {p : Packet}
  {out inn : List Packet}

theorem recv_ends (hact : ∀ l usb, deviceAct rom buf info (goes l usb) = recvAct l usb goes returns (stays l usb))
    (hcount : l.count = 0) : Goes rom room buf info ⟨x, goes l usb, out, inn⟩ ⟨x, returns l.rx usb, out, inn⟩ := by
  apply right_goes _ (.refl _)
  have hnot : ¬ (l.count ≠ 0 ∧ usb.plen = none) := fun h => h.1 hcount
  have hpass : UsbV1.usbRecv (l, usb) = some (.exit (l.rx, usb)) := recvPass_ends _ hcount usb
  rw [hact, recvAct, if_neg hnot, hpass]
  rfl

/-- A packet is taken in one pass and read in the next. -/
theorem recv_packet (hact : ∀ l usb, deviceAct rom buf info (goes l usb) = recvAct l usb goes returns (stays l usb))
    (hcount : 0 < l.count) (hplen : usb.plen = none) (hp : p.length ≤ 64) :
    Goes rom room buf info ⟨x, goes l usb, p :: out, inn⟩
      ⟨x, if min p.length l.count ≠ 64 then
          returns ((l.add (min p.length l.count)).rx : ℕ) (received usb l p)
        else
          goes (l.add (min p.length l.count)) (received usb l p), out, inn⟩ := by
  let held : UsbV1.State := { usb with fifo := Buffer.put usb.fifo 0 p, plen := some p.length, line := [] }
  have htakes : UsbV1.usbRecv (l, { usb with line := [some p] }) = some (.next (l, held)) := by
    rw [UsbV1.usbRecv_busy (s := { usb with line := [some p] }) hcount hplen]
    simp only [UsbV1.usbHandleIrq, hplen]
    rfl
  have hreads := recvPass_got UsbV1.usbHandleIrq hcount (UsbV1.usbEpNRead_held (l := l) (s := held) hp rfl)
  have hwaits : deviceAct rom buf info (goes l usb) = .receive fun p =>
      afterPass goes returns (stays l usb) (UsbV1.usbRecv (l, { usb with line := [some p] })) := by
    rw [hact, recvAct, if_pos ⟨hcount.ne', hplen⟩]
  apply right_receives hwaits
  rw [htakes]
  have hgoes : deviceAct rom buf info (goes l held) =
      .go (afterPass goes returns (stays l held) (UsbV1.usbRecv (l, held))) := by
    rw [hact, recvAct, if_neg (by simp [held])]
  apply right_goes hgoes
  rw [UsbV1.usbRecv, hreads]
  split
  · exact .refl _
  · exact .refl _

theorem received_mem {i : ℕ} (hi : i < p.length) (hcount : p.length ≤ l.count) (hp : p.length ≤ 64) :
    (received usb l p).mem (l.data + i) = p.getD i 0 := by
  have hblock : i < (Buffer.get (Buffer.put usb.fifo 0 p) 0 ((min 64 l.count + 3) / 4 * 4)).length := by
    rw [Buffer.get_length]
    omega
  have hbyte : Buffer.put usb.fifo 0 p (0 + i) = p[i] := Buffer.put_inside hi
  show Buffer.put usb.mem l.data (Buffer.get _ 0 _) (l.data + i) = _
  rw [Buffer.put_inside hblock, Buffer.get_getElem, hbyte, List.getD_eq_getElem _ _ hi]

theorem received_frame {a : ℕ} (ha : a < l.data) : (received usb l p).mem a = usb.mem a := Buffer.put_before ha

/-- A packet of 64 bytes in front of the rest of the data. -/
theorem received_front {bs : List Byte} (hlen : (bs.take 64).length = 64) (hmore : 64 ≤ l.count)
    {usb' : UsbV1.State}
    (hbytes : ∀ i < (l.add 64).count, usb'.mem ((l.add 64).data + i) = (bs.drop 64).getD i 0)
    (hframe : ∀ a < (l.add 64).data, usb'.mem a = (received usb l (bs.take 64)).mem a) :
    (∀ i < l.count, usb'.mem (l.data + i) = bs.getD i 0) ∧ ∀ a < l.data, usb'.mem a = usb.mem a := by
  constructor
  · intro i hi
    by_cases hfirst : i < 64
    · rw [hframe _ (Nat.add_lt_add_left hfirst l.data),
        received_mem (by omega) (hlen.le.trans hmore) hlen.le, List.getD_eq_getElem?_getD,
        List.getD_eq_getElem?_getD, List.getElem?_take_of_lt hfirst]
    · have hrest : i - 64 < (l.add 64).count := by
        show i - 64 < l.count - 64
        omega
      have hat : (l.add 64).data + (i - 64) = l.data + i := by
        show l.data + 64 + (i - 64) = _
        omega
      have hsum : 64 + (i - 64) = i := by omega
      rw [← hat, hbytes _ hrest, List.getD_eq_getElem?_getD, List.getElem?_drop, hsum,
        List.getD_eq_getElem?_getD]
  · intro a ha
    rw [hframe a (Nat.lt_add_right 64 ha), received_frame ha]

/-- As much of the data as is asked for arrives, in whole packets or up to the end. -/
theorem recv_run (hact : ∀ l usb, deviceAct rom buf info (goes l usb) = recvAct l usb goes returns (stays l usb))
    (hroom : 0 < room) {ps : List Packet} {n : ℤ} {k : Lpcboot.Answer → Lpcboot.Program ℤ}
    {printed : List Lpcboot.Report} (m : ℕ) {bs : List Byte} (hm : m = (l.count + 63) / 64)
    (hle : l.count ≤ bs.length) (hwhole : l.count = bs.length ∨ 64 ∣ l.count) (hplen : usb.plen = none) :
    ∃ usb', usb'.plen = none ∧ (∀ i < l.count, usb'.mem (l.data + i) = bs.getD i 0) ∧
      (∀ a < l.data, usb'.mem a = usb.mem a) ∧
      Goes rom room buf info ⟨⟨.sending (chunks m bs ++ ps) n k, printed⟩, goes l usb, [], inn⟩
        ⟨⟨.sending ps n k, printed⟩, returns ((l.rx + l.count : ℕ) : ℤ) usb', [], inn⟩ := by
  have hsends (m : ℕ) (bs : List Byte) : hostAct ⟨.sending (chunks (m + 1) bs ++ ps) n k, printed⟩ =
      .send (bs.take 64) ⟨.sending (chunks m (bs.drop 64) ++ ps) n k, printed⟩ := rfl
  -- on the number of packets still to come
  induction m generalizing bs l usb with
  | zero =>
    have hzero : l.count = 0 := by omega
    refine ⟨usb, hplen, ?_, fun _ _ => rfl, ?_⟩
    · intro i hi
      omega
    · rw [hzero]
      exact recv_ends hact hzero
  | succ m ih =>
    have hpos : 0 < l.count := by omega
    have hp : (bs.take 64).length ≤ 64 := List.length_take_le 64 bs
    have hpacket : Goes rom room buf info
        ⟨⟨.sending (chunks m (bs.drop 64) ++ ps) n k, printed⟩, goes l usb, [bs.take 64], inn⟩ _ :=
      recv_packet hact hpos hplen hp
    by_cases hmore : 64 ≤ l.count
    · -- a whole packet: the loop goes on
      have hlen : (bs.take 64).length = 64 := by
        rw [List.length_take]
        omega
      have hmin : min (bs.take 64).length l.count = 64 := by omega
      rw [hmin, if_neg (not_not_intro rfl)] at hpacket
      have hm' : m = ((l.add 64).count + 63) / 64 := by
        show m = (l.count - 64 + 63) / 64
        omega
      have hle' : (l.add 64).count ≤ (bs.drop 64).length := by
        rw [List.length_drop]
        show l.count - 64 ≤ _
        omega
      have hwhole' : (l.add 64).count = (bs.drop 64).length ∨ 64 ∣ (l.add 64).count := by
        rw [List.length_drop]
        show l.count - 64 = _ ∨ 64 ∣ l.count - 64
        omega
      obtain ⟨usb', hplen', hbytes, hframe, hgoes⟩ := ih (l := l.add 64) hm' hle' hwhole'
        (show (received usb l (bs.take 64)).plen = none from rfl)
      obtain ⟨hall, hbefore⟩ := received_front hlen hmore hbytes hframe
      refine ⟨usb', hplen', hall, hbefore, ?_⟩
      apply left_sends (hsends m bs) hroom
      apply hpacket.trans
      have hrx : (l.add 64).rx + (l.add 64).count = l.rx + l.count := by
        show l.rx + 64 + (l.count - 64) = _
        omega
      rw [hrx] at hgoes
      exact hgoes
    · -- a short one is the last of the data, and ends the loop
      have hall : l.count = bs.length := by omega
      have htake : bs.take 64 = bs := List.take_of_length_le (by omega)
      have hmin : min bs.length l.count = l.count := by omega
      have hnone : m = 0 := by omega
      rw [htake, hmin, if_pos (by omega), hnone] at hpacket
      refine ⟨received usb l bs, rfl, ?_, fun a ha => received_frame ha, ?_⟩
      · intro i hi
        exact received_mem (by omega) hall.ge (by omega)
      · rw [hnone]
        apply left_sends (hsends 0 bs) hroom
        rw [htake]
        exact hpacket

end

/-! ### A page after the other -/

theorem chunks_add (m n : ℕ) (bs : List Byte) :
    chunks (m + n) bs = chunks m bs ++ chunks n (bs.drop (64 * m)) := by
  induction m generalizing bs with
  | zero =>
    rw [Nat.zero_add]
    rfl
  | succ m ih =>
    have hdrop : 64 + 64 * m = 64 * (m + 1) := by omega
    rw [Nat.succ_add_eq_add_succ, Nat.add_succ, chunks, chunks, ih, List.drop_drop, hdrop]
    rfl

/-- What is left of an image to be sent when `k` pages are. -/
def pending (image : List Byte) (k : ℕ) : List Packet :=
  chunks ((image.length - 4096 * k + 63) / 64) (image.drop (4096 * k))

theorem pending_done {image : List Byte} {k : ℕ} (hk : image.length ≤ 4096 * k) : pending image k = [] := by
  rw [pending, Nat.sub_eq_zero_of_le hk]
  rfl

theorem pending_succ {image : List Byte} {k : ℕ} (hk : 4096 * k < image.length) : pending image k =
    chunks ((Boot.pageLen image.length k + 63) / 64) (image.drop (4096 * k)) ++ pending image (k + 1) := by
  have hlen : Boot.pageLen image.length k = min 4096 (image.length - 4096 * k) := rfl
  by_cases hlast : image.length ≤ 4096 * (k + 1)
  · have hall : Boot.pageLen image.length k = image.length - 4096 * k := by omega
    rw [pending_done hlast, List.append_nil, hall]
    rfl
  · have hpage : Boot.pageLen image.length k = 4096 := by omega
    have hcount : (image.length - 4096 * k + 63) / 64 = 64 + (image.length - 4096 * (k + 1) + 63) / 64 := by
      omega
    have hdrop : 4096 * k + 64 * 64 = 4096 * (k + 1) := by omega
    rw [pending, hcount, chunks_add, hpage, List.drop_drop, hdrop]
    rfl

/-- The flash with the first `k` pages of an image in it, that was `flash` before. -/
structure Written (image : List Byte) (flash : ℕ → Byte) (k : ℕ) (d : Device) : Prop where
  image : ∀ i < min (4096 * k) image.length, d.flash (4096 + i) = image.getD i 0
  rest : ∀ x, x < 4096 ∨ 4096 + 4096 * k ≤ x → d.flash x = flash x
  touched : ∀ s ∈ d.touched, 1 ≤ s ∧ s ≤ k

theorem sectorsOf_erase (first last clock : Boot.Word) :
    sectorsOf [Boot.opErase, first, last, clock] =
      List.range' first.toNat (last.toNat + 1 - first.toNat) := by
  rw [sectorsOf, if_pos rfl]

theorem sectorsOf_write (dst src n clock : Boot.Word) : sectorsOf [Boot.opWrite, dst, src, n, clock] =
    List.range' (dst.toNat / 4096) ((dst.toNat + n.toNat + 4095) / 4096 - dst.toNat / 4096) := by
  rw [sectorsOf, if_pos rfl]

/-- The device behind the ROM calls of a page. -/
def Device.page (rom : Rom) (d : Device) (page addr src : Boot.Word) : Device :=
  (((d.romcall rom [Boot.opPrepare, page, page]).romcall rom [Boot.opErase, page, page, 48000]).romcall
    rom [Boot.opPrepare, page, page]).romcall rom [Boot.opWrite, addr, src, 0x1000, 48000]

/-- The page is what is in the memory, and the rest of the flash is as it was. -/
theorem Device.page_flash (rom : Rom) (d : Device) {page addr : Boot.Word} (src : Boot.Word)
    (hpage : page.toNat < flashSectors) (haddr : addr.toNat = 4096 * page.toNat) (x : ℕ) : (d.page rom page addr src).flash x =
      if addr.toNat ≤ x ∧ x < addr.toNat + 4096 then d.usb.mem (src.toNat + (x - addr.toNat))
      else d.flash x := by
  let d1 := d.romcall rom [Boot.opPrepare, page, page]
  let d2 := d1.romcall rom [Boot.opErase, page, page, 48000]
  let d3 := d2.romcall rom [Boot.opPrepare, page, page]
  have herased (x : ℕ) : d2.flash x =
      if 4096 * page.toNat ≤ x ∧ x < 4096 * (page.toNat + 1) then 0xFF else d.flash x := by
    refine (rom.erases d.calls page page 48000 d1.flash d.usb.mem hpage x).trans ?_
    have hsame : d1.flash = d.flash := rom.prepares _ _ _ _ _
    rw [hsame]
  have hkept : d3.flash = d2.flash := rom.prepares _ _ _ _ _
  have hones : ∀ i < 4096, d3.flash (addr.toNat + i) = 0xFF := by
    intro i hi
    rw [hkept, herased, if_pos (by omega)]
  refine (rom.programs d2.calls page addr src 48000 d3.flash d.usb.mem hpage haddr hones x).trans ?_
  rw [hkept, herased]
  by_cases hin : addr.toNat ≤ x ∧ x < addr.toNat + 4096
  · rw [if_pos hin, if_pos hin]
  · rw [if_neg hin, if_neg hin, if_neg (by omega)]

theorem Written.next {image : List Byte} {flash : ℕ → Byte} {k : ℕ} {d : Device} (h : Written image flash k d)
    (rom : Rom) {page addr src : Boot.Word} (hk : k < 7) (hpage : page.toNat = k + 1) (haddr : addr.toNat = 4096 + 4096 * k)
    (hmem : ∀ i < Boot.pageLen image.length k,
      d.usb.mem (src.toNat + i) = (image.drop (4096 * k)).getD i 0) :
    Written image flash (k + 1) (d.page rom page addr src) := by
  have hsector : page.toNat < flashSectors := by
    show page.toNat < 8
    omega
  have hbase : addr.toNat = 4096 * page.toNat := by omega
  have hflash := d.page_flash rom src hsector hbase
  rw [haddr] at hflash
  constructor
  · intro i hi
    rw [hflash]
    by_cases hnew : 4096 * k ≤ i
    · have hlen : Boot.pageLen image.length k = min 4096 (image.length - 4096 * k) := rfl
      have hsub : 4096 + i - (4096 + 4096 * k) = i - 4096 * k := by omega
      have hsum : 4096 * k + (i - 4096 * k) = i := by omega
      rw [if_pos (by omega), hsub, hmem _ (by omega), List.getD_eq_getElem?_getD, List.getElem?_drop, hsum,
        List.getD_eq_getElem?_getD]
    · rw [if_neg (by omega)]
      exact h.image i (by omega)
  · intro x hx
    rw [hflash, if_neg (by omega)]
    exact h.rest x (by omega)
  · intro s hs
    have hmem : s ∈ d.touched ++ [] ++ sectorsOf [Boot.opErase, page, page, 48000] ++ [] ++
        sectorsOf [Boot.opWrite, addr, src, 0x1000, 48000] := hs
    have hsize : (0x1000 : Boot.Word).toNat = 4096 := rfl
    rw [sectorsOf_erase, sectorsOf_write, hsize] at hmem
    simp only [List.append_nil, List.mem_append, List.mem_range'_1] at hmem
    rcases hmem with (hbefore | herased) | hprogrammed
    · have := h.touched s hbefore
      omega
    · omega
    · omega

/-- The loop of `W`, and what comes behind it. -/
def writeFrom (arg : Boot.Word) (f : Unit → Boot.Program Unit) (fuel k : ℕ) : Boot.Program Unit :=
  Prog.loop .spins (fun s => Boot.writePass Boot.ramBase s.1 s.2) fuel (Boot.pageAddr k, Boot.left arg k) >>= f

/-- The calls of a pass that has something to do. -/
theorem writeFrom_next {arg : Boot.Word} {k : ℕ} (hk : 4096 * k < arg.toNat) (f : Unit → Boot.Program Unit)
    (fuel : ℕ) : writeFrom arg f (fuel + 1) k =
      .call (.usbRecv Boot.ramBase (BitVec.ofNat 32 (Boot.pageLen arg.toNat k))) fun _ =>
      .call (.romcall [Boot.opPrepare, Boot.page (Boot.pageAddr k), Boot.page (Boot.pageAddr k)]) fun _ =>
      .call (.romcall [Boot.opErase, Boot.page (Boot.pageAddr k), Boot.page (Boot.pageAddr k), 48000]) fun _ =>
      .call (.romcall [Boot.opPrepare, Boot.page (Boot.pageAddr k), Boot.page (Boot.pageAddr k)]) fun _ =>
      .call (.romcall [Boot.opWrite, Boot.pageAddr k, Boot.ramBase, 0x1000, 48000]) fun _ =>
      writeFrom arg f fuel (k + 1) := by
  have hpass : Boot.writePass Boot.ramBase (Boot.pageAddr k) (Boot.left arg k) = (do
      Boot.usbRecv Boot.ramBase (BitVec.ofNat 32 (Boot.pageLen arg.toNat k))
      Boot.iapErasePage (Boot.pageAddr k)
      Boot.iapWritePage (Boot.pageAddr k) Boot.ramBase
      return .next (Boot.pageAddr (k + 1), Boot.left arg (k + 1))) := by
    rw [Boot.writePass, if_pos (Boot.left_pos hk)]
    dsimp only
    rw [Boot.xfer_eq, Boot.left_succ hk, Boot.pageAddr_succ]
  rw [writeFrom, Prog.loop, hpass]
  rfl

theorem writeFrom_done {arg : Boot.Word} {k : ℕ} (hk : arg.toNat ≤ 4096 * k) (f : Unit → Boot.Program Unit)
    (fuel : ℕ) : writeFrom arg f (fuel + 1) k = f () := by
  have hzero : Boot.left arg k = 0 := by
    rw [Boot.left, Nat.sub_eq_zero_of_le hk]
    rfl
  rw [writeFrom, Prog.loop, hzero]
  rfl

theorem page_pageAddr {k : ℕ} (hk : k < 7) : (Boot.page (Boot.pageAddr k)).toNat = k + 1 := by
  interval_cases k
  all_goals rfl

theorem pageAddr_toNat {k : ℕ} (hk : k < 7) : (Boot.pageAddr k).toNat = 4096 + 4096 * k := by
  rw [Boot.pageAddr, BitVec.toNat_ofNat, Nat.mod_eq_of_lt (by omega)]

section
variable {rom : Rom} {room buf : ℕ} {info : Packet} {x : Host} {out inn : List Packet}

theorem device_goes {d d' : Device} (h : deviceAct rom buf info d = .go d') :
    Goes rom room buf info ⟨x, d, out, inn⟩ ⟨x, d', out, inn⟩ := right_goes h (.refl _)

/-- The ROM calls of a page. -/
theorem page_calls (d : Device) (pg addr src : Boot.Word) (p : Boot.Program Unit) :
    Goes rom room buf info
      ⟨x, { d with pos := .running (
        .call (.romcall [Boot.opPrepare, pg, pg]) fun _ =>
        .call (.romcall [Boot.opErase, pg, pg, 48000]) fun _ =>
        .call (.romcall [Boot.opPrepare, pg, pg]) fun _ =>
        .call (.romcall [Boot.opWrite, addr, src, 0x1000, 48000]) fun _ => p) }, out, inn⟩
      ⟨x, { d.page rom pg addr src with pos := .running p }, out, inn⟩ := by
  have hcall (d : Device) (args : List Boot.Word) (k : ℤ → Boot.Program Unit) : Goes rom room buf info
      ⟨x, { d with pos := .running (.call (.romcall args) k) }, out, inn⟩
      ⟨x, { d.romcall rom args with pos := .running (k 0) }, out, inn⟩ := device_goes rfl
  exact (hcall d _ _).trans ((hcall _ _ _).trans ((hcall _ _ _).trans (hcall _ _ _)))

variable (buf info inn)

/-- `usb_recv` of `handle`, from its call to its return. -/
theorem device_recv (hroom : 0 < room) (d : Device) (dest count : Boot.Word) (k : ℤ → Boot.Program Unit)
    {bs : List Byte} (hle : count.toNat ≤ bs.length) (hwhole : count.toNat = bs.length ∨ 64 ∣ count.toNat)
    (hplen : d.usb.plen = none) (ps : List Packet) (n : ℤ) (kh : Lpcboot.Answer → Lpcboot.Program ℤ)
    (printed : List Lpcboot.Report) :
    ∃ usb', usb'.plen = none ∧ (∀ i < count.toNat, usb'.mem (dest.toNat + i) = bs.getD i 0) ∧
      Goes rom room buf info
        ⟨⟨.sending (chunks ((count.toNat + 63) / 64) bs ++ ps) n kh, printed⟩,
          { d with pos := .running (.call (.usbRecv dest count) k) }, [], inn⟩
        ⟨⟨.sending ps n kh, printed⟩,
          { d with pos := .running (k ((0 + count.toNat : ℕ) : ℤ)), usb := usb' }, [], inn⟩ := by
  have hact (l : Recv) (usb : UsbV1.State) : deviceAct rom buf info { d with pos := .recv l k, usb := usb } =
      recvAct l usb (fun l usb => { d with pos := .recv l k, usb := usb })
        (fun n usb => { d with pos := .running (k n), usb := usb }) { d with pos := .recv l k, usb := usb } := rfl
  obtain ⟨usb', hplen', hbytes, _, hgoes⟩ := recv_run (l := ⟨dest.toNat, 0, count.toNat⟩) (n := n) (k := kh)
    hact hroom _ rfl hle hwhole hplen
  refine ⟨usb', hplen', hbytes, ?_⟩
  exact (device_goes rfl).trans hgoes

/-- The device with a page more in its flash. -/
theorem page_run {image : List Byte} {flash : ℕ → Byte} {arg : Boot.Word} {k : ℕ} {d : Device}
    (hroom : 0 < room) (harg : arg.toNat = image.length) (hmore : 4096 * k < image.length) (hk : k < 7)
    (hplen : d.usb.plen = none) (hd : Written image flash k d) (f : Unit → Boot.Program Unit) (fuel : ℕ)
    (n : ℤ) (kh : Lpcboot.Answer → Lpcboot.Program ℤ) (printed : List Lpcboot.Report) :
    ∃ d', d'.usb.plen = none ∧ d'.sent = d.sent ∧ Written image flash (k + 1) d' ∧
      Goes rom room buf info
        ⟨⟨.sending (pending image k) n kh, printed⟩,
          { d with pos := .running (writeFrom arg f (fuel + 1) k) }, [], inn⟩
        ⟨⟨.sending (pending image (k + 1)) n kh, printed⟩,
          { d' with pos := .running (writeFrom arg f fuel (k + 1)) }, [], inn⟩ := by
  have hlen : Boot.pageLen image.length k = min 4096 (image.length - 4096 * k) := rfl
  have hcount : (BitVec.ofNat 32 (Boot.pageLen image.length k)).toNat = Boot.pageLen image.length k := by
    rw [BitVec.toNat_ofNat, Nat.mod_eq_of_lt (by omega)]
  have hle : (BitVec.ofNat 32 (Boot.pageLen image.length k)).toNat ≤ (image.drop (4096 * k)).length := by
    rw [hcount, List.length_drop]
    omega
  have hwhole : (BitVec.ofNat 32 (Boot.pageLen image.length k)).toNat = (image.drop (4096 * k)).length ∨
      64 ∣ (BitVec.ofNat 32 (Boot.pageLen image.length k)).toNat := by
    rw [hcount, List.length_drop]
    omega
  have hcalls := writeFrom_next (harg.symm ▸ hmore) f fuel
  rw [harg] at hcalls
  obtain ⟨usb', hplen', hbytes, hgoes⟩ := device_recv buf info inn hroom d
    Boot.ramBase _ _ hle hwhole hplen (pending image (k + 1)) n kh printed
  rw [hcount] at hbytes
  let d1 : Device := { d with usb := usb' }
  have hwritten : Written image flash k d1 := ⟨hd.image, hd.rest, hd.touched⟩
  have hnext := hwritten.next rom hk (page_pageAddr hk) (pageAddr_toNat hk) hbytes
  have hpage : Goes rom room buf info ⟨⟨.sending (pending image (k + 1)) n kh, printed⟩, _, [], inn⟩ _ := page_calls d1
    (Boot.page (Boot.pageAddr k)) (Boot.pageAddr k) Boot.ramBase (writeFrom arg f fuel (k + 1))
  refine ⟨_, ?_, ?_, hnext, ?_⟩
  · exact hplen'
  · rfl
  · rw [hcalls, pending_succ hmore]
    rw [hcount] at hgoes
    exact hgoes.trans hpage

/-- The loop from page `k` on, with `j` pages to go. -/
theorem pages_run {image : List Byte} {flash : ℕ → Byte} {arg : Boot.Word} (hroom : 0 < room)
    (harg : arg.toNat = image.length) (hsize : image.length ≤ 28672) (j : ℕ) {k : ℕ}
    (hj : Boot.pages image.length = k + j) {d : Device} (hplen : d.usb.plen = none)
    (hd : Written image flash k d) (f : Unit → Boot.Program Unit) (fuel : ℕ)
    (n : ℤ) (kh : Lpcboot.Answer → Lpcboot.Program ℤ) (printed : List Lpcboot.Report) :
    ∃ d', d'.usb.plen = none ∧ d'.sent = d.sent ∧ Written image flash (k + j) d' ∧
      Goes rom room buf info
        ⟨⟨.sending (pending image k) n kh, printed⟩,
          { d with pos := .running (writeFrom arg f (fuel + 1 + j) k) }, [], inn⟩
        ⟨⟨.sending [] n kh, printed⟩, { d' with pos := .running (f ()) }, [], inn⟩ := by
  unfold Boot.pages at hj
  induction j generalizing k d with
  | zero =>
    have hdone : image.length ≤ 4096 * k := by omega
    refine ⟨d, hplen, rfl, hd, ?_⟩
    rw [pending_done hdone, writeFrom_done (harg.symm ▸ hdone)]
    exact .refl _
  | succ j ih =>
    have hmore : 4096 * k < image.length := by omega
    obtain ⟨d1, hplen1, hsent1, hd1, hgoes1⟩ := page_run buf info inn hroom harg hmore (by omega) hplen hd f
      (fuel + 1 + j) n kh printed
    obtain ⟨d', hplen', hsent', hd', hgoes'⟩ := ih (k := k + 1) (by omega) hplen1 hd1
    refine ⟨d', hplen', hsent'.trans hsent1, ?_, hgoes1.trans hgoes'⟩
    rw [Nat.add_right_comm] at hd'
    exact hd'

end

/-! ### The whole of it -/

def reply (status : Word) : Packet := [0xDB00A5A5, status].flatMap wordBytes

theorem handle_writes {arg : Boot.Word} (harg : ¬ Boot.romSize < arg) : Boot.handle 0xDB00A5A5 0x57 arg =
    .call (.usbXmit [0xDB00A5A5, 0]) fun _ =>
      writeFrom arg (fun _ => Boot.usbXmit [0xDB00A5A5, 0]) (arg.toNat + 1) 0 := by
  have hfirst : Boot.left arg 0 = arg := by
    rw [Boot.left, Nat.mul_zero, Nat.sub_zero, BitVec.ofNat_toNat, BitVec.setWidth_eq]
  rw [Boot.handle, if_neg (by decide), if_neg (by decide), if_pos rfl, if_neg harg, writeFrom, hfirst]
  rfl

theorem handle_refuses {arg : Boot.Word} (harg : Boot.romSize < arg) : Boot.handle 0xDB00A5A5 0x57 arg =
    .call (.usbXmit [0xDB00A5A5, -1]) fun _ => .ret () := by
  rw [Boot.handle, if_neg (by decide), if_neg (by decide), if_pos rfl, if_pos harg]
  rfl

section
variable (image : List Byte)

/-- The loop of `lpcboot` once the image is sent. -/
def awaitLast : Lpcboot.Program ℤ := Prog.loop .spins (Lpcboot.replyPass .flash image) 1 false

def awaitFirst : Lpcboot.Program ℤ := Prog.loop .spins (Lpcboot.replyPass .flash image) 2 true

theorem awaitLast_okay : ∃ k, awaitLast image = .call (.usbRead 8) k ∧
    k (readAnswer 8 (reply 0)) = .call (.print .okay) fun _ => .ret 0 := by
  refine ⟨_, rfl, ?_⟩
  rfl

theorem awaitFirst_okay : ∃ k k', awaitFirst image = .call (.usbRead 8) k ∧
    k (readAnswer 8 (reply 0)) = (.call (.print (.sending image.length)) fun _ => .call (.usbWrite image) k') ∧
    k' ⟨image.length, []⟩ = awaitLast image := by
  refine ⟨_, _, rfl, rfl, ?_⟩
  show (if (image.length : ℤ) ≠ image.length then _ else _ : Lpcboot.Program (Pass Bool ℤ)) >>= _ = _
  rw [if_neg (not_not_intro rfl)]
  rfl

theorem awaitFirst_failure : ∃ k, awaitFirst image = .call (.usbRead 8) k ∧
    k (readAnswer 8 (reply (-1))) = .call (.print (.failure .flash)) fun _ => .ret (-1) := by
  refine ⟨_, rfl, ?_⟩
  rfl

end

/-- The command. -/
def command (sz : ℕ) : Packet := [0xDB00A5A5, 0x57, BitVec.ofNat 32 sz].flatMap wordBytes

/-- At most a megabyte of the file is read. -/
theorem main_flash {file : List Byte} (hfile : file ≠ []) :
    ∃ k, Lpcboot.main .flash (some file) = .call (.usbWrite (command (file.take (1024 * 1024)).length)) k ∧
      k ⟨12, []⟩ = awaitFirst (file.take (1024 * 1024)) := by
  have hpos : 0 < file.length := List.length_pos_of_ne_nil hfile
  have hsome : ¬ (Lpcboot.Command.flash.downloads = true ∧ (file.take (1024 * 1024)).length < 1) := by
    rintro ⟨_, hlen⟩
    rw [List.length_take] at hlen
    omega
  rw [Lpcboot.main]
  dsimp only
  rw [Option.getD_some, if_neg hsome]
  refine ⟨_, rfl, ?_⟩
  rfl

section
variable {rom : Rom} {room buf : ℕ} {info : Packet} {d : Device} {x : Host} {printed : List Lpcboot.Report}

theorem loadWord_received {usb : UsbV1.State} {p : Packet} {j : ℕ} {w : Word} (hp : p.length = 12) (hj : j < 3)
    (hw : ∀ i < 4, p.getD (4 * j + i) 0 = (wordBytes w).getD i 0) :
    loadWord (received usb ⟨buf, 0, 64⟩ p).mem (buf + 4 * j) = w := by
  have hbytes : ∀ i < 4, (received usb ⟨buf, 0, 64⟩ p).mem (buf + 4 * j + i) = (wordBytes w).getD i 0 := by
    intro i hi
    have hat : 4 * j + i < p.length := by omega
    have hlen : p.length ≤ (⟨buf, 0, 64⟩ : Recv).count := by
      rw [hp]
      show 12 ≤ 64
      decide
    rw [Nat.add_assoc, ← hw i hi]
    exact received_mem (l := ⟨buf, 0, 64⟩) hat hlen (by omega)
  rw [loadWord, leWord_congr hbytes, leWord_wordBytes]

/-- The command reaches the boot loader. -/
theorem command_run (rom : Rom) (hroom : 0 < room) (hd : d.Waiting buf) (info : Packet) (sz : ℕ)
    (k : Lpcboot.Answer → Lpcboot.Program ℤ) :
    ∃ usb', usb'.plen = none ∧ Goes rom room buf info
      ⟨⟨.running (.call (.usbWrite (command sz)) k), []⟩, d, [], []⟩
      ⟨⟨.running (k ⟨12, []⟩), []⟩,
        { d with pos := .running (Boot.handle 0xDB00A5A5 0x57 (BitVec.ofNat 32 sz)), usb := usb' }, [], []⟩ := by
  obtain ⟨pos, usb, flash, calls, touched, sent⟩ := d
  obtain rfl : pos = .main ⟨buf, 0, 64⟩ := hd.pos
  have hword (j : ℕ) (w : Word) (hj : j < 3)
      (hw : ∀ i < 4, (command sz).getD (4 * j + i) 0 = (wordBytes w).getD i 0) :
      loadWord (received usb ⟨buf, 0, 64⟩ (command sz)).mem (buf + 4 * j) = w := loadWord_received rfl hj hw
  -- the three words, as `main` reads them
  have hhandle : Boot.handle (loadWord (received usb ⟨buf, 0, 64⟩ (command sz)).mem buf)
      (loadWord (received usb ⟨buf, 0, 64⟩ (command sz)).mem (buf + 4))
      (loadWord (received usb ⟨buf, 0, 64⟩ (command sz)).mem (buf + 8)) =
        Boot.handle 0xDB00A5A5 0x57 (BitVec.ofNat 32 sz) := by
    have h0 := hword 0 0xDB00A5A5 (by decide) (fun i hi => by interval_cases i <;> rfl)
    have h1 := hword 1 0x57 (by decide) (fun i hi => by interval_cases i <;> rfl)
    have h2 := hword 2 (BitVec.ofNat 32 sz) (by decide) (fun i hi => by interval_cases i <;> rfl)
    rw [Nat.mul_zero, Nat.add_zero] at h0
    rw [Nat.mul_one] at h1
    rw [h0, h1, h2]
  have hlen : (command sz).length = 12 := rfl
  have hone : packets (command sz) = [command sz] := by
    rw [packets, hlen]
    rfl
  -- the packet goes out
  have hwrites : hostAct ⟨.running (.call (.usbWrite (command sz)) k), []⟩ =
      .go ⟨.sending [command sz] 12 k, []⟩ := by
    show Act.go (⟨.sending (packets (command sz)) (command sz).length k, []⟩ : Host) = _
    rw [hone, hlen]
    rfl
  have hsends : hostAct ⟨.sending [command sz] 12 k, []⟩ = .send (command sz) ⟨.sending [] 12 k, []⟩ := rfl
  have hsent : hostAct ⟨.sending [] 12 k, []⟩ = .go ⟨.running (k ⟨12, []⟩), []⟩ := rfl
  refine ⟨received usb ⟨buf, 0, 64⟩ (command sz), rfl, ?_⟩
  apply left_goes hwrites
  apply left_sends hsends hroom
  apply left_goes hsent
  -- and is what `usb_recv_timeout` comes back with
  let returns (n : ℤ) (usb : UsbV1.State) : Device :=
    let pos := if n = 12 then
      .running (Boot.handle (loadWord usb.mem buf) (loadWord usb.mem (buf + 4)) (loadWord usb.mem (buf + 8)))
    else
      .main ⟨buf, 0, 64⟩
    ⟨pos, usb, flash, calls, touched, sent⟩
  have hact (l : Recv) (usb : UsbV1.State) : deviceAct rom buf info ⟨.main l, usb, flash, calls, touched, sent⟩ =
      recvAct l usb (fun l usb => ⟨.main l, usb, flash, calls, touched, sent⟩) returns
        ⟨.main l, usb, flash, calls, touched, sent⟩ := rfl
  have hpacket : Goes rom room buf info
      ⟨⟨.running (k ⟨12, []⟩), []⟩, ⟨.main ⟨buf, 0, 64⟩, usb, flash, calls, touched, sent⟩, [command sz], []⟩ _ :=
    recv_packet (l := ⟨buf, 0, 64⟩) hact (Nat.zero_lt_succ 63) hd.plen (hlen.trans_le (by decide))
  have hmin : min (command sz).length (⟨buf, 0, 64⟩ : Recv).count = 12 := rfl
  rw [hmin, if_pos (by decide)] at hpacket
  have hreturns : returns ((⟨buf, 0, 64⟩ : Recv).add 12).rx (received usb ⟨buf, 0, 64⟩ (command sz)) =
      ⟨.running (Boot.handle 0xDB00A5A5 0x57 (BitVec.ofNat 32 sz)), received usb ⟨buf, 0, 64⟩ (command sz),
        flash, calls, touched, sent⟩ := by
    rw [← hhandle]
    rfl
  rw [hreturns] at hpacket
  exact hpacket

/-- A status on its way to the host. -/
theorem reply_run (hroom : 0 < room) (d : Device) (status : Word) {k : ℤ → Boot.Program Unit}
    {kh : Lpcboot.Answer → Lpcboot.Program ℤ} : Goes rom room buf info
      ⟨⟨.running (.call (.usbRead 8) kh), printed⟩,
        { d with pos := .running (.call (.usbXmit [0xDB00A5A5, status]) k) }, [], []⟩
      ⟨⟨.running (kh (readAnswer 8 (reply status))), printed⟩,
        { d with pos := .running (k 8), sent := d.sent ++ [reply status] }, [], []⟩ := by
  have hsends : deviceAct rom buf info { d with pos := .running (.call (.usbXmit [0xDB00A5A5, status]) k) } =
      .send (reply status) { d with pos := .running (k 8), sent := d.sent ++ [reply status] } := rfl
  have hreads : hostAct ⟨.running (.call (.usbRead 8) kh), printed⟩ =
      .receive fun p => ⟨.running (kh (readAnswer 8 p)), printed⟩ := rfl
  apply right_sends hsends hroom
  apply left_receives hreads
  exact .refl _

theorem host_prints (r : Lpcboot.Report) {kh : Lpcboot.Answer → Lpcboot.Program ℤ} : Goes rom room buf info
    ⟨⟨.running (.call (.print r) kh), printed⟩, d, [], []⟩
    ⟨⟨.running (kh ⟨0, []⟩), printed ++ [r]⟩, d, [], []⟩ := by
  have hprints : hostAct ⟨.running (.call (.print r) kh), printed⟩ =
      .go ⟨.running (kh ⟨0, []⟩), printed ++ [r]⟩ := rfl
  apply left_goes hprints
  exact .refl _

/-- `handle` returns, and `main` waits for the next command. -/
theorem device_waits (d : Device) : Goes rom room buf info ⟨x, { d with pos := .running (.ret ()) }, [], []⟩
    ⟨x, { d with pos := .main ⟨buf, 0, 64⟩ }, [], []⟩ := device_goes rfl

theorem waiting_ended (d : Device) (hplen : d.usb.plen = none) (printed : List Lpcboot.Report) (r : ℤ) :
    Ended rom room buf info ⟨⟨.running (.ret r), printed⟩, { d with pos := .main ⟨buf, 0, 64⟩ }, [], []⟩ := by
  have hwaits : deviceAct rom buf info { d with pos := .main ⟨buf, 0, 64⟩ } = .receive _ :=
    if_pos ⟨Nat.succ_ne_zero 63, hplen⟩
  exact ended_waiting rfl hwaits []

/-- An image that is too large. -/
theorem refused_run {image : List Byte} (hroom : 0 < room) (hd : d.Waiting buf) (hsize : 28672 < image.length) :
    ∃ t, Goes rom room buf info (start image d) t ∧ Ended rom room buf info t ∧ Refused d.flash t := by
  have hsome : image ≠ [] := by
    rintro rfl
    exact absurd hsize (by decide)
  have hrefuses : Boot.romSize < BitVec.ofNat 32 (image.take (1024 * 1024)).length := by
    rw [BitVec.lt_def, BitVec.toNat_ofNat, List.length_take, Nat.mod_eq_of_lt (by omega)]
    show 28672 < _
    omega
  obtain ⟨k, hmain, hawait⟩ := main_flash hsome
  obtain ⟨kh, hread, hfailure⟩ := awaitFirst_failure (image.take (1024 * 1024))
  obtain ⟨usb', hplen, hcommand⟩ := command_run rom hroom hd info (image.take (1024 * 1024)).length k
  rw [hawait, hread, handle_refuses hrefuses] at hcommand
  rw [start, hmain]
  have hreply := hcommand.trans (reply_run hroom { d with usb := usb' } (-1))
  rw [hfailure] at hreply
  have hprinted := hreply.trans (host_prints (.failure .flash))
  let d' : Device := { d with usb := usb', sent := d.sent ++ [reply (-1)] }
  have hended : Ended rom room buf info _ := waiting_ended d' hplen [.failure .flash] (-1)
  exact ⟨_, hprinted.trans (device_waits d'), hended, rfl, rfl, rfl, hd.touched⟩

/-- An image that fits. -/
theorem stored_run {image : List Byte} (hroom : 0 < room) (hd : d.Waiting buf) (hsome : image ≠ [])
    (hsize : image.length ≤ 28672) :
    ∃ t, Goes rom room buf info (start image d) t ∧ Ended rom room buf info t ∧ Stored image d.flash t := by
  have harg : (BitVec.ofNat 32 image.length).toNat = image.length := by
    rw [BitVec.toNat_ofNat, Nat.mod_eq_of_lt (by omega)]
  have haccepts : ¬ Boot.romSize < BitVec.ofNat 32 image.length := by
    rw [BitVec.lt_def, harg]
    show ¬ 28672 < image.length
    omega
  have htake : image.take (1024 * 1024) = image := List.take_of_length_le (by omega)
  have hpages : Boot.pages image.length = 0 + Boot.pages image.length := (Nat.zero_add _).symm
  have hfuel : image.length + 1 = image.length - Boot.pages image.length + 1 + Boot.pages image.length := by
    unfold Boot.pages
    omega
  obtain ⟨k, hmain, hawait⟩ := main_flash hsome
  rw [htake] at hmain hawait
  obtain ⟨kh, kw, hread, hokay, hsent⟩ := awaitFirst_okay image
  obtain ⟨kl, hread', hokay'⟩ := awaitLast_okay image
  obtain ⟨usb', hplen, hcommand⟩ := command_run rom hroom hd info image.length k
  rw [hawait, hread, handle_writes haccepts, harg] at hcommand
  -- the first reply, and the write begins
  have hreply := hcommand.trans (reply_run hroom { d with usb := usb' } 0)
  rw [hokay] at hreply
  have hprinted := hreply.trans (host_prints (.sending image.length))
  have hbegun := hprinted.trans (left_goes rfl (.refl _))
  -- the pages
  let d1 : Device := { d with usb := usb', sent := d.sent ++ [reply 0] }
  have hwritten : Written image d.flash 0 d1 := by
    refine ⟨?_, fun _ _ => rfl, ?_⟩
    · intro i hi
      omega
    · intro s hs
      rw [show d1.touched = [] from hd.touched] at hs
      exact absurd hs List.not_mem_nil
  obtain ⟨d2, hplen2, hsent2, hwritten2, hgoes2⟩ := pages_run buf info [] hroom harg hsize
    (Boot.pages image.length) hpages hplen hwritten (fun _ => Boot.usbXmit [0xDB00A5A5, 0])
    (image.length - Boot.pages image.length) image.length kw [.sending image.length]
  rw [hfuel] at hbegun
  have hwrites := hbegun.trans hgoes2
  -- the last reply
  have hsending : hostAct ⟨.sending [] image.length kw, [.sending image.length]⟩ =
      .go ⟨.running (kw ⟨image.length, []⟩), [.sending image.length]⟩ := rfl
  have hwritten := hwrites.trans (left_goes hsending (.refl _))
  rw [hsent, hread'] at hwritten
  have hlast := hwritten.trans (reply_run hroom d2 0)
  rw [hokay'] at hlast
  have hdone := hlast.trans (host_prints .okay)
  let d' : Device := { d2 with sent := d2.sent ++ [reply 0] }
  have hended : Ended rom room buf info _ := waiting_ended d' hplen2 [.sending image.length, .okay] 0
  have hall : Boot.pages image.length = (image.length + 4095) / 4096 := rfl
  rw [Nat.zero_add, hall] at hwritten2
  rw [start, hmain]
  refine ⟨_, hdone.trans (device_waits d'), hended, rfl, rfl, ⟨?_, rfl⟩, ?_, hwritten2.rest, ?_⟩
  · show (d2.sent ++ [reply 0]).length = 2
    rw [hsent2, show d1.sent = d.sent ++ [reply 0] from rfl, hd.sent]
    rfl
  · intro i hi
    have hbyte := hwritten2.image i (by omega)
    rwa [List.getD_eq_getElem _ _ hi] at hbyte
  · intro hown
    exact absurd (hwritten2.touched 0 hown).1 (by decide)

end

/-! ### Whatever the order -/

/-- The sectors that were touched stay on record. -/
def Keeps (d : Device) : Act Device Packet → Prop
  | .stop => True
  | .go d' => d.touched ⊆ d'.touched
  | .send _ d' => d.touched ⊆ d'.touched
  | .receive k => ∀ p, d.touched ⊆ (k p).touched

theorem recvAct_keeps {d : Device} {goes : Recv → UsbV1.State → Device} {returns : ℤ → UsbV1.State → Device}
    {stays : Device} (hgoes : ∀ l usb, d.touched ⊆ (goes l usb).touched)
    (hreturns : ∀ n usb, d.touched ⊆ (returns n usb).touched) (hstays : d.touched ⊆ stays.touched) (l : Recv)
    (usb : UsbV1.State) : Keeps d (recvAct l usb goes returns stays) := by
  have hafter : ∀ r, d.touched ⊆ (afterPass goes returns stays r).touched := by
    intro r
    match r with
    | some (.next (l, usb)) => exact hgoes l usb
    | some (.exit (n, usb)) => exact hreturns n usb
    | none => exact hstays
  unfold recvAct
  split
  · exact fun _ => hafter _
  · exact hafter _

theorem deviceAct_keeps (rom : Rom) (buf : ℕ) (info : Packet) (d : Device) : Keeps d (deviceAct rom buf info d) := by
  have hsame : d.touched ⊆ d.touched := List.Subset.refl _
  obtain ⟨pos, usb, flash, calls, touched, sent⟩ := d
  cases pos with
  | main l =>
    show Keeps _ (recvAct l usb _ _ _)
    apply recvAct_keeps
    · exact fun _ _ => hsame
    · exact fun _ _ => hsame
    · exact hsame
  | recv l k =>
    show Keeps _ (recvAct l usb _ _ _)
    apply recvAct_keeps
    · exact fun _ _ => hsame
    · exact fun _ _ => hsame
    · exact hsame
  | gone => trivial
  | running p =>
    cases p with
    | ret a => exact hsame
    | stop e => trivial
    | call c k =>
      cases c with
      | romcall args => exact List.subset_append_left _ _
      | _ => exact hsame

theorem run_keeps {rom : Rom} {room buf n : ℕ} {info : Packet} {s t : System} (h : Run rom room buf info n s t) :
    s.right.touched ⊆ t.right.touched := by
  induction h with
  | refl s => exact List.Subset.refl _
  | @step n s s' t hstep _ ih =>
    refine List.Subset.trans ?_ ih
    rcases hstep with hl | hr
    · obtain ⟨r, _, rfl⟩ := Option.map_eq_some_iff.mp hl
      exact List.Subset.refl _
    · obtain ⟨⟨d, out, inn⟩, hserve, rfl⟩ := Option.map_eq_some_iff.mp hr
      have hkeeps := deviceAct_keeps rom buf info s.right
      rcases serve_cases hserve with hgo | ⟨m, hsend⟩ | ⟨k, p, hreceive, rfl⟩
      · rwa [hgo] at hkeeps
      · rwa [hsend] at hkeeps
      · rw [hreceive] at hkeeps
        exact hkeeps p

/-- However the two take turns and however much room the link has, `lpcboot flash` and the boot loader
come to one end: the image is stored and the host says so, or, where it is too large, nothing was
touched and the host says that. The sector of the boot loader is left alone at all times. -/
theorem flash_ends (rom : Rom) {room buf : ℕ} (info : Packet) {image : List Byte} {d : Device} (hroom : 0 < room)
    (hd : d.Waiting buf) (hsome : image ≠ []) :
    ∃ n t, Run rom room buf info n (start image d) t ∧ Ended rom room buf info t ∧
      (image.length ≤ 28672 → Stored image d.flash t) ∧ (28672 < image.length → Refused d.flash t) ∧
      ∀ m u, Run rom room buf info m (start image d) u →
        m ≤ n ∧ Run rom room buf info (n - m) u t ∧ 0 ∉ u.right.touched := by
  have hend : ∃ t, Goes rom room buf info (start image d) t ∧ Ended rom room buf info t ∧
      (image.length ≤ 28672 → Stored image d.flash t) ∧ (28672 < image.length → Refused d.flash t) := by
    rcases Nat.lt_or_ge 28672 image.length with hlarge | hfits
    · obtain ⟨t, hgoes, hended, hrefused⟩ := refused_run hroom hd hlarge
      exact ⟨t, hgoes, hended, fun h => absurd hlarge (Nat.not_lt.mpr h), fun _ => hrefused⟩
    · obtain ⟨t, hgoes, hended, hstored⟩ := stored_run hroom hd hsome hfits
      exact ⟨t, hgoes, hended, fun _ => hstored, fun h => absurd h (Nat.not_lt.mpr hfits)⟩
  obtain ⟨t, ⟨n, hrun⟩, hended, hstored, hrefused⟩ := hend
  refine ⟨n, t, hrun, hended, hstored, hrefused, ?_⟩
  intro m u hpart
  obtain ⟨hle, hrest⟩ := (independent room hostAct (deviceAct rom buf info)).all_end hrun hended hpart
  refine ⟨hle, hrest, fun hown => ?_⟩
  have hlater := run_keeps hrest hown
  rcases Nat.lt_or_ge 28672 image.length with hlarge | hfits
  · rw [(hrefused hlarge).touched] at hlater
    exact absurd hlater List.not_mem_nil
  · exact (hstored hfits).own hlater

/-- The last of the calls has prepared these sectors. -/
def preparedBy (calls : List (List Boot.Word)) (first last : Boot.Word) : Bool :=
  match calls.getLast? with
  | some [op, a, b] => op == Boot.opPrepare && a == first && b == last
  | _ => false

theorem preparedBy_append (calls : List (List Boot.Word)) (first last : Boot.Word) :
    preparedBy (calls ++ [[Boot.opPrepare, first, last]]) first last = true := by
  rw [preparedBy, List.getLast?_append]
  show (Boot.opPrepare == Boot.opPrepare && first == first && last == last) = true
  rw [beq_self_eq_true, beq_self_eq_true, beq_self_eq_true]
  rfl

/-- A ROM that minds which sectors were prepared last; bits that are ones may become zeros. -/
def plainIap (calls : List (List Boot.Word)) (args : List Boot.Word) (flash mem : ℕ → Byte) (x : ℕ) : Byte :=
  match args with
  | [op, first, last, _] =>
    if op = Boot.opErase ∧ preparedBy calls first last ∧ 4096 * first.toNat ≤ x ∧
        x < 4096 * (last.toNat + 1) then 0xFF
    else flash x
  | [op, dst, src, n, _] =>
    if op = Boot.opWrite ∧ preparedBy calls (dst >>> (12 : ℕ)) ((dst + (n - 1)) >>> (12 : ℕ)) ∧
        dst.toNat ≤ x ∧ x < dst.toNat + n.toNat then
      flash x &&& mem (src.toNat + (x - dst.toNat))
    else flash x
  | _ => flash x

theorem plainIap_erases (calls : List (List Boot.Word)) (first last clock : Boot.Word)
    (flash mem : ℕ → Byte) (x : ℕ) :
    plainIap (calls ++ [[Boot.opPrepare, first, last]]) [Boot.opErase, first, last, clock] flash mem x =
      if 4096 * first.toNat ≤ x ∧ x < 4096 * (last.toNat + 1) then 0xFF else flash x := by
  by_cases hin : 4096 * first.toNat ≤ x ∧ x < 4096 * (last.toNat + 1)
  · rw [if_pos hin]
    exact if_pos ⟨rfl, preparedBy_append calls first last, hin⟩
  · rw [if_neg hin]
    exact if_neg fun h => hin h.2.2

theorem page_ends {page dst : Boot.Word} (hdst : dst.toNat = 4096 * page.toNat) :
    dst >>> (12 : ℕ) = page ∧ (dst + ((0x1000 : Boot.Word) - 1)) >>> (12 : ℕ) = page := by
  have hdlt := dst.isLt
  have hsum : (dst + ((0x1000 : Boot.Word) - 1)).toNat = dst.toNat + 4095 := by
    rw [BitVec.toNat_add]
    show (dst.toNat + 4095) % 2 ^ 32 = _
    omega
  constructor
  · apply BitVec.eq_of_toNat_eq
    rw [BitVec.toNat_ushiftRight, Nat.shiftRight_eq_div_pow, hdst]
    omega
  · apply BitVec.eq_of_toNat_eq
    rw [BitVec.toNat_ushiftRight, Nat.shiftRight_eq_div_pow, hsum, hdst]
    omega

theorem plainIap_programs (calls : List (List Boot.Word)) (page dst src clock : Boot.Word)
    (flash mem : ℕ → Byte) (hdst : dst.toNat = 4096 * page.toNat)
    (hones : ∀ i < 4096, flash (dst.toNat + i) = 0xFF) (x : ℕ) :
    plainIap (calls ++ [[Boot.opPrepare, page, page]]) [Boot.opWrite, dst, src, 0x1000, clock] flash mem x =
      if dst.toNat ≤ x ∧ x < dst.toNat + 4096 then mem (src.toNat + (x - dst.toNat)) else flash x := by
  obtain ⟨hfirst, hlast⟩ := page_ends hdst
  by_cases hin : dst.toNat ≤ x ∧ x < dst.toNat + 4096
  · have hbyte := hones (x - dst.toNat) (by omega)
    have hat : dst.toNat + (x - dst.toNat) = x := by omega
    rw [hat] at hbyte
    have hprepared : preparedBy (calls ++ [[Boot.opPrepare, page, page]]) (dst >>> (12 : ℕ))
        ((dst + ((0x1000 : Boot.Word) - 1)) >>> (12 : ℕ)) = true := by
      rw [hfirst, hlast]
      exact preparedBy_append calls page page
    rw [if_pos hin]
    refine (if_pos ⟨rfl, hprepared, hin⟩).trans ?_
    rw [hbyte, BitVec.and_comm]
    exact BitVec.and_allOnes
  · rw [if_neg hin]
    exact if_neg fun h => hin h.2.2

def plainRom : Rom where
  iap := plainIap
  prepares _ _ _ _ _ := rfl
  erases calls first last clock flash mem _ := plainIap_erases calls first last clock flash mem
  programs calls page dst src clock flash mem _ := plainIap_programs calls page dst src clock flash mem

def freshDevice : Device where
  pos := .main ⟨0x10001C00, 0, 64⟩
  usb := ⟨fun _ => 0, none, [], fun _ => 0⟩
  flash _ := 0xFF
  calls := []
  touched := []
  sent := []

/-- An image of 9000 bytes: two pages and a part of a third, in 141 packets. -/
theorem flash_ends_pages : ∃ n t, Run plainRom 3 0x10001C00 [] n (start (List.replicate 9000 0xA5) freshDevice) t ∧
    Ended plainRom 3 0x10001C00 [] t ∧ Stored (List.replicate 9000 0xA5) (fun _ => 0xFF) t ∧
    ∀ m u, Run plainRom 3 0x10001C00 [] m (start (List.replicate 9000 0xA5) freshDevice) u →
      m ≤ n ∧ Run plainRom 3 0x10001C00 [] (n - m) u t ∧ 0 ∉ u.right.touched := by
  have hsome : List.replicate 9000 (0xA5 : Byte) ≠ [] := List.cons_ne_nil _ _
  have hfits : (List.replicate 9000 (0xA5 : Byte)).length ≤ 28672 := by
    rw [List.length_replicate]
    decide
  have hroom : 0 < 3 := by decide
  have hwaiting : freshDevice.Waiting 0x10001C00 := ⟨rfl, rfl, rfl, rfl, rfl⟩
  obtain ⟨n, t, hrun, hended, hstored, _, hall⟩ := flash_ends plainRom [] hroom hwaiting hsome
  exact ⟨n, t, hrun, hended, hstored hfits, hall⟩

end M3Dev.BootLink
