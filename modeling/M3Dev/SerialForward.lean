import M3Dev.EventSystem
import M3Dev.Machine
import M3Dev.UsbEndpoint

/-! The characters a debugged board sends on its serial line, forwarded to the host through
endpoint 2: the callbacks of `m3debug/main.c` over the first LPC13xx driver. -/
namespace M3Dev.SerialForward
open Buffer EventSystem UsbV2

abbrev enodev : ℤ := 3

/-- The host's side of endpoint 2. -/
structure Host where
  /-- `_usb_online` -/
  online : Bool
  /-- the endpoint's buffer has a packet in it -/
  full : Bool
  /-- the packets `usb_ep2_write` has accepted -/
  accepted : List (List Byte)
  /-- the last of them is in flight: the endpoint has not been called empty since -/
  inFlight : Bool
  deriving DecidableEq

/-- `usb_ep2_write(data, len)` for what is at `data`. -/
def usbEp2Write (h : Host) (data : ℕ → Byte) (len : ℕ) : ℤ × Host :=
  if 64 < len then (-efail, h)
  else if h.online = false then (-enodev, h)
  else if h.full = true then (-ebusy, h)
  else (0, { h with full := true, accepted := h.accepted ++ [get data 0 len], inFlight := true })

structure Bridge where
  outbuf : ℕ → Byte
  outbufpos : ℕ
  ep2TxActive : Bool
  host : Host

def queueEp2Tx (b : Bridge) : Bridge :=
  if b.outbufpos > 0 ∧ b.ep2TxActive = false then
    -- what `usb_ep2_write` returns is not looked at
    { b with ep2TxActive := true, outbufpos := 0, host := (usbEp2Write b.host b.outbuf b.outbufpos).2 }
  else b

def ep2TxEmptyCb (b : Bridge) : Bridge := queueEp2Tx { b with ep2TxActive := false }

def serialAsyncCb (b : Bridge) (c : Byte) : Bridge :=
  if b.outbufpos ≥ 64 then b
  else queueEp2Tx
    { b with outbuf := Function.update b.outbuf b.outbufpos c, outbufpos := b.outbufpos + 1 }

/-! ### Runs -/

inductive Event where
  /-- a character is received -/
  | char (c : Byte)
  /-- the endpoint is called empty -/
  | txEmpty
  /-- the host takes the packet out of the endpoint -/
  | taken
  | online (on : Bool)

/-- The bridge, and the characters that came while there was room for them. -/
structure Station where
  bridge : Bridge
  kept : List Byte

def forward (s : Station) : Event → Station
  | .char c =>
    { bridge := serialAsyncCb s.bridge c, kept := if s.bridge.outbufpos ≥ 64 then s.kept else s.kept ++ [c] }
  | .txEmpty =>
    { s with bridge := ep2TxEmptyCb { s.bridge with host := { s.bridge.host with inFlight := false } } }
  | .taken => { s with bridge := { s.bridge with host := { s.bridge.host with full := false } } }
  | .online on => { s with bridge := { s.bridge with host := { s.bridge.host with online := on } } }

def forwardStep : Step Station Event := fun s e => some (forward s e)

/-- The agent after its start, with the host there or not. -/
def boot (on full : Bool) : Station where
  bridge :=
    { outbuf := fun _ => 0, outbufpos := 0, ep2TxActive := false
      host := { online := on, full := full, accepted := [], inFlight := false } }
  kept := []

/-- The flag stands for a packet in flight, and the characters kept are those accepted and, behind
them, those in the buffer. -/
structure Forwards (s : Station) : Prop where
  room : s.bridge.outbufpos ≤ 64
  flagged : s.bridge.ep2TxActive = true → s.bridge.host.inFlight = true
  ordered : s.bridge.host.accepted.flatten ++ get s.bridge.outbuf 0 s.bridge.outbufpos = s.kept

/-- A write is accepted. -/
def Host.Ready (h : Host) : Prop := h.online = true ∧ h.full = false

/-- Where the event has something written, the host is online and the endpoint empty. -/
def WriteGoes (s : Station) : Event → Prop
  | .char _ => s.bridge.outbufpos < 64 → s.bridge.ep2TxActive = false → s.bridge.host.Ready
  | .txEmpty => 0 < s.bridge.outbufpos → s.bridge.host.Ready
  | .taken | .online _ => True

/-! ### One event -/

variable {b : Bridge} {kept : List Byte}

theorem usbEp2Write_ready (h : Host) (data : ℕ → Byte) {len : ℕ} (hlen : len ≤ 64) (hready : h.Ready) :
    usbEp2Write h data len =
      (0, { h with full := true, accepted := h.accepted ++ [get data 0 len], inFlight := true }) := by
  rw [usbEp2Write, if_neg (Nat.not_lt.mpr hlen), if_neg (by simp [hready.1]), if_neg (by simp [hready.2])]

theorem usbEp2Write_refused (h : Host) (data : ℕ → Byte) (len : ℕ) (hready : ¬ h.Ready) :
    (usbEp2Write h data len).2 = h := by
  unfold usbEp2Write
  split
  · rfl
  split
  · rfl
  split
  · rfl
  · next hon hfull => exact absurd ⟨by simpa using hon, by simpa using hfull⟩ hready

theorem queueEp2Tx_waits (hwaits : ¬ (b.outbufpos > 0 ∧ b.ep2TxActive = false))
    (h : Forwards ⟨b, kept⟩) : Forwards ⟨queueEp2Tx b, kept⟩ := by
  rwa [queueEp2Tx, if_neg hwaits]

/-- What is buffered is written: it is accepted, or it is lost. -/
theorem queueEp2Tx_writes (hroom : b.outbufpos ≤ 64) (hpos : 0 < b.outbufpos)
    (hidle : b.ep2TxActive = false)
    (hordered : b.host.accepted.flatten ++ get b.outbuf 0 b.outbufpos = kept) :
    Forwards ⟨queueEp2Tx b, kept⟩ ↔ b.host.Ready := by
  rw [queueEp2Tx, if_pos ⟨hpos, hidle⟩]
  constructor
  · intro h
    by_contra hready
    have hlost := congrArg List.length h.ordered
    rw [← hordered] at hlost
    simp only [usbEp2Write_refused _ _ _ hready, List.length_append, get_length] at hlost
    omega
  · intro hready
    rw [usbEp2Write_ready _ _ hroom hready]
    refine ⟨Nat.zero_le _, fun _ => rfl, ?_⟩
    rw [← hordered]
    simp [Buffer.get]

theorem forward_char {s : Station} (h : Forwards s) (c : Byte) :
    Forwards (forward s (.char c)) ↔ WriteGoes s (.char c) := by
  by_cases hfull : s.bridge.outbufpos ≥ 64
  · have hsame : forward s (.char c) = s := by
      rw [forward, serialAsyncCb, if_pos hfull, if_pos hfull]
    rw [hsame]
    exact iff_of_true h fun hlt => absurd hlt (Nat.not_lt.mpr hfull)
  have hlt : s.bridge.outbufpos < 64 := Nat.lt_of_not_ge hfull
  have hgrown : s.bridge.host.accepted.flatten ++
      get (Function.update s.bridge.outbuf s.bridge.outbufpos c) 0 (s.bridge.outbufpos + 1) =
        s.kept ++ [c] := by
    have hend := get_update_end s.bridge.outbuf 0 s.bridge.outbufpos c
    rw [Nat.zero_add] at hend
    rw [hend, ← List.append_assoc, h.ordered]
  rw [forward, serialAsyncCb, if_neg hfull, if_neg hfull]
  by_cases hactive : s.bridge.ep2TxActive = true
  · -- a packet is on its way: the character waits for it
    refine iff_of_true (queueEp2Tx_waits ?_ ⟨hlt, fun _ => h.flagged hactive, hgrown⟩) fun _ hidle => ?_
    · exact fun hwrites => Bool.false_ne_true (hwrites.2.symm.trans hactive)
    · exact absurd (hidle.symm.trans hactive) Bool.false_ne_true
  · have hidle : s.bridge.ep2TxActive = false := Bool.eq_false_iff.mpr hactive
    refine Iff.trans (queueEp2Tx_writes hlt (Nat.succ_pos _) hidle hgrown) ?_
    exact ⟨fun hready _ _ => hready, fun hgoes => hgoes hlt hidle⟩

theorem forward_txEmpty {s : Station} (h : Forwards s) :
    Forwards (forward s .txEmpty) ↔ WriteGoes s .txEmpty := by
  rw [forward, ep2TxEmptyCb]
  by_cases hpos : 0 < s.bridge.outbufpos
  · refine Iff.trans (queueEp2Tx_writes h.room hpos rfl h.ordered) ?_
    exact ⟨fun hready _ => hready, fun hgoes => hgoes hpos⟩
  · refine iff_of_true (queueEp2Tx_waits (fun hwrites => hpos hwrites.1) ?_) fun hpos' => absurd hpos' hpos
    exact ⟨h.room, fun hactive => absurd hactive Bool.false_ne_true, h.ordered⟩

theorem forward_iff {s : Station} (h : Forwards s) (e : Event) :
    Forwards (forward s e) ↔ WriteGoes s e := by
  cases e with
  | char c => exact forward_char h c
  | txEmpty => exact forward_txEmpty h
  | taken => exact iff_of_true ⟨h.room, h.flagged, h.ordered⟩ trivial
  | online on => exact iff_of_true ⟨h.room, h.flagged, h.ordered⟩ trivial

theorem boot_forwards (on full : Bool) : Forwards (boot on full) :=
  ⟨Nat.zero_le 64, fun hactive => absurd hactive Bool.false_ne_true, rfl⟩

/-- Everything received is forwarded, in order and but for what finds the buffer full, exactly as long
as nothing is written while the host is offline or the endpoint full. -/
theorem serial_forwarded_iff {on full : Bool} {es : List Event} {s : Station}
    (h : Run forwardStep (fun _ _ => True) (boot on full) es s) :
    (∀ before u, before <+: es → Run forwardStep (fun _ _ => True) (boot on full) before u → Forwards u) ↔
      Run forwardStep WriteGoes (boot on full) es s := by
  refine h.everywhere_iff Forwards (fun s e s' hs hstep => ?_) (boot_forwards on full)
  obtain rfl := Option.some.inj hstep
  exact forward_iff hs e

theorem serial_forwarded_iff_two : ∃ s,
    Run forwardStep (fun _ _ => True) (boot true false) [.char 0x68, .char 0x69, .taken, .txEmpty] s ∧
    ((∀ before u, before <+: [.char 0x68, .char 0x69, .taken, .txEmpty] →
        Run forwardStep (fun _ _ => True) (boot true false) before u → Forwards u) ↔
      Run forwardStep WriteGoes (boot true false) [.char 0x68, .char 0x69, .taken, .txEmpty] s) := by
  have hrun : Run forwardStep (fun _ _ => True) (boot true false)
      [.char 0x68, .char 0x69, .taken, .txEmpty] _ :=
    .cons trivial rfl (.cons trivial rfl (.cons trivial rfl (.cons trivial rfl (.nil _))))
  exact ⟨_, hrun, serial_forwarded_iff hrun⟩

/-- One character before the host is online: the flag is set for good, and with it on the line
nothing is ever sent. -/
theorem early_char_blocks : ∃ s,
    Run forwardStep (fun _ _ => True) (boot false false) [.char 0x68, .online true, .char 0x69] s ∧
    s.bridge.ep2TxActive = true ∧ s.bridge.host.inFlight = false ∧ s.bridge.host.accepted = [] ∧
    s.kept = [0x68, 0x69] ∧ ¬ Forwards s := by
  refine ⟨_, .cons trivial rfl (.cons trivial rfl (.cons trivial rfl (.nil _))), rfl, rfl, rfl, rfl,
    fun h => ?_⟩
  exact absurd (h.flagged rfl) (by decide)

end M3Dev.SerialForward
