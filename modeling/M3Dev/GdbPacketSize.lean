import M3Dev.GdbChecksum

/-! The packet size the bridge advertises, and the packets it takes. -/
namespace M3Dev.Gdb
variable {θ : Type}

/-- The characters of a literal of the source. -/
def ascii (s : String) : List Byte := s.toList.map (fun c => BitVec.ofNat 8 c.toNat)

/-- The reply to qSupported; the size it names includes "$" and "#xx". -/
def supported : List Byte :=
  ascii "qXfer:features:read+;QStartNoAckMode+;PacketSize=2004"

/-- The number behind the reply's only '='. -/
def packetSize : ℕ := hexPrefix 0 ((supported.dropWhile (fun c => c ≠ 0x3d)).drop 1)

theorem packetSize_eq : packetSize = 0x2004 := by decide

/-- '$' payload '#' and two check bytes. -/
def checked (p : List Byte) (c0 c1 : Byte) : List Byte := 0x24 :: p ++ [0x23, c0, c1]

/-- Payload bytes that fit are collected. -/
theorem arrivals_payload (p bs rest : List Byte) (hhash : 0x23 ∉ bs)
    (hroom : p.length + bs.length ≤ maxpkt - 1) :
    (Frame.payload p).arrivals (bs ++ rest) = (Frame.payload (p ++ bs)).arrivals rest := by
  induction bs generalizing p with
  | nil => rw [List.append_nil, List.nil_append]
  | cons b bs ih =>
    rw [List.length_cons] at hroom
    have hb : b ≠ 0x23 := fun hb => hhash (by rw [hb]; exact List.mem_cons_self)
    have hlen : p.length ≠ maxpkt - 1 := by omega
    have hstep : (Frame.payload p).step b = (.payload (p ++ [b]), []) := by
      simp only [Frame.step]
      rw [if_neg hb, if_neg hlen]
    have hrest := ih (p ++ [b]) (fun hmem => hhash (List.mem_cons_of_mem b hmem))
      (by rw [List.length_append, List.length_singleton]; omega)
    rw [List.cons_append, Frame.arrivals, hstep, List.nil_append, hrest, List.append_assoc]
    rfl

theorem arrivals_checked {p : List Byte} (c0 c1 : Byte) (hhash : 0x23 ∉ p)
    (hlen : p.length ≤ maxpkt - 1) :
    Frame.idle.arrivals (checked p c0 c1) = [.packet p c0 c1] := by
  have hpayload := arrivals_payload [] p [0x23, c0, c1] hhash
    (by rw [List.length_nil, Nat.zero_add]; exact hlen)
  have hstart : Frame.idle.arrivals (checked p c0 c1) =
      (Frame.payload []).arrivals (p ++ [0x23, c0, c1]) := rfl
  rw [hstart, hpayload]
  rfl

theorem hexDigit_quiet (c : Byte) (h : (hexValue c).isSome) : c ≠ 0x24 ∧ c ≠ 3 := by
  revert c
  decide

theorem arrivals_quiet {c : Byte} (h : c ≠ 0x24 ∧ c ≠ 3) (cs : List Byte) :
    Frame.idle.arrivals (c :: cs) = Frame.idle.arrivals cs := by
  have hstep : Frame.idle.step c = (.idle, []) := by
    simp only [Frame.step]
    rw [if_neg h.2, if_neg h.1]
  rw [Frame.arrivals, hstep, List.nil_append]

/-- One byte too much: all of the packet is forgotten. -/
theorem arrivals_overfull {p : List Byte} {c0 c1 : Byte} (hhash : 0x23 ∉ p)
    (hlen : p.length = maxpkt) (h0 : (hexValue c0).isSome) (h1 : (hexValue c1).isSome) :
    Frame.idle.arrivals (checked p c0 c1) = [] := by
  have hne : p ≠ [] := by
    intro hnil
    rw [hnil] at hlen
    exact absurd hlen (by decide)
  -- the bytes that fit, and the last one
  have hsplit := List.dropLast_append_getLast hne
  have hinit : p.dropLast.length = maxpkt - 1 := by rw [List.length_dropLast, hlen]
  have hlast : p.getLast hne ≠ 0x23 := fun h => hhash (h ▸ List.getLast_mem hne)
  have hpayload := arrivals_payload [] p.dropLast (p.getLast hne :: [0x23, c0, c1])
    (fun h => hhash (List.dropLast_subset p h))
    (by rw [List.length_nil, Nat.zero_add]; exact Nat.le_of_eq hinit)
  have hstart : Frame.idle.arrivals (checked p c0 c1) =
      (Frame.payload []).arrivals (p.dropLast ++ (p.getLast hne :: [0x23, c0, c1])) := by
    conv_lhs => rw [← hsplit]
    rw [checked, List.cons_append, List.append_assoc]
    rfl
  have hdiscard : (Frame.payload p.dropLast).step (p.getLast hne) = (.idle, []) := by
    simp only [Frame.step]
    rw [if_neg hlast, if_pos hinit]
  rw [hstart, hpayload, List.nil_append, Frame.arrivals, hdiscard, List.nil_append,
    arrivals_quiet (by decide), arrivals_quiet (hexDigit_quiet c0 h0),
    arrivals_quiet (hexDigit_quiet c1 h1)]
  rfl

/-- A well-checked packet of the advertised size is dispatched with its whole payload,
unless that takes the last byte of the buffer. -/
theorem advertised_dispatched_iff (handle : Handler θ) (gc : GdbCnxn θ) (p : List Byte)
    (c0 c1 : Byte) (hready : gc.Ready) (hhash : 0x23 ∉ p)
    (hcheck : (Arrival.packet p c0 c1).wellChecked = true)
    (hsize : (checked p c0 c1).length ≤ packetSize) :
    (∃ gc' rxbuf, gc.gdbRecv handle (checked p c0 c1) = .ok (gc', [rxbuf]) ∧ Holds rxbuf p) ↔
      p.length ≤ 8191 := by
  obtain ⟨gc', log, hrun, hlog⟩ :=
    GdbCnxn.gdbRecv_tracks handle (checked p c0 c1) (f := .idle) hready.1 hready.2
  have hacc := accepted_of_wellChecked hcheck
  constructor
  · rintro ⟨gc1, rxbuf, hdispatch, _⟩
    by_contra hlong
    have hlen : p.length = maxpkt := by
      rw [packetSize_eq, checked] at hsize
      simp only [List.length_cons, List.length_append, List.length_nil] at hsize
      rw [maxpkt]
      omega
    obtain ⟨h0, h1⟩ : (hexValue c0).isSome ∧ (hexValue c1).isSome := by
      simp only [Arrival.wellChecked] at hcheck
      split at hcheck
      · rename_i h0 h1
        rw [h0, h1]
        exact ⟨rfl, rfl⟩
      · exact absurd hcheck (by decide)
    rw [arrivals_overfull hhash hlen h0 h1, List.filter_nil] at hlog
    have hnone := hlog.length_eq
    obtain ⟨_, rfl⟩ := Prod.mk.inj (Except.ok.inj (hdispatch.symm.trans hrun))
    exact absurd hnone (by simp)
  · intro hlen
    rw [arrivals_checked c0 c1 hhash hlen, List.filter_cons_of_pos hacc, List.filter_nil] at hlog
    cases hlog with
    | cons hshown hnil =>
      cases hnil
      exact ⟨gc', _, hrun, hshown⟩

/-- `$` 8191 times 'a' `#9f`: one byte less, and it is dispatched. -/
theorem advertised_dispatched_iff_longest : ∃ gc' rxbuf,
    freshCnxn.gdbRecv (fun rxbuf gc => (rxbuf, gc)) (checked (List.replicate 8191 0x61) 0x39 0x66) =
      .ok (gc', [rxbuf]) ∧ Holds rxbuf (List.replicate 8191 0x61) := by
  have hhash : (0x23 : Byte) ∉ List.replicate 8191 0x61 := by
    intro h
    exact absurd (List.eq_of_mem_replicate h) (by decide)
  have hsum : payloadSum (List.replicate 8191 0x61) = 0x9f := by
    rw [payloadSum, List.map_replicate, List.sum_replicate]
    rfl
  have hcheck : (Arrival.packet (List.replicate 8191 0x61) 0x39 0x66).wellChecked = true := by
    show (16 * 9 + 15 == payloadSum (List.replicate 8191 0x61)) = true
    rw [hsum]
    rfl
  have hsize : (checked (List.replicate 8191 0x61) 0x39 0x66).length ≤ packetSize := by
    rw [checked, packetSize_eq]
    simp only [List.length_cons, List.length_append, List.length_replicate, List.length_nil]
    decide
  have hlen : (List.replicate 8191 (0x61 : Byte)).length ≤ 8191 := by rw [List.length_replicate]
  exact (advertised_dispatched_iff _ freshCnxn _ _ _ ⟨rfl, rfl⟩ hhash hcheck hsize).mpr hlen

/-- `$` 8192 times 'a' `#00`: 0x2004 bytes, and nothing is dispatched. -/
theorem full_packet_discarded :
    (checked (List.replicate 8192 0x61) 0x30 0x30).length = packetSize ∧
      (Arrival.packet (List.replicate 8192 0x61) 0x30 0x30).wellChecked = true ∧
      ∃ gc', freshCnxn.gdbRecv (fun rxbuf gc => (rxbuf, gc))
        (checked (List.replicate 8192 0x61) 0x30 0x30) = .ok (gc', []) := by
  have hsum : payloadSum (List.replicate 8192 0x61) = 0 := by
    rw [payloadSum, List.map_replicate, List.sum_replicate]
    rfl
  refine ⟨?_, ?_, ?_⟩
  · rw [checked, packetSize_eq]
    simp only [List.length_cons, List.length_append, List.length_replicate, List.length_nil]
  · show (16 * 0 + 0 == payloadSum (List.replicate 8192 0x61)) = true
    rw [hsum]
    rfl
  · obtain ⟨gc', log, hrun, hlog⟩ := @GdbCnxn.gdbRecv_tracks _
      (fun rxbuf gc => (rxbuf, gc)) freshCnxn .idle
      (checked (List.replicate 8192 0x61) 0x30 0x30) rfl rfl
    have hnone := @arrivals_overfull (List.replicate 8192 0x61) 0x30 0x30
      (by intro h; exact absurd (List.eq_of_mem_replicate h) (by decide))
      (by rw [List.length_replicate]; rfl) rfl rfl
    rw [hnone, List.filter_nil] at hlog
    cases hlog
    exact ⟨gc', hrun⟩

end M3Dev.Gdb
