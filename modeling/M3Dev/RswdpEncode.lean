import M3Dev.RswdpRequest
import Mathlib.Algebra.BigOperators.Group.List.Basic
import Mathlib.Data.List.Forall2

/-! Well-formed request messages as words, and that the firmware's reading of a
buffer finds back the messages written into it. -/
namespace M3Dev.Rswdp

/-- The words of a well-formed message. Header fields the command gives no meaning
to may hold anything. -/
def Msg.EncodedAs : Msg → List Word → Prop
  | .null, ws => ∃ op n, ws = [rswdMsg cmdNull op n]
  | .swdWrite op data, ws => op.toNat < 16 ∧ data.length < 65536 ∧
      ws = rswdMsg cmdSwdWrite op (BitVec.ofNat 32 data.length) :: data
  | .swdRead op n, ws => op.toNat < 16 ∧ n < 65536 ∧
      ws = [rswdMsg cmdSwdRead op (BitVec.ofNat 32 n)]
  | .swdDiscard op n, ws => op.toNat < 16 ∧ n < 65536 ∧
      ws = [rswdMsg cmdSwdDiscard op (BitVec.ofNat 32 n)]
  | .attach, ws => ∃ op n, ws = [rswdMsg cmdAttach op n]
  | .reset n, ws => n < 65536 ∧ ∃ op, ws = [rswdMsg cmdReset op (BitVec.ofNat 32 n)]
  | .download addr data, ws => data.length < 65536 ∧
      ∃ op, ws = rswdMsg cmdDownload op (BitVec.ofNat 32 data.length) :: addr :: data
  | .execute addr, ws => ∃ op n, ws = [rswdMsg cmdExecute op n, addr]
  | .trace op, ws => op.toNat < 256 ∧ ∃ n, ws = [rswdMsg cmdTrace op n]
  | _, _ => False

theorem op_and_ff (op : Word) (h : op.toNat < 256) : op &&& 0xFF = op := by
  apply BitVec.eq_of_toNat_eq
  rw [toNat_and_ff, Nat.mod_eq_of_lt h]

theorem payload_eq_cons {rx : ℕ → Word} {rxp n : ℕ} {w : Word} {ws : List Word}
    (h : payload rx rxp (n + 1) = w :: ws) : rx rxp = w ∧ payload rx (rxp + 1) n = ws := by
  rw [payload_succ] at h
  exact List.cons.inj h

theorem payload_append (rx : ℕ → Word) (rxp n k : ℕ) :
    payload rx rxp (n + k) = payload rx rxp n ++ payload rx (rxp + n) k := by
  induction n generalizing rxp with
  | zero => simp [payload]
  | succ n ih =>
    have hrest : payload rx (rxp + 1) (n + k) =
        payload rx (rxp + 1) n ++ payload rx (rxp + (n + 1)) k := by
      rw [ih, Nat.add_assoc rxp 1 n, Nat.add_comm 1 n]
    rw [Nat.add_right_comm, payload_succ, payload_succ, hrest, List.cons_append]

theorem encoded_length {m : Msg} {ws : List Word} (h : m.EncodedAs ws) : ws.length = m.size := by
  cases m with
  | null => obtain ⟨op, n, rfl⟩ := h; rfl
  | swdWrite op data =>
    obtain ⟨_, _, rfl⟩ := h
    simp only [Msg.size, List.length_cons]
    omega
  | swdRead op n => obtain ⟨_, _, rfl⟩ := h; rfl
  | swdDiscard op n => obtain ⟨_, _, rfl⟩ := h; rfl
  | attach => obtain ⟨op, n, rfl⟩ := h; rfl
  | reset n => obtain ⟨_, op, rfl⟩ := h; rfl
  | download addr data =>
    obtain ⟨_, op, rfl⟩ := h
    simp only [Msg.size, List.length_cons]
    omega
  | execute addr => obtain ⟨op, n, rfl⟩ := h; rfl
  | trace op => obtain ⟨_, n, rfl⟩ := h; rfl
  | bootloader => exact h.elim
  | setClock khz => exact h.elim
  | other cmd => exact h.elim

/-- The firmware reads a well-formed message as what it is. -/
theorem msgAt_encoded {m : Msg} {ws : List Word} (h : m.EncodedAs ws) (rx : ℕ → Word) (rxp : ℕ)
    (hp : payload rx rxp ws.length = ws) : msgAt rx rxp = m := by
  -- the header gives the kind; a message with a payload is read back by its count
  cases m with
  | null =>
    obtain ⟨op, n, rfl⟩ := h
    have hh := (payload_eq_cons hp).1
    simp [msgAt, hh]
  | swdWrite op data =>
    obtain ⟨hop, hn, rfl⟩ := h
    obtain ⟨hh, hd⟩ := payload_eq_cons hp
    have hcount := rswdMsgArg_count cmdSwdWrite op data.length hn
    simp only [msgAt, hh, hcount, hd]
    simp only [rswdMsgCmd_rswdMsg, rswdMsgOp_rswdMsg, op_and_ff op (by omega)]
    simp
  | swdRead op n =>
    obtain ⟨hop, hn, rfl⟩ := h
    have hh := (payload_eq_cons hp).1
    have hcount := rswdMsgArg_count cmdSwdRead op n hn
    simp only [msgAt, hh, hcount]
    simp only [rswdMsgCmd_rswdMsg, rswdMsgOp_rswdMsg, op_and_ff op (by omega)]
    simp
  | swdDiscard op n =>
    obtain ⟨hop, hn, rfl⟩ := h
    have hh := (payload_eq_cons hp).1
    have hcount := rswdMsgArg_count cmdSwdDiscard op n hn
    simp only [msgAt, hh, hcount]
    simp only [rswdMsgCmd_rswdMsg, rswdMsgOp_rswdMsg, op_and_ff op (by omega)]
    simp
  | attach =>
    obtain ⟨op, n, rfl⟩ := h
    have hh := (payload_eq_cons hp).1
    simp [msgAt, hh]
  | reset n =>
    obtain ⟨hn, op, rfl⟩ := h
    have hh := (payload_eq_cons hp).1
    have hcount := rswdMsgArg_count cmdReset op n hn
    simp only [msgAt, hh, hcount]
    simp
  | download addr data =>
    obtain ⟨hn, op, rfl⟩ := h
    obtain ⟨hh, hrest⟩ := payload_eq_cons hp
    obtain ⟨ha, hd⟩ := payload_eq_cons hrest
    have hcount := rswdMsgArg_count cmdDownload op data.length hn
    simp only [msgAt, hh, hcount, ha, hd]
    simp
  | execute addr =>
    obtain ⟨op, n, rfl⟩ := h
    obtain ⟨hh, hrest⟩ := payload_eq_cons hp
    have ha := (payload_eq_cons hrest).1
    simp [msgAt, hh, ha]
  | trace op =>
    obtain ⟨hop, n, rfl⟩ := h
    have hh := (payload_eq_cons hp).1
    simp only [msgAt, hh, rswdMsgCmd_rswdMsg, rswdMsgOp_rswdMsg, op_and_ff op hop]
    simp
  | bootloader => exact h.elim
  | setClock khz => exact h.elim
  | other cmd => exact h.elim

theorem encoded_flatten_length {ms : List Msg} {wss : List (List Word)}
    (h : List.Forall₂ Msg.EncodedAs ms wss) : wss.flatten.length = (ms.map Msg.size).sum := by
  induction h with
  | nil => rfl
  | cons hm _ ih =>
    rw [List.flatten_cons, List.length_append, encoded_length hm, ih, List.map_cons, List.sum_cons]

theorem encoded_split {ms₁ ms₂ : List Msg} {wss : List (List Word)}
    (h : List.Forall₂ Msg.EncodedAs (ms₁ ++ ms₂) wss) :
    ∃ ws₁ ws₂, List.Forall₂ Msg.EncodedAs ms₁ ws₁ ∧ List.Forall₂ Msg.EncodedAs ms₂ ws₂ ∧
      wss = ws₁ ++ ws₂ :=
  ⟨wss.take ms₁.length, wss.drop ms₁.length,
    (List.forall₂_take_append _ _ _ h.flip).flip, (List.forall₂_drop_append _ _ _ h.flip).flip,
    (List.take_append_drop _ _).symm⟩

/-- A buffer that starts with encoded messages. -/
theorem requests_append {ms : List Msg} {wss : List (List Word)}
    (h : List.Forall₂ Msg.EncodedAs ms wss) (rx : ℕ → Word) (rxp k more : ℕ)
    (hp : payload rx rxp wss.flatten.length = wss.flatten) (hk : wss.flatten.length ≤ k) :
    requests rx k rxp (wss.flatten.length + more : ℕ) =
      ms ++ requests rx (k - ms.length) (rxp + wss.flatten.length) more := by
  induction h generalizing rxp k with
  | nil => rw [List.flatten_nil, List.length_nil, Nat.zero_add]; rfl
  | @cons m ws ms wss hm _ ih =>
    have hsize := encoded_length hm
    have hpos := msg_size_pos m
    simp only [List.flatten_cons, List.length_append] at hp hk ⊢
    rw [payload_append] at hp
    obtain ⟨hhead, htail⟩ := List.append_inj hp (payload_length _ _ _)
    have hmsg := msgAt_encoded hm rx rxp hhead
    obtain ⟨k, rfl⟩ : ∃ n, k = n + 1 := ⟨k - 1, by omega⟩
    rw [requests_step rx k _ _ (by omega), hmsg, ← hsize]
    have hleft : (((ws.length + wss.flatten.length + more : ℕ) : ℤ) - (ws.length : ℤ)) =
        ((wss.flatten.length + more : ℕ) : ℤ) := by
      push_cast
      omega
    rw [hleft, ih (rxp + ws.length) k htail (by omega), List.length_cons,
      Nat.add_sub_add_right, Nat.add_assoc, List.cons_append]

/-- The messages of a buffer that holds encoded messages are those messages. -/
theorem requests_encoded {ms : List Msg} {wss : List (List Word)}
    (h : List.Forall₂ Msg.EncodedAs ms wss) (rx : ℕ → Word) (rxp k : ℕ)
    (hp : payload rx rxp wss.flatten.length = wss.flatten) (hk : wss.flatten.length ≤ k) :
    requests rx k rxp wss.flatten.length = ms := by
  have hall := requests_append h rx rxp k 0 hp hk
  rw [Nat.add_zero, requests_ended _ _ _ ((0 : ℕ) : ℤ) le_rfl, List.append_nil] at hall
  exact hall

/-- A register write whose value does not fit the buffer: the value is taken from the word
behind the buffer. -/
theorem requests_cut {ms : List Msg} {wss : List (List Word)}
    (h : List.Forall₂ Msg.EncodedAs ms wss) {op hdr w : Word}
    (hcut : Msg.EncodedAs (.swdWrite op [w]) [hdr, w]) (rx : ℕ → Word) (rxp : ℕ)
    (hp : payload rx rxp (wss.flatten.length + 1) = wss.flatten ++ [hdr]) :
    requests rx (wss.flatten.length + 1) rxp (wss.flatten.length + 1 : ℕ) =
      ms ++ [.swdWrite op [rx (rxp + wss.flatten.length + 1)]] := by
  have hlen : ms.length ≤ wss.flatten.length := by
    rw [encoded_flatten_length h, ← List.length_map (f := Msg.size)]
    apply List.length_le_sum_of_one_le
    intro i hi
    obtain ⟨m, _, rfl⟩ := List.mem_map.mp hi
    exact msg_size_pos m
  rw [payload_append] at hp
  obtain ⟨hhead, hlast⟩ := List.append_inj hp (payload_length _ _ _)
  have hmsg : msgAt rx (rxp + wss.flatten.length) =
      .swdWrite op [rx (rxp + wss.flatten.length + 1)] := by
    obtain ⟨hop, hone, hwords⟩ := hcut
    have hread : Msg.EncodedAs (.swdWrite op [rx (rxp + wss.flatten.length + 1)])
        [hdr, rx (rxp + wss.flatten.length + 1)] := by
      refine ⟨hop, hone, ?_⟩
      rw [(List.cons.inj hwords).1]
      rfl
    apply msgAt_encoded hread
    show payload rx (rxp + wss.flatten.length) (1 + 1) = _
    rw [payload_append, hlast]
    rfl
  obtain ⟨k, hk⟩ : ∃ k, wss.flatten.length + 1 - ms.length = k + 1 :=
    ⟨wss.flatten.length - ms.length, by omega⟩
  rw [requests_append h rx rxp _ 1 hhead (Nat.le_succ _), hk,
    requests_step rx k _ _ (by decide), hmsg]
  have hdone : ((1 : ℕ) : ℤ) - (Msg.swdWrite op [rx (rxp + wss.flatten.length + 1)]).size ≤ 0 := by
    simp [Msg.size]
  rw [requests_ended rx k _ _ hdone]

end M3Dev.Rswdp
