import Mathlib.Data.Nat.Notation
import Mathlib.Data.List.Basic

/-! Messages cut into packets of at most `n` items, and a reader that takes packets
until a short one. -/
namespace M3Dev.BulkTransfer
variable {α : Type*}

/-- Full packets, then what is left over. Nothing is sent behind a full last packet. -/
def packets (n : ℕ) (data : List α) : List (List α) :=
  if 0 < n ∧ data ≠ [] then data.take n :: packets n (data.drop n) else []
termination_by data.length
decreasing_by
  rename_i h
  rw [List.length_drop]
  have := List.length_pos_of_ne_nil h.2
  omega

/-- Take packets until one is short or `room` is used up: what was read and the
packets left, or nothing while the transfer is still open. -/
def readMessage (n : ℕ) : ℕ → List (List α) → Option (List α × List (List α))
  | _, [] => none
  | room, p :: ps =>
    if p.length < n ∨ room ≤ n then some (p, ps)
    else (readMessage n (room - n) ps).map (fun r => (p ++ r.1, r.2))

/-- The last packet is a short one. -/
def EndsShort (n : ℕ) (ps : List (List α)) : Prop := ∃ p, ps.getLast? = some p ∧ p.length < n

theorem packets_nil (n : ℕ) : packets n ([] : List α) = [] := by
  rw [packets]
  simp

theorem packets_step {n : ℕ} (hn : 0 < n) {data : List α} (h : data ≠ []) :
    packets n data = data.take n :: packets n (data.drop n) := by
  rw [packets, if_pos ⟨hn, h⟩]

theorem packets_short {n : ℕ} (hn : 0 < n) {data : List α} (h : data ≠ [])
    (hlt : data.length < n) : packets n data = [data] := by
  rw [packets_step hn h, List.take_of_length_le (by omega), List.drop_eq_nil_of_le (by omega),
    packets_nil]

/-- Induction on a message a packet at a time. -/
theorem packet_induction {n : ℕ} (hn : 0 < n) {P : List α → Prop}
    (short : ∀ data, data.length < n → P data)
    (full : ∀ p data, p.length = n → P data → P (p ++ data)) (data : List α) : P data := by
  induction hk : data.length using Nat.strongRecOn generalizing data with
  | ind k ih =>
    by_cases hlt : data.length < n
    · exact short data hlt
    · have hdrop : (data.drop n).length = data.length - n := List.length_drop
      have h := full (data.take n) (data.drop n) (by rw [List.length_take]; omega)
        (ih _ (by omega) _ rfl)
      rwa [List.take_append_drop] at h

theorem packets_full {n : ℕ} (hn : 0 < n) {p data : List α} (hp : p.length = n) :
    packets n (p ++ data) = p :: packets n data := by
  have hne : p ++ data ≠ [] := by
    intro h
    have := congrArg List.length h
    rw [List.length_append, List.length_nil] at this
    omega
  rw [packets_step hn hne, ← hp, List.take_left, List.drop_left]

theorem endsShort_iff {n : ℕ} (hn : 0 < n) (data : List α) :
    EndsShort n (packets n data) ↔ data.length % n ≠ 0 := by
  induction data using packet_induction hn with
  | short data hlt =>
    by_cases h : data = []
    · simp [h, packets_nil, EndsShort]
    · have hpos := List.length_pos_of_ne_nil h
      rw [packets_short hn h hlt, Nat.mod_eq_of_lt hlt]
      exact ⟨fun _ => by omega, fun _ => ⟨data, rfl, hlt⟩⟩
  | full p data hp ih =>
    rw [packets_full hn hp, List.length_append, hp, Nat.add_mod_left]
    cases hd : packets n data with
    | nil =>
      rw [hd] at ih
      rw [← ih]
      simp [EndsShort, hp]
    | cons q qs =>
      rw [hd] at ih
      rw [← ih]
      simp [EndsShort, List.getLast?_cons_cons]

/-- A message no longer than the room and no multiple of the packet size is read
whole and alone, whatever follows it. -/
theorem readMessage_packets {n : ℕ} (hn : 0 < n) (data : List α) (room : ℕ)
    (hroom : data.length ≤ room) (h : data.length % n ≠ 0) (rest : List (List α)) :
    readMessage n room (packets n data ++ rest) = some (data, rest) := by
  induction data using packet_induction hn generalizing room with
  | short data hlt =>
    have hne : data ≠ [] := by
      rintro rfl
      simp at h
    rw [packets_short hn hne hlt, List.singleton_append, readMessage, if_pos (Or.inl hlt)]
  | full p data hp ih =>
    rw [List.length_append, hp, Nat.add_mod_left] at h
    rw [List.length_append, hp] at hroom
    have hpos : 0 < data.length := Nat.pos_of_ne_zero (by rintro h0; simp [h0] at h)
    rw [packets_full hn hp, List.cons_append, readMessage, if_neg (by omega),
      ih (room - n) (by omega) h]
    rfl

/-- A message of full packets leaves the transfer open while there is room. -/
theorem readMessage_full {n : ℕ} (hn : 0 < n) (data : List α) (room : ℕ)
    (hroom : data.length < room) (h : data.length % n = 0) :
    readMessage n room (packets n data) = none := by
  induction data using packet_induction hn generalizing room with
  | short data hlt =>
    rw [Nat.mod_eq_of_lt hlt, List.length_eq_zero_iff] at h
    rw [h, packets_nil, readMessage]
  | full p data hp ih =>
    rw [List.length_append, hp, Nat.add_mod_left] at h
    rw [List.length_append, hp] at hroom
    rw [packets_full hn hp, readMessage, if_neg (by omega), ih (room - n) (by omega) h]
    rfl

end M3Dev.BulkTransfer
