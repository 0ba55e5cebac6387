import M3Dev.RswdpReply
import Mathlib.Data.List.Basic

/-! Asynchronous transactions: the messages a probe sends on its own, and which of
them `process_async` hands on. -/
namespace M3Dev.Rswdp

inductive AsyncMsg where
  | null
  | debugPrint (data : List Word)
  | swoData (data : List Word)
  deriving Repr

namespace AsyncMsg

/-- The words of a well-formed message; header fields without a meaning are free. -/
def EncodedAs : AsyncMsg → List Word → Prop
  | null, ws => ∃ op n, ws = [rswdMsg cmdNull op n]
  | debugPrint data, ws => data.length < 65536 ∧
      ∃ op, ws = rswdMsg cmdDebugPrint op (BitVec.ofNat 32 data.length) :: data
  | swoData data, ws => data.length < 65536 ∧
      ∃ op, ws = rswdMsg cmdSwoData op (BitVec.ofNat 32 data.length) :: data

/-- What the message is for: all of its payload. -/
def event : AsyncMsg → Option AsyncEvent
  | null => none
  | debugPrint data => some (.print (text (data.flatMap wordBytes)))
  | swoData data => some (.swo (data.flatMap wordBytes))

def IsSwo : AsyncMsg → Prop
  | swoData _ => True
  | _ => False

/-- What `process_async` makes of the messages when the receive buffer goes on behind
them (`more`) or ends with them. -/
def outcome (more : Bool) : List AsyncMsg → Except Stop (List AsyncEvent)
  | [] => .ok []
  | null :: ms => outcome more ms
  | debugPrint data :: ms =>
    if ms ≠ [] ∨ more then
      (outcome more ms).map (fun es => .print (printedLine (text (data.flatMap wordBytes))) :: es)
    else .error .outOfBounds
  | swoData data :: _ => .ok [.swo (data.flatMap wordBytes)]

end AsyncMsg

@[simp] theorem isSwo_null : ¬ AsyncMsg.null.IsSwo := id

@[simp] theorem isSwo_debugPrint (data : List Word) : ¬ (AsyncMsg.debugPrint data).IsSwo := id

@[simp] theorem isSwo_swoData (data : List Word) : (AsyncMsg.swoData data).IsSwo := trivial

theorem async_encoded_pos {m : AsyncMsg} {ws : List Word} (h : m.EncodedAs ws) : ws ≠ [] := by
  cases m with
  | null => obtain ⟨op, n, rfl⟩ := h; simp
  | debugPrint data => obtain ⟨_, op, rfl⟩ := h; simp
  | swoData data => obtain ⟨_, op, rfl⟩ := h; simp

theorem async_flatten_eq_nil {ms : List AsyncMsg} {wss : List (List Word)}
    (h : List.Forall₂ AsyncMsg.EncodedAs ms wss) : wss.flatten = [] ↔ ms = [] := by
  cases h with
  | nil => simp
  | cons hm _ => simp [async_encoded_pos hm]

/-! ### One message -/

theorem processAsync_swoData (op : Word) (data rest : List Word) (count : ℕ)
    (hn : data.length < 65536) (hc : data.length ≤ count) :
    processAsync (rswdMsg cmdSwoData op (BitVec.ofNat 32 data.length) :: (data ++ rest))
      (count + 1) = .ok [.swo (data.flatMap wordBytes)] := by
  have hcount := rswdMsgArg_count cmdSwoData op data.length hn
  rw [processAsync_swo (by rw [rswdMsgCmd_rswdMsg]; decide) (by rwa [hcount]), hcount,
    if_pos (by simp), List.take_left]

theorem processAsync_debugPrint (op : Word) (data rest : List Word) (count : ℕ)
    (hn : data.length < 65536) (hc : data.length ≤ count) :
    processAsync (rswdMsg cmdDebugPrint op (BitVec.ofNat 32 data.length) :: (data ++ rest))
        (count + 1) =
      if rest ≠ [] then
        (processAsync rest (count - data.length)).map
          (fun es => .print (printedLine (text (data.flatMap wordBytes))) :: es)
      else .error .outOfBounds := by
  have hcount := rswdMsgArg_count cmdDebugPrint op data.length hn
  have hroom : data.length < (data ++ rest).length ↔ rest ≠ [] := by
    rw [List.length_append, ← List.length_pos_iff]
    omega
  rw [processAsync_print (by rw [rswdMsgCmd_rswdMsg]; decide) (by rwa [hcount]), hcount,
    List.drop_left, List.take_left]
  simp only [hroom]

/-! ### Whole transactions -/

theorem processAsync_outcome {ms : List AsyncMsg} {wss : List (List Word)}
    (h : List.Forall₂ AsyncMsg.EncodedAs ms wss) (rest : List Word) :
    processAsync (wss.flatten ++ rest) wss.flatten.length =
      AsyncMsg.outcome (decide (rest ≠ [])) ms := by
  induction h with
  | nil => simp [processAsync, AsyncMsg.outcome]
  | @cons m ws ms wss hm hms ih =>
    rw [List.flatten_cons, List.append_assoc, List.length_append]
    cases m with
    | null =>
      obtain ⟨op, n, rfl⟩ := hm
      rw [List.length_singleton, Nat.add_comm 1, List.cons_append, List.nil_append,
        processAsync_null (by rw [rswdMsgCmd_rswdMsg]; decide), ih]
      rfl
    | debugPrint data =>
      obtain ⟨hn, op, rfl⟩ := hm
      have hlen : data.length + 1 + wss.flatten.length =
          data.length + wss.flatten.length + 1 := by omega
      rw [List.length_cons, hlen, List.cons_append,
        processAsync_debugPrint op data _ _ hn (by omega), Nat.add_sub_cancel_left, ih]
      have hempty := async_flatten_eq_nil hms
      simp only [AsyncMsg.outcome, ne_eq, List.append_eq_nil_iff, hempty, decide_not,
        Bool.not_eq_eq_eq_not, Bool.not_true, decide_eq_false_iff_not]
      congr 1
      rw [not_and_or]
    | swoData data =>
      obtain ⟨hn, op, rfl⟩ := hm
      have hlen : data.length + 1 + wss.flatten.length =
          data.length + wss.flatten.length + 1 := by omega
      rw [List.length_cons, hlen, List.cons_append,
        processAsync_swoData op data _ _ hn (by omega)]
      rfl

theorem filterMap_event_eq_nil (ms : List AsyncMsg) :
    ms.filterMap AsyncMsg.event = [] ↔ ∀ m ∈ ms, m = .null := by
  rw [List.filterMap_eq_nil_iff]
  refine forall₂_congr (fun m _ => ?_)
  cases m <;> simp [AsyncMsg.event]

/-- `xprintf` has room for the text of every debug message. -/
def PrintsWhole (ms : List AsyncMsg) : Prop :=
  ∀ data, .debugPrint data ∈ ms → (text (data.flatMap wordBytes)).length ≤ 255

theorem printsWhole_null (ms : List AsyncMsg) : PrintsWhole (.null :: ms) ↔ PrintsWhole ms := by
  simp [PrintsWhole]

theorem printsWhole_debugPrint (data : List Word) (ms : List AsyncMsg) :
    PrintsWhole (.debugPrint data :: ms) ↔
      printedLine (text (data.flatMap wordBytes)) = text (data.flatMap wordBytes) ∧ PrintsWhole ms := by
  rw [printedLine_eq_self]
  constructor
  · intro h
    exact ⟨h data List.mem_cons_self, fun data' hmem => h data' (List.mem_cons_of_mem _ hmem)⟩
  · rintro ⟨hfirst, hrest⟩ data' hmem
    rcases List.mem_cons.mp hmem with heq | hlater
    · rw [AsyncMsg.debugPrint.inj heq]
      exact hfirst
    · exact hrest data' hlater

theorem printsWhole_of_null {ms : List AsyncMsg} (h : ∀ m ∈ ms, m = .null) (data : List Word) :
    PrintsWhole (.swoData data :: ms) := by
  intro data' hmem
  rcases List.mem_cons.mp hmem with heq | hlater
  · exact absurd heq (by simp)
  · exact absurd (h _ hlater) (by simp)

/-- The outcome is the messages' own events exactly when nothing but nulls follows an
SWO message, every text fits its line and no debug message ends at the end of the buffer. -/
theorem outcome_eq_events_iff (more : Bool) (ms : List AsyncMsg) :
    AsyncMsg.outcome more ms = .ok (ms.filterMap AsyncMsg.event) ↔
      ms.Pairwise (fun m m' => m.IsSwo → m' = .null) ∧ PrintsWhole ms ∧
        (more = false → ∀ data, ms.getLast? ≠ some (.debugPrint data)) := by
  induction ms with
  | nil => simp [AsyncMsg.outcome, PrintsWhole]
  | cons m ms ih =>
    cases m with
    | null =>
      simp only [AsyncMsg.outcome, AsyncMsg.event, List.filterMap_cons, ih, List.pairwise_cons,
        isSwo_null, false_implies, implies_true, true_and, printsWhole_null]
      cases ms <;> simp
    | debugPrint data =>
      rw [printsWhole_debugPrint]
      simp only [AsyncMsg.outcome, AsyncMsg.event, List.filterMap_cons, List.pairwise_cons,
        isSwo_debugPrint, false_implies, implies_true, true_and]
      cases ms with
      | nil => cases more <;> simp [AsyncMsg.outcome, Except.map, PrintsWhole]
      | cons m' ms =>
        rw [List.getLast?_cons_cons, and_assoc, and_left_comm, ← ih, if_pos (Or.inl (by simp))]
        cases AsyncMsg.outcome more (m' :: ms) <;> simp [Except.map]
    | swoData data =>
      have hnil := filterMap_event_eq_nil ms
      simp only [AsyncMsg.outcome, AsyncMsg.event, List.filterMap_cons, List.pairwise_cons,
        isSwo_swoData, true_implies, Except.ok.injEq, List.cons.injEq, true_and]
      rw [eq_comm, hnil]
      constructor
      · intro hall
        refine ⟨⟨hall, ?_⟩, printsWhole_of_null hall data, ?_⟩
        · exact List.Pairwise.imp_of_mem (fun _ hb _ _ => hall _ hb)
            (List.pairwise_of_forall (R := fun _ _ => True) (fun _ _ => trivial))
        · intro _ data' hlast
          rcases List.mem_cons.mp (List.mem_of_getLast? hlast) with h | h
          · exact absurd h (by simp)
          · exact absurd (hall _ h) (by simp)
      · exact fun h => h.1.1

/-- `process_async` prints and hands on every payload once, whole and in order, exactly when
nothing but nulls follows an SWO message, no text is longer than 255 characters and the last
message is not a debug message that ends with the receive buffer. -/
theorem processAsync_handles_iff {ms : List AsyncMsg} {wss : List (List Word)}
    (h : List.Forall₂ AsyncMsg.EncodedAs ms wss) (rest : List Word) :
    processAsync (wss.flatten ++ rest) wss.flatten.length = .ok (ms.filterMap AsyncMsg.event) ↔
      ms.Pairwise (fun m m' => m.IsSwo → m' = .null) ∧ PrintsWhole ms ∧
        (rest = [] → ∀ data, ms.getLast? ≠ some (.debugPrint data)) := by
  rw [processAsync_outcome h, outcome_eq_events_iff]
  simp

/-- Two SWO messages of one word each, in a receive buffer of 2048 words. -/
theorem second_swo_lost :
    List.Forall₂ AsyncMsg.EncodedAs [.swoData [0x80], .swoData [0x70]]
      [[rswdMsg cmdSwoData 0 1, 0x80], [rswdMsg cmdSwoData 0 1, 0x70]] ∧
    processAsync ([rswdMsg cmdSwoData 0 1, 0x80, rswdMsg cmdSwoData 0 1, 0x70] ++
        List.replicate 2043 0) 4 ≠
      .ok [.swo (wordBytes 0x80), .swo (wordBytes 0x70)] := by
  have h : List.Forall₂ AsyncMsg.EncodedAs [.swoData [0x80], .swoData [0x70]]
      [[rswdMsg cmdSwoData 0 1, 0x80], [rswdMsg cmdSwoData 0 1, 0x70]] :=
    List.Forall₂.cons ⟨by decide, 0, rfl⟩
      (List.Forall₂.cons ⟨by decide, 0, rfl⟩ List.Forall₂.nil)
  refine ⟨h, ?_⟩
  have hout := processAsync_outcome h (List.replicate 2043 0)
  simp only [List.flatten_cons, List.flatten_nil, List.append_nil, List.cons_append,
    List.nil_append, List.length_cons, List.length_nil, AsyncMsg.outcome] at hout
  rw [List.cons_append, List.cons_append, List.cons_append, List.cons_append,
    List.nil_append, hout]
  simp

theorem processAsync_handles_print_then_swo :
    processAsync ([[rswdMsg cmdDebugPrint 0 1, 0x6968], [rswdMsg cmdSwoData 0 1, 0x80]].flatten ++
        List.replicate 2043 0) 4 =
      .ok [.print [0x68, 0x69], .swo [0x80, 0, 0, 0]] := by
  have h : List.Forall₂ AsyncMsg.EncodedAs [.debugPrint [0x6968], .swoData [0x80]]
      [[rswdMsg cmdDebugPrint 0 1, 0x6968], [rswdMsg cmdSwoData 0 1, 0x80]] :=
    List.Forall₂.cons ⟨by decide, 0, rfl⟩
      (List.Forall₂.cons ⟨by decide, 0, rfl⟩ List.Forall₂.nil)
  refine (processAsync_handles_iff h (List.replicate 2043 0)).mpr ⟨by simp, ?_, by simp⟩
  exact (printsWhole_debugPrint _ _).mpr ⟨by decide, printsWhole_of_null (by simp) _⟩

end M3Dev.Rswdp
