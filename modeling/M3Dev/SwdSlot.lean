import M3Dev.SwdThreads
import Mathlib.Data.List.Perm.Basic

/-! The one slot for replies (`swd_txn_id`, `swd_txn_data`, `swd_txn_status`) under any number
of callers: as long as calls of `q_exec` do not overlap, every reply finds its call. -/
namespace M3Dev.Threads
open EventSystem Rswdp
variable {κ : Type*}

/-- What callers rely on: `process_reply` is called on the reply of its own transaction, and
no reply of a call that is still waiting has been reported as unexpected. -/
structure RepliesFindCalls (s : Swd κ) : Prop where
  processed : ∀ p ∈ s.processed, p.2.head? = some p.1
  unexpected : ∀ p ∈ s.unexpected, ∀ t txn id data, s.calls t = .waiting txn id data →
    p.txn ≠ some txn

/-- The transaction a packet answers, and the id it carries. -/
def Packet.entry (p : Packet) : Option (ℕ × Word) := p.txn.map (fun n => (n, p.first))

/-- Transactions whose reply has not been read, by number and id. -/
def Swd.wire (s : Swd κ) : List (ℕ × Word) := s.pending ++ s.replies.filterMap Packet.entry

/-- `q_exec` sends or acknowledges a disconnect while another call waits. -/
def Overlaps (s : Swd κ) : Event κ → Prop
  | .enter _ _ ok => (s.swdOnline = -1 ∨ s.swdOnline = 1 ∧ ok = true) ∧
      ∃ t, (s.calls t).isWaiting = true
  | _ => False

/-- `q_exec` sends under an id that a transaction on the wire has: the sequence number has
wrapped around to it. -/
def ReusesId (s : Swd κ) : Event κ → Prop
  | .enter _ _ ok => s.swdOnline = 1 ∧ ok = true ∧
      ∃ x ∈ s.wire, x.2 = rswdTxnStart s.sequence
  | _ => False

/-- Where the slot stands for a call in `pthread_cond_wait`. -/
inductive Slot (s : Swd κ) (t : κ) (txn : ℕ) (id : Word) (data : List Word) : Prop where
  | wait (hst : s.swdTxnStatus = txnStatusWait) (hdata : s.swdTxnData = some t)
      (hon : s.swdOnline = 1) (hid : s.swdTxnId = id) (hwire : ∀ x ∈ s.wire, x.2 = id → x.1 = txn)
  | failed (hst : s.swdTxnStatus = txnStatusFail) (hoff : s.swdOnline = -1)
      (hreader : s.reader = .closing)
  | answered (hst : 0 < s.swdTxnStatus) (hdata : data.head? = some id)
      (hwire : ∀ x ∈ s.wire, x.1 ≠ txn)

/-- A waiting call: its transaction keeps its id on the wire, and the slot is its own. -/
structure CallInv (s : Swd κ) (t : κ) (txn : ℕ) (id : Word) (data : List Word) : Prop where
  sent : txn < s.txns
  start : ∃ seq, id = rswdTxnStart seq
  wire : ∀ x ∈ s.wire, x.1 = txn → x.2 = id
  slot : Slot s t txn id data

structure SlotInv (s : Swd κ) : Prop where
  finds : RepliesFindCalls s
  /-- reported packets answer transactions of the past -/
  past : ∀ p ∈ s.unexpected, ∀ n, p.txn = some n → n < s.txns
  nodup : (s.wire.map Prod.fst).Nodup
  sent : ∀ x ∈ s.wire, x.1 < s.txns
  /-- what answers no transaction is an asynchronous one -/
  async : ∀ p ∈ s.replies, p.txn = none → p.first = rswdTxnAsync
  one : ∀ t t', (s.calls t).isWaiting = true → (s.calls t').isWaiting = true → t = t'
  online : s.swdOnline = 1 → s.reader = .reading 0
  call : ∀ t txn id data, s.calls t = .waiting txn id data → CallInv s t txn id data

theorem isWaiting_of_eq {c : CallState} {txn : ℕ} {id : Word} {data : List Word}
    (h : c = .waiting txn id data) : c.isWaiting = true := by
  rw [h]
  rfl

theorem eq_idle_of_not_isWaiting {c : CallState} (h : ¬ c.isWaiting = true) : c = .idle := by
  cases c with
  | idle => rfl
  | waiting txn id data => exact absurd rfl h

theorem slotInv_init : SlotInv (init : Swd κ) where
  finds := ⟨fun p hp => absurd hp (by simp [init]), fun p hp => absurd hp (by simp [init])⟩
  past := fun p hp => absurd hp (by simp [init])
  nodup := by simp [init, Swd.wire]
  sent := fun x hx => absurd hx (by simp [init, Swd.wire])
  async := fun p hp => absurd hp (by simp [init])
  one := fun t t' h => absurd h (by simp [init, CallState.isWaiting])
  online := fun h => absurd h (by simp [init])
  call := fun t txn id data h => absurd h (by simp [init])

/-- A step that leaves the calls and the record alone keeps the invariant if it only takes
from the wire or adds new transactions to it, and leaves the slot of a waiting call good. -/
theorem SlotInv.frame {s s' : Swd κ} (h : SlotInv s) (hcalls : s'.calls = s.calls)
    (hproc : s'.processed = s.processed) (hunexp : s'.unexpected = s.unexpected)
    (htxns : s.txns ≤ s'.txns) (hnodup : (s'.wire.map Prod.fst).Nodup)
    (hwire : ∀ x ∈ s'.wire, x ∈ s.wire ∨ s.txns ≤ x.1 ∧ x.1 < s'.txns)
    (hasync : ∀ p ∈ s'.replies, p.txn = none → p.first = rswdTxnAsync)
    (honline : s'.swdOnline = 1 → s'.reader = .reading 0)
    (hslot : ∀ t txn id data, s.calls t = .waiting txn id data → txn < s.txns →
      Slot s t txn id data → Slot s' t txn id data) : SlotInv s' where
  finds := by
    refine ⟨?_, ?_⟩
    · rw [hproc]
      exact h.finds.processed
    · rw [hunexp, hcalls]
      exact h.finds.unexpected
  past := by
    rw [hunexp]
    intro p hp n hn
    exact lt_of_lt_of_le (h.past p hp n hn) htxns
  nodup := hnodup
  sent := by
    intro x hx
    rcases hwire x hx with hold | hnew
    · exact lt_of_lt_of_le (h.sent x hold) htxns
    · exact hnew.2
  async := hasync
  one := by
    rw [hcalls]
    exact h.one
  online := honline
  call := by
    intro t txn id data hwait
    rw [hcalls] at hwait
    have hcall := h.call t txn id data hwait
    refine ⟨lt_of_lt_of_le hcall.sent htxns, hcall.start, ?_,
      hslot t txn id data hwait hcall.sent hcall.slot⟩
    intro x hx heq
    rcases hwire x hx with hold | hnew
    · exact hcall.wire x hold heq
    · -- a new transaction is not the one waited for
      have hsent := hcall.sent
      omega

theorem SlotInv.not_online {s : Swd κ} (h : SlotInv s) (hreader : s.reader ≠ .reading 0) :
    s.swdOnline ≠ 1 :=
  fun hon => hreader (h.online hon)

/-! ### q_exec -/

theorem wire_send (s : Swd κ) (id : Word) :
    ((s.send id).wire.map Prod.fst).Perm (s.txns :: s.wire.map Prod.fst) ∧
      ∀ x, x ∈ (s.send id).wire ↔ x ∈ s.wire ∨ x = (s.txns, id) := by
  have hwire : (s.send id).wire =
      s.pending ++ [(s.txns, id)] ++ s.replies.filterMap Packet.entry := rfl
  constructor
  · rw [hwire, List.append_assoc, List.singleton_append, List.map_append, List.map_cons,
      Swd.wire, List.map_append]
    exact List.perm_middle
  · intro x
    rw [hwire, Swd.wire]
    simp only [List.mem_append, List.mem_singleton]
    tauto

/-- The new number is on the wire once. -/
theorem SlotInv.nodup_send {s : Swd κ} (h : SlotInv s) (id : Word) :
    ((s.send id).wire.map Prod.fst).Nodup := by
  rw [(wire_send s id).1.nodup_iff, List.nodup_cons]
  refine ⟨?_, h.nodup⟩
  intro hmem
  obtain ⟨x, hx, heq⟩ := List.mem_map.mp hmem
  have hlt := h.sent x hx
  omega

/-- Nothing on the wire changes. -/
theorem SlotInv.same {s s' : Swd κ} (h : SlotInv s) (hpend : s'.pending = s.pending)
    (hreplies : s'.replies = s.replies) (hcalls : s'.calls = s.calls) (hproc : s'.processed = s.processed)
    (hunexp : s'.unexpected = s.unexpected) (htxns : s'.txns = s.txns)
    (honline : s'.swdOnline = 1 → s'.reader = .reading 0)
    (hslot : ∀ t txn id data, s.calls t = .waiting txn id data → Slot s t txn id data →
      Slot s' t txn id data) : SlotInv s' := by
  have hwire : s'.wire = s.wire := by rw [Swd.wire, hpend, hreplies, Swd.wire]
  apply h.frame hcalls hproc hunexp htxns.ge
  · rw [hwire]
    exact h.nodup
  · rw [hwire]
    exact fun x hx => Or.inl hx
  · rw [hreplies]
    exact h.async
  · exact honline
  · exact fun t txn id data hw _ => hslot t txn id data hw

/-- A transaction sent while nobody waits: the sender is the only one that waits then. -/
theorem SlotInv.send_alone [DecidableEq κ] {s : Swd κ} (h : SlotInv s) (t : κ) (stale : List Word)
    (hone : s.swdOnline = 1) (hidle : ∀ t', ¬ (s.calls t').isWaiting = true)
    (hfresh : ∀ x ∈ s.wire, x.2 ≠ rswdTxnStart s.sequence) :
    SlotInv { Swd.send { s with sequence := s.sequence + 1 } (rswdTxnStart s.sequence) with
      swdTxnId := rswdTxnStart s.sequence
      swdTxnData := some t
      swdTxnStatus := txnStatusWait
      calls := Function.update s.calls t
        (.waiting s.txns (rswdTxnStart s.sequence) stale) } := by
  have hmem := (wire_send s (rswdTxnStart s.sequence)).2
  -- the caller is the only one that waits
  have hself : ∀ t', (Function.update s.calls t
      (.waiting s.txns (rswdTxnStart s.sequence) stale) t').isWaiting = true → t' = t := by
    intro t' hw
    by_contra ht
    rw [Function.update_of_ne ht] at hw
    exact hidle t' hw
  have hcalls : ∀ t' txn id data,
      Function.update s.calls t (.waiting s.txns (rswdTxnStart s.sequence) stale) t' =
        .waiting txn id data →
      t' = t ∧ txn = s.txns ∧ id = rswdTxnStart s.sequence := by
    intro t' txn id data hw
    have ht := hself t' (isWaiting_of_eq hw)
    rw [ht, Function.update_self] at hw
    obtain ⟨rfl, rfl, rfl⟩ := CallState.waiting.inj hw
    exact ⟨ht, rfl, rfl⟩
  refine
    { finds := ⟨h.finds.processed, ?_⟩
      past := fun p hp n hn => Nat.lt_succ_of_lt (h.past p hp n hn)
      nodup := h.nodup_send (rswdTxnStart s.sequence)
      sent := ?_
      async := h.async
      one := fun t₁ t₂ h₁ h₂ => (hself t₁ h₁).trans (hself t₂ h₂).symm
      online := h.online
      call := ?_ }
  · intro p hp t' txn id data hw hn
    obtain ⟨_, rfl, _⟩ := hcalls t' txn id data hw
    exact absurd (h.past p hp s.txns hn) (lt_irrefl _)
  · intro x hx
    rcases (hmem x).mp hx with hold | rfl
    · exact Nat.lt_succ_of_lt (h.sent x hold)
    · exact Nat.lt_succ_self _
  · intro t' txn id data hw
    obtain ⟨rfl, rfl, rfl⟩ := hcalls t' txn id data hw
    refine ⟨Nat.lt_succ_self _, ⟨_, rfl⟩, ?_, .wait rfl rfl hone rfl ?_⟩
    · intro x hx heq
      rcases (hmem x).mp hx with hold | rfl
      · exact absurd (h.sent x hold) (heq ▸ lt_irrefl _)
      · rfl
    · -- no old transaction on the wire has the id of the new one
      intro x hx heq
      rcases (hmem x).mp hx with hold | rfl
      · exact absurd heq (hfresh x hold)
      · rfl

theorem SlotInv.enter [DecidableEq κ] {s : Swd κ} (h : SlotInv s) {t : κ} {stale : List Word}
    {ok : Bool} (halone : ¬ Overlaps s (.enter t stale ok))
    (hfresh : ¬ ReusesId s (.enter t stale ok)) : SlotInv (qEnter t stale ok s) := by
  unfold qEnter
  dsimp only
  split_ifs with hon hoff hok
  · -- the disconnect is acknowledged: nobody waits
    refine h.same (by rfl) (by rfl) (by rfl) (by rfl) (by rfl) (by rfl) ?_ ?_
    · intro hone
      have hzero : (0 : ℤ) = 1 := hone
      exact absurd hzero (by decide)
    · intro t' txn id data hw _
      exact absurd ⟨Or.inl hoff, t', isWaiting_of_eq hw⟩ halone
  · refine h.same (by rfl) (by rfl) (by rfl) (by rfl) (by rfl) (by rfl) h.online ?_
    intro t' txn id data _ hslot
    cases hslot with
    | wait hst hdata hon' hid hwire => exact absurd hon' hon
    | failed hst hoff' hreader => exact absurd hoff' hoff
    | answered hst hdata hwire => exact .answered hst hdata hwire
  · -- the transaction is sent: nobody else waits
    have hone : s.swdOnline = 1 := not_not.mp hon
    exact h.send_alone t stale hone (fun t' hw => halone ⟨Or.inr ⟨hone, hok⟩, t', hw⟩)
      (fun x hx heq => hfresh ⟨hone, hok, x, hx, heq⟩)
  · refine h.same (by rfl) (by rfl) (by rfl) (by rfl) (by rfl) (by rfl) h.online ?_
    intro t' txn id data _ hslot
    cases hslot with
    | wait hst hdata hon' hid hwire => exact .wait hst hdata hon' hid hwire
    | failed hst hoff hreader => exact .failed hst hoff hreader
    | answered hst hdata hwire => exact .answered hst hdata hwire

theorem SlotInv.wake [DecidableEq κ] {s : Swd κ} (h : SlotInv s) {t : κ} {txn : ℕ} {id : Word}
    {data : List Word} (hw : s.calls t = .waiting txn id data) : SlotInv (qWake t id data s) := by
  have hslot := (h.call t txn id data hw).slot
  -- after it nobody waits: it was the only one
  have hidle : ∀ t', Function.update s.calls t CallState.idle t' = .idle := by
    intro t'
    by_cases ht : t' = t
    · rw [ht, Function.update_self]
    · rw [Function.update_of_ne ht]
      apply eq_idle_of_not_isWaiting
      exact fun hw' => ht (h.one t' t hw' (isWaiting_of_eq hw))
  have hgone : ∀ s' : Swd κ, s'.calls = Function.update s.calls t .idle → s'.wire = s.wire →
      s'.replies = s.replies → s'.txns = s.txns → s'.unexpected = s.unexpected →
      (∀ p ∈ s'.processed, p.2.head? = some p.1) →
      (s'.swdOnline = 1 → s'.reader = .reading 0) → SlotInv s' := by
    intro s' hcalls hwire hreplies htxns hunexp hproc honline
    have hnone : ∀ t' txn id data, s'.calls t' ≠ .waiting txn id data := by
      intro t' txn id data hw'
      rw [hcalls, hidle t'] at hw'
      exact absurd hw' (by simp)
    refine
      { finds := ⟨hproc, fun p _ t' txn id data hw' => absurd hw' (hnone t' txn id data)⟩
        past := ?_
        nodup := ?_
        sent := ?_
        async := hreplies ▸ h.async
        one := ?_
        online := honline
        call := fun t' txn id data hw' => absurd hw' (hnone t' txn id data) }
    · rw [hunexp, htxns]
      exact h.past
    · rw [hwire]
      exact h.nodup
    · rw [hwire, htxns]
      exact h.sent
    · intro t₁ t₂ h₁
      rw [hcalls, hidle t₁] at h₁
      exact absurd h₁ (by simp [CallState.isWaiting])
  unfold qWake
  dsimp only
  split_ifs with hst hfail hpos hpos
  · exact h
  · exact absurd hpos (by decide)
  · exact hgone _ (by rfl) (by rfl) (by rfl) (by rfl) (by rfl) h.finds.processed h.online
  · -- a reply is there: it is this call's
    refine hgone _ (by rfl) (by rfl) (by rfl) (by rfl) (by rfl) ?_ h.online
    intro p hp
    rcases List.mem_append.mp hp with hold | hnew
    · exact h.finds.processed p hold
    · rw [List.mem_singleton.mp hnew]
      cases hslot with
      | wait hst' => exact absurd hst' hst
      | failed hst' => exact absurd hst' hfail
      | answered _ hdata _ => exact hdata
  · exact hgone _ (by rfl) (by rfl) (by rfl) (by rfl) (by rfl) h.finds.processed h.online

/-! ### The reader -/

theorem wire_tail {s : Swd κ} {p : Packet} {ps : List Packet} (hps : s.replies = p :: ps) :
    (∀ x, x ∈ Swd.wire { s with replies := ps } → x ∈ s.wire) ∧
      ((Swd.wire { s with replies := ps }).map Prod.fst).Sublist (s.wire.map Prod.fst) ∧
      ∀ txn, p.txn = some txn → (txn, p.first) ∈ s.wire ∧
        ((s.wire.map Prod.fst).Nodup → ∀ x ∈ Swd.wire { s with replies := ps }, x.1 ≠ txn) := by
  have hsub : (ps.filterMap Packet.entry).Sublist ((p :: ps).filterMap Packet.entry) :=
    (List.sublist_cons_self p ps).filterMap Packet.entry
  have hwire : (Swd.wire { s with replies := ps }).Sublist s.wire := by
    unfold Swd.wire
    rw [hps]
    exact hsub.append_left s.pending
  refine ⟨fun x hx => hwire.subset hx, hwire.map Prod.fst, ?_⟩
  intro txn htxn
  have hentry : p.entry = some (txn, p.first) := by rw [Packet.entry, htxn]; rfl
  have hsplit : s.wire =
      s.pending ++ (txn, p.first) :: ps.filterMap Packet.entry := by
    rw [Swd.wire, hps, List.filterMap_cons_some hentry]
  refine ⟨by rw [hsplit]; simp, ?_⟩
  intro hnodup x hx heq
  rw [hsplit, List.map_append, List.map_cons, List.perm_middle.nodup_iff, List.nodup_cons]
    at hnodup
  apply hnodup.1
  have hfst : x.1 ∈ (Swd.wire { s with replies := ps }).map Prod.fst := List.mem_map_of_mem hx
  rw [heq] at hfst
  rw [← List.map_append]
  exact hfst

theorem Slot.tail {s : Swd κ} {ps : List Packet} {t : κ} {txn : ℕ} {id : Word} {data : List Word}
    (h : Slot s t txn id data)
    (hsub : ∀ x, x ∈ Swd.wire { s with replies := ps } → x ∈ s.wire) :
    Slot { s with replies := ps } t txn id data := by
  cases h with
  | wait hst hdata hon hid hwire =>
    exact .wait hst hdata hon hid (fun x hx => hwire x (hsub x hx))
  | failed hst hoff hreader => exact .failed hst hoff hreader
  | answered hst hdata hwire => exact .answered hst hdata (fun x hx => hwire x (hsub x hx))

theorem start_ne_async (seq : BitVec 16) : rswdTxnStart seq ≠ rswdTxnAsync := by
  intro heq
  have hframe := rswdTxnStart_frame seq
  rw [heq] at hframe
  exact absurd hframe (by decide)

theorem copyReply_eq_waiting {words : List Word} {c : CallState} {txn : ℕ} {id : Word}
    {data : List Word} (h : copyReply words c = .waiting txn id data) :
    ∃ old, c = .waiting txn id old ∧ data = words ++ old.drop words.length := by
  cases c with
  | idle => exact absurd h (by simp [copyReply])
  | waiting txn' id' old =>
    obtain ⟨rfl, rfl, rfl⟩ := CallState.waiting.inj h
    exact ⟨old, rfl, rfl⟩

/-- A packet taken from the wire and given to nobody. -/
theorem SlotInv.drop {s : Swd κ} (h : SlotInv s) {p : Packet} {ps : List Packet}
    (hps : s.replies = p :: ps) : SlotInv { s with replies := ps } := by
  obtain ⟨hsub, hnodup, _⟩ := wire_tail hps
  refine h.frame (by rfl) (by rfl) (by rfl) le_rfl (hnodup.nodup h.nodup) ?_ ?_ h.online ?_
  · exact fun x hx => Or.inl (hsub x hx)
  · intro q hq
    exact h.async q (by rw [hps]; exact List.mem_cons_of_mem p hq)
  · exact fun t txn id data _ _ hslot => hslot.tail hsub

/-- The query is answered: the slot waits for nothing. -/
theorem SlotInv.queryDone {s : Swd κ} (h : SlotInv s) {q : Word} (hq : s.reader = .reading q) (hquery : q ≠ 0)
    {p : Packet} {ps : List Packet} (hps : s.replies = p :: ps) :
    SlotInv { s with replies := ps, reader := .reading 0, swdOnline := 1 } := by
  have hdrop := h.drop hps
  refine hdrop.same (by rfl) (by rfl) (by rfl) (by rfl) (by rfl) (by rfl) (fun _ => rfl) ?_
  intro t txn id data _ hslot
  cases hslot with
  | wait hst hdata hon hid hwire =>
    have hzero : Reader.reading q = .reading 0 := hq ▸ h.online hon
    exact absurd (Reader.reading.inj hzero) hquery
  | failed hst hoff hreader =>
    have hclosing : Reader.reading q = .closing := hq ▸ hreader
    exact absurd hclosing (by simp)
  | answered hst hdata hwire => exact .answered hst hdata hwire

/-- Only the call the slot is for can be waiting, and it gets the words. -/
theorem SlotInv.copied [DecidableEq κ] {s : Swd κ} (h : SlotInv s)
    (hst₀ : s.swdTxnStatus = txnStatusWait) {t₀ : κ} (hdata : s.swdTxnData = some t₀)
    {words : List Word} {t : κ} {txn : ℕ} {id : Word} {data : List Word}
    (hw : Function.update s.calls t₀ (copyReply words (s.calls t₀)) t = .waiting txn id data) :
    ∃ old, s.calls t = .waiting txn id old ∧ data = words ++ old.drop words.length ∧
      s.swdTxnId = id ∧ ∀ x ∈ s.wire, x.2 = id → x.1 = txn := by
  have hown : ∀ old, s.calls t = .waiting txn id old → t = t₀ ∧ s.swdTxnId = id ∧
      ∀ x ∈ s.wire, x.2 = id → x.1 = txn := by
    intro old hw'
    cases (h.call t txn id old hw').slot with
    | wait hst hdata' hon hid hwire =>
      rw [hdata] at hdata'
      exact ⟨(Option.some.inj hdata').symm, hid, hwire⟩
    | failed hst => rw [hst₀] at hst; exact absurd hst (by decide)
    | answered hst => rw [hst₀] at hst; exact absurd hst (by decide)
  by_cases ht : t = t₀
  · subst ht
    rw [Function.update_self] at hw
    obtain ⟨old, hw', hcopied⟩ := copyReply_eq_waiting hw
    exact ⟨old, hw', hcopied, (hown old hw').2⟩
  · rw [Function.update_of_ne ht] at hw
    exact absurd (hown data hw).1 ht

/-- The packet goes to the slot. -/
theorem SlotInv.reply [DecidableEq κ] {s : Swd κ} (h : SlotInv s) {p : Packet} {ps : List Packet}
    (hps : s.replies = p :: ps) (hst₀ : s.swdTxnStatus = txnStatusWait) (hfirst₀ : p.first = s.swdTxnId) {t₀ : κ}
    (hdata : s.swdTxnData = some t₀) :
    SlotInv { s with
      replies := ps, swdTxnStatus := 4 * p.words.length,
      calls := Function.update s.calls t₀ (copyReply p.words (s.calls t₀)) } := by
  have hdrop := h.drop hps
  obtain ⟨hsub, _, hentry⟩ := wire_tail hps
  -- a call that waits now has waited before
  have hwaits : ∀ t, (Function.update s.calls t₀ (copyReply p.words (s.calls t₀)) t).isWaiting =
      true → (s.calls t).isWaiting = true := by
    intro t hw
    cases hc : Function.update s.calls t₀ (copyReply p.words (s.calls t₀)) t with
    | idle => rw [hc] at hw; exact absurd hw (by simp [CallState.isWaiting])
    | waiting txn id data =>
      obtain ⟨old, hw', _⟩ := h.copied hst₀ hdata hc
      exact isWaiting_of_eq hw'
  refine
    { finds := ⟨h.finds.processed, ?_⟩
      past := h.past
      nodup := hdrop.nodup
      sent := hdrop.sent
      async := hdrop.async
      one := fun t t' hw hw' => h.one t t' (hwaits t hw) (hwaits t' hw')
      online := h.online
      call := ?_ }
  · intro r hr t txn id data hw
    obtain ⟨old, hw', _⟩ := h.copied hst₀ hdata hw
    exact h.finds.unexpected r hr t txn id old hw'
  · intro t txn id data hw
    obtain ⟨old, hw', hcopied, hid, hwire⟩ := h.copied hst₀ hdata hw
    have hcall := h.call t txn id old hw'
    obtain ⟨seq, hseq⟩ := hcall.start
    have hfirst : p.first = id := hfirst₀.trans hid
    refine ⟨hcall.sent, hcall.start, fun x hx => hcall.wire x (hsub x hx), .answered ?_ ?_ ?_⟩
    · have hlen : 0 < p.words.length := Nat.succ_pos _
      show 0 < 4 * (p.words.length : ℤ)
      omega
    · rw [hcopied, ← hfirst]
      rfl
    · -- its own reply has been read now
      cases htxn : p.txn with
      | none =>
        have hkind := h.async p (by rw [hps]; exact List.mem_cons_self) htxn
        rw [hfirst, hseq] at hkind
        exact absurd hkind (start_ne_async seq)
      | some n =>
        obtain ⟨hmem, hgone⟩ := hentry n htxn
        obtain rfl : n = txn := hwire _ hmem hfirst
        exact hgone h.nodup

/-- The packet is reported as unexpected: it is no reply that a call waits for. -/
theorem SlotInv.reported {s : Swd κ} (h : SlotInv s) {q : Word} (hq : s.reader = .reading q) {p : Packet}
    {ps : List Packet} (hps : s.replies = p :: ps)
    (hreply : ¬ (s.swdTxnStatus = txnStatusWait ∧ p.first = s.swdTxnId)) :
    SlotInv { s with replies := ps, unexpected := s.unexpected ++ [p] } := by
  have hdrop := h.drop hps
  obtain ⟨_, _, hentry⟩ := wire_tail hps
  refine { hdrop with finds := ⟨h.finds.processed, ?_⟩, past := ?_, call := ?_ }
  · intro r hr t txn id data hw
    rcases List.mem_append.mp hr with hold | hnew
    · exact h.finds.unexpected r hold t txn id data hw
    · rw [List.mem_singleton.mp hnew]
      intro htxn
      obtain ⟨hmem, _⟩ := hentry txn htxn
      have hcall := h.call t txn id data hw
      have hfirst : p.first = id := hcall.wire _ hmem rfl
      cases hcall.slot with
      | wait hst _ _ hid _ => exact hreply ⟨hst, hfirst.trans hid.symm⟩
      | failed _ _ hreader =>
        have hclosing : Reader.reading q = .closing := hq ▸ hreader
        exact absurd hclosing (by simp)
      | answered _ _ hwire => exact hwire _ hmem rfl
  · intro r hr n hn
    rcases List.mem_append.mp hr with hold | hnew
    · exact h.past r hold n hn
    · rw [List.mem_singleton.mp hnew] at hn
      exact h.sent _ (hentry n hn).1
  · intro t txn id data hw
    have hcall := hdrop.call t txn id data hw
    refine ⟨hcall.sent, hcall.start, hcall.wire, ?_⟩
    cases hcall.slot with
    | wait hst hdata hon hid hwire => exact .wait hst hdata hon hid hwire
    | failed hst hoff hreader => exact .failed hst hoff hreader
    | answered hst hdata hwire => exact .answered hst hdata hwire

/-- A turn of the reader: what it takes for the reply of the waiting call is that reply, and
what it reports as unexpected is not. -/
theorem SlotInv.readerTurn [DecidableEq κ] {s : Swd κ} (h : SlotInv s) {q : Word}
    (hq : s.reader = .reading q) {p : Packet} {ps : List Packet} (hps : s.replies = p :: ps)
    {s' : Swd κ} (hturn : Turns q p { s with replies := ps } s') : SlotInv s' := by
  cases hturn with
  | queried hquery _ => exact h.queryDone hq hquery hps
  | async _ => exact h.drop hps
  | replied hstatus hid hdata => exact h.reply hps hstatus hid hdata
  | unexpected hreply => exact h.reported hq hps hreply

/-! ### All steps -/

theorem Slot.of_not_online {s s' : Swd κ} {t : κ} {txn : ℕ} {id : Word} {data : List Word}
    (h : Slot s t txn id data) (hon : s.swdOnline ≠ 1) (hreader : s.reader ≠ .closing)
    (hst : s'.swdTxnStatus = s.swdTxnStatus) (hwire : ∀ x ∈ s'.wire, x ∈ s.wire ∨ x.1 ≠ txn) :
    Slot s' t txn id data := by
  cases h with
  | wait _ _ hon' => exact absurd hon' hon
  | failed _ _ hreader' => exact absurd hreader' hreader
  | answered hpos hdata hgone =>
    refine .answered (hst ▸ hpos) hdata ?_
    intro x hx
    rcases hwire x hx with hold | hnew
    · exact hgone x hold
    · exact hnew

theorem SlotInv.query {s : Swd κ} (h : SlotInv s) (hopened : s.reader = .opened) (id : Word)
    (ok : Bool) :
    SlotInv (if ok then
      Swd.send { s with sequence := s.sequence + 1, reader := .reading id } id
      else { s with sequence := s.sequence + 1, reader := .reading id }) := by
  have hon : s.swdOnline ≠ 1 := by
    intro hon
    have hreading := h.online hon
    rw [hopened] at hreading
    exact absurd hreading (by simp)
  have hclosing : s.reader ≠ .closing := by
    rw [hopened]
    simp
  split_ifs
  · have hmem := (wire_send s id).2
    refine h.frame (by rfl) (by rfl) (by rfl) (Nat.le_succ _) (h.nodup_send id) ?_ h.async
      (fun hone => absurd hone hon) ?_
    · intro x hx
      rcases (hmem x).mp hx with hold | rfl
      · exact Or.inl hold
      · exact Or.inr ⟨le_rfl, Nat.lt_succ_self _⟩
    · intro t txn id' data _ hsent hslot
      refine hslot.of_not_online hon hclosing (by rfl) ?_
      intro x hx
      rcases (hmem x).mp hx with hold | rfl
      · exact Or.inl hold
      · exact Or.inr hsent.ne'
  · refine h.same (by rfl) (by rfl) (by rfl) (by rfl) (by rfl) (by rfl)
      (fun hone => absurd hone hon) ?_
    intro t txn id' data _ hslot
    exact hslot.of_not_online hon hclosing (by rfl) (fun x hx => Or.inl hx)

/-- An answer moves its transaction from one end of the wire to the other. -/
theorem SlotInv.answer {s : Swd κ} (h : SlotInv s) {i : ℕ} {txn : ℕ} {id : Word}
    (hi : s.pending[i]? = some (txn, id)) (words : List Word) :
    SlotInv { s with
      pending := s.pending.eraseIdx i
      replies := s.replies ++ [{ txn := some txn, first := id, rest := words }] } := by
  obtain ⟨hlt, hget⟩ := List.getElem?_eq_some_iff.mp hi
  have hperm : (Swd.wire { s with
      pending := s.pending.eraseIdx i
      replies := s.replies ++ [{ txn := some txn, first := id, rest := words }] }).Perm s.wire := by
    have hcons : s.pending.Perm ((txn, id) :: s.pending.eraseIdx i) := by
      rw [← hget]
      exact (List.getElem_cons_eraseIdx_perm hlt).symm
    unfold Swd.wire
    rw [List.filterMap_append]
    refine List.Perm.trans ?_ (hcons.symm.append_right _)
    rw [← List.append_assoc]
    exact List.perm_append_singleton _ _
  refine h.frame (by rfl) (by rfl) (by rfl) le_rfl ?_ ?_ ?_ h.online ?_
  · exact (hperm.map Prod.fst).nodup_iff.mpr h.nodup
  · exact fun x hx => Or.inl (hperm.mem_iff.mp hx)
  · intro p hp hnone
    rcases List.mem_append.mp hp with hold | hnew
    · exact h.async p hold hnone
    · rw [List.mem_singleton.mp hnew] at hnone
      exact absurd hnone (by simp)
  · intro t txn' id' data _ _ hslot
    cases hslot with
    | wait hst hdata hon hid hwire =>
      exact .wait hst hdata hon hid (fun x hx => hwire x (hperm.mem_iff.mp hx))
    | failed hst hoff hreader => exact .failed hst hoff hreader
    | answered hst hdata hwire =>
      exact .answered hst hdata (fun x hx => hwire x (hperm.mem_iff.mp hx))

theorem SlotInv.asynchronous {s : Swd κ} (h : SlotInv s) (words : List Word) :
    SlotInv { s with
      replies := s.replies ++ [{ txn := none, first := rswdTxnAsync, rest := words }] } := by
  have hwire : Swd.wire { s with
      replies := s.replies ++ [{ txn := none, first := rswdTxnAsync, rest := words }] } =
      s.wire := by
    unfold Swd.wire
    rw [List.filterMap_append]
    simp [Packet.entry]
  refine h.frame (by rfl) (by rfl) (by rfl) le_rfl ?_ ?_ ?_ h.online ?_
  · rw [hwire]
    exact h.nodup
  · rw [hwire]
    exact fun x hx => Or.inl hx
  · intro p hp hnone
    rcases List.mem_append.mp hp with hold | hnew
    · exact h.async p hold hnone
    · rw [List.mem_singleton.mp hnew]
  · intro t txn id data _ _ hslot
    cases hslot with
    | wait hst hdata hon hid hw => exact .wait hst hdata hon hid (hwire ▸ hw)
    | failed hst hoff hreader => exact .failed hst hoff hreader
    | answered hst hdata hw => exact .answered hst hdata (hwire ▸ hw)

/-- A failed read fails whatever call waits. -/
theorem SlotInv.readError {s : Swd κ} (h : SlotInv s) (lost : Bool) :
    SlotInv { s with
      swdOnline := -1, swdTxnStatus := txnStatusFail, reader := .closing
      pending := if lost then [] else s.pending
      replies := if lost then [] else s.replies } := by
  have hoff : ∀ s' : Swd κ, s'.swdOnline = -1 → s'.swdTxnStatus = txnStatusFail →
      s'.reader = .closing → (s'.swdOnline = 1 → s'.reader = .reading 0) ∧
      ∀ t txn id data, s.calls t = .waiting txn id data → txn < s.txns →
        Slot s t txn id data → Slot s' t txn id data := by
    intro s' hon hst hreader
    refine ⟨?_, fun t txn id data _ _ _ => .failed hst hon hreader⟩
    intro hone
    rw [hon] at hone
    exact absurd hone (by decide)
  obtain ⟨honline, hslot⟩ := hoff { s with
    swdOnline := -1, swdTxnStatus := txnStatusFail, reader := .closing
    pending := if lost then [] else s.pending
    replies := if lost then [] else s.replies } rfl rfl rfl
  refine h.frame (by rfl) (by rfl) (by rfl) le_rfl ?_ ?_ ?_ honline hslot
  · cases lost with
    | true => exact List.nodup_nil
    | false => exact h.nodup
  · cases lost with
    | true => exact fun x hx => absurd hx (by simp [Swd.wire])
    | false => exact fun x hx => Or.inl hx
  · cases lost with
    | true => exact fun p hp => absurd hp (by simp)
    | false => exact h.async

theorem slotInv_step [DecidableEq κ] {s s' : Swd κ} {e : Event κ} (h : SlotInv s)
    (hgood : ¬ Overlaps s e ∧ ¬ ReusesId s e) (hstep : step s e = some s') : SlotInv s' := by
  cases step_takes hstep with
  | enter _ => exact h.enter hgood.1 hgood.2
  | wake hwaiting => exact h.wake hwaiting
  | usbOpen hopening =>
    have hon := h.not_online (by rw [hopening]; simp)
    have hclosing : s.reader ≠ .closing := by
      rw [hopening]
      simp
    refine h.same (by rfl) (by rfl) (by rfl) (by rfl) (by rfl) (by rfl)
      (fun hone => absurd hone hon) ?_
    intro t txn id data _ hslot
    exact hslot.of_not_online hon hclosing (by rfl) (fun x hx => Or.inl hx)
  | query hopened => exact h.query hopened _ _
  | answer hpending => exact h.answer hpending _
  | async => exact h.asynchronous _
  | read hreading hreplies hturn => exact h.readerTurn hreading hreplies hturn
  | readError _ => exact h.readError _
  | restart hclosing honline =>
    have hon := h.not_online (by rw [hclosing]; simp)
    refine h.same (by rfl) (by rfl) (by rfl) (by rfl) (by rfl) (by rfl)
      (fun hone => absurd hone hon) ?_
    intro t txn id data _ hslot
    cases hslot with
    | wait _ _ hon' => exact absurd hon' hon
    | failed _ hoff _ => exact absurd hoff honline
    | answered hst hdata hwire => exact .answered hst hdata hwire

/-! ### The debugger's threads -/

/-- Steps of the debugger in which calls of `q_exec` keep apart. -/
def KeepsApart (d : Debugger) : DbgEvent → Prop
  | .swd e => ¬ Overlaps d.swd e ∧ ¬ ReusesId d.swd e
  | _ => True

theorem dbgStep_swd {d d' : Debugger} {e : DbgEvent} (h : dbgStep d e = some d') :
    (d'.swd = d.swd ∧ ∀ e', e ≠ .swd e') ∨
      ∃ e', e = .swd e' ∧ d.mayCall e' = true ∧ step d.swd e' = some d'.swd ∧
        d'.dbgLock = d.dbgLock := by
  cases e with
  | lock t =>
    simp only [dbgStep] at h
    split_ifs at h
    obtain rfl := Option.some.inj h
    exact Or.inl ⟨rfl, by simp⟩
  | unlock t =>
    simp only [dbgStep] at h
    split_ifs at h
    obtain rfl := Option.some.inj h
    exact Or.inl ⟨rfl, by simp⟩
  | swd e =>
    simp only [dbgStep] at h
    split_ifs at h with hmay
    obtain ⟨s', hs, rfl⟩ := Option.map_eq_some_iff.mp h
    exact Or.inr ⟨e, rfl, hmay, hs, rfl⟩

/-- In every run of the debugger in which no `q_exec` sends, or acknowledges a disconnect,
while another call waits (nor reuses an id that is on the wire), every reply finds its call. -/
theorem replies_find_calls {es : List DbgEvent} {d : Debugger}
    (h : Run dbgStep KeepsApart dbgInit es d) : RepliesFindCalls d.swd := by
  have hinv : SlotInv d.swd := by
    apply h.invariant (fun d => SlotInv d.swd) _ slotInv_init
    intro u e u' hu hapart hstep
    rcases dbgStep_swd hstep with ⟨hsame, _⟩ | ⟨e', rfl, _, hswd, _⟩
    · rw [hsame]
      exact hu
    · exact slotInv_step hu hapart hswd
  exact hinv.finds

/-- A step changes one call at most, and only `q_exec` makes a thread wait. -/
theorem calls_step [DecidableEq κ] {s s' : Swd κ} {e : Event κ} (h : step s e = some s') :
    s'.calls = s.calls ∨ ∃ t c, s'.calls = Function.update s.calls t c ∧
      (c.isWaiting = true → (s.calls t).isWaiting = true ∨ ∃ stale ok, e = .enter t stale ok) := by
  cases step_takes h with
  | @enter t stale ok _ =>
    unfold qEnter
    dsimp only
    split_ifs
    · exact Or.inl rfl
    · exact Or.inl rfl
    · exact Or.inr ⟨t, _, rfl, fun _ => Or.inr ⟨stale, ok, rfl⟩⟩
    · exact Or.inl rfl
  | @wake t _ _ _ _ =>
    unfold qWake
    dsimp only
    split_ifs
    · exact Or.inl rfl
    all_goals exact Or.inr ⟨t, .idle, rfl, fun hw => absurd hw (by decide)⟩
  | read _ _ hturn =>
    cases hturn with
    | @replied t _ _ _ =>
      refine Or.inr ⟨t, _, rfl, ?_⟩
      intro hw
      left
      -- `memcpy` leaves a thread outside `q_exec` where it is
      cases hc : s.calls t with
      | idle => rw [hc] at hw; exact absurd hw (by simp [copyReply, CallState.isWaiting])
      | waiting txn id data => rfl
    | queried _ _ => exact Or.inl rfl
    | async _ => exact Or.inl rfl
    | unexpected _ => exact Or.inl rfl
  | query _ =>
    left
    split_ifs
    · rfl
    · rfl
  | usbOpen _ => exact Or.inl rfl
  | answer _ => exact Or.inl rfl
  | async => exact Or.inl rfl
  | readError _ => exact Or.inl rfl
  | restart _ _ => exact Or.inl rfl

/-- `q_exec` is only entered with the debugger lock held. -/
def CallsLocked (d : Debugger) : DbgEvent → Prop
  | .swd (.enter t stale ok) => d.dbgLock = some t ∧ ¬ ReusesId d.swd (.enter t stale ok)
  | _ => True

/-- The holder of the debugger lock is the only one in `q_exec`. -/
def HolderWaits (d : Debugger) : Prop :=
  ∀ t, (d.swd.calls t).isWaiting = true → d.dbgLock = some t

theorem holderWaits_step {d d' : Debugger} {e : DbgEvent} (h : HolderWaits d)
    (hlocked : CallsLocked d e) (hstep : dbgStep d e = some d') : HolderWaits d' := by
  cases e with
  | lock t =>
    simp only [dbgStep] at hstep
    split_ifs at hstep with hfree
    obtain rfl := Option.some.inj hstep
    intro t' hw
    have hholder := h t' hw
    rw [hfree.1] at hholder
    exact absurd hholder (by simp)
  | unlock t =>
    simp only [dbgStep] at hstep
    split_ifs at hstep with hheld
    obtain rfl := Option.some.inj hstep
    intro t' hw
    have hholder := h t' hw
    rw [hheld.1] at hholder
    have hidle : (d.swd.calls t').isWaiting = true := hw
    rw [← Option.some.inj hholder, hheld.2] at hidle
    exact absurd hidle (by simp [CallState.isWaiting])
  | swd e =>
    rcases dbgStep_swd hstep with ⟨_, hne⟩ | ⟨e', heq, _, hswd, hlock⟩
    · exact absurd rfl (hne e)
    · obtain rfl := DbgEvent.swd.inj heq
      intro t hw
      rw [hlock]
      rcases calls_step hswd with hsame | ⟨t', c, hcalls, hc⟩
      · rw [hsame] at hw
        exact h t hw
      · rw [hcalls] at hw
        by_cases ht : t = t'
        · subst ht
          rw [Function.update_self] at hw
          rcases hc hw with hwas | ⟨stale, ok, rfl⟩
          · exact h t hwas
          · exact hlocked.1
        · rw [Function.update_of_ne ht] at hw
          exact h t hw

/-- Calls made under the debugger lock keep apart: what takes the slot from a waiting call
is `parse_number`, which does not take the lock. -/
theorem locked_calls_keep_apart {es : List DbgEvent} {d : Debugger}
    (h : Run dbgStep CallsLocked dbgInit es d) : Run dbgStep KeepsApart dbgInit es d := by
  apply h.strengthen HolderWaits
  · intro u e u' hu hlocked hstep
    refine ⟨holderWaits_step hu hlocked hstep, ?_⟩
    cases e with
    | lock t => exact trivial
    | unlock t => exact trivial
    | swd e =>
      cases e with
      | enter t stale ok =>
        refine ⟨?_, hlocked.2⟩
        rintro ⟨_, t', hw⟩
        -- the one that waits would be the caller itself
        have hself : t' = t := Option.some.inj ((hu t' hw).symm.trans hlocked.1)
        rcases dbgStep_swd hstep with ⟨_, hne⟩ | ⟨e', heq, _, hswd, _⟩
        · exact hne _ rfl
        · obtain rfl := DbgEvent.swd.inj heq
          generalize u'.swd = s' at hswd
          cases step_takes hswd with
          | enter hidle =>
            rw [hself, hidle] at hw
            exact absurd hw (by decide)
      | _ => exact ⟨id, id⟩
  · intro t hw
    exact absurd hw (by simp [dbgInit, init, CallState.isWaiting])

instance (d : Debugger) (e : DbgEvent) : Decidable (KeepsApart d e) :=
  match e with
  | .lock _ => .isTrue trivial
  | .unlock _ => .isTrue trivial
  | .swd (.enter _ _ ok) =>
    inferInstanceAs (Decidable
      (¬ ((d.swd.swdOnline = -1 ∨ d.swd.swdOnline = 1 ∧ ok = true) ∧
          ∃ t, (d.swd.calls t).isWaiting = true) ∧
        ¬ (d.swd.swdOnline = 1 ∧ ok = true ∧
          ∃ x ∈ d.swd.wire, x.2 = rswdTxnStart d.swd.sequence)))
  | .swd (.wake _) => .isTrue ⟨id, id⟩
  | .swd .usbOpen => .isTrue ⟨id, id⟩
  | .swd (.query _) => .isTrue ⟨id, id⟩
  | .swd (.answer _ _) => .isTrue ⟨id, id⟩
  | .swd (.async _) => .isTrue ⟨id, id⟩
  | .swd .read => .isTrue ⟨id, id⟩
  | .swd (.readError _) => .isTrue ⟨id, id⟩
  | .swd .restart => .isTrue ⟨id, id⟩

/-- The device is found and its version asked for. -/
def connect : List DbgEvent :=
  [.swd .usbOpen, .swd (.query true), .swd (.answer 0 []), .swd .read]

/-- One call of the monitor. -/
theorem replies_find_calls_monitor :
    ∃ d, runEvents dbgStep KeepsApart (connect ++ [.lock .monitor, .swd (.enter .monitor [] true),
        .swd (.answer 0 [0x10000001]), .swd .read, .swd (.wake .monitor)]) dbgInit = some d ∧
      d.swd.processed = [(0xAA770002, [0xAA770002, 0x10000001])] ∧ RepliesFindCalls d.swd := by
  have hrun : ∃ d, runEvents dbgStep KeepsApart (connect ++ [.lock .monitor,
      .swd (.enter .monitor [] true), .swd (.answer 0 [0x10000001]), .swd .read,
      .swd (.wake .monitor)]) dbgInit = some d ∧
      d.swd.processed = [(0xAA770002, [0xAA770002, 0x10000001])] := ⟨_, rfl, rfl⟩
  obtain ⟨d, hd, hprocessed⟩ := hrun
  exact ⟨d, hd, hprocessed, replies_find_calls (run_of_runEvents hd)⟩

/-- The monitor has sent a transaction under the debugger lock, and the console, evaluating
an operand without the lock, sends one too. -/
def consoleCutsIn : List DbgEvent :=
  connect ++ [.lock .monitor, .swd (.enter .monitor [] true), .swd (.enter .console [] true),
    .swd (.answer 0 [1]), .swd .read]

/-- The reply of the monitor is reported as unexpected while the monitor waits for it, and
with the console's reply the monitor goes on to process a buffer nothing was put into. -/
theorem console_takes_slot :
    (∃ d, Run dbgStep (fun _ _ => True) dbgInit consoleCutsIn d ∧ ∃ p ∈ d.swd.unexpected,
      ∃ txn id data, d.swd.calls .monitor = .waiting txn id data ∧ p.txn = some txn) ∧
    ∃ d, Run dbgStep (fun _ _ => True) dbgInit
        (consoleCutsIn ++ [.swd (.answer 0 [2]), .swd .read, .swd (.wake .monitor)]) d ∧
      ∃ p ∈ d.swd.processed, p.2.head? ≠ some p.1 := by
  constructor
  · refine ⟨_, run_of_runEvents rfl, _, List.mem_singleton_self _, 1, 0xAA770002, [], rfl, rfl⟩
  · refine ⟨_, run_of_runEvents rfl, _, List.mem_singleton_self _, ?_⟩
    decide

end M3Dev.Threads
