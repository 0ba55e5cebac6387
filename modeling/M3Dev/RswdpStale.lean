import M3Dev.RswdpReply
import Mathlib.Data.List.Basic

/-! Which received transactions the host's readers take without looking past the
received words, where the buffer holds what earlier transactions left. -/
namespace M3Dev.Rswdp

/-- Contents of the buffer behind the transaction id and the received words `ws`. -/
def Behind (ws rest : List Word) : Prop := 1 + ws.length + rest.length = maxwords

theorem behind_replicate {ws : List Word} (h : 1 + ws.length ≤ maxwords) (w : Word) :
    Behind ws (List.replicate (maxwords - (1 + ws.length)) w) := by
  rw [Behind, List.length_replicate]
  omega

/-! ### process_reply -/

/-- Stale words make no difference to the stores and the result of `process_reply`. -/
def ReplyStable (verbose : Bool) (t : Txn) (ws : List Word) : Prop :=
  ∀ rest rest', Behind ws rest → Behind ws rest' → ∃ r r',
    processReply verbose t (ws ++ rest) ws.length = .ok r ∧
    processReply verbose t (ws ++ rest') ws.length = .ok r' ∧
    r.stores = r'.stores ∧ r.ret = r'.ret

/-- Every payload lies within the words, and once a payload word has been passed (its
words are counted as messages again) a message that ends the loop comes before the
words do. -/
def ReplyOk (rxc : ℕ) (paid : Bool) (ws : List Word) : Prop :=
  match ws with
  | [] => paid = false
  | msg :: ws =>
    let cmd := rswdMsgCmd msg
    let n := (rswdMsgArg msg).toNat
    if cmd = cmdNull then ReplyOk rxc paid ws
    else if cmd = cmdSwdData then
      n > rxc ∨ (n ≤ ws.length ∧ ReplyOk (rxc - n) (paid || n != 0) (ws.drop n))
    else if cmd = cmdStatus then True
    else if cmd = cmdClockKhz then ReplyOk rxc paid ws
    else True
termination_by ws.length
decreasing_by all_goals simp only [List.length_cons, List.length_drop]; omega

/-- Words are owed behind the message if there were some before, or it brings some. -/
theorem paid_add (extra n : ℕ) : (extra != 0 || n != 0) = (extra + n != 0) := by
  rw [Bool.eq_iff_iff]
  simp
  omega

theorem replyLoop_data (verbose : Bool) (count n : ℕ) (rx : List Ptr) (data : List Word)
    (hn : n ≤ rx.length) :
    (do
      let ss ← replyCopy n rx data
      let r ← replyLoop verbose count (rx.drop n) (data.drop n)
      return r.stored ss : Except Stop ReplyRun) =
    if n ≤ data.length then
      (replyLoop verbose count (rx.drop n) (data.drop n)).map
        (ReplyRun.stored ((rx.take n).zip (data.take n)))
    else .error .outOfBounds := by
  rw [replyCopy_eq n rx data hn]
  split_ifs
  · cases replyLoop verbose count (rx.drop n) (data.drop n) <;> rfl
  · rfl

/-- A reply in order is processed without a look at what follows it. -/
theorem replyLoop_of_ok (verbose : Bool) (ws : List Word) (rx : List Ptr) (extra : ℕ)
    (h : ReplyOk rx.length (extra != 0) ws) :
    ∃ r, ∀ rest, replyLoop verbose (ws.length + extra) rx (ws ++ rest) = .ok r := by
  induction hk : ws.length using Nat.strongRecOn generalizing ws rx extra with
  | ind k ih =>
    cases ws with
    | nil =>
      obtain rfl : k = 0 := hk.symm
      have h0 : extra = 0 := by simpa [ReplyOk] using h
      exact ⟨replyEnd 0, fun rest => by rw [h0]; rfl⟩
    | cons msg ws =>
      rw [List.length_cons] at hk
      have hcount : k + extra = ws.length + extra + 1 := by omega
      rw [hcount]
      rw [ReplyOk] at h
      simp only [List.cons_append, replyLoop]
      split_ifs at h ⊢ with h0 h1 hover
      · exact ih ws.length (by omega) ws rx extra h rfl
      · exact ⟨_, fun rest => rfl⟩
      · obtain ⟨hlen, hrest⟩ := h.resolve_left hover
        have hrx : (rx.drop (rswdMsgArg msg).toNat).length =
            rx.length - (rswdMsgArg msg).toNat := List.length_drop
        rw [paid_add, ← hrx] at hrest
        obtain ⟨r, hr⟩ := ih (ws.drop (rswdMsgArg msg).toNat).length
          (by rw [List.length_drop]; omega) (ws.drop (rswdMsgArg msg).toNat)
          (rx.drop (rswdMsgArg msg).toNat) (extra + (rswdMsgArg msg).toNat) hrest rfl
        have hleft : (ws.drop (rswdMsgArg msg).toNat).length + (extra + (rswdMsgArg msg).toNat) =
            ws.length + extra := by
          rw [List.length_drop]
          omega
        rw [hleft] at hr
        refine ⟨r.stored ((rx.take (rswdMsgArg msg).toNat).zip (ws.take (rswdMsgArg msg).toNat)),
          fun rest => ?_⟩
        rw [replyLoop_data _ _ _ _ _ (by omega), if_pos (by rw [List.length_append]; omega),
          List.drop_append_of_le_length hlen, List.take_append_of_le_length hlen, hr rest]
        rfl
      · exact ⟨_, fun rest => rfl⟩
      · exact ⟨_, fun rest => rfl⟩
      · exact ⟨_, fun rest => rfl⟩
      · obtain ⟨r, hr⟩ := ih ws.length (by omega) ws rx extra h rfl
        refine ⟨r.printed (.swdClock (rswdMsgArg msg).toNat), fun rest => ?_⟩
        rw [hr rest]
        rfl
      · exact ⟨_, fun rest => rfl⟩

/-- Two ways to fill the buffer: with good and with bad status words. -/
def good : Word := rswdMsg cmdStatus 0 0

def bad : Word := rswdMsg cmdStatus 3 0

theorem good_ne_bad : good ≠ bad := by decide

/-- A payload that runs on into the stale words shows them under its pointers. -/
theorem stale_payload_ne {rx : List Ptr} {ws : List Word} {n k : ℕ} (hlen : ws.length < n)
    (hrx : n ≤ rx.length) (hk : n ≤ (ws ++ List.replicate k good).length) :
    (rx.take n).zip ((ws ++ List.replicate k good).take n) ≠
      (rx.take n).zip ((ws ++ List.replicate k bad).take n) := by
  intro hzip
  rw [List.length_append, List.length_replicate] at hk
  have hk0 : 0 < k := by omega
  have htake := congrArg (List.map Prod.snd) hzip
  rw [List.map_snd_zip (by simp only [List.length_take, List.length_append,
      List.length_replicate]; omega),
    List.map_snd_zip (by simp only [List.length_take, List.length_append,
      List.length_replicate]; omega)] at htake
  -- the first stale word
  have hat := congrArg (fun l => l[ws.length]?) htake
  simp only [List.getElem?_take, hlen, ↓reduceIte, List.getElem?_append_right (Nat.le_refl _),
    Nat.sub_self, List.getElem?_replicate, hk0, Option.some.injEq] at hat
  exact good_ne_bad hat

/-- A reply not in order is processed differently with good and bad status words
behind it, if it is processed at all. -/
theorem replyLoop_of_not_ok (verbose : Bool) (k : ℕ) (ws : List Word) (rx : List Ptr) (extra : ℕ)
    (h : ¬ ReplyOk rx.length (extra != 0) ws) (r r' : ReplyRun)
    (hr : replyLoop verbose (ws.length + extra) rx (ws ++ List.replicate k good) = .ok r)
    (hr' : replyLoop verbose (ws.length + extra) rx (ws ++ List.replicate k bad) = .ok r') :
    r.stores ≠ r'.stores ∨ r.ret ≠ r'.ret := by
  -- a message takes its payload with it, so the induction is on the words left
  induction hk : ws.length using Nat.strongRecOn generalizing ws rx extra r r' with
  | ind m ih =>
    cases ws with
    | nil =>
      -- the next message is a stale word: a status, good in one run and bad in the other
      have h0 : extra ≠ 0 := by simpa [ReplyOk] using h
      obtain ⟨e, rfl⟩ : ∃ e, extra = e + 1 := ⟨extra - 1, by omega⟩
      cases k with
      | zero => exact absurd hr (by simp [replyLoop])
      | succ k =>
        right
        have hgood : r = replyEnd 0 := (Except.ok.inj hr).symm
        have hbad : r'.ret = -3 := by
          obtain rfl := Except.ok.inj hr'
          rfl
        rw [hgood, hbad]
        decide
    | cons msg ws =>
      rw [List.length_cons] at hk
      have hcount : (msg :: ws).length + extra = ws.length + extra + 1 := by
        rw [List.length_cons]
        omega
      rw [hcount] at hr hr'
      rw [ReplyOk] at h
      simp only [List.cons_append, replyLoop] at hr hr'
      split_ifs at h hr hr' with h0 h1 hover
      · exact ih ws.length (by omega) ws rx extra h r r' hr hr' rfl
      · exact absurd (Or.inl hover) h
      · rw [replyLoop_data _ _ _ _ _ (by omega)] at hr hr'
        split_ifs at hr hr' with hg hb
        obtain ⟨q, hq, rfl⟩ := map_eq_ok.mp hr
        obtain ⟨q', hq', rfl⟩ := map_eq_ok.mp hr'
        generalize hn : (rswdMsgArg msg).toNat = n at *
        by_cases hlen : n ≤ ws.length
        · -- the payload is the reply's own: what is wrong comes later
          have hrest : ¬ ReplyOk (rx.drop n).length (extra + n != 0) (ws.drop n) := by
            intro hok
            refine h (Or.inr ⟨hlen, ?_⟩)
            rw [paid_add, ← List.length_drop]
            exact hok
          rw [List.drop_append_of_le_length hlen] at hq hq'
          have hleft : ws.length + extra = (ws.drop n).length + (extra + n) := by
            rw [List.length_drop]
            omega
          rw [hleft] at hq hq'
          rcases ih (ws.drop n).length (by rw [List.length_drop]; omega) (ws.drop n) (rx.drop n)
            (extra + n) hrest q q' hq hq' rfl with hs | hret
          · left
            intro heq
            simp only [ReplyRun.stored, List.take_append_of_le_length hlen] at heq
            exact hs (List.append_cancel_left heq)
          · exact Or.inr hret
        · -- the payload is taken from the stale words
          left
          intro heq
          have hzip : (rx.take n).zip ((ws ++ List.replicate k good).take n) =
              (rx.take n).zip ((ws ++ List.replicate k bad).take n) := by
            refine (List.append_inj heq ?_).1
            simp only [List.length_zip, List.length_take, List.length_append,
              List.length_replicate]
          exact stale_payload_ne (by omega) (by omega) hg hzip
      · exact absurd trivial h
      · exact absurd trivial h
      · exact absurd trivial h
      · obtain ⟨q, hq, rfl⟩ := map_eq_ok.mp hr
        obtain ⟨q', hq', rfl⟩ := map_eq_ok.mp hr'
        exact ih ws.length (by omega) ws rx extra h q q' hq hq' rfl
      · exact absurd trivial h

theorem replyStable_iff (verbose : Bool) (t : Txn) (ws : List Word) (h : 1 + ws.length ≤ maxwords) :
    ReplyStable verbose t ws ↔ ReplyOk t.rx.length false ws := by
  constructor
  · intro hstable
    by_contra hnot
    obtain ⟨r, r', hr, hr', hs, hret⟩ := hstable _ _ (behind_replicate h good)
      (behind_replicate h bad)
    rcases replyLoop_of_not_ok verbose _ ws t.rx 0 hnot r r' hr hr' with hne | hne
    · exact hne hs
    · exact hne hret
  · intro hok rest rest' _ _
    obtain ⟨r, hr⟩ := replyLoop_of_ok verbose ws t.rx 0 hok
    exact ⟨r, r, hr rest, hr rest', rfl, rfl⟩

/-! ### process_query -/

/-- Stale words make no difference to the values `process_query` sets. -/
def QueryStable (ws : List Word) : Prop :=
  ∀ rest rest', Behind ws rest → Behind ws rest' → ∃ q q',
    processQuery (ws ++ rest) ws.length = .ok q ∧
    processQuery (ws ++ rest') ws.length = .ok q' ∧
    q.swdVersion = q'.swdVersion ∧ q.swdMaxwords = q'.swdMaxwords

/-- A recorded string has its NUL within the words. -/
def Ended (s : Option (List Word)) : Prop := ∀ ws, s = some ws → ∃ w ∈ ws, 0 ∈ wordBytes w

/-- Every string lies within the words, an unknown message or an overlong string
comes before the words end once a string word has been passed, and the strings
recorded last have their NULs. -/
def QueryOk (extra : ℕ) (board build : Option (List Word)) (ws : List Word) : Prop :=
  match ws with
  | [] => extra = 0 ∧ Ended board ∧ Ended build
  | msg :: ws =>
    let cmd := rswdMsgCmd msg
    let n := (rswdMsgArg msg).toNat
    if cmd = cmdNull then QueryOk extra board build ws
    else if cmd = cmdBuildStr then
      if n > ws.length + extra then Ended board ∧ Ended build
      else n ≤ ws.length ∧ QueryOk (extra + n) board (some ws) (ws.drop n)
    else if cmd = cmdBoardStr then
      if n > ws.length + extra then Ended board ∧ Ended build
      else n ≤ ws.length ∧ QueryOk (extra + n) (some ws) build (ws.drop n)
    else if cmd = cmdVersion then QueryOk extra board build ws
    else if cmd = cmdRxMaxdata then QueryOk extra board build ws
    else Ended board ∧ Ended build
termination_by ws.length
decreasing_by all_goals simp only [List.length_cons, List.length_drop]; omega

/-- The recorded strings run on into what the buffer holds behind the words. -/
def QueryState.grown (rest : List Word) (q : QueryState) : QueryState :=
  { q with board := q.board.map (fun s => s ++ rest), build := q.build.map (fun s => s ++ rest) }

theorem cString_of_nul (ws : List Word) (h : ∃ w ∈ ws, 0 ∈ wordBytes w) :
    ∃ s, ∀ rest, cString (ws ++ rest) = .ok s := by
  induction ws with
  | nil => exact absurd h (by simp)
  | cons w ws ih =>
    by_cases hw : 0 ∈ wordBytes w
    · exact ⟨_, fun rest => cString_ends (ws ++ rest) hw⟩
    · obtain ⟨w', hmem, hw'⟩ := h
      have hne : w' ≠ w := by
        rintro rfl
        exact hw hw'
      obtain ⟨s, hs⟩ := ih ⟨w', (List.mem_cons.mp hmem).resolve_left hne, hw'⟩
      exact ⟨_, fun rest => by rw [List.cons_append, cString_goes_on _ hw, hs]; rfl⟩

theorem cString_of_no_nul (ws : List Word) (h : ∀ w ∈ ws, 0 ∉ wordBytes w) :
    cString ws = .error .outOfBounds := by
  induction ws with
  | nil => rfl
  | cons w ws ih =>
    rw [cString_goes_on _ (h w (by simp)), ih (fun w' hw' => h w' (by simp [hw']))]
    rfl

theorem queryDone_ok {q : QueryState} {r : QueryRun} (h : queryDone q = .ok r) :
    r.swdVersion = q.version ∧ (∃ s, idString q.board = .ok s) ∧ ∃ s, idString q.build = .ok s := by
  obtain ⟨board, hboard, h1⟩ := bind_eq_ok.mp h
  obtain ⟨build, hbuild, h2⟩ := bind_eq_ok.mp h1
  obtain rfl := Except.ok.inj h2
  exact ⟨rfl, ⟨board, hboard⟩, build, hbuild⟩

theorem idString_grown {s : Option (List Word)} (h : Ended s) :
    ∃ str, ∀ rest, idString (s.map (fun s => s ++ rest)) = .ok str := by
  cases s with
  | none => exact ⟨_, fun _ => rfl⟩
  | some ws => exact cString_of_nul ws (h ws rfl)

/-- A query answer in order is read without a look at what follows it. -/
theorem queryLoop_of_ok (ws : List Word) (q : QueryState) (extra : ℕ)
    (h : QueryOk extra q.board q.build ws) :
    ∃ q' : QueryState, Ended q'.board ∧ Ended q'.build ∧ ∀ rest,
      queryLoop (ws.length + extra) (ws ++ rest) (q.grown rest) = .ok (q'.grown rest) := by
  induction hk : ws.length using Nat.strongRecOn generalizing ws q extra with
  | ind k ih =>
    cases ws with
    | nil =>
      rw [QueryOk] at h
      obtain rfl : k = 0 := hk.symm
      exact ⟨q, h.2.1, h.2.2, fun rest => by rw [h.1]; rfl⟩
    | cons msg ws =>
      rw [List.length_cons] at hk
      have hcount : k + extra = ws.length + extra + 1 := by omega
      rw [hcount]
      rw [QueryOk] at h
      simp only [List.cons_append, queryLoop]
      -- a string is recorded and stepped over
      have hstr : ∀ (n : ℕ) (q' : QueryState), n ≤ ws.length →
          QueryOk (extra + n) q'.board q'.build (ws.drop n) →
          ∃ q'' : QueryState, Ended q''.board ∧ Ended q''.build ∧ ∀ rest,
            queryLoop (ws.length + extra) ((ws ++ rest).drop n) (q'.grown rest) =
              .ok (q''.grown rest) := by
        intro n q' hn hq'
        obtain ⟨q'', hb, hd, hrun⟩ := ih (ws.drop n).length (by rw [List.length_drop]; omega)
          (ws.drop n) q' (extra + n) hq' rfl
        have hleft : (ws.drop n).length + (extra + n) = ws.length + extra := by
          rw [List.length_drop]
          omega
        refine ⟨q'', hb, hd, fun rest => ?_⟩
        rw [List.drop_append_of_le_length hn, ← hleft, hrun rest]
      split_ifs at h ⊢ with h0 h1 hover h2 hover2 h3 h4
      · exact ih ws.length (by omega) ws q extra h rfl
      · exact ⟨q, h.1, h.2, fun rest => rfl⟩
      · exact hstr _ { q with build := some ws } h.1 h.2
      · exact ⟨q, h.1, h.2, fun rest => rfl⟩
      · exact hstr _ { q with board := some ws } h.1 h.2
      · exact ih ws.length (by omega) ws { q with version := (rswdMsgArg msg).toNat } extra h rfl
      · exact ih ws.length (by omega) ws { q with maxdata := (rswdMsgArg msg).toNat } extra h rfl
      · exact ⟨q, h.1, h.2, fun rest => rfl⟩

/-- A stale word that announces version `v`; it holds no NUL if `v` does not. -/
def staleVersion (v : Word) : Word := rswdMsg cmdVersion 1 v

theorem staleVersion_arg (v : Word) : (rswdMsgArg (staleVersion v)).toNat = v.toNat % 65536 := by
  rw [staleVersion, rswdMsgArg_rswdMsg, toNat_and_ffff]

theorem queryLoop_staleVersion (v : Word) (count k : ℕ) (q r : QueryState)
    (h : queryLoop count (List.replicate k (staleVersion v)) q = .ok r) (hc : 0 < count) :
    r.version = v.toNat % 65536 := by
  induction count generalizing k q with
  | zero => exact absurd hc (by omega)
  | succ count ih =>
    cases k with
    | zero => exact absurd h (by simp [queryLoop])
    | succ k =>
      have hcmd : rswdMsgCmd (staleVersion v) = cmdVersion := by
        rw [staleVersion, rswdMsgCmd_rswdMsg]
        decide
      rw [List.replicate_succ, queryLoop, hcmd, staleVersion_arg] at h
      have hstep : queryLoop count (List.replicate k (staleVersion v))
          { q with version := v.toNat % 65536 } = .ok r := h
      by_cases h0 : count = 0
      · rw [h0] at hstep
        obtain rfl := Except.ok.inj hstep
        rfl
      · exact ih k _ hstep (by omega)

/-- A string without NUL in the words runs on through stale words without NUL to the
end of the buffer. -/
theorem ended_of_idString {w : Word} (hw : 0 ∉ wordBytes w) (k : ℕ) {s : Option (List Word)}
    {str : List Byte} (h : idString (s.map (fun s => s ++ List.replicate k w)) = .ok str) :
    Ended s := by
  rintro ws rfl
  by_contra hno
  have hall : ∀ w' ∈ ws ++ List.replicate k w, 0 ∉ wordBytes w' := by
    intro w' hmem hz
    rcases List.mem_append.mp hmem with hws | hrep
    · exact hno ⟨w', hws, hz⟩
    · rw [List.eq_of_mem_replicate hrep] at hz
      exact hw hz
  rw [Option.map_some, idString, cString_of_no_nul _ hall] at h
  exact absurd h (by simp)

/-- The version a query answer not in order sets is the one stale words announce, if
it is read at all. -/
theorem queryLoop_of_not_ok (v : Word) (hv : 0 ∉ wordBytes (staleVersion v)) (k : ℕ)
    (ws : List Word) (q : QueryState) (extra : ℕ) (h : ¬ QueryOk extra q.board q.build ws)
    (q' : QueryState) (r : QueryRun)
    (hq : queryLoop (ws.length + extra) (ws ++ List.replicate k (staleVersion v))
      (q.grown (List.replicate k (staleVersion v))) = .ok q') (hr : queryDone q' = .ok r) :
    r.swdVersion = v.toNat % 65536 := by
  obtain ⟨hver, ⟨board, hboard⟩, build, hbuild⟩ := queryDone_ok hr
  -- where the loop stops, the strings are what keeps the answer from being in order
  have hdone : ∀ q : QueryState, q' = q.grown (List.replicate k (staleVersion v)) →
      Ended q.board ∧ Ended q.build := by
    rintro q rfl
    exact ⟨ended_of_idString hv k hboard, ended_of_idString hv k hbuild⟩
  induction hk : ws.length using Nat.strongRecOn generalizing ws q extra with
  | ind m ih =>
    cases ws with
    | nil =>
      rw [QueryOk] at h
      rw [List.length_nil, Nat.zero_add, List.nil_append] at hq
      by_cases h0 : extra = 0
      · rw [h0] at hq
        exact absurd ⟨h0, hdone q (Except.ok.inj hq).symm⟩ h
      · rw [hver, queryLoop_staleVersion v extra k _ q' hq (by omega)]
    | cons msg ws =>
      rw [List.length_cons] at hk
      have hcount : (msg :: ws).length + extra = ws.length + extra + 1 := by
        rw [List.length_cons]
        omega
      rw [hcount] at hq
      rw [QueryOk] at h
      simp only [List.cons_append, queryLoop] at hq
      have hstr : ∀ (n : ℕ) (p : QueryState), ¬ n > ws.length + extra →
          ¬ (n ≤ ws.length ∧ QueryOk (extra + n) p.board p.build (ws.drop n)) →
          queryLoop (ws.length + extra) ((ws ++ List.replicate k (staleVersion v)).drop n)
            (p.grown (List.replicate k (staleVersion v))) = .ok q' →
          r.swdVersion = v.toNat % 65536 := by
        intro n p hover hnot hp
        by_cases hn : n ≤ ws.length
        · rw [List.drop_append_of_le_length hn] at hp
          have hleft : ws.length + extra = (ws.drop n).length + (extra + n) := by
            rw [List.length_drop]
            omega
          rw [hleft] at hp
          exact ih (ws.drop n).length (by rw [List.length_drop]; omega) (ws.drop n) p (extra + n)
            (fun hok => hnot ⟨hn, hok⟩) hp rfl
        · rw [List.drop_append, List.drop_eq_nil_of_le (by omega), List.nil_append,
            List.drop_replicate] at hp
          rw [hver, queryLoop_staleVersion v _ _ _ q' hp (by omega)]
      split_ifs at h hq with h0 h1 hover h2 hover2 h3 h4
      · exact ih ws.length (by omega) ws q extra h hq rfl
      · exact absurd (hdone q (Except.ok.inj hq).symm) h
      · exact hstr _ { q with build := some ws } hover h hq
      · exact absurd (hdone q (Except.ok.inj hq).symm) h
      · exact hstr _ { q with board := some ws } hover2 h hq
      · exact ih ws.length (by omega) ws { q with version := (rswdMsgArg msg).toNat } extra h hq rfl
      · exact ih ws.length (by omega) ws { q with maxdata := (rswdMsgArg msg).toNat } extra h hq rfl
      · exact absurd (hdone q (Except.ok.inj hq).symm) h

theorem queryStable_iff (ws : List Word) (h : 1 + ws.length ≤ maxwords) :
    QueryStable ws ↔ QueryOk 0 none none ws := by
  constructor
  · intro hstable
    by_contra hnot
    obtain ⟨r, r', hr, hr', hver, _⟩ := hstable _ _ (behind_replicate h (staleVersion 0x0101))
      (behind_replicate h (staleVersion 0x0202))
    obtain ⟨q, hq, hd⟩ := bind_eq_ok.mp hr
    obtain ⟨q', hq', hd'⟩ := bind_eq_ok.mp hr'
    have h1 := queryLoop_of_not_ok 0x0101 (by decide) _ ws queryInit 0 hnot q r hq hd
    have h2 := queryLoop_of_not_ok 0x0202 (by decide) _ ws queryInit 0 hnot q' r' hq' hd'
    rw [h1, h2] at hver
    exact absurd hver (by decide)
  · intro hok rest rest' _ _
    obtain ⟨q, hboard, hbuild, hrun⟩ := queryLoop_of_ok ws queryInit 0 hok
    obtain ⟨board, hb⟩ := idString_grown hboard
    obtain ⟨build, hd⟩ := idString_grown hbuild
    let maxdata := if q.maxdata > maxwords * 4 then maxwords * 4 else q.maxdata
    let r : QueryRun := { boardId := board, buildId := build, swdVersion := q.version,
                          maxdata := maxdata, swdMaxwords := maxdata / 4 }
    have hdone : ∀ rest, processQuery (ws ++ rest) ws.length = .ok r := by
      intro rest
      have hloop : queryLoop ws.length (ws ++ rest) queryInit = .ok (q.grown rest) := hrun rest
      simp only [processQuery, hloop, bind, Except.bind, queryDone, QueryState.grown, hb, hd]
      rfl
    exact ⟨r, r, hdone rest, hdone rest', rfl, rfl⟩

/-! ### process_async -/

/-- Stale words make no difference to what `process_async` puts out. -/
def AsyncStable (ws : List Word) : Prop :=
  ∀ rest rest', Behind ws rest → Behind ws rest' → ∃ es,
    processAsync (ws ++ rest) ws.length = .ok es ∧ processAsync (ws ++ rest') ws.length = .ok es

/-- A debug message that is reached ends exactly where the words do. -/
def PrintsToEnd (ws : List Word) : Prop :=
  match ws with
  | [] => False
  | msg :: ws =>
    let cmd := rswdMsgCmd msg
    let n := (rswdMsgArg msg).toNat
    if cmd = cmdNull then PrintsToEnd ws
    else if cmd = cmdDebugPrint then n = ws.length ∨ (n < ws.length ∧ PrintsToEnd (ws.drop n))
    else False
termination_by ws.length
decreasing_by all_goals simp only [List.length_cons, List.length_drop]; omega

/-- With a word behind the received ones for the terminating zero, or without the need
for it, the output depends on the received words alone. -/
theorem processAsync_words (ws : List Word) :
    ∃ es, ∀ rest, rest ≠ [] ∨ ¬ PrintsToEnd ws → processAsync (ws ++ rest) ws.length = .ok es := by
  induction hk : ws.length using Nat.strongRecOn generalizing ws with
  | ind k ih =>
    cases ws with
    | nil =>
      obtain rfl : k = 0 := hk.symm
      exact ⟨[], fun rest _ => by rw [processAsync]⟩
    | cons msg ws =>
      obtain rfl : k = ws.length + 1 := by rw [← hk, List.length_cons]
      by_cases h0 : rswdMsgCmd msg = cmdNull
      · obtain ⟨es, hes⟩ := ih ws.length (Nat.lt_succ_self _) ws rfl
        refine ⟨es, fun rest hrest => ?_⟩
        rw [PrintsToEnd, if_pos h0] at hrest
        rw [List.cons_append, processAsync_null h0, hes rest hrest]
      by_cases h1 : rswdMsgCmd msg = cmdDebugPrint
      · by_cases hover : (rswdMsgArg msg).toNat > ws.length
        · exact ⟨[], fun rest _ => by rw [List.cons_append, processAsync_cut (Or.inl h1) hover]⟩
        generalize hn : (rswdMsgArg msg).toNat = n at *
        obtain ⟨es, hes⟩ := ih (ws.drop n).length (by rw [List.length_drop]; omega) (ws.drop n) rfl
        refine ⟨.print (printedLine (text ((ws.take n).flatMap wordBytes))) :: es, fun rest hrest => ?_⟩
        rw [PrintsToEnd, if_neg h0, if_pos h1, hn] at hrest
        -- a string up to the end of the words needs one more word for its NUL
        have hroom : n < (ws ++ rest).length ∧ (rest ≠ [] ∨ ¬ PrintsToEnd (ws.drop n)) := by
          rw [List.length_append]
          by_cases hr : rest = []
          · have hnot := hrest.resolve_left (fun hne => hne hr)
            have hlt : n < ws.length := by
              by_contra hge
              exact hnot (Or.inl (by omega))
            exact ⟨by omega, Or.inr (fun hp => hnot (Or.inr ⟨hlt, hp⟩))⟩
          · have hpos := List.length_pos_of_ne_nil hr
            exact ⟨by omega, Or.inl hr⟩
        have hsub : ws.length - n = (ws.drop n).length := List.length_drop.symm
        rw [List.cons_append, processAsync_print h1 (by omega), hn, if_pos hroom.1,
          List.drop_append_of_le_length (by omega), List.take_append_of_le_length (by omega),
          hsub, hes rest hroom.2]
        rfl
      by_cases h2 : rswdMsgCmd msg = cmdSwoData
      · by_cases hover : (rswdMsgArg msg).toNat > ws.length
        · exact ⟨[], fun rest _ => by rw [List.cons_append, processAsync_cut (Or.inr h2) hover]⟩
        refine ⟨[.swo ((ws.take (rswdMsgArg msg).toNat).flatMap wordBytes)], fun rest _ => ?_⟩
        rw [List.cons_append, processAsync_swo h2 (by omega),
          if_pos (by rw [List.length_append]; omega),
          List.take_append_of_le_length (by omega)]
      · refine ⟨[], fun rest _ => ?_⟩
        rw [List.cons_append, processAsync]
        simp only [h0, h1, h2, ↓reduceIte]

theorem processAsync_prints_to_end (ws : List Word) (h : PrintsToEnd ws) (es : List AsyncEvent) :
    processAsync ws ws.length ≠ .ok es := by
  induction hk : ws.length using Nat.strongRecOn generalizing ws es with
  | ind k ih =>
    cases ws with
    | nil => exact absurd h (by simp [PrintsToEnd])
    | cons msg ws =>
      obtain rfl : k = ws.length + 1 := by rw [← hk, List.length_cons]
      rw [PrintsToEnd] at h
      split_ifs at h with h0 h1
      · rw [processAsync_null h0]
        exact ih ws.length (Nat.lt_succ_self _) ws h es rfl
      · generalize hn : (rswdMsgArg msg).toNat = n at *
        rw [processAsync_print h1 (by omega), hn]
        rcases h with hend | ⟨hlt, hrest⟩
        · rw [if_neg (by omega)]
          simp
        · rw [if_pos hlt]
          intro hok
          obtain ⟨es', hes', _⟩ := map_eq_ok.mp hok
          rw [← List.length_drop] at hes'
          exact ih (ws.drop n).length (by rw [List.length_drop]; omega) (ws.drop n) hrest es' rfl
            hes'

theorem asyncStable_iff (ws : List Word) :
    AsyncStable ws ↔ (1 + ws.length = maxwords → ¬ PrintsToEnd ws) := by
  constructor
  · intro hstable hfull hprints
    have hbehind : Behind ws [] := by
      rw [Behind, List.length_nil]
      omega
    obtain ⟨es, hes, _⟩ := hstable [] [] hbehind hbehind
    rw [List.append_nil] at hes
    exact processAsync_prints_to_end ws hprints es hes
  · intro hok rest rest' hrest hrest'
    obtain ⟨es, hes⟩ := processAsync_words ws
    have hroom : ∀ rest, Behind ws rest → rest ≠ [] ∨ ¬ PrintsToEnd ws := by
      intro rest hb
      by_cases hr : rest = []
      · rw [Behind, hr, List.length_nil] at hb
        exact Or.inr (hok (by omega))
      · exact Or.inl hr
    exact ⟨es, hes rest (hroom rest hrest), hes rest' (hroom rest' hrest')⟩

/-! ### The three readers -/

/-- The condition for `process_query` on a whole answer. -/
abbrev QueryInOrder (ws : List Word) : Prop := QueryOk 0 none none ws

/-- The condition for `process_reply` on a whole reply with `rxc` pointers queued. -/
abbrev ReplyInOrder (rxc : ℕ) (ws : List Word) : Prop := ReplyOk rxc false ws

/-- Exactly when each reader keeps to the received words: a reply and a query answer
when their messages are in order, an asynchronous transaction unless a debug message
ends at the very end of the buffer. -/
theorem readers_stable_iff (ws : List Word) (h : 1 + ws.length ≤ maxwords) :
    (∀ (verbose : Bool) (t : Txn), ReplyStable verbose t ws ↔ ReplyInOrder t.rxc ws) ∧
    (QueryStable ws ↔ QueryInOrder ws) ∧
    (AsyncStable ws ↔ (1 + ws.length = maxwords → ¬ PrintsToEnd ws)) := by
  refine ⟨?_, queryStable_iff ws h, asyncStable_iff ws⟩
  intro verbose t
  exact replyStable_iff verbose t ws h

/-- A reply whose status is missing. -/
def replyWithoutStatus : List Word := [rswdMsg cmdSwdData 0 1, 0xAB]

theorem stale_status_believed :
    ¬ ReplyStable false { qInit with rx := [0] } replyWithoutStatus := by
  intro hstable
  have hbehind : ∀ w, Behind replyWithoutStatus (List.replicate 2045 w) := by
    intro w
    rw [Behind, List.length_replicate]
    decide
  obtain ⟨r, r', hr, hr', _, hret⟩ := hstable _ _ (hbehind good) (hbehind bad)
  have hgood : processReply false { qInit with rx := [0] }
      (replyWithoutStatus ++ List.replicate 2045 good) 2 =
      .ok { stores := [(0, 0xAB)], swdError := none, prints := [], ret := 0 } := rfl
  have hbad : processReply false { qInit with rx := [0] }
      (replyWithoutStatus ++ List.replicate 2045 bad) 2 =
      .ok { stores := [(0, 0xAB)], swdError := some (-3), prints := [], ret := -3 } := rfl
  obtain rfl := Except.ok.inj (hgood.symm.trans hr)
  obtain rfl := Except.ok.inj (hbad.symm.trans hr')
  exact absurd hret (by decide)

theorem readers_stable_status :
    ReplyStable false { qInit with rx := [0] } [rswdMsg cmdSwdData 0 1, 0xAB, good] := by
  have h := readers_stable_iff [rswdMsg cmdSwdData 0 1, 0xAB, good] (by decide)
  refine (h.1 false { qInit with rx := [0] }).mpr ?_
  simp [ReplyOk, Txn.rxc, good]

end M3Dev.Rswdp
