import M3Dev.RswdpPlain

/-! Single-word accesses queued into one transaction: `q_init`'s caches leave out writes of
`SELECT` and `TAR`, and the target must not notice. -/
namespace M3Dev.Rswdp

/-- A call of `q_ahb_read` or `q_ahb_write`. -/
inductive AhbCall where
  | read (addr : Word) (value : Ptr)
  | write (addr value : Word)
  deriving DecidableEq, Repr

namespace AhbCall

def addr : AhbCall → Word
  | read addr _ => addr
  | write addr _ => addr

def queue : AhbCall → QueueCall
  | read addr value => .ahbRead addr value
  | write addr value => .ahbWrite addr value

/-- The pointers it queues. -/
def ptrs : AhbCall → List Ptr
  | read _ value => [value]
  | write _ _ => []

/-- The access on its own: `SELECT` and `TAR` are written, and a read fetches its result. -/
def acts : AhbCall → List Act
  | read addr _ => [.write wrSelect 0, .write wrAp1 addr, .read rdAp3, .read rdBuffer]
  | write addr value => [.write wrSelect 0, .write wrAp1 addr, .write wrAp3 value]

/-- The target after the access, and what it delivers. -/
def alone (c : AhbCall) (m : MemAp) : MemAp × List (Ptr × Word) :=
  let r := memAp.acts c.acts m
  (r.target, c.ptrs.map fun p => (p, r.values.getLastD 0))

end AhbCall

/-- One access after the other. -/
def aloneAll : List AhbCall → MemAp → MemAp × List (Ptr × Word)
  | [], m => (m, [])
  | c :: cs, m =>
    let r := aloneAll cs (c.alone m).1
    (r.1, (c.alone m).2 ++ r.2)

/-- 32-bit accesses without increment, as `swdp_reset` configures them. -/
def Still (csw : Word) : Prop := csw &&& 0x37 = ahbCsw32bit

theorem bump_still {m : MemAp} (h : Still m.csw) : m.bump = m := by
  have hinc : m.csw &&& 0x30 ≠ ahbCswIncSingle := by
    intro he
    have hbits : (m.csw &&& 0x37) &&& 0x30 = m.csw &&& 0x30 := by
      rw [BitVec.and_assoc]
      rfl
    rw [h, he] at hbits
    exact absurd hbits (by decide)
  rw [MemAp.bump, if_neg hinc]

/-! ### What is queued -/

/-- `TAR` is written if it is not the cached one. -/
def tarMsgs (t : Txn) (addr : Word) : List Msg :=
  if t.cacheAhbtar ≠ addr then [.swdWrite (opWr ||| (opAp ||| (ahbTar &&& 0xC))) [addr]] else []

/-- What a call asks of `DRW`. -/
def AhbCall.drwMsgs : AhbCall → List Msg
  | read _ _ =>
    [.swdDiscard (opRd ||| (opAp ||| (ahbDrw &&& 0xC))) 1, .swdRead (opRd ||| dpBuffer) 1]
  | write _ value => [.swdWrite (opWr ||| (opAp ||| (ahbDrw &&& 0xC))) [value]]

theorem selectWords_bank {addr : Word} (hbank : addr &&& 0xF0 = 0) (t : Txn) :
    selectWords t addr = selectWords t ahbTar := by
  have htar : (ahbTar &&& 0xF0 : Word) = 0 := by decide
  rw [selectWords, selectWords, hbank, htar]

theorem qApWrite_msgs {t t' : Txn} {ms : List Msg} {addr value : Word} (hbank : addr &&& 0xF0 = 0)
    (h : t.Holds ms) (hrun : qApWrite t addr value = .ok t') :
    t'.Holds (ms ++ selectMsgs t ++ [.swdWrite (opWr ||| (opAp ||| (addr &&& 0xC))) [value]]) ∧
      t'.rx = t.rx ∧ t'.cacheApaddr = 0 ∧ t'.cacheAhbtar = t.cacheAhbtar := by
  rw [qApWrite_of_room (qApWrite_ok hrun)] at hrun
  obtain rfl := Except.ok.inj hrun
  refine ⟨?_, rfl, hbank, rfl⟩
  have hw := h.selectMsgs.write (swdWr_encoded (ap_op_lt addr) [value] (by simp)) trivial rfl
  rw [selectWords_bank hbank, ← List.append_assoc]
  exact hw.cache _ _

theorem qApRead_msgs {t t' : Txn} {ms : List Msg} {addr : Word} {value : Ptr}
    (hbank : addr &&& 0xF0 = 0) (h : t.Holds ms) (hrun : qApRead t addr value = .ok t') :
    t'.Holds (ms ++ selectMsgs t ++ [.swdDiscard (opRd ||| (opAp ||| (addr &&& 0xC))) 1,
        .swdRead (opRd ||| dpBuffer) 1]) ∧
      t'.rx = t.rx ++ [value] ∧ t'.cacheApaddr = 0 ∧ t'.cacheAhbtar = t.cacheAhbtar := by
  obtain ⟨hroom, hrx⟩ := qApRead_ok hrun
  rw [qApRead_of_room hroom hrx] at hrun
  obtain rfl := Except.ok.inj hrun
  refine ⟨?_, rfl, hbank, rfl⟩
  have hone : 1 < 65536 := by decide
  have hptr : [value].length = Msg.readWords (.swdRead (opRd ||| dpBuffer) 1) := rfl
  have hx := h.selectMsgs.write (swdRx_encoded (ap_op_lt addr) hone) trivial rfl
  have hr := hx.push (swdRd_encoded (a := dpBuffer) (by decide) hone) hone hptr
  simp only [selectWords_bank hbank, List.append_assoc, List.cons_append, List.nil_append] at hr ⊢
  exact hr.cache _ _

/-- `TAR` is queued behind the `SELECT` it needs; a call that finds it cached leaves the
`SELECT` to the access. -/
theorem qAhbTar_msgs {t t' : Txn} {ms : List Msg} {addr : Word} (h : t.Holds ms)
    (hrun : qAhbTar t addr = .ok t') :
    ∃ ms', t'.Holds ms' ∧ ms' ++ selectMsgs t' = ms ++ (selectMsgs t ++ tarMsgs t addr) ∧
      t'.rx = t.rx ∧ t'.cacheAhbtar = addr := by
  unfold qAhbTar at hrun
  unfold tarMsgs
  split_ifs at hrun ⊢ with hne
  · obtain ⟨u, hu, hcache⟩ := bind_eq_ok.mp hrun
    obtain rfl := Except.ok.inj hcache
    have hbank : (ahbTar &&& 0xF0 : Word) = 0 := by decide
    obtain ⟨hholds, hrx, happ, _⟩ := qApWrite_msgs hbank h hu
    have hsel : selectMsgs { u with cacheAhbtar := addr } = [] := if_neg (not_not.mpr happ)
    refine ⟨_, hholds.cache u.cacheApaddr addr, ?_, hrx, rfl⟩
    rw [hsel, List.append_nil, List.append_assoc]
  · obtain rfl := Except.ok.inj hrun
    refine ⟨ms, h, ?_, rfl, not_not.mp hne⟩
    rw [List.append_nil]

/-- A call queues `SELECT` and `TAR` where the caches ask for it, and its access. -/
theorem AhbCall.run_msgs {t t' : Txn} {ms : List Msg} (c : AhbCall) (h : t.Holds ms)
    (hrun : c.queue.run t = .ok t') :
    t'.Holds (ms ++ (selectMsgs t ++ tarMsgs t c.addr ++ c.drwMsgs)) ∧ t'.rx = t.rx ++ c.ptrs ∧
      t'.cacheAhbtar = c.addr := by
  have hbank : (ahbDrw &&& 0xF0 : Word) = 0 := by decide
  cases c with
  | read addr value =>
    have hread : qAhbRead t addr value = .ok t' := hrun
    rw [qAhbRead_eq] at hread
    obtain ⟨u, hu, hdrw⟩ := bind_eq_ok.mp hread
    obtain ⟨ms', hholds, hsel, hrx, htar⟩ := qAhbTar_msgs h hu
    obtain ⟨hholds', hrx', _, htar'⟩ := qApRead_msgs hbank hholds hdrw
    rw [hsel, List.append_assoc] at hholds'
    exact ⟨hholds', by rw [hrx', hrx]; rfl, htar'.trans htar⟩
  | write addr value =>
    have hwrite : qAhbWrite t addr value = .ok t' := hrun
    rw [qAhbWrite_eq] at hwrite
    obtain ⟨u, hu, hdrw⟩ := bind_eq_ok.mp hwrite
    obtain ⟨ms', hholds, hsel, hrx, htar⟩ := qAhbTar_msgs h hu
    obtain ⟨hholds', hrx', _, htar'⟩ := qApWrite_msgs hbank hholds hdrw
    rw [hsel, List.append_assoc] at hholds'
    exact ⟨hholds', by rw [hrx', hrx, AhbCall.ptrs, List.append_nil], htar'.trans htar⟩

/-! ### What it does to the target -/

/-- The access itself, at the address `TAR` holds. -/
def AhbCall.access (m : MemAp) : AhbCall → MemAp
  | read _ _ => { m with rdbuff := m.mem m.tar, log := m.log ++ [.read m.tar] }
  | write _ value => { m with
      mem := Function.update m.mem m.tar value, log := m.log ++ [.write m.tar value] }

/-- The words a call fetches. -/
def AhbCall.words (m : MemAp) (c : AhbCall) : List Word := c.ptrs.map fun _ => m.mem m.tar

theorem AhbCall.words_length (c : AhbCall) (m : MemAp) : c.ptrs.length = (c.words m).length := by
  rw [AhbCall.words, List.length_map]

@[simp] theorem AhbCall.access_select (c : AhbCall) (m : MemAp) : (c.access m).select = m.select := by
  cases c <;> rfl

@[simp] theorem AhbCall.access_csw (c : AhbCall) (m : MemAp) : (c.access m).csw = m.csw := by
  cases c <;> rfl

@[simp] theorem AhbCall.access_tar (c : AhbCall) (m : MemAp) : (c.access m).tar = m.tar := by
  cases c <;> rfl

/-- Messages that take the target from `m` to `m'` and bring the words `ws`. -/
def HasEffect (ms : List Msg) (m m' : MemAp) (ws : List Word) : Prop :=
  ∃ vs, memAp.acts (ms.flatMap Msg.acts) m = ⟨m', vs, true⟩ ∧ readsOf ms vs = ws

theorem readsOf_append (ms ms' : List Msg) {vs : List Word}
    (hlen : vs.length = (ms.flatMap Msg.acts).length) (vs' : List Word) :
    readsOf (ms ++ ms') (vs ++ vs') = readsOf ms vs ++ readsOf ms' vs' := by
  induction ms generalizing vs with
  | nil =>
    have hnil : vs = [] := List.eq_nil_of_length_eq_zero hlen
    rw [hnil]
    rfl
  | cons m ms ih =>
    rw [List.flatMap_cons, List.length_append] at hlen
    have hacts : m.acts.length ≤ vs.length := by omega
    have hrest : (vs.drop m.acts.length).length = (ms.flatMap Msg.acts).length := by
      rw [List.length_drop]
      omega
    rw [List.cons_append, readsOf, readsOf, List.drop_append_of_le_length hacts, ih hrest,
      List.take_append_of_le_length ((readWords_le_acts m).trans hacts), List.append_assoc]

theorem HasEffect.append {ms ms' : List Msg} {m m' m'' : MemAp} {ws ws' : List Word}
    (h : HasEffect ms m m' ws) (h' : HasEffect ms' m' m'' ws') :
    HasEffect (ms ++ ms') m m'' (ws ++ ws') := by
  obtain ⟨vs, hacts, hreads⟩ := h
  obtain ⟨vs', hacts', hreads'⟩ := h'
  have hlen : vs.length = (ms.flatMap Msg.acts).length := by
    have hall := acts_ok_length memAp (ms.flatMap Msg.acts) m (memAp_acts_ok _ _)
    rwa [hacts] at hall
  refine ⟨vs ++ vs', ?_, ?_⟩
  · rw [List.flatMap_append, memAp_acts_append, hacts]
    simp only [hacts']
  · rw [readsOf_append ms ms' hlen, hreads, hreads']

theorem select_effect {t : Txn} {m : MemAp} (hsel : t.cacheApaddr = 0 → m.select = 0) :
    HasEffect (selectMsgs t) m { m with select := 0 } [] := by
  unfold selectMsgs
  split_ifs with hne
  · exact ⟨[0], rfl, rfl⟩
  · have hzero : { m with select := 0 } = m := by rw [← hsel (not_not.mp hne)]
    rw [hzero]
    exact ⟨[], rfl, rfl⟩

/-- Where the access goes: a cached address is taken for the one in `TAR`. -/
def tarAfter (t : Txn) (addr : Word) (m : MemAp) : Word :=
  if t.cacheAhbtar ≠ addr then addr else m.tar

theorem tar_effect (t : Txn) (addr : Word) {m : MemAp} (hsel : m.select = 0) :
    HasEffect (tarMsgs t addr) m { m with tar := tarAfter t addr m } [] := by
  unfold tarMsgs tarAfter
  split_ifs
  · have hacts : [Msg.swdWrite (opWr ||| (opAp ||| (ahbTar &&& 0xC))) [addr]].flatMap Msg.acts =
        [.write wrAp1 addr] := rfl
    refine ⟨[0], ?_, rfl⟩
    rw [hacts, memAp_acts_cons, act_tar hsel]
    rfl
  · exact ⟨[], rfl, rfl⟩

theorem AhbCall.drw_effect (c : AhbCall) {m : MemAp} (hsel : m.select = 0) (hcsw : Still m.csw) :
    HasEffect c.drwMsgs m (c.access m) (c.words m) := by
  cases c with
  | read addr value =>
    have hacts : (AhbCall.read addr value).drwMsgs.flatMap Msg.acts =
        [.read rdAp3, .read rdBuffer] := rfl
    have hbump := bump_still
      (m := { m with rdbuff := m.mem m.tar, log := m.log ++ [.read m.tar] }) hcsw
    unfold HasEffect
    rw [hacts, memAp_acts_cons, act_drw_read hsel, hbump, memAp_acts_cons, act_rdbuff]
    exact ⟨_, rfl, rfl⟩
  | write addr value =>
    have hacts : (AhbCall.write addr value).drwMsgs.flatMap Msg.acts = [.write wrAp3 value] := rfl
    have hbump := bump_still (m := { m with
      mem := Function.update m.mem m.tar value, log := m.log ++ [.write m.tar value] }) hcsw
    unfold HasEffect
    rw [hacts, memAp_acts_cons, act_drw_write hsel, hbump]
    exact ⟨_, rfl, rfl⟩

/-- One call: what it queues makes its access where `TAR` is left. -/
theorem AhbCall.queued_effect (c : AhbCall) (t : Txn) {m : MemAp} (hcsw : Still m.csw)
    (hsel : t.cacheApaddr = 0 → m.select = 0) :
    HasEffect (selectMsgs t ++ tarMsgs t c.addr ++ c.drwMsgs) m
      (c.access { m with select := 0, tar := tarAfter t c.addr m })
      (c.words { m with select := 0, tar := tarAfter t c.addr m }) := by
  have hset := (select_effect hsel).append (tar_effect t c.addr (m := { m with select := 0 }) rfl)
  exact hset.append
    (c.drw_effect (m := { m with select := 0, tar := tarAfter t c.addr m }) rfl hcsw)

/-- On its own a call makes its access at its own address. -/
theorem AhbCall.alone_eq (c : AhbCall) {m : MemAp} (hcsw : Still m.csw) :
    c.alone m = (c.access { m with select := 0, tar := c.addr },
      c.ptrs.zip (c.words { m with select := 0, tar := c.addr })) := by
  cases c with
  | read addr value =>
    have hbump := bump_still (m := { m with
      select := 0, tar := addr, rdbuff := m.mem addr, log := m.log ++ [.read addr] }) hcsw
    simp only [AhbCall.alone, AhbCall.acts, memAp_acts_cons, act_select,
      act_tar (m := { m with select := 0 }) rfl,
      act_drw_read (m := { m with select := 0, tar := addr }) rfl, hbump, act_rdbuff]
    rfl
  | write addr value =>
    have hbump := bump_still (m := { m with
      select := 0, tar := addr, mem := Function.update m.mem addr value,
      log := m.log ++ [.write addr value] }) hcsw
    simp only [AhbCall.alone, AhbCall.acts, memAp_acts_cons, act_select,
      act_tar (m := { m with select := 0 }) rfl,
      act_drw_write (m := { m with select := 0, tar := addr }) rfl, hbump]
    rfl

/-! ### Sequences of calls -/

/-- The caches say what the target holds, as far as the call `c` goes by them. -/
structure Cached (t : Txn) (m : MemAp) (c : AhbCall) : Prop where
  select : t.cacheApaddr = 0 → m.select = 0
  tar : t.cacheAhbtar = c.addr → m.tar = c.addr

theorem Cached.tarAfter {t : Txn} {m : MemAp} {c : AhbCall} (h : Cached t m c) :
    tarAfter t c.addr m = c.addr := by
  unfold Rswdp.tarAfter
  split_ifs with hne
  · rfl
  · exact h.tar (not_not.mp hne)

/-- A call after which the caches say what the target holds, whatever comes next. -/
theorem AhbCall.cached_next (c c' : AhbCall) {t : Txn} (m : MemAp)
    (htar : t.cacheAhbtar = c.addr) :
    Cached t (c.access { m with select := 0, tar := c.addr }) c' where
  select _ := c.access_select _
  tar heq := (c.access_tar _).trans (htar.symm.trans heq)

/-- Calls queued behind each other have the effect of the calls one by one. -/
theorem runCalls_effect (calls : List AhbCall) {t t' : Txn} {ms : List Msg} {m : MemAp}
    (h : t.Holds ms) (hrun : runCalls t (calls.map AhbCall.queue) = .ok t') (hcsw : Still m.csw)
    (hcached : ∀ c ∈ calls.head?, Cached t m c) :
    ∃ more ws, t'.Holds (ms ++ more) ∧ HasEffect more m (aloneAll calls m).1 ws ∧
      t'.rx = t.rx ++ calls.flatMap AhbCall.ptrs ∧
      (calls.flatMap AhbCall.ptrs).zip ws = (aloneAll calls m).2 := by
  induction calls generalizing t ms m with
  | nil =>
    obtain rfl := Except.ok.inj hrun
    refine ⟨[], [], ?_, ⟨[], rfl, rfl⟩, ?_, rfl⟩
    · rwa [List.append_nil]
    · rw [List.flatMap_nil, List.append_nil]
  | cons c cs ih =>
    obtain ⟨u, hu, hrest⟩ := bind_eq_ok.mp hrun
    have hc := hcached c rfl
    obtain ⟨hholds, hrx, htar⟩ := c.run_msgs h hu
    have halone := c.alone_eq hcsw
    have heffect := c.queued_effect t hcsw hc.select
    rw [hc.tarAfter] at heffect
    have hcsw' : Still (c.alone m).1.csw := by
      rw [halone, AhbCall.access_csw]
      exact hcsw
    have hnext : ∀ c' ∈ cs.head?, Cached u (c.alone m).1 c' := by
      intro c' _
      rw [halone]
      exact c.cached_next c' m htar
    obtain ⟨more, ws, hholds', heffect', hrx', hzip⟩ := ih hholds hrest hcsw' hnext
    refine ⟨(selectMsgs t ++ tarMsgs t c.addr ++ c.drwMsgs) ++ more,
      c.words { m with select := 0, tar := c.addr } ++ ws, ?_, ?_, ?_, ?_⟩
    · rw [← List.append_assoc]
      exact hholds'
    · rw [halone] at heffect'
      rw [aloneAll, halone]
      exact heffect.append heffect'
    · rw [hrx', hrx, List.flatMap_cons, List.append_assoc]
    · rw [List.flatMap_cons, List.zip_append (c.words_length _), hzip, aloneAll, halone]

/-! ### The wrong access -/

theorem act_log (m : MemAp) (a : Act) : ∃ more, (memAp.act m a).1.log = m.log ++ more := by
  have hbump : ∀ m : MemAp, m.bump.log = m.log := by
    intro m
    obtain ⟨tar, hframe⟩ := bump_frame m
    rw [hframe]
  have hsame : m.log = m.log ++ [] := (List.append_nil _).symm
  cases a with
  | read hdr =>
    simp only [SwdTarget.act, memAp]
    unfold MemAp.apRead
    split_ifs <;> first | exact ⟨[], hsame⟩ | exact ⟨_, hbump _⟩
  | write hdr value =>
    simp only [SwdTarget.act, memAp]
    unfold MemAp.apWrite
    split_ifs <;> first | exact ⟨[], hsame⟩ | exact ⟨_, hbump _⟩
  | lineReset => exact ⟨[], hsame⟩

/-- Accesses made stay made. -/
theorem acts_log (as : List Act) (m : MemAp) :
    ∃ more, (memAp.acts as m).target.log = m.log ++ more := by
  induction as generalizing m with
  | nil => exact ⟨[], (List.append_nil _).symm⟩
  | cons a as ih =>
    obtain ⟨now, hnow⟩ := act_log m a
    obtain ⟨later, hlater⟩ := ih (memAp.act m a).1
    refine ⟨now ++ later, ?_⟩
    rw [memAp_acts_cons, hlater, hnow, List.append_assoc]

theorem aloneAll_log (calls : List AhbCall) (m : MemAp) :
    ∃ more, (aloneAll calls m).1.log = m.log ++ more := by
  induction calls generalizing m with
  | nil => exact ⟨[], (List.append_nil _).symm⟩
  | cons c cs ih =>
    obtain ⟨now, hnow⟩ := acts_log c.acts m
    obtain ⟨later, hlater⟩ := ih (c.alone m).1
    refine ⟨now ++ later, ?_⟩
    rw [aloneAll, hlater, ← List.append_assoc, ← hnow]
    rfl

/-- The access as it stands in the log. -/
def AhbCall.logged (tar : Word) : AhbCall → Access
  | read _ _ => .read tar
  | write _ value => .write tar value

theorem AhbCall.access_log (c : AhbCall) (m : MemAp) :
    (c.access m).log = m.log ++ [c.logged m.tar] := by
  cases c <;> rfl

theorem AhbCall.logged_inj (c : AhbCall) {tar tar' : Word} (h : c.logged tar = c.logged tar') :
    tar = tar' := by
  cases c with
  | read _ _ => exact Access.read.inj h
  | write _ _ => exact (Access.write.inj h).1

theorem runCalls_holds {calls : List AhbCall} {t t' : Txn} {ms : List Msg} (h : t.Holds ms)
    (hrun : runCalls t (calls.map AhbCall.queue) = .ok t') : ∃ more, t'.Holds (ms ++ more) := by
  induction calls generalizing t ms with
  | nil =>
    obtain rfl := Except.ok.inj hrun
    exact ⟨[], by rwa [List.append_nil]⟩
  | cons c cs ih =>
    obtain ⟨u, hu, hrest⟩ := bind_eq_ok.mp hrun
    obtain ⟨more, hmore⟩ := ih (c.run_msgs h hu).1 hrest
    refine ⟨(selectMsgs t ++ tarMsgs t c.addr ++ c.drwMsgs) ++ more, ?_⟩
    rw [← List.append_assoc]
    exact hmore

/-- Where `TAR` is left alone the first access shows it. -/
theorem first_access (c : AhbCall) (cs : List AhbCall) {t t' : Txn} {ms : List Msg} {m : MemAp}
    (h : t.Holds ms) (hrun : runCalls t ((c :: cs).map AhbCall.queue) = .ok t')
    (hcsw : Still m.csw) (hsel : t.cacheApaddr = 0 → m.select = 0) :
    ∃ more, t'.Holds (ms ++ more) ∧
      ((memAp.acts (more.flatMap Msg.acts) m).target.log = (aloneAll (c :: cs) m).1.log →
        tarAfter t c.addr m = c.addr) := by
  obtain ⟨u, hu, hrest⟩ := bind_eq_ok.mp hrun
  obtain ⟨more, hmore⟩ := runCalls_holds (c.run_msgs h hu).1 hrest
  obtain ⟨vs, hfirst, _⟩ := c.queued_effect t hcsw hsel
  refine ⟨(selectMsgs t ++ tarMsgs t c.addr ++ c.drwMsgs) ++ more, ?_, ?_⟩
  · rw [← List.append_assoc]
    exact hmore
  · intro hlog
    rw [List.flatMap_append, memAp_acts_append, hfirst] at hlog
    obtain ⟨later, hlater⟩ := acts_log (more.flatMap Msg.acts)
      (c.access { m with select := 0, tar := tarAfter t c.addr m })
    obtain ⟨later', hlater'⟩ := aloneAll_log cs (c.alone m).1
    have halone : (aloneAll (c :: cs) m).1.log = m.log ++ [c.logged c.addr] ++ later' := by
      rw [aloneAll, hlater', c.alone_eq hcsw, c.access_log]
    have hmade : (m.log ++ [c.logged (tarAfter t c.addr m)]) ++ later =
        (m.log ++ [c.logged c.addr]) ++ later' := by
      rw [← halone, ← hlog, hlater, c.access_log]
    have hlen : (m.log ++ [c.logged (tarAfter t c.addr m)]).length =
        (m.log ++ [c.logged c.addr]).length := by
      rw [List.length_append, List.length_append]
      rfl
    have hhere := List.append_cancel_left (List.append_inj_left hmade hlen)
    exact c.logged_inj (List.singleton_inj.mp hhere)

/-! ### The transaction -/

/-- The transaction `t`, executed by `process_txn` and answered to `process_reply`, has the
effect of the calls one by one: memory, accesses and the words under the pointers. -/
def AsAlone (fw : Firmware) (calls : List AhbCall) (t : Txn) (rx : ℕ → Word) (fuel : ℕ)
    (d : Device MemAp) : Prop :=
  ∃ s, processTxn fw memAp fuel (rx 0) rx 1 ((t.txc - 1 : ℕ) : ℤ) d = some s ∧
    s.dev.target.mem = (aloneAll calls d.target).1.mem ∧
    s.dev.target.log = (aloneAll calls d.target).1.log ∧
    ∀ (verbose : Bool) (stale : List Word), ∃ run,
      processReply verbose t ((s.tx ++ stale).drop 1) (s.tx.length - 1) = .ok run ∧
      run.ret = 0 ∧ run.stores = (aloneAll calls d.target).2

/-- The first call goes by the address `q_init` leaves in the cache. -/
theorem cached_qInit {c : AhbCall} {m : MemAp} (h : c.addr = 0xffffffff → m.tar = 0xffffffff) :
    Cached qInit m c where
  select happ := absurd happ (by decide)
  tar heq := by
    have haddr : c.addr = 0xffffffff := heq.symm
    rw [h haddr, haddr]

section Framed

variable (fw : Firmware) {calls : List AhbCall} {t t' : Txn}
  (hq : runCalls qInit (calls.map AhbCall.queue) = .ok t) {swdMaxwords : ℕ} {id : Word}
  (hf : qFrame swdMaxwords id t = .ok t') {rx : ℕ → Word} (hrx : payload rx 0 t'.txc = t'.tx)
  {d : Device MemAp} (hcsw : Still d.target.csw) {fuel : ℕ}

include hq hf hrx hcsw

theorem tar_of_asAlone (hfuel : t'.txc ≤ fuel) (h : AsAlone fw calls t' rx fuel d) {c : AhbCall}
    (hc : c ∈ calls.head?) (haddr : c.addr = 0xffffffff) : d.target.tar = 0xffffffff := by
  obtain ⟨s, hrun, _, hlog, _⟩ := h
  obtain ⟨cs, rfl⟩ : ∃ cs, calls = c :: cs := by
    cases calls with
    | nil => exact absurd hc (by simp)
    | cons c' cs =>
      obtain rfl := Option.some.inj hc
      exact ⟨cs, rfl⟩
  have hsel : qInit.cacheApaddr = 0 → d.target.select = 0 := fun h => absurd h (by decide)
  obtain ⟨ms, hholds, hfirst⟩ := first_access c cs holds_qInit hq hcsw hsel
  obtain ⟨_, _, ms', r, hpad, _, hswd, _, hserved, hR⟩ :=
    processTxn_framed fw memAp hholds hf hrx d hfuel
  rw [hserved] at hrun
  obtain rfl := Option.some.inj hrun
  have htarget := runServes_target hswd hR
  rw [pad_flatMap_acts hpad, List.nil_append] at htarget
  have hdone : (txnDone fw r.1 r.2).dev.target = r.2.dev.target := rfl
  rw [hdone, htarget] at hlog
  -- the cache holds the address already, so what is in `TAR` stays there
  have hstay : tarAfter qInit c.addr d.target = d.target.tar := by
    rw [haddr]
    rfl
  rw [← hstay, hfirst hlog, haddr]

theorem asAlone_of_tar (hfuel : t'.txc ≤ fuel)
    (hcond : ∀ c ∈ calls.head?, c.addr = 0xffffffff → d.target.tar = 0xffffffff) :
    AsAlone fw calls t' rx fuel d := by
  have hcached : ∀ c ∈ calls.head?, Cached qInit d.target c :=
    fun c hc => cached_qInit (hcond c hc)
  obtain ⟨ms, ws, hholds, ⟨vs, hacts, hreads⟩, hptrs, hzip⟩ :=
    runCalls_effect calls holds_qInit hq hcsw hcached
  obtain ⟨_, hptr, ms', r, hpad, _, hswd, hlen, hserved, hR⟩ :=
    processTxn_framed fw memAp hholds hf hrx d hfuel
  have htarget := runServes_target hswd hR
  rw [pad_flatMap_acts hpad, List.nil_append, hacts] at htarget
  have hdone : (txnDone fw r.1 r.2).dev.target = (aloneAll calls d.target).1 := htarget
  refine ⟨txnDone fw r.1 r.2, hserved, by rw [hdone], by rw [hdone], ?_⟩
  intro verbose stale
  obtain ⟨run, hreply, hgood, _⟩ := processReply_serveAll hswd hR hlen.ge verbose stale
  obtain ⟨hrunEq, _⟩ := hgood (memAp_acts_ok _ _)
  have hrx' : t'.rx = calls.flatMap AhbCall.ptrs := hptr.trans hptrs
  rw [pad_flatMap_acts hpad, List.nil_append, hacts, pad_readsOf hpad, List.nil_append, hreads,
    hrx', hzip] at hrunEq
  exact ⟨run, hreply, by rw [hrunEq]; rfl, by rw [hrunEq]⟩

end Framed

/-- Queued accesses have the effect of the accesses one by one, but for one case: the first
is at the address that stands for an empty cache, and `TAR` holds another. -/
theorem queued_accesses_as_alone (fw : Firmware) (calls : List AhbCall) {t t' : Txn}
    (hq : runCalls qInit (calls.map AhbCall.queue) = .ok t) {swdMaxwords : ℕ} {id : Word}
    (hf : qFrame swdMaxwords id t = .ok t') {rx : ℕ → Word} (hrx : payload rx 0 t'.txc = t'.tx)
    (d : Device MemAp) (hcsw : Still d.target.csw) {fuel : ℕ} (hfuel : t'.txc ≤ fuel) :
    AsAlone fw calls t' rx fuel d ↔
      ∀ c ∈ calls.head?, c.addr = 0xffffffff → d.target.tar = 0xffffffff :=
  ⟨fun h _ hc haddr => tar_of_asAlone fw hq hf hrx hcsw hfuel h hc haddr,
    asAlone_of_tar fw hq hf hrx hcsw hfuel⟩

/-- A MEM-AP as `swdp_reset` leaves it, behind an idle probe. -/
def resetDevice : Device MemAp :=
  { idleDevice with
    target := { select := 0, csw := cswNoInc, tar := 0, rdbuff := 0, mem := fun _ => 0, log := [] } }

/-- `swdp_core_read` of register 2 into pointer 7, framed. -/
def coreReadTxn : Txn :=
  { tx := [rswdTxnStart 1, swdWr dpSelect 1, 0, swdWr 0x6 1, 0xe000edf4, swdWr 0xE 1, 2,
      swdWr 0x6 1, 0xe000edf8, swdRx 0xE 1, swdRd dpBuffer 1],
    rx := [7], cacheApaddr := 0, cacheAhbtar := 0xe000edf8, magic := 0 }

theorem queued_accesses_as_alone_coreRead :
    AsAlone m3debug [.write 0xe000edf4 2, .read 0xe000edf8 7] coreReadTxn
      (fun i => coreReadTxn.tx.getD i 0) 11 resetDevice := by
  have hq : runCalls qInit
      ([AhbCall.write 0xe000edf4 2, .read 0xe000edf8 7].map AhbCall.queue) =
        .ok { coreReadTxn with tx := coreReadTxn.tx.set 0 0, magic := 0x12345678 } := rfl
  have hf : qFrame 512 (rswdTxnStart 1)
      { coreReadTxn with tx := coreReadTxn.tx.set 0 0, magic := 0x12345678 } =
        .ok coreReadTxn := rfl
  have hcsw : Still resetDevice.target.csw := by
    show cswNoInc &&& 0x37 = ahbCsw32bit
    decide
  refine (queued_accesses_as_alone m3debug _ hq hf rfl resetDevice hcsw (by decide)).mpr ?_
  intro c hc haddr
  obtain rfl := Option.some.inj hc
  exact absurd haddr (by decide)

/-- `wr ffffffff 1`, framed: no word sets `TAR`. -/
def lastWordTxn : Txn :=
  { tx := [rswdTxnStart 1, swdWr dpSelect 1, 0, swdWr 0xE 1, 1],
    rx := [], cacheApaddr := 0, cacheAhbtar := 0xffffffff, magic := 0 }

theorem queued_accesses_not_as_alone :
    ¬ AsAlone m3debug [.write 0xffffffff 1] lastWordTxn (fun i => lastWordTxn.tx.getD i 0) 5
      resetDevice := by
  have hq : runCalls qInit ([AhbCall.write 0xffffffff 1].map AhbCall.queue) =
      .ok { lastWordTxn with tx := lastWordTxn.tx.set 0 0, magic := 0x12345678 } := rfl
  have hf : qFrame 512 (rswdTxnStart 1)
      { lastWordTxn with tx := lastWordTxn.tx.set 0 0, magic := 0x12345678 } =
        .ok lastWordTxn := rfl
  have hcsw : Still resetDevice.target.csw := by
    show cswNoInc &&& 0x37 = ahbCsw32bit
    decide
  intro h
  have htar : resetDevice.target.tar = 0xffffffff :=
    tar_of_asAlone m3debug hq hf rfl hcsw (by decide) h rfl rfl
  exact absurd htar (by decide)

end M3Dev.Rswdp
