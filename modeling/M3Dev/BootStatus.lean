import M3Dev.Lpc13Boot
import M3Dev.FlashTarget

/-! What the status that the boot loader replies with says about the request. -/
namespace M3Dev.Boot
open CallTree WhileLoop Flash

/-- How the calls go: what the ROM calls return, and what `usb_recv` returns, each in order. -/
structure Pattern where
  iap : ℕ → ℤ
  recv : ℕ → ℤ

/-- How many of each were made, and all calls with their results. -/
structure Session where
  roms : ℕ
  recvs : ℕ
  log : List (Call × ℤ)

def respond (p : Pattern) : Responder Call ℤ Session
  | .romcall args, s =>
    some (p.iap s.roms, { s with roms := s.roms + 1, log := s.log ++ [(.romcall args, p.iap s.roms)] })
  | .usbRecv dest count, s =>
    some (p.recv s.recvs, { s with recvs := s.recvs + 1, log := s.log ++ [(.usbRecv dest count, p.recv s.recvs)] })
  | c, s => some (0, { s with log := s.log ++ [(c, 0)] })

inductive Request where
  | erase (arg : Word)
  | write (arg : Word)

def Request.run : Request → Program Unit
  | .erase arg => handle 0xDB00A5A5 0x45 arg
  | .write arg => handle 0xDB00A5A5 0x57 arg

def eraseCalls (addr : Word) : List Call :=
  [.romcall [opPrepare, page addr, page addr], .romcall [opErase, page addr, page addr, 48000]]

def pageCalls (addr len : Word) : List Call :=
  .usbRecv ramBase len :: eraseCalls addr ++
    [.romcall [opPrepare, page addr, page addr], .romcall [opWrite, addr, ramBase, 0x1000, 48000]]

/-- The pages of so many bytes. -/
def pages (size : ℕ) : ℕ := (size + 4095) / 4096

def pageAddr (k : ℕ) : Word := BitVec.ofNat 32 (4096 + 4096 * k)

def pageLen (size k : ℕ) : ℕ := min 4096 (size - 4096 * k)

/-- What is to be done for the request, page by page. -/
def Request.work : Request → List (List Call)
  | .erase _ => [eraseCalls romBase]
  | .write arg => (List.range (pages arg.toNat)).map fun k =>
      pageCalls (pageAddr k) (BitVec.ofNat 32 (pageLen arg.toNat k))

def Succeeded : Call × ℤ → Prop
  | (.romcall _, r) => r = 0
  | (.usbRecv _ count, r) => r = count.toNat
  | _ => True

/-- Every page was received in full, erased and programmed. -/
def Done (req : Request) (log : List (Call × ℤ)) : Prop :=
  (∀ e ∈ log, Succeeded e) ∧ ∀ calls ∈ req.work, calls <:+: log.map Prod.fst

/-- The status of a reply. -/
def replyStatus : Call × ℤ → Option Word
  | (.usbXmit [_, status], _) => some status
  | _ => none

/-- The status word of the last reply is zero only where everything was done. -/
def Told (req : Request) (log : List (Call × ℤ)) : Prop :=
  (log.filterMap replyStatus).getLast? = some 0 → Done req log

/-- The request is refused, or none of its calls fails. -/
def Clean (p : Pattern) : Request → Prop
  | .erase _ => p.iap 0 = 0 ∧ p.iap 1 = 0
  | .write arg => romSize < arg ∨ ∀ k < pages arg.toNat,
      p.recv k = pageLen arg.toNat k ∧ ∀ j < 4, p.iap (4 * k + j) = 0

variable {p : Pattern}

/-- What a page leaves in the log. -/
def pageLog (p : Pattern) (size k : ℕ) : List (Call × ℤ) :=
  (pageCalls (pageAddr k) (BitVec.ofNat 32 (pageLen size k))).zip
    [p.recv k, p.iap (4 * k), p.iap (4 * k + 1), p.iap (4 * k + 2), p.iap (4 * k + 3)]

/-- What is left of a request when `k` pages are done. -/
def left (arg : Word) (k : ℕ) : Word := BitVec.ofNat 32 (arg.toNat - 4096 * k)

theorem romcall_run (args : List Word) (s : Session) : (romcall args).run (respond p) s =
    some (.ok (), ⟨s.roms + 1, s.recvs, s.log ++ [(.romcall args, p.iap s.roms)]⟩) := rfl

theorem usbRecv_run (dest count : Word) (s : Session) : (usbRecv dest count).run (respond p) s =
    some (.ok (), ⟨s.roms, s.recvs + 1, s.log ++ [(.usbRecv dest count, p.recv s.recvs)]⟩) := rfl

theorem usbXmit_run (data : List Word) (s : Session) : (usbXmit data).run (respond p) s =
    some (.ok (), ⟨s.roms, s.recvs, s.log ++ [(.usbXmit data, 0)]⟩) := rfl

theorem iapErasePage_run (addr : Word) (s : Session) : (iapErasePage addr).run (respond p) s =
    some (.ok (), ⟨s.roms + 2, s.recvs,
      s.log ++ (eraseCalls addr).zip [p.iap s.roms, p.iap (s.roms + 1)]⟩) := by
  rw [iapErasePage, Prog.run_bind (romcall_run _ _), romcall_run, List.append_assoc]
  rfl

theorem iapWritePage_run (addr src : Word) (s : Session) : (iapWritePage addr src).run (respond p) s =
    some (.ok (), ⟨s.roms + 2, s.recvs, s.log ++
      [(.romcall [opPrepare, page addr, page addr], p.iap s.roms),
        (.romcall [opWrite, addr, src, 0x1000, 48000], p.iap (s.roms + 1))]⟩) := by
  rw [iapWritePage, Prog.run_bind (romcall_run _ _), romcall_run, List.append_assoc]
  rfl

theorem left_pos {arg : Word} {k : ℕ} (hk : 4096 * k < arg.toNat) : 0 < left arg k := by
  rw [BitVec.lt_def, left, left_toNat]
  show 0 < arg.toNat - 4096 * k
  omega

theorem xfer_eq (arg : Word) (k : ℕ) : (if 4096 < left arg k then 4096 else left arg k) =
    BitVec.ofNat 32 (pageLen arg.toNat k) := by
  have hlt : 4096 < left arg k ↔ 4096 < arg.toNat - 4096 * k := by
    rw [BitVec.lt_def, left, left_toNat]
    rfl
  by_cases hmore : 4096 < left arg k
  · rw [if_pos hmore, pageLen, Nat.min_eq_left (Nat.le_of_lt (hlt.mp hmore))]
    rfl
  · have hle : arg.toNat - 4096 * k ≤ 4096 := Nat.not_lt.mp fun h => hmore (hlt.mpr h)
    rw [if_neg hmore, pageLen, Nat.min_eq_right hle]
    rfl

theorem left_succ {arg : Word} {k : ℕ} (hk : 4096 * k < arg.toNat) :
    left arg k - BitVec.ofNat 32 (pageLen arg.toNat k) = left arg (k + 1) := by
  have hnext : arg.toNat - 4096 * (k + 1) = arg.toNat - (4096 * k + pageLen arg.toNat k) := by
    unfold pageLen
    omega
  rw [left, left, hnext]
  apply left_sub
  unfold pageLen
  omega

theorem pageAddr_succ (k : ℕ) : pageAddr k + 4096 = pageAddr (k + 1) := by
  have hnext : 4096 + 4096 * (k + 1) = 4096 + 4096 * k + 4096 := by omega
  rw [pageAddr, pageAddr, hnext, BitVec.ofNat_add (4096 + 4096 * k)]
  rfl

theorem writePass_run (arg : Word) {k : ℕ} (hk : 4096 * k < arg.toNat) (log : List (Call × ℤ)) :
    (writePass ramBase (pageAddr k) (left arg k)).run (respond p) ⟨4 * k, k, log⟩ =
      some (.ok (.next (pageAddr (k + 1), left arg (k + 1))),
        ⟨4 * (k + 1), k + 1, log ++ pageLog p arg.toNat k⟩) := by
  rw [writePass, if_pos (left_pos hk)]
  dsimp only
  rw [xfer_eq, left_succ hk, pageAddr_succ, Prog.run_bind (usbRecv_run _ _ _),
    Prog.run_bind (iapErasePage_run _ _), Prog.run_bind (iapWritePage_run _ _ _)]
  rw [List.append_assoc, List.append_assoc]
  rfl

theorem writePass_ends (arg addr : Word) {k : ℕ} (hk : arg.toNat ≤ 4096 * k) (s : Session) :
    (writePass ramBase addr (left arg k)).run (respond p) s = some (.ok (.exit ()), s) := by
  have hzero : left arg k = 0 := by
    rw [left, Nat.sub_eq_zero_of_le hk]
    rfl
  rw [hzero]
  rfl

/-- The loop of `W` from page `k` on, with `j` pages to go. -/
theorem writeLoop_run (p : Pattern) (arg : Word) (j : ℕ) {k : ℕ} (hj : pages arg.toNat = k + j) (fuel : ℕ)
    (log : List (Call × ℤ)) :
    (Prog.loop .spins (fun s => writePass ramBase s.1 s.2) (fuel + 1 + j) (pageAddr k, left arg k)).run
        (respond p) ⟨4 * k, k, log⟩ =
      some (.ok (), ⟨4 * (k + j), k + j, log ++ (List.range' k j).flatMap (pageLog p arg.toNat)⟩) := by
  induction j generalizing k log with
  | zero =>
    have hdone : arg.toNat ≤ 4096 * k := by
      unfold pages at hj
      omega
    rw [Prog.run_loop_exit (writePass_ends arg _ hdone _)]
    simp
  | succ j ih =>
    have hmore : 4096 * k < arg.toNat := by
      unfold pages at hj
      omega
    have hrest : pages arg.toNat = k + 1 + j := by omega
    rw [← Nat.add_assoc, Prog.run_loop_next (writePass_run arg hmore log), ih hrest,
      List.range'_succ, List.flatMap_cons, List.append_assoc, Nat.add_right_comm k 1 j]
    rfl

def start : Session := ⟨0, 0, []⟩

/-- The log of `W`. -/
def writeLog (p : Pattern) (arg : Word) : List (Call × ℤ) :=
  (.usbXmit [0xDB00A5A5, 0], 0) :: (List.range (pages arg.toNat)).flatMap (pageLog p arg.toNat) ++
    [(.usbXmit [0xDB00A5A5, 0], 0)]

theorem write_run {arg : Word} (harg : ¬ romSize < arg) :
    (Request.write arg).run.run (respond p) start =
      some (.ok (), ⟨4 * pages arg.toNat, pages arg.toNat, writeLog p arg⟩) := by
  have hfuel : arg.toNat + 1 = arg.toNat - pages arg.toNat + 1 + pages arg.toNat := by
    unfold pages
    omega
  have hpages : pages arg.toNat = 0 + pages arg.toNat := (Nat.zero_add _).symm
  have hloop := writeLoop_run p arg (pages arg.toNat) hpages (arg.toNat - pages arg.toNat)
    [(.usbXmit [0xDB00A5A5, 0], 0)]
  have hfirst : left arg 0 = arg := by
    rw [left, Nat.mul_zero, Nat.sub_zero, BitVec.ofNat_toNat, BitVec.setWidth_eq]
  rw [hfirst, ← hfuel, ← List.range_eq_range', Nat.zero_add] at hloop
  rw [Request.run, handle, if_neg (by decide), if_neg (by decide), if_pos rfl, if_neg harg,
    Prog.run_bind (usbXmit_run _ _)]
  exact Prog.run_bind hloop _

theorem refused_run {arg : Word} (harg : romSize < arg) :
    (Request.write arg).run.run (respond p) start =
      some (.ok (), ⟨0, 0, [(.usbXmit [0xDB00A5A5, -1], 0)]⟩) := by
  rw [Request.run, handle, if_neg (by decide), if_neg (by decide), if_pos rfl, if_pos harg]
  rfl

theorem erase_run (arg : Word) : (Request.erase arg).run.run (respond p) start =
    some (.ok (), ⟨2, 0, (eraseCalls romBase).zip [p.iap 0, p.iap 1] ++ [(.usbXmit [0xDB00A5A5, 0], 0)]⟩) := rfl

theorem last_status (log : List (Call × ℤ)) (magic status : Word) (r : ℤ) :
    ((log ++ [(Call.usbXmit [magic, status], r)]).filterMap replyStatus).getLast? = some status := by
  rw [List.filterMap_append]
  simp [replyStatus]

/-! ### What the log says -/

theorem pageLog_calls (p : Pattern) (size k : ℕ) : (pageLog p size k).map Prod.fst =
    pageCalls (pageAddr k) (BitVec.ofNat 32 (pageLen size k)) := rfl

theorem pageLog_succeeded (p : Pattern) (size k : ℕ) : (∀ e ∈ pageLog p size k, Succeeded e) ↔
    p.recv k = pageLen size k ∧ ∀ j < 4, p.iap (4 * k + j) = 0 := by
  have hlen : (BitVec.ofNat 32 (pageLen size k)).toNat = pageLen size k := by
    rw [BitVec.toNat_ofNat, Nat.mod_eq_of_lt]
    unfold pageLen
    omega
  have hfour (P : ℕ → Prop) : (∀ j < 4, P j) ↔ P 0 ∧ P 1 ∧ P 2 ∧ P 3 := by
    constructor
    · intro h
      exact ⟨h 0 (by decide), h 1 (by decide), h 2 (by decide), h 3 (by decide)⟩
    · rintro ⟨h0, h1, h2, h3⟩ j hj
      obtain rfl | rfl | rfl | rfl : j = 0 ∨ j = 1 ∨ j = 2 ∨ j = 3 := by omega
      · exact h0
      · exact h1
      · exact h2
      · exact h3
  rw [hfour]
  simp [pageLog, pageCalls, eraseCalls, Succeeded, hlen]

theorem infix_flatMap {α β : Type*} (f : α → List β) {a : α} {l : List α} (h : a ∈ l) :
    f a <:+: l.flatMap f := by
  obtain ⟨front, back, rfl⟩ := List.append_of_mem h
  refine ⟨front.flatMap f, back.flatMap f, ?_⟩
  rw [List.flatMap_append, List.flatMap_cons, List.append_assoc]

theorem writeLog_done (arg : Word) : Done (.write arg) (writeLog p arg) ↔
    ∀ k < pages arg.toNat, p.recv k = pageLen arg.toNat k ∧ ∀ j < 4, p.iap (4 * k + j) = 0 := by
  constructor
  · rintro ⟨hall, _⟩ k hk
    rw [← pageLog_succeeded]
    intro e he
    apply hall
    have hin : e ∈ (List.range (pages arg.toNat)).flatMap (pageLog p arg.toNat) :=
      List.mem_flatMap.mpr ⟨k, List.mem_range.mpr hk, he⟩
    exact List.mem_append_left _ (List.mem_cons_of_mem _ hin)
  · intro h
    constructor
    · intro e he
      rcases List.mem_append.mp he with hfront | hlast
      · rcases List.mem_cons.mp hfront with rfl | hin
        · trivial
        · obtain ⟨k, hk, hpage⟩ := List.mem_flatMap.mp hin
          exact (pageLog_succeeded p _ k).mpr (h k (List.mem_range.mp hk)) e hpage
      · obtain rfl := List.mem_singleton.mp hlast
        trivial
    · intro calls hcalls
      obtain ⟨k, hk, rfl⟩ := List.mem_map.mp hcalls
      obtain ⟨front, back, hsplit⟩ := infix_flatMap (pageLog p arg.toNat) hk
      refine ⟨(.usbXmit [0xDB00A5A5, 0] :: front.map Prod.fst),
        back.map Prod.fst ++ [.usbXmit [0xDB00A5A5, 0]], ?_⟩
      rw [← pageLog_calls p, writeLog, ← hsplit]
      simp

theorem eraseLog_done (arg : Word) : Done (.erase arg)
    ((eraseCalls romBase).zip [p.iap 0, p.iap 1] ++ [(.usbXmit [0xDB00A5A5, 0], 0)]) ↔
      p.iap 0 = 0 ∧ p.iap 1 = 0 := by
  constructor
  · rintro ⟨hall, _⟩
    exact ⟨hall _ (List.mem_cons_self ..), hall _ (List.mem_cons_of_mem _ (List.mem_cons_self ..))⟩
  · rintro ⟨h0, h1⟩
    constructor
    · simp [eraseCalls, Succeeded, h0, h1]
    · intro calls hcalls
      obtain rfl := List.mem_singleton.mp hcalls
      exact ⟨[], [.usbXmit [0xDB00A5A5, 0]], rfl⟩

/-- The boot loader always says that it is done, unless it refuses the size: what it says is true
exactly where nothing fails. -/
theorem told_iff_clean (p : Pattern) (req : Request) :
    ∃ s, req.run.run (respond p) start = some (.ok (), s) ∧ (Told req s.log ↔ Clean p req) := by
  cases req with
  | erase arg =>
    refine ⟨_, erase_run arg, ?_⟩
    rw [Told, last_status, eraseLog_done]
    exact ⟨fun h => h rfl, fun h _ => h⟩
  | write arg =>
    by_cases harg : romSize < arg
    · refine ⟨_, refused_run harg, ?_⟩
      have hstatus : ((([] : List (Call × ℤ)) ++ [(Call.usbXmit [0xDB00A5A5, -1], 0)]).filterMap
          replyStatus).getLast? = some (-1) := last_status [] _ _ _
      refine ⟨fun _ => .inl harg, fun _ hzero => ?_⟩
      rw [List.nil_append] at hstatus
      rw [hstatus] at hzero
      exact absurd hzero (by decide)
    · refine ⟨_, write_run harg, ?_⟩
      rw [Told, writeLog, last_status, ← writeLog, writeLog_done, Clean]
      exact ⟨fun h => .inr (h rfl), fun h _ => h.resolve_left harg⟩

/-- The one page of a write of one byte cannot be programmed, and the reply is zero. -/
theorem failure_untold : ¬ ∀ (p : Pattern) (req : Request) (s : Session),
    req.run.run (respond p) start = some (.ok (), s) → Told req s.log := by
  intro h
  have htold := h ⟨fun k => if k = 3 then 1 else 0, fun _ => 1⟩ (.write 1) _ (write_run (by decide))
  have hclean := (writeLog_done 1).mp (htold (last_status _ _ _ _)) 0 (by decide)
  exact absurd (hclean.2 3 (by decide)) (by decide)

end M3Dev.Boot
