import M3Dev.HostCalls
import M3Dev.RswdpBulkAgree

/-! The host's calls answered by the code of `rswdp.c` with `m3debug` and a MEM-AP at the
other end of the cable. -/
namespace M3Dev.Tools
open CallTree WhileLoop WordBlock Rswdp

/-- The host's end and the probe's, with the packets sent to gdb so far. -/
structure Bench where
  host : Host
  dev : Device MemAp
  sent : List (List Byte)

/-- The queue calls of a transaction of single accesses; the words read go to `p` on. -/
def queueOps : List AhbOp → Ptr → List QueueCall
  | [], _ => []
  | .write addr value :: ops, p => .ahbWrite addr value :: queueOps ops p
  | .read addr :: ops, p => .ahbRead addr p :: queueOps ops (p + 1)

/-- An answer that is a status and what a pointer points to. -/
def statusAnswer (rc : ℤ) (buf : ℕ → Word) : Answer :=
  { rc := rc, buf := buf, ptr := 0, writes := [], msgs := [] }

/-- The buffer a call passes lies at the beginning of the host's memory. -/
def benchExec (usb : Link (Device MemAp)) (stale : List Word) (ops : List AhbOp)
    (buf : ℕ → Word) (s : Bench) : Option (Answer × Bench) :=
  match runCalls qInit (queueOps ops 0) with
  | .error _ => none
  | .ok t =>
    match qExec usb stale t { s.host with mem := buf } s.dev with
    | .error _ => none
    | .ok (rc, h, d) => some (statusAnswer rc h.mem, { s with host := h, dev := d })

def benchLoop (body : Body (BulkState (Device MemAp)) (Except Stop (ℤ × BulkState (Device MemAp))))
    (fuel : ℕ) (addr : Word) (buf : ℕ → Word) (count : ℤ) (s : Bench) : Option (Answer × Bench) :=
  match runLoop body fuel
      ⟨{ addr := addr, ptr := 0, count := count }, { s.host with mem := buf }, s.dev⟩ with
  | some (.ok (rc, s')) =>
    some (statusAnswer rc s'.host.mem, { s with host := s'.host, dev := s'.dev })
  | _ => none

/-- `fuel` bounds the batches of one bulk transfer. Packets are kept; what else has nothing
to do with the probe is answered with nothing. -/
def benchResponder (beyond : Device MemAp → ℕ → Word) (stale : List Word) (fuel : ℕ) :
    Responder Call Answer Bench
  | .exec ops buf, s => benchExec (bench beyond) stale ops buf s
  | .ahbRead32 addr buf count, s =>
    benchLoop (ahbRead32Pass (bench beyond) stale) fuel addr buf count s
  | .ahbWrite32 addr buf count, s =>
    benchLoop (ahbWrite32Pass (bench beyond) stale) fuel addr buf count s
  | .send packet, s => some (statusAnswer 0 fun _ => 0, { s with sent := s.sent ++ [packet] })
  | _, s => some (statusAnswer 0 fun _ => 0, s)

/-- The link is up, with the device's buffer of 512 words. -/
def Bench.Up (s : Bench) : Prop := s.host.swdOnline = 1 ∧ s.host.swdMaxwords = 512

abbrev Bench.mem (s : Bench) : Word → Word := s.dev.target.mem

abbrev Bench.log (s : Bench) : List Access := s.dev.target.log

/-- The program comes back with `r`, given enough fuel for its bulk transfers. -/
def Yields (beyond : Device MemAp → ℕ → Word) (stale : List Word) {α : Type} (p : HostProg α)
    (s : Bench) (r : α) (s' : Bench) : Prop :=
  ∃ F, ∀ fuel ≥ F, p.run (benchResponder beyond stale fuel) s = some (.ok r, s')

variable (beyond : Device MemAp → ℕ → Word) (stale : List Word)

section
variable {beyond stale} {α β : Type}

theorem Yields.ret (r : α) (s : Bench) : Yields beyond stale (.ret r) s r s :=
  ⟨0, fun _ _ => rfl⟩

/-- A program leaves one bench behind. -/
theorem Yields.bench_eq {p : HostProg α} {s s1 s2 : Bench} {r1 r2 : α}
    (h1 : Yields beyond stale p s r1 s1) (h2 : Yields beyond stale p s r2 s2) : s1 = s2 := by
  obtain ⟨F1, hF1⟩ := h1
  obtain ⟨F2, hF2⟩ := h2
  have hboth := (hF1 _ (le_max_left F1 F2)).symm.trans (hF2 _ (le_max_right F1 F2))
  exact (Prod.mk.inj (Option.some.inj hboth)).2

theorem Yields.bind {p : HostProg α} {f : α → HostProg β} {s s' s'' : Bench} {a : α} {b : β}
    (h : Yields beyond stale p s a s') (h' : Yields beyond stale (f a) s' b s'') :
    Yields beyond stale (p >>= f) s b s'' := by
  obtain ⟨F, hF⟩ := h
  obtain ⟨F', hF'⟩ := h'
  refine ⟨max F F', ?_⟩
  intro fuel hfuel
  rw [Prog.run_bind (hF fuel (le_trans (le_max_left _ _) hfuel)),
    hF' fuel (le_trans (le_max_right _ _) hfuel)]

theorem Yields.call {c : Call} {k : Answer → HostProg α} {s s' s'' : Bench} {a : Answer} {r : α}
    (h : ∃ F, ∀ fuel ≥ F, benchResponder beyond stale fuel c s = some (a, s'))
    (h' : Yields beyond stale (k a) s' r s'') : Yields beyond stale (.call c k) s r s'' := by
  obtain ⟨F, hF⟩ := h
  have hask : Yields beyond stale (Prog.ask c) s a s' := by
    refine ⟨F, ?_⟩
    intro fuel hfuel
    exact Prog.run_call (hF fuel hfuel) _
  exact hask.bind h'

end

theorem bench_read {s : Bench} (hup : s.Up) {addr : Word} (haligned : addr.toNat % 4 = 0)
    (buf : ℕ → Word) :
    ∃ a s', (∀ fuel, benchResponder beyond stale fuel (.exec [.read addr] buf) s = some (a, s')) ∧
      a.rc = 0 ∧ a.buf 0 = s.mem addr ∧ s'.Up ∧ s'.mem = s.mem ∧ s'.sent = s.sent ∧
      s'.log = s.log ++ [.read addr] := by
  obtain ⟨t, h', d', hbatch, hexec, heff, hon, hmw⟩ := plainRead32_exec beyond stale
    (s := ⟨{ addr := addr, ptr := 0, count := 1 }, { s.host with mem := buf }, s.dev⟩) hup.1 hup.2
    haligned (by show (0 : ℤ) < 1; decide) (by show (1 : ℤ) ≤ 127; decide)
  -- one queued read is the plain batch of one word
  have hqueue : runCalls qInit (queueOps [.read addr] 0) = .ok t := by
    obtain ⟨t', ht', hok⟩ := bind_eq_ok.mp hbatch
    obtain ⟨rfl, _⟩ := Prod.mk.inj (Except.ok.inj hok)
    exact ht'
  refine ⟨statusAnswer 0 h'.mem, { s with host := h', dev := d' }, ?_, rfl, ?_, ⟨hon, hmw⟩, heff.mem, rfl, ?_⟩
  · intro fuel
    simp only [benchResponder, benchExec, hqueue, hexec]
  · have hmem := congrFun heff.host 0
    show h'.mem 0 = s.dev.target.mem addr
    rw [hmem]
    simp [Host.store, load]
  · have hlog := heff.log
    show d'.target.log = _
    rw [hlog]
    simp [load]

theorem bench_write {s : Bench} (hup : s.Up) {addr : Word} (haligned : addr.toNat % 4 = 0)
    (w : Word) (buf : ℕ → Word) :
    ∃ a s', (∀ fuel, benchResponder beyond stale fuel (.exec [.write addr w] buf) s =
        some (a, s')) ∧
      a.rc = 0 ∧ s'.Up ∧ s'.mem = Function.update s.mem addr w ∧ s'.sent = s.sent ∧
      s'.log = s.log ++ [.write addr w] := by
  obtain ⟨t, h', d', hbatch, hexec, _, hmem, hlog, hon, hmw⟩ := plainWrite32_exec beyond stale
    (s := ⟨{ addr := addr, ptr := 0, count := 1 }, { s.host with mem := buf }, s.dev⟩) (fun _ => w)
    hup.1 hup.2 haligned (by show (0 : ℤ) < 1; decide) (by show (1 : ℤ) ≤ 127; decide)
  have hqueue : runCalls qInit (queueOps [.write addr w] 0) = .ok t := by
    obtain ⟨t', ht', hok⟩ := bind_eq_ok.mp hbatch
    obtain ⟨rfl, _⟩ := Prod.mk.inj (Except.ok.inj hok)
    exact ht'
  refine ⟨statusAnswer 0 h'.mem, { s with host := h', dev := d' }, ?_, rfl, ⟨hon, hmw⟩, hmem, rfl, ?_⟩
  · intro fuel
    simp only [benchResponder, benchExec, hqueue, hexec]
  · show d'.target.log = _
    rw [hlog]
    simp [load]

/-- A bulk transfer comes back once there is fuel for its batches. -/
theorem benchLoop_of_leaves {body : Body (BulkState (Device MemAp))
    (Except Stop (ℤ × BulkState (Device MemAp)))} {addr : Word} {buf : ℕ → Word} {count : ℤ}
    {s : Bench} {rc : ℤ} {s' : BulkState (Device MemAp)}
    (h : Leaves body ⟨{ addr := addr, ptr := 0, count := count }, { s.host with mem := buf }, s.dev⟩
      (.ok (rc, s'))) :
    ∃ F, ∀ fuel ≥ F, benchLoop body fuel addr buf count s =
      some (statusAnswer rc s'.host.mem, { s with host := s'.host, dev := s'.dev }) := by
  obtain ⟨F, hF⟩ := h
  refine ⟨F, ?_⟩
  intro fuel hfuel
  simp only [benchLoop, runLoop_mono hfuel hF]

theorem bench_read32 {s : Bench} (hup : s.Up) {addr : Word} (haligned : addr.toNat % 4 = 0)
    (buf : ℕ → Word) {n : ℕ} (hn : n ≤ 2 ^ 30) :
    ∃ F a s', (∀ fuel ≥ F, benchResponder beyond stale fuel (.ahbRead32 addr buf n) s =
        some (a, s')) ∧
      a.rc = 0 ∧ (∀ i < n, a.buf i = s.mem (wordAddr addr i)) ∧
      (∀ i, n ≤ i → a.buf i = buf i) ∧ s'.Up ∧ s'.mem = s.mem ∧ s'.sent = s.sent := by
  by_cases hzero : n = 0
  · -- the loop is not entered
    subst hzero
    have hleaves : Leaves (ahbRead32Pass (bench beyond) stale)
        ⟨{ addr := addr, ptr := 0, count := (0 : ℕ) }, { s.host with mem := buf }, s.dev⟩ _ :=
      Leaves.exit (bulkPass_end (le_refl _))
    obtain ⟨F, hF⟩ := benchLoop_of_leaves hleaves
    exact ⟨F, _, _, hF, rfl, fun i hi => absurd hi (Nat.not_lt_zero i), fun _ _ => rfl, hup, rfl, rfl⟩
  · obtain ⟨s', hleaves, hdone, hcount⟩ := ahbRead32_run beyond stale
      (s := ⟨{ addr := addr, ptr := 0, count := n }, { s.host with mem := buf }, s.dev⟩) hup.1 hup.2
      haligned (by show (0 : ℤ) < n; omega)
    have hblock := hdone.readsBlock hcount (by show ((n : ℕ) : ℤ).toNat ≤ 2 ^ 30; omega)
    obtain ⟨F, hF⟩ := benchLoop_of_leaves hleaves
    refine ⟨F, _, _, hF, rfl, ?_, ?_, ⟨hdone.online, hdone.maxwords⟩, hblock.mem, rfl⟩
    · intro i hi
      have hout := hblock.out i (by show i < ((n : ℕ) : ℤ).toNat; omega)
      rwa [Nat.zero_add] at hout
    · intro i hi
      apply hblock.rest
      intro j hj
      have hj' : j < n := by
        have : j < ((n : ℕ) : ℤ).toNat := hj
        omega
      intro heq
      have hsame : i = j := heq.trans (Nat.zero_add j)
      omega

theorem bench_write32 {s : Bench} (hup : s.Up) {addr : Word} (haligned : addr.toNat % 4 = 0)
    (buf : ℕ → Word) {n : ℕ} (hn : 1 ≤ n) :
    ∃ F a s', (∀ fuel ≥ F, benchResponder beyond stale fuel (.ahbWrite32 addr buf n) s =
        some (a, s')) ∧
      a.rc = 0 ∧ s'.Up ∧ s'.mem = store s.mem addr ((List.range n).map buf) ∧
      s'.sent = s.sent ∧
      s'.log = s.log ++ (load id addr n).zipWith .write ((List.range n).map buf) := by
  obtain ⟨s', hleaves, hdone, _⟩ := ahbWrite32_run beyond stale
    (s := ⟨{ addr := addr, ptr := 0, count := n }, { s.host with mem := buf }, s.dev⟩) hup.1 hup.2
    haligned (by show (0 : ℤ) < n; omega)
  have hrange : List.range' (0 : Ptr) ((n : ℕ) : ℤ).toNat = List.range n := by
    rw [Int.toNat_natCast, List.range_eq_range']
  have hmem := hdone.mem
  have hlog := hdone.log
  dsimp only at hmem hlog
  rw [hrange] at hmem hlog
  obtain ⟨F, hF⟩ := benchLoop_of_leaves hleaves
  exact ⟨F, _, _, hF, rfl, ⟨hdone.online, hdone.maxwords⟩, hmem, rfl, hlog⟩

end M3Dev.Tools
