import M3Dev.BulkTransfer
import M3Dev.RswdpExec
import M3Dev.RswdpServe

/-! Transactions on the bulk pipe: which replies and which requests end in a short
packet, so that the other side sees where they end. -/
namespace M3Dev.Rswdp
open WhileLoop BulkTransfer
variable {σ : Type*}

/-- 64 bytes -/
def packetWords : ℕ := 16

/-- a transaction may not exceed 4K (1024 words) -/
def maxTxnWords : ℕ := 1024

/-- The words end in a short packet or fill a transaction, and a host that reads into
its buffer until a short packet gets them and nothing else, whatever follows. -/
def ArrivesAlone (tx : List Word) : Prop :=
  (EndsShort packetWords (packets packetWords tx) ∨ tx.length = maxTxnWords) ∧
    ∀ rest, readMessage packetWords maxwords (packets packetWords tx ++ rest) = some (tx, rest)

/-- The last thing handed to `usb_xmit` is a reply that arrives alone. -/
def ReplyArrivesAlone (s : TxnState σ) : Prop :=
  ∃ tx, s.dev.usb.getLast? = some (.reply tx) ∧ ArrivesAlone tx

/-- Words of the reply before the closing null: the transaction id, the data the
started messages ask for, and the status. -/
def replyWords (fw : Firmware) (T : SwdTarget σ) (ms : List Msg) (t : σ) : ℕ :=
  2 + ((started fw T ms t).map Msg.replySize).sum

theorem arrivesAlone_iff_mod (tx : List Word) (h : tx.length < maxwords) :
    ArrivesAlone tx ↔ tx.length % packetWords ≠ 0 := by
  have hn : 0 < packetWords := by decide
  constructor
  · intro ha hmod
    have hopen := readMessage_full hn tx maxwords h hmod
    have hread := ha.2 []
    rw [List.append_nil, hopen] at hread
    exact absurd hread (by simp)
  · intro hmod
    refine ⟨Or.inl ((endsShort_iff hn tx).mpr hmod), ?_⟩
    exact readMessage_packets hn tx maxwords (Nat.le_of_lt h) hmod

theorem replyArrivesAlone_iff (fw : Firmware) (status : Word) (s : TxnState σ) :
    ReplyArrivesAlone (txnDone fw status s) ↔ ArrivesAlone (txnDone fw status s).tx := by
  have hlast : (txnDone fw status s).dev.usb.getLast? =
      some (.reply (txnDone fw status s).tx) := by
    simp [txnDone]
  unfold ReplyArrivesAlone
  rw [hlast]
  simp

theorem txnDone_length (fw : Firmware) (status : Word) (s : TxnState σ) :
    (txnDone fw status s).tx.length =
      if (s.tx.length + 1) &&& fw.padMask = 0 then s.tx.length + 2 else s.tx.length + 1 := by
  simp only [txnDone, List.length_append, List.length_singleton]
  split_ifs <;> simp

/-- The reply of a run, with its closing null if there is one. -/
theorem reply_length_of_serves {fw : Firmware} {T : SwdTarget σ} {ms : List Msg} {txnid : Word}
    {rxp : ℕ} {rxc : ℤ} {dev : Device σ} {r : Word × TxnState σ}
    (hR : RunServes fw T ms (txnStart txnid rxp rxc dev) r) :
    (txnDone fw r.1 r.2).tx.length =
      if replyWords fw T ms dev.target &&& fw.padMask = 0 then
        replyWords fw T ms dev.target + 1
      else replyWords fw T ms dev.target := by
  have hlen : r.2.tx.length + 1 = replyWords fw T ms dev.target := by
    rw [hR.session, serveAll_tx_length]
    simp only [txnStart, List.length_singleton, replyWords]
    omega
  rw [txnDone_length, ← hlen]

theorem m3debug_reply_arrives (T : SwdTarget σ) (fuel : ℕ) (txnid : Word) (rx : ℕ → Word)
    (rxp : ℕ) (rxc : ℤ) (dev : Device σ) (s : TxnState σ)
    (h : processTxn m3debug T fuel txnid rx rxp rxc dev = some s)
    (hfit : s.tx.length ≤ m3debug.txWords) : ReplyArrivesAlone s := by
  obtain ⟨r, rfl, hR⟩ := processTxn_some m3debug T fuel txnid rx rxp rxc dev s h
  have hmask := Nat.and_two_pow_sub_one_eq_mod
    (replyWords m3debug T (requests rx rxc.toNat rxp rxc) dev.target) 4
  have hmax : m3debug.txWords < maxwords := by decide
  rw [replyArrivesAlone_iff, arrivesAlone_iff_mod _ (by omega), reply_length_of_serves hR,
    show m3debug.padMask = 2 ^ 4 - 1 from rfl, hmask, packetWords]
  split_ifs <;> omega

/-- swdp closes with a null only before a multiple of 64 words, so a reply of full
packets that is none is left open. -/
theorem swdp_reply_arrives_iff (T : SwdTarget σ) (fuel : ℕ) (txnid : Word) (rx : ℕ → Word)
    (rxp : ℕ) (rxc : ℤ) (dev : Device σ) (s : TxnState σ)
    (h : processTxn swdp T fuel txnid rx rxp rxc dev = some s)
    (hfit : s.tx.length ≤ swdp.txWords) :
    ReplyArrivesAlone s ↔
      ¬ (replyWords swdp T (requests rx rxc.toNat rxp rxc) dev.target % 16 = 0 ∧
        replyWords swdp T (requests rx rxc.toNat rxp rxc) dev.target % 64 ≠ 0) := by
  obtain ⟨r, rfl, hR⟩ := processTxn_some swdp T fuel txnid rx rxp rxc dev s h
  have hmask := Nat.and_two_pow_sub_one_eq_mod
    (replyWords swdp T (requests rx rxc.toNat rxp rxc) dev.target) 6
  have hmax : swdp.txWords < maxwords := by decide
  rw [replyArrivesAlone_iff, arrivesAlone_iff_mod _ (by omega), reply_length_of_serves hR,
    show swdp.padMask = 2 ^ 6 - 1 from rfl, hmask, packetWords]
  split_ifs <;> omega

/-- A request that reads thirteen words. -/
def readThirteen : ℕ → Word :=
  fun i => [rswdTxnStart 1, rswdMsg cmdSwdRead dpIdcode 13].getD i 0

theorem readThirteen_answer (fw : Firmware) :
    ∃ r : Word × TxnState Unit,
      processTxn fw quietTarget 2 (rswdTxnStart 1) readThirteen 1 1 idleDevice =
        some (txnDone fw r.1 r.2) ∧
      (txnDone fw r.1 r.2).tx.length = if 16 &&& fw.padMask = 0 then 17 else 16 := by
  have hd : ¬ startsDownload fw quietTarget (requests readThirteen 1 1 1) () := by
    rintro ⟨m, hm, hdl⟩
    rw [requests_step _ _ _ _ (by decide), requests_ended _ _ _ _ (by decide)] at hm
    rcases List.mem_singleton.mp (mem_of_mem_started hm) with rfl
    exact absurd hdl (by decide)
  obtain ⟨r, hr, hR⟩ := processTxn_serves fw quietTarget (rswdTxnStart 1) readThirteen 1 1
    idleDevice hd 2 (by decide)
  have hwords : replyWords fw quietTarget (requests readThirteen 1 1 1) () = 16 := rfl
  have hlen := reply_length_of_serves hR
  refine ⟨r, hr, ?_⟩
  rw [hlen, show (requests readThirteen (1 : ℤ).toNat 1 1) = requests readThirteen 1 1 1 from rfl]
  show (if replyWords fw quietTarget _ () &&& fw.padMask = 0 then _ else _) = _
  rw [hwords]

/-- The reply of swdp is one full packet, and no short one follows. -/
theorem readThirteen_left_open :
    ∃ s, processTxn swdp quietTarget 2 (rswdTxnStart 1) readThirteen 1 1 idleDevice = some s ∧
      s.tx.length = 16 ∧ ¬ ReplyArrivesAlone s := by
  obtain ⟨r, hr, hlen⟩ := readThirteen_answer swdp
  have h16 : (txnDone swdp r.1 r.2).tx.length = 16 := hlen
  refine ⟨_, hr, h16, ?_⟩
  rw [replyArrivesAlone_iff, arrivesAlone_iff_mod _ (by rw [h16]; decide), h16]
  decide

/-- Which transactions end where the other side can see it: every reply of m3debug,
every request of `q_exec`, and the replies of swdp that are no multiple of 16 words
or one of 64. -/
theorem transactions_end_visibly :
    (∀ (T : SwdTarget σ) (fuel : ℕ) (txnid : Word) (rx : ℕ → Word) (rxp : ℕ) (rxc : ℤ)
        (dev : Device σ) (s : TxnState σ),
      processTxn m3debug T fuel txnid rx rxp rxc dev = some s →
      s.tx.length ≤ m3debug.txWords → ReplyArrivesAlone s) ∧
    (∀ (T : SwdTarget σ) (fuel : ℕ) (txnid : Word) (rx : ℕ → Word) (rxp : ℕ) (rxc : ℤ)
        (dev : Device σ) (s : TxnState σ),
      processTxn swdp T fuel txnid rx rxp rxc dev = some s → s.tx.length ≤ swdp.txWords →
      (ReplyArrivesAlone s ↔
        ¬ (replyWords swdp T (requests rx rxc.toNat rxp rxc) dev.target % 16 = 0 ∧
          replyWords swdp T (requests rx rxc.toNat rxp rxc) dev.target % 64 ≠ 0))) ∧
    (∀ (swdMaxwords : ℕ) (id : Word) (t t' : Txn), qFrame swdMaxwords id t = .ok t' →
      t'.txc % packetWords ≠ 0 ∨ t'.txc = swdMaxwords) := by
  refine ⟨?_, ?_, ?_⟩
  · intro T fuel txnid rx rxp rxc dev s h hfit
    exact m3debug_reply_arrives T fuel txnid rx rxp rxc dev s h hfit
  · intro T fuel txnid rx rxp rxc dev s h hfit
    exact swdp_reply_arrives_iff T fuel txnid rx rxp rxc dev s h hfit
  · intro swdMaxwords id t t' h
    exact qFrame_length h

theorem transactions_end_visibly_thirteen :
    (∃ s, processTxn m3debug quietTarget 2 (rswdTxnStart 1) readThirteen 1 1 idleDevice = some s ∧
      ReplyArrivesAlone s) ∧
    ∃ t', qFrame 512 (rswdTxnStart 1) qInit = .ok t' ∧
      (t'.txc % packetWords ≠ 0 ∨ t'.txc = 512) := by
  have h := transactions_end_visibly (σ := Unit)
  refine ⟨?_, ?_⟩
  · obtain ⟨r, hr, hlen⟩ := readThirteen_answer m3debug
    have hfit : (txnDone m3debug r.1 r.2).tx.length ≤ m3debug.txWords := by
      rw [hlen]
      decide
    exact ⟨_, hr, h.1 quietTarget 2 (rswdTxnStart 1) readThirteen 1 1 idleDevice _ hr hfit⟩
  · have hframe : qFrame 512 (rswdTxnStart 1) qInit =
        .ok { qInit with tx := [rswdTxnStart 1], magic := 0 } := rfl
    exact ⟨_, hframe, h.2.2 512 (rswdTxnStart 1) qInit _ hframe⟩

end M3Dev.Rswdp
