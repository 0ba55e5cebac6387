import M3Dev.Machine
import Mathlib.Logic.Function.Basic
import Mathlib.Data.Int.Notation
import Mathlib.Data.List.Basic
import Mathlib.Algebra.Ring.Nat

/-! Blocks of consecutive words in a memory of 32-bit byte addresses, with contents of any
type: reading a block, storing a block, and what is left alone. -/
namespace M3Dev.WordBlock
variable {α : Type*}

/-- The address of the `i`-th word from `addr` on. -/
def wordAddr (addr : Word) (i : ℕ) : Word := addr + BitVec.ofNat 32 (4 * i)

@[simp] theorem wordAddr_zero (addr : Word) : wordAddr addr 0 = addr := by
  unfold wordAddr
  exact BitVec.add_zero addr

theorem wordAddr_add (addr : Word) (i j : ℕ) :
    wordAddr (wordAddr addr i) j = wordAddr addr (i + j) := by
  unfold wordAddr
  rw [BitVec.add_assoc, ← BitVec.ofNat_add, Nat.mul_add]

/-- Stepping by a number of words computed as a signed value. -/
theorem add_ofInt_words (addr : Word) (n : ℕ) :
    addr + BitVec.ofInt 32 ((n : ℤ) * 4) = wordAddr addr n := by
  have hcast : (n : ℤ) * 4 = ((4 * n : ℕ) : ℤ) := by
    push_cast
    omega
  rw [wordAddr, hcast, BitVec.ofInt_natCast]

theorem wordAddr_aligned {addr : Word} (h : addr.toNat % 4 = 0) (i : ℕ) :
    (wordAddr addr i).toNat % 4 = 0 := by
  rw [wordAddr, BitVec.toNat_add, BitVec.toNat_ofNat]
  omega

theorem wordAddr_injective (addr : Word) {i j : ℕ} (hi : i < 2 ^ 30) (hj : j < 2 ^ 30)
    (h : wordAddr addr i = wordAddr addr j) : i = j := by
  have hoff : BitVec.ofNat 32 (4 * i) = BitVec.ofNat 32 (4 * j) := by
    have hsub := congrArg (fun a => a - addr) h
    simpa only [wordAddr, BitVec.add_comm addr, BitVec.add_sub_cancel] using hsub
  have hnat := congrArg BitVec.toNat hoff
  rw [BitVec.toNat_ofNat, BitVec.toNat_ofNat] at hnat
  omega

/-- What the `n` words from `addr` on hold. -/
def load (mem : Word → α) (addr : Word) (n : ℕ) : List α :=
  (List.range n).map (fun i => mem (wordAddr addr i))

@[simp] theorem load_length (mem : Word → α) (addr : Word) (n : ℕ) :
    (load mem addr n).length = n := by
  rw [load, List.length_map, List.length_range]

theorem load_add (mem : Word → α) (addr : Word) (m n : ℕ) :
    load mem addr (m + n) = load mem addr m ++ load mem (wordAddr addr m) n := by
  unfold load
  rw [List.range_add, List.map_append, List.map_map]
  congr 1
  apply List.map_congr_left
  intro i _
  rw [Function.comp_apply, wordAddr_add]

theorem load_succ (mem : Word → α) (addr : Word) (n : ℕ) :
    load mem addr (n + 1) = mem addr :: load mem (wordAddr addr 1) n := by
  have hone : load mem addr 1 = [mem addr] := by simp [load]
  rw [Nat.add_comm n 1, load_add, hone]
  rfl

/-- The words `ws` stored from `addr` on. -/
def store (mem : Word → α) (addr : Word) : List α → Word → α
  | [] => mem
  | w :: ws => store (Function.update mem addr w) (wordAddr addr 1) ws

theorem store_append (mem : Word → α) (addr : Word) (ws vs : List α) :
    store mem addr (ws ++ vs) = store (store mem addr ws) (wordAddr addr ws.length) vs := by
  induction ws generalizing mem addr with
  | nil =>
    rw [List.nil_append, List.length_nil, wordAddr_zero]
    rfl
  | cons w ws ih =>
    rw [List.cons_append, store, ih, wordAddr_add, List.length_cons, Nat.add_comm 1]
    rfl

theorem store_frame (mem : Word → α) (addr : Word) (ws : List α) (a : Word)
    (h : ∀ i < ws.length, a ≠ wordAddr addr i) : store mem addr ws a = mem a := by
  induction ws generalizing mem addr with
  | nil => rfl
  | cons w ws ih =>
    have hne : a ≠ addr := by simpa using h 0 (Nat.succ_pos _)
    have hrest : ∀ i < ws.length, a ≠ wordAddr (wordAddr addr 1) i := by
      intro i hi
      rw [wordAddr_add, Nat.add_comm]
      exact h (i + 1) (Nat.succ_lt_succ hi)
    rw [store, ih _ _ hrest, Function.update_of_ne hne]

/-- A block shorter than the memory holds what was stored. -/
theorem store_getElem (mem : Word → α) (addr : Word) (ws : List α) (hlen : ws.length ≤ 2 ^ 30)
    (i : ℕ) (hi : i < ws.length) : store mem addr ws (wordAddr addr i) = ws[i] := by
  induction ws generalizing mem addr i with
  | nil => exact absurd hi (Nat.not_lt_zero i)
  | cons w ws ih =>
    rw [List.length_cons] at hlen hi
    cases i with
    | zero =>
      have hfresh : ∀ j < ws.length, addr ≠ wordAddr (wordAddr addr 1) j := by
        intro j hj heq
        rw [wordAddr_add] at heq
        have hzero : wordAddr addr 0 = wordAddr addr (1 + j) := by rw [wordAddr_zero, ← heq]
        have := wordAddr_injective addr (by omega) (by omega) hzero
        omega
      rw [wordAddr_zero, store, store_frame _ _ _ _ hfresh, Function.update_self]
      rfl
    | succ i =>
      have haddr : wordAddr addr (i + 1) = wordAddr (wordAddr addr 1) i := by
        rw [wordAddr_add, Nat.add_comm]
      rw [List.getElem_cons_succ, store, haddr]
      exact ih _ _ (by omega) i (by omega)

end M3Dev.WordBlock
