import M3Dev.WordBlock
import Mathlib.Data.List.GetD
import Mathlib.Tactic.IntervalCases

/-! A memory of 32-bit words as bytes, little-endian: bytes read from it, and bytes
stored by rewriting the words they lie in. -/
namespace M3Dev.ByteBlock
open WordBlock

/-- The word whose bytes in memory are `b 0` to `b 3`. -/
def leWord (b : ℕ → Byte) : Word :=
  (b 0).setWidth 32 ||| (b 1).setWidth 32 <<< 8 ||| (b 2).setWidth 32 <<< 16 |||
    (b 3).setWidth 32 <<< 24

/-- The word `x` with `bs` put over its bytes from `offset` on. -/
def patchWord (x : Word) (offset : ℕ) (bs : List Byte) : Word :=
  leWord fun i =>
    if offset ≤ i then (bs[i - offset]?).getD ((wordBytes x).getD i 0) else (wordBytes x).getD i 0

/-- The words at a byte pointer. -/
def wordsAt (bs : List Byte) (i : ℕ) : Word := leWord fun k => bs.getD (4 * i + k) 0

theorem wordBytes_leWord (b : ℕ → Byte) : wordBytes (leWord b) = [b 0, b 1, b 2, b 3] := by
  unfold wordBytes leWord
  congr 1
  · apply BitVec.eq_of_getLsbD_eq
    intro i hi
    interval_cases i <;> simp
  congr 1
  · apply BitVec.eq_of_getLsbD_eq
    intro i hi
    interval_cases i <;> simp
  congr 1
  · apply BitVec.eq_of_getLsbD_eq
    intro i hi
    interval_cases i <;> simp
  congr 1
  apply BitVec.eq_of_getLsbD_eq
  intro i hi
  interval_cases i <;> simp

theorem leWord_congr {b c : ℕ → Byte} (h : ∀ k < 4, b k = c k) : leWord b = leWord c := by
  unfold leWord
  rw [h 0 (by decide), h 1 (by decide), h 2 (by decide), h 3 (by decide)]

/-- The words at a pointer are made of the bytes there. -/
theorem wordsAt_bytes (bs : List Byte) {n : ℕ} (hn : 4 * n ≤ bs.length) :
    ((List.range n).map (wordsAt bs)).flatMap wordBytes = bs.take (4 * n) := by
  induction n with
  | zero => rfl
  | succ n ih =>
    have hword : wordBytes (wordsAt bs n) = (bs.drop (4 * n)).take 4 := by
      rw [wordsAt, wordBytes_leWord]
      apply List.ext_getElem
      · rw [List.length_take, List.length_drop]
        show 4 = _
        omega
      intro k hk _
      have hk' : k < 4 := hk
      rw [List.getElem_take, List.getElem_drop]
      rw [← List.getD_eq_getElem bs 0]
      interval_cases k <;> rfl
    have hsplit : 4 * (n + 1) = 4 * n + 4 := by omega
    rw [List.range_succ, List.map_append, List.flatMap_append, ih (by omega), hsplit, List.take_add]
    congr 1

theorem leWord_wordBytes (w : Word) : leWord (fun i => (wordBytes w).getD i 0) = w := by
  apply BitVec.eq_of_getLsbD_eq
  intro i hi
  unfold leWord wordBytes
  interval_cases i <;> simp

theorem flatMap_wordBytes_length (ws : List Word) : (ws.flatMap wordBytes).length = 4 * ws.length := by
  induction ws with
  | nil => rfl
  | cons w ws ih =>
    rw [List.flatMap_cons, List.length_append, wordBytes_length, ih, List.length_cons]
    omega

theorem patchWord_full (x w : Word) : patchWord x 0 (wordBytes w) = w := by
  have hsame : patchWord x 0 (wordBytes w) = leWord (fun i => (wordBytes w).getD i 0) := by
    apply leWord_congr
    intro k hk
    rw [if_pos (Nat.zero_le k), Nat.sub_zero, List.getElem?_eq_getElem (by rwa [wordBytes_length]),
      Option.getD_some, List.getD_eq_getElem]
  rw [hsame, leWord_wordBytes]

theorem getD_leWord (b : ℕ → Byte) {k : ℕ} (hk : k < 4) : (wordBytes (leWord b)).getD k 0 = b k := by
  rw [wordBytes_leWord]
  interval_cases k <;> rfl

/-! ### Byte addresses -/

theorem and_three_toNat (a : Word) : (a &&& 3).toNat = a.toNat % 4 := by
  rw [BitVec.toNat_and]
  exact Nat.and_two_pow_sub_one_eq_mod _ 2

theorem align_toNat (a : Word) : (a &&& ~~~3).toNat = a.toNat - a.toNat % 4 := by
  have hshift : a &&& (~~~3 : Word) = (a >>> 2) <<< 2 := by
    apply BitVec.eq_of_getLsbD_eq
    intro i hi
    interval_cases i <;> simp
  have hlt := a.isLt
  rw [hshift, BitVec.toNat_shiftLeft, BitVec.toNat_ushiftRight, Nat.shiftRight_eq_div_pow,
    Nat.shiftLeft_eq]
  omega

theorem align_aligned (a : Word) : (a &&& ~~~3).toNat % 4 = 0 := by
  rw [align_toNat]
  omega

/-- The byte at an address. -/
def byteAt (mem : Word → Word) (a : Word) : Byte := (wordBytes (mem (a &&& ~~~3))).getD (a.toNat % 4) 0

/-- The `i`-th byte from an address on. -/
def byteAddr (addr : Word) (i : ℕ) : Word := addr + BitVec.ofNat 32 i

@[simp] theorem byteAddr_zero (addr : Word) : byteAddr addr 0 = addr := BitVec.add_zero addr

theorem byteAddr_add (addr : Word) (i j : ℕ) : byteAddr (byteAddr addr i) j = byteAddr addr (i + j) := by
  unfold byteAddr
  rw [BitVec.add_assoc, ← BitVec.ofNat_add]

theorem byteAddr_toNat (addr : Word) (i : ℕ) :
    (byteAddr addr i).toNat = (addr.toNat + i) % 2 ^ 32 := by
  rw [byteAddr, BitVec.toNat_add, BitVec.toNat_ofNat]
  omega

theorem byteAddr_injective (addr : Word) {i j : ℕ} (hi : i < 2 ^ 32) (hj : j < 2 ^ 32)
    (h : byteAddr addr i = byteAddr addr j) : i = j := by
  have hnat := congrArg BitVec.toNat h
  rw [byteAddr_toNat, byteAddr_toNat] at hnat
  have := addr.isLt
  omega

/-- The bytes of an aligned word. -/
theorem byteAt_word (mem : Word → Word) {a : Word} (haligned : a.toNat % 4 = 0) {k : ℕ}
    (hk : k < 4) : byteAt mem (byteAddr a k) = (wordBytes (mem a)).getD k 0 := by
  have hlt := a.isLt
  have hnat : (byteAddr a k).toNat = a.toNat + k := by
    rw [byteAddr_toNat]
    omega
  have hbase : byteAddr a k &&& ~~~3 = a := by
    apply BitVec.eq_of_toNat_eq
    rw [align_toNat, hnat]
    omega
  have hoff : (byteAddr a k).toNat % 4 = k := by
    rw [hnat]
    omega
  rw [byteAt, hbase, hoff]

/-- Every address is a byte of the aligned word below it. -/
theorem byteAddr_align (a : Word) : byteAddr (a &&& ~~~3) (a.toNat % 4) = a := by
  apply BitVec.eq_of_toNat_eq
  have hlt := a.isLt
  rw [byteAddr_toNat, align_toNat]
  omega

/-- The bytes from an address on. -/
def bytesFrom (mem : Word → Word) (addr : Word) (n : ℕ) : List Byte :=
  (List.range n).map (fun i => byteAt mem (byteAddr addr i))

theorem bytesFrom_add (mem : Word → Word) (addr : Word) (m n : ℕ) :
    bytesFrom mem addr (m + n) = bytesFrom mem addr m ++ bytesFrom mem (byteAddr addr m) n := by
  unfold bytesFrom
  rw [List.range_add, List.map_append, List.map_map]
  congr 1
  apply List.map_congr_left
  intro i _
  rw [Function.comp_apply, byteAddr_add]

theorem wordBytes_eq_bytesFrom (mem : Word → Word) {a : Word} (haligned : a.toNat % 4 = 0) :
    wordBytes (mem a) = bytesFrom mem a 4 := by
  apply List.ext_getElem
  · rfl
  intro k hk _
  rw [wordBytes_length] at hk
  have hbyte := byteAt_word mem haligned hk
  simp only [bytesFrom, List.getElem_map, List.getElem_range]
  rw [hbyte, List.getD_eq_getElem]

/-- The bytes of a block of words. -/
theorem load_wordBytes (mem : Word → Word) {addr : Word} (haligned : addr.toNat % 4 = 0) (n : ℕ) :
    (load mem addr n).flatMap wordBytes = bytesFrom mem addr (4 * n) := by
  induction n generalizing addr with
  | zero => rfl
  | succ n ih =>
    have hsplit : 4 * (n + 1) = 4 + 4 * n := by omega
    rw [load_succ, List.flatMap_cons, ih (wordAddr_aligned haligned 1), hsplit, bytesFrom_add,
      wordBytes_eq_bytesFrom mem haligned]
    rfl

/-! ### Bytes stored -/

/-- `mem'` is `mem` with the bytes `bs` at `addr` and nothing else changed. -/
structure Stored (mem mem' : Word → Word) (addr : Word) (bs : List Byte) : Prop where
  bytes : ∀ i (h : i < bs.length), byteAt mem' (byteAddr addr i) = bs[i]
  rest : ∀ a, (∀ i < bs.length, a ≠ byteAddr addr i) → byteAt mem' a = byteAt mem a

theorem Stored.nil (mem : Word → Word) (addr : Word) : Stored mem mem addr [] where
  bytes := fun _ h => absurd h (Nat.not_lt_zero _)
  rest := fun _ _ => rfl

theorem Stored.append {mem mem' mem'' : Word → Word} {addr : Word} {xs ys : List Byte}
    (h : Stored mem mem' addr xs) (h' : Stored mem' mem'' (byteAddr addr xs.length) ys)
    (hlen : xs.length + ys.length ≤ 2 ^ 32) : Stored mem mem'' addr (xs ++ ys) where
  bytes := by
    intro i hi
    rw [List.length_append] at hi
    by_cases hx : i < xs.length
    · -- the second block does not reach back to the first
      have hfree : ∀ j < ys.length, byteAddr addr i ≠ byteAddr (byteAddr addr xs.length) j := by
        intro j hj heq
        rw [byteAddr_add] at heq
        have := byteAddr_injective addr (by omega) (by omega) heq
        omega
      rw [h'.rest _ hfree, h.bytes i hx, List.getElem_append_left hx]
    · have hy := h'.bytes (i - xs.length) (by omega)
      rw [byteAddr_add, Nat.add_sub_cancel' (by omega)] at hy
      rw [hy, List.getElem_append_right (by omega)]
  rest := by
    intro a ha
    rw [h'.rest, h.rest]
    · intro i hi
      exact ha i (by rw [List.length_append]; omega)
    · intro j hj
      rw [byteAddr_add]
      exact ha _ (by rw [List.length_append]; omega)

/-- A word rewritten with some of its bytes replaced. -/
theorem stored_patch (mem : Word → Word) {a : Word} (haligned : a.toNat % 4 = 0) {offset : ℕ}
    {bs : List Byte} (hfit : offset + bs.length ≤ 4) :
    Stored mem (Function.update mem a (patchWord (mem a) offset bs)) (byteAddr a offset) bs where
  bytes := by
    intro i hi
    have hk : offset + i < 4 := by omega
    rw [byteAddr_add, byteAt_word _ haligned hk, Function.update_self, patchWord,
      getD_leWord _ hk, if_pos (Nat.le_add_right _ _), Nat.add_sub_cancel_left,
      List.getElem?_eq_getElem hi, Option.getD_some]
  rest := by
    intro b hb
    have hsplit := byteAddr_align b
    have hlt : b.toNat % 4 < 4 := Nat.mod_lt _ (by decide)
    by_cases hword : b &&& ~~~3 = a
    · -- another byte of the same word
      rw [hword] at hsplit
      have hout : ¬ (offset ≤ b.toNat % 4 ∧ b.toNat % 4 - offset < bs.length) := by
        rintro ⟨hle, hin⟩
        apply hb _ hin
        rw [byteAddr_add, Nat.add_sub_cancel' hle, hsplit]
      rw [← hsplit, byteAt_word _ haligned hlt, byteAt_word _ haligned hlt, Function.update_self,
        patchWord, getD_leWord _ hlt]
      split_ifs with hle
      · have hnone : bs[b.toNat % 4 - offset]? = none := by
          rw [List.getElem?_eq_none_iff]
          omega
        rw [hnone, Option.getD_none]
      · rfl
    · rw [byteAt, byteAt, Function.update_of_ne hword]

/-- A block of words stored. -/
theorem stored_words (mem : Word → Word) {addr : Word} (haligned : addr.toNat % 4 = 0)
    (ws : List Word) (hlen : ws.length ≤ 2 ^ 30) :
    Stored mem (store mem addr ws) addr (ws.flatMap wordBytes) := by
  induction ws generalizing mem addr with
  | nil => exact Stored.nil mem addr
  | cons w ws ih =>
    rw [List.length_cons] at hlen
    have hone := @stored_patch mem _ haligned 0 (wordBytes w)
      (by rw [wordBytes_length])
    rw [patchWord_full, byteAddr_zero] at hone
    have hrest := ih (Function.update mem addr w) (wordAddr_aligned haligned 1) (by omega)
    have hnext : byteAddr addr (wordBytes w).length = wordAddr addr 1 := rfl
    rw [← hnext] at hrest
    rw [List.flatMap_cons, store, ← hnext]
    exact hone.append hrest (by rw [wordBytes_length, flatMap_wordBytes_length]; omega)

end M3Dev.ByteBlock
