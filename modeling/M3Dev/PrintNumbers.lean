import M3Dev.Print
import Mathlib.Algebra.Order.Floor.Semifield
import Mathlib.Data.Rat.Floor
import Mathlib.Tactic.IntervalCases

/-! What the formats `%u`, `%d` and `%f` print. -/
namespace M3Dev.Print
open Numerals

/-! ### Digits -/

theorem hex_ne_zero {d : ℕ} (h : d < 10) : hex d ≠ 0 := by
  interval_cases d <;> decide

theorem hex_injective {d d' : ℕ} (h : d < 10) (h' : d' < 10) (heq : hex d = hex d') : d = d' := by
  have htable : ∀ i j : Fin 10, hex i = hex j → i = j := by decide
  exact congrArg Fin.val (htable ⟨d, h⟩ ⟨d', h'⟩ heq)

theorem map_hex_injective {ds ds' : List ℕ} (h : ∀ d ∈ ds, d < 10) (h' : ∀ d ∈ ds', d < 10)
    (heq : ds.map hex = ds'.map hex) : ds = ds' := by
  induction ds generalizing ds' with
  | nil => exact (List.map_eq_nil_iff.mp heq.symm).symm
  | cons d ds ih =>
    cases ds' with
    | nil => exact absurd heq (by simp)
    | cons d' ds' =>
      obtain ⟨hhead, htail⟩ := List.cons.inj heq
      have hd := hex_injective (h d List.mem_cons_self) (h' d' List.mem_cons_self) hhead
      have hds := ih (fun x hx => h x (List.mem_cons_of_mem d hx))
        (fun x hx => h' x (List.mem_cons_of_mem d' hx)) htail
      rw [hd, hds]

/-! ### What is written -/

section
variable {tmp : Tmp} {p len w : ℤ} {n : Word} {cs : List Byte}

/-- The loop puts the digits in front of the string that is there, the last one first. -/
theorem printLoop_writes (hp : 0 ≤ p) {passes : ℕ} (hpasses : len + 1 ≤ passes)
    (hshow : Shows tmp (p + len) cs)
    (hroom : ((padded 10 n.toNat w.toNat).length : ℤ) ≤ len) :
    ∃ tmp', printLoop p passes tmp len n w =
        .ok (tmp', len - (padded 10 n.toNat w.toNat).length) ∧
      Shows tmp' (p + len - (padded 10 n.toNat w.toNat).length)
        ((padded 10 n.toNat w.toNat).reverse.map hex ++ cs) ∧
      ∀ i, i < p + len - (padded 10 n.toNat w.toNat).length ∨ p + len ≤ i → tmp' i = tmp i := by
  -- on the passes; the last digit is stored first, and the rest in front of it
  induction passes generalizing tmp len n w cs with
  | zero => omega
  | succ passes ih =>
    rw [printLoop]
    by_cases hmore : n ≠ 0 ∨ 0 < w
    · have hcons : padded 10 n.toNat w.toNat =
          (n % 10).toNat :: padded 10 (n / 10).toNat (w - 1).toNat := by
        have hn : n.toNat ≠ 0 ∨ 0 < w.toNat := by
          refine hmore.imp ?_ (by omega)
          exact fun hne hzero => hne (BitVec.eq_of_toNat_eq hzero)
        have hw : (w - 1).toNat = w.toNat - 1 := by omega
        rw [padded_cons (by decide) hn, BitVec.toNat_umod, BitVec.toNat_udiv, hw]
        rfl
      have hdigit : (n % 10).toNat < 10 := by
        rw [BitVec.toNat_umod]
        exact Nat.mod_lt _ (by decide)
      have hbounds := hshow.bounds
      rw [hcons, List.length_cons, Nat.cast_add, Nat.cast_one] at hroom ⊢
      have hstore : 0 ≤ p + (len - 1) ∧ p + (len - 1) < tmpSize := by omega
      have hat : p + (len - 1) = p + len - 1 := by omega
      have hfront := hshow.front (by omega) (hex_ne_zero hdigit)
      rw [← hat] at hfront
      obtain ⟨tmp', hrun, hshow', hframe⟩ := ih (n := n / 10) (w := w - 1) (by omega) hfront (by omega)
      refine ⟨tmp', ?_, ?_, ?_⟩
      · rw [if_pos ⟨by omega, hmore⟩]
        dsimp only
        rw [store_ok hstore, ok_bind, hrun]
        rw [sub_sub, add_comm (1 : ℤ)]
      · rw [List.reverse_cons, List.map_append, List.append_assoc]
        rw [hat, sub_sub, add_comm (1 : ℤ)] at hshow'
        exact hshow'
      · intro i hi
        rw [hframe i (by omega), Function.update_of_ne (by omega)]
    · -- nothing is left of the number or of the width
      rw [not_or, not_not] at hmore
      have hw : w.toNat = 0 := by omega
      have hnil : padded 10 n.toNat w.toNat = [] := by
        rw [hmore.1, hw]
        exact padded_nil 10
      rw [hnil, List.length_nil, Nat.cast_zero, sub_zero, sub_zero]
      refine ⟨tmp, if_neg ?_, hshow, fun _ _ => rfl⟩
      intro hagain
      rcases hagain.2 with hn | hpos
      · exact hn hmore.1
      · exact hmore.2 hpos

/-- The digits `print_unsigned` prints. -/
def unsignedDigits (n : Word) (w : ℤ) : List ℕ :=
  if w < 0 ∧ n = 0 then [0] else (padded 10 n.toNat w.toNat).reverse

theorem unsignedDigits_neg (h : w < 0) : unsignedDigits n w = numeral 10 n.toNat := by
  unfold unsignedDigits
  by_cases hn : n = 0
  · rw [if_pos ⟨h, hn⟩, hn]
    rfl
  · have hpos : n.toNat ≠ 0 := fun hzero => hn (BitVec.eq_of_toNat_eq hzero)
    have hw : w.toNat = 0 := by omega
    rw [if_neg (fun hz => hn hz.2), hw, padded_zero hpos]

theorem unsignedDigits_one (h : n.toNat < 10) : unsignedDigits n 1 = [n.toNat] := by
  unfold unsignedDigits
  rw [if_neg (by omega)]
  show (padded 10 n.toNat 1).reverse = _
  rw [padded_one (by decide) h]
  rfl

theorem printUnsigned_writes (tmp : Tmp) (len : ℤ) (n : Word) (w : ℤ) (hp : 0 ≤ p)
    (hend : p + len ≤ tmpSize)
    (hroom : ((unsignedDigits n w).length : ℤ) < len) :
    ∃ tmp', printUnsigned tmp p len n w =
        .ok (tmp', p + len - 1 - (unsignedDigits n w).length) ∧
      Shows tmp' (p + len - 1 - (unsignedDigits n w).length) ((unsignedDigits n w).map hex) ∧
      ∀ i, i < p + len - 1 - (unsignedDigits n w).length ∨ p + len ≤ i → tmp' i = tmp i := by
  have hstore : 0 ≤ p + (len - 1) ∧ p + (len - 1) < tmpSize := by omega
  have hat : p + (len - 1) = p + len - 1 := by omega
  -- the empty string, in front of which the digits go
  have hempty : Shows (Function.update tmp (p + (len - 1)) 0) (p + (len - 1)) [] :=
    ⟨hstore.1, hstore.2, Function.update_self ..⟩
  unfold printUnsigned unsignedDigits at *
  by_cases hzero : w < 0 ∧ n = 0
  · simp only [if_pos hzero, List.length_singleton, Nat.cast_one] at hroom ⊢
    have hone : p + (len - 1 - 1) = p + (len - 1) - 1 := by omega
    have hfront := hempty.front (by omega) (hex_ne_zero (Nat.zero_lt_succ 9))
    refine ⟨_, ?_, hat ▸ hfront, ?_⟩
    · rw [store_ok hstore, ok_bind, hone, store_ok (by omega), ← hat]
      rfl
    · intro i hi
      rw [Function.update_of_ne (by omega), Function.update_of_ne (by omega)]
  · simp only [if_neg hzero, List.length_reverse] at hroom ⊢
    obtain ⟨tmp', hrun, hshow, hframe⟩ := printLoop_writes (n := n) (w := w) hp
      (Int.toNat_of_nonneg (by omega : 0 ≤ len - 1 + 1)).ge hempty (by omega)
    refine ⟨tmp', ?_, ?_, ?_⟩
    · rw [store_ok hstore, ok_bind, hrun, ← hat, add_sub_assoc]
      rfl
    · rw [List.append_nil, hat] at hshow
      exact hshow
    · intro i hi
      rw [hframe i (by omega), Function.update_of_ne (by omega)]

end

/-! ### `%u` and `%d` -/

/-- The text of a numeral of `v`. -/
def IsDecimal (text : List Byte) (v : ℕ) : Prop :=
  ∃ ds, text = ds.map hex ∧ IsNumeral 10 ds ∧ value 10 ds = v

theorem isDecimal_numeral (v : ℕ) : IsDecimal ((numeral 10 v).map hex) v :=
  ⟨_, rfl, isNumeral_numeral (by decide) v, value_numeral 10 v⟩

def sign (n : Word) : List Byte := if n.toInt < 0 then [0x2d] else []

theorem toNat_of_nonneg {n : Word} (h : n.toInt ≥ 0) : n.toNat = n.toInt.natAbs := by
  rw [BitVec.toInt_eq_toNat_cond] at h ⊢
  split_ifs at h ⊢ <;> omega

/-- The most negative number is its own opposite, and read as unsigned the right one. -/
theorem opposite_toNat {n : Word} (h : ¬ n.toInt ≥ 0) : (n * -1).toNat = n.toInt.natAbs := by
  have hone : (-1 : Word).toNat = 2 ^ 32 - 1 := by decide
  rw [BitVec.toInt_eq_toNat_cond] at h ⊢
  rw [BitVec.toNat_mul, hone]
  split_ifs at h ⊢ <;> omega

theorem word_numeral_length (n : Word) : (numeral 10 n.toNat).length ≤ 10 := by
  have hn := n.isLt
  exact numeral_length_le (by decide) (by decide) (by omega)

section
variable (tmp : Tmp) (n : Word)

theorem printUnsigned_shows {p len w : ℤ} (hp : 0 ≤ p) (hend : p + len ≤ tmpSize)
    (hroom : 11 < len) (hw : w < 0) :
    ∃ tmp' s, printUnsigned tmp p len n w = .ok (tmp', s) ∧ p < s ∧
      Shows tmp' s ((numeral 10 n.toNat).map hex) := by
  have hlength := word_numeral_length n
  have hdigits := unsignedDigits_neg (n := n) hw
  obtain ⟨tmp', hrun, hshow, _⟩ := printUnsigned_writes tmp len n w hp hend
    (by rw [hdigits]; omega)
  rw [hdigits] at hrun hshow
  exact ⟨tmp', _, hrun, by omega, hshow⟩

theorem printSigned_shows :
    ∃ tmp' s, printSigned tmp 0 tmpSize n (-1) = .ok (tmp', s) ∧
      Shows tmp' s (sign n ++ (numeral 10 n.toInt.natAbs).map hex) := by
  unfold printSigned sign
  by_cases hpos : n.toInt ≥ 0
  · rw [if_pos hpos, if_neg (by omega), ← toNat_of_nonneg hpos]
    obtain ⟨tmp', s, hrun, _, hshow⟩ := printUnsigned_shows tmp n (p := 0) (by decide)
      (by decide : 0 + tmpSize ≤ tmpSize) (by decide) (by decide : (-1 : ℤ) < 0)
    exact ⟨tmp', s, hrun, hshow⟩
  · rw [if_neg hpos, if_pos (by omega), ← opposite_toNat hpos]
    obtain ⟨tmp', s, hrun, hs, hshow⟩ := printUnsigned_shows tmp (n * -1) (p := 1) (by decide)
      (by decide : 1 + (tmpSize - 1) ≤ tmpSize) (by decide) (by decide : (-1 - 1 : ℤ) < 0)
    have hbounds := hshow.bounds
    have hstore : 0 ≤ s - 1 ∧ s - 1 < tmpSize := by omega
    refine ⟨_, s - 1, ?_, hshow.front (by omega) (by decide : (0x2d : Byte) ≠ 0)⟩
    show (printUnsigned tmp 1 (tmpSize - 1) (n * -1) (-1 - 1) >>= fun r => _) = _
    rw [hrun, ok_bind]
    dsimp only
    rw [store_ok hstore, ok_bind]
    rfl

/-- `%u` and `%d` print the numeral of their argument: no store is outside the array, and the
string is the one numeral there is, with a sign for what is less than zero. -/
theorem print_decimal :
    (∃ tmp' s text, printUnsigned tmp 0 tmpSize n (-1) = .ok (tmp', s) ∧ Shows tmp' s text ∧
      IsDecimal text n.toNat) ∧
    ∃ tmp' s text, printSigned tmp 0 tmpSize n (-1) = .ok (tmp', s) ∧
      Shows tmp' s ((if n.toInt < 0 then [0x2d] else []) ++ text) ∧
      IsDecimal text n.toInt.natAbs := by
  constructor
  · obtain ⟨tmp', s, hrun, _, hshow⟩ := printUnsigned_shows tmp n (p := 0) (by decide)
      (by decide : 0 + tmpSize ≤ tmpSize) (by decide) (by decide : (-1 : ℤ) < 0)
    exact ⟨tmp', s, _, hrun, hshow, isDecimal_numeral n.toNat⟩
  · obtain ⟨tmp', s, hrun, hshow⟩ := printSigned_shows tmp n
    exact ⟨tmp', s, _, hrun, hshow, isDecimal_numeral n.toInt.natAbs⟩

end

/-! ### `%f` -/

/-- `n` counts quarters of a 64th: the millionths in it, as `print_ufixed` has them. -/
def millionths (n : Word) : Word := (n >>> 2) * 15625

/-- The text of `print_ufixed`. The digit is rounded, and the integer part is not. -/
def ufixedText (n : Word) : List Byte :=
  (numeral 10 (millionths n / 1000000).toNat).map hex ++
    [0x2e, hex ((millionths n + 50000) / 100000 % 10).toNat]

section
variable (tmp : Tmp) (n : Word)

theorem printUfixed_shows {p len : ℤ} (hp : 0 ≤ p) (hend : p + len ≤ tmpSize) (hlen : 7 < len) :
    ∃ tmp' s, printUfixed tmp p len n = .ok (tmp', s) ∧ p < s ∧ Shows tmp' s (ufixedText n) := by
  have hdigit : ((millionths n + 50000) / 100000 % 10).toNat < 10 := by
    rw [BitVec.toNat_umod]
    exact Nat.mod_lt _ (by decide)
  have hwhole : (numeral 10 (millionths n / 1000000).toNat).length ≤ 4 := by
    have hm := (millionths n).isLt
    apply numeral_length_le (by decide) (by decide)
    rw [BitVec.toNat_udiv]
    show (millionths n).toNat / 1000000 < 10 ^ 4
    omega
  -- the digit behind the point
  obtain ⟨tmp1, hrun1, hshow1, _⟩ := printUnsigned_writes tmp (len - 1)
    ((millionths n + 50000) / 100000 % 10) 1 (by omega : 0 ≤ p + 1) (by omega)
    (by rw [unsignedDigits_one hdigit, List.length_singleton]; omega)
  rw [unsignedDigits_one hdigit, List.length_singleton] at hrun1 hshow1
  generalize hs : p + 1 + (len - 1) - 1 - ((1 : ℕ) : ℤ) = s at hrun1 hshow1
  have hs' : s = p + len - 2 := by omega
  -- the integer part, whose NUL is where the point goes
  obtain ⟨tmp2, hrun2, hshow2, hframe2⟩ := printUnsigned_writes tmp1 (s - p)
    (millionths n / 1000000) (-1) hp (by omega)
    (by rw [unsignedDigits_neg (by decide)]; omega)
  rw [unsignedDigits_neg (by decide)] at hrun2 hshow2 hframe2
  have hpoint : p + (s - p) - 1 - ((numeral 10 (millionths n / 1000000).toNat).length : ℤ) +
      ((numeral 10 (millionths n / 1000000).toNat).map hex).length = s - 1 := by
    rw [List.length_map]
    omega
  have hkept : Shows tmp2 s [hex ((millionths n + 50000) / 100000 % 10).toNat] := by
    apply hshow1.congr
    intro i hi _
    exact hframe2 i (by omega)
  have hjoined := hshow2.join (c := 0x2e) (by rw [hpoint, sub_add_cancel]; exact hkept) (by decide)
  rw [hpoint] at hjoined
  refine ⟨_, _, ?_, ?_, hjoined⟩
  · show (printUnsigned tmp (p + 1) (len - 1) ((millionths n + 50000) / 100000 % 10) 1 >>=
      fun r => _) = _
    rw [hrun1, ok_bind]
    dsimp only
    show (printUnsigned tmp1 p (s - p) (millionths n / 1000000) (-1) >>= fun r => _) = _
    rw [hrun2, ok_bind]
    dsimp only
    rw [store_ok (by omega), ok_bind]
    rfl
  · omega

theorem printFixed_shows :
    ∃ tmp' s, printFixed tmp 0 tmpSize n = .ok (tmp', s) ∧
      Shows tmp' s (sign n ++ ufixedText (if n.toInt < 0 then n * -1 else n)) := by
  unfold printFixed sign
  by_cases hpos : n.toInt ≥ 0
  · rw [if_pos hpos, if_neg (by omega), if_neg (by omega)]
    obtain ⟨tmp', s, hrun, _, hshow⟩ := printUfixed_shows tmp n (p := 0) (by decide)
      (by decide : 0 + tmpSize ≤ tmpSize) (by decide)
    exact ⟨tmp', s, hrun, hshow⟩
  · rw [if_neg hpos, if_pos (by omega), if_pos (by omega)]
    obtain ⟨tmp', s, hrun, hs, hshow⟩ := printUfixed_shows tmp (n * -1) (p := 1) (by decide)
      (by decide : 1 + (tmpSize - 1) ≤ tmpSize) (by decide)
    have hbounds := hshow.bounds
    have hstore : 0 ≤ s - 1 ∧ s - 1 < tmpSize := by omega
    refine ⟨_, s - 1, ?_, hshow.front (by omega) (by decide : (0x2d : Byte) ≠ 0)⟩
    show (printUfixed tmp 1 (tmpSize - 1) (n * -1) >>= fun r => _) = _
    rw [hrun, ok_bind]
    dsimp only
    rw [store_ok hstore, ok_bind]
    rfl

end

/-- An integer part, a point and one digit: `t` tenths. -/
def IsFixed (text : List Byte) (t : ℕ) : Prop :=
  ∃ ip d, text = ip.map hex ++ [0x2e, hex d] ∧ IsNumeral 10 ip ∧ d < 10 ∧ 10 * value 10 ip + d = t

/-- `(|n| >> 2) / 64` in tenths, rounded half up. -/
def tenths (n : Word) : ℕ := ⌊((n.toInt.natAbs >>> 2 : ℕ) : ℚ) / 64 * 10 + 1 / 2⌋₊

theorem tenths_eq (n : Word) : tenths n = (10 * (n.toInt.natAbs >>> 2) + 32) / 64 := by
  have hfraction (v : ℕ) : (v : ℚ) / 64 * 10 + 1 / 2 = ((10 * v + 32 : ℕ) : ℚ) / ((64 : ℕ) : ℚ) := by
    push_cast
    ring
  rw [tenths, hfraction, Nat.floor_div_eq_div]

theorem Shows.unique {tmp : Tmp} {s : ℤ} {cs cs' : List Byte} (h : Shows tmp s cs)
    (h' : Shows tmp s cs') : cs = cs' :=
  Except.ok.inj (h.stringAt.symm.trans h'.stringAt)

/-- The text tells how many tenths it stands for. -/
theorem isFixed_iff {whole d t : ℕ} (hd : d < 10) :
    IsFixed ((numeral 10 whole).map hex ++ [0x2e, hex d]) t ↔ 10 * whole + d = t := by
  have hnumeral := isNumeral_numeral (b := 10) (by decide) whole
  constructor
  · rintro ⟨ip, d', htext, hip, hd', ht⟩
    obtain ⟨hwhole, hlast⟩ := List.append_inj' htext rfl
    have hdigit : hex d = hex d' := (List.cons.inj (List.cons.inj hlast).2).1
    have hsame := map_hex_injective hnumeral.digit hip.digit hwhole
    rw [hex_injective hd hd' hdigit, ← ht, ← hsame, value_numeral]
  · intro ht
    exact ⟨_, d, rfl, hnumeral, hd, by rw [value_numeral, ht]⟩

/-- The parts of the text, for a number small enough not to overflow. -/
theorem ufixedText_eq {n : Word} {a : ℕ} (ha : n.toNat = a) (h : a < 2 ^ 20) :
    ufixedText n = (numeral 10 ((a >>> 2) / 64)).map hex ++
      [0x2e, hex ((10 * (a >>> 2) + 32) / 64 % 10)] := by
  have hshift : a >>> 2 = a / 4 := Nat.shiftRight_eq_div_pow a 2
  have hm : (millionths n).toNat = a / 4 * 15625 := by
    rw [millionths, BitVec.toNat_mul, BitVec.toNat_ushiftRight, ha, hshift]
    show a / 4 * 15625 % 2 ^ 32 = _
    omega
  have hwhole : (millionths n / 1000000).toNat = a / 4 / 64 := by
    rw [BitVec.toNat_udiv, hm]
    show a / 4 * 15625 / 1000000 = _
    omega
  have hdigit : ((millionths n + 50000) / 100000 % 10).toNat = (10 * (a / 4) + 32) / 64 % 10 := by
    rw [BitVec.toNat_umod, BitVec.toNat_udiv, BitVec.toNat_add, hm]
    have hlt : a / 4 * 15625 + 50000 < 2 ^ 32 := by omega
    have htenths : (a / 4 * 15625 + 50000) / 100000 = (10 * (a / 4) + 32) / 64 := by omega
    show (a / 4 * 15625 + 50000) % 2 ^ 32 / 100000 % 10 = _
    rw [Nat.mod_eq_of_lt hlt, htenths]
  rw [ufixedText, hwhole, hdigit, hshift]

/-- `%f` prints the tenths of its argument exactly where rounding the digit does not carry:
the carry into the integer part is left out. -/
theorem print_fixed_iff (tmp : Tmp) {n : Word} (h : n.toInt.natAbs < 2 ^ 20) :
    (∃ tmp' s text, printFixed tmp 0 tmpSize n = .ok (tmp', s) ∧
      Shows tmp' s ((if n.toInt < 0 then [0x2d] else []) ++ text) ∧ IsFixed text (tenths n)) ↔
    (n.toInt.natAbs >>> 2) % 64 < 61 := by
  have habs : (if n.toInt < 0 then n * -1 else n).toNat = n.toInt.natAbs := by
    split_ifs with hneg
    · exact opposite_toNat (by omega)
    · exact toNat_of_nonneg (by omega)
  obtain ⟨tmp1, s1, hrun1, hshow1⟩ := printFixed_shows tmp n
  rw [ufixedText_eq habs h] at hshow1
  have htext : IsFixed _ (tenths n) ↔ (n.toInt.natAbs >>> 2) % 64 < 61 :=
    calc
      IsFixed _ (tenths n)
        ↔ 10 * ((n.toInt.natAbs >>> 2) / 64) + (10 * (n.toInt.natAbs >>> 2) + 32) / 64 % 10 =
            tenths n := isFixed_iff (Nat.mod_lt _ (by decide))
      _ ↔ (n.toInt.natAbs >>> 2) % 64 < 61 := by
        rw [tenths_eq]
        omega
  rw [← htext]
  constructor
  · rintro ⟨tmp2, s2, text, hrun2, hshow2, hfixed⟩
    obtain ⟨rfl, rfl⟩ := Prod.mk.inj (Except.ok.inj (hrun1.symm.trans hrun2))
    have hsame := List.append_cancel_left (hshow1.unique hshow2)
    rw [hsame]
    exact hfixed
  · intro hfixed
    exact ⟨tmp1, s1, _, hrun1, hshow1, hfixed⟩

theorem print_fixed_iff_one :
    (16 : Word).toInt.natAbs < 2 ^ 20 ∧
    ((∃ tmp' s text, printFixed (fun _ => 0) 0 tmpSize 16 = .ok (tmp', s) ∧
      Shows tmp' s ((if (16 : Word).toInt < 0 then [0x2d] else []) ++ text) ∧
      IsFixed text (tenths 16)) ↔ ((16 : Word).toInt.natAbs >>> 2) % 64 < 61) :=
  ⟨by decide, print_fixed_iff (fun _ => 0) (by decide)⟩

/-- 63 / 64 is printed as `0.0`: it rounds to ten tenths. -/
theorem carry_left_out :
    (252 : Word).toInt.natAbs < 2 ^ 20 ∧ tenths 252 = 10 ∧
    (printFixed (fun _ => 0) 0 tmpSize 252 >>= fun r => stringAt r.1 r.2) = .ok [0x30, 0x2e, 0x30] ∧
    ¬ ∃ tmp' s text, printFixed (fun _ => 0) 0 tmpSize 252 = .ok (tmp', s) ∧
      Shows tmp' s ((if (252 : Word).toInt < 0 then [0x2d] else []) ++ text) ∧
      IsFixed text (tenths 252) := by
  have htenths : tenths 252 = 10 := by
    rw [tenths_eq]
    decide
  have hprinted : (printFixed (fun _ => 0) 0 tmpSize 252 >>= fun r => stringAt r.1 r.2) =
      .ok [0x30, 0x2e, 0x30] := rfl
  refine ⟨by decide, htenths, hprinted, ?_⟩
  rintro ⟨tmp', s, text, hrun, hshow, hfixed⟩
  rw [hrun, ok_bind, hshow.stringAt] at hprinted
  have htext : text = (numeral 10 0).map hex ++ [0x2e, hex 0] := Except.ok.inj hprinted
  rw [htext, htenths, isFixed_iff (by decide)] at hfixed
  exact absurd hfixed (by decide)

/-! ### Formats -/

/-- The last `c` hex digits of a word. -/
def hexText : ℕ → Word → List Byte
  | 0, _ => []
  | c + 1, n => hexText c (n >>> 4) ++ [hex (n &&& 0x0F).toNat]

theorem hex_nibble_ne_zero (n : Word) : hex (n &&& 0x0F).toNat ≠ 0 := by
  have hlt : (n &&& 0x0F).toNat < 16 := by
    rw [BitVec.toNat_and]
    exact lt_of_le_of_lt Nat.and_le_right (by decide)
  have htable : ∀ i : Fin 16, hex i ≠ 0 := by decide
  exact htable ⟨_, hlt⟩

theorem printhexLoop_shows {p : ℤ} (hp : 0 ≤ p) {c : ℕ} {tmp : Tmp} {n : Word} {cs : List Byte}
    (h : Shows tmp (p + c) cs) :
    ∃ tmp', printhexLoop p c tmp n = .ok tmp' ∧ Shows tmp' p (hexText c n ++ cs) := by
  induction c generalizing tmp n cs with
  | zero =>
    rw [Nat.cast_zero, add_zero] at h
    exact ⟨tmp, rfl, h⟩
  | succ c ih =>
    have hat : p + ((c + 1 : ℕ) : ℤ) - 1 = p + c := by push_cast; omega
    have hbounds := h.bounds
    have hfront := h.front (by push_cast; omega) (hex_nibble_ne_zero n)
    rw [hat] at hfront
    obtain ⟨tmp', hrun, hshow⟩ := ih (n := n >>> 4) hfront
    refine ⟨tmp', ?_, ?_⟩
    · rw [printhexLoop, store_ok (by push_cast at hbounds; omega), ok_bind]
      exact hrun
    · rw [hexText, List.append_assoc]
      exact hshow

theorem printhex_shows (tmp : Tmp) (n : Word) {c : ℕ} (hc : c < 16) :
    ∃ tmp', printhex tmp 0 c n = .ok (tmp', 0) ∧ Shows tmp' 0 (hexText c n) := by
  have hstore : 0 ≤ (0 : ℤ) + c ∧ (0 : ℤ) + c < tmpSize := by
    rw [tmpSize]
    omega
  have hempty : Shows (Function.update tmp (0 + c) 0) (0 + c) [] :=
    ⟨hstore.1, hstore.2, Function.update_self ..⟩
  obtain ⟨tmp', hrun, hshow⟩ := printhexLoop_shows (n := n) (le_refl 0) hempty
  rw [List.append_nil] at hshow
  refine ⟨tmp', ?_, hshow⟩
  rw [printhex, store_ok hstore, ok_bind, hrun]
  rfl

/-- The text a number is printed as. -/
def numberText (c : Byte) (n : Word) : Option (List Byte) :=
  if c = 0x78 then some (hexText 8 n)
  else if c = 0x68 then some (hexText 4 n)
  else if c = 0x62 then some (hexText 2 n)
  else if c = 0x75 then some ((numeral 10 n.toNat).map hex)
  else if c = 0x64 then some (sign n ++ (numeral 10 n.toInt.natAbs).map hex)
  else if c = 0x66 then some (sign n ++ ufixedText (if n.toInt < 0 then n * -1 else n))
  else none

/-- What a format prints. -/
def rendered (strings : Word → List Byte) : List Byte → (ℕ → Word) → List Word
  | [], _ => []
  | c :: fmt, args =>
    if c ≠ 0x25 then putc c :: rendered strings fmt args
    else
      match fmt with
      | [] => []
      | c :: fmt =>
        let rest : ℕ → Word := fun i => args (i + 1)
        match numberText c (args 0) with
        | some text => text.map putc ++ rendered strings fmt rest
        | none =>
          if c = 0x73 then (strings (args 0)).map putc ++ rendered strings fmt rest
          else if c = 0x63 then args 0 :: rendered strings fmt rest
          else putc c :: rendered strings fmt args

/-- A conversion of a number prints the number's text, whatever the array holds. -/
theorem numberConversion_shows (c : Byte) :
    (numberConversion c = none ∧ ∀ n, numberText c n = none) ∨
    ∃ print, numberConversion c = some print ∧ ∀ tmp n, ∃ text, numberText c n = some text ∧
      ∃ tmp' s, print tmp n = .ok (tmp', s) ∧ Shows tmp' s text := by
  unfold numberConversion numberText
  split_ifs
  · refine Or.inr ⟨_, rfl, fun tmp n => ⟨_, rfl, ?_⟩⟩
    obtain ⟨tmp', h⟩ := printhex_shows tmp n (c := 8) (by decide)
    exact ⟨tmp', 0, h⟩
  · refine Or.inr ⟨_, rfl, fun tmp n => ⟨_, rfl, ?_⟩⟩
    obtain ⟨tmp', h⟩ := printhex_shows tmp n (c := 4) (by decide)
    exact ⟨tmp', 0, h⟩
  · refine Or.inr ⟨_, rfl, fun tmp n => ⟨_, rfl, ?_⟩⟩
    obtain ⟨tmp', h⟩ := printhex_shows tmp n (c := 2) (by decide)
    exact ⟨tmp', 0, h⟩
  · refine Or.inr ⟨_, rfl, fun tmp n => ⟨_, rfl, ?_⟩⟩
    obtain ⟨tmp', s, hrun, _, hshow⟩ := printUnsigned_shows tmp n (p := 0) (by decide)
      (by decide : 0 + tmpSize ≤ tmpSize) (by decide) (by decide : (-1 : ℤ) < 0)
    exact ⟨tmp', s, hrun, hshow⟩
  · exact Or.inr ⟨_, rfl, fun tmp n => ⟨_, rfl, printSigned_shows tmp n⟩⟩
  · exact Or.inr ⟨_, rfl, fun tmp n => ⟨_, rfl, printFixed_shows tmp n⟩⟩
  · exact Or.inl ⟨rfl, fun _ => rfl⟩

/-- Every format is printed to its end, on every array: no conversion stores outside it, or
reads a string that does not end in it. -/
theorem vprintx_renders (strings : Word → List Byte) (fmt : List Byte) (args : ℕ → Word) (tmp : Tmp) :
    vprintx strings fmt args tmp = .ok (rendered strings fmt args) := by
  induction hlen : fmt.length using Nat.strong_induction_on generalizing fmt args tmp with
  | h len ih =>
    subst hlen
    cases fmt with
    | nil => rfl
    | cons c fmt =>
      rw [vprintx.eq_def, rendered.eq_def]
      dsimp only
      by_cases hplain : c ≠ 0x25
      · rw [if_pos hplain, if_pos hplain, ih _ (Nat.lt_succ_self _) fmt args tmp rfl]
        rfl
      · rw [if_neg hplain, if_neg hplain]
        cases fmt with
        | nil => rfl
        | cons c fmt =>
          -- the format behind the conversion
          have hrest (args : ℕ → Word) (tmp : Tmp) :
              vprintx strings fmt args tmp = .ok (rendered strings fmt args) :=
            ih _ (Nat.lt_succ_of_lt (Nat.lt_succ_self _)) fmt args tmp rfl
          dsimp only
          rcases numberConversion_shows c with ⟨hnone, htext⟩ | ⟨print, hprint, hshows⟩
          · rw [hnone, htext]
            dsimp only
            simp only [hrest]
            split_ifs <;> rfl
          · obtain ⟨text, htext, tmp', s, hrun, hshow⟩ := hshows tmp (args 0)
            rw [hprint, htext]
            dsimp only
            rw [hrun, ok_bind, hshow.stringAt, ok_bind, hrest]
            rfl

end M3Dev.Print
