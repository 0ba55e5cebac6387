import M3Dev.Machine
import M3Dev.Numerals
import Mathlib.Logic.Function.Basic

/-! `libfw/print.c`: numbers written into a small array from its end towards its beginning,
and the formats that print them. -/
namespace M3Dev.Print
open Numerals

/-- The size of `tmp` in `vprintx`. -/
def tmpSize : ℤ := 16

/-- The array; pointers into it are numbers of its cells. -/
abbrev Tmp := ℤ → Byte

/-- `tmp[i] = c` -/
def store (tmp : Tmp) (i : ℤ) (c : Byte) : Except Stop Tmp :=
  if 0 ≤ i ∧ i < tmpSize then .ok (Function.update tmp i c) else .error .outOfBounds

/-- `"0123456789ABCDEF"` -/
def hexTable : List Byte :=
  [0x30, 0x31, 0x32, 0x33, 0x34, 0x35, 0x36, 0x37, 0x38, 0x39, 0x41, 0x42, 0x43, 0x44, 0x45, 0x46]

/-- `hex[n]` -/
def hex (n : ℕ) : Byte := hexTable.getD n 0

/-- The passes of the loop of `printhex`, for `c` digits. -/
def printhexLoop (p : ℤ) : ℕ → Tmp → Word → Except Stop Tmp
  | 0, tmp, _ => .ok tmp
  | c + 1, tmp, n => do
    let tmp ← store tmp (p + c) (hex (n &&& 0x0F).toNat)
    printhexLoop p c tmp (n >>> 4)

/-- `printhex(tmp + p, c, n)`: the array, and the pointer returned. -/
def printhex (tmp : Tmp) (p : ℤ) (c : ℕ) (n : Word) : Except Stop (Tmp × ℤ) := do
  let tmp ← store tmp (p + c) 0
  let tmp ← printhexLoop p c tmp n
  return (tmp, p)

/-- The loop of `print_unsigned`. `len` goes down by one a pass and ends the loop at -1, so
that `len + 1` passes are enough. -/
def printLoop (p : ℤ) : ℕ → Tmp → ℤ → Word → ℤ → Except Stop (Tmp × ℤ)
  | 0, tmp, len, _, _ => .ok (tmp, len)
  | passes + 1, tmp, len, n, w =>
    if len ≥ 0 ∧ (n ≠ 0 ∨ w > 0) then do
      let len := len - 1
      let tmp ← store tmp (p + len) (hex (n % 10).toNat)
      printLoop p passes tmp len (n / 10) (w - 1)
    else .ok (tmp, len)

/-- `print_unsigned(tmp + p, len, n, w)` -/
def printUnsigned (tmp : Tmp) (p len : ℤ) (n : Word) (w : ℤ) : Except Stop (Tmp × ℤ) := do
  let len := len - 1
  let tmp ← store tmp (p + len) 0
  if w < 0 ∧ n = 0 then
    let len := len - 1
    let tmp ← store tmp (p + len) 0x30
    return (tmp, p + len)
  else
    let (tmp, len) ← printLoop p (len + 1).toNat tmp len n w
    return (tmp, p + len)

/-- `print_signed(tmp + p, len, n, w)` -/
def printSigned (tmp : Tmp) (p len : ℤ) (n : Word) (w : ℤ) : Except Stop (Tmp × ℤ) := do
  if n.toInt ≥ 0 then printUnsigned tmp p len n w
  else
    let (tmp, s) ← printUnsigned tmp (p + 1) (len - 1) (n * -1) (w - 1)
    let s := s - 1
    let tmp ← store tmp s 0x2d
    return (tmp, s)

/-- `print_ufixed(tmp + p, len, n)` -/
def printUfixed (tmp : Tmp) (p len : ℤ) (n : Word) : Except Stop (Tmp × ℤ) := do
  let n := n >>> 2
  let n := n * 15625
  let (tmp, s) ← printUnsigned tmp (p + 1) (len - 1) ((n + 50000) / 100000 % 10) 1
  let point := s - 1
  let (tmp, s) ← printUnsigned tmp p (s - p) (n / 1000000) (-1)
  let tmp ← store tmp point 0x2e
  return (tmp, s)

/-- `print_fixed(tmp + p, len, n)` -/
def printFixed (tmp : Tmp) (p len : ℤ) (n : Word) : Except Stop (Tmp × ℤ) := do
  if n.toInt ≥ 0 then printUfixed tmp p len n
  else
    let (tmp, s) ← printUfixed tmp (p + 1) (len - 1) (n * -1)
    let s := s - 1
    let tmp ← store tmp s 0x2d
    return (tmp, s)

/-! ### vprintx -/

/-- The characters from `s` on, up to a NUL in the next `room` cells. -/
def stringFrom : ℕ → Tmp → ℤ → Except Stop (List Byte)
  | 0, _, _ => .error .outOfBounds
  | room + 1, tmp, s =>
    if tmp s = 0 then .ok []
    else do
      let cs ← stringFrom room tmp (s + 1)
      return tmp s :: cs

/-- The string a pointer into the array points to. -/
def stringAt (tmp : Tmp) (s : ℤ) : Except Stop (List Byte) :=
  if 0 ≤ s then stringFrom (tmpSize - s).toNat tmp s else .error .outOfBounds

/-- The conversions that print a number. -/
def numberConversion (c : Byte) : Option (Tmp → Word → Except Stop (Tmp × ℤ)) :=
  if c = 0x78 then some fun tmp n => printhex tmp 0 8 n
  else if c = 0x68 then some fun tmp n => printhex tmp 0 4 n
  else if c = 0x62 then some fun tmp n => printhex tmp 0 2 n
  else if c = 0x75 then some fun tmp n => printUnsigned tmp 0 tmpSize n (-1)
  else if c = 0x64 then some fun tmp n => printSigned tmp 0 tmpSize n (-1)
  else if c = 0x66 then some fun tmp n => printFixed tmp 0 tmpSize n
  else none

/-- A `char` handed to `_putc`. -/
def putc (c : Byte) : Word := c.setWidth 32

/-- The calls of `_putc`. `args` are the arguments that have not been taken yet, and `strings`
what the pointers among them point to. -/
def vprintx (strings : Word → List Byte) : List Byte → (ℕ → Word) → Tmp → Except Stop (List Word)
  | [], _, _ => .ok []
  | c :: fmt, args, tmp =>
    if c ≠ 0x25 then do
      let out ← vprintx strings fmt args tmp
      return putc c :: out
    else
      match fmt with
      | [] => .ok []
      | c :: fmt =>
        let rest : ℕ → Word := fun i => args (i + 1)
        match numberConversion c with
        | some print => do
          let (tmp, s) ← print tmp (args 0)
          let str ← stringAt tmp s
          let out ← vprintx strings fmt rest tmp
          return str.map putc ++ out
        | none =>
          if c = 0x73 then do
            let out ← vprintx strings fmt rest tmp
            return (strings (args 0)).map putc ++ out
          else if c = 0x63 then do
            let out ← vprintx strings fmt rest tmp
            return args 0 :: out
          else do
            let out ← vprintx strings fmt args tmp
            return putc c :: out

/-! ### Strings in the array -/

/-- The string at `s`, with its NUL inside the array. -/
def Shows (tmp : Tmp) : ℤ → List Byte → Prop
  | s, [] => 0 ≤ s ∧ s < tmpSize ∧ tmp s = 0
  | s, c :: cs => 0 ≤ s ∧ tmp s = c ∧ c ≠ 0 ∧ Shows tmp (s + 1) cs

variable {tmp tmp' : Tmp} {s : ℤ} {cs : List Byte} {c : Byte}

theorem Shows.bounds (h : Shows tmp s cs) : 0 ≤ s ∧ s + cs.length < tmpSize := by
  induction cs generalizing s with
  | nil => exact ⟨h.1, by simpa using h.2.1⟩
  | cons c cs ih =>
    have hrest := (ih h.2.2.2).2
    refine ⟨h.1, ?_⟩
    rw [List.length_cons]
    omega

theorem Shows.congr (h : Shows tmp s cs) (hsame : ∀ i, s ≤ i → i ≤ s + cs.length → tmp' i = tmp i) :
    Shows tmp' s cs := by
  induction cs generalizing s with
  | nil => exact ⟨h.1, h.2.1, (hsame s le_rfl (by simp)).trans h.2.2⟩
  | cons c cs ih =>
    rw [List.length_cons] at hsame
    refine ⟨h.1, (hsame s le_rfl (by omega)).trans h.2.1, h.2.2.1, ih h.2.2.2 ?_⟩
    intro i hlow hhigh
    exact hsame i (by omega) (by omega)

/-- One more character in front of a string. -/
theorem Shows.front (h : Shows tmp s cs) (hs : 0 < s) (hc : c ≠ 0) :
    Shows (Function.update tmp (s - 1) c) (s - 1) (c :: cs) := by
  have hnext : s - 1 + 1 = s := by omega
  refine ⟨by omega, Function.update_self .., hc, ?_⟩
  rw [hnext]
  apply h.congr
  intro i hi _
  exact Function.update_of_ne (by omega) _ _

/-- Two strings become one when a character takes the place of the NUL between them. -/
theorem Shows.join {as : List Byte} (ha : Shows tmp s as) (h : Shows tmp (s + as.length + 1) cs)
    (hc : c ≠ 0) : Shows (Function.update tmp (s + as.length) c) s (as ++ c :: cs) := by
  induction as generalizing s with
  | nil =>
    simp only [List.length_nil, Nat.cast_zero, add_zero] at h ⊢
    refine ⟨ha.1, Function.update_self .., hc, h.congr ?_⟩
    intro i hi _
    exact Function.update_of_ne (by omega) _ _
  | cons a as ih =>
    have hat : s + (as.length + 1 : ℕ) = s + 1 + as.length := by push_cast; omega
    rw [List.length_cons, hat] at h ⊢
    refine ⟨ha.1, ?_, ha.2.2.1, ih ha.2.2.2 h⟩
    rw [Function.update_of_ne (by omega), ha.2.1]

theorem Shows.stringFrom (h : Shows tmp s cs) {room : ℕ} (hroom : cs.length < room) :
    stringFrom room tmp s = .ok cs := by
  induction cs generalizing s room with
  | nil =>
    obtain ⟨room, rfl⟩ := Nat.exists_eq_succ_of_ne_zero (Nat.ne_zero_of_lt hroom)
    rw [Print.stringFrom, if_pos h.2.2]
  | cons c cs ih =>
    obtain ⟨room, rfl⟩ := Nat.exists_eq_succ_of_ne_zero (Nat.ne_zero_of_lt hroom)
    obtain ⟨_, hc, hne, hrest⟩ := h
    rw [Print.stringFrom, hc, if_neg hne, ih hrest (Nat.lt_of_succ_lt_succ hroom)]
    rfl

theorem Shows.stringAt (h : Shows tmp s cs) : stringAt tmp s = .ok cs := by
  obtain ⟨hs, hend⟩ := h.bounds
  rw [Print.stringAt, if_pos hs]
  exact h.stringFrom (by omega)

theorem store_ok (h : 0 ≤ s ∧ s < tmpSize) : store tmp s c = .ok (Function.update tmp s c) := if_pos h

end M3Dev.Print
