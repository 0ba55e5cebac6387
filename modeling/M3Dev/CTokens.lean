import M3Dev.Machine
import M3Dev.Numerals

/-! The tokens of an initializer in C: braces, commas, decimal numbers and string literals. Octal
and universal escapes are not read. -/
namespace M3Dev.CTokens
open Numerals

inductive Token where
  | opening
  | closing
  | comma
  | number (n : ℕ)
  | string (bytes : List Byte)
  deriving Repr, DecidableEq

/-- Inside a token, with what has been read of it. -/
inductive Lexer where
  | between
  | digits (ds : List ℕ)
  | literal (bytes : List Byte)
  | escape (bytes : List Byte)
  /-- a hexadecimal escape goes on as long as there are digits -/
  | hex (bytes : List Byte) (v : Option ℕ)
  deriving Repr, DecidableEq

def digitValue (c : Byte) : Option ℕ :=
  if 0x30 ≤ c ∧ c ≤ 0x39 then some (c.toNat - 0x30) else none

def hexDigitValue (c : Byte) : Option ℕ :=
  if 0x30 ≤ c ∧ c ≤ 0x39 then some (c.toNat - 0x30)
  else if 0x61 ≤ c ∧ c ≤ 0x66 then some (c.toNat - 0x61 + 10)
  else if 0x41 ≤ c ∧ c ≤ 0x46 then some (c.toNat - 0x41 + 10)
  else none

/-- The escapes of one character. -/
def simpleEscape (c : Byte) : Option Byte :=
  if c = 0x22 ∨ c = 0x27 ∨ c = 0x3f ∨ c = 0x5c then some c
  else if c = 0x61 then some 7
  else if c = 0x62 then some 8
  else if c = 0x74 then some 9
  else if c = 0x6e then some 10
  else if c = 0x76 then some 11
  else if c = 0x66 then some 12
  else if c = 0x72 then some 13
  else none

namespace Lexer

def stepBetween (c : Byte) : Option (Lexer × List Token) :=
  if c = 0x20 ∨ c = 0x09 ∨ c = 0x0a then some (between, [])
  else if c = 0x7b then some (between, [.opening])
  else if c = 0x7d then some (between, [.closing])
  else if c = 0x2c then some (between, [.comma])
  else if c = 0x22 then some (literal [], [])
  else (digitValue c).map fun d => (digits [d], [])

def stepLiteral (bytes : List Byte) (c : Byte) : Option (Lexer × List Token) :=
  if c = 0x22 then some (between, [.string bytes])
  else if c = 0x5c then some (escape bytes, [])
  else if c = 0x0a then none
  else some (literal (bytes ++ [c]), [])

/-- One character; `none` where the text is not C, or not of this part of it. -/
def step : Lexer → Byte → Option (Lexer × List Token)
  | between, c => stepBetween c
  | digits ds, c =>
    match digitValue c with
    | some d => some (digits (ds ++ [d]), [])
    | none =>
      -- a zero in front makes a number octal
      if ds.head? = some 0 ∧ ds ≠ [0] then none
      else (stepBetween c).map fun r => (r.1, .number (value 10 ds) :: r.2)
  | literal bytes, c => stepLiteral bytes c
  | escape bytes, c =>
    if c = 0x78 then some (hex bytes none, [])
    else (simpleEscape c).map fun b => (literal (bytes ++ [b]), [])
  | hex bytes v, c =>
    match hexDigitValue c with
    | some d => some (hex bytes (some (16 * v.getD 0 + d)), [])
    | none =>
      match v with
      | some n => if n < 256 then stepLiteral (bytes ++ [BitVec.ofNat 8 n]) c else none
      | none => none

def run : Lexer → List Byte → Option (Lexer × List Token)
  | l, [] => some (l, [])
  | l, c :: cs => (l.step c).bind fun r => (run r.1 cs).map fun r' => (r'.1, r.2 ++ r'.2)

end Lexer

/-- String literals next to each other are one. -/
def join : Token → List Token → List Token
  | .string a, .string b :: ts => .string (a ++ b) :: ts
  | t, ts => t :: ts

def tokens (text : List Byte) : Option (List Token) :=
  (Lexer.run .between text).bind fun r => if r.1 = .between then some (r.2.foldr join []) else none

/-! ### What is read -/

namespace Lexer
variable {l l' l'' : Lexer} {ts ts' : List Token} {bytes : List Byte} {c : Byte}

theorem run_append {xs ys : List Byte} (h : l.run xs = some (l', ts)) (h' : l'.run ys = some (l'', ts')) :
    l.run (xs ++ ys) = some (l'', ts ++ ts') := by
  induction xs generalizing l ts with
  | nil =>
    obtain ⟨rfl, rfl⟩ := Prod.mk.inj (Option.some.inj h)
    exact h'
  | cons c xs ih =>
    obtain ⟨r, hstep, hrest⟩ := Option.bind_eq_some_iff.mp h
    obtain ⟨q, hq, hpair⟩ := Option.map_eq_some_iff.mp hrest
    obtain ⟨rfl, rfl⟩ := Prod.mk.inj hpair
    rw [List.cons_append, run, hstep, Option.bind_some, ih hq, Option.map_some, List.append_assoc]

theorem run_cons {cs : List Byte} (h : l.step c = some (l', ts)) (h' : l'.run cs = some (l'', ts')) :
    l.run (c :: cs) = some (l'', ts ++ ts') := by
  rw [run, h, Option.bind_some, h', Option.map_some]

/-- Characters that stand for themselves. -/
def PlainChar (c : Byte) : Prop := c ≠ 0x22 ∧ c ≠ 0x5c ∧ c ≠ 0x0a

theorem run_literal {cs : List Byte} (hcs : ∀ c ∈ cs, PlainChar c) (bytes : List Byte) :
    (literal bytes).run cs = some (literal (bytes ++ cs), []) := by
  induction cs generalizing bytes with
  | nil => rw [List.append_nil, run]
  | cons c cs ih =>
    obtain ⟨hquote, hescape, hnewline⟩ := hcs c (List.mem_cons_self ..)
    have hstep : (literal bytes).step c = some (literal (bytes ++ [c]), []) := by
      rw [step, stepLiteral, if_neg hquote, if_neg hescape, if_neg hnewline]
    have hrest := ih (fun c' hc' => hcs c' (List.mem_cons_of_mem c hc')) (bytes ++ [c])
    rw [run_cons hstep hrest, List.append_assoc]
    rfl

/-- These bytes have been read, the last of them perhaps as an escape that might go on. -/
def Holds (l : Lexer) (bytes : List Byte) : Prop :=
  l = literal bytes ∨ ∃ before b, bytes = before ++ [b] ∧ l = hex before (some b.toNat)

theorem Holds.step (h : l.Holds bytes) (hc : hexDigitValue c = none) : l.step c = stepLiteral bytes c := by
  rcases h with rfl | ⟨before, b, rfl, rfl⟩
  · rfl
  · have hback : BitVec.ofNat 8 b.toNat = b := by rw [BitVec.ofNat_toNat, BitVec.setWidth_eq]
    simp only [Lexer.step, hc, if_pos b.isLt, hback]

/-- A byte in hexadecimal, with two digits. -/
theorem Holds.hexByte (h : l.Holds bytes) {c0 c1 b : Byte} {d0 d1 : ℕ} (h0 : hexDigitValue c0 = some d0)
    (h1 : hexDigitValue c1 = some d1) (hb : b.toNat = 16 * d0 + d1) :
    ∃ l', l.run [0x5c, 0x78, c0, c1] = some (l', []) ∧ l'.Holds (bytes ++ [b]) := by
  refine ⟨hex bytes (some b.toNat), ?_, .inr ⟨bytes, b, rfl, rfl⟩⟩
  have hslash : l.step 0x5c = some (escape bytes, []) := h.step (by decide)
  have hx : (escape bytes).step 0x78 = some (hex bytes none, []) := rfl
  have hhigh : (hex bytes none).step c0 = some (hex bytes (some d0), []) := by
    simp only [Lexer.step, h0, Option.getD_none, Nat.mul_zero, Nat.zero_add]
  have hlow : (hex bytes (some d0)).step c1 = some (hex bytes (some b.toNat), []) := by
    simp only [Lexer.step, h1, Option.getD_some, hb]
  exact run_cons hslash (run_cons hx (run_cons hhigh (run_cons hlow rfl)))

/-- The digit of a number in decimal. -/
def digitChar (d : ℕ) : Byte := BitVec.ofNat 8 (0x30 + d)

theorem digitValue_digitChar {d : ℕ} (hd : d < 10) : digitValue (digitChar d) = some d := by
  interval_cases d <;> rfl

theorem run_digits {ds' : List ℕ} (hds' : ∀ d ∈ ds', d < 10) (ds : List ℕ) :
    (digits ds).run (ds'.map digitChar) = some (digits (ds ++ ds'), []) := by
  induction ds' generalizing ds with
  | nil => rw [List.append_nil, List.map_nil, run]
  | cons d ds' ih =>
    have hstep : (digits ds).step (digitChar d) = some (digits (ds ++ [d]), []) := by
      simp only [step, digitValue_digitChar (hds' d (List.mem_cons_self ..))]
    have hrest := ih (fun d' hd' => hds' d' (List.mem_cons_of_mem d hd')) (ds ++ [d])
    rw [List.map_cons, run_cons hstep hrest, List.append_assoc]
    rfl

/-- A number in decimal, and the comma behind it. -/
theorem run_number (n : ℕ) :
    between.run ((numeral 10 n).map digitChar ++ [0x2c]) = some (between, [.number n, .comma]) := by
  have hnum := isNumeral_numeral (by decide : 1 < 10) n
  obtain ⟨d, ds, hds⟩ := List.exists_cons_of_ne_nil hnum.nonempty
  have hdigit : ∀ d' ∈ d :: ds, d' < 10 := hds ▸ hnum.digit
  have hvalue : value 10 (d :: ds) = n := hds ▸ value_numeral 10 n
  have hlead : ¬ ((d :: ds).head? = some 0 ∧ d :: ds ≠ [0]) := by
    rintro ⟨hzero, hmore⟩
    have hone := hnum.lead
    rw [hds] at hone
    exact hmore (hone hzero)
  have hfirst : between.step (digitChar d) = some (digits [d], []) := by
    have hd := hdigit d (List.mem_cons_self ..)
    interval_cases d <;> rfl
  have hcomma : (digits (d :: ds)).step 0x2c = some (between, [.number n, .comma]) := by
    have hnone : digitValue 0x2c = none := by decide
    simp only [step, hnone, if_neg hlead, hvalue]
    rfl
  have hrest := run_digits (fun d' hd' => hdigit d' (List.mem_cons_of_mem d hd')) [d]
  rw [hds, List.map_cons]
  exact run_append (run_cons hfirst hrest) (run_cons hcomma rfl)

end Lexer

/-! ### Literals next to each other -/

theorem foldr_join_append (ts ts' : List Token) :
    (ts ++ ts').foldr join [] = ts.foldr join (ts'.foldr join []) := List.foldr_append

/-- The literals in front of a token that is none. -/
theorem foldr_join_strings {strs : List (List Byte)} (hstrs : strs ≠ []) {t : Token}
    (ht : ∀ b, t ≠ .string b) (ts : List Token) :
    (strs.map Token.string).foldr join (t :: ts) = .string strs.flatten :: t :: ts := by
  induction strs with
  | nil => exact absurd rfl hstrs
  | cons s strs ih =>
    by_cases hmore : strs = []
    · subst hmore
      rw [List.map_singleton, List.foldr_cons, List.foldr_nil, List.flatten_singleton]
      cases t with
      | string b => exact absurd rfl (ht b)
      | _ => rfl
    · rw [List.map_cons, List.foldr_cons, ih hmore]
      rfl

end M3Dev.CTokens
