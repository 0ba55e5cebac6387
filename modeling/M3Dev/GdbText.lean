import M3Dev.GdbPacketSize

/-! The text of a packet: strings in the receive buffer, numbers read from them, and hex
data decoded in place. -/
namespace M3Dev.Gdb

/-- The string at `rxbuf + i`, up to its NUL or the end of the buffer. -/
def cstrFrom (rxbuf : ℕ → Byte) : ℕ → ℕ → List Byte
  | 0, _ => []
  | room + 1, i => if rxbuf i = 0 then [] else rxbuf i :: cstrFrom rxbuf room (i + 1)

def cstr (rxbuf : ℕ → Byte) (i : ℕ) : List Byte := cstrFrom rxbuf (maxpkt - i) i

/-- A receive buffer with a packet in it. -/
def holding (packet : List Byte) (i : ℕ) : Byte := packet.getD i 0

/-- What `strtoul` makes of a number and its sign; too large a number is `ULONG_MAX`. -/
def toUlong (neg : Bool) (v : ℕ) : ℕ :=
  if 2 ^ 64 ≤ v then 2 ^ 64 - 1 else if neg then (2 ^ 64 - v) % 2 ^ 64 else v

/-- `strtoul(s, NULL, 16)`, kept in an `unsigned`. -/
def strtoul (s : List Byte) : Word :=
  BitVec.ofNat 32 <| match s.dropWhile isSpace with
  | 0x2d :: cs => toUlong true (hexPrefix 0 (skip0x cs))
  | 0x2b :: cs => toUlong false (hexPrefix 0 (skip0x cs))
  | cs => toUlong false (hexPrefix 0 (skip0x cs))

/-! ### sscanf -/

def isHex (c : Byte) : Bool := (hexValue c).isSome

/-- The sign a number may start with. -/
def scanSign : List Byte → Bool × List Byte
  | 0x2d :: cs => (true, cs)
  | 0x2b :: cs => (false, cs)
  | cs => (false, cs)

/-- `0x` in front of the digits; its zero alone is a number. -/
def scan0x : List Byte → Bool × List Byte
  | 0x30 :: x :: cs => if x = 0x78 ∨ x = 0x58 then (true, cs) else (false, 0x30 :: x :: cs)
  | cs => (false, cs)

/-- One `%x`: the value and what is left of the input. -/
def scanHex (s : List Byte) : Option (Word × List Byte) :=
  let (neg, s) := scanSign (s.dropWhile isSpace)
  let (zero, s) := scan0x s
  if zero = false ∧ s.takeWhile isHex = [] then none
  else some (BitVec.ofNat 32 (toUlong neg (hexPrefix 0 s)), s.dropWhile isHex)

/-- `n` times `%x` with commas between: the values converted. -/
def scanHexes : ℕ → List Byte → List Word
  | 0, _ => []
  | n + 1, s =>
    match scanHex s with
    | none => []
    | some (w, 0x2c :: rest) => w :: scanHexes n rest
    | some (w, _) => [w]

/-! ### Hex data -/

def unhex (c0 c1 : Byte) : Byte := BitVec.ofNat 8 (strtoul16 (text [c0, c1, 0]))

/-- The passes of `hextobin` over a buffer that holds source and destination: the buffer,
and where the destination ends. -/
def hextobinPasses : ℕ → (ℕ → Byte) → ℕ → ℕ → (ℕ → Byte) × ℕ
  | 0, buf, dst, _ => (buf, dst)
  | passes + 1, buf, dst, src =>
    if buf src ≠ 0 ∧ buf (src + 1) ≠ 0 then
      hextobinPasses passes (Function.update buf dst (unhex (buf src) (buf (src + 1)))) (dst + 1)
        (src + 2)
    else (buf, dst)

/-- `hextobin(buf + dst, buf + src, max)`; two characters count off `max`. -/
def hextobin (buf : ℕ → Byte) (dst src max : ℕ) : (ℕ → Byte) × ℕ :=
  let r := hextobinPasses ((max + 1) / 2) buf dst src
  (r.1, r.2 - dst)

/-- `strchr(s, c)` for the string at `rxbuf + i`: where the character is. -/
def strchr (rxbuf : ℕ → Byte) (i : ℕ) (c : Byte) : Option ℕ :=
  ((cstr rxbuf i).idxOf? c).map (i + ·)

/-- `%x` of a word. -/
def hexNumeral (w : Word) : List Byte := (Nat.toDigits 16 w.toNat).map (fun c => BitVec.ofNat 8 c.toNat)

example : unhex 0x61 0x35 = 0xa5 := by decide
example : scanHexes 2 (ascii "20000000,4") = [0x20000000, 4] := by decide

end M3Dev.Gdb
