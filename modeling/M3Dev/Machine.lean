import Mathlib.Data.Nat.Notation

/-! Machine words, the bytes they are made of, and the ways a program stops. -/
namespace M3Dev

abbrev Word := BitVec 32

abbrev Byte := BitVec 8

/-- The bytes of a word in memory order; host and targets are little-endian. -/
def wordBytes (w : Word) : List Byte :=
  [w.setWidth 8, (w >>> 8).setWidth 8, (w >>> 16).setWidth 8, (w >>> 24).setWidth 8]

@[simp] theorem wordBytes_length (w : Word) : (wordBytes w).length = 4 := rfl

/-- The text of a C string: bytes up to the first that is zero. -/
def text (bytes : List Byte) : List Byte := bytes.takeWhile (fun b => b ≠ 0)

/-- The ways the code ends other than by returning: `exit(1)` with a message, or an
access outside an array. -/
inductive Stop where
  | fatal (msg : String)
  | outOfBounds
  deriving Repr

theorem bind_eq_ok {ε α β : Type} {x : Except ε α} {f : α → Except ε β} {b : β} :
    x >>= f = .ok b ↔ ∃ a, x = .ok a ∧ f a = .ok b := by
  cases x <;> simp [bind, Except.bind]

theorem ok_bind {ε α β : Type} (a : α) (f : α → Except ε β) : (Except.ok a >>= f) = f a := rfl

theorem map_eq_ok {ε α β : Type} {x : Except ε α} {f : α → β} {b : β} :
    x.map f = .ok b ↔ ∃ a, x = .ok a ∧ f a = b := by
  cases x <;> simp [Except.map]

end M3Dev
