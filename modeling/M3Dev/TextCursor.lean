import Mathlib.Data.List.DropRight
import Mathlib.Tactic.TypeStar
import Mathlib.Tactic.Tauto

/-! A text with a cursor in it, and what an editor does to the two. -/
namespace M3Dev.TextCursor
variable {α : Type*}

/-- What stands before the cursor, the nearest first, and what stands behind it. -/
@[ext]
structure Cursor (α : Type*) where
  before : List α
  after : List α
  deriving DecidableEq, Repr

namespace Cursor

def text (z : Cursor α) : List α := z.before.reverse ++ z.after

def position (z : Cursor α) : ℕ := z.before.length

/-- The cursor at the end of a text. -/
def atEnd (t : List α) : Cursor α := ⟨t.reverse, []⟩

def insert (c : α) (z : Cursor α) : Cursor α := ⟨c :: z.before, z.after⟩

/-- Take out what stands behind the cursor. -/
def delete (z : Cursor α) : Cursor α := ⟨z.before, z.after.tail⟩

/-- Take out what stands before the cursor. -/
def backspace (z : Cursor α) : Cursor α := ⟨z.before.tail, z.after⟩

def left (z : Cursor α) : Cursor α :=
  match z.before with
  | [] => z
  | c :: cs => ⟨cs, c :: z.after⟩

def right (z : Cursor α) : Cursor α :=
  match z.after with
  | [] => z
  | c :: cs => ⟨c :: z.before, cs⟩

def home (z : Cursor α) : Cursor α := ⟨[], z.text⟩

def toEnd (z : Cursor α) : Cursor α := atEnd z.text

/-- The two around the cursor change places, and the cursor goes on unless it is before the
last. -/
def swap (z : Cursor α) : Cursor α :=
  match z.before, z.after with
  | b :: bs, [a] => ⟨a :: bs, [b]⟩
  | b :: bs, a :: as => ⟨b :: a :: bs, as⟩
  | _, _ => z

/-- Take out the word before the cursor, with the blanks behind it. -/
def dropWord (blank : α → Bool) (z : Cursor α) : Cursor α :=
  ⟨(z.before.dropWhile blank).dropWhile (!blank ·), z.after⟩

def dropRest (z : Cursor α) : Cursor α := ⟨z.before, []⟩

variable (z : Cursor α)

theorem text_length : z.text.length = z.position + z.after.length := by
  rw [text, List.length_append, List.length_reverse]
  rfl

theorem position_le : z.position ≤ z.text.length := by
  rw [text_length]
  exact Nat.le_add_right _ _

@[simp] theorem text_atEnd (t : List α) : (atEnd t).text = t := by
  simp [atEnd, text]

@[simp] theorem position_atEnd (t : List α) : (atEnd t).position = t.length := List.length_reverse

@[simp] theorem text_left : z.left.text = z.text := by
  obtain ⟨before, after⟩ := z
  cases before with
  | nil => rfl
  | cons c cs => simp [left, text]

@[simp] theorem text_right : z.right.text = z.text := by
  obtain ⟨before, after⟩ := z
  cases after with
  | nil => rfl
  | cons c cs => simp [right, text]

@[simp] theorem text_home : z.home.text = z.text := rfl

@[simp] theorem text_toEnd : z.toEnd.text = z.text := text_atEnd z.text

theorem position_left : z.left.position = z.position - 1 := by
  obtain ⟨before, after⟩ := z
  cases before with
  | nil => rfl
  | cons c cs => rfl

theorem position_right (h : z.position ≠ z.text.length) : z.right.position = z.position + 1 := by
  obtain ⟨before, after⟩ := z
  cases after with
  | nil => exact absurd (by simp [text, position]) h
  | cons c cs => rfl

/-- A text and a place in it are the text with the cursor there. -/
theorem ext_text {y z : Cursor α} (htext : y.text = z.text) (hpos : y.position = z.position) : y = z := by
  obtain ⟨hbefore, hafter⟩ := List.append_inj htext (by simpa [position] using hpos)
  ext1
  · exact List.reverse_injective hbefore
  · exact hafter

/-! What is in a text after an edit was there, or is what was inserted. -/

theorem mem_text {c : α} : c ∈ z.text ↔ c ∈ z.before ∨ c ∈ z.after := by
  rw [text, List.mem_append, List.mem_reverse]

variable {z}

theorem mem_insert {c d : α} (h : c ∈ (z.insert d).text) : c = d ∨ c ∈ z.text := by
  rw [mem_text, insert, List.mem_cons, or_assoc] at h
  exact h.imp_right fun h => (mem_text z).mpr h

theorem mem_delete {c : α} (h : c ∈ z.delete.text) : c ∈ z.text :=
  (mem_text z).mpr (((mem_text _).mp h).imp_right List.mem_of_mem_tail)

theorem mem_backspace {c : α} (h : c ∈ z.backspace.text) : c ∈ z.text :=
  (mem_text z).mpr (((mem_text _).mp h).imp_left List.mem_of_mem_tail)

theorem mem_dropWord {c : α} {blank : α → Bool} (h : c ∈ (z.dropWord blank).text) : c ∈ z.text :=
  (mem_text z).mpr (((mem_text _).mp h).imp_left fun h =>
    (List.dropWhile_sublist _).mem ((List.dropWhile_sublist _).mem h))

theorem mem_dropRest {c : α} (h : c ∈ z.dropRest.text) : c ∈ z.text :=
  (mem_text z).mpr (((mem_text _).mp h).imp_right fun h => absurd h List.not_mem_nil)

theorem mem_swap {c : α} (h : c ∈ z.swap.text) : c ∈ z.text := by
  obtain ⟨before, after⟩ := z
  rcases before with _ | ⟨b, bs⟩
  · exact h
  rcases after with _ | ⟨a, _ | ⟨a', as⟩⟩
  · exact h
  all_goals
    simp only [swap, mem_text, List.mem_cons] at h ⊢
    tauto

end Cursor

end M3Dev.TextCursor
