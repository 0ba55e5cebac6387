import Mathlib.Data.List.TakeDrop
import Mathlib.Logic.Function.Basic

/-! A ring of cells between two counters that run on: the items of a sequence from the number
`tail` up to the number `head` lie in the cells of their numbers modulo the size. -/
namespace M3Dev.CountedRing
variable {α : Type*}

structure Holds (size : ℕ) (cell : ℕ → α) (items : List α) (tail head : ℕ) : Prop where
  le : tail ≤ head
  room : head ≤ tail + size
  kept : ∀ i, tail ≤ i → i < head → items[i]? = some (cell (i % size))

variable {size tail head : ℕ} {cell : ℕ → α} {items : List α}

/-- Two numbers of one window lie in different cells. -/
theorem mod_ne {i j : ℕ} (hlt : i < j) (hnear : j < i + size) : i % size ≠ j % size := by
  intro heq
  have hdvd : (j - i) % size = 0 := Nat.sub_mod_eq_zero_of_mod_eq heq.symm
  rw [Nat.mod_eq_of_lt (by omega)] at hdvd
  omega

theorem Holds.append (h : Holds size cell items tail head) (more : List α) :
    Holds size cell (items ++ more) tail head := by
  refine ⟨h.le, h.room, ?_⟩
  intro i hi hlt
  have hitem := h.kept i hi hlt
  have hin : i < items.length := (List.getElem?_eq_some_iff.mp hitem).1
  rw [List.getElem?_append_left hin]
  exact hitem

/-- The cell of the next item is free. -/
theorem Holds.store (h : Holds size cell items tail head) (hroom : head < tail + size) (a : α) :
    Holds size (Function.update cell (head % size) a) items tail head := by
  refine ⟨h.le, h.room, ?_⟩
  intro i hi hlt
  have hother : i % size ≠ head % size := mod_ne hlt (by omega)
  rw [Function.update_of_ne hother]
  exact h.kept i hi hlt

theorem Holds.grow (h : Holds size cell items tail head) (hroom : head < tail + size)
    (hnext : items[head]? = some (cell (head % size))) : Holds size cell items tail (head + 1) := by
  refine ⟨Nat.le_succ_of_le h.le, hroom, ?_⟩
  intro i hi hlt
  rcases Nat.lt_succ_iff_lt_or_eq.mp hlt with hold | rfl
  · exact h.kept i hi hold
  · exact hnext

theorem Holds.shrink (h : Holds size cell items tail head) {len : ℕ} (hlen : len ≤ head - tail) :
    Holds size cell items (tail + len) head := by
  have hle := h.le
  have hroom := h.room
  refine ⟨by omega, by omega, ?_⟩
  intro i hi hlt
  exact h.kept i (by omega) hlt

/-- Cells in a row that do not go past the last one. -/
theorem Holds.block (h : Holds size cell items tail head) {len : ℕ} (hlen : len ≤ head - tail)
    (hrow : len ≤ size - tail % size) :
    (List.range len).map (fun i => cell (tail % size + i)) = (items.drop tail).take len := by
  have hle := h.le
  apply List.ext_getElem?
  intro i
  by_cases hi : i < len
  · have hsize : 0 < size := by
      rcases Nat.eq_zero_or_pos size with hzero | hpos
      · rw [hzero] at hrow
        omega
      · exact hpos
    have hcell : (tail + i) % size = tail % size + i := by
      rw [Nat.add_mod, Nat.mod_eq_of_lt (a := i) (by omega), Nat.mod_eq_of_lt]
      omega
    have hitem := h.kept (tail + i) (by omega) (by omega)
    rw [List.getElem?_take_of_lt hi, List.getElem?_drop, hitem, hcell]
    simp [hi]
  · have hge : len ≤ i := Nat.not_lt.mp hi
    rw [List.getElem?_eq_none (by simpa using hge), List.getElem?_eq_none (by simp; omega)]

end M3Dev.CountedRing
