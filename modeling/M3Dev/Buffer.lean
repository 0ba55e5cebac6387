import Mathlib.Data.List.TakeDrop
import Mathlib.Data.List.GetD

/-! Buffers: cells by number, runs of which are read and overwritten. -/
namespace M3Dev.Buffer
variable {α : Type*}

/-- The buffer with the cells from `pos` on overwritten. -/
def put (buf : ℕ → α) (pos : ℕ) (xs : List α) : ℕ → α := fun i =>
  if pos ≤ i then (xs[i - pos]?).getD (buf i) else buf i

/-- `len` cells from `pos` on. -/
def get (buf : ℕ → α) (pos len : ℕ) : List α := (List.range len).map fun i => buf (pos + i)

variable {buf : ℕ → α} {pos len i : ℕ} {xs ys : List α}

@[simp] theorem get_length (buf : ℕ → α) (pos len : ℕ) : (get buf pos len).length = len := by
  simp [get]

@[simp] theorem put_nil (buf : ℕ → α) (pos : ℕ) : put buf pos [] = buf := by
  funext i
  simp [put]

theorem put_before (hi : i < pos) : put buf pos xs i = buf i := if_neg (Nat.not_le.mpr hi)

theorem put_behind (hi : pos + xs.length ≤ i) : put buf pos xs i = buf i := by
  rw [put, List.getElem?_eq_none (by omega)]
  simp

theorem put_inside (hi : i < xs.length) : put buf pos xs (pos + i) = xs[i] := by
  rw [put, if_pos (Nat.le_add_right pos i), Nat.add_sub_cancel_left, List.getElem?_eq_getElem hi]
  rfl

theorem put_cons {x : α} : put buf pos (x :: xs) = put (Function.update buf pos x) (pos + 1) xs := by
  funext i
  rcases Nat.lt_trichotomy i pos with hlt | rfl | hgt
  · rw [put_before hlt, put_before (by omega), Function.update_of_ne (by omega)]
  · rw [put_before (Nat.lt_succ_self i), Function.update_self, put, if_pos (Nat.le_refl i),
      Nat.sub_self]
    rfl
  · have hsub : i - pos = (i - (pos + 1)) + 1 := by omega
    rw [put, put, if_pos (Nat.le_of_lt hgt), if_pos (Nat.succ_le_of_lt hgt), hsub,
      List.getElem?_cons_succ, Function.update_of_ne (Nat.ne_of_gt hgt)]

theorem put_append : put buf pos (xs ++ ys) = put (put buf pos xs) (pos + xs.length) ys := by
  funext i
  by_cases hys : pos + xs.length ≤ i
  · have hsub : i - pos - xs.length = i - (pos + xs.length) := by omega
    rw [put, put, if_pos (by omega), if_pos hys, List.getElem?_append_right (by omega), hsub,
      put_behind hys]
  · rw [put_before (Nat.not_le.mp hys), put, put]
    by_cases hpos : pos ≤ i
    · rw [if_pos hpos, if_pos hpos, List.getElem?_append_left (by omega)]
    · rw [if_neg hpos, if_neg hpos]

/-- A run of cells read where one was written over it. -/
theorem get_put (hlen : len ≤ xs.length) : get (put buf pos xs) pos len = xs.take len := by
  apply List.ext_getElem
  · simp [hlen]
  · intro i hi _
    have hlt : i < xs.length := by
      rw [get_length] at hi
      omega
    simp [get, put_inside hlt]

theorem get_getElem (h : i < (get buf pos len).length) : (get buf pos len)[i] = buf (pos + i) := by
  simp [get]

theorem get_take {n : ℕ} (h : n ≤ len) : (get buf pos len).take n = get buf pos n := by
  rw [get, ← List.map_take, List.take_range, Nat.min_eq_left h]
  rfl

/-- A run of cells in two parts. -/
theorem get_add (buf : ℕ → α) (pos m n : ℕ) :
    get buf pos (m + n) = get buf pos m ++ get buf (pos + m) n := by
  simp only [get, List.range_add, List.map_append, List.map_map]
  congr 1
  apply List.map_congr_left
  intro i _
  exact congrArg buf (Nat.add_assoc pos m i).symm

theorem get_update_behind {x : α} (hi : pos + len ≤ i) :
    get (Function.update buf i x) pos len = get buf pos len := by
  refine List.map_congr_left fun k hk => Function.update_of_ne ?_ _ _
  have hlt : k < len := List.mem_range.mp hk
  omega

/-- A run of cells grows by the cell behind it. -/
theorem get_update_end (buf : ℕ → α) (pos len : ℕ) (x : α) :
    get (Function.update buf (pos + len) x) pos (len + 1) = get buf pos len ++ [x] := by
  have hlast : Function.update buf (pos + len) x (pos + len) = x := Function.update_self ..
  rw [← get_update_behind (x := x) (Nat.le_refl (pos + len)), get, List.range_succ, List.map_append,
    List.map_singleton, hlast]
  rfl

/-! ### A buffer that holds a list -/

/-- From `pos` on the cells hold the list. -/
def Holds (buf : ℕ → α) (pos : ℕ) (xs : List α) : Prop :=
  ∀ i (h : i < xs.length), buf (pos + i) = xs[i]

theorem holds_nil : Holds buf pos [] := fun _ h => absurd h (Nat.not_lt_zero _)

theorem holds_put : Holds (put buf pos xs) pos xs := fun _ h => put_inside h

theorem holds_append :
    Holds buf pos (xs ++ ys) ↔ Holds buf pos xs ∧ Holds buf (pos + xs.length) ys := by
  constructor
  · intro h
    constructor
    · intro i hi
      rw [h i (by rw [List.length_append]; omega), List.getElem_append_left hi]
    · intro i hi
      rw [Nat.add_assoc, h (xs.length + i) (by rw [List.length_append]; omega),
        List.getElem_append_right (Nat.le_add_right _ _)]
      congr 1
      omega
  · rintro ⟨hxs, hys⟩ i hi
    by_cases hlt : i < xs.length
    · rw [hxs i hlt, List.getElem_append_left hlt]
    · have hle : xs.length ≤ i := Nat.not_lt.mp hlt
      have hsub : i - xs.length < ys.length := by
        rw [List.length_append] at hi
        omega
      have hcell := hys (i - xs.length) hsub
      rw [Nat.add_assoc, Nat.add_sub_cancel' hle] at hcell
      rw [hcell, List.getElem_append_right hle]

theorem holds_singleton {x : α} : Holds buf pos [x] ↔ buf pos = x := by
  constructor
  · intro h
    exact h 0 Nat.one_pos
  · intro h i hi
    obtain rfl : i = 0 := by simpa using hi
    exact h

theorem holds_cons {x : α} : Holds buf pos (x :: xs) ↔ buf pos = x ∧ Holds buf (pos + 1) xs := by
  rw [← List.singleton_append, holds_append, holds_singleton]
  rfl

theorem Holds.get_eq (h : Holds buf pos xs) : get buf pos xs.length = xs := by
  apply List.ext_getElem
  · rw [get_length]
  · intro i hi hxs
    rw [get_getElem hi, h i hxs]

theorem update_eq_put (buf : ℕ → α) (i : ℕ) (x : α) : Function.update buf i x = put buf i [x] := by
  rw [put_cons, put_nil]

/-- What lies below the cells written is as it was. -/
theorem Holds.put_above {q : ℕ} (h : Holds buf pos xs) (hq : pos + xs.length ≤ q) :
    Holds (put buf q ys) pos xs := by
  intro i hi
  rw [put_before (by omega), h i hi]

/-- What lies above the cells written is as it was. -/
theorem Holds.put_below {q : ℕ} (h : Holds buf pos xs) (hq : q + ys.length ≤ pos) :
    Holds (put buf q ys) pos xs := by
  intro i hi
  rw [put_behind (by omega), h i hi]

/-- Cells written behind a list make it longer. -/
theorem Holds.extend (h : Holds buf pos xs) (ys : List α) :
    Holds (put buf (pos + xs.length) ys) pos (xs ++ ys) :=
  holds_append.mpr ⟨h.put_above (Nat.le_refl _), holds_put⟩

end M3Dev.Buffer
