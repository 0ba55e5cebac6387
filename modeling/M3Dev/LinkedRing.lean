import Mathlib.Data.List.Nodup

/-! Chains of links in a memory, followed from one end to the other. -/
namespace M3Dev.LinkedRing
variable {α : Type*}

/-- From `a`, the links lead through these nodes to `b`. -/
def Linked (next : α → Option α) : α → List α → α → Prop
  | a, [], b => next a = some b
  | a, n :: ns, b => next a = some n ∧ Linked next n ns b

/-- From `head`, the links lead through these nodes and back; none is met twice. -/
structure Ring (next : α → Option α) (head : α) (nodes : List α) : Prop where
  linked : Linked next head nodes head
  distinct : (head :: nodes).Nodup

variable {next : α → Option α} {head : α} {nodes : List α}

theorem Ring.head_ne (h : Ring next head nodes) {n : α} (hn : n ∈ nodes) : n ≠ head := by
  rintro rfl
  exact (List.nodup_cons.mp h.distinct).1 hn

theorem Ring.nodup (h : Ring next head nodes) : nodes.Nodup := (List.nodup_cons.mp h.distinct).2

end M3Dev.LinkedRing
