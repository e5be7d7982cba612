import Mathlib.Algebra.GroupWithZero.Nat
import Undelete.ForStd.RecordMap

/-!
# Totals over a map

A measure of the values, added up over the keys. One operation on a map moves the total by at
most what it does to one value.
-/

namespace RecordMap

variable {α : Type}

/-- The measures of the values, added up. -/
def total (measure : α → Nat) (m : RecordMap α) : Nat :=
  (m.toList.map fun p => measure p.2).sum

theorem sum_replace_of_not_mem {l : List (Nat × α)} {k : Nat} (f : α → α)
    (h : k ∉ l.map Prod.fst) :
    (l.map fun p => if p.1 = k then (p.1, f p.2) else p) = l := by
  refine Eq.trans (List.map_congr_left fun p hp => ?_) (List.map_id l)
  have hne : p.1 ≠ k := fun heq => h (List.mem_map.mpr ⟨p, hp, heq⟩)
  rw [if_neg hne, id]

theorem total_modify_le (measure : α → Nat) (m : RecordMap α) (k : Nat) {f : α → α} {n : Nat}
    (h : ∀ a, measure (f a) ≤ measure a + n) :
    (m.modify k f).total measure ≤ m.total measure + n := by
  show ((m.toList.map fun p => if p.1 = k then (p.1, f p.2) else p).map
    fun p => measure p.2).sum ≤ _
  unfold total
  have hnodup := m.nodup
  generalize m.toList = l at hnodup
  induction l with
  | nil => exact Nat.zero_le _
  | cons p l ih =>
    rw [List.map_cons, List.nodup_cons] at hnodup
    simp only [List.map_cons, List.sum_cons]
    by_cases hk : p.1 = k
    · -- the keys behind it are other ones
      rw [sum_replace_of_not_mem f (hk ▸ hnodup.1), if_pos hk]
      have := h p.2
      show measure (f p.2) + _ ≤ _
      omega
    · have := ih hnodup.2
      rw [if_neg hk]
      omega

/-- A change that adds to no value adds to no total. -/
theorem total_modify_le_self (measure : α → Nat) (m : RecordMap α) (k : Nat) {f : α → α}
    (h : ∀ a, measure (f a) ≤ measure a) : (m.modify k f).total measure ≤ m.total measure :=
  @total_modify_le α measure m k f 0 h

theorem total_insert_le (measure : α → Nat) (m : RecordMap α) (k : Nat) (v : α) :
    (m.insert k v).total measure ≤ m.total measure + measure v := by
  by_cases hk : k ∈ m.keys
  · have hmodify : m.insert k v = m.modify k fun _ => v := dif_pos hk
    rw [hmodify]
    exact total_modify_le measure m k fun a => Nat.le_add_left _ _
  · rw [total, toList_insert_of_not_mem hk, List.map_append, List.sum_append, List.map_singleton,
      List.sum_singleton]
    exact Nat.le_refl _

end RecordMap
