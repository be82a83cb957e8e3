import Mathlib

/-! Threads that only add to one shared value, each addition atomic. What the value and the
additions still to come make together does not change, so the order of the threads' steps
does not matter to what the value is in the end. -/

namespace Nt351.Interlocked
open Finset

variable {ι α M : Type*} [Fintype ι] [DecidableEq ι] [AddCommMonoid M]

/-- The value, with what every thread has still to add to it. -/
def owed (w : α → M) (value : M) (pending : ι → List α) : M :=
  value + ∑ i, ((pending i).map w).sum

variable {w : α → M} {value : M} {pending : ι → List α} {i : ι} {a : α} {rest : List α}

/-- Only the changed summand differs. -/
theorem sum_update {β : Type*} (g : ι → β → M) (v : ι → β) (i : ι) (b : β) :
    ∑ j, g j (Function.update v i b j) = g i b + ∑ j ∈ univ.erase i, g j (v j) := by
  rw [sum_congr rfl fun j _ => Function.apply_update g v i b j, sum_update_of_mem (mem_univ i),
    sdiff_singleton_eq_erase]

theorem owed_add (h : pending i = a :: rest) :
    owed w (value + w a) (Function.update pending i rest) = owed w value pending := by
  have hold : ∑ j, ((pending j).map w).sum =
      w a + ((rest.map w).sum + ∑ j ∈ univ.erase i, ((pending j).map w).sum) := by
    rw [← add_sum_erase univ _ (mem_univ i), h, List.map_cons, List.sum_cons, add_assoc]
  rw [owed, owed, sum_update (fun _ (l : List α) => (l.map w).sum), hold, add_assoc]

theorem owed_start (h : pending i = []) (l : List α) :
    owed w value (Function.update pending i l) = owed w value pending + (l.map w).sum := by
  have hold : ∑ j, ((pending j).map w).sum = ∑ j ∈ univ.erase i, ((pending j).map w).sum := by
    rw [← add_sum_erase univ _ (mem_univ i), h, List.map_nil, List.sum_nil, zero_add]
  rw [owed, owed, sum_update (fun _ (l : List α) => (l.map w).sum), hold, add_assoc,
    add_comm ((l.map w).sum)]

omit [DecidableEq ι] in
theorem owed_done (h : ∀ i, pending i = []) : owed w value pending = value := by
  rw [owed, sum_eq_zero fun i _ => by rw [h, List.map_nil, List.sum_nil], add_zero]

end Nt351.Interlocked
