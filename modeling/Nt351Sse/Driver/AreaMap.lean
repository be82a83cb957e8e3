import Nt351Sse.Base.Assignment
import Nt351Sse.Driver.Conserve

/-! What the table and the pool are for: while no thread is released they are an
assignment of save areas to threads. `Refines` ties the two, and each lookup of the
driver is one `acquire` of the assignment. -/

namespace Nt351.Driver
open Memory Probing Runs

variable {s s' : Data} {built free : List Addr} {b : Addr}

structure Refines (s : Data) (built : List Addr) (a : Assignment Thread Addr) : Prop where
  placed : Placed s built a.free
  chained : Chained (tableKey s.table) tableHash
  held : ∀ (t : Thread) b, a.held t = some b ↔ ∃ idx, s.table idx = ⟨t, b⟩

variable {a : Assignment Thread Addr} {t : Thread}

theorem Refines.held_of_slot (h : Refines s built a) {idx : Fin maxThreads}
    (ht : (s.table idx).thread = t) : a.held t = some (s.table idx).buffer :=
  (h.held t _).mpr ⟨idx, by rw [← ht]⟩

theorem Refines.held_none (h : Refines s built a) {idx : Fin maxThreads}
    (hp : tableProbe s.table t = some idx) (he : (s.table idx).thread = 0) : a.held t = none := by
  rw [tableProbe_eq_find t.2] at hp
  cases hb : a.held t with
  | none => rfl
  | some b =>
    obtain ⟨j, hj⟩ := (h.held t b).mp hb
    have hkey : tableKey s.table j = some ↑t := tableKey_eq_some.mpr ⟨by rw [hj], t.2⟩
    exact absurd hkey (h.chained.absent hp (tableKey_eq_none.mpr he) j)

theorem Refines.claimHead (h : Refines s built a) {idx : Fin maxThreads} {fs : List Addr}
    (hp : tableProbe s.table t = some idx) (he : (s.table idx).thread = 0) (hf : s.freeList ≠ 0)
    (hfree : a.free = s.freeList :: fs) :
    Refines (claimHead idx t s) built (a.grant t s.freeList fs hfree) := by
  have hnone := h.held_none hp he
  have hplaced := h.placed.claimHead t.2 he hf
  rw [hfree, List.tail_cons] at hplaced
  refine ⟨hplaced, ?_, fun u b => ?_⟩
  · rw [tableKey_claimHead t.2]
    exact h.chained.fill (by rwa [← tableProbe_eq_find t.2]) (tableKey_eq_none.mpr he)
  · by_cases hu : u = t
    · subst hu
      simp only [Assignment.grant, Function.update_self, Option.some.injEq]
      constructor
      · rintro rfl
        exact ⟨idx, claimHead_table_self⟩
      · rintro ⟨j, hj⟩
        by_cases hji : j = idx
        · subst hji
          rw [claimHead_table_self] at hj
          exact congrArg ThreadSlot.buffer hj
        · rw [claimHead_table_of_ne hji] at hj
          have hheld := h.held_of_slot (congrArg ThreadSlot.thread hj)
          exact absurd (hnone.symm.trans hheld) (by simp)
    · simp only [Assignment.grant, Function.update_of_ne hu, h.held u b]
      constructor
      · rintro ⟨j, hj⟩
        have hji : j ≠ idx := by
          rintro rfl
          exact u.2 ((congrArg ThreadSlot.thread hj).symm.trans he)
        exact ⟨j, (claimHead_table_of_ne hji).trans hj⟩
      · rintro ⟨j, hj⟩
        by_cases hji : j = idx
        · subst hji
          rw [claimHead_table_self] at hj
          exact absurd (Subtype.ext (congrArg ThreadSlot.thread hj).symm) hu
        · exact ⟨j, (claimHead_table_of_ne hji).symm.trans hj⟩

/-- A lookup is one `acquire`: it returns what the thread then holds. -/
theorem Refines.lookup (h : Refines s built a) (hlen : built.length < maxThreads)
    (hl : Lookup s t b s') :
    Refines s' built (a.acquire t) ∧ (a.acquire t).held t = if b = 0 then none else some b := by
  cases hl with
  | hit idx hp ht =>
    have hheld := h.held_of_slot ht
    have hb : (s.table idx).buffer ≠ 0 := fun hb => t.2 (ht.symm.trans ((h.placed.slot idx).mpr hb))
    rw [Assignment.acquire_of_held hheld, if_neg hb]
    exact ⟨h, hheld⟩
  | claim idx hp he hf =>
    obtain ⟨fs, hfree, -⟩ := h.placed.head hf
    rw [Assignment.acquire_of_free (h.held_none hp he) hfree, if_neg hf]
    exact ⟨h.claimHead hp he hf hfree, by simp [Assignment.grant]⟩
  | exhausted idx hp he hf =>
    have hfree : a.free = [] := (Chain.eq_nil_iff h.placed.chain).mpr hf
    rw [Assignment.acquire_of_empty hfree, if_pos rfl]
    exact ⟨h, h.held_none hp he⟩
  | full hp =>
    obtain ⟨idx, hi⟩ := h.placed.exists_empty hlen
    rw [tableProbe_eq_find t.2] at hp
    exact absurd (tableKey_eq_none.mpr hi) (find_eq_none hp idx)

end Nt351.Driver
