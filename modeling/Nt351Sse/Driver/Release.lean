import Nt351Sse.Driver.Lookups

/-! What `TableRelease` does to the other threads. It empties a slot and leaves no mark
there, so a walk that used to pass the slot now ends at it. -/

namespace Nt351.Driver
open Memory Probing Runs

inductive TableOp
  | lookup (t : Thread)
  | release (t : Thread)

def tableStep (s : Data) : TableOp → Data
  | .lookup t => (tableLookupOrAssign t s).2
  | .release t => tableRelease t s

def Placeable (s : Data) : Prop := ∃ built free, Placed s built free ∧ built.length < maxThreads

theorem tableStep_placeable {s : Data} (h : Placeable s) (op : TableOp) :
    Placeable (tableStep s op) := by
  obtain ⟨built, free, hp, hlen⟩ := h
  cases op with
  | lookup t =>
    obtain ⟨free', hp', -⟩ := hp.lookup t.2 (tableLookupOrAssign_lookup s t)
    exact ⟨built, free', hp', hlen⟩
  | release t =>
    obtain ⟨free', hp', -⟩ := hp.release t.2
    exact ⟨built, free', hp', hlen⟩

theorem tableRun_placeable (s : Data) (ops : List TableOp) :
    Placeable (exec tableStep (prefill s).2 ops) := by
  obtain ⟨built, hp, -, hle⟩ := prefill_spec s
  have hstart : Placeable (prefill s).2 :=
    ⟨built, built, hp.placed, lt_of_le_of_lt hle (by decide)⟩
  exact exec_invariant hstart fun _ op h => tableStep_placeable h op

/-- After `TableRelease(t)`, `TableLookupOrAssign(u)` returns what it would have returned
before, and keys no slot by `u` that was not. -/
def Undisturbed (s : Data) (t u : Thread) : Prop :=
  (tableLookupOrAssign u (tableRelease t s)).1 = (tableLookupOrAssign u s).1 ∧
    ∀ idx, ((tableLookupOrAssign u (tableRelease t s)).2.table idx).thread = u →
      (s.table idx).thread = u

def Reaches (s : Data) (t : Thread) (idx : Fin maxThreads) : Prop :=
  tableProbe s.table t = some idx ∧ (s.table idx).thread = t

/-- The walk for `u` ends at a slot of `u` and does not pass the slot that
`TableRelease(t)` empties; or it is already cut off, with no buffer free and nothing for
`TableRelease(t)` to empty. -/
def WalkKept (s : Data) (t u : Thread) : Prop :=
  (∃ idx, Reaches s u idx ∧ ∀ i, Reaches s t i → ¬ Before (tableHash u) i idx) ∨
    ((∀ idx, ¬ Reaches s u idx) ∧ s.freeList = 0 ∧ ∀ i, ¬ Reaches s t i)

variable {s : Data} {built free : List Addr} {t u : Thread} {idx i : Fin maxThreads}

theorem Reaches.unique (h : Reaches s t idx) (h' : Reaches s t i) : idx = i :=
  Option.some.inj (h.1.symm.trans h'.1)

theorem tableRelease_reaches (h : Placed s built free) :
    (∃ i, Reaches s t i ∧ (s.table i).buffer ≠ 0 ∧ tableRelease t s = clearSlot i s) ∨
    ((∀ i, ¬ Reaches s t i) ∧ tableRelease t s = s) := by
  rcases tableRelease_cases s t with ⟨i, hp, hk, hrel⟩ | ⟨hno, hrel⟩
  · have hb : (s.table i).buffer ≠ 0 := fun hb => t.2 (hk.symm.trans ((h.slot i).mpr hb))
    exact .inl ⟨i, ⟨hp, hk⟩, hb, hrel hb⟩
  · exact .inr ⟨fun i hi => hno i hi.1 hi.2, hrel⟩

theorem Placed.walk (h : Placed s built free) (hlen : built.length < maxThreads) (u : Thread) :
    ∃ idx, tableProbe s.table u = some idx ∧
      ((s.table idx).thread = u ∨ (s.table idx).thread = 0) := by
  obtain ⟨j, hj⟩ := h.exists_empty hlen
  obtain ⟨idx, hidx⟩ : ∃ idx, find (tableKey s.table) tableHash ↑u = some idx :=
    find_isSome (tableKey_eq_none.mpr hj) ↑u
  rw [← tableProbe_eq_find u.2] at hidx
  exact ⟨idx, hidx, tableProbe_stops hidx⟩

theorem lookup_of_reaches (h : Reaches s u idx) :
    tableLookupOrAssign u s = ((s.table idx).buffer, s) := by
  have hu := Lookup.unique u.2 (tableLookupOrAssign_lookup s u) (.hit idx h.1 h.2)
  exact Prod.ext hu.1 hu.2

theorem lookup_of_claim (hp : tableProbe s.table u = some idx) (he : (s.table idx).thread = 0)
    (hf : s.freeList ≠ 0) : tableLookupOrAssign u s = (s.freeList, claimHead idx u s) := by
  have hu := Lookup.unique u.2 (tableLookupOrAssign_lookup s u) (.claim idx hp he hf)
  exact Prod.ext hu.1 hu.2

theorem lookup_of_exhausted (hp : tableProbe s.table u = some idx) (he : (s.table idx).thread = 0)
    (hf : s.freeList = 0) : tableLookupOrAssign u s = (0, s) := by
  have hu := Lookup.unique u.2 (tableLookupOrAssign_lookup s u) (.exhausted idx hp he hf)
  exact Prod.ext hu.1 hu.2

theorem tableProbe_clearSlot (hp : tableProbe s.table u = some idx) :
    (Before (tableHash u) i idx → tableProbe (clearSlot i s).table u = some i) ∧
      (¬ Before (tableHash u) i idx → tableProbe (clearSlot i s).table u = some idx) := by
  rw [tableProbe_eq_find u.2] at hp ⊢
  rw [tableKey_clearSlot]
  exact find_clear hp

theorem disturbed_of_empty {s' : Data} (hrel : tableRelease t s = s')
    (hp : tableProbe s'.table u = some idx) (he : (s'.table idx).thread = 0) (hf : s'.freeList ≠ 0)
    (hs : (s.table idx).thread ≠ u) : ¬ Undisturbed s t u := by
  rintro ⟨-, hkeyed⟩
  rw [hrel, lookup_of_claim hp he hf] at hkeyed
  exact hs (hkeyed idx (congrArg ThreadSlot.thread claimHead_table_self))

theorem not_reaches_of_empty (hp : tableProbe s.table u = some idx) (he : (s.table idx).thread = 0)
    (j : Fin maxThreads) : ¬ Reaches s u j := by
  intro hj
  obtain rfl : j = idx := Option.some.inj (hj.1.symm.trans hp)
  exact u.2 (hj.2.symm.trans he)

theorem undisturbed_of_released (h : Placed s built free) (hlen : built.length < maxThreads)
    (htu : t ≠ u) (hi : Reaches s t i) (hb : (s.table i).buffer ≠ 0)
    (hrel : tableRelease t s = clearSlot i s) : Undisturbed s t u ↔ WalkKept s t u := by
  have hfree : (clearSlot i s).freeList ≠ 0 := hb
  have hcleared : ((clearSlot i s).table i).thread = 0 :=
    congrArg ThreadSlot.thread clearSlot_table_self
  have hiu : (s.table i).thread ≠ u := by
    rw [hi.2]
    exact fun he => htu (Subtype.ext he)
  obtain ⟨idx, hp, hu | he⟩ := h.walk hlen u
  · have hreach : Reaches s u idx := ⟨hp, hu⟩
    have hii : idx ≠ i := fun hii => hiu (hii ▸ hu)
    by_cases hbefore : Before (tableHash u) i idx
    -- the walk for `u` now ends at the emptied slot, where `u` is given another buffer
    · refine iff_of_false (disturbed_of_empty hrel ((tableProbe_clearSlot hp).1 hbefore) hcleared
        hfree hiu) ?_
      rintro (⟨j, hj, hkept⟩ | ⟨-, -, hno⟩)
      · exact hkept i hi (hj.unique hreach ▸ hbefore)
      · exact hno i hi
    · have hslot : (clearSlot i s).table idx = s.table idx := clearSlot_table_of_ne hii
      have hreach' : Reaches (clearSlot i s) u idx :=
        ⟨(tableProbe_clearSlot hp).2 hbefore, by rw [hslot, hu]⟩
      refine iff_of_true ⟨?_, fun j hj => ?_⟩
        (.inl ⟨idx, hreach, fun j hj => hi.unique hj ▸ hbefore⟩)
      · rw [hrel, lookup_of_reaches hreach', lookup_of_reaches hreach, hslot]
      · rw [hrel, lookup_of_reaches hreach'] at hj
        by_cases hji : j = i
        · rw [hji, hcleared] at hj
          exact absurd hj.symm u.2
        · rwa [clearSlot_table_of_ne hji] at hj
  · have hxu : (s.table idx).thread ≠ u := fun hxu => u.2 (hxu.symm.trans he)
    -- a walk that was cut off before takes the buffer `t` gives back
    have hnot : ¬ Undisturbed s t u := by
      by_cases hbefore : Before (tableHash u) i idx
      · exact disturbed_of_empty hrel ((tableProbe_clearSlot hp).1 hbefore) hcleared hfree hiu
      · refine disturbed_of_empty hrel ((tableProbe_clearSlot hp).2 hbefore) ?_ hfree hxu
        by_cases hxi : idx = i
        · rw [hxi, hcleared]
        · rwa [clearSlot_table_of_ne hxi]
    refine iff_of_false hnot ?_
    rintro (⟨j, hj, -⟩ | ⟨-, -, hno⟩)
    · exact not_reaches_of_empty hp he j hj
    · exact hno i hi

theorem undisturbed_of_kept (h : Placed s built free) (hlen : built.length < maxThreads)
    (hno : ∀ i, ¬ Reaches s t i) (hrel : tableRelease t s = s) :
    Undisturbed s t u ↔ WalkKept s t u := by
  obtain ⟨idx, hp, hu | he⟩ := h.walk hlen u
  · refine iff_of_true ⟨by rw [hrel], fun j hj => ?_⟩
      (.inl ⟨idx, ⟨hp, hu⟩, fun j hj => absurd hj (hno j)⟩)
    rwa [hrel, lookup_of_reaches ⟨hp, hu⟩] at hj
  · have hxu : (s.table idx).thread ≠ u := fun hxu => u.2 (hxu.symm.trans he)
    have hmiss := not_reaches_of_empty hp he
    -- cut off before: `u` still takes a new buffer while there is one
    by_cases hf : s.freeList = 0
    · refine iff_of_true ⟨by rw [hrel], fun j hj => ?_⟩ (.inr ⟨hmiss, hf, hno⟩)
      rwa [hrel, lookup_of_exhausted hp he hf] at hj
    · refine iff_of_false (disturbed_of_empty hrel hp he hf hxu) ?_
      rintro (⟨j, hj, -⟩ | ⟨-, hf', -⟩)
      · exact hmiss j hj
      · exact hf hf'

/-- In every state calls can reach, a release leaves another thread undisturbed exactly
when it does not cut that thread's walk. -/
theorem release_undisturbed_iff (s : Data) (ops : List TableOp) (htu : t ≠ u) :
    Undisturbed (exec tableStep (prefill s).2 ops) t u ↔
      WalkKept (exec tableStep (prefill s).2 ops) t u := by
  obtain ⟨built, free, hp, hlen⟩ := tableRun_placeable s ops
  rcases tableRelease_reaches (t := t) hp with ⟨i, hi, hb, hrel⟩ | ⟨hno, hrel⟩
  · exact undisturbed_of_released hp hlen htu hi hb hrel
  · exact undisturbed_of_kept hp hlen hno hrel

theorem release_undisturbed_iff_twoBuffers :
    Undisturbed (exec tableStep (prefill twoBuffers).2 [.lookup threadA, .lookup threadB])
        threadB threadA ↔
      WalkKept (exec tableStep (prefill twoBuffers).2 [.lookup threadA, .lookup threadB])
        threadB threadA :=
  release_undisturbed_iff twoBuffers _ (by decide)

/-- `threadB` was placed behind `threadA`; releasing `threadA` hands `threadB` a second buffer. -/
theorem release_disturbs :
    ¬ ∀ (s : Data) (ops : List TableOp) (t u : Thread), t ≠ u →
      (∃ idx, ((exec tableStep (prefill s).2 ops).table idx).thread = u) →
        Undisturbed (exec tableStep (prefill s).2 ops) t u := by
  intro h
  have hassigned : ∃ idx, ((exec tableStep (prefill twoBuffers).2
      [.lookup threadA, .lookup threadB]).table idx).thread = threadB := ⟨2, by decide +kernel⟩
  have hkept := (h twoBuffers _ threadA threadB (by decide) hassigned).1
  exact absurd hkept (by decide +kernel)

end Nt351.Driver
