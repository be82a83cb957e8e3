import Nt351Sse.Base.Probing
import Nt351Sse.Driver.Pool

/-! The thread table of `nt351sse.c`. The three walks over `g_Table` stop at the same
slots, so they share `tableProbe`; what each does at the slot it stops at follows the
source. `Lookup` lists everything either of the two lookups can do. -/

namespace Nt351.Driver
open Memory Probing

def tableHash (thread : Addr) : ℕ := (thread >>> 4).toNat % maxThreads

/-- The loop shared by the walks: the first slot, cyclically from the hash, that holds
`thread` or is empty. -/
def tableProbe (table : Fin maxThreads → ThreadSlot) (thread : Addr) : Option (Fin maxThreads) :=
  probe (fun idx => (table idx).thread = thread ∨ (table idx).thread = 0) (tableHash thread)

def tableLookupOrAssign (thread : Addr) (s : Data) : Addr × Data :=
  match tableProbe s.table thread with
  | none => (0, s)
  | some idx =>
    if (s.table idx).thread = thread then ((s.table idx).buffer, s)
    else
      let (buf, s) := poolPop s
      if buf ≠ 0 then (buf, { s with table := Function.update s.table idx ⟨thread, buf⟩ })
      else (0, s)

def tableRelease (thread : Addr) (s : Data) : Data :=
  match tableProbe s.table thread with
  | none => s
  | some idx =>
    if (s.table idx).thread = thread then
      let buf := (s.table idx).buffer
      let s := { s with table := Function.update s.table idx ⟨0, 0⟩ }
      if buf ≠ 0 then poolPush buf s else s
    else s

/-- `thread` is `KeGetCurrentThread()`. The free list is popped by hand here. -/
def trapLookupSaveArea (thread : Addr) (s : Data) : Addr × Data :=
  match tableProbe s.table thread with
  | none => (0, s)
  | some idx =>
    if (s.table idx).thread = thread then
      (if (s.table idx).buffer ≠ 0 then (s.node (s.table idx).buffer).save else 0, s)
    else
      let e := s.freeList
      if e = 0 then (0, s)
      else
        ((s.node e).save,
          { s with
            freeList := (s.node e).link
            table := Function.update s.table idx ⟨thread, e⟩ })

/-! ## The table as keyed slots -/

def slotKey (slot : ThreadSlot) : Option Addr := if slot.thread = 0 then none else some slot.thread

def tableKey (table : Fin maxThreads → ThreadSlot) (idx : Fin maxThreads) : Option Addr :=
  slotKey (table idx)

theorem tableKey_eq_none {table : Fin maxThreads → ThreadSlot} {idx : Fin maxThreads} :
    tableKey table idx = none ↔ (table idx).thread = 0 := by
  simp [tableKey, slotKey]

theorem tableKey_eq_some {table : Fin maxThreads → ThreadSlot} {idx : Fin maxThreads} {t : Addr} :
    tableKey table idx = some t ↔ (table idx).thread = t ∧ t ≠ 0 := by
  unfold tableKey slotKey
  split
  · next h => exact ⟨fun hn => absurd hn (by simp), fun hn => absurd (hn.1.symm.trans h) hn.2⟩
  · next h => exact ⟨fun hs => ⟨Option.some.inj hs, Option.some.inj hs ▸ h⟩, fun hs => hs.1 ▸ rfl⟩

theorem tableProbe_eq_find {table : Fin maxThreads → ThreadSlot} {t : Addr} (ht : t ≠ 0) :
    tableProbe table t = find (tableKey table) tableHash t := by
  unfold tableProbe find
  congr 1
  funext idx
  simp only [tableKey_eq_some, tableKey_eq_none, ht, ne_eq, not_false_eq_true, and_true]

theorem tableKey_update (table : Fin maxThreads → ThreadSlot) (idx : Fin maxThreads)
    (slot : ThreadSlot) :
    tableKey (Function.update table idx slot) = Function.update (tableKey table) idx
      (slotKey slot) := by
  funext i
  by_cases h : i = idx
  · subst h
    simp only [tableKey, Function.update_self]
  · simp only [tableKey, Function.update_of_ne h]

theorem slotKey_of_ne {t b : Addr} (ht : t ≠ 0) : slotKey ⟨t, b⟩ = some t := if_neg ht

theorem slotKey_zero (b : Addr) : slotKey ⟨0, b⟩ = none := if_pos rfl

theorem tableProbe_stops {table : Fin maxThreads → ThreadSlot} {t : Addr} {idx : Fin maxThreads}
    (h : tableProbe table t = some idx) : (table idx).thread = t ∨ (table idx).thread = 0 := by
  simpa using probe_stop h

/-! ## What one call does -/

def claimHead (idx : Fin maxThreads) (thread : Addr) (s : Data) : Data :=
  { s with
    freeList := (s.node s.freeList).link
    table := Function.update s.table idx ⟨thread, s.freeList⟩ }

def clearSlot (idx : Fin maxThreads) (s : Data) : Data :=
  poolPush (s.table idx).buffer { s with table := Function.update s.table idx ⟨0, 0⟩ }

section Slots

variable {idx i : Fin maxThreads} {t : Addr} {s : Data}

@[simp] theorem claimHead_table_self : (claimHead idx t s).table idx = ⟨t, s.freeList⟩ :=
  Function.update_self ..

theorem claimHead_table_of_ne (h : i ≠ idx) : (claimHead idx t s).table i = s.table i :=
  Function.update_of_ne h ..

@[simp] theorem clearSlot_table_self : (clearSlot idx s).table idx = ⟨0, 0⟩ :=
  Function.update_self ..

theorem clearSlot_table_of_ne (h : i ≠ idx) : (clearSlot idx s).table i = s.table i :=
  Function.update_of_ne h ..

theorem tableKey_claimHead (ht : t ≠ 0) :
    tableKey (claimHead idx t s).table = Function.update (tableKey s.table) idx (some t) := by
  rw [← slotKey_of_ne (b := s.freeList) ht]
  exact tableKey_update _ _ _

theorem tableKey_clearSlot :
    tableKey (clearSlot idx s).table = Function.update (tableKey s.table) idx none := by
  rw [← slotKey_zero 0]
  exact tableKey_update _ _ _

end Slots

/-- `Lookup s t b s'`: a lookup for `t` in `s` may find buffer `b` and leave `s'`. -/
inductive Lookup (s : Data) (t : Addr) : Addr → Data → Prop
  | hit (idx) (hp : tableProbe s.table t = some idx) (ht : (s.table idx).thread = t) :
      Lookup s t (s.table idx).buffer s
  | claim (idx) (hp : tableProbe s.table t = some idx) (he : (s.table idx).thread = 0)
      (hf : s.freeList ≠ 0) : Lookup s t s.freeList (claimHead idx t s)
  | exhausted (idx) (hp : tableProbe s.table t = some idx) (he : (s.table idx).thread = 0)
      (hf : s.freeList = 0) : Lookup s t 0 s
  | full (hp : tableProbe s.table t = none) : Lookup s t 0 s

theorem tableLookupOrAssign_lookup (s : Data) (t : Addr) :
    Lookup s t (tableLookupOrAssign t s).1 (tableLookupOrAssign t s).2 := by
  unfold tableLookupOrAssign
  split
  · next hp => exact .full hp
  · next idx hp =>
    split
    · next ht => exact .hit idx hp ht
    · next ht =>
      have he := (tableProbe_stops hp).resolve_left ht
      by_cases hf : s.freeList = 0
      · simp only [poolPop, exInterlockedPopEntryList, hf, if_true, ne_eq, not_true_eq_false,
          if_false]
        exact .exhausted idx hp he hf
      · simp only [poolPop, exInterlockedPopEntryList, hf, if_false, ne_eq, not_false_eq_true,
          if_true]
        exact .claim idx hp he hf

theorem trapLookupSaveArea_lookup (s : Data) (t : Addr) :
    ∃ b, Lookup s t b (trapLookupSaveArea t s).2 ∧
      (trapLookupSaveArea t s).1 = if b = 0 then 0 else (s.node b).save := by
  unfold trapLookupSaveArea
  split
  · next hp => exact ⟨0, .full hp, rfl⟩
  · next idx hp =>
    split
    · next ht =>
      refine ⟨_, .hit idx hp ht, ?_⟩
      by_cases hb : (s.table idx).buffer = 0
      · simp only [hb, ne_eq, not_true_eq_false, if_false, if_true]
      · simp only [hb, ne_eq, not_false_eq_true, if_false, if_true]
    · next ht =>
      have he := (tableProbe_stops hp).resolve_left ht
      by_cases hf : s.freeList = 0
      · simp only [hf, if_true]
        exact ⟨0, .exhausted idx hp he hf, rfl⟩
      · simp only [hf, if_false]
        exact ⟨s.freeList, .claim idx hp he hf, (if_neg hf).symm⟩

theorem Lookup.unique {s s' s'' : Data} {t b b' : Addr} (ht : t ≠ 0) (h : Lookup s t b s')
    (h' : Lookup s t b' s'') : b = b' ∧ s' = s'' := by
  cases h <;> cases h' <;> simp_all

theorem trapLookupSaveArea_eq (s : Data) (t : Addr) :
    (trapLookupSaveArea t s).2 = (tableLookupOrAssign t s).2 ∧ (trapLookupSaveArea t s).1 =
      if (tableLookupOrAssign t s).1 = 0 then 0
      else (s.node (tableLookupOrAssign t s).1).save := by
  unfold trapLookupSaveArea tableLookupOrAssign
  cases hp : tableProbe s.table t with
  | none => exact ⟨rfl, rfl⟩
  | some idx =>
    by_cases ht : (s.table idx).thread = t
    -- found, with or without a buffer
    · by_cases hb : (s.table idx).buffer = 0
      · simp only [ht, hb, if_true, ne_eq, not_true_eq_false, if_false, and_self]
      · simp only [ht, hb, if_true, ne_eq, not_false_eq_true, if_false, and_self]
    · by_cases hf : s.freeList = 0
      · simp only [ht, hf, poolPop, exInterlockedPopEntryList, if_true, if_false, ne_eq,
          not_true_eq_false, and_self]
      · simp only [ht, hf, poolPop, exInterlockedPopEntryList, if_true, if_false, ne_eq,
          not_false_eq_true, and_self]

theorem trapLookupSaveArea_null_iff {s : Data} {t : Addr}
    (hsave : (tableLookupOrAssign t s).1 ≠ 0 → (s.node (tableLookupOrAssign t s).1).save ≠ 0) :
    (trapLookupSaveArea t s).1 = 0 ↔ (tableLookupOrAssign t s).1 = 0 := by
  rw [(trapLookupSaveArea_eq s t).2]
  by_cases hb : (tableLookupOrAssign t s).1 = 0
  · simp only [hb, if_true]
  · rw [if_neg hb]
    exact iff_of_false (hsave hb) hb

/-- The two lookups leave the same state, and where `TableLookupOrAssign` returns a buffer
`TrapLookupSaveArea` returns its save area. A buffer `PoolBuildOne` completed has one, so
they also fail together. -/
theorem trapLookup_agrees (s : Data) (t : Addr) :
    (trapLookupSaveArea t s).2 = (tableLookupOrAssign t s).2 ∧
      (trapLookupSaveArea t s).1 =
        (if (tableLookupOrAssign t s).1 = 0 then 0 else (s.node (tableLookupOrAssign t s).1).save) ∧
      (((tableLookupOrAssign t s).1 ≠ 0 → (s.node (tableLookupOrAssign t s).1).save ≠ 0) →
        ((trapLookupSaveArea t s).1 = 0 ↔ (tableLookupOrAssign t s).1 = 0)) :=
  ⟨(trapLookupSaveArea_eq s t).1, (trapLookupSaveArea_eq s t).2, trapLookupSaveArea_null_iff⟩

theorem tableRelease_cases (s : Data) (t : Addr) :
    (∃ idx, tableProbe s.table t = some idx ∧ (s.table idx).thread = t ∧
      ((s.table idx).buffer ≠ 0 → tableRelease t s = clearSlot idx s)) ∨
      ((∀ idx, tableProbe s.table t = some idx → (s.table idx).thread ≠ t) ∧
      tableRelease t s = s) := by
  unfold tableRelease
  split
  · next hp => exact .inr ⟨fun idx h => absurd (hp.symm.trans h) (by simp), rfl⟩
  · next idx hp =>
    by_cases ht : (s.table idx).thread = t
    · refine .inl ⟨idx, hp, ht, fun hb => ?_⟩
      simp only [ht, if_true, hb, ne_eq, not_false_eq_true]
      rfl
    · refine .inr ⟨fun i hi => ?_, by simp only [ht, if_false]⟩
      obtain rfl := Option.some.inj (hp.symm.trans hi)
      exact ht

end Nt351.Driver
