import Nt351Sse.Driver.Entry
import Nt351Sse.Driver.Release

/-! Assigning a buffer and releasing it again changes nothing, however often it is looked
up in between. The self-test of `DriverEntry` relies on it. -/

namespace Nt351.Driver
open Memory Probing Runs

variable {d : Data} {built : List Addr} {t : Thread} {idx : Fin maxThreads}

theorem clearSlot_claimHead (h : d.table idx = ⟨0, 0⟩) (u : Addr) :
    clearSlot idx (claimHead idx u d) = d := by
  have hslot : ((claimHead idx u d).table idx).buffer = d.freeList :=
    congrArg ThreadSlot.buffer claimHead_table_self
  have htable : Function.update (claimHead idx u d).table idx ⟨0, 0⟩ = d.table := by
    rw [claimHead, Function.update_idem, ← h, Function.update_eq_self]
  have hnode : Function.update d.node d.freeList
    { d.node d.freeList with link := (d.node d.freeList).link } = d.node :=
    Function.update_eq_self ..
  rw [clearSlot, hslot, htable]
  simp only [poolPush, exInterlockedPushEntryList, claimHead, hnode]

theorem reaches_claimHead (hp : tableProbe d.table t = some idx) :
    Reaches (claimHead idx t d) t idx := by
  refine ⟨?_, congrArg ThreadSlot.thread claimHead_table_self⟩
  rw [tableProbe_eq_find t.2] at hp ⊢
  rw [tableKey_claimHead t.2]
  exact find_fill hp

theorem tableRelease_claimHead (hp : tableProbe d.table t = some idx) (h : d.table idx = ⟨0, 0⟩)
    (hf : d.freeList ≠ 0) : tableRelease t (claimHead idx t d) = d := by
  have hreach := reaches_claimHead hp
  have hbuf : ((claimHead idx t d).table idx).buffer ≠ 0 := by
    rwa [claimHead_table_self]
  rcases tableRelease_cases (claimHead idx t d) t with ⟨i, hi, hk, hrel⟩ | ⟨hno, -⟩
  · obtain rfl : i = idx := Reaches.unique ⟨hi, hk⟩ hreach
    rw [hrel hbuf]
    exact clearSlot_claimHead h t
  · exact absurd hreach.2 (hno idx hreach.1)

/-- `n` calls of `TableLookupOrAssign(t)`. -/
def assign (t : Addr) (n : ℕ) (d : Data) : Data := (fun d => (tableLookupOrAssign t d).2)^[n] d

theorem assign_fixed (h : (tableLookupOrAssign t d).2 = d) (n : ℕ) : assign t n d = d :=
  Function.iterate_fixed h n

theorem assign_claim (hp : tableProbe d.table t = some idx) (he : (d.table idx).thread = 0)
    (hf : d.freeList ≠ 0) (n : ℕ) : assign t (n + 1) d = claimHead idx t d := by
  have hfirst : (tableLookupOrAssign t d).2 = claimHead idx t d := by rw [lookup_of_claim hp he hf]
  have hlater : (tableLookupOrAssign t (claimHead idx t d)).2 = claimHead idx t d := by
    rw [lookup_of_reaches (reaches_claimHead hp)]
  rw [assign, Function.iterate_succ_apply, hfirst]
  exact assign_fixed hlater n

/-- The thread the walk does not find is given a buffer or is not; releasing it leaves the
data layer as it was. -/
theorem tableRelease_assign (hempty : ∀ idx, (d.table idx).thread = 0 → (d.table idx).buffer = 0)
    (hmiss : ∀ idx, tableProbe d.table t = some idx → (d.table idx).thread ≠ t) (n : ℕ) :
    tableRelease t (assign t (n + 1) d) = d := by
  have hrelease : tableRelease t d = d := by
    rcases tableRelease_cases d t with ⟨idx, hp, ht, -⟩ | ⟨-, hrel⟩
    · exact absurd ht (hmiss idx hp)
    · exact hrel
  rcases hp : tableProbe d.table t with - | idx
  -- the table is full
  · have hnone : (tableLookupOrAssign t d).2 = d :=
      (Lookup.unique t.2 (tableLookupOrAssign_lookup d t) (.full hp)).2
    rw [assign_fixed hnone, hrelease]
  · have he : (d.table idx).thread = 0 := (tableProbe_stops hp).resolve_left (hmiss idx hp)
    by_cases hf : d.freeList = 0
    · have hnone : (tableLookupOrAssign t d).2 = d := by rw [lookup_of_exhausted hp he hf]
      rw [assign_fixed hnone, hrelease]
    · have hslot : d.table idx = ⟨0, 0⟩ := congrArg₂ ThreadSlot.mk he (hempty idx he)
      rw [assign_claim hp he hf]
      exact tableRelease_claimHead hp hslot hf

/-! ## The self-test -/

/-- `a != NULL && a == b` -/
def SelfTestOk (self : Addr) (d : Data) : Prop :=
  (tableLookupOrAssign self d).1 ≠ 0 ∧
    (tableLookupOrAssign self (tableLookupOrAssign self d).2).1 = (tableLookupOrAssign self d).1

theorem Prefilled.selfTestOk (h : Prefilled d built) (hne : built ≠ []) (t : Thread) :
    SelfTestOk t d := by
  have hf : d.freeList ≠ 0 := mt (Chain.eq_nil_iff h.placed.chain).mpr hne
  obtain ⟨idx, hp⟩ : ∃ idx, tableProbe d.table t = some idx := by
    have hkey : tableKey d.table 0 = none := tableKey_eq_none.mpr (by rw [h.empty 0])
    rw [tableProbe_eq_find t.2]
    exact find_isSome hkey _
  have hfirst := lookup_of_claim hp (congrArg ThreadSlot.thread (h.empty idx)) hf
  have hsecond := lookup_of_reaches (reaches_claimHead hp)
  unfold SelfTestOk
  rw [hfirst]
  refine ⟨hf, ?_⟩
  rw [hsecond, claimHead_table_self]

/-- Assign, look up again, release, and the same once more: the test ends where it began. -/
theorem Prefilled.selfTest (h : Prefilled d built) (hne : built ≠ []) (t : Thread) :
    selfTest t d = d := by
  have hempty : ∀ idx, (d.table idx).thread = 0 → (d.table idx).buffer = 0 :=
    fun idx _ => by rw [h.empty idx]
  have hmiss : ∀ idx, tableProbe d.table t = some idx → (d.table idx).thread ≠ t :=
    fun idx _ ht => by
    rw [h.empty idx] at ht
    exact t.2 ht.symm
  have hok := h.selfTestOk hne t
  have honce : tableRelease t (tableLookupOrAssign t d).2 = d := tableRelease_assign hempty hmiss 0
  have htwice : tableRelease t (tableLookupOrAssign t (tableLookupOrAssign t d).2).2 = d :=
    tableRelease_assign hempty hmiss 1
  simp only [Driver.selfTest, hok.2, htwice, honce, hok.1, ne_eq, not_false_eq_true, and_self,
    if_true]

/-- Whatever the table and the free list hold, releasing a thread that was not in the table
undoes its assignments; so the self-test passes on every pool and leaves it as prefilled. -/
theorem assignRelease_identity :
    (∀ (d : Data) (t : Thread) (n : ℕ), (∀ idx, (d.table idx).thread = 0 →
      (d.table idx).buffer = 0) → (∀ idx, tableProbe d.table t = some idx →
      (d.table idx).thread ≠ t) → tableRelease t (assign t (n + 1) d) = d) ∧
      ∀ (d : Data) (self : Thread), (prefill d).1 ≠ 0 → SelfTestOk self (prefill d).2 ∧
      selfTest self (prefill d).2 = (prefill d).2 ∧ ∀ idx, (selfTest self (prefill d).2).table idx =
      ⟨0, 0⟩ := by
  constructor
  · intro d t n hempty hmiss
    exact tableRelease_assign hempty hmiss n
  · intro d self hbuilt
    obtain ⟨built, hp, hn, -⟩ := prefill_spec d
    have hne : built ≠ [] := fun h0 => hbuilt (hn.symm.trans (congrArg List.length h0))
    have hself := hp.selfTest hne self
    exact ⟨hp.selfTestOk hne self, hself, hself.symm ▸ hp.empty⟩

end Nt351.Driver
