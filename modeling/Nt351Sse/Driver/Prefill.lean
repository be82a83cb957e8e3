import Nt351Sse.Driver.AreaMap

/-! The prefill loop of `DriverEntry` and the state it leaves: every buffer built is
free, the table is empty, and every save area holds the default state. -/

namespace Nt351.Driver
open Memory Probing Runs

/-- The loop over `PREFILL_BUFFERS`, with `g_BuffersBuilt` counted so far. -/
def prefillLoop : ℕ → ℕ × Data → ℕ × Data
  | 0, x => x
  | k + 1, (buffersBuilt, s) =>
    let (ok, s) := poolBuildOne s
    if ok then prefillLoop k (buffersBuilt + 1, s) else (buffersBuilt, s)

/-- The table and pool initialisation of `DriverEntry`: `g_BuffersBuilt` and the data layer. -/
def prefill (s : Data) : ℕ × Data := prefillLoop prefillBuffers (0, initTables s)

/-- The save area at `save` holds zeros and `DEFAULT_MXCSR` at `SAVE_MXCSR`. -/
def AreaDefault (m : Mem) (save : Addr) : Prop :=
  ∀ i < sseSaveSize, m (off save i) =
    if saveMxcsr ≤ i ∧ i < saveMxcsr + 4 then dwordByte defaultMxcsr (i - saveMxcsr) else 0

structure Prefilled (s : Data) (built : List Addr) : Prop where
  layout : Built s built
  placed : Placed s built built
  empty : ∀ idx, s.table idx = ⟨0, 0⟩
  default : ∀ b ∈ built, AreaDefault s.mem (s.node b).save

variable {s : Data} {built : List Addr} {node raw : Addr} {heap : Heap}

theorem areaDefault_fresh {m : Mem} {save : Addr} (hfit : (areaBlock save).Fits) :
    AreaDefault (writeDword (off save saveMxcsr) defaultMxcsr (stosb save 0 m sseSaveSize))
      save := by
  intro i hi
  simp only [Block.Fits, areaBlock, sseSaveSize] at hfit hi
  by_cases hin : saveMxcsr ≤ i ∧ i < saveMxcsr + 4
  · have hoff : off save i = off (off save saveMxcsr) (i - saveMxcsr) := by
      rw [off_off, Nat.add_sub_cancel' hin.1]
    rw [if_pos hin, hoff]
    exact writeDword_byte (by omega)
  · have hs : (off save saveMxcsr).toNat = save.toNat + saveMxcsr :=
      off_toNat (by simp only [saveMxcsr]; omega)
    have hi' : (off save i).toNat = save.toNat + i := off_toNat (by omega)
    rw [if_neg hin, writeDword_outside, stosb_inside (by decide) (by simpa using hi)]
    · simp only [Block.Fits, hs, saveMxcsr]
      omega
    · simp only [Block.Covers, hs, hi']
      simp only [saveMxcsr] at hin ⊢
      omega

theorem areaDefault_congr {m m' : Mem} {save : Addr} (h : AreaDefault m save)
    (hm : ∀ i < sseSaveSize, m' (off save i) = m (off save i)) : AreaDefault m' save :=
  fun i hi => (hm i hi).trans (h i hi)

theorem builtNode_mem_outside {p : Addr} (hfit : (rawBlock raw).Fits)
    (hp : ¬ (rawBlock raw).Covers p) : (builtNode node raw heap s).mem p = s.mem p := by
  have hin := areaBlock_within hfit
  have hmxcsr : (off (alignUp raw) saveMxcsr).toNat = (alignUp raw).toNat + saveMxcsr := by
    refine off_toNat ?_
    have hf := hin.fits hfit
    simp only [Block.Fits, areaBlock, sseSaveSize, saveMxcsr] at hf ⊢
    omega
  have hdword : Block.Within ⟨off (alignUp raw) saveMxcsr, 4⟩ (areaBlock (alignUp raw)) := by
    simp only [Block.Within, areaBlock, hmxcsr, sseSaveSize, saveMxcsr]
    omega
  have harea : ¬ (areaBlock (alignUp raw)).Covers p := fun hc => hp (hin.covers hc)
  simp only [builtNode, poolPush_mem]
  rw [writeDword_outside (hdword.fits (hin.fits hfit)) fun hc => harea (hdword.covers hc)]
  exact stosb_outside (hin.fits hfit) harea

theorem Prefilled.initTables (s : Data) : Prefilled (initTables s) [] := by
  have h := (initTables_inv s).1
  obtain ⟨free, hp⟩ := (initTables_inv s).2
  obtain rfl : free = [] := (Chain.eq_nil_iff hp.chain).mpr rfl
  exact ⟨h, hp, fun _ => rfl, by simp⟩

theorem Prefilled.of_heap (h : Prefilled s built) (hl : s.heap.live ⊆ heap.live) :
    Prefilled { s with heap := heap } built :=
  ⟨h.layout.of_heap hl, h.placed.of_heap, h.empty, h.default⟩

theorem Prefilled.builtNode (h : Prefilled s built) (hn : Fresh s.heap.live (nodeBlock node))
    (hr : Fresh (nodeBlock node :: s.heap.live) (rawBlock raw))
    (hl : heap.live = rawBlock raw :: nodeBlock node :: s.heap.live) :
    Prefilled (builtNode node raw heap s) (node :: built) := by
  have hfresh := h.layout.node_fresh hn
  refine ⟨h.layout.builtNode hn hr hl, h.placed.builtNode hn.1 hfresh, h.empty, fun b hb => ?_⟩
  rcases List.mem_cons.mp hb with rfl | hb
  · rw [(builtNode_node_self s).2]
    exact areaDefault_fresh ((areaBlock_within hr.2.2.1).fits hr.2.2.1)
  · have hne : b ≠ node := fun he => hfresh (he ▸ hb)
    rw [(builtNode_node_other hne s).2]
    refine areaDefault_congr (h.default b hb) fun i hi => builtNode_mem_outside hr.2.2.1 ?_
    -- the new raw block was fresh, so it misses the raw block `b` owns
    have hdisj := hr.2.2.2 _ (List.mem_cons_of_mem _ (h.layout.laid b hb).raw)
    have hcov : (areaBlock (s.node b).save).Covers (off (s.node b).save i) :=
      (h.layout.laid b hb).area_fits.covers_off hi
    exact hdisj.symm.not_covers ((h.layout.laid b hb).area_within.covers hcov)

theorem prefillLoop_invariant {I : List Addr → Data → Prop}
    (hrefused : ∀ {built s} {heap : Heap}, I built s → heap.live = s.heap.live →
      heap.bugcheck = s.heap.bugcheck →
      I built { s with heap := heap })
    (hbuilt : ∀ {built s node raw} {heap : Heap}, I built s → Fresh s.heap.live (nodeBlock node) →
      Fresh (nodeBlock node :: s.heap.live) (rawBlock raw) →
      heap.live = rawBlock raw :: nodeBlock node :: s.heap.live → heap.bugcheck = s.heap.bugcheck →
      I (node :: built) (Driver.builtNode node raw heap s))
    (k n : ℕ) (h : I built s) (hn : built.length = n) :
    ∃ built', I built' (prefillLoop k (n, s)).2 ∧ built'.length = (prefillLoop k (n, s)).1 ∧
    built'.length ≤ n + k := by
  induction k generalizing n s built with
  | zero => exact ⟨built, h, hn, by omega⟩
  | succ k ih =>
    rcases poolBuildOne_cases s with ⟨heap, heq, hl, hc⟩ | ⟨node, raw, heap, heq, hnode, hraw, hl,
      hc⟩
    · simp only [prefillLoop, heq]
      exact ⟨built, hrefused h hl hc, hn, by omega⟩
    · simp only [prefillLoop, heq, if_true]
      have hlen : (node :: built).length = n + 1 := by rw [List.length_cons, hn]
      obtain ⟨built', hp, hb, hle⟩ := ih (n + 1) (hbuilt h hnode hraw hl hc) hlen
      exact ⟨built', hp, hb, by omega⟩

theorem prefill_spec (s : Data) :
    ∃ built, Prefilled (prefill s).2 built ∧ built.length = (prefill s).1 ∧
      built.length ≤ prefillBuffers := by
  obtain ⟨built, hp, hb, hle⟩ := prefillLoop_invariant (I := fun built s => Prefilled s built)
    (fun h hl _ => h.of_heap fun _ hm => hl ▸ hm) (fun h hn hr hl _ => h.builtNode hn hr hl)
    prefillBuffers 0
    (Prefilled.initTables s) rfl
  exact ⟨built, hp, hb, by omega⟩

theorem Prefilled.refines (h : Prefilled s built) :
    Refines s built (.start built (Chain.nodup h.placed.chain)) := by
  have htable : s.table = fun _ => ⟨0, 0⟩ := funext h.empty
  have hkey : tableKey s.table = fun _ => none := by
    funext idx
    exact tableKey_eq_none.mpr (by rw [h.empty idx])
  refine ⟨h.placed, hkey ▸ chained_empty _, fun t b => ?_⟩
  refine iff_of_false (by simp [Assignment.start]) ?_
  rintro ⟨idx, hi⟩
  rw [htable] at hi
  exact t.2 (congrArg ThreadSlot.thread hi).symm

end Nt351.Driver
