import Nt351Sse.Driver.Unload

/-! What is left when a driver that loaded is unloaded: the hooks and CR4, and the blocks
the load took, wherever traps have moved the buffers meanwhile. -/

namespace Nt351.Driver
open Memory Probing Runs Preempt

variable {E : Env} {v : Taken} {a : Assignment Thread Addr} {t : Trap} {s : System} {d : Data}
  {built free : List Addr} {live₀ : List Block}

/-! ## The buffers in the table -/

theorem reclaimSlot_eq (idx : Fin maxThreads) (h : (d.table idx).thread ≠ 0)
    (hb : (d.table idx).buffer ≠ 0) :
    reclaimSlot d idx = clearSlot idx d := if_pos ⟨h, hb⟩

/-- One round empties its slot and leaves the other slots alone. -/
theorem Placed.reclaimSlot (h : Placed d built free) (idx : Fin maxThreads) :
    (∃ free', Placed (reclaimSlot d idx) built free') ∧ SameNodes d (reclaimSlot d idx) ∧
      ∀ i, (Driver.reclaimSlot d idx).table i = if i = idx then ⟨0, 0⟩ else d.table i := by
  by_cases ht : (d.table idx).thread = 0
  · have hslot : d.table idx = ⟨0, 0⟩ := congrArg₂ ThreadSlot.mk ht ((h.slot idx).mp ht)
    have hsame : Driver.reclaimSlot d idx = d := if_neg fun hc => hc.1 ht
    rw [hsame]
    refine ⟨⟨free, h⟩, .refl d, fun i => ?_⟩
    split
    · next hi => rw [hi, hslot]
    · rfl
  · have hb : (d.table idx).buffer ≠ 0 := fun hb => ht ((h.slot idx).mpr hb)
    rw [reclaimSlot_eq idx ht hb]
    refine ⟨⟨_, h.clearSlot hb⟩, clearSlot_sameNodes idx d, fun i => ?_⟩
    simp only [Driver.clearSlot, poolPush_table, Function.update_apply]

theorem Placed.reclaimSlots (h : Placed d built free) (idxs : List (Fin maxThreads)) :
    (∃ free', Placed (idxs.foldl Driver.reclaimSlot d) built free') ∧
      SameNodes d (idxs.foldl Driver.reclaimSlot d) ∧
      ∀ i, (idxs.foldl Driver.reclaimSlot d).table i = if i ∈ idxs then ⟨0, 0⟩ else d.table i := by
  induction idxs generalizing d free with
  | nil => exact ⟨⟨free, h⟩, .refl d, fun i => (if_neg List.not_mem_nil).symm⟩
  | cons idx idxs ih =>
    obtain ⟨⟨free', h'⟩, hsame, hslots⟩ := h.reclaimSlot idx
    obtain ⟨hplaced, hsame', hslots'⟩ := ih h'
    refine ⟨hplaced, hsame.trans hsame', fun i => ?_⟩
    rw [List.foldl_cons, hslots', hslots]
    by_cases hi : i = idx
    · simp [hi]
    · simp [hi]

theorem Placed.reclaimTable (h : Placed d built free) :
    (∃ free', Placed (reclaimTable d) built free' ∧ ∀ b, b ∈ free' ↔ b ∈ built) ∧
      SameNodes d (reclaimTable d) ∧ ∀ idx, (Driver.reclaimTable d).table idx = ⟨0, 0⟩ := by
  have hall : ∀ idx, idx ∈ List.finRange maxThreads := List.mem_finRange
  unfold Driver.reclaimTable
  generalize List.finRange maxThreads = idxs at hall
  obtain ⟨⟨free', h'⟩, hsame, hslots⟩ := h.reclaimSlots idxs
  have hempty : ∀ idx, (idxs.foldl Driver.reclaimSlot d).table idx = ⟨0, 0⟩ := fun idx =>
    (hslots idx).trans (if_pos (hall idx))
  refine ⟨⟨free', h', fun b => ?_⟩, hsame, hempty⟩
  rw [h'.mem_built b]
  refine ⟨.inl, fun hb => hb.resolve_right ?_⟩
  -- no slot holds a buffer any more
  rintro ⟨hb0, idx, hi⟩
  exact hb0 (hi.symm.trans (congrArg ThreadSlot.buffer (hempty idx)))

/-- Once the image is freed, reclaiming the table and draining the list frees every block
that is left. -/
theorem Pools.reclaimed (h : Pools v a t) (hh : Heap.Holding live₀ v.blocks v.data.heap) :
    ∃ free', Drained live₀ (bufferBlocks v.data.node v.built) free'
      (reclaimTable { t.data with heap := t.data.heap.free v.raw })
      (poolDrain (reclaimTable { t.data with heap := t.data.heap.free v.raw })) ∧
      bufferBlocks (reclaimTable { t.data with heap := t.data.heap.free v.raw }).node free' =
        bufferBlocks v.data.node v.built ∧
      FreeNodes (reclaimTable { t.data with heap := t.data.heap.free v.raw }) free' ∧
      (∀ b, b ∈ free' ↔ b ∈ v.built) ∧
      ∀ idx, (reclaimTable { t.data with heap := t.data.heap.free v.raw }).table idx = ⟨0, 0⟩ := by
  have hfree := h.freedImage hh
  set d : Data := { t.data with heap := t.data.heap.free v.raw }
  have hplaced : Placed d v.built a.free := h.serving.refines.placed.of_heap
  obtain ⟨⟨free', hplaced', hmem⟩, hsame, hempty⟩ := hplaced.reclaimTable
  have hraw : ∀ b, ((reclaimTable d).node b).rawBase = (v.data.node b).rawBase := fun b =>
    (hsame.2 b).1.trans (h.serving.same.2 b).1
  have hdrain : Drainable (bufferBlocks v.data.node v.built) (reclaimTable d) free' := by
    refine ⟨hplaced'.chain, fun b hb => ?_, fun b hb => ?_, fun b hb c hc he => ?_⟩
    · exact mem_bufferBlocks.mpr ⟨b, (hmem b).mp hb, .inl rfl⟩
    · exact mem_bufferBlocks.mpr ⟨b, (hmem b).mp hb, .inr (congrArg rawBlock (hraw b))⟩
    · rw [hraw b, hraw c, ← (h.serving.same.2 b).1, ← (h.serving.same.2 c).1] at he
      exact h.serving.layout.rawInj b ((hmem b).mp hb) c ((hmem c).mp hc) he
  have hblocks : bufferBlocks (reclaimTable d).node free' = bufferBlocks v.data.node v.built := by
    ext c
    simp only [mem_bufferBlocks, hmem, hraw]
  exact ⟨free', poolDrain_spec hdrain (hsame.1.symm ▸ hfree), hblocks, hplaced'.chain, hmem, hempty⟩

/-! ## The state a lifetime ends in -/

structure Unloaded (E : Env) (s : System) : Prop where
  ctl : ∃ c : Control, c.cr4 = E.cr4 ||| cr4Osfxsr ∧ s.ctl = c.unloaded E
  -- the buffers are those that were built when the load ended
  data : ∃ v a t, Pools v a t ∧ Heap.Holding E.pool.heap.live v.blocks v.data.heap ∧
    (∃ v' a', Installed E v' a' (driverEntry E (initial E)).state ∧ v.built = v'.built) ∧
    s.trap.data = poolDrain (reclaimTable { t.data with heap := t.data.heap.free v.raw })

theorem lifetime_success (hload : (driverEntry E (initial E)).result = .success) :
    (lifetime E true (initial E)).result = .success := by
  have hbind : (lifetime E true (initial E)).result =
      ((if (driverEntry E (initial E)).result = .success then do
          interrupts E .running
          driverUnload E
          pure (driverEntry E (initial E)).result
        else pure (driverEntry E (initial E)).result : Prog System NtStatus)
          (driverEntry E (initial E)).state).result := rfl
  rw [hbind, if_pos hload]
  exact hload

theorem lifetime_unloaded (E : Env) (hload : (driverEntry E (initial E)).result = .success) :
    Unloaded E (lifetime E true (initial E)).state := by
  have hwp : wp (lifetime E true) (Guarded E fun _ => True)
      (fun status s => status = .success → Unloaded E s) (initial E) := by
    refine wp_lifetime E (fun _ _ => trivial) (fun _ v a a' s _ hl h => ?_)
      (fun hu => absurd hu (by decide)) ?_
    · refine wp_driverUnload h (fun _ => trivial)
        fun s' v' t a' hraw hbuilt hh hp hdata hctl _ => ?_
      exact ⟨⟨s.ctl, h.cr4, hctl⟩, v', a', t, hp, hh, ⟨v, a, hl, hbuilt⟩, hraw ▸ hdata⟩
    · exact fun status s hne _ hs => absurd hs hne
  exact hwp.2 (lifetime_success hload)

/-- Gate 7, the first bytes of `SwapContext` and CR4 are as they were before the load. -/
structure Undone (E : Env) (c : Control) : Prop where
  gate : c.gate = E.gate
  text : ∀ i < detourLen, c.text (off swapContextVa i) = E.text (off swapContextVa i)
  cr4 : c.cr4 = E.cr4

theorem cr4_cleared_iff (cr4 : BitVec 32) :
    (cr4 ||| cr4Osfxsr) &&& cr4OsfxsrClear = cr4 ↔ osfxsr cr4 = false := by
  have hmask : ∀ i < 32, cr4OsfxsrClear.getLsbD i = !cr4Osfxsr.getLsbD i := by decide
  have hset : osfxsr cr4 = false ↔ cr4 &&& cr4Osfxsr = 0#32 := by simp [osfxsr]
  have hbits : ∀ i < 32, ((cr4 ||| cr4Osfxsr) &&& cr4OsfxsrClear).getLsbD i =
      (cr4.getLsbD i && !cr4Osfxsr.getLsbD i) := by
    intro i hi
    simp only [BitVec.getLsbD_and, BitVec.getLsbD_or, hmask i hi]
    cases cr4Osfxsr.getLsbD i <;> simp
  rw [hset]
  constructor
  · intro h
    apply BitVec.eq_of_getLsbD_eq
    intro i hi
    have hbit := hbits i hi
    rw [h] at hbit
    rw [BitVec.getLsbD_and, BitVec.getLsbD_zero, hbit]
    cases cr4Osfxsr.getLsbD i <;> simp
  · intro h
    apply BitVec.eq_of_getLsbD_eq
    intro i hi
    have hbit := congrArg (BitVec.getLsbD · i) h
    simp only [BitVec.getLsbD_and, BitVec.getLsbD_zero] at hbit
    rw [hbits i hi]
    cases hc : cr4Osfxsr.getLsbD i
    · simp
    · rw [hc, Bool.and_true] at hbit
      rw [hbit, Bool.false_and]

/-- Load and unload restore gate 7 and `SwapContext` always, and CR4 exactly when OSFXSR was
clear before: `g_SseEnabled` says that it is set, not who set it. -/
theorem unload_undone_iff (E : Env) (hload : (driverEntry E (initial E)).result = .success) :
    (Undone E (lifetime E true (initial E)).state.ctl ↔ osfxsr E.cr4 = false) ∧
      (lifetime E true (initial E)).state.ctl.gate = E.gate ∧
      (lifetime E true (initial E)).state.ctl.text = E.text := by
  obtain ⟨c, hcr4, hctl⟩ := (lifetime_unloaded E hload).ctl
  have hend : (c.unloaded E).cr4 = (E.cr4 ||| cr4Osfxsr) &&& cr4OsfxsrClear := by rw [← hcr4,
    Control.unloaded]
  rw [hctl, ← cr4_cleared_iff, ← hend]
  exact ⟨⟨fun h => h.cr4, fun h => ⟨rfl, fun _ _ => rfl, h⟩⟩, rfl, rfl⟩

/-- The machine of `twoBuffersEnv`, with OSFXSR set before the load. -/
def osfxsrEnv : Env := { twoBuffersEnv with cr4 := 0x290 }

theorem unload_undone_iff_twoBuffers :
    (Undone twoBuffersEnv (lifetime twoBuffersEnv true (initial twoBuffersEnv)).state.ctl ↔
      osfxsr twoBuffersEnv.cr4 = false) ∧
      (lifetime twoBuffersEnv true (initial twoBuffersEnv)).state.ctl.gate = twoBuffersEnv.gate ∧
      (lifetime twoBuffersEnv true (initial twoBuffersEnv)).state.ctl.text = twoBuffersEnv.text :=
  unload_undone_iff twoBuffersEnv (by decide +kernel)

/-- The OSFXSR bit that was set before the load is cleared. -/
theorem unload_not_undone : ¬ ∀ E : Env, (driverEntry E (initial E)).result = .success →
    Undone E (lifetime E true (initial E)).state.ctl := by
  intro h
  have hcr4 := (h osfxsrEnv (by decide +kernel)).cr4
  exact absurd hcr4 (by decide +kernel)

/-! ## The blocks -/

/-- `PoolDrain` starts with no buffer in the table and these in the list, and its loop ends. -/
structure DrainsAll (built : List Addr) (d d' : Data) : Prop where
  table : ∀ idx, d.table idx = ⟨0, 0⟩
  list : ∃ free, FreeNodes d free ∧ ∀ b, b ∈ free ↔ b ∈ built
  result : d' = poolDrain d
  ends : Drains d d'

/-- Everything the load took was held when it ended; `PoolDrain` gets each of its buffers, and now
all of it is freed, each block once, and the list and the table are empty. -/
structure Balanced (E : Env) (loaded unloaded : System) : Prop where
  held : ∃ built, Built loaded.trap.data built ∧ Heap.Holding E.pool.heap.live
    (insert ⟨loaded.ctl.trampoline, detourLen + 5⟩
      (insert (rawBlock loaded.ctl.fxImageRaw) (bufferBlocks loaded.trap.data.node built)))
      loaded.trap.data.heap ∧
    ∃ d, DrainsAll built d unloaded.trap.data
  freed : Heap.Holding E.pool.heap.live ∅ unloaded.trap.data.heap
  freeList : unloaded.trap.data.freeList = 0
  table : ∀ idx, unloaded.trap.data.table idx = ⟨0, 0⟩

/-- Unloading a driver that loaded frees all it holds, whatever traps and switches there were. -/
theorem unload_balanced (E : Env) (hload : (driverEntry E (initial E)).result = .success) :
    Balanced E (driverEntry E (initial E)).state (lifetime E true (initial E)).state := by
  obtain ⟨v', a', t, hp, hh, ⟨v, a, h, hbuilt⟩, hdata⟩ := (lifetime_unloaded E hload).data
  obtain ⟨free', hdrained, hblocks, hlist, hmem, hempty⟩ := hp.reclaimed hh
  rw [← hdata] at hdrained
  have hfreed := hdrained.holding
  rw [hblocks, Finset.sdiff_self] at hfreed
  refine ⟨?_, hfreed, hdrained.freeList, fun idx => ?_⟩
  · have hholding := h.holding
    have hnode := bufferBlocks_congr (fun b => (h.pools.serving.same.2 b).1) v.built
    rw [Taken.blocks, ← h.raw, ← hnode, ← h.pools.heap_eq] at hholding
    rw [hbuilt] at hmem
    exact ⟨v.built, h.pools.serving.layout, hholding, _, hempty, ⟨free', hlist, hmem⟩, hdata,
      hdrained.ends⟩
  · rw [hdrained.table]
    exact hempty idx

/-- A thread traps while the driver runs, and its buffer is in the table at unload. -/
theorem unload_balanced_running :
    Balanced runningEnv (driverEntry runningEnv (initial runningEnv)).state
      (lifetime runningEnv true (initial runningEnv)).state :=
  unload_balanced runningEnv (by decide +kernel)

end Nt351.Driver
