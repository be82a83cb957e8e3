import Nt351Sse.Driver.Pools
import Nt351Sse.Driver.SelfTest

/-! What `DriverEntry` has done when it comes to the hooks. If it has returned before, every
block it took is freed; else the buffers are free, the image is in place, and the driver
holds the blocks of both and no others. -/

namespace Nt351.Driver
open Memory Probing Runs Preempt

/-! ## Up to the hooks -/

variable {d : Data} {built : List Addr} {E : Env} {s : System}

theorem forceNpxEmulationSet_heap (E : Env) (heap : Heap) :
    (forceNpxEmulationSet E heap).2.live = heap.live ∧ (forceNpxEmulationSet E heap).2.bugcheck =
      heap.bugcheck := by
  unfold forceNpxEmulationSet
  split
  · exact ⟨rfl, rfl⟩
  · rcases ha : heap.alloc infoSize with ⟨info, heap'⟩
    by_cases hi : info = 0
    · subst hi
      exact Heap.alloc_refused ha
    · obtain ⟨hfresh, hl, hc⟩ := Heap.alloc_fresh ha hi
      have hmem : (⟨info, infoSize⟩ : Block) ∈ heap'.live := hl ▸ List.mem_cons_self
      simp only [hi, if_false]
      exact ⟨Heap.free_live_of_fresh hl hfresh heap.sound, (Heap.free_bugcheck hmem rfl).trans hc⟩

structure Idle (E : Env) (c : Control) : Prop where
  gate : c.gate = E.gate
  text : c.text = E.text
  cr4 : c.cr4 = E.cr4
  nmHooked : c.nmHooked = false
  swapHooked : c.swapHooked = false
  trampoline : c.trampoline = 0
  sseEnabled : c.sseEnabled = false

def Taken.blocks (v : Taken) : Finset Block :=
  insert (rawBlock v.raw) (bufferBlocks v.data.node v.built)

/-- The buffers are built and free and the image is in place. -/
structure Prepared (E : Env) (v : Taken) (s : System) : Prop where
  idle : Idle E s.ctl
  raw : s.ctl.fxImageRaw = v.raw
  data : s.trap.data = v.data
  prefilled : Prefilled v.data v.built
  pools : Pools v (.start v.built prefilled.layout.nodup) s.trap
  owner : s.trap.fxOwner = 0
  nonempty : v.built ≠ []
  length : v.built.length = s.ctl.buffersBuilt ∧ s.ctl.buffersBuilt ≤ prefillBuffers
  holding : Heap.Holding E.pool.heap.live v.blocks v.data.heap

structure Declined (E : Env) (status : NtStatus) (s : System) : Prop where
  idle : Idle E s.ctl
  status : status ≠ .success
  holding : Heap.Holding E.pool.heap.live ∅ s.trap.data.heap

/-- `none` is the answer of `prepare` that goes on to the hooks. -/
structure PrepareSpec (E : Env) (refused : Option NtStatus) (s : System) : Prop where
  declined : ∀ status, refused = some status → Declined E status s
  prepared : refused = none → ∃ v, Prepared E v s

theorem Declined.prepareSpec {status : NtStatus} (h : Declined E status s) :
    PrepareSpec E (some status) s :=
  ⟨fun _ he => Option.some.inj he ▸ h, fun he => absurd he (by simp)⟩

theorem Prepared.prepareSpec {v : Taken} (h : Prepared E v s) : PrepareSpec E none s :=
  ⟨fun _ he => absurd he (by simp), fun _ => ⟨v, h⟩⟩

variable {raw : Addr} {heap : Heap}

theorem Prefilled.drainable (h : Prefilled d built) :
    Drainable (bufferBlocks d.node built) d built :=
  ⟨h.placed.chain, fun b hb => mem_bufferBlocks.mpr ⟨b, hb, .inl rfl⟩,
    fun b hb => mem_bufferBlocks.mpr ⟨b, hb, .inr rfl⟩,
    h.layout.rawInj⟩

theorem Prefilled.stosb (h : Prefilled d built) (himage : ImageLaid d built (alignUp raw)) :
    Prefilled { d with mem := Memory.stosb (alignUp raw) 0 d.mem sseSaveSize } built := by
  refine ⟨h.layout.congr ⟨rfl, fun _ => ⟨rfl, rfl⟩⟩, (h.refines.withMem _).placed, h.empty,
    fun b hb => ?_⟩
  refine areaDefault_congr (h.default b hb) fun i hi => stosb_outside himage.fits ?_
  exact (himage.disjoint h.layout hb).symm.not_covers ((h.layout.laid b hb).area_fits.covers_off hi)

theorem Idle.setImage {c : Control} (h : Idle E c) (raw : Addr) :
    Idle E { c with fxImageRaw := raw } :=
  ⟨h.gate, h.text, h.cr4, h.nmHooked, h.swapHooked, h.trampoline, h.sseEnabled⟩

theorem Idle.setLog {c : Control} (h : Idle E c) (log : List (List (BitVec 32))) :
    Idle E { c with log := log } :=
  ⟨h.gate, h.text, h.cr4, h.nmHooked, h.swapHooked, h.trampoline, h.sseEnabled⟩

theorem prepareImage_spec (hidle : Idle E s.ctl) (h : Prefilled s.trap.data built)
    (hne : built ≠ [])
    (hlen : built.length = s.ctl.buffersBuilt ∧ s.ctl.buffersBuilt ≤ prefillBuffers)
    (hh : Heap.Holding E.pool.heap.live (bufferBlocks s.trap.data.node built) s.trap.data.heap) :
    PrepareSpec E (prepareImage E s).1 (prepareImage E s).2 := by
  rcases ha : s.trap.data.heap.alloc (sseSaveSize + sseSaveAlign) with ⟨raw, heap⟩
  by_cases hr : raw = 0
  · subst hr
    obtain ⟨hl, hc⟩ := Heap.alloc_refused ha
    have hd : Prefilled { s.trap.data with heap := heap } built := h.of_heap fun _ hm => hl ▸ hm
    have hdrain := (poolDrain_spec hd.drainable (hh.congr hl hc)).holding
    rw [Finset.sdiff_self] at hdrain
    simp only [prepareImage, ha, if_true]
    exact Declined.prepareSpec ⟨(hidle.setImage 0).setLog _, by decide, hdrain⟩
  · obtain ⟨hd, himage⟩ := h.imageLaid ha hr
    obtain ⟨hfresh, hl, -⟩ := Heap.alloc_fresh ha hr
    have hd' := hd.stosb himage
    have hraw : rawBlock raw ∈ heap.live := hl ▸ List.mem_cons_self
    have hapart : ∀ b ∈ built, (s.trap.data.node b).rawBase ≠ raw := fun b hb =>
      fresh_ne s.trap.data.heap.sound hfresh (h.layout.laid b hb).raw
    have hmax : built.length < maxThreads := by
      simp only [maxThreads]
      have := hlen.2
      simp only [prefillBuffers] at this
      omega
    simp only [prepareImage, ha, hr, if_false]
    exact Prepared.prepareSpec (v := ⟨_, built, raw⟩) ⟨hidle.setImage raw, rfl, rfl, hd',
      ⟨hd'.serving, hmax, rfl, hraw, hapart, .inl rfl, fun _ _ => rfl⟩, rfl, hne, hlen,
      hh.alloc ha hr⟩

theorem prepare_spec (E : Env) :
    PrepareSpec E (prepare E (initial E)).1 (prepare E (initial E)).2 := by
  rcases hforce : forceNpxEmulationSet E (initial E).trap.data.heap with ⟨force, heap⟩
  have hheap := forceNpxEmulationSet_heap E (initial E).trap.data.heap
  rw [hforce] at hheap
  have hl : heap.live = E.pool.heap.live := hheap.1
  have hc : heap.bugcheck = false := hheap.2.trans E.clean
  have hstart : Heap.Holding E.pool.heap.live ∅ heap := hl ▸ Heap.Holding.start hc
  by_cases hf : force
  · simp only [prepare, hforce, hf, if_true]
    exact Declined.prepareSpec ⟨⟨rfl, rfl, rfl, rfl, rfl, rfl, rfl⟩, by decide, hstart⟩
  by_cases hcpuid : E.hasCpuid
  · by_cases hsse : hasFxsrSse E.cpuidEdx
    · obtain ⟨built, hp, hn, hle, hh⟩ :=
        prefill_account { (initial E).trap.data with heap := heap } hc
      have hh : Heap.Holding E.pool.heap.live _ _ := hl ▸ hh
      rcases hpre : prefill { (initial E).trap.data with heap := heap } with ⟨buffersBuilt, d⟩
      simp only [hpre] at hp hn hh
      -- with no buffer built `PoolDrain` has nothing to do, and is not called
      by_cases hb : buffersBuilt = 0
      · obtain rfl : built = [] := List.length_eq_zero_iff.mp (hn.trans hb)
        simp only [prepare, hforce, hf, hcpuid, hsse, hpre, hb, System.setData, System.setTrap,
          System.setCtl]
        exact Declined.prepareSpec ⟨⟨rfl, rfl, rfl, rfl, rfl, rfl, rfl⟩, by decide, hh⟩
      · have hne : built ≠ [] := fun h0 => hb (hn.symm.trans (congrArg List.length h0))
        simp only [prepare, hforce, hf, hcpuid, hsse, hpre, hb, System.setData, System.setTrap,
          System.setCtl,
          hp.selfTest hne]
        exact prepareImage_spec ⟨rfl, rfl, rfl, rfl, rfl, rfl, rfl⟩ hp hne ⟨hn, hn ▸ hle⟩ hh
    · simp only [prepare, hforce, hf, hcpuid, hsse, System.setData, System.setTrap, System.setCtl]
      exact Declined.prepareSpec ⟨⟨rfl, rfl, rfl, rfl, rfl, rfl, rfl⟩, by decide, hstart⟩
  · simp only [prepare, hforce, hf, hcpuid]
    exact Declined.prepareSpec ⟨⟨rfl, rfl, rfl, rfl, rfl, rfl, rfl⟩, by decide, hstart⟩

theorem Prepared.loaded {v : Taken} (h : Prepared E v s) : Loaded s.ctl.buffersBuilt s.trap := by
  refine ⟨⟨v.built, ?_, h.length.1, h.length.2, h.pools.imageLaid⟩, h.owner⟩
  rw [h.data]
  exact h.prefilled

end Nt351.Driver
