import Nt351Sse.Driver.Load

/-! `DriverUnload`, and the whole life of a loaded driver: whatever interrupts come in
between, no trap path follows a stale pointer. -/

namespace Nt351.Driver
open Memory Probing Runs Preempt

variable {E : Env} {v : Taken} {a : Assignment Thread Addr} {t : Trap} {s : System}
  {C : Control → Prop}

theorem Installed.target (h : Installed E v a s) : gateTarget s.ctl.gate = E.nmHandler := by
  rw [h.gate, gateTarget_setGateTarget]

theorem Installed.armed (h : Installed E v a s) : Armed E v.data s.ctl :=
  ⟨fun _ => h.resume, fun _ => h.trampoline.1⟩

theorem Installed.tracked (h : Installed E v a s) : Tracked E s.ctl :=
  fun _ _ => ⟨h.target, h.text ▸ isJmp_patched E⟩

theorem Installed.with_trap (h : Installed E v a s) {a' : Assignment Thread Addr}
    (ht : Pools v a' t) : Installed E v a' ⟨t, s.ctl⟩ :=
  ⟨ht, h.gate, h.resume, h.nmHooked, h.text, h.original, h.swapHooked, h.trampoline, h.cr4,
    h.sseEnabled, h.raw,
    h.holding⟩

def Control.unloaded (E : Env) (c : Control) : Control :=
  { c with
    gate := E.gate
    text := E.text
    cr4 := c.cr4 &&& cr4OsfxsrClear
    fxImageRaw := 0
    nmHooked := false
    swapHooked := false
    trampoline := 0
    sseEnabled := false }

theorem wp_driverUnload {Q : Unit → System → Prop} (h : Installed E v a s) (hC : ∀ c, C c)
    (hQ : ∀ s' v' t a', v'.raw = v.raw → v'.built = v.built →
      Heap.Holding E.pool.heap.live v'.blocks v'.data.heap → Pools v' a' t →
      s'.trap.data = poolDrain (reclaimTable { t.data with heap := t.data.heap.free v.raw }) →
        s'.ctl = s.ctl.unloaded E → Q () s') :
    wp (driverUnload E) (Guarded E C) Q s := by
  have hraw0 : v.raw ≠ 0 := (v.data.heap.sound.valid _ h.pools.raw).1
  have hown : v.blocks ⊆ insert ⟨s.ctl.trampoline, detourLen + 5⟩ v.blocks :=
    Finset.subset_insert ..
  unfold driverUnload
  simp only [wp_bind]
  refine wp_removeSwapHook h.pools h.holding hown h.target h.resume h.text h.original h.swapHooked
    (Finset.mem_insert_self ..) hC fun v' t a' hblocks hraw' hbuilt hh ht => ?_
  rw [Finset.erase_insert (trampoline_notMem_blocks v _)] at hh
  refine wp_removeNmHook (s := ⟨t, _⟩) ht rfl (fun c _ => hC c) h.nmHooked h.gate h.resume
    fun t ht => ?_
  -- both hooks are out before anything they use is freed
  have hout {c : Control} (hgate : c.gate = E.gate) (htext : c.text = E.text) : ¬ Hooked E c := by
    rintro (hg | hj)
    · exact E.unhooked (hgate ▸ hg)
    · exact E.unpatched (htext ▸ hj)
  simp only [wp_bind, wp_read, wp_write, System.setTrap, h.raw, ne_eq, hraw0, not_false_eq_true,
    if_true]
  refine wp_interrupts_unhooked (hout rfl rfl) (hC _) fun fx cr0 => ?_
  simp only [wp_bind, wp_write, freeImage, System.setTrap, h.sseEnabled, if_true, disableSseThisCpu]
  refine wp_interrupts_unhooked (hout rfl rfl) (hC _) fun fx cr0 => ?_
  refine wp_interrupts_unhooked (hout rfl rfl) (hC _) fun fx cr0 => ?_
  refine hQ _ v' t a' hraw' hbuilt (hblocks ▸ hh) ht ?_ rfl
  simp only [drain, System.setData, System.setTrap, System.setCtl]

theorem wp_running {Q : Unit → System → Prop} (h : Installed E v a s) (hC : C s.ctl)
    (hQ : ∀ s' a', s'.ctl = s.ctl → Installed E v a' s' → Q () s') :
    wp (interrupts E .running) (Guarded E C) Q s :=
  wp_interrupts_armed h.pools h.target h.armed hC fun t ht => hQ ⟨t, s.ctl⟩ _ rfl (h.with_trap ht)

theorem wp_lifetime (E : Env) {unload : Bool} {Q : NtStatus → System → Prop}
    (hC : ∀ c, Tracked E c → C c)
    (hunload : unload = true → ∀ v a a' s, Loads E →
      Installed E v a (driverEntry E (initial E)).state → Installed E v a' s →
      wp (driverUnload E) (Guarded E C) (fun _ s => Q .success s) s)
    (hrun : unload = false → ∀ v a s, Installed E v a s → Q .success s)
    (hfail : ∀ status s, status ≠ .success → EntrySpec E status s → Q status s) :
    wp (lifetime E unload) (Guarded E C) Q (initial E) := by
  unfold lifetime
  rw [wp_bind]
  have hentry : wp (driverEntry E) (Guarded E (Tracked E)) (fun status s =>
      EntrySpec E status s ∧ s = (driverEntry E (initial E)).state) (initial E) :=
    ⟨(driverEntry_spec E).1, (driverEntry_spec E).2, rfl⟩
  refine wp_mono hentry (fun s hs => ⟨hs.1, hC _ hs.2⟩) fun status s ⟨hspec, hstate⟩ => ?_
  by_cases hs : status = .success
  · obtain ⟨hl, v, a, hinstalled⟩ := hspec.loaded hs
    subst hs
    rw [if_pos rfl, wp_bind]
    refine wp_running hinstalled (hC _ hinstalled.tracked) fun s' a' _ h' => ?_
    cases unload with
    | true =>
      rw [if_pos rfl, wp_bind]
      exact wp_mono (hunload rfl v a a' s' hl (hstate ▸ hinstalled) h') (fun _ hs => hs)
        fun _ _ hq => (wp_pure ..).mpr hq
    | false => exact (wp_pure ..).mpr (hrun rfl v a' s' h')
  · rw [if_neg hs, wp_pure]
    exact hfail status s hs hspec

/-- The trap paths are safe whenever they can be entered: at every point of `DriverEntry`,
of the running driver and of `DriverUnload`. -/
theorem trapPaths_never_stale (E : Env) (unload : Bool) :
    ∀ s ∈ (lifetime E unload (initial E)).trace, TrapPathsSafe E s := by
  have hwp : wp (lifetime E unload) (Guarded E fun _ => True) (fun _ _ => True) (initial E) := by
    refine wp_lifetime E (fun _ _ => trivial) (fun _ v _ a s _ _ h => ?_) (fun _ _ _ _ _ => trivial)
      fun _ _ _ _ => trivial
    exact wp_driverUnload h (fun _ => trivial) fun _ _ _ _ _ _ _ _ _ _ => trivial
  exact fun s hs => (hwp.1 s hs).1

/-- `twoBuffersEnv` with a trap and a switch while the driver runs. -/
def runningEnv : Env :=
  { twoBuffersEnv with
    sched := fun
      | .running => [.nm threadB, .swap]
      | _ => [] }

theorem trapPaths_never_stale_running : ∃ s ∈ (lifetime runningEnv true (initial runningEnv)).trace,
    s.trap.fxOwner ≠ 0 ∧ Hooked runningEnv s.ctl ∧ TrapPathsSafe runningEnv s := by
  have howned : ∃ s ∈ (lifetime runningEnv true (initial runningEnv)).trace,
      s.trap.fxOwner ≠ 0 ∧ gateTarget s.ctl.gate = runningEnv.nmHandler := by decide +kernel
  obtain ⟨s, hs, ho, hg⟩ := howned
  exact ⟨s, hs, ho, .inl hg, trapPaths_never_stale runningEnv true s hs⟩

/-! ## SSE and the hooks -/

/-- `DriverUnload` puts `SwapContext` back while OSFXSR is still set. -/
theorem Installed.osfxsr_of_unload {Q : Unit → System → Prop} (h : Installed E v a s)
    (hwp : wp (driverUnload E) (fun s => Tracked E s.ctl) Q s) : osfxsr E.cr4 = true := by
  have hrestored : storeBytes swapContextVa detourLen s.ctl.swapOriginal s.ctl.text = E.text := by
    rw [h.original, h.text, storeBytes_displaced]
  unfold driverUnload removeSwapHook at hwp
  simp only [wp_bind, wp_read, h.swapHooked, if_true, wp_write, System.setCtl, hrestored] at hwp
  -- the state an interrupt would find right after the five bytes are put back
  have htracked := wp_point_start hwp
  by_contra hclear
  have hset : osfxsr s.ctl.cr4 = true := by rw [h.cr4, osfxsr_set]
  exact E.unpatched (htracked hset (Bool.eq_false_iff.mpr hclear)).2

/-- SSE is tracked in every state of a lifetime exactly when `DriverUnload` is not called
after a load that set OSFXSR itself. -/
theorem tracked_iff (E : Env) (unload : Bool) :
    (∀ s ∈ (lifetime E unload (initial E)).trace, Tracked E s.ctl) ↔
      (unload = true → Loads E → osfxsr E.cr4 = true) := by
  constructor
  · rintro htrace rfl hl
    have hwp : wp (lifetime E true) (fun s => Tracked E s.ctl) (fun _ _ => True) (initial E) :=
      ⟨htrace, trivial⟩
    unfold lifetime at hwp
    have hspec := (driverEntry_spec E).2
    have hs : (driverEntry E (initial E)).result = .success := by
      by_contra hs
      exact (hspec.failed hs).1 hl
    obtain ⟨-, v, a, h⟩ := hspec.loaded hs
    have hrun := ((wp_bind ..).mp hwp).2
    simp only [hs, if_true, wp_bind] at hrun
    obtain ⟨a', h'⟩ := (wp_running (C := fun _ => True) (Q := fun _ s' => ∃ a', Installed E v a' s')
      h trivial
      fun _ a' _ h' => ⟨a', h'⟩).2
    exact h'.osfxsr_of_unload hrun.2
  · intro hcond
    have hwp : wp (lifetime E unload) (Guarded E (Tracked E)) (fun _ _ => True) (initial E) := by
      refine wp_lifetime E (fun _ h => h) (fun hu v _ a s hl _ h => ?_) (fun _ _ _ _ _ => trivial)
        fun _ _ _ _ => trivial
      have hset := hcond hu hl
      exact wp_driverUnload h (fun c _ hclear => absurd (hset.symm.trans hclear) (by decide))
        fun _ _ _ _ _ _ _ _ _ _ => trivial
    exact fun s hs => (hwp.1 s hs).2

/-- Nothing interferes with this lifetime; in its unload SSE is enabled and untracked. -/
theorem unload_untracked :
    ¬ ∀ (E : Env) (unload : Bool), ∀ s ∈ (lifetime E unload (initial E)).trace,
      Tracked E s.ctl := by
  intro h
  have htrace := h twoBuffersEnv true
  exact absurd htrace (by decide +kernel)

end Nt351.Driver
