import Nt351Sse.Driver.Install

/-! `DriverEntry` as a whole: every point it passes is safe, and what it leaves when it
succeeds and when it fails. -/

namespace Nt351.Driver
open Memory Probing Runs Preempt

/-- Wherever OSFXSR is set and was clear before the load, both hooks are in. -/
def Tracked (E : Env) (c : Control) : Prop :=
  osfxsr c.cr4 = true → osfxsr E.cr4 = false →
    gateTarget c.gate = E.nmHandler ∧ IsJmp c.text swapContextVa E.swapDetour

instance (E : Env) (c : Control) : Decidable (Tracked E c) :=
  inferInstanceAs (Decidable (_ → _ → _ ∧ _))

/-- `DriverEntry` gets as far as the #NM hook, and puts it in. -/
def GateGoesIn (E : Env) : Prop :=
  (prepare E (initial E)).1 = none ∧
    matchedLen E.text (gateTarget E.gate) E.nmHandler = nmPrologueLen

/-- No exit of `DriverEntry` is taken before the last. -/
def Loads (E : Env) : Prop :=
  GateGoesIn E ∧ swapMismatch E.text = 0 ∧
    ((prepare E (initial E)).2.trap.data.heap.alloc (detourLen + 5)).1 ≠ 0

/-- The #NMs taken while a load that fails has the gate. -/
def windowNms (E : Env) : List Thread :=
  nms (E.sched .gateSet ++ E.sched .nmHooked ++ E.sched .swapRefused)

structure Installed (E : Env) (v : Taken) (a : Assignment Thread Addr) (s : System) : Prop where
  pools : Pools v a s.trap
  gate : s.ctl.gate = setGateTarget E.nmHandler E.gate
  resume : s.ctl.kernelNmResume = off (gateTarget E.gate) nmPrologueLen
  nmHooked : s.ctl.nmHooked = true
  text : s.ctl.text = writeJmp swapContextVa E.swapDetour E.text
  original : s.ctl.swapOriginal = displaced E
  swapHooked : s.ctl.swapHooked = true
  trampoline : Trampoline E v.data s.ctl.swapTrampoline ∧ s.ctl.trampoline = s.ctl.swapTrampoline
  cr4 : s.ctl.cr4 = E.cr4 ||| cr4Osfxsr
  sseEnabled : s.ctl.sseEnabled = true
  raw : s.ctl.fxImageRaw = v.raw
  holding : Heap.Holding E.pool.heap.live (insert ⟨s.ctl.trampoline, detourLen + 5⟩ v.blocks)
    v.data.heap

/-- The hooks are out and CR4 is as before; the blocks `leaked` are not freed. -/
structure RolledBack (E : Env) (leaked : Finset Block) (s : System) : Prop where
  gate : s.ctl.gate = E.gate
  text : s.ctl.text = E.text
  cr4 : s.ctl.cr4 = E.cr4
  holding : Heap.Holding E.pool.heap.live leaked s.trap.data.heap

structure EntrySpec (E : Env) (status : NtStatus) (s : System) : Prop where
  loaded : status = .success → Loads E ∧ ∃ v a, Installed E v a s
  failed : status ≠ .success → ¬ Loads E ∧ ∃ leaked, RolledBack E leaked s ∧
    (leaked = ∅ ↔ (GateGoesIn E → windowNms E = []))

variable {E : Env} {v : Taken} {a : Assignment Thread Addr} {t : Trap} {s : System}
  {is : List Interrupt}
  {built : List Addr} {live₀ : List Block}

/-! ## What a failed load leaks -/

theorem bufferBlocks_congr {f g : Addr → SseBuffer} (h : ∀ b, (f b).rawBase = (g b).rawBase)
    (l : List Addr) : bufferBlocks f l = bufferBlocks g l := by
  ext c
  simp only [mem_bufferBlocks, h]

/-- The blocks of the buffers that are in the table. -/
def boundBlocks (v : Taken) (a : Assignment Thread Addr) : Finset Block :=
  bufferBlocks v.data.node v.built \ bufferBlocks v.data.node a.free

theorem Pools.freedImage (h : Pools v a t) (hh : Heap.Holding live₀ v.blocks v.data.heap) :
    Heap.Holding live₀ (bufferBlocks v.data.node v.built) (t.data.heap.free v.raw) := by
  have hnot : rawBlock v.raw ∉ bufferBlocks v.data.node v.built := by
    intro hm
    rcases mem_bufferBlocks.mp hm with ⟨b, hb, he | he⟩
    · exact nodeBlock_ne_rawBlock _ _ he.symm
    · exact h.rawApart b hb (congrArg Block.base he).symm
  have hfree := hh.free (Finset.mem_insert_self ..) (show (rawBlock v.raw).base = v.raw from rfl)
  rwa [Taken.blocks, Finset.erase_insert hnot, ← h.heap_eq] at hfree

theorem Pools.drained (h : Pools v a t) (hh : Heap.Holding live₀ v.blocks v.data.heap) :
    Heap.Holding live₀ (boundBlocks v a)
      (poolDrain { t.data with heap := t.data.heap.free v.raw }).heap := by
  have hfree := h.freedImage hh
  have hnode := bufferBlocks_congr fun b => (h.serving.same.2 b).1
  have hbuilt : ∀ b ∈ a.free, b ∈ v.built :=
    fun b hb => (h.serving.refines.placed.mem_built b).mpr (.inl hb)
  -- the free list is what `PoolDrain` sees of the buffers
  have hdrain : Drainable (bufferBlocks v.data.node v.built)
    { t.data with heap := t.data.heap.free v.raw } a.free := by
    refine ⟨h.serving.refines.placed.chain, fun b hb => ?_, fun b hb => ?_, fun b hb c hc => ?_⟩
    · exact mem_bufferBlocks.mpr ⟨b, hbuilt b hb, .inl rfl⟩
    · exact mem_bufferBlocks.mpr ⟨b, hbuilt b hb, .inr (congrArg rawBlock (h.serving.same.2 b).1)⟩
    · exact h.serving.layout.rawInj b (hbuilt b hb) c (hbuilt c hc)
  have hdrained := (poolDrain_spec hdrain hfree).holding
  rw [boundBlocks, ← hnode a.free]
  exact hdrained

theorem boundBlocks_eq_empty (hnd : v.built.Nodup) (hne : v.built ≠ [])
    (h : Pools v (acquired (.start v.built hnd) is) t) :
    boundBlocks v (acquired (.start v.built hnd) is) = ∅ ↔ nms is = [] := by
  constructor
  · intro hempty
    cases hn : nms is with
    | nil => rfl
    | cons u us =>
      -- the first thread to trap is given the head of the free list, and keeps it
      obtain ⟨b, bs, hb⟩ := List.exists_cons_of_ne_nil hne
      have hfirst : ((Assignment.start v.built hnd).acquire u).held u = some b := by
        rw [Assignment.acquire_of_free (k := u) rfl hb]
        simp [Assignment.grant]
      have hheld : (acquired (Assignment.start v.built hnd) is).held u = some b := by
        rw [acquired, hn, exec_cons]
        exact exec_acquire_mono hfirst us
      have hbuilt : nodeBlock b ∈ bufferBlocks v.data.node v.built :=
        mem_bufferBlocks.mpr ⟨b, h.serving.refines.held_built hheld, .inl rfl⟩
      have hfree : nodeBlock b ∈ bufferBlocks v.data.node
        (acquired (Assignment.start v.built hnd) is).free :=
        Finset.sdiff_eq_empty_iff_subset.mp hempty hbuilt
      rcases mem_bufferBlocks.mp hfree with ⟨c, hc, he | he⟩
      · obtain rfl : b = c := congrArg Block.base he
        exact absurd hc (Assignment.apart _ u b hheld)
      · exact absurd he (nodeBlock_ne_rawBlock _ _)
  · intro hn
    rw [boundBlocks, acquired, hn]
    exact Finset.sdiff_self _

/-! ## The run of `DriverEntry` -/

theorem Pools.rolledBack (h : Pools v a s.trap)
    (hh : Heap.Holding E.pool.heap.live v.blocks v.data.heap) (hraw : s.ctl.fxImageRaw = v.raw)
    (hgate : s.ctl.gate = E.gate) (htext : s.ctl.text = E.text) (hcr4 : s.ctl.cr4 = E.cr4) :
    RolledBack E (boundBlocks v a) (drain (freeImage s)) := by
  refine ⟨hgate, htext, hcr4, ?_⟩
  have hdrained := h.drained hh
  rw [← hraw] at hdrained
  exact hdrained

theorem Declined.entrySpec {status : NtStatus} (h : Declined E status s)
    (hp : (prepare E (initial E)).1 = some status) : EntrySpec E status s := by
  have hout : ¬ GateGoesIn E := fun hin => absurd (hp.symm.trans hin.1) (by simp)
  refine ⟨fun hs => absurd hs h.status, fun _ => ⟨fun hl => hout hl.1, ∅, ?_, ?_⟩⟩
  · exact ⟨h.idle.gate, h.idle.text, h.idle.cr4, h.holding⟩
  · exact iff_of_true rfl fun hin => absurd hin hout

theorem EntrySpec.of_rolledBack (hnd : v.built.Nodup) (hne : v.built ≠ []) (hl : ¬ Loads E)
    (hin : GateGoesIn E)
    (h : Pools v (acquired (.start v.built hnd) (E.sched .gateSet ++ E.sched .nmHooked ++
      E.sched .swapRefused)) t)
    (hr : RolledBack E
      (boundBlocks v (acquired (.start v.built hnd) (E.sched .gateSet ++ E.sched .nmHooked ++
        E.sched .swapRefused))) s) :
    EntrySpec E .unsuccessful s := by
  refine ⟨fun hs => absurd hs (by decide), fun _ => ⟨hl, _, hr, ?_⟩⟩
  rw [boundBlocks_eq_empty hnd hne h]
  exact ⟨fun hn _ => hn, fun hn => hn hin⟩

theorem tracked_of_cr4 {c : Control} (h : c.cr4 = E.cr4) : Tracked E c := by
  intro hset hclear
  rw [h, hclear] at hset
  exact absurd hset (by decide)

theorem isJmp_patched (E : Env) :
    IsJmp (writeJmp swapContextVa E.swapDetour E.text) swapContextVa E.swapDetour :=
  isJmp_writeJmp

theorem wp_refuseSwap (hnd : v.built.Nodup) (hne : v.built ≠ []) (hl : ¬ Loads E)
    (hin : GateGoesIn E) (mismatch : ℕ)
    (h : Pools v (acquired (.start v.built hnd) (E.sched .gateSet ++ E.sched .nmHooked)) s.trap)
    (hh : Heap.Holding E.pool.heap.live v.blocks v.data.heap)
    (hgate : s.ctl.gate = setGateTarget E.nmHandler E.gate) (htext : s.ctl.text = E.text)
    (hresume : s.ctl.kernelNmResume = off (gateTarget E.gate) nmPrologueLen)
    (hhooked : s.ctl.nmHooked = true) (hraw : s.ctl.fxImageRaw = v.raw) (hcr4 : s.ctl.cr4 = E.cr4) :
    wp (refuseSwap E mismatch) (Guarded E (Tracked E)) (EntrySpec E) s := by
  have htarget : gateTarget s.ctl.gate = E.nmHandler := by rw [hgate, gateTarget_setGateTarget]
  have harmed : Armed E v.data s.ctl :=
    ⟨fun _ => hresume, fun hj => absurd (htext ▸ hj) E.unpatched⟩
  unfold refuseSwap
  simp only [wp_bind, wp_write, wp_pure]
  refine wp_interrupts_armed h htarget harmed (tracked_of_cr4 hcr4) fun t ht => ?_
  rw [acquired_append] at ht
  have hlogged :
      Pools v _ (logData E [7, swapContextVa, BitVec.ofNat 32 mismatch] ⟨t, s.ctl⟩).trap :=
    ht
  refine wp_removeNmHook hlogged htext (fun c hc => tracked_of_cr4 (hc.trans hcr4)) hhooked hgate
    hresume fun t ht => ?_
  refine EntrySpec.of_rolledBack hnd hne hl hin ht (Pools.rolledBack ht hh hraw rfl htext hcr4)

theorem driverEntry_spec (E : Env) :
    wp (driverEntry E) (Guarded E (Tracked E)) (EntrySpec E) (initial E) := by
  have hprepare := prepare_spec E
  unfold driverEntry
  rw [wp_bind, wp_call]
  rcases hp : prepare E (initial E) with ⟨refused, s⟩
  rw [hp] at hprepare
  have hrefused : (prepare E (initial E)).1 = refused := congrArg Prod.fst hp
  have hstate : (prepare E (initial E)).2 = s := congrArg Prod.snd hp
  cases refused with
  | some status =>
    apply (wp_pure ..).mpr
    exact (hprepare.declined status rfl).entrySpec hrefused
  | none =>
    obtain ⟨v, hv⟩ : ∃ v, Prepared E v s := hprepare.prepared rfl
    have hnd := hv.prefilled.layout.nodup
    simp only [wp_bind]
    refine wp_interrupts_disarmed hv.pools (hv.idle.gate ▸ E.unhooked) (hv.idle.text ▸ E.unpatched)
      (tracked_of_cr4 hv.idle.cr4) fun t ht => ?_
    refine wp_installNmHook (s := ⟨t, s.ctl⟩) ht hv.idle.text
      (fun c hc => tracked_of_cr4 (hc.trans hv.idle.cr4)) hv.idle.gate
      (fun hm live matched => ?_) fun hm t live matched ht => ?_
    -- `InstallNmHook` refuses: nothing was ever hooked
    · have hout : ¬ GateGoesIn E := fun hin => hm hin.2
      have hr : RolledBack E _ _ :=
        Pools.rolledBack (s := logData E [6, live, BitVec.ofNat 32 matched] ⟨t, s.ctl⟩) ht
        hv.holding hv.raw hv.idle.gate hv.idle.text hv.idle.cr4
      have hempty : boundBlocks v (.start v.built hnd) = ∅ := Finset.sdiff_self _
      rw [if_neg Bool.false_ne_true]
      simp only [refuseNm, wp_bind, wp_write, wp_pure]
      refine ⟨fun hs => absurd hs (by decide), fun _ => ⟨fun hl => hout hl.1, _, hr, ?_⟩⟩
      exact iff_of_true hempty fun hin => absurd hin hout
    · have hin : GateGoesIn E := ⟨hrefused, hm⟩
      have hgate : (s.ctl.nmIn E).gate = setGateTarget E.nmHandler E.gate := by rw [Control.nmIn,
        hv.idle.gate]
      have hheap : (prepare E (initial E)).2.trap.data.heap = v.data.heap := by rw [hstate, hv.data]
      rw [if_pos rfl, wp_bind]
      refine wp_installSwapHook (s := ⟨t, s.ctl.nmIn E⟩) ht hv.holding subset_rfl
        (nmIn_target s.ctl)
        rfl hv.idle.text hv.idle.trampoline (fun c hc => tracked_of_cr4 (hc.trans hv.idle.cr4))
        (fun hm mismatch heap t hh ht => ?_) fun hm halloc p heap t a hh htr ht => ?_
      · have hl : ¬ Loads E := fun hl => hm.elim (fun h => h hl.2.1) fun h => hl.2.2 (hheap ▸ h)
        rw [if_neg Bool.false_ne_true]
        exact wp_refuseSwap (v := v.withHeap heap) hnd hv.nonempty hl hin mismatch ht hh hgate
          hv.idle.text rfl rfl hv.raw
          hv.idle.cr4
      · have htarget : gateTarget (s.ctl.nmIn E).gate = E.nmHandler := nmIn_target s.ctl
        have htext : ((s.ctl.nmIn E).swapIn E p).text =
          writeJmp swapContextVa E.swapDetour E.text := by
          rw [← hv.idle.text]
          rfl
        have hcr4 : (s.ctl.nmIn E).cr4 = E.cr4 := hv.idle.cr4
        rw [if_pos rfl]
        refine wp_enable (s := ⟨t, (s.ctl.nmIn E).swapIn E p⟩) ht htarget ⟨fun _ => rfl,
          fun _ => htr⟩
          (fun c hc ht _ _ => ⟨hc ▸ htarget, ?_⟩) fun t a log ht => ?_
        · rw [ht, htext]
          exact isJmp_patched E
        · refine ⟨fun _ => ⟨⟨hin, hm, hheap ▸ halloc⟩, v.detoured E p heap, a, ?_⟩,
            fun hs => absurd rfl hs⟩
          refine ⟨ht, hgate, rfl, rfl, htext, rfl, rfl, ⟨htr, rfl⟩, ?_, rfl, hv.raw, hh⟩
          rw [← hcr4]
          rfl

/-! ## Failed loads -/

/-- The hooks and CR4 are as before the load, and so are the live blocks: what the load
has taken is freed, each block once. -/
structure Restored (E : Env) (s : System) : Prop where
  gate : s.ctl.gate = E.gate
  text : s.ctl.text = E.text
  cr4 : s.ctl.cr4 = E.cr4
  live : ∀ c, c ∈ s.trap.data.heap.live ↔ c ∈ E.pool.heap.live
  once : s.trap.data.heap.bugcheck = false

theorem RolledBack.restored_iff {leaked : Finset Block} (h : RolledBack E leaked s) :
    Restored E s ↔ leaked = ∅ := by
  constructor
  · intro hr
    refine Finset.eq_empty_iff_forall_notMem.mpr fun c hc => ?_
    exact h.holding.apart c hc ((hr.live c).mp ((h.holding.mem c).mpr (.inl hc)))
  · rintro rfl
    refine ⟨h.gate, h.text, h.cr4, fun c => ?_, h.holding.clean⟩
    rw [h.holding.mem c]
    simp

/-- A failed load leaves nothing behind exactly when no #NM is taken while it has the gate. -/
theorem failedLoad_restored_iff (E : Env) (hfail : (driverEntry E (initial E)).result ≠ .success) :
    Restored E (driverEntry E (initial E)).state ↔ (GateGoesIn E → windowNms E = []) := by
  obtain ⟨-, leaked, hr, hleaked⟩ := (driverEntry_spec E).2.failed hfail
  rw [hr.restored_iff, hleaked]

/-- A machine the driver loads on, with room for two buffers, the image and the trampoline. -/
def twoBuffersEnv : Env where
  nmHandler := 0xfc8a1000
  swapDetour := 0xfc8a2000
  gate := setGateTarget 0x80140000 ⟨0, 8, 0, 0x8e, 0⟩
  text := storeBytes swapContextVa detourLen swapExpected fun _ => 0
  cr4 := 0
  pool := { twoBuffers with
    heap :=
      ⟨[], [0x81000000, 0x81001000, 0x81002000, 0x81003000, 0, 0x81004000, 0x81005000], false,
        .nil⟩ }
  fx := twoBuffersTrap.fx
  cr0 := twoBuffersTrap.cr0
  keyOpens := false
  forceNpxEmulation := none
  hasCpuid := true
  cpuidEdx := 0x0383fbff
  logPacket := true
  self := threadA
  sched _ := []
  clean := rfl
  unhooked := by decide +kernel
  unpatched := by decide +kernel

/-- The same machine with another `SwapContext`; `threadB` uses the FPU while the #NM hook is in. -/
def trappedEnv : Env :=
  { twoBuffersEnv with
    text := fun _ => 0
    sched := fun
      | .nmHooked => [.nm threadB]
      | _ => []
    unpatched := by decide +kernel }

theorem failedLoad_restored_iff_trapped :
    Restored trappedEnv (driverEntry trappedEnv (initial trappedEnv)).state ↔
      (GateGoesIn trappedEnv → windowNms trappedEnv = []) :=
  failedLoad_restored_iff trappedEnv (by decide +kernel)

/-- The buffer of `threadB` is in the table when `PoolDrain` empties the free list. -/
theorem failedLoad_leaks :
    ¬ ∀ E : Env, (driverEntry E (initial E)).result ≠ .success →
      Restored E (driverEntry E (initial E)).state := by
  intro h
  have hlive := ((h trappedEnv (by decide +kernel)).live (nodeBlock 0x81002000)).mp
    (by decide +kernel)
  exact absurd hlive List.not_mem_nil

end Nt351.Driver
