import Nt351Sse.Driver.Load
import Nt351Sse.Driver.Preserve

/-! What `DriverEntry` hands over to the running machine. It is the state in which the runs
of the machine start, unless a thread has trapped through the gate while the load went on. -/

namespace Nt351.Driver
open Memory Runs Preempt

/-- From the write of the gate to the return of `DriverEntry`. -/
def gatedPoints : List Point :=
  [.gateSet, .nmHooked, .trampolineAllocated, .displacedCopied, .trampolineBuilt,
    .swapTrampolineSet, .swapPatched, .swapHooked, .cr4Set, .sseEnabled]

/-- The threads that trap at the points `ps`. -/
def trapped (E : Env) (ps : List Point) : List Thread := ps.flatMap fun p => nms (E.sched p)

/-- Some slot of the table is in use. -/
def Spent (d : Data) : Prop := ∃ idx, d.table idx ≠ ⟨0, 0⟩

/-- The state after the threads `us` have trapped. -/
structure Staged (n : ℕ) (us : List Thread) (t : Trap) : Prop where
  loaded : us = [] → Loaded n t
  spent : us ≠ [] → Spent t.data

variable {E : Env} {n : ℕ} {t : Trap} {s : System} {p : Addr} {pt : Point} {us : List Thread}
  {u : Thread}

namespace Loaded

variable (h : Loaded n t)
include h

theorem withFx (fx : FxState) (cr0 : BitVec 32) : Loaded n { t with fx := fx, cr0 := cr0 } :=
  ⟨h.pool, h.owner⟩

theorem withHeap {heap : Heap} (hl : t.data.heap.live ⊆ heap.live) :
    Loaded n { t with data := { t.data with heap := heap } } := by
  obtain ⟨built, hpool, hlen, hle, raw, hraw, himage, hne⟩ := h.pool
  exact ⟨⟨built, hpool.of_heap hl, hlen, hle, raw, hl hraw, himage, hne⟩, h.owner⟩

/-- Memory may change in a block that is no buffer's. -/
theorem withMem {k : ℕ} {f : Mem → Mem} (hp : ⟨p, k⟩ ∈ t.data.heap.live)
    (hk : k ≠ sseSaveSize + sseSaveAlign)
    (hf : ∀ m x, ¬Block.Covers ⟨p, k⟩ x → f m x = m x) : Loaded n (t.withMem f) := by
  obtain ⟨built, hpool, hlen, hle, himage⟩ := h.pool
  refine ⟨⟨built, ⟨hpool.layout.congr ⟨rfl, fun _ => ⟨rfl, rfl⟩⟩,
    (hpool.refines.withMem _).placed, hpool.empty, fun b hb => ?_⟩, hlen, hle,
    himage.congr ⟨rfl, fun _ => ⟨rfl, rfl⟩⟩⟩, h.owner⟩
  have hlaid := hpool.layout.laid b hb
  have hapart : Block.Disjoint ⟨p, k⟩ (rawBlock (t.data.node b).rawBase) :=
    (t.data.heap.sound.eq_or_disjoint hp hlaid.raw).resolve_left fun he =>
      hk (congrArg Block.size he)
  refine areaDefault_congr (hpool.default b hb) fun i hi => hf _ _ ?_
  exact hapart.symm.not_covers (hlaid.area_within.covers (hlaid.area_fits.covers_off hi))

/-- The table is empty, so that the thread takes the head of the free list. -/
theorem spent_nmHandler (hn : 0 < n) (u : Thread) : Spent (nmHandler u t).data := by
  obtain ⟨built, hpool, hlen, hle, himage⟩ := h.pool
  have hlt : built.length < maxThreads := by
    simp only [maxThreads, prefillBuffers] at hle ⊢
    omega
  obtain ⟨b, bs, hb⟩ := List.exists_cons_of_length_pos (hlen ▸ hn)
  have hserving := (hpool.serving.nmHandler hlt himage.ne_zero u).1
  have hheld : ((Assignment.start (K := Thread) built (Chain.nodup hpool.placed.chain)).acquire
      u).held u = some b := by
    rw [Assignment.acquire_of_free (k := u) rfl hb]
    simp [Assignment.grant]
  obtain ⟨idx, hidx⟩ := (hserving.refines.held u b).mp hheld
  refine ⟨idx, fun hzero => u.2 ?_⟩
  exact congrArg ThreadSlot.thread (hidx.symm.trans hzero)

theorem not_spent : ¬Spent t.data := by
  obtain ⟨built, hpool, -⟩ := h.pool
  exact fun ⟨idx, hidx⟩ => hidx (hpool.empty idx)

end Loaded

theorem Lookup.heap {d d' : Data} {u b : Addr} (h : Lookup d u b d') : d'.heap = d.heap := by
  cases h <;> rfl

theorem Spent.lookup {d d' : Data} {b : Addr} (h : Spent d) (hl : Lookup d u b d') : Spent d' := by
  obtain ⟨i, hi⟩ := h
  cases hl with
  | hit idx hp ht => exact ⟨i, hi⟩
  | claim idx hp he hf =>
    refine ⟨idx, ?_⟩
    rw [claimHead_table_self]
    exact fun hzero => u.2 (congrArg ThreadSlot.thread hzero)
  | exhausted idx hp he hf => exact ⟨i, hi⟩
  | full hp => exact ⟨i, hi⟩

/-- A #NM is a lookup, memory aside. -/
theorem nmHandler_lookup (u : Thread) (t : Trap) :
    ∃ m d, (nmHandler u t).data = { d with mem := m } ∧
      (d = t.data ∨ ∃ b, Lookup t.data u b d) := by
  by_cases h0 : t.fxImage = 0
  · rw [nmHandler_noImage h0]
    exact ⟨t.data.mem, t.data, rfl, .inl rfl⟩
  · rcases hlook : trapLookupSaveArea u t.data with ⟨area, d⟩
    obtain ⟨b, hl, -⟩ := trapLookupSaveArea_lookup t.data u
    rw [hlook] at hl
    rw [nmHandler_eq h0 hlook]
    exact ⟨_, d, rfl, .inr ⟨b, hl⟩⟩

theorem nmHandler_heap (u : Thread) (t : Trap) : (nmHandler u t).data.heap = t.data.heap := by
  obtain ⟨m, d, hdata, hd⟩ := nmHandler_lookup u t
  rw [hdata]
  rcases hd with rfl | ⟨b, hl⟩
  · rfl
  · exact hl.heap

theorem Spent.nmHandler (h : Spent t.data) (u : Thread) : Spent (nmHandler u t).data := by
  obtain ⟨m, d, hdata, hd⟩ := nmHandler_lookup u t
  have hspent : Spent d := by
    rcases hd with rfl | ⟨b, hl⟩
    · exact h
    · exact h.lookup hl
  rw [hdata]
  exact hspent

namespace Staged

variable (h : Staged n us t)
include h

theorem nm (hn : 0 < n) (u : Thread) : Staged n (us ++ [u]) (nmHandler u t) := by
  refine ⟨fun hnone => absurd hnone (List.append_ne_nil_of_right_ne_nil _ (List.cons_ne_nil u [])),
    fun _ => ?_⟩
  by_cases hus : us = []
  · exact (h.loaded hus).spent_nmHandler hn u
  · exact (h.spent hus).nmHandler u

theorem swap : Staged n us (swapDetour t) := by
  refine ⟨fun hus => ?_, fun hus => ?_⟩
  · -- with no owner there is nothing to flush
    have hidle : swapDetour t = t := by
      rw [swapDetour, if_pos (h.loaded hus).owner, ite_self]
    rw [hidle]
    exact h.loaded hus
  · obtain ⟨m, hm⟩ := swapDetour_data t
    rw [hm]
    exact h.spent hus

theorem withFx (fx : FxState) (cr0 : BitVec 32) : Staged n us { t with fx := fx, cr0 := cr0 } :=
  ⟨fun hus => (h.loaded hus).withFx fx cr0, h.spent⟩

theorem withHeap {heap : Heap} (hl : t.data.heap.live ⊆ heap.live) :
    Staged n us { t with data := { t.data with heap := heap } } :=
  ⟨fun hus => (h.loaded hus).withHeap hl, h.spent⟩

theorem withMem {k : ℕ} {f : Mem → Mem} (hp : ⟨p, k⟩ ∈ t.data.heap.live)
    (hk : k ≠ sseSaveSize + sseSaveAlign) (hf : ∀ m x, ¬Block.Covers ⟨p, k⟩ x → f m x = m x) :
    Staged n us (t.withMem f) :=
  ⟨fun hus => (h.loaded hus).withMem hp hk hf, h.spent⟩

end Staged

/-! ## Interrupts -/

theorem wp_interrupts_ungated {Q : Unit → System → Prop} (h : Staged n us s.trap)
    (hg : gateTarget s.ctl.gate ≠ E.nmHandler) (hQ : ∀ t, Staged n us t → Q () ⟨t, s.ctl⟩) :
    wp (interrupts E pt) (fun _ => True) Q s := by
  refine wp_point_of_invariant (I := fun _ s' => s'.ctl = s.ctl ∧ Staged n us s'.trap)
    ⟨rfl, h⟩ (fun is i s' hs => ?_) (fun _ _ _ => trivial) fun s' hs => ?_
  · obtain ⟨hctl, hs'⟩ := hs
    refine ⟨(serve_ctl i).trans hctl, ?_⟩
    cases i with
    | nm u =>
      rw [serve_nm, if_neg (hctl ▸ hg)]
      exact hs'
    | swap =>
      rw [serve_swap]
      split
      · exact hs'.swap
      · exact hs'
    | others fx cr0 => exact hs'.withFx fx cr0
  · obtain ⟨t, c⟩ := s'
    obtain ⟨rfl, hs'⟩ := hs
    exact hQ t hs'

theorem trapped_concat (ps : List Point) :
    trapped E (ps ++ [pt]) = trapped E ps ++ nms (E.sched pt) := by
  rw [trapped, List.flatMap_append, List.flatMap_singleton]
  rfl

theorem wp_interrupts_gated {Q : Unit → System → Prop} {ps : List Point} (hn : 0 < n)
    (h : Staged n (trapped E ps) s.trap) (hg : gateTarget s.ctl.gate = E.nmHandler)
    (hQ : ∀ t, Staged n (trapped E (ps ++ [pt])) t → t.data.heap = s.trap.data.heap →
      Q () ⟨t, s.ctl⟩) :
    wp (interrupts E pt) (fun _ => True) Q s := by
  refine wp_point_of_invariant (I := fun is s' => s'.ctl = s.ctl ∧
    Staged n (trapped E ps ++ nms is) s'.trap ∧ s'.trap.data.heap = s.trap.data.heap)
    ⟨rfl, (List.append_nil _).symm ▸ h, rfl⟩ (fun is i s' hs => ?_) (fun _ _ _ => trivial)
    fun s' hs => ?_
  · obtain ⟨hctl, hs', hheap⟩ := hs
    refine ⟨(serve_ctl i).trans hctl, ?_⟩
    rw [nms_append, ← List.append_assoc]
    cases i with
    | nm u =>
      rw [serve_nm, if_pos (hctl ▸ hg)]
      exact ⟨hs'.nm hn u, (nmHandler_heap u _).trans hheap⟩
    | swap =>
      rw [serve_swap, show nms [Interrupt.swap] = [] from rfl, List.append_nil]
      split
      · obtain ⟨m, hm⟩ := swapDetour_data s'.trap
        exact ⟨hs'.swap, (congrArg Data.heap hm).trans hheap⟩
      · exact ⟨hs', hheap⟩
    | others fx cr0 =>
      rw [show nms [Interrupt.others fx cr0] = [] from rfl, List.append_nil]
      exact ⟨hs'.withFx fx cr0, hheap⟩
  · obtain ⟨t, c⟩ := s'
    obtain ⟨rfl, hs', hheap⟩ := hs
    rw [← trapped_concat] at hs'
    exact hQ t hs' hheap

/-! ## The load -/

theorem back_within (h : Block.Fits ⟨p, detourLen + 5⟩) :
    Block.Within ⟨off p detourLen, 5⟩ ⟨p, detourLen + 5⟩ := by
  have hp : (off p detourLen).toNat = p.toNat + detourLen := by
    apply off_toNat
    simp only [Block.Fits, detourLen] at h ⊢
    omega
  simp only [Block.Within, hp]
  omega

/-- What a load hands over. -/
def HandsOver (E : Env) (status : NtStatus) (s : System) : Prop :=
  status = .success →
    0 < s.ctl.buffersBuilt ∧ Staged s.ctl.buffersBuilt (trapped E gatedPoints) s.trap

theorem wp_handsOver_of_ne {x : Prog System NtStatus} (h : (x s).result ≠ .success) :
    wp x (fun _ => True) (HandsOver E) s :=
  ⟨fun _ _ => trivial, fun hs => absurd hs h⟩

theorem wp_installNmHook_staged {Q : Bool × Addr × ℕ → System → Prop} (hn : 0 < n)
    (h : Staged n [] s.trap) (hgate : gateTarget s.ctl.gate ≠ E.nmHandler)
    (hrefused : ∀ live matched, Q (false, live, matched) s)
    (hin : ∀ t live matched c, Staged n (trapped E [.gateSet, .nmHooked]) t →
      gateTarget c.gate = E.nmHandler → c.buffersBuilt = s.ctl.buffersBuilt →
      Q (true, live, matched) ⟨t, c⟩) :
    wp (installNmHook E) (fun _ => True) Q s := by
  unfold installNmHook
  simp only [wp_bind, wp_read]
  split
  · rw [wp_pure]
    exact hrefused _ _
  · have hset := gateTarget_setGateTarget E.nmHandler s.ctl.gate
    simp only [wp_bind, wp_write, wp_pure]
    refine wp_interrupts_ungated h hgate fun t ht => ?_
    have hnone : Staged n (trapped E []) t := ht
    refine wp_interrupts_gated hn hnone hset fun t ht _ => ?_
    refine wp_interrupts_gated hn ht hset fun t ht _ => ?_
    exact hin t _ _ _ ht hset rfl

theorem wp_installSwapHook_staged {Q : Bool × ℕ → System → Prop} {ps : List Point} (hn : 0 < n)
    (h : Staged n (trapped E ps) s.trap) (hg : gateTarget s.ctl.gate = E.nmHandler)
    (hrefused : ∀ mismatch t c, Q (false, mismatch) ⟨t, c⟩)
    (hin : ∀ t c, Staged n (trapped E (ps ++ [.trampolineAllocated] ++ [.displacedCopied] ++
        [.trampolineBuilt] ++ [.swapTrampolineSet] ++ [.swapPatched] ++ [.swapHooked])) t →
      gateTarget c.gate = E.nmHandler → c.buffersBuilt = s.ctl.buffersBuilt → Q (true, 0) ⟨t, c⟩) :
    wp (installSwapHook E) (fun _ => True) Q s := by
  unfold installSwapHook
  rw [wp_bind, wp_read]
  split
  · rw [wp_pure]
    exact hrefused _ s.trap s.ctl
  · rw [wp_bind, wp_call]
    rcases ha : s.trap.data.heap.alloc (detourLen + 5) with ⟨p, heap⟩
    simp only [allocTrampoline, ha]
    by_cases hp : p = 0
    · rw [if_pos hp, wp_pure]
      exact hrefused ..
    · obtain ⟨-, hl, -⟩ := Heap.alloc_fresh ha hp
      have h₁ : Staged n (trapped E ps)
          { s.trap with data := { s.trap.data with heap := heap } } :=
        h.withHeap fun c hc => hl ▸ List.mem_cons_of_mem _ hc
      rw [if_neg hp]
      simp only [wp_bind, wp_write, wp_pure]
      refine wp_interrupts_gated hn h₁ hg fun t ht hheap => ?_
      have hmem : (⟨p, detourLen + 5⟩ : Block) ∈ t.data.heap.live := by
        rw [hheap]
        exact hl ▸ List.mem_cons_self
      have hfits : Block.Fits ⟨p, detourLen + 5⟩ := (t.data.heap.sound.valid _ hmem).2.2
      have hcode : Block.Within ⟨p, detourLen⟩ ⟨p, detourLen + 5⟩ := by
        simp only [Block.Within]
        omega
      have hback := back_within hfits
      have h₂ := ht.withMem (f := storeBytes p detourLen fun i => s.ctl.text (off swapContextVa i))
        hmem (by decide) fun m x hx => storeBytes_outside (hcode.fits hfits) (mt hcode.covers hx)
      refine wp_interrupts_gated hn h₂ hg fun t ht hheap => ?_
      have hmem : (⟨p, detourLen + 5⟩ : Block) ∈ t.data.heap.live := by
        rw [hheap]
        exact hmem
      have h₃ := ht.withMem (f := writeJmp (off p detourLen) (off swapContextVa detourLen)) hmem
        (by decide) fun m x hx => writeJmp_outside (hback.fits hfits) (mt hback.covers hx)
      refine wp_interrupts_gated hn h₃ hg fun t ht _ => ?_
      refine wp_interrupts_gated hn ht hg fun t ht _ => ?_
      refine wp_interrupts_gated hn ht hg fun t ht _ => ?_
      refine wp_interrupts_gated hn ht hg fun t ht _ => ?_
      exact hin t _ ht hg rfl

theorem wp_enable_staged {Q : NtStatus → System → Prop} {ps : List Point} (hn : 0 < n)
    (h : Staged n (trapped E ps) s.trap) (hg : gateTarget s.ctl.gate = E.nmHandler)
    (hQ : ∀ t c, Staged n (trapped E (ps ++ [.cr4Set] ++ [.sseEnabled])) t →
      c.buffersBuilt = s.ctl.buffersBuilt → Q .success ⟨t, c⟩) :
    wp (enable E) (fun _ => True) Q s := by
  unfold enable enableSseThisCpu
  simp only [wp_bind, wp_read, wp_write, wp_pure]
  refine wp_interrupts_gated hn h hg fun t ht _ => ?_
  have h₁ := ht.withFx { t.fx with sse := { t.fx.sse with mxcsr := defaultMxcsr } } t.cr0
  refine wp_interrupts_gated hn h₁ hg fun t ht _ => ?_
  exact hQ t _ ht rfl

theorem driverEntry_handsOver (E : Env) :
    wp (driverEntry E) (fun _ => True) (HandsOver E) (initial E) := by
  have hprepare := prepare_spec E
  unfold driverEntry
  rw [wp_bind, wp_call]
  rcases hp : prepare E (initial E) with ⟨refused, s⟩
  rw [hp] at hprepare
  cases refused with
  | some status => exact wp_handsOver_of_ne (hprepare.declined status rfl).status
  | none =>
    obtain ⟨v, hv⟩ : ∃ v, Prepared E v s := hprepare.prepared rfl
    have hpos : 0 < s.ctl.buffersBuilt := by
      rw [← hv.length.1]
      exact List.length_pos_of_ne_nil hv.nonempty
    have hgate : gateTarget s.ctl.gate ≠ E.nmHandler := hv.idle.gate ▸ E.unhooked
    have hstart : Staged s.ctl.buffersBuilt [] s.trap := ⟨fun _ => hv.loaded, fun h => absurd rfl h⟩
    simp only [wp_bind]
    refine wp_interrupts_ungated hstart hgate fun t ht => ?_
    refine wp_installNmHook_staged (s := ⟨t, s.ctl⟩) hpos ht hgate (fun live matched => ?_)
      fun t live matched c ht hg hc => ?_
    · exact wp_handsOver_of_ne (show NtStatus.unsuccessful ≠ .success by decide)
    · rw [if_pos rfl, wp_bind]
      refine wp_installSwapHook_staged (s := ⟨t, c⟩) hpos ht hg (fun mismatch t c => ?_)
        fun t c' ht hg hc' => ?_
      · exact wp_handsOver_of_ne (show NtStatus.unsuccessful ≠ .success by decide)
      · rw [if_pos rfl]
        refine wp_enable_staged (s := ⟨t, c'⟩) hpos ht hg fun t c'' ht hc'' hs => ?_
        have hbuilt : c''.buffersBuilt = s.ctl.buffersBuilt := hc''.trans (hc'.trans hc)
        rw [hbuilt]
        exact ⟨hpos, ht⟩

/-! ## The machine that runs on -/

/-- The CPU as a load leaves it, at the next switch, to the thread `cur`: TS is set here and
nobody's x87 is loaded, whatever `DriverEntry` returned with. -/
def handedOver (E : Env) (cur : Thread) : Cpu :=
  let t := (driverEntry E (initial E)).state.trap
  ⟨{ t with cr0 := Cpu.setTs true t.cr0 }, cur, none⟩

/-- A load that succeeds puts both hooks in, and it starts the machine with all its buffers free
exactly if no thread has trapped through its gate, whatever else has interrupted it. -/
theorem load_starts (E : Env) (hload : (driverEntry E (initial E)).result = .success)
    (cur : Thread) :
    let c := (driverEntry E (initial E)).state.ctl
    gateTarget c.gate = E.nmHandler ∧ IsJmp c.text swapContextVa E.swapDetour ∧ osfxsr c.cr4 = true ∧
      0 < c.buffersBuilt ∧
      (Started c.buffersBuilt (handedOver E cur) ↔ trapped E gatedPoints = []) := by
  obtain ⟨-, v, a, h⟩ := (driverEntry_spec E).2.loaded hload
  obtain ⟨hpos, hstaged⟩ := (driverEntry_handsOver E).2 hload
  refine ⟨?_, ?_, ?_, hpos, fun hstarted => ?_, fun hnone => ?_⟩
  · rw [h.gate, gateTarget_setGateTarget]
  · rw [h.text]
    exact isJmp_patched E
  · rw [h.cr4]
    exact osfxsr_set E.cr4
  · by_contra hsome
    exact hstarted.loaded.not_spent (hstaged.spent hsome)
  · exact ⟨(hstaged.loaded hnone).withFx _ _, Cpu.setTs_ts .., rfl⟩

/-- `threadB` and then `threadA`, which loads the driver, use the FPU before the gate is written;
while the hooks go in, threads are switched to that do not. Each switch back to `threadA`, whose
x87 is loaded, clears TS, so that MXCSR is loaded without a #NM. -/
def switchedEnv : Env :=
  { twoBuffersEnv with
    sched := fun
      | .imageReady =>
        [.swap, .nm threadB, .swap, .others twoBuffersTrap.fx 0x8001003b, .nm threadA,
          .others twoBuffersTrap.fx 0x80010033]
      | .nmHooked | .swapPatched =>
        [.swap, .others twoBuffersTrap.fx 0x8001003b, .swap,
          .others twoBuffersTrap.fx 0x80010033]
      | _ => [] }

theorem load_starts_switched :
    let c := (driverEntry switchedEnv (initial switchedEnv)).state.ctl
    gateTarget c.gate = switchedEnv.nmHandler ∧ IsJmp c.text swapContextVa switchedEnv.swapDetour ∧
      osfxsr c.cr4 = true ∧ 0 < c.buffersBuilt ∧
      (Started c.buffersBuilt (handedOver switchedEnv threadA) ↔
        trapped switchedEnv gatedPoints = []) :=
  load_starts switchedEnv (by decide +kernel) threadA

end Nt351.Driver
