import Nt351Sse.Driver.TrapPaths

/-! What `InstallNmHook`, `RemoveNmHook`, `InstallSwapHook` and `EnableSseThisCpu` do when
traps and switches come in between. -/

namespace Nt351.Driver
open Memory Probing Runs Preempt

def Control.nmIn (E : Env) (c : Control) : Control :=
  { c with
    kernelNmResume := off (gateTarget E.gate) nmPrologueLen
    gate := setGateTarget E.nmHandler c.gate
    nmHooked := true }

def displaced (E : Env) : Fin detourLen → Byte := fun i => E.text (off swapContextVa i)

def Control.swapIn (E : Env) (p : Addr) (c : Control) : Control :=
  { c with
    trampoline := p
    swapOriginal := displaced E
    swapTrampoline := p
    text := writeJmp swapContextVa E.swapDetour c.text
    swapHooked := true }

variable {E : Env} {v : Taken} {a : Assignment Thread Addr} {t : Trap} {s : System} {p : Addr}
  {c : Control}
  {C : Control → Prop} {is js : List Interrupt}

theorem nmIn_target (c : Control) : gateTarget (c.nmIn E).gate = E.nmHandler :=
  gateTarget_setGateTarget ..

/-! ## The #NM hook -/

section NmHook

variable (h : Pools v a s.trap) (htext : s.ctl.text = E.text) (hC : ∀ c, c.cr4 = s.ctl.cr4 → C c)
include h htext hC

theorem wp_installNmHook {Q : Bool × Addr × ℕ → System → Prop} (hgate : s.ctl.gate = E.gate)
    (hrefused : matchedLen E.text (gateTarget E.gate) E.nmHandler ≠ nmPrologueLen →
      ∀ live matched, Q (false, live, matched) s)
    (hin : matchedLen E.text (gateTarget E.gate) E.nmHandler = nmPrologueLen → ∀ t live matched,
      Pools v (acquired a (E.sched .gateSet ++ E.sched .nmHooked)) t →
      Q (true, live, matched) ⟨t, s.ctl.nmIn E⟩) :
    wp (installNmHook E) (Guarded E C) Q s := by
  have hunpatched : ¬ IsJmp s.ctl.text swapContextVa E.swapDetour := htext ▸ E.unpatched
  unfold installNmHook
  simp only [wp_bind, wp_read, hgate, htext]
  by_cases hm : matchedLen E.text (gateTarget E.gate) E.nmHandler = nmPrologueLen
  · have hunhooked : gateTarget s.ctl.gate ≠ E.nmHandler := hgate ▸ E.unhooked
    have htarget := nmIn_target (E := E) s.ctl
    rw [if_neg (not_not.mpr hm)]
    simp only [wp_bind, wp_write, wp_pure]
    refine wp_interrupts_disarmed h hunhooked hunpatched (hC _ rfl) fun t ht => ?_
    refine wp_interrupts_armed ht htarget ⟨fun _ => rfl, fun hj => absurd hj hunpatched⟩
      (hC _ rfl) fun t ht => ?_
    refine wp_interrupts_armed ht htarget ⟨fun _ => rfl, fun hj => absurd hj hunpatched⟩
      (hC _ rfl) fun t ht => ?_
    rw [acquired_append] at ht
    exact hin hm t _ _ ht
  · rw [if_pos hm, wp_pure]
    exact hrefused hm _ _

theorem wp_removeNmHook {Q : Unit → System → Prop} (hhooked : s.ctl.nmHooked = true)
    (hgate : s.ctl.gate = setGateTarget E.nmHandler E.gate)
    (hresume : s.ctl.kernelNmResume = off (gateTarget E.gate) nmPrologueLen)
    (hQ : ∀ t, Pools v a t → Q () ⟨t, { s.ctl with gate := E.gate, nmHooked := false }⟩) :
    wp (removeNmHook E) (Guarded E C) Q s := by
  have hunpatched : ¬ IsJmp s.ctl.text swapContextVa E.swapDetour := htext ▸ E.unpatched
  have hback : setGateTarget (s.ctl.kernelNmResume - BitVec.ofNat 32 nmPrologueLen) s.ctl.gate =
    E.gate := by
    rw [hresume, off, BitVec.add_sub_cancel, hgate]
    exact setGateTarget_gateTarget ..
  unfold removeNmHook
  simp only [wp_bind, wp_read, hhooked, if_true, wp_write, System.setCtl, hback]
  refine wp_interrupts_disarmed h E.unhooked hunpatched (hC _ rfl) fun t ht => ?_
  exact wp_interrupts_disarmed ht E.unhooked hunpatched (hC _ rfl) hQ

end NmHook

/-! ## The `SwapContext` hook -/

/-- What `InstallSwapHook` stores in the block at `p`. -/
def trampolineCode (E : Env) (p : Addr) (m : Mem) : Mem :=
  writeJmp (off p detourLen) (off swapContextVa detourLen) (storeBytes p detourLen (displaced E) m)

theorem copyDisplaced_eq (htext : c.text = E.text) :
    copyDisplaced ⟨t, c⟩ = ⟨t.withMem (storeBytes c.trampoline detourLen (displaced E)),
      { c with swapOriginal := displaced E }⟩ := by
  simp only [copyDisplaced, htext]
  rfl

def Taken.detoured (E : Env) (p : Addr) (heap : Heap) (v : Taken) : Taken :=
  (v.withHeap heap).withMem (trampolineCode E p)

theorem trampoline_code {d : Data} {m : Mem} (h : ⟨p, detourLen + 5⟩ ∈ d.heap.live)
    (hm : d.mem = trampolineCode E p m) : Trampoline E d p := by
  have hfits : Block.Fits ⟨p, detourLen + 5⟩ := (d.heap.sound.valid _ h).2.2
  have hp : (off p detourLen).toNat = p.toNat + detourLen := by
    apply off_toNat
    simp only [Block.Fits, detourLen] at hfits ⊢
    omega
  have hback : Block.Fits ⟨off p detourLen, 5⟩ := by
    simp only [Block.Fits, hp, detourLen] at hfits ⊢
    omega
  refine ⟨h, fun i hi => ?_, ?_⟩
  · rw [hm, trampolineCode, writeJmp_outside hback]
    · exact storeBytes_inside (f := displaced E) (by decide) ⟨i, hi⟩
    · have hi' : (off p i).toNat = p.toNat + i := by
        apply off_toNat
        simp only [Block.Fits, detourLen] at hfits hi ⊢
        omega
      simp only [Block.Covers, hp, hi']
      omega
  · rw [hm]
    exact isJmp_writeJmp

variable {live₀ : List Block} {own : Finset Block}

theorem Pools.allocTrampoline (h : Pools v a s.trap) (hh : Heap.Holding live₀ own v.data.heap)
    (hown : v.blocks ⊆ own) {heap : Heap} (ha : v.data.heap.alloc (detourLen + 5) = (p, heap)) :
    Pools (v.withHeap heap) a { s.trap with data := { s.trap.data with heap := heap } } := by
  have hlive : ∀ c ∈ v.data.heap.live, c ∈ heap.live := by
    intro c hc
    rcases Heap.alloc_cases ha with ⟨-, hl, -⟩ | ⟨-, hl, -⟩
    · exact hl ▸ hc
    · exact hl ▸ List.mem_cons_of_mem _ hc
  refine h.withHeap (hlive _ h.raw) fun c hc => hlive c ((hh.mem c).mpr (.inl (hown ?_)))
  exact Finset.mem_insert_of_mem hc

section SwapHook

variable (h : Pools v a s.trap) (hh : Heap.Holding live₀ own v.data.heap) (hown : v.blocks ⊆ own)
  (hgate : gateTarget s.ctl.gate = E.nmHandler)
  (hresume : s.ctl.kernelNmResume = off (gateTarget E.gate) nmPrologueLen)
  (htext : s.ctl.text = E.text) (htrampoline : s.ctl.trampoline = 0)
  (hC : ∀ c, c.cr4 = s.ctl.cr4 → C c)
include h hh hown hgate hresume htext htrampoline hC

theorem wp_installSwapHook {Q : Bool × ℕ → System → Prop}
    (hrefused : swapMismatch E.text ≠ 0 ∨ (v.data.heap.alloc (detourLen + 5)).1 = 0 →
      ∀ mismatch heap t,
      Heap.Holding live₀ own heap → Pools (v.withHeap heap) a t → Q (false, mismatch) ⟨t, s.ctl⟩)
    (hin : swapMismatch E.text = 0 → (v.data.heap.alloc (detourLen + 5)).1 ≠ 0 → ∀ p heap t a',
      Heap.Holding live₀ (insert ⟨p, detourLen + 5⟩ own) heap →
      Trampoline E (v.detoured E p heap).data p →
        Pools (v.detoured E p heap) a' t → Q (true, 0) ⟨t, s.ctl.swapIn E p⟩) :
    wp (installSwapHook E) (Guarded E C) Q s := by
  unfold installSwapHook
  rw [wp_bind, wp_read, htext]
  by_cases hm : swapMismatch E.text = 0
  · rw [if_neg (not_not.mpr hm), wp_bind, wp_call]
    rcases ha : v.data.heap.alloc (detourLen + 5) with ⟨p, heap⟩
    have halloc : allocTrampoline s =
        (p, ⟨{ s.trap with data := { s.trap.data with heap := heap } },
          { s.ctl with trampoline := p }⟩) := by
      unfold allocTrampoline
      rw [h.heap_eq, ha]
    have h₁ := h.allocTrampoline hh hown ha
    rw [halloc]
    by_cases hp : p = 0
    · subst hp
      have hctl : { s.ctl with trampoline := 0 } = s.ctl := by rw [← htrampoline]
      rw [if_pos rfl, wp_pure, hctl]
      exact hrefused (.inr (congrArg Prod.fst ha)) 0 heap _ (hh.refused ha) h₁
    · have hunpatched : ¬ IsJmp s.ctl.text swapContextVa E.swapDetour := htext ▸ E.unpatched
      have hne : (v.data.heap.alloc (detourLen + 5)).1 ≠ 0 := by rwa [ha]
      have hidle {d : Data} {c : Control} (hc : c.kernelNmResume = s.ctl.kernelNmResume)
        (ht : c.text = s.ctl.text) :
          Armed E d c := ⟨fun _ => hc.trans hresume, fun hj => absurd (ht ▸ hj) hunpatched⟩
      rw [if_neg hp]
      simp only [wp_bind, wp_write, wp_pure]
      refine wp_interrupts_armed h₁ hgate (hidle rfl rfl) (hC _ rfl) fun t ht => ?_
      rw [copyDisplaced_eq (c := { s.ctl with trampoline := p }) htext]
      have h₂ := ht.withMem (f := storeBytes p detourLen (displaced E)) fun _ _ _ =>
        storeBytes_congr
      refine wp_interrupts_armed h₂ hgate (hidle rfl rfl) (hC _ rfl) fun t ht => ?_
      have h₃ : Pools (v.detoured E p heap) _ _ :=
        ht.withMem (f := writeJmp (off p detourLen) (off swapContextVa detourLen)) fun _ _ _ =>
          writeJmp_congr
      have htr : Trampoline E (v.detoured E p heap).data p :=
        trampoline_code ((Heap.alloc_fresh ha hp).2.1 ▸ List.mem_cons_self) rfl
      have hpatched {c : Control} (hc : c.kernelNmResume = s.ctl.kernelNmResume)
        (hp : c.swapTrampoline = p) :
          Armed E (v.detoured E p heap).data c := by
        refine ⟨fun _ => hc.trans hresume, fun _ => ?_⟩
        rw [hp]
        exact htr
      refine wp_interrupts_armed h₃ hgate (hidle rfl rfl) (hC _ rfl) fun t ht => ?_
      refine wp_interrupts_armed ht hgate (hidle rfl rfl) (hC _ rfl) fun t ht => ?_
      -- from here on the detour is reachable, and the trampoline it ends in is complete
      refine wp_interrupts_armed ht hgate (hpatched rfl rfl) (hC _ rfl) fun t ht => ?_
      refine wp_interrupts_armed ht hgate (hpatched rfl rfl) (hC _ rfl) fun t ht => ?_
      exact hin hm hne p heap t _ (hh.alloc ha hp) htr ht
  · rw [if_pos hm, wp_pure]
    exact hrefused (.inl hm) _ v.data.heap s.trap hh h

end SwapHook

theorem storeBytes_displaced (E : Env) :
    storeBytes swapContextVa detourLen (displaced E) (writeJmp swapContextVa E.swapDetour E.text) =
      E.text := by
  have hfits : Block.Fits ⟨swapContextVa, detourLen⟩ := by decide
  funext x
  by_cases hx : Block.Covers ⟨swapContextVa, detourLen⟩ x
  · have hi : x.toNat - swapContextVa.toNat < detourLen := by
      simp only [Block.Covers] at hx
      omega
    have hoff : off swapContextVa (x.toNat - swapContextVa.toNat) = x := by
      apply BitVec.eq_of_toNat_eq
      simp only [Block.Covers, Block.Fits] at hx hfits
      rw [off_toNat (by omega)]
      omega
    rw [← hoff]
    exact storeBytes_inside (by decide) ⟨_, hi⟩
  · rw [storeBytes_outside hfits hx, writeJmp_outside hfits hx]

theorem trampoline_notMem_blocks (v : Taken) (p : Addr) :
    (⟨p, detourLen + 5⟩ : Block) ∉ v.blocks := by
  have hsize : ∀ c ∈ v.blocks, c.size ≠ detourLen + 5 := by
    intro c hc
    rcases Finset.mem_insert.mp hc with rfl | hc
    · show sseSaveSize + sseSaveAlign ≠ detourLen + 5
      decide
    · rcases mem_bufferBlocks.mp hc with ⟨b, -, rfl | rfl⟩
      · show sizeofSseBuffer ≠ detourLen + 5
        decide
      · show sseSaveSize + sseSaveAlign ≠ detourLen + 5
        decide
  exact fun hm => hsize _ hm rfl

theorem wp_removeSwapHook {Q : Unit → System → Prop} (h : Pools v a s.trap)
    (hh : Heap.Holding live₀ own v.data.heap)
    (hown : v.blocks ⊆ own) (hgate : gateTarget s.ctl.gate = E.nmHandler)
    (hresume : s.ctl.kernelNmResume = off (gateTarget E.gate) nmPrologueLen)
    (htext : s.ctl.text = writeJmp swapContextVa E.swapDetour E.text)
    (horiginal : s.ctl.swapOriginal = displaced E)
    (hhooked : s.ctl.swapHooked = true) (hp : ⟨s.ctl.trampoline, detourLen + 5⟩ ∈ own)
    (hC : ∀ c, C c)
    (hQ : ∀ v' t a', v'.blocks = v.blocks → v'.raw = v.raw → v'.built = v.built →
      Heap.Holding live₀ (own.erase ⟨s.ctl.trampoline, detourLen + 5⟩) v'.data.heap →
      Pools v' a' t →
        Q () ⟨t, { s.ctl with text := E.text, swapHooked := false, trampoline := 0 }⟩) :
    wp (removeSwapHook E) (Guarded E C) Q s := by
  have hp0 : s.ctl.trampoline ≠ 0 := (v.data.heap.sound.valid _ ((hh.mem _).mpr (.inl hp))).1
  have hidle {d : Data} {c : Control} (hc : c.kernelNmResume = s.ctl.kernelNmResume) (ht : c.text =
    E.text) :
      Armed E d c := ⟨fun _ => hc.trans hresume, fun hj => absurd (ht ▸ hj) E.unpatched⟩
  have hrestored : storeBytes swapContextVa detourLen s.ctl.swapOriginal s.ctl.text = E.text := by
    rw [horiginal, htext, storeBytes_displaced]
  unfold removeSwapHook
  simp only [wp_bind, wp_read, hhooked, if_true, wp_write, System.setCtl, hrestored]
  refine wp_interrupts_armed h hgate (hidle rfl rfl) (hC _) fun t ht => ?_
  refine wp_interrupts_armed ht hgate (hidle rfl rfl) (hC _) fun t ht => ?_
  -- nothing leads to the trampoline any more; the #NM hook still uses the pool
  rw [if_pos hp0]
  simp only [wp_bind, wp_write]
  have hfree := hh.free hp rfl
  have hkept : ∀ c ∈ v.blocks, c ∈ (v.data.heap.free s.ctl.trampoline).live := by
    intro c hc
    have hne : c ≠ ⟨s.ctl.trampoline, detourLen + 5⟩ :=
      fun he => trampoline_notMem_blocks v _ (he ▸ hc)
    exact (hfree.mem c).mpr (.inl (Finset.mem_erase.mpr ⟨hne, hown hc⟩))
  have h₁ := ht.withHeap (hkept _ (Finset.mem_insert_self ..))
    fun c hc => hkept c (Finset.mem_insert_of_mem hc)
  rw [← ht.heap_eq] at h₁
  refine wp_interrupts_armed h₁ hgate (hidle rfl rfl) (hC _) fun t ht' => ?_
  refine hQ _ t _ ?_ ?_ ?_ ?_ ht'
  · rfl
  · rfl
  · rfl
  · rw [ht.heap_eq]
    exact hfree

/-! ## CR4 -/

def osfxsr (cr4 : BitVec 32) : Bool := decide (cr4 &&& cr4Osfxsr ≠ 0)

theorem osfxsr_set (cr4 : BitVec 32) : osfxsr (cr4 ||| cr4Osfxsr) = true := by
  have hand : (cr4 ||| cr4Osfxsr) &&& cr4Osfxsr = cr4Osfxsr := by
    apply BitVec.eq_of_getLsbD_eq
    intro i hi
    simp only [BitVec.getLsbD_and, BitVec.getLsbD_or]
    cases cr4.getLsbD i <;> cases cr4Osfxsr.getLsbD i <;> rfl
  rw [osfxsr, hand]
  decide

theorem wp_enable {Q : NtStatus → System → Prop} (h : Pools v a s.trap)
    (hgate : gateTarget s.ctl.gate = E.nmHandler)
    (harmed : Armed E v.data s.ctl) (hC : ∀ c, c.gate = s.ctl.gate → c.text = s.ctl.text → C c)
    (hQ : ∀ t a' log, Pools v a' t →
      Q .success ⟨t,
        { s.ctl with cr4 := s.ctl.cr4 ||| cr4Osfxsr, sseEnabled := true, log := log }⟩) :
    wp (enable E) (Guarded E C) Q s := by
  have hset := osfxsr_set s.ctl.cr4
  unfold enable enableSseThisCpu
  simp only [wp_bind, wp_read, wp_write, wp_pure]
  refine wp_interrupts_armed h hgate ⟨harmed.resume, harmed.trampoline⟩ (hC _ rfl rfl) fun t ht =>
    ?_
  have h₁ := ht.withFx { t.fx with sse := { t.fx.sse with mxcsr := defaultMxcsr } } t.cr0
  refine wp_interrupts_armed h₁ hgate ⟨harmed.resume, harmed.trampoline⟩ (hC _ rfl rfl) fun t ht =>
    ?_
  have hq := hQ t _
    (logData E [s.ctl.features, s.ctl.cr4, s.ctl.cr4 ||| cr4Osfxsr] s).ctl.log ht
  rw [← hset] at hq
  exact hq

end Nt351.Driver
