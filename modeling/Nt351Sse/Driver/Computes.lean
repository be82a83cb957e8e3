import Nt351Sse.Driver.Transparent

/-! The instructions of `SwapDetour` and `NmHandler` compute `swapDetour` and `nmHandler`: the
machine shows the state of the two as it goes, whatever is on the stack. -/

namespace Nt351.Driver
open Memory X86 X86.State

/-- What an address is for. -/
inductive Region
  | stack | variable | pool | table | other
deriving DecidableEq

/-- The machine shows `t`: the variables are in `G`, the image and the save areas in the pool,
and `T` says how the free list and the table are laid out. -/
structure Shows (G : Globals) (region : Addr → Region) (T : Data → Mem → Prop) (s : State FxState)
    (t : Trap) : Prop where
  fxImage : readDword s.mem G.fxImage = t.fxImage
  fxOwner : readDword s.mem G.fxOwner = t.fxOwner
  nmCount : readDword s.mem G.nmCount = t.nmCount
  swapFlushes : readDword s.mem G.swapFlushes = t.swapFlushes
  fx : s.fpu = t.fx
  cr0 : s.cr0 = t.cr0
  pool : ∀ a, region a = .pool → s.mem a = t.data.mem a
  table : T t.data s.mem

/-- Where things lie; `T` looks at the table's own memory only. -/
structure Mapped (G : Globals) (region : Addr → Region) (T : Data → Mem → Prop) (low : Addr)
    (size : ℕ) : Prop where
  size_le : size ≤ 2 ^ 32
  stack : ∀ i < size, region (off low i) = .stack
  vars : ∀ p ∈ G.vars, ∀ i < 4, region (off p i) = .variable
  congr : ∀ d m m', (∀ a, region a = .table → m' a = m a) → T d m → T d m'
  pool : ∀ d m m', T d m → T { d with mem := m' } m

/-- A save area, or the image. -/
def InPool (region : Addr → Region) (p : Addr) : Prop := ∀ i < sseSaveSize, region (off p i) = .pool

variable {K : Surroundings} {G : Globals} {region : Addr → Region} {T : Data → Mem → Prop}
    {low : Addr} {size k : ℕ}
  {s s' : State FxState} {t : Trap} {v : BitVec 32}

theorem InPool.part {p : Addr} {o n : ℕ} (h : InPool region p) (hn : o + n ≤ sseSaveSize) :
    ∀ i < n, region (off (off p o) i) = .pool := by
  intro i hi
  rw [off_off]
  exact h _ (by omega)

namespace Mapped

variable (hm : Mapped G region T low size)
include hm

theorem var_ne {p a : Addr} (hp : p ∈ G.vars) (ha : region a ≠ .variable) : ∀ i < 4, a ≠ off p i :=
  fun i hi he => ha (he ▸ hm.vars p hp i hi)

/-- A store to a variable leaves the other regions alone. -/
theorem store_var {p a : Addr} {m : Mem} (hp : p ∈ G.vars) (ha : region a ≠ .variable) :
    writeDword p v m a = m a :=
  writeDword_of_ne (hm.var_ne hp ha)

end Mapped

namespace Shows

variable (hm : Mapped G region T low size) (h : Shows G region T s t)
include hm h

/-- What the stack and the registers hold does not matter. -/
theorem congr (hmem : ∀ a, region a ≠ .stack → s'.mem a = s.mem a) (hfpu : s'.fpu = s.fpu)
    (hcr0 : s'.cr0 = s.cr0) : Shows G region T s' t := by
  have hread : ∀ p ∈ G.vars, readDword s'.mem p = readDword s.mem p :=
    fun p hp => readDword_congr fun i hi => by
    apply hmem
    rw [hm.vars p hp i hi]
    decide
  refine ⟨(hread _ G.fxImage_mem).trans h.fxImage, (hread _ G.fxOwner_mem).trans h.fxOwner,
    (hread _ G.nmCount_mem).trans h.nmCount, (hread _ G.swapFlushes_mem).trans h.swapFlushes,
    hfpu.trans h.fx,
    hcr0.trans h.cr0, fun a ha => ?_, hm.congr _ _ _ (fun a ha => ?_) h.table⟩
  · exact (hmem a (by rw [ha]; decide)).trans (h.pool a ha)
  · exact hmem a (by rw [ha]; decide)

/-- What is stored to the pool. -/
theorem store {f : Mem → Mem} (hf : Local (fun a => region a = .pool) f) (hmem : s'.mem = f s.mem)
    (hfpu : s'.fpu = s.fpu) (hcr0 : s'.cr0 = s.cr0) : Shows G region T s' (t.withMem f) := by
  have hread : ∀ p ∈ G.vars, readDword s'.mem p = readDword s.mem p :=
    fun p hp => readDword_congr fun i hi => by
    rw [hmem]
    apply hf.outside
    rw [hm.vars p hp i hi]
    decide
  refine ⟨(hread _ G.fxImage_mem).trans h.fxImage, (hread _ G.fxOwner_mem).trans h.fxOwner,
    (hread _ G.nmCount_mem).trans h.nmCount, (hread _ G.swapFlushes_mem).trans h.swapFlushes,
    hfpu.trans h.fx,
    hcr0.trans h.cr0, fun a ha => ?_, ?_⟩
  · rw [hmem]
    exact hf.congr _ _ h.pool a ha
  · apply hm.pool
    apply hm.congr _ _ _ _ h.table
    intro a ha
    rw [hmem]
    apply hf.outside
    rw [ha]
    decide

/-- A variable is set, to what `t'` has for it. -/
theorem setVar {p : Addr} {t' : Trap} (hp : p ∈ G.vars) (hmem : s'.mem = writeDword p v s.mem)
    (hdata : t'.data = t.data) (himage : t'.fxImage = if G.fxImage = p then v else t.fxImage)
    (howner : t'.fxOwner = if G.fxOwner = p then v else t.fxOwner)
    (hcount : t'.nmCount = if G.nmCount = p then v else t.nmCount)
    (hflushes : t'.swapFlushes = if G.swapFlushes = p then v else t.swapFlushes)
    (hfpu : s'.fpu = t'.fx) (hcr0 : s'.cr0 = t'.cr0) : Shows G region T s' t' := by
  refine ⟨?_, ?_, ?_, ?_, hfpu, hcr0, fun a ha => ?_, ?_⟩
  · rw [hmem, G.read_store hp G.fxImage_mem, h.fxImage, himage]
  · rw [hmem, G.read_store hp G.fxOwner_mem, h.fxOwner, howner]
  · rw [hmem, G.read_store hp G.nmCount_mem, h.nmCount, hcount]
  · rw [hmem, G.read_store hp G.swapFlushes_mem, h.swapFlushes, hflushes]
  · rw [hmem, hdata, hm.store_var hp (by rw [ha]; decide)]
    exact h.pool a ha
  · rw [hdata]
    apply hm.congr _ _ _ _ h.table
    intro a ha
    rw [hmem, hm.store_var hp (by rw [ha]; decide)]

theorem setOwner (hmem : s'.mem = writeDword G.fxOwner v s.mem) (hfpu : s'.fpu = s.fpu)
    (hcr0 : s'.cr0 = s.cr0) : Shows G region T s' { t with fxOwner := v } := by
  obtain ⟨himage, -, -, hcount, hflushes, -⟩ := G.distinct
  exact h.setVar hm G.fxOwner_mem hmem rfl (if_neg himage).symm (if_pos rfl).symm
    (if_neg hcount.symm).symm
    (if_neg hflushes.symm).symm (hfpu.trans h.fx) (hcr0.trans h.cr0)

theorem setCr0 (hmem : s'.mem = s.mem) (hfpu : s'.fpu = s.fpu) (hcr0 : s'.cr0 = v) :
    Shows G region T s' { t with cr0 := v } := by
  have hsame : Shows G region T { s' with cr0 := s.cr0 } t :=
    h.congr hm (fun a _ => congrFun hmem a) hfpu rfl
  exact ⟨hsame.fxImage, hsame.fxOwner, hsame.nmCount, hsame.swapFlushes, hsame.fx, hcr0, hsame.pool,
    hsame.table⟩

theorem countNm (hmem : s'.mem = writeDword G.nmCount (readDword s.mem G.nmCount + 1) s.mem)
    (hfpu : s'.fpu = s.fpu) (hcr0 : s'.cr0 = v) :
    Shows G region T s' { t with cr0 := v, nmCount := t.nmCount + 1 } := by
  obtain ⟨-, himage, -, howner, -, hflushes⟩ := G.distinct
  rw [h.nmCount] at hmem
  exact h.setVar hm G.nmCount_mem hmem rfl (if_neg himage).symm (if_neg howner).symm
    (if_pos rfl).symm
    (if_neg hflushes.symm).symm (hfpu.trans h.fx) hcr0

theorem countFlush
    (hmem : s'.mem = writeDword G.swapFlushes (readDword s.mem G.swapFlushes + 1) s.mem)
    (hfpu : s'.fpu = s.fpu) (hcr0 : s'.cr0 = v) :
    Shows G region T s' { t with cr0 := v, swapFlushes := t.swapFlushes + 1 } := by
  obtain ⟨-, -, himage, -, howner, hcount⟩ := G.distinct
  rw [h.swapFlushes] at hmem
  exact h.setVar hm G.swapFlushes_mem hmem rfl (if_neg himage).symm (if_neg howner).symm
    (if_neg hcount).symm
    (if_pos rfl).symm (hfpu.trans h.fx) hcr0

end Shows

/-! ## The copies -/

section Copies

variable {p q : Addr} {S D : SseLayout} {fx : FxState}

theorem local_fxsave (hp : InPool region p) : Local (fun a => region a = .pool) (fxsave p fx) where
  outside _ _ ha := fxsave_of_ne fun i hi he => ha (he ▸ hp i (hi.trans (by decide)))
  congr _ _ h a ha := by
    have hsame := h a ha
    unfold fxsave
    rw [hsame]

@[irreducible] def copyMxcsr (S D : SseLayout) (src dst : Addr) (m : Mem) : Mem :=
  writeDword (off dst D.mxcsr) (readDword m (off src S.mxcsr)) m

@[irreducible] def copyXmm (S D : SseLayout) (src dst : Addr) (m : Mem) : Mem :=
  movsb (off src S.xmm) (off dst D.xmm) m xmmBytes

theorem local_copyMxcsr (hp : InPool region p) (hq : InPool region q) :
    Local (fun a => region a = .pool) (copyMxcsr S D p q) := by
  unfold copyMxcsr
  exact .copyDword (hq.part D.mxcsr_le) (hp.part S.mxcsr_le)

theorem local_copyXmm (hp : InPool region p) (hq : InPool region q) :
    Local (fun a => region a = .pool) (copyXmm S D p q) := by
  unfold copyXmm
  exact .movsb (hq.part D.xmm_le) (hp.part S.xmm_le)

theorem withMem_withMem (f g : Mem → Mem) (t : Trap) :
    (t.withMem f).withMem g = t.withMem (g ∘ f) := rfl

theorem withMem_copySse (S D : SseLayout) (p q : Addr) (t : Trap) :
    t.withMem (copySse S D p q) = (t.withMem (copyMxcsr S D p q)).withMem (copyXmm S D p q) := by
  have hcomp : copySse S D p q = copyXmm S D p q ∘ copyMxcsr S D p q := by
    funext m
    unfold copySse
    rw [Function.comp_apply, copyXmm, copyMxcsr]
  rw [withMem_withMem, hcomp]

def zeroXmm (image : Addr) (m : Mem) : Mem := stosb (off image fxiXmm) 0 m xmmBytes

theorem local_zeroXmm (hp : InPool region p) : Local (fun a => region a = .pool) (zeroXmm p) :=
  .stosb _ (hp.part (by decide))

theorem withMem_copyDefaults (p : Addr) (t : Trap) :
    t.withMem (copyDefaults p) = (t.withMem (writeDword (off p fxiMxcsr) defaultMxcsr)).withMem
      (zeroXmm p) := by
  have hcomp : copyDefaults p = zeroXmm p ∘ writeDword (off p fxiMxcsr) defaultMxcsr := by
    funext m
    unfold copyDefaults
    rw [Function.comp_apply, zeroXmm]
  rw [withMem_withMem, hcomp]

end Copies

theorem flushOwner_owned (ho : t.fxOwner ≠ 0) :
    flushOwner t = (t.withMem (fxsave t.fxImage t.fx)).withMem
      (copySse fxiLayout saveLayout t.fxImage t.fxOwner) := by
  unfold flushOwner
  exact if_neg ho

theorem flushOwner_unowned (ho : t.fxOwner = 0) :
    flushOwner t = t.withMem (fxsave t.fxImage t.fx) := by
  unfold flushOwner
  exact if_pos ho

/-! ## `SwapDetour` -/

section Swap

variable (hm : Mapped G region T low size) (h : Shows G region T s t)
include hm h

theorem shows_swapEnter (hesp : s.reg .esp = off low k) (hk : k ≤ size) (hroom : 36 ≤ k) :
    Shows G region T (steps K.machine s swapEnter) t := by
  have hgrown : Grown 36 s (steps K.machine s swapEnter) := (Grown.refl s).steps rfl
  apply h.congr hm
  · exact fun a ha => hgrown.off_stack hesp hroom hk fun i hi he => ha (he ▸ hm.stack i hi)
  · rfl
  · rfl

theorem shows_testVar (r : Gpr) (p : Addr) : Shows G region T (steps K.machine s (testVar r p)) t :=
  h.congr hm (fun _ _ => rfl) rfl rfl

theorem shows_fxsave (hesi : s.reg .esi = t.fxImage) (hp : InPool region t.fxImage) :
    Shows G region T (step K.machine s (.fxsave .esi)) (t.withMem (fxsave t.fxImage t.fx)) := by
  apply Shows.store hm h (local_fxsave hp)
  · rw [← hesi, ← h.fx]
    rfl
  · rfl
  · rfl

theorem shows_flushMxcsr {p q : Addr} (hesi : s.reg .esi = p) (hedi : s.reg .edi = q)
    (hp : InPool region p) (hq : InPool region q) :
    Shows G region T (steps K.machine s flushMxcsr)
      (t.withMem (copyMxcsr fxiLayout saveLayout p q)) := by
  apply Shows.store hm h (local_copyMxcsr hp hq)
  · rw [← hesi, ← hedi, copyMxcsr]
    rfl
  · rfl
  · rfl

/-- `rep movsb` upwards, from ESI and ECX loaded. -/
theorem shows_movsb {S D : SseLayout} {p q : Addr} (hdf : s.flags.df = false)
    (hesi : s.reg .esi = off p S.xmm) (hedi : s.reg .edi = off q D.xmm)
    (hecx : s.reg .ecx = .ofNat 32 xmmBytes) (hp : InPool region p) (hq : InPool region q) :
    Shows G region T (step K.machine s .repMovsb) (t.withMem (copyXmm S D p q)) := by
  apply Shows.store hm h (local_copyXmm hp hq)
  · have hcount : (BitVec.ofNat 32 xmmBytes).toNat = xmmBytes := by decide
    rw [step_repMovsb_up hdf, hesi, hedi, hecx, hcount, copyXmm]
  · simp only [step, hdf]
    rfl
  · simp only [step, hdf]
    rfl

theorem shows_clearTs (r : Gpr) :
    Shows G region T (steps K.machine s (clearTs r)) { t with cr0 := cr0Clear t.cr0 } := by
  apply Shows.setCr0 hm h
  · rfl
  · rfl
  · rw [← h.cr0]
    simp only [clearTs, steps_cons, steps_nil, step, setReg_reg_self, setFlags_reg, cr0Clear]

theorem shows_swapXmm {p q : Addr} (hesi : s.reg .esi = p) (hedi : s.reg .edi = q)
    (hp : InPool region p) (hq : InPool region q) :
    Shows G region T (steps K.machine s swapXmm)
      (t.withMem (copyXmm fxiLayout saveLayout p q)) := by
  rw [swapXmm, steps_concat]
  apply shows_movsb hm (h.congr hm _ _ _) _ _ _ _ hp hq
  · exact fun _ _ => rfl
  · rfl
  · rfl
  · rw [steps_concat]
    rfl
  · rw [← hesi]
    rfl
  · rw [← hedi]
    rfl
  · rfl

/-- The flush from the second test on: ESI has the image, EDI the owner's area. -/
theorem shows_swapFlush (hesi : s.reg .esi = t.fxImage) (hedi : s.reg .edi = t.fxOwner)
    (himage : InPool region t.fxImage)
    (howner : InPool region t.fxOwner) : Shows G region T (steps K.machine s (swapFlush G))
      { ((({ t with cr0 := cr0Clear t.cr0 } : Trap).withMem (fxsave t.fxImage t.fx)).withMem
        (copySse fxiLayout saveLayout t.fxImage t.fxOwner)) with
          fxOwner := 0, swapFlushes := t.swapFlushes + 1, cr0 := t.cr0 } := by
  simp only [swapFlush, List.flatten_cons, List.flatten_nil, List.append_nil, steps_append,
    steps_cons, steps_nil]
  have hclear := shows_clearTs (K := K) hm h .ebx
  have hebx₁ : (steps K.machine s (clearTs .ebx)).reg .ebx = t.cr0 := h.cr0
  have hesi₁ : (steps K.machine s (clearTs .ebx)).reg .esi = t.fxImage :=
    (steps_reg (by simp [clearTs, Op.writes])).trans hesi
  have hedi₁ : (steps K.machine s (clearTs .ebx)).reg .edi = t.fxOwner :=
    (steps_reg (by simp [clearTs, Op.writes])).trans hedi
  generalize steps K.machine s (clearTs .ebx) = s₁ at hclear hebx₁ hesi₁ hedi₁ ⊢
  have hsave := shows_fxsave (K := K) hm hclear hesi₁ himage
  have hmxcsr := shows_flushMxcsr (K := K) hm hsave hesi₁ hedi₁ himage howner
  have hebx₂ : (steps K.machine (step K.machine s₁ (.fxsave .esi)) flushMxcsr).reg .ebx = t.cr0 :=
    (steps_reg (by simp [flushMxcsr, Op.writes])).trans hebx₁
  have hesi₂ : (steps K.machine (step K.machine s₁ (.fxsave .esi)) flushMxcsr).reg .esi =
    t.fxImage :=
    (steps_reg (by simp [flushMxcsr, Op.writes])).trans hesi₁
  have hedi₂ : (steps K.machine (step K.machine s₁ (.fxsave .esi)) flushMxcsr).reg .edi =
    t.fxOwner :=
    (steps_reg (by simp [flushMxcsr, Op.writes])).trans hedi₁
  generalize steps K.machine (step K.machine s₁ (.fxsave .esi)) flushMxcsr =
    s₂ at hmxcsr hebx₂ hesi₂ hedi₂ ⊢
  have hxmm := shows_swapXmm (K := K) hm hmxcsr hesi₂ hedi₂ himage howner
  have hebx₃ : (steps K.machine s₂ swapXmm).reg .ebx = t.cr0 :=
    (steps_reg (by simp [swapXmm, flushXmm, Op.writes])).trans hebx₂
  rw [withMem_copySse]
  generalize steps K.machine s₂ swapXmm = s₃ at hxmm hebx₃ ⊢
  have hdisown : Shows G region T (step K.machine s₃ (.storeImm (.var G.fxOwner) 0)) _ :=
    hxmm.setOwner hm rfl rfl rfl
  exact hdisown.countFlush hm rfl rfl hebx₃

theorem swapDetour_computes (himage : t.fxImage ≠ 0 → InPool region t.fxImage)
    (howner : t.fxOwner ≠ 0 → InPool region t.fxOwner) (hesp : s.reg .esp = off low k)
    (hk : k ≤ size) (hroom : 36 ≤ k) :
    ∃ s', run K.machine (swapDetourCode G) s = some s' ∧ Shows G region T s' (swapDetour t) := by
  have henter := shows_swapEnter (K := K) hm h hesp hk hroom
  refine ⟨_, run_swapDetour K G s, ?_⟩
  generalize steps K.machine s swapEnter = s₁ at henter ⊢
  suffices hwork : Shows G region T (swapWork K G s₁) (swapDetour t)
    from hwork.congr hm (fun _ _ => rfl) rfl rfl
  have htest₁ := shows_testVar (K := K) hm henter .esi G.fxImage
  have htest₂ := shows_testVar (K := K) hm htest₁ .edi G.fxOwner
  have hesi : (steps K.machine s₁ (testVar .esi G.fxImage)).reg .esi = t.fxImage :=
    (test_reg _).trans henter.fxImage
  have hedi : (steps K.machine (steps K.machine s₁ (testVar .esi G.fxImage))
    (testVar .edi G.fxOwner)).reg .edi = t.fxOwner :=
    (test_reg _).trans htest₁.fxOwner
  unfold swapWork swapDetour
  simp only [test_zf, decide_eq_true_eq, henter.fxImage, htest₁.fxOwner]
  by_cases hi : t.fxImage = 0
  · rw [if_pos hi, if_pos hi]
    exact htest₁
  · by_cases ho : t.fxOwner = 0
    · rw [if_neg hi, if_neg hi, if_pos ho, if_pos ho]
      exact htest₂
    · rw [if_neg hi, if_neg hi, if_neg ho, if_neg ho]
      have hflush := shows_swapFlush (K := K) hm htest₂
        (by rw [steps_reg (by simp [testVar, Op.writes]), hesi]) hedi
        (himage hi) (howner ho)
      have hflushed := flushOwner_owned (t := { t with cr0 := cr0Clear t.cr0 }) ho
      simp only [hflushed]
      exact hflush

end Swap

/-! ## `NmHandler` -/

/-- The routine called computes `trapLookupSaveArea`, by the calling convention. -/
structure LooksUp (K : Surroundings) (G : Globals) (region : Addr → Region) (T : Data → Mem → Prop)
    (depth : ℕ)
    (thread : Addr) : Prop where
  stdcall : IsStdcall (fun a => region a ≠ .stack) depth K.trapLookupSaveArea
  computes : ∀ s t, Shows G region T s t → s.flags.df = false →
    (∀ i < depth + 4, region (off (s.reg .esp - BitVec.ofNat 32 depth) i) = .stack) →
    (K.trapLookupSaveArea s).reg .eax = (trapLookupSaveArea thread t.data).1 ∧
      Shows G region T (K.trapLookupSaveArea s)
      { t with data := (trapLookupSaveArea thread t.data).2 } ∧
      (K.trapLookupSaveArea s).flags.df = false

section Nm

variable (hm : Mapped G region T low size) (h : Shows G region T s t)
include hm h

/-- Pushes onto the stack. -/
theorem shows_grown {n : ℕ} (hesp : s.reg .esp = off low k) (hn : n ≤ k) (hk : k ≤ size)
    (hg : Grown n s s') (hfpu : s'.fpu = s.fpu) (hcr0 : s'.cr0 = s.cr0) :
    Shows G region T s' t := by
  apply h.congr hm _ hfpu hcr0
  exact fun a ha => hg.off_stack hesp hn hk fun i hi he => ha (he ▸ hm.stack i hi)

theorem shows_around {ops : List Op} {t' : Trap} (hesp : s.reg .esp = off low k) (hroom : 8 ≤ k)
    (hk : k ≤ size)
    (hbody : ∀ s₁, Shows G region T s₁ t → (∀ r ≠ .esp, s₁.reg r = s.reg r) →
      s₁.flags.df = s.flags.df →
      Shows G region T (steps K.machine s₁ ops) t') :
      Shows G region T (steps K.machine s (around .esi .edi ops)) t' := by
  have hgrown : Grown 8 s (steps K.machine s [.push .esi, .push .edi]) := (Grown.refl s).steps rfl
  have hpush := shows_grown hm h hesp hroom hk hgrown rfl rfl
  have hend := hbody _ hpush (fun r hr => steps_reg (by simp [Op.writes, hr])) rfl
  rw [steps_around]
  exact hend.congr hm (fun _ _ => rfl) rfl rfl

theorem shows_nmEnter : Shows G region T (steps K.machine s (nmEnter G))
    { t with cr0 := cr0Clear t.cr0, nmCount := t.nmCount + 1 } := by
  apply h.countNm hm nmEnter_mem
  · rw [steps_nmEnter]
    rfl
  · rw [← h.cr0, steps_nmEnter]
    rfl

theorem shows_nmSnapshot (hesi : s.reg .esi = t.fxImage) (himage : InPool region t.fxImage) :
    Shows G region T (steps K.machine s (nmSnapshot G)) (t.withMem (fxsave t.fxImage t.fx)) :=
  shows_testVar hm (shows_fxsave hm h hesi himage) .edi G.fxOwner

theorem shows_nmFlush {p q : Addr} (hesp : s.reg .esp = off low k) (hroom : 8 ≤ k) (hk : k ≤ size)
    (hdf : s.flags.df = false) (hesi : s.reg .esi = p) (hedi : s.reg .edi = q)
    (hp : InPool region p) (hq : InPool region q) :
    Shows G region T (steps K.machine s nmFlush)
      (t.withMem (copySse fxiLayout saveLayout p q)) := by
  rw [nmFlush, steps_append, withMem_copySse]
  have hmxcsr := shows_flushMxcsr (K := K) hm h hesi hedi hp hq
  have hsame : ∀ r ≠ .eax, (steps K.machine s flushMxcsr).reg r = s.reg r := fun r hr =>
    steps_reg (by simp [flushMxcsr, Op.writes, hr])
  apply shows_around hm hmxcsr ((hsame _ (by decide)).trans hesp) hroom hk
  intro s₁ hpush hreg hdf₁
  rw [steps_concat]
  have hload : Shows G region T (steps K.machine s₁ flushXmm) _ :=
    hpush.congr hm (fun _ _ => rfl) rfl rfl
  have hdf₂ : (steps K.machine s₁ flushXmm).flags.df = false := hdf₁.trans hdf
  apply shows_movsb hm hload hdf₂ _ _ rfl hp hq
  · rw [← hesi, ← hsame _ (by decide), ← hreg _ (by decide)]
    rfl
  · rw [← hedi, ← hsame _ (by decide), ← hreg _ (by decide)]
    rfl

theorem shows_nmArea {q : Addr} (hesp : s.reg .esp = off low k) (hroom : 8 ≤ k) (hk : k ≤ size)
    (hdf : s.flags.df = false) (hesi : s.reg .esi = q) (hq : InPool region q)
    (hp : InPool region (s.reg .eax)) :
    Shows G region T (steps K.machine s (nmArea G))
      (({ t with fxOwner := s.reg .eax } : Trap).withMem
      (copySse saveLayout fxiLayout (s.reg .eax) q)) := by
  rw [nmArea, steps_append, withMem_copySse]
  have hown : Shows G region T (step K.machine s (.store (.var G.fxOwner) .eax))
    { t with fxOwner := s.reg .eax } :=
    h.setOwner hm rfl rfl rfl
  have hmxcsr : Shows G region T (steps K.machine s (areaMxcsr G))
      (({ t with fxOwner := s.reg .eax } : Trap).withMem
        (copyMxcsr saveLayout fxiLayout (s.reg .eax) q)) := by
    apply hown.store hm (local_copyMxcsr hp hq)
    · rw [← hesi, copyMxcsr]
      rfl
    · rfl
    · rfl
  have hsame : ∀ r ≠ .ecx, (steps K.machine s (areaMxcsr G)).reg r = s.reg r := fun r hr =>
    steps_reg (by simp [areaMxcsr, Op.writes, hr])
  apply shows_around hm hmxcsr ((hsame _ (by decide)).trans hesp) hroom hk
  intro s₁ hpush hreg hdf₁
  rw [steps_concat]
  have hload : Shows G region T (steps K.machine s₁ areaXmm) _ :=
    hpush.congr hm (fun _ _ => rfl) rfl rfl
  have hdf₂ : (steps K.machine s₁ areaXmm).flags.df = false := hdf₁.trans hdf
  apply shows_movsb hm hload hdf₂ _ _ rfl hp hq
  · rw [← hsame _ (by decide), ← hreg _ (by decide)]
    rfl
  · rw [← hesi, ← hsame _ (by decide), ← hreg _ (by decide)]
    rfl

theorem shows_nmDefaults {q : Addr} (hesp : s.reg .esp = off low k) (hroom : 8 ≤ k) (hk : k ≤ size)
    (hdf : s.flags.df = false) (hesi : s.reg .esi = q) (hq : InPool region q) :
    Shows G region T (steps K.machine s (nmDefaults G)) (({ t with fxOwner := 0 } : Trap).withMem
      (copyDefaults q)) := by
  rw [nmDefaults, steps_append, withMem_copyDefaults]
  have hown : Shows G region T (step K.machine s (.storeImm (.var G.fxOwner) 0))
    { t with fxOwner := 0 } :=
    h.setOwner hm rfl rfl rfl
  have hmxcsr : Shows G region T (steps K.machine s (defaultsMxcsr G))
      (({ t with fxOwner := 0 } : Trap).withMem (writeDword (off q fxiMxcsr) defaultMxcsr)) := by
    apply hown.store hm (.writeDword _ (hq.part (by decide)))
    · rw [← hesi]
      rfl
    · rfl
    · rfl
  have hsame : ∀ r, (steps K.machine s (defaultsMxcsr G)).reg r = s.reg r := fun r =>
    steps_reg (by simp [defaultsMxcsr, Op.writes])
  apply shows_around hm hmxcsr ((hsame _).trans hesp) hroom hk
  intro s₁ hpush hreg hdf₁
  rw [steps_concat]
  have hload : Shows G region T (steps K.machine s₁ defaultsXmm) _ :=
    hpush.congr hm (fun _ _ => rfl) rfl rfl
  have hdf₂ : (steps K.machine s₁ defaultsXmm).flags.df = false := hdf₁.trans hdf
  have hal : (steps K.machine s₁ defaultsXmm).reg .eax = 0 :=
    (setReg_reg_self (s := s₁) (r := .eax) _).trans BitVec.xor_self
  have hslot : (steps K.machine s₁ defaultsXmm).reg .edi = off q fxiXmm := by
    rw [← hesi, ← hsame, ← hreg _ (by decide)]
    rfl
  apply hload.store hm (local_zeroXmm hq)
  · have hcount : (steps K.machine s₁ defaultsXmm).reg .ecx = .ofNat 32 xmmBytes := rfl
    rw [step_repStosb_up hdf₂, hal, hslot, hcount, zeroXmm]
    rfl
  · simp only [step, hdf₂]
    rfl
  · simp only [step, hdf₂]
    rfl

theorem shows_nmCall {depth : ℕ} {thread : Addr} (hK : LooksUp K G region T depth thread)
    (hesp : s.reg .esp = off low k) (hroom : 8 + depth ≤ k) (hk : k ≤ size)
    (hdf : s.flags.df = false) :
    Shows G region T (nmCall K s) { t with data := (trapLookupSaveArea thread t.data).2 } ∧
      (nmCall K s).reg .eax = (trapLookupSaveArea thread t.data).1 ∧
      (nmCall K s).flags.df = false := by
  have hgrown : Grown 8 s ((s.push (s.reg .esi)).push K.ret) :=
    (Grown.push s _).trans (Grown.push _ _)
  have hpush := shows_grown hm h hesp (by omega) hk hgrown rfl rfl
  have hlow := hgrown.low hesp (by omega)
  obtain ⟨heax, hshows, hclear⟩ := hK.computes _ _ hpush hdf fun i hi => by
    rw [hlow, off_sub_ofNat (by omega), off_off]
    exact hm.stack _ (by omega)
  refine ⟨hshows.congr hm (fun _ _ => rfl) rfl rfl, ?_, hclear⟩
  rw [nmCall_reg, pop_reg_of_ne (by decide) (by decide), heax]

end Nm

/-- `nm_restore` and `nm_resume`. -/
theorem shows_restore (h : Shows G region T s t) (hesi : s.reg .esi = t.fxImage)
    (hebp : s.reg .ebp = v) (himage : InPool region t.fxImage) :
    Shows G region T (steps K.machine s [.fxrstor .esi, .movToCr0 .ebp])
      { nmRestore t with cr0 := v } := by
  have hfx : fxrstor (s.reg .esi) s.mem s.fpu = fxrstor t.fxImage t.data.mem t.fx := by
    rw [hesi, h.fx]
    exact fxrstor_congr fun j hj => h.pool _ (himage j hj)
  exact ⟨h.fxImage, h.fxOwner, h.nmCount, h.swapFlushes, hfx, hebp, h.pool, h.table⟩

section Located

variable (hm : Mapped G region T low size) (h : Shows G region T s t)
include hm h

theorem Mapped.located (himage : t.fxImage ≠ 0 → InPool region t.fxImage)
    (howner : t.fxOwner ≠ 0 → InPool region t.fxOwner) :
    Located G (fun a => region a ≠ .stack) low size s := by
  have hpool : ∀ a, region a = .pool → region a ≠ .stack := fun a ha => by
    rw [ha]
    decide
  refine ⟨hm.size_le, fun i hi hn => hn (hm.stack i hi), fun p hp i hi => ?_, fun hi j hj => ?_,
    fun ho j hj => ?_⟩
  · rw [hm.vars p hp i hi]
    decide
  · rw [h.fxImage] at hi ⊢
    refine ⟨hpool _ (himage hi j hj), fun p hp => hm.var_ne hp ?_⟩
    rw [himage hi j hj]
    decide
  · rw [h.fxOwner] at ho ⊢
    exact hpool _ (howner ho j hj)

end Located

theorem nmCall_zf : (nmCall K s).flags.zf = decide ((nmCall K s).reg .eax = 0) := by
  rw [nmCall_reg]
  exact step_or_self_zf (M := K.machine)

section Whole

variable {depth : ℕ} {thread image : Addr} {bs : List Byte} {p s₀ : State FxState}
    (hm : Mapped G region T low size)
include hm

/-- From `nm_load` on. -/
theorem shows_nmLoaded (h : Shows G region T s t) (hw : Working low size bs image p s)
    (hp : Located G (fun a => region a ≠ .stack) low size s₀)
    (hK : LooksUp K G region T depth thread)
    (hroom : bs.length + 8 + depth ≤ size) (hdf : s.flags.df = false) (himage : image = t.fxImage)
    (hi : InPool region t.fxImage)
    (harea : (trapLookupSaveArea thread t.data).1 ≠ 0 →
      InPool region (trapLookupSaveArea thread t.data).1) :
    Shows G region T (nmLoaded K G s) { nmRestore (nmLoad thread t) with cr0 := p.cr0 } := by
  have hdata : ∀ j < sseSaveSize, region (off image j) ≠ .stack := fun j hj => by
    rw [himage, hi j hj]
    decide
  obtain ⟨hcall, heax, hclear⟩ :=
    shows_nmCall (k := size - bs.length) hm h hK hw.stack.esp (by omega) (by omega) hdf
  have hw₁ := hw.call hp hroom hK.stdcall
  unfold nmLoaded nmLoad
  simp only [nmCall_zf, decide_eq_true_eq, heax]
  by_cases ha : (trapLookupSaveArea thread t.data).1 = 0
  · rw [if_pos ha, if_pos ha]
    have hd := shows_nmDefaults (K := K) (k := size - bs.length) hm hcall hw₁.stack.esp (by omega)
      (by omega) hclear
      (hw₁.esi.trans himage) hi
    have hw₂ := hw₁.defaults (K := K) hp (by omega) hdata
    rw [← ha] at hd
    exact shows_restore hd (hw₂.esi.trans himage) hw₂.ebp hi
  · rw [if_neg ha, if_neg ha]
    have hd := shows_nmArea (K := K) (k := size - bs.length) hm hcall hw₁.stack.esp (by omega)
      (by omega) hclear
      (hw₁.esi.trans himage) hi (heax ▸ harea ha)
    have hw₂ := hw₁.area (K := K) hp (by omega) hdata
    rw [heax] at hd
    exact shows_restore hd (hw₂.esi.trans himage) hw₂.ebp hi

/-- The snapshot and the flush. -/
theorem shows_flushed (h : Shows G region T s t) (hw : Working low size bs t.fxImage p s)
    (hp : Located G (fun a => region a ≠ .stack) low size s₀) (hroom : bs.length + 8 ≤ size)
    (hdf : s.flags.df = false)
    (hi : InPool region t.fxImage) (ho : t.fxOwner ≠ 0 → InPool region t.fxOwner)
    {s₁ : State FxState}
    (hs₁ : s₁ = if (steps K.machine s (nmSnapshot G)).flags.zf then steps K.machine s (nmSnapshot G)
      else steps K.machine (steps K.machine s (nmSnapshot G)) nmFlush) :
    Shows G region T s₁ (flushOwner t) ∧ Working low size bs t.fxImage p s₁ ∧
    s₁.flags.df = false := by
  have hstack : ∀ a, region a = .pool → region a ≠ .stack := fun a ha => by
    rw [ha]
    decide
  have hsnapshot := shows_nmSnapshot (K := K) hm h hw.esi hi
  have hw₁ := hw.snapshot (K := K) hp fun j hj => hstack _ (hi j hj)
  have hdf₁ : (steps K.machine s (nmSnapshot G)).flags.df = false :=
    (steps_df (by simp [nmSnapshot, testVar, Op.system])).trans hdf
  have hedi : (steps K.machine s (nmSnapshot G)).reg .edi = t.fxOwner := by
    rw [nmSnapshot_edi, h.fxOwner]
    rw [hw.esi]
    intro j hj
    apply hm.var_ne G.fxOwner_mem
    rw [hi j hj]
    decide
  rw [nmSnapshot_zf, hedi] at hs₁
  simp only [decide_eq_true_eq] at hs₁
  by_cases howner : t.fxOwner = 0
  · rw [if_pos howner] at hs₁
    rw [hs₁, flushOwner_unowned howner]
    exact ⟨hsnapshot, hw₁, hdf₁⟩
  · rw [if_neg howner] at hs₁
    rw [hs₁, flushOwner_owned howner]
    refine ⟨?_, hw₁.flush hp hroom (fun j hj => ?_) hdf₁, ?_⟩
    · exact shows_nmFlush (k := size - bs.length) hm hsnapshot hw₁.stack.esp (by omega)
        (by omega) hdf₁ hw₁.esi hedi hi
        (ho howner)
    · rw [hedi]
      exact hstack _ (ho howner j hj)
    · exact (steps_df (by simp [nmFlush, flushMxcsr, flushXmm, around, Op.system])).trans hdf₁

/-- From the prologue's end on. -/
theorem shows_nmWork (h : Shows G region T p t) (hstack : OnStack low size p bs)
    (hp : Located G (fun a => region a ≠ .stack) low size s₀)
    (hK : LooksUp K G region T depth thread)
    (hroom : bs.length + 8 + depth ≤ size) (hi : t.fxImage ≠ 0 → InPool region t.fxImage)
    (ho : t.fxOwner ≠ 0 → InPool region t.fxOwner)
    (harea : (trapLookupSaveArea thread t.data).1 ≠ 0 →
      InPool region (trapLookupSaveArea thread t.data).1) :
    Shows G region T (nmWork K G p) (nmHandler thread t) := by
  have henter := shows_nmEnter (K := K) hm h
  have hw := working_enter (K := K) hp hstack
  rw [h.fxImage] at hw
  unfold nmWork nmHandler
  simp only [nmEnter_zf, decide_eq_true_eq, h.fxImage]
  by_cases h0 : t.fxImage = 0
  · rw [if_pos h0, if_pos h0]
    exact henter.setCr0 hm rfl rfl (hw.ebp.trans h.cr0)
  · rw [if_neg h0, if_neg h0]
    obtain ⟨hflushed, hw₁, hdf⟩ := shows_flushed hm henter hw hp (by omega) rfl (hi h0) ho rfl
    rw [← h.cr0] at hflushed ⊢
    generalize hT : flushOwner { t with cr0 := cr0Clear p.cr0, nmCount := t.nmCount + 1 } =
      t₁ at hflushed ⊢
    rw [flushOwner_data] at hT
    have himage : t.fxImage = t₁.fxImage := by rw [← hT]
    have hdata : t₁.data = { t.data with mem := (flushOwner t).data.mem } := by rw [← hT]
    apply shows_nmLoaded hm hflushed hw₁ hp hK hroom hdf himage (himage ▸ hi h0)
    rw [hdata, trapLookupSaveArea_mem]
    exact harea

end Whole

theorem nmHandler_computes {depth : ℕ} {thread : Addr} (hm : Mapped G region T low size)
    (h : Shows G region T s t)
    (hK : LooksUp K G region T depth thread) (hi : t.fxImage ≠ 0 → InPool region t.fxImage)
    (ho : t.fxOwner ≠ 0 → InPool region t.fxOwner)
    (harea : (trapLookupSaveArea thread t.data).1 ≠ 0 →
      InPool region (trapLookupSaveArea thread t.data).1)
    (hesp : s.reg .esp = off low k) (hk : k ≤ size) (hroom : 112 + depth ≤ k) :
    ∃ s', run K.machine (nmHandlerCode G) s = some s' ∧
    Shows G region T s' (nmHandler thread t) := by
  have hgrown : Grown 104 s (afterPrologue K s) := (Grown.refl s).steps rfl
  have hfit : k - 104 ≤ size := by omega
  have hstack := onStack_of_esp hfit (hgrown.low hesp (by omega))
  have hlen : ((List.range (size - (k - 104))).map fun i => (afterPrologue K s).mem
    (off low (k - 104 + i))).length =
      size - (k - 104) := by rw [List.length_map, List.length_range]
  have hprologue := shows_grown hm h hesp (by omega) hk hgrown rfl rfl
  exact ⟨_, run_nmHandler K G s, shows_nmWork hm hprologue hstack (hm.located h hi ho) hK
    (by omega) hi ho harea⟩

/-- A pool that has nothing for `thread` is an instance. -/
theorem emptyPool_looksUp (G : Globals) (region : Addr → Region) (thread : Addr) :
    LooksUp emptyPool G region (fun d _ => trapLookupSaveArea thread d = (0, d)) 0 thread := by
  refine ⟨emptyPool_isStdcall _, fun s t h hdf _ => ?_⟩
  rw [h.table]
  exact ⟨rfl, ⟨h.fxImage, h.fxOwner, h.nmCount, h.swapFlushes, h.fx, h.cr0, h.pool, h.table⟩, hdf⟩

end Nt351.Driver
