import Nt351Sse.Driver.Prepare

/-! What the trap paths follow: the resume address, the image, the owner, the free list and
the table, and the trampoline. They are safe in a state whose pool is laid out as `Pools`
says and whose control state is `Armed`. -/

namespace Nt351.Driver
open Memory Probing Runs Preempt

structure BufferSafe (d : Data) (b : Addr) : Prop where
  node : nodeBlock b ∈ d.heap.live
  raw : rawBlock (d.node b).rawBase ∈ d.heap.live
  within : (areaBlock (d.node b).save).Within (rawBlock (d.node b).rawBase)
  aligned : (d.node b).save.toNat % 16 = 0

/-- `b` is on `g_FreeList` or in `g_Table`. -/
def Pooled (d : Data) (b : Addr) : Prop :=
  (∃ l, FreeNodes d l ∧ b ∈ l) ∨ b ≠ 0 ∧ ∃ idx, (d.table idx).buffer = b

structure PoolSafe (d : Data) : Prop where
  ends : ∃ l, FreeNodes d l
  buffer : ∀ b, Pooled d b → BufferSafe d b
  own : ∀ b c, Pooled d b → Pooled d c → (d.node b).rawBase = (d.node c).rawBase → b = c

/-- A trampoline at `p`: the displaced bytes, then the jump back behind them. -/
structure Trampoline (E : Env) (d : Data) (p : Addr) : Prop where
  live : ⟨p, detourLen + 5⟩ ∈ d.heap.live
  displaced : ∀ i < detourLen, d.mem (off p i) = E.text (off swapContextVa i)
  back : IsJmp d.mem (off p detourLen) (off swapContextVa detourLen)

def Hooked (E : Env) (c : Control) : Prop :=
  gateTarget c.gate = E.nmHandler ∨ IsJmp c.text swapContextVa E.swapDetour

/-- No trap path follows a stale pointer from `s`. -/
structure TrapPathsSafe (E : Env) (s : System) : Prop where
  resume : gateTarget s.ctl.gate = E.nmHandler →
    s.ctl.kernelNmResume = off (gateTarget E.gate) nmPrologueLen
  image : Hooked E s.ctl → s.trap.fxImage = 0 ∨ s.trap.fxImage.toNat % 16 = 0 ∧
    ∃ c ∈ s.trap.data.heap.live, (areaBlock s.trap.fxImage).Within c
  owner : Hooked E s.ctl → s.trap.fxOwner = 0 ∨
    ∃ b, BufferSafe s.trap.data b ∧ s.trap.fxOwner = (s.trap.data.node b).save
  pool : Hooked E s.ctl → PoolSafe s.trap.data
  trampoline : IsJmp s.ctl.text swapContextVa E.swapDetour →
    Trampoline E s.trap.data s.ctl.swapTrampoline

/-! ## Why they are safe -/

structure Armed (E : Env) (d : Data) (c : Control) : Prop where
  resume : gateTarget c.gate = E.nmHandler →
    c.kernelNmResume = off (gateTarget E.gate) nmPrologueLen
  trampoline : IsJmp c.text swapContextVa E.swapDetour → Trampoline E d c.swapTrampoline

variable {E : Env} {v : Taken} {a : Assignment Thread Addr} {t : Trap} {s : System} {p : Addr}

theorem Laid.bufferSafe {d : Data} {b : Addr} (h : Laid d b) : BufferSafe d b := by
  refine ⟨h.node, h.raw, h.area_within, ?_⟩
  rw [h.save]
  exact alignUp_aligned h.raw_fits

theorem Pools.built_of_pooled (h : Pools v a t) {b : Addr} (hb : Pooled t.data b) :
    b ∈ v.built := by
  rcases hb with ⟨l, hl, hb⟩ | hb
  · have hfree : l = a.free := Chain.unique hl h.serving.refines.placed.chain
    exact (h.serving.refines.placed.mem_built b).mpr (.inl (hfree ▸ hb))
  · exact (h.serving.refines.placed.mem_built b).mpr (.inr hb)

theorem Pools.poolSafe (h : Pools v a t) : PoolSafe t.data :=
  ⟨⟨a.free, h.serving.refines.placed.chain⟩, fun _ hb => (h.laid (h.built_of_pooled hb)).bufferSafe,
    fun b c hb hc => h.serving.layout.rawInj b (h.built_of_pooled hb) c (h.built_of_pooled hc)⟩

theorem Pools.foreign_of_live (h : Pools v a t) {c : Block} (hc : c ∈ v.data.heap.live)
    (hsize : c.size = detourLen + 5) {x : Addr} (hx : c.Covers x) : v.Foreign x := by
  have hraw : ∀ raw, rawBlock raw ∈ v.data.heap.live → ¬ (rawBlock raw).Covers x := by
    intro raw hm
    refine ((v.data.heap.sound.eq_or_disjoint hc hm).resolve_left fun he => ?_).not_covers hx
    have hsize' : detourLen + 5 = sseSaveSize + sseSaveAlign :=
      hsize.symm.trans (congrArg Block.size he)
    exact absurd hsize' (by decide)
  refine ⟨hraw _ h.raw, fun b hb => hraw _ ?_⟩
  have hm := (h.laid hb).raw
  rwa [h.heap_eq, (h.serving.same.2 b).1] at hm

theorem Pools.trampoline (h : Pools v a t) (ht : Trampoline E v.data p) :
    Trampoline E t.data p := by
  have hfits : Block.Fits ⟨p, detourLen + 5⟩ := (v.data.heap.sound.valid _ ht.live).2.2
  have hkept : ∀ i < detourLen + 5, t.data.mem (off p i) = v.data.mem (off p i) := fun i hi =>
    h.kept _ (h.foreign_of_live ht.live rfl (hfits.covers_off hi))
  refine ⟨h.heap_eq ▸ ht.live, fun i hi => (hkept i (by omega)).trans (ht.displaced i hi), ?_⟩
  refine (isJmp_congr fun i hi => ?_).mpr ht.back
  rw [off_off]
  exact hkept _ (by simp only [detourLen]; omega)

theorem Pools.trapPathsSafe {c : Control} (h : Pools v a t) (hc : Armed E v.data c) :
    TrapPathsSafe E ⟨t, c⟩ := by
  refine ⟨hc.resume, fun _ => ?_, fun _ => ?_, fun _ => h.poolSafe,
    fun hj => h.trampoline (hc.trampoline hj)⟩
  -- the image is aligned up in a raw block as the areas are
  · obtain ⟨raw, hraw, himage, -⟩ := h.imageLaid
    have hfits := (t.data.heap.sound.valid _ hraw).2.2
    have haligned := alignUp_aligned hfits
    have hin := areaBlock_within hfits
    rw [← himage] at haligned hin
    exact .inr ⟨haligned, rawBlock raw, hraw, hin⟩
  · by_cases h0 : t.fxOwner = 0
    · exact .inl h0
    · obtain ⟨b, hb, ho⟩ := h.owner_cases h0
      exact .inr ⟨b, (h.laid hb).bufferSafe, ho⟩

theorem trapPathsSafe_unhooked (h : ¬ Hooked E s.ctl) : TrapPathsSafe E s :=
  ⟨fun hg => absurd (.inl hg) h, fun hh => absurd hh h, fun hh => absurd hh h,
    fun hh => absurd hh h,
    fun hj => absurd (.inr hj) h⟩

/-! ## At the points -/

/-- What the points of a run are checked for: the trap paths, and a condition on the
control state. -/
def Guarded (E : Env) (C : Control → Prop) (s : System) : Prop := TrapPathsSafe E s ∧ C s.ctl

variable {C : Control → Prop} {Q : Unit → System → Prop} {pt : Point}

/-- What the #NMs among `is` draw. -/
def acquired (a : Assignment Thread Addr) (is : List Interrupt) : Assignment Thread Addr :=
  exec Assignment.acquire a (nms is)

theorem acquired_append {is js : List Interrupt} :
    acquired (acquired a is) js = acquired a (is ++ js) := by
  rw [acquired, acquired, acquired, nms_append, exec_append]

theorem wp_interrupts_armed (h : Pools v a s.trap) (hg : gateTarget s.ctl.gate = E.nmHandler)
    (harmed : Armed E v.data s.ctl) (hC : C s.ctl)
    (hQ : ∀ t, Pools v (acquired a (E.sched pt)) t → Q () ⟨t, s.ctl⟩) :
    wp (interrupts E pt) (Guarded E C) Q s := by
  refine wp_interrupts h (fun _ _ ht => ⟨ht.trapPathsSafe harmed, hC⟩) fun t ht => hQ t ?_
  rwa [drawn, if_pos hg] at ht

theorem wp_interrupts_disarmed (h : Pools v a s.trap) (hg : gateTarget s.ctl.gate ≠ E.nmHandler)
    (hj : ¬ IsJmp s.ctl.text swapContextVa E.swapDetour) (hC : C s.ctl)
    (hQ : ∀ t, Pools v a t → Q () ⟨t, s.ctl⟩) : wp (interrupts E pt) (Guarded E C) Q s := by
  have harmed : Armed E v.data s.ctl := ⟨fun hg' => absurd hg' hg, fun hj' => absurd hj' hj⟩
  refine wp_interrupts h (fun _ _ ht => ⟨ht.trapPathsSafe harmed, hC⟩) fun t ht => hQ t ?_
  rwa [drawn, if_neg hg] at ht

theorem wp_interrupts_unhooked (h : ¬ Hooked E s.ctl) (hC : C s.ctl)
    (hQ : ∀ fx cr0, Q () (s.setTrap fun t => { t with fx := fx, cr0 := cr0 })) :
    wp (interrupts E pt) (Guarded E C) Q s := by
  refine wp_point_of_invariant (I := fun _ s' => ∃ fx cr0, s' =
    s.setTrap fun t => { t with fx := fx, cr0 := cr0 })
    ⟨s.trap.fx, s.trap.cr0, rfl⟩ ?_ ?_ ?_
  · rintro is i s' ⟨fx, cr0, rfl⟩
    obtain ⟨fx', cr0', he⟩ :=
      serve_unhooked (s := s.setTrap fun t => { t with fx := fx, cr0 := cr0 })
      (fun hg => h (.inl hg)) (fun hj => h (.inr hj)) i
    exact ⟨fx', cr0', he⟩
  · rintro is s' ⟨fx, cr0, rfl⟩
    exact ⟨trapPathsSafe_unhooked h, hC⟩
  · rintro s' ⟨fx, cr0, rfl⟩
    exact hQ fx cr0

end Nt351.Driver
