import Nt351Sse.Driver.Cpu
import Nt351Sse.Driver.Loaded

/-! The CPU with the driver is a lazy context machine: the pool is the assignment the
table stands for, the records are the save areas, the owner is `g_FxOwner`, and the
machine is armed while TS is set. -/

namespace Nt351.Driver
open Memory Probing Runs

abbrev LazySse := LazyContext.State Thread Addr Sse (Fin sseSaveSize → Byte)

variable {d d' d₀ : Data} {built : List Addr} {b : Addr} {a : Assignment Thread Addr} {t : Thread}

/-! ## The abstraction -/

structure Abstracts (d₀ : Data) (built : List Addr) (s : Cpu) (x : LazySse) : Prop where
  serving : Serving d₀ built s.trap.data x.pool
  image : ImageLaid d₀ built s.trap.fxImage
  area : ∀ b ∈ built, x.area b = contents s.trap.data.mem (d₀.node b).save
  live : x.live = s.trap.fx.sse
  owner : s.trap.fxOwner = match x.owner with
    | none => 0
    | some b => (d₀.node b).save
  loaded : x.loaded = s.npx
  cur : x.cur = s.cur
  armed : x.armed = s.ts

def absEvent : Event → LazyContext.Event Thread Sse
  | .read _ => .read
  | .write r v => .write fun sse => sse.set r v
  | .switch t detour spurious => .switch t detour spurious

variable {s : Cpu} {x : LazySse}

theorem Abstracts.layout (h : Abstracts d₀ built s x) : Built d₀ built := by
  refine h.serving.layout.congr ⟨h.serving.same.1.symm, fun p => ?_⟩
  exact ⟨(h.serving.same.2 p).1.symm, (h.serving.same.2 p).2.symm⟩

theorem Abstracts.owner_built (h : Abstracts d₀ built s x) (hw : x.Wf) (hb : x.owner = some b) :
    b ∈ built := by
  obtain ⟨k, -, hk⟩ := hw.owner b hb
  exact h.serving.refines.held_built hk

theorem Abstracts.owner_some (h : Abstracts d₀ built s x) (hb : x.owner = some b) :
    s.trap.fxOwner = (d₀.node b).save := by
  rw [h.owner, hb]

theorem Abstracts.owner_none (h : Abstracts d₀ built s x) (ho : x.owner = none) :
    s.trap.fxOwner = 0 := by
  rw [h.owner, ho]

theorem Abstracts.owner_eq_zero (h : Abstracts d₀ built s x) (hw : x.Wf) :
    s.trap.fxOwner = 0 ↔ x.owner = none := by
  constructor
  · intro h0
    cases hb : x.owner with
    | none => rfl
    | some b =>
      exact absurd ((h.owner_some hb).symm.trans h0)
        (h.layout.laid b (h.owner_built hw hb)).save_ne_zero
  · exact h.owner_none

theorem Abstracts.apart (h : Abstracts d₀ built s x) (hw : x.Wf) : Apart s.trap := by
  refine ⟨h.image.fits, fun h0 => ?_⟩
  cases hb : x.owner with
  | none => exact absurd (h.owner_none hb) h0
  | some b =>
    have hm := h.owner_built hw hb
    rw [h.owner_some hb]
    exact ⟨(h.layout.laid b hm).area_fits, h.image.disjoint h.layout hm⟩

theorem Abstracts.not_image (h : Abstracts d₀ built s x) (hb : b ∈ built) {j : ℕ}
    (hj : j < sseSaveSize) : ¬ (areaBlock s.trap.fxImage).Covers (off (d₀.node b).save j) :=
  (h.image.disjoint h.layout hb).symm.not_covers ((h.layout.laid b hb).area_fits.covers_off hj)

theorem Abstracts.flushed (h : Abstracts d₀ built s x) (hw : x.Wf) (hb : b ∈ built) :
    x.flushed saveRecord b = contents (flushedMem s.trap) (d₀.node b).save := by
  by_cases hob : x.owner = some b
  · have ho := h.owner_some hob
    have h0 := (h.layout.laid b hb).save_ne_zero
    rw [LazyContext.State.flushed_self hob, h.area b hb, h.live, flushedMem, ho, if_neg h0]
    exact (contents_storeSse saveLayout s.trap.fx.sse s.trap.data.mem _).symm
  · rw [LazyContext.State.flushed_other hob, h.area b hb]
    cases hc : x.owner with
    | none => rw [flushedMem, if_pos (h.owner_none hc)]
    | some c =>
      have hcm := h.owner_built hw hc
      have hne : b ≠ c := fun he => hob (he ▸ hc)
      rw [flushedMem, h.owner_some hc, if_neg (h.layout.laid c hcm).save_ne_zero]
      funext j
      -- the live state went to another buffer's area
      have hdisj := h.layout.area_disjoint hb hcm hne
      have hout := hdisj.not_covers ((h.layout.laid b hb).area_fits.covers_off j.isLt)
      exact (storeSse_outside (h.layout.laid c hcm).area_fits hout).symm

theorem Abstracts.loadedSse (h : Abstracts d₀ built s x) {pool : Assignment Thread Addr} {m : Mem}
    {area : Addr → Fin sseSaveSize → Byte} (hpool : ∀ b, pool.held t = some b → b ∈ built)
    (harea : ∀ b ∈ built, area b = contents m (d₀.node b).save) :
    loadedSse m (heldArea d₀ pool t) = LazyContext.saved saveRecord pool area t := by
  unfold heldArea LazyContext.saved
  cases hb : pool.held t with
  | none => exact if_pos rfl
  | some b =>
    have hm := hpool b hb
    simp only [harea b hm]
    rw [Driver.loadedSse, if_neg (h.layout.laid b hm).save_ne_zero]
    exact (sseAt_asMem saveLayout m _).symm

theorem Abstracts.saved (h : Abstracts d₀ built s x) (hlen : built.length < maxThreads)
    (t : Thread) :
    Driver.loadedSse s.trap.data.mem (Driver.boundArea t s.trap.data) =
      LazyContext.saved saveRecord x.pool x.area t := by
  rw [h.serving.boundArea hlen]
  exact h.loadedSse (fun b hb => h.serving.refines.held_built hb) h.area

variable {kernelX87 : Cpu → X87}

theorem Abstracts.trap (h : Abstracts d₀ built s x) (hw : x.Wf) (hlen : built.length < maxThreads) :
    Abstracts d₀ built (Cpu.kernelNm kernelX87 { s with trap := nmHandler s.cur s.trap })
      (x.trap saveRecord) := by
  obtain ⟨hserving, harea⟩ := h.serving.step hlen (.trap s.cur)
  have harea : (trapLookupSaveArea s.cur s.trap.data).1 =
    heldArea d₀ (x.pool.acquire s.cur) s.cur := harea
  have hbuilt : ∀ b, (x.pool.acquire s.cur).held s.cur = some b → b ∈ built := fun b hb =>
    hserving.refines.held_built hb
  have hapart : AreaApart s.trap (trapLookupSaveArea s.cur s.trap.data).1 := by
    rw [harea]
    exact hserving.heldArea_apart (h.image.congr hserving.same)
  have hspec := nmHandler_spec h.image.ne_zero (h.apart hw) hapart
  set s' := nmHandler s.cur s.trap
  have hmem : ∀ b ∈ built, x.flushed saveRecord b = contents s'.data.mem (d₀.node b).save := by
    intro b hb
    rw [h.flushed hw hb]
    funext j
    exact (hspec.mem _ (h.not_image hb j.isLt)).symm
  have hcur : x.cur = s.cur := h.cur
  refine ⟨?_, ?_, hmem, ?_, ?_, ?_, hcur, ?_⟩
  · have hs := hserving.withMem s'.data.mem
    rw [LazyContext.State.trap, hcur]
    change Serving d₀ built s'.data _
    rw [hspec.data]
    exact hs
  · exact hspec.image ▸ h.image
  · rw [LazyContext.State.trap, hcur]
    change LazyContext.saved saveRecord (x.pool.acquire s.cur) (x.flushed saveRecord) s.cur =
      s'.fx.sse
    rw [hspec.sse, harea]
    exact (h.loadedSse hbuilt fun b hb => h.flushed hw hb).symm
  · rw [LazyContext.State.trap, hcur]
    exact hspec.owner.trans harea
  · rw [LazyContext.State.trap, hcur]
    rfl
  · exact (Cpu.setTs_ts false _).symm

theorem Abstracts.access (h : Abstracts d₀ built s x) (hw : x.Wf)
    (hlen : built.length < maxThreads) :
    Abstracts d₀ built (s.access kernelX87) (x.access saveRecord) := by
  unfold Cpu.access LazyContext.State.access
  rw [h.armed]
  split
  · exact h.trap hw hlen
  · exact h

theorem Abstracts.detour (h : Abstracts d₀ built s x) (hw : x.Wf) :
    Abstracts d₀ built { s with trap := swapDetour s.trap } (x.flush saveRecord) := by
  have hspec := swapDetour_spec h.image.ne_zero (h.apart hw)
  set s' := swapDetour s.trap
  refine ⟨?_, ?_, fun b hb => ?_, ?_, hspec.owner, h.loaded, h.cur, ?_⟩
  · change Serving d₀ built s'.data _
    rw [hspec.data]
    exact h.serving.withMem _
  · exact hspec.image ▸ h.image
  · change x.flushed saveRecord b = contents s'.data.mem _
    rw [h.flushed hw hb]
    funext j
    exact (hspec.mem _ (h.not_image hb j.isLt)).symm
  · exact h.live.trans (congrArg FxState.sse hspec.fx.symm)
  · exact h.armed.trans (congrArg (fun cr0 : BitVec 32 => cr0.getLsbD 3) hspec.cr0.symm)

theorem Abstracts.swapContext (h : Abstracts d₀ built s x) (t : Thread) (spurious : Bool) :
    Abstracts d₀ built (s.swapContext t spurious) (x.enter t spurious) := by
  refine ⟨h.serving, h.image, h.area, h.live, h.owner, h.loaded, rfl, ?_⟩
  rw [Cpu.ts, Cpu.swapContext, Cpu.setTs_ts, ← h.loaded]
  rfl

/-- One event of the CPU is one event of the lazy context machine. -/
theorem Abstracts.step (h : Abstracts d₀ built s x) (hw : x.Wf) (hlen : built.length < maxThreads)
    (e : Event) : Abstracts d₀ built (s.step kernelX87 e) (x.step saveRecord (absEvent e)) := by
  cases e with
  | read r => exact h.access hw hlen
  | write r v =>
    have h' : Abstracts d₀ built (s.access kernelX87) (x.access saveRecord) := h.access hw hlen
    exact ⟨h'.serving, h'.image, h'.area, congrArg (fun sse : Sse => sse.set r v) h'.live, h'.owner,
      h'.loaded, h'.cur, h'.armed⟩
  | switch t detour spurious =>
    cases detour with
    | true => exact (h.detour hw).swapContext t spurious
    | false => exact h.swapContext t spurious

variable (kernelX87) in
theorem Abstracts.run (h : Abstracts d₀ built s x) (hw : x.Wf) (hlen : built.length < maxThreads)
    (es : List Event) :
    Abstracts d₀ built (exec (Cpu.step kernelX87) s es) (exec (LazyContext.State.step saveRecord) x
      (es.map absEvent)) ∧ (exec (LazyContext.State.step saveRecord) x (es.map absEvent)).Wf := by
  refine exec_map (R := fun s x => Abstracts d₀ built s x ∧ x.Wf) ⟨h, hw⟩ (fun s x e hsim => ?_) es
  exact ⟨hsim.1.step hsim.2 hlen e, hsim.2.step _⟩

end Nt351.Driver
