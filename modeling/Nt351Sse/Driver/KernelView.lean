import Nt351Sse.Driver.Load
import Nt351Sse.Driver.Machine

/-! What the kernel sees of the driver. x87, CR0 and the current thread are the kernel's,
whatever it does with them; here its own #NM handler and `SwapContext` are any functions
of them, and an instruction that faults is tried again only when it comes up again. -/

namespace Nt351.Driver
open Memory Runs

/-- What the kernel's code works on. -/
structure KernelView (κ : Type*) where
  data : κ
  cur : Thread
  cr0 : BitVec 32
  x87 : X87

structure Kernel (κ : Type*) where
  -- its #NM handler
  nm : KernelView κ → KernelView κ
  -- its #UD handler
  ud : KernelView κ → KernelView κ
  -- `SwapContext`, to the thread given
  swapContext : Thread → KernelView κ → KernelView κ

inductive KernelEvent (κ : Type*)
  -- an x87 instruction
  | x87 (f : X87 → X87)
  -- an SSE instruction
  | sse (f : X87 → Sse → Sse)
  | switch (t : Thread) (detour : Bool)
  -- all else the kernel does, interrupts included
  | kernel (f : KernelView κ → KernelView κ)
  -- calls of the driver's own
  | build
  | lookup (t : Thread)
  | release (t : Thread)

/-- CR0.EM -/
def cr0Em (cr0 : BitVec 32) : Bool := cr0.getLsbD 2

/-- CR0.TS -/
def cr0Ts (cr0 : BitVec 32) : Bool := cr0.getLsbD 3

namespace KernelView

variable {κ : Type*} (K : Kernel κ)

/-- The same CPU without the hooks. -/
def step (v : KernelView κ) : KernelEvent κ → KernelView κ
  | .x87 f => if cr0Em v.cr0 || cr0Ts v.cr0 then K.nm v else { v with x87 := f v.x87 }
  | .sse _ => if cr0Em v.cr0 then K.ud v else if cr0Ts v.cr0 then K.nm v else v
  | .switch t _ => K.swapContext t v
  | .kernel f => f v
  | _ => v

end KernelView

/-- The CPU with the hooks in place. -/
structure HookedKernel (κ : Type*) where
  data : κ
  cur : Thread
  trap : Trap

namespace HookedKernel

variable {κ : Type*}

def view (s : HookedKernel κ) : KernelView κ := ⟨s.data, s.cur, s.trap.cr0, s.trap.fx.x87⟩

def withView (v : KernelView κ) (s : HookedKernel κ) : HookedKernel κ :=
  { s with
    data := v.data
    cur := v.cur
    trap := { s.trap with cr0 := v.cr0, fx := { s.trap.fx with x87 := v.x87 } } }

/-- The kernel's code runs. -/
def onKernel (f : KernelView κ → KernelView κ) (s : HookedKernel κ) : HookedKernel κ :=
  s.withView (f s.view)

def withData (d : Data) (s : HookedKernel κ) : HookedKernel κ :=
  { s with trap := { s.trap with data := d } }

variable (K : Kernel κ)

/-- The IDT gate leads to `NmHandler`, and this on into the kernel's handler. -/
def nm (s : HookedKernel κ) : HookedKernel κ :=
  { s with trap := nmHandler s.cur s.trap }.onKernel K.nm

def step (s : HookedKernel κ) : KernelEvent κ → HookedKernel κ
  | .x87 f =>
    if cr0Em s.trap.cr0 || cr0Ts s.trap.cr0 then s.nm K
    else s.onKernel fun v => { v with x87 := f v.x87 }
  | .sse f =>
    if cr0Em s.trap.cr0 then s.onKernel K.ud
    else if cr0Ts s.trap.cr0 then s.nm K
    else { s with trap := { s.trap with
      fx := { s.trap.fx with sse := f s.trap.fx.x87 s.trap.fx.sse } } }
  | .switch t true => { s with trap := swapDetour s.trap }.onKernel (K.swapContext t)
  | .switch t false => s.onKernel (K.swapContext t)
  | .kernel f => s.onKernel f
  | .build => s.withData (poolBuildOne s.trap.data).2
  | .lookup t => s.withData ((Call.lookup t).step s.trap.data)
  | .release t => s.withData (tableRelease t s.trap.data)

variable {s : HookedKernel κ} {f : KernelView κ → KernelView κ}

@[simp] theorem onKernel_view (f : KernelView κ → KernelView κ) (s : HookedKernel κ) :
    (s.onKernel f).view = f s.view := rfl

theorem wf_onKernel {built : List Addr} (h : s.trap.Wf built) : (s.onKernel f).trap.Wf built :=
  h.withRegs _ _

/-! ## The hooks leave the kernel's view alone -/

end HookedKernel

namespace Trap

variable {s : Trap} {built : List Addr}

theorem Wf.nmHandler_kept (h : Wf built s) (t : Thread) :
    (Driver.nmHandler t s).cr0 = s.cr0 ∧ (Driver.nmHandler t s).fx.x87 = s.fx.x87 := by
  by_cases h0 : s.fxImage = 0
  · rw [nmHandler_noImage h0]
    exact ⟨rfl, rfl⟩
  · have hspec := nmHandler_spec h0 (h.apart h0) (h.areaApart h0 t)
    exact ⟨hspec.cr0, hspec.x87⟩

theorem Wf.swapDetour_kept (h : Wf built s) :
    (Driver.swapDetour s).cr0 = s.cr0 ∧ (Driver.swapDetour s).fx = s.fx := by
  by_cases h0 : s.fxImage = 0
  · rw [show Driver.swapDetour s = s from if_pos h0]
    exact ⟨rfl, rfl⟩
  · have hspec := swapDetour_spec h0 (h.apart h0)
    exact ⟨hspec.cr0, hspec.fx⟩

end Trap

namespace HookedKernel

variable {κ : Type*} {K : Kernel κ} {s : HookedKernel κ} {built : List Addr}

theorem nm_view (h : s.trap.Wf built) : (s.nm K).view = K.nm s.view := by
  obtain ⟨hcr0, hx87⟩ := h.nmHandler_kept s.cur
  rw [nm, onKernel_view]
  apply congrArg K.nm
  rw [view, view, hcr0, hx87]

theorem wf_nm (h : s.trap.Wf built) : (s.nm K).trap.Wf built :=
  wf_onKernel (h.nmHandler s.cur).1

theorem detour_view (h : s.trap.Wf built) :
    ({ s with trap := swapDetour s.trap } : HookedKernel κ).view = s.view := by
  obtain ⟨hcr0, hfx⟩ := h.swapDetour_kept
  rw [view, view, hcr0, hfx]

/-- The buffers stay in order; a new one may have been built. -/
theorem step_wf (h : s.trap.Wf built) (e : KernelEvent κ) :
    ∃ built', (s.step K e).trap.Wf built' := by
  cases e with
  | x87 f =>
    refine ⟨built, ?_⟩
    rw [step]
    split
    · exact wf_nm h
    · exact wf_onKernel h
  | sse f =>
    refine ⟨built, ?_⟩
    rw [step]
    split
    · exact wf_onKernel h
    · split
      · exact wf_nm h
      · exact h.withRegs _ _
  | switch t detour =>
    refine ⟨built, ?_⟩
    cases detour with
    | true => exact wf_onKernel h.swapDetour.1
    | false => exact wf_onKernel h
  | kernel f => exact ⟨built, wf_onKernel h⟩
  | build => exact ⟨_, h.build.1⟩
  | lookup t => exact ⟨built, (h.lookup (.lookup t)).1⟩
  | release t => exact ⟨built, (h.release t).1⟩

/-- One event, seen from the kernel. -/
theorem step_view (h : s.trap.Wf built) (e : KernelEvent κ) :
    (s.step K e).view = s.view.step K e := by
  cases e with
  | x87 f =>
    rw [step, KernelView.step]
    show _ = if cr0Em s.trap.cr0 || cr0Ts s.trap.cr0 then _ else _
    split
    · exact nm_view h
    · rfl
  | sse f =>
    rw [step, KernelView.step]
    show _ = if cr0Em s.trap.cr0 then _ else if cr0Ts s.trap.cr0 then _ else _
    split
    · rfl
    · split
      · exact nm_view h
      · rfl
  | switch t detour =>
    cases detour with
    | true =>
      rw [step, onKernel_view, detour_view h]
      rfl
    | false => rfl
  | kernel f => rfl
  | build => rfl
  | lookup t => rfl
  | release t => rfl

/-- A run from a state in which the buffers are in order. -/
theorem exec_view (h : s.trap.Wf built) (es : List (KernelEvent κ)) :
    (exec (step K) s es).view = exec (KernelView.step K) s.view es := by
  have hrun : (exec (step K) s es).view = exec (KernelView.step K) s.view (es.map id) ∧
      ∃ built, (exec (step K) s es).trap.Wf built := by
    refine exec_map (R := fun (s : HookedKernel κ) v => s.view = v ∧ ∃ built, s.trap.Wf built)
      ⟨rfl, built, h⟩ (fun s v e hs => ?_) es
    obtain ⟨rfl, built, hwf⟩ := hs
    exact ⟨step_view hwf e, step_wf hwf e⟩
  rw [List.map_id] at hrun
  exact hrun.1

end HookedKernel

theorem Pools.wf {v : Taken} {a : Assignment Thread Addr} {t : Trap} (h : Pools v a t) :
    t.Wf v.built := by
  refine ⟨⟨h.serving.layout, a.free, h.serving.refines.placed⟩, .inr h.imageLaid, ?_⟩
  by_cases h0 : t.fxOwner = 0
  · exact .inl h0
  · exact .inr (h.owner_cases h0)

/-- The CPU as a load leaves it. -/
def afterLoad {κ : Type*} (E : Env) (data : κ) (cur : Thread) : HookedKernel κ :=
  ⟨data, cur, (driverEntry E (initial E)).state.trap⟩

/-- What the loaded driver does with SSE is invisible to the kernel, whatever the kernel is and
whatever has trapped during the load: the kernel's data, the current thread, CR0 and x87 go
through the same states as without the driver. -/
theorem kernel_unaware {κ : Type*} (K : Kernel κ) (E : Env)
    (hload : (driverEntry E (initial E)).result = .success) (data : κ) (cur : Thread)
    (es : List (KernelEvent κ)) :
    (exec (HookedKernel.step K) (afterLoad E data cur) es).view =
      exec (KernelView.step K) (afterLoad E data cur).view es := by
  obtain ⟨-, v, a, h⟩ := (driverEntry_spec E).2.loaded hload
  exact HookedKernel.exec_view h.pools.wf es

/-- A kernel that switches x87 lazily: it keeps whose registers are loaded, and what those
of the others hold. -/
def lazyX87 : Kernel (Option Thread × (Thread → X87)) where
  nm v :=
    let saved := match v.data.1 with
      | none => v.data.2
      | some t => Function.update v.data.2 t v.x87
    { v with data := (some v.cur, saved), cr0 := Cpu.setTs false v.cr0, x87 := saved v.cur }
  ud := id
  swapContext t v :=
    { v with cur := t, cr0 := Cpu.setTs (decide (v.data.1 ≠ some t)) v.cr0 }

/-- A and B use SSE and x87 in turn; A is switched in again without the detour. -/
def mixedRun : List (KernelEvent (Option Thread × (Thread → X87))) :=
  let fld : X87 → X87 := fun v => { v with st := fun _ => 0x3f }
  let movups : X87 → Sse → Sse := fun _ sse => sse.set .mxcsr 0x1fa0#32
  [.x87 fld, .x87 fld, .sse movups, .switch threadB true, .sse movups, .sse movups, .x87 fld,
    .switch threadA false, .kernel id, .x87 id, .x87 id]

def freshX87 : Option Thread × (Thread → X87) := (none, fun _ => ⟨fun _ => 0, fun _ => 0⟩)

theorem kernel_unaware_mixedRun :
    (exec (HookedKernel.step lazyX87) (afterLoad twoBuffersEnv freshX87 threadA) mixedRun).view =
      exec (KernelView.step lazyX87) (afterLoad twoBuffersEnv freshX87 threadA).view mixedRun :=
  kernel_unaware lazyX87 twoBuffersEnv (by decide +kernel) freshX87 threadA mixedRun

end Nt351.Driver
