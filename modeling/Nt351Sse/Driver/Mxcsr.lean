import Nt351Sse.Driver.Machine

/-! `fxrstor` raises #GP on an MXCSR with a reserved bit set. The value it gets was copied
from a save area to the image, and to the save area from the live register or from
`DEFAULT_MXCSR`. -/

namespace Nt351.Driver
open Memory Runs

/-- No event writes a reserved bit: the processor refuses such an `ldmxcsr`. -/
def MachineEvent.WritesValid (reserved : BitVec 32) : MachineEvent → Prop
  | .sse (.write .mxcsr v) => (show BitVec 32 from v) &&& reserved = 0
  | _ => True

instance (reserved : BitVec 32) : ∀ e : MachineEvent, Decidable (e.WritesValid reserved)
  | .sse (.write .mxcsr v) => inferInstanceAs (Decidable ((show BitVec 32 from v) &&& reserved = 0))
  | .sse (.write (.xmm _) _) => .isTrue trivial
  | .sse (.read _) => .isTrue trivial
  | .sse (.switch _ _ _) => .isTrue trivial
  | .build => .isTrue trivial
  | .lookup _ => .isTrue trivial
  | .release _ => .isTrue trivial
  | .create _ => .isTrue trivial
  | .terminate _ => .isTrue trivial
  | .x87 _ => .isTrue trivial

/-- The state of `NmHandler` at `fxrstor`. -/
def atFxrstor (thread : Addr) (s : Trap) : Trap :=
  nmLoad thread (flushOwner { s with cr0 := cr0Clear s.cr0, nmCount := s.nmCount + 1 })

namespace Trap

def ValidSse (reserved : BitVec 32) (sse : Sse) : Prop := sse.mxcsr &&& reserved = 0

structure Valid (reserved : BitVec 32) (built : List Addr) (s : Trap) : Prop where
  wf : Wf built s
  live : ValidSse reserved s.fx.sse
  saved : Holds (fun _ => ValidSse reserved) built s

variable {reserved : BitVec 32} {built : List Addr} {s : Trap}

theorem Valid.left (h : Valid reserved built s) {b : Addr} (hb : b ∈ built) :
    ValidSse reserved (s.left (s.data.node b).save) := by
  rcases left_cases s b with he | ⟨-, he⟩
  · rw [he]
    exact h.saved b hb
  · rw [he]
    exact h.live

theorem Valid.nmHandler (h : Valid reserved built s) (hdefault : ValidSse reserved .default)
    (t : Thread) : Valid reserved built (nmHandler t s) := by
  obtain ⟨hwf, hkeeps⟩ := h.wf.nmHandler t
  refine ⟨hwf, ?_, hkeeps.holds h.saved fun _ _ _ => h.live⟩
  by_cases h0 : s.fxImage = 0
  · rw [nmHandler_noImage h0]
    exact h.live
  · rw [h.wf.loads h0 t]
    split
    · exact hdefault
    · next ha =>
      obtain ⟨b, hb, he⟩ := h.wf.area_built t ha
      rw [he]
      exact h.left hb

theorem Valid.swapDetour (h : Valid reserved built s) : Valid reserved built (swapDetour s) := by
  obtain ⟨hwf, hkeeps, hfx, -⟩ := h.wf.swapDetour
  refine ⟨hwf, ?_, hkeeps.holds h.saved fun _ _ _ => h.live⟩
  rw [hfx]
  exact h.live

theorem Valid.withRegs (h : Valid reserved built s) (fx : FxState) (cr0 : BitVec 32)
    (hfx : ValidSse reserved fx.sse) :
    Valid reserved built { s with fx := fx, cr0 := cr0 } := ⟨h.wf.withRegs fx cr0, hfx, h.saved⟩

theorem Valid.access {kernelX87 : Cpu → X87} {s : Cpu} (h : Valid reserved built s.trap)
    (hdefault : ValidSse reserved .default) : Valid reserved built (s.access kernelX87).trap := by
  by_cases hts : s.ts = true
  · obtain ⟨cr0, x87, he⟩ := s.access_trap kernelX87 hts
    have hnm := h.nmHandler hdefault s.cur
    rw [he]
    exact hnm.withRegs _ cr0 hnm.live
  · unfold Cpu.access
    rw [if_neg hts]
    exact h

theorem atFxrstor_fxImage (t : Thread) (s : Trap) : (atFxrstor t s).fxImage = s.fxImage := by
  rw [atFxrstor, flushOwner_eq, nmLoad_eq rfl]
  rfl

/-- What `fxrstor` is given is what a #NM loads. -/
theorem Valid.atFxrstor (h : Valid reserved built s) (hdefault : ValidSse reserved .default)
    (h0 : s.fxImage ≠ 0) (t : Thread) :
    ValidSse reserved (sseAt fxiLayout (atFxrstor t s).data.mem s.fxImage) := by
  have hlive := (h.nmHandler hdefault t).live
  have he : (Driver.nmHandler t s).fx.sse = sseAt fxiLayout (Driver.atFxrstor t s).data.mem
    (Driver.atFxrstor t s).fxImage := by
    simp only [Driver.nmHandler, h0, if_false]
    rfl
  rwa [he, atFxrstor_fxImage] at hlive

end Trap

/-! ## Runs -/

variable {kernelX87 : Cpu → X87} {reserved : BitVec 32} {s : Machine} {es : List MachineEvent}

theorem Trap.Valid.step (h : s.cpu.trap.Valid reserved s.built)
    (hdefault : ValidSse reserved .default) {e : MachineEvent} (he : e.WritesValid reserved) :
    (s.step kernelX87 e).cpu.trap.Valid reserved (s.step kernelX87 e).built := by
  cases e with
  | build => exact ⟨h.wf.build.1, h.live, h.wf.build_holds h.saved fun _ => hdefault⟩
  | lookup t =>
    obtain ⟨hwf, hkeeps⟩ := h.wf.lookup (.lookup t)
    exact ⟨hwf, h.live, hkeeps.holds h.saved fun _ _ _ => h.live⟩
  | release t =>
    obtain ⟨hwf, hkeeps⟩ := h.wf.release t
    exact ⟨hwf, h.live, hkeeps.holds h.saved fun _ _ _ => h.live⟩
  | create t => exact h
  | terminate t => exact h
  | x87 v =>
    have ha : Trap.Valid reserved s.built (s.cpu.access kernelX87).trap := h.access hdefault
    exact ha.withRegs _ _ ha.live
  | sse e =>
    cases e with
    | read r => exact h.access hdefault
    | write r v =>
      have ha : Trap.Valid reserved s.built (s.cpu.access kernelX87).trap := h.access hdefault
      apply ha.withRegs _ _
      cases r with
      | xmm i => exact ha.live
      | mxcsr => exact he
    | switch t detour spurious =>
      cases detour with
      | true => exact h.swapDetour.withRegs _ _ h.swapDetour.live
      | false => exact h.withRegs _ _ h.live

/-- No MXCSR in a save area, and none handed to `fxrstor` by a #NM of any thread, has a
reserved bit set. -/
structure MxcsrValid (reserved : BitVec 32) (s : Machine) : Prop where
  area : ∀ b ∈ s.built, readDword s.data.mem (off (s.data.node b).save saveMxcsr) &&& reserved = 0
  image : s.cpu.trap.fxImage ≠ 0 → ∀ t : Thread,
    readDword (atFxrstor t s.cpu.trap).data.mem (off s.cpu.trap.fxImage fxiMxcsr) &&& reserved = 0

/-- After any run, whatever the XMM bytes and the valid MXCSR values written in it. -/
theorem mxcsr_valid (hreserved : defaultMxcsr &&& reserved = 0) (hs : s.Start)
    (hlive : s.cpu.trap.fx.sse.mxcsr &&& reserved = 0) (hes : ∀ e ∈ es, e.WritesValid reserved) :
    MxcsrValid reserved (exec (Machine.step kernelX87) s es) := by
  have hstart : s.cpu.trap.Valid reserved s.built := ⟨hs.wf, hlive, hs.holds fun _ => hreserved⟩
  have halong : Along (Machine.step kernelX87) (fun _ e => e.WritesValid reserved) s es :=
    along_of_forall fun _ => hes
  have hvalid := (halong.invariant (I := fun s => s.cpu.trap.Valid reserved s.built) hstart
    fun _ _ h he => h.step hreserved he).2
  exact ⟨hvalid.saved, fun h0 t => hvalid.atFxrstor hreserved h0 t⟩

/-- Bits 16 to 31 are reserved. A writes MXCSR and XMM0 and is switched out; B and A trap in
turn. -/
theorem mxcsr_valid_twoBuffers :
    MxcsrValid 0xffff0000 (exec (Machine.step fun s => s.trap.fx.x87) twoBuffersMachine
      [.sse (.write .mxcsr 0x1fa0#32), .sse (.write (.xmm 0) fun _ => 0xff), .sse
      (.switch threadB true true), .build, .sse (.write (.xmm 7) fun _ => 0xff), .release
      threadA, .sse (.switch threadA false true), .x87 ⟨fun _ => 0, fun _ => 0⟩]) :=
  mxcsr_valid (by decide) twoBuffersMachine_start (by decide) (by decide)

end Nt351.Driver
