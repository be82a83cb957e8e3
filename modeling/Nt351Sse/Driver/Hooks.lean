import Nt351Sse.Base.Preempt
import Nt351Sse.Driver.Loaded

/-! The hooks of `nt351sse.c`: the IDT gate of vector 7, the patch at the entry of
`SwapContext`, and CR4. Interrupts are taken at the points marked in `InstallNmHook`,
`InstallSwapHook` and the functions that undo them, that is after every write to a global,
to the gate, to `SwapContext` or to CR4 outside `cli`/`sti`. -/

namespace Nt351.Driver
open Memory Probing Runs Preempt

abbrev nmPrologueLen : ℕ := 54
abbrev detourLen : ℕ := 5
abbrev cr4Osfxsr : BitVec 32 := 0x200
abbrev cr4OsfxsrClear : BitVec 32 := 0xfffffdff

/-- `SWAPCONTEXT_VA` -/
abbrev swapContextVa : Addr := 0x8013cd90

def swapExpected : Fin detourLen → Byte := ![0x0a, 0xc9, 0x9c, 0x8b, 0x0b]

structure IdtGate where
  offsetLow : BitVec 16
  selector : BitVec 16
  reserved : BitVec 8
  access : BitVec 8
  offsetHigh : BitVec 16
deriving DecidableEq

def gateTarget (gate : IdtGate) : Addr :=
  gate.offsetHigh.setWidth 32 <<< 16 ||| gate.offsetLow.setWidth 32

def setGateTarget (target : Addr) (gate : IdtGate) : IdtGate :=
  { gate with
    offsetLow := (target &&& 0xffff).setWidth 16
    offsetHigh := (target >>> 16).setWidth 16 }

theorem gateTarget_setGateTarget (target : Addr) (gate : IdtGate) :
    gateTarget (setGateTarget target gate) = target := by
  apply BitVec.eq_of_getLsbD_eq
  intro i hi
  simp only [gateTarget, setGateTarget]
  interval_cases i <;> simp

theorem setGateTarget_gateTarget (target : Addr) (gate : IdtGate) :
    setGateTarget (gateTarget gate) (setGateTarget target gate) = gate := by
  have hlow : (gateTarget gate &&& 0xffff).setWidth 16 = gate.offsetLow := by
    apply BitVec.eq_of_getLsbD_eq
    intro i hi
    simp only [gateTarget]
    interval_cases i <;> simp
  have hhigh : (gateTarget gate >>> 16).setWidth 16 = gate.offsetHigh := by
    apply BitVec.eq_of_getLsbD_eq
    intro i hi
    simp only [gateTarget]
    interval_cases i <;> simp
  simp only [setGateTarget, hlow, hhigh]

/-! ## The state -/

/-- The hooks and the globals the trap code does not touch. `text` is the code of the
kernel and of the driver; the pool lies apart from it. -/
structure Control where
  gate : IdtGate
  text : Mem
  cr4 : BitVec 32
  fxImageRaw : Addr
  kernelNmResume : Addr
  swapTrampoline : Addr
  nmHooked : Bool
  swapHooked : Bool
  trampoline : Addr
  swapOriginal : Fin detourLen → Byte
  features : BitVec 32
  buffersBuilt : ℕ
  sseEnabled : Bool
  -- the dump data handed to `LogResult` and `LogData`, oldest first
  log : List (List (BitVec 32))

structure System where
  trap : Trap
  ctl : Control

def System.setCtl (f : Control → Control) (s : System) : System := { s with ctl := f s.ctl }

def System.setTrap (f : Trap → Trap) (s : System) : System := { s with trap := f s.trap }

inductive Interrupt
  -- A #NM taken while thread `t` is current
  | nm (t : Thread)
  -- A context switch
  | swap
  -- other code has used the FPU, the SSE registers or CR0
  | others (fx : FxState) (cr0 : BitVec 32)

inductive Point
  | imageReady | resumeSet | gateSet | nmHooked
  | swapRefused
  | trampolineAllocated | displacedCopied | trampolineBuilt | swapTrampolineSet | swapPatched | swapHooked
  | cr4Set | sseEnabled
  | running
  | swapRestored | swapUnhooked | trampolineFreed
  | gateRestored | nmUnhooked
  | imageFreed | cr4Cleared | reclaimed

/-- What the registry holds under `ForceNpxEmulation`. -/
structure RegistryValue where
  type : BitVec 32
  dataLength : BitVec 32
  data : BitVec 32

/-- Everything a load depends on. The driver image has just been loaded, so neither the
gate nor `SwapContext` leads into it yet. -/
structure Env where
  nmHandler : Addr
  swapDetour : Addr
  gate : IdtGate
  text : Mem
  cr4 : BitVec 32
  -- pool memory as the driver finds it
  pool : Data
  fx : FxState
  cr0 : BitVec 32
  keyOpens : Bool
  forceNpxEmulation : Option RegistryValue
  hasCpuid : Bool
  cpuidEdx : BitVec 32
  -- whether `IoAllocateErrorLogEntry` returns a packet
  logPacket : Bool
  -- the thread `DriverEntry` runs in
  self : Thread
  sched : Point → List Interrupt
  clean : pool.heap.bugcheck = false
  unhooked : gateTarget gate ≠ nmHandler
  unpatched : ¬ IsJmp text swapContextVa swapDetour

variable (E : Env)

/-- The interrupt is served by the hooks that are in place. -/
def serve (s : System) : Interrupt → System
  | .nm t => if gateTarget s.ctl.gate = E.nmHandler then s.setTrap (nmHandler t) else s
  | .swap => if IsJmp s.ctl.text swapContextVa E.swapDetour then s.setTrap swapDetour else s
  | .others fx cr0 => s.setTrap fun t => { t with fx := fx, cr0 := cr0 }

section Serving

variable {E} {s : System}

theorem serve_nm (u : Thread) : serve E s (.nm u) =
    if gateTarget s.ctl.gate = E.nmHandler then s.setTrap (nmHandler u) else s := rfl

theorem serve_swap : serve E s .swap =
    if IsJmp s.ctl.text swapContextVa E.swapDetour then s.setTrap swapDetour else s := rfl

@[simp] theorem serve_ctl (i : Interrupt) : (serve E s i).ctl = s.ctl := by
  cases i with
  | nm u =>
    rw [serve_nm]
    split
    · rfl
    · rfl
  | swap =>
    rw [serve_swap]
    split
    · rfl
    · rfl
  | others fx cr0 => rfl

end Serving

def interrupts (p : Point) : Prog System Unit := point (serve E) (E.sched p)

/-! ## The #NM hook -/

/-- How many of the first `NM_PROLOGUE_LEN` bytes at `a` and `b` agree. -/
def matchedLen (m : Mem) (a b : Addr) : ℕ :=
  ((List.range nmPrologueLen).takeWhile fun i => m (off a i) = m (off b i)).length

/-- Returns the result, `*LiveHandler` and `*Matched`. -/
def installNmHook : Prog System (Bool × Addr × ℕ) := do
  let live ← read fun s => gateTarget s.ctl.gate
  let matched ← read fun s => matchedLen s.ctl.text live E.nmHandler
  if matched ≠ nmPrologueLen then pure (false, live, matched)
  else do
    write (System.setCtl fun c => { c with kernelNmResume := off live nmPrologueLen })
    interrupts E .resumeSet
    write (System.setCtl fun c => { c with gate := setGateTarget E.nmHandler c.gate })
    interrupts E .gateSet
    write (System.setCtl fun c => { c with nmHooked := true })
    interrupts E .nmHooked
    pure (true, live, matched)

def removeNmHook : Prog System Unit := do
  let hooked ← read fun s => s.ctl.nmHooked
  if hooked then do
    write (System.setCtl fun c =>
      { c with gate := setGateTarget (c.kernelNmResume - BitVec.ofNat 32 nmPrologueLen) c.gate })
    interrupts E .gateRestored
    write (System.setCtl fun c => { c with nmHooked := false })
    interrupts E .nmUnhooked
  else pure ()

/-! ## The `SwapContext` hook -/

/-- `*Mismatch`: 1-based, 0 means that `SwapContext` begins with the expected bytes. -/
def swapMismatch (text : Mem) : ℕ :=
  match (List.finRange detourLen).find? fun (i : Fin detourLen) =>
    text (off swapContextVa i) ≠ swapExpected i with
  | none => 0
  | some i => i.val + 1

/-- `g_Trampoline = ExAllocatePoolWithTag(..)` -/
def allocTrampoline (s : System) : Addr × System :=
  let (p, heap) := s.trap.data.heap.alloc (detourLen + 5)
  (p, { trap := { s.trap with data := { s.trap.data with heap := heap } }
        ctl := { s.ctl with trampoline := p } })

/-- The loop that saves the displaced bytes, in the trampoline and in `g_SwapOriginal`. -/
def copyDisplaced (s : System) : System :=
  let displaced : Fin detourLen → Byte := fun i => s.ctl.text (off swapContextVa i)
  { trap := s.trap.withMem (storeBytes s.ctl.trampoline detourLen displaced)
    ctl := { s.ctl with swapOriginal := displaced } }

def installSwapHook : Prog System (Bool × ℕ) := do
  let mismatch ← read fun s => swapMismatch s.ctl.text
  if mismatch ≠ 0 then pure (false, mismatch)
  else do
    let trampoline ← call allocTrampoline
    if trampoline = 0 then pure (false, 0)
    else do
      interrupts E .trampolineAllocated
      write copyDisplaced
      interrupts E .displacedCopied
      -- `E9 rel32` back to `SwapContext + 5`
      write (System.setTrap
        (Trap.withMem (writeJmp (off trampoline detourLen) (off swapContextVa detourLen))))
      interrupts E .trampolineBuilt
      write (System.setCtl fun c => { c with swapTrampoline := c.trampoline })
      interrupts E .swapTrampolineSet
      -- under `cli`
      write (System.setCtl fun c => { c with text := writeJmp swapContextVa E.swapDetour c.text })
      interrupts E .swapPatched
      write (System.setCtl fun c => { c with swapHooked := true })
      interrupts E .swapHooked
      pure (true, 0)

/-- `ExFreePool(g_Trampoline); g_Trampoline = NULL` -/
def freeTrampoline (s : System) : System :=
  { trap :=
      { s.trap with data := { s.trap.data with heap := s.trap.data.heap.free s.ctl.trampoline } }
    ctl := { s.ctl with trampoline := 0 } }

def removeSwapHook : Prog System Unit := do
  let hooked ← read fun s => s.ctl.swapHooked
  if hooked then do
    -- under `cli`
    write (System.setCtl fun c =>
      { c with text := storeBytes swapContextVa detourLen c.swapOriginal c.text })
    interrupts E .swapRestored
    write (System.setCtl fun c => { c with swapHooked := false })
    interrupts E .swapUnhooked
  else pure ()
  let trampoline ← read fun s => s.ctl.trampoline
  if trampoline ≠ 0 then do
    write freeTrampoline
    interrupts E .trampolineFreed
  else pure ()

/-! ## CR4 -/

/-- Returns `*Cr4Before` and `*Cr4After`. `LDMXCSR` comes last. -/
def enableSseThisCpu : Prog System (BitVec 32 × BitVec 32) := do
  let before ← read fun s => s.ctl.cr4
  write (System.setCtl fun c => { c with cr4 := c.cr4 ||| cr4Osfxsr })
  interrupts E .cr4Set
  let after ← read fun s => s.ctl.cr4
  -- LDMXCSR; with TS set it takes a #NM first, the last interrupt at `.cr4Set`: `.nm E.self`
  write (System.setTrap fun t =>
    { t with fx := { t.fx with sse := { t.fx.sse with mxcsr := defaultMxcsr } } })
  pure (before, after)

def disableSseThisCpu : Prog System Unit := do
  write (System.setCtl fun c => { c with cr4 := c.cr4 &&& cr4OsfxsrClear })
  interrupts E .cr4Cleared

end Nt351.Driver
