import Nt351Sse.Driver.Hooks

/-! `DriverEntry` and `DriverUnload` of `nt351sse.c`. Until the #NM hook goes in no
interrupt reaches the driver's state, so what comes before it is one step, `prepare`. -/

namespace Nt351.Driver
open Memory Probing Runs Preempt

inductive NtStatus
  | success
  | unsuccessful
  | insufficientResources
deriving DecidableEq

variable (E : Env)

def regDword : BitVec 32 := 4

/-- `sizeof(KEY_VALUE_PARTIAL_INFORMATION) + sizeof(ULONG)` -/
abbrev infoSize : ℕ := 20

def forceNpxEmulationSet (heap : Heap) : Bool × Heap :=
  if ¬ E.keyOpens then (false, heap)
  else
    let (info, heap) := heap.alloc infoSize
    if info = 0 then (false, heap)
    else
      let result := match E.forceNpxEmulation with
        | none => false
        | some v => decide (v.type = regDword ∧ v.dataLength = 4 ∧ v.data ≠ 0 ∧ v.data ≠ 1)
      (result, heap.free info)

/-- CPUID.1 EDX has FXSR (bit 24) and SSE (bit 25). -/
def hasFxsrSse (features : BitVec 32) : Bool := features.getLsbD 24 && features.getLsbD 25

/-- The self-test of the data layer. -/
def selfTest (self : Addr) (d : Data) : Data :=
  let (a, d) := tableLookupOrAssign self d
  let (b, d) := tableLookupOrAssign self d
  if a ≠ 0 ∧ a = b then
    let d := tableRelease self d
    let (c, d) := tableLookupOrAssign self d
    if c ≠ 0 then tableRelease self d else d
  else d

/-- `LogResult` and `LogData`; without a packet nothing is written. -/
def logData (dump : List (BitVec 32)) (s : System) : System :=
  s.setCtl fun c => { c with log := if E.logPacket then c.log ++ [dump] else c.log }

def System.setData (d : Data) (s : System) : System := s.setTrap fun t => { t with data := d }

/-- The state the driver is loaded in: its globals are zero. -/
def initial : System where
  trap :=
    { data := { E.pool with freeList := 0, table := fun _ => ⟨0, 0⟩ }
      fxImage := 0
      fxOwner := 0
      nmCount := 0
      swapFlushes := 0
      fx := E.fx
      cr0 := E.cr0 }
  ctl :=
    { gate := E.gate
      text := E.text
      cr4 := E.cr4
      fxImageRaw := 0
      kernelNmResume := 0
      swapTrampoline := 0
      nmHooked := false
      swapHooked := false
      trampoline := 0
      swapOriginal := fun _ => 0
      features := 0
      buffersBuilt := 0
      sseEnabled := false
      log := [] }

/-- The FXSAVE image: `none` once it is in place, else the status to return. -/
def prepareImage (s : System) : Option NtStatus × System :=
  let (raw, heap) := s.trap.data.heap.alloc (sseSaveSize + sseSaveAlign)
  let s := s.setData { s.trap.data with heap := heap }
  let s := s.setCtl fun c => { c with fxImageRaw := raw }
  if raw = 0 then
    let s := logData E [5] s
    (some .insufficientResources, s.setData (poolDrain s.trap.data))
  else
    let s := s.setTrap fun t => { t with fxImage := alignUp raw }
    let s := s.setTrap (Trap.withMem fun m => stosb (alignUp raw) 0 m sseSaveSize)
    (none, s.setTrap fun t => { t with fxOwner := 0 })

/-- `DriverEntry` up to the hooks: `none` to go on, else the status to return. -/
def prepare (s : System) : Option NtStatus × System :=
  let (force, heap) := forceNpxEmulationSet E s.trap.data.heap
  let s := s.setData { s.trap.data with heap := heap }
  if force then (some .unsuccessful, logData E [2] s)
  else if ¬ E.hasCpuid then (some .unsuccessful, logData E [3] s)
  else
    let s := s.setCtl fun c => { c with features := E.cpuidEdx }
    if ¬ hasFxsrSse s.ctl.features then (some .unsuccessful, logData E [1] s)
    else
      let (buffersBuilt, d) := prefill s.trap.data
      let s := (s.setData d).setCtl fun c => { c with buffersBuilt := buffersBuilt }
      if buffersBuilt = 0 then (some .insufficientResources, logData E [4] s)
      else prepareImage E (s.setData (selfTest E.self s.trap.data))

/-- `ExFreePool(g_FxImageRaw); g_FxImageRaw = NULL; g_FxImage = NULL` -/
def freeImage (s : System) : System where
  trap :=
    { s.trap with
      data := { s.trap.data with heap := s.trap.data.heap.free s.ctl.fxImageRaw }
      fxImage := 0 }
  ctl := { s.ctl with fxImageRaw := 0 }

def drain (s : System) : System := s.setData (poolDrain s.trap.data)

/-- The failure path of `InstallNmHook`. -/
def refuseNm (live : Addr) (matched : ℕ) : Prog System NtStatus := do
  write (logData E [6, live, BitVec.ofNat 32 matched])
  write freeImage
  write drain
  pure .unsuccessful

/-- The failure path of `InstallSwapHook`. -/
def refuseSwap (mismatch : ℕ) : Prog System NtStatus := do
  interrupts E .swapRefused
  write (logData E [7, swapContextVa, BitVec.ofNat 32 mismatch])
  removeNmHook E
  write freeImage
  write drain
  pure .unsuccessful

def enable : Prog System NtStatus := do
  let (before, after) ← enableSseThisCpu E
  write (System.setCtl fun c => { c with sseEnabled := decide (after &&& cr4Osfxsr ≠ 0) })
  interrupts E .sseEnabled
  write fun s => logData E [s.ctl.features, before, after] s
  pure .success

def driverEntry : Prog System NtStatus := do
  let refused ← call (prepare E)
  match refused with
  | some status => pure status
  | none => do
    interrupts E .imageReady
    let (ok, live, matched) ← installNmHook E
    if ok then do
      let (ok, mismatch) ← installSwapHook E
      if ok then enable E else refuseSwap E mismatch
    else refuseNm E live matched

/-! ## DriverUnload -/

/-- One round of the loop that reclaims the buffers held by the table. -/
def reclaimSlot (d : Data) (idx : Fin maxThreads) : Data :=
  if (d.table idx).thread ≠ 0 ∧ (d.table idx).buffer ≠ 0 then
    let d := poolPush (d.table idx).buffer d
    { d with table := Function.update d.table idx ⟨0, 0⟩ }
  else d

def reclaimTable (d : Data) : Data := (List.finRange maxThreads).foldl reclaimSlot d

def driverUnload : Prog System Unit := do
  removeSwapHook E
  removeNmHook E
  write (System.setTrap fun t => { t with fxOwner := 0 })
  let raw ← read fun s => s.ctl.fxImageRaw
  if raw ≠ 0 then do
    write freeImage
    interrupts E .imageFreed
  else pure ()
  let enabled ← read fun s => s.ctl.sseEnabled
  if enabled then do
    disableSseThisCpu E
    write (System.setCtl fun c => { c with sseEnabled := false })
  else pure ()
  -- the buffers the table still holds join the free list, which is then drained
  write fun s => s.setData (reclaimTable s.trap.data)
  interrupts E .reclaimed
  write drain

/-- The driver is loaded; if that succeeds it runs, and `unload` says whether it is then
unloaded. `DriverUnload` is not called after a failed load. -/
def lifetime (unload : Bool) : Prog System NtStatus := do
  let status ← driverEntry E
  if status = .success then do
    interrupts E .running
    if unload then do
      driverUnload E
      pure status
    else pure status
  else pure status

end Nt351.Driver
