import Nt351Sse.Base.X86Frame
import Nt351Sse.Driver.Trap

/-! The two naked routines of `nt351sse.c`, instruction by instruction. FXSAVE and FXRSTOR do
not fault in them: both come after `clearTs`, which clears TS and EM, and their operand is the
image, which `alignUp` has put at a multiple of 16. -/

namespace Nt351.Driver
open Memory X86

/-- The addresses of the variables the assembly names; no two of them overlap. -/
structure Globals where
  fxImage : Addr
  fxOwner : Addr
  nmCount : Addr
  swapFlushes : Addr
  kernelNmResume : Addr
  swapTrampoline : Addr
  apart : [fxImage, fxOwner, nmCount, swapFlushes, kernelNmResume, swapTrampoline].Pairwise Separate

/-- The variables the routines store to or test. -/
def Globals.vars (G : Globals) : List Addr := [G.fxImage, G.fxOwner, G.nmCount, G.swapFlushes]

section Vars

variable (G : Globals)

theorem Globals.fxImage_mem : G.fxImage ∈ G.vars := List.mem_cons_self

theorem Globals.fxOwner_mem : G.fxOwner ∈ G.vars := List.mem_cons_of_mem _ List.mem_cons_self

theorem Globals.nmCount_mem : G.nmCount ∈ G.vars :=
  List.mem_cons_of_mem _ (List.mem_cons_of_mem _ List.mem_cons_self)

theorem Globals.swapFlushes_mem : G.swapFlushes ∈ G.vars :=
  List.mem_cons_of_mem _ (List.mem_cons_of_mem _ (List.mem_cons_of_mem _ List.mem_cons_self))

theorem Globals.vars_apart : G.vars.Pairwise Separate :=
  G.apart.sublist (List.sublist_append_left G.vars [G.kernelNmResume, G.swapTrampoline])

/-- A store to one variable leaves the others alone. -/
theorem Globals.frame {p q v : BitVec 32} {m : Mem} (hp : p ∈ G.vars) (hq : q ∈ G.vars) (hne : q ≠
    p) :
    readDword (writeDword p v m) q = readDword m q := (G.vars_apart.forall hq hp hne).readDword

theorem Globals.read_store {p q v : BitVec 32} {m : Mem} (hp : p ∈ G.vars) (hq : q ∈ G.vars) :
    readDword (writeDword p v m) q = if q = p then v else readDword m q := by
  by_cases h : q = p
  · subst h
    rw [if_pos rfl, readDword_writeDword]
  · rw [if_neg h, G.frame hp hq h]

theorem Globals.distinct :
    G.fxImage ≠ G.fxOwner ∧ G.fxImage ≠ G.nmCount ∧ G.fxImage ≠ G.swapFlushes ∧
      G.fxOwner ≠ G.nmCount ∧ G.fxOwner ≠ G.swapFlushes ∧ G.nmCount ≠ G.swapFlushes := by
  have h : G.vars.Nodup := G.vars_apart.imp Separate.ne
  simp only [Globals.vars, List.nodup_cons, List.mem_cons, List.not_mem_nil, or_false, not_or] at h
  exact ⟨h.1.1, h.1.2.1, h.1.2.2, h.2.1.1, h.2.1.2, h.2.2.1⟩

end Vars

inductive Target
  | nmLoad | nmDefaults | nmRestore | nmResume | swapDone
deriving DecidableEq

inductive Routine
  | trapLookupSaveArea

/-- What the routines meet outside their own text. -/
structure Surroundings where
  fsBase : BitVec 16 → Addr
  trapLookupSaveArea : State FxState → State FxState
  ret : Addr

def Surroundings.machine (K : Surroundings) : X86.Machine FxState Routine where
  fxsave := fxsave
  fxrstor := fxrstor
  fsBase := K.fsBase
  callee | .trapLookupSaveArea => K.trapLookupSaveArea
  ret := K.ret

def code (ops : List Op) : List (Instr Target Routine) := ops.map .op

/-! ## `NmHandler` -/

/-- The verbatim copy of the kernel's prologue. -/
def nmPrologue : List Op :=
  [.pushImm 0, .storeImm16 (.field .esp 2) 0, .push .ebp, .push .ebx, .push .esi, .push .edi,
    .pushSeg .fs,
    .movImm .ebx 0x30, .movSeg .fs .ebx, .loadFs .ebx 0, .push .ebx, .sub .esp 4, .push .eax,
    .push .ecx, .push .edx,
    .pushSeg .ds, .pushSeg .es, .pushSeg .gs, .movImm16 .eax 0x23, .sub .esp 0x30, .movSeg .ds .eax,
    .movSeg .es .eax]

/-- TS, EM and MP are cleared; `r` keeps CR0. -/
def clearTs (r : Gpr) : List Op :=
  [.movFromCr0 r, .mov .eax r, .and .eax 0xfffffff1, .movToCr0 .eax]

def flushMxcsr : List Op := [.load .eax (.field .esi fxiMxcsr), .store (.field .edi saveMxcsr) .eax]

def flushXmm : List Op :=
  [.add .esi (.ofNat 32 fxiXmm), .add .edi (.ofNat 32 saveXmm), .movImm .ecx (.ofNat 32 xmmBytes)]

def nmEnter (G : Globals) : List Op :=
  List.flatten [clearTs .ebp, [.cld, .incMem (.var G.nmCount)], testVar .esi G.fxImage]

def nmSnapshot (G : Globals) : List Op := .fxsave .esi :: testVar .edi G.fxOwner

def nmFlush : List Op := flushMxcsr ++ around .esi .edi (flushXmm.concat .repMovsb)

def areaMxcsr (G : Globals) : List Op :=
  [.store (.var G.fxOwner) .eax, .load .ecx (.field .eax saveMxcsr), .store
    (.field .esi fxiMxcsr) .ecx]

def areaXmm : List Op :=
  [.mov .edi .esi, .add .edi (.ofNat 32 fxiXmm), .mov .esi .eax, .add .esi
    (.ofNat 32 saveXmm), .movImm .ecx (.ofNat 32 xmmBytes)]

def nmArea (G : Globals) : List Op := areaMxcsr G ++ around .esi .edi (areaXmm.concat .repMovsb)

def defaultsMxcsr (G : Globals) : List Op :=
  [.storeImm (.var G.fxOwner) 0, .storeImm (.field .esi fxiMxcsr) defaultMxcsr]

def defaultsXmm : List Op :=
  [.mov .edi .esi, .add .edi (.ofNat 32 fxiXmm), .movImm .ecx (.ofNat 32 xmmBytes), .xor .eax .eax]

def nmDefaults (G : Globals) : List Op :=
  defaultsMxcsr G ++ around .esi .edi (defaultsXmm.concat .repStosb)

/-- From the label `nm_load` to the jump into the kernel. -/
def nmLoadCode (G : Globals) : List (Instr Target Routine) := List.flatten
  [[.op (.push .esi), .call .trapLookupSaveArea], code [.pop .esi, .or .eax .eax],
    [.jz .nmDefaults],
    code (nmArea G), [.jmp .nmRestore],
    [.label .nmDefaults], code (nmDefaults G),
    [.label .nmRestore, .op (.fxrstor .esi)],
    [.label .nmResume, .op (.movToCr0 .ebp), .jmpMem (.var G.kernelNmResume)]]

def nmHandlerCode (G : Globals) : List (Instr Target Routine) := List.flatten
  [code nmPrologue, code (nmEnter G), [.jz .nmResume], code (nmSnapshot G), [.jz .nmLoad],
    code nmFlush,
    [.label .nmLoad], nmLoadCode G]

/-! ## `SwapDetour` -/

def swapEnter : List Op := [.pushfd, .cli, .pushad]

/-- The same copy as in `NmHandler`, after a `cld` of its own. -/
def swapXmm : List Op := (flushXmm.concat .cld).concat .repMovsb

def swapFlush (G : Globals) : List Op := List.flatten
  [clearTs .ebx, [.fxsave .esi], flushMxcsr, swapXmm,
    [.storeImm (.var G.fxOwner) 0, .incMem (.var G.swapFlushes), .movToCr0 .ebx]]

def swapDetourCode (G : Globals) : List (Instr Target Routine) := List.flatten
  [code swapEnter, code (testVar .esi G.fxImage), [.jz .swapDone], code (testVar .edi G.fxOwner),
    [.jz .swapDone],
    code (swapFlush G), [.label .swapDone], code [.popad, .popfd],
    [.jmpMem (.var G.swapTrampoline)]]

/-! ## The paths -/

section Paths

variable (K : Surroundings) (G : Globals) (s : State FxState)

/-- What the prologue alone produces. -/
def afterPrologue : State FxState := steps K.machine s nmPrologue

/-- From `nm_load` to the test of EAX. -/
def nmCall : State FxState :=
  steps K.machine (K.trapLookupSaveArea ((steps K.machine s [.push .esi]).push K.ret))
    [.pop .esi, .or .eax .eax]

/-- From `nm_load` to the jump. -/
def nmLoaded : State FxState :=
  let s := nmCall K s
  steps K.machine (steps K.machine s (if s.flags.zf then nmDefaults G else nmArea G))
  [.fxrstor .esi, .movToCr0 .ebp]

theorem run_nmLoadCode : run K.machine (nmLoadCode G) s = some (nmLoaded K G s) := by
  simp only [nmLoadCode, code, List.flatten_cons, List.flatten_nil, List.append_nil,
    List.cons_append,
    List.nil_append, run_ops, run, after_ops, after, reduceCtorEq, if_true, if_false]
  show (if (nmCall K s).flags.zf = true then _ else _) = _
  simp only [nmLoaded]
  split_ifs
  · rfl
  · rfl

/-- From the prologue's end to the jump. -/
def nmWork : State FxState :=
  let s := steps K.machine s (nmEnter G)
  if s.flags.zf then steps K.machine s [.movToCr0 .ebp]
  else
    let s := steps K.machine s (nmSnapshot G)
    nmLoaded K G (if s.flags.zf then s else steps K.machine s nmFlush)

theorem after_nmLoadCode :
    after .nmResume (nmLoadCode G) = ([.op (.movToCr0 .ebp), .jmpMem (.var G.kernelNmResume)] : List
      (Instr Target Routine)) := by
  simp only [nmLoadCode, code, List.flatten_cons, List.flatten_nil, List.append_nil,
    List.cons_append,
    List.nil_append, after_ops, after, reduceCtorEq, if_true, if_false]

theorem run_nmHandler :
    run K.machine (nmHandlerCode G) s = some (nmWork K G (afterPrologue K s)) := by
  rw [afterPrologue]
  simp only [nmHandlerCode, code, List.flatten_cons, List.flatten_nil, List.append_nil,
    List.cons_append,
    List.nil_append, run_ops, run, after_ops, after, after_nmLoadCode, run_nmLoadCode, reduceCtorEq,
    if_true, if_false, nmWork]
  split_ifs
  · rfl
  · rfl
  · rfl

def swapWork : State FxState :=
  let s := steps K.machine s (testVar .esi G.fxImage)
  if s.flags.zf then s
  else
    let s := steps K.machine s (testVar .edi G.fxOwner)
    if s.flags.zf then s else steps K.machine s (swapFlush G)

theorem run_swapDetour : run K.machine (swapDetourCode G) s =
    some (steps K.machine (swapWork K G (steps K.machine s swapEnter)) [.popad, .popfd]) := by
  simp only [swapDetourCode, code, List.flatten_cons, List.flatten_nil, List.append_nil,
    List.cons_append,
    List.nil_append, run_ops, run, after_ops, after, if_true, swapWork]
  split_ifs
  · rfl
  · rfl
  · rfl

end Paths

end Nt351.Driver
