import Nt351Sse.Base.Heap
import Nt351Sse.Base.Chain

/-! The buffer pool of `nt351sse.c`: a free list threaded through the nodes
themselves, and the save area each node owns. `Data` is the driver's data layer, that
is `g_FreeList`, `g_Table`, the nodes, and the pool memory they were allocated from. -/

namespace Nt351.Driver
open Memory

abbrev sseSaveSize : ℕ := 512
abbrev sseSaveAlign : ℕ := 16
abbrev defaultMxcsr : BitVec 32 := 0x1f80
abbrev xmmBytes : ℕ := 0x80
abbrev saveXmm : ℕ := 0x00
abbrev saveMxcsr : ℕ := 0x80
abbrev prefillBuffers : ℕ := 64
abbrev maxThreads : ℕ := 512
abbrev sizeofSseBuffer : ℕ := 12

instance : NeZero maxThreads := ⟨by decide⟩

structure SseBuffer where
  -- `Link.Next`
  link : Addr
  rawBase : Addr
  save : Addr

structure ThreadSlot where
  thread : Addr
  buffer : Addr
deriving DecidableEq

structure Data where
  -- `g_FreeList.Next`
  freeList : Addr
  table : Fin maxThreads → ThreadSlot
  node : Addr → SseBuffer
  mem : Mem
  heap : Heap

def exInterlockedPopEntryList (s : Data) : Addr × Data :=
  if s.freeList = 0 then (0, s) else (s.freeList, { s with freeList := (s.node s.freeList).link })

def exInterlockedPushEntryList (entry : Addr) (s : Data) : Data :=
  { s with
    node := Function.update s.node entry { s.node entry with link := s.freeList }
    freeList := entry }

def poolPop (s : Data) : Addr × Data := exInterlockedPopEntryList s

def poolPush (buffer : Addr) (s : Data) : Data := exInterlockedPushEntryList buffer s

/-- `(raw + (SSE_SAVE_ALIGN - 1)) & ~(SSE_SAVE_ALIGN - 1)` -/
def alignUp (raw : Addr) : Addr := (raw + 15#32) &&& ~~~15#32

def poolBuildOne (s : Data) : Bool × Data :=
  let (node, heap) := s.heap.alloc sizeofSseBuffer
  if node = 0 then (false, { s with heap := heap })
  else
    let (raw, heap) := heap.alloc (sseSaveSize + sseSaveAlign)
    if raw = 0 then (false, { s with heap := heap.free node })
    else
      let aligned := alignUp raw
      let mem := stosb aligned 0 s.mem sseSaveSize
      (true, poolPush node { s with
        heap := heap
        node := Function.update s.node node { s.node node with rawBase := raw, save := aligned }
        mem := writeDword (off aligned saveMxcsr) defaultMxcsr mem })

def drainNode (node : Addr) (s : Data) : Data :=
  let heap := if (s.node node).rawBase ≠ 0 then s.heap.free (s.node node).rawBase else s.heap
  { s with heap := heap.free node }

/-- The loop of `PoolDrain`. Freeing a pointer that heads no live block bugchecks, and
each other round frees a live block, so as many rounds as there are live blocks are
never used up. -/
def drainLoop : ℕ → Data → Data
  | 0, s => s
  | fuel + 1, s =>
    let (node, s) := poolPop s
    if node ≠ 0 ∧ s.heap.bugcheck = false then drainLoop fuel (drainNode node s) else s

def poolDrain (s : Data) : Data := drainLoop (s.heap.live.length + 1) s

/-! ## The save area of a raw block -/

theorem alignUp_toNat {raw : Addr} (h : raw.toNat + 15 < 2 ^ 32) :
    (alignUp raw).toNat = (raw.toNat + 15) / 16 * 16 := by
  have hm : alignUp raw = (raw + 15#32) >>> 4 <<< 4 := by
    unfold alignUp
    apply BitVec.eq_of_getLsbD_eq
    intro i hi
    interval_cases i <;> simp
  rw [hm, BitVec.toNat_shiftLeft, BitVec.toNat_ushiftRight, BitVec.toNat_add,
    Nat.shiftLeft_eq, Nat.shiftRight_eq_div_pow]
  have h15 : (15#32).toNat = 15 := rfl
  rw [h15]
  omega

def areaBlock (save : Addr) : Block := ⟨save, sseSaveSize⟩

def rawBlock (raw : Addr) : Block := ⟨raw, sseSaveSize + sseSaveAlign⟩

def nodeBlock (node : Addr) : Block := ⟨node, sizeofSseBuffer⟩

theorem areaBlock_within {raw : Addr} (h : (rawBlock raw).Fits) :
    (areaBlock (alignUp raw)).Within (rawBlock raw) := by
  simp only [Block.Fits, rawBlock, sseSaveSize, sseSaveAlign] at h
  have ha := alignUp_toNat (show raw.toNat + 15 < 2 ^ 32 by omega)
  simp only [Block.Within, areaBlock, rawBlock, sseSaveSize, sseSaveAlign, ha]
  omega

theorem alignUp_ne_zero {raw : Addr} (h : (rawBlock raw).Fits) (h0 : raw ≠ 0) :
    alignUp raw ≠ 0 := by
  simp only [Block.Fits, rawBlock, sseSaveSize, sseSaveAlign] at h
  have ha := alignUp_toNat (show raw.toNat + 15 < 2 ^ 32 by omega)
  intro hz
  have hn : raw.toNat ≠ 0 := fun hn => h0 (BitVec.eq_of_toNat_eq hn)
  rw [hz] at ha
  have h00 : (0 : Addr).toNat = 0 := rfl
  omega

theorem alignUp_aligned {raw : Addr} (h : (rawBlock raw).Fits) : (alignUp raw).toNat % 16 = 0 := by
  simp only [Block.Fits, rawBlock, sseSaveSize, sseSaveAlign] at h
  rw [alignUp_toNat (by omega)]
  omega

/-! ## Push and pop -/

@[simp] theorem poolPush_freeList (b : Addr) (s : Data) : (poolPush b s).freeList = b := rfl

@[simp] theorem poolPush_table (b : Addr) (s : Data) : (poolPush b s).table = s.table := rfl

@[simp] theorem poolPush_mem (b : Addr) (s : Data) : (poolPush b s).mem = s.mem := rfl

@[simp] theorem poolPush_heap (b : Addr) (s : Data) : (poolPush b s).heap = s.heap := rfl

@[simp] theorem poolPush_save (b p : Addr) (s : Data) :
    ((poolPush b s).node p).save = (s.node p).save := by
  by_cases h : p = b
  · simp [poolPush, exInterlockedPushEntryList, h]
  · simp [poolPush, exInterlockedPushEntryList, h]

@[simp] theorem poolPush_rawBase (b p : Addr) (s : Data) :
    ((poolPush b s).node p).rawBase = (s.node p).rawBase := by
  by_cases h : p = b
  · simp [poolPush, exInterlockedPushEntryList, h]
  · simp [poolPush, exInterlockedPushEntryList, h]

/-- `l` are the nodes reached from `g_FreeList.Next`, in order. -/
def FreeNodes (s : Data) (l : List Addr) : Prop := Chain 0 (fun p => (s.node p).link) s.freeList l

theorem FreeNodes.push {s : Data} {l : List Addr} {b : Addr} (h : FreeNodes s l) (hb : b ≠ 0)
    (hl : b ∉ l) : FreeNodes (poolPush b s) (b :: l) := by
  refine Chain.push h hb hl ?_ fun c hc => ?_
  · simp [poolPush, exInterlockedPushEntryList]
  · simp only [poolPush, exInterlockedPushEntryList] at hc ⊢
    rw [Function.update_of_ne hc]

end Nt351.Driver
