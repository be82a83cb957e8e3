import Nt351Sse.Driver.Fxsave
import Nt351Sse.Driver.Table

/-! `NmHandler` and `SwapDetour` of `nt351sse.c`, as state transformers from the trap (or
the switch) to the jump into the kernel's own code. Both run with interrupts off. The
registers they save and restore around their work are not modelled here. -/

namespace Nt351.Driver
open Memory Probing

structure Trap where
  data : Data
  fxImage : Addr
  fxOwner : Addr
  nmCount : BitVec 32
  swapFlushes : BitVec 32
  fx : FxState
  cr0 : BitVec 32

def Trap.withMem (f : Mem → Mem) (s : Trap) : Trap :=
  { s with data := { s.data with mem := f s.data.mem } }

/-- `and eax, 0xfffffff1`: TS, EM and MP are cleared. -/
def cr0Clear (cr0 : BitVec 32) : BitVec 32 := cr0 &&& 0xfffffff1

/-- `fxsave [esi]`, then MXCSR and XMM from the image to the owner's area, if there is one. -/
def flushOwner (s : Trap) : Trap :=
  let s := s.withMem (fxsave s.fxImage s.fx)
  if s.fxOwner = 0 then s else s.withMem (copySse fxiLayout saveLayout s.fxImage s.fxOwner)

/-- From `nm_load` to `nm_restore`: the image gets the thread's state, or `nm_defaults`. -/
def nmLoad (thread : Addr) (s : Trap) : Trap :=
  let (eax, data) := trapLookupSaveArea thread s.data
  let s := { s with data := data, fxOwner := eax }
  if eax = 0 then s.withMem (copyDefaults s.fxImage)
  else s.withMem (copySse saveLayout fxiLayout eax s.fxImage)

/-- `nm_restore` -/
def nmRestore (s : Trap) : Trap := { s with fx := fxrstor s.fxImage s.data.mem s.fx }

/-- `thread` is the current thread. EBP keeps CR0 across the work. -/
def nmHandler (thread : Addr) (s : Trap) : Trap :=
  let ebp := s.cr0
  let s := { s with cr0 := cr0Clear s.cr0, nmCount := s.nmCount + 1 }
  let s := if s.fxImage = 0 then s else nmRestore (nmLoad thread (flushOwner s))
  { s with cr0 := ebp }

def swapDetour (s : Trap) : Trap :=
  if s.fxImage = 0 then s
  else if s.fxOwner = 0 then s
  else
    let ebx := s.cr0
    let s := flushOwner { s with cr0 := cr0Clear s.cr0 }
    { s with fxOwner := 0, swapFlushes := s.swapFlushes + 1, cr0 := ebx }

section Fields

variable (f : Mem → Mem) (s : Trap)

@[simp] theorem withMem_mem : (s.withMem f).data.mem = f s.data.mem := rfl

@[simp] theorem withMem_fxImage : (s.withMem f).fxImage = s.fxImage := rfl

@[simp] theorem withMem_fxOwner : (s.withMem f).fxOwner = s.fxOwner := rfl

@[simp] theorem withMem_fx : (s.withMem f).fx = s.fx := rfl

end Fields

/-! ## The memory after a flush -/

def flushedMem (s : Trap) : Mem :=
  if s.fxOwner = 0 then s.data.mem else storeSse saveLayout s.fxOwner s.fx.sse s.data.mem

structure Apart (s : Trap) : Prop where
  image : (areaBlock s.fxImage).Fits
  owner : s.fxOwner ≠ 0 →
    (areaBlock s.fxOwner).Fits ∧ (areaBlock s.fxImage).Disjoint (areaBlock s.fxOwner)

variable {s : Trap} {a p thread : Addr} {m m' : Mem} {L : SseLayout} {v : Sse}

theorem storeSse_congr (h : m a = m' a) : storeSse L p v m a = storeSse L p v m' a := by
  unfold storeSse
  rw [h]

theorem flushOwner_eq (s : Trap) : flushOwner s = s.withMem fun m =>
    if s.fxOwner = 0 then fxsave s.fxImage s.fx m
    else copySse fxiLayout saveLayout s.fxImage s.fxOwner (fxsave s.fxImage s.fx m) := by
  unfold flushOwner
  by_cases ho : s.fxOwner = 0
  · simp only [withMem_fxOwner, ho, if_true]
  · simp only [withMem_fxOwner, ho, if_false]
    rfl

theorem flushOwner_mem (h : Apart s) (ha : ¬ (areaBlock s.fxImage).Covers a) :
    (flushOwner s).data.mem a = flushedMem s a := by
  rw [flushOwner_eq, withMem_mem, flushedMem]
  by_cases ho : s.fxOwner = 0
  · simp only [ho, if_true]
    exact fxsave_outside h.image ha
  · obtain ⟨hfit, hdisj⟩ := h.owner ho
    simp only [ho, if_false]
    -- the copy reads back from the image what `fxsave` stored there
    rw [copySse_eq_storeSse h.image hfit hdisj, sseAt_fxsave]
    exact storeSse_congr (fxsave_outside h.image ha)

theorem flushOwner_imageX87 (h : Apart s) :
    imageX87 (flushOwner s).data.mem s.fxImage = s.fx.x87 := by
  rw [flushOwner_eq, withMem_mem]
  by_cases ho : s.fxOwner = 0
  · simp only [ho, if_true]
    exact imageX87_fxsave
  · obtain ⟨hfit, hdisj⟩ := h.owner ho
    simp only [ho, if_false]
    rw [copySse_eq_storeSse h.image hfit hdisj]
    refine Eq.trans (imageX87_congr fun j hj => storeSse_outside hfit ?_) imageX87_fxsave
    exact hdisj.not_covers (h.image.covers_off hj)

/-! ## The lookup does not depend on pool memory -/

theorem trapLookupSaveArea_mem (d : Data) (m : Mem) :
    trapLookupSaveArea thread { d with mem := m } = ((trapLookupSaveArea thread d).1,
      { (trapLookupSaveArea thread d).2 with mem := m }) := by
  cases hp : tableProbe d.table thread with
  | none => simp only [trapLookupSaveArea, hp]
  | some idx =>
    by_cases ht : (d.table idx).thread = thread
    · simp only [trapLookupSaveArea, hp, ht, if_true]
    · by_cases hf : d.freeList = 0
      · simp only [trapLookupSaveArea, hp, ht, hf, if_true, if_false]
      · simp only [trapLookupSaveArea, hp, ht, hf, if_false]

theorem Lookup.mem {d d' : Data} {t b : Addr} (h : Lookup d t b d') : d'.mem = d.mem := by
  cases h <;> rfl

/-! ## What a #NM leaves -/

def nmMem (s : Trap) (area : Addr) : Mem :=
  if area = 0 then copyDefaults s.fxImage (flushOwner s).data.mem
  else copySse saveLayout fxiLayout area s.fxImage (flushOwner s).data.mem

theorem flushOwner_data (s : Trap) (cr0 nmCount : BitVec 32) :
    flushOwner { s with cr0 := cr0, nmCount := nmCount } = { s with
      cr0 := cr0, nmCount := nmCount, data := { s.data with mem := (flushOwner s).data.mem } } := by
  rw [flushOwner_eq, flushOwner_eq]
  rfl

theorem nmLoad_eq {s : Trap} {area : Addr} {d : Data} {m : Mem}
    (hlook : trapLookupSaveArea thread s.data = (area, { d with mem := m })) :
    nmLoad thread s = { s with
      data := { d with
        mem := if area = 0 then copyDefaults s.fxImage m
          else copySse saveLayout fxiLayout area s.fxImage m }
      fxOwner := area } := by
  unfold nmLoad
  rw [hlook]
  by_cases ha : area = 0
  · simp only [ha, if_true]
    rfl
  · simp only [ha, if_false]
    rfl

theorem nmHandler_eq (h0 : s.fxImage ≠ 0) {area : Addr} {d : Data}
    (hlook : trapLookupSaveArea thread s.data = (area, d)) :
    nmHandler thread s = { s with
      data := { d with mem := nmMem s area }
      fxOwner := area
      nmCount := s.nmCount + 1
      fx := fxrstor s.fxImage (nmMem s area) s.fx } := by
  have hflush := flushOwner_data s (cr0Clear s.cr0) (s.nmCount + 1)
  unfold nmMem
  generalize (flushOwner s).data.mem = m at hflush
  have hlook' : trapLookupSaveArea thread { s.data with mem := m } =
    (area, { d with mem := m }) := by
    rw [trapLookupSaveArea_mem, hlook]
  generalize hm' : (if area = 0 then copyDefaults s.fxImage m
    else copySse saveLayout fxiLayout area s.fxImage m) = m'
  have hload := nmLoad_eq (s := { s with
    cr0 := cr0Clear s.cr0, nmCount := s.nmCount + 1, data := { s.data with mem := m } })
    hlook'
  rw [hm'] at hload
  simp only [nmHandler, h0, if_false]
  rw [hflush, hload]
  rfl

theorem nmHandler_noImage (h0 : s.fxImage = 0) :
    nmHandler thread s = { s with nmCount := s.nmCount + 1 } := by
  simp only [nmHandler, h0, if_true]

/-- The state a trap loads for a save area; no area stands for the default. -/
def loadedSse (m : Mem) (area : Addr) : Sse :=
  if area = 0 then .default else sseAt saveLayout m area

def AreaApart (s : Trap) (area : Addr) : Prop :=
  area ≠ 0 → (areaBlock area).Fits ∧ (areaBlock s.fxImage).Disjoint (areaBlock area)

/-- What one #NM does, memory inside the image aside. -/
structure NmSpec (s s' : Trap) (area : Addr) (d : Data) : Prop where
  data : s'.data = { d with mem := s'.data.mem }
  mem : ∀ a, ¬ (areaBlock s.fxImage).Covers a → s'.data.mem a = flushedMem s a
  owner : s'.fxOwner = area
  x87 : s'.fx.x87 = s.fx.x87
  sse : s'.fx.sse = loadedSse (flushedMem s) area
  mask : s'.fx.mask = s.fx.mask
  image : s'.fxImage = s.fxImage
  cr0 : s'.cr0 = s.cr0

theorem nmMem_eq (h : Apart s) {area : Addr} (harea : AreaApart s area) :
    nmMem s area = storeSse fxiLayout s.fxImage (loadedSse (flushedMem s) area)
      (flushOwner s).data.mem := by
  unfold nmMem loadedSse
  by_cases ha : area = 0
  · rw [if_pos ha, if_pos ha, copyDefaults_eq_storeSse h.image]
  · obtain ⟨hfit, hdisj⟩ := harea ha
    -- the flush may just have written this area, if the thread is the owner
    have hsse : sseAt saveLayout (flushOwner s).data.mem area =
      sseAt saveLayout (flushedMem s) area :=
      sseAt_congr fun j hj => flushOwner_mem h (hdisj.symm.not_covers (hfit.covers_off hj))
    rw [if_neg ha, if_neg ha, copySse_eq_storeSse hfit h.image hdisj.symm, hsse]

theorem nmHandler_spec (h0 : s.fxImage ≠ 0) (h : Apart s)
    (harea : AreaApart s (trapLookupSaveArea thread s.data).1) :
    NmSpec s (nmHandler thread s) (trapLookupSaveArea thread s.data).1
      (trapLookupSaveArea thread s.data).2 := by
  rcases hlook : trapLookupSaveArea thread s.data with ⟨area, d⟩
  rw [hlook] at harea
  rw [nmHandler_eq h0 hlook]
  have hmem := nmMem_eq h harea
  refine ⟨rfl, fun a ha => ?_, rfl, ?_, ?_, rfl, rfl, rfl⟩
  · change nmMem s area a = flushedMem s a
    rw [hmem, storeSse_outside h.image ha]
    exact flushOwner_mem h ha
  · change imageX87 (nmMem s area) s.fxImage = s.fx.x87
    rw [hmem, imageX87_storeSse]
    exact flushOwner_imageX87 h
  · change sseAt fxiLayout (nmMem s area) s.fxImage = _
    rw [hmem, sseAt_storeSse]

/-- What the detour does, memory inside the image aside. -/
structure SwapSpec (s s' : Trap) : Prop where
  data : s'.data = { s.data with mem := s'.data.mem }
  mem : ∀ a, ¬ (areaBlock s.fxImage).Covers a → s'.data.mem a = flushedMem s a
  owner : s'.fxOwner = 0
  fx : s'.fx = s.fx
  image : s'.fxImage = s.fxImage
  cr0 : s'.cr0 = s.cr0

theorem swapDetour_data (s : Trap) : ∃ m, (swapDetour s).data = { s.data with mem := m } := by
  unfold swapDetour
  split
  · exact ⟨s.data.mem, rfl⟩
  · split
    · exact ⟨s.data.mem, rfl⟩
    · rw [flushOwner_eq]
      exact ⟨_, rfl⟩

theorem swapDetour_fxImage (s : Trap) : (swapDetour s).fxImage = s.fxImage := by
  unfold swapDetour
  split
  · rfl
  · split
    · rfl
    · rw [flushOwner_eq]
      rfl

theorem swapDetour_spec (h0 : s.fxImage ≠ 0) (h : Apart s) : SwapSpec s (swapDetour s) := by
  unfold swapDetour
  rw [if_neg h0]
  by_cases ho : s.fxOwner = 0
  · rw [if_pos ho]
    refine ⟨rfl, fun a _ => ?_, ho, rfl, rfl, rfl⟩
    rw [flushedMem, if_pos ho]
  · rw [if_neg ho]
    have h₁ : Apart { s with cr0 := cr0Clear s.cr0 } := ⟨h.image, h.owner⟩
    refine ⟨?_, fun a ha => flushOwner_mem h₁ ha, rfl, ?_, ?_, rfl⟩
    · rw [flushOwner_eq]
      rfl
    · rw [flushOwner_eq]
      rfl
    · rw [flushOwner_eq]
      rfl

end Nt351.Driver
