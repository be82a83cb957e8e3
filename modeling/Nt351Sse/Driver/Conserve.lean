import Nt351Sse.Base.Runs
import Nt351Sse.Driver.Table

/-! Buffer conservation: every buffer `PoolBuildOne` completed is once on the free list
or in one slot of the table, whatever calls were made since. -/

namespace Nt351.Driver
open Memory Probing Runs

/-- A thread's KTHREAD pointer. -/
abbrev Thread := {t : Addr // t ≠ 0}

/-- An allocator that grants two buffers, refuses a third, and then grants one more block. -/
def twoBuffers : Data where
  freeList := 0
  table _ := ⟨0, 0⟩
  node _ := ⟨0, 0, 0⟩
  mem _ := 0
  heap := ⟨[], [0x81000000, 0x81001000, 0x81002000, 0x81003000, 0, 0x81004000], false, .nil⟩

/-- Threads whose KTHREAD pointers hash to one slot. -/
def threadA : Thread := ⟨0xff6a0010, by decide⟩

def threadB : Thread := ⟨0xff6a2010, by decide⟩

def threadC : Thread := ⟨0xff6a4010, by decide⟩

/-! ## Where the blocks of a buffer lie -/

structure Laid (s : Data) (b : Addr) : Prop where
  node : nodeBlock b ∈ s.heap.live
  raw : rawBlock (s.node b).rawBase ∈ s.heap.live
  save : (s.node b).save = alignUp (s.node b).rawBase

/-- The buffers `built` are laid out in their own blocks. -/
structure Built (s : Data) (built : List Addr) : Prop where
  nodup : built.Nodup
  laid : ∀ b ∈ built, Laid s b
  rawInj : ∀ b ∈ built, ∀ c ∈ built, (s.node b).rawBase = (s.node c).rawBase → b = c

/-- `s'` has the blocks and the node addresses of `s`. -/
def SameNodes (s s' : Data) : Prop :=
  s'.heap = s.heap ∧
    ∀ p, (s'.node p).rawBase = (s.node p).rawBase ∧ (s'.node p).save = (s.node p).save

theorem SameNodes.refl (s : Data) : SameNodes s s := ⟨rfl, fun _ => ⟨rfl, rfl⟩⟩

theorem SameNodes.trans {s s' s'' : Data} (h : SameNodes s s') (h' : SameNodes s' s'') :
    SameNodes s s'' :=
  ⟨h'.1.trans h.1, fun p => ⟨(h'.2 p).1.trans (h.2 p).1, (h'.2 p).2.trans (h.2 p).2⟩⟩

theorem Laid.congr {s s' : Data} {b : Addr} (h : Laid s b) (hs : SameNodes s s') : Laid s' b := by
  refine ⟨?_, ?_, ?_⟩
  · rw [hs.1]
    exact h.node
  · rw [hs.1, (hs.2 b).1]
    exact h.raw
  · rw [(hs.2 b).2, (hs.2 b).1]
    exact h.save

theorem Built.congr {s s' : Data} {built : List Addr} (h : Built s built) (hs : SameNodes s s') :
    Built s' built := by
  refine ⟨h.nodup, fun b hb => (h.laid b hb).congr hs, fun b hb c hc he => h.rawInj b hb c hc ?_⟩
  rwa [(hs.2 b).1, (hs.2 c).1] at he

theorem Laid.raw_fits {s : Data} {b : Addr} (h : Laid s b) : (rawBlock (s.node b).rawBase).Fits :=
  (s.heap.sound.valid _ h.raw).2.2

theorem Laid.ne_zero {s : Data} {b : Addr} (h : Laid s b) : b ≠ 0 := (s.heap.sound.valid _ h.node).1

theorem Laid.rawBase_ne_zero {s : Data} {b : Addr} (h : Laid s b) : (s.node b).rawBase ≠ 0 :=
  (s.heap.sound.valid _ h.raw).1

theorem Laid.area_within {s : Data} {b : Addr} (h : Laid s b) :
    (areaBlock (s.node b).save).Within (rawBlock (s.node b).rawBase) := by
  rw [h.save]
  exact areaBlock_within h.raw_fits

theorem Laid.area_fits {s : Data} {b : Addr} (h : Laid s b) : (areaBlock (s.node b).save).Fits :=
  h.area_within.fits h.raw_fits

theorem Laid.save_ne_zero {s : Data} {b : Addr} (h : Laid s b) : (s.node b).save ≠ 0 := by
  rw [h.save]
  exact alignUp_ne_zero h.raw_fits h.rawBase_ne_zero

theorem nodeBlock_ne_rawBlock (p q : Addr) : nodeBlock p ≠ rawBlock q := by
  intro h
  have hsize := congrArg Block.size h
  simp [nodeBlock, rawBlock, sizeofSseBuffer, sseSaveSize, sseSaveAlign] at hsize

theorem Built.area_disjoint {s : Data} {built : List Addr} (h : Built s built) {b c : Addr}
    (hb : b ∈ built) (hc : c ∈ built) (hbc : b ≠ c) :
    (areaBlock (s.node b).save).Disjoint (areaBlock (s.node c).save) := by
  have hraw : (rawBlock (s.node b).rawBase).Disjoint (rawBlock (s.node c).rawBase) := by
    refine (s.heap.sound.eq_or_disjoint (h.laid b hb).raw (h.laid c hc).raw).resolve_left fun he =>
      ?_
    exact hbc (h.rawInj b hb c hc (congrArg Block.base he))
  exact hraw.of_within (h.laid b hb).area_within (h.laid c hc).area_within

/-! ## Where the buffers are -/

/-- The buffers `built` are spread over the free list, which visits `free`, and the table. -/
structure Placed (s : Data) (built free : List Addr) : Prop where
  chain : FreeNodes s free
  slot : ∀ idx, (s.table idx).thread = 0 ↔ (s.table idx).buffer = 0
  inj : ∀ i j, (s.table i).buffer = (s.table j).buffer → (s.table i).buffer ≠ 0 → i = j
  apart : ∀ idx, (s.table idx).buffer ∉ free
  mem_built : ∀ b, b ∈ built ↔ b ∈ free ∨ b ≠ 0 ∧ ∃ idx, (s.table idx).buffer = b
  nodup : built.Nodup

variable {s s' : Data} {built free : List Addr} {idx : Fin maxThreads} {t b : Addr}

theorem Placed.head (h : Placed s built free) (hf : s.freeList ≠ 0) :
    ∃ fs, free = s.freeList :: fs ∧ Chain 0 (fun p => (s.node p).link) (s.node s.freeList).link
      fs :=
  Chain.pop h.chain hf

theorem Placed.claimHead (h : Placed s built free) (ht : t ≠ 0) (he : (s.table idx).thread = 0)
    (hf : s.freeList ≠ 0) : Placed (claimHead idx t s) built free.tail := by
  obtain ⟨fs, rfl, hchain⟩ := h.head hf
  have hnd := List.nodup_cons.mp (Chain.nodup h.chain)
  have hb : (s.table idx).buffer = 0 := (h.slot idx).mp he
  have hnot : ∀ i, (s.table i).buffer ≠ s.freeList := fun i hi =>
    h.apart i (hi ▸ List.mem_cons_self)
  refine ⟨hchain, fun i => ?_, fun i j hij hi => ?_, fun i => ?_, fun b => ?_, h.nodup⟩
  · by_cases hi : i = idx
    · subst hi
      rw [claimHead_table_self]
      exact iff_of_false ht hf
    · rw [claimHead_table_of_ne hi]
      exact h.slot i
  · by_cases hi' : i = idx <;> by_cases hj' : j = idx
    · exact hi'.trans hj'.symm
    · subst hi'
      rw [claimHead_table_self, claimHead_table_of_ne hj'] at hij
      exact absurd hij.symm (hnot j)
    · subst hj'
      rw [claimHead_table_self, claimHead_table_of_ne hi'] at hij
      exact absurd hij (hnot i)
    · rw [claimHead_table_of_ne hi'] at hij hi
      rw [claimHead_table_of_ne hj'] at hij
      exact h.inj i j hij hi
  · by_cases hi : i = idx
    · subst hi
      rw [claimHead_table_self]
      exact hnd.1
    · rw [claimHead_table_of_ne hi]
      exact fun hmem => h.apart i (List.mem_cons_of_mem _ hmem)
  · rw [h.mem_built b]
    simp only [List.mem_cons, List.tail_cons]
    constructor
    · rintro ((rfl | hb') | ⟨hb0, i, hi⟩)
      · exact .inr ⟨hf, idx, by rw [claimHead_table_self]⟩
      · exact .inl hb'
      · have hne : i ≠ idx := by
          rintro rfl
          exact hb0 (hi.symm.trans hb)
        exact .inr ⟨hb0, i, by rw [claimHead_table_of_ne hne, hi]⟩
    · rintro (hb' | ⟨hb0, i, hi⟩)
      · exact .inl (.inr hb')
      · by_cases hne : i = idx
        · subst hne
          rw [claimHead_table_self] at hi
          exact .inl (.inl hi.symm)
        · rw [claimHead_table_of_ne hne] at hi
          exact .inr ⟨hb0, i, hi⟩

theorem claimHead_sameNodes (idx : Fin maxThreads) (t : Addr) (s : Data) :
    SameNodes s (claimHead idx t s) := ⟨rfl, fun _ => ⟨rfl, rfl⟩⟩

theorem clearSlot_sameNodes (idx : Fin maxThreads) (s : Data) : SameNodes s (clearSlot idx s) := by
  refine ⟨rfl, fun p => ⟨?_, ?_⟩⟩
  · simp only [clearSlot, poolPush_rawBase]
  · simp only [clearSlot, poolPush_save]

theorem Placed.clearSlot (h : Placed s built free) (hb : (s.table idx).buffer ≠ 0) :
    Placed (clearSlot idx s) built ((s.table idx).buffer :: free) := by
  have hfree : FreeNodes { s with table := Function.update s.table idx ⟨0, 0⟩ } free := h.chain
  have hother : ∀ i, i ≠ idx → (s.table i).buffer ≠ (s.table idx).buffer := fun i hi he =>
    hi (h.inj i idx he (he ▸ hb))
  refine ⟨hfree.push hb (h.apart idx), fun i => ?_, fun i j hij hi => ?_, fun i => ?_, fun b => ?_,
    h.nodup⟩
  · by_cases hi : i = idx
    · subst hi
      rw [clearSlot_table_self]
    · rw [clearSlot_table_of_ne hi]
      exact h.slot i
  · by_cases hi' : i = idx
    · subst hi'
      rw [clearSlot_table_self] at hi
      exact absurd rfl hi
    · by_cases hj' : j = idx
      · subst hj'
        rw [clearSlot_table_self] at hij
        exact absurd hij hi
      · rw [clearSlot_table_of_ne hi'] at hij hi
        rw [clearSlot_table_of_ne hj'] at hij
        exact h.inj i j hij hi
  · by_cases hi : i = idx
    · subst hi
      rw [clearSlot_table_self, List.mem_cons, not_or]
      exact ⟨hb.symm, fun h0 => Chain.ne_null h.chain h0 rfl⟩
    · rw [clearSlot_table_of_ne hi, List.mem_cons, not_or]
      exact ⟨hother i hi, h.apart i⟩
  · rw [h.mem_built b]
    simp only [List.mem_cons]
    constructor
    · rintro (hb' | ⟨hb0, i, hi⟩)
      · exact .inl (.inr hb')
      · by_cases hne : i = idx
        · subst hne
          exact .inl (.inl hi.symm)
        · exact .inr ⟨hb0, i, by rw [clearSlot_table_of_ne hne, hi]⟩
    · rintro ((rfl | hb') | ⟨hb0, i, hi⟩)
      · exact .inr ⟨hb, idx, rfl⟩
      · exact .inl hb'
      · have hne : i ≠ idx := by
          rintro rfl
          rw [clearSlot_table_self] at hi
          exact hb0 hi.symm
        rw [clearSlot_table_of_ne hne] at hi
        exact .inr ⟨hb0, i, hi⟩

theorem Placed.lookup (h : Placed s built free) (ht : t ≠ 0) (hl : Lookup s t b s') :
    ∃ free', Placed s' built free' ∧ SameNodes s s' := by
  cases hl with
  | hit idx hp hk => exact ⟨free, h, .refl s⟩
  | claim idx hp he hf => exact ⟨free.tail, h.claimHead ht he hf, claimHead_sameNodes idx t s⟩
  | exhausted idx hp he hf => exact ⟨free, h, .refl s⟩
  | full hp => exact ⟨free, h, .refl s⟩

theorem Placed.release (h : Placed s built free) (ht : t ≠ 0) :
    ∃ free', Placed (tableRelease t s) built free' ∧ SameNodes s (tableRelease t s) := by
  rcases tableRelease_cases s t with ⟨idx, -, hk, hrel⟩ | ⟨-, hrel⟩
  · have hb : (s.table idx).buffer ≠ 0 := fun hb => ht (hk.symm.trans ((h.slot idx).mpr hb))
    rw [hrel hb]
    exact ⟨_, h.clearSlot hb, clearSlot_sameNodes idx s⟩
  · rw [hrel]
    exact ⟨free, h, .refl s⟩

/-! ## Building a buffer -/

def builtNode (node raw : Addr) (heap : Heap) (s : Data) : Data :=
  poolPush node { s with
    heap := heap
    node := Function.update s.node node { s.node node with rawBase := raw, save := alignUp raw }
    mem := writeDword (off (alignUp raw) saveMxcsr) defaultMxcsr
      (stosb (alignUp raw) 0 s.mem sseSaveSize) }

theorem poolBuildOne_cases (s : Data) :
    (∃ heap : Heap, poolBuildOne s = (false, { s with heap := heap }) ∧ heap.live = s.heap.live ∧
      heap.bugcheck = s.heap.bugcheck) ∨
      (∃ (node raw : Addr) (heap : Heap), poolBuildOne s = (true, builtNode node raw heap s) ∧
      Fresh s.heap.live (nodeBlock node) ∧ Fresh (nodeBlock node :: s.heap.live) (rawBlock raw) ∧
      heap.live = rawBlock raw :: nodeBlock node :: s.heap.live ∧
      heap.bugcheck = s.heap.bugcheck) := by
  rcases ha : s.heap.alloc sizeofSseBuffer with ⟨node, heap⟩
  by_cases hn : node = 0
  · subst hn
    refine .inl ⟨heap, ?_, Heap.alloc_refused ha⟩
    simp only [poolBuildOne, ha, if_true]
  · have h := Heap.alloc_fresh ha hn
    rcases ha' : heap.alloc (sseSaveSize + sseSaveAlign) with ⟨raw, heap'⟩
    by_cases hr : raw = 0
    · subst hr
      have h' := Heap.alloc_refused ha'
      have hlive : heap'.live = nodeBlock node :: s.heap.live := h'.1.trans h.2.1
      have hmem : nodeBlock node ∈ heap'.live := hlive ▸ List.mem_cons_self
      refine .inl ⟨heap'.free node, ?_, Heap.free_live_of_fresh hlive h.1 s.heap.sound, ?_⟩
      · simp only [poolBuildOne, ha, ha', hn, if_true, if_false]
      · exact (Heap.free_bugcheck hmem rfl).trans (h'.2.trans h.2.2)
    · have h' := Heap.alloc_fresh ha' hr
      rw [h.2.1] at h'
      refine .inr ⟨node, raw, heap', ?_, h.1, h'.1, h'.2.1, h'.2.2.trans h.2.2⟩
      simp only [poolBuildOne, ha, ha', hn, hr, if_false]
      rfl

theorem fresh_ne {live : List Block} (hs : Sound live) {b c : Block} (hb : Fresh live b)
    (hc : c ∈ live) :
    c.base ≠ b.base := (hb.2.2.2 c hc).symm.base_ne (hs.valid c hc).2.1 hb.2.1

section BuildOne

variable {node raw : Addr} {heap : Heap}

theorem Built.node_fresh (h : Built s built) (hn : Fresh s.heap.live (nodeBlock node)) :
    node ∉ built :=
  fun hm => fresh_ne s.heap.sound hn (h.laid node hm).node rfl

theorem builtNode_node_self (s : Data) :
    ((builtNode node raw heap s).node node).rawBase = raw ∧
      ((builtNode node raw heap s).node node).save = alignUp raw := by
  simp [builtNode]

theorem builtNode_node_other {p : Addr} (hp : p ≠ node) (s : Data) :
    ((builtNode node raw heap s).node p).rawBase = (s.node p).rawBase ∧
      ((builtNode node raw heap s).node p).save = (s.node p).save := by
  simp [builtNode, hp]

theorem Built.builtNode (h : Built s built) (hn : Fresh s.heap.live (nodeBlock node))
    (hr : Fresh (nodeBlock node :: s.heap.live) (rawBlock raw))
    (hl : heap.live = rawBlock raw :: nodeBlock node :: s.heap.live) :
    Built (builtNode node raw heap s) (node :: built) := by
  have hheap : (Driver.builtNode node raw heap s).heap = heap := rfl
  have hne : ∀ b ∈ built, b ≠ node := fun b hb he => h.node_fresh hn (he ▸ hb)
  have hrawNew : ∀ b ∈ built, (s.node b).rawBase ≠ raw := by
    intro b hb
    have hm : rawBlock (s.node b).rawBase ∈ nodeBlock node :: s.heap.live :=
      List.mem_cons_of_mem _ (h.laid b hb).raw
    exact fresh_ne (s.heap.sound.cons hn) hr hm
  refine ⟨List.nodup_cons.mpr ⟨h.node_fresh hn, h.nodup⟩, fun b hb => ?_, fun b hb c hc he => ?_⟩
  · rcases List.mem_cons.mp hb with rfl | hb
    · refine ⟨?_, ?_, ?_⟩
      · rw [hheap, hl]
        simp
      · rw [hheap, hl, (builtNode_node_self s).1]
        simp
      · rw [(builtNode_node_self s).1, (builtNode_node_self s).2]
    · have ho : ((Driver.builtNode node raw heap s).node b).rawBase = (s.node b).rawBase ∧
          ((Driver.builtNode node raw heap s).node b).save = (s.node b).save :=
        builtNode_node_other (hne b hb) s
      refine ⟨?_, ?_, ?_⟩
      · rw [hheap, hl]
        exact List.mem_cons_of_mem _ (List.mem_cons_of_mem _ (h.laid b hb).node)
      · rw [hheap, hl, ho.1]
        exact List.mem_cons_of_mem _ (List.mem_cons_of_mem _ (h.laid b hb).raw)
      · rw [ho.1, ho.2]
        exact (h.laid b hb).save
  · rcases List.mem_cons.mp hb with hb | hb <;> rcases List.mem_cons.mp hc with hc | hc
    · rw [hb, hc]
    · rw [hb, (builtNode_node_self s).1, (builtNode_node_other (hne c hc) s).1] at he
      exact absurd he.symm (hrawNew c hc)
    · rw [hc, (builtNode_node_self s).1, (builtNode_node_other (hne b hb) s).1] at he
      exact absurd he (hrawNew b hb)
    · rw [(builtNode_node_other (hne b hb) s).1, (builtNode_node_other (hne c hc) s).1] at he
      exact h.rawInj b hb c hc he

theorem Placed.builtNode (h : Placed s built free) (hn : node ≠ 0) (hb : node ∉ built) :
    Placed (builtNode node raw heap s) (node :: built) (node :: free) := by
  have hfree : node ∉ free := fun hm => hb ((h.mem_built node).mpr (.inl hm))
  have htable : ∀ idx, (s.table idx).buffer ≠ node := fun idx hi =>
    hb ((h.mem_built node).mpr (.inr ⟨hn, idx, hi⟩))
  refine ⟨?_, h.slot, h.inj, fun idx => ?_, fun b => ?_, List.nodup_cons.mpr ⟨hb, h.nodup⟩⟩
  · refine FreeNodes.push (Chain.congr h.chain fun b hm => ?_) hn hfree
    have hbn : b ≠ node := fun he => hfree (he ▸ hm)
    simp only [Function.update_of_ne hbn]
  · have ha := h.apart idx
    simp only [List.mem_cons, not_or]
    exact ⟨htable idx, ha⟩
  · rw [List.mem_cons, h.mem_built b, List.mem_cons, or_assoc]
    rfl

end BuildOne

theorem Built.of_heap {heap : Heap} (h : Built s built) (hl : s.heap.live ⊆ heap.live) :
    Built { s with heap := heap } built :=
  ⟨h.nodup, fun b hb => ⟨hl (h.laid b hb).node, hl (h.laid b hb).raw, (h.laid b hb).save⟩, h.rawInj⟩

theorem Placed.of_heap {heap : Heap} (h : Placed s built free) :
    Placed { s with heap := heap } built free :=
  ⟨h.chain, h.slot, h.inj, h.apart, h.mem_built, h.nodup⟩

/-! ## Runs of calls -/

/-- `DriverEntry` before the prefill: an empty free list and an empty table. -/
def initTables (s : Data) : Data := { s with freeList := 0, table := fun _ => ⟨0, 0⟩ }

inductive PoolOp
  | build
  | lookup (t : Thread)
  | release (t : Thread)
  | trap (t : Thread)

structure Ledger where
  data : Data
  built : List Addr

def poolStep (l : Ledger) : PoolOp → Ledger
  | .build =>
    let (ok, s) := poolBuildOne l.data
    ⟨s, if ok then s.freeList :: l.built else l.built⟩
  | .lookup t => ⟨(tableLookupOrAssign t l.data).2, l.built⟩
  | .release t => ⟨tableRelease t l.data, l.built⟩
  | .trap t => ⟨(trapLookupSaveArea t l.data).2, l.built⟩

def PoolInv (l : Ledger) : Prop := Built l.data l.built ∧ ∃ free, Placed l.data l.built free

theorem initTables_inv (s : Data) : PoolInv ⟨initTables s, []⟩ := by
  refine ⟨⟨.nil, by simp, by simp⟩, [], rfl, fun _ => Iff.rfl, fun i j _ hi => absurd rfl hi,
    fun _ => by simp,
    fun b => ?_, .nil⟩
  constructor
  · intro hb
    simp at hb
  · rintro (hb | ⟨hb, idx, hi⟩)
    · simp at hb
    · exact absurd hi.symm hb

theorem poolStep_inv {l : Ledger} (h : PoolInv l) (op : PoolOp) : PoolInv (poolStep l op) := by
  obtain ⟨hb, free, hp⟩ := h
  cases op with
  | build =>
    rcases poolBuildOne_cases l.data with ⟨heap, heq, hl, -⟩ | ⟨node, raw, heap, heq, hn, hr, hl, -⟩
    · simp only [poolStep, heq]
      exact ⟨hb.of_heap (fun _ hm => hl ▸ hm), free, hp.of_heap⟩
    · simp only [poolStep, heq]
      exact ⟨hb.builtNode hn hr hl, _, hp.builtNode hn.1 (hb.node_fresh hn)⟩
  | lookup t =>
    obtain ⟨free', hp', hs⟩ := hp.lookup t.2 (tableLookupOrAssign_lookup l.data t)
    simp only [poolStep]
    exact ⟨hb.congr hs, free', hp'⟩
  | release t =>
    obtain ⟨free', hp', hs⟩ := hp.release t.2
    simp only [poolStep]
    exact ⟨hb.congr hs, free', hp'⟩
  | trap t =>
    obtain ⟨b, hl, -⟩ := trapLookupSaveArea_lookup l.data t
    obtain ⟨free', hp', hs⟩ := hp.lookup t.2 hl
    simp only [poolStep]
    exact ⟨hb.congr hs, free', hp'⟩

/-! ## Conservation -/

def occupied (s : Data) : Finset (Fin maxThreads) :=
  Finset.univ.filter fun idx => (s.table idx).thread ≠ 0

theorem Placed.count (h : Placed s built free) :
    free.length + (occupied s).card = built.length := by
  classical
  have hocc : ∀ idx, idx ∈ occupied s ↔ (s.table idx).buffer ≠ 0 := by
    intro idx
    simp only [occupied, Finset.mem_filter, Finset.mem_univ, true_and]
    exact not_congr (h.slot idx)
  have himage : ((occupied s).image fun idx => (s.table idx).buffer).card = (occupied s).card := by
    refine Finset.card_image_of_injOn fun i hi j _ hij => ?_
    exact h.inj i j hij ((hocc i).mp hi)
  have hunion : built.toFinset = free.toFinset ∪ (occupied s).image fun idx =>
    (s.table idx).buffer := by
    ext b
    simp only [List.mem_toFinset, Finset.mem_union, Finset.mem_image, h.mem_built b]
    refine or_congr Iff.rfl ⟨?_, ?_⟩
    · rintro ⟨hb, idx, rfl⟩
      exact ⟨idx, (hocc idx).mpr hb, rfl⟩
    · rintro ⟨idx, hi, rfl⟩
      exact ⟨(hocc idx).mp hi, idx, rfl⟩
  have hdisj : Disjoint free.toFinset ((occupied s).image fun idx => (s.table idx).buffer) := by
    rw [Finset.disjoint_left]
    intro b hb hi
    obtain ⟨idx, -, rfl⟩ := Finset.mem_image.mp hi
    exact h.apart idx (List.mem_toFinset.mp hb)
  have hcard := congrArg Finset.card hunion
  rw [Finset.card_union_of_disjoint hdisj, himage, List.toFinset_card_of_nodup h.nodup,
    List.toFinset_card_of_nodup (Chain.nodup h.chain)] at hcard
  exact hcard.symm

theorem Placed.exists_empty (h : Placed s built free) (hlen : built.length < maxThreads) :
    ∃ idx, (s.table idx).thread = 0 := by
  by_contra hall
  push Not at hall
  have hfull : occupied s = Finset.univ := by
    ext idx
    simp only [occupied, Finset.mem_filter, Finset.mem_univ, true_and, iff_true]
    exact hall idx
  have hcount := h.count
  rw [hfull, Finset.card_univ, Fintype.card_fin] at hcount
  omega

/-- Every buffer of `built` is in exactly one place, and no other buffer is in any. -/
structure Conserved (s : Data) (built : List Addr) : Prop where
  nodup : built.Nodup
  free : ∃ l, FreeNodes s l ∧ l.Nodup ∧ (∀ b ∈ l, b ∈ built) ∧
    (∀ b ∈ built, b ∈ l ∧ (∀ idx, (s.table idx).buffer ≠ b) ∨
      b ∉ l ∧ ∃! idx, (s.table idx).buffer = b) ∧
    l.length + (occupied s).card = built.length
  table : ∀ idx, (s.table idx).buffer ≠ 0 → (s.table idx).buffer ∈ built
  slot : ∀ idx, (s.table idx).thread = 0 ↔ (s.table idx).buffer = 0
  empty : ∃ idx, (s.table idx).thread = 0

theorem Placed.conserved (h : Placed s built free) (hlen : built.length < maxThreads) :
    Conserved s built := by
  refine ⟨h.nodup, ⟨free, h.chain, Chain.nodup h.chain, ?_, ?_, h.count⟩, ?_, h.slot,
    h.exists_empty hlen⟩
  · intro b hb
    exact (h.mem_built b).mpr (.inl hb)
  · intro b hb
    rcases (h.mem_built b).mp hb with hf | ⟨hb0, idx, hi⟩
    · exact .inl ⟨hf, fun idx hi => h.apart idx (hi ▸ hf)⟩
    · refine .inr ⟨hi ▸ h.apart idx, idx, hi, fun j hj => ?_⟩
      exact h.inj j idx (hj.trans hi.symm) (hj ▸ hb0)
  · intro idx hi
    exact (h.mem_built _).mpr (.inr ⟨hi, idx, rfl⟩)

theorem poolRun_inv (s : Data) (ops : List PoolOp) :
    PoolInv (exec poolStep ⟨initTables s, []⟩ ops) :=
  exec_invariant (initTables_inv s) fun _ op h => poolStep_inv h op

theorem Placed.lookup_mem (h : Placed s built free) (hl : Lookup s t b s') (hb : b ≠ 0) :
    b ∈ built := by
  cases hl with
  | hit idx hp ht => exact (h.mem_built _).mpr (.inr ⟨hb, idx, rfl⟩)
  | claim idx hp he hf =>
    obtain ⟨fs, rfl, -⟩ := h.head hf
    exact (h.mem_built _).mpr (.inl List.mem_cons_self)
  | exhausted idx hp he hf => exact absurd rfl hb
  | full hp => exact absurd rfl hb

/-- After any calls from the state `DriverEntry` builds the two lookups fail together: every buffer
there is has a save area. -/
theorem poolRun_lookups_null_iff (s : Data) (ops : List PoolOp) (t : Addr) :
    (trapLookupSaveArea t (exec poolStep ⟨initTables s, []⟩ ops).data).1 = 0 ↔
      (tableLookupOrAssign t (exec poolStep ⟨initTables s, []⟩ ops).data).1 = 0 := by
  obtain ⟨hbuilt, free, hp⟩ := poolRun_inv s ops
  refine trapLookupSaveArea_null_iff fun hb => ?_
  exact (hbuilt.laid _ (hp.lookup_mem (tableLookupOrAssign_lookup _ t) hb)).save_ne_zero

/-- After any calls from the state `DriverEntry` builds, with at most `PREFILL_BUFFERS`
successful builds, the buffers are conserved. -/
theorem poolRun_conserved (s : Data) (ops : List PoolOp)
    (hbuilt : (exec poolStep ⟨initTables s, []⟩ ops).built.length ≤ prefillBuffers) :
    Conserved (exec poolStep ⟨initTables s, []⟩ ops).data
      (exec poolStep ⟨initTables s, []⟩ ops).built := by
  obtain ⟨-, free, hp⟩ := poolRun_inv s ops
  exact hp.conserved (lt_of_le_of_lt hbuilt (by decide))

theorem poolRun_conserved_twoBuffers :
    Conserved (exec poolStep ⟨initTables twoBuffers, []⟩
        [.build, .build, .build, .trap threadA, .lookup threadB, .release threadA,
          .trap threadB]).data
      (exec poolStep ⟨initTables twoBuffers, []⟩
        [.build, .build, .build, .trap threadA, .lookup threadB, .release threadA,
          .trap threadB]).built :=
  poolRun_conserved twoBuffers _ (by decide +kernel)

end Nt351.Driver
