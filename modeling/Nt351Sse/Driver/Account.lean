import Nt351Sse.Driver.Entry
import Nt351Sse.Driver.Turnover

/-! The blocks the driver holds: what `prepare` leaves allocated, and what `PoolDrain`
gives back. -/

namespace Nt351.Driver
open Memory Probing Runs Preempt

def bufferBlocks (node : Addr → SseBuffer) (built : List Addr) : Finset Block :=
  (built.map nodeBlock ++ built.map fun b => rawBlock (node b).rawBase).toFinset

theorem mem_bufferBlocks {node : Addr → SseBuffer} {built : List Addr} {c : Block} :
    c ∈ bufferBlocks node built ↔ ∃ b ∈ built, c = nodeBlock b ∨ c = rawBlock (node b).rawBase := by
  simp only [bufferBlocks, List.mem_toFinset, List.mem_append, List.mem_map]
  constructor
  · rintro (⟨b, hb, rfl⟩ | ⟨b, hb, rfl⟩)
    · exact ⟨b, hb, .inl rfl⟩
    · exact ⟨b, hb, .inr rfl⟩
  · rintro ⟨b, hb, rfl | rfl⟩
    · exact .inl ⟨b, hb, rfl⟩
    · exact .inr ⟨b, hb, rfl⟩

variable {d : Data} {built free : List Addr} {node raw b : Addr} {heap : Heap} {live₀ : List Block}
  {own : Finset Block}

theorem bufferBlocks_builtNode (hb : node ∉ built) :
    bufferBlocks (builtNode node raw heap d).node (node :: built) =
      insert (rawBlock raw) (insert (nodeBlock node) (bufferBlocks d.node built)) := by
  ext c
  simp only [Finset.mem_insert, mem_bufferBlocks, List.mem_cons, exists_eq_or_imp,
    (builtNode_node_self d).1]
  have hother : ∀ b ∈ built, ((builtNode node raw heap d).node b).rawBase = (d.node b).rawBase := by
    intro b hm
    have hne : b ≠ node := fun he => hb (he ▸ hm)
    exact (builtNode_node_other hne d).1
  have hiff : (∃ b ∈ built, c = nodeBlock b ∨
    c = rawBlock ((builtNode node raw heap d).node b).rawBase) ↔
      ∃ b ∈ built, c = nodeBlock b ∨ c = rawBlock (d.node b).rawBase := by
    constructor
    · rintro ⟨b, hm, hc⟩
      exact ⟨b, hm, by rwa [hother b hm] at hc⟩
    · rintro ⟨b, hm, hc⟩
      exact ⟨b, hm, by rwa [hother b hm]⟩
  rw [hiff, or_assoc]
  exact or_left_comm

theorem holding_builtNode (h : Heap.Holding live₀ (bufferBlocks d.node built) d.heap)
    (hb : node ∉ built) (hn : Fresh d.heap.live (nodeBlock node))
    (hr : Fresh (nodeBlock node :: d.heap.live) (rawBlock raw))
    (hl : heap.live = rawBlock raw :: nodeBlock node :: d.heap.live)
    (hc : heap.bugcheck = d.heap.bugcheck) :
    Heap.Holding live₀ (bufferBlocks (builtNode node raw heap d).node (node :: built)) heap := by
  let between : Heap := ⟨nodeBlock node :: d.heap.live, [], d.heap.bugcheck, d.heap.sound.cons hn⟩
  have hnode : Heap.Holding live₀ (insert (nodeBlock node) (bufferBlocks d.node built)) between :=
    h.grow hn rfl rfl
  rw [bufferBlocks_builtNode hb]
  exact hnode.grow hr hl hc

theorem prefill_account (d : Data) (hc : d.heap.bugcheck = false) :
    ∃ built, Prefilled (prefill d).2 built ∧ built.length = (prefill d).1 ∧
      built.length ≤ prefillBuffers ∧
      Heap.Holding d.heap.live (bufferBlocks (prefill d).2.node built) (prefill d).2.heap := by
  have hstart : Heap.Holding d.heap.live (bufferBlocks (initTables d).node [])
    (initTables d).heap := Heap.Holding.start hc
  obtain ⟨built, ⟨hp, hh⟩, hb, hle⟩ := prefillLoop_invariant
    (I := fun built s => Prefilled s built ∧
      Heap.Holding d.heap.live (bufferBlocks s.node built) s.heap)
    (fun h hl hc => ⟨h.1.of_heap fun _ hm => hl ▸ hm, h.2.congr hl hc⟩)
    (fun h hn hr hl hc => ⟨h.1.builtNode hn hr hl,
      holding_builtNode h.2 (h.1.layout.node_fresh hn) hn hr hl hc⟩)
    prefillBuffers 0 ⟨Prefilled.initTables d, hstart⟩ rfl
  exact ⟨built, hp, hb, by omega, hh⟩

/-! ## PoolDrain -/

structure Drainable (own : Finset Block) (d : Data) (free : List Addr) : Prop where
  chain : FreeNodes d free
  node : ∀ b ∈ free, nodeBlock b ∈ own
  raw : ∀ b ∈ free, rawBlock (d.node b).rawBase ∈ own
  rawInj : ∀ b ∈ free, ∀ c ∈ free, (d.node b).rawBase = (d.node c).rawBase → b = c

theorem Drainable.drainNode {bs : List Addr} (h : Drainable own d (b :: bs))
    (hh : Heap.Holding live₀ own d.heap) :
    Drainable (own \ bufferBlocks d.node [b]) (drainNode b { d with freeList := (d.node b).link })
      bs ∧ Heap.Holding live₀ (own \ bufferBlocks d.node [b])
      (drainNode b { d with freeList := (d.node b).link }).heap := by
  obtain ⟨-, -, hchain⟩ := h.chain
  have hb : b ∈ b :: bs := List.mem_cons_self
  have hraw := h.raw b hb
  have hraw0 : (d.node b).rawBase ≠ 0 := (d.heap.sound.valid _ ((hh.mem _).mpr (.inl hraw))).1
  have hnode : nodeBlock b ∈ own.erase (rawBlock (d.node b).rawBase) :=
    Finset.mem_erase.mpr ⟨nodeBlock_ne_rawBlock _ _, h.node b hb⟩
  have hown : (own.erase (rawBlock (d.node b).rawBase)).erase (nodeBlock b) =
    own \ bufferBlocks d.node [b] := by
    ext c
    simp only [Finset.mem_erase, Finset.mem_sdiff, mem_bufferBlocks, List.mem_singleton,
      exists_eq_left, not_or]
    tauto
  have hheap : (Driver.drainNode b { d with freeList := (d.node b).link }).heap =
      (d.heap.free (d.node b).rawBase).free b := by
    simp only [Driver.drainNode, hraw0, ne_eq, not_false_eq_true, if_true]
  have hnot : b ∉ bs := (List.nodup_cons.mp (Chain.nodup h.chain)).1
  refine ⟨⟨hchain, fun c hc => ?_, fun c hc => ?_, fun c hc e he => ?_⟩, ?_⟩
  · have hcb : nodeBlock c ≠ nodeBlock b := fun he => by
      obtain rfl : c = b := congrArg Block.base he
      exact hnot hc
    rw [← hown]
    exact Finset.mem_erase.mpr ⟨hcb, Finset.mem_erase.mpr ⟨nodeBlock_ne_rawBlock _ _,
      h.node c (List.mem_cons_of_mem b hc)⟩⟩
  · have hcb : rawBlock (d.node c).rawBase ≠ rawBlock (d.node b).rawBase := fun he => by
      obtain rfl : c = b := h.rawInj c (List.mem_cons_of_mem b hc) b hb (congrArg Block.base he)
      exact hnot hc
    rw [← hown]
    exact Finset.mem_erase.mpr ⟨(nodeBlock_ne_rawBlock _ _).symm,
      Finset.mem_erase.mpr ⟨hcb, h.raw c (List.mem_cons_of_mem b hc)⟩⟩
  · exact h.rawInj c (List.mem_cons_of_mem b hc) e (List.mem_cons_of_mem b he)
  · rw [hheap, ← hown]
    exact (hh.free hraw rfl).free hnode rfl

theorem bufferBlocks_cons (f : Addr → SseBuffer) (b : Addr) (bs : List Addr) :
    bufferBlocks f (b :: bs) = bufferBlocks f [b] ∪ bufferBlocks f bs := by
  ext c
  simp only [Finset.mem_union, mem_bufferBlocks, List.mem_cons, List.not_mem_nil, or_false,
    exists_eq_or_imp,
    exists_eq_left]

/-- The loop of `PoolDrain`, run from `d`, ends in `d'`: the last pop returns NULL. -/
inductive Drains : Data → Data → Prop
  | stop {d : Data} (h : d.freeList = 0) : Drains d d
  | round {d d' : Data} (h : d.freeList ≠ 0)
      (hd : Drains (drainNode d.freeList { d with freeList := (d.node d.freeList).link }) d') :
      Drains d d'

/-- The blocks of the buffers `free` are freed, each once, and the list is empty. -/
structure Drained (live₀ : List Block) (own : Finset Block) (free : List Addr) (d d' : Data) :
    Prop where
  holding : Heap.Holding live₀ (own \ bufferBlocks d.node free) d'.heap
  freeList : d'.freeList = 0
  table : d'.table = d.table
  ends : Drains d d'

theorem drainLoop_spec (fuel : ℕ) (hfuel : free.length < fuel) (h : Drainable own d free)
    (hh : Heap.Holding live₀ own d.heap) : Drained live₀ own free d (drainLoop fuel d) := by
  induction fuel generalizing free own d with
  | zero => omega
  | succ fuel ih =>
    cases free with
    | nil =>
      have hf : d.freeList = 0 := h.chain
      have heq : drainLoop (fuel + 1) d = d := by
        simp only [drainLoop, poolPop, exInterlockedPopEntryList, hf, if_true, ne_eq,
          not_true_eq_false, false_and,
          if_false]
      have hnone : bufferBlocks d.node [] = ∅ := rfl
      rw [heq]
      refine ⟨?_, hf, rfl, .stop hf⟩
      rwa [hnone, Finset.sdiff_empty]
    | cons b bs =>
      obtain ⟨hhead, hb0, -⟩ := h.chain
      have heq : drainLoop (fuel + 1) d =
        drainLoop fuel (Driver.drainNode b { d with freeList := (d.node b).link }) := by
        simp only [drainLoop, poolPop, exInterlockedPopEntryList, hhead, hb0, if_false, ne_eq,
          not_false_eq_true,
          hh.clean, and_self, if_true]
      obtain ⟨hd, hh'⟩ := h.drainNode hh
      have hrest := ih (Nat.lt_of_succ_lt_succ hfuel) hd hh'
      have hsplit : own \ (bufferBlocks d.node [b] ∪ bufferBlocks d.node bs) =
          (own \ bufferBlocks d.node [b]) \ bufferBlocks d.node bs := sdiff_sdiff_left.symm
      rw [heq]
      refine ⟨?_, hrest.freeList, hrest.table, .round (hhead ▸ hb0) ?_⟩
      · rw [bufferBlocks_cons, hsplit]
        exact hrest.holding
      · rw [hhead]
        exact hrest.ends

theorem poolDrain_spec (h : Drainable own d free) (hh : Heap.Holding live₀ own d.heap) :
    Drained live₀ own free d (poolDrain d) := by
  apply drainLoop_spec _ ?_ h hh
  -- the nodes on the list are distinct live blocks
  have hnd : (free.map nodeBlock).Nodup :=
    (Chain.nodup h.chain).map fun b c he => congrArg Block.base he
  have hsub : free.map nodeBlock ⊆ d.heap.live := by
    intro c hc
    obtain ⟨b, hb, rfl⟩ := List.mem_map.mp hc
    exact (hh.mem _).mpr (.inl (h.node b hb))
  have hle := (hnd.subperm hsub).length_le
  rw [List.length_map] at hle
  omega

end Nt351.Driver
