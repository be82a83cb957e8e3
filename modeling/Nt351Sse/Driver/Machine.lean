import Nt351Sse.Driver.Effect
import Nt351Sse.Driver.Preserve

/-! Everything that reaches the driver's data, in any order: buffers are built, looked up
and released, threads come and go, use SSE and x87, trap and are switched. `Wf` says where
the save areas and the image lie in every state reached. -/

namespace Nt351.Driver
open Memory Probing Runs

inductive MachineEvent
  | build
  | lookup (t : Thread)
  | release (t : Thread)
  | create (t : Thread)
  | terminate (t : Thread)
  | sse (e : Event)
  -- an x87 instruction of the current thread; it leaves `v` in the x87 registers
  | x87 (v : X87)

structure Machine where
  cpu : Cpu
  -- the buffers `PoolBuildOne` completed
  built : List Addr
  alive : Finset Thread
  -- the threads without a #NM since they were created
  fresh : Finset Thread
  -- what the lookups returned so far
  given : Finset Addr
  -- what was live while an area was `g_FxOwner`, when it last was
  owned : Addr → Sse

/-- The buffers built once `PoolBuildOne` has returned `r`. -/
def builtAfter (built : List Addr) (r : Bool × Data) : List Addr :=
  if r.1 then r.2.freeList :: built else built

theorem mem_builtAfter {built : List Addr} {b : Addr} (hb : b ∈ built) (r : Bool × Data) :
    b ∈ builtAfter built r := by
  rw [builtAfter]
  split
  · exact List.mem_cons_of_mem _ hb
  · exact hb

def Cpu.withX87 (v : X87) (s : Cpu) : Cpu :=
  { s with trap := { s.trap with fx := { s.trap.fx with x87 := v } } }

namespace Machine

def data (s : Machine) : Data := s.cpu.trap.data

def withData (d : Data) (s : Machine) : Machine :=
  { s with cpu := { s.cpu with trap := { s.cpu.trap with data := d } } }

/-- The event starts with a #NM of the current thread. -/
def traps (s : Machine) : MachineEvent → Bool
  | .sse e => e.isAccess && s.cpu.ts
  | .x87 _ => s.cpu.ts
  | _ => false

/-- What `TrapLookupSaveArea` returns to a #NM of the current thread. -/
def area (s : Machine) : Addr := (trapLookupSaveArea s.cpu.cur s.data).1

/-- The XMM and MXCSR that were live when an area was last `g_FxOwner`: its last user's. -/
def lastOwned (s : Machine) (p : Addr) : Sse :=
  if s.cpu.trap.fxOwner = p then s.cpu.trap.fx.sse else s.owned p

def account (s : Machine) (e : MachineEvent) : Machine :=
  { s with
    fresh := if s.traps e then s.fresh.erase s.cpu.cur else s.fresh
    given := if s.traps e then insert s.area s.given else s.given
    owned := s.lastOwned }

variable (kernelX87 : Cpu → X87)

def step (s : Machine) (e : MachineEvent) : Machine :=
  match e with
  | .build =>
    { s.withData (poolBuildOne s.data).2 with built := builtAfter s.built (poolBuildOne s.data) }
  | .lookup t =>
    { s.withData ((Call.lookup t).step s.data) with
      given := insert ((Call.lookup t).area s.data) s.given }
  | .release t => s.withData (tableRelease t s.data)
  | .create t => { s with alive := insert t s.alive, fresh := insert t s.fresh }
  | .terminate t => { s with alive := s.alive.erase t }
  | .sse e' => { s.account e with cpu := s.cpu.step kernelX87 e' }
  | .x87 v => { s.account e with cpu := (s.cpu.access kernelX87).withX87 v }

end Machine

/-! ## Where things lie -/

namespace Trap

structure Wf (built : List Addr) (s : Trap) : Prop where
  pool : PoolInv ⟨s.data, built⟩
  image : s.fxImage = 0 ∨ ImageLaid s.data built s.fxImage
  owner : s.fxOwner = 0 ∨ ∃ b ∈ built, s.fxOwner = (s.data.node b).save

/-- The XMM and MXCSR a buffer's save area holds. -/
def saved (s : Trap) (b : Addr) : Sse := sseAt saveLayout s.data.mem (s.data.node b).save

/-- The XMM and MXCSR a flush leaves in the area at `p`. -/
def left (s : Trap) (p : Addr) : Sse :=
  if s.fxOwner = p then s.fx.sse else sseAt saveLayout s.data.mem p

/-- From `s` to `s'` the areas of `built` and the image stay where they are, and an area
whose contents change is the owner's and gets the live state, as it does if it is the owner's
no more. -/
structure Keeps (built : List Addr) (s s' : Trap) : Prop where
  image : s'.fxImage = s.fxImage
  save : ∀ b ∈ built, (s'.data.node b).save = (s.data.node b).save
  saved : ∀ b ∈ built, s'.saved b = s.saved b ∨ s.fxOwner = (s.data.node b).save ∧
    s'.saved b = s.fx.sse
  left : ∀ b ∈ built, s'.fxOwner ≠ (s.data.node b).save →
    s'.saved b = s.left (s.data.node b).save

variable {built : List Addr} {s s' : Trap} {b : Addr} {d : Data}

theorem poolInv_withMem (h : PoolInv ⟨d, built⟩) (m : Mem) :
    PoolInv ⟨{ d with mem := m }, built⟩ := by
  obtain ⟨hb, free, hp⟩ := h
  exact ⟨hb.congr ⟨rfl, fun _ => ⟨rfl, rfl⟩⟩, free, hp.chain, hp.slot, hp.inj, hp.apart,
    hp.mem_built, hp.nodup⟩

theorem Wf.apart (h : Wf built s) (h0 : s.fxImage ≠ 0) : Apart s := by
  have hi := h.image.resolve_left h0
  refine ⟨hi.fits, fun ho => ?_⟩
  obtain ⟨b, hb, he⟩ := h.owner.resolve_left ho
  rw [he]
  exact ⟨(h.pool.1.laid b hb).area_fits, hi.disjoint h.pool.1 hb⟩

/-- A lookup returns the save area of a buffer that was built. -/
theorem Wf.area_built (h : Wf built s) (t : Thread) (h0 : (trapLookupSaveArea t s.data).1 ≠ 0) :
    ∃ b ∈ built, (trapLookupSaveArea t s.data).1 = (s.data.node b).save := by
  obtain ⟨b, hk, he⟩ := saveArea_of_lookup h0
  obtain ⟨-, free, hp⟩ := h.pool
  exact ⟨b, hp.built_of_kept hk, he⟩

theorem Wf.areaApart (h : Wf built s) (h0 : s.fxImage ≠ 0) (t : Thread) :
    AreaApart s (trapLookupSaveArea t s.data).1 := by
  intro ha
  obtain ⟨b, hb, he⟩ := h.area_built t ha
  rw [he]
  exact ⟨(h.pool.1.laid b hb).area_fits, (h.image.resolve_left h0).disjoint h.pool.1 hb⟩

theorem Wf.not_image (h : Wf built s) (h0 : s.fxImage ≠ 0) (hb : b ∈ built) {j : ℕ}
    (hj : j < sseSaveSize) : ¬ (areaBlock s.fxImage).Covers (off (s.data.node b).save j) :=
  ((h.image.resolve_left h0).disjoint h.pool.1 hb).symm.not_covers
    ((h.pool.1.laid b hb).area_fits.covers_off hj)

theorem Wf.flushed (h : Wf built s) (hb : b ∈ built) :
    sseAt saveLayout (flushedMem s) (s.data.node b).save = s.left (s.data.node b).save := by
  have hlaid := h.pool.1.laid b hb
  unfold flushedMem left
  rcases h.owner with h0 | ⟨c, hc, he⟩
  · rw [if_pos h0, if_neg]
    exact fun hz => hlaid.save_ne_zero (hz.symm.trans h0)
  · have hlaid' := h.pool.1.laid c hc
    rw [he, if_neg hlaid'.save_ne_zero]
    by_cases hcb : c = b
    · rw [hcb, if_pos rfl]
      exact sseAt_storeSse
    · rw [if_neg fun hsave => hcb (save_injective h.pool.1 hc hb hsave)]
      apply sseAt_congr
      intro j hj
      apply storeSse_outside hlaid'.area_fits
      exact (h.pool.1.area_disjoint hb hc (Ne.symm hcb)).not_covers (hlaid.area_fits.covers_off hj)

theorem left_cases (s : Trap) (b : Addr) : s.left (s.data.node b).save = s.saved b ∨
    s.fxOwner = (s.data.node b).save ∧ s.left (s.data.node b).save = s.fx.sse := by
  unfold left
  split
  · next he => exact .inr ⟨he, rfl⟩
  · exact .inl rfl

/-- After a flush, outside the image. -/
theorem Wf.keeps (h : Wf built s) (h0 : s.fxImage ≠ 0) (hi : s'.fxImage = s.fxImage)
    (hs : SameNodes s.data s'.data)
    (hm : ∀ a, ¬ (areaBlock s.fxImage).Covers a → s'.data.mem a = flushedMem s a) :
    Keeps built s s' := by
  have he : ∀ b ∈ built, s'.saved b = s.left (s.data.node b).save := by
    intro b hb
    rw [saved, (hs.2 b).2, ← h.flushed hb]
    exact sseAt_congr fun j hj => hm _ (h.not_image h0 hb hj)
  refine ⟨hi, fun b _ => (hs.2 b).2, fun b hb => ?_, fun b hb _ => he b hb⟩
  rw [he b hb]
  exact left_cases s b

theorem Keeps.of_mem (hi : s'.fxImage = s.fxImage) (ho : s'.fxOwner = s.fxOwner)
    (hs : SameNodes s.data s'.data) (hm : s'.data.mem = s.data.mem) : Keeps built s s' := by
  have he : ∀ b, s'.saved b = s.saved b := by
    intro b
    rw [Trap.saved, Trap.saved, (hs.2 b).2, hm]
  refine ⟨hi, fun b _ => (hs.2 b).2, fun b _ => .inl (he b), fun b _ hne => ?_⟩
  rw [he, Trap.left, if_neg (ho ▸ hne)]
  rfl

theorem Keeps.withRegs (h : Keeps built s s') (fx : FxState) (cr0 : BitVec 32) :
    Keeps built s { s' with fx := fx, cr0 := cr0 } := ⟨h.image, h.save, h.saved, h.left⟩

/-- What a flush leaves afterwards in an area: the registers if the area is the owner's then, and
else what it left before. -/
theorem Keeps.left_eq (h : Keeps built s s') (hb : b ∈ built) :
    s'.left (s'.data.node b).save =
      if s'.fxOwner = (s.data.node b).save then s'.fx.sse else s.left (s.data.node b).save := by
  rw [h.save b hb]
  by_cases ho : s'.fxOwner = (s.data.node b).save
  · rw [Trap.left, if_pos ho, if_pos ho]
  · rw [if_neg ho, ← h.left b hb ho, Trap.left, if_neg ho, Trap.saved, h.save b hb]

theorem Wf.image_congr (h : Wf built s) (hi : s'.fxImage = s.fxImage)
    (hs : SameNodes s.data s'.data) : s'.fxImage = 0 ∨ ImageLaid s'.data built s'.fxImage := by
  rw [hi]
  exact h.image.imp_right fun hl => hl.congr hs

theorem Wf.owner_congr (h : Wf built s) (hs : SameNodes s.data s'.data)
    (ho : s'.fxOwner = s.fxOwner) :
    s'.fxOwner = 0 ∨ ∃ b ∈ built, s'.fxOwner = (s'.data.node b).save := by
  rw [ho]
  rcases h.owner with h0 | ⟨b, hb, he⟩
  · exact .inl h0
  · exact .inr ⟨b, hb, he.trans (hs.2 b).2.symm⟩

/-! ## What each call does -/

theorem Wf.nmHandler (h : Wf built s) (t : Thread) :
    Wf built (nmHandler t s) ∧ Keeps built s (nmHandler t s) := by
  by_cases h0 : s.fxImage = 0
  · rw [nmHandler_noImage h0]
    exact ⟨⟨h.pool, h.image, h.owner⟩, .of_mem rfl rfl (.refl _) rfl⟩
  · have hspec := nmHandler_spec h0 (h.apart h0) (h.areaApart h0 t)
    obtain ⟨-, free, hp⟩ := h.pool
    obtain ⟨c, hl, -⟩ := trapLookupSaveArea_lookup s.data t
    obtain ⟨-, -, hsame⟩ := hp.lookup t.2 hl
    have hs : SameNodes s.data (Driver.nmHandler t s).data := by
      rw [hspec.data]
      exact hsame
    have hpool : PoolInv ⟨(Driver.nmHandler t s).data, built⟩ := by
      rw [hspec.data]
      exact poolInv_withMem (poolStep_inv h.pool (.trap t)) _
    refine ⟨⟨hpool, h.image_congr hspec.image hs, ?_⟩, h.keeps h0 hspec.image hs hspec.mem⟩
    rw [hspec.owner]
    by_cases ha : (trapLookupSaveArea t s.data).1 = 0
    · exact .inl ha
    · obtain ⟨b, hb, he⟩ := h.area_built t ha
      exact .inr ⟨b, hb, he.trans (hs.2 b).2.symm⟩

/-- What a #NM loads. -/
theorem Wf.loads (h : Wf built s) (h0 : s.fxImage ≠ 0) (t : Thread) :
    (Driver.nmHandler t s).fx.sse = if (trapLookupSaveArea t s.data).1 = 0 then .default else s.left
      (trapLookupSaveArea t s.data).1 := by
  rw [(nmHandler_spec h0 (h.apart h0) (h.areaApart h0 t)).sse, loadedSse]
  split
  · rfl
  · next ha =>
    obtain ⟨b, hb, he⟩ := h.area_built t ha
    rw [he]
    exact h.flushed hb

theorem Wf.nm_owner (h : Wf built s) (h0 : s.fxImage ≠ 0) (t : Thread) :
    (Driver.nmHandler t s).fxOwner = (trapLookupSaveArea t s.data).1 :=
  (nmHandler_spec h0 (h.apart h0) (h.areaApart h0 t)).owner

theorem Wf.swapDetour (h : Wf built s) :
    Wf built (swapDetour s) ∧ Keeps built s (swapDetour s) ∧ (Driver.swapDetour s).fx = s.fx ∧
      ((Driver.swapDetour s).fxOwner = 0 ∨ (Driver.swapDetour s).fxOwner = s.fxOwner) := by
  by_cases h0 : s.fxImage = 0
  · have hd : Driver.swapDetour s = s := if_pos h0
    rw [hd]
    exact ⟨h, .of_mem rfl rfl (.refl _) rfl, rfl, .inr rfl⟩
  · have hspec := swapDetour_spec h0 (h.apart h0)
    have hs : SameNodes s.data (Driver.swapDetour s).data := by
      rw [hspec.data]
      exact ⟨rfl, fun _ => ⟨rfl, rfl⟩⟩
    have hpool : PoolInv ⟨(Driver.swapDetour s).data, built⟩ := by
      rw [hspec.data]
      exact poolInv_withMem h.pool _
    exact ⟨⟨hpool, h.image_congr hspec.image hs, .inl hspec.owner⟩,
      h.keeps h0 hspec.image hs hspec.mem, hspec.fx,
      .inl hspec.owner⟩

/-- A call that moves buffers around without touching an area. -/
theorem Wf.withData (h : Wf built s) (hp : PoolInv ⟨d, built⟩) (hs : SameNodes s.data d)
    (hm : d.mem = s.data.mem) :
    Wf built { s with data := d } ∧ Keeps built s { s with data := d } :=
  ⟨⟨hp, h.image_congr rfl hs, h.owner_congr hs rfl⟩, .of_mem rfl rfl hs hm⟩

theorem Wf.lookup (h : Wf built s) (c : Call) : Wf built { s with data := c.step s.data } ∧
    Keeps built s { s with data := c.step s.data } := by
  obtain ⟨b, hl, -⟩ := c.lookup_area s.data
  obtain ⟨hb, free, hp⟩ := h.pool
  obtain ⟨free', hp', hsame⟩ := hp.lookup c.thread.2 hl
  exact h.withData ⟨hb.congr hsame, free', hp'⟩ hsame hl.mem

theorem tableRelease_mem (t : Addr) (d : Data) : (tableRelease t d).mem = d.mem := by
  unfold tableRelease
  split
  · rfl
  · next idx _ =>
    by_cases ht : (d.table idx).thread = t
    · by_cases hb : (d.table idx).buffer = 0
      · simp only [ht, hb, if_true, ne_eq, not_true_eq_false, if_false]
      · simp only [ht, hb, if_true, ne_eq, not_false_eq_true, poolPush_mem]
    · simp only [ht, if_false]

theorem Wf.release (h : Wf built s) (t : Thread) :
    Wf built { s with data := tableRelease t s.data } ∧
      Keeps built s { s with data := tableRelease t s.data } := by
  obtain ⟨hb, free, hp⟩ := h.pool
  obtain ⟨free', hp', hsame⟩ := hp.release t.2
  exact h.withData ⟨hb.congr hsame, free', hp'⟩ hsame (tableRelease_mem t s.data)

/-! ## A buffer is built -/

section Build

variable {node raw : Addr} {heap : Heap} {image : Addr}

theorem imageLaid_builtNode (hi : ImageLaid d built image) (hb : Built d built)
    (hn : Fresh d.heap.live (nodeBlock node))
    (hr : Fresh (nodeBlock node :: d.heap.live) (rawBlock raw))
    (hl : heap.live = rawBlock raw :: nodeBlock node :: d.heap.live) :
    ImageLaid (builtNode node raw heap d) (node :: built) image := by
  obtain ⟨r, hlive, he, hne⟩ := hi
  refine ⟨r, ?_, he, fun b hm => ?_⟩
  · show rawBlock r ∈ heap.live
    rw [hl]
    exact List.mem_cons_of_mem _ (List.mem_cons_of_mem _ hlive)
  · rcases List.mem_cons.mp hm with rfl | hm
    · rw [(builtNode_node_self d).1]
      exact (fresh_ne (d.heap.sound.cons hn) hr (List.mem_cons_of_mem _ hlive)).symm
    · have hbn : b ≠ node := fun hc => hb.node_fresh hn (hc ▸ hm)
      rw [(builtNode_node_other hbn d).1]
      exact hne b hm

/-- The new blocks are fresh, so the areas built before keep their bytes. -/
theorem builtNode_area (hb : Built d built)
    (hr : Fresh (nodeBlock node :: d.heap.live) (rawBlock raw)) (hm : b ∈ built) {j : ℕ}
    (hj : j < sseSaveSize) :
    (builtNode node raw heap d).mem (off (d.node b).save j) = d.mem (off (d.node b).save j) := by
  have hlaid := hb.laid b hm
  apply builtNode_mem_outside hr.2.2.1
  apply (hr.2.2.2 _ (List.mem_cons_of_mem _ hlaid.raw)).symm.not_covers
  exact hlaid.area_within.covers (hlaid.area_fits.covers_off hj)

end Build

theorem Wf.build (h : Wf built s) :
    Wf (builtAfter built (poolBuildOne s.data)) { s with data := (poolBuildOne s.data).2 } ∧
      ∀ b ∈ builtAfter built (poolBuildOne s.data),
        b ∉ built ∧ saved { s with data := (poolBuildOne s.data).2 } b = .default ∨
        b ∈ built ∧ ((poolBuildOne s.data).2.node b).save = (s.data.node b).save ∧
          saved { s with data := (poolBuildOne s.data).2 } b = s.saved b := by
  obtain ⟨hb, free, hp⟩ := h.pool
  rcases poolBuildOne_cases s.data with ⟨heap, heq, hl, -⟩ | ⟨node, raw, heap, heq, hn, hr, hl, -⟩
  · rw [heq]
    have hb' : Built { s.data with heap := heap } built := hb.of_heap fun _ hm => hl ▸ hm
    refine ⟨⟨⟨hb', free, hp.of_heap⟩, ?_, h.owner⟩, fun b hm => .inr ⟨hm, rfl, rfl⟩⟩
    apply h.image.imp_right
    rintro ⟨r, hlive, hrest⟩
    exact ⟨r, by rwa [← hl] at hlive, hrest⟩
  · rw [heq]
    have hbuilt : builtAfter built (true, builtNode node raw heap s.data) = node :: built := rfl
    have hsave : ∀ b ∈ built, ((builtNode node raw heap s.data).node b).save =
      (s.data.node b).save := by
      intro b hm
      have hne : b ≠ node := fun he => hb.node_fresh hn (he ▸ hm)
      exact (builtNode_node_other hne s.data).2
    rw [hbuilt]
    refine ⟨⟨⟨hb.builtNode hn hr hl, _, hp.builtNode hn.1 (hb.node_fresh hn)⟩, ?_, ?_⟩,
      fun b hm => ?_⟩
    · exact h.image.imp_right fun hi => imageLaid_builtNode hi hb hn hr hl
    · rcases h.owner with h0 | ⟨b, hm, he⟩
      · exact .inl h0
      · exact .inr ⟨b, List.mem_cons_of_mem _ hm, he.trans (hsave b hm).symm⟩
    · rcases List.mem_cons.mp hm with rfl | hm
      · refine .inl ⟨hb.node_fresh hn, ?_⟩
        show sseAt saveLayout (builtNode b raw heap s.data).mem _ = _
        rw [(builtNode_node_self s.data).2]
        exact (areaDefault_fresh ((areaBlock_within hr.2.2.1).fits hr.2.2.1)).sse
      · refine .inr ⟨hm, hsave b hm, ?_⟩
        show sseAt saveLayout (builtNode node raw heap s.data).mem _ = _
        rw [hsave b hm]
        exact sseAt_congr fun j hj => builtNode_area hb hr hm hj

theorem Wf.build_keeps (h : Wf built s) :
    Keeps built s { s with data := (poolBuildOne s.data).2 } := by
  have hsame : ∀ b ∈ built, ((poolBuildOne s.data).2.node b).save = (s.data.node b).save ∧
      Trap.saved { s with data := (poolBuildOne s.data).2 } b = s.saved b := by
    intro b hb
    rcases h.build.2 b (mem_builtAfter hb _) with ⟨hnot, -⟩ | ⟨-, hsame⟩
    · exact absurd hb hnot
    · exact hsame
  refine ⟨rfl, fun b hb => (hsame b hb).1, fun b hb => .inl (hsame b hb).2, fun b hb ho => ?_⟩
  rw [(hsame b hb).2, Trap.left, if_neg ho]
  rfl

/-! ## What the areas hold -/

/-- `Q` holds of every save area and what it holds. -/
def Holds (Q : Addr → Sse → Prop) (built : List Addr) (s : Trap) : Prop :=
  ∀ b ∈ built, Q (s.data.node b).save (s.saved b)

variable {Q : Addr → Sse → Prop}

theorem Keeps.holds (h : Keeps built s s') (hQ : Holds Q built s)
    (hlive : ∀ b ∈ built, s.fxOwner = (s.data.node b).save → Q s.fxOwner s.fx.sse) :
    Holds Q built s' := by
  intro b hb
  rw [h.save b hb]
  rcases h.saved b hb with he | ⟨ho, he⟩
  · rw [he]
    exact hQ b hb
  · rw [he, ← ho]
    exact hlive b hb ho

theorem Wf.build_holds (h : Wf built s) (hQ : Holds Q built s) (hdefault : ∀ p, Q p .default) :
    Holds Q (builtAfter built (poolBuildOne s.data))
      { s with data := (poolBuildOne s.data).2 } := by
  intro b hb
  rcases h.build.2 b hb with ⟨-, he⟩ | ⟨hm, hsave, he⟩
  · rw [he]
    exact hdefault _
  · rw [he]
    show Q ((poolBuildOne s.data).2.node b).save _
    rw [hsave]
    exact hQ b hm

/-! ## The rest of an event -/

/-- Nothing here depends on CR0 or on the live registers. -/
theorem Wf.withRegs (h : Wf built s) (fx : FxState) (cr0 : BitVec 32) :
    Wf built { s with fx := fx, cr0 := cr0 } :=
  ⟨h.pool, h.image, h.owner⟩

end Trap

theorem Cpu.access_trap (kernelX87 : Cpu → X87) {s : Cpu} (hts : s.ts = true) :
    ∃ cr0 x87, (s.access kernelX87).trap = { nmHandler s.cur s.trap with
      cr0 := cr0, fx := { (nmHandler s.cur s.trap).fx with x87 := x87 } } := by
  unfold Cpu.access
  rw [if_pos hts]
  exact ⟨_, _, rfl⟩

theorem Trap.Wf.access {kernelX87 : Cpu → X87} {built : List Addr} {s : Cpu}
    (h : s.trap.Wf built) :
    (s.access kernelX87).trap.Wf built ∧ s.trap.Keeps built (s.access kernelX87).trap := by
  by_cases hts : s.ts = true
  · obtain ⟨cr0, x87, he⟩ := s.access_trap kernelX87 hts
    obtain ⟨hwf, hkeeps⟩ := h.nmHandler s.cur
    rw [he]
    exact ⟨hwf.withRegs _ cr0, hkeeps.withRegs _ cr0⟩
  · unfold Cpu.access
    rw [if_neg hts]
    exact ⟨h, .of_mem rfl rfl (.refl _) rfl⟩

namespace Machine

variable {kernelX87 : Cpu → X87} {s : Machine} {e : MachineEvent}

/-- What an event does to the areas there are. -/
theorem step_keeps (h : s.cpu.trap.Wf s.built) :
    (s.step kernelX87 e).cpu.trap.Wf (s.step kernelX87 e).built ∧
      s.cpu.trap.Keeps s.built (s.step kernelX87 e).cpu.trap := by
  have haccess : (s.cpu.access kernelX87).trap.Wf s.built ∧
      s.cpu.trap.Keeps s.built (s.cpu.access kernelX87).trap := h.access
  cases e with
  | build => exact ⟨h.build.1, h.build_keeps⟩
  | lookup t => exact h.lookup (.lookup t)
  | release t => exact h.release t
  | create t => exact ⟨h, .of_mem rfl rfl (.refl _) rfl⟩
  | terminate t => exact ⟨h, .of_mem rfl rfl (.refl _) rfl⟩
  | x87 v => exact ⟨haccess.1.withRegs _ _, haccess.2.withRegs _ _⟩
  | sse e =>
    cases e with
    | read r => exact haccess
    | write r v => exact ⟨haccess.1.withRegs _ _, haccess.2.withRegs _ _⟩
    | switch t detour spurious =>
      cases detour with
      | true =>
        obtain ⟨hwf, hkeeps, -⟩ := h.swapDetour
        exact ⟨hwf.withRegs _ _, hkeeps.withRegs _ _⟩
      | false => exact ⟨h.withRegs _ _, .of_mem rfl rfl (.refl _) rfl⟩

end Machine

/-- A machine in which no thread has been served since the buffers were built. -/
structure Machine.Start (s : Machine) : Prop where
  pool : Prefilled s.data s.built
  image : s.cpu.trap.fxImage = 0 ∨ ImageLaid s.data s.built s.cpu.trap.fxImage
  owner : s.cpu.trap.fxOwner = 0
  given : s.given = ∅
  owned : s.owned = fun _ => .default

theorem Machine.Start.wf {s : Machine} (h : s.Start) : s.cpu.trap.Wf s.built :=
  ⟨⟨h.pool.layout, s.built, h.pool.placed⟩, h.image, .inl h.owner⟩

theorem Machine.Start.holds {s : Machine} {Q : Addr → Sse → Prop} (h : s.Start)
    (hdefault : ∀ p, Q p .default) : Trap.Holds Q s.built s.cpu.trap := by
  intro b hb
  have hsaved : s.cpu.trap.saved b = .default := (h.pool.default b hb).sse
  rw [hsaved]
  exact hdefault _

/-- `threadA` is current and has used neither SSE nor x87 yet. -/
def twoBuffersMachine : Machine where
  cpu := ⟨twoBuffersTrap, threadA, none⟩
  built := [0x81002000, 0x81000000]
  alive := {threadA}
  fresh := {threadA}
  given := ∅
  owned := fun _ => .default

theorem twoBuffersMachine_start : twoBuffersMachine.Start := by
  obtain ⟨built, hp, -, -, himage⟩ := twoBuffersTrap_loaded.pool
  have hlast : (twoBuffersTrap.data.node 0x81000000).link = 0 := by decide +kernel
  have hchain : FreeNodes twoBuffersTrap.data [0x81002000, 0x81000000] :=
    ⟨by decide +kernel, by decide, by decide +kernel, by decide, hlast⟩
  obtain rfl : built = [0x81002000, 0x81000000] := Chain.unique hp.placed.chain hchain
  exact ⟨hp, .inr himage, rfl, rfl, rfl⟩

end Nt351.Driver
