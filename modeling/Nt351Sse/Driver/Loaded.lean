import Nt351Sse.Driver.Lookups
import Nt351Sse.Driver.Trap

/-! Where the FXSAVE image lies, the state the driver leaves for the trap code once it is
loaded, and the area the table binds to a thread. -/

namespace Nt351.Driver
open Memory Probing Runs

/-- `image` is the aligned part of a live block that is no buffer's. -/
def ImageLaid (d : Data) (built : List Addr) (image : Addr) : Prop :=
  ∃ raw, rawBlock raw ∈ d.heap.live ∧ image = alignUp raw ∧ ∀ b ∈ built, (d.node b).rawBase ≠ raw

variable {d d' d₀ : Data} {built : List Addr} {image b : Addr} {a : Assignment Thread Addr}
  {t : Thread}

theorem ImageLaid.within (h : ImageLaid d built image) :
    ∃ raw, rawBlock raw ∈ d.heap.live ∧ (areaBlock image).Within (rawBlock raw) := by
  obtain ⟨raw, hraw, rfl, -⟩ := h
  exact ⟨raw, hraw, areaBlock_within (d.heap.sound.valid _ hraw).2.2⟩

theorem ImageLaid.fits (h : ImageLaid d built image) : (areaBlock image).Fits := by
  obtain ⟨raw, hraw, hin⟩ := h.within
  exact hin.fits (d.heap.sound.valid _ hraw).2.2

theorem ImageLaid.ne_zero (h : ImageLaid d built image) : image ≠ 0 := by
  obtain ⟨raw, hraw, rfl, -⟩ := h
  exact alignUp_ne_zero (d.heap.sound.valid _ hraw).2.2 (d.heap.sound.valid _ hraw).1

theorem ImageLaid.disjoint (h : ImageLaid d built image) (hb : Built d built) (hm : b ∈ built) :
    (areaBlock image).Disjoint (areaBlock (d.node b).save) := by
  obtain ⟨raw, hraw, rfl, hne⟩ := h
  have hl := hb.laid b hm
  have hblocks : (rawBlock raw).Disjoint (rawBlock (d.node b).rawBase) := by
    refine (d.heap.sound.eq_or_disjoint hraw hl.raw).resolve_left fun he => ?_
    exact hne b hm (congrArg Block.base he).symm
  exact hblocks.of_within (areaBlock_within (d.heap.sound.valid _ hraw).2.2) hl.area_within

theorem ImageLaid.congr (h : ImageLaid d built image) (hs : SameNodes d d') :
    ImageLaid d' built image := by
  obtain ⟨raw, hraw, hi, hne⟩ := h
  refine ⟨raw, ?_, hi, fun b hb => ?_⟩
  · rw [hs.1]
    exact hraw
  · rw [(hs.2 b).1]
    exact hne b hb

theorem Prefilled.imageLaid {raw : Addr} {heap : Heap} (h : Prefilled d built)
    (ha : d.heap.alloc (sseSaveSize + sseSaveAlign) = (raw, heap)) (hr : raw ≠ 0) :
    Prefilled { d with heap := heap } built ∧ ImageLaid { d with heap := heap } built
      (alignUp raw) := by
  obtain ⟨hfresh, hl, -⟩ := Heap.alloc_fresh ha hr
  have hsub : d.heap.live ⊆ heap.live := by
    rw [hl]
    exact List.subset_cons_self ..
  refine ⟨h.of_heap hsub, raw, ?_, rfl, fun b hb => ?_⟩
  · change rawBlock raw ∈ heap.live
    rw [hl]
    exact List.mem_cons_self
  · exact fresh_ne d.heap.sound hfresh (h.layout.laid b hb).raw

/-- The area a thread holds lies apart from the image. -/
theorem Serving.heldArea_apart (h : Serving d₀ built d a) (hi : ImageLaid d built image)
    (h0 : heldArea d₀ a t ≠ 0) :
    (areaBlock (heldArea d₀ a t)).Fits ∧
      (areaBlock image).Disjoint (areaBlock (heldArea d₀ a t)) := by
  obtain ⟨b, hb⟩ := Option.ne_none_iff_exists'.mp (h.area_ne_zero.mp h0)
  have hm := h.refines.held_built hb
  have hsave : heldArea d₀ a t = (d.node b).save := by rw [heldArea, hb, (h.same.2 b).2]
  rw [hsave]
  exact ⟨(h.layout.laid b hm).area_fits, hi.disjoint h.layout hm⟩

/-! ## Pool memory does not matter to the layout -/

theorem Refines.withMem (h : Refines d built a) (m : Mem) : Refines { d with mem := m } built a :=
  ⟨⟨h.placed.chain, h.placed.slot, h.placed.inj, h.placed.apart, h.placed.mem_built,
    h.placed.nodup⟩, h.chained, h.held⟩

theorem Serving.withMem (h : Serving d₀ built d a) (m : Mem) :
    Serving d₀ built { d with mem := m } a :=
  ⟨h.refines.withMem m, h.layout.congr ⟨rfl, fun _ => ⟨rfl, rfl⟩⟩, h.same⟩

/-- The save area bound to a thread in `g_Table`, `0` for none. -/
def boundArea (thread : Addr) (d : Data) : Addr :=
  match tableProbe d.table thread with
  | none => 0
  | some idx => if (d.table idx).thread = thread then (d.node (d.table idx).buffer).save else 0

theorem Serving.boundArea (h : Serving d₀ built d a) (hlen : built.length < maxThreads) :
    boundArea t d = heldArea d₀ a t := by
  unfold Driver.boundArea heldArea
  cases hp : tableProbe d.table t with
  | none =>
    obtain ⟨idx, hi⟩ := h.refines.placed.exists_empty hlen
    rw [tableProbe_eq_find t.2] at hp
    exact absurd (tableKey_eq_none.mpr hi) (find_eq_none hp idx)
  | some idx =>
    rcases tableProbe_stops hp with ht | he
    · rw [h.refines.held_of_slot ht]
      simp only [ht, if_true]
      exact (h.same.2 _).2
    · have hne : (d.table idx).thread ≠ t := fun ht => t.2 (ht.symm.trans he)
      rw [h.refines.held_none hp he]
      simp only [hne, if_false]

/-! ## The loaded driver -/

/-- `n` buffers are built and free, the table is empty and nobody owns the live state. -/
structure Loaded (n : ℕ) (s : Trap) : Prop where
  pool : ∃ built, Prefilled s.data built ∧ built.length = n ∧ n ≤ prefillBuffers ∧
    ImageLaid s.data built s.fxImage
  owner : s.fxOwner = 0

def twoBuffersTrap : Trap :=
  let d := (prefill twoBuffers).2
  let (raw, heap) := d.heap.alloc (sseSaveSize + sseSaveAlign)
  { data := { d with heap := heap }
    fxImage := alignUp raw
    fxOwner := 0
    nmCount := 0
    swapFlushes := 0
    fx := ⟨⟨fun _ => 0, fun _ => 0⟩, .default, 0xffff⟩
    cr0 := 0x8001003b }

theorem twoBuffersTrap_loaded : Loaded 2 twoBuffersTrap := by
  obtain ⟨built, hp, hn, hle⟩ := prefill_spec twoBuffers
  rcases ha : (prefill twoBuffers).2.heap.alloc (sseSaveSize + sseSaveAlign) with ⟨raw, heap⟩
  have hr : ((prefill twoBuffers).2.heap.alloc (sseSaveSize + sseSaveAlign)).1 ≠
    0 := by decide +kernel
  have h2 : (prefill twoBuffers).1 = 2 := by decide +kernel
  rw [ha] at hr
  obtain ⟨hp', himage⟩ := hp.imageLaid ha hr
  have hdata : twoBuffersTrap.data = { (prefill twoBuffers).2 with heap := heap } := by
    simp only [twoBuffersTrap, ha]
  have hfx : twoBuffersTrap.fxImage = alignUp raw := by
    simp only [twoBuffersTrap, ha]
  refine ⟨⟨built, ?_, hn.trans h2, by decide, ?_⟩, rfl⟩
  · rw [hdata]
    exact hp'
  · rw [hdata, hfx]
    exact himage

end Nt351.Driver
