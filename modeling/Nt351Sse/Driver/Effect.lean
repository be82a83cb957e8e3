import Nt351Sse.Driver.Turnover

/-! What one #NM does, in whatever state it finds the pool and the table: the owner's area
gets the live XMM and MXCSR, the current thread's area is loaded, and nothing else that
anyone keeps is touched. -/

namespace Nt351.Driver
open Memory Probing Runs

/-- `b` is in the table or on the free list. -/
def Kept (d : Data) (b : Addr) : Prop :=
  b ≠ 0 ∧ (∃ idx, (d.table idx).buffer = b) ∨ Chain.Visits 0 (fun p => (d.node p).link) d.freeList b

def SaveArea (d : Data) (p : Addr) : Prop := ∃ b, Kept d b ∧ p = (d.node b).save

/-- The save areas and the image are apart from each other. -/
structure Spread (s : Trap) : Prop where
  image : (areaBlock s.fxImage).Fits
  area : ∀ p, SaveArea s.data p → (areaBlock p).Fits ∧ (areaBlock s.fxImage).Disjoint (areaBlock p)
  apart : ∀ p q, SaveArea s.data p → SaveArea s.data q → p ≠ q →
    (areaBlock p).Disjoint (areaBlock q)

/-- `g_FxOwner` is NULL or the `Save` of a buffer in the table. -/
def OwnerInTable (s : Trap) : Prop :=
  s.fxOwner = 0 ∨ ∃ idx, (s.data.table idx).buffer ≠ 0 ∧
    s.fxOwner = (s.data.node (s.data.table idx).buffer).save

/-- A #NM takes `s` to `s'`; the current thread's area is `area`, `0` for none. -/
structure NmEffect (s s' : Trap) (area : Addr) : Prop where
  flushed : s.fxOwner ≠ 0 → sseAt saveLayout s'.data.mem s.fxOwner = s.fx.sse
  loaded : s'.fx.sse = if area = 0 then .default else sseAt saveLayout s'.data.mem area
  owner : s'.fxOwner = area
  x87 : s'.fx.x87 = s.fx.x87
  cr0 : s'.cr0 = s.cr0
  others : ∀ p, SaveArea s.data p → p ≠ s.fxOwner → ∀ j < sseSaveSize, s'.data.mem (off p j) =
    s.data.mem (off p j)
  -- of the owner's area only the 132 bytes of XMM and MXCSR are written
  rest : ∀ a, ¬ (areaBlock s.fxImage).Covers a → s'.data.mem a = flushedMem s a
  same : s.fxOwner ≠ 0 → area = s.fxOwner → s'.fx.sse = s.fx.sse

variable {s : Trap} {d : Data} {built free : List Addr} {t p image : Addr}

theorem saveArea_of_lookup (h : (trapLookupSaveArea t d).1 ≠ 0) :
    SaveArea d (trapLookupSaveArea t d).1 := by
  obtain ⟨b, hl, harea⟩ := trapLookupSaveArea_lookup d t
  have hb : b ≠ 0 := by
    rintro rfl
    exact h harea
  rw [if_neg hb] at harea
  refine ⟨b, ?_, harea⟩
  generalize (trapLookupSaveArea t d).2 = d' at hl
  cases hl with
  | hit idx hp ht => exact .inl ⟨hb, idx, rfl⟩
  | claim idx hp he hf => exact .inr (.start hf)
  | exhausted idx hp he hf => exact absurd rfl hb
  | full hp => exact absurd rfl hb

theorem Spread.areaApart (h : Spread s) (t : Addr) : AreaApart s (trapLookupSaveArea t s.data).1 :=
  fun h0 => h.area _ (saveArea_of_lookup h0)

theorem OwnerInTable.saveArea (ho : OwnerInTable s) (h0 : s.fxOwner ≠ 0) :
    SaveArea s.data s.fxOwner := by
  obtain ⟨idx, hb, he⟩ := ho.resolve_left h0
  exact ⟨_, .inl ⟨hb, idx, rfl⟩, he⟩

theorem Spread.apart_owner (h : Spread s) (ho : OwnerInTable s) : Apart s :=
  ⟨h.image, fun h0 => h.area _ (ho.saveArea h0)⟩

/-- The flush reaches no area but the owner's. -/
theorem Spread.flushedMem (h : Spread s) (ho : OwnerInTable s) (hp : SaveArea s.data p)
    (hne : p ≠ s.fxOwner) {j : ℕ} (hj : j < sseSaveSize) :
    flushedMem s (off p j) = s.data.mem (off p j) := by
  unfold Driver.flushedMem
  split
  · rfl
  · next h0 =>
    have howner := ho.saveArea h0
    have hcov : (areaBlock p).Covers (off p j) := (h.area p hp).1.covers_off hj
    exact storeSse_outside (h.area _ howner).1 ((h.apart p _ hp howner hne).not_covers hcov)

/-- One #NM, whatever the live state, the table, the free list and the areas hold. -/
theorem nm_effect (s : Trap) (t : Addr) (h0 : s.fxImage ≠ 0) (h : Spread s) (ho : OwnerInTable s) :
    NmEffect s (nmHandler t s) (trapLookupSaveArea t s.data).1 := by
  have hspec := nmHandler_spec h0 (h.apart_owner ho) (h.areaApart t)
  -- outside the image the memory is as the flush left it
  have harea : ∀ p, SaveArea s.data p → ∀ j < sseSaveSize, (nmHandler t s).data.mem (off p j) =
    flushedMem s (off p j) := by
    intro p hp j hj
    have hcov : (areaBlock p).Covers (off p j) := (h.area p hp).1.covers_off hj
    exact hspec.mem _ ((h.area p hp).2.symm.not_covers hcov)
  have hflushed : s.fxOwner ≠ 0 → sseAt saveLayout (flushedMem s) s.fxOwner = s.fx.sse := by
    intro hne
    rw [flushedMem, if_neg hne]
    exact sseAt_storeSse
  have hloaded : ∀ area, area = (trapLookupSaveArea t s.data).1 → (nmHandler t s).fx.sse =
      if area = 0 then .default else sseAt saveLayout (nmHandler t s).data.mem area := by
    rintro area rfl
    rw [hspec.sse, loadedSse]
    split
    · rfl
    · next hne => exact (sseAt_congr (harea _ (saveArea_of_lookup hne))).symm
  refine ⟨fun hne => ?_, hloaded _ rfl, hspec.owner, hspec.x87, hspec.cr0, fun p hp hne j hj => ?_,
    hspec.mem, ?_⟩
  · rw [← hflushed hne]
    exact sseAt_congr (harea _ (ho.saveArea hne))
  · rw [harea p hp j hj]
    exact h.flushedMem ho hp hne hj
  · intro hne he
    rw [hspec.sse, loadedSse, he, if_neg hne]
    exact hflushed hne

/-! ## The loaded driver is spread -/

theorem Placed.built_of_kept (h : Placed d built free) {b : Addr} (hb : Kept d b) : b ∈ built := by
  rcases hb with hb | hb
  · exact (h.mem_built b).mpr (.inr hb)
  · exact (h.mem_built b).mpr (.inl (Chain.mem_of_visits h.chain hb))

theorem Spread.of_placed (hp : Placed s.data built free) (hb : Built s.data built)
    (hi : ImageLaid s.data built s.fxImage) : Spread s := by
  refine ⟨hi.fits, ?_, ?_⟩
  · rintro p ⟨b, hk, rfl⟩
    have hm := hp.built_of_kept hk
    exact ⟨(hb.laid b hm).area_fits, hi.disjoint hb hm⟩
  · rintro p q ⟨b, hk, rfl⟩ ⟨c, hk', rfl⟩ hne
    refine hb.area_disjoint (hp.built_of_kept hk) (hp.built_of_kept hk') ?_
    rintro rfl
    exact hne rfl

theorem Loaded.spread {n : ℕ} (h : Loaded n s) (t : Thread) :
    Spread (nmHandler t s) ∧ (nmHandler t s).fxImage ≠ 0 := by
  obtain ⟨built, hp, hn, hle, himage⟩ := h.pool
  have hlen : built.length < maxThreads := lt_of_le_of_lt (hn.trans_le hle) (by decide)
  obtain ⟨hs, hi, -, -⟩ := hp.serving.nmHandler hlen himage.ne_zero t
  have hlaid : ImageLaid (nmHandler t s).data built (nmHandler t s).fxImage := by
    rw [hi]
    exact himage.congr hs.same
  exact ⟨.of_placed hs.refines.placed hs.layout hlaid, hlaid.ne_zero⟩

/-- `threadB` traps while `threadA` owns the live state. -/
theorem nm_effect_twoBuffers :
    (nmHandler threadA twoBuffersTrap).fxOwner ≠ 0 ∧ NmEffect (nmHandler threadA twoBuffersTrap)
      (nmHandler threadB (nmHandler threadA twoBuffersTrap))
      (trapLookupSaveArea threadB (nmHandler threadA twoBuffersTrap).data).1 := by
  obtain ⟨hspread, himage⟩ := twoBuffersTrap_loaded.spread threadA
  have howner : OwnerInTable (nmHandler threadA twoBuffersTrap) := .inr
    ⟨1, by decide +kernel, by decide +kernel⟩
  exact ⟨by decide +kernel, nm_effect _ threadB himage hspread howner⟩

end Nt351.Driver
