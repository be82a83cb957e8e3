import Nt351Sse.Driver.Entry
import Nt351Sse.Driver.Account

/-! What stays true of the pool, the table and the trap state while traps and switches are
served, and what the trap code writes to: the image and the save areas. -/

namespace Nt351.Driver
open Memory Probing Runs Preempt

/-- What a load has built: the buffers and the image at `raw`, with the data layer as the
driver's own code has left it, before the traps that came since. -/
structure Taken where
  data : Data
  built : List Addr
  raw : Addr

/-- An address that is in no save area and not in the image. -/
structure Taken.Foreign (v : Taken) (x : Addr) : Prop where
  image : ¬ (rawBlock v.raw).Covers x
  area : ∀ b ∈ v.built, ¬ (rawBlock (v.data.node b).rawBase).Covers x

structure Pools (v : Taken) (a : Assignment Thread Addr) (t : Trap) : Prop where
  serving : Serving v.data v.built t.data a
  len : v.built.length < maxThreads
  image : t.fxImage = alignUp v.raw
  raw : rawBlock v.raw ∈ v.data.heap.live
  rawApart : ∀ b ∈ v.built, (v.data.node b).rawBase ≠ v.raw
  owner : t.fxOwner = 0 ∨ ∃ b ∈ v.built, t.fxOwner = (v.data.node b).save
  kept : ∀ x, v.Foreign x → t.data.mem x = v.data.mem x

variable {v : Taken} {a : Assignment Thread Addr} {t t' : Trap} {u : Thread} {x : Addr}

theorem Pools.heap_eq (h : Pools v a t) : t.data.heap = v.data.heap := h.serving.same.1

theorem Pools.taken_imageLaid (h : Pools v a t) : ImageLaid v.data v.built t.fxImage :=
  ⟨v.raw, h.raw, h.image, h.rawApart⟩

theorem Pools.imageLaid (h : Pools v a t) : ImageLaid t.data v.built t.fxImage :=
  h.taken_imageLaid.congr h.serving.same

theorem Pools.laid (h : Pools v a t) {b : Addr} (hb : b ∈ v.built) : Laid t.data b :=
  h.serving.layout.laid b hb

theorem Pools.owner_cases (h : Pools v a t) (h0 : t.fxOwner ≠ 0) :
    ∃ b ∈ v.built, t.fxOwner = (t.data.node b).save := by
  obtain ⟨b, hb, ho⟩ := h.owner.resolve_left h0
  exact ⟨b, hb, ho.trans (h.serving.same.2 b).2.symm⟩

theorem Pools.apart (h : Pools v a t) : Apart t := by
  refine ⟨h.imageLaid.fits, fun h0 => ?_⟩
  obtain ⟨b, hb, ho⟩ := h.owner_cases h0
  rw [ho]
  exact ⟨(h.laid hb).area_fits, h.imageLaid.disjoint h.serving.layout hb⟩

theorem Pools.areaApart (h : Pools v a t) (u : Thread) :
    AreaApart t (trapLookupSaveArea u t.data).1 := by
  obtain ⟨hs, -, harea, -⟩ := h.serving.nmHandler h.len h.imageLaid.ne_zero u
  rw [harea]
  exact hs.heldArea_apart (h.taken_imageLaid.congr hs.same)

theorem Pools.flushedMem (h : Pools v a t) (hx : v.Foreign x) : flushedMem t x = t.data.mem x := by
  unfold Driver.flushedMem
  split
  · rfl
  · next h0 =>
    obtain ⟨b, hb, ho⟩ := h.owner_cases h0
    have hnot := hx.area b hb
    rw [← (h.serving.same.2 b).1] at hnot
    rw [ho]
    exact storeSse_outside (h.laid hb).area_fits fun hc => hnot ((h.laid hb).area_within.covers hc)

theorem Pools.not_image (h : Pools v a t) (hx : v.Foreign x) :
    ¬ (areaBlock t.fxImage).Covers x := by
  have hfits := (v.data.heap.sound.valid _ h.raw).2.2
  rw [h.image]
  exact fun hc => hx.image ((areaBlock_within hfits).covers hc)

theorem Pools.nm (h : Pools v a t) (u : Thread) : Pools v (a.acquire u) (nmHandler u t) := by
  -- the table hands the thread its buffer, and memory changes in areas and image only
  obtain ⟨hs, himage, -, howner⟩ := h.serving.nmHandler h.len h.imageLaid.ne_zero u
  have hspec := nmHandler_spec h.imageLaid.ne_zero h.apart (h.areaApart u)
  refine ⟨hs, h.len, himage.trans h.image, h.raw, h.rawApart, ?_, fun x hx => ?_⟩
  · rw [howner, heldArea]
    cases hb : (a.acquire u).held u with
    | none => exact .inl rfl
    | some b => exact .inr ⟨b, hs.refines.held_built hb, rfl⟩
  · rw [hspec.mem x (h.not_image hx), h.flushedMem hx]
    exact h.kept x hx

theorem Pools.swap (h : Pools v a t) : Pools v a (swapDetour t) := by
  have hspec := swapDetour_spec h.imageLaid.ne_zero h.apart
  refine ⟨h.serving.swapDetour, h.len, hspec.image.trans h.image, h.raw,
    h.rawApart, .inl hspec.owner, fun x hx => ?_⟩
  rw [hspec.mem x (h.not_image hx), h.flushedMem hx]
  exact h.kept x hx

theorem Pools.withFx (h : Pools v a t) (fx : FxState) (cr0 : BitVec 32) :
    Pools v a { t with fx := fx, cr0 := cr0 } :=
  ⟨h.serving, h.len, h.image, h.raw, h.rawApart, h.owner, h.kept⟩

/-! ## What the driver's own code does -/

def Taken.withHeap (heap : Heap) (v : Taken) : Taken :=
  { v with data := { v.data with heap := heap } }

def Taken.withMem (f : Mem → Mem) (v : Taken) : Taken :=
  { v with data := { v.data with mem := f v.data.mem } }

theorem Pools.withHeap (h : Pools v a t) {heap : Heap} (hraw : rawBlock v.raw ∈ heap.live)
    (hbuffers : ∀ c ∈ bufferBlocks v.data.node v.built, c ∈ heap.live) :
    Pools (v.withHeap heap) a { t with data := { t.data with heap := heap } } := by
  have hrefines : Refines { t.data with heap := heap } v.built a :=
    ⟨h.serving.refines.placed.of_heap, h.serving.refines.chained, h.serving.refines.held⟩
  refine ⟨⟨hrefines, ⟨h.serving.layout.nodup, fun b hb => ⟨?_, ?_, (h.laid hb).save⟩,
    h.serving.layout.rawInj⟩,
    rfl, h.serving.same.2⟩, h.len, h.image, hraw, h.rawApart, h.owner,
      fun x hx => h.kept x ⟨hx.image, hx.area⟩⟩
  · exact hbuffers _ (mem_bufferBlocks.mpr ⟨b, hb, .inl rfl⟩)
  · refine hbuffers _ (mem_bufferBlocks.mpr ⟨b, hb, .inr ?_⟩)
    exact congrArg rawBlock (h.serving.same.2 b).1

theorem Pools.withMem (h : Pools v a t) {f : Mem → Mem}
    (hf : ∀ m m' x, m x = m' x → f m x = f m' x) : Pools (v.withMem f) a (t.withMem f) :=
  ⟨⟨h.serving.refines.withMem _, h.serving.layout.congr ⟨rfl, fun _ => ⟨rfl, rfl⟩⟩, h.serving.same⟩,
    h.len, h.image,
    h.raw, h.rawApart, h.owner, fun x hx => hf _ _ _ (h.kept x ⟨hx.image, hx.area⟩)⟩

/-! ## Interrupts -/

variable {E : Env} {s : System}

def nms : List Interrupt → List Thread
  | [] => []
  | .nm u :: is => u :: nms is
  | _ :: is => nms is

theorem nms_append (is js : List Interrupt) : nms (is ++ js) = nms is ++ nms js := by
  induction is with
  | nil => rfl
  | cons i is ih =>
    cases i with
    | nm u => exact congrArg (u :: ·) ih
    | swap => exact ih
    | others fx cr0 => exact ih

/-- The assignment once the interrupts `is` are served: only a #NM that reaches
`NmHandler` draws on it. -/
def drawn (E : Env) (c : Control) (a : Assignment Thread Addr) (is : List Interrupt) :
    Assignment Thread Addr :=
  if gateTarget c.gate = E.nmHandler then exec Assignment.acquire a (nms is) else a

theorem Pools.serve {is : List Interrupt} (h : Pools v (drawn E s.ctl a is) s.trap)
    (i : Interrupt) : Pools v (drawn E s.ctl a (is ++ [i])) (serve E s i).trap := by
  have hdrawn (hi : nms [i] = []) : drawn E s.ctl a (is ++ [i]) = drawn E s.ctl a is := by
    rw [drawn, drawn, nms_append, hi, List.append_nil]
  cases i with
  | nm u =>
    rw [serve_nm]
    by_cases hg : gateTarget s.ctl.gate = E.nmHandler
    · have hd : drawn E s.ctl a (is ++ [.nm u]) = (drawn E s.ctl a is).acquire u := by
        rw [drawn, drawn, if_pos hg, if_pos hg, nms_append]
        exact exec_concat ..
      rw [hd]
      simp only [hg, if_true]
      exact h.nm u
    · have hd : drawn E s.ctl a (is ++ [.nm u]) = drawn E s.ctl a is := by
        rw [drawn, drawn, if_neg hg, if_neg hg]
      rw [hd]
      simp only [hg, if_false]
      exact h
  | swap =>
    rw [hdrawn rfl, serve_swap]
    split
    · exact h.swap
    · exact h
  | others fx cr0 =>
    rw [hdrawn rfl]
    exact h.withFx fx cr0

theorem wp_interrupts {p : Point} {Safe : System → Prop} {Q : Unit → System → Prop}
    (h : Pools v a s.trap) (hsafe : ∀ t a', Pools v a' t → Safe ⟨t, s.ctl⟩)
    (hQ : ∀ t, Pools v (drawn E s.ctl a (E.sched p)) t → Q () ⟨t, s.ctl⟩) :
    wp (interrupts E p) Safe Q s := by
  have h0 : drawn E s.ctl a [] = a := by simp [drawn, nms]
  refine wp_point_of_invariant (I := fun is s' => s'.ctl = s.ctl ∧
    Pools v (drawn E s.ctl a is) s'.trap) ⟨rfl, ?_⟩
    ?_ ?_ ?_
  · rw [h0]
    exact h
  · rintro is i s' ⟨hc, hp⟩
    rw [← hc] at hp ⊢
    exact ⟨serve_ctl i, hp.serve i⟩
  · rintro is s' ⟨hc, hp⟩
    rw [show s' = ⟨s'.trap, s.ctl⟩ by rw [← hc]]
    exact hsafe _ _ hp
  · rintro s' ⟨hc, hp⟩
    rw [show s' = ⟨s'.trap, s.ctl⟩ by rw [← hc]]
    exact hQ _ hp

theorem serve_unhooked (hg : gateTarget s.ctl.gate ≠ E.nmHandler)
    (hj : ¬ IsJmp s.ctl.text swapContextVa E.swapDetour) (i : Interrupt) :
    ∃ fx cr0, serve E s i = s.setTrap fun t => { t with fx := fx, cr0 := cr0 } := by
  cases i with
  | nm u => exact ⟨s.trap.fx, s.trap.cr0, (serve_nm u).trans (if_neg hg)⟩
  | swap => exact ⟨s.trap.fx, s.trap.cr0, serve_swap.trans (if_neg hj)⟩
  | others fx cr0 => exact ⟨fx, cr0, rfl⟩

end Nt351.Driver
