import Nt351Sse.Driver.Prefill

/-! Runs of lookups from the prefilled pool, with no release: the table then is a
stable and injective map from threads to save areas that fails only when every buffer
is taken. -/

namespace Nt351.Driver
open Memory Probing Runs

inductive Call
  | trap (t : Thread)
  | lookup (t : Thread)

namespace Call

def thread : Call → Thread
  | trap t => t
  | lookup t => t

/-- The save area a call hands its thread, `0` for none. -/
def area (s : Data) : Call → Addr
  | trap t => (trapLookupSaveArea t s).1
  | lookup t =>
    let result := (tableLookupOrAssign t s).1
    if result = 0 then 0 else (s.node result).save

def step (s : Data) : Call → Data
  | trap t => (trapLookupSaveArea t s).2
  | lookup t => (tableLookupOrAssign t s).2

/-- The threads that got an area in a run of calls. -/
def served : Data → List Call → Finset Thread
  | _, [] => ∅
  | s, c :: cs =>
    if c.area s = 0 then served (c.step s) cs else insert c.thread (served (c.step s) cs)

theorem lookup_area (s : Data) (c : Call) :
    ∃ b, Lookup s c.thread b (c.step s) ∧ c.area s = if b = 0 then 0 else (s.node b).save := by
  cases c with
  | trap t => exact trapLookupSaveArea_lookup s t
  | lookup t => exact ⟨_, tableLookupOrAssign_lookup s t, rfl⟩

end Call

variable {s : Data} {built : List Addr} {a : Assignment Thread Addr} {t u : Thread} {b : Addr}

def heldArea (s : Data) (a : Assignment Thread Addr) (t : Thread) : Addr :=
  match a.held t with
  | none => 0
  | some b => (s.node b).save

/-- `s` is a refined state of the layout that `s₀` has. -/
structure Serving (s₀ : Data) (built : List Addr) (s : Data) (a : Assignment Thread Addr) :
    Prop where
  refines : Refines s built a
  layout : Built s built
  same : SameNodes s₀ s

theorem Refines.held_built (h : Refines s built a) (hb : a.held t = some b) : b ∈ built := by
  obtain ⟨idx, hi⟩ := (h.held t b).mp hb
  have hthread : (s.table idx).thread ≠ 0 := by
    rw [hi]
    exact t.2
  have hbuf : (s.table idx).buffer = b := by rw [hi]
  have hb0 : b ≠ 0 := fun h0 => hthread ((h.placed.slot idx).mpr (hbuf.trans h0))
  exact (h.placed.mem_built b).mpr (.inr ⟨hb0, idx, hbuf⟩)

theorem save_injective (h : Built s built) {c : Addr} (hb : b ∈ built) (hc : c ∈ built)
    (he : (s.node b).save = (s.node c).save) : b = c := by
  by_contra hbc
  have hd := h.area_disjoint hb hc hbc
  exact hd.base_ne (by simp [areaBlock, sseSaveSize]) (by simp [areaBlock, sseSaveSize]) he

theorem Serving.step {s₀ : Data} (h : Serving s₀ built s a) (hlen : built.length < maxThreads)
    (c : Call) :
    Serving s₀ built (c.step s) (a.acquire c.thread) ∧
      c.area s = heldArea s₀ (a.acquire c.thread) c.thread := by
  obtain ⟨b, hl, harea⟩ := c.lookup_area s
  obtain ⟨href, hheld⟩ := h.refines.lookup hlen hl
  obtain ⟨-, -, hsame⟩ := h.refines.placed.lookup c.thread.2 hl
  refine ⟨⟨href, h.layout.congr hsame, h.same.trans hsame⟩, ?_⟩
  rw [harea, heldArea, hheld]
  by_cases hb : b = 0
  · simp only [hb, if_true]
  · simp only [hb, if_false]
    exact (h.same.2 b).2

theorem Serving.run {s₀ : Data} (h : Serving s₀ built s a) (hlen : built.length < maxThreads)
    (cs : List Call) :
    Serving s₀ built (exec Call.step s cs) (exec Assignment.acquire a (cs.map Call.thread)) := by
  exact exec_map (R := fun s a => Serving s₀ built s a) h (fun s a c hs => (hs.step hlen c).1) cs

theorem Serving.served_eq {s₀ : Data} (h : Serving s₀ built s a) (hlen : built.length < maxThreads)
    (cs : List Call) :
    (exec Assignment.acquire a (cs.map Call.thread)).holders = a.holders ∪ Call.served s cs := by
  induction cs generalizing s a with
  | nil => simp [Call.served]
  | cons c cs ih =>
    obtain ⟨hs, harea⟩ := h.step hlen c
    rw [List.map_cons, exec_cons, ih hs, Assignment.acquire_holders, Call.served, harea, heldArea]
    cases hheld : (a.acquire c.thread).held c.thread with
    | none => simp only [if_true]
    | some b =>
      have hsave := (hs.layout.laid b (hs.refines.held_built hheld)).save_ne_zero
      rw [(hs.same.2 b).2] at hsave
      simp only [hsave, reduceCtorEq, if_false, Finset.insert_union, Finset.union_insert]

theorem exec_acquire_mono (h : a.held t = some b) (us : List Thread) :
    (exec Assignment.acquire a us).held t = some b :=
  exec_invariant (I := fun a : Assignment Thread Addr => a.held t = some b) h fun _ _ h =>
    Assignment.acquire_held_mono h

theorem exec_acquire_capacity (a : Assignment Thread Addr) (us : List Thread) :
    (exec Assignment.acquire a us).capacity = a.capacity :=
  exec_invariant (I := fun a' : Assignment Thread Addr => a'.capacity = a.capacity) rfl fun _ _ h =>
    (Assignment.acquire_capacity _ _).trans h

theorem exec_acquire_holders_subset (a : Assignment Thread Addr) (us : List Thread) :
    (exec Assignment.acquire a us).holders ⊆ a.holders ∪ us.toFinset := by
  induction us generalizing a with
  | nil => simp
  | cons u us ih =>
    have hu : (a.acquire u).holders ⊆ a.holders ∪ (u :: us).toFinset :=
      Assignment.acquire_holders_subset (by simp) Finset.subset_union_left
    refine (ih (a.acquire u)).trans (Finset.union_subset hu ?_)
    rw [List.toFinset_cons]
    exact (Finset.subset_insert u _).trans Finset.subset_union_right

theorem Serving.area_ne_zero {s₀ : Data} (h : Serving s₀ built s a) :
    heldArea s₀ a t ≠ 0 ↔ a.held t ≠ none := by
  unfold heldArea
  cases hheld : a.held t with
  | none => simp
  | some b =>
    have hsave := (h.layout.laid b (h.refines.held_built hheld)).save_ne_zero
    rw [(h.same.2 b).2] at hsave
    simpa using hsave

theorem Serving.area_injective {s₀ : Data} (h : Serving s₀ built s a) (htu : t ≠ u)
    (ht : heldArea s₀ a t ≠ 0) : heldArea s₀ a u ≠ heldArea s₀ a t := by
  obtain ⟨b, hb⟩ := Option.ne_none_iff_exists'.mp (h.area_ne_zero.mp ht)
  cases hu : a.held u with
  | none =>
    intro he
    exact ht (he.symm.trans (by rw [heldArea, hu]))
  | some c =>
    simp only [heldArea, hb, hu]
    intro he
    rw [← (h.same.2 b).2, ← (h.same.2 c).2] at he
    have hcb := save_injective h.layout (h.refines.held_built hu) (h.refines.held_built hb) he
    exact htu (a.inj t u c (hcb ▸ hb) hu)

/-! ## The trap-time table -/

/-- What the calls of any run from the prefilled pool `s` of `n` buffers return. -/
structure StableMap (s : Data) (n : ℕ) : Prop where
  stable : ∀ p c q d, Call.thread c = Call.thread d →
    c.area (exec Call.step s p) ≠ 0 →
    d.area (exec Call.step s (p ++ c :: q)) = c.area (exec Call.step s p)
  injective : ∀ p c q d, Call.thread c ≠ Call.thread d →
    c.area (exec Call.step s p) ≠ 0 →
    d.area (exec Call.step s (p ++ c :: q)) ≠ c.area (exec Call.step s p)
  refused : ∀ p c, c.area (exec Call.step s p) = 0 ↔
    Call.thread c ∉ Call.served s p ∧ (Call.served s p).card = n
  available : ∀ p c, (exec Call.step s p).freeList ≠ 0 →
    Call.area (exec Call.step s p) c ≠ 0

theorem Prefilled.serving (h : Prefilled s built) :
    Serving s built s (.start built (Chain.nodup h.placed.chain)) := ⟨h.refines, h.layout, .refl s⟩

theorem Prefilled.stableMap (h : Prefilled s built) (hlen : built.length < maxThreads) :
    StableMap s built.length := by
  have hstart := h.serving
  set a₀ := Assignment.start (K := Thread) built (Chain.nodup h.placed.chain)
  have hcap (us : List Thread) : (exec Assignment.acquire a₀ us).capacity = built.length := by
    rw [exec_acquire_capacity]
    simp [a₀, Assignment.capacity, Assignment.start]
  -- what a thread holds after its call `c`, it holds after any later call
  have hlater (p : List Call) (c : Call) (q : List Call) (u : Thread) {b : Addr}
      (hb : (exec Assignment.acquire a₀ (p.map Call.thread) |>.acquire c.thread).held c.thread =
        some b) :
      (exec Assignment.acquire a₀ ((p ++ c :: q).map Call.thread) |>.acquire u).held c.thread =
      some b := by
    rw [List.map_append, exec_append, List.map_cons, exec_cons]
    exact Assignment.acquire_held_mono (exec_acquire_mono hb _)
  refine ⟨fun p c q d hcd hc => ?_, fun p c q d hcd hc => ?_, fun p c => ?_, fun p c hf => ?_⟩
  · obtain ⟨hs, harea⟩ := (hstart.run hlen p).step hlen c
    obtain ⟨-, harea'⟩ := (hstart.run hlen (p ++ c :: q)).step hlen d
    rw [harea] at hc ⊢
    obtain ⟨b, hb⟩ := Option.ne_none_iff_exists'.mp (hs.area_ne_zero.mp hc)
    rw [harea', ← hcd, heldArea, hlater p c q c.thread hb, heldArea, hb]
  · obtain ⟨hs, harea⟩ := (hstart.run hlen p).step hlen c
    obtain ⟨hs', harea'⟩ := (hstart.run hlen (p ++ c :: q)).step hlen d
    rw [harea] at hc ⊢
    obtain ⟨b, hb⟩ := Option.ne_none_iff_exists'.mp (hs.area_ne_zero.mp hc)
    have hsame : heldArea s (exec Assignment.acquire a₀ ((p ++ c :: q).map Call.thread) |>.acquire
      d.thread)
        c.thread = heldArea s (exec Assignment.acquire a₀ (p.map Call.thread) |>.acquire c.thread)
        c.thread := by
      rw [heldArea, hlater p c q d.thread hb, heldArea, hb]
    rw [harea', ← hsame]
    exact hs'.area_injective hcd (hsame ▸ hc)
  · obtain ⟨hs, harea⟩ := (hstart.run hlen p).step hlen c
    have hserved := hstart.served_eq hlen p
    have hempty : a₀.holders = ∅ := rfl
    rw [hempty, Finset.empty_union] at hserved
    rw [harea, ← not_iff_not, ← ne_eq, hs.area_ne_zero, not_iff_not,
      Assignment.acquire_held_eq_none, hcap, hserved]
  · obtain ⟨hs, harea⟩ := (hstart.run hlen p).step hlen c
    rw [harea, hs.area_ne_zero, ne_eq, Assignment.acquire_held_eq_none, hcap]
    rintro ⟨-, hcard⟩
    have hfree := mt (Chain.eq_nil_iff (hstart.run hlen p).refines.placed.chain).mp hf
    have hlength := hcap (p.map Call.thread)
    rw [Assignment.capacity, hcard] at hlength
    exact hfree (List.length_eq_zero_iff.mp (by omega))

/-- The trap-time table from the prefilled pool is a stable and injective map that is
undefined on a thread only while the `g_BuffersBuilt` areas belong to other threads. -/
theorem trapTable_stableMap (s : Data) : StableMap (prefill s).2 (prefill s).1 := by
  obtain ⟨built, hp, hn, hle⟩ := prefill_spec s
  rw [← hn]
  exact hp.stableMap (lt_of_le_of_lt hle (by decide))

end Nt351.Driver
