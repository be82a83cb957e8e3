import Nt351Sse.Driver.Loaded

/-! Threads that come and go. Nothing of the driver runs when a thread terminates, so the
table keeps its KTHREAD address and its buffer: what decides whether a #NM finds a save
area is how many addresses have trapped since the driver was loaded, not how many threads
are alive. -/

namespace Nt351.Driver
open Memory Probing Runs

structure Turnover where
  trap : Trap
  alive : Finset Thread

inductive TurnoverEvent
  | create (t : Thread)
  | terminate (t : Thread)
  -- `fx` are the live registers when the trap is taken
  | nm (t : Thread) (fx : FxState)
  | swap

namespace Turnover

def step (s : Turnover) : TurnoverEvent → Turnover
  | .create t => { s with alive := insert t s.alive }
  | .terminate t => { s with alive := s.alive.erase t }
  | .nm t fx => { s with trap := nmHandler t { s.trap with fx := fx } }
  | .swap => { s with trap := swapDetour s.trap }

/-- Only live threads trap or terminate, and never more than `n` are alive. -/
def Allowed (n : ℕ) (s : Turnover) : TurnoverEvent → Prop
  | .create t => t ∉ s.alive ∧ s.alive.card < n
  | .terminate t => t ∈ s.alive
  | .nm t _ => t ∈ s.alive
  | .swap => True

instance (n : ℕ) (s : Turnover) : ∀ e, Decidable (s.Allowed n e)
  | .create _ => inferInstanceAs (Decidable (_ ∧ _))
  | .terminate _ => inferInstanceAs (Decidable (_ ∈ _))
  | .nm _ _ => inferInstanceAs (Decidable (_ ∈ _))
  | .swap => .isTrue trivial

/-- A #NM of `t` gets an area from `TrapLookupSaveArea`, so that `nm_defaults` is not taken. -/
def FindsArea (s : Turnover) (t : Thread) : Prop :=
  (trapLookupSaveArea t s.trap.data).1 ≠ 0 ∧ (nmHandler t s.trap).fxOwner ≠ 0

instance (s : Turnover) (t : Thread) : Decidable (s.FindsArea t) :=
  inferInstanceAs (Decidable (_ ∧ _))

end Turnover

/-- The addresses that take a #NM in a run, in order. -/
def trappers : List TurnoverEvent → List Thread
  | [] => []
  | .nm t _ :: es => t :: trappers es
  | _ :: es => trappers es

theorem trappers_append (es fs : List TurnoverEvent) :
    trappers (es ++ fs) = trappers es ++ trappers fs := by
  induction es with
  | nil => rfl
  | cons e es ih =>
    cases e with
    | nm t fx => exact congrArg (t :: ·) ih
    | create t => exact ih
    | terminate t => exact ih
    | swap => exact ih

theorem mem_trappers {es : List TurnoverEvent} {t : Thread} (h : t ∈ trappers es) :
    ∃ p fx, p ++ [.nm t fx] <+: es := by
  induction es with
  | nil => exact absurd h List.not_mem_nil
  | cons e es ih =>
    have hlater (h : t ∈ trappers es) : ∃ p fx, p ++ [.nm t fx] <+: e :: es := by
      obtain ⟨p, fx, hp⟩ := ih h
      exact ⟨e :: p, fx, List.cons_prefix_cons.mpr ⟨rfl, hp⟩⟩
    cases e with
    | nm u fx =>
      rcases List.mem_cons.mp h with rfl | h
      · exact ⟨[], fx, ⟨es, rfl⟩⟩
      · exact hlater h
    | create u => exact hlater h
    | terminate u => exact hlater h
    | swap => exact hlater h

variable {d₀ : Data} {built : List Addr} {a : Assignment Thread Addr} {s : Turnover} {t : Thread}
  {n : ℕ}

theorem Serving.nmHandler {s : Trap} (h : Serving d₀ built s.data a)
    (hlen : built.length < maxThreads) (h0 : s.fxImage ≠ 0) (t : Thread) :
    Serving d₀ built (nmHandler t s).data (a.acquire t) ∧ (nmHandler t s).fxImage = s.fxImage ∧
      (trapLookupSaveArea t s.data).1 = heldArea d₀ (a.acquire t) t ∧
      (nmHandler t s).fxOwner = heldArea d₀ (a.acquire t) t := by
  obtain ⟨hs, harea⟩ := h.step hlen (.trap t)
  have harea : (trapLookupSaveArea t s.data).1 = heldArea d₀ (a.acquire t) t := harea
  rw [nmHandler_eq h0 rfl]
  exact ⟨hs.withMem _, rfl, harea, harea⟩

theorem Serving.swapDetour {s : Trap} (h : Serving d₀ built s.data a) :
    Serving d₀ built (swapDetour s).data a := by
  obtain ⟨m, hm⟩ := swapDetour_data s
  rw [hm]
  exact h.withMem m

structure Running (d₀ : Data) (built : List Addr) (s : Turnover) (a : Assignment Thread Addr) :
    Prop where
  serving : Serving d₀ built s.trap.data a
  image : s.trap.fxImage ≠ 0

theorem Running.run (h : Running d₀ built s a) (hlen : built.length < maxThreads)
    (es : List TurnoverEvent) :
    Running d₀ built (exec Turnover.step s es) (exec Assignment.acquire a (trappers es)) := by
  induction es generalizing s a with
  | nil => exact h
  | cons e es ih =>
    cases e with
    | create t => exact ih ⟨h.serving, h.image⟩
    | terminate t => exact ih ⟨h.serving, h.image⟩
    | nm t fx =>
      have hserving : Serving d₀ built ({ s.trap with fx := fx } : Trap).data a := h.serving
      obtain ⟨hs, himage, -, -⟩ := hserving.nmHandler hlen h.image t
      exact ih ⟨hs, himage.symm ▸ h.image⟩
    | swap => exact ih ⟨h.serving.swapDetour, (swapDetour_fxImage s.trap).symm ▸ h.image⟩

theorem Running.findsArea (h : Running d₀ built s a) (hlen : built.length < maxThreads) :
    s.FindsArea t ↔ (a.acquire t).held t ≠ none := by
  obtain ⟨hs, -, harea, howner⟩ := h.serving.nmHandler hlen h.image t
  rw [Turnover.FindsArea, harea, howner, and_self, hs.area_ne_zero]

section Runs

variable {p q es : List TurnoverEvent} {b : Addr}

theorem held_mono (hb : (exec Assignment.acquire a (trappers p)).held t = some b)
    (q : List TurnoverEvent) : (exec Assignment.acquire a (trappers (p ++ q))).held t = some b := by
  rw [trappers_append, exec_append]
  exact exec_acquire_mono hb _

theorem Running.card_le (h : Running d₀ built s a) (hlen : built.length < maxThreads)
    (hfind : ∀ p t fx, p ++ [.nm t fx] <+: es → (exec Turnover.step s p).FindsArea t) :
    (trappers es).toFinset.card ≤ a.capacity := by
  have hsub : (trappers es).toFinset ⊆ (exec Assignment.acquire a (trappers es)).holders := by
    intro t ht
    obtain ⟨p, fx, hpre⟩ := mem_trappers (List.mem_toFinset.mp ht)
    have hne := ((h.run hlen p).findsArea hlen).mp (hfind p t fx hpre)
    obtain ⟨b, hb⟩ := Option.ne_none_iff_exists'.mp hne
    have hb' : (exec Assignment.acquire a (trappers (p ++ [.nm t fx]))).held t = some b := by
      rw [trappers_append, exec_append]
      exact hb
    obtain ⟨q, rfl⟩ := hpre
    rw [Assignment.mem_holders, held_mono hb' q]
    exact Option.some_ne_none b
  rw [← exec_acquire_capacity a (trappers es)]
  exact (Finset.card_le_card hsub).trans (Nat.le_add_right _ _)

theorem Running.findsArea_of_card (h : Running d₀ built s a) (hlen : built.length < maxThreads)
    (ha : a.holders = ∅) (hcard : (trappers es).toFinset.card ≤ a.capacity) {fx : FxState}
    (hpre : p ++ [.nm t fx] <+: es) : (exec Turnover.step s p).FindsArea t := by
  rw [(h.run hlen p).findsArea hlen]
  obtain ⟨q, rfl⟩ := hpre
  have ht : t ∈ (trappers (p ++ [.nm t fx] ++ q)).toFinset := by
    simp [trappers_append, trappers]
  have hsub : (exec Assignment.acquire a (trappers p)).holders ⊆
    (trappers (p ++ [.nm t fx] ++ q)).toFinset := by
    have hp := exec_acquire_holders_subset a (trappers p)
    rw [ha, Finset.empty_union] at hp
    apply hp.trans
    intro u hu
    rw [List.mem_toFinset] at hu ⊢
    rw [trappers_append, trappers_append]
    exact List.mem_append_left _ (List.mem_append_left _ hu)
  exact Assignment.acquire_held_of_room ht hsub (hcard.trans_eq (exec_acquire_capacity _ _).symm)

theorem Running.boundArea_stable (h : Running d₀ built s a) (hlen : built.length < maxThreads)
    (hb : boundArea t (exec Turnover.step s p).trap.data ≠ 0) (q : List TurnoverEvent) :
    boundArea t (exec Turnover.step s (p ++ q)).trap.data =
      boundArea t (exec Turnover.step s p).trap.data := by
  have hp := h.run hlen p
  have hq := h.run hlen (p ++ q)
  rw [hp.serving.boundArea hlen] at hb ⊢
  rw [hq.serving.boundArea hlen]
  obtain ⟨b, hheld⟩ := Option.ne_none_iff_exists'.mp (hp.serving.area_ne_zero.mp hb)
  rw [heldArea, heldArea, hheld, held_mono hheld q]

end Runs

/-- From the loaded driver, every #NM of a run finds a save area exactly if no more
addresses trap in the run than there are buffers; and an area once bound to an address
stays bound to it. -/
theorem nm_findsArea_iff (hs : Loaded n s.trap) (es : List TurnoverEvent) :
    ((∀ p t fx, p ++ [.nm t fx] <+: es → (exec Turnover.step s p).FindsArea t) ↔
      (trappers es).toFinset.card ≤ n) ∧
      ∀ p (t : Thread) q, p ++ q = es → boundArea t (exec Turnover.step s p).trap.data ≠ 0 →
        boundArea t (exec Turnover.step s es).trap.data =
          boundArea t (exec Turnover.step s p).trap.data := by
  obtain ⟨built, hp, hn, hle, himage⟩ := hs.pool
  have hlen : built.length < maxThreads := lt_of_le_of_lt (hn.trans_le hle) (by decide)
  set a := Assignment.start (K := Thread) built (Chain.nodup hp.placed.chain)
  have hstart : Running s.trap.data built s a := ⟨hp.serving, himage.ne_zero⟩
  have hcap : a.capacity = n := by
    simpa [a, Assignment.capacity, Assignment.start] using hn
  refine ⟨⟨fun h => ?_, fun hcard p t fx hpre => ?_⟩, ?_⟩
  · exact (hstart.card_le hlen h).trans_eq hcap
  · exact hstart.findsArea_of_card hlen rfl (hcard.trans_eq hcap.symm) hpre
  · rintro p t q rfl hb
    exact hstart.boundArea_stable hlen hb q

/-- Two threads come, trap and go; then a third comes. One is alive at a time. -/
def comeAndGo : List TurnoverEvent :=
  [.create threadA, .nm threadA twoBuffersTrap.fx, .terminate threadA,
    .create threadB, .nm threadB twoBuffersTrap.fx, .terminate threadB, .create threadC]

/-- Both of them find an area, and each stays bound to its address when the thread is gone. -/
theorem nm_findsArea_iff_twoBuffers :
    (∀ p t fx, p ++ [.nm t fx] <+: comeAndGo →
      (exec Turnover.step ⟨twoBuffersTrap, ∅⟩ p).FindsArea t) ∧
    boundArea threadA (exec Turnover.step ⟨twoBuffersTrap, ∅⟩ comeAndGo).trap.data =
      boundArea threadA (exec Turnover.step ⟨twoBuffersTrap, ∅⟩ (comeAndGo.take 2)).trap.data := by
  obtain ⟨hfinds, hbound⟩ := nm_findsArea_iff (s := ⟨twoBuffersTrap, ∅⟩) twoBuffersTrap_loaded
    comeAndGo
  exact ⟨hfinds.mpr (by decide), hbound _ threadA (comeAndGo.drop 2) (List.take_append_drop ..)
    (by decide +kernel)⟩

/-- With two buffers the third thread is turned away. -/
theorem comeAndGo_turnedAway : Loaded 2 twoBuffersTrap ∧
    Along Turnover.step (Turnover.Allowed 2) ⟨twoBuffersTrap, ∅⟩
      (comeAndGo ++ [.nm threadC twoBuffersTrap.fx]) ∧
    ¬ (exec Turnover.step ⟨twoBuffersTrap, ∅⟩ comeAndGo).FindsArea threadC := by
  refine ⟨twoBuffersTrap_loaded, ?_, ?_⟩
  · decide +kernel
  · decide +kernel

end Nt351.Driver
