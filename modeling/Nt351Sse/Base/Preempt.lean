import Nt351Sse.Base.Runs

/-! Programs that can be interrupted at marked points. A run records every state in which
an interrupt can be taken, those between the interrupts of one point included. `wp` asks
that `Safe` hold of all of them and that the result meet a postcondition; each of its
rules is an equivalence, so a run can be followed in both directions. -/

namespace Nt351.Preempt
open Runs

variable {σ ι α β : Type}

structure Outcome (σ α : Type) where
  result : α
  state : σ
  -- the states in which an interrupt could be taken, in order
  trace : List σ

def Prog (σ α : Type) : Type := σ → Outcome σ α

instance : Monad (Prog σ) where
  pure a := fun s => ⟨a, s, []⟩
  bind x f := fun s =>
    let o := x s
    let o' := f o.result o.state
    ⟨o'.result, o'.state, o.trace ++ o'.trace⟩

/-- Steps no interrupt comes between. -/
def call (f : σ → α × σ) : Prog σ α := fun s => ⟨(f s).1, (f s).2, []⟩

def read (f : σ → α) : Prog σ α := call fun s => (f s, s)

def write (f : σ → σ) : Prog σ Unit := call fun s => ((), f s)

def passed (serve : σ → ι → σ) : σ → List ι → List σ
  | s, [] => [s]
  | s, i :: is => s :: passed serve (serve s i) is

def point (serve : σ → ι → σ) (is : List ι) : Prog σ Unit :=
  fun s => ⟨(), exec serve s is, passed serve s is⟩

variable {serve : σ → ι → σ} {is : List ι} {Safe : σ → Prop} {s : σ}

theorem mem_passed {t : σ} (h : t ∈ passed serve s is) : ∃ js, js <+: is ∧ t = exec serve s js := by
  induction is generalizing s with
  | nil => exact ⟨[], List.nil_prefix, List.mem_singleton.mp h⟩
  | cons i is ih =>
    rcases List.mem_cons.mp h with rfl | h
    · exact ⟨[], List.nil_prefix, rfl⟩
    · obtain ⟨js, hjs, rfl⟩ := ih h
      exact ⟨i :: js, List.cons_prefix_cons.mpr ⟨rfl, hjs⟩, rfl⟩

theorem start_mem_passed (serve : σ → ι → σ) (s : σ) (is : List ι) : s ∈ passed serve s is := by
  cases is with
  | nil => exact List.mem_singleton.mpr rfl
  | cons i is => exact List.mem_cons_self

/-! ## Weakest preconditions -/

def wp (x : Prog σ α) (Safe : σ → Prop) (Q : α → σ → Prop) (s : σ) : Prop :=
  (∀ t ∈ (x s).trace, Safe t) ∧ Q (x s).result (x s).state

theorem wp_mono {x : Prog σ α} {Safe' : σ → Prop} {Q Q' : α → σ → Prop} (h : wp x Safe Q s)
    (hsafe : ∀ s, Safe s → Safe' s) (hQ : ∀ a s, Q a s → Q' a s) : wp x Safe' Q' s :=
  ⟨fun t ht => hsafe t (h.1 t ht), hQ _ _ h.2⟩

@[simp] theorem wp_pure (a : α) (Q : α → σ → Prop) : wp (pure a) Safe Q s ↔ Q a s :=
  ⟨fun h => h.2, fun h => ⟨fun _ ht => absurd ht List.not_mem_nil, h⟩⟩

@[simp] theorem wp_bind (x : Prog σ α) (f : α → Prog σ β) (Q : β → σ → Prop) :
    wp (x >>= f) Safe Q s ↔ wp x Safe (fun a s => wp (f a) Safe Q s) s := by
  have htrace : ∀ t, t ∈ ((x >>= f) s).trace ↔ t ∈ (x s).trace ∨
    t ∈ (f (x s).result (x s).state).trace :=
    fun t => List.mem_append
  unfold wp
  constructor
  · rintro ⟨hsafe, hQ⟩
    exact ⟨fun t ht => hsafe t ((htrace t).mpr (.inl ht)),
      fun t ht => hsafe t ((htrace t).mpr (.inr ht)), hQ⟩
  · rintro ⟨hsafe, hsafe', hQ⟩
    exact ⟨fun t ht => ((htrace t).mp ht).elim (hsafe t) (hsafe' t), hQ⟩

@[simp] theorem wp_call (f : σ → α × σ) (Q : α → σ → Prop) :
    wp (call f) Safe Q s ↔ Q (f s).1 (f s).2 :=
  ⟨fun h => h.2, fun h => ⟨fun _ ht => absurd ht List.not_mem_nil, h⟩⟩

@[simp] theorem wp_read (f : σ → α) (Q : α → σ → Prop) : wp (read f) Safe Q s ↔ Q (f s) s :=
  wp_call ..

@[simp] theorem wp_write (f : σ → σ) (Q : Unit → σ → Prop) : wp (write f) Safe Q s ↔ Q () (f s) :=
  wp_call ..

theorem wp_point (Q : Unit → σ → Prop) :
    wp (point serve is) Safe Q s ↔ (∀ t ∈ passed serve s is, Safe t) ∧ Q () (exec serve s is) :=
  Iff.rfl

theorem wp_point_start {Q : Unit → σ → Prop} (h : wp (point serve is) Safe Q s) : Safe s :=
  h.1 s (start_mem_passed serve s is)

/-- At a point it is enough to follow what the interrupts leave true. -/
theorem wp_point_of_invariant {I : List ι → σ → Prop} {Q : Unit → σ → Prop} (h0 : I [] s)
    (hstep : ∀ js i s, I js s → I (js ++ [i]) (serve s i)) (hsafe : ∀ js s, I js s → Safe s)
    (hQ : ∀ s, I is s → Q () s) : wp (point serve is) Safe Q s := by
  have hI : ∀ js, I js (exec serve s js) := by
    intro js
    induction js using List.reverseRecOn with
    | nil => exact h0
    | append_singleton js i ih =>
      rw [exec_concat]
      exact hstep js i _ ih
  rw [wp_point]
  refine ⟨fun t ht => ?_, hQ _ (hI is)⟩
  obtain ⟨js, -, rfl⟩ := mem_passed ht
  exact hsafe js _ (hI js)

end Nt351.Preempt
