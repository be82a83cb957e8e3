import Mathlib

/-! Runs of a deterministic machine: a step function applied to a list of events.
Properties of a whole run are derived from what one step does, for one machine
(invariants), for a machine and its specification (simulation), for two runs of one
machine (unwinding), and for what is overwritten (the last write decides). -/

namespace Nt351.Runs

variable {σ τ ε φ : Type*} {step : σ → ε → σ} {tstep : τ → φ → τ}

def exec (step : σ → ε → σ) (s : σ) (es : List ε) : σ := es.foldl step s

@[simp] theorem exec_nil (s : σ) : exec step s [] = s := rfl

@[simp] theorem exec_cons (s : σ) (e : ε) (es : List ε) :
    exec step s (e :: es) = exec step (step s e) es := rfl

theorem exec_append (s : σ) (es fs : List ε) :
    exec step s (es ++ fs) = exec step (exec step s es) fs := List.foldl_append

theorem exec_concat (s : σ) (es : List ε) (e : ε) :
    exec step s (es ++ [e]) = step (exec step s es) e := by
  rw [exec_append, exec_cons, exec_nil]

/-- `P` holds of every step of the run: of the event and of the state it is taken in. -/
def Along (step : σ → ε → σ) (P : σ → ε → Prop) : σ → List ε → Prop
  | _, [] => True
  | s, e :: es => P s e ∧ Along step P (step s e) es

instance {P : σ → ε → Prop} [∀ s e, Decidable (P s e)] : ∀ s es, Decidable (Along step P s es)
  | _, [] => .isTrue trivial
  | s, e :: es =>
    have := instDecidableAlong (P := P) (step s e) es
    inferInstanceAs (Decidable (P s e ∧ Along step P (step s e) es))

theorem along_append {P : σ → ε → Prop} {s : σ} {es fs : List ε} :
    Along step P s (es ++ fs) ↔ Along step P s es ∧ Along step P (exec step s es) fs := by
  induction es generalizing s with
  | nil => simp only [List.nil_append, Along, exec_nil, true_and]
  | cons e es ih => simp only [List.cons_append, Along, ih, exec_cons, and_assoc]

theorem along_concat {P : σ → ε → Prop} {s : σ} {es : List ε} {e : ε} :
    Along step P s (es ++ [e]) ↔ Along step P s es ∧ P (exec step s es) e := by
  simp only [along_append, Along, and_true]

theorem Along.imp {P Q : σ → ε → Prop} {s : σ} {es : List ε} (h : Along step P s es)
    (hPQ : ∀ s e, P s e → Q s e) : Along step Q s es := by
  induction es generalizing s with
  | nil => trivial
  | cons e es ih => exact ⟨hPQ s e h.1, ih h.2⟩

theorem along_of_forall {P : σ → ε → Prop} {s : σ} {es : List ε} (h : ∀ s, ∀ e ∈ es, P s e) :
    Along step P s es := by
  induction es generalizing s with
  | nil => trivial
  | cons e es ih =>
    exact ⟨h s e List.mem_cons_self, ih fun s f hf => h s f (List.mem_cons_of_mem _ hf)⟩

theorem Along.and {P Q : σ → ε → Prop} {s : σ} {es : List ε} (h : Along step P s es)
    (h' : Along step Q s es) : Along step (fun s e => P s e ∧ Q s e) s es := by
  induction es generalizing s with
  | nil => trivial
  | cons e es ih => exact ⟨⟨h.1, h'.1⟩, ih h.2 h'.2⟩

/-! ## Invariants -/

theorem Along.invariant {C : σ → ε → Prop} {I : σ → Prop} {s : σ} {es : List ε}
    (h : Along step C s es) (h0 : I s) (hstep : ∀ s e, I s → C s e → I (step s e)) :
    Along step (fun s e => I s ∧ C s e) s es ∧ I (exec step s es) := by
  induction es generalizing s with
  | nil => exact ⟨trivial, h0⟩
  | cons e es ih =>
    have ih' := ih h.2 (hstep s e h0 h.1)
    exact ⟨⟨⟨h0, h.1⟩, ih'.1⟩, ih'.2⟩

theorem exec_invariant {I : σ → Prop} {s : σ} {es : List ε} (h0 : I s)
    (hstep : ∀ s e, I s → I (step s e)) : I (exec step s es) :=
  ((along_of_forall (P := fun _ _ => True) fun _ _ _ => trivial).invariant h0
    fun s e hs _ => hstep s e hs).2

/-! ## Two machines on matching events -/

/-- Where each step of one machine is a step of the other, so is each run. -/
theorem exec_map {R : σ → τ → Prop} {f : ε → φ} {s : σ} {t : τ} (h0 : R s t)
    (hstep : ∀ s t e, R s t → R (step s e) (tstep t (f e))) (es : List ε) :
    R (exec step s es) (exec tstep t (es.map f)) := by
  induction es generalizing s t with
  | nil => exact h0
  | cons e es ih => exact ih (hstep s t e h0)

theorem along_map_iff {R : σ → τ → Prop} {f : ε → φ} {P : σ → ε → Prop} {Q : τ → φ → Prop} {s : σ}
    {t : τ} {es : List ε} (h0 : R s t) (hstep : ∀ s t e, R s t → R (step s e) (tstep t (f e)))
    (hPQ : ∀ s t e, R s t → (P s e ↔ Q t (f e))) :
    Along step P s es ↔ Along tstep Q t (es.map f) := by
  induction es generalizing s t with
  | nil => exact Iff.rfl
  | cons e es ih =>
    simp only [List.map_cons, Along]
    rw [hPQ s t e h0, ih (hstep s t e h0)]

/-- Two runs whose events match pairwise: `M` relates the states and the events of each
pair of steps. -/
def Matched (step : σ → ε → σ) (tstep : τ → φ → τ) (M : σ → τ → ε → φ → Prop) :
    σ → τ → List ε → List φ → Prop
  | _, _, [], [] => True
  | s, t, e :: es, f :: fs => M s t e f ∧ Matched step tstep M (step s e) (tstep t f) es fs
  | _, _, _, _ => False

theorem Matched.unwind {M : σ → τ → ε → φ → Prop} {R : σ → τ → Prop} {s : σ} {t : τ} {es : List ε}
    {fs : List φ} (h : Matched step tstep M s t es fs) (h0 : R s t)
    (hstep : ∀ s t e f, R s t → M s t e f → R (step s e) (tstep t f)) :
    Matched step tstep (fun s t e f => R s t ∧ M s t e f) s t es fs ∧
      R (exec step s es) (exec tstep t fs) := by
  induction es generalizing s t fs with
  | nil =>
    cases fs with
    | nil => exact ⟨trivial, h0⟩
    | cons f fs => exact h.elim
  | cons e es ih =>
    cases fs with
    | nil => exact h.elim
    | cons f fs =>
      have ih' := ih h.2 (hstep s t e f h0 h.1)
      exact ⟨⟨⟨h0, h.1⟩, ih'.1⟩, ih'.2⟩

/-! ## Overwriting -/

/-- What one event overwrites, a run before it does not matter to. -/
theorem exec_overwritten {α : Type*} (get : σ → α) {f : ε}
    (hover : ∀ s e, get (step (step s e) f) = get (step s f)) (s : σ) (es : List ε) :
    get (step (exec step s es) f) = get (step s f) := by
  induction es generalizing s with
  | nil => rfl
  | cons e es ih => rw [exec_cons, ih, hover]

/-- The last event that writes decides, and it alone. -/
theorem exec_last {α : Type*} (get : σ → α) {Writes : ε → Prop} [DecidablePred Writes]
    (hidle : ∀ s e, ¬Writes e → get (step s e) = get s)
    (hover : ∀ s e f, Writes f → get (step (step s e) f) = get (step s f))
    (s : σ) (es : List ε) : get (exec step s es) =
      (es.filter Writes).getLast?.elim (get s) fun f => get (step s f) := by
  induction es using List.reverseRecOn with
  | nil => rfl
  | append_singleton es e ih =>
    rw [exec_concat, List.filter_append]
    by_cases he : Writes e
    · have hlast : [e].filter Writes = [e] := List.filter_eq_self.mpr (by simpa using he)
      rw [exec_overwritten get fun s e' => hover s e' e he, hlast, List.getLast?_concat,
        Option.elim_some]
    · have hnone : [e].filter Writes = [] := List.filter_eq_nil_iff.mpr (by simpa using he)
      rw [hidle _ e he, ih, hnone, List.append_nil]

end Nt351.Runs
