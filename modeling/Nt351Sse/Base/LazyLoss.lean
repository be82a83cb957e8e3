import Nt351Sse.Base.LazyContext

/-! What becomes of one field of a key's context. It reads as the key left it until a trap
overwrites the live context unsaved; from then on it reads as the key's record has it. -/

namespace Nt351.LazyContext
open State

variable {K B V C F : Type*} [DecidableEq K] [DecidableEq B] {R : Record V C}
  {s : State K B V C} {k : K} {e : Event K V} {π : V → F} {old new : F}

/-- The event leaves the field `π` of key `k` alone. -/
def Event.Leaves (π : V → F) (cur k : K) : Event K V → Prop
  | .write f => cur = k → ∀ v, π (f v) = π v
  | _ => True

variable (R) in
/-- A trap overwrites the live context of `k` unsaved, and the record of `k` has another
value in the field `π`. -/
def Loses (π : V → F) (k : K) (s : State K B V C) (e : Event K V) : Prop :=
  e.isAccess ∧ s.armed = true ∧ s.owner = none ∧ s.loaded = some k ∧
    π s.live ≠ π (saved R s.pool s.area k)

/-- After a trap every key's context is in its record. -/
theorem saved_trap (hw : s.Wf) (hf : s.FreeDefault R) (k : K) :
    saved R (s.trap R).pool (s.trap R).area k = (s.trap R).value R k := by
  rw [value_trap hw hf, ← saved_flushed hw, ← saved_acquire (hf.flushed hw) s.cur]
  rfl

omit [DecidableEq B] in
theorem value_of_loaded (h : s.loaded = some k) : s.value R k = s.live := if_pos h

omit [DecidableEq B] in
theorem value_of_not_loaded (h : s.loaded ≠ some k) : s.value R k = saved R s.pool s.area k :=
  if_neg h

variable (R) in
/-- The field in the context and in the record of `k`, from `s` to `s'`: kept, or lost. -/
structure Moved (π : V → F) (k : K) (s s' : State K B V C) (lost : Prop) : Prop where
  keep : ¬ lost → π (s'.value R k) = π (s.value R k) ∧
    (π (saved R s'.pool s'.area k) = π (s.value R k) ∨
      π (saved R s'.pool s'.area k) = π (saved R s.pool s.area k))
  lose : lost → π (s'.value R k) = π (saved R s.pool s.area k) ∧
    π (saved R s'.pool s'.area k) = π (saved R s.pool s.area k)

omit [DecidableEq B] in
theorem moved_refl (s : State K B V C) {lost : Prop} (h : ¬ lost) : Moved R π k s s lost :=
  ⟨fun _ => ⟨rfl, .inr rfl⟩, fun hl => absurd hl h⟩

theorem moved_access (hw : s.Wf) (hf : s.FreeDefault R) (he : e.isAccess) :
    Moved R π k s (s.access R) (Loses R π k s e) := by
  refine access_cases (P := fun s' => Moved R π k s s' (Loses R π k s e)) (fun ha => ?_)
    fun hidle => moved_refl s fun hl => ?_
  · have hsaved := saved_trap hw hf k
    have hvalue := value_trap (R := R) hw hf k
    by_cases hl : s.loaded = some k
    · by_cases ho : s.owner = none
      · -- the live context is overwritten unsaved
        rw [if_neg fun hc => hc.1 ho] at hvalue
        refine ⟨fun hkeep => ?_, fun _ => ?_⟩
        · have hsame : π s.live = π (saved R s.pool s.area k) := by
            by_contra hne
            exact hkeep ⟨he, ha, ho, hl, hne⟩
          rw [hsaved, hvalue, value_of_loaded hl, hsame]
          exact ⟨rfl, .inl rfl⟩
        · rw [hsaved, hvalue]
          exact ⟨rfl, rfl⟩
      · rw [if_pos ⟨ho, hl⟩] at hvalue
        refine ⟨fun _ => ?_, fun hlost => absurd hlost.2.2.1 ho⟩
        rw [hsaved, hvalue, value_of_loaded hl]
        exact ⟨rfl, .inl rfl⟩
    · rw [if_neg fun hc => hl hc.2] at hvalue
      refine ⟨fun _ => ?_, fun hlost => absurd hlost.2.2.2.1 hl⟩
      rw [hsaved, hvalue, value_of_not_loaded hl]
      exact ⟨rfl, .inl rfl⟩
  · exact absurd (hl.2.1.symm.trans hidle) Bool.true_eq_false.mp

theorem moved_flush (hw : s.Wf) {lost : Prop} (h : ¬ lost) : Moved R π k s (s.flush R) lost := by
  refine ⟨fun _ => ⟨congrArg π (value_flush hw k), ?_⟩, fun hl => absurd hl h⟩
  have hsaved : saved R (s.flush R).pool (s.flush R).area k = saved R s.pool (s.flushed R) k := rfl
  rw [hsaved, saved_flushed hw]
  split
  · next hown => exact .inl (congrArg π (value_of_loaded hown.2).symm)
  · exact .inr rfl

theorem moved_step (hw : s.Wf) (hf : s.FreeDefault R) (he : e.Leaves π s.cur k) :
    Moved R π k s (s.step R e) (Loses R π k s e) := by
  cases e with
  | read => exact moved_access hw hf trivial
  | write f =>
    have h := moved_access (π := π) (k := k) (e := .write f) hw hf trivial
    have hvalue : π ((s.step R (.write f)).value R k) = π ((s.access R).value R k) := by
      have hloaded := hw.access_loaded (R := R)
      by_cases hk : s.cur = k
      · subst hk
        have hwritten : (s.step R (.write f)).value R s.cur = f (s.access R).live := if_pos hloaded
        rw [value_of_loaded hloaded, hwritten]
        exact he rfl _
      · have hne : (s.access R).loaded ≠ some k := fun hc =>
          hk (Option.some.inj (hloaded.symm.trans hc))
        rw [value_of_not_loaded hne]
        exact congrArg π (if_neg hne)
    exact ⟨fun hkeep => hvalue ▸ h.keep hkeep, fun hlost => hvalue ▸ h.lose hlost⟩
  | switch j flush spurious =>
    have hnot : ¬ Loses R π k s (.switch j flush spurious) := fun hl => hl.1
    cases flush with
    | true => exact ⟨(moved_flush hw hnot).keep, (moved_flush hw hnot).lose⟩
    | false => exact ⟨(moved_refl s hnot).keep, (moved_refl s hnot).lose⟩

/-! ## A field that is written once -/

variable (R) in
/-- The field is as it was before the key wrote it, in the context and in the record. -/
def Clean (π : V → F) (k : K) (old : F) (s : State K B V C) : Prop :=
  π (s.value R k) = old ∧ π (saved R s.pool s.area k) = old

variable (R) in
/-- The field is as the key wrote it; the record may not have it yet. -/
def Held (π : V → F) (k : K) (old new : F) (s : State K B V C) : Prop :=
  π (s.value R k) = new ∧
    (π (saved R s.pool s.area k) = old ∨ π (saved R s.pool s.area k) = new)

theorem Clean.step (h : Clean R π k old s) (hw : s.Wf) (hf : s.FreeDefault R)
    (he : e.Leaves π s.cur k) : Clean R π k old (s.step R e) := by
  have hmoved := moved_step hw hf he
  obtain ⟨hvalue, hsaved⟩ := h
  by_cases hlost : Loses R π k s e
  · obtain ⟨hv, hs⟩ := hmoved.lose hlost
    exact ⟨hv.trans hsaved, hs.trans hsaved⟩
  · obtain ⟨hv, hs⟩ := hmoved.keep hlost
    exact ⟨hv.trans hvalue, hs.elim (·.trans hvalue) (·.trans hsaved)⟩

theorem Held.step (h : Held R π k old new s) (hw : s.Wf) (hf : s.FreeDefault R)
    (he : e.Leaves π s.cur k) (hkeep : ¬ Loses R π k s e) :
    Held R π k old new (s.step R e) := by
  obtain ⟨hv, hs⟩ := (moved_step hw hf he).keep hkeep
  obtain ⟨hvalue, hsaved⟩ := h
  refine ⟨hv.trans hvalue, ?_⟩
  rcases hs with hs | hs
  · exact .inr (hs.trans hvalue)
  · exact hsaved.imp hs.trans hs.trans

theorem Held.lost (h : Held R π k old new s) (hw : s.Wf) (hf : s.FreeDefault R)
    (he : e.Leaves π s.cur k) (hlost : Loses R π k s e) : Clean R π k old (s.step R e) := by
  obtain ⟨hv, hs⟩ := (moved_step hw hf he).lose hlost
  obtain ⟨-, -, -, hl, hne⟩ := hlost
  have hold : π (saved R s.pool s.area k) = old := by
    refine h.2.resolve_right fun hc => hne ?_
    rw [hc, ← h.1, value_of_loaded hl]
  exact ⟨hv.trans hold, hs.trans hold⟩

theorem Clean.write (h : Clean R π k old s) (hw : s.Wf) (hf : s.FreeDefault R) (hk : s.cur = k)
    {f : V → V} (hnew : ∀ v, π (f v) = new) : Held R π k old new (s.step R (.write f)) := by
  have haccess := h.step (e := .read) hw hf trivial
  have hloaded := hw.access_loaded (R := R)
  rw [hk] at hloaded
  refine ⟨?_, .inl haccess.2⟩
  rw [← hnew (s.access R).live]
  exact congrArg π (if_pos hloaded)

/-- What the current key reads. -/
theorem access_live (hw : s.Wf) : (s.access R).live = (s.access R).value R s.cur :=
  (value_of_loaded hw.access_loaded).symm

end Nt351.LazyContext
