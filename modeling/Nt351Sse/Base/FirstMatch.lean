import Mathlib

/-! Searching a list for its first match, and two such searches one of which is stricter. -/

namespace Nt351.FirstMatch

/-- `a` is the first of the list that has `p`. -/
def First {α : Type*} (p : α → Prop) (l : List α) (a : α) : Prop :=
  ∃ before after, l = before ++ a :: after ∧ p a ∧ ∀ b ∈ before, ¬p b

/-- What `f` makes of the first match. -/
def search {α β : Type*} (p : α → Prop) [DecidablePred p] (f : α → β) (l : List α) : Option β :=
  (l.find? fun a => decide (p a)).map f

variable {α β : Type*} {p q : α → Prop} {f : α → β} {l : List α} {a b : α} {y : β}

theorem First.mem (h : First p l a) : a ∈ l := by
  obtain ⟨before, after, rfl, -, -⟩ := h
  exact List.mem_append_right _ List.mem_cons_self

theorem First.holds (h : First p l a) : p a := by
  obtain ⟨before, after, -, hp, -⟩ := h
  exact hp

/-- The first match is the first of the stricter search too, if that takes it. -/
theorem First.strict (hqp : ∀ a, q a → p a) (h : First p l a) (hq : q a) : First q l a := by
  obtain ⟨before, after, hl, -, hbefore⟩ := h
  exact ⟨before, after, hl, hq, fun b hb hqb => hbefore b hb (hqp b hqb)⟩

/-- Where no two match, there is one match at most. -/
theorem eq_of_apart (hapart : l.Pairwise fun a b => ¬(p a ∧ p b)) (ha : a ∈ l) (hb : b ∈ l)
    (hpa : p a) (hpb : p b) : a = b := by
  have hsymm : Std.Symm fun a b => ¬(p a ∧ p b) := ⟨fun _ _ h hba => h hba.symm⟩
  by_contra hne
  exact hapart.forall ha hb hne ⟨hpa, hpb⟩

section Search

variable [DecidablePred p] [DecidablePred q]

theorem find?_eq_some_iff : (l.find? fun a => decide (p a)) = some a ↔ First p l a := by
  rw [List.find?_eq_some_iff_append]
  constructor
  · rintro ⟨hp, before, after, hl, hbefore⟩
    exact ⟨before, after, hl, of_decide_eq_true hp, fun b hb => by simpa using hbefore b hb⟩
  · rintro ⟨before, after, hl, hp, hbefore⟩
    exact ⟨decide_eq_true hp, before, after, hl, fun b hb => by simpa using hbefore b hb⟩

theorem search_eq_some_iff : search p f l = some y ↔ ∃ a, First p l a ∧ f a = y := by
  simp only [search, Option.map_eq_some_iff, find?_eq_some_iff]

theorem search_eq_none_iff : search p f l = none ↔ ∀ a ∈ l, ¬p a := by
  simp [search]

/-- The stricter search answers the same exactly where it takes the first match, or where what
it takes instead comes to the same. -/
theorem search_eq_iff (hqp : ∀ a, q a → p a) : search p f l = search q f l ↔
    ∀ a, First p l a → q a ∨ ∃ b, First q l b ∧ f b = f a := by
  constructor
  · intro hsame a ha
    have hfound : search p f l = some (f a) := search_eq_some_iff.mpr ⟨a, ha, rfl⟩
    exact .inr (search_eq_some_iff.mp (hsame.symm.trans hfound))
  · intro hcond
    cases hfound : search p f l with
    | none =>
      have hnone := search_eq_none_iff.mp hfound
      exact (search_eq_none_iff.mpr fun a ha hq => hnone a ha (hqp a hq)).symm
    | some y =>
      obtain ⟨a, ha, rfl⟩ := search_eq_some_iff.mp hfound
      rcases hcond a ha with hq | hother
      · exact (search_eq_some_iff.mpr ⟨a, ha.strict hqp hq, rfl⟩).symm
      · exact (search_eq_some_iff.mpr hother).symm

/-! Where no two match. -/

theorem search_eq_of_apart (hapart : l.Pairwise fun a b => ¬(p a ∧ p b)) (ha : a ∈ l)
    (hpa : p a) : search p f l = some (f a) := by
  have hsome : search p f l ≠ none := fun hnone => search_eq_none_iff.mp hnone a ha hpa
  obtain ⟨y, hy⟩ := Option.ne_none_iff_exists'.mp hsome
  obtain ⟨b, hb, rfl⟩ := search_eq_some_iff.mp hy
  rw [hy, eq_of_apart hapart hb.mem ha hb.holds hpa]

/-- The stricter search has to take every match. -/
theorem search_eq_iff_of_apart (hqp : ∀ a, q a → p a)
    (hapart : l.Pairwise fun a b => ¬(p a ∧ p b)) :
    search p f l = search q f l ↔ ∀ a ∈ l, p a → q a := by
  rw [search_eq_iff hqp]
  constructor
  · intro hcond a ha hpa
    have hsome : search p f l ≠ none := fun hnone => search_eq_none_iff.mp hnone a ha hpa
    obtain ⟨y, hy⟩ := Option.ne_none_iff_exists'.mp hsome
    obtain ⟨b, hb, -⟩ := search_eq_some_iff.mp hy
    obtain rfl : b = a := eq_of_apart hapart hb.mem ha hb.holds hpa
    rcases hcond b hb with hq | ⟨c, hc, -⟩
    · exact hq
    · exact eq_of_apart hapart hc.mem ha (hqp c hc.holds) hpa ▸ hc.holds
  · exact fun hall a ha => .inl (hall a ha.mem ha.holds)

end Search

/-! The head of a stable sort that has the greatest keys first. -/

section Greatest

variable {key : α → ℕ}

/-- No key of the list is greater. -/
def Greatest (key : α → ℕ) (l : List α) (a : α) : Prop := ∀ b ∈ l, key b ≤ key a

def greatestFirst (key : α → ℕ) (l : List α) : List α := l.insertionSort fun a b => key b ≤ key a

theorem greatestFirst_cons : greatestFirst key (b :: l) =
    (greatestFirst key l).orderedInsert (fun a b => key b ≤ key a) b := rfl

theorem mem_greatestFirst : a ∈ greatestFirst key l ↔ a ∈ l :=
  (List.perm_insertionSort _ l).mem_iff

theorem exists_head?_greatestFirst (key : α → ℕ) (h : l ≠ []) :
    ∃ a, (greatestFirst key l).head? = some a := by
  obtain ⟨b, hb⟩ := List.exists_mem_of_ne_nil l h
  have hmem : b ∈ greatestFirst key l := mem_greatestFirst.mpr hb
  exact ⟨_, List.head?_eq_some_head (List.ne_nil_of_mem hmem)⟩

theorem head?_greatestFirst (h : (greatestFirst key l).head? = some a) :
    First (Greatest key l) l a := by
  induction l generalizing a with
  | nil => cases h
  | cons b l ih =>
    rw [greatestFirst_cons] at h
    cases hsorted : greatestFirst key l with
    | nil =>
      rw [hsorted] at h
      obtain rfl := Option.some.inj h
      have hnil : ∀ c, c ∉ l := fun c hc => by
        have hmem : c ∈ greatestFirst key l := mem_greatestFirst.mpr hc
        rw [hsorted] at hmem
        exact absurd hmem List.not_mem_nil
      refine ⟨[], l, rfl, fun c hc => ?_, fun c hc => absurd hc List.not_mem_nil⟩
      rcases List.mem_cons.mp hc with rfl | hc
      · exact le_rfl
      · exact absurd hc (hnil c)
    | cons c rest =>
      have hc : First (Greatest key l) l c := ih (by rw [hsorted]; rfl)
      rw [hsorted, List.orderedInsert_cons] at h
      split at h
      · next hle =>
        obtain rfl := Option.some.inj h
        refine ⟨[], l, rfl, fun d hd => ?_, fun d hd => absurd hd List.not_mem_nil⟩
        rcases List.mem_cons.mp hd with rfl | hd
        · exact le_rfl
        · exact (hc.holds d hd).trans hle
      · next hlt =>
        obtain rfl := Option.some.inj h
        have hgreatest : Greatest key (b :: l) c := fun d hd => by
          rcases List.mem_cons.mp hd with rfl | hd
          · exact (not_le.mp hlt).le
          · exact hc.holds d hd
        obtain ⟨before, after, hl, -, hbefore⟩ := hc
        refine ⟨b :: before, after, congrArg (b :: ·) hl, hgreatest, fun d hd hd' => ?_⟩
        rcases List.mem_cons.mp hd with rfl | hd
        · exact hlt (hd' c (by rw [hl]; simp))
        · exact hbefore d hd fun e he => hd' e (List.mem_cons_of_mem _ he)

end Greatest

end Nt351.FirstMatch
