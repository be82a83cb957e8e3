import Mathlib

/-! Intrusive singly linked lists: the node a pointer names holds the pointer to the
next one, and one pointer value ends the list. -/

namespace Nt351

variable {α : Type*} {null : α} {next : α → α} {p b : α} {l l' : List α}

/-- Following `next` from `p` visits the nodes `l`, in order, and then ends. -/
def Chain (null : α) (next : α → α) : α → List α → Prop
  | p, [] => p = null
  | p, b :: bs => p = b ∧ b ≠ null ∧ Chain null next (next b) bs

namespace Chain

theorem unique (h : Chain null next p l) (h' : Chain null next p l') : l = l' := by
  induction l generalizing p l' with
  | nil =>
    cases l' with
    | nil => rfl
    | cons c cs => exact absurd (h'.1.symm.trans h) h'.2.1
  | cons b bs ih =>
    cases l' with
    | nil => exact absurd (h.1.symm.trans h') h.2.1
    | cons c cs =>
      obtain rfl : b = c := h.1.symm.trans h'.1
      rw [ih h.2.2 h'.2.2]

theorem ne_null (h : Chain null next p l) (hb : b ∈ l) : b ≠ null := by
  induction l generalizing p with
  | nil => simp at hb
  | cons c cs ih =>
    rcases List.mem_cons.mp hb with rfl | hb
    · exact h.2.1
    · exact ih h.2.2 hb

theorem suffix (h : Chain null next p l) (hb : b ∈ l) :
    ∃ l', Chain null next b (b :: l') ∧ l'.length < l.length := by
  induction l generalizing p with
  | nil => simp at hb
  | cons c cs ih =>
    by_cases hc : b = c
    · subst hc
      exact ⟨cs, ⟨rfl, h.2⟩, Nat.lt_succ_self _⟩
    · obtain ⟨l', hl', hlt⟩ := ih h.2.2 ((List.mem_cons.mp hb).resolve_left hc)
      exact ⟨l', hl', Nat.lt_succ_of_lt hlt⟩

/-- A list that ends repeats no node: from a repeated node it would have two lengths. -/
theorem nodup (h : Chain null next p l) : l.Nodup := by
  induction l generalizing p with
  | nil => exact .nil
  | cons b bs ih =>
    refine List.nodup_cons.mpr ⟨fun hb => ?_, ih h.2.2⟩
    obtain ⟨l', hl', hlt⟩ := h.2.2.suffix hb
    have heq : b :: bs = b :: l' := Chain.unique ⟨rfl, h.2⟩ hl'
    rw [(List.cons.inj heq).2] at hlt
    exact lt_irrefl _ hlt

theorem congr {next' : α → α} (h : Chain null next p l) (hn : ∀ b ∈ l, next' b = next b) :
    Chain null next' p l := by
  induction l generalizing p with
  | nil => exact h
  | cons b bs ih =>
    refine ⟨h.1, h.2.1, ?_⟩
    rw [hn b List.mem_cons_self]
    exact ih h.2.2 fun c hc => hn c (List.mem_cons_of_mem _ hc)

theorem eq_nil_iff (h : Chain null next p l) : l = [] ↔ p = null := by
  cases l with
  | nil => exact ⟨fun _ => h, fun _ => rfl⟩
  | cons b bs =>
    exact ⟨fun hl => absurd hl (List.cons_ne_nil b bs),
      fun hp => absurd (h.1.symm.trans hp) h.2.1⟩

theorem push {next' : α → α} (h : Chain null next p l) (hb : b ≠ null) (hl : b ∉ l)
    (hp : next' b = p) (hn : ∀ c, c ≠ b → next' c = next c) : Chain null next' b (b :: l) := by
  refine ⟨rfl, hb, ?_⟩
  rw [hp]
  refine h.congr fun c hc => hn c ?_
  rintro rfl
  exact hl hc

theorem pop (h : Chain null next p l) (hp : p ≠ null) :
    ∃ bs, l = p :: bs ∧ Chain null next (next p) bs := by
  cases l with
  | nil => exact absurd h hp
  | cons b bs =>
    obtain ⟨rfl, -, h⟩ := h
    exact ⟨bs, rfl, h⟩

theorem next_mem (h : Chain null next p l) (hb : b ∈ l) (hn : next b ≠ null) : next b ∈ l := by
  induction l generalizing p with
  | nil => simp at hb
  | cons c cs ih =>
    rcases List.mem_cons.mp hb with rfl | hb
    · obtain ⟨ds, rfl, -⟩ := pop h.2.2 hn
      exact List.mem_cons_of_mem _ List.mem_cons_self
    · exact List.mem_cons_of_mem _ (ih h.2.2 hb)

/-- Following `next` from `p` comes to `b`, whether or not it ever ends. -/
inductive Visits (null : α) (next : α → α) (p : α) : α → Prop
  | start (h : p ≠ null) : Visits null next p p
  | next {b : α} (hb : Visits null next p b) (h : next b ≠ null) : Visits null next p (next b)

theorem mem_of_visits (h : Chain null next p l) (hb : Visits null next p b) : b ∈ l := by
  induction hb with
  | start hp =>
    obtain ⟨bs, rfl, -⟩ := h.pop hp
    exact List.mem_cons_self
  | next hb hn ih => exact h.next_mem ih hn

end Chain
end Nt351
