import Mathlib

/-! A pool of resources handed out on first use and kept: each key that asks gets a
resource of its own until none is left. An `Assignment` carries its own consistency, so
no two keys hold one resource and no held resource is free. -/

namespace Nt351

structure Assignment (K B : Type*) where
  held : K → Option B
  free : List B
  holders : Finset K
  mem_holders : ∀ k, k ∈ holders ↔ held k ≠ none
  inj : ∀ k k' b, held k = some b → held k' = some b → k = k'
  nodup : free.Nodup
  apart : ∀ k b, held k = some b → b ∉ free

namespace Assignment

variable {K B : Type*} [DecidableEq K]

def start (l : List B) (hl : l.Nodup) : Assignment K B where
  held _ := none
  free := l
  holders := ∅
  mem_holders _ := by simp
  inj _ _ _ h := absurd h (by simp)
  nodup := hl
  apart _ _ h := absurd h (by simp)

def grant (a : Assignment K B) (k : K) (b : B) (bs : List B) (hf : a.free = b :: bs) :
    Assignment K B where
  held := Function.update a.held k (some b)
  free := bs
  holders := insert k a.holders
  mem_holders k' := by
    by_cases h : k' = k
    · simp [h]
    · simp [h, a.mem_holders]
  inj k₁ k₂ c h₁ h₂ := by
    have hb : ∀ k', a.held k' ≠ some b := fun k' hk' => a.apart k' b hk' (hf ▸ List.mem_cons_self)
    by_cases e₁ : k₁ = k <;> by_cases e₂ : k₂ = k
    · exact e₁.trans e₂.symm
    · simp only [e₁, Function.update_self, Function.update_of_ne e₂] at h₁ h₂
      exact absurd (h₁ ▸ h₂) (hb k₂)
    · simp only [e₂, Function.update_self, Function.update_of_ne e₁] at h₁ h₂
      exact absurd (h₂ ▸ h₁) (hb k₁)
    · simp only [Function.update_of_ne e₁, Function.update_of_ne e₂] at h₁ h₂
      exact a.inj k₁ k₂ c h₁ h₂
  nodup := (List.nodup_cons.mp (hf ▸ a.nodup)).2
  apart k' c h := by
    by_cases e : k' = k
    · simp only [e, Function.update_self, Option.some.injEq] at h
      exact h ▸ (List.nodup_cons.mp (hf ▸ a.nodup)).1
    · simp only [Function.update_of_ne e] at h
      exact fun hc => a.apart k' c h (hf ▸ List.mem_cons_of_mem _ hc)

def acquire (a : Assignment K B) (k : K) : Assignment K B :=
  match a.held k, hf : a.free with
  | some _, _ => a
  | none, [] => a
  | none, b :: bs => a.grant k b bs hf

def capacity (a : Assignment K B) : ℕ := a.holders.card + a.free.length

theorem acquire_of_held {a : Assignment K B} {k : K} {b : B} (h : a.held k = some b) :
    a.acquire k = a := by
  unfold acquire
  split <;> simp_all

theorem acquire_of_empty {a : Assignment K B} {k : K} (h : a.free = []) : a.acquire k = a := by
  unfold acquire
  split <;> simp_all

theorem acquire_of_free {a : Assignment K B} {k : K} {b : B} {bs : List B} (hk : a.held k = none)
    (hf : a.free = b :: bs) : a.acquire k = a.grant k b bs hf := by
  unfold acquire
  split
  · simp_all
  · simp_all
  · next b' bs' _ hf' =>
    obtain ⟨rfl, rfl⟩ := List.cons.inj (hf.symm.trans hf')
    rfl

theorem acquire_held_mono {a : Assignment K B} {k k' : K} {b : B} (h : a.held k = some b) :
    (a.acquire k').held k = some b := by
  cases hk : a.held k' with
  | some b' => rwa [acquire_of_held hk]
  | none =>
    cases hf : a.free with
    | nil => rwa [acquire_of_empty hf]
    | cons c cs =>
      have hne : k ≠ k' := by
        rintro rfl
        exact absurd (hk.symm.trans h) (by simp)
      rw [acquire_of_free hk hf]
      simpa only [grant, Function.update_of_ne hne] using h

theorem acquire_capacity (a : Assignment K B) (k : K) : (a.acquire k).capacity = a.capacity := by
  cases hk : a.held k with
  | some b => rw [acquire_of_held hk]
  | none =>
    cases hf : a.free with
    | nil => rw [acquire_of_empty hf]
    | cons c cs =>
      have hnot : k ∉ a.holders := fun hm => (a.mem_holders k).mp hm hk
      rw [acquire_of_free hk hf]
      simp only [capacity, grant, hf, Finset.card_insert_of_notMem hnot, List.length_cons]
      omega

/-- A key goes away empty-handed exactly when it holds nothing and other keys hold
everything. -/
theorem acquire_held_eq_none {a : Assignment K B} {k : K} :
    (a.acquire k).held k = none ↔ k ∉ a.holders ∧ a.holders.card = a.capacity := by
  have hcap : a.holders.card = a.capacity ↔ a.free = [] := by
    simp only [capacity, Nat.left_eq_add, List.length_eq_zero_iff]
  rw [hcap, a.mem_holders, not_not]
  cases hk : a.held k with
  | some b =>
    rw [acquire_of_held hk, hk]
    simp
  | none =>
    cases hf : a.free with
    | nil =>
      rw [acquire_of_empty hf, hk]
      simp
    | cons c cs =>
      rw [acquire_of_free hk hf]
      simp [grant]

theorem acquire_holders (a : Assignment K B) (k : K) :
    (a.acquire k).holders =
      if (a.acquire k).held k = none then a.holders else insert k a.holders := by
  cases hk : a.held k with
  | some b =>
    have hm : k ∈ a.holders := (a.mem_holders k).mpr (by simp [hk])
    rw [acquire_of_held hk, hk, if_neg (by simp), Finset.insert_eq_of_mem hm]
  | none =>
    cases hf : a.free with
    | nil => rw [acquire_of_empty hf, hk, if_pos rfl]
    | cons c cs =>
      rw [acquire_of_free hk hf]
      simp [grant]

theorem acquire_holders_subset {a : Assignment K B} {k : K} {P : Finset K} (hk : k ∈ P)
    (h : a.holders ⊆ P) : (a.acquire k).holders ⊆ P := by
  rw [acquire_holders]
  split
  · exact h
  · exact Finset.insert_subset hk h

theorem acquire_held_of_room {a : Assignment K B} {k : K} {P : Finset K} (hk : k ∈ P)
    (h : a.holders ⊆ P) (hcard : P.card ≤ a.capacity) : (a.acquire k).held k ≠ none := by
  intro hnone
  obtain ⟨hnot, hfull⟩ := acquire_held_eq_none.mp hnone
  have hle := Finset.card_le_card (Finset.insert_subset hk h)
  rw [Finset.card_insert_of_notMem hnot] at hle
  omega

theorem held_or_free_of_acquire {a : Assignment K B} {j k : K} {b : B}
    (h : (a.acquire j).held k = some b) : a.held k = some b ∨ b ∈ a.free := by
  cases hj : a.held j with
  | some c => exact .inl (by rwa [acquire_of_held hj] at h)
  | none =>
    cases hf : a.free with
    | nil => exact .inl (by rwa [acquire_of_empty hf] at h)
    | cons c cs =>
      rw [acquire_of_free hj hf] at h
      by_cases hkj : k = j
      · subst hkj
        simp only [grant, Function.update_self, Option.some.injEq] at h
        exact .inr (h ▸ List.mem_cons_self)
      · exact .inl (by simpa only [grant, Function.update_of_ne hkj] using h)

end Assignment
end Nt351
