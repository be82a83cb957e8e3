import Mathlib

/-! Sums with end-around carry: what is carried out of a word is added back in. Such a total
stands for the sum modulo the greatest word, and is zero only for the sum zero. -/

namespace Nt351.EndAround

/-- The carry out of a word, whose values go up to `M`, added back in. -/
def fold (M t : ℕ) : ℕ := t % (M + 1) + t / (M + 1)

def total (M : ℕ) (words : List ℕ) : ℕ := words.foldl (fun t w => fold M (t + w)) 0

/-- The total `r` stands for the sum `s`. -/
structure Represents (M s r : ℕ) : Prop where
  zero : s = 0 → r = 0
  residue : s ≠ 0 → 1 ≤ r ∧ r ≤ M ∧ r ≡ s [MOD M]

variable {M s s' r r' t w : ℕ} {words words' : List ℕ}

theorem Represents.le (h : Represents M s r) : r ≤ M := by
  by_cases hs : s = 0
  · exact (h.zero hs).trans_le (Nat.zero_le M)
  · exact (h.residue hs).2.1

/-- Totals of sums other than zero agree exactly where the sums are congruent. -/
theorem Represents.eq_iff (h : Represents M s r) (h' : Represents M s' r') (hs : s ≠ 0)
    (hs' : s' ≠ 0) : r = r' ↔ s ≡ s' [MOD M] := by
  obtain ⟨hpos, hle, hmod⟩ := h.residue hs
  obtain ⟨hpos', hle', hmod'⟩ := h'.residue hs'
  constructor
  · rintro rfl
    exact hmod.symm.trans hmod'
  · intro hss
    refine ((hmod.trans hss).trans hmod'.symm).eq_of_abs_lt (abs_lt.mpr ⟨?_, ?_⟩) <;> omega

theorem Represents.unique (h : Represents M s r) (h' : Represents M s r') : r = r' := by
  by_cases hs : s = 0
  · exact (h.zero hs).trans (h'.zero hs).symm
  · exact (h.eq_iff h' hs hs).mpr rfl

theorem fold_of_le (h : t ≤ M) : fold M t = t := by
  rw [fold, Nat.mod_eq_of_lt (Nat.lt_succ_of_le h), Nat.div_eq_of_lt (Nat.lt_succ_of_le h),
    Nat.add_zero]

/-- One more word. -/
theorem Represents.add (h : Represents M s t) (hw : w ≤ M) :
    Represents M (s + w) (fold M (t + w)) := by
  have hle := h.le
  have hmod : t ≡ s [MOD M] := by
    by_cases hs : s = 0
    · rw [h.zero hs, hs]
    · exact (h.residue hs).2.2
  have hzero : t = 0 → s = 0 := fun ht => by
    by_contra hs
    have hpos := (h.residue hs).1
    omega
  by_cases hcarry : t + w ≤ M
  · rw [fold_of_le hcarry]
    refine ⟨fun hs => ?_, fun hs => ⟨?_, hcarry, hmod.add_right w⟩⟩
    · rw [h.zero (by omega)]
      omega
    · by_contra hlt
      have hs0 := hzero (by omega)
      omega
  · -- one carry, which takes `M + 1` away and adds 1
    have hfold : fold M (t + w) + M = t + w := by
      rw [fold]
      have hdiv : (t + w) / (M + 1) = 1 := Nat.div_eq_of_lt_le (by omega) (by omega)
      have := Nat.div_add_mod (t + w) (M + 1)
      rw [hdiv] at this
      omega
    refine ⟨fun hs => absurd (h.zero (by omega)) (by omega), fun hs => ⟨by omega, by omega, ?_⟩⟩
    have hback : fold M (t + w) ≡ fold M (t + w) + M [MOD M] := (Nat.add_modEq_right).symm
    rw [hfold] at hback
    exact hback.trans (hmod.add_right w)

theorem total_append_singleton : total M (words ++ [w]) = fold M (total M words + w) :=
  List.foldl_concat ..

/-- The total stands for the sum, after any number of words. -/
theorem total_represents (h : ∀ w ∈ words, w ≤ M) : Represents M words.sum (total M words) := by
  induction words using List.reverseRecOn with
  | nil => exact ⟨fun _ => rfl, fun hs => absurd rfl hs⟩
  | append_singleton words w ih =>
    rw [total_append_singleton, List.sum_append, List.sum_singleton]
    exact (ih fun w' hw' => h w' (List.mem_append_left _ hw')).add
      (h w (List.mem_append_right _ (List.mem_singleton_self w)))

theorem total_perm (h : ∀ w ∈ words, w ≤ M) (hperm : words.Perm words') :
    total M words = total M words' := by
  have h' := total_represents fun w hw => h w (hperm.symm.subset hw)
  exact (total_represents h).unique (hperm.sum_eq ▸ h')

end Nt351.EndAround
