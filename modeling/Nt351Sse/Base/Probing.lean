import Mathlib

/-! Open addressing with linear probing over `n` slots, for any keys and any home
position. A slot holds a key or is empty; the probe for a key walks cyclically from
its home and stops at the key or at the first empty slot. -/

namespace Nt351.Probing

variable {n : ℕ} [NeZero n]

def slotAt (start i : ℕ) : Fin n := Fin.ofNat n (start + i)

/-- The first slot from `start` on at which `stop` holds, each slot being tried once. -/
@[irreducible] def probe (stop : Fin n → Bool) (start : ℕ) : Option (Fin n) :=
  ((List.range n).find? fun i => stop (slotAt start i)).map (slotAt start)

/-- The walk from `start` meets `a` strictly before `b`. -/
def Before (start : ℕ) (a b : Fin n) : Prop :=
  ∃ i j, i < j ∧ j < n ∧ slotAt start i = a ∧ slotAt start j = b

theorem slotAt_inj {start i j : ℕ} (hi : i < n) (hj : j < n)
    (h : (slotAt start i : Fin n) = slotAt start j) : i = j := by
  have hm : (start + i) % n = (start + j) % n := congrArg Fin.val h
  have hmod : i ≡ j [MOD n] := Nat.ModEq.add_left_cancel' start hm
  exact Nat.ModEq.eq_of_lt_of_lt hmod hi hj

theorem exists_slotAt (start : ℕ) (idx : Fin n) : ∃ i < n, slotAt start i = idx := by
  have hinj : Function.Injective fun i : Fin n => (slotAt start i : Fin n) := by
    intro i j h
    exact Fin.ext (slotAt_inj i.isLt j.isLt h)
  obtain ⟨i, hi⟩ := (Finite.injective_iff_surjective.mp hinj) idx
  exact ⟨i, i.isLt, hi⟩

theorem not_before_self (start : ℕ) (a : Fin n) : ¬ Before start a a := by
  rintro ⟨i, j, hij, hj, hi, hj'⟩
  have he : i = j := slotAt_inj (hij.trans hj) hj (hi.trans hj'.symm)
  exact absurd he (Nat.ne_of_lt hij)

theorem probe_eq_some_iff {stop : Fin n → Bool} {start : ℕ} {idx : Fin n} :
    probe stop start = some idx ↔
      ∃ i < n, slotAt start i = idx ∧ stop idx = true ∧ ∀ j < i, stop (slotAt start j) = false := by
  unfold probe
  rw [Option.map_eq_some_iff]
  constructor
  · rintro ⟨i, hi, rfl⟩
    obtain ⟨hs, hm, hj⟩ := List.find?_range_eq_some.mp hi
    exact ⟨i, List.mem_range.mp hm, rfl, hs, fun j hji => by simpa using hj j hji⟩
  · rintro ⟨i, hi, rfl, hs, hj⟩
    refine ⟨i, List.find?_range_eq_some.mpr ⟨hs, List.mem_range.mpr hi, fun j hji => ?_⟩, rfl⟩
    simp [hj j hji]

theorem probe_eq_none_iff {stop : Fin n → Bool} {start : ℕ} :
    probe stop start = none ↔ ∀ idx, stop idx = false := by
  unfold probe
  rw [Option.map_eq_none_iff, List.find?_range_eq_none]
  constructor
  · intro h idx
    obtain ⟨i, hi, rfl⟩ := exists_slotAt start idx
    simpa using h i hi
  · intro h i _
    simp [h]

theorem probe_stop {stop : Fin n → Bool} {start : ℕ} {idx : Fin n}
    (h : probe stop start = some idx) : stop idx = true := by
  obtain ⟨i, -, -, hs, -⟩ := probe_eq_some_iff.mp h
  exact hs

/-! ## Keyed slots -/

variable {K : Type*} [DecidableEq K] {key : Fin n → Option K} {home : K → ℕ} {k k' : K}
  {idx idx' t : Fin n}

def find (key : Fin n → Option K) (home : K → ℕ) (k : K) : Option (Fin n) :=
  probe (fun idx => key idx = some k ∨ key idx = none) (home k)

/-- Every key is stored where its own probe stops. -/
def Chained (key : Fin n → Option K) (home : K → ℕ) : Prop :=
  ∀ idx k, key idx = some k → find key home k = some idx

theorem find_isSome (h : key idx = none) (k : K) : ∃ i, find key home k = some i := by
  cases hf : find key home k with
  | some i => exact ⟨i, rfl⟩
  | none =>
    have hn := probe_eq_none_iff.mp hf idx
    simp [h] at hn

theorem find_eq_none (h : find key home k = none) (idx : Fin n) : key idx ≠ none := by
  have hn := probe_eq_none_iff.mp h idx
  simp only [decide_eq_false_iff_not, not_or] at hn
  exact hn.2

/-- Changing one slot so that the probe for `k` stops there cuts the walk at that slot. -/
theorem probe_update {stop stop' : Fin n → Bool} {start : ℕ} (h : probe stop start = some idx)
    (ht : stop' t = true) (hs : ∀ i, i ≠ t → stop' i = stop i) :
    (Before start t idx → probe stop' start = some t) ∧
      (¬ Before start t idx → probe stop' start = some idx) := by
  obtain ⟨i, hi, hidx, hstop, hlt⟩ := probe_eq_some_iff.mp h
  constructor
  · rintro ⟨a, b, hab, hb, hta, hbi⟩
    obtain rfl : b = i := slotAt_inj hb hi (hbi.trans hidx.symm)
    refine probe_eq_some_iff.mpr ⟨a, hab.trans hb, hta, ht, fun j hj => ?_⟩
    have hne : slotAt start j ≠ t := by
      rintro he
      exact absurd (slotAt_inj (by omega) (by omega) (he.trans hta.symm)) (Nat.ne_of_lt hj)
    rw [hs _ hne]
    exact hlt j (hj.trans hab)
  · intro hn
    refine probe_eq_some_iff.mpr ⟨i, hi, hidx, ?_, fun j hj => ?_⟩
    · by_cases he : idx = t
      · rw [he, ht]
      · rw [hs _ he, hstop]
    · have hne : slotAt start j ≠ t := fun he => hn ⟨j, i, hj, hi, he, hidx⟩
      rw [hs _ hne]
      exact hlt j hj

theorem find_clear (h : find key home k = some idx) :
    (Before (home k) t idx → find (Function.update key t none) home k = some t) ∧
      (¬ Before (home k) t idx → find (Function.update key t none) home k = some idx) := by
  refine probe_update h (by simp) fun i hi => ?_
  simp only [Function.update_of_ne hi]

theorem find_fill (h : find key home k = some t) :
    find (Function.update key t (some k)) home k = some t := by
  refine (probe_update (t := t) h (by simp) fun i hi => ?_).2 (not_before_self _ _)
  simp only [Function.update_of_ne hi]

theorem find_other (h : find key home k' = some idx) (hidx : key idx = some k')
    (ht : key t = none) : find (Function.update key t (some k)) home k' = some idx := by
  obtain ⟨i, hi, hi', hstop, hlt⟩ := probe_eq_some_iff.mp h
  have hit : idx ≠ t := by
    rintro rfl
    rw [hidx] at ht
    exact absurd ht (by simp)
  refine probe_eq_some_iff.mpr ⟨i, hi, hi', ?_, fun j hj => ?_⟩
  · simpa [Function.update_of_ne hit] using Or.inl hidx
  · have hj' := hlt j hj
    have hne : slotAt (home k') j ≠ t := by
      intro he
      rw [he] at hj'
      simp [ht] at hj'
    simpa [Function.update_of_ne hne] using hj'

theorem Chained.unique (h : Chained key home) (hi : key idx = some k) (hi' : key idx' = some k) :
    idx = idx' :=
  Option.some.inj ((h idx k hi).symm.trans (h idx' k hi'))

theorem Chained.absent (h : Chained key home) (hf : find key home k = some t) (ht : key t = none)
    (idx : Fin n) : key idx ≠ some k := by
  intro hi
  have he : idx = t := Option.some.inj ((h idx k hi).symm.trans hf)
  rw [he, ht] at hi
  exact absurd hi (by simp)

theorem Chained.fill (h : Chained key home) (hf : find key home k = some t) (ht : key t = none) :
    Chained (Function.update key t (some k)) home := by
  intro i k' hi
  by_cases he : i = t
  · subst he
    rw [Function.update_self] at hi
    obtain rfl := Option.some.inj hi
    exact find_fill hf
  · rw [Function.update_of_ne he] at hi
    exact find_other (h i k' hi) hi ht

theorem chained_empty (home : K → ℕ) : Chained (fun _ : Fin n => (none : Option K)) home := by
  intro idx k h
  exact absurd h (by simp)

end Nt351.Probing
