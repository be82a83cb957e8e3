import Mathlib

/-! Scanning for pieces from left to right: the first piece found is taken, the scan goes
on behind it, and what starts inside a taken piece is lost. Which pieces are taken is
determined without the scan: they are the one choice of pieces that lie apart and such
that every piece starts inside one of them. -/

namespace Nt351.Scan

/-- The starts of the pieces taken from `p` on; `len q` is the length of the piece at `q`,
or 0 if there is none. -/
def scan (len : ℕ → ℕ) (stop p : ℕ) : List ℕ :=
  if p < stop then
    if len p = 0 then scan len stop (p + 1) else p :: scan len stop (p + len p)
  else []
termination_by stop - p

/-- A choice among the pieces, which are given by where they start and end. -/
structure Leftmost (piece : ℕ → ℕ → Prop) (S : Set ℕ) : Prop where
  accepted : ∀ p ∈ S, ∃ e, piece p e
  apart : ∀ p ∈ S, ∀ q ∈ S, p < q → ∀ e, piece p e → e ≤ q
  covered : ∀ q e, piece q e → ∃ p ∈ S, ∃ e', piece p e' ∧ p ≤ q ∧ q < e'

theorem Leftmost.unique {piece : ℕ → ℕ → Prop} {S S' : Set ℕ} (h : Leftmost piece S)
    (h' : Leftmost piece S') : ∀ p, (p ∈ S ↔ p ∈ S') := by
  intro p
  induction p using Nat.strong_induction_on with
  | _ p ih =>
    -- a piece of one choice starts inside one of the other; if not at its start, then it
    -- starts inside that same piece of its own choice
    have hone : ∀ {S S' : Set ℕ}, Leftmost piece S → Leftmost piece S' →
        (∀ q < p, q ∈ S' → q ∈ S) → p ∈ S → p ∈ S' := by
      intro S S' h h' hbelow hp
      obtain ⟨e, he⟩ := h.accepted p hp
      obtain ⟨q, hq, e', he', hle, hlt⟩ := h'.covered p e he
      rcases hle.eq_or_lt with rfl | hqp
      · exact hq
      · exact absurd (h.apart q (hbelow q hqp hq) p hp hqp e' he') (not_le.mpr hlt)
    exact ⟨hone h h' fun q hq => (ih q hq).mpr, hone h' h fun q hq => (ih q hq).mp⟩

variable {len : ℕ → ℕ} {stop p q : ℕ}

theorem scan_skip (hp : p < stop) (h0 : len p = 0) : scan len stop p = scan len stop (p + 1) := by
  rw [scan, if_pos hp, if_pos h0]

theorem scan_take (hp : p < stop) (h0 : len p ≠ 0) :
    scan len stop p = p :: scan len stop (p + len p) := by
  rw [scan, if_pos hp, if_neg h0]

theorem scan_end (hp : stop ≤ p) : scan len stop p = [] := by
  rw [scan, if_neg (not_lt.mpr hp)]

theorem mem_scan (h : q ∈ scan len stop p) : p ≤ q ∧ q < stop ∧ len q ≠ 0 := by
  induction p using scan.induct len stop with
  | case1 p hp h0 ih =>
    rw [scan_skip hp h0] at h
    exact ⟨Nat.le_of_succ_le (ih h).1, (ih h).2⟩
  | case2 p hp h0 ih =>
    rw [scan_take hp h0] at h
    rcases List.mem_cons.mp h with rfl | h
    · exact ⟨le_rfl, hp, h0⟩
    · exact ⟨(Nat.le_add_right _ _).trans (ih h).1, (ih h).2⟩
  | case3 p hp =>
    rw [scan_end (not_lt.mp hp)] at h
    exact absurd h List.not_mem_nil

theorem scan_pairwise : (scan len stop p).Pairwise fun p q => p + len p ≤ q := by
  induction p using scan.induct len stop with
  | case1 p hp h0 ih =>
    rw [scan_skip hp h0]
    exact ih
  | case2 p hp h0 ih =>
    rw [scan_take hp h0]
    exact List.pairwise_cons.mpr ⟨fun q hq => (mem_scan hq).1, ih⟩
  | case3 p hp =>
    rw [scan_end (not_lt.mp hp)]
    exact List.Pairwise.nil

theorem scan_apart {b : ℕ} (hp : p ∈ scan len stop b) (hq : q ∈ scan len stop b) (hlt : p < q) :
    p + len p ≤ q := by
  obtain ⟨i, hi, rfl⟩ := List.mem_iff_getElem.mp hp
  obtain ⟨j, hj, rfl⟩ := List.mem_iff_getElem.mp hq
  have hpair : (scan len stop b).Pairwise fun p q => p + len p ≤ q := scan_pairwise
  rw [List.pairwise_iff_getElem] at hpair
  rcases Nat.lt_trichotomy i j with hij | rfl | hji
  · exact hpair i j hi hj hij
  · exact absurd hlt (lt_irrefl _)
  · have hback := hpair j i hj hi hji
    omega

theorem scan_covers (hpq : p ≤ q) (hq : q < stop) (h0 : len q ≠ 0) :
    ∃ b ∈ scan len stop p, b ≤ q ∧ q < b + len b := by
  induction p using scan.induct len stop with
  | case1 p hp hskip ih =>
    rw [scan_skip hp hskip]
    have hne : p ≠ q := fun he => h0 (he ▸ hskip)
    exact ih (lt_of_le_of_ne hpq hne)
  | case2 p hp htake ih =>
    rw [scan_take hp htake]
    by_cases hin : q < p + len p
    · exact ⟨p, List.mem_cons_self, hpq, hin⟩
    · obtain ⟨b, hb, hbq⟩ := ih (not_lt.mp hin)
      exact ⟨b, List.mem_cons_of_mem _ hb, hbq⟩
  | case3 p hp => exact absurd (hpq.trans_lt hq) hp

/-- What the scan takes is the leftmost choice, when `len` is the length of the longest piece. -/
theorem scan_leftmost {piece : ℕ → ℕ → Prop}
    (hlong : ∀ p e, piece p e → p < stop ∧ len p ≠ 0 ∧ e ≤ p + len p)
    (hpiece : ∀ p < stop, len p ≠ 0 → piece p (p + len p)) :
    Leftmost piece {p | p ∈ scan len stop 0} := by
  refine ⟨fun p hp => ?_, fun p hp q hq hlt e he => ?_, fun q e he => ?_⟩
  · exact ⟨_, hpiece p (mem_scan hp).2.1 (mem_scan hp).2.2⟩
  · exact (hlong p e he).2.2.trans (scan_apart hp hq hlt)
  · obtain ⟨hstop, h0, -⟩ := hlong q e he
    obtain ⟨b, hb, hle, hlt⟩ := scan_covers (Nat.zero_le q) hstop h0
    exact ⟨b, hb, _, hpiece b (mem_scan hb).2.1 (mem_scan hb).2.2, hle, hlt⟩

end Nt351.Scan
