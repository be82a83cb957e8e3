import Nt351Sse.Base.Memory

/-! A pool allocator seen from outside. The heap carries the answers the allocator
will give to the coming requests; an answer that is not a fresh block counts as a
refusal, so every list of answers is a possible allocator. -/

namespace Nt351.Memory

/-- A block the allocator may hand out while the blocks `live` are allocated. -/
def Fresh (live : List Block) (b : Block) : Prop :=
  b.base ≠ 0 ∧ 0 < b.size ∧ b.Fits ∧ ∀ c ∈ live, b.Disjoint c

instance (live : List Block) (b : Block) : Decidable (Fresh live b) :=
  inferInstanceAs (Decidable (_ ∧ _ ∧ _ ∧ _))

structure Sound (live : List Block) : Prop where
  valid : ∀ b ∈ live, b.base ≠ 0 ∧ 0 < b.size ∧ b.Fits
  disjoint : live.Pairwise Block.Disjoint

theorem Sound.nil : Sound [] := ⟨by simp, .nil⟩

theorem Sound.cons {live : List Block} (h : Sound live) {b : Block} (hb : Fresh live b) :
    Sound (b :: live) := by
  refine ⟨fun c hc => ?_, List.pairwise_cons.mpr ⟨hb.2.2.2, h.disjoint⟩⟩
  rcases List.mem_cons.mp hc with rfl | hc
  · exact ⟨hb.1, hb.2.1, hb.2.2.1⟩
  · exact h.valid c hc

theorem Sound.filter {live : List Block} (h : Sound live) (p : Block → Bool) :
    Sound (live.filter p) :=
  ⟨fun b hb => h.valid b (List.mem_filter.mp hb).1, h.disjoint.filter p⟩

theorem Sound.eq_or_disjoint {live : List Block} (h : Sound live) {b c : Block} (hb : b ∈ live)
    (hc : c ∈ live) : b = c ∨ b.Disjoint c := by
  by_cases hbc : b = c
  · exact .inl hbc
  · exact .inr (h.disjoint.forall hb hc hbc)

theorem Sound.eq_of_base {live : List Block} (h : Sound live) {b c : Block} (hb : b ∈ live)
    (hc : c ∈ live) (he : b.base = c.base) : b = c :=
  (h.eq_or_disjoint hb hc).resolve_right fun hd =>
    hd.base_ne (h.valid b hb).2.1 (h.valid c hc).2.1 he

theorem Fresh.notMem {live : List Block} {b : Block} (hb : Fresh live b) (hs : Sound live) :
    b ∉ live := fun hm =>
  (hb.2.2.2 b hm).base_ne (hs.valid b hm).2.1 hb.2.1 rfl

structure Heap where
  live : List Block
  -- what the allocator offers to the coming requests, `0` for a refusal
  answers : List Addr
  -- set when a pointer that heads no live block is freed
  bugcheck : Bool
  sound : Sound live

namespace Heap

def alloc (n : ℕ) (h : Heap) : Addr × Heap :=
  match h.answers with
  | [] => (0, h)
  | p :: ps =>
    if hp : Fresh h.live ⟨p, n⟩ then
      (p, { h with live := ⟨p, n⟩ :: h.live, answers := ps, sound := h.sound.cons hp })
    else (0, { h with answers := ps })

def free (p : Addr) (h : Heap) : Heap :=
  { h with
    live := h.live.filter (fun b => b.base ≠ p)
    bugcheck := h.bugcheck || !h.live.any (fun b => b.base = p)
    sound := h.sound.filter _ }

theorem alloc_cases {n : ℕ} {h h' : Heap} {p : Addr} (ha : h.alloc n = (p, h')) :
    (p = 0 ∧ h'.live = h.live ∧ h'.bugcheck = h.bugcheck) ∨
    (Fresh h.live ⟨p, n⟩ ∧ h'.live = ⟨p, n⟩ :: h.live ∧ h'.bugcheck = h.bugcheck) := by
  unfold alloc at ha
  split at ha
  · obtain ⟨rfl, rfl⟩ := Prod.mk.inj ha
    exact .inl ⟨rfl, rfl, rfl⟩
  · split at ha
    · next hp =>
      obtain ⟨rfl, rfl⟩ := Prod.mk.inj ha
      exact .inr ⟨hp, rfl, rfl⟩
    · obtain ⟨rfl, rfl⟩ := Prod.mk.inj ha
      exact .inl ⟨rfl, rfl, rfl⟩

theorem alloc_fresh {n : ℕ} {h h' : Heap} {p : Addr} (ha : h.alloc n = (p, h')) (hp : p ≠ 0) :
    Fresh h.live ⟨p, n⟩ ∧ h'.live = ⟨p, n⟩ :: h.live ∧ h'.bugcheck = h.bugcheck :=
  (alloc_cases ha).resolve_left fun hc => hp hc.1

theorem alloc_refused {n : ℕ} {h h' : Heap} (ha : h.alloc n = (0, h')) :
    h'.live = h.live ∧ h'.bugcheck = h.bugcheck :=
  (alloc_cases ha).elim (·.2) fun hc => absurd rfl hc.1.1

theorem mem_free {p : Addr} {h : Heap} {b : Block} :
    b ∈ (h.free p).live ↔ b ∈ h.live ∧ b.base ≠ p := by
  simp [free]

theorem free_bugcheck {p : Addr} {h : Heap} {b : Block} (hb : b ∈ h.live) (hp : b.base = p) :
    (h.free p).bugcheck = h.bugcheck := by
  have ha : h.live.any (fun b => b.base = p) = true :=
    List.any_eq_true.mpr ⟨b, hb, by simpa using hp⟩
  simp [free, ha]

theorem free_live_of_fresh {h : Heap} {live : List Block} {b : Block} (hl : h.live = b :: live)
    (hb : Fresh live b) (hs : Sound live) : (h.free b.base).live = live := by
  have hne : ∀ c ∈ live, decide (c.base ≠ b.base) = true := fun c hc => by
    simpa using (hb.2.2.2 c hc).symm.base_ne (hs.valid c hc).2.1 hb.2.1
  simp only [free, hl, ne_eq, not_true_eq_false, decide_false, Bool.false_eq_true,
    not_false_eq_true, List.filter_cons_of_neg, List.filter_eq_self.mpr hne]

/-- The live blocks are those of `live₀` and, apart from them, the blocks `own` of one
client, who has freed nothing it did not own. -/
structure Holding (live₀ : List Block) (own : Finset Block) (h : Heap) : Prop where
  mem : ∀ c, c ∈ h.live ↔ c ∈ own ∨ c ∈ live₀
  apart : ∀ c ∈ own, c ∉ live₀
  clean : h.bugcheck = false

section Holding

variable {live₀ : List Block} {own : Finset Block} {h h' : Heap} {n : ℕ} {p : Addr} {b : Block}

theorem Holding.start (hc : h.bugcheck = false) : Holding h.live ∅ h := by
  refine ⟨fun c => ?_, fun c hm => ?_, hc⟩
  · exact ⟨.inr, fun hm => hm.resolve_left (Finset.notMem_empty c)⟩
  · exact absurd hm (Finset.notMem_empty c)

theorem Holding.grow (hh : Holding live₀ own h) (hb : Fresh h.live b) (hl : h'.live = b :: h.live)
    (hc : h'.bugcheck = h.bugcheck) : Holding live₀ (insert b own) h' := by
  refine ⟨fun c => ?_, fun c hm => ?_, hc.trans hh.clean⟩
  · rw [hl, List.mem_cons, hh.mem, Finset.mem_insert, or_assoc]
  · rcases Finset.mem_insert.mp hm with rfl | hm
    · exact fun h0 => hb.notMem h.sound ((hh.mem c).mpr (.inr h0))
    · exact hh.apart c hm

theorem Holding.congr (hh : Holding live₀ own h) (hl : h'.live = h.live) (hc : h'.bugcheck =
    h.bugcheck) :
    Holding live₀ own h' := ⟨fun c => by rw [hl, hh.mem], hh.apart, hc.trans hh.clean⟩

theorem Holding.alloc (hh : Holding live₀ own h) (ha : h.alloc n = (p, h')) (hp : p ≠ 0) :
    Holding live₀ (insert ⟨p, n⟩ own) h' := by
  obtain ⟨hb, hl, hc⟩ := alloc_fresh ha hp
  exact hh.grow hb hl hc

theorem Holding.refused (hh : Holding live₀ own h) (ha : h.alloc n = (0, h')) :
    Holding live₀ own h' :=
  hh.congr (alloc_refused ha).1 (alloc_refused ha).2

theorem Holding.free (hh : Holding live₀ own h) (hb : b ∈ own) (hp : b.base = p) :
    Holding live₀ (own.erase b) (h.free p) := by
  subst hp
  have hlive : b ∈ h.live := (hh.mem b).mpr (.inl hb)
  have hbase : ∀ c ∈ h.live, c.base = b.base → c = b :=
    fun c hc he => h.sound.eq_of_base hc hlive he
  refine ⟨fun c => ?_, fun c hm => hh.apart c (Finset.mem_of_mem_erase hm),
    (free_bugcheck hlive rfl).trans hh.clean⟩
  rw [mem_free, hh.mem, Finset.mem_erase]
  constructor
  · rintro ⟨hc | hc, hne⟩
    · exact .inl ⟨fun he => hne (congrArg Block.base he), hc⟩
    · exact .inr hc
  · rintro (⟨hne, hc⟩ | hc)
    · exact ⟨.inl hc, fun he => hne (hbase c ((hh.mem c).mpr (.inl hc)) he)⟩
    · refine ⟨.inr hc, fun he => hh.apart b hb ?_⟩
      exact hbase c ((hh.mem c).mpr (.inr hc)) he ▸ hc

end Holding

end Heap
end Nt351.Memory
