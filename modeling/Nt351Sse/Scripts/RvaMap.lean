import Nt351Sse.Base.FirstMatch
import Nt351Sse.Scripts.ImportTable
import Nt351Sse.Scripts.FindIdt

/-! `rva_to_offset` of `checkimports.py` and `rva_to_off` of `findidt.py`: which section each
of them finds an RVA in, and where they agree. -/

namespace Nt351.RvaMap
open Python FirstMatch FindIdt

/-- What `checkimports.py` keeps of a section. -/
def bare (s : Section) : CheckImports.Section := ⟨s.vaddr, s.vsize, s.raddr, s.rsize⟩

/-- An image with these sections, as `checkimports.py` keeps it. -/
def withSections (im : CheckImports.Image) (sections : List Section) : CheckImports.Image :=
  { im with sections := sections.map bare }

/-! ## The two tables -/

variable {files : CheckImports.Files} {path : Str} {data : Bytes} {im : CheckImports.Image}
  {im' : Image}

/-- The section table that a file has. -/
def sectionsOf (data : Bytes) : List CheckImports.Section := (CheckImports.imageOf data).sections

theorem checkImports_load (hdata : files path = some data)
    (h : CheckImports.load files path = .ok im) : im.sections = sectionsOf data := by
  rw [CheckImports.load, hdata] at h
  obtain ⟨_, hsame, h⟩ := bind_eq_ok.mp h
  obtain rfl := Except.ok.inj hsame
  dsimp only at h
  split at h
  · cases h
  obtain ⟨eLfanew, hlfanew, h⟩ := bind_eq_ok.mp h
  split at h
  · cases h
  obtain ⟨num, hnum, h⟩ := bind_eq_ok.mp h
  obtain ⟨optSize, hsize, h⟩ := bind_eq_ok.mp h
  obtain ⟨directories, -, h⟩ := bind_eq_ok.mp h
  obtain ⟨sections, hsections, h⟩ := bind_eq_ok.mp h
  obtain rfl := Except.ok.inj h
  obtain rfl := of_unpackFrom hlfanew
  obtain rfl := of_unpackFrom hnum
  obtain rfl := of_unpackFrom hsize
  refine (List.map_id _).symm.trans (map_of_mapM (fun i s hs => ?_) hsections)
  obtain ⟨name, -, hs⟩ := bind_eq_ok.mp hs
  obtain ⟨fields, hfields, hs⟩ := bind_eq_ok.mp hs
  obtain rfl := Except.ok.inj hs
  rw [of_unpackFrom hfields]
  rfl

theorem findIdt_load (hdata : files path = some data)
    (h : FindIdt.load files path = .ok im') : im'.sections.map bare = sectionsOf data := by
  rw [FindIdt.load, hdata] at h
  obtain ⟨_, hsame, h⟩ := bind_eq_ok.mp h
  obtain rfl := Except.ok.inj hsame
  obtain ⟨eLfanew, hlfanew, h⟩ := bind_eq_ok.mp h
  obtain ⟨num, hnum, h⟩ := bind_eq_ok.mp h
  obtain ⟨optSize, hsize, h⟩ := bind_eq_ok.mp h
  obtain ⟨imageBase, -, h⟩ := bind_eq_ok.mp h
  obtain ⟨sections, hsections, h⟩ := bind_eq_ok.mp h
  obtain rfl := Except.ok.inj h
  obtain ⟨-, rfl⟩ := of_unpackOne hlfanew
  obtain ⟨-, rfl⟩ := of_unpackOne hnum
  obtain ⟨-, rfl⟩ := of_unpackOne hsize
  refine map_of_mapM (fun i s hs => ?_) hsections
  obtain ⟨name, -, hs⟩ := bind_eq_ok.mp hs
  obtain ⟨vsize, hvsize, hs⟩ := bind_eq_ok.mp hs
  obtain ⟨vaddr, hvaddr, hs⟩ := bind_eq_ok.mp hs
  obtain ⟨rsize, hrsize, hs⟩ := bind_eq_ok.mp hs
  obtain ⟨raddr, hraddr, hs⟩ := bind_eq_ok.mp hs
  obtain ⟨chars, -, hs⟩ := bind_eq_ok.mp hs
  obtain rfl := Except.ok.inj hs
  rw [bare, (of_unpackOne hvsize).2, (of_unpackOne hvaddr).2, (of_unpackOne hrsize).2,
    (of_unpackOne hraddr).2]
  rfl

/-- The two scripts read one section table from one file. -/
theorem load_sections (h : CheckImports.load files path = .ok im)
    (h' : FindIdt.load files path = .ok im') : withSections im im'.sections = im := by
  cases hdata : files path with
  | none =>
    rw [CheckImports.load, hdata] at h
    cases h
  | some data => rw [withSections, findIdt_load hdata h', ← checkImports_load hdata h]

/-! ## The two searches -/

/-- The RVA is in the section as it is loaded. -/
def Spans (rva : ℕ) (s : Section) : Prop := s.vaddr ≤ rva ∧ rva < s.vaddr + max s.vsize s.rsize

/-- The RVA is in the section's raw data. -/
def Backs (rva : ℕ) (s : Section) : Prop := s.vaddr ≤ rva ∧ rva < s.vaddr + s.rsize

instance (rva : ℕ) (s : Section) : Decidable (Spans rva s) := inferInstanceAs (Decidable (_ ∧ _))

instance (rva : ℕ) (s : Section) : Decidable (Backs rva s) := inferInstanceAs (Decidable (_ ∧ _))

/-- Where the file has the RVA, if the section's raw data went on that far. -/
def fileOff (rva : ℕ) (s : Section) : ℕ := s.raddr + (rva - s.vaddr)

variable {sections : List Section} {rva : ℕ} {s t : Section}

theorem Backs.spans (h : Backs rva s) : Spans rva s :=
  ⟨h.1, h.2.trans_le (Nat.add_le_add_left (le_max_right _ _) _)⟩

theorem rvaToOffset_eq_search (im : CheckImports.Image) (sections : List Section) (rva : ℕ) :
    (withSections im sections).rvaToOffset rva = search (Spans rva) (fileOff rva) sections := by
  rw [CheckImports.Image.rvaToOffset, withSections, List.find?_map, Option.map_map]
  rfl

theorem rvaToOff_eq_search (sections : List Section) (rva : ℕ) :
    rvaToOff sections rva = search (Backs rva) (fun s => (fileOff rva s, s.name)) sections := by
  have hpred : (fun s : Section => decide (s.rsize ≠ 0 ∧ s.vaddr ≤ rva ∧
      rva < s.vaddr + max s.vsize s.rsize ∧ rva - s.vaddr < s.rsize)) =
      fun s => decide (Backs rva s) := by
    funext s
    refine decide_eq_decide.mpr ⟨fun ⟨_, hlo, _, hraw⟩ => ⟨hlo, by omega⟩, fun hback => ?_⟩
    obtain ⟨hlo, hhi⟩ := hback.spans
    have hraw := hback.2
    exact ⟨by omega, hlo, hhi, by omega⟩
  rw [rvaToOff, hpred]
  rfl

theorem rvaToOff_fst (sections : List Section) (rva : ℕ) :
    (rvaToOff sections rva).map Prod.fst = search (Backs rva) (fileOff rva) sections := by
  rw [rvaToOff_eq_search, search, Option.map_map]
  rfl

theorem fileOff_eq_iff (hs : Spans rva s) (ht : Spans rva t) :
    fileOff rva t = fileOff rva s ↔ t.raddr + s.vaddr = s.raddr + t.vaddr := by
  have hlo := hs.1
  have hlo' := ht.1
  rw [fileOff, fileOff]
  omega

/-! ## Where they agree -/

/-- The first section that the RVA is in has raw data for it, or is laid out in the file like
the first section that has. -/
def FirstBacked (sections : List Section) (rva : ℕ) : Prop :=
  ∀ s, First (Spans rva) sections s →
    Backs rva s ∨ ∃ t, First (Backs rva) sections t ∧ t.raddr + s.vaddr = s.raddr + t.vaddr

/-- They answer an RVA with the same file offset, and with none an RVA that no section has
raw data for. -/
structure Agree (im : CheckImports.Image) (sections : List Section) (rva : ℕ) : Prop where
  same : (withSections im sections).rvaToOffset rva = (rvaToOff sections rva).map Prod.fst
  unbacked : (∀ s ∈ sections, ¬Backs rva s) →
    (withSections im sections).rvaToOffset rva = none ∧ rvaToOff sections rva = none

theorem same_iff (im : CheckImports.Image) (sections : List Section) (rva : ℕ) :
    (withSections im sections).rvaToOffset rva = (rvaToOff sections rva).map Prod.fst ↔
      FirstBacked sections rva := by
  rw [rvaToOffset_eq_search, rvaToOff_fst, search_eq_iff fun _ => Backs.spans]
  refine forall₂_congr fun s hs => or_congr_right (exists_congr fun t => ?_)
  exact and_congr_right fun ht => fileOff_eq_iff hs.holds ht.holds.spans

/-- So do the scripts on one file that both of them load. -/
theorem same_iff_of_load (h : CheckImports.load files path = .ok im)
    (h' : FindIdt.load files path = .ok im') (rva : ℕ) :
    im.rvaToOffset rva = (rvaToOff im'.sections rva).map Prod.fst ↔
      FirstBacked im'.sections rva := by
  have hsame := same_iff im im'.sections rva
  rwa [load_sections h h'] at hsame

/-- Where no two sections take up the same addresses, they differ on the addresses of a section
past its raw data, and on no others. -/
theorem same_iff_of_apart (im : CheckImports.Image) (rva : ℕ)
    (hapart : sections.Pairwise fun s t => s.vaddr + max s.vsize s.rsize ≤ t.vaddr ∨
      t.vaddr + max t.vsize t.rsize ≤ s.vaddr) :
    (withSections im sections).rvaToOffset rva = (rvaToOff sections rva).map Prod.fst ↔
      ∀ s ∈ sections, Spans rva s → Backs rva s := by
  rw [rvaToOffset_eq_search, rvaToOff_fst]
  refine search_eq_iff_of_apart (fun _ => Backs.spans) (hapart.imp ?_)
  rintro s t hst ⟨⟨hlo, hhi⟩, hlo', hhi'⟩
  omega

/-- The translators agree exactly there. -/
theorem agree_iff (im : CheckImports.Image) (sections : List Section) (rva : ℕ) :
    Agree im sections rva ↔ FirstBacked sections rva := by
  rw [← same_iff im]
  constructor
  · exact Agree.same
  · intro hsame
    refine ⟨hsame, fun hnone => ?_⟩
    have hoff : rvaToOff sections rva = none := by
      rw [rvaToOff_eq_search]
      exact search_eq_none_iff.mpr hnone
    exact ⟨by rw [hsame, hoff, Option.map_none], hoff⟩

/-- Both of them find what the loader has, if no two sections take up the same addresses. -/
theorem finds_backed {len offset : ℕ} (hapart : (withSections im sections).Apart)
    (h : (withSections im sections).Backed rva len offset) :
    (withSections im sections).rvaToOffset rva = some offset ∧
      (rvaToOff sections rva).map Prod.fst = some offset := by
  have hmaps : (withSections im sections).rvaToOffset rva = some offset := h.maps hapart
  refine ⟨hmaps, ?_⟩
  obtain ⟨_, hbare, ⟨hback, -⟩, rfl⟩ := h
  obtain ⟨s, hs, rfl⟩ := List.mem_map.mp hbare
  have hbacks : sections.Pairwise fun s t => ¬(Backs rva s ∧ Backs rva t) := by
    refine (List.pairwise_map.mp hapart).imp ?_
    rintro s t hst ⟨hs, ht⟩
    have hlo := hs.spans
    have hlo' := ht.spans
    simp only [Spans, bare] at hlo hlo' hst
    omega
  rw [rvaToOff_fst]
  exact search_eq_of_apart hbacks hs hback

/-! A section whose end is not in the file. -/

def zeroEnd : List Section :=
  [⟨".text".toList, 0x1000, 0x3e0, 0x400, 0x400, 0x68000020⟩,
   ⟨".data".toList, 0x2000, 0x1200, 0x800, 0x200, 0xc8000040⟩,
   ⟨".reloc".toList, 0x4000, 0x100, 0xa00, 0x200, 0x42000040⟩]

theorem not_agree : ¬∀ (im : CheckImports.Image) (sections : List Section) (rva : ℕ),
    Agree im sections rva := by
  intro hclaim
  have hsame := (hclaim ⟨[], [], []⟩ zeroEnd 0x2300).same
  -- this is in the raw data of `.reloc`
  have hfound : (withSections ⟨[], [], []⟩ zeroEnd).rvaToOffset 0x2300 = some 0xb00 := by decide
  have hnone : rvaToOff zeroEnd 0x2300 = none := by decide
  rw [hfound, hnone] at hsame
  cases hsame

end Nt351.RvaMap
