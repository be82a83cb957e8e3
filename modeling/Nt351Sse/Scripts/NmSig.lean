import Nt351Sse.Scripts.FindIdt

/-! `nmsig.py`: the base relocations of the driver, and those in the compared range. -/

namespace Nt351.NmSig
open Python FindIdt

/-- The entries of one block from `i` on, `k` of them, added to `out`. -/
def pageFixups (data : Bytes) (page : ℕ) : ℕ → ℕ → Finset ℕ → Except Error (Finset ℕ)
  | _, 0, out => pure out
  | i, k + 1, out => do
    let entry ← unpackOne 2 data i
    pageFixups data page (i + 2) k
      (if entry >>> 12 ≠ 0 then insert (page + (entry &&& 0xfff)) out else out)

/-- The blocks from `off` on. -/
def blockFixups (data : Bytes) (stop off : ℕ) (out : Finset ℕ) : Except Error (Finset ℕ) :=
  if off < stop then do
    let header ← unpackFrom 4 2 data off
    if 8 ≤ header 1 then do
      let out ← pageFixups data (header 0) (off + 8) ((header 1 - 8 + 1) / 2) out
      blockFixups data stop (off + header 1) out
    else pure out
  else pure out
termination_by stop - off

/-- The RVAs that the base-relocation table names. -/
def relocs (data : Bytes) (sections : List Section) : Except Error (Finset ℕ) := do
  let eLfanew ← unpackOne 4 data 0x3c
  let opt := eLfanew + 4 + 20
  let magic ← unpackOne 2 data opt
  let dd := opt + if magic = 0x10b then 96 else 112
  let directory ← unpackFrom 4 2 data (dd + 5 * 8)
  if directory 0 = 0 ∨ directory 1 = 0 then pure ∅
  else
    match rvaToOff sections (directory 0) with
    | none => pure ∅
    | some (off, _) => blockFixups data (off + directory 1) off ∅

/-- The relocations inside the compared range from `lo` up to `hi`. -/
def touched (relocRvas : Finset ℕ) (lo hi base : ℤ) : List ℕ :=
  (relocRvas.filter fun r : ℕ => lo - base ≤ r ∧ r < hi - base).sort (· ≤ ·)

/-! ## The table -/

/-- An entry of a block: a 32-bit fixup or padding. -/
structure Entry where
  highlow : Bool
  offset : ℕ
  offset_lt : offset < 2 ^ 12

def Entry.word (e : Entry) : ℕ := (if e.highlow then 3 else 0) * 2 ^ 12 + e.offset

structure Block where
  page : ℕ
  entries : List Entry
  page_lt : page < 2 ^ 32
  size_lt : 8 + 2 * entries.length < 2 ^ 32

def Block.fields (b : Block) : List (ℕ × ℕ) :=
  (4, b.page) :: (4, 8 + 2 * b.entries.length) :: b.entries.map fun e => (2, e.word)

def tableFields (blocks : List Block) : List (ℕ × ℕ) := blocks.flatMap Block.fields

/-- A 4-byte field that relocation changes starts at `r`. -/
def Fixup (blocks : List Block) (r : ℕ) : Prop :=
  ∃ b ∈ blocks, ∃ e ∈ b.entries, e.highlow ∧ r = b.page + e.offset

variable {data : Bytes} {sections : List Section} {off stop page r : ℕ} {out : Finset ℕ}

theorem Entry.word_lt (e : Entry) : e.word < 256 ^ 2 := by
  have hlt := e.offset_lt
  rw [Entry.word]
  split <;> omega

theorem Entry.word_shift (e : Entry) : e.word >>> 12 ≠ 0 ↔ e.highlow := by
  have hlt := e.offset_lt
  rw [Entry.word, Nat.shiftRight_eq_div_pow]
  split
  · next hset => exact iff_of_true (by omega) hset
  · next hclear => exact iff_of_false (by omega) hclear

theorem Entry.word_low (e : Entry) : e.word &&& 0xfff = e.offset := by
  have hlt := e.offset_lt
  rw [Nat.and_two_pow_sub_one_eq_mod e.word 12, Entry.word]
  omega

/-- One block's entries are read as its fixups. -/
theorem pageFixups_reads (entries : List Entry) (out : Finset ℕ)
    (hlen : off + packedSize (entries.map fun e => (2, e.word)) ≤ data.length)
    (hreads : ReadsAs data off (entries.map fun e => (2, e.word))) :
    ∃ out', pageFixups data page off entries.length out = .ok out' ∧
      ∀ r, r ∈ out' ↔ r ∈ out ∨ ∃ e ∈ entries, e.highlow ∧ r = page + e.offset := by
  induction entries generalizing off out with
  | nil => exact ⟨out, rfl, fun r => by simp⟩
  | cons e entries ih =>
    obtain ⟨hword, hrest⟩ := hreads
    have hsize : off + (2 + packedSize (entries.map fun e => (2, e.word))) ≤ data.length := hlen
    obtain ⟨out', hok, hmem⟩ := ih
      (if e.word >>> 12 ≠ 0 then insert (page + (e.word &&& 0xfff)) out else out)
      (by omega) hrest
    refine ⟨out', ?_, fun r => ?_⟩
    · rw [List.length_cons, pageFixups, unpackOne_ok (by omega), hword]
      exact hok
    · rw [hmem, e.word_low]
      simp only [e.word_shift, List.mem_cons, exists_eq_or_imp, ← or_assoc]
      refine or_congr_left ?_
      split
      · next hset => rw [Finset.mem_insert, or_comm, and_iff_right hset]
      · next hclear => rw [or_iff_left fun hr => hclear hr.1]

theorem packedSize_words (entries : List Entry) :
    packedSize (entries.map fun e => (2, e.word)) = 2 * entries.length := by
  induction entries with
  | nil => rfl
  | cons e entries ih =>
    show 2 + packedSize (entries.map fun e => (2, e.word)) = 2 * (entries.length + 1)
    omega

theorem Block.size (b : Block) : packedSize b.fields = 8 + 2 * b.entries.length := by
  show 4 + (4 + packedSize (b.entries.map fun e => (2, e.word))) = _
  rw [packedSize_words]
  omega

theorem blockFixups_step {block : ℕ} (hstop : off < stop) (hlen : off + 8 ≤ data.length)
    (hpage : littleEndian data off 4 = page) (hblock : littleEndian data (off + 4) 4 = block)
    (hsize : 8 ≤ block) : blockFixups data stop off out =
      (pageFixups data page (off + 8) ((block - 8 + 1) / 2) out >>= fun out =>
        blockFixups data stop (off + block) out) := by
  subst hpage hblock
  rw [blockFixups, if_pos hstop, unpackFrom_ok hlen]
  exact if_pos hsize

theorem blockFixups_reads (blocks : List Block) (out : Finset ℕ)
    (hstop : off + packedSize (tableFields blocks) = stop) (hlen : stop ≤ data.length)
    (hreads : ReadsAs data off (tableFields blocks)) :
    ∃ out', blockFixups data stop off out = .ok out' ∧
      ∀ r, r ∈ out' ↔ r ∈ out ∨ Fixup blocks r := by
  induction blocks generalizing off out with
  | nil =>
    have hend : ¬off < stop := not_lt.mpr hstop.ge
    refine ⟨out, ?_, fun r => by simp [Fixup]⟩
    rw [blockFixups, if_neg hend]
    rfl
  | cons b blocks ih =>
    have hcons : tableFields (b :: blocks) = b.fields ++ tableFields blocks := rfl
    rw [hcons, readsAs_append, b.size] at hreads
    rw [hcons, packedSize_append, b.size] at hstop
    obtain ⟨⟨hpage, hblock, hentries⟩, hrest⟩ := hreads
    have hwords : off + 4 + 4 + packedSize (b.entries.map fun e => (2, e.word)) ≤ data.length := by
      rw [packedSize_words]
      omega
    obtain ⟨out₁, hok, hmem⟩ := pageFixups_reads b.entries out hwords hentries
    obtain ⟨out', hok', hmem'⟩ := ih out₁ (by omega) hrest
    have hcount : (8 + 2 * b.entries.length - 8 + 1) / 2 = b.entries.length := by omega
    refine ⟨out', ?_, fun r => ?_⟩
    · rw [blockFixups_step (by omega) (by omega) hpage hblock (Nat.le_add_right 8 _), hcount]
      exact bind_eq_ok.mpr ⟨out₁, hok, hok'⟩
    · rw [hmem', hmem, or_assoc]
      exact or_congr_right (by simp [Fixup])

/-- Where the image's data directory has the RVA and the size of the table. -/
def directoryOffset (data : Bytes) : ℕ :=
  let opt := littleEndian data 0x3c 4 + 24
  opt + (if littleEndian data opt 2 = 0x10b then 96 else 112) + 40

/-- The image has the base-relocation table `blocks`; where it has no table there are none. -/
structure HasTable (data : Bytes) (sections : List Section) (blocks : List Block) : Prop where
  header : 0x40 ≤ data.length
  directory : directoryOffset data + 8 ≤ data.length
  table : (littleEndian data (directoryOffset data) 4 = 0 ∨
      littleEndian data (directoryOffset data + 4) 4 = 0) ∧ blocks = [] ∨
    littleEndian data (directoryOffset data) 4 ≠ 0 ∧ blocks ≠ [] ∧
    littleEndian data (directoryOffset data + 4) 4 = packedSize (tableFields blocks) ∧
    ∃ off name, rvaToOff sections (littleEndian data (directoryOffset data) 4) =
      some (off, name) ∧
    (data.drop off).take (packedSize (tableFields blocks)) = pack (tableFields blocks)

variable {blocks : List Block} {lo hi base : ℤ}

theorem fields_fit : ∀ f ∈ tableFields blocks, f.2 < 256 ^ f.1 := by
  intro f hf
  obtain ⟨b, -, hf⟩ := List.mem_flatMap.mp hf
  simp only [Block.fields, List.mem_cons, List.mem_map] at hf
  rcases hf with rfl | rfl | ⟨e, -, rfl⟩
  · exact b.page_lt
  · exact b.size_lt
  · exact e.word_lt

theorem relocs_eq (hheader : 0x40 ≤ data.length)
    (hdir : directoryOffset data + 8 ≤ data.length) : relocs data sections =
      if littleEndian data (directoryOffset data) 4 = 0 ∨
        littleEndian data (directoryOffset data + 4) 4 = 0 then pure ∅
      else match rvaToOff sections (littleEndian data (directoryOffset data) 4) with
        | none => pure ∅
        | some (off, _) =>
          blockFixups data (off + littleEndian data (directoryOffset data + 4) 4) off ∅ := by
  have hopt : littleEndian data 0x3c 4 + 4 + 20 + 2 ≤ data.length := by
    rw [directoryOffset] at hdir
    omega
  rw [relocs, unpackOne_ok (by omega)]
  show (unpackOne 2 data (littleEndian data 0x3c 4 + 4 + 20) >>= _) = _
  rw [unpackOne_ok hopt]
  show (unpackFrom 4 2 data (directoryOffset data) >>= _) = _
  rw [unpackFrom_ok hdir]
  rfl

/-- The addresses read are those of the fixups. -/
theorem relocs_reads (h : HasTable data sections blocks) :
    ∃ rvas, relocs data sections = .ok rvas ∧ ∀ r, r ∈ rvas ↔ Fixup blocks r := by
  rw [relocs_eq h.header h.directory]
  rcases h.table with ⟨hnone, rfl⟩ | ⟨hrva, hblocks, hsize, off, name, hoff, henc⟩
  · rw [if_pos hnone]
    exact ⟨∅, rfl, fun r => by simp [Fixup]⟩
  · have hpos : 0 < packedSize (tableFields blocks) := by
      obtain ⟨b, rest, rfl⟩ := List.exists_cons_of_ne_nil hblocks
      have hcons : tableFields (b :: rest) = b.fields ++ tableFields rest := rfl
      rw [hcons, packedSize_append, b.size]
      omega
    have hlen : off + packedSize (tableFields blocks) ≤ data.length := by
      have hwidth := congrArg List.length henc
      rw [List.length_take, List.length_drop, pack_length] at hwidth
      omega
    have hne : ¬(littleEndian data (directoryOffset data) 4 = 0 ∨
        littleEndian data (directoryOffset data + 4) 4 = 0) := by
      rw [hsize]
      omega
    rw [if_neg hne, hoff, hsize]
    obtain ⟨rvas, hok, hmem⟩ := blockFixups_reads blocks ∅ rfl hlen
      ((take_eq_pack_iff fields_fit rfl hlen).mp henc)
    exact ⟨rvas, hok, fun r => by simp [hmem]⟩

/-! ## What the report leaves out -/

/-- No byte of the compared range is in a field that relocation changes. -/
def Unrelocated (blocks : List Block) (lo hi base : ℤ) : Prop :=
  ∀ r b : ℕ, Fixup blocks r → r ≤ b → b < r + 4 → ¬(lo ≤ base + b ∧ base + b < hi)

/-- The image, by RVA, as the loader leaves it `delta` bytes above its base. -/
def relocated (delta : ℕ) : List ℕ → Bytes → Bytes
  | [], image => image
  | r :: rs, image =>
    relocated delta rs (splice image r (toBytes 4 (littleEndian image r 4 + delta)))

/-- The fields are inside the image and do not overlap. -/
structure Apart (image : Bytes) (rs : List ℕ) : Prop where
  inside : ∀ r ∈ rs, r + 4 ≤ image.length
  pairwise : rs.Pairwise fun r r' => r + 4 ≤ r' ∨ r' + 4 ≤ r

variable {image : Bytes} {rs : List ℕ} {delta b : ℕ}

theorem Apart.tail (h : Apart image (r :: rs)) (n : ℕ) :
    Apart (splice image r (toBytes 4 n)) rs := by
  have hlen : (splice image r (toBytes 4 n)).length = image.length :=
    splice_length (h.inside r List.mem_cons_self)
  exact ⟨fun r' hr' => hlen ▸ h.inside r' (List.mem_cons_of_mem _ hr'), h.pairwise.of_cons⟩

theorem relocated_outside (h : Apart image rs) (hb : ∀ r ∈ rs, b < r ∨ r + 4 ≤ b) :
    (relocated delta rs image).getD b 0 = image.getD b 0 := by
  induction rs generalizing image with
  | nil => rfl
  | cons r rs ih =>
    rw [relocated, ih (h.tail _) fun r' hr' => hb r' (List.mem_cons_of_mem _ hr')]
    exact splice_getD_outside (h.inside r List.mem_cons_self) (hb r List.mem_cons_self)

theorem relocated_field (h : Apart image rs) (hr : r ∈ rs) :
    littleEndian (relocated delta rs image) r 4 = (littleEndian image r 4 + delta) % 2 ^ 32 := by
  induction rs generalizing image with
  | nil => exact absurd hr List.not_mem_nil
  | cons r' rs ih =>
    have hin : r' + (toBytes 4 (littleEndian image r' 4 + delta)).length ≤ image.length :=
      h.inside r' List.mem_cons_self
    rw [relocated]
    rcases List.mem_cons.mp hr with rfl | hr
    · -- the later fields are written beside this one
      have hrest : ∀ i < 4, (relocated delta rs (splice image r
          (toBytes 4 (littleEndian image r 4 + delta)))).getD (r + i) 0 =
          (splice image r (toBytes 4 (littleEndian image r 4 + delta))).getD (r + i) 0 :=
        fun i hi => relocated_outside (h.tail _) fun r' hr' => by
          have hapart := List.rel_of_pairwise_cons h.pairwise hr'
          omega
      rw [littleEndian_congr hrest]
      exact littleEndian_splice (h.inside r List.mem_cons_self)
    · have hapart := List.rel_of_pairwise_cons h.pairwise hr
      rw [ih (h.tail _) hr, littleEndian_splice_outside hin (by rw [toBytes_length]; omega)]

/-- Loading at any base leaves the compared range as it is in the file. -/
def LoadedAsIs (image : Bytes) (rs : List ℕ) (lo hi base : ℤ) : Prop :=
  ∀ delta b : ℕ, lo ≤ base + b → base + b < hi →
    (relocated delta rs image).getD b 0 = image.getD b 0

theorem unrelocated_iff_loaded (hapart : Apart image rs) (hrs : ∀ r, r ∈ rs ↔ Fixup blocks r) :
    Unrelocated blocks lo hi base ↔ LoadedAsIs image rs lo hi base := by
  constructor
  · intro hfree delta b hlo hhi
    refine relocated_outside hapart fun r hr => ?_
    by_contra hin
    exact hfree r b ((hrs r).mp hr) (by omega) (by omega) ⟨hlo, hhi⟩
  · intro hloaded r b hr hrb hbr hin
    obtain ⟨k, rfl⟩ := Nat.exists_eq_add_of_le hrb
    have hk : k < 4 := by omega
    -- a difference of `256 ^ k` changes byte `k` of the field
    have hsame := congrArg BitVec.toNat (hloaded (256 ^ k) (r + k) hin.1 hin.2)
    rw [← littleEndian_byte hk, ← littleEndian_byte hk,
      relocated_field hapart ((hrs r).mpr hr)] at hsame
    generalize littleEndian image r 4 = v at hsame
    interval_cases k <;> omega

theorem touched_eq_nil {rvas : Finset ℕ} (hmem : ∀ r, r ∈ rvas ↔ Fixup blocks r) :
    touched rvas lo hi base = [] ↔ ∀ r, Fixup blocks r → ¬(lo ≤ base + r ∧ base + r < hi) := by
  simp only [touched, List.eq_nil_iff_forall_not_mem, Finset.mem_sort, Finset.mem_filter, hmem,
    not_and]
  refine forall_congr' fun r => imp_congr_right fun _ => ?_
  constructor <;> intro hout hlo <;> have := hout (by omega) <;> omega

/-- The report is right about a range unless a field reaches into it from before `lo` and no
field starts in it. What it is about is whether loading leaves the range as it is. -/
theorem touched_iff (h : HasTable data sections blocks) (lo hi base : ℤ) :
    ∃ rvas, relocs data sections = .ok rvas ∧
      ((touched rvas lo hi base = [] ↔ Unrelocated blocks lo hi base) ↔
        hi ≤ lo ∨ (∃ r, Fixup blocks r ∧ lo ≤ base + r ∧ base + r < hi) ∨
          ¬∃ r, Fixup blocks r ∧ lo - 4 < base + r ∧ base + r < lo) ∧
      ∀ image, Apart image (rvas.sort (· ≤ ·)) → (Unrelocated blocks lo hi base ↔
        LoadedAsIs image (rvas.sort (· ≤ ·)) lo hi base) := by
  obtain ⟨rvas, hok, hmem⟩ := relocs_reads h
  refine ⟨rvas, hok, ?_, fun image hapart =>
    unrelocated_iff_loaded hapart fun r => (Finset.mem_sort _).trans (hmem r)⟩
  rw [touched_eq_nil hmem]
  constructor
  · intro hreport
    by_contra hcond
    simp only [not_or, not_not, not_le] at hcond
    obtain ⟨hrange, hnone, r, hr, hbelow, habove⟩ := hcond
    -- the byte at `lo` is in the field at `r`, and no field is listed
    have hfree := hreport.mp fun r' hr' hin => hnone ⟨r', hr', hin⟩
    exact hfree r (lo - base).toNat hr (by omega) (by omega) (by omega)
  · rintro (hempty | ⟨r, hr, hin⟩ | hnone)
    · exact iff_of_true (fun r _ hin => by omega) fun r b _ _ _ hin => by omega
    · exact iff_of_false (fun hall => hall r hr hin) fun hall =>
        hall r r hr le_rfl (by omega) hin
    · refine ⟨fun hall r b hr hrb hbr hin => ?_, fun hfree r hr hin =>
        hfree r r hr le_rfl (by omega) hin⟩
      by_cases hbelow : base + r < lo
      · exact hnone ⟨r, hr, by omega, hbelow⟩
      · exact hall r hr (by omega)

/-! A driver with one fixup two bytes before the compared range. -/

def fixupBefore : Block :=
  ⟨0, [⟨true, 0x349, by decide⟩, ⟨false, 0, by decide⟩], by decide, by decide⟩

def driverSection : Section := ⟨".reloc".toList, 0x1000, 12, 352, 12, 0x42000040⟩

def driverImage : Bytes :=
  [0x4d, 0x5a] ++ List.replicate 58 0 ++ toBytes 4 0x40 ++ [0x50, 0x45, 0, 0] ++
    pack [(2, 0x14c), (2, 1), (4, 0), (4, 0), (4, 0), (2, 224), (2, 0x102)] ++
    toBytes 2 0x10b ++ List.replicate 26 0 ++ toBytes 4 0x10000 ++ List.replicate 104 0 ++
    pack [(4, 0x1000), (4, 12)] ++ List.replicate 80 0 ++
    [0x2e, 0x72, 0x65, 0x6c, 0x6f, 0x63, 0, 0] ++
    pack [(4, 12), (4, 0x1000), (4, 12), (4, 352)] ++ List.replicate 12 0 ++
    toBytes 4 0x42000040 ++ pack (tableFields [fixupBefore])

example : load (fun _ => some driverImage) "intlfxsr.sys".toList =
    .ok ⟨driverImage, [driverSection], 0x10000⟩ := by
  decide +kernel

theorem driverImage_hasTable : HasTable driverImage [driverSection] [fixupBefore] where
  header := by decide +kernel
  directory := by decide +kernel
  table := .inr ⟨by decide +kernel, List.cons_ne_nil _ _, by decide +kernel, 352, _, rfl,
    by decide +kernel⟩

theorem touched_iff_driverImage : ∃ rvas, relocs driverImage [driverSection] = .ok rvas ∧
    ((touched rvas 0x1034b 0x10381 0x10000 = [] ↔
        Unrelocated [fixupBefore] 0x1034b 0x10381 0x10000) ↔
      (0x10381 : ℤ) ≤ 0x1034b ∨
        (∃ r : ℕ, Fixup [fixupBefore] r ∧ (0x1034b : ℤ) ≤ 0x10000 + r ∧
          (0x10000 : ℤ) + r < 0x10381) ∨
        ¬∃ r : ℕ, Fixup [fixupBefore] r ∧ (0x1034b : ℤ) - 4 < 0x10000 + r ∧
          (0x10000 : ℤ) + r < 0x1034b) ∧
    ∀ image, Apart image (rvas.sort (· ≤ ·)) → (Unrelocated [fixupBefore] 0x1034b 0x10381 0x10000 ↔
      LoadedAsIs image (rvas.sort (· ≤ ·)) 0x1034b 0x10381 0x10000) :=
  touched_iff driverImage_hasTable 0x1034b 0x10381 0x10000

theorem touched_misses : ¬∀ (data : Bytes) (sections : List Section) (blocks : List Block)
    (lo hi base : ℤ), HasTable data sections blocks →
      ∃ rvas, relocs data sections = .ok rvas ∧
        (touched rvas lo hi base = [] ↔ Unrelocated blocks lo hi base) := by
  intro hclaim
  obtain ⟨rvas, hok, hiff⟩ := hclaim _ _ _ 0x1034b 0x10381 0x10000 driverImage_hasTable
  obtain ⟨rvas', hok', hmem⟩ := relocs_reads driverImage_hasTable
  obtain rfl : rvas' = rvas := Except.ok.inj (hok'.symm.trans hok)
  have honly : ∀ r, Fixup [fixupBefore] r ↔ r = 0x349 := by
    simp [Fixup, fixupBefore]
  rw [touched_eq_nil hmem] at hiff
  have hfree := hiff.mp fun r hr hin => by
    rw [(honly r).mp hr] at hin
    omega
  exact hfree 0x349 0x34b ((honly _).mpr rfl) (by omega) (by omega) (by omega)

end Nt351.NmSig
