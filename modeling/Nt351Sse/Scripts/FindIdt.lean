import Nt351Sse.Base.Python

/-! `findidt.py`: the sections of a kernel image, the two forms of an IDT record, and the
search for runs of such records. -/

namespace Nt351.FindIdt
open Python

abbrev accessOk : List ℕ := [0x8e00, 0xee00, 0x8f00, 0xef00, 0x8500, 0xe500]

abbrev r0Code : ℕ := 0x0008

structure Section where
  name : Str
  vaddr : ℕ
  vsize : ℕ
  raddr : ℕ
  rsize : ℕ
  chars : ℕ
deriving DecidableEq

structure Image where
  data : Bytes
  sections : List Section
  imageBase : ℕ
deriving DecidableEq

def load (files : Str → Option Bytes) (path : Str) : Except Error Image := do
  let data ← match files path with
    | none => throw .os
    | some data => pure data
  let eLfanew ← unpackOne 4 data 0x3c
  let fileHeader := eLfanew + 4
  let numSections ← unpackOne 2 data (fileHeader + 2)
  let optSize ← unpackOne 2 data (fileHeader + 16)
  let opt := fileHeader + 20
  let imageBase ← unpackOne 4 data (opt + 28)
  let secBase := opt + optSize
  let sections ← (List.range numSections).mapM fun i => do
    let entry := secBase + i * 40
    let _ ← unpackFrom 1 8 data entry
    let name := latin1 (((data.drop entry).take 8).rdropWhile (· = 0))
    let vsize ← unpackOne 4 data (entry + 8)
    let vaddr ← unpackOne 4 data (entry + 12)
    let rsize ← unpackOne 4 data (entry + 16)
    let raddr ← unpackOne 4 data (entry + 20)
    let chars ← unpackOne 4 data (entry + 36)
    pure { name, vaddr, vsize, raddr, rsize, chars : Section }
  pure ⟨data, sections, imageBase⟩

/-- The file offset and the section, of the first section whose raw data has the RVA. -/
def rvaToOff (sections : List Section) (rva : ℕ) : Option (ℕ × Str) :=
  (sections.find? fun s => s.rsize ≠ 0 ∧ s.vaddr ≤ rva ∧ rva < s.vaddr + max s.vsize s.rsize ∧
    rva - s.vaddr < s.rsize).map fun s => (s.raddr + (rva - s.vaddr), s.name)

/-- The addresses from `lo` up to `hi`, and the section they are in. -/
structure Range where
  lo : ℕ
  hi : ℕ
  name : Str

def codeRanges (sections : List Section) (imageBase : ℕ) : List Range :=
  (sections.filter fun s => s.chars &&& 0x20000000 ≠ 0 ∧ s.rsize ≠ 0).map fun s =>
    ⟨imageBase + s.vaddr, imageBase + s.vaddr + max s.vsize s.rsize, s.name⟩

def InCode (ranges : List Range) (va : ℕ) : Prop := ∃ r ∈ ranges, r.lo ≤ va ∧ va < r.hi

instance (ranges : List Range) (va : ℕ) : Decidable (InCode ranges va) :=
  inferInstanceAs (Decidable (∃ r ∈ ranges, _))

inductive Record
  | empty
  | gate (va access : ℕ)
deriving DecidableEq

variable (blob : Bytes) (ranges : List Range)

/-- `dd handler / dw access / dw selector`, or neither a gate nor empty in this form. -/
def templateRecord (off : ℕ) : Option Record :=
  let addr := littleEndian blob off 4
  let access := littleEndian blob (off + 4) 2
  let selector := littleEndian blob (off + 6) 2
  if selector = r0Code then
    if addr = 0 ∧ access = 0 then some .empty
    else if access ∈ accessOk ∧ InCode ranges addr then some (.gate addr (access >>> 8))
    else none
  else none

/-- A real gate descriptor. -/
def swizzledRecord (off : ℕ) : Option Record :=
  let lo := littleEndian blob off 2
  let sel := littleEndian blob (off + 2) 2
  let resv := littleEndian blob (off + 4) 1
  let acc := littleEndian blob (off + 5) 1
  let hi := littleEndian blob (off + 6) 2
  if sel = r0Code ∧ resv = 0 ∧ acc <<< 8 ∈ accessOk then
    let va := hi <<< 16 ||| lo
    if InCode ranges va then some (.gate va acc) else none
  else none

def recordAt (off : ℕ) : Option Record :=
  if blob.length < off + 8 then none
  else (templateRecord blob ranges off).or (swizzledRecord blob ranges off)

/-- The records from `cur` on, up to the first 8 bytes that are none. -/
def entriesFrom (cur : ℕ) : List Record :=
  if cur + 8 ≤ blob.length then
    match recordAt blob ranges cur with
    | none => []
    | some r => r :: entriesFrom (cur + 8)
  else []
termination_by blob.length - cur

/-- Without the empty records at the end. -/
def trimmed (entries : List Record) : List Record := entries.rdropWhile (· = .empty)

/-! ## The two encodings -/

/-- `dd h / dw a / dw 8` -/
def template (h a : ℕ) : Bytes := pack [(4, h), (2, a), (2, r0Code)]

/-- `dw low h / dw 8 / db 0 / db a >> 8 / dw high h` -/
def swizzled (h a : ℕ) : Bytes :=
  pack [(2, h % 2 ^ 16), (2, r0Code), (1, 0), (1, a >>> 8), (2, h >>> 16)]

variable {blob ranges} {off h a acc : ℕ}

theorem access_of_ok (ha : a ∈ accessOk) : a ≠ 0 ∧ a < 2 ^ 16 ∧ (a >>> 8) <<< 8 = a := by
  revert a
  decide

theorem high_low (h : ℕ) : h >>> 16 <<< 16 ||| h % 2 ^ 16 = h := by
  rw [← Nat.shiftLeft_add_eq_or_of_lt (Nat.mod_lt h (by decide)), Nat.shiftRight_eq_div_pow,
    Nat.shiftLeft_eq]
  exact Nat.div_add_mod' h _

theorem readsAs_template (hlen : off + 8 ≤ blob.length) (hh : h < 2 ^ 32) (ha : a < 2 ^ 16) :
    (blob.drop off).take 8 = template h a ↔ littleEndian blob off 4 = h ∧
      littleEndian blob (off + 4) 2 = a ∧ littleEndian blob (off + 6) 2 = r0Code := by
  have hfit : ∀ f ∈ [(4, h), (2, a), (2, r0Code)], f.2 < 256 ^ f.1 := by
    simpa using ⟨hh, ha, by decide⟩
  have hreads : (blob.drop off).take 8 = template h a ↔ _ := take_eq_pack_iff hfit rfl hlen
  simpa only [ReadsAs, and_true, Nat.add_assoc, Nat.reduceAdd] using hreads

theorem readsAs_swizzled (hlen : off + 8 ≤ blob.length) (hh : h < 2 ^ 32) (ha : a < 2 ^ 16) :
    (blob.drop off).take 8 = swizzled h a ↔ littleEndian blob off 2 = h % 2 ^ 16 ∧
      littleEndian blob (off + 2) 2 = r0Code ∧ littleEndian blob (off + 4) 1 = 0 ∧
      littleEndian blob (off + 5) 1 = a >>> 8 ∧ littleEndian blob (off + 6) 2 = h >>> 16 := by
  have hhigh : h >>> 16 < 2 ^ 16 := by
    rw [Nat.shiftRight_eq_div_pow]
    omega
  have hacc : a >>> 8 < 2 ^ 8 := by
    rw [Nat.shiftRight_eq_div_pow]
    omega
  have hfit : ∀ f ∈ [(2, h % 2 ^ 16), (2, r0Code), (1, 0), (1, a >>> 8), (2, h >>> 16)],
      f.2 < 256 ^ f.1 := by
    simpa using ⟨Nat.mod_lt h (by decide), by decide, hacc, hhigh⟩
  have hreads : (blob.drop off).take 8 = swizzled h a ↔ _ := take_eq_pack_iff hfit rfl hlen
  simpa only [ReadsAs, and_true, Nat.add_assoc, Nat.reduceAdd] using hreads

theorem length_of_take (h : (blob.drop off).take 8 = template h a ∨
    (blob.drop off).take 8 = swizzled h a) : off + 8 ≤ blob.length := by
  have hlen : ((blob.drop off).take 8).length = 8 := by
    rcases h with h | h <;> rw [h] <;> rfl
  rw [List.length_take, List.length_drop] at hlen
  omega

theorem recordAt_template (hin : InCode ranges h) (ha : a ∈ accessOk)
    (haddr : littleEndian blob off 4 = h) (haccess : littleEndian blob (off + 4) 2 = a)
    (hsel : littleEndian blob (off + 6) 2 = r0Code) (hlen : off + 8 ≤ blob.length) :
    recordAt blob ranges off = some (.gate h (a >>> 8)) := by
  have hne : ¬(h = 0 ∧ a = 0) := fun hz => (access_of_ok ha).1 hz.2
  have hrecord : templateRecord blob ranges off = some (.gate h (a >>> 8)) := by
    rw [templateRecord, haddr, haccess, hsel, if_pos rfl, if_neg hne, if_pos ⟨ha, hin⟩]
  rw [recordAt, if_neg (not_lt.mpr hlen), hrecord, Option.some_or]

theorem recordAt_encoded (hh : h < 2 ^ 32) (hin : InCode ranges h) (ha : a ∈ accessOk)
    (hw : (blob.drop off).take 8 = template h a ∨ (blob.drop off).take 8 = swizzled h a) :
    recordAt blob ranges off = some (.gate h (a >>> 8)) := by
  have hlen := length_of_take hw
  obtain ⟨-, hlt, hshift⟩ := access_of_ok ha
  rcases hw with hw | hw
  · obtain ⟨haddr, haccess, hsel⟩ := (readsAs_template hlen hh hlt).mp hw
    exact recordAt_template hin ha haddr haccess hsel hlen
  · obtain ⟨hlo, hsel, hresv, hacc, hhi⟩ := (readsAs_swizzled hlen hh hlt).mp hw
    by_cases height : h >>> 16 = r0Code
    · -- the upper half of the address reads as the selector of the other form
      apply recordAt_template hin ha _ _ (hhi.trans height) hlen
      · rw [littleEndian_add blob off 2 2, hlo, hsel, ← height, Nat.shiftRight_eq_div_pow]
        omega
      · rw [littleEndian_add blob (off + 4) 1 1, hresv, hacc, ← hshift, Nat.shiftLeft_shiftRight,
          Nat.shiftLeft_eq]
        omega
    · have hnone : templateRecord blob ranges off = none := by
        rw [templateRecord, hhi, if_neg height]
      have hrecord : swizzledRecord blob ranges off = some (.gate h (a >>> 8)) := by
        rw [swizzledRecord, hlo, hsel, hresv, hacc, hhi, if_pos ⟨rfl, rfl, hshift.symm ▸ ha⟩,
          high_low, if_pos hin]
      rw [recordAt, if_neg (not_lt.mpr hlen), hnone, hrecord, Option.none_or]

theorem of_templateRecord (hlen : off + 8 ≤ blob.length)
    (hgate : templateRecord blob ranges off = some (.gate h acc)) :
    (blob.drop off).take 8 = template h (acc <<< 8) ∧ h < 2 ^ 32 ∧ InCode ranges h ∧
      acc <<< 8 ∈ accessOk := by
  rw [templateRecord] at hgate
  split_ifs at hgate with hsel hzero hok
  · exact nomatch hgate
  obtain ⟨rfl, rfl⟩ := Record.gate.inj (Option.some.inj hgate)
  obtain ⟨-, hlt, hshift⟩ := access_of_ok hok.1
  have hh : littleEndian blob off 4 < 2 ^ 32 := littleEndian_lt blob off 4
  rw [hshift]
  exact ⟨(readsAs_template hlen hh hlt).mpr ⟨rfl, rfl, hsel⟩, hh, hok.2, hok.1⟩

theorem of_swizzledRecord (hlen : off + 8 ≤ blob.length)
    (hgate : swizzledRecord blob ranges off = some (.gate h acc)) :
    (blob.drop off).take 8 = swizzled h (acc <<< 8) ∧ h < 2 ^ 32 ∧ InCode ranges h ∧
      acc <<< 8 ∈ accessOk := by
  simp only [swizzledRecord] at hgate
  split_ifs at hgate with hshape hin
  obtain ⟨hva, rfl⟩ := Record.gate.inj (Option.some.inj hgate)
  obtain ⟨hsel, hresv, hok⟩ := hshape
  rw [hva] at hin
  have hlo : littleEndian blob off 2 < 2 ^ 16 := littleEndian_lt blob off 2
  have hhi : littleEndian blob (off + 6) 2 < 2 ^ 16 := littleEndian_lt blob (off + 6) 2
  rw [← Nat.shiftLeft_add_eq_or_of_lt hlo, Nat.shiftLeft_eq] at hva
  have hshift : (littleEndian blob (off + 5) 1 <<< 8) >>> 8 = littleEndian blob (off + 5) 1 :=
    Nat.shiftLeft_shiftRight _ 8
  have hh : h < 2 ^ 32 := by omega
  have hlow : littleEndian blob off 2 = h % 2 ^ 16 := by omega
  have hhigh : littleEndian blob (off + 6) 2 = h >>> 16 := by
    rw [Nat.shiftRight_eq_div_pow]
    omega
  exact ⟨(readsAs_swizzled hlen hh (access_of_ok hok).2.1).mpr
    ⟨hlow, hsel, hresv, hshift.symm, hhigh⟩, hh, hin, hok⟩

/-- Both forms of a gate are read as that gate, and nothing else is read as one. -/
theorem recordAt_decodes (blob : Bytes) (ranges : List Range) (off : ℕ) :
    (∀ h a : ℕ, h < 2 ^ 32 → InCode ranges h → a ∈ accessOk →
      (blob.drop off).take 8 = template h a ∨ (blob.drop off).take 8 = swizzled h a →
      recordAt blob ranges off = some (.gate h (a >>> 8))) ∧
    ∀ h acc : ℕ, recordAt blob ranges off = some (.gate h acc) →
      ((blob.drop off).take 8 = template h (acc <<< 8) ∨
        (blob.drop off).take 8 = swizzled h (acc <<< 8)) ∧
      h < 2 ^ 32 ∧ InCode ranges h ∧ acc <<< 8 ∈ accessOk := by
  refine ⟨fun h a => recordAt_encoded, fun h acc hgate => ?_⟩
  rw [recordAt] at hgate
  split_ifs at hgate with hshort
  have hlen : off + 8 ≤ blob.length := not_lt.mp hshort
  rcases Option.or_eq_some_iff.mp hgate with hgate | ⟨-, hgate⟩
  · exact (of_templateRecord hlen hgate).imp_left .inl
  · exact (of_swizzledRecord hlen hgate).imp_left .inr

/-! ## The search -/

theorem length_of_record {r : Record} (h : recordAt blob ranges off = some r) :
    off + 8 ≤ blob.length := by
  by_contra hshort
  rw [recordAt, if_pos (not_le.mp hshort)] at h
  cases h

theorem entriesFrom_cons {r : Record} (h : recordAt blob ranges off = some r) :
    entriesFrom blob ranges off = r :: entriesFrom blob ranges (off + 8) := by
  rw [entriesFrom, if_pos (length_of_record h), h]

theorem trimmed_pos (hgate : recordAt blob ranges off = some (.gate h acc)) :
    0 < (trimmed (entriesFrom blob ranges off)).length := by
  rw [entriesFrom_cons hgate, List.length_pos_iff, trimmed, Ne, List.rdropWhile_eq_nil_iff]
  exact fun hempty => nomatch of_decide_eq_true (hempty _ List.mem_cons_self)

structure Run where
  sectionName : Str
  fileOff : ℕ
  rva : ℕ
  entries : List Record

/-- The search in one section, from the offset `off` of its raw data on. -/
def runsFrom (blob : Bytes) (ranges : List Range) (minRun : ℕ) (s : Section) (off : ℕ) :
    List Run :=
  if off + 8 ≤ blob.length then
    match h : recordAt blob ranges off with
    | none => runsFrom blob ranges minRun s (off + 1)
    | some .empty => runsFrom blob ranges minRun s (off + 1)
    | some (.gate _ _) =>
      let entries := trimmed (entriesFrom blob ranges off)
      if minRun ≤ entries.length then
        ⟨s.name, s.raddr + off, s.vaddr + off, entries⟩ ::
          runsFrom blob ranges minRun s (off + entries.length * 8)
      else runsFrom blob ranges minRun s (off + 1)
  else []
termination_by blob.length - off
decreasing_by
  · omega
  · omega
  · have hpos := trimmed_pos h
    omega
  · omega

def rawData (data : Bytes) (s : Section) : Bytes := (data.drop s.raddr).take s.rsize

def sectionRuns (data : Bytes) (ranges : List Range) (minRun : ℕ) (s : Section) : List Run :=
  if s.rsize = 0 then [] else runsFrom (rawData data s) ranges minRun s 0

def findIdt (data : Bytes) (sections : List Section) (imageBase minRun : ℕ) : List Run :=
  sections.flatMap (sectionRuns data (codeRanges sections imageBase) minRun)

/-- The `min_run` of callers that give none. -/
abbrev defaultMinRun : ℕ := 24

end Nt351.FindIdt
