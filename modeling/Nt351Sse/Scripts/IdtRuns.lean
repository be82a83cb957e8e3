import Nt351Sse.Base.Scan
import Nt351Sse.Scripts.FindIdt

/-! What `find_idt` returns: tables of records from gate to gate, found from left to right
in every section. -/

namespace Nt351.FindIdt
open Python Scan

variable {blob : Bytes} {ranges : List Range} {minRun off i n h acc : ℕ} {s : Section}

def GateAt (blob : Bytes) (ranges : List Range) (off : ℕ) : Prop :=
  ∃ h acc, recordAt blob ranges off = some (.gate h acc)

/-- `n` records in a row, the first and the last of them gates. The longest table at an offset
is the maximal sequence of records, without the empty ones at its end. -/
structure Table (blob : Bytes) (ranges : List Range) (off n : ℕ) : Prop where
  first : GateAt blob ranges off
  records : ∀ i < n, ∃ r, recordAt blob ranges (off + 8 * i) = some r
  last : ∃ m, n = m + 1 ∧ GateAt blob ranges (off + 8 * m)

/-- The entries of a run that starts at `off`. -/
def entriesAt (blob : Bytes) (ranges : List Range) (off : ℕ) : List Record :=
  trimmed (entriesFrom blob ranges off)

theorem entriesFrom_nil (hnone : recordAt blob ranges off = none) :
    entriesFrom blob ranges off = [] := by
  rw [entriesFrom, hnone, ite_self]

/-- The entries are the records in a row, as many as there are. -/
theorem entriesFrom_spec (blob : Bytes) (ranges : List Range) (off : ℕ) :
    (∀ i (hi : i < (entriesFrom blob ranges off).length),
      recordAt blob ranges (off + 8 * i) = some ((entriesFrom blob ranges off)[i])) ∧
    recordAt blob ranges (off + 8 * (entriesFrom blob ranges off).length) = none := by
  induction off using entriesFrom.induct blob ranges with
  | case1 off hlen hnone =>
    simp [entriesFrom_nil hnone, hnone]
  | case2 off hlen r hr ih =>
    rw [entriesFrom_cons hr]
    refine ⟨fun i hi => ?_, ?_⟩
    · cases i with
      | zero => exact hr
      | succ i =>
        have hstep : off + 8 * (i + 1) = off + 8 + 8 * i := by omega
        rw [hstep]
        exact ih.1 i (Nat.lt_of_succ_lt_succ hi)
    · have hstep : ∀ n, off + 8 * (n + 1) = off + 8 + 8 * n := fun n => by omega
      rw [List.length_cons, hstep]
      exact ih.2
  | case3 off hshort =>
    have hnone : recordAt blob ranges off = none := if_pos (not_le.mp hshort)
    simp [entriesFrom_nil hnone, hnone]

theorem entriesAt_isPrefix : entriesAt blob ranges off <+: entriesFrom blob ranges off :=
  List.rdropWhile_prefix _ _

theorem recordAt_entriesAt (hi : i < (entriesAt blob ranges off).length) :
    recordAt blob ranges (off + 8 * i) = some (entriesAt blob ranges off)[i] := by
  have hlt : i < (entriesFrom blob ranges off).length := hi.trans_le entriesAt_isPrefix.length_le
  rw [(entriesFrom_spec blob ranges off).1 i hlt, entriesAt_isPrefix.getElem hi]

/-- What is dropped at the end is empty. -/
theorem entriesFrom_dropped (hlt : i < (entriesFrom blob ranges off).length)
    (hge : (entriesAt blob ranges off).length ≤ i) :
    (entriesFrom blob ranges off)[i] = .empty := by
  have hsplit : entriesAt blob ranges off ++
      (entriesFrom blob ranges off).rtakeWhile (· = .empty) = entriesFrom blob ranges off :=
    List.rdropWhile_append_rtakeWhile
  have hmem : (entriesFrom blob ranges off)[i] ∈
      (entriesFrom blob ranges off).rtakeWhile (· = .empty) := by
    have hget := List.getElem_of_eq hsplit.symm hlt
    rw [List.getElem_append_right hge] at hget
    exact hget ▸ List.getElem_mem _
  have hp := List.mem_rtakeWhile_imp hmem
  exact of_decide_eq_true hp

theorem table_entriesAt (hgate : GateAt blob ranges off) :
    Table blob ranges off (entriesAt blob ranges off).length := by
  refine ⟨hgate, fun i hi => ⟨_, recordAt_entriesAt hi⟩, ?_⟩
  obtain ⟨h, acc, hr⟩ := hgate
  have hpos : 0 < (entriesAt blob ranges off).length := trimmed_pos hr
  have hne : entriesAt blob ranges off ≠ [] := List.length_pos_iff.mp hpos
  have hlast : (entriesAt blob ranges off).getLast hne ≠ .empty := fun he =>
    List.rdropWhile_last_not _ _ hne (decide_eq_true he)
  rw [List.getLast_eq_getElem] at hlast
  have hrecord := recordAt_entriesAt (Nat.sub_one_lt_of_lt hpos)
  refine ⟨_, (Nat.succ_pred_eq_of_pos hpos).symm, ?_⟩
  cases hcase : (entriesAt blob ranges off)[(entriesAt blob ranges off).length - 1] with
  | empty => exact absurd hcase hlast
  | gate h acc => exact ⟨h, acc, hcase ▸ hrecord⟩

theorem Table.le_entriesAt (ht : Table blob ranges off n) :
    n ≤ (entriesAt blob ranges off).length := by
  obtain ⟨hall, hend⟩ := entriesFrom_spec blob ranges off
  obtain ⟨m, rfl, h, acc, hgate⟩ := ht.last
  have hlen : m + 1 ≤ (entriesFrom blob ranges off).length := by
    by_contra hlt
    obtain ⟨r, hr⟩ := ht.records _ (not_le.mp hlt)
    rw [hend] at hr
    exact nomatch hr
  by_contra hlt
  have hempty := entriesFrom_dropped hlen (Nat.le_of_lt_succ (not_le.mp hlt))
  rw [hall m hlen, hempty] at hgate
  exact nomatch hgate

/-! ## The runs are those of a scan -/

/-- The bytes of the run at `off`, or 0 if none is taken there. -/
def runBytes (blob : Bytes) (ranges : List Range) (minRun off : ℕ) : ℕ :=
  match recordAt blob ranges off with
  | some (.gate _ _) =>
    if minRun ≤ (entriesAt blob ranges off).length then 8 * (entriesAt blob ranges off).length
    else 0
  | _ => 0

def runAt (blob : Bytes) (ranges : List Range) (s : Section) (off : ℕ) : Run :=
  ⟨s.name, s.raddr + off, s.vaddr + off, entriesAt blob ranges off⟩

theorem runBytes_ne_zero : runBytes blob ranges minRun off ≠ 0 ↔
    GateAt blob ranges off ∧ minRun ≤ (entriesAt blob ranges off).length := by
  rw [runBytes]
  constructor
  · intro hne
    split at hne
    · next h acc hr =>
      exact ⟨⟨h, acc, hr⟩, by_contra fun hshort => hne (if_neg hshort)⟩
    · exact absurd rfl hne
  · rintro ⟨⟨h, acc, hr⟩, hlong⟩
    have hpos : 0 < (entriesAt blob ranges off).length := trimmed_pos hr
    simp only [hr, if_pos hlong]
    omega

theorem runsFrom_skip (hlen : off + 8 ≤ blob.length) (hskip : runBytes blob ranges minRun off = 0) :
    runsFrom blob ranges minRun s off = runsFrom blob ranges minRun s (off + 1) := by
  rw [runsFrom, if_pos hlen]
  split
  · rfl
  · rfl
  · next h acc hgate =>
    have hshort : ¬minRun ≤ (entriesAt blob ranges off).length := fun hlong =>
      runBytes_ne_zero.mpr ⟨⟨h, acc, hgate⟩, hlong⟩ hskip
    exact if_neg hshort

theorem runBytes_eq (hne : runBytes blob ranges minRun off ≠ 0) :
    runBytes blob ranges minRun off = 8 * (entriesAt blob ranges off).length := by
  obtain ⟨⟨h, acc, hgate⟩, hlong⟩ := runBytes_ne_zero.mp hne
  rw [runBytes, hgate]
  exact if_pos hlong

theorem runsFrom_take (hne : runBytes blob ranges minRun off ≠ 0) :
    runsFrom blob ranges minRun s off = runAt blob ranges s off ::
      runsFrom blob ranges minRun s (off + runBytes blob ranges minRun off) := by
  obtain ⟨⟨h, acc, hgate⟩, hlong⟩ := runBytes_ne_zero.mp hne
  rw [runsFrom, if_pos (length_of_record hgate), runBytes_eq hne, Nat.mul_comm 8]
  split
  · next hnone => cases hnone.symm.trans hgate
  · next hempty => cases hempty.symm.trans hgate
  · exact if_pos hlong

theorem runsFrom_eq_scan (blob : Bytes) (ranges : List Range) (minRun : ℕ) (s : Section)
    (off : ℕ) : runsFrom blob ranges minRun s off =
      (scan (runBytes blob ranges minRun) (blob.length - 7) off).map (runAt blob ranges s) := by
  induction off using scan.induct (runBytes blob ranges minRun) (blob.length - 7) with
  | case1 off hstop hskip ih =>
    rw [scan_skip hstop hskip, runsFrom_skip (by omega) hskip, ih]
  | case2 off hstop htake ih =>
    rw [scan_take hstop htake, runsFrom_take htake, List.map_cons, ih]
  | case3 off hstop =>
    rw [scan_end (not_lt.mp hstop), runsFrom, if_neg (by omega), List.map_nil]

/-- The offsets in a section at which its runs start. -/
def starts (data : Bytes) (ranges : List Range) (minRun : ℕ) (s : Section) : List ℕ :=
  scan (runBytes (rawData data s) ranges minRun) ((rawData data s).length - 7) 0

theorem sectionRuns_eq (data : Bytes) (ranges : List Range) (minRun : ℕ) (s : Section) :
    sectionRuns data ranges minRun s =
      (starts data ranges minRun s).map (runAt (rawData data s) ranges s) := by
  rw [sectionRuns, runsFrom_eq_scan, ← starts]
  split
  · next hzero =>
    have hnil : starts data ranges minRun s = [] := by
      rw [starts, rawData, hzero, List.take_zero]
      exact scan_end (Nat.zero_le _)
    rw [hnil, List.map_nil]
  · rfl

/-! ## What is found -/

/-- At least `minRun` records from gate to gate, from `off` up to `e`. -/
def Piece (blob : Bytes) (ranges : List Range) (minRun off e : ℕ) : Prop :=
  ∃ n, minRun ≤ n ∧ Table blob ranges off n ∧ e = off + 8 * n

theorem Table.length_le (ht : Table blob ranges off n) : off + 8 * n ≤ blob.length := by
  obtain ⟨m, rfl, h, acc, hgate⟩ := ht.last
  have hlen := length_of_record hgate
  omega

theorem piece_runBytes (hne : runBytes blob ranges minRun off ≠ 0) :
    Piece blob ranges minRun off (off + runBytes blob ranges minRun off) := by
  obtain ⟨hgate, hlong⟩ := runBytes_ne_zero.mp hne
  exact ⟨_, hlong, table_entriesAt hgate, by rw [runBytes_eq hne]⟩

theorem Piece.le_runBytes {e : ℕ} (hpiece : Piece blob ranges minRun off e) :
    off < blob.length - 7 ∧ runBytes blob ranges minRun off ≠ 0 ∧
      e ≤ off + runBytes blob ranges minRun off := by
  obtain ⟨n, hlong, ht, rfl⟩ := hpiece
  have hne : runBytes blob ranges minRun off ≠ 0 :=
    runBytes_ne_zero.mpr ⟨ht.first, hlong.trans ht.le_entriesAt⟩
  obtain ⟨h, acc, hgate⟩ := ht.first
  have hlen := length_of_record hgate
  have hle := ht.le_entriesAt
  refine ⟨by omega, hne, ?_⟩
  rw [runBytes_eq hne]
  omega

theorem starts_leftmost (data : Bytes) (ranges : List Range) (minRun : ℕ) (s : Section) :
    Leftmost (Piece (rawData data s) ranges minRun) {p | p ∈ starts data ranges minRun s} :=
  scan_leftmost (fun _ _ hpiece => hpiece.le_runBytes) fun _ _ hne => piece_runBytes hne

/-- The runs found in one section. -/
structure Found (data : Bytes) (ranges : List Range) (minRun : ℕ) (s : Section)
    (runs : List Run) : Prop where
  table : ∀ run ∈ runs, ∃ off, run.sectionName = s.name ∧ run.fileOff = s.raddr + off ∧
    run.rva = s.vaddr + off ∧ minRun ≤ run.entries.length ∧
    off + 8 * run.entries.length ≤ (rawData data s).length ∧
    Table (rawData data s) ranges off run.entries.length ∧
    ∀ i (hi : i < run.entries.length),
      recordAt (rawData data s) ranges (off + 8 * i) = some run.entries[i]
  apart : runs.Pairwise fun run run' => run.fileOff + 8 * run.entries.length ≤ run'.fileOff
  covered : ∀ off n, Table (rawData data s) ranges off n → minRun ≤ n → ∃ run ∈ runs,
    run.fileOff ≤ s.raddr + off ∧ s.raddr + off < run.fileOff + 8 * run.entries.length

theorem sectionRuns_found (data : Bytes) (ranges : List Range) (minRun : ℕ) (s : Section) :
    Found data ranges minRun s (sectionRuns data ranges minRun s) := by
  rw [sectionRuns_eq]
  refine ⟨fun run hrun => ?_, ?_, fun off n ht hlong => ?_⟩
  · obtain ⟨off, hoff, rfl⟩ := List.mem_map.mp hrun
    obtain ⟨hgate, hlong⟩ := runBytes_ne_zero.mp (mem_scan hoff).2.2
    have ht := table_entriesAt hgate
    exact ⟨off, rfl, rfl, rfl, hlong, ht.length_le, ht, fun i hi => recordAt_entriesAt hi⟩
  · refine List.pairwise_map.mpr (scan_pairwise.imp_of_mem fun {p q} hp _ hpq => ?_)
    rw [runBytes_eq (mem_scan hp).2.2] at hpq
    show s.raddr + p + 8 * (entriesAt (rawData data s) ranges p).length ≤ s.raddr + q
    omega
  · obtain ⟨p, hp, e, hpiece, hle, hlt⟩ :=
      (starts_leftmost data ranges minRun s).covered off _ ⟨n, hlong, ht, rfl⟩
    have hend := hpiece.le_runBytes.2.2
    rw [runBytes_eq (mem_scan hp).2.2] at hend
    refine ⟨runAt (rawData data s) ranges s p, List.mem_map.mpr ⟨p, hp, rfl⟩, ?_, ?_⟩
    · exact Nat.add_le_add_left hle _
    · show s.raddr + off < s.raddr + p + 8 * (entriesAt (rawData data s) ranges p).length
      omega

theorem findIdt_found (data : Bytes) (sections : List Section) (imageBase minRun : ℕ) :
    ∃ runs : Section → List Run, findIdt data sections imageBase minRun = sections.flatMap runs ∧
      ∀ s ∈ sections, Found data (codeRanges sections imageBase) minRun s (runs s) :=
  ⟨_, rfl, fun s _ => sectionRuns_found data _ minRun s⟩

/-! ## Is the index of a record its vector number? -/

/-- An IDT of `n` vectors at `off`: records up to a gate, with none just before and just
after them. -/
structure Idt (blob : Bytes) (ranges : List Range) (off n : ℕ) : Prop where
  long : defaultMinRun ≤ n
  records : ∀ i < n, ∃ r, recordAt blob ranges (off + 8 * i) = some r
  last : ∃ m, n = m + 1 ∧ GateAt blob ranges (off + 8 * m)
  before : ∀ b, b + 8 = off → recordAt blob ranges b = none
  after : recordAt blob ranges (off + 8 * n) = none

/-- The search from left to right comes to `off` and takes what starts there. -/
def Reached (blob : Bytes) (ranges : List Range) (off : ℕ) : Prop :=
  ∃ S, Leftmost (Piece blob ranges defaultMinRun) S ∧ off ∈ S

variable {data : Bytes} {sections : List Section} {imageBase o : ℕ}

theorem reached_iff : Reached (rawData data s) ranges off ↔
    off ∈ starts data ranges defaultMinRun s :=
  ⟨fun ⟨_, hS, hoff⟩ => (hS.unique (starts_leftmost data ranges _ s) off).mp hoff,
    fun hoff => ⟨_, starts_leftmost data ranges _ s, hoff⟩⟩

/-- A table that starts with a gate is reached unless a look-alike that is not aligned with
it starts before it and reaches into it. -/
theorem Idt.reached (hidt : Idt blob ranges off n) (hgate : GateAt blob ranges off)
    (hclear : ∀ p < off, ∀ e, Piece blob ranges defaultMinRun p e → 8 ∣ off - p ∨ e ≤ off)
    {S : Set ℕ} (hS : Leftmost (Piece blob ranges defaultMinRun) S) : off ∈ S := by
  obtain ⟨p, hp, e, hpiece, hle, hlt⟩ :=
    hS.covered off _ ⟨n, hidt.long, ⟨hgate, hidt.records, hidt.last⟩, rfl⟩
  rcases hle.eq_or_lt with rfl | hpo
  · exact hp
  · rcases hclear p hpo e hpiece with ⟨k, hk⟩ | hend
    · -- aligned, the look-alike has a record just before the table
      obtain ⟨m, -, ht, rfl⟩ := hpiece
      obtain ⟨r, hr⟩ := ht.records (k - 1) (by omega)
      have hnone := hidt.before (p + 8 * (k - 1)) (by omega)
      exact nomatch hnone.symm.trans hr
    · exact absurd hlt (not_lt.mpr hend)

theorem mem_findIdt {run : Run} : run ∈ findIdt data sections imageBase minRun ↔
    ∃ s ∈ sections, ∃ p ∈ starts data (codeRanges sections imageBase) minRun s,
      run = runAt (rawData data s) (codeRanges sections imageBase) s p := by
  simp only [findIdt, List.mem_flatMap, sectionRuns_eq, List.mem_map, eq_comm]

/-- The entries of some run are the records of the table. -/
def Numbered (data : Bytes) (sections : List Section) (imageBase : ℕ) (s : Section)
    (o n : ℕ) : Prop :=
  ∃ run ∈ findIdt data sections imageBase defaultMinRun, ∀ i < n,
    run.entries[i]? = recordAt (rawData data s) (codeRanges sections imageBase) (o + 8 * i)

theorem numbered_of_copy {s' : Section} {p : ℕ} (hs' : s' ∈ sections)
    (hidt : Idt (rawData data s) (codeRanges sections imageBase) o n)
    (hp : Reached (rawData data s') (codeRanges sections imageBase) p)
    (hcopy : ∀ i < n, recordAt (rawData data s') (codeRanges sections imageBase) (p + 8 * i) =
      recordAt (rawData data s) (codeRanges sections imageBase) (o + 8 * i)) :
    Numbered data sections imageBase s o n := by
  have hmem := reached_iff.mp hp
  have hgate := (runBytes_ne_zero.mp (mem_scan hmem).2.2).1
  obtain ⟨m, hm, h, acc, hlast⟩ := hidt.last
  have ht : Table (rawData data s') (codeRanges sections imageBase) p n :=
    ⟨hgate, fun i hi => (hcopy i hi).symm ▸ hidt.records i hi,
      m, hm, h, acc, (hcopy m (by omega)).trans hlast⟩
  refine ⟨_, mem_findIdt.mpr ⟨s', hs', p, hmem, rfl⟩, fun i hi => ?_⟩
  have hlt := hi.trans_le ht.le_entriesAt
  rw [← hcopy i hi, recordAt_entriesAt hlt]
  exact List.getElem?_eq_getElem hlt

/-- No look-alike out of line with the table reaches into it: the index of a record is its
vector number. -/
theorem Idt.numbered (hs : s ∈ sections)
    (hidt : Idt (rawData data s) (codeRanges sections imageBase) o n)
    (hgate : GateAt (rawData data s) (codeRanges sections imageBase) o)
    (hclear : ∀ p < o, ∀ e, Piece (rawData data s) (codeRanges sections imageBase)
      defaultMinRun p e → 8 ∣ o - p ∨ e ≤ o) : Numbered data sections imageBase s o n :=
  numbered_of_copy hs hidt
    ⟨_, starts_leftmost data _ _ s, hidt.reached hgate hclear (starts_leftmost data _ _ s)⟩
    fun _ _ => rfl

/-- The index of a record is its vector number exactly where the search reaches the table
or a copy of it. -/
theorem numbered_iff (hidt : Idt (rawData data s) (codeRanges sections imageBase) o n) :
    Numbered data sections imageBase s o n ↔
    ∃ s' ∈ sections, ∃ p, Reached (rawData data s') (codeRanges sections imageBase) p ∧
      ∀ i < n, recordAt (rawData data s') (codeRanges sections imageBase) (p + 8 * i) =
        recordAt (rawData data s) (codeRanges sections imageBase) (o + 8 * i) := by
  refine ⟨fun ⟨run, hrun, hentries⟩ => ?_, fun ⟨s', hs', p, hp, hcopy⟩ =>
    numbered_of_copy hs' hidt hp hcopy⟩
  obtain ⟨s', hs', p, hp, rfl⟩ := mem_findIdt.mp hrun
  refine ⟨s', hs', p, reached_iff.mpr hp, fun i hi => ?_⟩
  obtain ⟨r, hr⟩ := hidt.records i hi
  obtain ⟨hlt, hget⟩ := List.getElem?_eq_some_iff.mp ((hentries i hi).trans hr)
  exact (recordAt_entriesAt hlt).trans ((congrArg some hget).trans hr.symm)

/-! A table with a gate for each vector, and one whose vector 0 is empty. -/

def gateFirst : Bytes :=
  List.replicate 8 0 ++ (List.replicate 25 (template 0x8013a930 0x8e00)).flatten ++
    List.replicate 8 0

def emptyFirst : Bytes :=
  List.replicate 8 0 ++ template 0 0 ++
    (List.replicate 24 (template 0x8013a930 0x8e00)).flatten ++ List.replicate 8 0

def textSection : Section := ⟨".text".toList, 0x13a000, 0x1000, 0, 216, 0x20000000⟩

abbrev textRanges : List Range := codeRanges [textSection] 0x80000000

theorem gateFirst_records : ∀ i < 25, recordAt (rawData gateFirst textSection) textRanges
    (8 + 8 * i) = some (.gate 0x8013a930 0x8e) := by
  decide +kernel

theorem gateFirst_idt : Idt (rawData gateFirst textSection) textRanges 8 25 where
  long := by decide
  records i hi := ⟨_, gateFirst_records i hi⟩
  last := ⟨24, rfl, 0x8013a930, 0x8e, gateFirst_records 24 (by decide)⟩
  before b hb := by
    obtain rfl : b = 0 := Nat.add_eq_right.mp hb
    decide +kernel
  after := by decide +kernel

theorem numbered_iff_gateFirst : Numbered gateFirst [textSection] 0x80000000 textSection 8 25 :=
  (numbered_iff gateFirst_idt).mpr ⟨textSection, List.mem_singleton.mpr rfl, 8,
    reached_iff.mpr (by decide +kernel), fun _ _ => rfl⟩

theorem emptyFirst_records : ∀ i < 25, recordAt (rawData emptyFirst textSection) textRanges
    (8 + 8 * i) = some (if i = 0 then .empty else .gate 0x8013a930 0x8e) := by
  decide +kernel

theorem emptyFirst_idt : Idt (rawData emptyFirst textSection) textRanges 8 25 where
  long := by decide
  records i hi := ⟨_, emptyFirst_records i hi⟩
  last := ⟨24, rfl, 0x8013a930, 0x8e, emptyFirst_records 24 (by decide)⟩
  before b hb := by
    obtain rfl : b = 0 := Nat.add_eq_right.mp hb
    decide +kernel
  after := by decide +kernel

theorem not_numbered : ¬∀ (data : Bytes) (sections : List Section) (imageBase : ℕ)
    (s : Section) (o n : ℕ), s ∈ sections →
      Idt (rawData data s) (codeRanges sections imageBase) o n →
        Numbered data sections imageBase s o n := by
  intro hclaim
  obtain ⟨run, hrun, hentries⟩ := hclaim emptyFirst [textSection] 0x80000000 textSection 8 25
    (List.mem_singleton.mpr rfl) emptyFirst_idt
  obtain ⟨s', -, p, hp, rfl⟩ := mem_findIdt.mp hrun
  obtain ⟨h, acc, hgate⟩ := (runBytes_ne_zero.mp (mem_scan hp).2.2).1
  have hempty := (hentries 0 (by decide)).trans (emptyFirst_records 0 (by decide))
  -- no run begins with an empty record
  obtain ⟨hlt, hget⟩ := List.getElem?_eq_some_iff.mp hempty
  have hfirst := recordAt_entriesAt hlt
  rw [Nat.mul_zero, Nat.add_zero, hgate] at hfirst
  exact nomatch (Option.some.inj hfirst).trans hget

end Nt351.FindIdt
