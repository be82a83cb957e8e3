import Nt351Sse.Base.FirstMatch
import Nt351Sse.Scripts.IdtRuns
import Nt351Sse.Scripts.Stamp

/-! `findidt.py`, from the runs to the report: which run is the IDT, which handlers are
shared, and what is printed of each vector. -/

namespace Nt351.FindIdt
open Python FirstMatch
open Stamp (hex)

def vectorNames : List (ℕ × Str) :=
  [(0, "#DE divide error".toList), (1, "#DB debug".toList), (2, "NMI".toList),
    (3, "#BP breakpoint".toList), (4, "#OF overflow".toList), (5, "#BR bound range".toList),
    (6, "#UD invalid opcode".toList), (7, "#NM device not available".toList),
    (8, "#DF double fault".toList), (9, "coprocessor segment overrun".toList),
    (10, "#TS invalid TSS".toList), (11, "#NP segment not present".toList),
    (12, "#SS stack fault".toList), (13, "#GP general protection".toList),
    (14, "#PF page fault".toList), (15, "reserved".toList),
    (16, "#MF x87 floating-point".toList), (17, "#AC alignment check".toList),
    (18, "#MC machine check".toList), (19, "#XM SIMD floating-point".toList),
    (0x2a, "KiGetTickCount".toList), (0x2b, "KiCallbackReturn".toList),
    (0x2c, "KiSetLowWaitHighThread".toList), (0x2d, "KiDebugService".toList),
    (0x2e, "KiSystemService".toList), (0x2f, "reserved".toList)]

def vectorName (v : ℤ) : Str :=
  ((vectorNames.find? fun name => decide ((name.1 : ℤ) = v)).map Prod.snd).getD []

structure Output where
  lines : List Str
  status : ℕ
deriving DecidableEq

/-- What ends a script early. -/
inductive Raised
  | error (e : Error)
  -- `IndexError`
  | index
deriving DecidableEq

/-- `%d` -/
def signed (n : ℤ) : Str := if n < 0 then '-' :: decimal n.natAbs else decimal n.natAbs

/-- `str.strip` -/
def strip (s : Str) : Str :=
  (s.dropWhile fun c => c.isWhitespace).rdropWhile fun c => c.isWhitespace

/-- `l[i]`; a negative index counts from the end. -/
def item {α : Type} (l : List α) (i : ℤ) : Option α :=
  if 0 ≤ i then l[i.toNat]?
  else if -i ≤ l.length then l[(l.length + i).toNat]? else none

/-- The lines of a hex dump, 16 bytes each. -/
def hexRows (blob : Bytes) (va : ℕ) (indent : Str) : List Str :=
  (List.range ((blob.length + 15) / 16)).map fun k =>
    indent ++ hex 8 (va + 16 * k) ++ "  ".toList ++
      " ".toList.intercalate (((blob.drop (16 * k)).take 16).map fun b => hex 2 b.toNat)

/-- `va` is in a code range, so not below `image_base`. -/
def dumpHandler (im : Image) (va : ℕ) : List Str :=
  let indent := List.replicate 8 ' '
  match rvaToOff im.sections (va - im.imageBase) with
  | none => [indent ++ "(VA ".toList ++ hex 8 va ++ " is not in a raw section)".toList]
  | some (off, sec) =>
    (indent ++ "section ".toList ++ sec ++ ", file offset ".toList ++ hex 8 off) ::
      hexRows ((im.data.drop off).take 80) va indent

/-- The run that `runs.sort` puts first. -/
def longestRun (runs : List Run) : Option Run :=
  (greatestFirst (fun r => r.entries.length) runs).head?

/-! ## The report -/

section Report

variable (entries : List Record)

/-- `counts[va] = counts.get(va, 0) + 1` -/
def countGate (counts : Dict ℕ ℕ) : Record → Dict ℕ ℕ
  | .empty => counts
  | .gate va _ => counts.set va ((counts.lookup va).getD 0 + 1)

def counts : Dict ℕ ℕ := entries.foldl countGate []

def shared : List ℕ := ((counts entries).filter fun kv => decide (1 < kv.2)).map Prod.fst

/-- A row of the table. -/
def tableRow (i : ℕ) : Record → List Str
  | .empty => []
  | .gate va access =>
    let dpl := if access &&& 0x60 = 0x60 then 3 else 0
    let note := if va ∈ shared entries then
        strip (vectorName i ++ "  [shared catch-all x".toList ++
          decimal (((counts entries).lookup va).getD 0) ++ "]".toList)
      else vectorName i
    ["  ".toList ++ (decimal i).leftpad 3 ' ' ++ "/".toList ++ hex 2 i ++ "  ".toList ++ hex 8 va ++
      "   ".toList ++ decimal dpl ++ "    ".toList ++ note]

def tableRows : List Str :=
  (List.range entries.length).flatMap fun i => tableRow entries i (entries.getD i .empty)

def sharedTag : Str := "   [SHARED catch-all - no dedicated handler]".toList

def notPresent (v : ℤ) : List Str :=
  ["vector ".toList ++ signed v ++ ": not present in the table".toList, []]

/-- The lines on a handler; `tag` is what stands after it. -/
def handlerLines (im : Image) (v : ℤ) (va : ℕ) (tag : Str) : List Str :=
  ("vector ".toList ++ signed v ++ " (".toList ++ vectorName v ++ ") -> ".toList ++ hex 8 va ++
    tag) ::
    (dumpHandler im va ++ [[]])

/-- One of the vectors wanted. -/
def vectorLines (im : Image) (v : ℤ) : Except Raised (List Str) :=
  if (entries.length : ℤ) ≤ v then pure (notPresent v)
  else
    match item entries v with
    | none => throw .index
    | some .empty => pure (notPresent v)
    | some (.gate va _) =>
      pure (handlerLines im v va (if va ∈ shared entries then sharedTag else []))

end Report

def header (path : Str) (im : Image) : List Str :=
  (path ++ ": ImageBase ".toList ++ hex 8 im.imageBase) ::
    ((codeRanges im.sections im.imageBase).map fun r =>
      "  executable: ".toList ++ r.name.rightpad 8 ' ' ++ " ".toList ++ hex 8 r.lo ++
        " - ".toList ++ hex 8 r.hi) ++ [[]]

/-- The lines before the wanted vectors. -/
def tableLines (im : Image) (idt : Run) : List Str :=
  ["IDT template: ".toList ++ idt.sectionName ++ ", VA ".toList ++ hex 8 (im.imageBase + idt.rva) ++
    " (file ".toList ++ hex 8 idt.fileOff ++ "), ".toList ++ decimal idt.entries.length ++
    " vectors".toList, [], "vec       handler   DPL  note".toList] ++ tableRows idt.entries ++ [[]]

/-- `vectors` are the arguments after the path, as `int` reads them. -/
def main (files : Str → Option Bytes) (path : Str) (vectors : List ℤ) : Except Raised Output := do
  let wanted := if vectors = [] then [7, 19] else vectors
  let im ← (load files path).mapError .error
  let runs := findIdt im.data im.sections im.imageBase defaultMinRun
  match longestRun runs with
  | none => pure ⟨header path im ++ ["No IDT-shaped run found.".toList], 1⟩
  | some idt =>
    let lines ← wanted.mapM (vectorLines idt.entries im)
    pure ⟨header path im ++ tableLines im idt ++ lines.flatten, 0⟩

/-! ## Shared handlers -/

def Record.handler : Record → Option ℕ
  | .empty => none
  | .gate va _ => some va

/-- Two gates of the table lead to `va`. -/
def Shares (entries : List Record) (va : ℕ) : Prop :=
  (entries.map Record.handler).Duplicate (some va)

variable {entries : List Record} {va : ℕ} {files : Str → Option Bytes} {path : Str} {im : Image}
  {idt : Run} {v : ℤ} {vectors : List ℤ}

theorem counts_concat (entries : List Record) (r : Record) :
    counts (entries ++ [r]) = countGate (counts entries) r := by
  rw [counts, List.foldl_concat, counts]

theorem counts_nodup (entries : List Record) : (counts entries).keys.Nodup := by
  induction entries using List.reverseRecOn with
  | nil => exact List.nodup_nil
  | append_singleton entries r ih =>
    rw [counts_concat]
    cases r with
    | empty => exact ih
    | gate va access => exact Dict.nodup_keys_set ih

theorem counts_count (entries : List Record) (va : ℕ) : ((counts entries).lookup va).getD 0 =
    (entries.map Record.handler).countP fun h => decide (h = some va) := by
  induction entries using List.reverseRecOn with
  | nil => rfl
  | append_singleton entries r ih =>
    rw [counts_concat, List.map_append, List.countP_append, ← ih]
    cases r with
    | empty => rfl
    | gate va' access =>
      rw [countGate, Dict.lookup_set]
      by_cases hva : va = va'
      · subst hva
        simp [Record.handler]
      · have hne : va' ≠ va := Ne.symm hva
        simp [hva, hne, Record.handler]

theorem mem_shared : va ∈ shared entries ↔ Shares entries va := by
  rw [Shares, List.duplicate_iff_two_le_count]
  show _ ↔ 2 ≤ (entries.map Record.handler).countP fun h => decide (h = some va)
  rw [← counts_count, shared]
  simp only [List.mem_map, List.mem_filter, decide_eq_true_eq, Prod.exists,
    Dict.mem_iff_lookup (counts_nodup entries)]
  cases hlook : (counts entries).lookup va with
  | none => simp [hlook]
  | some n => simp [hlook, Nat.succ_le_iff]

/-! ## The vectors wanted -/

/-- The entry `entries[v]`; there is none below `-len(entries)`. -/
def EntryAt (entries : List Record) (v : ℤ) (r : Record) : Prop :=
  ∃ i : ℕ, ((i : ℤ) = v ∨ v < 0 ∧ (i : ℤ) = entries.length + v) ∧ entries[i]? = some r

/-- What there is to say about vector `v`: its handler, and whether other gates lead there
too. -/
inductive Reported (entries : List Record) (im : Image) (v : ℤ) : List Str → Prop
  | absent (none : ∀ va access, ¬EntryAt entries v (.gate va access)) :
    Reported entries im v (notPresent v)
  | alone {va access : ℕ} (gate : EntryAt entries v (.gate va access)) (own : ¬Shares entries va) :
    Reported entries im v (handlerLines im v va [])
  | shared {va access : ℕ} (gate : EntryAt entries v (.gate va access)) (also : Shares entries va) :
    Reported entries im v (handlerLines im v va sharedTag)

theorem item_eq_some {r : Record} (h : item entries v = some r) : EntryAt entries v r := by
  rw [item] at h
  split at h
  · next hv => exact ⟨v.toNat, .inl (Int.toNat_of_nonneg hv), h⟩
  · next hv =>
    split at h
    · next hlen => exact ⟨_, .inr ⟨not_le.mp hv, Int.toNat_of_nonneg (by omega)⟩, h⟩
    · cases h

theorem entryAt_unique {r r' : Record} (h : EntryAt entries v r) (h' : EntryAt entries v r') :
    r = r' := by
  obtain ⟨i, hi, hr⟩ := h
  obtain ⟨j, hj, hr'⟩ := h'
  obtain rfl : i = j := by omega
  exact Option.some.inj (hr.symm.trans hr')

theorem item_isSome (hlow : -(entries.length : ℤ) ≤ v) (hhigh : v < entries.length) :
    ∃ r, item entries v = some r := by
  rw [item]
  split
  · next hv => exact ⟨_, List.getElem?_eq_getElem (by omega)⟩
  · next hv =>
    rw [if_pos (by omega)]
    exact ⟨_, List.getElem?_eq_getElem (by omega)⟩

theorem vectorLines_low (h : v < -(entries.length : ℤ)) :
    vectorLines entries im v = .error .index := by
  have hnone : item entries v = none := by
    rw [item, if_neg (by omega), if_neg (by omega)]
  rw [vectorLines, if_neg (by omega), hnone]
  rfl

theorem vectorLines_reported (im : Image) (hlow : -(entries.length : ℤ) ≤ v) :
    ∃ lines, vectorLines entries im v = .ok lines ∧ Reported entries im v lines := by
  rw [vectorLines]
  by_cases hlen : (entries.length : ℤ) ≤ v
  · rw [if_pos hlen]
    refine ⟨_, rfl, .absent ?_⟩
    rintro va access ⟨i, hi, hget⟩
    have hlt := (List.getElem?_eq_some_iff.mp hget).1
    omega
  · rw [if_neg hlen]
    obtain ⟨r, hr⟩ := item_isSome hlow (not_le.mp hlen)
    have hentry := item_eq_some hr
    rw [hr]
    cases r with
    | empty =>
      refine ⟨_, rfl, .absent fun va access hgate => ?_⟩
      exact nomatch entryAt_unique hentry hgate
    | gate va access =>
      by_cases hshared : va ∈ FindIdt.shared entries
      · exact ⟨_, congrArg (fun tag => Except.ok (handlerLines im v va tag)) (if_pos hshared),
          .shared hentry (mem_shared.mp hshared)⟩
      · exact ⟨_, congrArg (fun tag => Except.ok (handlerLines im v va tag)) (if_neg hshared),
          .alone hentry (mt mem_shared.mpr hshared)⟩

theorem mapM_reported (im : Image) (h : ∀ v ∈ vectors, -(entries.length : ℤ) ≤ v) :
    ∃ lines, vectors.mapM (vectorLines entries im) = .ok lines ∧
      List.Forall₂ (Reported entries im) vectors lines := by
  induction vectors with
  | nil => exact ⟨[], rfl, .nil⟩
  | cons v vectors ih =>
    obtain ⟨hv, hrest⟩ := List.forall_mem_cons.mp h
    obtain ⟨ls, hls, hreported⟩ := vectorLines_reported im hv
    obtain ⟨lines, hlines, hall⟩ := ih hrest
    refine ⟨ls :: lines, ?_, .cons hreported hall⟩
    rw [List.mapM_cons, hls, hlines]
    rfl

theorem mapM_index (h : ∃ v ∈ vectors, v < -(entries.length : ℤ)) :
    vectors.mapM (vectorLines entries im) = .error .index := by
  induction vectors with
  | nil =>
    obtain ⟨v, hv, -⟩ := h
    exact absurd hv List.not_mem_nil
  | cons v vectors ih =>
    rw [List.mapM_cons]
    rcases lt_or_ge v (-(entries.length : ℤ)) with hv | hv
    · rw [vectorLines_low hv]
      rfl
    · obtain ⟨ls, hls, -⟩ := vectorLines_reported im hv
      rw [hls]
      have hrest : ∃ u ∈ vectors, u < -(entries.length : ℤ) := by
        obtain ⟨u, hu, hlow⟩ := h
        rcases List.mem_cons.mp hu with rfl | hu
        · exact absurd hlow (not_lt.mpr hv)
        · exact ⟨u, hu, hlow⟩
      show (vectors.mapM (vectorLines entries im) >>= _) = _
      rw [ih hrest]
      rfl

/-- The vectors that are reported. -/
abbrev wantedOf (vectors : List ℤ) : List ℤ := if vectors = [] then [7, 19] else vectors

/-- The table is the longest run, the first of these where several are as long. Of each wanted
vector the report gives the handler, marked as shared exactly if another gate leads there too.
A vector below `-len` ends it with an error, and one from `-1` down to there is counted from
the end of the table. -/
theorem main_reports (hload : load files path = .ok im)
    (hruns : findIdt im.data im.sections im.imageBase defaultMinRun ≠ []) (vectors : List ℤ) :
    ∃ idt, First (Greatest (fun r : Run => r.entries.length)
        (findIdt im.data im.sections im.imageBase defaultMinRun))
        (findIdt im.data im.sections im.imageBase defaultMinRun) idt ∧
      ((∃ v ∈ wantedOf vectors, v < -(idt.entries.length : ℤ)) →
        main files path vectors = .error .index) ∧
      ((∀ v ∈ wantedOf vectors, -(idt.entries.length : ℤ) ≤ v) → ∃ lines,
        main files path vectors =
          .ok ⟨header path im ++ tableLines im idt ++ lines.flatten, 0⟩ ∧
        List.Forall₂ (Reported idt.entries im) (wantedOf vectors) lines) := by
  obtain ⟨idt, hidt⟩ := exists_head?_greatestFirst (fun r : Run => r.entries.length) hruns
  have hmain : main files path vectors = (wantedOf vectors).mapM (vectorLines idt.entries im) >>=
      fun lines => pure ⟨header path im ++ tableLines im idt ++ lines.flatten, 0⟩ := by
    have hlongest : longestRun (findIdt im.data im.sections im.imageBase defaultMinRun) =
      some idt := hidt
    rw [main, hload]
    show (match longestRun _ with
      | none => _
      | some idt => _) = _
    rw [hlongest]
  refine ⟨idt, head?_greatestFirst hidt, fun hlow => ?_, fun hlow => ?_⟩
  · rw [hmain, mapM_index hlow]
    rfl
  · obtain ⟨lines, hlines, hall⟩ := mapM_reported im hlow
    exact ⟨lines, by rw [hmain, hlines]; rfl, hall⟩

/-! A kernel of 24 vectors, all but vector 7 with one handler. -/

def kernelSection : Section := ⟨".text".toList, 0x1000, 192, 352, 192, 0x60000020⟩

def kernelImage : Bytes :=
  [0x4d, 0x5a] ++ List.replicate 58 0 ++ toBytes 4 0x40 ++ [0x50, 0x45, 0, 0] ++
    pack [(2, 0x14c), (2, 1), (4, 0), (4, 0), (4, 0), (2, 224), (2, 0x102)] ++
    toBytes 2 0x10b ++ List.replicate 26 0 ++ toBytes 4 0x80100000 ++ List.replicate 192 0 ++
    [0x2e, 0x74, 0x65, 0x78, 0x74, 0, 0, 0] ++
    pack [(4, 192), (4, 0x1000), (4, 192), (4, 352)] ++ List.replicate 12 0 ++
    toBytes 4 0x60000020 ++ (List.replicate 7 (template 0x80101000 0x8e00)).flatten ++
    template 0x80101008 0x8e00 ++ (List.replicate 16 (template 0x80101000 0x8e00)).flatten

theorem kernelImage_load : load (fun _ => some kernelImage) [] =
    .ok ⟨kernelImage, [kernelSection], 0x80100000⟩ := by
  decide +kernel

theorem kernelImage_table : Table (rawData kernelImage kernelSection)
    (codeRanges [kernelSection] 0x80100000) 0 24 := by
  have hrecords : ∀ i < 24, recordAt (rawData kernelImage kernelSection)
      (codeRanges [kernelSection] 0x80100000) (0 + 8 * i) =
      some (.gate (if i = 7 then 0x80101008 else 0x80101000) 0x8e) := by
    decide +kernel
  exact ⟨⟨_, _, hrecords 0 (by decide)⟩, fun i hi => ⟨_, hrecords i hi⟩,
    23, rfl, _, _, hrecords 23 (by decide)⟩

theorem kernelImage_runs :
    findIdt kernelImage [kernelSection] 0x80100000 defaultMinRun ≠ [] := by
  have hfound := sectionRuns_found kernelImage (codeRanges [kernelSection] 0x80100000)
    defaultMinRun kernelSection
  obtain ⟨run, hrun, -⟩ := hfound.covered 0 24 kernelImage_table le_rfl
  exact List.ne_nil_of_mem (List.mem_flatMap.mpr ⟨kernelSection, List.mem_cons_self, hrun⟩)

theorem main_reports_kernelImage :
    ∃ idt, First (Greatest (fun r : Run => r.entries.length)
        (findIdt kernelImage [kernelSection] 0x80100000 defaultMinRun))
        (findIdt kernelImage [kernelSection] 0x80100000 defaultMinRun) idt ∧
      ((∃ v ∈ wantedOf [], v < -(idt.entries.length : ℤ)) →
        main (fun _ => some kernelImage) [] [] = .error .index) ∧
      ((∀ v ∈ wantedOf [], -(idt.entries.length : ℤ) ≤ v) → ∃ lines,
        main (fun _ => some kernelImage) [] [] =
          .ok ⟨header [] ⟨kernelImage, [kernelSection], 0x80100000⟩ ++
            tableLines ⟨kernelImage, [kernelSection], 0x80100000⟩ idt ++ lines.flatten, 0⟩ ∧
        List.Forall₂ (Reported idt.entries ⟨kernelImage, [kernelSection], 0x80100000⟩)
          (wantedOf []) lines) :=
  main_reports kernelImage_load kernelImage_runs []

end Nt351.FindIdt
