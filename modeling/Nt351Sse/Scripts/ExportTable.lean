import Nt351Sse.Scripts.ImportCheck
import Nt351Sse.Scripts.ImportTable

/-! The export directory of a PE32 image as the file has it, and the verdict of
`checkimports.py` in terms of what the files have. -/

namespace Nt351.CheckImports
open Python

section Directory

variable (At : Placing) (im : Image)

/-- An entry of the name table: the RVA of a string. -/
structure NameAt (entry : ℕ) (name : Str) : Prop where
  inside : entry + 4 ≤ im.data.length
  string : ∃ offset, At im (littleEndian im.data entry 4) (name.length + 1) offset ∧
    StringAt im.data offset name

/-- The export directory has these names; where there is none there are no exports. -/
inductive HasExports : List Str → Prop
  | absent (none : im.directory 0 = 0) : HasExports []
  | present {offset : ℕ} {names : List Str} (some : im.directory 0 ≠ 0)
      (placed : At im (im.directory 0) 40 offset) (inside : offset + 40 ≤ im.data.length)
      -- NumberOfNames and AddressOfNames
      (number : littleEndian im.data (offset + 24) 4 = names.length)
      (table : ∀ i (h : i < names.length), ∃ nameTable,
        At im (littleEndian im.data (offset + 32) 4) (4 * names.length) nameTable ∧
        NameAt At im (nameTable + i * 4) names[i]) : HasExports names

end Directory

section Mono

variable {At At' : Placing} {im : Image} {names : List Str}

theorem HasExports.mono
    (hat : ∀ {rva len offset : ℕ}, At im rva len offset → At' im rva len offset)
    (h : HasExports At im names) : HasExports At' im names := by
  cases h with
  | absent hnone => exact .absent hnone
  | present hsome hplaced hinside hnumber htable =>
    refine .present hsome (hat hplaced) hinside hnumber fun i hi => ?_
    obtain ⟨nameTable, hnames, hname⟩ := htable i hi
    obtain ⟨offset, hoffset, hstring⟩ := hname.string
    exact ⟨nameTable, hat hnames, hname.inside, offset, hat hoffset, hstring⟩

theorem HasExports.maps (hapart : im.Apart) (h : HasExports Image.Backed im names) :
    HasExports Image.Maps im names := h.mono fun hbacked => hbacked.maps hapart

end Mono

variable {files : Files} {path driver ref : Str} {refs : List Str} {data : Bytes}
  {names : List Str} {imports : List Import} {im : Image}

theorem map_range_getD (names : List Str) :
    (List.range names.length).map (fun i => names.getD i []) = names := by
  apply List.ext_getElem
  · rw [List.length_map, List.length_range]
  · intro i hi hi'
    rw [List.getElem_map, List.getElem_range, List.getD_eq_getElem _ _ hi']

theorem getExports_decodes (hdata : files path = some data) (hpe : Pe32 data)
    (h : HasExports Image.Maps (imageOf data) names) :
    getExports files path = .ok names.toFinset := by
  refine bind_eq_ok.mpr ⟨_, load_pe32 hdata hpe, ?_⟩
  cases h with
  | absent hnone => exact if_pos hnone
  | present hsome hmapped hinside hnumber htable =>
    rw [if_neg hsome, hmapped]
    refine bind_eq_ok.mpr ⟨_, rfl, bind_eq_ok.mpr ⟨_, unpackFrom_ok hinside, ?_⟩⟩
    refine bind_eq_ok.mpr ⟨names, ?_, rfl⟩
    refine Eq.trans (mapM_ok (g := fun i => names.getD i []) fun i hi => ?_) ?_
    · have hi' : i < names.length := (List.mem_range.mp hi).trans_eq hnumber
      obtain ⟨nameTable, htable, hname⟩ := htable i hi'
      obtain ⟨offset, hoffset, hstring⟩ := hname.string
      refine bind_eq_ok.mpr ⟨nameTable + i * 4, congrArg (plus · (i * 4)) htable, ?_⟩
      refine bind_eq_ok.mpr ⟨_, unpackFrom_one hname.inside, ?_⟩
      rw [List.getD_eq_getElem _ _ hi']
      exact (congrArg (cstring _) hoffset).trans (cstring_eq hstring)
    · refine Eq.trans ?_ (congrArg Except.ok (map_range_getD names))
      exact congrArg (fun n => Except.ok ((List.range n).map fun i => names.getD i [])) hnumber

/-! ## The report -/

/-- The imports as the report lists them: the DLL in lower case, and the symbol as the script
writes it. -/
def required (imports : List Import) : List (Str × Str) :=
  imports.flatMap fun d => d.symbols.map fun symbol => (lower d.dll, symbol.text)

/-- The imports that are none of `names`. -/
def missing (imports : List Import) (names : Finset Str) : Finset (Str × Str) :=
  (required imports).toFinset.filter fun p => p.2 ∉ names

theorem mem_required {p : Str × Str} : p ∈ required imports ↔
    p.2 ∈ (tableOf Symbol.text imports []).items p.1 := by
  rw [items_tableOf, Dict.items, List.nil_append, List.mem_flatMap, required, List.mem_flatMap]
  constructor
  · rintro ⟨d, hd, hp⟩
    obtain ⟨symbol, hs, rfl⟩ := List.mem_map.mp hp
    exact ⟨d, List.mem_filter.mpr ⟨hd, decide_eq_true rfl⟩, List.mem_map_of_mem hs⟩
  · rintro ⟨d, hd, hp⟩
    obtain ⟨hd, hdll⟩ := List.mem_filter.mp hd
    obtain ⟨symbol, hs, htext⟩ := List.mem_map.mp hp
    exact ⟨d, hd, List.mem_map.mpr ⟨symbol, hs, Prod.ext (of_decide_eq_true hdll) htext⟩⟩

theorem sorted_perm (l : List Str) : (sorted l).Perm l := List.perm_insertionSort _ l

/-- How many symbols of one DLL the report counts. -/
theorem reportDll_count (imports : Dict Str (List Str)) (names : Finset Str)
    (report : List Str × ℕ) (dll : Str) : (reportDll imports names report dll).2 =
      report.2 + ((imports.items dll).toFinset.filter (· ∉ names)).card := by
  have hnodup : ((sorted (imports.items dll).dedup).filter (· ∉ names)).Nodup :=
    ((sorted_perm _).nodup_iff.mpr (List.nodup_dedup _)).filter _
  have hset : ((sorted (imports.items dll).dedup).filter (· ∉ names)).toFinset =
      (imports.items dll).toFinset.filter (· ∉ names) := by
    ext s
    simp [mem_sorted]
  rw [← hset, List.toFinset_card_of_nodup hnodup]
  rfl

theorem report_count (imports : Dict Str (List Str)) (names : Finset Str) (dlls : List Str)
    (report : List Str × ℕ) : (dlls.foldl (reportDll imports names) report).2 = report.2 +
      (dlls.map fun dll => ((imports.items dll).toFinset.filter (· ∉ names)).card).sum := by
  induction dlls generalizing report with
  | nil => rfl
  | cons dll dlls ih =>
    rw [List.foldl_cons, ih, reportDll_count, List.map_cons, List.sum_cons, Nat.add_assoc]

/-- The report counts each missing import once. -/
theorem report_missing (imports : List Import) (names : Finset Str) (lines : List Str) :
    ((sorted (tableOf Symbol.text imports []).keys).foldl
      (reportDll (tableOf Symbol.text imports []) names) (lines, 0)).2 =
      (missing imports names).card := by
  set table := tableOf Symbol.text imports []
  have hnodup : (sorted table.keys).Nodup :=
    (sorted_perm _).nodup_iff.mpr (tableOf_nodup _ List.nodup_nil)
  have hkeys : ∀ p ∈ missing imports names, p.1 ∈ (sorted table.keys).toFinset := by
    intro p hp
    have hitem := mem_required.mp (List.mem_toFinset.mp (Finset.mem_filter.mp hp).1)
    exact List.mem_toFinset.mpr (mem_sorted.mpr (Dict.mem_keys_of_items hitem))
  have hdll : ∀ dll, ((missing imports names).filter fun p => p.1 = dll).card =
      ((table.items dll).toFinset.filter (· ∉ names)).card := by
    intro dll
    have himage : (missing imports names).filter (fun p => p.1 = dll) =
        ((table.items dll).toFinset.filter (· ∉ names)).image (Prod.mk dll) := by
      ext p
      simp only [missing, Finset.mem_filter, List.mem_toFinset, mem_required, Finset.mem_image]
      constructor
      · rintro ⟨hp, rfl⟩
        exact ⟨p.2, hp, rfl⟩
      · rintro ⟨s, hs, rfl⟩
        exact ⟨hs, rfl⟩
    rw [himage, Finset.card_image_of_injective _ (Prod.mk_right_injective dll)]
  rw [report_count, Nat.zero_add, Finset.card_eq_sum_card_fiberwise hkeys,
    List.sum_toFinset _ hnodup]
  simp only [hdll]

/-! ## The verdict -/

/-- What the files have: the imports of the driver, and the export names of each reference. -/
structure Described (At : Placing) (files : Files) (driver : Str) (refs : List Str)
    (imports : List Import) (names : Str → List Str) : Prop where
  driver : ∃ data, files driver = some data ∧ Pe32 data ∧ HasImports At (imageOf data) imports
  refs : ∀ ref ∈ refs, ∃ data, files ref = some data ∧ Pe32 data ∧
    HasExports At (imageOf data) (names ref)

/-- No image has two sections that take up the same addresses. -/
def SectionsApart (files : Files) (paths : List Str) : Prop :=
  ∀ path ∈ paths, ∀ data, files path = some data → (imageOf data).Apart

theorem Described.maps {names : Str → List Str} (hapart : SectionsApart files (driver :: refs))
    (h : Described Image.Backed files driver refs imports names) :
    Described Image.Maps files driver refs imports names := by
  refine ⟨?_, fun ref href => ?_⟩
  · obtain ⟨data, hdata, hpe, himports⟩ := h.driver
    exact ⟨data, hdata, hpe, himports.maps (hapart _ List.mem_cons_self _ hdata)⟩
  · obtain ⟨data, hdata, hpe, hexports⟩ := h.refs ref href
    exact ⟨data, hdata, hpe, hexports.maps (hapart _ (List.mem_cons_of_mem _ href) _ hdata)⟩

theorem Described.getExports {names : Str → List Str}
    (h : Described Image.Maps files driver refs imports names) (href : ref ∈ refs) :
    getExports files ref = .ok (names ref).toFinset := by
  obtain ⟨data, hdata, hpe, hnames⟩ := h.refs ref href
  exact getExports_decodes hdata hpe hnames

theorem Described.importsAs {α : Type} {names : Str → List Str} (text : Symbol → α)
    (h : Described Image.Maps files driver refs imports names) :
    importsAs text files driver = .ok (tableOf text imports []) := by
  obtain ⟨data, hdata, hpe, himports⟩ := h.driver
  exact importsAs_eq text (load_pe32 hdata hpe) himports

theorem combined_eq {names : Str → List Str} {available : Dict Str (Finset Str) × List Str}
    (hexports : ∀ ref ∈ refs, getExports files ref = .ok (names ref).toFinset)
    (h : readReferences files refs [] [] = .ok available) :
    combined available.1 = (refs.flatMap names).toFinset := by
  ext s
  rw [supplied_iff h, List.mem_toFinset, List.mem_flatMap]
  refine exists_congr fun ref => and_congr_right fun href => ?_
  constructor
  · rintro ⟨found, hfound, hs⟩
    cases (hexports ref href).symm.trans hfound
    exact List.mem_toFinset.mp hs
  · exact fun hs => ⟨_, hexports ref href, List.mem_toFinset.mpr hs⟩

theorem verdict_missing (lines : List Str) (names : Finset Str) :
    (verdict (tableOf Symbol.text imports []) names lines).status =
      (if missing imports names = ∅ then 0 else 1) ∧
    (verdict (tableOf Symbol.text imports []) names lines).lines.getLast? =
      some (if missing imports names = ∅ then resolves
        else unavailable (missing imports names).card) := by
  have hcount := report_missing imports names (lines ++ [[]])
  simp only [verdict, hcount]
  by_cases hnone : missing imports names = ∅
  · simp [hnone]
  · simp [hnone]

/-- The check goes by what the files have: it says how many of the driver's imports, each
counted once for its DLL, are written like no export name of any reference. -/
theorem main_counts {names : Str → List Str} (prog : Str)
    (h : Described Image.Maps files driver refs imports names) (hrefs : refs ≠ []) :
    ∃ out, main files (prog :: driver :: refs) = .ok out ∧
      out.status = (if missing imports (refs.flatMap names).toFinset = ∅ then 0 else 1) ∧
      out.lines.getLast? =
        some (if missing imports (refs.flatMap names).toFinset = ∅ then resolves
          else unavailable (missing imports (refs.flatMap names).toFinset).card) := by
  have hexports : ∀ ref ∈ refs, getExports files ref = .ok (names ref).toFinset :=
    fun ref href => h.getExports href
  have hread : ∃ available, readReferences files refs [] [] = .ok available :=
    readReferences_total fun ref href => ⟨_, hexports ref href⟩
  obtain ⟨available, havailable⟩ := hread
  have htable : getImports files driver = .ok (tableOf Symbol.text imports []) :=
    h.importsAs Symbol.text
  have hmain : main files (prog :: driver :: refs) =
      .ok (verdict (tableOf Symbol.text imports []) (combined available.1) available.2) := by
    cases refs with
    | nil => exact absurd rfl hrefs
    | cons ref refs => exact bind_eq_ok.mpr ⟨_, htable, bind_eq_ok.mpr ⟨_, havailable, rfl⟩⟩
  rw [combined_eq hexports havailable] at hmain
  exact ⟨_, hmain, verdict_missing _ _⟩

/-! `twice` imports a name and an ordinal; the reference exports the name. -/

def ascii (s : String) : Bytes := s.toList.map fun c => BitVec.ofNat 8 c.toNat

def exporting : Bytes :=
  [0x4d, 0x5a] ++ List.replicate 58 0 ++ toBytes 4 0x40 ++ [0x50, 0x45, 0, 0] ++
    pack [(2, 0x14c), (2, 1), (4, 0), (4, 0), (4, 0), (2, 224), (2, 0x102), (2, 0x10b)] ++
    List.replicate 94 0 ++ pack [(4, 0x1000), (4, 0x46)] ++ List.replicate 120 0 ++
    [0x2e, 0x65, 0x64, 0x61, 0x74, 0x61, 0, 0] ++
    pack [(4, 0x46), (4, 0x1000), (4, 0x46), (4, 352)] ++ List.replicate 32 0 ++
    pack [(4, 1), (4, 1), (4, 2), (4, 0x1028), (4, 0x102c), (4, 0x1034)] ++
    pack [(4, 0x1000), (4, 0x1038), (4, 0x103a), (4, 0)] ++ ascii "a" ++ [0] ++
    ascii "KfLowerIrql" ++ [0]

theorem exporting_pe32 : Pe32 exporting where
  mz := by decide +kernel
  header := by decide +kernel
  pe := by decide +kernel
  magic := by decide +kernel
  directories := by decide +kernel
  sections := by decide +kernel

theorem exporting_apart : (imageOf exporting).Apart := by decide +kernel

theorem exporting_exports :
    HasExports Image.Backed (imageOf exporting) ["a".toList, "KfLowerIrql".toList] := by
  have hplaced : (imageOf exporting).Backed ((imageOf exporting).directory 0) 40 352 := by
    decide +kernel
  have hfirst : (imageOf exporting).Backed (littleEndian (imageOf exporting).data 396 4) 2 408 := by
    decide +kernel
  have hsecond : (imageOf exporting).Backed (littleEndian (imageOf exporting).data 400 4) 12 410 :=
    by decide +kernel
  refine .present (by decide +kernel) hplaced (by decide +kernel) (by decide +kernel)
    fun i hi => ⟨396, by decide +kernel, ?_⟩
  match i, hi with
  | 0, _ =>
    exact ⟨by decide +kernel, 408, hfirst, ascii "a", by decide,
      show "a".toList = latin1 (ascii "a") by decide, by decide +kernel⟩
  | 1, _ =>
    exact ⟨by decide +kernel, 410, hsecond, ascii "KfLowerIrql", by decide,
      show "KfLowerIrql".toList = latin1 (ascii "KfLowerIrql") by decide, by decide +kernel⟩

def twiceFiles : Files := fun path => some (if path = "a.sys".toList then twice else exporting)

theorem main_counts_twice : ∃ out,
    main twiceFiles ([] :: "a.sys".toList :: ["hal.dll".toList]) = .ok out ∧
      out.status = 1 ∧ out.lines.getLast? = some (unavailable 1) := by
  have h : Described Image.Backed twiceFiles "a.sys".toList ["hal.dll".toList] twiceImports
      fun _ => ["a".toList, "KfLowerIrql".toList] := by
    refine ⟨⟨twice, congrArg some (if_pos rfl), twice_pe32, twice_imports⟩, fun ref href => ?_⟩
    obtain rfl := List.mem_singleton.mp href
    exact ⟨exporting, congrArg some (if_neg (by decide)), exporting_pe32, exporting_exports⟩
  have hapart : SectionsApart twiceFiles ["a.sys".toList, "hal.dll".toList] := by
    rintro path - data hdata
    obtain rfl := Option.some.inj hdata
    split
    · exact twice_apart
    · exact exporting_apart
  have hmissing : missing twiceImports (["hal.dll".toList].flatMap fun _ =>
      ["a".toList, "KfLowerIrql".toList]).toFinset = {("hal.dll".toList, "#5".toList)} := by
    decide +kernel
  obtain ⟨out, hmain, hstatus, hlast⟩ := main_counts [] (h.maps hapart) (List.cons_ne_nil _ _)
  rw [hmissing, if_neg (Finset.singleton_ne_empty _)] at hstatus hlast
  exact ⟨out, hmain, hstatus, hlast⟩

end Nt351.CheckImports
