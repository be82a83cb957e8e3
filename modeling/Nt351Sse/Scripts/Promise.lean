import Nt351Sse.Scripts.ExportTable

/-! Whether a driver that `checkimports.py` promises to load does load. The loader looks an imported
symbol up in the export table of its own DLL, by name or by ordinal; the script looks the text of
it up among the export names of all references. -/

namespace Nt351.CheckImports
open Python

/-! ## The export table as the loader reads it -/

structure ExportTable where
  base : ℕ
  -- RVAs, zero where there is no function
  functions : List ℕ
  names : List Str

def ExportTable.Exports (t : ExportTable) : Symbol → Prop
  | .name s => s ∈ t.names
  | .ordinal n => ∃ i f, t.functions[i]? = some f ∧ f ≠ 0 ∧ n = t.base + i

/-- The export directory has these functions, numbered from `base` on. -/
inductive HasFunctions (At : Placing) (im : Image) : ℕ → List ℕ → Prop
  | absent {base : ℕ} (none : im.directory 0 = 0) : HasFunctions At im base []
  | present {offset : ℕ} {functions : List ℕ} (some : im.directory 0 ≠ 0)
      (placed : At im (im.directory 0) 40 offset) (inside : offset + 40 ≤ im.data.length)
      -- NumberOfFunctions and AddressOfFunctions
      (number : littleEndian im.data (offset + 20) 4 = functions.length)
      (table : ∀ i (h : i < functions.length), ∃ start,
        At im (littleEndian im.data (offset + 28) 4) (4 * functions.length) start ∧
        start + i * 4 + 4 ≤ im.data.length ∧
        littleEndian im.data (start + i * 4) 4 = functions[i]) :
      HasFunctions At im (littleEndian im.data (offset + 16) 4) functions

/-- What the loader has of the files: the imports of the driver and the export table of each
reference, all of it raw data of sections that are apart. -/
structure AsLoaded (files : Files) (driver : Str) (refs : List Str) (imports : List Import)
    (exports : Str → ExportTable) : Prop where
  tables : Described Image.Backed files driver refs imports fun ref => (exports ref).names
  apart : SectionsApart files (driver :: refs)
  functions : ∀ ref ∈ refs, ∀ data, files ref = some data →
    HasFunctions Image.Backed (imageOf data) (exports ref).base (exports ref).functions

/-- Each import is exported by a reference that is its own DLL; `nameOf` is the DLL that an
image is. -/
def OwnResolved (nameOf : Str → Str) (refs : List Str) (imports : List Import)
    (exports : Str → ExportTable) : Prop :=
  ∀ d ∈ imports, ∀ symbol ∈ d.symbols,
    ∃ ref ∈ refs, nameOf ref = lower d.dll ∧ (exports ref).Exports symbol

/-! ## The promise -/

variable {files : Files} {nameOf : Str → Str} {prog driver : Str} {refs : List Str}
  {imports : List Import} {exports : Str → ExportTable}

theorem mem_items_tableOf {symbol : Symbol} {k : Str} :
    symbol ∈ (tableOf id imports []).items k ↔
      ∃ d ∈ imports, lower d.dll = k ∧ symbol ∈ d.symbols := by
  rw [items_tableOf, Dict.items, List.nil_append, List.mem_flatMap]
  refine exists_congr fun d => ?_
  rw [List.mem_filter, decide_eq_true_eq, List.map_id, and_assoc]

theorem AsLoaded.maps (h : AsLoaded files driver refs imports exports) :
    Described Image.Maps files driver refs imports fun ref => (exports ref).names :=
  h.tables.maps h.apart

theorem AsLoaded.supplied_iff (h : AsLoaded files driver refs imports exports) {s : Str} :
    Supplied files refs s ↔ ∃ ref ∈ refs, s ∈ (exports ref).names := by
  refine exists_congr fun ref => and_congr_right fun href => ?_
  rw [h.maps.getExports href]
  constructor
  · rintro ⟨names, hnames, hs⟩
    exact List.mem_toFinset.mp (Except.ok.inj hnames ▸ hs)
  · exact fun hs => ⟨_, rfl, List.mem_toFinset.mpr hs⟩

/-- The check promises that the driver loads if each import is written like an export name of
some reference. -/
theorem AsLoaded.promises_iff (h : AsLoaded files driver refs imports exports) :
    Promises files (prog :: driver :: refs) ↔ refs ≠ [] ∧
      ∀ d ∈ imports, ∀ symbol ∈ d.symbols, ∃ ref ∈ refs, symbol.text ∈ (exports ref).names := by
  have htable : importTable files driver = .ok (tableOf id imports []) := h.maps.importsAs id
  rw [CheckImports.promises_iff]
  refine and_congr_right fun _ => ⟨fun hcovered d hd symbol hs => ?_, fun hall => ?_⟩
  · obtain ⟨table, htable', hsupplied⟩ := hcovered.imports
    obtain rfl := Except.ok.inj (htable.symm.trans htable')
    exact h.supplied_iff.mp (hsupplied _ symbol (mem_items_tableOf.mpr ⟨d, hd, rfl, hs⟩))
  · refine ⟨fun ref href => ⟨_, h.maps.getExports href⟩, _, htable, fun dll symbol hs => ?_⟩
    obtain ⟨d, hd, -, hs⟩ := mem_items_tableOf.mp hs
    exact h.supplied_iff.mpr (hall d hd symbol hs)

/-- The check keeps its promise exactly if each import that is written like an export name of
some reference is exported by its own DLL, or if there is an import that no export name is
written like, which it reports. -/
theorem promise_kept_iff (h : AsLoaded files driver refs imports exports) :
    (Promises files (prog :: driver :: refs) → OwnResolved nameOf refs imports exports) ↔
      (∃ d ∈ imports, ∃ symbol ∈ d.symbols, ∀ other ∈ refs, symbol.text ∉ (exports other).names) ∨
      ∀ d ∈ imports, ∀ symbol ∈ d.symbols, ∀ other ∈ refs, symbol.text ∈ (exports other).names →
        ∃ ref ∈ refs, nameOf ref = lower d.dll ∧ (exports ref).Exports symbol := by
  rw [h.promises_iff]
  constructor
  · intro hkept
    by_cases hall : ∀ d ∈ imports, ∀ symbol ∈ d.symbols,
        ∃ ref ∈ refs, symbol.text ∈ (exports ref).names
    · refine .inr fun d hd symbol hs other hother _ => ?_
      exact hkept ⟨List.ne_nil_of_mem hother, hall⟩ d hd symbol hs
    · push Not at hall
      exact .inl hall
  · rintro (⟨d, hd, symbol, hs, hnone⟩ | hown) ⟨-, hall⟩
    · obtain ⟨other, hother, htext⟩ := hall d hd symbol hs
      exact absurd htext (hnone other hother)
    · intro d hd symbol hs
      obtain ⟨other, hother, htext⟩ := hall d hd symbol hs
      exact hown d hd symbol hs other hother htext

/-! The driver imports `a` from `HAL.dll`; one of the references exports it, and the other has
no exports. -/

def importing : Bytes :=
  [0x4d, 0x5a] ++ List.replicate 58 0 ++ toBytes 4 0x40 ++ [0x50, 0x45, 0, 0] ++
    pack [(2, 0x14c), (2, 1), (4, 0), (4, 0), (4, 0), (2, 224), (2, 0x102), (2, 0x10b)] ++
    List.replicate 102 0 ++ pack [(4, 0x1000), (4, 0x3c)] ++ List.replicate 112 0 ++
    [0x2e, 0x69, 0x64, 0x61, 0x74, 0x61, 0, 0] ++
    pack [(4, 0x3c), (4, 0x1000), (4, 0x3c), (4, 352)] ++ List.replicate 16 0 ++
    pack [(4, 0x1030), (4, 0), (4, 0), (4, 0x1028), (4, 0x1030)] ++ List.replicate 20 0 ++
    ascii "HAL.dll" ++ [0] ++ pack [(4, 0x1038), (4, 0), (2, 0)] ++ ascii "a" ++ [0]

def importsA : List Import := [⟨"HAL.dll".toList, [.name "a".toList]⟩]

def driverSys : Str := "driver.sys".toList

def references : List Str := ["ntoskrnl.exe".toList, "hal.dll".toList]

def oneExports (exporter : Str) : Files := fun path =>
  some (if path = exporter then exporting else importing)

def exportsOf (exporter path : Str) : ExportTable :=
  if path = exporter then ⟨1, [0x1000], ["a".toList, "KfLowerIrql".toList]⟩ else ⟨0, [], []⟩

theorem importing_pe32 : Pe32 importing where
  mz := by decide +kernel
  header := by decide +kernel
  pe := by decide +kernel
  magic := by decide +kernel
  directories := by decide +kernel
  sections := by decide +kernel

theorem importing_imports : HasImports Image.Backed (imageOf importing) importsA := by
  have hthunks : ThunksAt Image.Backed (imageOf importing) 400 [.name "a".toList] :=
    .thunk (by decide +kernel) rfl (by decide +kernel)
      ⟨by decide +kernel, 408, by decide +kernel, ascii "a", by decide, by decide,
        by decide +kernel⟩
      (.stop (by decide +kernel) (by decide +kernel))
  have hplaced : (imageOf importing).Backed ((imageOf importing).directory 1) 40 352 := by
    decide +kernel
  have hname : (imageOf importing).Backed 0x1028 8 392 := by decide +kernel
  refine .present (by decide +kernel) hplaced (.descriptor (by decide +kernel) rfl
    (by decide +kernel) hname ?_ (by decide +kernel) hthunks
    (.stop (by decide +kernel) (by decide +kernel)))
  exact ⟨ascii "HAL.dll", by decide, by decide, by decide +kernel⟩

theorem exporting_functions : HasFunctions Image.Backed (imageOf exporting) 1 [0x1000] := by
  have hplaced : (imageOf exporting).Backed ((imageOf exporting).directory 0) 40 352 := by
    decide +kernel
  have hfunction : littleEndian (imageOf exporting).data 392 4 = 0x1000 := by decide +kernel
  refine .present (by decide +kernel) hplaced (by decide +kernel) (by decide +kernel)
    fun i hi => ⟨392, by decide +kernel, ?_⟩
  match i, hi with
  | 0, _ => exact ⟨by decide +kernel, hfunction⟩

theorem oneExports_asLoaded (exporter : Str) (hdriver : driverSys ≠ exporter) :
    AsLoaded (oneExports exporter) driverSys references importsA (exportsOf exporter) := by
  refine ⟨⟨⟨importing, ?_, importing_pe32, importing_imports⟩, fun ref _ => ?_⟩, ?_, ?_⟩
  · rw [oneExports, if_neg hdriver]
  · by_cases href : ref = exporter
    · exact ⟨exporting, by rw [oneExports, if_pos href], exporting_pe32,
        by rw [exportsOf, if_pos href]; exact exporting_exports⟩
    · exact ⟨importing, by rw [oneExports, if_neg href], importing_pe32,
        by rw [exportsOf, if_neg href]; exact .absent (by decide +kernel)⟩
  · rintro path - data hdata
    obtain rfl := Option.some.inj hdata
    split
    · exact exporting_apart
    · exact show (imageOf importing).Apart by decide +kernel
  · rintro ref - data hdata
    obtain rfl := Option.some.inj hdata
    rw [exportsOf]
    split
    · exact exporting_functions
    · exact .absent (by decide +kernel)

theorem oneExports_promises (exporter : Str) (hdriver : driverSys ≠ exporter)
    (hexporter : exporter ∈ references) :
    Promises (oneExports exporter) ([] :: driverSys :: references) := by
  refine (oneExports_asLoaded exporter hdriver).promises_iff.mpr ⟨List.cons_ne_nil _ _, ?_⟩
  simp only [importsA, List.forall_mem_singleton]
  exact ⟨exporter, hexporter, by rw [exportsOf, if_pos rfl]; exact List.mem_cons_self⟩

/-- `hal.dll` exports it. -/
theorem promise_kept_hal : Promises (oneExports "hal.dll".toList) ([] :: driverSys :: references) ∧
    OwnResolved id references importsA (exportsOf "hal.dll".toList) := by
  have hloaded := oneExports_asLoaded "hal.dll".toList (by decide)
  have hpromise := oneExports_promises "hal.dll".toList (by decide) (by decide)
  refine ⟨hpromise, (promise_kept_iff hloaded).mpr (.inr ?_) hpromise⟩
  simp only [importsA, List.forall_mem_singleton]
  intro other hother hname
  exact ⟨"hal.dll".toList, by decide, by decide, show _ ∈ ["a".toList, _] by decide⟩

/-- Only `ntoskrnl.exe` exports it, and the check promises that the driver loads. -/
theorem promise_broken : ¬∀ (files : Files) (nameOf : Str → Str) (prog driver : Str)
    (refs : List Str) (imports : List Import) (exports : Str → ExportTable),
    AsLoaded files driver refs imports exports → Promises files (prog :: driver :: refs) →
      OwnResolved nameOf refs imports exports := by
  intro hclaim
  have hloaded := oneExports_asLoaded "ntoskrnl.exe".toList (by decide)
  have hpromise := oneExports_promises "ntoskrnl.exe".toList (by decide) (by decide)
  obtain ⟨ref, -, hname, hexports⟩ := hclaim _ id _ _ _ _ _ hloaded hpromise _ List.mem_cons_self _
    List.mem_cons_self
  have hhal : ref = "hal.dll".toList := hname.trans (by decide)
  rw [hhal] at hexports
  exact List.not_mem_nil hexports

end Nt351.CheckImports
