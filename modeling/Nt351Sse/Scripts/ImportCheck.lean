import Nt351Sse.Scripts.CheckImports

/-! What the verdict of `checkimports.py` says. It puts the export names of all reference
images in one set and looks the imports up there, whichever DLL they are imported from and
with an ordinal written as `#n`. -/

namespace Nt351.CheckImports
open Python

variable {files : Files} {prog driver ref dll : Str} {refs : List Str} {α β : Type}

/-! ## The imports as the loader reads them -/

/-- Each imported DLL, in lower case, and the symbols imported from it. -/
def importTable (files : Files) (path : Str) : Except Error (Dict Str (List Symbol)) :=
  importsAs id files path

theorem readThunks_map (text : Symbol → α) (im : Image) (offset : Option ℕ) (fuel j : ℕ) :
    readThunks text im offset fuel j = List.map text <$> readThunks id im offset fuel j := by
  induction fuel generalizing j with
  | zero => rfl
  | succ fuel ih =>
    simp only [readThunks, map_bind]
    refine bind_congr fun start => bind_congr fun value => ?_
    by_cases hv : value 0 = 0
    · rw [if_pos hv, if_pos hv]
      rfl
    · rw [if_neg hv, if_neg hv]
      simp only [map_bind, ih]
      refine bind_congr fun symbol => ?_
      simp only [bind_map_left]
      refine bind_congr fun symbols => rfl

theorem readDescriptors_map (text : Symbol → α) (im : Image) (offset : Option ℕ) (fuel index : ℕ)
    (result : Dict Str (List Symbol)) :
    readDescriptors text im offset fuel index (result.mapItems text) =
      Dict.mapItems text <$> readDescriptors id im offset fuel index result := by
  induction fuel generalizing index result with
  | zero => rfl
  | succ fuel ih =>
    simp only [readDescriptors, map_bind]
    refine bind_congr fun start => bind_congr fun fields => ?_
    by_cases hz : fields 0 = 0 ∧ fields 3 = 0 ∧ fields 4 = 0
    · rw [if_pos hz, if_pos hz]
      rfl
    · rw [if_neg hz, if_neg hz]
      simp only [map_bind]
      refine bind_congr fun dll => ?_
      rw [readThunks_map]
      simp only [bind_map_left]
      refine bind_congr fun symbols => ?_
      rw [← Dict.mapItems_extend]
      exact ih _ _

theorem getImports_eq (files : Files) (path : Str) :
    getImports files path = Dict.mapItems Symbol.text <$> importTable files path := by
  simp only [getImports, importTable, importsAs, map_bind]
  refine bind_congr fun im => ?_
  split
  · rfl
  · exact readDescriptors_map Symbol.text im _ _ _ []

/-! ## The references -/

/-- Some reference image exports the name `s`. -/
def Supplied (files : Files) (refs : List Str) (s : Str) : Prop :=
  ∃ ref ∈ refs, ∃ names, getExports files ref = .ok names ∧ s ∈ names

def Consistent (files : Files) (available : Dict Str (Finset Str)) : Prop :=
  ∀ kv ∈ available, getExports files kv.1 = .ok kv.2

theorem mem_combined {available : Dict Str (Finset Str)} {s : Str} :
    s ∈ combined available ↔ ∃ kv ∈ available, s ∈ kv.2 := by
  have hfold : ∀ names : Finset Str, s ∈ available.foldl (fun names kv => names ∪ kv.2) names ↔
      s ∈ names ∨ ∃ kv ∈ available, s ∈ kv.2 := by
    induction available with
    | nil => simp
    | cons kv available ih =>
      intro names
      simp only [List.foldl_cons, ih, Finset.mem_union, List.mem_cons, exists_eq_or_imp, or_assoc]
  rw [combined, hfold]
  simp

theorem readReferences_ok {available : Dict Str (Finset Str)} {lines : List Str}
    {out : Dict Str (Finset Str) × List Str} (hc : Consistent files available)
    (h : readReferences files refs available lines = .ok out) :
    Consistent files out.1 ∧ ∀ ref, ref ∈ out.1.keys ↔ ref ∈ refs ∨ ref ∈ available.keys := by
  induction refs generalizing available lines with
  | nil =>
    cases h
    exact ⟨hc, fun ref => by simp⟩
  | cons r refs ih =>
    obtain ⟨names, hnames, hrest⟩ := bind_eq_ok.mp h
    have hc' : Consistent files (available.set r names) := by
      intro kv hkv
      rcases Dict.mem_set hkv with rfl | hkv
      · exact hnames
      · exact hc kv hkv
    obtain ⟨hout, hkeys⟩ := ih hc' hrest
    refine ⟨hout, fun ref => ?_⟩
    rw [hkeys, Dict.mem_keys_set, List.mem_cons]
    tauto

theorem readReferences_total {available : Dict Str (Finset Str)} {lines : List Str}
    (h : ∀ ref ∈ refs, ∃ names, getExports files ref = .ok names) :
    ∃ out, readReferences files refs available lines = .ok out := by
  induction refs generalizing available lines with
  | nil => exact ⟨_, rfl⟩
  | cons r refs ih =>
    obtain ⟨names, hnames⟩ := h r List.mem_cons_self
    obtain ⟨out, hout⟩ := ih fun ref hm => h ref (List.mem_cons_of_mem _ hm)
    exact ⟨out, bind_eq_ok.mpr ⟨names, hnames, hout⟩⟩

theorem supplied_iff {out : Dict Str (Finset Str) × List Str}
    (h : readReferences files refs [] [] = .ok out) (s : Str) :
    s ∈ combined out.1 ↔ Supplied files refs s := by
  obtain ⟨hc, hkeys⟩ := readReferences_ok (fun _ hm => absurd hm List.not_mem_nil) h
  rw [mem_combined]
  constructor
  · rintro ⟨kv, hkv, hs⟩
    have hk : kv.1 ∈ refs := by simpa [Dict.keys] using (hkeys kv.1).mp (List.mem_map_of_mem hkv)
    exact ⟨kv.1, hk, kv.2, hc kv hkv, hs⟩
  · rintro ⟨ref, hm, names, hnames, hs⟩
    obtain ⟨kv, hkv, rfl⟩ := List.mem_map.mp ((hkeys ref).mpr (.inl hm))
    have hsame := (hc kv hkv).symm.trans hnames
    cases hsame
    exact ⟨kv, hkv, hs⟩

/-! ## The verdict -/

theorem reportDll_missing (imports : Dict Str (List Str)) (names : Finset Str) (dlls : List Str)
    (report : List Str × ℕ) :
    (dlls.foldl (reportDll imports names) report).2 = 0 ↔ report.2 = 0 ∧
      ∀ dll ∈ dlls, ∀ s ∈ imports.items dll, s ∈ names := by
  induction dlls generalizing report with
  | nil => simp
  | cons dll dlls ih =>
    have hdll : (reportDll imports names report dll).2 = 0 ↔ report.2 = 0 ∧ ∀ s ∈ imports.items dll,
      s ∈ names := by
      simp only [reportDll, Nat.add_eq_zero_iff, List.length_eq_zero_iff, List.filter_eq_nil_iff,
        mem_sorted, List.mem_dedup,
        decide_eq_true_eq, not_not]
    rw [List.foldl_cons, ih, hdll, List.forall_mem_cons, and_assoc]

/-- The check says that the driver can load. -/
def Promises (files : Files) (argv : List Str) : Prop :=
  ∃ out, main files argv = .ok out ∧ out.status = 0 ∧ resolves ∈ out.lines

/-- Everything parses, and every import, whatever its DLL, is written like a name that
some reference exports. -/
structure Covered (files : Files) (driver : Str) (refs : List Str) : Prop where
  parsed : ∀ ref ∈ refs, ∃ names, getExports files ref = .ok names
  imports : ∃ table, importTable files driver = .ok table ∧
    ∀ dll, ∀ symbol ∈ table.items dll, Supplied files refs symbol.text

/-- The verdict is good if nothing is missing from the report. -/
theorem verdict_status {imports : Dict Str (List Str)} {names : Finset Str} {lines : List Str} :
    (verdict imports names lines).status = 0 ↔ ∀ dll, ∀ s ∈ imports.items dll, s ∈ names := by
  have hmissing := reportDll_missing imports names (sorted imports.keys) (lines ++ [[]], 0)
  have hstatus : (verdict imports names lines).status = 0 ↔
      ((sorted imports.keys).foldl (reportDll imports names) (lines ++ [[]], 0)).2 = 0 := by
    simp only [verdict]
    split
    · next h => exact iff_of_false one_ne_zero h
    · next h => exact iff_of_true rfl (not_not.mp h)
  rw [hstatus, hmissing, and_iff_right rfl]
  constructor
  · exact fun h dll s hs => h dll (mem_sorted.mpr (Dict.mem_keys_of_items hs)) s hs
  · exact fun h dll _ => h dll

theorem verdict_resolves {imports : Dict Str (List Str)} {names : Finset Str} {lines : List Str}
    (h : (verdict imports names lines).status = 0) :
    resolves ∈ (verdict imports names lines).lines := by
  simp only [verdict] at h ⊢
  split at h
  · exact absurd h one_ne_zero
  · next hzero =>
    rw [if_neg hzero]
    exact List.mem_append_right _ (List.mem_cons_of_mem _ List.mem_cons_self)

theorem items_supplied {table : Dict Str (List Symbol)}
    {available : Dict Str (Finset Str) × List Str}
    (hrefs : readReferences files refs [] [] = .ok available) :
    (∀ dll, ∀ s ∈ (table.mapItems Symbol.text).items dll, s ∈ combined available.1) ↔
      ∀ dll, ∀ symbol ∈ table.items dll, Supplied files refs symbol.text := by
  simp only [Dict.items_mapItems, List.forall_mem_map, supplied_iff hrefs]

theorem promises_iff :
    Promises files (prog :: driver :: refs) ↔ refs ≠ [] ∧ Covered files driver refs := by
  cases refs with
  | nil => exact iff_of_false (fun ⟨_, h, _⟩ => nomatch h) fun h => h.1 rfl
  | cons ref refs =>
    rw [Promises, and_iff_right (List.cons_ne_nil ref refs)]
    constructor
    · rintro ⟨out, hmain, hstatus, -⟩
      obtain ⟨imports, himports, hrest⟩ := bind_eq_ok.mp hmain
      obtain ⟨available, hrefs, hverdict⟩ := bind_eq_ok.mp hrest
      rw [getImports_eq] at himports
      obtain ⟨table, htable, rfl⟩ := map_eq_ok.mp himports
      obtain ⟨hc, hkeys⟩ := readReferences_ok (fun _ hm => absurd hm List.not_mem_nil) hrefs
      cases hverdict
      refine ⟨fun r hr => ?_, table, htable, (items_supplied hrefs).mp (verdict_status.mp hstatus)⟩
      obtain ⟨kv, hkv, rfl⟩ := List.mem_map.mp ((hkeys r).mpr (.inl hr))
      exact ⟨kv.2, hc kv hkv⟩
    · rintro ⟨hparsed, table, htable, hall⟩
      have hread : ∃ available, readReferences files (ref :: refs) [] [] = .ok available :=
        readReferences_total hparsed
      obtain ⟨available, hrefs⟩ := hread
      have himports : getImports files driver = .ok (table.mapItems Symbol.text) := by
        rw [getImports_eq, htable]
        rfl
      have hmain : main files (prog :: driver :: ref :: refs) =
          .ok (verdict (table.mapItems Symbol.text) (combined available.1) available.2) :=
        bind_eq_ok.mpr ⟨_, himports, bind_eq_ok.mpr ⟨available, hrefs, rfl⟩⟩
      have hstatus : (verdict (table.mapItems Symbol.text) (combined available.1)
        available.2).status = 0 :=
        verdict_status.mpr ((items_supplied hrefs).mpr hall)
      exact ⟨_, hmain, hstatus, verdict_resolves hstatus⟩

end Nt351.CheckImports
