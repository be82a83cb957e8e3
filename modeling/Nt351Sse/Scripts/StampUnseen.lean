import Nt351Sse.Base.Beside
import Nt351Sse.Scripts.NmVerdict
import Nt351Sse.Scripts.RvaMap
import Nt351Sse.Scripts.Stamped

/-! The other scripts do not see what `stamp351.py` changes: run on a stamped image, each of
them reports what it would have reported before. -/

namespace Nt351.Stamp
open Python

/-- The section table starts behind the checksum, and so does what a section's raw pointer leads
to, where the section has a size: `rva_to_offset` follows it without raw data too. -/
structure Behind (data : Bytes) : Prop where
  table : 68 ≤ littleEndian data (littleEndian data 0x3c 4 + 4 + 16) 2
  raw : ∀ s ∈ RvaMap.sectionsOf data, 0 < max s.vsize s.rsize → optionalHeader data + 68 ≤ s.raddr

/-- The files differ in the fields of the optional header that are stamped, at most. -/
abbrev SameBesideStamp (data data' : Bytes) : Prop :=
  SameBeside (optionalHeader data + 40) (optionalHeader data + 68) data data'

theorem stamped_sameBeside {data : Bytes} (h : optionalHeader data + 68 ≤ data.length)
    (major minor : ℕ) : SameBesideStamp data (stamped data major minor) :=
  ⟨withChecksum_length h .., fun i hi => withChecksum_getD h _ _ _ (by omega) (by omega)⟩

/-! ## checkimports.py -/

section CheckImports
open CheckImports

/-- `checkimports.py` makes the same of the two images. -/
structure SameImports (im im' : CheckImports.Image) : Prop where
  directories : im'.directories = im.directories
  sections : im'.sections = im.sections
  length : im'.data.length = im.data.length
  start : cstring im'.data none = cstring im.data none
  mapped : ∀ rva o, im.rvaToOffset rva = some o → SameBeside 0 o im.data im'.data

variable {im im' : CheckImports.Image} {rva k x : ℕ} {α : Type} {text : Symbol → α}

theorem SameImports.refl (im : CheckImports.Image) : SameImports im im :=
  ⟨rfl, rfl, rfl, rfl, fun _ o _ => .refl 0 o _⟩

section Same

variable (h : SameImports im im')
include h

theorem SameImports.directory (i : ℕ) : im'.directory i = im.directory i := by
  rw [CheckImports.Image.directory, h.directories, CheckImports.Image.directory]

theorem SameImports.rvaToOffset (rva : ℕ) : im'.rvaToOffset rva = im.rvaToOffset rva := by
  rw [CheckImports.Image.rvaToOffset, h.sections, CheckImports.Image.rvaToOffset]

/-- What is read at an offset counted from a mapped RVA. -/
theorem SameImports.plus (hx : plus (im.rvaToOffset rva) k = .ok x) :
    SameBeside 0 x im.data im'.data := by
  cases ho : im.rvaToOffset rva with
  | none =>
    rw [ho] at hx
    cases hx
  | some o =>
    rw [ho] at hx
    obtain rfl : o + k = x := Except.ok.inj hx
    exact (h.mapped rva o ho).mono le_rfl (Nat.le_add_right o k)

theorem SameImports.unpackFrom {w n : ℕ} (hx : Python.plus (im.rvaToOffset rva) k = .ok x) :
    Python.unpackFrom w n im'.data x = Python.unpackFrom w n im.data x :=
  (h.plus hx).unpackFrom (.inr le_rfl)

theorem SameImports.cstring_some (hx : Python.plus (im.rvaToOffset rva) k = .ok x) :
    cstring im'.data (some x) = cstring im.data (some x) := by
  have hdrop : im'.data.drop ((some x).getD 0) = im.data.drop ((some x).getD 0) :=
    (h.plus hx).drop le_rfl
  simp only [CheckImports.cstring, hdrop]

theorem SameImports.cstring (rva : ℕ) :
    CheckImports.cstring im'.data (im.rvaToOffset rva) =
      CheckImports.cstring im.data (im.rvaToOffset rva) := by
  cases ho : im.rvaToOffset rva with
  | none => exact h.start
  | some o => exact h.cstring_some (k := 0) (by rw [ho]; rfl)

theorem SameImports.readSymbol (value : ℕ) : readSymbol im' value = readSymbol im value := by
  rw [CheckImports.readSymbol, CheckImports.readSymbol, h.rvaToOffset]
  split
  · rfl
  · exact bind_congr_ok fun x hx => by rw [h.cstring_some hx]

theorem SameImports.readThunks (fuel j : ℕ) :
    readThunks text im' (im.rvaToOffset rva) fuel j =
      readThunks text im (im.rvaToOffset rva) fuel j := by
  induction fuel generalizing j with
  | zero => rfl
  | succ fuel ih =>
    rw [CheckImports.readThunks, CheckImports.readThunks]
    refine bind_congr_ok fun x hx => ?_
    rw [h.unpackFrom hx]
    refine bind_congr_ok fun value _ => ?_
    rw [h.readSymbol, ih]

theorem SameImports.readDescriptors (fuel index : ℕ) (result : Dict Str (List α)) :
    readDescriptors text im' (im.rvaToOffset rva) fuel index result =
      readDescriptors text im (im.rvaToOffset rva) fuel index result := by
  induction fuel generalizing index result with
  | zero => rfl
  | succ fuel ih =>
    rw [CheckImports.readDescriptors, CheckImports.readDescriptors]
    refine bind_congr_ok fun x hx => ?_
    rw [h.unpackFrom hx]
    refine bind_congr_ok fun fields _ => ?_
    simp only [h.rvaToOffset, h.cstring, h.readThunks, h.length, ih]

end Same

variable {files files' : Str → Option Bytes} {path : Str}

/-- `load` gives images of the two files that `checkimports.py` makes the same of. -/
def ImportsAlike (files files' : Str → Option Bytes) (path : Str) : Prop :=
  ∃ k : CheckImports.Image → CheckImports.Image,
    load files' path = k <$> load files path ∧
      ∀ im, load files path = .ok im → SameImports im (k im)

theorem ImportsAlike.importsAs (h : ImportsAlike files files' path) :
    importsAs text files' path = importsAs text files path := by
  obtain ⟨k, hload, hsame⟩ := h
  refine bind_map_congr hload fun im him => ?_
  have h := hsame im him
  simp only [h.directory, h.rvaToOffset, h.readDescriptors, h.length]

theorem ImportsAlike.getExports (h : ImportsAlike files files' path) :
    getExports files' path = getExports files path := by
  obtain ⟨k, hload, hsame⟩ := h
  refine bind_map_congr hload fun im him => ?_
  have h := hsame im him
  simp only [h.directory, h.rvaToOffset, h.cstring]
  split
  · rfl
  · refine bind_congr_ok fun x hx => ?_
    rw [h.unpackFrom hx]
    refine bind_congr_ok fun fields _ => ?_
    rw [mapM_congr fun i _ => bind_congr_ok fun x hx => by rw [h.unpackFrom hx]]

theorem readReferences_alike (h : ∀ path, ImportsAlike files files' path) (refs : List Str)
    (available : Dict Str (Finset Str)) (lines : List Str) :
    readReferences files' refs available lines = readReferences files refs available lines := by
  induction refs generalizing available lines with
  | nil => rfl
  | cons ref refs ih => simp only [readReferences, (h ref).getExports, ih]

theorem checkImports_alike (h : ∀ path, ImportsAlike files files' path) (argv : List Str) :
    CheckImports.main files' argv = CheckImports.main files argv := by
  match argv with
  | [] | [_] | [_, _] => rfl
  | _ :: driver :: ref :: refs =>
    simp only [CheckImports.main, getImports, (h driver).importsAs, readReferences_alike h]

/-! The two files. -/

variable {data data' : Bytes}

theorem takeWhile_append_of_mem {l m : Bytes} (h : 0 ∈ l) :
    (l ++ m).takeWhile (· ≠ 0) = l.takeWhile (· ≠ 0) := by
  induction l with
  | nil => exact absurd h List.not_mem_nil
  | cons b l ih =>
    rw [List.cons_append, List.takeWhile_cons, List.takeWhile_cons]
    by_cases hb : b = 0
    · subst hb
      rfl
    · have htail : 0 ∈ l := (List.mem_cons.mp h).resolve_left (Ne.symm hb)
      rw [ih htail]

/-- A string read from the start of the file ends before what is stamped. -/
theorem cstring_start (h : SameBesideStamp data data')
    (hpe : (data.drop (littleEndian data 0x3c 4)).take 4 = [0x50, 0x45, 0, 0]) :
    cstring data' none = cstring data none := by
  have hopt : optionalHeader data = littleEndian data 0x3c 4 + 4 + 20 := rfl
  have hhead : data'.take (optionalHeader data + 40) = data.take (optionalHeader data + 40) :=
    h.window (k := 0) (.inl (by omega))
  have hzero : 0 ∈ data.take (optionalHeader data + 40) := by
    have hmem : (0 : BitVec 8) ∈ (data.drop (littleEndian data 0x3c 4)).take 4 := by
      rw [hpe]
      decide
    rw [List.take_drop] at hmem
    exact List.take_subset_take_left _ (by omega) (List.mem_of_mem_drop hmem)
  have hread : ∀ d : Bytes,
      d.take (optionalHeader data + 40) = data.take (optionalHeader data + 40) →
      cstring d none =
        .ok (latin1 ((data.take (optionalHeader data + 40)).takeWhile (· ≠ 0))) := by
    intro d hd
    have hsplit :
        data.take (optionalHeader data + 40) ++ d.drop (optionalHeader data + 40) = d := by
      rw [← hd, List.take_append_drop]
    have hin : 0 ∈ d := hsplit ▸ List.mem_append_left _ hzero
    have hwhile : d.takeWhile (· ≠ 0) =
        (data.take (optionalHeader data + 40)).takeWhile (· ≠ 0) := by
      rw [← hsplit, takeWhile_append_of_mem hzero]
    exact (if_pos hin).trans (congrArg (fun s => Except.ok (latin1 s)) hwhile)
  rw [hread data' hhead, hread data rfl]

/-- `load` reads no byte that is stamped. -/
theorem checkImports_load_same (hdata : files path = some data) (hdata' : files' path = some data')
    (h : SameBesideStamp data data') (hbehind : Behind data) :
    load files' path = (fun im => { im with data := data' }) <$> load files path := by
  have htable : 68 ≤ littleEndian data (littleEndian data 0x3c 4 + 20) 2 := hbehind.table
  have hopt : optionalHeader data = littleEndian data 0x3c 4 + 4 + 20 := rfl
  have hmz : data'.take 2 = data.take 2 := h.window (k := 0) (.inl (by omega))
  have hpe : (data'.drop (littleEndian data 0x3c 4)).take 4 =
      (data.drop (littleEndian data 0x3c 4)).take 4 := h.window (.inl (by omega))
  rw [load, load, hdata, hdata']
  simp only [pure_bind, hmz]
  split
  · rfl
  simp only [map_bind]
  rw [h.unpackFrom (.inl (by omega))]
  refine bind_congr_ok fun eLfanew he => ?_
  obtain rfl := of_unpackFrom he
  simp only [Fin.isValue, Fin.val_zero, Nat.mul_zero, Nat.add_zero, hpe]
  split
  · rfl
  simp only [map_bind]
  rw [h.unpackFrom (.inl (by omega))]
  refine bind_congr_ok fun num _ => ?_
  rw [h.unpackFrom (.inl (by omega))]
  refine bind_congr_ok fun size hsize => ?_
  obtain rfl := of_unpackFrom hsize
  simp only [Fin.isValue, Fin.val_zero, Nat.mul_zero, Nat.add_zero]
  rw [mapM_congr fun i _ => h.unpackFrom (.inr (by omega))]
  refine bind_congr_ok fun directories _ => ?_
  rw [mapM_congr fun i _ => by
    rw [h.unpackFrom (.inr (by omega)), h.unpackFrom (.inr (by omega))]]
  rfl

theorem checkImports_data (hdata : files path = some data) (h : load files path = .ok im) :
    im.data = data := by
  rw [load, hdata] at h
  obtain ⟨_, hsame, h⟩ := bind_eq_ok.mp h
  obtain rfl := Except.ok.inj hsame
  dsimp only at h
  split at h
  · cases h
  obtain ⟨_, -, h⟩ := bind_eq_ok.mp h
  split at h
  · cases h
  obtain ⟨_, -, h⟩ := bind_eq_ok.mp h
  obtain ⟨_, -, h⟩ := bind_eq_ok.mp h
  obtain ⟨_, -, h⟩ := bind_eq_ok.mp h
  obtain ⟨_, -, h⟩ := bind_eq_ok.mp h
  rw [← Except.ok.inj h]

theorem importsAlike (hdata : files path = some data) (hdata' : files' path = some data')
    (h : SameBesideStamp data data') (hbehind : Behind data)
    (hpe : (data.drop (littleEndian data 0x3c 4)).take 4 = [0x50, 0x45, 0, 0]) :
    ImportsAlike files files' path := by
  refine ⟨_, checkImports_load_same hdata hdata' h hbehind, fun im him => ?_⟩
  have hsections := RvaMap.checkImports_load hdata him
  obtain rfl := checkImports_data hdata him
  refine ⟨rfl, rfl, h.length, cstring_start h hpe, fun rva o ho => ?_⟩
  obtain ⟨s, hs, rfl⟩ := Option.map_eq_some_iff.mp ho
  have hspan := List.find?_some hs
  rw [decide_eq_true_eq] at hspan
  have hraw := hbehind.raw s (hsections ▸ List.mem_of_find?_eq_some hs) (by omega)
  exact h.mono (Nat.zero_le _) (hraw.trans (Nat.le_add_right _ _))

theorem importsAlike_refl (h : files' path = files path) : ImportsAlike files files' path := by
  have hload : load files' path = load files path := by
    rw [load, load, h]
  exact ⟨id, by rw [hload, id_map], fun im _ => .refl im⟩

end CheckImports

/-! ## findidt.py and nmsig.py -/

section FindIdt
open FindIdt NmSig

/-- `findidt.py` and `nmsig.py` make the same of the two images. -/
structure SameImage (im im' : FindIdt.Image) : Prop where
  sections : im'.sections = im.sections
  imageBase : im'.imageBase = im.imageBase
  backed : ∀ s ∈ im.sections, s.rsize ≠ 0 → SameBeside 0 s.raddr im.data im'.data
  fixups : relocs im'.data im'.sections = relocs im.data im.sections

variable {im im' driver driver' kernel kernel' : FindIdt.Image} {s : FindIdt.Section}
  {rva off n : ℕ} {sec path : Str}

theorem SameImage.refl (im : FindIdt.Image) : SameImage im im :=
  ⟨rfl, rfl, fun _ _ _ => .refl _ _ _, rfl⟩

/-- An offset that an RVA is translated to is in some section's raw data. -/
theorem of_rvaToOff {sections : List FindIdt.Section}
    (h : rvaToOff sections rva = some (off, sec)) :
    ∃ s ∈ sections, s.rsize ≠ 0 ∧ s.raddr ≤ off := by
  obtain ⟨s, hs, he⟩ := Option.map_eq_some_iff.mp h
  obtain ⟨rfl, -⟩ := Prod.mk.inj he
  have hback := List.find?_some hs
  rw [decide_eq_true_eq] at hback
  exact ⟨s, List.mem_of_find?_eq_some hs, hback.1, Nat.le_add_right _ _⟩

section Same

variable (h : SameImage im im')
include h

theorem SameImage.sectionRuns (ranges : List Range) (minRun : ℕ) (hs : s ∈ im.sections) :
    sectionRuns im'.data ranges minRun s = sectionRuns im.data ranges minRun s := by
  rw [FindIdt.sectionRuns, FindIdt.sectionRuns]
  split
  · rfl
  · next hne =>
    have hraw : rawData im'.data s = rawData im.data s := (h.backed s hs hne).window (.inr le_rfl)
    rw [hraw]

theorem SameImage.findIdt : findIdt im'.data im'.sections im'.imageBase defaultMinRun =
    findIdt im.data im.sections im.imageBase defaultMinRun := by
  rw [FindIdt.findIdt, FindIdt.findIdt, h.sections, h.imageBase, List.flatMap_def, List.flatMap_def,
    List.map_congr_left fun s hs => h.sectionRuns _ _ hs]

theorem SameImage.window (hoff : rvaToOff im.sections rva = some (off, sec)) :
    (im'.data.drop off).take n = (im.data.drop off).take n := by
  obtain ⟨s, hs, hne, hle⟩ := of_rvaToOff hoff
  exact (h.backed s hs hne).window (.inr hle)

theorem SameImage.dumpHandler (va : ℕ) : dumpHandler im' va = dumpHandler im va := by
  rw [FindIdt.dumpHandler, FindIdt.dumpHandler, h.sections, h.imageBase]
  split
  · rfl
  · next off sec hoff => rw [h.window hoff]

theorem SameImage.readRva (lo hi : ℕ) : readRva im' lo hi = readRva im lo hi := by
  rw [NmSig.readRva, NmSig.readRva, h.sections, h.imageBase]
  split
  · rfl
  · next off sec hoff =>
    rw [rvaToOffAt] at hoff
    split at hoff
    · cases hoff
    · rw [h.window hoff]

theorem SameImage.header (path : Str) : FindIdt.header path im' = FindIdt.header path im := by
  rw [FindIdt.header, FindIdt.header, h.sections, h.imageBase]

theorem SameImage.tableLines (idt : Run) : tableLines im' idt = tableLines im idt := by
  rw [FindIdt.tableLines, FindIdt.tableLines, h.imageBase]

theorem SameImage.vectorLines (entries : List Record) (v : ℤ) :
    vectorLines entries im' v = vectorLines entries im v := by
  simp only [FindIdt.vectorLines, handlerLines, h.dumpHandler]

theorem SameImage.vectorSeven (path : Str) :
    NmSig.vectorSeven path im' = NmSig.vectorSeven path im := by
  rw [NmSig.vectorSeven, NmSig.vectorSeven, h.findIdt]

end Same

theorem compareBlob_same (hd : SameImage driver driver') (hk : SameImage kernel kernel') (nmVa : ℕ)
    (rvas : Finset ℕ) (b : Blob) (state : List Str × Option Matched) :
    compareBlob driver' kernel' nmVa rvas b state = compareBlob driver kernel nmVa rvas b state := by
  simp only [compareBlob, blobLines, hd.readRva, hk.readRva, hd.imageBase]

theorem compareBlobs_same (hd : SameImage driver driver') (hk : SameImage kernel kernel') (nmVa : ℕ)
    (rvas : Finset ℕ) (bs : List Blob) (state : List Str × Option Matched) :
    compareBlobs driver' kernel' nmVa rvas bs state =
      compareBlobs driver kernel nmVa rvas bs state := by
  induction bs generalizing state with
  | nil => rfl
  | cons b bs ih => simp only [compareBlobs, compareBlob_same hd hk, ih]

variable {files files' : Str → Option Bytes}

/-- `load` gives images of the two files that the two scripts make the same of. -/
def ImageAlike (files files' : Str → Option Bytes) (path : Str) : Prop :=
  ∃ k : FindIdt.Image → FindIdt.Image, FindIdt.load files' path = k <$> FindIdt.load files path ∧
    ∀ im, FindIdt.load files path = .ok im → SameImage im (k im)

theorem findIdt_alike (h : ImageAlike files files' path) (vectors : List ℤ) :
    FindIdt.main files' path vectors = FindIdt.main files path vectors := by
  obtain ⟨k, hload, hsame⟩ := h
  refine bind_mapError_congr hload fun im him => ?_
  have h := hsame im him
  simp only [h.findIdt, h.header, h.tableLines, funext (h.vectorLines _)]

theorem nmSig_alike (h : ∀ path, ImageAlike files files' path) (argv : List Str) :
    NmSig.main files' argv = NmSig.main files argv := by
  match argv with
  | [] | [_] | [_, _] | _ :: _ :: _ :: _ :: _ => rfl
  | [_, drvPath, krnPath] =>
    obtain ⟨k, hload, hsame⟩ := h drvPath
    refine bind_mapError_congr hload fun driver hdriver => ?_
    have hd := hsame driver hdriver
    obtain ⟨k', hload', hsame'⟩ := h krnPath
    refine bind_mapError_congr hload' fun kernel hkernel => ?_
    have hk := hsame' kernel hkernel
    simp only [hk.vectorSeven, hd.fixups, hd.imageBase, hk.imageBase, compareBlobs_same hd hk]

/-! The two files. -/

variable {data data' : Bytes} {o stop page : ℕ}

theorem pageFixups_same (h : SameBeside 0 o data data') (i k : ℕ) (out : Finset ℕ) (hi : o ≤ i) :
    pageFixups data' page i k out = pageFixups data page i k out := by
  induction k generalizing i out with
  | zero => rfl
  | succ k ih =>
    rw [pageFixups, pageFixups, h.unpackOne (.inr hi)]
    exact bind_congr_ok fun entry _ => ih _ _ (hi.trans (Nat.le_add_right i 2))

theorem blockFixups_same (h : SameBeside 0 o data data') (off : ℕ) (out : Finset ℕ)
    (hoff : o ≤ off) :
    blockFixups data' stop off out = blockFixups data stop off out := by
  induction hn : stop - off using Nat.strong_induction_on generalizing off out with
  | _ n ih =>
    rw [blockFixups, blockFixups, h.unpackFrom (.inr hoff)]
    split
    · next hlt =>
      refine bind_congr_ok fun header _ => ?_
      split
      · next hsize =>
        rw [pageFixups_same h _ _ _ (by omega)]
        exact bind_congr_ok fun out _ => ih _ (by omega) _ _ (by omega) rfl
      · rfl
    · rfl

theorem relocs_same {sections : List FindIdt.Section} (h : SameBesideStamp data data')
    (hraw : ∀ s ∈ sections, s.rsize ≠ 0 → SameBeside 0 s.raddr data data') :
    relocs data' sections = relocs data sections := by
  have hopt : optionalHeader data = littleEndian data 0x3c 4 + 4 + 20 := rfl
  rw [relocs, relocs, h.unpackOne (.inl (by omega))]
  refine bind_congr_ok fun eLfanew he => ?_
  obtain ⟨-, rfl⟩ := of_unpackOne he
  dsimp only
  rw [h.unpackOne (.inl (by omega))]
  refine bind_congr_ok fun magic _ => ?_
  have hdd : 96 ≤ if magic = 0x10b then 96 else 112 := by
    split <;> decide
  rw [h.unpackFrom (.inr (by omega))]
  refine bind_congr_ok fun directory _ => ?_
  split
  · rfl
  · split
    · rfl
    · next off sec hoff =>
      obtain ⟨s, hs, hne, hle⟩ := of_rvaToOff hoff
      exact blockFixups_same (hraw s hs hne) off ∅ hle

theorem findIdt_load_same (hdata : files path = some data) (hdata' : files' path = some data')
    (h : SameBesideStamp data data') (hbehind : Behind data) :
    FindIdt.load files' path =
      (fun im => { im with data := data' }) <$> FindIdt.load files path := by
  have htable := hbehind.table
  have hopt : optionalHeader data = littleEndian data 0x3c 4 + 4 + 20 := rfl
  rw [FindIdt.load, FindIdt.load, hdata, hdata']
  simp only [pure_bind, map_bind]
  rw [h.unpackOne (.inl (by omega))]
  refine bind_congr_ok fun eLfanew he => ?_
  obtain ⟨-, rfl⟩ := of_unpackOne he
  rw [h.unpackOne (.inl (by omega))]
  refine bind_congr_ok fun num _ => ?_
  rw [h.unpackOne (.inl (by omega))]
  refine bind_congr_ok fun size hsize => ?_
  obtain ⟨-, rfl⟩ := of_unpackOne hsize
  rw [h.unpackOne (.inl (by omega))]
  refine bind_congr_ok fun imageBase _ => ?_
  rw [mapM_congr fun i _ => by
    rw [h.unpackFrom (.inr (by omega)), h.unpackOne (.inr (by omega)),
      h.unpackOne (.inr (by omega)), h.unpackOne (.inr (by omega)), h.unpackOne (.inr (by omega)),
      h.unpackOne (.inr (by omega)), h.window (.inr (by omega))]]
  rfl

theorem findIdt_data (hdata : files path = some data) (h : FindIdt.load files path = .ok im) :
    im.data = data := by
  rw [FindIdt.load, hdata] at h
  obtain ⟨_, hsame, h⟩ := bind_eq_ok.mp h
  obtain rfl := Except.ok.inj hsame
  obtain ⟨_, -, h⟩ := bind_eq_ok.mp h
  obtain ⟨_, -, h⟩ := bind_eq_ok.mp h
  obtain ⟨_, -, h⟩ := bind_eq_ok.mp h
  obtain ⟨_, -, h⟩ := bind_eq_ok.mp h
  obtain ⟨_, -, h⟩ := bind_eq_ok.mp h
  rw [← Except.ok.inj h]

theorem imageAlike (hdata : files path = some data) (hdata' : files' path = some data')
    (h : SameBesideStamp data data') (hbehind : Behind data) : ImageAlike files files' path := by
  refine ⟨_, findIdt_load_same hdata hdata' h hbehind, fun im him => ?_⟩
  have hsections := RvaMap.findIdt_load hdata him
  obtain rfl := findIdt_data hdata him
  have hback : ∀ s ∈ im.sections, s.rsize ≠ 0 → SameBeside 0 s.raddr im.data data' := by
    intro s hs hne
    have hmem : RvaMap.bare s ∈ RvaMap.sectionsOf im.data := hsections ▸ List.mem_map_of_mem hs
    have hpos : 0 < max s.vsize s.rsize := by omega
    exact h.mono (Nat.zero_le _) (hbehind.raw _ hmem hpos)
  exact ⟨rfl, rfl, hback, relocs_same h hback⟩

theorem imageAlike_refl (h : files' path = files path) : ImageAlike files files' path := by
  have hload : FindIdt.load files' path = FindIdt.load files path := by
    rw [FindIdt.load, FindIdt.load, h]
  exact ⟨id, by rw [hload, id_map], fun im _ => .refl im⟩

end FindIdt

/-! ## All scripts -/

/-- Every script reports the same on the two sets of files. -/
structure ReportsSame (files files' : Str → Option Bytes) : Prop where
  checkImports : ∀ argv, CheckImports.main files' argv = CheckImports.main files argv
  findIdt : ∀ path vectors, FindIdt.main files' path vectors = FindIdt.main files path vectors
  nmSig : ∀ argv, NmSig.main files' argv = NmSig.main files argv

variable {w : World} {path : Str} {data : Bytes} {major minor : ℤ}

theorem reportsSame_stamped (hdata : w.files path = some data) (h : Accepted data)
    (hbehind : Behind data) (M m : ℕ) :
    ReportsSame w.files (Function.update w.files path (some (stamped data M m))) := by
  have hsame := stamped_sameBeside h.whole M m
  have hself := Function.update_self path (some (stamped data M m)) w.files
  have hother : ∀ p, p ≠ path →
      Function.update w.files path (some (stamped data M m)) p = w.files p :=
    fun p hp => Function.update_of_ne hp _ _
  have himports : ∀ p, ImportsAlike w.files
      (Function.update w.files path (some (stamped data M m))) p := by
    intro p
    by_cases hp : p = path
    · subst hp
      exact importsAlike hdata hself hsame hbehind h.pe
    · exact importsAlike_refl (hother p hp)
  have himage : ∀ p, ImageAlike w.files
      (Function.update w.files path (some (stamped data M m))) p := by
    intro p
    by_cases hp : p = path
    · subst hp
      exact imageAlike hdata hself hsame hbehind
    · exact imageAlike_refl (hother p hp)
  exact ⟨checkImports_alike himports, fun p => findIdt_alike (himage p), nmSig_alike himage⟩

/-- Whether it stamps the file or refuses to, `stamp351.py` changes no report, whichever of
the files given to a script is the stamped one. -/
theorem stamp_unseen (path : Str) (major minor : ℤ) (w : World)
    (hbehind : ∀ data, w.files path = some data → Accepted data → Behind data) :
    ReportsSame w.files ((stamp path major minor).exec w).2.files := by
  have hcontract := stamp_contract path major minor w
  rw [Script.Contract] at hcontract
  split at hcontract
  · next u w' hrun =>
    obtain ⟨data, hdata, h, hmajor, hminor⟩ := hcontract
    rw [(exec_stamp hdata h hmajor hminor).2]
    exact reportsSame_stamped hdata h (hbehind data hdata h) _ _
  · next e w' hrun =>
    rw [hrun, hcontract]
    exact ⟨fun _ => rfl, fun _ _ => rfl, fun _ => rfl⟩

theorem stamp_unseen_kernelImage : ReportsSame (fun _ => some FindIdt.kernelImage)
    ((stamp [] 3 51).exec ⟨fun _ => some FindIdt.kernelImage, []⟩).2.files := by
  refine stamp_unseen [] 3 51 ⟨fun _ => some FindIdt.kernelImage, []⟩ fun data hdata _ => ?_
  obtain rfl := Option.some.inj hdata
  exact ⟨by decide +kernel, by decide +kernel⟩

end Nt351.Stamp
