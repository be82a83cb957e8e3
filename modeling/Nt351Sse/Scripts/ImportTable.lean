import Nt351Sse.Base.FirstMatch
import Nt351Sse.Scripts.CheckImports

/-! The import directory of a PE32 image as the file has it, and that `get_imports` reads it. -/

namespace Nt351.CheckImports
open Python FirstMatch

/-! ## The image -/

section Header

variable (data : Bytes)

/-- Where the optional header starts. -/
def optionalHeader : ℕ := littleEndian data 0x3c 4 + 4 + 20

def sectionTable : ℕ :=
  optionalHeader data + littleEndian data (littleEndian data 0x3c 4 + 4 + 16) 2

def numSections : ℕ := littleEndian data (littleEndian data 0x3c 4 + 4 + 2) 2

structure Pe32 : Prop where
  mz : data.take 2 = [0x4d, 0x5a]
  header : 0x40 ≤ data.length
  pe : (data.drop (littleEndian data 0x3c 4)).take 4 = [0x50, 0x45, 0, 0]
  magic : littleEndian data (optionalHeader data) 2 = 0x10b
  directories : optionalHeader data + 96 + 16 * 8 ≤ data.length
  sections : sectionTable data + numSections data * 40 ≤ data.length

def sectionAt (entry : ℕ) : Section where
  vsize := littleEndian data (entry + 8) 4
  vaddr := littleEndian data (entry + 12) 4
  rsize := littleEndian data (entry + 16) 4
  raddr := littleEndian data (entry + 20) 4

/-- The image with its 16 data directories and its section table. -/
def imageOf : Image where
  data := data
  directories := (List.range 16).map fun i (j : Fin 2) =>
    littleEndian data (optionalHeader data + 96 + i * 8 + 4 * j) 4
  sections := (List.range (numSections data)).map fun i =>
    sectionAt data (sectionTable data + i * 40)

end Header

variable {files : Files} {path : Str} {data : Bytes}

theorem load_pe32 (hdata : files path = some data) (h : Pe32 data) :
    load files path = .ok (imageOf data) := by
  have hdirs := h.directories
  have hsections := h.sections
  have hopt : optionalHeader data = littleEndian data 0x3c 4 + 4 + 20 := rfl
  rw [load, hdata]
  refine bind_eq_ok.mpr ⟨data, rfl, ?_⟩
  dsimp only
  rw [if_neg (not_not.mpr h.mz)]
  refine bind_eq_ok.mpr ⟨_, unpackFrom_one h.header, ?_⟩
  rw [if_neg (not_not.mpr h.pe)]
  refine bind_eq_ok.mpr ⟨_, unpackFrom_one (by omega), bind_eq_ok.mpr
    ⟨_, unpackFrom_one (by omega), bind_eq_ok.mpr ⟨_, mapM_ok fun i hi => ?_, bind_eq_ok.mpr
      ⟨_, mapM_ok fun i hi => ?_, rfl⟩⟩⟩⟩
  · have hlt := List.mem_range.mp hi
    exact unpackFrom_ok (show optionalHeader data + 96 + i * 8 + 4 * 2 ≤ data.length by omega)
  · have hlt : i < numSections data := List.mem_range.mp hi
    have hin : sectionTable data + i * 40 + 40 ≤ data.length := by
      have := Nat.mul_le_mul_right 40 (Nat.succ_le_of_lt hlt)
      omega
    exact bind_eq_ok.mpr ⟨_, unpackFrom_ok (show sectionTable data + i * 40 + 1 * 8 ≤ _ by omega),
      bind_eq_ok.mpr ⟨_, unpackFrom_ok
        (show sectionTable data + i * 40 + 8 + 4 * 4 ≤ _ by omega), rfl⟩⟩

/-! ## The data at an RVA -/

/-- How the data at an RVA is found in the file: `At im rva len offset` if its `len` bytes are
those at `offset`. -/
abbrev Placing := Image → ℕ → ℕ → ℕ → Prop

/-- The script takes them from there. -/
def Image.Maps : Placing := fun im rva _ offset => im.rvaToOffset rva = some offset

/-- The section's raw data has the `len` bytes. -/
def Section.Backs (s : Section) (rva len : ℕ) : Prop :=
  (s.vaddr ≤ rva ∧ rva < s.vaddr + s.rsize) ∧ rva + len ≤ s.vaddr + s.rsize

instance (s : Section) (rva len : ℕ) : Decidable (s.Backs rva len) :=
  inferInstanceAs (Decidable (_ ∧ _))

/-- They are raw data of a section, as the loader has them. -/
def Image.Backed : Placing := fun im rva len offset =>
  ∃ s ∈ im.sections, s.Backs rva len ∧ s.raddr + (rva - s.vaddr) = offset

instance (im : Image) (rva len offset : ℕ) : Decidable (im.Backed rva len offset) :=
  inferInstanceAs (Decidable (∃ s ∈ im.sections, _))

/-- No two sections take up the same addresses. -/
def Image.Apart (im : Image) : Prop := im.sections.Pairwise fun s t =>
  s.vaddr + max s.vsize s.rsize ≤ t.vaddr ∨ t.vaddr + max t.vsize t.rsize ≤ s.vaddr

instance (im : Image) : Decidable im.Apart := inferInstanceAs (Decidable (List.Pairwise _ _))

/-- There the script finds what the loader has. -/
theorem Image.Backed.maps {im : Image} {rva len offset : ℕ} (hapart : im.Apart)
    (h : im.Backed rva len offset) : im.Maps rva len offset := by
  obtain ⟨s, hs, ⟨hback, -⟩, rfl⟩ := h
  have hspan : s.vaddr ≤ rva ∧ rva < s.vaddr + max s.vsize s.rsize := by omega
  refine search_eq_of_apart (hapart.imp ?_) hs hspan
  rintro s t hst ⟨⟨hlo, hhi⟩, hlo', hhi'⟩
  omega

/-! ## The directory -/

/-- A NUL-terminated string. -/
def StringAt (data : Bytes) (offset : ℕ) (s : Str) : Prop :=
  ∃ bytes : Bytes, 0 ∉ bytes ∧ s = latin1 bytes ∧
    (data.drop offset).take (bytes.length + 1) = bytes ++ [0]

section Directory

variable (At : Placing) (im : Image)

/-- A thunk that is not zero names a symbol or gives its ordinal. -/
def SymbolAt (value : ℕ) : Symbol → Prop
  | .ordinal n => value &&& 0x80000000 ≠ 0 ∧ n = value &&& 0xffff
  | .name s => value &&& 0x80000000 = 0 ∧
    -- a 2-byte hint, then the name
    ∃ offset, At im value (2 + (s.length + 1)) offset ∧ StringAt im.data (offset + 2) s

/-- A thunk array, ended by a zero dword. -/
inductive ThunksAt : ℕ → List Symbol → Prop
  | stop {offset : ℕ} (inside : offset + 4 ≤ im.data.length)
      (zero : littleEndian im.data offset 4 = 0) : ThunksAt offset []
  | thunk {offset value : ℕ} {symbol : Symbol} {symbols : List Symbol}
      (inside : offset + 4 ≤ im.data.length) (read : littleEndian im.data offset 4 = value)
      (nonzero : value ≠ 0) (names : SymbolAt At im value symbol)
      (rest : ThunksAt (offset + 4) symbols) : ThunksAt offset (symbol :: symbols)

/-- What a descriptor imports. -/
structure Import where
  dll : Str
  symbols : List Symbol

/-- The three fields of a descriptor that are read: OriginalFirstThunk, Name, FirstThunk. -/
structure Fields where
  origThunk : ℕ
  nameRva : ℕ
  firstThunk : ℕ
deriving DecidableEq

def fieldsAt (data : Bytes) (offset : ℕ) : Fields :=
  ⟨littleEndian data offset 4, littleEndian data (offset + 12) 4, littleEndian data (offset + 16) 4⟩

/-- A descriptor array, ended by a descriptor whose three fields are zero. -/
inductive DescriptorsAt : ℕ → List Import → Prop
  | stop {offset : ℕ} (inside : offset + 20 ≤ im.data.length)
      (zero : fieldsAt im.data offset = ⟨0, 0, 0⟩) : DescriptorsAt offset []
  | descriptor {offset nameOffset thunkOffset : ℕ} {fields : Fields} {d : Import}
      {rest : List Import} (inside : offset + 20 ≤ im.data.length)
      (read : fieldsAt im.data offset = fields) (nonzero : fields ≠ ⟨0, 0, 0⟩)
      (name : At im fields.nameRva (d.dll.length + 1) nameOffset)
      (dll : StringAt im.data nameOffset d.dll)
      (thunks : At im (if fields.origThunk ≠ 0 then fields.origThunk else fields.firstThunk)
        (4 * (d.symbols.length + 1)) thunkOffset)
      (symbols : ThunksAt At im thunkOffset d.symbols)
      (next : DescriptorsAt (offset + 20) rest) : DescriptorsAt offset (d :: rest)

/-- The import directory has these descriptors; where there is none there are no imports. -/
inductive HasImports : List Import → Prop
  | absent (none : im.directory 1 = 0) : HasImports []
  | present {offset : ℕ} {imports : List Import} (some : im.directory 1 ≠ 0)
      (placed : At im (im.directory 1) (20 * (imports.length + 1)) offset)
      (descriptors : DescriptorsAt At im offset imports) : HasImports imports

end Directory

/-! What is placed so in one way is in another that places as much. -/

section Mono

variable {At At' : Placing} {im : Image}
  (hat : ∀ {rva len offset : ℕ}, At im rva len offset → At' im rva len offset)
include hat

theorem SymbolAt.mono {value : ℕ} {symbol : Symbol} (h : SymbolAt At im value symbol) :
    SymbolAt At' im value symbol := by
  cases symbol with
  | ordinal n => exact h
  | name s =>
    obtain ⟨hclear, offset, hplaced, hstring⟩ := h
    exact ⟨hclear, offset, hat hplaced, hstring⟩

theorem ThunksAt.mono {offset : ℕ} {symbols : List Symbol} (h : ThunksAt At im offset symbols) :
    ThunksAt At' im offset symbols := by
  induction h with
  | stop inside zero => exact .stop inside zero
  | thunk inside read nonzero names rest ih =>
    exact .thunk inside read nonzero (names.mono hat) ih

theorem DescriptorsAt.mono {offset : ℕ} {imports : List Import}
    (h : DescriptorsAt At im offset imports) : DescriptorsAt At' im offset imports := by
  induction h with
  | stop inside zero => exact .stop inside zero
  | descriptor inside read nonzero name dll thunks symbols next ih =>
    exact .descriptor inside read nonzero (hat name) dll (hat thunks) (symbols.mono hat) ih

theorem HasImports.mono {imports : List Import} (h : HasImports At im imports) :
    HasImports At' im imports := by
  cases h with
  | absent hnone => exact .absent hnone
  | present hsome hplaced hdescriptors =>
    exact .present hsome (hat hplaced) (hdescriptors.mono hat)

end Mono

theorem HasImports.maps {im : Image} {imports : List Import} (hapart : im.Apart)
    (h : HasImports Image.Backed im imports) : HasImports Image.Maps im imports :=
  h.mono fun hbacked => hbacked.maps hapart

/-! ## What is read -/

variable {α : Type} {im : Image} {offset : ℕ} {symbols : List Symbol} {imports : List Import}
  {s : Str}

theorem cstring_eq (h : StringAt data offset s) : cstring data (some offset) = .ok s := by
  obtain ⟨bytes, hbytes, rfl, hdata⟩ := h
  have hsplit : data.drop offset = bytes ++ 0 :: (data.drop offset).drop (bytes.length + 1) := by
    conv_lhs => rw [← List.take_append_drop (bytes.length + 1) (data.drop offset), hdata]
    rw [List.append_assoc, List.singleton_append]
  have hkept : ∀ b ∈ bytes, decide (b ≠ 0) = true := fun b hb =>
    decide_eq_true fun hzero => hbytes (hzero ▸ hb)
  have hmem : 0 ∈ data.drop offset := by
    rw [hsplit]
    exact List.mem_append_right _ List.mem_cons_self
  have htake : (data.drop offset).takeWhile (· ≠ 0) = bytes := by
    rw [hsplit, List.takeWhile_append_of_pos hkept, List.takeWhile_cons_of_neg (by decide),
      List.append_nil]
  rw [cstring, Option.getD_some, if_pos hmem, htake]

theorem readSymbol_eq {value : ℕ} {symbol : Symbol} (h : SymbolAt Image.Maps im value symbol) :
    readSymbol im value = .ok symbol := by
  cases symbol with
  | ordinal n =>
    obtain ⟨hset, rfl⟩ := h
    exact if_pos hset
  | name s =>
    obtain ⟨hclear, offset, hmap, hstring⟩ := h
    rw [readSymbol, if_neg (not_not.mpr hclear), hmap]
    exact bind_eq_ok.mpr ⟨_, rfl, bind_eq_ok.mpr ⟨_, cstring_eq hstring, rfl⟩⟩

theorem readThunks_eq (text : Symbol → α) (h : ThunksAt Image.Maps im offset symbols)
    {start fuel j : ℕ} (hoffset : start + j * 4 = offset) (hfuel : symbols.length < fuel) :
    readThunks text im (some start) fuel j = .ok (symbols.map text) := by
  induction h generalizing fuel j with
  | stop inside zero =>
    obtain ⟨fuel, rfl⟩ := Nat.exists_eq_succ_of_ne_zero (Nat.ne_zero_of_lt hfuel)
    rw [readThunks]
    subst hoffset
    refine bind_eq_ok.mpr ⟨_, rfl, bind_eq_ok.mpr ⟨_, unpackFrom_one inside, ?_⟩⟩
    exact if_pos zero
  | thunk inside read nonzero names rest ih =>
    obtain ⟨fuel, rfl⟩ := Nat.exists_eq_succ_of_ne_zero (Nat.ne_zero_of_lt hfuel)
    rw [readThunks]
    subst hoffset read
    refine bind_eq_ok.mpr ⟨_, rfl, bind_eq_ok.mpr ⟨_, unpackFrom_one inside, ?_⟩⟩
    rw [if_neg nonzero]
    exact bind_eq_ok.mpr ⟨_, readSymbol_eq names, bind_eq_ok.mpr
      ⟨_, ih (by omega) (Nat.lt_of_succ_lt_succ hfuel), rfl⟩⟩

theorem ThunksAt.length_le {At : Placing} (h : ThunksAt At im offset symbols) :
    offset + 4 * symbols.length + 4 ≤ im.data.length := by
  induction h with
  | stop inside zero => exact inside
  | thunk inside read nonzero names rest ih =>
    rw [List.length_cons]
    omega

theorem DescriptorsAt.length_le {At : Placing} (h : DescriptorsAt At im offset imports) :
    offset + 20 * imports.length + 20 ≤ im.data.length := by
  induction h with
  | stop inside zero => exact inside
  | descriptor inside read nonzero name dll thunks symbols next ih =>
    rw [List.length_cons]
    omega

/-- The table that the descriptors make up, one after the other. -/
def tableOf (text : Symbol → α) (imports : List Import) (result : Dict Str (List α)) :
    Dict Str (List α) :=
  imports.foldl (fun table d => table.extend (lower d.dll) (d.symbols.map text)) result

theorem readDescriptors_eq (text : Symbol → α) (h : DescriptorsAt Image.Maps im offset imports)
    {start fuel index : ℕ} {result : Dict Str (List α)} (hoffset : start + index * 20 = offset)
    (hfuel : imports.length < fuel) :
    readDescriptors text im (some start) fuel index result = .ok (tableOf text imports result) := by
  induction h generalizing fuel index result with
  | stop inside zero =>
    obtain ⟨fuel, rfl⟩ := Nat.exists_eq_succ_of_ne_zero (Nat.ne_zero_of_lt hfuel)
    rw [readDescriptors]
    subst hoffset
    refine bind_eq_ok.mpr ⟨_, rfl, bind_eq_ok.mpr ⟨_, unpackFrom_ok inside, ?_⟩⟩
    obtain ⟨horig, hname, hfirst⟩ := Fields.mk.inj zero
    exact if_pos ⟨horig, hname, hfirst⟩
  | descriptor inside read nonzero name dll thunks symbols next ih =>
    obtain ⟨fuel, rfl⟩ := Nat.exists_eq_succ_of_ne_zero (Nat.ne_zero_of_lt hfuel)
    rw [readDescriptors]
    subst hoffset read
    have hne : ¬(littleEndian im.data (start + index * 20) 4 = 0 ∧
        littleEndian im.data (start + index * 20 + 12) 4 = 0 ∧
        littleEndian im.data (start + index * 20 + 16) 4 = 0) := fun hzero =>
      nonzero (Fields.mk.injEq .. ▸ hzero)
    have hthunks := readThunks_eq text symbols (j := 0) (Nat.add_zero _)
      (show _ < im.data.length + 1 by have := symbols.length_le; omega)
    refine bind_eq_ok.mpr ⟨_, rfl, bind_eq_ok.mpr ⟨_, unpackFrom_ok inside, ?_⟩⟩
    refine (if_neg hne).trans (bind_eq_ok.mpr ⟨_, ?_, bind_eq_ok.mpr
      ⟨_, ?_, ih (by omega) (Nat.lt_of_succ_lt_succ hfuel)⟩⟩)
    · exact (congrArg (cstring im.data) name).trans (cstring_eq dll)
    · exact (congrArg (readThunks text im · (im.data.length + 1) 0) thunks).trans hthunks

theorem importsAs_eq (text : Symbol → α) {files : Files} {path : Str}
    (hload : load files path = .ok im) (h : HasImports Image.Maps im imports) :
    importsAs text files path = .ok (tableOf text imports []) := by
  refine bind_eq_ok.mpr ⟨im, hload, ?_⟩
  cases h with
  | absent hnone => exact if_pos hnone
  | present hsome hmapped hdescriptors =>
    have hlen := hdescriptors.length_le
    rw [if_neg hsome, hmapped]
    exact readDescriptors_eq text hdescriptors (Nat.add_zero _) (by omega)

/-! ## The table -/

theorem tableOf_nodup (text : Symbol → α) {result : Dict Str (List α)} (h : result.keys.Nodup) :
    (tableOf text imports result).keys.Nodup := by
  induction imports generalizing result with
  | nil => exact h
  | cons d imports ih => exact ih (Dict.nodup_keys_extend h)

theorem mem_keys_tableOf (text : Symbol → α) {result : Dict Str (List α)} {k : Str} :
    k ∈ (tableOf text imports result).keys ↔
      k ∈ result.keys ∨ ∃ d ∈ imports, lower d.dll = k := by
  induction imports generalizing result with
  | nil => simp [tableOf]
  | cons d imports ih =>
    rw [tableOf, List.foldl_cons, ← tableOf, ih, Dict.mem_keys_extend, List.exists_mem_cons_iff]
    tauto

theorem items_tableOf (text : Symbol → α) {result : Dict Str (List α)} {k : Str} :
    (tableOf text imports result).items k = result.items k ++
      (imports.filter fun d => lower d.dll = k).flatMap fun d => d.symbols.map text := by
  induction imports generalizing result with
  | nil => exact (List.append_nil _).symm
  | cons d imports ih =>
    rw [tableOf, List.foldl_cons, ← tableOf, ih, Dict.items_extend]
    by_cases hk : lower d.dll = k
    · rw [if_pos hk, List.filter_cons, if_pos (decide_eq_true hk), List.flatMap_cons,
        List.append_assoc]
    · rw [if_neg hk, List.filter_cons, if_neg (by simpa using hk)]

/-- Each DLL, in lower case, comes out once, with the symbols of all its descriptors in their
order and no others. -/
theorem getImports_decodes {files : Files} {path : Str} {data : Bytes}
    (hdata : files path = some data) (hpe : Pe32 data)
    (h : HasImports Image.Maps (imageOf data) imports) :
    ∃ table, getImports files path = .ok table ∧ table.keys.Nodup ∧
      (∀ k, k ∈ table.keys ↔ ∃ d ∈ imports, lower d.dll = k) ∧
      ∀ k, table.items k = (imports.filter fun d => lower d.dll = k).flatMap fun d =>
        d.symbols.map Symbol.text := by
  refine ⟨_, importsAs_eq Symbol.text (load_pe32 hdata hpe) h, tableOf_nodup _ List.nodup_nil,
    fun k => ?_, fun k => ?_⟩
  · exact (mem_keys_tableOf _).trans (or_iff_right List.not_mem_nil)
  · exact (items_tableOf _).trans (List.nil_append _)

/-- The script reads the directory that the loader has, if the sections are apart. -/
theorem getImports_backed {files : Files} {path : Str} {data : Bytes}
    (hdata : files path = some data) (hpe : Pe32 data) (hapart : (imageOf data).Apart)
    (h : HasImports Image.Backed (imageOf data) imports) :
    getImports files path = .ok (tableOf Symbol.text imports []) :=
  importsAs_eq Symbol.text (load_pe32 hdata hpe) (h.maps hapart)

/-! Two descriptors of one DLL, the second of them with `FirstThunk` only. -/

def twice : Bytes :=
  [0x4d, 0x5a] ++ List.replicate 58 0 ++ toBytes 4 0x40 ++ [0x50, 0x45, 0, 0] ++
    pack [(2, 0x14c), (2, 1), (4, 0), (4, 0), (4, 0), (2, 224), (2, 0x102), (2, 0x10b)] ++
    List.replicate 102 0 ++ pack [(4, 0x1000), (4, 0x6e)] ++ List.replicate 112 0 ++
    [0x2e, 0x69, 0x64, 0x61, 0x74, 0x61, 0, 0] ++
    pack [(4, 0x6e), (4, 0x1000), (4, 0x6e), (4, 352)] ++ List.replicate 16 0 ++
    pack [(4, 0x1050), (4, 0), (4, 0), (4, 0x103c), (4, 0x1050)] ++
    pack [(4, 0), (4, 0), (4, 0), (4, 0x1044), (4, 0x1058)] ++ List.replicate 20 0 ++
    [0x48, 0x41, 0x4c, 0x2e, 0x64, 0x6c, 0x6c, 0, 0x68, 0x61, 0x6c, 0x2e, 0x44, 0x4c, 0x4c, 0] ++
    List.replicate 4 0 ++ pack [(4, 0x1060), (4, 0), (4, 0x80000005), (4, 0)] ++
    [0, 0, 0x4b, 0x66, 0x4c, 0x6f, 0x77, 0x65, 0x72, 0x49, 0x72, 0x71, 0x6c, 0]

def twiceImports : List Import :=
  [⟨"HAL.dll".toList, [.name "KfLowerIrql".toList]⟩, ⟨"hal.DLL".toList, [.ordinal 5]⟩]

theorem twice_pe32 : Pe32 twice where
  mz := by decide +kernel
  header := by decide +kernel
  pe := by decide +kernel
  magic := by decide +kernel
  directories := by decide +kernel
  sections := by decide +kernel

theorem twice_apart : (imageOf twice).Apart := by decide +kernel

theorem twice_imports : HasImports Image.Backed (imageOf twice) twiceImports := by
  have hfirst : ThunksAt Image.Backed (imageOf twice) 432 [.name "KfLowerIrql".toList] :=
    .thunk (by decide +kernel) rfl (by decide +kernel)
      ⟨by decide +kernel, 448, by decide +kernel,
        [0x4b, 0x66, 0x4c, 0x6f, 0x77, 0x65, 0x72, 0x49, 0x72, 0x71, 0x6c], by decide, by decide,
        by decide +kernel⟩
      (.stop (by decide +kernel) (by decide +kernel))
  have hsecond : ThunksAt Image.Backed (imageOf twice) 440 [.ordinal 5] :=
    .thunk (by decide +kernel) rfl (by decide +kernel) ⟨by decide +kernel, by decide +kernel⟩
      (.stop (by decide +kernel) (by decide +kernel))
  have hplaced : (imageOf twice).Backed ((imageOf twice).directory 1) 60 352 := by decide +kernel
  have hname : (imageOf twice).Backed 0x103c 8 412 := by decide +kernel
  have hname' : (imageOf twice).Backed 0x1044 8 420 := by decide +kernel
  refine .present (by decide +kernel) hplaced (.descriptor (by decide +kernel) rfl
    (by decide +kernel) hname ?_ (by decide +kernel) hfirst (.descriptor (by decide +kernel) rfl
      (by decide +kernel) hname' ?_ (by decide +kernel) hsecond
      (.stop (by decide +kernel) (by decide +kernel))))
  · exact ⟨[0x48, 0x41, 0x4c, 0x2e, 0x64, 0x6c, 0x6c], by decide, by decide, by decide +kernel⟩
  · exact ⟨[0x68, 0x61, 0x6c, 0x2e, 0x44, 0x4c, 0x4c], by decide, by decide, by decide +kernel⟩

theorem getImports_decodes_twice : ∃ table,
    getImports (fun _ => some twice) [] = .ok table ∧ table.keys.Nodup ∧
      (∀ k, k ∈ table.keys ↔ ∃ d ∈ twiceImports, lower d.dll = k) ∧
      ∀ k, table.items k = (twiceImports.filter fun d => lower d.dll = k).flatMap fun d =>
        d.symbols.map Symbol.text :=
  getImports_decodes rfl twice_pe32 (twice_imports.maps twice_apart)

end Nt351.CheckImports
