import Nt351Sse.Base.Python

/-! `checkimports.py`: the export names and the import table of a PE32 image, and the
report on whether a driver can load. A loop that reads on until a zero entry gets as many
rounds as the file has bytes and one more; it reads past the end before they are used up. -/

namespace Nt351.CheckImports
open Python

structure Section where
  vaddr : ℕ
  vsize : ℕ
  raddr : ℕ
  rsize : ℕ

structure Image where
  data : Bytes
  directories : List (Fin 2 → ℕ)
  sections : List Section

/-- An imported symbol; `text` is how the script writes it. -/
inductive Symbol
  | name (s : Str)
  | ordinal (n : ℕ)
deriving DecidableEq

def Symbol.text : Symbol → Str
  | name s => s
  | ordinal n => '#' :: decimal n

abbrev Files := Str → Option Bytes

def load (files : Files) (path : Str) : Except Error Image := do
  let data ← match files path with
    | none => throw .os
    | some data => pure data
  if data.take 2 ≠ [0x4d, 0x5a] then throw (.systemExit (path ++ ": not an MZ image".toList))
  let eLfanew ← unpackFrom 4 1 data 0x3c
  if (data.drop (eLfanew 0)).take 4 ≠ [0x50, 0x45, 0, 0] then
    throw (.systemExit (path ++ ": not a PE image".toList))
  let fileHeader := eLfanew 0 + 4
  let numSections ← unpackFrom 2 1 data (fileHeader + 2)
  let optSize ← unpackFrom 2 1 data (fileHeader + 16)
  let opt := fileHeader + 20
  let dirBase := opt + 96
  let directories ← (List.range 16).mapM fun i => unpackFrom 4 2 data (dirBase + i * 8)
  let secBase := opt + optSize 0
  let sections ← (List.range (numSections 0)).mapM fun i => do
    let entry := secBase + i * 40
    let _ ← unpackFrom 1 8 data entry
    let fields ← unpackFrom 4 4 data (entry + 8)
    pure { vsize := fields 0, vaddr := fields 1, rsize := fields 2, raddr := fields 3 : Section }
  pure ⟨data, directories, sections⟩

namespace Image

/-- The RVA of data directory `i`. -/
def directory (im : Image) (i : ℕ) : ℕ := (im.directories.getD i 0) 0

def rvaToOffset (im : Image) (rva : ℕ) : Option ℕ :=
  (im.sections.find? fun s => s.vaddr ≤ rva ∧ rva < s.vaddr + max s.vsize s.rsize).map fun s =>
    s.raddr + (rva - s.vaddr)

end Image

/-- An offset of `None` is no error to `data.index` and means the start of the file. -/
def cstring (data : Bytes) (offset : Option ℕ) : Except Error Str :=
  let rest := data.drop (offset.getD 0)
  if 0 ∈ rest then .ok (latin1 (rest.takeWhile (· ≠ 0))) else .error .value

def getExports (files : Files) (path : Str) : Except Error (Finset Str) := do
  let im ← load files path
  let rva := im.directory 0
  if rva = 0 then pure ∅
  else
    let offset := im.rvaToOffset rva
    let fields ← unpackFrom 4 6 im.data (← plus offset 16)
    let nameTable := im.rvaToOffset (fields 4)
    let names ← (List.range (fields 2)).mapM fun i => do
      let entryRva ← unpackFrom 4 1 im.data (← plus nameTable (i * 4))
      cstring im.data (im.rvaToOffset (entryRva 0))
    pure names.toFinset

section Imports

variable {α : Type} (text : Symbol → α) (im : Image)

def readSymbol (value : ℕ) : Except Error Symbol :=
  if value &&& 0x80000000 ≠ 0 then pure (.ordinal (value &&& 0xffff))
  else do
    -- a 2-byte hint, then the name
    let offset ← plus (im.rvaToOffset value) 2
    let s ← cstring im.data (some offset)
    pure (.name s)

/-- The thunks from index `j` on. -/
def readThunks (thunkOffset : Option ℕ) : ℕ → ℕ → Except Error (List α)
  | 0, _ => throw .struct
  | fuel + 1, j => do
    let value ← unpackFrom 4 1 im.data (← plus thunkOffset (j * 4))
    if value 0 = 0 then pure []
    else
      let symbol ← readSymbol im (value 0)
      let symbols ← readThunks thunkOffset fuel (j + 1)
      pure (text symbol :: symbols)

/-- The descriptors from `index` on, added to `result`. -/
def readDescriptors (offset : Option ℕ) : ℕ → ℕ → Dict Str (List α) →
    Except Error (Dict Str (List α))
  | 0, _, _ => throw .struct
  | fuel + 1, index, result => do
    let fields ← unpackFrom 4 5 im.data (← plus offset (index * 20))
    if fields 0 = 0 ∧ fields 3 = 0 ∧ fields 4 = 0 then pure result
    else
      let dll ← cstring im.data (im.rvaToOffset (fields 3))
      let thunkRva := if fields 0 ≠ 0 then fields 0 else fields 4
      let symbols ← readThunks text im (im.rvaToOffset thunkRva) (im.data.length + 1) 0
      readDescriptors offset fuel (index + 1) (result.extend (lower dll) symbols)

/-! The rounds are enough: with more of them the loops return the same. -/

theorem unpackFrom_past {w n : ℕ} {data : Bytes} {offset : ℕ} (h : data.length < offset + w * n) :
    unpackFrom w n data offset = .error .struct := if_neg (not_le.mpr h)

theorem readThunks_enough (o : ℕ) {fuel j : ℕ} (h : im.data.length < fuel + j) :
    readThunks text im (some o) (fuel + 1) j = readThunks text im (some o) fuel j := by
  induction fuel generalizing j with
  | zero =>
    have hpast : unpackFrom 4 1 im.data (o + j * 4) = .error .struct := unpackFrom_past (by omega)
    show (unpackFrom 4 1 im.data (o + j * 4) >>= _) = _
    rw [hpast]
    rfl
  | succ fuel ih =>
    rw [readThunks.eq_2, ih (by omega), readThunks.eq_2]

theorem readDescriptors_enough (o : ℕ) {fuel index : ℕ} {result : Dict Str (List α)}
    (h : im.data.length < fuel + index) :
    readDescriptors text im (some o) (fuel + 1) index result =
      readDescriptors text im (some o) fuel index result := by
  induction fuel generalizing index result with
  | zero =>
    have hpast : unpackFrom 4 5 im.data (o + index * 20) = .error .struct :=
      unpackFrom_past (by omega)
    show (unpackFrom 4 5 im.data (o + index * 20) >>= _) = _
    rw [hpast]
    rfl
  | succ fuel ih =>
    conv_rhs => rw [readDescriptors.eq_2]
    rw [readDescriptors.eq_2]
    refine bind_congr fun start => bind_congr fun fields =>
      if_congr Iff.rfl rfl (bind_congr fun dll => bind_congr fun symbols => ?_)
    exact ih (by omega)

/-- The import table, each symbol read as `text` of it. -/
def importsAs (files : Files) (path : Str) : Except Error (Dict Str (List α)) := do
  let im ← load files path
  let rva := im.directory 1
  if rva = 0 then pure []
  else readDescriptors text im (im.rvaToOffset rva) (im.data.length + 1) 0 []

end Imports

def getImports (files : Files) (path : Str) : Except Error (Dict Str (List Str)) :=
  importsAs Symbol.text files path

structure Output where
  lines : List Str
  status : ℕ
deriving DecidableEq

def usage : Str := "usage: checkimports.py <driver.sys> <ntoskrnl.exe> [hal.dll ...]".toList

/-- The loop over the reference images: `available`, and what it prints. -/
def readReferences (files : Files) : List Str → Dict Str (Finset Str) → List Str →
    Except Error (Dict Str (Finset Str) × List Str)
  | [], available, lines => pure (available, lines)
  | ref :: refs, available, lines => do
    let names ← getExports files ref
    readReferences files refs (available.set ref names)
      (lines ++ [ref ++ ": ".toList ++ decimal names.card ++ " exports".toList])

def combined (available : Dict Str (Finset Str)) : Finset Str :=
  available.foldl (fun names kv => names ∪ kv.2) ∅

/-- One DLL of the report: what is printed so far and `missing_total`. -/
def reportDll (imports : Dict Str (List Str)) (names : Finset Str) (report : List Str × ℕ)
    (dll : Str) : List Str × ℕ :=
  let symbols := sorted (imports.items dll).dedup
  let missing := symbols.filter (· ∉ names)
  let status := if missing = [] then "OK".toList else "MISSING ".toList ++ decimal missing.length
  let head := dll ++ ": ".toList ++ decimal symbols.length ++ " imports  [".toList ++ status ++
    "]".toList
  let rows := symbols.map fun symbol =>
    "   ".toList ++ (if symbol ∈ names then " ".toList else "!".toList) ++ " ".toList ++ symbol
  (report.1 ++ head :: rows, report.2 + missing.length)

def resolves : Str := "RESULT: all imports resolve. Driver can load.".toList

def unavailable (missingTotal : ℕ) : Str := "RESULT: ".toList ++ decimal missingTotal ++
  " symbol(s) unavailable - this driver will NOT load (STATUS_PROCEDURE_NOT_FOUND).".toList

/-- The report on all DLLs and the last line. -/
def verdict (imports : Dict Str (List Str)) (names : Finset Str) (lines : List Str) : Output :=
  let report := (sorted imports.keys).foldl (reportDll imports names) (lines ++ [[]], 0)
  if report.2 ≠ 0 then ⟨report.1 ++ [[], unavailable report.2], 1⟩
  else ⟨report.1 ++ [[], resolves], 0⟩

def main (files : Files) (argv : List Str) : Except Error Output :=
  match argv with
  | _ :: driver :: ref :: refs => do
    let imports ← getImports files driver
    let (available, lines) ← readReferences files (ref :: refs) [] []
    pure (verdict imports (combined available) lines)
  | _ => throw (.systemExit usage)

end Nt351.CheckImports
