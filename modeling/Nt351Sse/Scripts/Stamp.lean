import Nt351Sse.Base.Script
import Nt351Sse.Base.EndAround

/-! `stamp351.py`: the checksum of a PE image. -/

namespace Nt351.Stamp
open Python EndAround

/-- Padded to an even length for the 16-bit walk. -/
def padded (data : Bytes) : Bytes := if data.length % 2 ≠ 0 then data ++ [0] else data

/-- One round of the walk, over the word at `2 * k`. -/
def addWord (data : Bytes) (checksumOffset : ℤ) (total k : ℕ) : ℕ :=
  let i : ℤ := 2 * k
  if i = checksumOffset ∨ i = checksumOffset + 2 then total
  else
    let total := total + littleEndian data (2 * k) 2
    (total &&& 0xffff) + (total >>> 16)

/-- The running total after `k` rounds. -/
def totalAfter (data : Bytes) (checksumOffset : ℤ) (k : ℕ) : ℕ :=
  (List.range k).foldl (addWord (padded data) checksumOffset) 0

def checksum (data : Bytes) (checksumOffset : ℤ) : ℕ :=
  let length := data.length
  let total := totalAfter data checksumOffset ((padded data).length / 2)
  let total := (total &&& 0xffff) + (total >>> 16)
  let total := total &&& 0xffff
  (total + length) &&& 0xffffffff

/-- `struct.pack_into`, with its refusal of values that do not fit. -/
def packInto (data : Bytes) (offset : ℕ) (fields : List (ℕ × ℤ)) : Except Error Bytes :=
  let unsigned := fields.map fun f => (f.1, f.2.toNat)
  if offset + packedSize unsigned ≤ data.length ∧ ∀ f ∈ fields, 0 ≤ f.2 ∧ f.2 < 256 ^ f.1 then
    .ok (splice data offset (pack unsigned))
  else .error .struct

/-- `%0nx` -/
def hex (n value : ℕ) : Str := (Nat.toDigits 16 value).leftpad n '0'

/-- `OS %d.%02d Image %d.%02d Subsystem %d.%02d` -/
def versions : List ℕ → Str
  | [osMajor, osMinor, imageMajor, imageMinor, subsystemMajor, subsystemMinor] =>
    let pair (major minor : ℕ) : Str := decimal major ++ '.' :: (decimal minor).leftpad 2 '0'
    "OS ".toList ++ pair osMajor osMinor ++ " Image ".toList ++ pair imageMajor imageMinor ++
      " Subsystem ".toList ++ pair subsystemMajor subsystemMinor
  | _ => []

def stamp (path : Str) (major minor : ℤ) : Script Unit := do
  let data ← Script.readFile path
  Script.raiseIf (data.take 2 ≠ [0x4d, 0x5a]) (.systemExit (path ++ ": not an MZ image".toList))
  let eLfanew ← unpackOne 4 data 0x3c
  Script.raiseIf ((data.drop eLfanew).take 4 ≠ [0x50, 0x45, 0, 0])
    (.systemExit (path ++ ": not a PE image".toList))
  let opt := eLfanew + 4 + 20
  let magic ← unpackOne 2 data opt
  Script.raiseIf (magic ≠ 0x10b)
    (.systemExit (path ++ ": not PE32 (magic ".toList ++ hex 4 magic ++ ")".toList))
  let before ← unpackFrom 2 6 data (opt + 40)
  Script.print (path ++ ": was ".toList ++ versions (List.ofFn before))
  let data ← packInto data (opt + 40)
    [(2, major), (2, minor), (2, major), (2, minor), (2, major), (2, minor)]
  let checksumOffset := opt + 64
  let data ← packInto data checksumOffset [(4, 0)]
  let newChecksum := checksum data checksumOffset
  let data ← packInto data checksumOffset [(4, newChecksum)]
  let after ← unpackFrom 2 6 data (opt + 40)
  Script.print (path ++ ": now ".toList ++ versions (List.ofFn after) ++ ", checksum ".toList ++
    hex 8 newChecksum)
  Script.writeFile path data

/-! ## The sum -/

/-- The words before `2 * k` that the walk does not skip; a byte past the end counts as 0. -/
def words (data : Bytes) (checksumOffset : ℤ) (k : ℕ) : List ℕ :=
  ((List.range k).filter fun i : ℕ =>
    (2 * i : ℤ) ≠ checksumOffset ∧ (2 * i : ℤ) ≠ checksumOffset + 2).map fun i =>
      littleEndian data (2 * i) 2

def wordCount (data : Bytes) : ℕ := (data.length + 1) / 2

variable {data data' : Bytes} {off : ℤ} {k i : ℕ}

theorem padded_length (data : Bytes) : (padded data).length / 2 = wordCount data := by
  rw [padded, wordCount]
  split
  · rw [List.length_append, List.length_singleton]
  · omega

theorem padded_getD (data : Bytes) (i : ℕ) : (padded data).getD i 0 = data.getD i 0 := by
  rw [padded]
  split
  · rcases Nat.lt_or_ge i data.length with hi | hi
    · exact List.getD_append _ _ _ _ hi
    · rw [List.getD_append_right _ _ _ _ hi, List.getD_eq_default _ _ hi]
      cases i - data.length <;> rfl
  · rfl

theorem foldCarry_eq (t : ℕ) : (t &&& 0xffff) + t >>> 16 = fold 65535 t := by
  rw [Nat.and_two_pow_sub_one_eq_mod t 16, Nat.shiftRight_eq_div_pow, fold]

theorem words_le : ∀ w ∈ words data off k, w ≤ 65535 := by
  intro w hw
  obtain ⟨i, -, rfl⟩ := List.mem_map.mp hw
  exact Nat.le_of_lt_succ (littleEndian_lt data (2 * i) 2)

theorem words_succ (data : Bytes) (off : ℤ) (k : ℕ) : words data off (k + 1) = words data off k ++
    if (2 * k : ℤ) = off ∨ (2 * k : ℤ) = off + 2 then [] else [littleEndian data (2 * k) 2] := by
  rw [words, List.range_succ, List.filter_append, List.map_append, ← words]
  congr 1
  split
  · next hskip =>
    have hnot : ¬((2 * k : ℤ) ≠ off ∧ (2 * k : ℤ) ≠ off + 2) := fun hne => hskip.elim hne.1 hne.2
    rw [List.filter_singleton, decide_eq_false hnot]
    rfl
  · next htake =>
    rw [List.filter_singleton, decide_eq_true (not_or.mp htake)]
    rfl

theorem totalAfter_eq (data : Bytes) (off : ℤ) (k : ℕ) :
    totalAfter data off k = total 65535 (words data off k) := by
  induction k with
  | zero => rfl
  | succ k ih =>
    have hword : littleEndian (padded data) (2 * k) 2 = littleEndian data (2 * k) 2 :=
      littleEndian_congr fun i _ => padded_getD data _
    have hstep : totalAfter data off (k + 1) =
        addWord (padded data) off (totalAfter data off k) k := by
      rw [totalAfter, List.range_succ, List.foldl_concat, ← totalAfter]
    rw [hstep, ih, addWord, hword, foldCarry_eq, words_succ]
    split
    · rw [List.append_nil]
    · rw [total_append_singleton]

/-- The closing folds change nothing. -/
theorem checksum_eq (data : Bytes) (off : ℤ) : checksum data off =
    (total 65535 (words data off (wordCount data)) + data.length) % 2 ^ 32 := by
  have hwords : ∀ w ∈ words data off (wordCount data), w ≤ 65535 := words_le
  have hle := (total_represents hwords).le
  simp only [checksum, padded_length, totalAfter_eq, foldCarry_eq, fold_of_le hle]
  rw [Nat.and_two_pow_sub_one_eq_mod _ 16, Nat.and_two_pow_sub_one_eq_mod _ 32,
    Nat.mod_eq_of_lt (Nat.lt_succ_of_le hle)]

theorem words_congr (hsame : ∀ i : ℕ, (i : ℤ) < off ∨ off + 4 ≤ i →
    data'.getD i 0 = data.getD i 0) (heven : Even off) : words data' off k = words data off k := by
  refine List.map_congr_left fun i hi => littleEndian_congr fun j hj => hsame _ ?_
  obtain ⟨hfirst, hsecond⟩ := of_decide_eq_true (List.mem_filter.mp hi).2
  obtain ⟨m, rfl⟩ := heven
  omega

/-- The checksum is the one's-complement sum of the words beside the checksum field, plus the
length. -/
theorem checksum_sum (data : Bytes) (off : ℤ) (heven : Even off) :
    (∃! r, Represents 65535 (words data off (wordCount data)).sum r) ∧
    (∀ r, Represents 65535 (words data off (wordCount data)).sum r →
      checksum data off = (r + data.length) % 2 ^ 32) ∧
    (∀ k, totalAfter data off k < 2 ^ 16) ∧
    checksum data off = (totalAfter data off (wordCount data) + data.length) % 2 ^ 32 ∧
    (∀ data' : Bytes, data'.length = data.length →
      (words data' off (wordCount data')).Perm (words data off (wordCount data)) →
        checksum data' off = checksum data off) ∧
    ∀ data' : Bytes, data'.length = data.length →
      (∀ i : ℕ, (i : ℤ) < off ∨ off + 4 ≤ i → data'.getD i 0 = data.getD i 0) →
        checksum data' off = checksum data off := by
  have hrep : ∀ k, Represents 65535 (words data off k).sum (totalAfter data off k) := fun k =>
    totalAfter_eq data off k ▸ total_represents words_le
  refine ⟨⟨_, hrep _, fun r hr => hr.unique (hrep _)⟩, fun r hr => ?_,
    fun k => Nat.lt_succ_of_le (hrep k).le, ?_, fun data' hlen hperm => ?_,
    fun data' hlen hsame => ?_⟩
  · rw [checksum_eq, hr.unique (total_represents words_le)]
  · rw [checksum_eq, totalAfter_eq]
  · rw [checksum_eq, checksum_eq, total_perm words_le hperm, hlen]
  · rw [checksum_eq, checksum_eq, wordCount, hlen, words_congr hsame heven, wordCount]

/-- Two words before the checksum field, the first of them all ones, and a byte behind it. -/
def nineBytes : Bytes := [0xff, 0xff, 0x02, 0x00, 0xaa, 0xbb, 0xcc, 0xdd, 0x05]

theorem checksum_sum_nineBytes : checksum nineBytes 4 = 7 + 9 := by
  have hsum : (words nineBytes 4 (wordCount nineBytes)).sum = 0x10006 := by decide
  exact (checksum_sum nineBytes 4 (by decide)).2.1 7
    ⟨fun hzero => absurd (hsum.symm.trans hzero) (by decide),
      fun _ => ⟨by decide, by decide, by rw [hsum]; decide⟩⟩

end Nt351.Stamp
