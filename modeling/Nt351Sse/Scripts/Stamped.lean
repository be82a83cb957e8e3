import Nt351Sse.Scripts.Stamp

/-! What `stamp` writes: which files it accepts, which bytes it changes, and whether the
checksum it stores is the one its own walk finds afterwards. -/

namespace Nt351.Stamp
open Python Script EndAround

/-- Where the optional header starts. -/
def optionalHeader (data : Bytes) : ℕ := littleEndian data 0x3c 4 + 4 + 20

structure Accepted (data : Bytes) : Prop where
  mz : data.take 2 = [0x4d, 0x5a]
  header : 0x40 ≤ data.length
  pe : (data.drop (littleEndian data 0x3c 4)).take 4 = [0x50, 0x45, 0, 0]
  magic : littleEndian data (optionalHeader data) 2 = 0x10b
  whole : optionalHeader data + 68 ≤ data.length

def Fits (n : ℤ) : Prop := 0 ≤ n ∧ n < 2 ^ 16

instance (n : ℤ) : Decidable (Fits n) := inferInstanceAs (Decidable (_ ∧ _))

variable {data : Bytes} {major minor : ℤ} {path : Str} {w : World}

def versionFields (major minor : ℕ) : List (ℕ × ℕ) :=
  [(2, major), (2, minor), (2, major), (2, minor), (2, major), (2, minor)]

def withVersions (data : Bytes) (major minor : ℕ) : Bytes :=
  splice data (optionalHeader data + 40) (pack (versionFields major minor))

/-- The file with its new versions, and `n` for its checksum. -/
def withChecksum (data : Bytes) (major minor n : ℕ) : Bytes :=
  splice (withVersions data major minor) (optionalHeader data + 64) (pack [(4, n)])

/-- The checksum that is stored. -/
def newChecksum (data : Bytes) (major minor : ℕ) : ℕ :=
  checksum (withChecksum data major minor 0) (optionalHeader data + 64 : ℕ)

def stamped (data : Bytes) (major minor : ℕ) : Bytes :=
  withChecksum data major minor (newChecksum data major minor)

theorem newChecksum_lt (data : Bytes) (major minor : ℕ) :
    newChecksum data major minor < 2 ^ 32 := by
  rw [newChecksum, checksum_eq]
  exact Nat.mod_lt _ (by decide)

section Written

variable (h : optionalHeader data + 68 ≤ data.length) (M m n : ℕ)
include h

theorem versions_fit :
    optionalHeader data + 40 + (pack (versionFields M m)).length ≤ data.length := by
  show optionalHeader data + 40 + 12 ≤ data.length
  omega

theorem withVersions_length : (withVersions data M m).length = data.length :=
  splice_length (versions_fit h M m)

theorem checksum_fits : optionalHeader data + 64 + (pack [(4, n)]).length ≤
    (withVersions data M m).length := by
  rw [withVersions_length h]
  exact h

theorem withChecksum_length : (withChecksum data M m n).length = data.length :=
  (splice_length (checksum_fits h M m n)).trans (withVersions_length h M m)

theorem withChecksum_again (n' : ℕ) : splice (withChecksum data M m n)
    (optionalHeader data + 64) (pack [(4, n')]) = withChecksum data M m n' :=
  splice_splice (checksum_fits h M m n) rfl

/-- Nothing but the version fields and the checksum changes. -/
theorem withChecksum_getD {i : ℕ} (hversions : i < optionalHeader data + 40 ∨
    optionalHeader data + 52 ≤ i) (hchecksum : i < optionalHeader data + 64 ∨
    optionalHeader data + 68 ≤ i) : (withChecksum data M m n).getD i 0 = data.getD i 0 := by
  rw [withChecksum, splice_getD_outside (checksum_fits h M m n) hchecksum, withVersions,
    splice_getD_outside (versions_fit h M m) hversions]

theorem withChecksum_beside (i : ℕ) (hi : (i : ℤ) < (optionalHeader data + 64 : ℕ) ∨
    ((optionalHeader data + 64 : ℕ) : ℤ) + 4 ≤ i) :
    (withChecksum data M m n).getD i 0 = (withChecksum data M m 0).getD i 0 := by
  have hfits : optionalHeader data + 64 + (pack [(4, n)]).length ≤
      (withChecksum data M m 0).length := (withChecksum_length h M m 0).symm ▸ h
  have hwidth : (pack [(4, n)]).length = 4 := rfl
  rw [← withChecksum_again h M m 0 n, splice_getD_outside hfits (by omega)]

theorem withChecksum_window {k l : ℕ} (hk : k + l ≤ optionalHeader data + 40) :
    ((withChecksum data M m n).drop k).take l = (data.drop k).take l := by
  have hlen := withVersions_length h M m
  rw [withChecksum, splice_window_before (by omega) (by omega), withVersions,
    splice_window_before (by omega) hk]

theorem withChecksum_littleEndian {k l : ℕ} (hk : k + l ≤ optionalHeader data + 40) :
    littleEndian (withChecksum data M m n) k l = littleEndian data k l :=
  littleEndian_congr fun i hi =>
    withChecksum_getD h M m n (.inl (by omega)) (.inl (by omega))

theorem withChecksum_optionalHeader :
    optionalHeader (withChecksum data M m n) = optionalHeader data := by
  have hlfanew : littleEndian (withChecksum data M m n) 0x3c 4 = littleEndian data 0x3c 4 :=
    withChecksum_littleEndian h M m n (by rw [optionalHeader]; omega)
  rw [optionalHeader, hlfanew, optionalHeader]

/-- What was written before is written over. -/
theorem withChecksum_twice (M' m' n' : ℕ) :
    withChecksum (withChecksum data M m n) M' m' n' = withChecksum data M' m' n' := by
  have hwidth : (pack (versionFields M' m')).length = (pack (versionFields M m)).length := rfl
  have hversions : withVersions (withChecksum data M m n) M' m' = withChecksum data M' m' n := by
    have hapart : optionalHeader data + 40 + (pack (versionFields M' m')).length ≤
        optionalHeader data + 64 := show optionalHeader data + 40 + 12 ≤ _ by omega
    rw [withVersions, withChecksum_optionalHeader h, withChecksum,
      ← splice_comm (checksum_fits h M m n) hapart, withVersions,
      splice_splice (versions_fit h M m) hwidth]
    rfl
  rw [withChecksum, hversions, withChecksum_optionalHeader h, withChecksum_again h]

theorem stamped_twice (M' m' : ℕ) : stamped (stamped data M m) M' m' = stamped data M' m' := by
  have hsame : newChecksum (stamped data M m) M' m' = newChecksum data M' m' := by
    rw [newChecksum, stamped, withChecksum_twice h, withChecksum_optionalHeader h, ← newChecksum]
  rw [stamped, hsame]
  exact withChecksum_twice h M m _ _ _ _

end Written

theorem Accepted.withChecksum (h : Accepted data) (M m n : ℕ) :
    Accepted (withChecksum data M m n) := by
  have hopt : optionalHeader data = littleEndian data 0x3c 4 + 4 + 20 := rfl
  have hheader := withChecksum_optionalHeader h.whole M m n
  have hlfanew : littleEndian (Stamp.withChecksum data M m n) 0x3c 4 = littleEndian data 0x3c 4 :=
    withChecksum_littleEndian h.whole M m n (by omega)
  have hlen := withChecksum_length h.whole M m n
  refine ⟨?_, hlen ▸ h.header, ?_, ?_, ?_⟩
  · exact (withChecksum_window (k := 0) h.whole M m n (by omega)).trans h.mz
  · rw [hlfanew, withChecksum_window h.whole M m n (by omega)]
    exact h.pe
  · rw [hheader, withChecksum_littleEndian h.whole M m n (by omega)]
    exact h.magic
  · rw [hheader, hlen]
    exact h.whole

theorem of_packInto {offset : ℕ} {bytes bytes' : Bytes} {fields : List (ℕ × ℤ)}
    (h : packInto bytes offset fields = .ok bytes') :
    offset + packedSize (fields.map fun f => (f.1, f.2.toNat)) ≤ bytes.length ∧
      (∀ f ∈ fields, 0 ≤ f.2 ∧ f.2 < 256 ^ f.1) ∧ bytes'.length = bytes.length := by
  rw [packInto] at h
  split at h
  · next hfits =>
    rw [← Except.ok.inj h]
    exact ⟨hfits.1, hfits.2, splice_length (by rw [pack_length]; exact hfits.1)⟩
  · exact nomatch h

/-! ## The run -/

theorem packInto_versions (h : optionalHeader data + 68 ≤ data.length) (hmajor : Fits major)
    (hminor : Fits minor) : packInto data (optionalHeader data + 40)
      [(2, major), (2, minor), (2, major), (2, minor), (2, major), (2, minor)] =
      .ok (withVersions data major.toNat minor.toNat) := by
  refine if_pos ⟨versions_fit h major.toNat minor.toNat, ?_⟩
  simpa using ⟨hmajor, hminor, hmajor, hminor, hmajor, hminor⟩

theorem packInto_checksum {offset n : ℕ} {bytes : Bytes} (h : offset + 4 ≤ bytes.length)
    (hn : n < 2 ^ 32) :
    packInto bytes offset [(4, (n : ℤ))] = .ok (splice bytes offset (pack [(4, n)])) := by
  refine if_pos ⟨h, ?_⟩
  intro f hf
  rw [List.mem_singleton.mp hf]
  exact ⟨by omega, by push_cast; omega⟩

/-- An accepted file is written with its new versions and checksum. -/
theorem exec_stamp (hdata : w.files path = some data) (h : Accepted data) (hmajor : Fits major)
    (hminor : Fits minor) : ((stamp path major minor).exec w).1 = .ok () ∧
      ((stamp path major minor).exec w).2.files =
        Function.update w.files path (some (stamped data major.toNat minor.toNat)) := by
  have hopt := h.whole
  have hversions := withVersions_length hopt major.toNat minor.toNat
  have hlen := withChecksum_length hopt major.toNat minor.toNat
  have hstamped : (stamped data major.toNat minor.toNat).length = data.length := hlen _
  have hzero : packInto (withVersions data major.toNat minor.toNat) (optionalHeader data + 64)
      [(4, 0)] = .ok (withChecksum data major.toNat minor.toNat 0) :=
    packInto_checksum (by omega) (by decide)
  have hstore : packInto (withChecksum data major.toNat minor.toNat 0) (optionalHeader data + 64)
      [(4, newChecksum data major.toNat minor.toNat)] =
      .ok (stamped data major.toNat minor.toNat) := by
    rw [packInto_checksum (by rw [hlen]; omega) (newChecksum_lt ..), withChecksum_again hopt]
    rfl
  rw [stamp, exec_bind_ok (exec_readFile hdata), exec_bind_ok (exec_raiseIf (not_not.mpr h.mz)),
    exec_lift_bind (unpackOne_ok h.header), exec_bind_ok (exec_raiseIf (not_not.mpr h.pe))]
  dsimp only
  rw [← optionalHeader, exec_lift_bind (unpackOne_ok (by omega)),
    exec_bind_ok (exec_raiseIf (not_not.mpr h.magic)), exec_lift_bind (unpackFrom_ok (by omega)),
    exec_bind_ok (exec_print _), exec_lift_bind (packInto_versions hopt hmajor hminor),
    exec_lift_bind hzero, ← newChecksum, exec_lift_bind hstore,
    exec_lift_bind (unpackFrom_ok (by omega)), exec_bind_ok (exec_print _), exec_writeFile]
  exact ⟨rfl, rfl⟩

/-- A script that returns was given an accepted file and two numbers that fit, and where it
raises it has not written yet. -/
theorem stamp_contract (path : Str) (major minor : ℤ) (w : World) :
    Contract (stamp path major minor) w w.files fun _ _ =>
      ∃ data, w.files path = some data ∧ Accepted data ∧ Fits major ∧ Fits minor := by
  refine .readFile rfl fun data hdata => .raiseIf rfl fun hmz => .lift rfl fun eLfanew he =>
    .raiseIf rfl fun hpe => .lift rfl fun magic hmagic => .raiseIf rfl fun h10b =>
    .lift rfl fun before hbefore => .print (.lift rfl fun data₁ h₁ => .lift rfl fun data₂ h₂ =>
    .lift rfl fun data₃ h₃ => .lift rfl fun after hafter => .print ?_)
  obtain ⟨hheader, hlfanew⟩ := of_unpackOne he
  have hopt : eLfanew + 4 + 20 = optionalHeader data := congrArg (· + 4 + 20) hlfanew
  have hmagic0 : magic = littleEndian data (optionalHeader data) 2 :=
    hopt ▸ (of_unpackOne hmagic).2
  obtain ⟨-, hfits, hlen₁⟩ := of_packInto h₁
  have hchecksum : eLfanew + 4 + 20 + 64 + 4 ≤ data₁.length := (of_packInto h₂).1
  refine ⟨data, hdata, ⟨not_not.mp hmz, hheader, hlfanew ▸ not_not.mp hpe,
    hmagic0 ▸ not_not.mp h10b, ?_⟩, hfits (2, major) ?_, hfits (2, minor) ?_⟩
  · omega
  · exact List.mem_cons_self
  · exact List.mem_cons_of_mem _ List.mem_cons_self

/-! ## What the file is afterwards -/

theorem withChecksum_versions (h : optionalHeader data + 68 ≤ data.length) {M m n : ℕ}
    (hM : M < 2 ^ 16) (hm : m < 2 ^ 16) :
    ReadsAs (withChecksum data M m n) (optionalHeader data + 40) (versionFields M m) := by
  have hfit : ∀ f ∈ versionFields M m, f.2 < 256 ^ f.1 := by
    simpa [versionFields] using ⟨hM, hm, hM, hm, hM, hm⟩
  have hlen := withChecksum_length h M m n
  refine (take_eq_pack_iff hfit rfl (n := 12) (by omega)).mp ?_
  have hversions := withVersions_length h M m
  rw [withChecksum, splice_window_before (by omega) (by omega)]
  exact splice_window (versions_fit h M m)

theorem withChecksum_eq (data : Bytes) (M m n : ℕ) : withChecksum data M m n =
    splice (withVersions data M m) (optionalHeader data + 64) (toBytes 4 n) :=
  congrArg (splice _ _) (List.append_nil _)

theorem withChecksum_checksum (h : optionalHeader data + 68 ≤ data.length) {M m n : ℕ}
    (hn : n < 2 ^ 32) :
    littleEndian (withChecksum data M m n) (optionalHeader data + 64) 4 = n := by
  have hfits : optionalHeader data + 64 + 4 ≤ (withVersions data M m).length :=
    checksum_fits h M m n
  rw [withChecksum_eq, littleEndian_splice hfits]
  exact Nat.mod_eq_of_lt hn

/-- `data'` is `data` but for the 12 bytes of the versions and the 4 of the checksum, and the
versions are the ones given. -/
structure Edited (data data' : Bytes) (major minor : ℤ) : Prop where
  length : data'.length = data.length
  elsewhere : ∀ i, (i < optionalHeader data + 40 ∨ optionalHeader data + 52 ≤ i) →
    (i < optionalHeader data + 64 ∨ optionalHeader data + 68 ≤ i) →
      data'.getD i 0 = data.getD i 0
  versions : ∀ j < 3, (littleEndian data' (optionalHeader data + 40 + 4 * j) 2 : ℤ) = major ∧
    (littleEndian data' (optionalHeader data + 40 + 4 * j + 2) 2 : ℤ) = minor

theorem stamped_edited (h : Accepted data) (hmajor : Fits major) (hminor : Fits minor) :
    Edited data (stamped data major.toNat minor.toNat) major minor := by
  refine ⟨withChecksum_length h.whole _ _ _, fun i => withChecksum_getD h.whole _ _ _,
    fun j hj => ?_⟩
  obtain ⟨hlo, hhi⟩ := hmajor
  obtain ⟨hlo', hhi'⟩ := hminor
  obtain ⟨h0, h1, h2, h3, h4, h5, -⟩ := withChecksum_versions h.whole
    (n := newChecksum data major.toNat minor.toNat) (show major.toNat < 2 ^ 16 by omega)
    (show minor.toNat < 2 ^ 16 by omega)
  have hread : littleEndian (stamped data major.toNat minor.toNat)
        (optionalHeader data + 40 + 4 * j) 2 = major.toNat ∧
      littleEndian (stamped data major.toNat minor.toNat)
        (optionalHeader data + 40 + 4 * j + 2) 2 = minor.toNat := by
    interval_cases j
    · exact ⟨h0, h1⟩
    · exact ⟨h2, h3⟩
    · exact ⟨h4, h5⟩
  exact ⟨by omega, by omega⟩

/-- Either nothing is written, or what is written is the edited file, which is accepted again
and not changed by the same numbers; a short file and numbers that do not fit are refused. -/
theorem stamp_edits (path : Str) (major minor : ℤ) (w : World) :
    ((∃ e, ((stamp path major minor).exec w).1 = .error e) ∧
        ((stamp path major minor).exec w).2.files = w.files ∨
      ∃ data data', w.files path = some data ∧ ((stamp path major minor).exec w).1 = .ok () ∧
        ((stamp path major minor).exec w).2.files = Function.update w.files path (some data') ∧
        Edited data data' major minor ∧
        ∀ w' : World, w'.files path = some data' →
          ((stamp path major minor).exec w').1 = .ok () ∧
            ((stamp path major minor).exec w').2.files = w'.files) ∧
    ∀ data, w.files path = some data → data.length < 0x40 ∨
        data.length < optionalHeader data + 68 ∨ ¬Fits major ∨ ¬Fits minor →
      ∃ e, ((stamp path major minor).exec w).1 = .error e := by
  have hcontract := stamp_contract path major minor w
  rw [Contract] at hcontract
  split at hcontract
  · next u w' hrun =>
    obtain ⟨data, hdata, h, hmajor, hminor⟩ := hcontract
    refine ⟨.inr ⟨data, stamped data major.toNat minor.toNat, hdata,
      (exec_stamp hdata h hmajor hminor).1, (exec_stamp hdata h hmajor hminor).2,
      stamped_edited h hmajor hminor, fun w' hw' => ?_⟩, fun data' hdata' hbad => ?_⟩
    · obtain ⟨hok, hfiles⟩ := exec_stamp hw' (h.withChecksum _ _ _) hmajor hminor
      refine ⟨hok, hfiles.trans ?_⟩
      rw [stamped_twice h.whole, Function.update_eq_self_iff]
      exact hw'.symm
    · obtain rfl : data = data' := Option.some.inj (hdata.symm.trans hdata')
      have hheader := h.header
      have hwhole := h.whole
      rcases hbad with hshort | hshort | hbad | hbad
      · omega
      · omega
      · exact absurd hmajor hbad
      · exact absurd hminor hbad
  · next e w' hrun =>
    have herror : ((stamp path major minor).exec w).1 = .error e := by rw [hrun]
    have hkept : ((stamp path major minor).exec w).2.files = w.files := by
      rw [hrun]
      exact hcontract
    exact ⟨.inl ⟨⟨e, herror⟩, hkept⟩, fun _ _ _ => ⟨e, herror⟩⟩

/-! ## Does the stored checksum verify? -/

/-- A word counts the same wherever it lies. -/
theorem word_weight (k : ℕ) : 256 ^ (2 * k) ≡ 1 [MOD 65535] := by
  rw [pow_mul]
  exact (Nat.ModEq.pow k (show 256 ^ 2 ≡ 1 [MOD 65535] by decide)).trans (by rw [one_pow])

/-- Where no word is skipped, the words sum up to the file as one number, modulo 65535. -/
theorem words_sum_modEq {off : ℤ} (hodd : Odd off) (k : ℕ) :
    (words data off k).sum ≡ littleEndian data 0 (2 * k) [MOD 65535] := by
  induction k with
  | zero => rfl
  | succ k ih =>
    have hkept : ¬((2 * k : ℤ) = off ∨ (2 * k : ℤ) = off + 2) := by
      obtain ⟨m, rfl⟩ := hodd
      omega
    rw [words_succ, if_neg hkept, List.sum_append, List.sum_singleton, Nat.mul_succ,
      littleEndian_add, Nat.zero_add]
    refine ih.add ?_
    have hword := (word_weight k).symm.mul_right (littleEndian data (2 * k) 2)
    rwa [one_mul] at hword

/-- The file as one number, with `n` in the checksum field. -/
theorem withChecksum_number (h : optionalHeader data + 68 ≤ data.length) {M m n : ℕ}
    (hn : n < 2 ^ 32) : littleEndian (withChecksum data M m n) 0 (2 * wordCount data) =
      littleEndian (withChecksum data M m 0) 0 (2 * wordCount data) +
        256 ^ (optionalHeader data + 64) * n := by
  obtain ⟨rest, hrest⟩ : ∃ rest, 2 * wordCount data = optionalHeader data + 64 + 4 + rest := by
    refine Nat.exists_eq_add_of_le ?_
    rw [wordCount]
    omega
  have hfits : optionalHeader data + 64 + 4 ≤ (withVersions data M m).length :=
    checksum_fits h M m n
  have hmod : n % 256 ^ 4 = n := Nat.mod_eq_of_lt hn
  rw [hrest, withChecksum_eq, withChecksum_eq, littleEndian_splice_whole hfits,
    littleEndian_splice_whole hfits, hmod, Nat.zero_mod]
  ring

/-- The words that the walk sums up, with `n` in the checksum field. -/
def summed (data : Bytes) (M m n : ℕ) : List ℕ :=
  words (withChecksum data M m n) (optionalHeader data + 64 : ℕ) (wordCount data)

theorem summed_represents (data : Bytes) (M m n : ℕ) :
    Represents 65535 (summed data M m n).sum (total 65535 (summed data M m n)) :=
  total_represents words_le

theorem checksum_withChecksum (h : optionalHeader data + 68 ≤ data.length) (M m n : ℕ) :
    checksum (withChecksum data M m n) (optionalHeader data + 64 : ℕ) =
      (total 65535 (summed data M m n) + data.length) % 2 ^ 32 := by
  rw [checksum_eq, wordCount, withChecksum_length h, ← wordCount, ← summed]

theorem even_checksumOffset :
    Even (optionalHeader data + 64) ↔ Even (littleEndian data 0x3c 4) := by
  rw [optionalHeader, Nat.even_iff, Nat.even_iff]
  omega

/-- At an even offset the field is skipped. -/
theorem summed_even (h : optionalHeader data + 68 ≤ data.length)
    (heven : Even (optionalHeader data + 64)) (M m n : ℕ) :
    summed data M m n = summed data M m 0 :=
  words_congr (withChecksum_beside h M m n) ((Int.even_coe_nat _).mpr heven)

/-- At an odd offset it is counted, its bytes in the other halves of the words. -/
theorem summed_odd (h : optionalHeader data + 68 ≤ data.length)
    (hodd : Odd (optionalHeader data + 64)) {M m n : ℕ} (hn : n < 2 ^ 32) :
    (summed data M m n).sum ≡ (summed data M m 0).sum + 256 * n [MOD 65535] := by
  have hoff : Odd ((optionalHeader data + 64 : ℕ) : ℤ) := (Int.odd_coe_nat _).mpr hodd
  have hweight : 256 ^ (optionalHeader data + 64) ≡ 256 [MOD 65535] := by
    obtain ⟨k, hk⟩ := hodd
    rw [hk, pow_succ]
    simpa only [one_mul] using (word_weight k).mul_right 256
  have hsum : (summed data M m n).sum ≡
      littleEndian (withChecksum data M m n) 0 (2 * wordCount data) [MOD 65535] :=
    words_sum_modEq hoff (wordCount data)
  rw [withChecksum_number h hn] at hsum
  exact hsum.trans ((words_sum_modEq hoff _).symm.add (hweight.mul_right n))

/-- The first word of the file is not zero. -/
theorem summed_sum_ne_zero (h : Accepted data) (M m n : ℕ) : (summed data M m n).sum ≠ 0 := by
  have hopt : optionalHeader data = littleEndian data 0x3c 4 + 4 + 20 := rfl
  have hfirst : littleEndian (withChecksum data M m n) (2 * 0) 2 = 0x5a4d := by
    have hwindow : littleEndian data (0 + 0) 2 = littleEndian ((data.drop 0).take 2) 0 2 :=
      littleEndian_window le_rfl
    rw [withChecksum_littleEndian h.whole M m n (by omega)]
    exact hwindow.trans (congrArg (littleEndian · 0 2) h.mz)
  have hlen := h.header
  have hmem : 0 ∈ List.range (wordCount data) := List.mem_range.mpr (by rw [wordCount]; omega)
  have hword : 0x5a4d ∈ summed data M m n :=
    List.mem_map.mpr ⟨0, List.mem_filter.mpr ⟨hmem, decide_eq_true (by omega)⟩, hfirst⟩
  intro hzero
  exact absurd (List.sum_eq_zero_iff.mp hzero _ hword) (by decide)

/-- The walk over the written file finds the stored number exactly where it skips that number
or where the number counts as nothing. -/
theorem checksum_stamped_iff (h : Accepted data) (M m : ℕ) :
    checksum (stamped data M m) (optionalHeader data + 64 : ℕ) = newChecksum data M m ↔
      Even (littleEndian data 0x3c 4) ∨ 65535 ∣ newChecksum data M m := by
  have hrep := summed_represents data M m
  have htotal : checksum (stamped data M m) (optionalHeader data + 64 : ℕ) =
      newChecksum data M m ↔
      total 65535 (summed data M m (newChecksum data M m)) =
        total 65535 (summed data M m 0) := by
    have hle := (hrep (newChecksum data M m)).le
    have hle₀ := (hrep 0).le
    rw [stamped, checksum_withChecksum h.whole]
    have hnew := checksum_withChecksum h.whole M m 0
    rw [← newChecksum] at hnew
    omega
  rw [htotal, ← even_checksumOffset]
  rcases Nat.even_or_odd (optionalHeader data + 64) with heven | hodd
  · exact iff_of_true (congrArg _ (summed_even h.whole heven M m _)) (.inl heven)
  · have hnot : ¬Even (optionalHeader data + 64) := Nat.not_even_iff_odd.mpr hodd
    have hsum := summed_odd h.whole hodd (M := M) (m := m) (newChecksum_lt data M m)
    have hdvd : 65535 ∣ 256 * newChecksum data M m ↔ 65535 ∣ newChecksum data M m :=
      Nat.Coprime.dvd_mul_left (by decide)
    have hshift : (summed data M m 0).sum ≡ (summed data M m 0).sum + 256 * newChecksum data M m
        [MOD 65535] ↔ 65535 ∣ 256 * newChecksum data M m := by
      rw [Nat.modEq_iff_dvd' (Nat.le_add_right _ _), Nat.add_sub_cancel_left]
    rw [or_iff_right hnot, ← hdvd, ← hshift, (hrep _).eq_iff (hrep 0) (summed_sum_ne_zero h M m _)
      (summed_sum_ne_zero h M m 0)]
    exact ⟨fun he => he.symm.trans hsum, fun he => hsum.trans he.symm⟩

/-- The checksum verifies exactly where the header lies at an even offset, or where the sum of
the words and the length are together divisible by 65535. -/
theorem checksum_verifies_iff (hdata : w.files path = some data) (h : Accepted data)
    (hmajor : Fits major) (hminor : Fits minor) :
    ∃ data', ((stamp path major minor).exec w).2.files path = some data' ∧
      (checksum data' (optionalHeader data' + 64 : ℕ) =
          littleEndian data' (optionalHeader data' + 64) 4 ↔
        Even (littleEndian data 0x3c 4) ∨
          ∃ r, Represents 65535 (summed data major.toNat minor.toNat 0).sum r ∧
            65535 ∣ (r + data.length) % 2 ^ 32) := by
  refine ⟨stamped data major.toNat minor.toNat, ?_, ?_⟩
  · rw [(exec_stamp hdata h hmajor hminor).2, Function.update_self]
  · have hnew := checksum_withChecksum h.whole major.toNat minor.toNat 0
    have hrep := summed_represents data major.toNat minor.toNat 0
    rw [← newChecksum] at hnew
    have hsum : (∃ r, Represents 65535 (summed data major.toNat minor.toNat 0).sum r ∧
        65535 ∣ (r + data.length) % 2 ^ 32) ↔ 65535 ∣ newChecksum data major.toNat minor.toNat := by
      rw [hnew]
      exact ⟨fun ⟨r, hr, hdvd⟩ => hr.unique hrep ▸ hdvd, fun hdvd => ⟨_, hrep, hdvd⟩⟩
    rw [hsum, ← checksum_stamped_iff h, stamped, withChecksum_optionalHeader h.whole,
      withChecksum_checksum h.whole (newChecksum_lt ..)]

/-! Two files whose headers lie at an even and at an odd offset. -/

def evenHeader : Bytes :=
  [0x4d, 0x5a] ++ List.replicate 58 0 ++ toBytes 4 0x40 ++ [0x50, 0x45, 0, 0] ++
    List.replicate 20 0 ++ [0x0b, 0x01] ++ List.replicate 66 0

def oddHeader : Bytes :=
  [0x4d, 0x5a] ++ List.replicate 58 0 ++ toBytes 4 0x41 ++ [0, 0x50, 0x45, 0, 0] ++
    List.replicate 20 0 ++ [0x0b, 0x01] ++ List.replicate 66 0

def evenWorld : World := ⟨fun _ => some evenHeader, []⟩

def oddWorld : World := ⟨fun _ => some oddHeader, []⟩

theorem evenHeader_accepted : Accepted evenHeader where
  mz := by decide +kernel
  header := by decide +kernel
  pe := by decide +kernel
  magic := by decide +kernel
  whole := by decide +kernel

theorem oddHeader_accepted : Accepted oddHeader where
  mz := by decide +kernel
  header := by decide +kernel
  pe := by decide +kernel
  magic := by decide +kernel
  whole := by decide +kernel

theorem checksum_verifies_iff_evenHeader :
    ∃ data', ((stamp "intlfxsr.sys".toList 3 51).exec evenWorld).2.files "intlfxsr.sys".toList =
        some data' ∧
      checksum data' (optionalHeader data' + 64 : ℕ) =
        littleEndian data' (optionalHeader data' + 64) 4 := by
  have hdata : evenWorld.files "intlfxsr.sys".toList = some evenHeader := rfl
  have hmajor : Fits 3 := by decide
  have hminor : Fits 51 := by decide
  obtain ⟨data', hfile, hverifies⟩ :=
    checksum_verifies_iff hdata evenHeader_accepted hmajor hminor
  exact ⟨data', hfile, hverifies.mpr (.inl (by decide +kernel))⟩

theorem not_verifies : ¬∀ (path : Str) (w : World) (data : Bytes) (major minor : ℤ),
    w.files path = some data → Accepted data → Fits major → Fits minor →
      ∃ data', ((stamp path major minor).exec w).2.files path = some data' ∧
        checksum data' (optionalHeader data' + 64 : ℕ) =
          littleEndian data' (optionalHeader data' + 64) 4 := by
  intro hclaim
  have hmajor : Fits 3 := by decide
  have hminor : Fits 51 := by decide
  obtain ⟨data', hfile, hsame⟩ := hclaim [] oddWorld oddHeader 3 51 rfl oddHeader_accepted
    hmajor hminor
  rw [(exec_stamp (w := oddWorld) rfl oddHeader_accepted hmajor hminor).2,
    Function.update_self] at hfile
  obtain rfl := Option.some.inj hfile
  rw [stamped, withChecksum_optionalHeader oddHeader_accepted.whole,
    withChecksum_checksum oddHeader_accepted.whole (newChecksum_lt ..)] at hsame
  rcases (checksum_stamped_iff oddHeader_accepted _ _).mp hsame with heven | hdvd
  · exact absurd heven (by decide +kernel)
  · exact absurd hdvd (by decide +kernel)

end Nt351.Stamp
