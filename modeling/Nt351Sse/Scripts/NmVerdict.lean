import Nt351Sse.Driver.Load
import Nt351Sse.Driver.NmHook
import Nt351Sse.Scripts.IdtReport
import Nt351Sse.Scripts.NmSig

/-! `nmsig.py`, from the two images to the verdict, and what the verdict says about
`InstallNmHook`. -/

namespace Nt351.NmSig
open Python FindIdt FirstMatch
open Stamp (hex)

/-- A range of the driver that is compared. -/
structure Blob where
  lo : ℕ
  hi : ℕ
  label : Str

def variantA : Blob := ⟨0x1034b, 0x10381, "variant A (tried first)".toList⟩

def variantB : Blob := ⟨0x10314, 0x10349, "variant B (tried second)".toList⟩

def blobs : List Blob := [variantA, variantB]

def Blob.length (b : Blob) : ℕ := b.hi - b.lo

/-- `%0nx` of a number that may be negative. -/
def hexSigned (n : ℕ) (value : ℤ) : Str :=
  if value < 0 then '-' :: hex (n - 1) value.natAbs else hex n value.natAbs

/-- No section has a negative RVA. -/
def rvaToOffAt (sections : List Section) (rva : ℤ) : Option (ℕ × Str) :=
  if rva < 0 then none else rvaToOff sections rva.toNat

/-- The bytes from `rvaStart` up to `rvaEnd`, fewer where the file ends before, with their
offset and section. -/
def readRva (im : Image) (rvaStart rvaEnd : ℕ) : Except Raised (Bytes × ℕ × Str) :=
  match rvaToOffAt im.sections (rvaStart - im.imageBase) with
  | none => throw (.error (.systemExit
      ("RVA ".toList ++ hexSigned 8 (rvaStart - im.imageBase) ++ " is not in a raw section".toList)))
  | some (off, sec) => pure ((im.data.drop off).take (rvaEnd - rvaStart), off, sec)

/-- The loop over the bytes, with `k` of them left and `n` found equal. -/
def compareFrom (blob live : Bytes) : ℕ → ℕ → Except Raised ℕ
  | 0, n => pure n
  | k + 1, n =>
    match blob[n]?, live[n]? with
    | some b, some l => if b = l then compareFrom blob live k (n + 1) else pure n
    | _, _ => throw .index

/-- What matched: the label, the length and where the handler goes on. -/
structure Matched where
  label : Str
  length : ℕ
  resume : ℕ
deriving DecidableEq

/-- What is printed of one blob. -/
def blobLines (driver : Image) (nmVa : ℕ) (rvas : List ℕ) (b : Blob) (blob live : Bytes)
    (bsec lsec : Str) (loff n : ℕ) : List Str :=
  let indent := List.replicate 6 ' '
  let fixups := if rvas = [] then "none".toList else ", ".toList.intercalate (rvas.map (hex 5))
  ("=== ".toList ++ b.label ++ ": driver RVA ".toList ++ hexSigned 5 (b.lo - driver.imageBase) ++
      "..".toList ++ hexSigned 5 (b.hi - driver.imageBase) ++ ", ".toList ++ decimal b.length ++
      " bytes (".toList ++ bsec ++ ") ===".toList) ::
    "  driver blob:".toList :: hexRows blob b.lo indent ++
    ("  kernel vector 7 (".toList ++ lsec ++ ", file ".toList ++ hex 8 loff ++ "):".toList) ::
    hexRows live nmVa indent ++
    ["  relocations inside the compared range: ".toList ++ fixups,
      "  RtlCompareMemory -> ".toList ++ decimal n ++ " of ".toList ++ decimal b.length,
      if n = b.length then
        "  MATCH. This blob becomes IDT[7]; resume address = ".toList ++ hex 8 (nmVa + b.length)
      else "  no match (first difference at +".toList ++ decimal n ++ ": driver ".toList ++
        hex 2 (blob.getD n 0).toNat ++ " vs kernel ".toList ++ hex 2 (live.getD n 0).toNat ++
        ")".toList, []]

/-- One blob: what is printed so far, and `matched`. -/
def compareBlob (driver kernel : Image) (nmVa : ℕ) (relocRvas : Finset ℕ) (b : Blob)
    (state : List Str × Option Matched) : Except Raised (List Str × Option Matched) := do
  let (blob, _, bsec) ← readRva driver b.lo b.hi
  let (live, loff, lsec) ← readRva kernel nmVa (nmVa + b.length)
  let n ← compareFrom blob live b.length 0
  let rvas := touched relocRvas b.lo b.hi driver.imageBase
  let found := if n = b.length then some ⟨b.label, b.length, nmVa + b.length⟩ else none
  pure (state.1 ++ blobLines driver nmVa rvas b blob live bsec lsec loff n, state.2.or found)

def compareBlobs (driver kernel : Image) (nmVa : ℕ) (relocRvas : Finset ℕ) :
    List Blob → List Str × Option Matched → Except Raised (List Str × Option Matched)
  | [], state => pure state
  | b :: bs, state => do
    let state ← compareBlob driver kernel nmVa relocRvas b state
    compareBlobs driver kernel nmVa relocRvas bs state

def verdictLines : Option Matched → List Str
  | some m =>
    ["VERDICT: the signature check PASSES on this kernel via ".toList ++ m.label ++ ".".toList, [],
      "  The NT 3.51 #NM prologue is byte-identical to the NT 4.0 one the".toList,
      "  driver was built against, so error 6 does not occur and the".toList,
      "  hardcoded blob can be reused as-is. The driver would resume the".toList,
      "  kernel handler at ".toList ++ hex 8 m.resume ++ " (vector 7 + ".toList ++
        decimal m.length ++ ").".toList, [],
      "  Worth re-checking against the live IDT on the target machine:".toList,
      "  this compares the on-disk image, and a boot-time patch to the".toList,
      "  handler would not show up here.".toList]
  | none =>
    ["VERDICT: the signature check FAILS. Error 6.".toList, [],
      "  Rebuild the blob from the kernel bytes dumped above: copy the".toList,
      "  prologue verbatim, append the FXSAVE/FXRSTOR work, and resume at".toList,
      "  vector 7 + <prologue length>.".toList]

/-- What the kernel's vector 7 is. -/
def vectorSeven (path : Str) (kernel : Image) : Except Raised (Run × ℕ) := do
  let runs := findIdt kernel.data kernel.sections kernel.imageBase defaultMinRun
  match longestRun runs with
  | none => throw (.error (.systemExit ("no IDT found in ".toList ++ path)))
  | some idt =>
    match idt.entries[7]? with
    | none => throw .index
    | some Record.empty => throw (.error (.systemExit "IDT vector 7 is empty".toList))
    | some (Record.gate nmVa _) => pure (idt, nmVa)

def usage : Str := "usage: nmsig.py <intlfxsr.sys> <ntoskrnl.exe>".toList

def main (files : Str → Option Bytes) (argv : List Str) : Except Raised Output :=
  match argv with
  | [_, drvPath, krnPath] => do
    let driver ← (load files drvPath).mapError .error
    let kernel ← (load files krnPath).mapError .error
    let (idt, nmVa) ← vectorSeven krnPath kernel
    let header := ["driver : ".toList ++ drvPath ++ "  ImageBase ".toList ++ hex 8 driver.imageBase,
      "kernel : ".toList ++ krnPath ++ "  ImageBase ".toList ++ hex 8 kernel.imageBase, [],
      "IDT template at VA ".toList ++ hex 8 (kernel.imageBase + idt.rva) ++
        ", vector 7 -> ".toList ++ hex 8 nmVa, []]
    let relocRvas ← (relocs driver.data driver.sections).mapError .error
    let (lines, matched) ← compareBlobs driver kernel nmVa relocRvas blobs (header, none)
    pure ⟨lines ++ List.replicate 68 '-' :: verdictLines matched, 0⟩
  | _ => throw (.error (.systemExit usage))

/-! ## The verdict -/

/-- `length` bytes of the image at the address `va`, at `off` in the file. -/
def InFile (im : Image) (va length off : ℕ) : Prop :=
  (∃ sec, rvaToOffAt im.sections (va - im.imageBase) = some (off, sec)) ∧
    off + length ≤ im.data.length

/-- The two images have the same `length` bytes there. -/
def Agree (driver kernel : Image) (length boff loff : ℕ) : Prop :=
  ∀ i < length, driver.data.getD (boff + i) 0 = kernel.data.getD (loff + i) 0

instance (driver kernel : Image) (length boff loff : ℕ) :
    Decidable (Agree driver kernel length boff loff) :=
  inferInstanceAs (Decidable (∀ i < length, _))

variable {driver kernel im : Image} {blob live : Bytes} {k n off boff loff nmVa length : ℕ}
  {rvas : Finset ℕ} {b : Blob} {state : List Str × Option Matched}

theorem readRva_ok (h : InFile im n k off) :
    ∃ sec, readRva im n (n + k) = .ok ((im.data.drop off).take k, off, sec) := by
  obtain ⟨⟨sec, hoff⟩, -⟩ := h
  refine ⟨sec, ?_⟩
  rw [readRva, hoff, Nat.add_sub_cancel_left]
  rfl

theorem getElem?_window (h : off + length ≤ im.data.length) {i : ℕ} (hi : i < length) :
    ((im.data.drop off).take length)[i]? = some (im.data.getD (off + i) 0) := by
  rw [List.getElem?_take_of_lt hi, List.getElem?_drop, List.getD_eq_getElem _ _ (by omega)]
  exact List.getElem?_eq_getElem (by omega)

/-- The loop counts how many bytes agree. -/
theorem compareFrom_spec {f g : ℕ → BitVec 8} (hblob : ∀ i < n + k, blob[i]? = some (f i))
    (hlive : ∀ i < n + k, live[i]? = some (g i)) :
    ∃ m, compareFrom blob live k n = .ok m ∧ (m = n + k ↔ ∀ i, n ≤ i → i < n + k → f i = g i) := by
  induction k generalizing n with
  | zero => exact ⟨n, rfl, iff_of_true rfl fun i hn hi => by omega⟩
  | succ k ih =>
    have hsum : n + (k + 1) = n + 1 + k := by omega
    rw [compareFrom, hblob n (by omega), hlive n (by omega)]
    show ∃ m, (if f n = g n then compareFrom blob live k (n + 1) else pure n) = .ok m ∧ _
    split
    · next hsame =>
      rw [hsum] at hblob hlive ⊢
      obtain ⟨m, hm, hiff⟩ := ih hblob hlive
      refine ⟨m, hm, hiff.trans ⟨fun hall i hn hi => ?_, fun hall i hn hi => hall i (by omega) hi⟩⟩
      rcases hn.eq_or_lt with rfl | hlt
      · exact hsame
      · exact hall i hlt hi
    · next hdiffer =>
      exact ⟨n, rfl, iff_of_false (by omega) fun hall => hdiffer (hall n le_rfl (by omega))⟩

/-- What a blob is found to be, given where it and the handler are in the files. -/
def found (driver kernel : Image) (nmVa : ℕ) (b : Blob) (boff loff : ℕ) : Option Matched :=
  if Agree driver kernel b.length boff loff then some ⟨b.label, b.length, nmVa + b.length⟩ else none

theorem compareBlob_ok (rvas : Finset ℕ) (state : List Str × Option Matched)
    (hb : b.lo + b.length = b.hi) (hblob : InFile driver b.lo b.length boff)
    (hlive : InFile kernel nmVa b.length loff) : ∃ lines,
      compareBlob driver kernel nmVa rvas b state =
        .ok (state.1 ++ lines, state.2.or (found driver kernel nmVa b boff loff)) := by
  obtain ⟨bsec, hreadBlob⟩ := readRva_ok hblob
  obtain ⟨lsec, hreadLive⟩ := readRva_ok hlive
  rw [hb] at hreadBlob
  obtain ⟨n, hn, hiff⟩ := compareFrom_spec (n := 0) (k := b.length)
    (fun i hi => getElem?_window hblob.2 (by omega))
    (fun i hi => getElem?_window hlive.2 (by omega))
  have hagree : n = b.length ↔ Agree driver kernel b.length boff loff := by
    rw [Nat.zero_add] at hiff
    exact hiff.trans ⟨fun h i hi => h i (Nat.zero_le i) hi, fun h i _ hi => h i hi⟩
  have hfound : (if n = b.length then
      some (⟨b.label, b.length, nmVa + b.length⟩ : Matched) else none) =
      found driver kernel nmVa b boff loff := if_congr hagree rfl rfl
  refine ⟨blobLines driver nmVa (touched rvas b.lo b.hi driver.imageBase) b
    ((driver.data.drop boff).take b.length) ((kernel.data.drop loff).take b.length)
    bsec lsec loff n, bind_eq_ok.mpr ⟨_, hreadBlob, bind_eq_ok.mpr ⟨_, hreadLive,
      bind_eq_ok.mpr ⟨n, hn, ?_⟩⟩⟩⟩
  rw [← hfound]
  rfl

/-- What the files are to be for the check to come to a verdict: both images load, the longest
run has a gate at 7, and neither blob nor the handler is cut off by the end of its file. -/
structure Comparable (files : Str → Option Bytes) (drvPath krnPath : Str) (driver kernel : Image)
    (nmVa : ℕ) (boff loff : Blob → ℕ) : Prop where
  drv : load files drvPath = .ok driver
  krn : load files krnPath = .ok kernel
  seven : ∃ idt access, longestRun
      (findIdt kernel.data kernel.sections kernel.imageBase defaultMinRun) = some idt ∧
    idt.entries[7]? = some (.gate nmVa access)
  fixups : ∃ rvas, relocs driver.data driver.sections = .ok rvas
  blob : ∀ b ∈ blobs, InFile driver b.lo b.length (boff b)
  live : ∀ b ∈ blobs, InFile kernel nmVa b.length (loff b)

variable {files : Str → Option Bytes} {drvPath krnPath : Str} {boffs loffs : Blob → ℕ}

/-- Variant A is taken where both match. -/
def verdictOf (driver kernel : Image) (nmVa : ℕ) (boff loff : Blob → ℕ) : Option Matched :=
  (found driver kernel nmVa variantA (boff variantA) (loff variantA)).or
    (found driver kernel nmVa variantB (boff variantB) (loff variantB))

theorem compareBlobs_ok (rvas : Finset ℕ) (header : List Str)
    (hblob : ∀ b ∈ blobs, InFile driver b.lo b.length (boffs b))
    (hlive : ∀ b ∈ blobs, InFile kernel nmVa b.length (loffs b)) : ∃ lines,
      compareBlobs driver kernel nmVa rvas blobs (header, none) =
        .ok (lines, verdictOf driver kernel nmVa boffs loffs) := by
  have hA : variantA ∈ blobs := List.mem_cons_self
  have hB : variantB ∈ blobs := List.mem_cons_of_mem _ List.mem_cons_self
  obtain ⟨ls, hls⟩ := compareBlob_ok rvas (header, none) rfl (hblob _ hA) (hlive _ hA)
  obtain ⟨ls', hls'⟩ := compareBlob_ok rvas
    (header ++ ls, found driver kernel nmVa variantA (boffs variantA) (loffs variantA))
    rfl (hblob _ hB) (hlive _ hB)
  exact ⟨_, bind_eq_ok.mpr ⟨_, hls, bind_eq_ok.mpr ⟨_, hls', rfl⟩⟩⟩

theorem main_verdict (prog : Str)
    (h : Comparable files drvPath krnPath driver kernel nmVa boffs loffs) :
    ∃ lines, main files [prog, drvPath, krnPath] =
      .ok ⟨lines ++ verdictLines (verdictOf driver kernel nmVa boffs loffs), 0⟩ := by
  obtain ⟨idt, access, hidt, hseven⟩ := h.seven
  obtain ⟨rvas, hrvas⟩ := h.fixups
  have hvector : vectorSeven krnPath kernel = .ok (idt, nmVa) := by
    rw [vectorSeven]
    show (match longestRun _ with
      | none => _
      | some idt => _) = _
    rw [hidt]
    show (match idt.entries[7]? with
      | none => _
      | some Record.empty => _
      | some (Record.gate nmVa _) => _) = _
    rw [hseven]
    rfl
  obtain ⟨lines, hlines⟩ := compareBlobs_ok rvas
    ["driver : ".toList ++ drvPath ++ "  ImageBase ".toList ++ hex 8 driver.imageBase,
      "kernel : ".toList ++ krnPath ++ "  ImageBase ".toList ++ hex 8 kernel.imageBase, [],
      "IDT template at VA ".toList ++ hex 8 (kernel.imageBase + idt.rva) ++
        ", vector 7 -> ".toList ++ hex 8 nmVa, []] h.blob h.live
  refine ⟨lines ++ [List.replicate 68 '-'], ?_⟩
  have hdriver : (load files drvPath).mapError Raised.error = .ok driver := by rw [h.drv]; rfl
  have hkernel : (load files krnPath).mapError Raised.error = .ok kernel := by rw [h.krn]; rfl
  have hfixups : (relocs driver.data driver.sections).mapError Raised.error = .ok rvas := by
    rw [hrvas]
    rfl
  refine bind_eq_ok.mpr ⟨driver, hdriver, bind_eq_ok.mpr ⟨kernel, hkernel, bind_eq_ok.mpr
    ⟨_, hvector, bind_eq_ok.mpr ⟨rvas, hfixups, bind_eq_ok.mpr ⟨_, hlines, ?_⟩⟩⟩⟩⟩
  rw [List.append_assoc]
  rfl

theorem found_eq_some : found driver kernel nmVa b boff loff =
    some ⟨b.label, b.length, nmVa + b.length⟩ ↔ Agree driver kernel b.length boff loff := by
  rw [found]
  split
  · next h => exact iff_of_true rfl h
  · next h => exact iff_of_false (Option.some_ne_none _).symm h

theorem found_eq_none : found driver kernel nmVa b boff loff = none ↔
    ¬Agree driver kernel b.length boff loff := by
  rw [found]
  split
  · next h => exact iff_of_false (Option.some_ne_none _) (not_not.mpr h)
  · next h => exact iff_of_true rfl h

theorem found_label {m : Matched} (h : found driver kernel nmVa b boff loff = some m) :
    m.label = b.label := by
  rw [found] at h
  split at h
  · rw [← Option.some.inj h]
  · cases h

theorem label_ne : variantB.label ≠ variantA.label := by decide

theorem verdictOf_variantA : (∃ m, verdictOf driver kernel nmVa boffs loffs = some m ∧
      m.label = variantA.label) ↔
    Agree driver kernel variantA.length (boffs variantA) (loffs variantA) := by
  rw [verdictOf]
  by_cases h : Agree driver kernel variantA.length (boffs variantA) (loffs variantA)
  · rw [found_eq_some.mpr h, Option.some_or]
    exact iff_of_true ⟨_, rfl, rfl⟩ h
  · rw [found_eq_none.mpr h, Option.none_or]
    exact iff_of_false (fun ⟨m, hm, hlabel⟩ => label_ne ((found_label hm).symm.trans hlabel)) h

/-! ## What it says about the driver -/

/-- `InstallNmHook` finds gate 7 as in the template, the kernel's handler as in its file, and at
`NmHandler` a copy of variant A. -/
structure AsOnDisk (E : Driver.Env) (s : Driver.System) (driver kernel : Image) (nmVa : ℕ)
    (boff loff : Blob → ℕ) : Prop where
  gate : Driver.gateTarget s.ctl.gate = BitVec.ofNat 32 nmVa
  live : ∀ i < Driver.nmPrologueLen, s.ctl.text (Memory.off (Driver.gateTarget s.ctl.gate) i) =
    kernel.data.getD (loff variantA + i) 0
  copy : ∀ i < Driver.nmPrologueLen, s.ctl.text (Memory.off E.nmHandler i) =
    driver.data.getD (boff variantA + i) 0

theorem AsOnDisk.matched_iff {E : Driver.Env} {s : Driver.System}
    (h : AsOnDisk E s driver kernel nmVa boffs loffs) :
    Driver.matchedLen s.ctl.text (Driver.gateTarget s.ctl.gate) E.nmHandler =
      Driver.nmPrologueLen ↔
    Agree driver kernel variantA.length (boffs variantA) (loffs variantA) := by
  rw [Driver.matchedLen_eq_iff]
  refine forall₂_congr fun i hi => ?_
  rw [h.live i hi, h.copy i hi]
  exact eq_comm

/-- The verdict passes via variant A exactly if `InstallNmHook` installs, and it then gives the
address where the kernel's handler goes on. -/
theorem verdict_predicts (prog : Str)
    (h : Comparable files drvPath krnPath driver kernel nmVa boffs loffs)
    {E : Driver.Env} {s : Driver.System} (hs : AsOnDisk E s driver kernel nmVa boffs loffs) :
    ∃ lines verdict, main files [prog, drvPath, krnPath] = .ok ⟨lines ++ verdictLines verdict, 0⟩ ∧
      ((∃ m, verdict = some m ∧ m.label = variantA.label) ↔
        (Driver.installNmHook E s).result.1 = true) ∧
      ∀ m, verdict = some m → (Driver.installNmHook E s).result.1 = true →
        (Driver.installNmHook E s).state.ctl.kernelNmResume = BitVec.ofNat 32 m.resume := by
  obtain ⟨lines, hmain⟩ := main_verdict prog h
  refine ⟨lines, _, hmain, ?_⟩
  rw [verdictOf_variantA]
  by_cases hm : Driver.matchedLen s.ctl.text (Driver.gateTarget s.ctl.gate) E.nmHandler =
    Driver.nmPrologueLen
  · obtain ⟨hresult, hctl⟩ := Driver.installNmHook_installed hm
    have hagree := hs.matched_iff.mp hm
    rw [hresult, hctl]
    refine ⟨iff_of_true hagree rfl, fun m hverdict _ => ?_⟩
    rw [verdictOf, found_eq_some.mpr hagree, Option.some_or] at hverdict
    obtain rfl := Option.some.inj hverdict
    show Memory.off (Driver.gateTarget s.ctl.gate) Driver.nmPrologueLen = _
    rw [hs.gate, Memory.off, ← BitVec.ofNat_add]
    rfl
  · obtain ⟨hresult, -⟩ := Driver.installNmHook_refused hm
    rw [hresult]
    exact ⟨iff_of_false (mt hs.matched_iff.mpr hm) Bool.false_ne_true,
      fun m _ hinstalled => absurd hinstalled Bool.false_ne_true⟩

/-! A driver whose variant A is what `kernelImage` has at its handler 7, and a machine that
runs the two. -/

def variantSection : Section := ⟨".text".toList, 0x314, 109, 352, 109, 0x60000020⟩

def variantImage : Bytes :=
  [0x4d, 0x5a] ++ List.replicate 58 0 ++ toBytes 4 0x40 ++ [0x50, 0x45, 0, 0] ++
    pack [(2, 0x14c), (2, 1), (4, 0), (4, 0), (4, 0), (2, 224), (2, 0x102)] ++
    toBytes 2 0x10b ++ List.replicate 26 0 ++ toBytes 4 0x10000 ++ List.replicate 192 0 ++
    [0x2e, 0x74, 0x65, 0x78, 0x74, 0, 0, 0] ++
    pack [(4, 109), (4, 0x314), (4, 109), (4, 352)] ++ List.replicate 12 0 ++
    toBytes 4 0x60000020 ++ List.replicate 55 0 ++ (kernelImage.drop 360).take 54

def imageFiles (path : Str) : Option Bytes :=
  if path = [] then some kernelImage else some variantImage

abbrev kernel351 : Image := ⟨kernelImage, [kernelSection], 0x80100000⟩

abbrev driver351 : Image := ⟨variantImage, [variantSection], 0x10000⟩

/-- The only run is the whole table. -/
theorem kernelImage_seven : ∃ idt access, longestRun
      (findIdt kernelImage [kernelSection] 0x80100000 defaultMinRun) = some idt ∧
    idt.entries[7]? = some (.gate 0x80101008 access) := by
  obtain ⟨idt, hidt⟩ :=
    exists_head?_greatestFirst (fun r : Run => r.entries.length) kernelImage_runs
  have hfound := sectionRuns_found kernelImage (codeRanges [kernelSection] 0x80100000)
    defaultMinRun kernelSection
  have hmem := (mem_greatestFirst).mp (List.mem_of_mem_head? hidt)
  rw [findIdt, List.flatMap_singleton] at hmem
  obtain ⟨off, -, -, -, hlong, hlen, -, hentries⟩ := hfound.table idt hmem
  have hraw : (rawData kernelImage kernelSection).length = 192 := by decide +kernel
  change 24 ≤ idt.entries.length at hlong
  have hseven : 7 < idt.entries.length := by omega
  obtain rfl : off = 0 := by omega
  have hgate : recordAt (rawData kernelImage kernelSection) (codeRanges [kernelSection] 0x80100000)
      (0 + 8 * 7) = some (.gate 0x80101008 0x8e) := by decide +kernel
  refine ⟨idt, 0x8e, hidt, ?_⟩
  rw [List.getElem?_eq_getElem hseven, ← hentries 7 hseven, hgate]

theorem kernel351_comparable : Comparable imageFiles ['d'] [] driver351 kernel351 0x80101008
    (fun b => 352 + (b.lo - 0x10314)) fun _ => 360 where
  drv := by decide +kernel
  krn := by decide +kernel
  seven := kernelImage_seven
  fixups := ⟨∅, by decide +kernel⟩
  blob := by
    rw [blobs, List.forall_mem_cons, List.forall_mem_singleton]
    exact ⟨⟨⟨variantSection.name, by decide +kernel⟩, by decide +kernel⟩,
      ⟨⟨variantSection.name, by decide +kernel⟩, by decide +kernel⟩⟩
  live := by
    rw [blobs, List.forall_mem_cons, List.forall_mem_singleton]
    exact ⟨⟨⟨kernelSection.name, by decide +kernel⟩, by decide +kernel⟩,
      ⟨⟨kernelSection.name, by decide +kernel⟩, by decide +kernel⟩⟩

def onDiskEnv : Driver.Env :=
  { Driver.twoBuffersEnv with
    gate := Driver.setGateTarget 0x80101008 ⟨0, 8, 0, 0x8e, 0⟩
    text := Memory.storeBytes 0x80101008 Driver.nmPrologueLen
      (fun i => kernelImage.getD (360 + i.val) 0)
      (Memory.storeBytes Driver.twoBuffersEnv.nmHandler Driver.nmPrologueLen
        (fun i => variantImage.getD (407 + i.val) 0) fun _ => 0)
    unhooked := by decide +kernel
    unpatched := by decide +kernel }

theorem onDiskEnv_asOnDisk : AsOnDisk onDiskEnv (Driver.initial onDiskEnv) driver351 kernel351
    0x80101008 (fun b => 352 + (b.lo - 0x10314)) fun _ => 360 where
  gate := by decide +kernel
  live := by decide +kernel
  copy := by decide +kernel

theorem verdict_predicts_onDisk : ∃ lines verdict,
    main imageFiles [[], ['d'], []] = .ok ⟨lines ++ verdictLines verdict, 0⟩ ∧
      ((∃ m, verdict = some m ∧ m.label = variantA.label) ↔
        (Driver.installNmHook onDiskEnv (Driver.initial onDiskEnv)).result.1 = true) ∧
      ∀ m, verdict = some m →
        (Driver.installNmHook onDiskEnv (Driver.initial onDiskEnv)).result.1 = true →
        (Driver.installNmHook onDiskEnv (Driver.initial onDiskEnv)).state.ctl.kernelNmResume =
          BitVec.ofNat 32 m.resume :=
  verdict_predicts [] kernel351_comparable onDiskEnv_asOnDisk

end Nt351.NmSig
