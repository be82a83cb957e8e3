import Nt351Sse.Driver.Pool

/-! The FXSAVE image, the layout of a thread's save area, and the copies the trap code
makes between the two. Only MXCSR and XMM0-7 cross; the x87 part of the image is
restored as it was saved. -/

namespace Nt351.Driver
open Memory

abbrev fxiMxcsr : ℕ := 0x18
abbrev fxiXmm : ℕ := 0xa0

/-- MXCSR and the 128 bytes of XMM0-7 in memory order. -/
structure Sse where
  xmm : Fin 128 → Byte
  mxcsr : BitVec 32

def Sse.default : Sse := ⟨fun _ => 0, defaultMxcsr⟩

/-- The x87 environment, image bytes `0x00-0x17`, and ST0-7, image bytes `0x20-0x9f`. -/
structure X87 where
  env : Fin 24 → Byte
  st : Fin 128 → Byte

/-- The live FPU and SSE registers; `mask` is the processor's MXCSR_MASK. -/
structure FxState where
  x87 : X87
  sse : Sse
  mask : BitVec 32

/-- `fxsave [p]` with OSFXSR set; the bytes from `0x120` on are reserved and left alone. -/
def fxsave (p : Addr) (fx : FxState) (m : Mem) : Mem := fun a =>
  let i := (a - p).toNat
  if h : i < 0x18 then fx.x87.env ⟨i, h⟩
  else if i < 0x1c then dwordByte fx.sse.mxcsr (i - 0x18)
  else if i < 0x20 then dwordByte fx.mask (i - 0x1c)
  else if h : i < 0xa0 then fx.x87.st ⟨i - 0x20, by omega⟩
  else if h : i < 0x120 then fx.sse.xmm ⟨i - 0xa0, by omega⟩
  else m a

/-- Where MXCSR and XMM0-7 lie in a record of `SSE_SAVE_SIZE` bytes. -/
structure SseLayout where
  mxcsr : ℕ
  xmm : ℕ
  mxcsr_le : mxcsr + 4 ≤ sseSaveSize
  xmm_le : xmm + xmmBytes ≤ sseSaveSize
  apart : mxcsr + 4 ≤ xmm ∨ xmm + xmmBytes ≤ mxcsr

def fxiLayout : SseLayout := ⟨fxiMxcsr, fxiXmm, by decide, by decide, by decide⟩

def saveLayout : SseLayout := ⟨saveMxcsr, saveXmm, by decide, by decide, by decide⟩

def sseAt (L : SseLayout) (m : Mem) (p : Addr) : Sse :=
  ⟨fun i => m (off p (L.xmm + i)), readDword m (off p L.mxcsr)⟩

def imageX87 (m : Mem) (p : Addr) : X87 := ⟨fun i => m (off p i), fun i => m (off p (0x20 + i))⟩

/-- `fxrstor [p]` -/
def fxrstor (p : Addr) (m : Mem) (fx : FxState) : FxState :=
  { fx with x87 := imageX87 m p, sse := sseAt fxiLayout m p }

/-- MXCSR is moved as a dword, then `rep movsb` moves the XMM bytes. -/
@[irreducible] def copySse (S D : SseLayout) (src dst : Addr) (m : Mem) : Mem :=
  movsb (off src S.xmm) (off dst D.xmm)
    (writeDword (off dst D.mxcsr) (readDword m (off src S.mxcsr)) m) xmmBytes

/-- `nm_defaults`: DEFAULT_MXCSR and zeros into the image. -/
@[irreducible] def copyDefaults (image : Addr) (m : Mem) : Mem :=
  stosb (off image fxiXmm) 0 (writeDword (off image fxiMxcsr) defaultMxcsr m) xmmBytes

/-- What a copy amounts to: the record at `p` holds `v`, its other bytes are kept. -/
def storeSse (L : SseLayout) (p : Addr) (v : Sse) (m : Mem) : Mem := fun a =>
  let i := (a - p).toNat
  if L.mxcsr ≤ i ∧ i < L.mxcsr + 4 then dwordByte v.mxcsr (i - L.mxcsr)
  else if h : L.xmm ≤ i ∧ i < L.xmm + xmmBytes then
    v.xmm ⟨i - L.xmm, by have := h.2; simp only [xmmBytes] at this; omega⟩
  else m a

/-! ## Offsets inside a record -/

section Offsets

variable {p q a : Addr} {m m' : Mem} {i j n : ℕ} {L S D : SseLayout} {v : Sse} {fx : FxState}

theorem eq_off (p a : Addr) : a = off p (a - p).toNat := by
  unfold off
  rw [BitVec.ofNat_toNat, BitVec.setWidth_eq, BitVec.add_comm, BitVec.sub_add_cancel]

theorem off_sub (hi : i < sseSaveSize) : (off p i - p).toNat = i := by
  unfold off
  rw [BitVec.add_comm, BitVec.add_sub_cancel, BitVec.toNat_ofNat, Nat.mod_eq_of_lt]
  simp only [sseSaveSize] at hi
  omega

theorem area_off_toNat (h : (areaBlock p).Fits) (hi : i < sseSaveSize) :
    (off p i).toNat = p.toNat + i := by
  simp only [Block.Fits, areaBlock, sseSaveSize] at h hi
  exact off_toNat (by omega)

theorem area_part (h : (areaBlock p).Fits) (hin : i + n ≤ sseSaveSize) (hn : 0 < n) :
    Block.Within ⟨off p i, n⟩ (areaBlock p) := by
  have hi := area_off_toNat h (show i < sseSaveSize by omega)
  simp only [Block.Within, areaBlock, hi]
  omega

theorem sub_toNat_cases (a p : Addr) :
    p.toNat ≤ a.toNat ∧ (a - p).toNat = a.toNat - p.toNat ∨
      a.toNat < p.toNat ∧ (a - p).toNat = 2 ^ 32 - p.toNat + a.toNat := by
  rw [BitVec.toNat_sub]
  omega

theorem covers_part (h : (areaBlock p).Fits) (hin : i + n ≤ sseSaveSize) (hn : 0 < n) :
    Block.Covers ⟨off p i, n⟩ a ↔ i ≤ (a - p).toNat ∧ (a - p).toNat < i + n := by
  have hi := area_off_toNat h (show i < sseSaveSize by omega)
  have hc := sub_toNat_cases a p
  simp only [Block.Fits, areaBlock, sseSaveSize] at h hin
  simp only [Block.Covers, hi]
  omega

theorem covers_area (h : (areaBlock p).Fits) :
    (areaBlock p).Covers a ↔ (a - p).toNat < sseSaveSize := by
  have hc := covers_part (a := a) (i := 0) (n := sseSaveSize) h (by decide) (by decide)
  rw [off_zero] at hc
  simpa only [areaBlock, Nat.zero_le, true_and, Nat.zero_add] using hc

/-! ## What is stored is read back -/

theorem sseAt_congr (h : ∀ j < sseSaveSize, m' (off q j) = m (off p j)) :
    sseAt L m' q = sseAt L m p := by
  have hx := L.xmm_le
  have hm := L.mxcsr_le
  unfold sseAt
  congr 1
  · funext i
    exact h _ (by simp only [xmmBytes] at hx; omega)
  · refine readDword_congr fun j hj => ?_
    rw [off_off, off_off]
    exact h _ (by omega)

theorem imageX87_congr (h : ∀ j < sseSaveSize, m' (off p j) = m (off p j)) :
    imageX87 m' p = imageX87 m p := by
  unfold imageX87
  congr 1
  · funext i
    exact h _ (by simp only [sseSaveSize]; omega)
  · funext i
    exact h _ (by simp only [sseSaveSize]; omega)

theorem storeSse_byte (hj : j < sseSaveSize) : storeSse L p v m (off p j) =
    if L.mxcsr ≤ j ∧ j < L.mxcsr + 4 then dwordByte v.mxcsr (j - L.mxcsr)
    else if h : L.xmm ≤ j ∧ j < L.xmm + xmmBytes then
      v.xmm ⟨j - L.xmm, by have := h.2; simp only [xmmBytes] at this; omega⟩
    else m (off p j) := by
  simp only [storeSse, off_sub hj]

theorem storeSse_outside (h : (areaBlock p).Fits) (ha : ¬ (areaBlock p).Covers a) :
    storeSse L p v m a = m a := by
  have hx := L.xmm_le
  have hm := L.mxcsr_le
  rw [covers_area h] at ha
  unfold storeSse
  rw [if_neg (by omega), dif_neg (by omega)]

theorem sseAt_storeSse : sseAt L (storeSse L p v m) p = v := by
  have hx := L.xmm_le
  have hm := L.mxcsr_le
  have hapart := L.apart
  simp only [xmmBytes] at hx hapart
  unfold sseAt
  congr 1
  · funext i
    have hi := i.isLt
    rw [storeSse_byte (by omega), if_neg (by omega), dif_pos (by simp only [xmmBytes]; omega)]
    congr 1
    exact Fin.ext (Nat.add_sub_cancel_left _ _)
  · refine readDword_of_bytes fun j hj => ?_
    rw [off_off, storeSse_byte (by omega), if_pos (by omega), Nat.add_sub_cancel_left]

theorem imageX87_storeSse : imageX87 (storeSse fxiLayout p v m) p = imageX87 m p := by
  have hkeep : ∀ j < 0xa0, j < 0x18 ∨ 0x1c ≤ j → storeSse fxiLayout p v m (off p j) =
    m (off p j) := by
    intro j hj hout
    rw [storeSse_byte (by simp only [sseSaveSize]; omega), if_neg, dif_neg]
    · simp only [fxiLayout, fxiXmm]
      omega
    · simp only [fxiLayout, fxiMxcsr]
      omega
  unfold imageX87
  congr 1
  · funext i
    exact hkeep i (by omega) (by omega)
  · funext i
    exact hkeep _ (by omega) (by omega)

/-! ## The instructions and the copies -/

theorem fxsave_of_ne (ha : ∀ i < 0x120, a ≠ off p i) : fxsave p fx m a = m a := by
  have hi : ¬ (a - p).toNat < 0x120 := fun h => ha _ h (eq_off p a)
  unfold fxsave
  rw [dif_neg (by omega), if_neg (by omega), if_neg (by omega), dif_neg (by omega),
    dif_neg (by omega)]

theorem fxsave_outside (h : (areaBlock p).Fits) (ha : ¬ (areaBlock p).Covers a) :
    fxsave p fx m a = m a := by
  rw [covers_area h] at ha
  simp only [sseSaveSize] at ha
  apply fxsave_of_ne
  rintro i hi rfl
  rw [off_sub (by simp only [sseSaveSize]; omega)] at ha
  omega

theorem sseAt_fxsave : sseAt fxiLayout (fxsave p fx m) p = fx.sse := by
  unfold sseAt
  congr 1
  · funext i
    have hi := i.isLt
    have hs := off_sub (p := p) (i := 0xa0 + i) (by simp only [sseSaveSize]; omega)
    simp only [fxiLayout, fxiXmm, fxsave, hs]
    rw [dif_neg (by omega), if_neg (by omega), if_neg (by omega), dif_neg (by omega),
      dif_pos (by omega)]
    exact congrArg fx.sse.xmm (Fin.ext (Nat.add_sub_cancel_left _ _))
  · refine readDword_of_bytes fun j hj => ?_
    have hs := off_sub (p := p) (i := 0x18 + j) (by simp only [sseSaveSize]; omega)
    rw [off_off]
    simp only [fxiLayout, fxiMxcsr, fxsave, hs]
    rw [dif_neg (by omega), if_pos (by omega), Nat.add_sub_cancel_left]

theorem imageX87_fxsave : imageX87 (fxsave p fx m) p = fx.x87 := by
  unfold imageX87
  congr 1
  · funext i
    have hs := off_sub (p := p) (i := i) (by simp only [sseSaveSize]; omega)
    simp only [fxsave, hs]
    rw [dif_pos i.isLt]
  · funext i
    have hi := i.isLt
    have hs := off_sub (p := p) (i := 0x20 + i) (by simp only [sseSaveSize]; omega)
    simp only [fxsave, hs]
    rw [dif_neg (by omega), if_neg (by omega), if_neg (by omega), dif_pos (by omega)]
    exact congrArg fx.x87.st (Fin.ext (Nat.add_sub_cancel_left _ _))

theorem fxrstor_congr (h : ∀ j < sseSaveSize, m' (off p j) = m (off p j)) :
    fxrstor p m' fx = fxrstor p m fx := by
  rw [fxrstor, fxrstor, imageX87_congr h, sseAt_congr h]

theorem copySse_eq_storeSse (hp : (areaBlock p).Fits) (hq : (areaBlock q).Fits)
    (hpq : (areaBlock p).Disjoint (areaBlock q)) :
    copySse S D p q m = storeSse D q (sseAt S m p) m := by
  have hDx := D.xmm_le
  have hDm := D.mxcsr_le
  have hSx := S.xmm_le
  have hsrc := area_part (n := xmmBytes) hp hSx (by decide)
  have hdst := area_part (n := xmmBytes) hq hDx (by decide)
  have hword := area_part (n := 4) hq hDm (by decide)
  funext a
  unfold copySse storeSse
  by_cases hx : D.xmm ≤ (a - q).toNat ∧ (a - q).toNat < D.xmm + xmmBytes
  · have hi : (a - q).toNat - D.xmm < xmmBytes := by omega
    have ha : a = off (off q D.xmm) ((a - q).toNat - D.xmm) := by
      rw [off_off, Nat.add_sub_cancel' hx.1]
      exact eq_off q a
    have hapart := D.apart
    rw [if_neg (by omega), dif_pos hx]
    conv_lhs => rw [ha]
    rw [movsb_copied (hsrc.fits hp) (hdst.fits hq) (hpq.of_within hsrc hdst) hi,
      writeDword_outside (hword.fits hq),
      off_off]
    · rfl
    · -- the dword went to the other record
      have hc : (areaBlock p).Covers (off (off p S.xmm) ((a - q).toNat - D.xmm)) :=
        hsrc.covers ((hsrc.fits hp).covers_off hi)
      exact fun hw => hpq.not_covers hc (hword.covers hw)
  · rw [movsb_outside (hdst.fits hq) (mt (covers_part hq hDx (by decide)).mp hx)]
    by_cases hm : D.mxcsr ≤ (a - q).toNat ∧ (a - q).toNat < D.mxcsr + 4
    · have ha : a = off (off q D.mxcsr) ((a - q).toNat - D.mxcsr) := by
        rw [off_off, Nat.add_sub_cancel' hm.1]
        exact eq_off q a
      rw [if_pos hm]
      conv_lhs => rw [ha]
      exact writeDword_byte (by omega)
    · rw [if_neg hm, dif_neg hx,
        writeDword_outside (hword.fits hq) (mt (covers_part hq hDm (by decide)).mp hm)]

theorem copyDefaults_eq_storeSse (hp : (areaBlock p).Fits) :
    copyDefaults p m = storeSse fxiLayout p .default m := by
  have hxmm := fxiLayout.xmm_le
  have hmxcsr := fxiLayout.mxcsr_le
  have hdst := area_part (n := xmmBytes) hp hxmm (by decide)
  have hword := area_part (n := 4) hp hmxcsr (by decide)
  funext a
  unfold copyDefaults storeSse
  change stosb (off p fxiLayout.xmm) 0 (writeDword (off p fxiLayout.mxcsr) defaultMxcsr m) xmmBytes
    a = _
  by_cases hx : fxiLayout.xmm ≤ (a - p).toNat ∧ (a - p).toNat < fxiLayout.xmm + xmmBytes
  · have ha : a = off (off p fxiLayout.xmm) ((a - p).toNat - fxiLayout.xmm) := by
      rw [off_off, Nat.add_sub_cancel' hx.1]
      exact eq_off p a
    have hapart := fxiLayout.apart
    rw [if_neg (by omega), dif_pos hx]
    conv_lhs => rw [ha]
    exact stosb_inside (n := xmmBytes) (by decide) (by omega)
  · rw [stosb_outside (hdst.fits hp) (mt (covers_part hp hxmm (by decide)).mp hx)]
    by_cases hm : fxiLayout.mxcsr ≤ (a - p).toNat ∧ (a - p).toNat < fxiLayout.mxcsr + 4
    · have ha : a = off (off p fxiLayout.mxcsr) ((a - p).toNat - fxiLayout.mxcsr) := by
        rw [off_off, Nat.add_sub_cancel' hm.1]
        exact eq_off p a
      rw [if_pos hm]
      conv_lhs => rw [ha]
      exact writeDword_byte (by omega)
    · rw [if_neg hm, dif_neg hx,
        writeDword_outside (hword.fits hp) (mt (covers_part hp hmxcsr (by decide)).mp hm)]

end Offsets

end Nt351.Driver
