import Mathlib

/-! Byte-addressed 32-bit memory: blocks of addresses, the string instructions
`rep movsb` and `rep stosb`, and little-endian dwords. Nothing here names a
particular program. -/

namespace Nt351.Memory

abbrev Addr := BitVec 32

abbrev Byte := BitVec 8

abbrev Mem := Addr → Byte

/-- The address `i` bytes past `p`, wrapping as the hardware does. -/
def off (p : Addr) (i : ℕ) : Addr := p + BitVec.ofNat 32 i

theorem off_toNat {p : Addr} {i : ℕ} (h : p.toNat + i < 2 ^ 32) :
    (off p i).toNat = p.toNat + i := by
  simp only [off, BitVec.toNat_add, BitVec.toNat_ofNat]
  omega

@[simp] theorem off_zero (p : Addr) : off p 0 = p := by simp [off]

theorem off_off (p : Addr) (i j : ℕ) : off (off p i) j = off p (i + j) := by
  simp only [off, BitVec.ofNat_add, BitVec.add_assoc]

theorem off_inj {p : Addr} {i j : ℕ} (hi : i < 2 ^ 32) (hj : j < 2 ^ 32) (h : off p i = off p j) :
    i = j := by
  have ht := congrArg BitVec.toNat
    (BitVec.add_left_inj p |>.mp (by simpa only [off, BitVec.add_comm] using h))
  simpa only [BitVec.toNat_ofNat, Nat.mod_eq_of_lt hi, Nat.mod_eq_of_lt hj] using ht

/-! ## Blocks -/

structure Block where
  base : Addr
  size : ℕ
deriving DecidableEq, Repr

namespace Block

def Covers (b : Block) (a : Addr) : Prop := b.base.toNat ≤ a.toNat ∧ a.toNat < b.base.toNat + b.size

/-- The block does not wrap past `2 ^ 32`. -/
def Fits (b : Block) : Prop := b.base.toNat + b.size ≤ 2 ^ 32

def Disjoint (b c : Block) : Prop :=
  b.base.toNat + b.size ≤ c.base.toNat ∨ c.base.toNat + c.size ≤ b.base.toNat

def Within (b c : Block) : Prop :=
  c.base.toNat ≤ b.base.toNat ∧ b.base.toNat + b.size ≤ c.base.toNat + c.size

instance (b : Block) (a : Addr) : Decidable (b.Covers a) := inferInstanceAs (Decidable (_ ∧ _))

instance (b : Block) : Decidable b.Fits := inferInstanceAs (Decidable (_ ≤ _))

instance (b c : Block) : Decidable (b.Disjoint c) := inferInstanceAs (Decidable (_ ∨ _))

protected theorem Disjoint.symm {b c : Block} (h : b.Disjoint c) : c.Disjoint b := Or.symm h

instance : Std.Symm Disjoint := ⟨fun _ _ => Disjoint.symm⟩

theorem Disjoint.not_covers {b c : Block} (h : b.Disjoint c) {a : Addr} (ha : b.Covers a) :
    ¬ c.Covers a := by
  simp only [Disjoint, Covers] at *
  omega

theorem Disjoint.of_within {b c b' c' : Block} (h : b.Disjoint c) (hb : b'.Within b)
    (hc : c'.Within c) : b'.Disjoint c' := by
  simp only [Disjoint, Within] at *
  omega

theorem Disjoint.base_ne {b c : Block} (h : b.Disjoint c) (hb : 0 < b.size) (hc : 0 < c.size) :
    b.base ≠ c.base := by
  intro he
  simp only [Disjoint, he] at h
  omega

theorem Within.covers {b c : Block} (h : b.Within c) {a : Addr} (ha : b.Covers a) : c.Covers a := by
  simp only [Within, Covers] at *
  omega

theorem Within.fits {b c : Block} (h : b.Within c) (hc : c.Fits) : b.Fits := by
  simp only [Within, Fits] at *
  omega

theorem Fits.covers_off {b : Block} (h : b.Fits) {i : ℕ} (hi : i < b.size) :
    b.Covers (off b.base i) := by
  have hn : b.base.toNat + i < 2 ^ 32 := lt_of_lt_of_le (by omega) h
  simp only [Covers, off_toNat hn]
  omega

end Block

/-! ## `rep stosb` and `rep movsb` -/

/-- The loop `d[i] = f i` for `i < n`. -/
def storeBytes (d : Addr) : (n : ℕ) → (Fin n → Byte) → Mem → Mem
  | 0, _, m => m
  | n + 1, f, m =>
    Function.update (storeBytes d n (fun i => f i.castSucc) m) (off d n) (f (Fin.last n))

/-- `rep stosb`: `n` copies of `v` from `d` upward. -/
def stosb (d : Addr) (v : Byte) (m : Mem) (n : ℕ) : Mem := storeBytes d n (fun _ => v) m

/-- `rep movsb`, forwards: each byte is read after the ones below it were stored. -/
def movsb (s d : Addr) (m : Mem) : ℕ → Mem
  | 0 => m
  | n + 1 => Function.update (movsb s d m n) (off d n) (movsb s d m n (off s n))

/-- Also for a block that wraps past `2 ^ 32`. -/
theorem storeBytes_of_ne {d a : Addr} {m : Mem} {n : ℕ} {f : Fin n → Byte}
    (ha : ∀ i < n, a ≠ off d i) : storeBytes d n f m a = m a := by
  induction n with
  | zero => rfl
  | succ n ih =>
    rw [storeBytes, Function.update_of_ne (ha n (Nat.lt_succ_self n))]
    exact ih fun i hi => ha i (Nat.lt_succ_of_lt hi)

theorem ne_off_of_not_covers {d a : Addr} {n : ℕ} (hd : Block.Fits ⟨d, n⟩)
    (ha : ¬ Block.Covers ⟨d, n⟩ a) : ∀ i < n, a ≠ off d i := by
  rintro i hi rfl
  exact ha (hd.covers_off hi)

theorem storeBytes_outside {d a : Addr} {m : Mem} {n : ℕ} {f : Fin n → Byte}
    (hd : Block.Fits ⟨d, n⟩)
    (ha : ¬ Block.Covers ⟨d, n⟩ a) : storeBytes d n f m a = m a :=
  storeBytes_of_ne (ne_off_of_not_covers hd ha)

theorem storeBytes_inside {d : Addr} {m : Mem} {n : ℕ} {f : Fin n → Byte} (hn : n ≤ 2 ^ 32)
    (i : Fin n) : storeBytes d n f m (off d i) = f i := by
  induction n with
  | zero => exact i.elim0
  | succ n ih =>
    rw [storeBytes]
    induction i using Fin.lastCases with
    | last => exact Function.update_self ..
    | cast j =>
      have hne : off d j ≠ off d n := fun h => absurd (off_inj (by omega) (by omega) h) (by omega)
      rw [Fin.val_castSucc, Function.update_of_ne hne]
      exact ih (by omega) j

theorem storeBytes_congr {d a : Addr} {m m' : Mem} {n : ℕ} {f : Fin n → Byte} (h : m a = m' a) :
    storeBytes d n f m a = storeBytes d n f m' a := by
  induction n with
  | zero => exact h
  | succ n ih =>
    simp only [storeBytes, Function.update_apply]
    rw [ih]

theorem stosb_outside {d a : Addr} {v : Byte} {m : Mem} {n : ℕ} (hd : Block.Fits ⟨d, n⟩)
    (ha : ¬ Block.Covers ⟨d, n⟩ a) : stosb d v m n a = m a := storeBytes_outside hd ha

theorem stosb_inside {d : Addr} {v : Byte} {m : Mem} {n i : ℕ} (hn : n ≤ 2 ^ 32) (hi : i < n) :
    stosb d v m n (off d i) = v := storeBytes_inside hn ⟨i, hi⟩

theorem movsb_outside {s d a : Addr} {m : Mem} {n : ℕ} (hd : Block.Fits ⟨d, n⟩)
    (ha : ¬ Block.Covers ⟨d, n⟩ a) : movsb s d m n a = m a := by
  induction n with
  | zero => rfl
  | succ n ih =>
    simp only [Block.Covers, Block.Fits] at ha hd ih
    have hne : a ≠ off d n := by
      rintro rfl
      rw [off_toNat (by omega)] at ha
      omega
    rw [movsb, Function.update_of_ne hne]
    exact ih (by omega) (by omega)

/-- A copy between disjoint blocks stores the bytes the source held at the start. -/
theorem movsb_copied {s d : Addr} {m : Mem} {n i : ℕ} (hs : Block.Fits ⟨s, n⟩)
    (hd : Block.Fits ⟨d, n⟩) (hsd : Block.Disjoint ⟨s, n⟩ ⟨d, n⟩) (hi : i < n) :
    movsb s d m n (off d i) = m (off s i) := by
  induction n with
  | zero => omega
  | succ n ih =>
    simp only [Block.Fits, Block.Disjoint] at hs hd hsd ih
    rw [movsb]
    by_cases he : i = n
    · subst he
      rw [Function.update_self]
      apply movsb_outside
      · simp only [Block.Fits]
        omega
      · simp only [Block.Covers]
        rw [off_toNat (by omega)]
        omega
    · rw [Function.update_of_ne (fun h => he (off_inj (by omega) (by omega) h))]
      exact ih (by omega) (by omega) (by omega) (by omega)

/-! ## Dwords -/

def readDword (m : Mem) (p : Addr) : BitVec 32 :=
  BitVec.ofNat 32 ((m p).toNat + 2 ^ 8 * (m (off p 1)).toNat + 2 ^ 16 * (m (off p 2)).toNat +
    2 ^ 24 * (m (off p 3)).toNat)

/-- Byte `i` of a dword in memory order. -/
def dwordByte (v : BitVec 32) (i : ℕ) : Byte := BitVec.ofNat 8 (v.toNat / 2 ^ (8 * i))

def writeDword (p : Addr) (v : BitVec 32) (m : Mem) : Mem :=
  Function.update (Function.update (Function.update (Function.update m p (dwordByte v 0))
    (off p 1) (dwordByte v 1)) (off p 2) (dwordByte v 2)) (off p 3) (dwordByte v 3)

theorem readDword_congr {m m' : Mem} {p q : Addr} (h : ∀ i < 4, m (off p i) = m' (off q i)) :
    readDword m p = readDword m' q := by
  have h0 := h 0 (by omega)
  rw [off_zero, off_zero] at h0
  simp only [readDword, h0, h 1 (by omega), h 2 (by omega), h 3 (by omega)]

theorem writeDword_of_ne {p a : Addr} {v : BitVec 32} {m : Mem} (ha : ∀ i < 4, a ≠ off p i) :
    writeDword p v m a = m a := by
  have h0 := ha 0 (by omega)
  rw [off_zero] at h0
  simp only [writeDword, Function.update_of_ne h0, Function.update_of_ne (ha 1 (by omega)),
    Function.update_of_ne (ha 2 (by omega)), Function.update_of_ne (ha 3 (by omega))]

theorem writeDword_outside {p a : Addr} {v : BitVec 32} {m : Mem} (hp : Block.Fits ⟨p, 4⟩)
    (ha : ¬ Block.Covers ⟨p, 4⟩ a) : writeDword p v m a = m a :=
  writeDword_of_ne (ne_off_of_not_covers hp ha)

theorem writeDword_byte {p : Addr} {v : BitVec 32} {m : Mem} {i : ℕ} (hi : i < 4) :
    writeDword p v m (off p i) = dwordByte v i := by
  have hne : ∀ j k : ℕ, j < 4 → k < 4 → j ≠ k → off p j ≠ off p k := fun j k hj hk hjk h =>
    hjk (off_inj (by omega) (by omega) h)
  have h0 : p = off p 0 := (off_zero p).symm
  rw [writeDword]
  interval_cases i
  · rw [Function.update_of_ne (hne 0 3 (by omega) (by omega) (by omega)),
      Function.update_of_ne (hne 0 2 (by omega) (by omega) (by omega)),
      Function.update_of_ne (hne 0 1 (by omega) (by omega) (by omega)), off_zero,
      Function.update_self]
  · rw [Function.update_of_ne (hne 1 3 (by omega) (by omega) (by omega)),
      Function.update_of_ne (hne 1 2 (by omega) (by omega) (by omega)), Function.update_self]
  · rw [Function.update_of_ne (hne 2 3 (by omega) (by omega) (by omega)), Function.update_self]
  · rw [Function.update_self]

theorem readDword_writeDword (p : Addr) (v : BitVec 32) (m : Mem) :
    readDword (writeDword p v m) p = v := by
  have h0 := writeDword_byte (p := p) (v := v) (m := m) (i := 0) (by omega)
  rw [off_zero] at h0
  have hv := v.isLt
  apply BitVec.eq_of_toNat_eq
  simp only [readDword, h0, writeDword_byte (show 1 < 4 by omega),
    writeDword_byte (show 2 < 4 by omega),
    writeDword_byte (show 3 < 4 by omega), dwordByte, BitVec.toNat_ofNat]
  omega

/-- The dwords at `p` and `q` do not overlap. -/
def Separate (p q : Addr) : Prop := ∀ i < 4, ∀ j < 4, off p i ≠ off q j

instance (p q : Addr) : Decidable (Separate p q) :=
  inferInstanceAs (Decidable (∀ i < 4, ∀ j < 4, _))

instance : Std.Symm Separate := ⟨fun _ _ h i hi j hj he => h j hj i hi he.symm⟩

theorem Separate.ne {p q : Addr} (h : Separate p q) : p ≠ q :=
  fun he => h 0 (by omega) 0 (by omega) (congrArg (off · 0) he)

theorem Separate.readDword {p q : Addr} {v : BitVec 32} {m : Mem} (h : Separate q p) :
    readDword (writeDword p v m) q = readDword m q :=
  readDword_congr fun i hi => writeDword_of_ne (h i hi)

theorem readDword_of_bytes {m : Mem} {p : Addr} {v : BitVec 32}
    (h : ∀ i < 4, m (off p i) = dwordByte v i) : readDword m p = v := by
  rw [← readDword_writeDword p v m]
  exact readDword_congr fun i hi => (h i hi).trans (writeDword_byte hi).symm

/-! ## Stores inside a region -/

/-- `f` stores only to `P`, and what it stores depends on `P` alone. -/
structure Local (P : Addr → Prop) (f : Mem → Mem) : Prop where
  outside : ∀ m a, ¬ P a → f m a = m a
  congr : ∀ m m', (∀ a, P a → m a = m' a) → ∀ a, P a → f m a = f m' a

section Local

variable {P : Addr → Prop} {f g : Mem → Mem} {p q : Addr} {n : ℕ}

theorem writeDword_congr {v : BitVec 32} {m m' : Mem} {a : Addr} (h : m a = m' a) :
    writeDword p v m a = writeDword p v m' a := by
  simp only [writeDword, Function.update_apply, h]

theorem Local.writeDword (v : BitVec 32) (hp : ∀ i < 4, P (off p i)) :
    Local P (writeDword p v) where
  outside _ _ ha := writeDword_of_ne fun i hi he => ha (he ▸ hp i hi)
  congr _ _ h _ ha := writeDword_congr (h _ ha)

theorem Local.copyDword (hp : ∀ i < 4, P (off p i)) (hq : ∀ i < 4, P (off q i)) :
    Local P fun m => Memory.writeDword p (readDword m q) m where
  outside m a ha := (Local.writeDword _ hp).outside m a ha
  congr m m' h a ha := by
    have hread : readDword m q = readDword m' q := readDword_congr fun i hi => h _ (hq i hi)
    rw [hread]
    exact writeDword_congr (h a ha)

theorem Local.stosb (v : Byte) (hp : ∀ i < n, P (off p i)) : Local P fun m => stosb p v m n where
  outside _ _ ha := storeBytes_of_ne fun i hi he => ha (he ▸ hp i hi)
  congr _ _ h _ ha := storeBytes_congr (h _ ha)

theorem Local.movsb (hp : ∀ i < n, P (off p i)) (hq : ∀ i < n, P (off q i)) :
    Local P fun m => movsb q p m n := by
  induction n with
  | zero => exact ⟨fun _ _ _ => rfl, fun _ _ h => h⟩
  | succ n ih =>
    have hrest := ih (fun i hi => hp i (Nat.lt_succ_of_lt hi)) fun i hi =>
      hq i (Nat.lt_succ_of_lt hi)
    refine ⟨fun m a ha => ?_, fun m m' h a ha => ?_⟩
    · have hne : a ≠ off p n := fun he => ha (he ▸ hp n (Nat.lt_succ_self n))
      simp only [Memory.movsb, Function.update_of_ne hne]
      exact hrest.outside m a ha
    · have hlast := hrest.congr m m' h _ (hq n (Nat.lt_succ_self n))
      have hsame := hrest.congr m m' h a ha
      simp only [Memory.movsb, Function.update_apply, hlast, hsame]

end Local

/-! ## Near jumps -/

/-- `E9 rel32` at `p`, a jump to `target`. -/
def writeJmp (p target : Addr) (m : Mem) : Mem :=
  writeDword (off p 1) (target - off p 5) (Function.update m p 0xe9)

def IsJmp (m : Mem) (p target : Addr) : Prop :=
  m p = 0xe9 ∧ off p 5 + readDword m (off p 1) = target

instance (m : Mem) (p target : Addr) : Decidable (IsJmp m p target) :=
  inferInstanceAs (Decidable (_ ∧ _))

theorem isJmp_congr {m m' : Mem} {p target : Addr} (h : ∀ i < 5, m' (off p i) = m (off p i)) :
    IsJmp m' p target ↔ IsJmp m p target := by
  have h0 := h 0 (by omega)
  rw [off_zero] at h0
  have hd : readDword m' (off p 1) = readDword m (off p 1) := readDword_congr fun i hi => by
    rw [off_off]
    exact h (1 + i) (by omega)
  rw [IsJmp, IsJmp, h0, hd]

theorem writeJmp_of_ne {p target a : Addr} {m : Mem} (ha : ∀ i < 5, a ≠ off p i) :
    writeJmp p target m a = m a := by
  have h0 := ha 0 (by omega)
  rw [off_zero] at h0
  rw [writeJmp, writeDword_of_ne, Function.update_of_ne h0]
  intro i hi
  rw [off_off]
  exact ha (1 + i) (by omega)

theorem writeJmp_outside {p target a : Addr} {m : Mem} (hp : Block.Fits ⟨p, 5⟩)
    (ha : ¬ Block.Covers ⟨p, 5⟩ a) :
    writeJmp p target m a = m a := writeJmp_of_ne (ne_off_of_not_covers hp ha)

theorem isJmp_writeJmp {p target : Addr} {m : Mem} : IsJmp (writeJmp p target m) p target := by
  constructor
  · rw [writeJmp, writeDword_of_ne, Function.update_self]
    intro i hi he
    rw [off_off] at he
    have h0 : 0 = 1 + i := off_inj (by omega) (by omega) ((off_zero p).trans he)
    omega
  · rw [writeJmp, readDword_writeDword, BitVec.add_comm, BitVec.sub_add_cancel]

theorem writeJmp_congr {p target a : Addr} {m m' : Mem} (h : m a = m' a) :
    writeJmp p target m a = writeJmp p target m' a := by
  simp only [writeJmp, writeDword, Function.update_apply, h]

end Nt351.Memory
