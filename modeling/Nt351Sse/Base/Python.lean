import Mathlib

/-! What Python scripts that read binary files rest on: little-endian `struct.unpack_from`,
latin-1 text, arithmetic on an offset that may be `None`, dictionaries in insertion order
and sorted sets of strings. -/

namespace Nt351.Python

abbrev Bytes := List (BitVec 8)

abbrev Str := List Char

inductive Error
  | systemExit (message : Str)
  -- `struct.error`
  | struct
  | value
  | type
  | os
deriving DecidableEq

theorem bind_eq_ok {ε α β : Type} {x : Except ε α} {f : α → Except ε β} {b : β} :
    (x >>= f) = .ok b ↔ ∃ a : α, x = .ok a ∧ f a = .ok b := by
  cases x with
  | error e => exact iff_of_false (fun h => nomatch h) fun ⟨_, h, _⟩ => nomatch h
  | ok a =>
    constructor
    · exact fun h => ⟨a, rfl, h⟩
    · rintro ⟨a', ha, h⟩
      cases ha
      exact h

theorem map_eq_ok {ε α β : Type} {x : Except ε α} {f : α → β} {b : β} :
    f <$> x = .ok b ↔ ∃ a : α, x = .ok a ∧ f a = b := by
  cases x with
  | error e => exact iff_of_false (fun h => nomatch h) fun ⟨_, h, _⟩ => nomatch h
  | ok a =>
    constructor
    · exact fun h => ⟨a, rfl, Except.ok.inj h⟩
    · rintro ⟨a', ha, rfl⟩
      cases ha
      rfl

/-- The little-endian number in the `w` bytes at `offset`. -/
def littleEndian (data : Bytes) (offset : ℕ) : ℕ → ℕ
  | 0 => 0
  | w + 1 => (data.getD offset 0).toNat + 256 * littleEndian data (offset + 1) w

/-- The `w` low bytes of a number, lowest first. -/
def toBytes : ℕ → ℕ → Bytes
  | 0, _ => []
  | w + 1, n => BitVec.ofNat 8 n :: toBytes w (n / 256)

section Encoding

variable {data data' : Bytes} {offset offset' v w n : ℕ}

theorem littleEndian_lt (data : Bytes) (offset w : ℕ) : littleEndian data offset w < 256 ^ w := by
  induction w generalizing offset with
  | zero => exact Nat.one_pos
  | succ w ih =>
    have hbyte := (data.getD offset 0).isLt
    have hrest := ih (offset + 1)
    rw [littleEndian, pow_succ]
    omega

theorem littleEndian_congr
    (h : ∀ i < w, data.getD (offset + i) 0 = data'.getD (offset' + i) 0) :
    littleEndian data offset w = littleEndian data' offset' w := by
  induction w generalizing offset offset' with
  | zero => rfl
  | succ w ih =>
    have hrest : littleEndian data (offset + 1) w = littleEndian data' (offset' + 1) w := by
      apply ih
      intro i hi
      have hbyte := h (i + 1) (Nat.succ_lt_succ hi)
      rwa [Nat.add_assoc, Nat.add_assoc, Nat.add_comm 1 i]
    have hfirst : data.getD offset 0 = data'.getD offset' 0 := h 0 (Nat.succ_pos w)
    rw [littleEndian, littleEndian, hrest, hfirst]

theorem littleEndian_add (data : Bytes) (offset v w : ℕ) : littleEndian data offset (v + w) =
    littleEndian data offset v + 256 ^ v * littleEndian data (offset + v) w := by
  induction v generalizing offset with
  | zero => simp [littleEndian]
  | succ v ih =>
    rw [Nat.succ_add, littleEndian, littleEndian, ih, Nat.add_assoc offset, Nat.add_comm 1 v]
    ring

/-- The bytes from `offset` on decide what is read there. -/
theorem littleEndian_window (h : v + w ≤ n) :
    littleEndian data (offset + v) w = littleEndian ((data.drop offset).take n) v w := by
  apply littleEndian_congr
  intro i hi
  have hlt : v + i < n := by omega
  simp only [List.getD_eq_getElem?_getD, List.getElem?_take_of_lt hlt, List.getElem?_drop,
    Nat.add_assoc]

theorem littleEndian_byte {i : ℕ} (h : i < w) :
    littleEndian data offset w / 256 ^ i % 256 = (data.getD (offset + i) 0).toNat := by
  obtain ⟨v, rfl⟩ := Nat.exists_eq_add_of_lt h
  rw [Nat.add_assoc, littleEndian_add, littleEndian, Nat.add_mul_div_left _ _ (by positivity),
    Nat.div_eq_of_lt (littleEndian_lt ..), Nat.zero_add, Nat.add_mul_mod_self_left]
  exact Nat.mod_eq_of_lt (data.getD (offset + i) 0).isLt

@[simp] theorem toBytes_length (w n : ℕ) : (toBytes w n).length = w := by
  induction w generalizing n with
  | zero => rfl
  | succ w ih => rw [toBytes, List.length_cons, ih]

theorem littleEndian_toBytes (w n : ℕ) (post : Bytes) :
    littleEndian (toBytes w n ++ post) 0 w = n % 256 ^ w := by
  induction w generalizing n with
  | zero => exact (Nat.mod_one n).symm
  | succ w ih =>
    have hrest : littleEndian (toBytes (w + 1) n ++ post) 1 w =
        littleEndian (toBytes w (n / 256) ++ post) 0 w := by
      apply littleEndian_congr
      intro i hi
      rw [toBytes, Nat.add_comm, List.cons_append, List.getD_cons_succ, Nat.zero_add]
    have hfirst : ((toBytes (w + 1) n ++ post).getD 0 0).toNat = n % 256 := by
      rw [toBytes, List.cons_append, List.getD_cons_zero, BitVec.toNat_ofNat]
    rw [littleEndian, hrest, hfirst, ih, pow_succ, Nat.mul_comm (256 ^ w), Nat.mod_mul]

theorem toBytes_littleEndian (h : offset + w ≤ data.length) :
    toBytes w (littleEndian data offset w) = (data.drop offset).take w := by
  induction w generalizing offset with
  | zero => rfl
  | succ w ih =>
    have hlt : offset < data.length := by omega
    have hbyte : BitVec.ofNat 8 (littleEndian data offset (w + 1)) = data[offset] := by
      apply BitVec.eq_of_toNat_eq
      rw [littleEndian, BitVec.toNat_ofNat, List.getD_eq_getElem _ _ hlt]
      have := (data[offset]).isLt
      omega
    have hrest : littleEndian data offset (w + 1) / 256 = littleEndian data (offset + 1) w := by
      rw [littleEndian]
      have := (data.getD offset 0).isLt
      omega
    rw [toBytes, hbyte, hrest, ih (by omega), List.drop_eq_getElem_cons hlt, List.take_succ_cons]

end Encoding

/-! Numbers of several widths one after the other, each given with its width. -/

def pack (fields : List (ℕ × ℕ)) : Bytes := fields.flatMap fun f => toBytes f.1 f.2

def packedSize (fields : List (ℕ × ℕ)) : ℕ := (fields.map Prod.fst).sum

/-- What the bytes from `offset` on read as, field by field. -/
def ReadsAs (data : Bytes) : ℕ → List (ℕ × ℕ) → Prop
  | _, [] => True
  | offset, (w, x) :: fields => littleEndian data offset w = x ∧ ReadsAs data (offset + w) fields

section Packing

variable {data : Bytes} {offset w x : ℕ} {fields : List (ℕ × ℕ)}

@[simp] theorem pack_length (fields : List (ℕ × ℕ)) : (pack fields).length = packedSize fields := by
  induction fields with
  | nil => rfl
  | cons f fields ih => simp [pack, packedSize, List.length_flatMap]

theorem packedSize_append (fields fields' : List (ℕ × ℕ)) :
    packedSize (fields ++ fields') = packedSize fields + packedSize fields' := by
  rw [packedSize, List.map_append, List.sum_append, packedSize, packedSize]

theorem readsAs_append {fields' : List (ℕ × ℕ)} : ReadsAs data offset (fields ++ fields') ↔
    ReadsAs data offset fields ∧ ReadsAs data (offset + packedSize fields) fields' := by
  induction fields generalizing offset with
  | nil => exact (and_iff_right trivial).symm
  | cons f fields ih =>
    rw [List.cons_append, ReadsAs, ReadsAs, ih, and_assoc, Nat.add_assoc]
    rfl

theorem take_eq_toBytes_iff (hlen : offset + w ≤ data.length) (hx : x < 256 ^ w) :
    (data.drop offset).take w = toBytes w x ↔ littleEndian data offset w = x := by
  rw [← toBytes_littleEndian hlen]
  constructor
  · intro he
    have hmod := littleEndian_toBytes w (littleEndian data offset w) []
    rwa [he, littleEndian_toBytes, Nat.mod_eq_of_lt hx, Nat.mod_eq_of_lt (littleEndian_lt ..),
      eq_comm] at hmod
  · exact fun he => congrArg (toBytes w) he

/-- The bytes are the packed numbers exactly where each field reads as its number. -/
theorem take_eq_pack_iff {n : ℕ} (hfit : ∀ f ∈ fields, f.2 < 256 ^ f.1)
    (hn : packedSize fields = n) (hlen : offset + n ≤ data.length) :
    (data.drop offset).take n = pack fields ↔ ReadsAs data offset fields := by
  induction fields generalizing offset n with
  | nil => exact iff_of_true (hn ▸ rfl) trivial
  | cons f fields ih =>
    obtain ⟨w, x⟩ := f
    obtain rfl : w + packedSize fields = n := hn
    have hwlen : offset + w ≤ data.length := by omega
    have hrlen : offset + w + packedSize fields ≤ data.length := by omega
    have hfirst := take_eq_toBytes_iff hwlen (hfit _ List.mem_cons_self)
    have hrest := ih (fun f hf => hfit f (List.mem_cons_of_mem _ hf)) rfl hrlen
    have hwidth : ((data.drop offset).take w).length = (toBytes w x).length := by
      rw [List.length_take, List.length_drop, toBytes_length]
      omega
    rw [List.take_add, List.drop_drop, ReadsAs, ← hfirst, ← hrest]
    exact ⟨fun he => List.append_inj he hwidth, fun he => congrArg₂ (· ++ ·) he.1 he.2⟩

end Packing

/-- `data` with `bytes` in place of what is at `offset`. -/
def splice (data : Bytes) (offset : ℕ) (bytes : Bytes) : Bytes :=
  data.take offset ++ (bytes ++ data.drop (offset + bytes.length))

section Splicing

variable {data bytes : Bytes} {offset offset' w i : ℕ}

theorem splice_length (h : offset + bytes.length ≤ data.length) :
    (splice data offset bytes).length = data.length := by
  rw [splice, List.length_append, List.length_append, List.length_take, List.length_drop]
  omega

theorem splice_getD_outside (h : offset + bytes.length ≤ data.length)
    (hi : i < offset ∨ offset + bytes.length ≤ i) :
    (splice data offset bytes).getD i 0 = data.getD i 0 := by
  have htake : (data.take offset).length = offset := by
    rw [List.length_take]
    omega
  rcases hi with hi | hi
  · rw [splice, List.getD_append _ _ _ _ (by omega), List.getD_eq_getElem?_getD,
      List.getElem?_take_of_lt hi, List.getD_eq_getElem?_getD]
  · rw [splice, List.getD_append_right _ _ _ _ (by omega), htake,
      List.getD_append_right _ _ _ _ (by omega), List.getD_eq_getElem?_getD, List.getElem?_drop,
      List.getD_eq_getElem?_getD]
    congr 2
    omega

theorem splice_getD_inside (hoff : offset ≤ data.length) (hi : offset ≤ i)
    (hlt : i < offset + bytes.length) :
    (splice data offset bytes).getD i 0 = bytes.getD (i - offset) 0 := by
  have htake : (data.take offset).length = offset := List.length_take_of_le hoff
  rw [splice, List.getD_append_right _ _ _ _ (by omega), htake,
    List.getD_append _ _ _ _ (by omega)]

theorem ext_getD {data' : Bytes} (hlen : data.length = data'.length)
    (h : ∀ i, data.getD i 0 = data'.getD i 0) : data = data' := by
  refine List.ext_getElem hlen fun i hi hi' => ?_
  rw [← List.getD_eq_getElem _ 0 hi, ← List.getD_eq_getElem _ 0 hi', h]

/-- Of two writes to one place the second stays. -/
theorem splice_splice {bytes' : Bytes} (h : offset + bytes.length ≤ data.length)
    (hsame : bytes'.length = bytes.length) :
    splice (splice data offset bytes) offset bytes' = splice data offset bytes' := by
  have hlen := splice_length h
  have h' : offset + bytes'.length ≤ data.length := hsame ▸ h
  refine ext_getD (by rw [splice_length (by omega), splice_length h', hlen]) fun i => ?_
  by_cases hin : offset ≤ i ∧ i < offset + bytes'.length
  · rw [splice_getD_inside (by omega) hin.1 hin.2, splice_getD_inside (by omega) hin.1 hin.2]
  · rw [splice_getD_outside (by omega) (by omega), splice_getD_outside h' (by omega),
      splice_getD_outside h (by omega)]

/-- Writes to places that lie apart can be swapped. -/
theorem splice_comm {bytes' : Bytes} (h' : offset' + bytes'.length ≤ data.length)
    (hapart : offset + bytes.length ≤ offset') :
    splice (splice data offset bytes) offset' bytes' =
      splice (splice data offset' bytes') offset bytes := by
  have h : offset + bytes.length ≤ data.length := by omega
  have hlen := splice_length h
  have hlen' := splice_length h'
  have hlen₁ : (splice (splice data offset bytes) offset' bytes').length = data.length :=
    (splice_length (by omega)).trans hlen
  have hlen₂ : (splice (splice data offset' bytes') offset bytes).length = data.length :=
    (splice_length (by omega)).trans hlen'
  refine ext_getD (hlen₁.trans hlen₂.symm) fun i => ?_
  by_cases hin : offset ≤ i ∧ i < offset + bytes.length
  · rw [splice_getD_outside (by omega) (by omega), splice_getD_inside (by omega) hin.1 hin.2,
      splice_getD_inside (by omega) hin.1 hin.2]
  · have hleft : (splice (splice data offset' bytes') offset bytes).getD i 0 =
        (splice data offset' bytes').getD i 0 := splice_getD_outside (by omega) (by omega)
    rw [hleft]
    by_cases hin' : offset' ≤ i ∧ i < offset' + bytes'.length
    · rw [splice_getD_inside (by omega) hin'.1 hin'.2, splice_getD_inside (by omega) hin'.1 hin'.2]
    · rw [splice_getD_outside (by omega) (by omega), splice_getD_outside h (by omega),
        splice_getD_outside h' (by omega)]

theorem splice_window_before {k n : ℕ} (h : offset ≤ data.length) (hk : k + n ≤ offset) :
    ((splice data offset bytes).drop k).take n = (data.drop k).take n := by
  have htake : (data.take offset).length = offset := List.length_take_of_le h
  rw [List.take_drop, List.take_drop, splice, List.take_append_of_le_length (by omega),
    List.take_take, min_eq_left (by omega)]

theorem splice_window (h : offset + bytes.length ≤ data.length) :
    ((splice data offset bytes).drop offset).take bytes.length = bytes := by
  have htake : (data.take offset).length = offset := by
    rw [List.length_take]
    omega
  rw [splice, List.drop_left' htake, List.take_left]

theorem littleEndian_splice {n : ℕ} (h : offset + w ≤ data.length) :
    littleEndian (splice data offset (toBytes w n)) offset w = n % 256 ^ w := by
  have hlen : offset + (toBytes w n).length ≤ data.length := by rwa [toBytes_length]
  have hread := littleEndian_toBytes w n []
  rw [List.append_nil, ← splice_window hlen, ← littleEndian_window (by simp)] at hread
  exact hread

theorem littleEndian_splice_outside (h : offset + bytes.length ≤ data.length)
    (hoff : offset' + w ≤ offset ∨ offset + bytes.length ≤ offset') :
    littleEndian (splice data offset bytes) offset' w = littleEndian data offset' w :=
  littleEndian_congr fun i hi => splice_getD_outside h (by omega)

/-- The bytes as one number, after a number is written among them. -/
theorem littleEndian_splice_whole {n rest : ℕ} (h : offset + w ≤ data.length) :
    littleEndian (splice data offset (toBytes w n)) 0 (offset + w + rest) =
      littleEndian data 0 offset + 256 ^ offset * (n % 256 ^ w) +
        256 ^ (offset + w) * littleEndian data (offset + w) rest := by
  have hlen : offset + (toBytes w n).length ≤ data.length := by rwa [toBytes_length]
  have hbefore : littleEndian (splice data offset (toBytes w n)) 0 offset =
      littleEndian data 0 offset := littleEndian_splice_outside hlen (.inl (by omega))
  have hafter : littleEndian (splice data offset (toBytes w n)) (offset + w) rest =
      littleEndian data (offset + w) rest :=
    littleEndian_splice_outside hlen (.inr (by rw [toBytes_length]))
  rw [littleEndian_add _ 0 (offset + w), littleEndian_add _ 0 offset w, Nat.zero_add, Nat.zero_add,
    hbefore, hafter, littleEndian_splice h]

end Splicing

/-- `struct.unpack_from` of `n` numbers of `w` bytes each. -/
def unpackFrom (w n : ℕ) (data : Bytes) (offset : ℕ) : Except Error (Fin n → ℕ) :=
  if offset + w * n ≤ data.length then .ok fun i =>
    littleEndian data (offset + w * i) w else .error .struct

theorem unpackFrom_ok {w n offset : ℕ} {data : Bytes} (h : offset + w * n ≤ data.length) :
    unpackFrom w n data offset = .ok fun i => littleEndian data (offset + w * i) w := if_pos h

theorem of_unpackFrom {w n offset : ℕ} {data : Bytes} {fields : Fin n → ℕ}
    (h : unpackFrom w n data offset = .ok fields) :
    fields = fun i : Fin n => littleEndian data (offset + w * i) w := by
  rw [unpackFrom] at h
  split at h
  · exact (Except.ok.inj h).symm
  · cases h

theorem unpackFrom_one {w offset : ℕ} {data : Bytes} (h : offset + w ≤ data.length) :
    unpackFrom w 1 data offset = .ok fun _ => littleEndian data offset w := by
  rw [unpackFrom_ok (by omega)]
  congr 1
  funext i
  rw [Fin.fin_one_eq_zero i]
  rfl

/-- `struct.unpack_from` of one number. -/
def unpackOne (w : ℕ) (data : Bytes) (offset : ℕ) : Except Error ℕ :=
  if offset + w ≤ data.length then .ok (littleEndian data offset w) else .error .struct

theorem unpackOne_ok {w offset : ℕ} {data : Bytes} (h : offset + w ≤ data.length) :
    unpackOne w data offset = .ok (littleEndian data offset w) := if_pos h

theorem of_unpackOne {w offset n : ℕ} {data : Bytes} (h : unpackOne w data offset = .ok n) :
    offset + w ≤ data.length ∧ n = littleEndian data offset w := by
  by_cases hlen : offset + w ≤ data.length
  · rw [unpackOne_ok hlen] at h
    exact ⟨hlen, (Except.ok.inj h).symm⟩
  · rw [unpackOne, if_neg hlen] at h
    cases h

theorem mapM_ok {ε α β : Type} {f : α → Except ε β} {g : α → β} {l : List α}
    (h : ∀ a ∈ l, f a = .ok (g a)) : l.mapM f = .ok (l.map g) := by
  induction l with
  | nil => rfl
  | cons a l ih =>
    rw [List.mapM_cons, h a List.mem_cons_self, ih fun b hb => h b (List.mem_cons_of_mem _ hb)]
    rfl

theorem map_of_mapM {ε α β γ : Type} {f : α → Except ε β} {g : α → γ} {k : β → γ}
    (hstep : ∀ a y, f a = .ok y → k y = g a) {l : List α} {ys : List β}
    (h : l.mapM f = .ok ys) : ys.map k = l.map g := by
  induction l generalizing ys with
  | nil =>
    obtain rfl := Except.ok.inj h
    rfl
  | cons a l ih =>
    rw [List.mapM_cons] at h
    obtain ⟨y, hy, h⟩ := bind_eq_ok.mp h
    obtain ⟨rest, hrest, h⟩ := bind_eq_ok.mp h
    obtain rfl := Except.ok.inj h
    rw [List.map_cons, List.map_cons, hstep a y hy, ih hrest]

/-- `offset + k`, where `offset` may be `None`. -/
def plus (offset : Option ℕ) (k : ℕ) : Except Error ℕ :=
  match offset with
  | none => .error .type
  | some n => .ok (n + k)

def latin1 (data : Bytes) : Str := data.map fun b => Char.ofNat b.toNat

/-- `str.lower` on latin-1 text: the capitals are A to Z and those from `0xc0` to `0xde`
but for the multiplication sign. -/
def lowerChar (c : Char) : Char :=
  if 0x41 ≤ c.toNat ∧ c.toNat ≤ 0x5a ∨ 0xc0 ≤ c.toNat ∧ c.toNat ≤ 0xde ∧
    c.toNat ≠ 0xd7 then Char.ofNat (c.toNat + 0x20) else c

def lower (s : Str) : Str := s.map lowerChar

def decimal (n : ℕ) : Str := Nat.toDigits 10 n

def sorted (l : List Str) : List Str := l.insertionSort (· ≤ ·)

theorem mem_sorted {l : List Str} {s : Str} : s ∈ sorted l ↔ s ∈ l :=
  (List.perm_insertionSort _ l).mem_iff

/-! ## Dictionaries -/

abbrev Dict (κ ν : Type*) := List (κ × ν)

namespace Dict

variable {κ ν α β : Type*} [DecidableEq κ] {d : Dict κ ν} {k k' : κ} {v : ν}

def keys (d : Dict κ ν) : List κ := d.map Prod.fst

/-- `d[k] = v` -/
def set : Dict κ ν → κ → ν → Dict κ ν
  | [], k, v => [(k, v)]
  | (k', v') :: d, k, v => if k' = k then (k, v) :: d else (k', v') :: set d k v

/-- `d.setdefault(k, []).extend(xs)` -/
def extend : Dict κ (List α) → κ → List α → Dict κ (List α)
  | [], k, xs => [(k, xs)]
  | (k', ys) :: d, k, xs => if k' = k then (k', ys ++ xs) :: d else (k', ys) :: extend d k xs

/-- `d[k]` of a dictionary of lists, empty where `k` is no key. -/
def items : Dict κ (List α) → κ → List α
  | [], _ => []
  | (k', ys) :: d, k => if k' = k then ys else items d k

def mapItems (f : α → β) (d : Dict κ (List α)) : Dict κ (List β) :=
  d.map fun kv => (kv.1, kv.2.map f)

theorem mem_set {kv : κ × ν} (h : kv ∈ set d k v) : kv = (k, v) ∨ kv ∈ d := by
  induction d with
  | nil => exact .inl (List.mem_singleton.mp h)
  | cons p d ih =>
    rw [set] at h
    split at h
    · exact (List.mem_cons.mp h).imp_right (List.mem_cons_of_mem _)
    · rcases List.mem_cons.mp h with h | h
      · exact .inr (h ▸ List.mem_cons_self)
      · exact (ih h).imp_right (List.mem_cons_of_mem _)

theorem mem_keys_set {k' : κ} : k' ∈ (set d k v).keys ↔ k' = k ∨ k' ∈ d.keys := by
  induction d with
  | nil => simp [set, keys]
  | cons p d ih =>
    rw [set]
    split
    · next hp =>
      subst hp
      simp [keys]
    · simp only [keys, List.map_cons, List.mem_cons] at ih ⊢
      rw [ih]
      tauto

theorem nodup_keys_set (h : d.keys.Nodup) : (d.set k v).keys.Nodup := by
  induction d with
  | nil => exact List.nodup_singleton k
  | cons p d ih =>
    obtain ⟨hnot, hrest⟩ := List.nodup_cons.mp h
    rw [set]
    split
    · next hp =>
      subst hp
      exact h
    · next hp =>
      refine List.nodup_cons.mpr ⟨fun hmem => ?_, ih hrest⟩
      exact (mem_keys_set.mp hmem).elim hp hnot

theorem lookup_cons (p : κ × ν) (d : Dict κ ν) :
    List.lookup k (p :: d) = if k = p.1 then some p.2 else List.lookup k d := by
  rw [List.lookup_cons]
  by_cases hk : k = p.1
  · rw [if_pos hk, beq_iff_eq.mpr hk]
  · rw [if_neg hk, beq_false_of_ne hk]

theorem lookup_set : (d.set k v).lookup k' = if k' = k then some v else d.lookup k' := by
  induction d with
  | nil => exact lookup_cons (k, v) []
  | cons p d ih =>
    rw [set]
    by_cases hp : p.1 = k
    · subst hp
      rw [if_pos rfl, lookup_cons, lookup_cons]
      by_cases hk : k' = p.1 <;> simp [hk]
    · rw [if_neg hp, lookup_cons, lookup_cons, ih]
      by_cases hk : k' = p.1
      · simp [hk, hp]
      · simp [hk]

theorem mem_iff_lookup (h : d.keys.Nodup) : (k, v) ∈ d ↔ d.lookup k = some v := by
  induction d with
  | nil => simp
  | cons p d ih =>
    obtain ⟨hnot, hrest⟩ := List.nodup_cons.mp h
    rw [lookup_cons, List.mem_cons]
    by_cases hk : k = p.1
    · subst hk
      have hnone : (p.1, v) ∉ d := fun hv => hnot (List.mem_map.mpr ⟨_, hv, rfl⟩)
      simp [hnone, Prod.ext_iff, eq_comm]
    · rw [if_neg hk, ← ih hrest, or_iff_right]
      exact fun hp => hk (congrArg Prod.fst hp)

theorem mapItems_extend (f : α → β) (d : Dict κ (List α)) (k : κ) (xs : List α) :
    (d.extend k xs).mapItems f = (d.mapItems f).extend k (xs.map f) := by
  induction d with
  | nil => rfl
  | cons p d ih =>
    simp only [extend, mapItems, List.map_cons] at ih ⊢
    split
    · simp only [List.map_cons, List.map_append]
    · rw [List.map_cons, ih]

theorem items_mapItems (f : α → β) (d : Dict κ (List α)) (k : κ) :
    (d.mapItems f).items k = (d.items k).map f := by
  induction d with
  | nil => rfl
  | cons p d ih =>
    simp only [items, mapItems, List.map_cons] at ih ⊢
    split
    · rfl
    · exact ih

theorem mem_keys_extend {d : Dict κ (List α)} {xs : List α} :
    k' ∈ (d.extend k xs).keys ↔ k' = k ∨ k' ∈ d.keys := by
  induction d with
  | nil => simp [extend, keys]
  | cons p d ih =>
    rw [extend]
    split
    · next hp =>
      subst hp
      simp [keys]
    · simp only [keys, List.map_cons, List.mem_cons] at ih ⊢
      rw [ih]
      tauto

theorem nodup_keys_extend {d : Dict κ (List α)} {xs : List α} (h : d.keys.Nodup) :
    (d.extend k xs).keys.Nodup := by
  induction d with
  | nil => exact List.nodup_singleton k
  | cons p d ih =>
    obtain ⟨hnot, hrest⟩ := List.nodup_cons.mp h
    rw [extend]
    split
    · exact h
    · next hp =>
      refine List.nodup_cons.mpr ⟨fun hmem => ?_, ih hrest⟩
      exact (mem_keys_extend.mp hmem).elim hp hnot

theorem items_extend {d : Dict κ (List α)} {xs : List α} :
    (d.extend k xs).items k' = if k = k' then d.items k' ++ xs else d.items k' := by
  induction d with
  | nil => rfl
  | cons p d ih =>
    rw [extend]
    split
    · next hp =>
      subst hp
      rw [items, items]
      split <;> rfl
    · next hp =>
      rw [items, items, ih]
      split
      · next hk' => rw [if_neg fun hk => hp (hk'.trans hk.symm)]
      · rfl

theorem mem_keys_of_items {d : Dict κ (List α)} {x : α} (h : x ∈ d.items k) : k ∈ d.keys := by
  induction d with
  | nil => exact absurd h List.not_mem_nil
  | cons p d ih =>
    rw [items] at h
    split at h
    · next hp => exact hp ▸ List.mem_cons_self
    · exact List.mem_cons_of_mem _ (ih h)

end Dict

end Nt351.Python
