import Nt351Sse.Base.Python

/-! Two files that differ in one range only: whoever reads beside the range reads the same
from both. -/

namespace Nt351.Python

/-- The files differ at most from `lo` up to `hi`. -/
structure SameBeside (lo hi : ℕ) (data data' : Bytes) : Prop where
  length : data'.length = data.length
  byte : ∀ i, i < lo ∨ hi ≤ i → data'.getD i 0 = data.getD i 0

theorem SameBeside.refl (lo hi : ℕ) (data : Bytes) : SameBeside lo hi data data :=
  ⟨rfl, fun _ _ => rfl⟩

section Reads

variable {lo hi lo' hi' k w n : ℕ} {data data' : Bytes} (h : SameBeside lo hi data data')
include h

theorem SameBeside.mono (hlo : lo' ≤ lo) (hhi : hi ≤ hi') : SameBeside lo' hi' data data' :=
  ⟨h.length, fun i hi => h.byte i (by omega)⟩

theorem SameBeside.littleEndian (hk : k + w ≤ lo ∨ hi ≤ k) :
    Python.littleEndian data' k w = Python.littleEndian data k w :=
  littleEndian_congr fun i hi => h.byte (k + i) (by omega)

theorem SameBeside.unpackOne (hk : k + w ≤ lo ∨ hi ≤ k) :
    Python.unpackOne w data' k = Python.unpackOne w data k := by
  rw [Python.unpackOne, Python.unpackOne, h.length, h.littleEndian hk]

theorem SameBeside.unpackFrom (hk : k + w * n ≤ lo ∨ hi ≤ k) :
    Python.unpackFrom w n data' k = Python.unpackFrom w n data k := by
  have hfields : (fun i : Fin n => Python.littleEndian data' (k + w * i) w) =
      fun i : Fin n => Python.littleEndian data (k + w * i) w := by
    funext i
    apply h.littleEndian
    have hend : w * (i + 1) ≤ w * n := Nat.mul_le_mul_left w i.isLt
    rw [Nat.mul_succ] at hend
    omega
  rw [Python.unpackFrom, Python.unpackFrom, h.length, hfields]

theorem SameBeside.window (hk : k + n ≤ lo ∨ hi ≤ k) :
    (data'.drop k).take n = (data.drop k).take n := by
  have hlen : ((data'.drop k).take n).length = ((data.drop k).take n).length := by
    rw [List.length_take, List.length_take, List.length_drop, List.length_drop, h.length]
  refine ext_getD hlen fun i => ?_
  by_cases hi : i < n
  · have hbyte := h.byte (k + i) (by omega)
    simpa only [List.getD_eq_getElem?_getD, List.getElem?_take_of_lt hi, List.getElem?_drop]
      using hbyte
  · have hpast : ∀ d : Bytes, ((d.drop k).take n).getD i 0 = 0 := fun d =>
      List.getD_eq_default _ _ ((List.length_take_le ..).trans (not_lt.mp hi))
    rw [hpast, hpast]

theorem SameBeside.drop (hk : hi ≤ k) : data'.drop k = data.drop k := by
  have hwindow := h.window (n := data.length) (.inr hk)
  have hwhole : ∀ d : Bytes, d.length = data.length → (d.drop k).take data.length = d.drop k := by
    intro d hd
    apply List.take_of_length_le
    rw [List.length_drop]
    omega
  rwa [hwhole data' h.length, hwhole data rfl] at hwindow

end Reads

/-! ## Computations that may raise -/

variable {ε α β : Type}

theorem bind_congr_ok {x : Except ε α} {f g : α → Except ε β}
    (h : ∀ a, x = .ok a → f a = g a) : x >>= f = x >>= g := by
  cases x with
  | error e => rfl
  | ok a => exact h a rfl

theorem bind_map_congr {x x' : Except ε α} {k : α → α} {f g : α → Except ε β} (hx : x' = k <$> x)
    (h : ∀ a, x = .ok a → f (k a) = g a) : x' >>= f = x >>= g := by
  subst hx
  cases x with
  | error e => rfl
  | ok a => exact h a rfl

theorem bind_mapError_congr {ε' : Type} {r : ε → ε'} {x x' : Except ε α} {k : α → α}
    {f g : α → Except ε' β} (hx : x' = k <$> x) (h : ∀ a, x = .ok a → f (k a) = g a) :
    x'.mapError r >>= f = x.mapError r >>= g := by
  subst hx
  cases x with
  | error e => rfl
  | ok a => exact h a rfl

theorem mapM_congr {f g : α → Except ε β} {l : List α} (h : ∀ a ∈ l, f a = g a) :
    l.mapM f = l.mapM g := by
  induction l with
  | nil => rfl
  | cons a l ih =>
    rw [List.mapM_cons, List.mapM_cons, h a List.mem_cons_self,
      ih fun b hb => h b (List.mem_cons_of_mem _ hb)]

end Nt351.Python
