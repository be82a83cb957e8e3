import Nt351Sse.Driver.Hooks

/-! `InstallSwapHook` and `RemoveSwapHook` store by store, on one address space: the block
granted for the trampoline may be anywhere, also past the end of it. -/

namespace Nt351.Driver
open Memory Preempt

structure Patch where
  mem : Mem
  trampoline : Addr
  swapOriginal : Fin detourLen → Byte
  swapTrampoline : Addr
  swapHooked : Bool
  -- the arguments of `ExFreePool`, oldest first
  freed : List Addr

namespace Patch

/-- `g_Trampoline[i] = target[i]; g_SwapOriginal[i] = target[i]` -/
def saveByte (i : ℕ) (s : Patch) : Patch :=
  let s := { s with
    mem := Function.update s.mem (off s.trampoline i) (s.mem (off swapContextVa i)) }
  { s with
    swapOriginal := fun j => if j.val = i then s.mem (off swapContextVa i) else s.swapOriginal j }

def saveLoop : ℕ → Patch → Patch
  | 0, s => s
  | i + 1, s => saveByte i (saveLoop i s)

/-- `grant` is what the pool returns. Returns the result and `*Mismatch`. -/
def installSwapHook (grant swapDetour : Addr) (s : Patch) : (Bool × ℕ) × Patch :=
  let mismatch := swapMismatch s.mem
  if mismatch ≠ 0 then ((false, mismatch), s)
  else
    let s := { s with trampoline := grant }
    if s.trampoline = 0 then ((false, 0), s)
    else
      let s := saveLoop detourLen s
      let s := { s with mem := Function.update s.mem (off s.trampoline detourLen) 0xe9 }
      let delta := (swapContextVa + 5) - (s.trampoline + 5 + 5)
      let s := { s with mem := writeDword (off s.trampoline (detourLen + 1)) delta s.mem }
      let s := { s with swapTrampoline := s.trampoline }
      let delta := swapDetour - (swapContextVa + 5)
      let s := { s with mem := Function.update s.mem swapContextVa 0xe9 }
      let s := { s with mem := writeDword (off swapContextVa 1) delta s.mem }
      ((true, 0), { s with swapHooked := true })

def removeSwapHook (s : Patch) : Patch :=
  let s := if s.swapHooked then
      { s with mem := storeBytes swapContextVa detourLen s.swapOriginal s.mem, swapHooked := false }
    else s
  if s.trampoline ≠ 0 then { s with freed := s.freed ++ [s.trampoline], trampoline := 0 } else s

/-- The block at `t` shares no byte with the five of `SwapContext`. -/
def Beside (t : Addr) : Prop := ∀ i < detourLen + 5, ∀ j < detourLen, off t i ≠ off swapContextVa j

instance (t : Addr) : Decidable (Beside t) :=
  inferInstanceAs (Decidable (∀ i < detourLen + 5, ∀ j < detourLen, _))

/-- `SwapContext` begins with the bytes the driver knows. -/
def Expected (m : Mem) : Prop := ∀ i : Fin detourLen, m (off swapContextVa i) = swapExpected i

variable {s : Patch} {t d a : Addr} {k : ℕ}

theorem saveLoop_eq (h : Beside s.trampoline) (hk : k ≤ detourLen) : saveLoop k s = { s with
    mem := storeBytes s.trampoline k (fun i => s.mem (off swapContextVa i)) s.mem
    swapOriginal :=
  fun j => if j.val < k then s.mem (off swapContextVa j) else s.swapOriginal j } := by
  induction k with
  | zero => rfl
  | succ k ih =>
    -- the stores so far have missed the byte that is read
    have hread : storeBytes s.trampoline k (fun i => s.mem (off swapContextVa i)) s.mem
      (off swapContextVa k) =
        s.mem (off swapContextVa k) := storeBytes_of_ne fun i hi => (h i (by omega) k hk).symm
    have hkeep : ∀ v, Function.update
      (storeBytes s.trampoline k (fun i => s.mem (off swapContextVa i)) s.mem)
        (off s.trampoline k) v (off swapContextVa k) = s.mem (off swapContextVa k) := fun v => by
      rw [Function.update_of_ne (h k (by omega) k hk).symm]
      exact hread
    rw [saveLoop, ih (by omega)]
    simp only [saveByte, hread, hkeep]
    congr 1
    funext j
    by_cases hj : j.val = k
    · rw [if_pos hj, if_pos (by omega), hj]
    · rw [if_neg hj]
      exact if_congr (by omega) rfl rfl

/-- The bytes `f` at `t` and a jump back behind them. -/
def withTrampoline (t : Addr) (f : Fin detourLen → Byte) (m : Mem) : Mem :=
  writeJmp (off t detourLen) (off swapContextVa detourLen) (storeBytes t detourLen f m)

/-- Memory once the hook is in. -/
def hooked (t d : Addr) (m : Mem) : Mem :=
  writeJmp swapContextVa d (withTrampoline t (fun i => m (off swapContextVa i)) m)

theorem swapMismatch_eq_zero {m : Mem} : swapMismatch m = 0 ↔ Expected m := by
  unfold swapMismatch Expected
  cases hf : (List.finRange detourLen).find? fun (i : Fin detourLen) => m (off swapContextVa i) ≠
    swapExpected i with
  | none =>
    refine iff_of_true rfl fun i => ?_
    simpa using List.find?_eq_none.mp hf i (List.mem_finRange i)
  | some i =>
    refine iff_of_false (Nat.succ_ne_zero _) fun h => ?_
    have hne := List.find?_some hf
    exact absurd (h i) (by simpa using hne)

theorem swapMismatch_eq_succ {m : Mem} {i : Fin detourLen}
    (hi : m (off swapContextVa i) ≠ swapExpected i)
    (hbefore : ∀ j < i, m (off swapContextVa j) = swapExpected j) : swapMismatch m = i + 1 := by
  have hfind : (List.finRange detourLen).find? (fun (i : Fin detourLen) => m (off swapContextVa i) ≠
    swapExpected i) = some i := by
    rw [List.find?_eq_some_iff_getElem]
    refine ⟨by simpa using hi, i, by simp, by simp, fun j hj => ?_⟩
    have hlt : (⟨j, hj.trans i.isLt⟩ : Fin detourLen) < i := hj
    simpa using hbefore _ hlt
  rw [swapMismatch, hfind]

theorem installSwapHook_eq (h : Beside t) (hm : Expected s.mem) (ht : t ≠ 0) :
    s.installSwapHook t d = ((true, 0), { s with
    mem := hooked t d s.mem
    trampoline := t
    swapOriginal := swapExpected
    swapTrampoline := t
    swapHooked := true }) := by
  have hloop := saveLoop_eq (s := { s with trampoline := t }) h le_rfl
  have hback : (swapContextVa + 5) - (t + 5 + 5) = off swapContextVa detourLen -
    off (off t detourLen) 5 := rfl
  have hoff : off t (detourLen + 1) = off (off t detourLen) 1 := (off_off t detourLen 1).symm
  simp only [installSwapHook, swapMismatch_eq_zero.mpr hm, ht, ne_eq, not_true_eq_false, if_false,
    hloop, hback, hoff]
  have hsaved : (fun j : Fin detourLen => if j.val < detourLen then s.mem
    (off swapContextVa j) else s.swapOriginal j) =
      swapExpected := by
    funext j
    rw [if_pos j.isLt]
    exact hm j
  rw [hsaved]
  rfl

/-! ## The bytes -/

section Bytes

variable {m : Mem}

theorem withTrampoline_of_ne {f : Fin detourLen → Byte}
    (hblock : ∀ i < detourLen + 5, a ≠ off t i) : withTrampoline t f m a = m a := by
  rw [withTrampoline, writeJmp_of_ne, storeBytes_of_ne]
  · exact fun i hi => hblock i (by omega)
  · intro i hi
    rw [off_off]
    exact hblock (detourLen + i) (by omega)

theorem hooked_of_ne (hcode : ∀ j < detourLen, a ≠ off swapContextVa j)
    (hblock : ∀ i < detourLen + 5, a ≠ off t i) : hooked t d m a = m a := by
  rw [hooked, writeJmp_of_ne hcode]
  exact withTrampoline_of_ne hblock

/-- The hook misses the block. -/
theorem hooked_block (h : Beside t) {i : ℕ} (hi : i < detourLen + 5) :
    hooked t d m (off t i) = withTrampoline t (fun i => m (off swapContextVa i)) m (off t i) :=
  writeJmp_of_ne fun j hj => h i hi j hj

theorem hooked_displaced (h : Beside t) {i : ℕ} (hi : i < detourLen) :
    hooked t d m (off t i) = m (off swapContextVa i) := by
  rw [hooked_block h (by omega), withTrampoline, writeJmp_of_ne]
  · exact storeBytes_inside (by decide) ⟨i, hi⟩
  · intro j hj he
    rw [off_off] at he
    simp only [detourLen] at hi he
    have hij : i = 5 + j := off_inj (by omega) (by omega) he
    omega

theorem hooked_back (h : Beside t) :
    IsJmp (hooked t d m) (off t detourLen) (off swapContextVa detourLen) := by
  have hback : IsJmp (withTrampoline t (fun i => m (off swapContextVa i)) m) (off t detourLen)
    (off swapContextVa detourLen) :=
    isJmp_writeJmp
  apply (isJmp_congr fun i hi => ?_).mpr hback
  rw [off_off]
  exact hooked_block h (by omega)

/-- The five bytes go back over the jump. -/
theorem unhooked_of_ne {f : Fin detourLen → Byte} (hf : ∀ i, f i = m (off swapContextVa i))
    (hblock : ∀ i < detourLen + 5, a ≠ off t i) :
    storeBytes swapContextVa detourLen f (hooked t d m) a = m a := by
  by_cases hcode : ∃ j < detourLen, a = off swapContextVa j
  · obtain ⟨j, hj, rfl⟩ := hcode
    exact (storeBytes_inside (by decide) ⟨j, hj⟩).trans (hf ⟨j, hj⟩)
  · push Not at hcode
    rw [storeBytes_of_ne hcode]
    exact hooked_of_ne hcode hblock

end Bytes

/-- The hook leads to `d`, and the trampoline at `t` through the displaced bytes back. -/
structure Installed (s s' : Patch) (t d : Addr) : Prop where
  others : ∀ a, (∀ j < detourLen, a ≠ off swapContextVa j) → (∀ i < detourLen + 5, a ≠ off t i) →
    s'.mem a = s.mem a
  hook : IsJmp s'.mem swapContextVa d
  displaced : ∀ i < detourLen, s'.mem (off t i) = s.mem (off swapContextVa i)
  back : IsJmp s'.mem (off t detourLen) (off swapContextVa detourLen)
  swapHooked : s'.swapHooked = true
  trampoline : s'.trampoline = t
  swapTrampoline : s'.swapTrampoline = t
  freed : s'.freed = s.freed

/-- Nothing is left but what the freed block holds. -/
structure Removed (s s' : Patch) (t : Addr) : Prop where
  restored : ∀ a, (∀ i < detourLen + 5, a ≠ off t i) → s'.mem a = s.mem a
  swapHooked : s'.swapHooked = false
  trampoline : s'.trampoline = 0
  freed : s'.freed = s.freed ++ [t]
  once : s'.removeSwapHook = s'

theorem installed (h : Beside t) (hm : Expected s.mem) (ht : t ≠ 0) :
    (s.installSwapHook t d).1 = (true, 0) ∧ Installed s (s.installSwapHook t d).2 t d := by
  rw [installSwapHook_eq h hm ht]
  exact ⟨rfl, fun a hcode hblock => hooked_of_ne hcode hblock, isJmp_writeJmp,
    fun i hi => hooked_displaced h hi, hooked_back h,
    rfl, rfl, rfl, rfl⟩

theorem removed (h : Beside t) (hm : Expected s.mem) (ht : t ≠ 0) :
    Removed s (s.installSwapHook t d).2.removeSwapHook t := by
  rw [installSwapHook_eq h hm ht]
  simp only [removeSwapHook, if_true, ht, ne_eq, not_false_eq_true]
  refine ⟨fun a hblock => unhooked_of_ne (fun i => (hm i).symm) hblock, rfl, rfl, rfl, rfl⟩

/-- `InstallSwapHook` with the grant `t`, and `RemoveSwapHook` after it. -/
structure Reversible (s : Patch) (t d : Addr) : Prop where
  differs : ∀ i : Fin detourLen, s.mem (off swapContextVa i) ≠ swapExpected i →
    (∀ j < i, s.mem (off swapContextVa j) = swapExpected j) →
    s.installSwapHook t d = ((false, i.val + 1), s)
  refused : Expected s.mem → t = 0 → s.installSwapHook t d = ((false, 0), s)
  installed : Expected s.mem → t ≠ 0 → (s.installSwapHook t d).1 = (true, 0) ∧
    Installed s (s.installSwapHook t d).2 t d
  removed : Expected s.mem → t ≠ 0 → Removed s (s.installSwapHook t d).2.removeSwapHook t

end Patch

/-- For every memory and all addresses; `g_Trampoline` is NULL until the hook goes in. -/
theorem swapHook_reversible (s : Patch) (t d : Addr) (h0 : s.trampoline = 0)
    (ht : t ≠ 0 → Patch.Beside t) : s.Reversible t d := by
  refine ⟨fun i hi hbefore => ?_, fun hm hz => ?_, fun hm hn => Patch.installed (ht hn) hm hn,
    fun hm hn => Patch.removed (ht hn) hm hn⟩
  · have hmismatch := Patch.swapMismatch_eq_succ hi hbefore
    simp only [Patch.installSwapHook, hmismatch, ne_eq, Nat.succ_ne_zero, not_false_eq_true,
      if_true]
  · simp only [Patch.installSwapHook, Patch.swapMismatch_eq_zero.mpr hm, hz, ne_eq,
      not_true_eq_false, if_false, if_true]
    rw [← h0]

/-- The block wraps past the end of the address space. -/
theorem swapHook_reversible_wrapping :
    Patch.Reversible ⟨storeBytes swapContextVa detourLen swapExpected fun _ => 0, 0, fun _ => 0, 0,
      false, []⟩ 0xfffffffc 0xfc8a2000 :=
  swapHook_reversible _ _ _ rfl fun _ => by decide +kernel

/-! ## The patch of the whole driver -/

/-- The address space of `s`: the block at `t` is pool memory, all else is code. -/
structure Flat (t : Addr) (s : System) (p : Patch) : Prop where
  code : ∀ a, (∀ i < detourLen + 5, a ≠ off t i) → p.mem a = s.ctl.text a
  block : ∀ i < detourLen + 5, p.mem (off t i) = s.trap.data.mem (off t i)
  trampoline : p.trampoline = s.ctl.trampoline
  swapOriginal : p.swapOriginal = s.ctl.swapOriginal
  swapTrampoline : p.swapTrampoline = s.ctl.swapTrampoline
  swapHooked : p.swapHooked = s.ctl.swapHooked

variable {E : Env} {s : System} {p : Patch} {t : Addr}

theorem Flat.displaced (h : Flat t s p) (hb : Patch.Beside t) {j : ℕ} (hj : j < detourLen) :
    p.mem (off swapContextVa j) = s.ctl.text (off swapContextVa j) :=
  h.code _ fun i hi => (hb i hi j hj).symm

theorem wp_interrupts_quiet (hquiet : ∀ q, E.sched q = []) {q : Point} {Q : Unit → System → Prop} :
    wp (interrupts E q) (fun _ => True) Q s ↔ Q () s := by
  rw [interrupts, hquiet q, wp_point]
  exact and_iff_right fun _ _ => trivial

/-- Without interrupts `InstallSwapHook` does to the two memories what it does to one. -/
theorem installSwapHook_flat (hquiet : ∀ q, E.sched q = []) (h : Flat t s p) (hb : Patch.Beside t)
    (ht : (s.trap.data.heap.alloc (detourLen + 5)).1 = t) :
    (installSwapHook E s).result = (p.installSwapHook t E.swapDetour).1 ∧
      (t ≠ 0 → Flat t (installSwapHook E s).state (p.installSwapHook t E.swapDetour).2) := by
  have hmismatch : swapMismatch p.mem = swapMismatch s.ctl.text := by
    unfold swapMismatch
    simp only [h.displaced hb (Fin.isLt _)]
  suffices hwp : wp (installSwapHook E) (fun _ => True)
    (fun r s' => r = (p.installSwapHook t E.swapDetour).1 ∧
      (t ≠ 0 → Flat t s' (p.installSwapHook t E.swapDetour).2)) s from hwp.2
  unfold installSwapHook
  simp only [wp_bind, wp_read]
  by_cases hm : swapMismatch s.ctl.text = 0
  · rcases ha : s.trap.data.heap.alloc (detourLen + 5) with ⟨t', heap⟩
    rw [ha] at ht
    obtain rfl : t' = t := ht
    rw [if_neg (not_not.mpr hm)]
    simp only [wp_bind, wp_call, allocTrampoline, ha]
    by_cases h0 : t' = 0
    · rw [if_pos h0, wp_pure]
      simp only [Patch.installSwapHook, hmismatch, hm, h0, ne_eq, not_true_eq_false, if_false,
        if_true, true_and]
      exact False.elim
    · have hexpected : Patch.Expected p.mem := Patch.swapMismatch_eq_zero.mp (hmismatch.trans hm)
      rw [if_neg h0, Patch.installSwapHook_eq hb hexpected h0]
      simp only [wp_bind, wp_write, wp_interrupts_quiet hquiet, wp_pure]
      refine ⟨trivial, fun _ => ?_⟩
      have hdisplaced : (fun i : Fin detourLen => p.mem (off swapContextVa i)) =
        fun i : Fin detourLen => s.ctl.text (off swapContextVa i) :=
        funext fun i => h.displaced hb i.isLt
      refine ⟨fun a ha => ?_, fun i hi => ?_, rfl, ?_, rfl, rfl⟩
      · exact writeJmp_congr ((Patch.withTrampoline_of_ne ha).trans (h.code a ha))
      · apply (Patch.hooked_block hb hi).trans
        rw [hdisplaced]
        exact writeJmp_congr (storeBytes_congr (h.block i hi))
      · show swapExpected = fun i : Fin detourLen => s.ctl.text (off swapContextVa i)
        rw [← hdisplaced]
        exact funext fun i => (hexpected i).symm
  · rw [if_pos hm, wp_pure]
    simp only [Patch.installSwapHook, hmismatch, hm, ne_eq, not_false_eq_true, if_true, true_and]
    exact fun _ => h

/-- Putting the bytes back, in both. -/
theorem Flat.restore (h : Flat t s p) (hb : Patch.Beside t) :
    Flat t
      (s.setCtl fun c => { c with
        text := storeBytes swapContextVa detourLen c.swapOriginal c.text, swapHooked := false })
      { p with
        mem := storeBytes swapContextVa detourLen p.swapOriginal p.mem, swapHooked := false } := by
  refine ⟨fun a ha => ?_, fun i hi => ?_, h.trampoline, h.swapOriginal, h.swapTrampoline, rfl⟩
  · show storeBytes swapContextVa detourLen p.swapOriginal p.mem a =
      storeBytes swapContextVa detourLen s.ctl.swapOriginal s.ctl.text a
    rw [h.swapOriginal]
    exact storeBytes_congr (h.code a ha)
  · exact (storeBytes_of_ne fun j hj => hb i hi j hj).trans (h.block i hi)

theorem removeSwapHook_flat (hquiet : ∀ q, E.sched q = []) (h : Flat t s p) (hb : Patch.Beside t) :
    Flat t (removeSwapHook E s).state p.removeSwapHook := by
  suffices hwp : wp (removeSwapHook E) (fun _ => True) (fun _ s' => Flat t s' p.removeSwapHook) s
    from hwp.2
  -- the second half of both, on what the first left
  have hfree : ∀ {s p}, Flat t s p → wp (if s.ctl.trampoline ≠ 0 then do
        write freeTrampoline
        interrupts E .trampolineFreed
      else pure ()) (fun _ => True)
      (fun _ s' => Flat t s' (if p.trampoline ≠ 0 then
        { p with freed := p.freed ++ [p.trampoline], trampoline := 0 } else p)) s := by
    intro s p h
    rw [← h.trampoline]
    by_cases h0 : p.trampoline = 0
    · rw [if_neg (not_not.mpr h0), if_neg (not_not.mpr h0), wp_pure]
      exact h
    · rw [if_pos h0, if_pos h0]
      simp only [wp_bind, wp_write, wp_interrupts_quiet hquiet]
      exact ⟨h.code, h.block, rfl, h.swapOriginal, h.swapTrampoline, h.swapHooked⟩
  unfold removeSwapHook Patch.removeSwapHook
  simp only [wp_bind, wp_read, ← h.swapHooked]
  cases hh : p.swapHooked with
  | true =>
    simp only [if_true, wp_bind, wp_write, wp_interrupts_quiet hquiet, wp_read]
    exact hfree (h.restore hb)
  | false =>
    simp only [Bool.false_eq_true, if_false, wp_bind, wp_read]
    exact hfree h

end Nt351.Driver
