import Nt351Sse.Base.X86

/-! Frame rules for `X86`: the registers an instruction may change, what holds of a block of
instructions if it holds of each, and what the stack holds from ESP upwards. -/

namespace Nt351.X86
open Memory

variable {φ L F β : Type} {M : Machine φ F} {s s' : State φ} {o : Op} {ops : List Op} {r : Gpr}

/-! ## Straight code -/

theorem steps_cons (o : Op) (ops : List Op) : steps M s (o :: ops) = steps M (step M s o) ops := rfl

theorem steps_nil : steps M s [] = s := rfl

theorem steps_append (ops ops' : List Op) : steps M s (ops ++ ops') =
    steps M (steps M s ops) ops' := List.foldl_append

theorem steps_concat (ops : List Op) (o : Op) :
    steps M s (ops.concat o) = step M (steps M s ops) o := by
  rw [List.concat_eq_append, steps_append]
  rfl

theorem steps_keep {f : State φ → β} (h : ∀ o ∈ ops, ∀ s, f (step M s o) = f s) :
    f (steps M s ops) = f s := by
  induction ops generalizing s with
  | nil => rfl
  | cons o ops ih =>
    show f (steps M (step M s o) ops) = f s
    rw [ih fun o ho => h o (List.mem_cons_of_mem _ ho)]
    exact h o List.mem_cons_self s

section Run

variable [DecidableEq L] {l : L} {c : List (Instr L F)}

theorem run_ops (ops : List Op) (c : List (Instr L F)) (s : State φ) :
    run M (ops.map .op ++ c) s = run M c (steps M s ops) := by
  induction ops generalizing s with
  | nil => rfl
  | cons o ops ih =>
    rw [List.map_cons, List.cons_append, run, ih]
    rfl

theorem after_ops (l : L) (ops : List Op) (c : List (Instr L F)) :
    after l (ops.map .op ++ c) = after l c := by
  induction ops with
  | nil => rfl
  | cons o ops ih => exact ih

end Run

/-! ## Registers -/

namespace Op

/-- The general registers the instruction may change. -/
def writes : Op → List Gpr
  | push _ | pushImm _ | pushSeg _ | pushfd | popfd | pushad => [.esp]
  | pop r => [.esp, r]
  | popad => [.eax, .ecx, .edx, .ebx, .esp, .ebp, .esi, .edi]
  | mov d _ | movImm d _ | movImm16 d _ | load d _ | loadFs d _ | movFromCr0 d => [d]
  | and d _ | or d _ | xor d _ | add d _ | sub d _ => [d]
  | repMovsb => [.esi, .edi, .ecx]
  | repStosb => [.edi, .ecx]
  | store _ _ | storeImm _ _ | storeImm16 _ _ | movSeg _ _ | movToCr0 _ | incMem _ | cli | cld
  | fxsave _ | fxrstor _ => []

/-- What else it may change, memory and the arithmetic flags aside. -/
def system : Op → Bool
  | movSeg _ _ | movToCr0 _ | fxrstor _ | cli | cld | popfd => true
  | _ => false

/-- The instruction may write to memory. -/
def stores : Op → Bool
  | push _ | pushImm _ | pushSeg _ | pushfd | pushad | store _ _ | storeImm _ _ | storeImm16 _ _
  | incMem _ | repMovsb | repStosb
  | fxsave _ => true
  | _ => false

end Op

namespace State

@[simp] theorem setReg_reg_self (v : BitVec 32) : (s.setReg r v).reg r = v :=
  Function.update_self ..

theorem setReg_reg_of_ne {r' : Gpr} (h : r ≠ r') (v : BitVec 32) : (s.setReg r' v).reg r =
    s.reg r := Function.update_of_ne h ..

@[simp] theorem setReg_mem (v : BitVec 32) : (s.setReg r v).mem = s.mem := rfl

@[simp] theorem setFlags_reg (f : Eflags) : (s.setFlags f).reg = s.reg := rfl

@[simp] theorem setMem_reg (m : Mem) : (s.setMem m).reg = s.reg := rfl

@[simp] theorem setMem_mem (m : Mem) : (s.setMem m).mem = m := rfl

@[simp] theorem setFlags_mem (f : Eflags) : (s.setFlags f).mem = s.mem := rfl

theorem push_esp (v : BitVec 32) : (s.push v).reg .esp = s.reg .esp - 4 :=
  setReg_reg_self (s := s) (r := .esp) _

theorem push_reg_of_ne (h : r ≠ .esp) (v : BitVec 32) : (s.push v).reg r = s.reg r :=
  setReg_reg_of_ne h _

theorem drop_reg_of_ne (h : r ≠ .esp) : s.drop.reg r = s.reg r := setReg_reg_of_ne h _

theorem pop_reg_of_ne {r' : Gpr} (h : r ≠ .esp) (h' : r ≠ r') : (s.pop r').reg r = s.reg r := by
  rw [pop, setReg_reg_of_ne h', drop_reg_of_ne h]

end State

open State

theorem step_reg (h : r ∉ o.writes) : (step M s o).reg r = s.reg r := by
  cases o with
  | pop r' =>
    simp only [Op.writes, List.mem_cons, List.not_mem_nil, or_false, not_or] at h
    exact pop_reg_of_ne h.1 h.2
  | popad => exact absurd (by cases r <;> decide) h
  | pushad =>
    simp only [Op.writes, List.mem_singleton] at h
    simp only [step, State.pushad, List.foldl_cons, List.foldl_nil, push_reg_of_ne h]
  | repMovsb =>
    simp only [Op.writes, List.mem_cons, List.not_mem_nil, or_false, not_or] at h
    simp only [step]
    split
    · simp only [setReg_reg_of_ne h.1, setReg_reg_of_ne h.2.1, setReg_reg_of_ne h.2.2, setMem_reg]
    · simp only [setReg_reg_of_ne h.1, setReg_reg_of_ne h.2.1, setReg_reg_of_ne h.2.2, setMem_reg]
  | repStosb =>
    simp only [Op.writes, List.mem_cons, List.not_mem_nil, or_false, not_or] at h
    simp only [step]
    split
    · simp only [setReg_reg_of_ne h.1, setReg_reg_of_ne h.2, setMem_reg]
    · simp only [setReg_reg_of_ne h.1, setReg_reg_of_ne h.2, setMem_reg]
  | _ =>
    simp only [Op.writes, List.mem_singleton, List.not_mem_nil, not_false_eq_true] at h
    first
      | rfl
      | exact setReg_reg_of_ne h _

theorem steps_reg (h : ∀ o ∈ ops, r ∉ o.writes) : (steps M s ops).reg r = s.reg r :=
  steps_keep (f := fun s => s.reg r) fun o ho _ => step_reg (h o ho)

@[simp] theorem step_or_self_reg : (step M s (.or r r)).reg = s.reg := by
  funext r'
  by_cases h : r' = r
  · subst h
    exact (setReg_reg_self _).trans BitVec.or_self
  · exact setReg_reg_of_ne h _

@[simp] theorem step_or_self_zf : (step M s (.or r r)).flags.zf = decide (s.reg r = 0) := by
  show decide (s.reg r ||| s.reg r = 0) = decide (s.reg r = 0)
  rw [BitVec.or_self]

theorem test_reg (p : Addr) : (steps M s (testVar r p)).reg r = readDword s.mem p := by
  rw [testVar, steps_cons, steps_cons, steps_nil, step_or_self_reg]
  exact setReg_reg_self _

theorem test_zf (p : Addr) :
    (steps M s (testVar r p)).flags.zf = decide (readDword s.mem p = 0) := by
  rw [testVar, steps_cons, steps_cons, steps_nil, step_or_self_zf]
  exact congrArg (fun v => decide (v = 0)) (setReg_reg_self _)

/-- CR0, the segment registers, DF, IF and the FPU. -/
def systemState (s : State φ) : BitVec 32 × (Sreg → BitVec 16) × Bool × Bool × φ :=
  (s.cr0, s.seg, s.flags.df, s.flags.intr, s.fpu)

theorem step_system (h : o.system = false) : systemState (step M s o) = systemState s := by
  cases o with
  | repMovsb =>
    simp only [step]
    split
    · rfl
    · rfl
  | repStosb =>
    simp only [step]
    split
    · rfl
    · rfl
  | _ => first
    | rfl
    | exact nomatch (h : true = false)

theorem steps_system (h : ∀ o ∈ ops, o.system = false) :
    systemState (steps M s ops) = systemState s :=
  steps_keep fun o ho _ => step_system (h o ho)

theorem steps_seg (h : ∀ o ∈ ops, o.system = false) : (steps M s ops).seg = s.seg :=
  congrArg (fun t : BitVec 32 × (Sreg → BitVec 16) × Bool × Bool × φ => t.2.1) (steps_system h)

theorem steps_df (h : ∀ o ∈ ops, o.system = false) : (steps M s ops).flags.df = s.flags.df :=
  congrArg (fun t : BitVec 32 × (Sreg → BitVec 16) × Bool × Bool × φ => t.2.2.1) (steps_system h)

theorem step_mem (h : o.stores = false) : (step M s o).mem = s.mem := by
  cases o with
  | _ => first
    | rfl
    | exact nomatch (h : true = false)

theorem steps_mem (h : ∀ o ∈ ops, o.stores = false) : (steps M s ops).mem = s.mem :=
  steps_keep fun o ho _ => step_mem (h o ho)

/-! ## String instructions -/

theorem movsb_of_ne {p d a : Addr} {m : Mem} {n : ℕ} (h : ∀ i < n, a ≠ off d i) :
    movsb p d m n a = m a := by
  induction n with
  | zero => rfl
  | succ n ih =>
    rw [movsb, Function.update_of_ne (h n (Nat.lt_succ_self n))]
    exact ih fun i hi => h i (Nat.lt_succ_of_lt hi)

theorem movsbDown_of_ne {p d a : Addr} {m : Mem} {n : ℕ} (h : ∀ i < n, a ≠ d - BitVec.ofNat 32 i) :
    movsbDown p d m n a = m a := by
  induction n with
  | zero => rfl
  | succ n ih =>
    rw [movsbDown, Function.update_of_ne (h n (Nat.lt_succ_self n))]
    exact ih fun i hi => h i (Nat.lt_succ_of_lt hi)

theorem stosbDown_of_ne {d a : Addr} {v : Byte} {m : Mem} {n : ℕ}
    (h : ∀ i < n, a ≠ d - BitVec.ofNat 32 i) : stosbDown d v m n a = m a := by
  induction n with
  | zero => rfl
  | succ n ih =>
    rw [stosbDown, Function.update_of_ne (h n (Nat.lt_succ_self n))]
    exact ih fun i hi => h i (Nat.lt_succ_of_lt hi)

theorem step_repMovsb_mem {a : Addr}
    (hup : s.flags.df = false → ∀ i < (s.reg .ecx).toNat, a ≠ off (s.reg .edi) i)
    (hdown : s.flags.df = true → ∀ i < (s.reg .ecx).toNat, a ≠ s.reg .edi - BitVec.ofNat 32 i) :
    (step M s .repMovsb).mem a = s.mem a := by
  simp only [step]
  split
  · next h => exact movsbDown_of_ne (hdown h)
  · next h => exact movsb_of_ne (hup (Bool.not_eq_true _ ▸ h))

theorem step_repStosb_mem {a : Addr}
    (hup : s.flags.df = false → ∀ i < (s.reg .ecx).toNat, a ≠ off (s.reg .edi) i)
    (hdown : s.flags.df = true → ∀ i < (s.reg .ecx).toNat, a ≠ s.reg .edi - BitVec.ofNat 32 i) :
    (step M s .repStosb).mem a = s.mem a := by
  simp only [step]
  split
  · next h => exact stosbDown_of_ne (hdown h)
  · next h => exact storeBytes_of_ne (hup (Bool.not_eq_true _ ▸ h))

theorem step_repMovsb_up (hdf : s.flags.df = false) :
    (step M s .repMovsb).mem = movsb (s.reg .esi) (s.reg .edi) s.mem (s.reg .ecx).toNat := by
  simp only [step, hdf]
  rfl

theorem step_repStosb_up (hdf : s.flags.df = false) :
    (step M s .repStosb).mem = stosb (s.reg .edi) ((s.reg .eax).setWidth 8) s.mem
      (s.reg .ecx).toNat := by
  simp only [step, hdf]
  rfl

theorem steps_rep_mem {a d : Addr} {c : BitVec 32} (ho : o = .repMovsb ∨ o = .repStosb)
    (hstores : ∀ o ∈ ops, o.stores = false) (hedi : (steps M s ops).reg .edi = d)
    (hecx : (steps M s ops).reg .ecx = c)
    (hup : (steps M s ops).flags.df = false → ∀ i < c.toNat, a ≠ off d i)
    (hdown : (steps M s ops).flags.df = true → ∀ i < c.toNat, a ≠ d - BitVec.ofNat 32 i) :
    (steps M s (ops.concat o)).mem a = s.mem a := by
  subst hedi hecx
  rw [steps_concat, ← steps_mem (M := M) (s := s) hstores]
  rcases ho with rfl | rfl
  · exact step_repMovsb_mem hup hdown
  · exact step_repStosb_mem hup hdown

/-! ## The stack -/

/-- The bytes of a dword in memory order. -/
def dwordBytes (v : BitVec 32) : List Byte :=
  [dwordByte v 0, dwordByte v 1, dwordByte v 2, dwordByte v 3]

theorem dwordBytes_length (v : BitVec 32) : (dwordBytes v).length = 4 := rfl

theorem dwordBytes_get (v : BitVec 32) {bs : List Byte} {i : ℕ} (hi : i < 4) :
    (dwordBytes v ++ bs).getD i 0 = dwordByte v i := by
  interval_cases i
  all_goals rfl

/-- The stack is the `size` bytes at `low`; from ESP upwards it holds `bs`. -/
structure OnStack (low : Addr) (size : ℕ) (s : State φ) (bs : List Byte) : Prop where
  le : bs.length ≤ size
  esp : s.reg .esp = off low (size - bs.length)
  byte : ∀ i < bs.length, s.mem (off low (size - bs.length + i)) = bs.getD i 0

section Stack

variable {low : Addr} {size : ℕ} {bs : List Byte} {v : BitVec 32}

theorem off_sub_ofNat {k n : ℕ} (h : n ≤ k) : off low k - BitVec.ofNat 32 n = off low (k - n) := by
  have hk : off low k = off (off low (k - n)) n := by rw [off_off, Nat.sub_add_cancel h]
  rw [hk]
  exact BitVec.add_sub_cancel _ _

theorem off_sub_four {k : ℕ} (h : 4 ≤ k) : off low k - 4 = off low (k - 4) := off_sub_ofNat h

theorem off_add_four {k : ℕ} : off low k + 4 = off low (k + 4) := off_off low k 4

theorem onStack_of_esp {k : ℕ} (hk : k ≤ size) (hesp : s.reg .esp = off low k) :
    OnStack low size s ((List.range (size - k)).map fun i => s.mem (off low (k + i))) := by
  have hlen : ((List.range (size - k)).map fun i => s.mem (off low (k + i))).length = size - k := by
    rw [List.length_map, List.length_range]
  have hle : size - (size - k) = k := Nat.sub_sub_self hk
  refine ⟨hlen.le.trans (Nat.sub_le _ _), ?_, fun i hi => ?_⟩
  · rw [hlen, hle]
    exact hesp
  · rw [hlen] at hi ⊢
    rw [hle, List.getD_eq_getElem _ _ (hlen.symm ▸ hi), List.getElem_map, List.getElem_range]

/-- From ESP upwards the two states hold the same bytes. -/
theorem OnStack.agree (h : OnStack low size s bs) (h' : OnStack low size s' bs) :
    s'.reg .esp = s.reg .esp ∧ ∀ i < bs.length, s'.mem (off (s.reg .esp) i) =
      s.mem (off (s.reg .esp) i) := by
  refine ⟨h'.esp.trans h.esp.symm, fun i hi => ?_⟩
  rw [h.esp, off_off, h.byte i hi, h'.byte i hi]

/-- Neither ESP nor the stack changes. -/
theorem OnStack.keep (h : OnStack low size s bs) (hesp : s'.reg .esp = s.reg .esp)
    (hmem : ∀ i < size, s'.mem (off low i) = s.mem (off low i)) : OnStack low size s' bs := by
  refine ⟨h.le, hesp.trans h.esp, fun i hi => ?_⟩
  have hle := h.le
  rw [hmem _ (by omega)]
  exact h.byte i hi

theorem OnStack.push (h : OnStack low size s bs) (hsize : size ≤ 2 ^ 32)
    (hroom : bs.length + 4 ≤ size) (v : BitVec 32) :
    OnStack low size (s.push v) (dwordBytes v ++ bs) := by
  have hlen : (dwordBytes v ++ bs).length = bs.length + 4 := by
    rw [List.length_append, dwordBytes_length, Nat.add_comm]
  have hsp : s.reg .esp - 4 = off low (size - (bs.length + 4)) := by
    rw [h.esp, off_sub_four (by omega), Nat.sub_sub]
  refine ⟨hlen ▸ hroom, ?_, fun i hi => ?_⟩
  · rw [hlen]
    exact (push_esp v).trans hsp
  · rw [hlen] at hi ⊢
    show writeDword (s.reg .esp - 4) v s.mem _ = _
    rw [hsp]
    by_cases h4 : i < 4
    · rw [dwordBytes_get v h4, ← off_off]
      exact writeDword_byte h4
    · have hget : (dwordBytes v ++ bs).getD i 0 = bs.getD (i - 4) 0 :=
        List.getD_append_right _ _ _ _ (not_lt.mp h4)
      have hi' : size - (bs.length + 4) + i = size - bs.length + (i - 4) := by omega
      rw [hget, ← h.byte (i - 4) (by omega), hi', writeDword_of_ne]
      intro k hk he
      rw [off_off] at he
      have heq := off_inj (by omega) (by omega) he
      omega

theorem OnStack.top (h : OnStack low size s (dwordBytes v ++ bs)) : s.top = v := by
  rw [State.top, h.esp]
  apply readDword_of_bytes
  intro i hi
  rw [off_off, h.byte i (by rw [List.length_append]; exact Nat.lt_add_right _ hi)]
  exact dwordBytes_get v hi

theorem OnStack.drop (h : OnStack low size s (dwordBytes v ++ bs)) :
    OnStack low size s.drop bs := by
  have hlen : (dwordBytes v ++ bs).length = bs.length + 4 := by
    rw [List.length_append, dwordBytes_length, Nat.add_comm]
  have hle : bs.length + 4 ≤ size := hlen ▸ h.le
  refine ⟨by omega, ?_, fun i hi => ?_⟩
  · have hesp : s.drop.reg .esp = s.reg .esp + 4 := setReg_reg_self _
    rw [hesp, h.esp, hlen, off_add_four]
    congr 1
    omega
  · have hb := h.byte (i + 4) (by omega)
    have hget : (dwordBytes v ++ bs).getD (i + 4) 0 = bs.getD i 0 :=
      List.getD_append_right _ _ _ _ (Nat.le_add_left 4 i)
    have hi' : size - (bs.length + 4) + (i + 4) = size - bs.length + i := by omega
    rw [hget, hlen, hi'] at hb
    exact hb

theorem OnStack.setReg (h : OnStack low size s bs) (hr : r ≠ .esp) (v : BitVec 32) :
    OnStack low size (s.setReg r v) bs :=
  h.keep (setReg_reg_of_ne hr.symm v) fun _ _ => rfl

theorem OnStack.pop (h : OnStack low size s (dwordBytes v ++ bs)) (hr : r ≠ .esp) :
    OnStack low size (s.pop r) bs :=
  h.drop.setReg hr _

theorem OnStack.pop_reg (h : OnStack low size s (dwordBytes v ++ bs)) : (s.pop r).reg r = v :=
  (setReg_reg_self _).trans h.top

/-- Code that neither moves ESP nor stores to the stack. -/
theorem OnStack.body (h : OnStack low size s bs) (hesp : ∀ o ∈ ops, .esp ∉ o.writes)
    (hmem : ∀ i < size, (steps M s ops).mem (off low i) = s.mem (off low i)) :
    OnStack low size (steps M s ops) bs :=
  h.keep (steps_reg hesp) hmem

theorem OnStack.pushes (h : OnStack low size s bs) (hsize : size ≤ 2 ^ 32) (vs : List (BitVec 32))
    (hroom : bs.length + 4 * vs.length ≤ size) :
    OnStack low size (vs.foldl (fun s v => s.push v) s) (vs.reverse.flatMap dwordBytes ++ bs) := by
  induction vs generalizing s bs with
  | nil => exact h
  | cons v vs ih =>
    rw [List.length_cons] at hroom
    have hrest := ih (h.push hsize (by omega) v)
      (by rw [List.length_append, dwordBytes_length]; omega)
    rw [List.reverse_cons, List.flatMap_append, List.append_assoc, List.flatMap_singleton]
    exact hrest

/-- What `pushad` leaves on the stack. -/
def pushadBytes (g : Gpr → BitVec 32) : List Byte :=
  [g .edi, g .esi, g .ebp, g .esp, g .ebx, g .edx, g .ecx, g .eax].flatMap dwordBytes

theorem OnStack.pushad (h : OnStack low size s bs) (hsize : size ≤ 2 ^ 32)
    (hroom : bs.length + 32 ≤ size) :
    OnStack low size s.pushad (pushadBytes s.reg ++ bs) := h.pushes hsize _ hroom

theorem OnStack.popad {g : Gpr → BitVec 32} (h : OnStack low size s (pushadBytes g ++ bs)) :
    OnStack low size s.popad bs ∧ ∀ r ≠ .esp, s.popad.reg r = g r := by
  have hedi : OnStack low size s (dwordBytes (g .edi) ++ _) := h
  have hesi : OnStack low size _ (dwordBytes (g .esi) ++ _) := hedi.pop (r := .edi) (by decide)
  have hebp : OnStack low size _ (dwordBytes (g .ebp) ++ _) := hesi.pop (r := .esi) (by decide)
  have hesp : OnStack low size _ (dwordBytes (g .esp) ++ _) := hebp.pop (r := .ebp) (by decide)
  have hebx : OnStack low size _ (dwordBytes (g .ebx) ++ _) := hesp.drop
  have hedx : OnStack low size _ (dwordBytes (g .edx) ++ _) := hebx.pop (r := .ebx) (by decide)
  have hecx : OnStack low size _ (dwordBytes (g .ecx) ++ _) := hedx.pop (r := .edx) (by decide)
  have heax : OnStack low size _ (dwordBytes (g .eax) ++ bs) := hecx.pop (r := .ecx) (by decide)
  refine ⟨heax.pop (by decide), fun r hr => ?_⟩
  cases r with
  | esp => exact absurd rfl hr
  | eax => exact heax.pop_reg
  | ecx =>
    simp only [State.popad, pop_reg_of_ne, ne_eq, reduceCtorEq, not_false_eq_true]
    exact hecx.pop_reg
  | edx =>
    simp only [State.popad, pop_reg_of_ne, ne_eq, reduceCtorEq, not_false_eq_true]
    exact hedx.pop_reg
  | ebx =>
    simp only [State.popad, pop_reg_of_ne, ne_eq, reduceCtorEq, not_false_eq_true]
    exact hebx.pop_reg
  | ebp =>
    simp only [State.popad, pop_reg_of_ne, drop_reg_of_ne, ne_eq, reduceCtorEq, not_false_eq_true]
    exact hebp.pop_reg
  | esi =>
    simp only [State.popad, pop_reg_of_ne, drop_reg_of_ne, ne_eq, reduceCtorEq, not_false_eq_true]
    exact hesi.pop_reg
  | edi =>
    simp only [State.popad, pop_reg_of_ne, drop_reg_of_ne, ne_eq, reduceCtorEq, not_false_eq_true]
    exact hedi.pop_reg

theorem steps_around {r' : Gpr} : steps M s (around r r' ops) =
    (((steps M (steps M s [.push r, .push r']) ops).pop r').pop r) := by
  rw [around, steps_cons, steps_cons, steps_concat, steps_concat]
  rfl

/-- The body leaves the stack alone. -/
theorem OnStack.saved {r' : Gpr} (h : OnStack low size s bs) (hsize : size ≤ 2 ^ 32)
    (hroom : bs.length + 8 ≤ size)
    (hr : r ≠ .esp) (hr' : r' ≠ .esp) (hne : r ≠ r') (hesp : ∀ o ∈ ops, .esp ∉ o.writes)
    (hmem : ∀ i < size, (steps M (steps M s [.push r, .push r']) ops).mem (off low i) =
      (steps M s [.push r, .push r']).mem (off low i)) :
    OnStack low size (steps M s (around r r' ops)) bs ∧ (steps M s (around r r' ops)).reg r =
    s.reg r ∧
      (steps M s (around r r' ops)).reg r' = s.reg r' := by
  have hpush : OnStack low size (steps M s [.push r, .push r']) (dwordBytes (s.reg r') ++
    (dwordBytes (s.reg r) ++ bs)) := by
    show OnStack low size ((s.push (s.reg r)).push ((s.push (s.reg r)).reg r')) _
    rw [push_reg_of_ne hr']
    apply (h.push hsize (by omega) (s.reg r)).push hsize
    rw [List.length_append, dwordBytes_length]
    omega
  have hbody := hpush.body hesp hmem
  have hpop := hbody.pop hr'
  rw [steps_around]
  refine ⟨hpop.pop hr, hpop.pop_reg, ?_⟩
  exact (pop_reg_of_ne hr' hne.symm).trans hbody.pop_reg

/-! ## Calls -/

/-- What a `__stdcall` routine without arguments keeps: it returns by `ret`, it stores only to
`data` and to its own frame of `depth` bytes and the return address. -/
structure Stdcall (data : Addr → Prop) (depth : ℕ) (s s' : State φ) : Prop where
  esp : s'.reg .esp = s.reg .esp + 4
  ebx : s'.reg .ebx = s.reg .ebx
  ebp : s'.reg .ebp = s.reg .ebp
  esi : s'.reg .esi = s.reg .esi
  edi : s'.reg .edi = s.reg .edi
  seg : s'.seg = s.seg
  cr0 : s'.cr0 = s.cr0
  mem : ∀ a, ¬ data a → (∀ i < depth + 4, a ≠ off (s.reg .esp - BitVec.ofNat 32 depth) i) →
    s'.mem a = s.mem a

/-- `f` keeps the convention wherever its frame is none of its data. -/
def IsStdcall (data : Addr → Prop) (depth : ℕ) (f : State φ → State φ) : Prop :=
  ∀ s, (∀ i < depth + 4, ¬ data (off (s.reg .esp - BitVec.ofNat 32 depth) i)) →
    Stdcall data depth s (f s)

theorem OnStack.frame (h : OnStack low size s (dwordBytes v ++ bs)) {depth i : ℕ}
    (hroom : bs.length + 4 + depth ≤ size) :
    off (s.reg .esp - BitVec.ofNat 32 depth) i = off low (size - (bs.length + 4 + depth) + i) := by
  have hlen : (dwordBytes v ++ bs).length = bs.length + 4 := by
    rw [List.length_append, dwordBytes_length, Nat.add_comm]
  rw [h.esp, hlen, off_sub_ofNat (by omega), off_off, Nat.sub_sub]

theorem OnStack.call {data : Addr → Prop} {depth : ℕ} {f : State φ → State φ}
    (h : OnStack low size s bs) (hsize : size ≤ 2 ^ 32) (hroom : bs.length + 4 + depth ≤ size)
    (hdata : ∀ i < size, ¬ data (off low i)) (hf : IsStdcall data depth f) (ret : Addr) :
    OnStack low size (f (s.push ret)) bs ∧ Stdcall data depth (s.push ret) (f (s.push ret)) := by
  have hpush := h.push hsize (by omega) ret
  have hcall : Stdcall data depth (s.push ret) (f (s.push ret)) := by
    apply hf
    intro i hi
    rw [hpush.frame hroom]
    exact hdata _ (by omega)
  refine ⟨⟨h.le, hcall.esp.trans ?_, fun i hi => ?_⟩, hcall⟩
  · rw [push_esp, h.esp]
    exact BitVec.sub_add_cancel _ _
  · rw [hcall.mem _ (hdata _ (by omega)), ← h.byte i hi]
    · -- the return address lies below
      apply writeDword_of_ne
      intro k hk he
      rw [h.esp, off_sub_four (by omega), off_off] at he
      have heq := off_inj (by omega) (by omega) he
      omega
    · intro k hk he
      rw [hpush.frame hroom] at he
      have heq := off_inj (by omega) (by omega) he
      omega

end Stack

/-! ## Code that builds a frame -/

/-- ESP moved down by `n`, and only the `n` bytes from ESP were stored to. -/
structure Grown (n : ℕ) (s s' : State φ) : Prop where
  esp : s.reg .esp = off (s'.reg .esp) n
  mem : ∀ a, (∀ i < n, a ≠ off (s'.reg .esp) i) → s'.mem a = s.mem a

section Growth

variable {n m : ℕ}

theorem Grown.refl (s : State φ) : Grown 0 s s := ⟨(off_zero _).symm, fun _ _ => rfl⟩

theorem Grown.trans {s'' : State φ} (h : Grown n s s') (h' : Grown m s' s'') :
    Grown (n + m) s s'' := by
  have hesp : ∀ i, off (s'.reg .esp) i = off (s''.reg .esp) (m + i) :=
    fun i => by rw [h'.esp, off_off]
  refine ⟨?_, fun a ha => ?_⟩
  · rw [h.esp, hesp, Nat.add_comm]
  · rw [h'.mem a fun i hi => ha i (by omega)]
    apply h.mem a
    intro i hi
    rw [hesp]
    exact ha (m + i) (by omega)

theorem Grown.push (s : State φ) (v : BitVec 32) : Grown 4 s (s.push v) := by
  constructor
  · rw [push_esp]
    exact (BitVec.sub_add_cancel _ _).symm
  · intro a ha
    rw [push_esp] at ha
    exact writeDword_of_ne ha

theorem Grown.pushes (vs : List (BitVec 32)) (s : State φ) :
    Grown (4 * vs.length) s (vs.foldl (fun s v => s.push v) s) := by
  induction vs generalizing s with
  | nil => exact .refl s
  | cons v vs ih =>
    have h := (Grown.push s v).trans (ih (s.push v))
    rw [List.length_cons, Nat.mul_succ, Nat.add_comm]
    exact h

theorem Grown.pushad (s : State φ) : Grown 32 s s.pushad := by
  have h := Grown.pushes [s.reg .eax, s.reg .ecx, s.reg .edx, s.reg .ebx, s.reg .esp, s.reg .ebp,
    s.reg .esi, s.reg .edi] s
  exact h

theorem Grown.keep (hesp : s'.reg .esp = s.reg .esp) (hmem : s'.mem = s.mem) : Grown 0 s s' :=
  ⟨by rw [hesp, off_zero], fun _ _ => by rw [hmem]⟩

theorem writeWord_of_ne {p a : Addr} {v : BitVec 16} {m : Mem} (ha : ∀ i < 2, a ≠ off p i) :
    writeWord p v m a = m a := by
  have h0 := ha 0 (by omega)
  rw [off_zero] at h0
  rw [writeWord, Function.update_of_ne (ha 1 (by omega)), Function.update_of_ne h0]

/-- How far ESP has moved down after `o`, if `o` only pushes, makes room, or stores to what is
already there. -/
def grow (n : ℕ) : Op → Option ℕ
  | .push _ | .pushImm _ | .pushSeg _ | .pushfd => some (n + 4)
  | .pushad => some (n + 32)
  | .sub .esp v => some (n + v.toNat)
  | .storeImm16 ⟨some .esp, d⟩ _ => if d.toNat + 2 ≤ n then some n else none
  | o => if .esp ∉ o.writes ∧ o.stores = false then some n else none

theorem Grown.step {s₀ : State φ} (h : Grown n s₀ s) (hg : grow n o = some m) :
    Grown m s₀ (step M s o) := by
  unfold grow at hg
  split at hg
  · cases hg
    exact h.trans (.push s _)
  · cases hg
    exact h.trans (.push s _)
  · cases hg
    exact h.trans (.push s _)
  · cases hg
    exact h.trans (.push s _)
  · cases hg
    exact h.trans (.pushad s)
  · next v =>
    cases hg
    refine h.trans ⟨?_, fun _ _ => rfl⟩
    have hesp : (X86.step M s (.sub .esp v)).reg .esp = s.reg .esp - v :=
      setReg_reg_self (s := s) (r := .esp) _
    rw [hesp, off, BitVec.ofNat_toNat, BitVec.setWidth_eq, BitVec.sub_add_cancel]
  · next d v =>
    split at hg
    · next hd =>
      cases hg
      refine ⟨h.esp, fun a ha => ?_⟩
      rw [← h.mem a ha]
      apply writeWord_of_ne
      intro i hi
      have hoff : off (s.addr ⟨some .esp, d⟩) i = off (s.reg .esp) (d.toNat + i) := by
        rw [← off_off]
        congr 1
        simp only [State.addr, off, BitVec.ofNat_toNat, BitVec.setWidth_eq]
      rw [hoff]
      exact ha _ (by omega)
    · cases hg
  · split at hg
    · next hkeep =>
      cases hg
      exact h.trans (.keep (step_reg hkeep.1) (step_mem hkeep.2))
    · cases hg

theorem Grown.steps {s₀ : State φ} (h : Grown n s₀ s) (hg : ops.foldlM grow n = some m) :
    Grown m s₀ (steps M s ops) := by
  induction ops generalizing n s with
  | nil =>
    cases hg
    exact h
  | cons o ops ih =>
    rw [List.foldlM_cons, Option.bind_eq_bind, Option.bind_eq_some_iff] at hg
    obtain ⟨k, hk, hrest⟩ := hg
    exact ih (h.step hk) hrest

theorem Grown.low {low : Addr} {k : ℕ} (h : Grown n s s') (hesp : s.reg .esp = off low k)
    (hn : n ≤ k) : s'.reg .esp = off low (k - n) := by
  rw [← off_sub_ofNat hn, ← hesp, h.esp]
  exact (BitVec.add_sub_cancel _ _).symm

/-- A frame built on the stack leaves the rest of memory alone. -/
theorem Grown.off_stack {low : Addr} {size k : ℕ} {a : Addr} (h : Grown n s s')
    (hesp : s.reg .esp = off low k) (hn : n ≤ k) (hk : k ≤ size) (ha : ∀ i < size, a ≠ off low i) :
    s'.mem a = s.mem a := by
  apply h.mem
  intro i hi
  rw [h.low hesp hn, off_off]
  exact ha _ (by omega)

end Growth

end Nt351.X86
