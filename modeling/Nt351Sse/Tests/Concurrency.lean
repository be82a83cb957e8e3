import Nt351Sse.Driver.Preserve
import Nt351Sse.Tests.SseTest

/-! `TestConcurrency` of `ssetest.c` on a machine. Its threads run the assembly block of
`ConcThread` instruction by instruction, on one processor and under any scheduler; what
the block stores decides their increments. -/

namespace Nt351.Concurrency
open Memory Runs Driver SseTest

/-- A processor that SSE instructions run on. -/
structure Machine (σ : Type*) where
  step : σ → Driver.Event → σ
  observe : σ → (r : Reg) → r.Val
  cur : σ → Thread

abbrev concSpin : BitVec 32 := 30000000

theorem xmm0_lt : 0 < 8 := by decide

def xmm0 : Fin 8 := ⟨0, xmm0_lt⟩

/-- The next instruction of a thread of the test. -/
inductive Pc
  | idle
  -- `movups xmm k, [eax + 0x10 * k]`
  | load (k : Fin 8)
  -- at `spin_loop`
  | spin (ecx : BitVec 32)
  -- `movups [eax + 0x10 * k], xmm k`
  | store (k : Fin 8)
  -- past the block
  | counting
deriving DecidableEq

namespace Pc

def next : Pc → Pc
  | idle => idle
  | load k => if h : k.val + 1 < 8 then load ⟨k + 1, h⟩ else spin concSpin
  -- `dec ecx`, `jnz spin_loop`
  | spin ecx => if ecx - 1 = 0 then store xmm0 else spin (ecx - 1)
  | store k => if h : k.val + 1 < 8 then store ⟨k + 1, h⟩ else counting
  | counting => counting

def inBlock : Pc → Bool
  | idle => false
  | counting => false
  | _ => true

/-- XMM `k` is loaded. -/
def Loaded (k : Fin 8) : Pc → Prop
  | idle => False
  | load j => k < j
  | _ => True

/-- XMM `k` is stored. -/
def Stored (k : Fin 8) : Pc → Prop
  | store j => k < j
  | counting => True
  | _ => False

instance (k : Fin 8) : ∀ pc : Pc, Decidable (pc.Loaded k)
  | idle => .isFalse id
  | load j => inferInstanceAs (Decidable (k < j))
  | spin _ => .isTrue trivial
  | store _ => .isTrue trivial
  | counting => .isTrue trivial

instance (k : Fin 8) : ∀ pc : Pc, Decidable (pc.Stored k)
  | idle => .isFalse id
  | load _ => .isFalse id
  | spin _ => .isFalse id
  | store j => inferInstanceAs (Decidable (k < j))
  | counting => .isTrue trivial

end Pc

/-- The threads of the test, and which of them `CreateThread` creates. -/
structure Setup where
  tid : Fin concThreads → Thread
  main : Thread
  created : Fin concThreads → Bool
  tid_inj : Function.Injective tid
  tid_ne_main : ∀ i, tid i ≠ main

/-- 16 bytes of `pattern`. -/
def pattern (param : BitVec 32) : Fin 16 → Byte := fun j => dwordByte param (j % 4)

/-- Dword `l` of 16 bytes in memory. -/
def lane (v : Fin 16 → Byte) (l : ℕ) : BitVec 32 :=
  readDword (fun a => v ⟨a.toNat % 16, Nat.mod_lt _ (by decide)⟩) (BitVec.ofNat 32 (4 * (l % 4)))

structure State (σ : Type*) where
  machine : σ
  pc : Fin concThreads → Pc
  readback : Fin concThreads → Fin 32 → BitVec 32
  -- while a thread is in its block, the increments are those of what it has read back so far
  test : SseTest.State

def start {σ : Type*} (machine : σ) : State σ :=
  ⟨machine, fun _ => .idle, fun _ _ => 0, SseTest.init⟩

inductive Event
  | switch (t : Thread) (detour spurious : Bool)
  -- the current thread, if it is one of the test's
  | run
  -- an SSE access by any thread but those that run `ConcThread`
  | access (e : Driver.Event)

def Event.within (P : Finset Thread) : Event → Prop
  | switch t _ _ => t ∈ P
  | _ => True

def Event.isUndetoured : Event → Bool
  | switch _ detour _ => !detour
  | _ => true

/-- Which thread of the test `t` is. -/
def who (c : Setup) (t : Thread) : Option (Fin concThreads) :=
  (List.finRange concThreads).find? fun i => decide (c.tid i = t)

section Step

variable {σ : Type*} (M : Machine σ) (c : Setup)

def outcomes (s : State σ) : SseTest.Env := ⟨c.created, fun i => .readback (s.readback i)⟩

/-- The SSE instruction at `pc`. -/
def instruction (i : Fin concThreads) : Pc → Option Driver.Event
  | .load k => some (.write (.xmm k) (pattern (seed i)))
  | .store k => some (.read (.xmm k))
  | _ => none

/-- What an event does to the processor. -/
def performed (s : State σ) : Event → Option Driver.Event
  | .switch t detour spurious => some (.switch t detour spurious)
  | .run => (who c (M.cur s.machine)).bind fun i => instruction i (s.pc i)
  | .access e => if e.isAccess = true ∧ who c (M.cur s.machine) = none then some e else none

def storeLanes (k : Fin 8) (v : Fin 16 → Byte) (readback : Fin 32 → BitVec 32) :
    Fin 32 → BitVec 32 := fun l => if l.val / 4 = k then lane v l else readback l

/-- What thread `i` has read back once the instruction at its `pc` is done. -/
def newReadback (i : Fin concThreads) (s : State σ) : Fin 32 → BitVec 32 :=
  match s.pc i with
  | .store k => storeLanes k (M.observe s.machine (.xmm k)) (s.readback i)
  | _ => s.readback i

/-- One instruction of the block. -/
def blockTurn (i : Fin concThreads) (s : State σ) : State σ :=
  { s with
    pc := Function.update s.pc i (s.pc i).next
    readback := Function.update s.readback i (newReadback M i s)
    test := { s.test with
      threads := Function.update s.test.threads i
        (concThread (seed i) (.readback (newReadback M i s))) } }

/-- `ConcThread` on thread `i`. -/
def threadTurn (i : Fin concThreads) (s : State σ) : State σ :=
  if (s.pc i).inBlock then blockTurn M i s else { s with test := threadStep i s.test }

/-- `TestConcurrency`: a thread that has got its handle is at the start of its block. -/
def mainTurn (s : State σ) : State σ :=
  let test := mainStep (outcomes c s) s.test
  { s with
    pc := fun i => if s.test.handles i = false ∧ test.handles i = true then .load xmm0 else s.pc i
    test := test }

/-- What an event does to the test. -/
def turn (s : State σ) : Event → State σ
  | .run =>
    match who c (M.cur s.machine) with
    | some i => threadTurn M i s
    | none => if M.cur s.machine = c.main then mainTurn c s else s
  | _ => s

def step (s : State σ) (e : Event) : State σ :=
  { turn M c s e with
    machine := match performed M c s e with
      | none => s.machine
      | some e => M.step s.machine e }

/-- The events of the processor in a run of the test. -/
def trace : State σ → List Event → List Driver.Event
  | _, [] => []
  | s, e :: es => (performed M c s e).toList ++ trace (step M c s e) es

end Step

variable {σ : Type*} {M : Machine σ} {c : Setup} {s : State σ} {e : Event} {i j : Fin concThreads}
  {k : Fin 8} {t : Thread} {E : SseTest.Env} {pc : Pc}

theorem tid_of_who (h : who c t = some i) : c.tid i = t := by
  rw [who] at h
  have hi := List.find?_some h
  exact of_decide_eq_true hi

theorem who_eq_some : who c t = some i ↔ c.tid i = t := by
  refine ⟨tid_of_who, ?_⟩
  rintro rfl
  cases h : who c (c.tid i) with
  | none =>
    have hnot := List.find?_eq_none.mp h i (List.mem_finRange i)
    exact absurd (decide_eq_true rfl) hnot
  | some j => rw [c.tid_inj (tid_of_who h)]

theorem who_eq_none : who c t = none ↔ ∀ i, c.tid i ≠ t := by
  constructor
  · intro h i hi
    exact Option.some_ne_none i ((who_eq_some.mpr hi).symm.trans h)
  · intro h
    cases hw : who c t with
    | none => rfl
    | some i => exact absurd (who_eq_some.mp hw) (h i)

theorem who_main : who c c.main = none := who_eq_none.mpr c.tid_ne_main

theorem step_machine_some {e' : Driver.Event} (h : performed M c s e = some e') :
    (step M c s e).machine = M.step s.machine e' := by
  rw [step, h]

theorem step_machine_none (h : performed M c s e = none) :
    (step M c s e).machine = s.machine := by
  rw [step, h]

theorem step_machine (s : State σ) (e : Event) :
    (step M c s e).machine = exec M.step s.machine (performed M c s e).toList := by
  cases h : performed M c s e with
  | none => exact step_machine_none h
  | some e' => exact step_machine_some h

section BlockTurn

variable (M i s)

@[simp] theorem blockTurn_pc_self : (blockTurn M i s).pc i = (s.pc i).next :=
  Function.update_self ..

@[simp] theorem blockTurn_readback_self : (blockTurn M i s).readback i = newReadback M i s :=
  Function.update_self ..

@[simp] theorem blockTurn_threads_self : (blockTurn M i s).test.threads i =
    concThread (seed i) (.readback (newReadback M i s)) := Function.update_self ..

variable {i}

theorem blockTurn_pc_other (h : j ≠ i) : (blockTurn M i s).pc j = s.pc j :=
  Function.update_of_ne h ..

theorem blockTurn_readback_other (h : j ≠ i) : (blockTurn M i s).readback j = s.readback j :=
  Function.update_of_ne h ..

theorem blockTurn_threads_other (h : j ≠ i) :
    (blockTurn M i s).test.threads j = s.test.threads j := Function.update_of_ne h ..

end BlockTurn

/-- A property of what the processor does, along a run of the test. -/
theorem along_trace {P : σ → Driver.Event → Prop} {es : List Event} :
    Along M.step P s.machine (trace M c s es) ↔
      Along (step M c) (fun s e => ∀ e', performed M c s e = some e' → P s.machine e') s es := by
  induction es generalizing s with
  | nil => exact Iff.rfl
  | cons e es ih =>
    rw [trace, along_append, ← step_machine, ih]
    refine and_congr_left fun _ => ?_
    show Along M.step P s.machine (performed M c s e).toList ↔
      ∀ e', performed M c s e = some e' → P s.machine e'
    cases performed M c s e with
    | none => exact iff_of_true trivial fun e' he => nomatch he
    | some e => simp [Along]

theorem instruction_cases {e' : Driver.Event} (h : instruction i pc = some e') :
    (∃ k, pc = .load k ∧ e' = .write (.xmm k) (pattern (seed i))) ∨
      ∃ k, pc = .store k ∧ e' = .read (.xmm k) := by
  cases pc with
  | load k => exact .inl ⟨k, rfl, (Option.some.inj h).symm⟩
  | store k => exact .inr ⟨k, rfl, (Option.some.inj h).symm⟩
  | idle => cases h
  | spin ecx => cases h
  | counting => cases h

theorem mem_trace {e' : Driver.Event} {es : List Event} (h : e' ∈ trace M c s es) :
    e'.isAccess = true ∨ ∃ t detour spurious, e' = .switch t detour spurious ∧
      .switch t detour spurious ∈ es := by
  induction es generalizing s with
  | nil => exact absurd h List.not_mem_nil
  | cons e es ih =>
    rcases List.mem_append.mp h with h | h
    · have hp := Option.mem_toList.mp h
      cases e with
      | switch t detour spurious =>
        obtain rfl := Option.some.inj hp
        exact .inr ⟨t, detour, spurious, rfl, List.mem_cons_self⟩
      | run =>
        obtain ⟨i, -, hinstr⟩ := Option.bind_eq_some_iff.mp hp
        rcases instruction_cases hinstr with ⟨k, -, rfl⟩ | ⟨k, -, rfl⟩
        · exact .inl rfl
        · exact .inl rfl
      | access e'' =>
        have hacc : performed M c s (.access e'') = some e' := hp
        rw [performed] at hacc
        split at hacc
        · next hok => exact .inl (Option.some.inj hacc ▸ hok.1)
        · cases hacc
    · exact (ih h).imp_right fun ⟨t, detour, spurious, he, hm⟩ =>
        ⟨t, detour, spurious, he, List.mem_cons_of_mem _ hm⟩

/-! ## The block -/

theorem Pc.loaded_next : pc.next.Loaded k ↔ pc.Loaded k ∨ pc = .load k := by
  cases pc with
  | idle => simp [Pc.next, Pc.Loaded]
  | load j =>
    rw [Pc.next]
    split
    · next h => simp only [Pc.Loaded, Pc.load.injEq, Fin.lt_def, Fin.ext_iff]; omega
    · next h =>
      refine iff_of_true trivial ?_
      simp only [Pc.Loaded, Pc.load.injEq, Fin.lt_def, Fin.ext_iff]
      omega
  | spin ecx =>
    rw [Pc.next]
    split <;> exact iff_of_true trivial (.inl trivial)
  | store j =>
    rw [Pc.next]
    split <;> exact iff_of_true trivial (.inl trivial)
  | counting => exact iff_of_true trivial (.inl trivial)

theorem Pc.stored_next : pc.next.Stored k ↔ pc.Stored k ∨ pc = .store k := by
  cases pc with
  | idle => simp [Pc.next, Pc.Stored]
  | load j =>
    rw [Pc.next]
    split <;> simp [Pc.Stored]
  | spin ecx =>
    rw [Pc.next]
    split
    · simp [Pc.Stored, xmm0]
    · simp [Pc.Stored]
  | store j =>
    rw [Pc.next]
    split
    · next h => simp only [Pc.Stored, Pc.store.injEq, Fin.lt_def, Fin.ext_iff]; omega
    · next h =>
      refine iff_of_true trivial ?_
      simp only [Pc.Stored, Pc.store.injEq, Fin.lt_def, Fin.ext_iff]
      omega
  | counting => exact iff_of_true trivial (.inl trivial)

theorem Pc.Stored.loaded (h : pc.Stored k) : pc.Loaded k := by
  cases pc with
  | idle => exact h
  | load j => exact h.elim
  | spin ecx => trivial
  | store j => trivial
  | counting => trivial

theorem Pc.idle_or_counting (h : pc.inBlock = false) : pc = .idle ∨ pc = .counting := by
  cases pc with
  | idle => exact .inl rfl
  | counting => exact .inr rfl
  | load j => exact absurd h Bool.true_eq_false.mp
  | spin ecx => exact absurd h Bool.true_eq_false.mp
  | store j => exact absurd h Bool.true_eq_false.mp

theorem concThread_ne_nil (param : BitVec 32) (o : Outcome) : concThread param o ≠ [] := by
  cases o with
  | fault => exact List.cons_ne_nil _ _
  | readback lanes =>
    rw [concThread]
    split <;> exact List.cons_ne_nil _ _

/-! ## The test as it was without a machine -/

/-- What holds of a state of the test. -/
structure Wf (s : State σ) : Prop where
  fresh : ∀ k, s.test.main = .creating k → ∀ i, k ≤ i.val → s.test.handles i = false
  idle : ∀ i, s.pc i = .idle ↔ s.test.handles i = false
  block : ∀ i, (s.pc i).inBlock = true →
    s.test.threads i = concThread (seed i) (.readback (s.readback i))

/-- The test with the increments that the outcomes `E` make known from the start. -/
def abs (E : SseTest.Env) (s : State σ) : SseTest.State :=
  { s.test with
    threads := fun i => if (s.pc i).inBlock = true then concThread (seed i) (E.outcome i)
      else s.test.threads i }

/-- What the threads past their blocks have read back is as `E` has it. -/
def Settled (E : SseTest.Env) (s : State σ) : Prop :=
  ∀ i, s.pc i = .counting → E.outcome i = .readback (s.readback i)

/-- The step of the test that an event is. -/
def project (M : Machine σ) (c : Setup) (s : State σ) : Event → Option SseTest.Event
  | .run =>
    match who c (M.cur s.machine) with
    | some i => if (s.pc i).inBlock = true then none else some (.thread i)
    | none => if M.cur s.machine = c.main then some .main else none
  | _ => none

theorem wf_start (m : σ) : Wf (start m) := by
  refine ⟨fun _ _ _ _ => rfl, fun i => ?_, fun i h => absurd h Bool.false_ne_true⟩
  exact iff_of_true rfl rfl

/-- The turn is of a thread in its block, of one past it, of the main thread, or of none of them. -/
theorem turn_cases {P : State σ → Prop}
    (hblock : ∀ i, who c (M.cur s.machine) = some i → e = .run → (s.pc i).inBlock = true →
      P (blockTurn M i s))
    (hcount : ∀ i, who c (M.cur s.machine) = some i → e = .run → (s.pc i).inBlock = false →
      P { s with test := threadStep i s.test })
    (hmain : M.cur s.machine = c.main → e = .run → P (mainTurn c s))
    (hnone : (who c (M.cur s.machine) = none ∧ M.cur s.machine ≠ c.main ∨ e ≠ .run) → P s) :
    P (turn M c s e) := by
  cases e with
  | run =>
    rw [turn]
    cases hw : who c (M.cur s.machine) with
    | some i =>
      show P (threadTurn M i s)
      rw [threadTurn]
      split
      · next hb => exact hblock i hw rfl hb
      · next hb => exact hcount i hw rfl (Bool.eq_false_of_not_eq_true hb)
    | none =>
      show P (if M.cur s.machine = c.main then mainTurn c s else s)
      split
      · next hm => exact hmain hm rfl
      · next hm => exact hnone (.inl ⟨hw, hm⟩)
  | switch t detour spurious => exact hnone (.inr (by simp))
  | access e => exact hnone (.inr (by simp))

/-- `TestConcurrency` creates thread `i` now. -/
def Creates (E : SseTest.Env) (s : SseTest.State) (i : Fin concThreads) : Prop :=
  s.main = .creating i ∧ E.created i = true

instance (E : SseTest.Env) (s : SseTest.State) (i : Fin concThreads) : Decidable (Creates E s i) :=
  inferInstanceAs (Decidable (_ ∧ _))

theorem mainStep_creates {s : SseTest.State} (h : Creates E s i) :
    (mainStep E s).handles i = true ∧
      (mainStep E s).threads i = concThread (seed i) (E.outcome i) := by
  obtain ⟨hm, hc⟩ := h
  simp only [mainStep, hm, dif_pos i.isLt, Fin.eta, if_pos hc, Function.update_self, and_self]

theorem mainStep_keeps {s : SseTest.State} (h : ¬ Creates E s i) :
    (mainStep E s).handles i = s.handles i ∧ (mainStep E s).threads i = s.threads i := by
  cases hm : s.main with
  | creating k =>
    by_cases hk : k < concThreads
    · by_cases hi : i = ⟨k, hk⟩
      · subst hi
        have hc : ¬ E.created ⟨k, hk⟩ = true := fun hc => h ⟨hm, hc⟩
        simp only [mainStep, hm, dif_pos hk, if_neg hc, and_self]
      · simp only [mainStep, hm, dif_pos hk]
        split
        · simp only [Function.update_of_ne hi, and_self]
        · exact ⟨rfl, rfl⟩
    · simp only [mainStep, hm, dif_neg hk]
      split <;> exact ⟨rfl, rfl⟩
  | waiting k =>
    simp only [mainStep, hm]
    split
    · split <;> exact ⟨rfl, rfl⟩
    · exact ⟨rfl, rfl⟩
  | returned r => simp only [mainStep, hm, and_self]

/-- What it does to thread `i`. -/
theorem mainStep_thread (E : SseTest.Env) (s : SseTest.State) (i : Fin concThreads) :
    (mainStep E s).handles i = (if Creates E s i then true else s.handles i) ∧
      (mainStep E s).threads i =
        if Creates E s i then concThread (seed i) (E.outcome i) else s.threads i := by
  by_cases h : Creates E s i
  · rw [if_pos h, if_pos h]
    exact mainStep_creates h
  · rw [if_neg h, if_neg h]
    exact mainStep_keeps h

theorem mainStep_creating {s : SseTest.State} {k : ℕ} (h : (mainStep E s).main = .creating k) :
    ∃ k', s.main = .creating k' ∧ k = k' + 1 := by
  cases hm : s.main with
  | creating k' =>
    simp only [mainStep, hm] at h
    split at h
    · split at h
      · exact ⟨k', rfl, (Main.creating.inj h).symm⟩
      · exact ⟨k', rfl, (Main.creating.inj h).symm⟩
    · split at h <;> cases h
  | waiting k' =>
    simp only [mainStep, hm] at h
    split at h
    · split at h
      · cases hm.symm.trans h
      · cases h
    · cases h
  | returned r =>
    simp only [mainStep, hm] at h
    cases h

theorem threadStep_handles (i : Fin concThreads) (s : SseTest.State) :
    (threadStep i s).handles = s.handles := by
  rw [threadStep]
  split <;> rfl

theorem threadStep_main (i : Fin concThreads) (s : SseTest.State) :
    (threadStep i s).main = s.main := by
  rw [threadStep]
  split <;> rfl

theorem threadStep_threads {s : SseTest.State} (h : j ≠ i) :
    (threadStep i s).threads j = s.threads j := by
  rw [threadStep]
  split
  · rfl
  · exact Function.update_of_ne h ..

/-- A thread that is created starts its block; the others go on where they are. -/
theorem Wf.mainTurn_pc (h : Wf s) (i : Fin concThreads) : (mainTurn c s).pc i =
    if Creates (outcomes c s) s.test i then .load xmm0 else s.pc i := by
  have hhandles := (mainStep_thread (outcomes c s) s.test i).1
  by_cases hcreates : Creates (outcomes c s) s.test i
  · rw [if_pos hcreates] at hhandles ⊢
    exact if_pos ⟨h.fresh i hcreates.1 i le_rfl, hhandles⟩
  · rw [if_neg hcreates] at hhandles ⊢
    exact if_neg fun hc => Bool.false_ne_true (hc.1.symm.trans (hhandles.symm.trans hc.2))

theorem Wf.mainTurn (h : Wf s) : Wf (mainTurn c s) := by
  refine ⟨fun k hk i hi => ?_, fun i => ?_, fun i hi => ?_⟩
  · obtain ⟨k', hm, rfl⟩ := mainStep_creating hk
    have hnot : ¬ Creates (outcomes c s) s.test i := fun hcreates => by
      have he := Main.creating.inj (hm.symm.trans hcreates.1)
      omega
    have hhandles := (mainStep_thread (outcomes c s) s.test i).1
    rw [if_neg hnot] at hhandles
    exact hhandles.trans (h.fresh k' hm i (Nat.le_of_succ_le hi))
  · have hhandles := (mainStep_thread (outcomes c s) s.test i).1
    rw [h.mainTurn_pc]
    split
    · next hcreates =>
      rw [if_pos hcreates] at hhandles
      exact iff_of_false (by simp) fun hc => Bool.false_ne_true (hc.symm.trans hhandles)
    · next hnot =>
      rw [if_neg hnot] at hhandles
      rw [h.idle i]
      exact (congrArg (· = false) hhandles).to_iff.symm
  · refine (mainStep_thread (outcomes c s) s.test i).2.trans ?_
    rw [h.mainTurn_pc] at hi
    split
    · rfl
    · next hnot =>
      rw [if_neg hnot] at hi
      exact h.block i hi

theorem Pc.next_idle (h : pc.inBlock = true) : pc.next ≠ .idle := by
  cases pc with
  | idle => exact absurd h Bool.false_ne_true
  | counting => exact absurd h Bool.false_ne_true
  | load j =>
    rw [Pc.next]
    split <;> simp
  | spin ecx =>
    rw [Pc.next]
    split <;> simp
  | store j =>
    rw [Pc.next]
    split <;> simp

theorem Wf.turn (h : Wf s) : Wf (turn M c s e) := by
  refine turn_cases (fun i _ _ hb => ?_) (fun i _ _ hb => ?_) (fun _ _ => h.mainTurn) fun _ => h
  · refine ⟨h.fresh, fun j => ?_, fun j hj => ?_⟩
    · by_cases hji : j = i
      · subst hji
        have hne : s.pc j ≠ .idle := by
          intro hc
          rw [hc] at hb
          exact Bool.false_ne_true hb
        rw [blockTurn_pc_self]
        exact iff_of_false (Pc.next_idle hb) fun hc => hne ((h.idle j).mpr hc)
      · rw [blockTurn_pc_other M s hji]
        exact h.idle j
    · by_cases hji : j = i
      · subst hji
        rw [blockTurn_threads_self, blockTurn_readback_self]
      · rw [blockTurn_pc_other M s hji] at hj
        rw [blockTurn_threads_other M s hji, blockTurn_readback_other M s hji]
        exact h.block j hj
  · refine ⟨fun k hk j hj => ?_, fun j => ?_, fun j hj => ?_⟩
    · rw [threadStep_main] at hk
      rw [threadStep_handles]
      exact h.fresh k hk j hj
    · rw [threadStep_handles]
      exact h.idle j
    · have hji : j ≠ i := by
        rintro rfl
        exact Bool.false_ne_true (hb.symm.trans hj)
      exact (threadStep_threads hji).trans (h.block j hj)

theorem Wf.step (h : Wf s) : Wf (step M c s e) := by
  have ht := h.turn (M := M) (c := c) (e := e)
  exact ⟨ht.fresh, ht.idle, ht.block⟩

/-- The main thread looks at the other threads only to see whether they have ended. -/
theorem mainStep_threads {E E' : SseTest.Env} {s : SseTest.State}
    {threads : Fin concThreads → List Counter} (hE : E.created = E'.created)
    (h : ∀ i, threads i = [] ↔ s.threads i = []) : mainStep E { s with threads := threads } =
      { mainStep E' s with threads := (mainStep E { s with threads := threads }).threads } := by
  cases hm : s.main with
  | creating k =>
    simp only [mainStep, hm, hE]
    split
    · split <;> rfl
    · split <;> rfl
  | waiting k =>
    simp only [mainStep, hm, ne_eq, h]
    split
    · split
      · simp only [hm]
      · rfl
    · rfl
  | returned r => simp only [mainStep, hm]

theorem abs_threads_nil (hw : Wf s) (i : Fin concThreads) :
    (abs E s).threads i = [] ↔ s.test.threads i = [] := by
  show (if _ then _ else _) = [] ↔ _
  split
  · next hb =>
    rw [hw.block i hb]
    exact iff_of_false (concThread_ne_nil _ _) (concThread_ne_nil _ _)
  · exact Iff.rfl

theorem abs_mainTurn (hw : Wf s) (hE : E.created = c.created) :
    abs E (mainTurn c s) = mainStep E (abs E s) := by
  have hmain : mainStep E (abs E s) =
      { mainStep (outcomes c s) s.test with threads := (mainStep E (abs E s)).threads } :=
    mainStep_threads hE (abs_threads_nil hw)
  have hthreads : (abs E (mainTurn c s)).threads = (mainStep E (abs E s)).threads := by
    funext i
    have hcreates : Creates E (abs E s) i ↔ Creates (outcomes c s) s.test i := by
      rw [Creates, Creates, hE]
      exact Iff.rfl
    have hnew := (mainStep_thread E (abs E s) i).2
    have hold := (mainStep_thread (outcomes c s) s.test i).2
    have hpc := hw.mainTurn_pc (c := c) i
    show (if ((mainTurn c s).pc i).inBlock = true then _ else _) = _
    rw [hpc, hnew]
    simp only [hcreates]
    split
    · rfl
    · next hnot =>
      rw [if_neg hnot] at hold
      exact congrArg (fun th => if (s.pc i).inBlock = true then _ else th) hold
  rw [hmain]
  exact congrArg (fun th => ({ mainStep (outcomes c s) s.test with threads := th } : SseTest.State))
    hthreads

theorem abs_blockTurn (hb : (s.pc i).inBlock = true) (h : Settled E (blockTurn M i s)) :
    abs E (blockTurn M i s) = abs E s := by
  have hthreads : (abs E (blockTurn M i s)).threads = (abs E s).threads := by
    funext j
    show (if _ then _ else _) = if _ then _ else _
    by_cases hji : j = i
    · subst hji
      rw [blockTurn_pc_self, if_pos hb]
      split
      · rfl
      · next hend =>
        have hcount : (s.pc j).next = .counting :=
          (Pc.idle_or_counting (Bool.eq_false_of_not_eq_true hend)).resolve_left (Pc.next_idle hb)
        rw [blockTurn_threads_self, h j ((blockTurn_pc_self M s j).trans hcount),
          blockTurn_readback_self]
    · rw [blockTurn_pc_other M s hji, blockTurn_threads_other M s hji]
  exact congrArg (fun th => ({ s.test with threads := th } : SseTest.State)) hthreads

theorem abs_threadStep (hb : (s.pc i).inBlock = false) :
    abs E { s with test := threadStep i s.test } = threadStep i (abs E s) := by
  have hthread : (abs E s).threads i = s.test.threads i :=
    if_neg (by rw [hb]; exact Bool.false_ne_true)
  unfold threadStep
  rw [hthread]
  cases hpending : s.test.threads i with
  | nil => rfl
  | cons counter rest =>
    have hthreads : (fun j => if (s.pc j).inBlock = true then concThread (seed j) (E.outcome j)
        else Function.update s.test.threads i rest j) =
        Function.update (abs E s).threads i rest := by
      funext j
      by_cases hji : j = i
      · subst hji
        rw [Function.update_self, Function.update_self, if_neg]
        rw [hb]
        exact Bool.false_ne_true
      · rw [Function.update_of_ne hji, Function.update_of_ne hji]
        rfl
    exact congrArg (fun th => ({ s.test with
      counters := Function.update s.test.counters counter (s.test.counters counter + 1)
      threads := th } : SseTest.State)) hthreads

theorem Settled.of_step (hw : Wf s) (h : Settled E (step M c s e)) : Settled E s := by
  have hturn : Settled E (turn M c s e) := h
  revert hturn
  refine turn_cases (P := fun s' => Settled E s' → Settled E s) (fun i _ _ hb => ?_)
    (fun _ _ _ _ => id) (fun _ _ => ?_) fun _ => id
  · intro h j hj
    have hji : j ≠ i := by
      rintro rfl
      rw [hj] at hb
      exact Bool.false_ne_true hb
    have hread := h j ((blockTurn_pc_other M s hji).trans hj)
    rwa [blockTurn_readback_other M s hji] at hread
  · intro h j hj
    refine h j ?_
    rw [hw.mainTurn_pc, if_neg, hj]
    rintro ⟨hm, -⟩
    have hidle := (hw.idle j).mpr (hw.fresh j hm j le_rfl)
    exact nomatch hidle.symm.trans hj

/-- Each event is a step of the test, or none. -/
theorem abs_step (hw : Wf s) (h : Settled E (step M c s e)) (hE : E.created = c.created) :
    abs E (step M c s e) = exec (SseTest.step E) (abs E s) (project M c s e).toList := by
  have hturn : Settled E (turn M c s e) := h
  revert hturn
  refine turn_cases (P := fun s' => Settled E s' → abs E s' = _) (fun i hw' he hb h => ?_)
    (fun i hw' he hb _ => ?_) (fun hm he _ => ?_) fun hnone _ => ?_
  · have hproject : project M c s e = none := by
      rw [he, project, hw']
      exact if_pos hb
    rw [hproject, abs_blockTurn hb h]
    rfl
  · have hproject : project M c s e = some (.thread i) := by
      rw [he, project, hw']
      exact if_neg (by rw [hb]; exact Bool.false_ne_true)
    rw [hproject, abs_threadStep hb]
    rfl
  · have hproject : project M c s e = some .main := by
      rw [he, project, hm, who_main]
      exact if_pos rfl
    rw [hproject, abs_mainTurn hw hE]
    rfl
  · have hproject : project M c s e = none := by
      cases e with
      | run =>
        obtain ⟨hw', hm⟩ := hnone.resolve_right fun hne => hne rfl
        rw [project, hw']
        exact if_neg hm
      | switch t detour spurious => rfl
      | access e => rfl
    rw [hproject]
    rfl

theorem wf_exec (m : σ) (es : List Event) : Wf (exec (step M c) (start m) es) :=
  exec_invariant (wf_start m) fun _ _ h => h.step

/-- A run of the test on a machine is a run of the test with the outcomes it ends with. -/
theorem abs_exec (m : σ) (es : List Event) (hE : E.created = c.created)
    (h : Settled E (exec (step M c) (start m) es)) :
    ∃ fs, abs E (exec (step M c) (start m) es) = exec (SseTest.step E) SseTest.init fs := by
  induction es using List.reverseRecOn with
  | nil => exact ⟨[], rfl⟩
  | append_singleton es e ih =>
    rw [exec_concat] at h ⊢
    have hw := wf_exec (M := M) (c := c) m es
    obtain ⟨fs, hfs⟩ := ih (h.of_step hw)
    refine ⟨fs ++ (project M c (exec (step M c) (start m) es) e).toList, ?_⟩
    rw [abs_step hw h hE, hfs, exec_append]

/-! ## One thread's block -/

/-- Thread `i` has loaded XMM `k` and not yet stored it. -/
def InFlight (s : State σ) (i : Fin concThreads) (k : Fin 8) : Prop :=
  (s.pc i).Loaded k ∧ ¬ (s.pc i).Stored k

/-- The event is an instruction of the block of thread `i`. -/
def Own (M : Machine σ) (c : Setup) (i : Fin concThreads) (s : State σ) (e : Event) : Prop :=
  e = .run ∧ who c (M.cur s.machine) = some i ∧ (s.pc i).inBlock = true

structure Unmoved (i : Fin concThreads) (s s' : State σ) : Prop where
  loaded : ∀ k, (s'.pc i).Loaded k ↔ (s.pc i).Loaded k
  stored : ∀ k, (s'.pc i).Stored k ↔ (s.pc i).Stored k
  readback : s'.readback i = s.readback i

theorem unmoved_of_pc {s s' : State σ} (hpc : s'.pc i = s.pc i)
    (hread : s'.readback i = s.readback i) : Unmoved i s s' :=
  ⟨fun k => by rw [hpc], fun k => by rw [hpc], hread⟩

theorem turn_thread (hw : Wf s) (i : Fin concThreads) :
    (Own M c i s e ∧ (step M c s e).pc i = (s.pc i).next ∧
      (step M c s e).readback i = newReadback M i s) ∨
    (¬ Own M c i s e ∧ Unmoved i s (step M c s e)) := by
  have hturn : (Own M c i s e ∧ (turn M c s e).pc i = (s.pc i).next ∧
      (turn M c s e).readback i = newReadback M i s) ∨
      (¬ Own M c i s e ∧ Unmoved i s (turn M c s e)) := by
    refine turn_cases (P := fun s' => (Own M c i s e ∧ s'.pc i = (s.pc i).next ∧
      s'.readback i = newReadback M i s) ∨ (¬ Own M c i s e ∧ Unmoved i s s'))
      (fun j hj he hb => ?_) (fun j hj he hb => ?_) (fun hm he => ?_) fun hnone => ?_
    · by_cases hij : i = j
      · subst hij
        exact .inl ⟨⟨he, hj, hb⟩, blockTurn_pc_self .., blockTurn_readback_self ..⟩
      · refine .inr ⟨fun hown => hij (Option.some.inj (hown.2.1.symm.trans hj)), ?_⟩
        exact unmoved_of_pc (blockTurn_pc_other M s hij) (blockTurn_readback_other M s hij)
    · refine .inr ⟨fun hown => ?_, unmoved_of_pc rfl rfl⟩
      obtain rfl : i = j := Option.some.inj (hown.2.1.symm.trans hj)
      exact Bool.false_ne_true (hb.symm.trans hown.2.2)
    · refine .inr ⟨fun hown => ?_, ?_⟩
      · have hnone := hown.2.1
        rw [hm, who_main] at hnone
        cases hnone
      · by_cases hcreates : Creates (outcomes c s) s.test i
        · have hidle := (hw.idle i).mpr (hw.fresh i hcreates.1 i le_rfl)
          have hpc := hw.mainTurn_pc (c := c) i
          rw [if_pos hcreates] at hpc
          refine ⟨fun k => ?_, fun k => ?_, rfl⟩
          · rw [hpc, hidle]
            exact iff_of_false (Nat.not_lt_zero _) id
          · rw [hpc, hidle]
            exact Iff.rfl
        · exact unmoved_of_pc ((hw.mainTurn_pc i).trans (if_neg hcreates)) rfl
    · refine .inr ⟨fun hown => ?_, unmoved_of_pc rfl rfl⟩
      rcases hnone with ⟨hnone, -⟩ | hne
      · cases hnone.symm.trans hown.2.1
      · exact hne hown.1
  exact hturn.imp (fun h => ⟨h.1, h.2⟩) fun h => ⟨h.1, h.2.loaded, h.2.stored, h.2.readback⟩

theorem inBlock_of_instruction {e' : Driver.Event} (h : instruction i pc = some e') :
    pc.inBlock = true := by
  rcases instruction_cases h with ⟨k, rfl, -⟩ | ⟨k, rfl, -⟩
  · rfl
  · rfl

/-- Where thread `i` runs no instruction of its block, it accesses no register. -/
theorem performed_other {e' : Driver.Event} (he : performed M c s e = some e')
    (hother : ¬ Own M c i s e) : e'.isAccess = false ∨ M.cur s.machine ≠ c.tid i := by
  cases e with
  | switch t detour spurious =>
    obtain rfl := Option.some.inj he
    exact .inl rfl
  | run =>
    obtain ⟨j, hj, hinstr⟩ := Option.bind_eq_some_iff.mp he
    refine .inr fun hcur => hother ?_
    obtain rfl : i = j := Option.some.inj ((who_eq_some.mpr hcur.symm).symm.trans hj)
    exact ⟨rfl, hj, inBlock_of_instruction hinstr⟩
  | access e'' =>
    rw [performed] at he
    split at he
    · next hacc => exact .inr fun hcur => who_eq_none.mp hacc.2 i hcur.symm
    · cases he

theorem lane_pattern (v : BitVec 32) (l : ℕ) : lane (pattern v) l = v := by
  refine readDword_of_bytes fun j hj => ?_
  have hlt : (BitVec.ofNat 32 (4 * (l % 4))).toNat + j < 2 ^ 32 := by
    rw [BitVec.toNat_ofNat]
    omega
  simp only [pattern, off_toNat hlt, BitVec.toNat_ofNat]
  congr 1
  omega

theorem lane_zero (l : ℕ) : lane (fun _ => 0) l = 0 := by
  refine readDword_of_bytes fun j hj => ?_
  simp [dwordByte]

theorem seed_ne_zero (i : Fin concThreads) : seed i ≠ 0 := by
  revert i
  decide

theorem newReadback_store (hpc : s.pc i = .store k) {l : Fin 32} (hl : l.val / 4 = k) :
    newReadback M i s l = lane (M.observe s.machine (.xmm k)) l := by
  rw [newReadback, hpc]
  exact if_pos hl

theorem newReadback_other (hpc : s.pc i ≠ .store k) {l : Fin 32} (hl : l.val / 4 = k) :
    newReadback M i s l = s.readback i l := by
  unfold newReadback
  cases hp : s.pc i with
  | store j =>
    have hj : l.val / 4 ≠ j := fun hj => hpc (hp.trans (congrArg _ (Fin.ext (hj.symm.trans hl))))
    exact if_neg hj
  | idle => rfl
  | load j => rfl
  | spin ecx => rfl
  | counting => rfl

theorem Own.performed (h : Own M c i s e) : performed M c s e = instruction i (s.pc i) := by
  rw [h.1, Concurrency.performed, h.2.1, Option.bind_some]

/-! ## One register of one thread -/

/-- What an event is for XMM `k` of thread `i`: its load, its store, or neither. -/
inductive Move (M : Machine σ) (c : Setup) (i : Fin concThreads) (k : Fin 8) (s : State σ)
    (e : Event) (s' : State σ) : Prop
  | load (hown : Own M c i s e) (hpc : s.pc i = .load k) (hfly : InFlight s' i k)
  | store (hown : Own M c i s e) (hpc : s.pc i = .store k) (hst : (s'.pc i).Stored k)
      (hread : ∀ l : Fin 32, l.val / 4 = k →
        s'.readback i l = lane (M.observe s.machine (.xmm k)) l)
  | other (hnot : Own M c i s e → s.pc i ≠ .load k)
      (hloaded : (s'.pc i).Loaded k ↔ (s.pc i).Loaded k)
      (hstored : (s'.pc i).Stored k ↔ (s.pc i).Stored k)
      (hread : ∀ l : Fin 32, l.val / 4 = k → s'.readback i l = s.readback i l)

theorem move (hw : Wf s) (i : Fin concThreads) (k : Fin 8) : Move M c i k s e (step M c s e) := by
  rcases turn_thread (M := M) (c := c) (e := e) hw i with ⟨hown, hpc, hread⟩ | ⟨hother, hsame⟩
  · by_cases hload : s.pc i = .load k
    · refine .load hown hload ⟨hpc ▸ Pc.loaded_next.mpr (.inr hload), fun hst => ?_⟩
      rw [hpc, Pc.stored_next, hload] at hst
      rcases hst with hst | hst
      · exact hst
      · cases hst
    · by_cases hstore : s.pc i = .store k
      · refine .store hown hstore (hpc ▸ Pc.stored_next.mpr (.inr hstore)) fun l hl => ?_
        rw [hread]
        exact newReadback_store hstore hl
      · refine .other (fun _ => hload) ?_ ?_ fun l hl => ?_
        · rw [hpc, Pc.loaded_next, or_iff_left hload]
        · rw [hpc, Pc.stored_next, or_iff_left hstore]
        · rw [hread]
          exact newReadback_other hstore hl
  · refine .other (fun hown => absurd hown hother) (hsame.loaded k) (hsame.stored k) fun l _ => ?_
    rw [hsame.readback]

theorem not_loaded_of_load (hpc : s.pc i = .load k) : ¬ (s.pc i).Loaded k := by
  rw [hpc]
  exact lt_irrefl k

theorem inFlight_of_store (hpc : s.pc i = .store k) : InFlight s i k := by
  rw [InFlight, hpc]
  exact ⟨trivial, lt_irrefl k⟩

/-! The spin loop is `CONC_SPIN` instructions that leave everything but ECX alone. -/

theorem step_spin (hw : Wf s) (hi : who c (M.cur s.machine) = some i) {ecx : BitVec 32}
    (hpc : s.pc i = .spin ecx) :
    step M c s .run = { s with pc := Function.update s.pc i (Pc.spin ecx).next } := by
  have hb : (s.pc i).inBlock = true := by rw [hpc]; rfl
  have hnew : newReadback M i s = s.readback i := by rw [newReadback, hpc]
  have hthreads := hw.block i hb
  have hperf : performed M c s .run = none := by rw [performed, hi, Option.bind_some, hpc]; rfl
  have hturn : turn M c s .run = blockTurn M i s := by
    rw [turn, hi]
    exact if_pos hb
  rw [step, hperf, hturn, blockTurn, hnew, ← hthreads, Function.update_eq_self,
    Function.update_eq_self, hpc]

theorem exec_spin (hw : Wf s) (hi : who c (M.cur s.machine) = some i) {n : ℕ} (hn : n + 1 < 2 ^ 32)
    (hpc : s.pc i = .spin (BitVec.ofNat 32 (n + 1))) :
    exec (step M c) s (List.replicate (n + 1) .run) =
      { s with pc := Function.update s.pc i (.store xmm0) } := by
  induction n generalizing s with
  | zero =>
    rw [List.replicate_one, exec_cons, exec_nil, step_spin hw hi hpc]
    rfl
  | succ n ih =>
    have hsub : BitVec.ofNat 32 (n + 1 + 1) - 1 = BitVec.ofNat 32 (n + 1) := by
      rw [BitVec.ofNat_add]
      exact BitVec.add_sub_cancel _ _
    have hne : BitVec.ofNat 32 (n + 1) ≠ 0 := by
      intro h0
      have hnat := congrArg BitVec.toNat h0
      rw [BitVec.toNat_ofNat, Nat.mod_eq_of_lt (by omega)] at hnat
      exact Nat.succ_ne_zero n hnat
    have hnext :
        (Pc.spin (BitVec.ofNat 32 (n + 1 + 1))).next = .spin (BitVec.ofNat 32 (n + 1)) := by
      rw [Pc.next, hsub, if_neg hne]
    have hw' := hw.step (M := M) (c := c) (e := .run)
    have hspin := step_spin hw hi hpc
    rw [hnext] at hspin
    rw [hspin] at hw'
    rw [List.replicate_succ, exec_cons, hspin, ih hw' hi (by omega) (Function.update_self ..)]
    exact congrArg (fun pc => { s with pc := pc }) (Function.update_idem ..)

def spins : List Event := List.replicate 30000000 .run

theorem exec_spins (hw : Wf s) (hi : who c (M.cur s.machine) = some i)
    (hpc : s.pc i = .spin concSpin) :
    exec (step M c) s spins = { s with pc := Function.update s.pc i (.store xmm0) } :=
  exec_spin (n := 29999999) hw hi (by decide) hpc

/-- Threads A, C and two more for the test, and B for `main`. -/
def sampleSetup (created : Fin concThreads → Bool) : Setup where
  tid i := ⟨0xff6a0010 + 0x4000 * BitVec.ofNat 32 i, by revert i; decide⟩
  main := threadB
  created := created
  tid_inj := by decide
  tid_ne_main := by decide

/-! ## What the answer says -/

variable {m : σ} {es : List Event} {r : Result}

theorem settled_self (s : State σ) : Settled (outcomes c s) s := fun _ _ => rfl

theorem returned_inv (hr : (exec (step M c) (start m) es).test.main = .returned r) :
    Inv (outcomes c (exec (step M c) (start m) es))
      (abs (outcomes c (exec (step M c) (start m) es)) (exec (step M c) (start m) es)) ∧
    (abs (outcomes c (exec (step M c) (start m) es)) (exec (step M c) (start m) es)).main =
      .returned r := by
  obtain ⟨fs, hfs⟩ := abs_exec (M := M) (c := c) m es rfl (settled_self _)
  exact ⟨hfs ▸ inv_exec _ fs, hr⟩

/-- When the test has its answer, every thread that was created is through. -/
theorem returned_pc (hr : (exec (step M c) (start m) es).test.main = .returned r)
    (i : Fin concThreads) : (exec (step M c) (start m) es).pc i =
      if c.created i = true then .counting else .idle := by
  obtain ⟨hinv, hmain⟩ := returned_inv hr
  have hw := wf_exec (M := M) (c := c) m es
  set s := exec (step M c) (start m) es
  have hhandles : s.test.handles i = c.created i := congrFun (hinv.handles_eq hmain) i
  split
  · next hc =>
    have hidle : s.pc i ≠ .idle := fun hidle =>
      Bool.false_ne_true (((hw.idle i).mp hidle).symm.trans (hhandles.trans hc))
    refine (Pc.idle_or_counting ?_).resolve_left hidle
    by_contra hb
    have hend := (abs_threads_nil hw i).mp ((hinv.answer r hmain).1 i)
    rw [hw.block i (Bool.eq_true_of_not_eq_false hb)] at hend
    exact concThread_ne_nil _ _ hend
  · next hc => exact (hw.idle i).mpr (hhandles.trans (Bool.eq_false_of_not_eq_true hc))

/-- `R_WRONG` means that some thread did not read its pattern back, `R_FAULTED` that there
was no thread. -/
theorem returned_iff (hr : (exec (step M c) (start m) es).test.main = .returned r) :
    (r = .wrong ↔ ∃ i, c.created i = true ∧
      ∃ l, (exec (step M c) (start m) es).readback i l ≠ seed i) ∧
    (r = .faulted ↔ ∀ i, c.created i = false) := by
  obtain ⟨hinv, hmain⟩ := returned_inv hr
  set s := exec (step M c) (start m) es
  refine ⟨(hinv.wrong_iff hmain).trans (exists_congr fun i => and_congr_right fun _ => ?_), ?_⟩
  · exact ⟨fun ⟨_, hlanes, hbad⟩ => Outcome.readback.inj hlanes ▸ hbad, fun hbad => ⟨_, rfl, hbad⟩⟩
  · have hstarted := hinv.started
    rw [hinv.handles_eq hmain] at hstarted
    have hfaulted : (abs (outcomes c s) s).counters .faulted = 0 := by
      rw [hinv.counters_eq hmain]
      refine Finset.sum_eq_zero fun i _ => ?_
      split
      · exact (adds_readback rfl).1
      · rfl
    have hzero : (abs (outcomes c s) s).started = 0 ↔ ∀ i, c.created i = false := by
      rw [hstarted, Finset.sum_eq_zero_iff]
      refine forall_congr' fun i => ?_
      cases hc : c.created i with
      | true => simp [outcomes, hc]
      | false => simp [outcomes, hc]
    rw [← hzero, (hinv.answer r hmain).2]
    split
    · next h0 => exact iff_of_true rfl h0
    · next h0 =>
      rw [summary, hfaulted, if_neg (Ne.symm h0)]
      refine iff_of_false ?_ h0
      split <;> simp

end Nt351.Concurrency
