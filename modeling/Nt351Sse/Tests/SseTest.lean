import Nt351Sse.Base.Runs
import Nt351Sse.Base.Interlocked

/-! `ssetest.c`: the concurrency test, its threads and the exit code. -/

namespace Nt351.SseTest

inductive Result
  | faulted
  | ok
  | wrong
deriving DecidableEq

abbrev concThreads : ℕ := 4

/-- The pattern that thread `i` is created with. -/
def seed (i : Fin concThreads) : BitVec 32 := 0x11111111 * (BitVec.ofNat 32 i + 1)

/-- What the assembly block of `ConcThread` comes to: an exception, or the 32 dwords of
XMM0 to XMM7 that it stores. -/
inductive Outcome
  | fault
  | readback (lanes : Fin 32 → BitVec 32)

inductive Counter
  | corrupt
  | faulted
  | ready
deriving DecidableEq

/-- The interlocked increments of one thread. -/
def concThread (param : BitVec 32) : Outcome → List Counter
  | .fault => [.faulted, .ready]
  | .readback lanes => if ∃ i, lanes i ≠ param then [.corrupt, .ready] else [.ready]

/-- What the test is run on: which `CreateThread` calls succeed, and what the threads do. -/
structure Env where
  created : Fin concThreads → Bool
  outcome : Fin concThreads → Outcome

/-- Where `TestConcurrency` stands: in its first loop, in its second, or back in `main`. -/
inductive Main
  | creating (i : ℕ)
  | waiting (i : ℕ)
  | returned (conc : Result)
deriving DecidableEq

structure State where
  counters : Counter → ℕ
  /-- The increments that each thread still has to make. -/
  threads : Fin concThreads → List Counter
  /-- `h[i] != NULL` -/
  handles : Fin concThreads → Bool
  started : ℕ
  main : Main

def init : State := ⟨fun _ => 0, fun _ => [], fun _ => false, 0, .creating 0⟩

/-- The answer of `TestConcurrency` when no thread is left to wait for. -/
def summary (s : State) : Result :=
  if s.counters .faulted = s.started then .faulted
  else if s.counters .corrupt > 0 then .wrong
  else .ok

/-- A step of the main thread. -/
def mainStep (E : Env) (s : State) : State :=
  match s.main with
  | .creating i =>
    if h : i < concThreads then
      if E.created ⟨i, h⟩ then
        { s with
          threads := Function.update s.threads ⟨i, h⟩ (concThread (seed ⟨i, h⟩) (E.outcome ⟨i, h⟩))
          handles := Function.update s.handles ⟨i, h⟩ true
          started := s.started + 1
          main := .creating (i + 1) }
      else { s with main := .creating (i + 1) }
    else if s.started = 0 then { s with main := .returned .faulted }
    else { s with main := .waiting 0 }
  | .waiting i =>
    if h : i < concThreads then
      -- `WaitForSingleObject` blocks until the thread has ended
      if s.handles ⟨i, h⟩ ∧ s.threads ⟨i, h⟩ ≠ [] then s
      else { s with main := .waiting (i + 1) }
    else { s with main := .returned (summary s) }
  | .returned _ => s

/-- A step of thread `i`: its next increment. -/
def threadStep (i : Fin concThreads) (s : State) : State :=
  match s.threads i with
  | [] => s
  | counter :: rest =>
    { s with
      counters := Function.update s.counters counter (s.counters counter + 1)
      threads := Function.update s.threads i rest }

/-- The scheduler runs the main thread, or one of the others. -/
inductive Event
  | main
  | thread (i : Fin concThreads)

def step (E : Env) (s : State) : Event → State
  | .main => mainStep E s
  | .thread i => threadStep i s

/-- The exit code of `main`. -/
def exitCode (sse conc : Result) : ℕ :=
  if sse = .ok ∧ conc = .ok then 0
  else if sse = .ok ∧ conc = .wrong then 3
  else if sse = .ok then 0
  else if sse = .faulted then 2
  else 1

/-! ## Any order of the increments -/

open Finset Interlocked Runs

variable {E : Env} {s : State} {i : Fin concThreads}

/-- One increment, as an addition to the counters. -/
def one (counter : Counter) : Counter → ℕ := Pi.single counter 1

/-- What thread `i` adds to the counters. -/
def adds (E : Env) (i : Fin concThreads) : Counter → ℕ :=
  ((concThread (seed i) (E.outcome i)).map one).sum

/-- How many `CreateThread` calls there have been. -/
def tried : Main → ℕ
  | .creating i => i
  | _ => concThreads

structure Inv (E : Env) (s : State) : Prop where
  handles : ∀ i : Fin concThreads, s.handles i = (decide (i.val < tried s.main) && E.created i)
  started : s.started = ∑ i, if s.handles i then 1 else 0
  idle : ∀ i, s.handles i = false → s.threads i = []
  owed : owed one s.counters s.threads = ∑ i, if s.handles i then adds E i else 0
  waited : ∀ k, s.main = .waiting k → s.started ≠ 0 ∧
    ∀ i : Fin concThreads, i.val < k → s.threads i = []
  answer : ∀ r, s.main = .returned r → (∀ i, s.threads i = []) ∧
    r = if s.started = 0 then .faulted else summary s

theorem inv_init : Inv E init where
  handles i := rfl
  started := by simp [init]
  idle i _ := rfl
  owed := by simp [init, Interlocked.owed]; rfl
  waited k hk := nomatch hk
  answer r hr := nomatch hr

theorem increment_eq (counters : Counter → ℕ) (v : Counter) :
    Function.update counters v (counters v + 1) = counters + one v := by
  funext u
  by_cases hu : u = v
  · subst hu
    rw [Function.update_self, Pi.add_apply, one, Pi.single_eq_same]
  · rw [Function.update_of_ne hu, Pi.add_apply, one, Pi.single_eq_of_ne hu, Nat.add_zero]

theorem Inv.threadStep (h : Inv E s) (i : Fin concThreads) : Inv E (threadStep i s) := by
  rw [SseTest.threadStep]
  split
  · exact h
  · next counter rest hpending =>
    have hstep : ∀ j, s.threads j = [] → Function.update s.threads i rest j = [] := fun j hj => by
      have hji : j ≠ i := fun hji => nomatch (hji ▸ hj).symm.trans hpending
      rw [Function.update_of_ne hji, hj]
    refine ⟨h.handles, h.started, fun j hj => hstep j (h.idle j hj), ?_,
      fun k hk => ⟨(h.waited k hk).1, fun j hj => hstep j ((h.waited k hk).2 j hj)⟩,
      fun r hr => ?_⟩
    · rw [increment_eq, owed_add hpending]
      exact h.owed
    · exact nomatch ((h.answer r hr).1 i).symm.trans hpending

/-- A thread more. -/
theorem sum_update_true {M : Type*} [AddCommMonoid M] {handles : Fin concThreads → Bool}
    (f : Fin concThreads → M) (hi : handles i = false) :
    (∑ j, if Function.update handles i true j then f j else 0) =
      (∑ j, if handles j then f j else 0) + f i := by
  have hold : (∑ j, if handles j then f j else 0) =
      ∑ j ∈ univ.erase i, if handles j then f j else 0 := by
    rw [← add_sum_erase univ _ (mem_univ i), hi, if_neg Bool.false_ne_true, zero_add]
  rw [sum_update (fun j (b : Bool) => if b then f j else 0), hold, add_comm, if_pos rfl]

/-- The next `CreateThread` call. -/
theorem Inv.create (h : Inv E s) {k : ℕ} (hm : s.main = .creating k) (hk : k < concThreads) :
    Inv E (mainStep E s) := by
  have hhandles : ∀ j : Fin concThreads, s.handles j = (decide (j.val < k) && E.created j) := by
    simpa only [hm, tried] using h.handles
  have hnew : s.handles ⟨k, hk⟩ = false := by
    rw [hhandles, decide_eq_false (lt_irrefl k), Bool.false_and]
  have hnext : ∀ j : Fin concThreads, j ≠ ⟨k, hk⟩ →
      s.handles j = (decide (j.val < k + 1) && E.created j) := fun j hj => by
    have hne : j.val ≠ k := fun he => hj (Fin.ext he)
    rw [hhandles, decide_eq_decide.mpr (show j.val < k ↔ j.val < k + 1 by omega)]
  simp only [SseTest.mainStep, hm, dif_pos hk]
  split
  · next hcreated =>
    refine ⟨fun j => ?_, ?_, fun j hj => ?_, ?_, (fun _ hw => nomatch hw), fun _ hr => nomatch hr⟩
    · show Function.update s.handles ⟨k, hk⟩ true j = (decide (j.val < k + 1) && E.created j)
      by_cases hj : j = ⟨k, hk⟩
      · rw [hj, Function.update_self, hcreated, decide_eq_true (Nat.lt_succ_self k)]
        rfl
      · rw [Function.update_of_ne hj, hnext j hj]
    · show s.started + 1 = ∑ j, if Function.update s.handles ⟨k, hk⟩ true j then 1 else 0
      rw [sum_update_true (fun _ => 1) hnew, ← h.started]
    · have hne : j ≠ ⟨k, hk⟩ := fun he => by
        rw [he] at hj
        exact nomatch (Function.update_self ..).symm.trans hj
      have hidle : s.handles j = false := (Function.update_of_ne hne ..).symm.trans hj
      exact (Function.update_of_ne hne ..).trans (h.idle j hidle)
    · show Interlocked.owed one s.counters (Function.update s.threads ⟨k, hk⟩ _) =
        ∑ j, if Function.update s.handles ⟨k, hk⟩ true j then adds E j else 0
      rw [sum_update_true (adds E) hnew, owed_start (h.idle _ hnew), h.owed, adds]
  · next hfailed =>
    refine ⟨fun j => ?_, h.started, h.idle, h.owed, (fun _ hw => nomatch hw),
      fun _ hr => nomatch hr⟩
    show s.handles j = (decide (j.val < k + 1) && E.created j)
    by_cases hj : j = ⟨k, hk⟩
    · rw [hj, hnew, Bool.eq_false_of_not_eq_true hfailed, Bool.and_false]
    · exact hnext j hj

/-- Where the main thread goes on with no thread created, the threads are as they were. -/
theorem Inv.goOn (h : Inv E s) {m : Main} (hold : concThreads ≤ tried s.main)
    (hnew : tried m = concThreads) (hwaited : ∀ k, m = .waiting k → s.started ≠ 0 ∧
      ∀ i : Fin concThreads, i.val < k → s.threads i = [])
    (hanswer : ∀ r, m = .returned r → (∀ i, s.threads i = []) ∧
      r = if s.started = 0 then .faulted else summary s) : Inv E { s with main := m } := by
  refine ⟨fun j => ?_, h.started, h.idle, h.owed, hwaited, hanswer⟩
  have hj := j.isLt
  show s.handles j = (decide (j.val < tried m) && E.created j)
  rw [h.handles, hnew, decide_eq_true hj, decide_eq_true (by omega : j.val < tried s.main)]

/-- The next thread that is waited for. -/
theorem Inv.wait (h : Inv E s) {k : ℕ} (hm : s.main = .waiting k) : Inv E (mainStep E s) := by
  have hold : concThreads ≤ tried s.main := by
    rw [hm]
    rfl
  obtain ⟨hsome, hwaited⟩ := h.waited k hm
  simp only [SseTest.mainStep, hm]
  split
  · next hk =>
    split
    · exact h
    · next hended =>
      refine h.goOn hold rfl (fun k' hw => ⟨hsome, fun i hi => ?_⟩) fun _ hr => nomatch hr
      rw [← Main.waiting.inj hw] at hi
      by_cases hik : i.val < k
      · exact hwaited i hik
      · obtain rfl : i = ⟨k, hk⟩ := Fin.ext (show i.val = k by omega)
        by_contra hrunning
        cases hhandle : s.handles ⟨k, hk⟩ with
        | false => exact hrunning (h.idle _ hhandle)
        | true => exact hended ⟨hhandle, hrunning⟩
  · next hk =>
    refine h.goOn hold rfl (fun _ hw => nomatch hw) fun r hr => ⟨fun i => ?_, ?_⟩
    · have hi := i.isLt
      exact hwaited i (by omega)
    · rw [if_neg hsome]
      exact (Main.returned.inj hr).symm

theorem Inv.mainStep (h : Inv E s) : Inv E (mainStep E s) := by
  cases hm : s.main with
  | creating k =>
    by_cases hk : k < concThreads
    · exact h.create hm hk
    · have hold : concThreads ≤ tried s.main := by
        rw [hm]
        exact not_lt.mp hk
      simp only [SseTest.mainStep, hm, dif_neg hk]
      split
      · next hnone =>
        refine h.goOn hold rfl (fun _ hw => nomatch hw) fun r hr => ⟨fun i => ?_, ?_⟩
        · have hzero := h.started.symm.trans hnone
          have hi := sum_eq_zero_iff.mp hzero i (mem_univ i)
          exact h.idle i (Bool.eq_false_of_not_eq_true fun htrue => by simp [htrue] at hi)
        · rw [if_pos hnone]
          exact (Main.returned.inj hr).symm
      · next hsome =>
        refine h.goOn hold rfl (fun k hw => ⟨hsome, fun i hi => ?_⟩) fun _ hr => nomatch hr
        rw [← Main.waiting.inj hw] at hi
        exact absurd hi (Nat.not_lt_zero _)
  | waiting k => exact h.wait hm
  | returned r =>
    rw [SseTest.mainStep, hm]
    exact h

theorem inv_exec (E : Env) (es : List Event) : Inv E (exec (step E) init es) :=
  exec_invariant inv_init fun s e h => by
    cases e with
    | main => exact h.mainStep
    | thread i => exact h.threadStep i

/-! ## What the exit code says -/

/-- The thread took an exception. -/
def Faults (E : Env) (i : Fin concThreads) : Prop := E.outcome i = .fault

/-- The thread stored something else than its pattern. -/
def Corrupted (E : Env) (i : Fin concThreads) : Prop :=
  ∃ lanes, E.outcome i = .readback lanes ∧ ∃ lane, lanes lane ≠ seed i

/-- The thread was started, took no exception and found its pattern in all 32 lanes. -/
def Preserved (E : Env) (i : Fin concThreads) : Prop :=
  E.created i = true ∧ ∃ lanes, E.outcome i = .readback lanes ∧ ∀ lane, lanes lane = seed i

theorem adds_fault (hfault : Faults E i) : adds E i .faulted = 1 ∧ adds E i .corrupt = 0 := by
  rw [adds, hfault]
  exact ⟨rfl, rfl⟩

theorem adds_readback {lanes : Fin 32 → BitVec 32} (hlanes : E.outcome i = .readback lanes) :
    adds E i .faulted = 0 ∧ (adds E i .corrupt ≠ 0 ↔ Corrupted E i) := by
  rw [adds, hlanes, concThread]
  split
  · next hbad => exact ⟨rfl, iff_of_true (by decide) ⟨lanes, hlanes, hbad⟩⟩
  · next hgood =>
    refine ⟨rfl, iff_of_false (fun hne => hne rfl) fun ⟨lanes', hlanes', hbad⟩ => hgood ?_⟩
    rwa [Outcome.readback.inj (hlanes.symm.trans hlanes')]

theorem adds_faulted_le (E : Env) (i : Fin concThreads) : adds E i .faulted ≤ 1 := by
  cases hout : E.outcome i with
  | fault => exact (adds_fault hout).1.le
  | readback lanes => exact (adds_readback hout).1.trans_le (Nat.zero_le 1)

theorem adds_corrupt (E : Env) (i : Fin concThreads) : adds E i .corrupt ≠ 0 ↔ Corrupted E i := by
  cases hout : E.outcome i with
  | fault =>
    refine iff_of_false (fun hne => hne (adds_fault hout).2) ?_
    rintro ⟨lanes, hlanes, -⟩
    exact nomatch hout.symm.trans hlanes
  | readback lanes => exact (adds_readback hout).2

theorem Inv.handles_eq (h : Inv E s) {r : Result} (hr : s.main = .returned r) :
    s.handles = E.created := by
  funext i
  rw [h.handles, hr]
  exact (congrArg (· && E.created i) (decide_eq_true i.isLt)).trans (Bool.true_and _)

/-- The counters that the main thread finds in the end. -/
theorem Inv.counters_eq (h : Inv E s) {r : Result} (hr : s.main = .returned r) (v : Counter) :
    s.counters v = ∑ i, if E.created i then adds E i v else 0 := by
  have howed := h.owed
  rw [owed_done (h.answer r hr).1, h.handles_eq hr] at howed
  rw [howed, Finset.sum_apply]
  refine sum_congr rfl fun i _ => ?_
  split <;> rfl

/-- The test calls it corruption exactly where a started thread is corrupted. -/
theorem Inv.wrong_iff (h : Inv E s) {r : Result} (hr : s.main = .returned r) :
    r = .wrong ↔ ∃ i, E.created i = true ∧ Corrupted E i := by
  have hstarted := h.started
  rw [h.handles_eq hr] at hstarted
  have hcorrupt : s.counters .corrupt > 0 ↔ ∃ i, E.created i = true ∧ Corrupted E i := by
    rw [h.counters_eq hr, gt_iff_lt, Nat.pos_iff_ne_zero, Ne, sum_eq_zero_iff]
    simp only [mem_univ, forall_true_left, not_forall, ite_eq_right_iff, exists_prop, adds_corrupt]
  have hfewer : s.counters .corrupt > 0 → s.counters .faulted < s.started := fun hpos => by
    obtain ⟨i, hi, lanes, hlanes, -⟩ := hcorrupt.mp hpos
    rw [h.counters_eq hr, hstarted]
    refine sum_lt_sum (fun j _ => ?_) ⟨i, mem_univ i, ?_⟩
    · split
      · exact adds_faulted_le E j
      · exact le_rfl
    · rw [if_pos hi, if_pos hi, (adds_readback hlanes).1]
      exact Nat.one_pos
  rw [← hcorrupt, (h.answer r hr).2, summary]
  constructor
  · intro hwrong
    split_ifs at hwrong with h0 h1 h2
    exact h2
  · intro hpos
    have hlt := hfewer hpos
    rw [if_neg (by omega), if_neg (by omega), if_pos hpos]

/-- Exit code 0 is evidence exactly where a thread that is not started or faults comes with
another one that is corrupted. -/
theorem exit_zero_iff (E : Env) (es : List Event) (conc : Result)
    (hrun : (exec (step E) init es).main = .returned conc) :
    (exitCode .ok conc = 0 → ∀ i, Preserved E i) ↔
      ((∃ i, E.created i = false ∨ Faults E i) → ∃ i, E.created i = true ∧ Corrupted E i) := by
  have hwrong := (inv_exec E es).wrong_iff hrun
  have hexit : exitCode .ok conc = 0 ↔ conc ≠ .wrong := by
    cases conc <;> decide
  rw [hexit, ← hwrong]
  constructor
  · rintro hclaim ⟨i, hi⟩
    by_contra hne
    obtain ⟨hcreated, lanes, hlanes, -⟩ := hclaim hne i
    rcases hi with hi | hi
    · exact Bool.false_ne_true (hi.symm.trans hcreated)
    · exact nomatch hi.symm.trans hlanes
  · intro hcond hne i
    have hnone : ¬(E.created i = false ∨ Faults E i) := fun hi => hne (hcond ⟨i, hi⟩)
    obtain ⟨hcreated, hok⟩ := not_or.mp hnone
    refine ⟨Bool.eq_true_of_not_eq_false hcreated, ?_⟩
    cases hout : E.outcome i with
    | fault => exact absurd hout hok
    | readback lanes =>
      refine ⟨lanes, rfl, fun lane => ?_⟩
      by_contra hlane
      exact hne (hwrong.mpr ⟨i, Bool.eq_true_of_not_eq_false hcreated, lanes, hout, lane, hlane⟩)

/-! All four threads take an exception; each thread runs when it is waited for. -/

def allFault : Env := ⟨fun _ => true, fun _ => .fault⟩

def allFaultRun : List Event :=
  List.replicate 5 .main ++ (List.finRange concThreads).flatMap (fun i =>
    [.thread i, .thread i, .main]) ++ [.main]

theorem allFault_returned : (exec (step allFault) init allFaultRun).main = .returned .faulted := by
  decide

theorem exit_zero_iff_allFault : (exitCode .ok .faulted = 0 → ∀ i, Preserved allFault i) ↔
    ((∃ i, allFault.created i = false ∨ Faults allFault i) →
      ∃ i, allFault.created i = true ∧ Corrupted allFault i) :=
  exit_zero_iff allFault allFaultRun .faulted allFault_returned

theorem not_evidence : ¬∀ (E : Env) (es : List Event) (conc : Result),
    (exec (step E) init es).main = .returned conc →
      exitCode .ok conc = 0 → ∀ i, Preserved E i := by
  intro hclaim
  obtain ⟨-, lanes, hlanes, -⟩ := hclaim allFault allFaultRun .faulted allFault_returned rfl 0
  exact nomatch hlanes

end Nt351.SseTest
