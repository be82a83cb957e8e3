import Nt351Sse.Tests.Concurrency

/-! The test where SSE is enabled and nobody saves XMM: all threads share one register file.
It then answers `R_WRONG` exactly if the blocks of two threads overlap on a register. -/

namespace Nt351.Concurrency
open Memory Runs Driver SseTest

/-- CR4.OSFXSR is set, and XMM stays as it is when threads are switched. -/
structure Untracked where
  sse : Sse
  cur : Thread

namespace Untracked

def step (s : Untracked) : Driver.Event → Untracked
  | .read _ => s
  | .write r v => { s with sse := s.sse.set r v }
  | .switch t _ _ => { s with cur := t }

def observe (s : Untracked) (r : Reg) : r.Val := s.sse.get r

end Untracked

def untracked : Machine Untracked := ⟨Untracked.step, Untracked.observe, Untracked.cur⟩

variable (c : Setup)

/-- Thread `j` loads XMM `k`. -/
def Loads (j : Fin concThreads) (k : Fin 8) (s : State Untracked) (e : Event) : Prop :=
  e = .run ∧ who c s.machine.cur = some j ∧ s.pc j = .load k

/-- No other thread of the test loads XMM `k` while thread `i` has it in flight. -/
def Alone (i : Fin concThreads) (k : Fin 8) (s : State Untracked) (e : Event) : Prop :=
  InFlight s i k → ∀ j, j ≠ i → ¬ Loads c j k s e

/-- Only the threads of the test write XMM. -/
def Event.sparesXmm : Event → Bool
  | access (.write (.xmm _) _) => false
  | _ => true

variable {c} {s : State Untracked} {i j : Fin concThreads} {k : Fin 8} {e : Event} {kept : Prop}

abbrev shared (k : Fin 8) (s : State Untracked) : Fin 16 → Byte := s.machine.sse.get (.xmm k)

structure Traced (i : Fin concThreads) (k : Fin 8) (s : State Untracked) (kept : Prop) : Prop where
  fresh : ¬ (s.pc i).Loaded k → kept
  flight : InFlight s i k → (kept → shared k s = pattern (seed i)) ∧
    (¬ kept → ∃ j, j ≠ i ∧ shared k s = pattern (seed j))
  done : (s.pc i).Stored k → ∀ l : Fin 32, l.val / 4 = k →
    (kept → s.readback i l = seed i) ∧ (¬ kept → ∃ j, j ≠ i ∧ s.readback i l = seed j)

theorem Loads.shared (h : Loads c j k s e) :
    shared k (step untracked c s e) = pattern (seed j) := by
  obtain ⟨rfl, hj, hpc⟩ := h
  have hperf : performed untracked c s .run = some (.write (.xmm k) (pattern (seed j))) := by
    rw [performed]
    show (who c s.machine.cur).bind _ = _
    rw [hj, Option.bind_some, hpc]
    rfl
  rw [Concurrency.shared, step_machine_some hperf]
  exact Sse.get_set_self s.machine.sse (.xmm k) _

/-- A register that no thread loads is left alone. -/
theorem shared_of_not_loads (he : e.sparesXmm = true) (hno : ∀ j, ¬ Loads c j k s e) :
    shared k (step untracked c s e) = shared k s := by
  cases hp : performed untracked c s e with
  | none => rw [shared, step_machine_none hp]
  | some e' =>
    rw [shared, step_machine_some hp]
    cases e' with
    | read r => rfl
    | switch t detour spurious => rfl
    | write r v =>
      refine Sse.get_set_other _ _ fun hk => ?_
      cases e with
      | switch t detour spurious => cases hp
      | run =>
        obtain ⟨j, hj, hinstr⟩ := Option.bind_eq_some_iff.mp hp
        rcases instruction_cases hinstr with ⟨k', hpc, hwrite⟩ | ⟨k', -, hread⟩
        · obtain ⟨rfl, -⟩ := Driver.Event.write.inj hwrite
          exact hno j ⟨rfl, hj, hpc.trans (congrArg _ (Reg.xmm.inj hk).symm)⟩
        · cases hread
      | access e'' =>
        rw [performed] at hp
        split at hp
        · obtain rfl := Option.some.inj hp
          subst hk
          cases he
        · cases hp

theorem seed_injective : Function.Injective seed := by decide

/-- A register in flight has the pattern of the last thread that loaded it. -/
theorem Traced.flight_step (h : Traced i k s kept) (he : e.sparesXmm = true)
    (hown : ¬ Loads c i k s e) (hfly : InFlight s i k) :
    (kept ∧ Alone c i k s e → shared k (step untracked c s e) = pattern (seed i)) ∧
    (¬ (kept ∧ Alone c i k s e) →
      ∃ j, j ≠ i ∧ shared k (step untracked c s e) = pattern (seed j)) := by
  obtain ⟨hkept, hlost⟩ := h.flight hfly
  by_cases hloads : ∃ j, j ≠ i ∧ Loads c j k s e
  · obtain ⟨j, hji, hj⟩ := hloads
    exact ⟨fun hk => absurd hj (hk.2 hfly j hji), fun _ => ⟨j, hji, hj.shared⟩⟩
  · have hno : ∀ j, ¬ Loads c j k s e := by
      intro j hj
      by_cases hji : j = i
      · exact hown (hji ▸ hj)
      · exact hloads ⟨j, hji, hj⟩
    have halone : Alone c i k s e := fun _ j _ => hno j
    rw [shared_of_not_loads he hno]
    exact ⟨fun hk => hkept hk.1, fun hk => hlost fun h => hk ⟨h, halone⟩⟩

theorem Traced.step (h : Traced i k s kept) (hs : Wf s) (he : e.sparesXmm = true) :
    Traced i k (step untracked c s e) (kept ∧ Alone c i k s e) := by
  have hgrounded : ¬ InFlight s i k → (kept ∧ Alone c i k s e ↔ kept) := fun hnot =>
    and_iff_left fun hfly => absurd hfly hnot
  cases move (M := untracked) (c := c) (e := e) hs i k with
  | load hown hpc hfly' =>
    have hnot := not_loaded_of_load hpc
    have hkept := (hgrounded fun hfly => hnot hfly.1).mpr (h.fresh hnot)
    have hloads : Loads c i k s e := ⟨hown.1, hown.2.1, hpc⟩
    exact ⟨fun _ => hkept, fun _ => ⟨fun _ => hloads.shared, fun hc => absurd hkept hc⟩,
      fun hst => absurd hst hfly'.2⟩
  | store hown hpc hst hread =>
    -- a store leaves the registers alone
    have halone : Alone c i k s e := fun _ j hji hj =>
      hji (Option.some.inj (hj.2.1.symm.trans hown.2.1))
    obtain ⟨hkept, hlost⟩ := h.flight (inFlight_of_store hpc)
    refine ⟨fun hc => absurd hst.loaded hc, fun hfly' => absurd hst hfly'.2, fun _ l hl => ?_⟩
    rw [hread l hl]
    change (_ → lane (shared k s) l = _) ∧ (_ → ∃ j, j ≠ i ∧ lane (shared k s) l = _)
    refine ⟨fun hk => ?_, fun hk => ?_⟩
    · rw [hkept hk.1, lane_pattern]
    · obtain ⟨j, hji, hj⟩ := hlost fun hc => hk ⟨hc, halone⟩
      exact ⟨j, hji, by rw [hj, lane_pattern]⟩
  | other hnot hloaded hstored hread =>
    have hloads : ¬ Loads c i k s e := fun hl => hnot ⟨hl.1, hl.2.1, by rw [hl.2.2]; rfl⟩ hl.2.2
    refine ⟨fun hc => ?_, fun hfly => ?_, fun hst l hl => ?_⟩
    · have hfresh : ¬ (s.pc i).Loaded k := fun hl => hc (hloaded.mpr hl)
      exact (hgrounded fun hfly => hfresh hfly.1).mpr (h.fresh hfresh)
    · exact h.flight_step he hloads
        ⟨hloaded.mp hfly.1, fun hst => hfly.2 (hstored.mpr hst)⟩
    · have hst' := hstored.mp hst
      rw [hgrounded fun hfly => hfly.2 hst', hread l hl]
      exact h.done hst' l hl

variable {m : Untracked} {es : List Event} {r : Result}

theorem traced_exec (m : Untracked) (hes : ∀ e ∈ es, e.sparesXmm = true) (i : Fin concThreads)
    (k : Fin 8) : Traced i k (exec (step untracked c) (start m) es)
      (Along (step untracked c) (Alone c i k) (start m) es) := by
  induction es using List.reverseRecOn with
  | nil => exact ⟨fun _ => trivial, fun hfly => hfly.1.elim, fun hst => hst.elim⟩
  | append_singleton es e ih =>
    have he := hes e (List.mem_append_right _ List.mem_cons_self)
    rw [exec_concat, along_concat]
    exact (ih fun e he => hes e (List.mem_append_left _ he)).step (wf_exec m es) he

/-- Where nobody saves XMM, the test answers `R_WRONG` exactly if one of its threads loads a
register that another one has loaded and not yet stored. -/
theorem wrong_iff_overlap (hes : ∀ e ∈ es, e.sparesXmm = true)
    (hr : (exec (step untracked c) (start m) es).test.main = .returned r) :
    r = .wrong ↔ ∃ i k, ¬ Along (step untracked c) (Alone c i k) (start m) es := by
  refine (returned_iff hr).1.trans (exists_congr fun i => ?_)
  have hpc := returned_pc hr i
  have htraced := fun k => traced_exec (c := c) m hes i k
  set s := exec (step untracked c) (start m) es
  constructor
  · rintro ⟨hc, l, hl⟩
    rw [if_pos hc] at hpc
    have hk : l.val / 4 < 8 := by omega
    refine ⟨⟨l / 4, hk⟩, fun hkept => hl ?_⟩
    exact ((htraced ⟨l / 4, hk⟩).done (by rw [hpc]; trivial) l rfl).1 hkept
  · rintro ⟨k, hlost⟩
    have hc : c.created i = true := by
      by_contra hc
      rw [if_neg hc] at hpc
      exact hlost ((htraced k).fresh (by rw [hpc]; exact id))
    rw [if_pos hc] at hpc
    have hl : 4 * k.val < 32 := by omega
    obtain ⟨j, hji, hj⟩ := ((htraced k).done (by rw [hpc]; trivial) ⟨4 * k, hl⟩
      (Nat.mul_div_cancel_left _ (by omega))).2 hlost
    exact ⟨hc, ⟨4 * k, hl⟩, fun hsame => hji (seed_injective (hj.symm.trans hsame))⟩

/-! While thread A spins, thread C runs its whole block. -/

def overlapping : Setup := sampleSetup fun i => decide (i.val < 2)

def upToFirst : List Event :=
  .switch threadB false false :: List.replicate 6 .run ++
    .switch threadA false false :: List.replicate 8 .run

def upToSecond : List Event := .switch threadC false false :: List.replicate 8 .run

def fromSecond : List Event :=
  List.replicate 10 .run ++ .switch threadA false false :: List.replicate 10 .run ++
    .switch threadB false false :: List.replicate 5 .run

def overlappingRun : List Event := upToFirst ++ (spins ++ (upToSecond ++ (spins ++ fromSecond)))

def fresh : Untracked := ⟨.default, threadB⟩

theorem overlapping_first : exec (step untracked overlapping) (start fresh) (upToFirst ++ spins) =
    { exec (step untracked overlapping) (start fresh) upToFirst with
      pc := Function.update (exec (step untracked overlapping) (start fresh) upToFirst).pc
        0 (.store xmm0) } := by
  rw [exec_append]
  exact exec_spins (wf_exec _ _) (by decide +kernel) (by decide +kernel)

def atSecond : State Untracked :=
  exec (step untracked overlapping) (start fresh) ((upToFirst ++ spins) ++ upToSecond)

theorem overlapping_second : exec (step untracked overlapping) atSecond spins =
    { atSecond with pc := Function.update atSecond.pc 1 (.store xmm0) } := by
  refine exec_spins (wf_exec _ _) ?_ ?_
  · rw [atSecond, exec_append, overlapping_first]
    decide +kernel
  · rw [atSecond, exec_append, overlapping_first]
    decide +kernel

theorem overlapping_returned :
    (exec (step untracked overlapping) (start fresh) overlappingRun).test.main =
      .returned .wrong := by
  have hrun : exec (step untracked overlapping) (start fresh) overlappingRun =
      exec (step untracked overlapping)
        (exec (step untracked overlapping) atSecond spins) fromSecond := by
    rw [atSecond, ← exec_append, ← exec_append, overlappingRun]
    simp only [List.append_assoc]
  rw [hrun, overlapping_second, atSecond, exec_append, overlapping_first]
  decide +kernel

theorem overlappingRun_sparesXmm {e : Event} (h : e ∈ overlappingRun) : e.sparesXmm = true := by
  have hrun : e = .run ∨ e ∈ upToFirst ++ upToSecond ++ fromSecond := by
    simp only [overlappingRun, spins, List.mem_append, List.mem_replicate] at h ⊢
    tauto
  rcases hrun with rfl | h
  · rfl
  · have hall : ∀ e ∈ upToFirst ++ upToSecond ++ fromSecond, e.sparesXmm = true := by
      decide
    exact hall e h

theorem wrong_iff_overlap_overlapping : ∃ r,
    (exec (step untracked overlapping) (start fresh) overlappingRun).test.main = .returned r ∧
    (r = .wrong ↔
      ∃ i k, ¬ Along (step untracked overlapping) (Alone overlapping i k) (start fresh)
        overlappingRun) :=
  ⟨.wrong, overlapping_returned,
    wrong_iff_overlap (fun _ => overlappingRun_sparesXmm) overlapping_returned⟩

end Nt351.Concurrency
