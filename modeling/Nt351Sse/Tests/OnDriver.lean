import Nt351Sse.Base.LazyLoss
import Nt351Sse.Tests.Concurrency

/-! The test on the CPU with the driver. It answers `R_WRONG` exactly if a thread loses an
XMM register between its load and its store. -/

namespace Nt351.Concurrency
open Memory Runs Driver SseTest

variable (kernelX87 : Cpu → X87) (c : Setup)

def onDriver : Machine Cpu := ⟨Cpu.step kernelX87, Cpu.observe kernelX87, Cpu.cur⟩

/-- The access is a #NM taken while `g_FxOwner` is NULL; the NPX-loaded thread is `t`, and its
area has something else for the register `r`. -/
def Loses (t : Thread) (r : Reg) (s : Cpu) (e : Driver.Event) : Prop :=
  e.isAccess = true ∧ s.ts = true ∧ s.trap.fxOwner = 0 ∧ s.npx = some t ∧
    s.trap.fx.sse.get r ≠ (loadedSse s.trap.data.mem (boundArea t s.trap.data)).get r

/-- The event does not lose XMM `k` of thread `i` while it is in flight. -/
def Keeps (i : Fin concThreads) (k : Fin 8) (s : State Cpu) (e : Event) : Prop :=
  InFlight s i k → ∀ e', performed (onDriver kernelX87) c s e = some e' →
    ¬ Loses (c.tid i) (.xmm k) s.machine e'

/-! ## One register of one thread -/

abbrev xmm (k : Fin 8) (v : Sse) : Fin 16 → Byte := v.get (.xmm k)

def advance (x : LazySse) : Option Driver.Event → LazySse
  | none => x
  | some e => x.step saveRecord (absEvent e)

abbrev Clean (i : Fin concThreads) (k : Fin 8) (x : LazySse) : Prop :=
  LazyContext.Clean saveRecord (xmm k) (c.tid i) (fun _ => 0) x

abbrev Held (i : Fin concThreads) (k : Fin 8) (x : LazySse) : Prop :=
  LazyContext.Held saveRecord (xmm k) (c.tid i) (fun _ => 0) (pattern (seed i)) x

/-- What becomes of XMM `k` of thread `i` on its way to `readback`; `kept` if it was never lost. -/
structure Track (i : Fin concThreads) (k : Fin 8) (s : State Cpu) (x : LazySse) (kept : Prop) :
    Prop where
  fresh : ¬ (s.pc i).Loaded k → kept ∧ Clean c i k x
  flight : InFlight s i k → (kept → Held c i k x) ∧ (¬ kept → Clean c i k x)
  done : (s.pc i).Stored k → ∀ l : Fin 32, l.val / 4 = k →
    (kept → s.readback i l = seed i) ∧ (¬ kept → s.readback i l = 0)

variable {kernelX87 c} {s : State Cpu} {x : LazySse} {d₀ : Data} {built : List Addr} {n : ℕ}
  {i : Fin concThreads} {k : Fin 8} {e : Event} {o : Option Driver.Event} {kept : Prop}

theorem loses_iff {s : Cpu} {t : Thread} {r : Reg} {e : Driver.Event}
    (h : Abstracts d₀ built s x) (hw : x.Wf) (hlen : built.length < maxThreads) :
    Loses t r s e ↔ LazyContext.Loses saveRecord (fun v : Sse => v.get r) t x (absEvent e) := by
  have hacc : (absEvent e).isAccess ↔ e.isAccess = true := by
    cases e with
    | read r => exact ⟨fun _ => rfl, fun _ => trivial⟩
    | write r v => exact ⟨fun _ => rfl, fun _ => trivial⟩
    | switch t detour spurious => exact ⟨False.elim, fun hc => absurd hc Bool.false_ne_true⟩
  simp only [Loses, LazyContext.Loses, hacc, h.armed, h.owner_eq_zero hw, h.loaded, h.live,
    h.saved hlen]

/-- The processor does something else than to load XMM `k` for thread `i`. -/
def LeavesXmm (t : Thread) (k : Fin 8) (x : LazySse) (o : Option Driver.Event) : Prop :=
  ∀ e, o = some e → (absEvent e).Leaves (xmm k) x.cur t

theorem Clean.advance (h : Clean c i k x) (hw : x.Wf) (hf : x.FreeDefault saveRecord)
    (ho : LeavesXmm (c.tid i) k x o) : Clean c i k (advance x o) := by
  cases o with
  | none => exact h
  | some e => exact LazyContext.Clean.step h hw hf (ho e rfl)

/-- A register in flight is held until it is lost. -/
theorem Track.flight_advance (h : Track c i k s x kept) (habs : Abstracts d₀ built s.machine x)
    (hw : x.Wf) (hf : x.FreeDefault saveRecord) (hlen : built.length < maxThreads)
    (ho : LeavesXmm (c.tid i) k x (performed (onDriver kernelX87) c s e)) (hfly : InFlight s i k) :
    (kept ∧ Keeps kernelX87 c i k s e →
      Held c i k (advance x (performed (onDriver kernelX87) c s e))) ∧
    (¬ (kept ∧ Keeps kernelX87 c i k s e) →
      Clean c i k (advance x (performed (onDriver kernelX87) c s e))) := by
  obtain ⟨hheld, hclean⟩ := h.flight hfly
  have hkeeps : Keeps kernelX87 c i k s e ↔ ∀ e', performed (onDriver kernelX87) c s e = some e' →
      ¬ LazyContext.Loses saveRecord (xmm k) (c.tid i) x (absEvent e') := by
    rw [Keeps, forall_prop_of_true hfly]
    exact forall₂_congr fun e' _ => not_congr (loses_iff habs hw hlen)
  rw [hkeeps]
  cases hp : performed (onDriver kernelX87) c s e with
  | none =>
    refine ⟨fun hk => hheld hk.1, fun hnot => hclean fun hk => hnot ⟨hk, ?_⟩⟩
    rintro e' ⟨⟩
  | some e' =>
    rw [hp] at ho
    have hleaves := ho e' rfl
    refine ⟨fun hk => (hheld hk.1).step hw hf hleaves (hk.2 e' rfl), fun hnot => ?_⟩
    by_cases hk : kept
    · by_cases hlost : LazyContext.Loses saveRecord (xmm k) (c.tid i) x (absEvent e')
      · exact (hheld hk).lost hw hf hleaves hlost
      · refine absurd ⟨hk, fun e'' he => ?_⟩ hnot
        rwa [← Option.some.inj he]
    · exact LazyContext.Clean.step (hclean hk) hw hf hleaves

/-- But for the load of XMM `k`, thread `i` leaves it alone, and so do all others. -/
theorem leavesXmm (habs : Abstracts d₀ built s.machine x)
    (hnot : Own (onDriver kernelX87) c i s e → s.pc i ≠ .load k) :
    LeavesXmm (c.tid i) k x (performed (onDriver kernelX87) c s e) := by
  intro e' he
  cases e' with
  | switch t detour spurious => trivial
  | read r => trivial
  | write r w =>
    intro hcur v
    by_cases hown : Own (onDriver kernelX87) c i s e
    · rw [hown.performed] at he
      rcases instruction_cases he with ⟨j, hpc, hwrite⟩ | ⟨j, -, hread⟩
      · obtain ⟨rfl, -⟩ := Driver.Event.write.inj hwrite
        exact Sse.get_set_other v _ fun hjk =>
          hnot hown (hpc.trans (congrArg _ (Reg.xmm.inj hjk).symm))
      · cases hread
    · rcases performed_other he hown with hacc | hother
      · exact absurd hacc Bool.true_eq_false.mp
      · exact absurd (habs.cur.symm.trans hcur) hother

/-- The value that `movups [eax], xmm k` stores. -/
theorem observe_advance (habs : Abstracts d₀ built s.machine x) (hw : x.Wf)
    (hlen : built.length < maxThreads) (hcur : s.machine.cur = c.tid i) :
    s.machine.observe kernelX87 (.xmm k) =
      xmm k ((advance x (some (.read (.xmm k)))).value saveRecord (c.tid i)) := by
  have hx : x.cur = c.tid i := habs.cur.trans hcur
  have hlive := LazyContext.access_live (R := saveRecord) hw
  rw [hx] at hlive
  exact (habs.observe hw hlen _).trans (congrArg (xmm k) hlive)

/-- One event, for one register of one thread. -/
theorem Track.step (h : Track c i k s x kept) (hs : Wf s) (habs : Abstracts d₀ built s.machine x)
    (hw : x.Wf) (hf : x.FreeDefault saveRecord) (hlen : built.length < maxThreads) :
    Track c i k (step (onDriver kernelX87) c s e)
      (advance x (performed (onDriver kernelX87) c s e)) (kept ∧ Keeps kernelX87 c i k s e) := by
  have hgrounded : ¬ InFlight s i k → (kept ∧ Keeps kernelX87 c i k s e ↔ kept) := fun hnot =>
    and_iff_left fun hfly => absurd hfly hnot
  cases move (M := onDriver kernelX87) (c := c) (e := e) hs i k with
  | load hown hpc hfly' =>
    have hnot := not_loaded_of_load hpc
    have hcur : s.machine.cur = c.tid i := (who_eq_some.mp hown.2.1).symm
    obtain ⟨hkept, hclean⟩ := h.fresh hnot
    have hkept := (hgrounded fun hfly => hnot hfly.1).mpr hkept
    have hperf : performed (onDriver kernelX87) c s e =
        some (.write (.xmm k) (pattern (seed i))) := by
      rw [hown.performed, hpc]
      rfl
    refine ⟨fun hc => absurd hfly'.1 hc, fun _ => ⟨fun _ => ?_, fun hc => absurd hkept hc⟩,
      fun hst => absurd hst hfly'.2⟩
    rw [hperf]
    exact LazyContext.Clean.write hclean hw hf (habs.cur.trans hcur) fun v =>
      Sse.get_set_self v _ _
  | store hown hpc hst hread =>
    have hfly := inFlight_of_store hpc
    have hcur : s.machine.cur = c.tid i := (who_eq_some.mp hown.2.1).symm
    have hperf : performed (onDriver kernelX87) c s e = some (.read (.xmm k)) := by
      rw [hown.performed, hpc]
      rfl
    have hleaves : LeavesXmm (c.tid i) k x (performed (onDriver kernelX87) c s e) :=
      leavesXmm habs fun _ hload => by cases hpc.symm.trans hload
    have hflight := h.flight_advance habs hw hf hlen hleaves hfly
    rw [hperf] at hflight
    refine ⟨fun hc => absurd hst.loaded hc, fun hfly' => absurd hst hfly'.2, fun _ l hl => ?_⟩
    rw [hread l hl]
    change (_ → lane (s.machine.observe kernelX87 (.xmm k)) l = _) ∧
      (_ → lane (s.machine.observe kernelX87 (.xmm k)) l = _)
    rw [observe_advance habs hw hlen hcur]
    refine ⟨fun hk => ?_, fun hk => ?_⟩
    · exact (congrArg (lane · l) (hflight.1 hk).1).trans (lane_pattern _ _)
    · exact (congrArg (lane · l) (hflight.2 hk).1).trans (lane_zero _)
  | other hnot hloaded hstored hread =>
    have hleaves := leavesXmm habs hnot
    refine ⟨fun hc => ?_, fun hfly => ?_, fun hst l hl => ?_⟩
    · have hfresh : ¬ (s.pc i).Loaded k := fun hl => hc (hloaded.mpr hl)
      obtain ⟨hkept, hclean⟩ := h.fresh hfresh
      exact ⟨(hgrounded fun hfly => hfresh hfly.1).mpr hkept, hclean.advance hw hf hleaves⟩
    · exact h.flight_advance habs hw hf hlen hleaves
        ⟨hloaded.mp hfly.1, fun hst => hfly.2 (hstored.mpr hst)⟩
    · have hst' := hstored.mp hst
      rw [hgrounded fun hfly => hfly.2 hst', hread l hl]
      exact h.done hst' l hl

/-! ## Whole runs -/

variable {m : Cpu} {es : List Event} {r : Result} {P : Finset Thread}

theorem advance_abstracts (habs : Abstracts d₀ built s.machine x) (hw : x.Wf)
    (hf : x.FreeDefault saveRecord) (hlen : built.length < maxThreads) :
    Abstracts d₀ built (step (onDriver kernelX87) c s e).machine
      (advance x (performed (onDriver kernelX87) c s e)) ∧
    (advance x (performed (onDriver kernelX87) c s e)).Wf ∧
    (advance x (performed (onDriver kernelX87) c s e)).FreeDefault saveRecord := by
  rw [step]
  cases performed (onDriver kernelX87) c s e with
  | none => exact ⟨habs, hw, hf⟩
  | some e' => exact ⟨habs.step hw hlen e', hw.step _, hf.step hw _⟩

theorem track_start {x : LazySse} (h : Start n d₀ built m x) (i : Fin concThreads) (k : Fin 8) :
    Track c i k (Concurrency.start m) x True := by
  have hheld : x.pool.held (c.tid i) = none := by
    by_contra hne
    have hmem := (x.pool.mem_holders _).mpr hne
    rw [h.holders] at hmem
    exact absurd hmem (Finset.notMem_empty _)
  have hsaved : LazyContext.saved saveRecord x.pool x.area (c.tid i) = .default := by
    simp only [LazyContext.saved, hheld]
    rfl
  refine ⟨fun _ => ⟨trivial, ?_, ?_⟩, fun hfly => hfly.1.elim, fun hs => hs.elim⟩
  · rw [h.sim.file]
    rfl
  · rw [hsaved]
    rfl

theorem track_exec (kernelX87 : Cpu → X87) (c : Setup) (h : Start n d₀ built m x)
    (es : List Event) : ∃ x',
    Abstracts d₀ built (exec (step (onDriver kernelX87) c) (Concurrency.start m) es).machine x' ∧
    x'.Wf ∧ x'.FreeDefault saveRecord ∧ ∀ i k,
      Track c i k (exec (step (onDriver kernelX87) c) (Concurrency.start m) es) x'
        (Along (step (onDriver kernelX87) c) (Keeps kernelX87 c i k) (Concurrency.start m) es) := by
  induction es using List.reverseRecOn with
  | nil => exact ⟨x, h.abstracts, h.sim.wf, h.sim.free, track_start h⟩
  | append_singleton es e ih =>
    obtain ⟨x', habs, hw, hf, htrack⟩ := ih
    obtain ⟨habs', hw', hf'⟩ := advance_abstracts (c := c) (e := e) habs hw hf h.len
    rw [exec_concat]
    refine ⟨_, habs', hw', hf', fun i k => ?_⟩
    rw [along_concat]
    exact (htrack i k).step (wf_exec m es) habs hw hf h.len

/-- What a thread finds when it is through: its pattern, unless it lost a register. -/
theorem readback_iff (hs : Started n m) {i : Fin concThreads}
    (hpc : (exec (step (onDriver kernelX87) c) (Concurrency.start m) es).pc i = .counting) :
    (∃ l, (exec (step (onDriver kernelX87) c) (Concurrency.start m) es).readback i l ≠ seed i) ↔
      ∃ k, ¬ Along (step (onDriver kernelX87) c) (Keeps kernelX87 c i k) (Concurrency.start m)
        es := by
  obtain ⟨d₀, built, x, h⟩ := hs.start
  obtain ⟨x', -, -, -, htrack⟩ := track_exec kernelX87 c h es
  have hstored : ∀ k,
      ((exec (step (onDriver kernelX87) c) (Concurrency.start m) es).pc i).Stored k := by
    intro k
    rw [hpc]
    trivial
  constructor
  · rintro ⟨l, hl⟩
    have hk : l.val / 4 < 8 := by omega
    refine ⟨⟨l / 4, hk⟩, fun hkept => hl ?_⟩
    exact ((htrack i ⟨l / 4, hk⟩).done (hstored _) l rfl).1 hkept
  · rintro ⟨k, hlost⟩
    have hl : 4 * k.val < 32 := by omega
    refine ⟨⟨4 * k, hl⟩, ?_⟩
    have hzero := ((htrack i k).done (hstored k) ⟨4 * k, hl⟩
      (Nat.mul_div_cancel_left _ (by omega))).2 hlost
    rw [hzero]
    exact (seed_ne_zero i).symm

theorem keeps_of_idle (hs : Started n m)
    (hpc : (exec (step (onDriver kernelX87) c) (Concurrency.start m) es).pc i = .idle) (k : Fin 8) :
    Along (step (onDriver kernelX87) c) (Keeps kernelX87 c i k) (Concurrency.start m) es := by
  obtain ⟨d₀, built, x, h⟩ := hs.start
  obtain ⟨x', -, -, -, htrack⟩ := track_exec kernelX87 c h es
  refine ((htrack i k).fresh ?_).1
  rw [hpc]
  exact id

theorem wrong_iff_lost (hs : Started n m)
    (hr : (exec (step (onDriver kernelX87) c) (start m) es).test.main = .returned r) :
    r = .wrong ↔
      ∃ i k, ¬ Along (step (onDriver kernelX87) c) (Keeps kernelX87 c i k) (start m) es := by
  refine (returned_iff hr).1.trans (exists_congr fun i => ?_)
  have hpc := returned_pc hr i
  constructor
  · rintro ⟨hc, hbad⟩
    rw [if_pos hc] at hpc
    exact (readback_iff hs hpc).mp hbad
  · rintro ⟨k, hlost⟩
    by_cases hc : c.created i = true
    · rw [if_pos hc] at hpc
      exact ⟨hc, (readback_iff hs hpc).mpr ⟨k, hlost⟩⟩
    · rw [if_neg hc] at hpc
      exact absurd (keeps_of_idle hs hpc k) hlost

theorem ok_iff_kept (hs : Started n m)
    (hr : (exec (step (onDriver kernelX87) c) (start m) es).test.main = .returned r) :
    r = .ok ↔ (∃ i, c.created i = true) ∧
      ∀ i k, Along (step (onDriver kernelX87) c) (Keeps kernelX87 c i k) (start m) es := by
  have hcreated : r ≠ .faulted ↔ ∃ i, c.created i = true := by
    rw [Ne, (returned_iff hr).2]
    simp
  have hkept : r ≠ .wrong ↔ ∀ i k, Along (step (onDriver kernelX87) c) (Keeps kernelX87 c i k)
      (start m) es := by
    rw [Ne, wrong_iff_lost hs hr]
    simp
  rw [← hcreated, ← hkept]
  cases r <;> simp

/-! Thread A runs the block, and is switched out in its middle; the other three are not created. -/

def oneThread : Setup := sampleSetup fun i => decide (i.val = 0)

def upToSpin : List Event :=
  .switch threadB false false :: List.replicate 5 .run ++
    .switch threadA false false :: List.replicate 8 .run

def fromSpin : List Event :=
  [.switch threadB false false, .run, .access (.write .mxcsr 0x1fa0#32),
    .switch threadA false false] ++
    List.replicate 10 .run ++ .switch threadB false false :: List.replicate 5 .run

def oneThreadRun : List Event := upToSpin ++ (spins ++ fromSpin)

abbrev keptX87 (s : Cpu) : X87 := s.trap.fx.x87

theorem oneThread_spin : exec (step (onDriver keptX87) oneThread) (start twoThreads)
    (upToSpin ++ spins) =
      { exec (step (onDriver keptX87) oneThread) (start twoThreads) upToSpin with
        pc := Function.update (exec (step (onDriver keptX87) oneThread) (start twoThreads) upToSpin).pc
          0 (.store xmm0) } := by
  rw [exec_append]
  exact exec_spins (wf_exec _ _) (by decide +kernel) (by decide +kernel)

theorem mem_oneThreadRun {e : Event} (h : e ∈ oneThreadRun) : e ∈ upToSpin ++ fromSpin := by
  simp only [oneThreadRun, spins, List.mem_append, List.mem_replicate] at h ⊢
  rcases h with h | ⟨-, rfl⟩ | h
  · exact .inl h
  · exact .inl (by simp [upToSpin])
  · exact .inr h

theorem oneThread_returned : (exec (step (onDriver keptX87) oneThread) (start twoThreads)
    oneThreadRun).test.main = .returned .ok := by
  rw [oneThreadRun, ← List.append_assoc, exec_append, oneThread_spin]
  decide +kernel

/-- However many threads there are and whoever goes without a save area: the test answers
`R_WRONG` exactly if one of its threads loses an XMM register between its load and its
store, and else `R_OK` if there was a thread at all. -/
theorem answer_iff_kept (hs : Started n m)
    (hr : (exec (step (onDriver kernelX87) c) (start m) es).test.main = .returned r) :
    (r = .wrong ↔
      ∃ i k, ¬ Along (step (onDriver kernelX87) c) (Keeps kernelX87 c i k) (start m) es) ∧
    (r = .ok ↔ (∃ i, c.created i = true) ∧
      ∀ i k, Along (step (onDriver kernelX87) c) (Keeps kernelX87 c i k) (start m) es) :=
  ⟨wrong_iff_lost hs hr, ok_iff_kept hs hr⟩

theorem answer_iff_kept_oneThread : ∃ r,
    (exec (step (onDriver keptX87) oneThread) (start twoThreads) oneThreadRun).test.main =
      .returned r ∧
    (r = .wrong ↔ ∃ i k, ¬ Along (step (onDriver keptX87) oneThread)
      (Keeps keptX87 oneThread i k) (start twoThreads) oneThreadRun) ∧
    (r = .ok ↔ (∃ i, oneThread.created i = true) ∧
      ∀ i k, Along (step (onDriver keptX87) oneThread) (Keeps keptX87 oneThread i k)
        (start twoThreads) oneThreadRun) :=
  ⟨.ok, oneThread_returned, answer_iff_kept twoThreads_started oneThread_returned⟩

/-! ## With a save area for every thread -/

theorem Loses.not_noLoss {t : Thread} {q : Reg} {s : Cpu} {e : Driver.Event} (h : Loses t q s e) :
    ¬ NoLoss s e := by
  obtain ⟨hacc, hts, ho, hnpx, hne⟩ := h
  exact fun hloss => hne (congrArg (fun v : Sse => v.get q) (hloss hacc hts ho t hnpx))

/-- With a save area for every thread of the run the test passes, if every switch that ends
with `g_FxOwner` NULL sets TS; without `SwapDetour` no further condition is needed. -/
theorem concurrency_passes (hs : Started n m)
    (hr : (exec (step (onDriver kernelX87) c) (start m) es).test.main = .returned r)
    (hcreated : ∃ i, c.created i = true)
    (hcur : m.cur ∈ P) (hrun : ∀ e ∈ es, e.within P) (hP : P.card ≤ n)
    (hes : Along (Cpu.step kernelX87) (SwitchArmed kernelX87) m
        (trace (onDriver kernelX87) c (start m) es) ∨ ∀ e ∈ es, e.isUndetoured = true) :
    r = .ok ∧ exitCode .ok r = 0 := by
  obtain ⟨d₀, built, x, h⟩ := hs.start
  have hroom := h.room hcur hP
  have hwithin : ∀ e ∈ (trace (onDriver kernelX87) c (start m) es).map absEvent, e.within P := by
    intro e he
    obtain ⟨e, hm, rfl⟩ := List.mem_map.mp he
    refine absEvent_within ?_
    rcases mem_trace hm with hacc | ⟨t, detour, spurious, rfl, ht⟩
    · cases e with
      | read q => trivial
      | write q v => trivial
      | switch t detour spurious => exact absurd hacc Bool.false_ne_true
    · exact hrun _ ht
  have harm : Along (LazyContext.State.step saveRecord) (LazyContext.SwitchArmed saveRecord) x
      ((trace (onDriver kernelX87) c (start m) es).map absEvent) := by
    rcases hes with harm | hdetour
    · exact (h.abstracts.along_switchArmed_iff h.sim.wf h.len).mp harm
    · have howned : LazyContext.Owned x := fun _ => h.loaded
      refine howned.along h.agreed h.sim.wf hroom hwithin fun e he => ?_
      obtain ⟨e, hm, rfl⟩ := List.mem_map.mp he
      refine absEvent_isFlush ?_
      rcases mem_trace hm with hacc | ⟨t, detour, spurious, rfl, ht⟩
      · cases e with
        | read q => rfl
        | write q v => rfl
        | switch t detour spurious => exact absurd hacc Bool.false_ne_true
      · exact hdetour _ ht
  have hloss : Along (Cpu.step kernelX87) NoLoss m (trace (onDriver kernelX87) c (start m) es) :=
    (h.abstracts.along_noLoss_iff h.sim.wf h.len).mpr
      (h.agreed.lossless h.sim.wf hroom hwithin harm)
  have hkept : ∀ i k, Along (step (onDriver kernelX87) c) (Keeps kernelX87 c i k) (start m) es := by
    intro i k
    have hsteps : Along (step (onDriver kernelX87) c) (fun s e => ∀ e',
        performed (onDriver kernelX87) c s e = some e' → NoLoss s.machine e') (start m) es :=
      along_trace.mp hloss
    exact hsteps.imp fun s e hno _ e' he hlost => hlost.not_noLoss (hno e' he)
  obtain rfl : r = .ok := (ok_iff_kept hs hr).mpr ⟨hcreated, hkept⟩
  exact ⟨rfl, rfl⟩

theorem concurrency_passes_oneThread : ∃ r,
    (exec (step (onDriver keptX87) oneThread) (start twoThreads) oneThreadRun).test.main =
      .returned r ∧ r = .ok ∧ exitCode .ok r = 0 := by
  refine ⟨.ok, oneThread_returned, concurrency_passes (P := {threadA, threadB}) twoThreads_started
    oneThread_returned ⟨0, rfl⟩ (by decide) (fun e he => ?_) (by decide) (.inr fun e he => ?_)⟩
  · have hall : ∀ e ∈ upToSpin ++ fromSpin, e.within {threadA, threadB} := by
      simp [upToSpin, fromSpin, Event.within]
    exact hall e (mem_oneThreadRun he)
  · have hall : ∀ e ∈ upToSpin ++ fromSpin, e.isUndetoured = true := by
      simp [upToSpin, fromSpin, Event.isUndetoured]
    exact hall e (mem_oneThreadRun he)

end Nt351.Concurrency
