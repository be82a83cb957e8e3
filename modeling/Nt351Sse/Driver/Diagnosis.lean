import Nt351Sse.Driver.Restarts

/-! The record `DriverEntry` logs, if it gets a packet for it. The words alone tell whether the
driver is in, and if it is not, which of the conditions for a load fails. -/

namespace Nt351.Driver
open Memory Preempt

/-- Why a load ends as it does. -/
inductive Cause
  | emulation
  | noCpuid
  | noFxsrSse
  | noBuffers
  | noImage
  -- where the kernel's #NM handler is not as expected
  | handler (n : ℕ)
  -- where `SwapContext` is not
  | swapContext (n : ℕ)
  | noTrampoline
  | loaded
deriving DecidableEq

/-- Byte `n` of `SwapContext` is the first that is not as expected. -/
structure FirstUnexpected (text : Mem) (n : ℕ) : Prop where
  lt : n < detourLen
  differ : text (off swapContextVa n) ≠ swapExpected ⟨n, lt⟩
  before : ∀ i : Fin detourLen, i.val < n → text (off swapContextVa i) = swapExpected i

/-- Pool memory once the registry has been read. -/
def afterRegistry (E : Env) : Data :=
  { (initial E).trap.data with heap := (forceNpxEmulationSet E (initial E).trap.data.heap).2 }

namespace Cause

def status : Cause → NtStatus
  | noBuffers => .insufficientResources
  | noImage => .insufficientResources
  | loaded => .success
  | _ => .unsuccessful

/-- The words that are logged. -/
def record (E : Env) : Cause → List (BitVec 32)
  | noFxsrSse => [1]
  | emulation => [2]
  | noCpuid => [3]
  | noBuffers => [4]
  | noImage => [5]
  | handler n => [6, gateTarget E.gate, BitVec.ofNat 32 n]
  | swapContext n => [7, swapContextVa, BitVec.ofNat 32 (n + 1)]
  | noTrampoline => [7, swapContextVa, 0]
  | loaded => [E.cpuidEdx, E.cr4, E.cr4 ||| cr4Osfxsr]

/-- What a cause says of the machine. -/
def Holds (E : Env) : Cause → Prop
  | emulation => E.keyOpens = true ∧ ∃ v, E.forceNpxEmulation = some v ∧
      v.type = regDword ∧ v.dataLength = 4 ∧ v.data ≠ 0 ∧ v.data ≠ 1
  | noCpuid => E.hasCpuid = false
  | noFxsrSse => hasFxsrSse E.cpuidEdx = false
  | noBuffers => (prefill (afterRegistry E)).1 = 0
  | noImage => ((prefill (afterRegistry E)).2.heap.alloc (sseSaveSize + sseSaveAlign)).1 = 0
  | handler n => n < nmPrologueLen ∧ LongestMatch E.text (gateTarget E.gate) E.nmHandler n
  | swapContext n => FirstUnexpected E.text n
  | noTrampoline => Patch.Expected E.text ∧
      ((prepare E (initial E)).2.trap.data.heap.alloc (detourLen + 5)).1 = 0
  | loaded => Loads E

/-- What is read from the words alone. -/
def diagnose : List (BitVec 32) → Option Cause
  | [code] =>
    if code = 1 then some noFxsrSse
    else if code = 2 then some emulation
    else if code = 3 then some noCpuid
    else if code = 4 then some noBuffers
    else if code = 5 then some noImage
    else none
  | [code, _, n] =>
    if code = 6 then some (handler n.toNat)
    else if code = 7 then some (if n = 0 then noTrampoline else swapContext (n.toNat - 1))
    else some loaded
  | _ => none

end Cause

variable {E : Env} {s s' : System} {m : Mem} {n : ℕ}

/-- The load has logged one record, for a cause that is real; without a packet there is none. -/
def Diagnosed (E : Env) (status : NtStatus) (s : System) : Prop :=
  ∃ cause : Cause, s.ctl.log = (if E.logPacket then [cause.record E] else []) ∧
    status = cause.status ∧ cause.Holds E

/-- Nothing is logged yet, and the CPU has what it takes. -/
structure Unlogged (E : Env) (c : Control) : Prop where
  log : c.log = []
  features : c.features = E.cpuidEdx
  cr4 : c.cr4 = E.cr4
  able : hasFxsrSse E.cpuidEdx = true

theorem diagnosed_of_record (cause : Cause) (hlog : s.ctl.log = [])
    (hrecord : s'.ctl.log =
      if E.logPacket then s.ctl.log ++ [cause.record E] else s.ctl.log)
    (hholds : cause.Holds E) : Diagnosed E cause.status s' :=
  ⟨cause, by rw [hrecord, hlog, List.nil_append], rfl, hholds⟩

/-! ## Up to the hooks -/

theorem emulation_holds (h : (forceNpxEmulationSet E (initial E).trap.data.heap).1 = true) :
    Cause.emulation.Holds E := by
  unfold forceNpxEmulationSet at h
  split at h
  · exact absurd h Bool.false_ne_true
  · next hopens =>
    refine ⟨not_not.mp hopens, ?_⟩
    dsimp only at h
    split at h
    · exact absurd h Bool.false_ne_true
    · cases hv : E.forceNpxEmulation with
      | none =>
        rw [hv] at h
        exact absurd h Bool.false_ne_true
      | some v =>
        rw [hv] at h
        exact ⟨v, rfl, of_decide_eq_true h⟩

/-- Where `prepare` has got to. -/
structure PrepareDiagnosed (E : Env) (answer : Option NtStatus) (s : System) : Prop where
  refused : ∀ status, answer = some status → Diagnosed E status s
  passed : answer = none → Unlogged E s.ctl

theorem PrepareDiagnosed.of_cause {cause : Cause} (h : Diagnosed E cause.status s) :
    PrepareDiagnosed E (some cause.status) s :=
  ⟨fun _ hs => Option.some.inj hs ▸ h, fun hs => absurd hs (Option.some_ne_none _)⟩

theorem prepareImage_diagnosed (h : Unlogged E s.ctl)
    (hheap : s.trap.data.heap = (prefill (afterRegistry E)).2.heap) :
    PrepareDiagnosed E (prepareImage E s).1 (prepareImage E s).2 := by
  rcases ha : s.trap.data.heap.alloc (sseSaveSize + sseSaveAlign) with ⟨raw, heap⟩
  by_cases hr : raw = 0
  · subst hr
    have hnone : Cause.noImage.Holds E := by
      show ((prefill (afterRegistry E)).2.heap.alloc (sseSaveSize + sseSaveAlign)).1 = 0
      rw [← hheap, ha]
    simp only [prepareImage, ha, if_true]
    exact PrepareDiagnosed.of_cause (diagnosed_of_record .noImage h.log rfl hnone)
  · simp only [prepareImage, ha, hr, if_false]
    exact ⟨fun _ hs => absurd hs.symm (Option.some_ne_none _),
      fun _ => ⟨h.log, h.features, h.cr4, h.able⟩⟩

theorem prepare_diagnosed (E : Env) :
    PrepareDiagnosed E (prepare E (initial E)).1 (prepare E (initial E)).2 := by
  rcases hforce : forceNpxEmulationSet E (initial E).trap.data.heap with ⟨force, heap⟩
  have hafter : afterRegistry E = { (initial E).trap.data with heap := heap } := by
    rw [afterRegistry, hforce]
  by_cases hf : force
  · have hholds : Cause.emulation.Holds E := emulation_holds (by rw [hforce, hf])
    simp only [prepare, hforce, hf, if_true]
    exact PrepareDiagnosed.of_cause (diagnosed_of_record (s := initial E) _ rfl rfl hholds)
  by_cases hcpuid : E.hasCpuid
  · by_cases hsse : hasFxsrSse E.cpuidEdx
    · obtain ⟨built, hp, hn, -⟩ := prefill_spec { (initial E).trap.data with heap := heap }
      rcases hpre : prefill { (initial E).trap.data with heap := heap } with ⟨buffersBuilt, d⟩
      simp only [hpre] at hp hn
      by_cases hb : buffersBuilt = 0
      · have hholds : Cause.noBuffers.Holds E := by
          show (prefill (afterRegistry E)).1 = 0
          rw [hafter, hpre]
          exact hb
        simp only [prepare, hforce, hf, hcpuid, hsse, hpre, hb, System.setData, System.setTrap,
          System.setCtl]
        exact PrepareDiagnosed.of_cause (diagnosed_of_record (s := initial E) _ rfl rfl hholds)
      · have hne : built ≠ [] := fun h0 => hb (hn.symm.trans (congrArg List.length h0))
        simp only [prepare, hforce, hf, hcpuid, hsse, hpre, hb, System.setData, System.setTrap,
          System.setCtl, hp.selfTest hne]
        refine prepareImage_diagnosed ⟨rfl, rfl, rfl, hsse⟩ ?_
        rw [hafter, hpre]
    · have hholds : Cause.noFxsrSse.Holds E := Bool.eq_false_of_not_eq_true hsse
      simp only [prepare, hforce, hf, hcpuid, hsse, System.setData, System.setTrap, System.setCtl]
      exact PrepareDiagnosed.of_cause (diagnosed_of_record (s := initial E) _ rfl rfl hholds)
  · have hholds : Cause.noCpuid.Holds E := Bool.eq_false_of_not_eq_true hcpuid
    simp only [prepare, hforce, hf, hcpuid]
    exact PrepareDiagnosed.of_cause (diagnosed_of_record (s := initial E) _ rfl rfl hholds)

/-! ## The hooks -/

theorem refuseNm_diagnosed (h : Unlogged E s.ctl)
    (hm : matchedLen E.text (gateTarget E.gate) E.nmHandler ≠ nmPrologueLen) :
    wp (refuseNm E (gateTarget E.gate) (matchedLen E.text (gateTarget E.gate) E.nmHandler))
      (fun _ => True) (Diagnosed E) s := by
  have hmatch := matchedLen_spec E.text (gateTarget E.gate) E.nmHandler
  simp only [refuseNm, wp_bind, wp_write, wp_pure]
  exact diagnosed_of_record (.handler _) h.log rfl ⟨lt_of_le_of_ne hmatch.le hm, hmatch⟩

theorem firstUnexpected_of_mismatch (h : swapMismatch m ≠ 0) :
    ∃ n, swapMismatch m = n + 1 ∧ FirstUnexpected m n := by
  unfold swapMismatch at h ⊢
  cases hf : (List.finRange detourLen).find? fun (i : Fin detourLen) =>
      m (off swapContextVa i) ≠ swapExpected i with
  | none =>
    rw [hf] at h
    exact absurd rfl h
  | some i =>
    obtain ⟨hdiffer, k, hk, hki, hbefore⟩ := List.find?_eq_some_iff_getElem.mp hf
    rw [List.getElem_finRange] at hki
    obtain rfl : k = i.val := congrArg Fin.val hki
    refine ⟨i, rfl, i.isLt, by simpa using hdiffer, fun j hj => ?_⟩
    simpa using hbefore j hj

theorem removeNmHook_log (s : System) : (removeNmHook E s).state.ctl.log = s.ctl.log := by
  suffices hwp : wp (removeNmHook E) (fun _ => True) (fun _ s' => s'.ctl.log = s.ctl.log) s from
    hwp.2
  unfold removeNmHook
  rw [wp_bind, wp_read]
  split
  · rw [wp_bind, wp_write, wp_bind]
    refine wp_interrupts_ctl fun s₁ h₁ => ?_
    rw [wp_bind, wp_write]
    refine wp_interrupts_ctl fun s₂ h₂ => ?_
    simp only [h₂, System.setCtl, h₁]
  · exact (wp_pure ..).mpr rfl

theorem refuseSwap_diagnosed (hlog : s.ctl.log = [])
    (hfull : swapMismatch E.text = 0 → Cause.noTrampoline.Holds E) :
    wp (refuseSwap E (swapMismatch E.text)) (fun _ => True) (Diagnosed E) s := by
  unfold refuseSwap
  rw [wp_bind]
  refine wp_interrupts_ctl fun s₁ h₁ => ?_
  rw [wp_bind, wp_write, wp_bind]
  refine ⟨fun _ _ => trivial, ?_⟩
  simp only [wp_bind, wp_write, wp_pure]
  have hlog₁ : s₁.ctl.log = [] := by rw [h₁, hlog]
  by_cases hm : swapMismatch E.text = 0
  · rw [hm]
    exact diagnosed_of_record .noTrampoline hlog₁ (removeNmHook_log _) (hfull hm)
  · obtain ⟨n, hn, hfirst⟩ := firstUnexpected_of_mismatch hm
    rw [hn]
    exact diagnosed_of_record (.swapContext n) hlog₁ (removeNmHook_log _) hfirst

theorem installSwapHook_unlogged (h : Unlogged E s.ctl) (htext : s.ctl.text = E.text) :
    wp (installSwapHook E) (fun _ => True) (fun r s' => Unlogged E s'.ctl ∧
      (r.1 = false → r.2 = swapMismatch E.text)) s := by
  unfold installSwapHook
  rw [wp_bind, wp_read, htext]
  by_cases hm : swapMismatch E.text = 0
  · rw [if_neg (not_not.mpr hm), wp_bind, wp_call]
    rcases ha : s.trap.data.heap.alloc (detourLen + 5) with ⟨p, heap⟩
    simp only [allocTrampoline, ha]
    by_cases hp : p = 0
    · rw [if_pos hp, wp_pure]
      exact ⟨⟨h.log, h.features, h.cr4, h.able⟩, fun _ => hm.symm⟩
    · rw [if_neg hp]
      simp only [wp_bind, wp_write, wp_pure]
      refine wp_interrupts_ctl fun s₁ h₁ => wp_interrupts_ctl fun s₂ h₂ =>
        wp_interrupts_ctl fun s₃ h₃ => wp_interrupts_ctl fun s₄ h₄ =>
        wp_interrupts_ctl fun s₅ h₅ => wp_interrupts_ctl fun s₆ h₆ => ?_
      refine ⟨?_, fun hfalse => absurd hfalse Bool.true_eq_false.mp⟩
      simp only [h₆, System.setCtl, h₅, h₄, System.setTrap, h₃, h₂, copyDisplaced, h₁]
      exact ⟨h.log, h.features, h.cr4, h.able⟩
  · rw [if_pos hm, wp_pure]
    exact ⟨h, fun _ => rfl⟩

theorem enable_diagnosed (h : Unlogged E s.ctl) (hloads : Loads E) :
    wp (enable E) (fun _ => True) (Diagnosed E) s := by
  unfold enable enableSseThisCpu
  simp only [wp_bind, wp_read, wp_write, wp_pure]
  refine wp_interrupts_ctl fun s₁ h₁ => wp_interrupts_ctl fun s₂ h₂ => ?_
  have hctl : s₂.ctl.log = [] ∧ s₂.ctl.features = E.cpuidEdx := by
    rw [h₂]
    simp only [System.setCtl, System.setTrap, h₁]
    exact ⟨h.log, h.features⟩
  have hafter : s₁.ctl.cr4 = E.cr4 ||| cr4Osfxsr := by
    rw [h₁, ← h.cr4]
    rfl
  rw [hctl.2, h.cr4, hafter]
  exact diagnosed_of_record .loaded hctl.1 rfl hloads

/-! ## The load -/

/-- Past the #NM hook. -/
theorem hooked_diagnosed (h : Unlogged E s.ctl) (htext : s.ctl.text = E.text)
    (hin : GateGoesIn E) : wp (do
        let (ok, mismatch) ← installSwapHook E
        if ok then enable E else refuseSwap E mismatch) (fun _ => True)
      (fun status s => (status = .success ↔ Loads E) → Diagnosed E status s) s := by
  rw [wp_bind]
  refine wp_mono (installSwapHook_unlogged h htext) (fun _ => id) fun r s' hr => ?_
  obtain ⟨ok, mismatch⟩ := r
  obtain ⟨hclear, hmismatch⟩ := hr
  cases ok with
  | false =>
    obtain rfl : mismatch = swapMismatch E.text := hmismatch rfl
    show wp (refuseSwap E (swapMismatch E.text)) _ _ _
    by_cases hl : Loads E
    · refine ⟨fun _ _ => trivial, fun hiff => absurd (hiff.mpr hl) ?_⟩
      show NtStatus.unsuccessful ≠ .success
      decide
    · refine wp_mono (refuseSwap_diagnosed hclear.log fun hm => ?_) (fun _ => id) fun _ _ h _ => h
      exact ⟨Patch.swapMismatch_eq_zero.mp hm, by_contra fun halloc => hl ⟨hin, hm, halloc⟩⟩
  | true =>
    show wp (enable E) _ _ _
    by_cases hl : Loads E
    · exact wp_mono (enable_diagnosed hclear hl) (fun _ => id) fun _ _ h _ => h
    · exact ⟨fun _ _ => trivial, fun hiff => absurd (hiff.mp rfl) hl⟩

theorem driverEntry_diagnosed (E : Env) : Diagnosed E (driverEntry E (initial E)).result
    (driverEntry E (initial E)).state := by
  suffices hwp : wp (driverEntry E) (fun _ => True)
      (fun status s => (status = .success ↔ Loads E) → Diagnosed E status s) (initial E) from
    hwp.2 (succeeds_iff E)
  have hprepare := prepare_spec E
  have hdiagnosed := prepare_diagnosed E
  unfold driverEntry
  rw [wp_bind, wp_call]
  rcases hp : prepare E (initial E) with ⟨refused, s⟩
  rw [hp] at hprepare hdiagnosed
  cases refused with
  | some status => exact (wp_pure ..).mpr fun _ => hdiagnosed.refused status rfl
  | none =>
    obtain ⟨v, hv⟩ : ∃ v, Prepared E v s := hprepare.prepared rfl
    have hclear := hdiagnosed.passed rfl
    rw [wp_bind]
    refine wp_interrupts_ctl fun s₁ h₁ => ?_
    have hgate : s₁.ctl.gate = E.gate := by rw [h₁, hv.idle.gate]
    have htext : s₁.ctl.text = E.text := by rw [h₁, hv.idle.text]
    rw [wp_bind]
    refine ⟨fun _ _ => trivial, ?_⟩
    by_cases hm : matchedLen E.text (gateTarget E.gate) E.nmHandler = nmPrologueLen
    · have hm₁ : matchedLen s₁.ctl.text (gateTarget s₁.ctl.gate) E.nmHandler = nmPrologueLen := by
        rw [htext, hgate, hm]
      obtain ⟨hresult, hctl⟩ := installNmHook_installed hm₁
      rw [hresult]
      refine hooked_diagnosed ?_ ?_ ⟨congrArg Prod.fst hp, hm⟩
      · rw [hctl, h₁]
        exact ⟨hclear.log, hclear.features, hclear.cr4, hclear.able⟩
      · rw [hctl]
        exact htext
    · have hm₁ : matchedLen s₁.ctl.text (gateTarget s₁.ctl.gate) E.nmHandler ≠ nmPrologueLen := by
        rw [htext, hgate]
        exact hm
      obtain ⟨hresult, hstate⟩ := installNmHook_refused hm₁
      rw [hresult, hstate, htext, hgate]
      refine wp_mono (refuseNm_diagnosed ?_ hm) (fun _ => id) fun _ _ h _ => h
      rw [h₁]
      exact hclear

/-! ## Reading the record -/

theorem Loads.able (h : Loads E) : hasFxsrSse E.cpuidEdx = true :=
  ((prepare_diagnosed E).passed h.1.1).able

/-- CPUID.1 EDX is no error code. -/
theorem able_ne {features : BitVec 32} (h : hasFxsrSse features = true) :
    features ≠ 6 ∧ features ≠ 7 := by
  constructor
  · rintro rfl
    exact absurd h (by decide)
  · rintro rfl
    exact absurd h (by decide)

theorem toNat_small {n : ℕ} (h : n < 64) : (BitVec.ofNat 32 n).toNat = n := by
  rw [BitVec.toNat_ofNat]
  omega

/-- The words of a real cause can be told from those of any other. -/
theorem diagnose_record {cause : Cause} (h : cause.Holds E) :
    Cause.diagnose (cause.record E) = some cause := by
  cases cause with
  | handler n =>
    have hlt : n < nmPrologueLen := h.1
    show some (Cause.handler (BitVec.ofNat 32 n).toNat) = _
    rw [toNat_small (by simp only [nmPrologueLen] at hlt; omega)]
  | swapContext n =>
    have hlt : n < detourLen := FirstUnexpected.lt h
    have hnat : (BitVec.ofNat 32 (n + 1)).toNat = n + 1 :=
      toNat_small (by simp only [detourLen] at hlt; omega)
    have hne : BitVec.ofNat 32 (n + 1) ≠ 0 := fun h0 =>
      Nat.succ_ne_zero n (hnat.symm.trans (congrArg BitVec.toNat h0))
    show some (if BitVec.ofNat 32 (n + 1) = 0 then Cause.noTrampoline
      else .swapContext ((BitVec.ofNat 32 (n + 1)).toNat - 1)) = _
    rw [if_neg hne, hnat, Nat.add_sub_cancel]
  | loaded =>
    obtain ⟨h6, h7⟩ := able_ne (Loads.able h)
    show (if E.cpuidEdx = 6 then _ else if E.cpuidEdx = 7 then _ else some Cause.loaded) = _
    rw [if_neg h6, if_neg h7]
  | _ => rfl

/-- `DriverEntry` logs one record, whatever interrupts it, or none where it gets no packet. Read
on its own the record gives the status that is returned and a cause that is real, a byte that is
not as expected included. -/
theorem load_diagnosed (E : Env) : ∃ cause : Cause,
    (driverEntry E (initial E)).state.ctl.log =
        (if E.logPacket then [cause.record E] else []) ∧
      Cause.diagnose (cause.record E) = some cause ∧
      (driverEntry E (initial E)).result = cause.status ∧ cause.Holds E := by
  obtain ⟨cause, hlog, hstatus, hholds⟩ := driverEntry_diagnosed E
  exact ⟨cause, hlog, diagnose_record hholds, hstatus, hholds⟩

end Nt351.Driver
