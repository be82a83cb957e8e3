import Nt351Sse.Driver.NmHook
import Nt351Sse.Driver.Patch
import Nt351Sse.Driver.Undo

/-! `net start` and `net stop` again and again. Each attempt finds gate 7, the kernel's code
and CR4 as the one before has left them; what else it finds, pool memory and the place where
the driver is loaded included, may differ from attempt to attempt. -/

namespace Nt351.Driver
open Memory Runs Preempt

/-- Where an attempt ends: a driver that loads runs and is unloaded. -/
def attempt (E : Env) : System := (lifetime E true (initial E)).state

abbrev Succeeds (E : Env) : Prop := (driverEntry E (initial E)).result = .success

/-- `code` are the addresses of the kernel's code. -/
structure Next (code : Set Addr) (E E' : Env) : Prop where
  gate : E'.gate = (attempt E).ctl.gate
  text : ∀ x ∈ code, E'.text x = (attempt E).ctl.text x
  cr4 : E'.cr4 = (attempt E).ctl.cr4

/-- The attempt was refused while traps already went through the gate, and there were some. -/
def RefusedInUse (E : Env) : Prop := ¬Succeeds E ∧ GateGoesIn E ∧ windowNms E ≠ []

/-- What an attempt leaves of the pool: the blocks of others, and of its own only what the
threads hold that trapped before it was refused. -/
structure PoolReturned (E : Env) (s : System) : Prop where
  kept : ∀ c ∈ E.pool.heap.live, c ∈ s.trap.data.heap.live
  leaks : (∃ c ∈ s.trap.data.heap.live, c ∉ E.pool.heap.live) ↔ RefusedInUse E
  once : s.trap.data.heap.bugcheck = false

structure Attempted (E : Env) (s : System) : Prop where
  gate : s.ctl.gate = E.gate
  text : s.ctl.text = E.text
  cr4 : s.ctl.cr4 = if Succeeds E then E.cr4 &&& cr4OsfxsrClear else E.cr4
  pool : PoolReturned E s

variable {E E' : Env} {Es : List Env} {leaked : Finset Block} {s : System} {code : Set Addr}

theorem succeeds_iff (E : Env) : Succeeds E ↔ Loads E := by
  have hspec := (driverEntry_spec E).2
  exact ⟨fun hs => (hspec.loaded hs).1, fun hl => by_contra fun hs => (hspec.failed hs).1 hl⟩

theorem lifetime_refused (h : ¬Succeeds E) :
    (lifetime E true (initial E)).state = (driverEntry E (initial E)).state := by
  have hbind : (lifetime E true (initial E)).state =
      ((if (driverEntry E (initial E)).result = .success then do
          interrupts E .running
          driverUnload E
          pure (driverEntry E (initial E)).result
        else pure (driverEntry E (initial E)).result : Prog System NtStatus)
          (driverEntry E (initial E)).state).state := rfl
  rw [hbind, if_neg h]
  rfl

theorem poolReturned_of_holding (h : Heap.Holding E.pool.heap.live leaked s.trap.data.heap)
    (hleaked : leaked.Nonempty ↔ RefusedInUse E) : PoolReturned E s := by
  have hown : (∃ c ∈ s.trap.data.heap.live, c ∉ E.pool.heap.live) ↔ leaked.Nonempty := by
    constructor
    · rintro ⟨c, hc, hnot⟩
      exact ⟨c, ((h.mem c).mp hc).resolve_right hnot⟩
    · rintro ⟨c, hc⟩
      exact ⟨c, (h.mem c).mpr (.inl hc), h.apart c hc⟩
  exact ⟨fun c hc => (h.mem c).mpr (.inr hc), hown.trans hleaked, h.clean⟩

/-- After an unload the driver holds nothing. -/
theorem Unloaded.holding (h : Unloaded E s) :
    Heap.Holding E.pool.heap.live ∅ s.trap.data.heap := by
  obtain ⟨v, a, t, hp, hh, -, hdata⟩ := h.data
  obtain ⟨free, hdrained, hblocks, -⟩ := hp.reclaimed hh
  have hfreed := hdrained.holding
  rwa [hblocks, Finset.sdiff_self, ← hdata] at hfreed

/-- The OSFXSR bit that the load has set is cleared, whatever it was before. -/
theorem cr4_set_clear (cr4 : BitVec 32) :
    (cr4 ||| cr4Osfxsr) &&& cr4OsfxsrClear = cr4 &&& cr4OsfxsrClear := by
  have hzero : cr4Osfxsr &&& cr4OsfxsrClear = 0#32 := by decide
  rw [BitVec.and_or_distrib_right, hzero, BitVec.or_zero]

/-- One attempt, whether it loads the driver or not. -/
theorem attempt_spec (E : Env) : Attempted E (attempt E) := by
  by_cases hs : Succeeds E
  · have hunloaded : Unloaded E (attempt E) := lifetime_unloaded E hs
    obtain ⟨c, hcr4, hctl⟩ := hunloaded.ctl
    have hnone : (∅ : Finset Block).Nonempty ↔ RefusedInUse E :=
      iff_of_false Finset.not_nonempty_empty fun h => h.1 hs
    refine ⟨?_, ?_, ?_, poolReturned_of_holding hunloaded.holding hnone⟩
    · rw [hctl, Control.unloaded]
    · rw [hctl, Control.unloaded]
    · rw [hctl, if_pos hs, Control.unloaded, hcr4, cr4_set_clear]
  · obtain ⟨leaked, hr, hleaked⟩ := ((driverEntry_spec E).2.failed hs).2
    have hstate : attempt E = (driverEntry E (initial E)).state := lifetime_refused hs
    have hsome : leaked.Nonempty ↔ RefusedInUse E := by
      rw [Finset.nonempty_iff_ne_empty, Ne, hleaked, RefusedInUse, Classical.not_imp,
        and_iff_right hs]
    rw [hstate]
    exact ⟨hr.gate, hr.text, by rw [hr.cr4, if_neg hs], poolReturned_of_holding hr.holding hsome⟩

/-! ## Attempts in a row -/

theorem Next.found (h : Next code E E') :
    E'.gate = E.gate ∧ ∀ x ∈ code, E'.text x = E.text x := by
  have hone := attempt_spec E
  exact ⟨h.gate.trans hone.gate, fun x hx => (h.text x hx).trans (congrFun hone.text x)⟩

/-- Every attempt finds the gate and the kernel's code that the first has found. -/
theorem found_same (h : (E :: Es).IsChain (Next code)) :
    ∀ e ∈ Es, e.gate = E.gate ∧ ∀ x ∈ code, e.text x = E.text x := by
  induction Es generalizing E with
  | nil => exact fun e he => absurd he List.not_mem_nil
  | cons E' Es ih =>
    obtain ⟨hnext, hrest⟩ := List.isChain_cons_cons.mp h
    obtain ⟨hgate, htext⟩ := hnext.found
    intro e he
    rcases List.mem_cons.mp he with rfl | he
    · exact ⟨hgate, htext⟩
    · obtain ⟨hgate', htext'⟩ := ih hrest e he
      exact ⟨hgate'.trans hgate, fun x hx => (htext' x hx).trans (htext x hx)⟩

/-- The state after the last attempt. -/
def after : Env → List Env → System
  | E, [] => attempt E
  | _, E' :: Es => after E' Es

theorem after_ctl (h : (E :: Es).IsChain (Next code)) :
    (after E Es).ctl.gate = E.gate ∧ (∀ x ∈ code, (after E Es).ctl.text x = E.text x) ∧
      (after E Es).ctl.cr4 =
        if ∃ e ∈ E :: Es, Succeeds e then E.cr4 &&& cr4OsfxsrClear else E.cr4 := by
  have hone := attempt_spec E
  induction Es generalizing E with
  | nil =>
    refine ⟨hone.gate, fun x _ => congrFun hone.text x, ?_⟩
    simpa [after] using hone.cr4
  | cons E' Es ih =>
    obtain ⟨hnext, hrest⟩ := List.isChain_cons_cons.mp h
    obtain ⟨hgate, htext⟩ := hnext.found
    obtain ⟨hgate', htext', hcr4'⟩ := ih hrest (attempt_spec E')
    refine ⟨hgate'.trans hgate, fun x hx => (htext' x hx).trans (htext x hx), ?_⟩
    have hmask : E.cr4 &&& cr4OsfxsrClear &&& cr4OsfxsrClear = E.cr4 &&& cr4OsfxsrClear := by
      rw [BitVec.and_assoc, BitVec.and_self]
    rw [after, hcr4', hnext.cr4, hone.cr4]
    by_cases hs : Succeeds E
    · have hfirst : ∃ e ∈ E :: E' :: Es, Succeeds e := ⟨E, List.mem_cons_self, hs⟩
      rw [if_pos hs, if_pos hfirst, hmask, ite_self]
    · have hlater : (∃ e ∈ E' :: Es, Succeeds e) ↔ ∃ e ∈ E :: E' :: Es, Succeeds e := by
        rw [List.exists_mem_cons_iff Succeeds E, or_iff_right hs]
      rw [if_neg hs, if_congr hlater rfl rfl]

/-! ## The checks on the kernel's code -/

/-- The bytes the driver checks belong to the kernel's code. -/
structure Checked (code : Set Addr) (E : Env) : Prop where
  handler : ∀ i < nmPrologueLen, off (gateTarget E.gate) i ∈ code
  swapContext : ∀ i : Fin detourLen, off swapContextVa i ∈ code

/-- The same driver, wherever it is loaded. -/
def SameDriver (E E' : Env) : Prop :=
  ∀ i < nmPrologueLen, E'.text (off E'.nmHandler i) = E.text (off E.nmHandler i)

theorem checks_again (hcode : Checked code E) (hdriver : SameDriver E E')
    (hgate : E'.gate = E.gate) (htext : ∀ x ∈ code, E'.text x = E.text x) :
    (matchedLen E'.text (gateTarget E'.gate) E'.nmHandler = nmPrologueLen ↔
      matchedLen E.text (gateTarget E.gate) E.nmHandler = nmPrologueLen) ∧
    (swapMismatch E'.text = 0 ↔ swapMismatch E.text = 0) := by
  constructor
  · rw [matchedLen_eq_iff, matchedLen_eq_iff, hgate]
    exact forall₂_congr fun i hi => by rw [htext _ (hcode.handler i hi), hdriver i hi]
  · rw [Patch.swapMismatch_eq_zero, Patch.swapMismatch_eq_zero]
    exact forall_congr' fun i => by rw [htext _ (hcode.swapContext i)]

/-- What holds after any number of attempts. -/
structure Restarted (code : Set Addr) (E : Env) (Es : List Env) : Prop where
  gate : (after E Es).ctl.gate = E.gate
  text : ∀ x ∈ code, (after E Es).ctl.text x = E.text x
  -- the first load that succeeds clears OSFXSR for good
  cr4 : (after E Es).ctl.cr4 =
    if ∃ e ∈ E :: Es, Succeeds e then E.cr4 &&& cr4OsfxsrClear else E.cr4
  pool : ∀ e ∈ E :: Es, PoolReturned e (attempt e)
  -- no check on the kernel's code fails that has been passed before
  again : Checked code E → Succeeds E → ∀ e ∈ Es, SameDriver E e → (Succeeds e ↔
    (prepare e (initial e)).1 = none ∧
      ((prepare e (initial e)).2.trap.data.heap.alloc (detourLen + 5)).1 ≠ 0)

theorem restarts_restored (h : (E :: Es).IsChain (Next code)) : Restarted code E Es := by
  obtain ⟨hgate, htext, hcr4⟩ := after_ctl h
  refine ⟨hgate, htext, hcr4, fun e _ => (attempt_spec e).pool, fun hcode hs e he hdriver => ?_⟩
  obtain ⟨hgate', htext'⟩ := found_same h e he
  obtain ⟨hmatch, hswap⟩ := checks_again hcode hdriver hgate' htext'
  obtain ⟨⟨-, hmatched⟩, hexpected, -⟩ := (succeeds_iff E).mp hs
  rw [succeeds_iff, Loads, GateGoesIn, and_iff_left (hmatch.mpr hmatched),
    and_iff_right (hswap.mpr hexpected)]

/-- `osfxsrEnv` after a load and an unload; the driver is loaded elsewhere. -/
def againEnv : Env :=
  { twoBuffersEnv with
    nmHandler := 0xfc8b1000
    swapDetour := 0xfc8b2000
    cr4 := 0x90
    unhooked := by decide +kernel
    unpatched := by decide +kernel }

def outOfMemoryEnv : Env :=
  { againEnv with
    pool := { twoBuffers with heap := ⟨[], [], false, .nil⟩ }
    clean := rfl }

theorem restarts_restored_osfxsr : Restarted Set.univ osfxsrEnv [outOfMemoryEnv, againEnv] := by
  have hrefused : Next Set.univ osfxsrEnv outOfMemoryEnv :=
    ⟨(attempt_spec osfxsrEnv).gate.symm,
      fun x _ => (congrFun (attempt_spec osfxsrEnv).text x).symm, by decide +kernel⟩
  have hagain : Next Set.univ outOfMemoryEnv againEnv :=
    ⟨(attempt_spec outOfMemoryEnv).gate.symm,
      fun x _ => (congrFun (attempt_spec outOfMemoryEnv).text x).symm, by decide +kernel⟩
  exact restarts_restored (.cons_cons hrefused (.cons_cons hagain (.singleton _)))

end Nt351.Driver
