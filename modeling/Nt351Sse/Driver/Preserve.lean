import Nt351Sse.Driver.CpuLazy

/-! Does a thread read back what it wrote? The driver loses a thread's state at a #NM taken
while `g_FxOwner` is NULL and the live registers are not what the area of the thread that
last used them holds, and nowhere else. `SwapDetour` clears `g_FxOwner`, and a thread that
is switched back in with TS clear then writes with no owner set. -/

namespace Nt351.Driver
open Memory Probing Runs

/-- The machine once the driver is loaded, before any SSE access. -/
structure Started (n : ℕ) (s : Cpu) : Prop where
  loaded : Loaded n s.trap
  ts : s.ts = true
  npx : s.npx = none

namespace Event

def isAccess : Event → Bool
  | switch _ _ _ => false
  | _ => true

/-- A switch that runs `SwapDetour` and leaves TS clear wherever the kernel may. -/
def isDetoured : Event → Bool
  | switch _ detour spurious => detour && !spurious
  | _ => true

def isUndetoured : Event → Bool
  | switch _ detour _ => !detour
  | _ => true

def within (P : Finset Thread) : Event → Prop
  | switch t _ _ => t ∈ P
  | _ => True

instance (P : Finset Thread) : ∀ e : Event, Decidable (e.within P)
  | switch t _ _ => inferInstanceAs (Decidable (t ∈ P))
  | read _ => .isTrue trivial
  | write _ _ => .isTrue trivial

end Event

/-- Every thread of the run is in `P`. -/
def RunBy (P : Finset Thread) (s : Cpu) (es : List Event) : Prop := s.cur ∈ P ∧ ∀ e ∈ es, e.within P

instance (P : Finset Thread) (s : Cpu) (es : List Event) : Decidable (RunBy P s es) :=
  inferInstanceAs (Decidable (_ ∧ _))

/-- What thread `t` last wrote to `r` in a run that starts with `cur` current, `acc` if it
wrote nothing. -/
def lastWritten (t : Thread) (r : Reg) : Thread → r.Val → List Event → r.Val
  | _, acc, [] => acc
  | cur, acc, .read _ :: es => lastWritten t r cur acc es
  | cur, acc, .write q v :: es =>
    lastWritten t r cur (if h : cur = t ∧ q = r then h.2 ▸ v else acc) es
  | _, acc, .switch u _ _ :: es => lastWritten t r u acc es

variable (kernelX87 : Cpu → X87)

/-- Every read in the run returns what its thread last wrote, or the default. -/
def ReadsOwn (s : Cpu) (es : List Event) : Prop := ∀ p r, p ++ [.read r] <+: es →
  (exec (Cpu.step kernelX87) s p).observe kernelX87 r =
    lastWritten (exec (Cpu.step kernelX87) s p).cur r s.cur (Sse.default.get r) p

/-- The access is no #NM taken while `g_FxOwner` is NULL and the live XMM and MXCSR differ
from what the area of the NPX-loaded thread holds. -/
def NoLoss (s : Cpu) (e : Event) : Prop := e.isAccess = true → s.ts = true → s.trap.fxOwner = 0 →
  ∀ t, s.npx = some t → s.trap.fx.sse = loadedSse s.trap.data.mem (boundArea t s.trap.data)

/-- A switch that ends with `g_FxOwner` NULL enters the incoming thread with TS set. -/
def SwitchArmed (s : Cpu) (e : Event) : Prop := e.isAccess = false →
  (s.step kernelX87 e).trap.fxOwner = 0 → (s.step kernelX87 e).ts = true

instance (s : Cpu) (e : Event) : Decidable (SwitchArmed kernelX87 s e) :=
  inferInstanceAs (Decidable (_ → _ → _))

/-! ## Private register files -/

abbrev SseFiles := LazyContext.Files Thread Sse

theorem file_eq_lastWritten (i : SseFiles) (t : Thread) (r : Reg) (es : List Event) :
    ((exec LazyContext.Files.step i (es.map absEvent)).file t).get r =
      lastWritten t r i.cur ((i.file t).get r) es := by
  induction es generalizing i with
  | nil => rfl
  | cons e es ih =>
    rw [List.map_cons, exec_cons, ih]
    cases e with
    | read q => rfl
    | write q v =>
      rw [lastWritten]
      congr 1
      by_cases ht : i.cur = t
      · subst ht
        rw [absEvent, LazyContext.Files.write_self]
        by_cases hq : q = r
        · subst hq
          rw [Sse.get_set_self, dif_pos ⟨rfl, rfl⟩]
        · rw [Sse.get_set_other _ v (Ne.symm hq), dif_neg fun hc => hq hc.2]
      · rw [absEvent, LazyContext.Files.write_other _ (Ne.symm ht), dif_neg fun hc => ht hc.1]
    | switch u detour spurious => rfl

variable {kernelX87} {s : Cpu} {x : LazySse} {i : SseFiles} {d₀ : Data} {built : List Addr} {n : ℕ}
  {P : Finset Thread} {es : List Event}

/-! ## The start -/

theorem AreaDefault.sse {m : Mem} {save : Addr} (h : AreaDefault m save) :
    sseAt saveLayout m save = .default := by
  unfold sseAt Sse.default
  congr 1
  · funext j
    have hj := j.isLt
    rw [h _ (by simp only [saveLayout, saveXmm, sseSaveSize]; omega), if_neg]
    simp only [saveLayout, saveXmm, saveMxcsr]
    omega
  · refine readDword_of_bytes fun j hj => ?_
    rw [off_off, h _ (by simp only [saveLayout, saveMxcsr, sseSaveSize]; omega), if_pos]
    · simp only [saveLayout, Nat.add_sub_cancel_left]
    · simp only [saveLayout]
      omega

structure Start (n : ℕ) (d₀ : Data) (built : List Addr) (s : Cpu) (x : LazySse) : Prop where
  abstracts : Abstracts d₀ built s x
  sim : LazyContext.Sim saveRecord x ⟨s.cur, fun _ => .default⟩
  len : built.length < maxThreads
  capacity : x.pool.capacity = n
  holders : x.pool.holders = ∅
  owner : x.owner = none
  loaded : x.loaded = none
  armed : x.armed = true

theorem Started.start (h : Started n s) : ∃ d₀ built x, Start n d₀ built s x := by
  obtain ⟨built, hp, hn, hle, himage⟩ := h.loaded.pool
  set a := Assignment.start (K := Thread) built (Chain.nodup hp.placed.chain)
  let x : LazySse := {
    pool := a
    area := fun b => contents s.trap.data.mem (s.trap.data.node b).save
    live := s.trap.fx.sse
    owner := none
    loaded := none
    cur := s.cur
    armed := true }
  have hnone : ∀ t, a.held t = none := fun _ => rfl
  have habs : Abstracts s.trap.data built s x :=
    ⟨hp.serving, himage, fun _ _ => rfl, rfl, h.loaded.owner, h.npx.symm, rfl, h.ts.symm⟩
  have hwf : x.Wf := ⟨fun b hb => absurd hb (Option.some_ne_none b).symm,
    fun ha => absurd ha (by simp [x])⟩
  have hfree : x.FreeDefault saveRecord := by
    intro b hb
    have hget : saveRecord.get (x.area b) = sseAt saveLayout s.trap.data.mem
      (s.trap.data.node b).save :=
      sseAt_asMem saveLayout _ _
    rw [hget]
    exact (hp.default b hb).sse
  refine ⟨s.trap.data, built, x, habs, ⟨hwf, hfree, rfl, fun t => ?_⟩,
    lt_of_le_of_lt (hn.trans_le hle) (by decide),
    ?_, rfl, rfl, rfl, rfl⟩
  · simp only [LazyContext.State.value, LazyContext.saved, x, hnone, reduceCtorEq, if_false]
    rfl
  · simpa [x, a, Assignment.capacity, Assignment.start] using hn

/-! ## Reads along a run -/

theorem Abstracts.observe (h : Abstracts d₀ built s x) (hw : x.Wf)
    (hlen : built.length < maxThreads) (r : Reg) :
    s.observe kernelX87 r = (x.access saveRecord).live.get r := by
  have ha : Abstracts d₀ built (s.access kernelX87) (x.access saveRecord) := h.access hw hlen
  rw [ha.live]
  rfl

theorem Abstracts.noLoss_iff (h : Abstracts d₀ built s x) (hw : x.Wf)
    (hlen : built.length < maxThreads) (e : Event) :
    NoLoss s e ↔ x.NoLoss saveRecord (absEvent e) := by
  have hacc : (absEvent e).isAccess ↔ e.isAccess = true := by
    cases e with
    | read r => exact ⟨fun _ => rfl, fun _ => trivial⟩
    | write r v => exact ⟨fun _ => rfl, fun _ => trivial⟩
    | switch t detour spurious => exact ⟨False.elim, fun hc => absurd hc Bool.false_ne_true⟩
  simp only [NoLoss, LazyContext.State.NoLoss, hacc, h.armed, h.owner_eq_zero hw, h.loaded, h.live,
    h.saved hlen]

theorem Abstracts.along_noLoss_iff (h : Abstracts d₀ built s x) (hw : x.Wf)
    (hlen : built.length < maxThreads) :
    Along (Cpu.step kernelX87) NoLoss s es ↔ Along (LazyContext.State.step saveRecord)
      (LazyContext.State.NoLoss saveRecord) x (es.map absEvent) := by
  refine along_map_iff (R := fun s x => Abstracts d₀ built s x ∧ x.Wf) ⟨h, hw⟩
    (fun s x e hsim => ?_) fun s x e hsim => ?_
  · exact ⟨hsim.1.step hsim.2 hlen e, hsim.2.step _⟩
  · exact hsim.1.noLoss_iff hsim.2 hlen e

theorem Start.observe (h : Start n d₀ built s x) (p : List Event) (r : Reg) :
    (exec (Cpu.step kernelX87) s p).observe kernelX87 r =
      ((exec (LazyContext.State.step saveRecord) x (p.map absEvent)).access saveRecord).live.get
      r := by
  obtain ⟨habs, hwf⟩ := h.abstracts.run kernelX87 h.sim.wf h.len p
  exact habs.observe hwf h.len r

theorem file_default (p : List Event) (t : Thread) (r : Reg) :
    ((exec LazyContext.Files.step (⟨s.cur, fun _ => .default⟩ : SseFiles) (p.map absEvent)).file
      t).get r =
      lastWritten t r s.cur (Sse.default.get r) p := file_eq_lastWritten _ t r p

theorem lastWritten_switch {t u cur : Thread} {r : Reg} {acc : r.Val} {detour spurious : Bool}
    (p : List Event) :
    lastWritten t r cur acc (p ++ [.switch u detour spurious]) = lastWritten t r cur acc p := by
  induction p generalizing cur acc with
  | nil => rfl
  | cons e p ih =>
    cases e with
    | read q => exact ih
    | write q v => exact ih
    | switch v detour spurious => exact ih

theorem Start.readsOwn (h : Start n d₀ built s x)
    (hloss : Along (LazyContext.State.step saveRecord) (LazyContext.State.NoLoss saveRecord) x
      (es.map absEvent)) :
    ReadsOwn kernelX87 s es := by
  rintro p r ⟨q, rfl⟩
  rw [List.map_append] at hloss
  have hp := (along_append.mp hloss).1
  rw [List.map_append, List.map_cons, List.map_nil] at hp
  obtain ⟨hp, hr⟩ := along_concat.mp hp
  have hsim := h.sim.run hp
  obtain ⟨habs, -⟩ := h.abstracts.run kernelX87 h.sim.wf h.len p
  rw [h.observe, hsim.read hr, file_default, ← hsim.cur, habs.cur]

/-! ## When nothing is lost -/

theorem absEvent_within {e : Event} (h : e.within P) : (absEvent e).within P := by
  cases e with
  | read r => trivial
  | write r v => trivial
  | switch t detour spurious => exact h

theorem absEvent_isSpurious {e : Event} (h : e.isDetoured = true) :
    (absEvent e).isSpurious = false := by
  cases e with
  | read r => rfl
  | write r v => rfl
  | switch t detour spurious =>
    simp only [Event.isDetoured, Bool.and_eq_true, Bool.not_eq_true'] at h
    exact h.2

theorem Start.among (h : Start n d₀ built s x) (hcur : s.cur ∈ P) : LazyContext.Among P x :=
  ⟨h.abstracts.cur ▸ hcur, fun k hk => absurd (h.loaded.symm.trans hk) (Option.some_ne_none k).symm⟩

/-- With `SwapDetour` on every switch: after every part of a run every thread, when it is
switched to, reads what it last wrote, exactly if no access of the run loses a thread's state. -/
theorem readsOwn_iff_noLoss (hs : Started n s) (hrun : RunBy P s es)
    (hes : ∀ e ∈ es, e.isDetoured = true) :
    (∀ p, p <+: es → ∀ t ∈ P, ∀ r, ReadsOwn kernelX87 s (p ++ [.switch t true false, .read r])) ↔
      Along (Cpu.step kernelX87) NoLoss s es := by
  obtain ⟨d₀, built, x, h⟩ := hs.start
  have hstrict : x.Strict :=
    fun _ hc => absurd (h.loaded.symm.trans hc) (Option.some_ne_none _).symm
  have hevents : ∀ e ∈ es.map absEvent, e.isSpurious = false ∧ e.within P := by
    intro e he
    obtain ⟨e, hm, rfl⟩ := List.mem_map.mp he
    exact ⟨absEvent_isSpurious (hes e hm), absEvent_within (hrun.2 e hm)⟩
  have hlossless := h.sim.lossless_iff hstrict (h.among hrun.1) hevents
  have hread : ∀ p t r, (exec (Cpu.step kernelX87) s (p ++ [.switch t true false])).observe
    kernelX87 r =
      ((exec (LazyContext.State.step saveRecord) x
        (p.map absEvent ++ [.switch t true false])).access saveRecord).live.get r := by
    intro p t r
    rw [h.observe, List.map_append]
    rfl
  have hcur : ∀ p t, (exec (Cpu.step kernelX87) s (p ++ [.switch t true false])).cur = t := by
    intro p t
    rw [exec_concat]
    rfl
  rw [h.abstracts.along_noLoss_iff h.sim.wf h.len]
  constructor
  · intro hreads
    apply hlossless.mpr
    intro p' hp' t ht
    obtain ⟨p, hp, rfl⟩ := List.prefix_map_iff.mp hp'
    apply Sse.ext_get
    intro r
    have hr := hreads p hp t ht r (p ++ [.switch t true false]) r (by simp)
    rw [hread, hcur, lastWritten_switch] at hr
    rw [hr, file_default]
  · rintro hloss p hp t ht r q r' hq
    have hlossp : Along (LazyContext.State.step saveRecord) (LazyContext.State.NoLoss saveRecord) x
      (p.map absEvent) := by
      obtain ⟨q, rfl⟩ := hp
      rw [List.map_append] at hloss
      exact (along_append.mp hloss).1
    -- the read is the last one of the run, or one within `p`
    rw [List.append_cons p, List.prefix_concat_iff, List.prefix_concat_iff] at hq
    rcases hq with hq | hq | hq
    · obtain ⟨rfl, hr⟩ := List.append_inj' hq rfl
      obtain rfl : r' = r := by simpa using hr
      have hlive := hlossless.mp hloss (p.map absEvent) (hp.map absEvent) t ht
      rw [hread, hcur, lastWritten_switch, hlive, file_default]
    · have hlast := (List.append_inj' hq rfl).2
      simp at hlast
    · exact h.readsOwn hlossp q r' hq

/-! ## A write that is lost -/

/-- A loaded driver with two buffers; thread A is running and nobody has used SSE. -/
def twoThreads : Cpu := ⟨twoBuffersTrap, threadA, none⟩

theorem twoThreads_started : Started 2 twoThreads := ⟨twoBuffersTrap_loaded, by decide, rfl⟩

/-- A writes XMM0, is switched out and, TS clear, in again, and writes XMM0 once more. -/
def lostWrite : List Event :=
  [.write (.xmm 0) fun _ => 1, .switch threadB true false, .switch threadA true false,
    .write (.xmm 0) fun _ => 2, .switch threadB true false, .read (.xmm 0),
    .switch threadA true false, .read (.xmm 0)]

/-- A then reads back its first write. -/
theorem lostWrite_not_readsOwn :
    Started 2 twoThreads ∧ ({threadA, threadB} : Finset Thread).card ≤ 2 ∧
    RunBy {threadA, threadB} twoThreads lostWrite ∧ (∀ e ∈ lostWrite, e.isDetoured = true) ∧
    ¬ ReadsOwn (fun s => s.trap.fx.x87) twoThreads lostWrite := by
  refine ⟨twoThreads_started, by decide, by decide, by decide, fun h => ?_⟩
  have hread := congrFun (h (lostWrite.take 7) (.xmm 0) ⟨[], rfl⟩) (0 : Fin 16)
  exact absurd hread (by decide +kernel)

theorem readsOwn_iff_noLoss_twoThreads :
    (∀ p, p <+: lostWrite → ∀ t ∈ ({threadA, threadB} : Finset Thread), ∀ r,
      ReadsOwn (fun s => s.trap.fx.x87) twoThreads (p ++ [.switch t true false, .read r])) ↔
      Along (Cpu.step fun s => s.trap.fx.x87) NoLoss twoThreads lostWrite :=
  readsOwn_iff_noLoss twoThreads_started (by decide) (by decide)

/-! ## Ownership and TS that agree -/

theorem Start.agreed (h : Start n d₀ built s x) : LazyContext.Agreed saveRecord x := fun _ =>
  ⟨h.armed, fun k hk => absurd (h.loaded.symm.trans hk) (Option.some_ne_none k).symm⟩

theorem Start.room (h : Start n d₀ built s x) (hcur : s.cur ∈ P) (hP : P.card ≤ n) :
    LazyContext.Room P x :=
  ⟨h.abstracts.cur ▸ hcur, h.holders ▸ Finset.empty_subset P, hP.trans_eq h.capacity.symm⟩

theorem Abstracts.switchArmed_iff (h : Abstracts d₀ built s x) (hw : x.Wf)
    (hlen : built.length < maxThreads) (e : Event) :
    SwitchArmed kernelX87 s e ↔ LazyContext.SwitchArmed saveRecord x (absEvent e) := by
  have h' : Abstracts d₀ built (s.step kernelX87 e) _ := h.step hw hlen e
  have hacc : ¬ (absEvent e).isAccess ↔ e.isAccess = false := by
    cases e with
    | read r => exact ⟨fun hc => absurd trivial hc, fun hc => absurd hc Bool.true_eq_false.mp⟩
    | write r v => exact ⟨fun hc => absurd trivial hc, fun hc => absurd hc Bool.true_eq_false.mp⟩
    | switch t detour spurious => exact ⟨fun _ => rfl, fun _ => id⟩
  rw [SwitchArmed, LazyContext.SwitchArmed, hacc, h'.owner_eq_zero (hw.step _), h'.armed]

theorem Abstracts.along_switchArmed_iff (h : Abstracts d₀ built s x) (hw : x.Wf)
    (hlen : built.length < maxThreads) :
    Along (Cpu.step kernelX87) (SwitchArmed kernelX87) s es ↔
      Along (LazyContext.State.step saveRecord) (LazyContext.SwitchArmed saveRecord) x
      (es.map absEvent) := by
  refine along_map_iff (R := fun s x => Abstracts d₀ built s x ∧ x.Wf) ⟨h, hw⟩
    (fun s x e hsim => ?_) fun s x e hsim => ?_
  · exact ⟨hsim.1.step hsim.2 hlen e, hsim.2.step _⟩
  · exact hsim.1.switchArmed_iff hsim.2 hlen e

theorem absEvent_isFlush {e : Event} (h : e.isUndetoured = true) :
    (absEvent e).isFlush = false := by
  cases e with
  | read r => rfl
  | write r v => rfl
  | switch t detour spurious => exact Bool.not_eq_true' detour ▸ h

/-- With no more threads than buffers, whichever switches run `SwapDetour`: if a switch
that ends with `g_FxOwner` NULL sets TS, every thread reads what it last wrote. Without
`SwapDetour` no further condition is needed. -/
theorem lazy_readsOwn (hs : Started n s) (hrun : RunBy P s es) (hP : P.card ≤ n) :
    (Along (Cpu.step kernelX87) (SwitchArmed kernelX87) s es → ReadsOwn kernelX87 s es) ∧
      ((∀ e ∈ es, e.isUndetoured = true) → ReadsOwn kernelX87 s es) := by
  obtain ⟨d₀, built, x, h⟩ := hs.start
  have hwf := h.sim.wf
  have hroom := h.room hrun.1 hP
  have hwithin : ∀ e ∈ es.map absEvent, e.within P := by
    intro e he
    obtain ⟨e, hm, rfl⟩ := List.mem_map.mp he
    exact absEvent_within (hrun.2 e hm)
  have hlossless (harm : Along (LazyContext.State.step saveRecord)
    (LazyContext.SwitchArmed saveRecord) x (es.map absEvent)) :
      ReadsOwn kernelX87 s es := h.readsOwn (h.agreed.lossless hwf hroom hwithin harm)
  refine ⟨fun harm => hlossless ((h.abstracts.along_switchArmed_iff hwf h.len).mp harm),
    fun hdetour => ?_⟩
  apply hlossless
  have howned : LazyContext.Owned x := fun _ => h.loaded
  apply howned.along h.agreed hwf hroom hwithin
  intro e he
  obtain ⟨e, hm, rfl⟩ := List.mem_map.mp he
  exact absEvent_isFlush (hdetour e hm)

/-- Three switches, the second without `SwapDetour`. -/
theorem lazy_readsOwn_twoThreads :
    ReadsOwn (fun s => s.trap.fx.x87) twoThreads
      [.write .mxcsr 0x1fa0#32, .switch threadB true true, .write .mxcsr 0x1f81#32,
        .switch threadA false false,
        .read .mxcsr, .switch threadB true false, .read .mxcsr] :=
  (lazy_readsOwn twoThreads_started (P := {threadA, threadB}) (by decide) (by decide)).1
    (by decide +kernel)

end Nt351.Driver
