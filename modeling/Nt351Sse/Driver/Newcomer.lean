import Nt351Sse.Driver.Machine

/-! What a new thread finds in XMM and MXCSR at its first #NM. `PoolBuildOne` puts the
default in a save area once; `TableRelease` and the two lookups hand a used area on as its
last thread left it. -/

namespace Nt351.Driver
open Memory Runs

namespace Machine

/-- Only live threads run, and an address is created anew, or its buffer released, only
once its thread is gone. -/
def Allowed (s : Machine) : MachineEvent → Prop
  | .create t => t ∉ s.alive
  | .terminate t => t ∈ s.alive
  | .release t => t ∉ s.alive
  | .sse (.switch t _ _) => t ∈ s.alive
  | .sse _ => s.cpu.cur ∈ s.alive
  | .x87 _ => s.cpu.cur ∈ s.alive
  | _ => True

instance (s : Machine) : ∀ e, Decidable (s.Allowed e)
  | .create _ => inferInstanceAs (Decidable (_ ∉ _))
  | .terminate _ => inferInstanceAs (Decidable (_ ∈ _))
  | .release _ => inferInstanceAs (Decidable (_ ∉ _))
  | .sse (.switch _ _ _) => inferInstanceAs (Decidable (_ ∈ _))
  | .sse (.read _) => inferInstanceAs (Decidable (_ ∈ _))
  | .sse (.write _ _) => inferInstanceAs (Decidable (_ ∈ _))
  | .x87 _ => inferInstanceAs (Decidable (_ ∈ _))
  | .build => .isTrue trivial
  | .lookup _ => .isTrue trivial

/-- The event starts with the first #NM of the current thread since it was created. -/
def FirstNm (s : Machine) (e : MachineEvent) : Prop := s.traps e = true ∧ s.cpu.cur ∈ s.fresh

instance (s : Machine) (e : MachineEvent) : Decidable (s.FirstNm e) :=
  inferInstanceAs (Decidable (_ ∧ _))

/-- A #NM of the current thread loads XMM all zero and MXCSR `0x1f80`. -/
def LoadsDefault (s : Machine) : Prop := (nmHandler s.cpu.cur s.cpu.trap).fx.sse = .default

/-- The area the current thread's #NM finds was handed out before, and its last user did not end
with the default. -/
def Stale (s : Machine) : Prop := s.area ≠ 0 ∧ s.area ∈ s.given ∧ s.lastOwned s.area ≠ .default

end Machine

namespace Trap

/-- An area that was never handed out has the default in it and does not own the live state. -/
structure Handed (given : Finset Addr) (built : List Addr) (s : Trap) : Prop where
  wf : Wf built s
  image : s.fxImage ≠ 0
  owner : s.fxOwner = 0 ∨ s.fxOwner ∈ given
  untouched : Holds (fun p sse => p ∉ given → sse = .default) built s

variable {given given' : Finset Addr} {built : List Addr} {s s' : Trap}

theorem Handed.mono (h : Handed given built s) (hsub : given ⊆ given') : Handed given' built s :=
  ⟨h.wf, h.image, h.owner.imp_right fun ho => hsub ho, fun b hb hnot => h.untouched b hb fun hg =>
    hnot (hsub hg)⟩

theorem Handed.not_owner (h : Handed given built s) {b : Addr} (hb : b ∈ built)
    (hnot : (s.data.node b).save ∉ given) : s.fxOwner ≠ (s.data.node b).save := by
  intro ho
  rcases h.owner with h0 | hg
  · exact (h.wf.pool.1.laid b hb).save_ne_zero (ho.symm.trans h0)
  · exact hnot (ho ▸ hg)

theorem Handed.keeps (h : Handed given built s) (hk : Keeps built s s') :
    Holds (fun p sse => p ∉ given → sse = .default) built s' := by
  apply hk.holds h.untouched
  intro b hb ho hnot
  exact absurd ho (h.not_owner hb (ho ▸ hnot))

theorem Handed.withRegs (h : Handed given built s) (fx : FxState) (cr0 : BitVec 32) :
    Handed given built { s with fx := fx, cr0 := cr0 } :=
  ⟨h.wf.withRegs fx cr0, h.image, h.owner, h.untouched⟩

theorem Handed.nmHandler (h : Handed given built s) (t : Thread) :
    Handed (insert (trapLookupSaveArea t s.data).1 given) built (nmHandler t s) := by
  obtain ⟨hwf, hkeeps⟩ := h.wf.nmHandler t
  have hmore := h.mono (Finset.subset_insert (trapLookupSaveArea t s.data).1 given)
  refine ⟨hwf, ?_, ?_, hmore.keeps hkeeps⟩
  · rw [hkeeps.image]
    exact h.image
  · right
    rw [h.wf.nm_owner h.image t]
    exact Finset.mem_insert_self ..

theorem Handed.swapDetour (h : Handed given built s) : Handed given built (swapDetour s) := by
  obtain ⟨hwf, hkeeps, -, howner⟩ := h.wf.swapDetour
  refine ⟨hwf, ?_, ?_, h.keeps hkeeps⟩
  · rw [hkeeps.image]
    exact h.image
  · rcases howner with h0 | he
    · exact .inl h0
    · rw [he]
      exact h.owner

theorem Handed.access {kernelX87 : Cpu → X87} {s : Cpu} (h : Handed given built s.trap) :
    Handed (if s.ts then insert (trapLookupSaveArea s.cur s.trap.data).1 given else given) built
      (s.access kernelX87).trap := by
  by_cases hts : s.ts = true
  · obtain ⟨cr0, x87, he⟩ := s.access_trap kernelX87 hts
    rw [if_pos hts, he]
    exact (h.nmHandler s.cur).withRegs _ cr0
  · unfold Cpu.access
    rw [if_neg hts, if_neg hts]
    exact h

/-- What is left in the area a #NM finds, if nobody had it before. -/
theorem Handed.left (h : Handed given built s) (t : Thread)
    (h0 : (trapLookupSaveArea t s.data).1 ≠ 0) (hnot : (trapLookupSaveArea t s.data).1 ∉ given) :
    s.left (trapLookupSaveArea t s.data).1 = .default := by
  obtain ⟨b, hb, he⟩ := h.wf.area_built t h0
  rw [he] at hnot ⊢
  rw [Trap.left, if_neg (h.not_owner hb hnot)]
  exact h.untouched b hb hnot

end Trap

namespace Machine

variable {kernelX87 : Cpu → X87} {s s' : Machine} {es : List MachineEvent}

theorem handed_step (h : s.cpu.trap.Handed s.given s.built) (e : MachineEvent) :
    (s.step kernelX87 e).cpu.trap.Handed (s.step kernelX87 e).given (s.step kernelX87 e).built := by
  have haccess : (s.cpu.access kernelX87).trap.Handed (if s.cpu.ts then insert s.area s.given
      else s.given) s.built := h.access
  cases e with
  | build => exact ⟨h.wf.build.1, h.image, h.owner, h.wf.build_holds h.untouched fun _ _ => rfl⟩
  | lookup t =>
    obtain ⟨hwf, hkeeps⟩ := h.wf.lookup (.lookup t)
    have hmoved : Trap.Handed s.given s.built
      { s.cpu.trap with data := (Call.lookup t).step s.data } :=
      ⟨hwf, h.image, h.owner, h.keeps hkeeps⟩
    exact hmoved.mono (Finset.subset_insert ..)
  | release t =>
    obtain ⟨hwf, hkeeps⟩ := h.wf.release t
    exact ⟨hwf, h.image, h.owner, h.keeps hkeeps⟩
  | create t => exact h
  | terminate t => exact h
  | x87 v => exact haccess.withRegs _ _
  | sse e =>
    cases e with
    | read r => exact haccess
    | write r v => exact haccess.withRegs _ _
    | switch t detour spurious =>
      cases detour with
      | true => exact h.swapDetour.withRegs _ _
      | false => exact h.withRegs _ _

/-! ## The last user of an area -/

/-- A flush leaves in an area what its last user had last; an area that is not built yet stands
for the default. -/
structure Recalls (s : Machine) : Prop where
  left : ∀ b ∈ s.built, s.cpu.trap.left (s.data.node b).save = s.lastOwned (s.data.node b).save
  unbuilt : ∀ p ≠ 0, (∀ b ∈ s.built, (s.data.node b).save ≠ p) → s.owned p = .default

structure Handed (s : Machine) : Prop where
  trap : s.cpu.trap.Handed s.given s.built
  recalls : s.Recalls

theorem Start.recalls (h : s.Start) : s.Recalls := by
  refine ⟨fun b hb => ?_, fun p _ _ => congrFun h.owned p⟩
  have hsave := (h.wf.pool.1.laid b hb).save_ne_zero
  have howner : s.cpu.trap.fxOwner ≠ (s.data.node b).save := fun ho =>
    hsave (ho.symm.trans h.owner)
  rw [Trap.left, if_neg howner, lastOwned, if_neg howner, h.owned]
  exact (h.pool.default b hb).sse

theorem Start.handed (h : s.Start) (h0 : s.cpu.trap.fxImage ≠ 0) : s.Handed :=
  ⟨⟨h.wf, h0, .inl h.owner, h.holds fun _ _ => rfl⟩, h.recalls⟩

theorem owner_ne (hwf : s.cpu.trap.Wf s.built) {p : Addr} (hp : p ≠ 0)
    (hnot : ∀ b ∈ s.built, (s.data.node b).save ≠ p) : s.cpu.trap.fxOwner ≠ p := by
  intro ho
  rcases hwf.owner with h0 | ⟨b, hb, he⟩
  · exact hp (ho.symm.trans h0)
  · exact hnot b hb (he.symm.trans ho)

theorem lastOwned_unbuilt (h : s.Recalls) (hwf : s.cpu.trap.Wf s.built) {p : Addr} (hp : p ≠ 0)
    (hnot : ∀ b ∈ s.built, (s.data.node b).save ≠ p) : s.lastOwned p = .default := by
  rw [lastOwned, if_neg (owner_ne hwf hp hnot)]
  exact h.unbuilt p hp hnot

/-- A step that keeps the areas and accounts for what was live. -/
theorem Recalls.of_keeps (h : s.Recalls) (hkeeps : s.cpu.trap.Keeps s.built s'.cpu.trap)
    (howned : ∀ p, s'.cpu.trap.fxOwner ≠ p → s'.owned p = s.lastOwned p) {b : Addr}
    (hb : b ∈ s.built) :
    s'.cpu.trap.left (s'.data.node b).save = s'.lastOwned (s'.data.node b).save := by
  have hsave : (s'.data.node b).save = (s.data.node b).save := hkeeps.save b hb
  refine (hkeeps.left_eq hb).trans ?_
  rw [hsave]
  by_cases ho : s'.cpu.trap.fxOwner = (s.data.node b).save
  · rw [lastOwned, if_pos ho]
    exact if_pos ho
  · rw [lastOwned, if_neg ho, howned _ ho, ← h.left b hb]
    exact if_neg ho

/-- A new buffer has the default. -/
theorem Recalls.build_left (h : s.Recalls) (hwf : s.cpu.trap.Wf s.built) {b : Addr}
    (hb : b ∈ (s.step kernelX87 .build).built) (hnew : b ∉ s.built) :
    (s.step kernelX87 .build).cpu.trap.left ((poolBuildOne s.data).2.node b).save =
      s.lastOwned ((poolBuildOne s.data).2.node b).save := by
  obtain ⟨hwf', hareas⟩ := hwf.build
  have hsave : ((poolBuildOne s.data).2.node b).save ≠ 0 :=
    (hwf'.pool.1.laid b hb).save_ne_zero
  have hother : ∀ c ∈ s.built, (s.data.node c).save ≠ ((poolBuildOne s.data).2.node b).save := by
    intro c hc he
    have hsame := (hwf.build_keeps.save c hc).trans he
    exact hnew (save_injective hwf'.pool.1 (mem_builtAfter hc _) hb hsame ▸ hc)
  rw [lastOwned_unbuilt h hwf hsave hother]
  rcases hareas b hb with ⟨-, hsaved⟩ | ⟨hold, -⟩
  · exact (if_neg (owner_ne hwf hsave hother)).trans hsaved
  · exact absurd hold hnew

theorem owned_step (e : MachineEvent) {p : Addr}
    (ho : (s.step kernelX87 e).cpu.trap.fxOwner ≠ p) :
    (s.step kernelX87 e).owned p = s.lastOwned p := by
  cases e with
  | sse e => rfl
  | x87 v => rfl
  -- neither the owner nor the registers change
  | build => exact (if_neg ho).symm
  | lookup t => exact (if_neg ho).symm
  | release t => exact (if_neg ho).symm
  | create t => exact (if_neg ho).symm
  | terminate t => exact (if_neg ho).symm

theorem mem_built_step (e : MachineEvent) {b : Addr} (hb : b ∈ s.built) :
    b ∈ (s.step kernelX87 e).built := by
  cases e with
  | build => exact mem_builtAfter hb _
  | _ => exact hb

theorem Recalls.step (h : s.Recalls) (hwf : s.cpu.trap.Wf s.built) (e : MachineEvent) :
    (s.step kernelX87 e).Recalls := by
  have hstep : (s.step kernelX87 e).cpu.trap.Wf (s.step kernelX87 e).built ∧
      s.cpu.trap.Keeps s.built (s.step kernelX87 e).cpu.trap := step_keeps hwf
  obtain ⟨hwf', hkeeps⟩ := hstep
  refine ⟨fun b hb => ?_, fun p hp hnot => ?_⟩
  · by_cases hm : b ∈ s.built
    · exact h.of_keeps hkeeps (fun _ => owned_step e) hm
    · cases e with
      | build => exact h.build_left hwf hb hm
      | _ => exact absurd hb hm
  · rw [owned_step e (owner_ne hwf' hp hnot)]
    refine lastOwned_unbuilt h hwf hp fun b hb hsave => hnot b (mem_built_step e hb) ?_
    exact (hkeeps.save b hb).trans hsave

theorem Handed.step (h : s.Handed) (e : MachineEvent) : (s.step kernelX87 e).Handed :=
  ⟨handed_step h.trap e, h.recalls.step h.trap.wf e⟩

theorem Handed.loadsDefault_iff (h : s.Handed) : s.LoadsDefault ↔ ¬ s.Stale := by
  have hloads : (nmHandler s.cpu.cur s.cpu.trap).fx.sse =
      if s.area = 0 then .default else s.cpu.trap.left s.area :=
    h.trap.wf.loads h.trap.image s.cpu.cur
  rw [LoadsDefault, hloads, Stale]
  by_cases h0 : s.area = 0
  · rw [if_pos h0]
    exact iff_of_true rfl fun hs => hs.1 h0
  · rw [if_neg h0]
    obtain ⟨b, hb, he⟩ : ∃ b ∈ s.built, s.area = (s.data.node b).save :=
      h.trap.wf.area_built s.cpu.cur h0
    have hleft : s.cpu.trap.left s.area = s.lastOwned s.area := by
      rw [he]
      exact h.recalls.left b hb
    by_cases hg : s.area ∈ s.given
    · rw [hleft]
      exact ⟨fun hd hs => hs.2.2 hd, fun hs => not_not.mp fun hd => hs ⟨h0, hg, hd⟩⟩
    · exact iff_of_true (h.trap.left s.cpu.cur h0 hg) fun hs => hg hs.2.1

theorem Handed.along_iff (h : s.Handed) :
    Along (Machine.step kernelX87) (fun s e => s.FirstNm e → s.LoadsDefault) s es ↔
      Along (Machine.step kernelX87) (fun s e => s.FirstNm e → ¬ s.Stale) s es := by
  induction es generalizing s with
  | nil => exact Iff.rfl
  | cons e es ih =>
    simp only [Along]
    rw [h.loadsDefault_iff, ih (h.step e)]

end Machine

variable {kernelX87 : Cpu → X87} {s : Machine} {es : List MachineEvent}

/-- Every first #NM of a run loads the default if it finds no area or one that nobody had
before; and exactly if none finds a used area whose last user did not end with the default. -/
theorem newcomer_default_iff (hs : s.Start) (h0 : s.cpu.trap.fxImage ≠ 0) :
    (Along (Machine.step kernelX87) (fun s e => s.FirstNm e → s.area = 0 ∨ s.area ∉ s.given) s es →
      Along (Machine.step kernelX87) (fun s e => s.FirstNm e → s.LoadsDefault) s es) ∧
    (Along (Machine.step kernelX87) (fun s e => s.FirstNm e → s.LoadsDefault) s es ↔
      Along (Machine.step kernelX87) (fun s e => s.FirstNm e → ¬ s.Stale) s es) := by
  have hhanded : s.Handed := hs.handed h0
  refine ⟨fun hunused => hhanded.along_iff.mpr ?_, hhanded.along_iff⟩
  apply hunused.imp
  intro s e hclean hfirst hstale
  rcases hclean hfirst with ha | hg
  · exact hstale.1 ha
  · exact hg hstale.2.1

/-- B is created while A runs, and both use SSE. -/
def bothUse : List MachineEvent :=
  [.create threadB, .sse (.write .mxcsr 0x1fa0#32), .sse (.switch threadB true true),
    .sse (.read .mxcsr)]

/-- B pops a buffer of its own. -/
theorem newcomer_default_iff_twoBuffers : Along (Machine.step fun s => s.trap.fx.x87)
    (fun s e => s.FirstNm e → s.LoadsDefault) twoBuffersMachine bothUse := by
  refine (newcomer_default_iff twoBuffersMachine_start (by decide +kernel)).1 ?_
  decide +kernel

/-- B is created, A writes MXCSR and is switched out and terminated, and its buffer released. -/
def passOn : List MachineEvent :=
  [.create threadB, .sse (.write .mxcsr 0x1fa0#32), .sse (.switch threadB true true), .terminate
    threadA, .release threadA]

/-- A's buffer is not released, and a thread is created at A's address. -/
def reuseKey : List MachineEvent :=
  [.create threadB, .sse (.write .mxcsr 0x1fa0#32), .sse (.switch threadB true true), .terminate
    threadA, .create threadA, .sse (.switch threadA true true)]

/-- The thread that reads MXCSR next pops the buffer A had, or finds it under A's address, and
loads the MXCSR A wrote. -/
theorem newcomer_notDefault :
    twoBuffersMachine.Start ∧ twoBuffersMachine.cpu.trap.fxImage ≠ 0 ∧ ∀ run ∈ [passOn, reuseKey],
      Along (Machine.step fun s => s.trap.fx.x87) Machine.Allowed twoBuffersMachine
        (run ++ [.sse (.read .mxcsr)]) ∧
      ¬ Along (Machine.step fun s => s.trap.fx.x87) (fun s e => s.FirstNm e → s.LoadsDefault)
        twoBuffersMachine (run ++ [.sse (.read .mxcsr)]) := by
  refine ⟨twoBuffersMachine_start, by decide +kernel, List.forall_mem_cons.mpr
    ⟨⟨by decide +kernel, fun h => ?_⟩, List.forall_mem_singleton.mpr
      ⟨by decide +kernel, fun h => ?_⟩⟩⟩
  · have hload : (exec (Machine.step fun s => s.trap.fx.x87) twoBuffersMachine
        passOn).LoadsDefault := (along_concat.mp h).2 ⟨by decide +kernel, by decide +kernel⟩
    exact absurd (congrArg Sse.mxcsr hload) (by decide +kernel)
  · have hload : (exec (Machine.step fun s => s.trap.fx.x87) twoBuffersMachine
        reuseKey).LoadsDefault := (along_concat.mp h).2 ⟨by decide +kernel, by decide +kernel⟩
    exact absurd (congrArg Sse.mxcsr hload) (by decide +kernel)

end Nt351.Driver
