import Nt351Sse.Driver.Preserve

/-! One thread's view of a run does not depend on what the others write, however many
threads there are and whoever goes without a save area. -/

namespace Nt351.Driver
open Memory Probing Runs

def Event.next (cur : Thread) : Event → Thread
  | read _ => cur
  | write _ _ => cur
  | switch t _ _ => t

/-- Two runs with one schedule: the events are the same, but where another thread than
`t` is current the two may access different registers or write different values. -/
def SameSchedule (t : Thread) : Thread → List Event → List Event → Prop
  | _, [], [] => True
  | cur, e :: es, e' :: es' =>
    (e = e' ∨ cur ≠ t ∧ e.isAccess = true ∧ e'.isAccess = true) ∧ SameSchedule t (e.next cur) es es'
  | _, _, _ => False

/-- `t` reads the same in both states, and the area bound to it has the same bytes. -/
structure SameView (kernelX87 : Cpu → X87) (t : Thread) (s s' : Cpu) : Prop where
  cur : s.cur = s'.cur
  read : s.cur = t → ∀ r, s.observe kernelX87 r = s'.observe kernelX87 r
  bound : boundArea t s.trap.data = boundArea t s'.trap.data
  area : boundArea t s.trap.data ≠ 0 → contents s.trap.data.mem (boundArea t s.trap.data) =
    contents s'.trap.data.mem (boundArea t s.trap.data)

variable {kernelX87 : Cpu → X87} {s s' : Cpu} {x x' : LazySse} {d₀ : Data} {built : List Addr}
  {t cur : Thread}
  {es es' : List Event} {n : ℕ}

theorem SameSchedule.take (h : SameSchedule t cur es es') (k : ℕ) :
    SameSchedule t cur (es.take k) (es'.take k) := by
  induction k generalizing cur es es' with
  | zero => trivial
  | succ k ih =>
    cases es with
    | nil =>
      cases es' with
      | nil => trivial
      | cons e' es' => exact h.elim
    | cons e es =>
      cases es' with
      | nil => exact h.elim
      | cons e' es' => exact ⟨h.1, ih h.2⟩

theorem Cpu.step_cur (e : Event) : (s.step kernelX87 e).cur = e.next s.cur := by
  have haccess : (s.access kernelX87).cur = s.cur := by
    unfold Cpu.access
    split
    · rfl
    · rfl
  cases e with
  | read r => exact haccess
  | write r v => exact haccess
  | switch u detour spurious =>
    cases detour with
    | true => rfl
    | false => rfl

theorem absEvent_isAccess {e : Event} (h : e.isAccess = true) : (absEvent e).isAccess := by
  cases e with
  | read r => trivial
  | write r v => trivial
  | switch u detour spurious => exact absurd h Bool.false_ne_true

structure Related (d₀ : Data) (built : List Addr) (t : Thread) (s s' : Cpu) (x x' : LazySse) :
    Prop where
  left : Abstracts d₀ built s x
  right : Abstracts d₀ built s' x'
  leftWf : x.Wf
  rightWf : x'.Wf
  alike : LazyContext.Alike t x x'

theorem Related.step (h : Related d₀ built t s s' x x') (hlen : built.length < maxThreads)
    {e e' : Event} (he : e = e' ∨ s.cur ≠ t ∧ e.isAccess = true ∧ e'.isAccess = true) :
    Related d₀ built t (s.step kernelX87 e) (s'.step kernelX87 e') (x.step saveRecord (absEvent e))
      (x'.step saveRecord (absEvent e')) := by
  have hsame : LazyContext.Same t x x' (absEvent e) (absEvent e') := by
    rcases he with rfl | ⟨hcur, he, he'⟩
    · exact .inl rfl
    · exact .inr ⟨h.left.cur ▸ hcur, absEvent_isAccess he, absEvent_isAccess he'⟩
  exact ⟨h.left.step h.leftWf hlen e, h.right.step h.rightWf hlen e', h.leftWf.step _,
    h.rightWf.step _,
    h.alike.step h.leftWf hsame⟩

theorem Related.sameView (h : Related d₀ built t s s' x x') (hlen : built.length < maxThreads) :
    SameView kernelX87 t s s' := by
  have hheld : heldArea d₀ x.pool t = heldArea d₀ x'.pool t := by rw [h.alike.pool]
  have hbound : boundArea t s.trap.data = heldArea d₀ x.pool t := h.left.serving.boundArea hlen
  have hcur : s.cur = s'.cur := h.left.cur.symm.trans (h.alike.cur.trans h.right.cur)
  refine ⟨hcur, fun ht r => ?_, ?_, ?_⟩
  · rw [h.left.observe h.leftWf hlen, h.right.observe h.rightWf hlen,
      h.alike.read h.leftWf (h.left.cur.trans ht)]
  · rw [hbound, hheld, h.right.serving.boundArea hlen]
  · rw [hbound, heldArea]
    cases hb : x.pool.held t with
    | none => exact fun h0 => absurd rfl h0
    | some b =>
      have hm := h.left.serving.refines.held_built hb
      intro
      change contents s.trap.data.mem (d₀.node b).save = contents s'.trap.data.mem (d₀.node b).save
      rw [← h.left.area b hm, ← h.right.area b hm]
      exact h.alike.area b (.inl hb)

theorem SameSchedule.matched (h : SameSchedule t s.cur es es') :
    Matched (Cpu.step kernelX87) (Cpu.step kernelX87) (fun s _ e e' => e = e' ∨ s.cur ≠ t ∧
      e.isAccess = true ∧ e'.isAccess = true) s s' es es' := by
  induction es generalizing s s' es' with
  | nil =>
    cases es' with
    | nil => trivial
    | cons e' es' => exact h.elim
  | cons e es ih =>
    cases es' with
    | nil => exact h.elim
    | cons e' es' =>
      refine ⟨h.1, ih ?_⟩
      rw [Cpu.step_cur]
      exact h.2

theorem Related.run (h : Related d₀ built t s s' x x') (hlen : built.length < maxThreads)
    (hes : SameSchedule t s.cur es es') :
    SameView kernelX87 t (exec (Cpu.step kernelX87) s es) (exec (Cpu.step kernelX87) s' es') := by
  have hmatched : Matched (Cpu.step kernelX87) (Cpu.step kernelX87) _ s s' es es' := hes.matched
  obtain ⟨-, _, _, hend⟩ := hmatched.unwind (R := fun s s' => ∃ x x', Related d₀ built t s s' x x')
    ⟨x, x', h⟩
    fun _ _ _ _ ⟨_, _, hrel⟩ he => ⟨_, _, hrel.step hlen he⟩
  exact hend.sameView hlen

/-- Two runs of one schedule in which `t` writes the same: at every point of them `t`
reads the same values and its save area has the same contents. -/
theorem sse_isolation (hs : Started n s) (hes : SameSchedule t s.cur es es') (k : ℕ) :
    SameView kernelX87 t (exec (Cpu.step kernelX87) s (es.take k))
      (exec (Cpu.step kernelX87) s (es'.take k)) := by
  obtain ⟨d₀, built, x, h⟩ := hs.start
  have halike : LazyContext.Alike t x x := ⟨rfl, rfl, rfl, rfl, rfl, fun _ _ => rfl, fun _ => rfl⟩
  have hrel : Related d₀ built t s s x x := ⟨h.abstracts, h.abstracts, h.sim.wf, h.sim.wf, halike⟩
  exact hrel.run h.len (hes.take k)

/-- A writes and is switched out; B and C write `v`; A is switched in. -/
def othersWrite (v : BitVec 32) : List Event :=
  [.write .mxcsr 0x1fa0#32, .switch threadB true false, .write .mxcsr v, .switch threadC true false,
    .write .mxcsr v, .switch threadA true false]

theorem othersWrite_sameSchedule (v v' : BitVec 32) :
    SameSchedule threadA twoThreads.cur (othersWrite v) (othersWrite v') := by
  have hb : threadB ≠ threadA := by decide
  have hc : threadC ≠ threadA := by decide
  exact ⟨.inl rfl, .inl rfl, .inr ⟨hb, rfl, rfl⟩, .inl rfl, .inr ⟨hc, rfl, rfl⟩, .inl rfl, trivial⟩

/-- With two buffers C goes without an area. -/
theorem sse_isolation_twoThreads :
    SameView (fun s => s.trap.fx.x87) threadA
      (exec (Cpu.step fun s => s.trap.fx.x87) twoThreads ((othersWrite 0x1f81).take 6))
      (exec (Cpu.step fun s => s.trap.fx.x87) twoThreads ((othersWrite 0x1f84).take 6)) :=
  sse_isolation twoThreads_started (othersWrite_sameSchedule 0x1f81 0x1f84) 6

end Nt351.Driver
