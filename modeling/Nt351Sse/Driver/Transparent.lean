import Nt351Sse.Driver.Naked

/-! What `NmHandler` and `SwapDetour` leave of the registers and the stack: each path ends
with the ESP it began with. -/

namespace Nt351.Driver
open Memory X86 X86.State

variable {K : Surroundings} {G : Globals} {data : Addr → Prop} {low : Addr} {size k : ℕ}
    {s s₀ : State FxState} {bs : List Byte}

/-- The stack is the `size` bytes at `low`. None of it is `data`, which has the variables, the
FXSAVE image and the owner's save area; the image overlaps no variable. -/
structure Located (G : Globals) (data : Addr → Prop) (low : Addr) (size : ℕ)
    (s : State FxState) : Prop where
  size_le : size ≤ 2 ^ 32
  stack : ∀ i < size, ¬ data (off low i)
  vars : ∀ p ∈ G.vars, ∀ i < 4, data (off p i)
  image : readDword s.mem G.fxImage ≠ 0 → ∀ i < sseSaveSize,
    data (off (readDword s.mem G.fxImage) i) ∧
    ∀ p ∈ G.vars, ∀ j < 4, off (readDword s.mem G.fxImage) i ≠ off p j
  owner : readDword s.mem G.fxOwner ≠ 0 → ∀ i < sseSaveSize,
    data (off (readDword s.mem G.fxOwner) i)

namespace Located

variable {a : Addr} {i : ℕ}

theorem ne (h : Located G data low size s) (ha : data a) (hi : i < size) : off low i ≠ a := by
  rintro rfl
  exact h.stack i hi ha

/-- A dword stored to `data` is not stored to the stack. -/
theorem writeDword {p v : BitVec 32} {m : Mem} (h : Located G data low size s) (hp : ∀ j < 4,
    data (off p j)) (hi : i < size) :
    writeDword p v m (off low i) = m (off low i) := writeDword_of_ne fun j hj => h.ne (hp j hj) hi

theorem fxsave {p : Addr} {m : Mem} {fx : FxState} (h : Located G data low size s)
    (hp : ∀ j < sseSaveSize, data (off p j)) (hi : i < size) :
    fxsave p fx m (off low i) = m (off low i) :=
  fxsave_of_ne fun j hj => h.ne (hp j (hj.trans (by decide))) hi

/-- A part of an area. -/
theorem part {p : Addr} {o n : ℕ} (hp : ∀ j < sseSaveSize, data (off p j))
    (hn : o + n ≤ sseSaveSize) : ∀ j < n, data (off (p + BitVec.ofNat 32 o) j) := by
  intro j hj
  have hoff : off (p + BitVec.ofNat 32 o) j = off p (o + j) := off_off p o j
  rw [hoff]
  exact hp _ (by omega)

/-- A string instruction that goes down from byte `o`. -/
theorem part_down {p : Addr} {o n : ℕ} (hp : ∀ j < sseSaveSize, data (off p j)) (hn : n ≤ o + 1)
    (ho : o < sseSaveSize) : ∀ j < n, data (p + BitVec.ofNat 32 o - BitVec.ofNat 32 j) := by
  intro j hj
  have hoff : off p o - BitVec.ofNat 32 j = off p (o - j) := off_sub_ofNat (by omega)
  show data (off p o - BitVec.ofNat 32 j)
  rw [hoff]
  exact hp _ (by omega)

theorem image_data (h : Located G data low size s) (himage : readDword s.mem G.fxImage ≠ 0) :
    ∀ j < sseSaveSize, data (off (readDword s.mem G.fxImage) j) :=
  fun j hj => (h.image himage j hj).1

end Located

/-! ## `SwapDetour` -/

/-- The registers and flags are on the stack, the rest is as at entry. -/
structure Held (low : Addr) (size : ℕ) (bs : List Byte) (s₀ s : State FxState) : Prop where
  stack : OnStack low size s (pushadBytes (s₀.push s₀.flags.image).reg ++
    (dwordBytes s₀.flags.image ++ bs))
  cr0 : s.cr0 = s₀.cr0
  seg : s.seg = s₀.seg
  fpu : s.fpu = s₀.fpu

theorem steps_swapEnter :
    steps K.machine s swapEnter =
      (((s.push s.flags.image).setFlags
      { (s.push s.flags.image).flags with intr := false })).pushad := by
  rw [swapEnter, steps_cons, steps_cons, steps_cons, steps_nil]
  rfl

theorem held_enter (h : OnStack low size s bs) (hsize : size ≤ 2 ^ 32)
    (hroom : bs.length + 36 ≤ size) : Held low size bs s (steps K.machine s swapEnter) := by
  rw [steps_swapEnter]
  have hflags := h.push hsize (by omega) s.flags.image
  have hcli : OnStack low size ((s.push s.flags.image).setFlags
    { (s.push s.flags.image).flags with intr := false }) _ :=
    hflags.keep rfl fun _ _ => rfl
  have hpushad := hcli.pushad hsize (by rw [List.length_append, dwordBytes_length]; omega)
  exact ⟨hpushad, rfl, rfl, rfl⟩

theorem Held.keep {s' : State FxState} (h : Held low size bs s₀ s) (hesp : s'.reg .esp = s.reg .esp)
    (hmem : ∀ i < size, s'.mem (off low i) = s.mem (off low i)) (hcr0 : s'.cr0 = s.cr0)
    (hseg : s'.seg = s.seg) (hfpu : s'.fpu = s.fpu) : Held low size bs s₀ s' :=
  ⟨h.stack.keep hesp hmem, hcr0.trans h.cr0, hseg.trans h.seg, hfpu.trans h.fpu⟩

theorem Held.image (h : Held low size bs s₀ s) :
    Held low size bs s₀ (steps K.machine s (testVar .esi G.fxImage)) :=
  h.keep (steps_reg (by simp [testVar, Op.writes])) (fun _ _ => rfl) rfl rfl rfl

theorem Held.owner (h : Held low size bs s₀ s) :
    Held low size bs s₀ (steps K.machine s (testVar .edi G.fxOwner)) :=
  h.keep (steps_reg (by simp [testVar, Op.writes])) (fun _ _ => rfl) rfl rfl rfl

theorem flushMxcsr_mem (h : Located G data low size s₀)
    (hedi : ∀ j < sseSaveSize, data (off (s.reg .edi) j)) {i : ℕ} (hi : i < size) :
    (steps K.machine s flushMxcsr).mem (off low i) = s.mem (off low i) :=
  h.writeDword (Located.part hedi (by decide)) hi

theorem swapXmm_mem (h : Located G data low size s₀)
    (hedi : ∀ j < sseSaveSize, data (off (s.reg .edi) j)) {i : ℕ} (hi : i < size) :
    (steps K.machine s swapXmm).mem (off low i) = s.mem (off low i) := by
  apply steps_rep_mem (c := .ofNat 32 xmmBytes) (.inl rfl) (by simp [flushXmm, Op.stores]) rfl rfl
  · exact fun _ j hj => h.ne (Located.part hedi (by decide) j hj) hi
  · intro hdf
    rw [steps_concat] at hdf
    cases hdf

theorem swapDisown_mem (h : Located G data low size s₀) {i : ℕ} (hi : i < size) :
    (steps K.machine s [.storeImm (.var G.fxOwner) 0, .incMem
      (.var G.swapFlushes), .movToCr0 .ebx]).mem (off low i) = s.mem (off low i) := by
  have howner : ∀ j < 4, data (off G.fxOwner j) := h.vars _ G.fxOwner_mem
  have hcount : ∀ j < 4, data (off G.swapFlushes j) := h.vars _ G.swapFlushes_mem
  exact (h.writeDword hcount hi).trans (h.writeDword howner hi)

/-- ESI has the image, EDI the owner's area. -/
theorem swapFlush_mem (h : Located G data low size s₀)
    (hesi : ∀ j < sseSaveSize, data (off (s.reg .esi) j))
    (hedi : ∀ j < sseSaveSize, data (off (s.reg .edi) j)) {i : ℕ} (hi : i < size) :
    (steps K.machine s (swapFlush G)).mem (off low i) = s.mem (off low i) := by
  have hsave : ∀ s, (steps K.machine (steps K.machine s (clearTs .ebx)) [.fxsave .esi]).reg .edi =
    s.reg .edi := fun _ =>
    (steps_reg (by simp [Op.writes])).trans (steps_reg (by simp [clearTs, Op.writes]))
  have hmxcsr : ∀ s, (steps K.machine s flushMxcsr).reg .edi = s.reg .edi :=
    fun _ => steps_reg (by simp [flushMxcsr, Op.writes])
  simp only [swapFlush, List.flatten_cons, List.flatten_nil, List.append_nil, steps_append]
  rw [swapDisown_mem h hi, swapXmm_mem h _ hi, flushMxcsr_mem h _ hi]
  · exact h.fxsave hesi hi
  · rw [hsave]
    exact hedi
  · rw [hmxcsr, hsave]
    exact hedi

theorem Held.flush (h : Held low size bs s₀ s) (hp : Located G data low size s₀)
    (hesi : ∀ j < sseSaveSize, data (off (s.reg .esi) j))
    (hedi : ∀ j < sseSaveSize, data (off (s.reg .edi) j)) :
    Held low size bs s₀ (steps K.machine s (swapFlush G)) := by
  apply h.keep
  · exact steps_reg (by simp [swapFlush, swapXmm, clearTs, flushMxcsr, flushXmm, Op.writes])
  · exact fun _ hi => swapFlush_mem hp hesi hedi hi
  · rfl
  · rfl
  · rfl

theorem Held.work (h : Held low size bs s₀ s) (hp : Located G data low size s₀)
    (hdata : ∀ a, data a → s.mem a = s₀.mem a) : Held low size bs s₀ (swapWork K G s) := by
  have hread : ∀ p ∈ G.vars, readDword s.mem p = readDword s₀.mem p := fun p hvar =>
    readDword_congr fun i hi => hdata _ (hp.vars p hvar i hi)
  have himage : (steps K.machine s (testVar .esi G.fxImage)).reg .esi =
    readDword s₀.mem G.fxImage :=
    (test_reg _).trans (hread _ G.fxImage_mem)
  have howner : (steps K.machine (steps K.machine s (testVar .esi G.fxImage))
    (testVar .edi G.fxOwner)).reg .edi =
      readDword s₀.mem G.fxOwner :=
    (test_reg _).trans (hread _ G.fxOwner_mem)
  have hesi : (steps K.machine (steps K.machine s (testVar .esi G.fxImage))
    (testVar .edi G.fxOwner)).reg .esi =
      readDword s₀.mem G.fxImage :=
    (steps_reg (by simp [testVar, Op.writes])).trans himage
  unfold swapWork
  dsimp only
  split
  · exact h.image
  · next hi =>
    split
    · exact h.image.owner
    · next ho =>
      rw [test_zf, decide_eq_true_eq, ← test_reg (M := K.machine) (r := .esi), himage] at hi
      rw [test_zf, decide_eq_true_eq, ← test_reg (M := K.machine) (r := .edi), howner] at ho
      apply h.image.owner.flush hp
      · rw [hesi]
        exact hp.image_data hi
      · rw [howner]
        exact hp.owner ho

/-- What `popad` and `popfd` put back. -/
theorem Held.leave (h : Held low size bs s₀ s) (h₀ : OnStack low size s₀ bs) :
    (steps K.machine s [.popad, .popfd]).reg = s₀.reg ∧ (steps K.machine s [.popad, .popfd]).flags =
      s₀.flags ∧ OnStack low size (steps K.machine s [.popad, .popfd]) bs := by
  obtain ⟨hpopad, hreg⟩ := h.stack.popad
  have hpopfd : OnStack low size (s.popad.drop.setFlags (.ofImage s.popad.top)) bs :=
    hpopad.drop.keep rfl fun _ _ => rfl
  rw [steps_cons, steps_cons, steps_nil]
  refine ⟨?_, ?_, hpopfd⟩
  · funext r
    by_cases hr : r = .esp
    · subst hr
      exact (h₀.agree hpopfd).1
    · show s.popad.drop.reg r = s₀.reg r
      rw [drop_reg_of_ne hr, hreg r hr, push_reg_of_ne hr]
  · show Eflags.ofImage s.popad.top = s₀.flags
    rw [hpopad.top, Eflags.ofImage_image]

theorem swapDetour_transparent (hp : Located G data low size s) (hesp : s.reg .esp = off low k)
    (hk : k ≤ size) (hroom : 36 ≤ k) :
    ∃ s', run K.machine (swapDetourCode G) s = some s' ∧ s'.reg = s.reg ∧ s'.flags = s.flags ∧
      s'.cr0 = s.cr0 ∧ s'.fpu = s.fpu ∧ s'.seg = s.seg ∧
      ∀ i < size - k, s'.mem (off (s.reg .esp) i) = s.mem (off (s.reg .esp) i) := by
  have hstack := onStack_of_esp hk hesp
  have hlen : ((List.range (size - k)).map fun i => s.mem (off low (k + i))).length = size - k := by
    rw [List.length_map, List.length_range]
  have henter := held_enter (K := K) hstack hp.size_le (by omega)
  have hgrown : Grown 36 s (steps K.machine s swapEnter) := (Grown.refl s).steps rfl
  have hwork := henter.work (K := K) hp fun a ha => hgrown.off_stack hesp hroom hk fun i hi =>
    (hp.ne ha hi).symm
  obtain ⟨hreg, hflags, hleft⟩ := hwork.leave (K := K) hstack
  have hagree := (hstack.agree hleft).2
  rw [hlen] at hagree
  exact ⟨_, run_swapDetour K G s, hreg, hflags, hwork.cr0, hwork.fpu, hwork.seg, hagree⟩

/-! ## `NmHandler` -/

/-- Between the prologue, which ended in `p`, and the jump: EBP has CR0, ESI the image. -/
structure Working (low : Addr) (size : ℕ) (bs : List Byte) (image : Addr)
    (p s : State FxState) : Prop where
  stack : OnStack low size s bs
  ebx : s.reg .ebx = p.reg .ebx
  ebp : s.reg .ebp = p.cr0
  esi : s.reg .esi = image
  seg : s.seg = p.seg

section Working

variable {p : State FxState} {image : Addr}

theorem Working.keep {s' : State FxState} (h : Working low size bs image p s)
    (hstack : OnStack low size s' bs) (hebx : s'.reg .ebx = s.reg .ebx)
    (hebp : s'.reg .ebp = s.reg .ebp) (hesi : s'.reg .esi = s.reg .esi) (hseg : s'.seg = s.seg) :
    Working low size bs image p s' :=
  ⟨hstack, hebx.trans h.ebx, hebp.trans h.ebp, hesi.trans h.esi, hseg.trans h.seg⟩

theorem steps_nmEnter :
    steps K.machine s (nmEnter G) =
      steps K.machine (steps K.machine (steps K.machine s (clearTs .ebp))
      [.cld, .incMem (.var G.nmCount)]) (testVar .esi G.fxImage) := by
  simp only [nmEnter, List.flatten_cons, List.flatten_nil, List.append_nil, steps_append]

theorem nmEnter_mem : (steps K.machine s (nmEnter G)).mem =
    writeDword G.nmCount (readDword s.mem G.nmCount + 1) s.mem := by
  rw [steps_nmEnter]
  rfl

theorem nmEnter_esi : (steps K.machine s (nmEnter G)).reg .esi = readDword s.mem G.fxImage := by
  rw [steps_nmEnter, test_reg]
  exact G.frame G.nmCount_mem G.fxImage_mem G.distinct.2.1

theorem nmEnter_zf :
    (steps K.machine s (nmEnter G)).flags.zf = decide (readDword s.mem G.fxImage = 0) := by
  rw [steps_nmEnter, test_zf, ← test_reg (M := K.machine) (r := .esi), ← steps_nmEnter, nmEnter_esi]

theorem nmEnter_owner :
    readDword (steps K.machine s (nmEnter G)).mem G.fxOwner = readDword s.mem G.fxOwner := by
  rw [nmEnter_mem]
  exact G.frame G.nmCount_mem G.fxOwner_mem G.distinct.2.2.2.1

theorem working_enter (hp : Located G data low size s₀) (h : OnStack low size p bs) :
    Working low size bs (readDword p.mem G.fxImage) p (steps K.machine p (nmEnter G)) := by
  refine ⟨h.body (by simp [nmEnter, clearTs, testVar, Op.writes]) fun i hi => ?_,
    steps_reg (by simp [nmEnter, clearTs, testVar, Op.writes]), ?_, nmEnter_esi, rfl⟩
  · rw [nmEnter_mem]
    exact hp.writeDword (hp.vars _ G.nmCount_mem) hi
  · rw [steps_nmEnter, steps_reg (by simp [testVar, Op.writes])]
    rfl

theorem Working.snapshot (h : Working low size bs image p s) (hp : Located G data low size s₀)
    (himage : ∀ j < sseSaveSize, data (off image j)) :
    Working low size bs image p (steps K.machine s (nmSnapshot G)) := by
  apply h.keep
  · apply h.stack.body (by simp [nmSnapshot, testVar, Op.writes])
    exact fun i hi => hp.fxsave (h.esi.symm ▸ himage) hi
  · exact steps_reg (by simp [nmSnapshot, testVar, Op.writes])
  · exact steps_reg (by simp [nmSnapshot, testVar, Op.writes])
  · exact steps_reg (by simp [nmSnapshot, testVar, Op.writes])
  · rfl

theorem nmSnapshot_edi (himage : ∀ j < sseSaveSize, ∀ i < 4, off (s.reg .esi) j ≠ off G.fxOwner i) :
    (steps K.machine s (nmSnapshot G)).reg .edi = readDword s.mem G.fxOwner := by
  rw [nmSnapshot, steps_cons, test_reg]
  apply readDword_congr
  intro i hi
  exact fxsave_of_ne fun j hj => (himage j (hj.trans (by decide)) i hi).symm

theorem nmSnapshot_zf : (steps K.machine s (nmSnapshot G)).flags.zf =
    decide ((steps K.machine s (nmSnapshot G)).reg .edi = 0) := by
  rw [nmSnapshot, steps_cons, test_zf, test_reg]

/-- EBX, EBP and the segment registers are left alone. -/
def Spares (o : Op) : Prop := .ebx ∉ o.writes ∧ .ebp ∉ o.writes ∧ o.system = false

theorem spares_around {ops : List Op} (h : ∀ o ∈ ops, Spares o) :
    ∀ o ∈ around .esi .edi ops, Spares o := by
  have hpair : ∀ o ∈ around .esi .edi [], Spares o := by simp [around, Spares, Op.writes, Op.system]
  intro o ho
  rw [around, List.concat_eq_append, List.concat_eq_append, List.append_assoc, List.mem_cons,
    List.mem_cons, List.mem_append] at ho
  rcases ho with rfl | rfl | ho | ho
  · exact hpair _ List.mem_cons_self
  · exact hpair _ (List.mem_cons_of_mem _ List.mem_cons_self)
  · exact h o ho
  · exact hpair o (List.mem_cons_of_mem _ (List.mem_cons_of_mem _ ho))

theorem Working.steps {ops : List Op} (h : Working low size bs image p s)
    (hops : ∀ o ∈ ops, Spares o) (hstack : OnStack low size (steps K.machine s ops) bs)
    (hesi : (X86.steps K.machine s ops).reg .esi = s.reg .esi) :
    Working low size bs image p (X86.steps K.machine s ops) :=
  h.keep hstack (steps_reg fun o ho => (hops o ho).1) (steps_reg fun o ho => (hops o ho).2.1) hesi
    (steps_seg fun o ho => (hops o ho).2.2)

/-- A string instruction between the pushes and the pops of ESI and EDI. -/
theorem Working.saving {ops : List Op} (h : Working low size bs image p s)
    (hp : Located G data low size s₀)
    (hroom : bs.length + 8 ≤ size) (hesp : ∀ o ∈ ops, .esp ∉ o.writes) (hops : ∀ o ∈ ops, Spares o)
    (hmem : ∀ i < size, (X86.steps K.machine (X86.steps K.machine s [.push .esi, .push .edi])
      ops).mem (off low i) =
      (X86.steps K.machine s [.push .esi, .push .edi]).mem (off low i)) :
    Working low size bs image p (X86.steps K.machine s (around .esi .edi ops)) := by
  obtain ⟨hstack, hesi, -⟩ :=
    h.stack.saved hp.size_le hroom (by decide) (by decide) (by decide) hesp hmem
  exact h.steps (spares_around hops) hstack hesi

theorem Working.flush (h : Working low size bs image p s) (hp : Located G data low size s₀)
    (hroom : bs.length + 8 ≤ size) (hedi : ∀ j < sseSaveSize, data (off (s.reg .edi) j))
    (hdf : s.flags.df = false) : Working low size bs image p (X86.steps K.machine s nmFlush) := by
  rw [nmFlush, steps_append]
  have hmxcsr : Working low size bs image p (X86.steps K.machine s flushMxcsr) := by
    apply h.steps (by simp [flushMxcsr, Spares, Op.writes, Op.system])
      (h.stack.body (by simp [flushMxcsr, Op.writes]) _)
    · exact steps_reg (by simp [flushMxcsr, Op.writes])
    · exact fun i hi => flushMxcsr_mem hp hedi hi
  apply hmxcsr.saving hp hroom (by simp [flushXmm, Op.writes])
    (by simp [flushXmm, Spares, Op.writes, Op.system])
  intro i hi
  have hreg : (X86.steps K.machine (X86.steps K.machine s flushMxcsr)
    [.push .esi, .push .edi]).reg .edi = s.reg .edi := by
    rw [← steps_append]
    exact steps_reg (by simp [flushMxcsr, Op.writes])
  have hdown : (X86.steps K.machine (X86.steps K.machine (X86.steps K.machine s flushMxcsr)
    [.push .esi, .push .edi])
      flushXmm).flags.df = false := by
    rw [← steps_append, ← steps_append, ← hdf]
    exact steps_df (by simp [flushMxcsr, flushXmm, Op.system])
  apply steps_rep_mem (c := .ofNat 32 xmmBytes) (.inl rfl) (by simp [flushXmm, Op.stores]) rfl rfl
  · exact fun _ j hj => hp.ne (Located.part (hreg ▸ hedi) (by decide) j hj) hi
  · intro hdf'
    rw [hdown] at hdf'
    cases hdf'

theorem nmCall_reg :
    (nmCall K s).reg = ((K.trapLookupSaveArea ((s.push (s.reg .esi)).push K.ret)).pop .esi).reg :=
  step_or_self_reg (M := K.machine)

theorem Working.call {depth : ℕ} (h : Working low size bs image p s)
    (hp : Located G data low size s₀) (hroom : bs.length + 8 + depth ≤ size)
    (hf : IsStdcall data depth K.trapLookupSaveArea) :
    Working low size bs image p (nmCall K s) := by
  have hpush := h.stack.push hp.size_le (by omega) (s.reg .esi)
  obtain ⟨hstack, hcall⟩ :=
    hpush.call hp.size_le (by rw [List.length_append, dwordBytes_length]; omega) hp.stack hf K.ret
  have hargs : ∀ r ≠ .esp, ((s.push (s.reg .esi)).push K.ret).reg r = s.reg r := fun r hr => by
    rw [push_reg_of_ne hr, push_reg_of_ne hr]
  apply h.keep
  · exact (hstack.pop (r := .esi) (by decide)).keep (congrFun nmCall_reg _) fun _ _ => rfl
  · rw [nmCall_reg, pop_reg_of_ne (by decide) (by decide), hcall.ebx, hargs _ (by decide)]
  · rw [nmCall_reg, pop_reg_of_ne (by decide) (by decide), hcall.ebp, hargs _ (by decide)]
  · rw [nmCall_reg, hstack.pop_reg]
  · exact hcall.seg

/-- The image's XMM slot is filled; the direction flag may be either way after the call. -/
theorem Working.fill {o : Op} {ops : List Op} (h : Working low size bs image p s)
    (hp : Located G data low size s₀) (hroom : bs.length + 8 ≤ size)
    (himage : ∀ j < sseSaveSize, data (off image j)) (ho : o = .repMovsb ∨ o = .repStosb)
    (hesp : ∀ o ∈ ops, .esp ∉ o.writes) (hops : ∀ o ∈ ops, Spares o)
    (hstores : ∀ o ∈ ops, o.stores = false)
    (hedi : ∀ s, (X86.steps K.machine s ops).reg .edi = s.reg .esi + .ofNat 32 fxiXmm)
    (hecx : ∀ s, (X86.steps K.machine s ops).reg .ecx = .ofNat 32 xmmBytes) :
    Working low size bs image p (X86.steps K.machine s (around .esi .edi (ops.concat o))) := by
  apply h.saving hp hroom
  · rcases ho with rfl | rfl
    · simpa [or_imp, forall_and, Op.writes] using hesp
    · simpa [or_imp, forall_and, Op.writes] using hesp
  · rcases ho with rfl | rfl
    · simpa [or_imp, forall_and, Spares, Op.writes, Op.system] using hops
    · simpa [or_imp, forall_and, Spares, Op.writes, Op.system] using hops
  · intro i hi
    have hesi : (X86.steps K.machine s [.push .esi, .push .edi]).reg .esi = image :=
      (steps_reg (by simp [Op.writes])).trans h.esi
    apply steps_rep_mem ho hstores (hedi _) (hecx _)
    · rw [hesi]
      exact fun _ j hj => hp.ne (Located.part himage (by decide) j hj) hi
    · rw [hesi]
      exact fun _ j hj => hp.ne (Located.part_down himage (by decide) (by decide) j hj) hi

/-- The owner and the image's MXCSR are set. -/
theorem Working.own {v w : BitVec 32} (h : Working low size bs image p s) (ops : List Op)
    (hp : Located G data low size s₀)
    (himage : ∀ j < sseSaveSize, data (off image j)) (hesp : ∀ o ∈ ops, .esp ∉ o.writes)
    (hops : ∀ o ∈ ops, Spares o)
    (hesi : ∀ o ∈ ops, .esi ∉ o.writes) (hmem : (X86.steps K.machine s ops).mem =
      writeDword (s.reg .esi + .ofNat 32 fxiMxcsr) v (writeDword G.fxOwner w s.mem)) :
    Working low size bs image p (X86.steps K.machine s ops) := by
  apply h.steps hops (h.stack.body hesp fun i hi => ?_) (steps_reg hesi)
  rw [hmem, h.esi, hp.writeDword (Located.part himage (by decide)) hi]
  exact hp.writeDword (hp.vars _ G.fxOwner_mem) hi

theorem Working.area (h : Working low size bs image p s) (hp : Located G data low size s₀)
    (hroom : bs.length + 8 ≤ size) (himage : ∀ j < sseSaveSize, data (off image j)) :
    Working low size bs image p (X86.steps K.machine s (nmArea G)) := by
  have hown := h.own (K := K) (areaMxcsr G) hp himage (by simp [areaMxcsr, Op.writes])
    (by simp [areaMxcsr, Spares, Op.writes, Op.system]) (by simp [areaMxcsr, Op.writes]) rfl
  rw [nmArea, steps_append]
  exact hown.fill hp hroom himage (.inl rfl) (by simp [areaXmm, Op.writes])
    (by simp [areaXmm, Spares, Op.writes, Op.system])
    (by simp [areaXmm, Op.stores]) (fun _ => rfl) fun _ => rfl

theorem Working.defaults (h : Working low size bs image p s) (hp : Located G data low size s₀)
    (hroom : bs.length + 8 ≤ size) (himage : ∀ j < sseSaveSize, data (off image j)) :
    Working low size bs image p (X86.steps K.machine s (nmDefaults G)) := by
  have hown := h.own (K := K) (defaultsMxcsr G) hp himage (by simp [defaultsMxcsr, Op.writes])
    (by simp [defaultsMxcsr, Spares, Op.writes, Op.system]) (by simp [defaultsMxcsr, Op.writes]) rfl
  rw [nmDefaults, steps_append]
  exact hown.fill hp hroom himage (.inr rfl) (by simp [defaultsXmm, Op.writes])
    (by simp [defaultsXmm, Spares, Op.writes, Op.system]) (by simp [defaultsXmm, Op.stores])
    (fun _ => rfl) fun _ => rfl

/-- What the kernel's handler finds after its prologue. -/
structure Resumed (low : Addr) (size : ℕ) (bs : List Byte) (p s : State FxState) : Prop where
  stack : OnStack low size s bs
  ebx : s.reg .ebx = p.reg .ebx
  seg : s.seg = p.seg
  cr0 : s.cr0 = p.cr0

theorem Working.resume (h : Working low size bs image p s) :
    Resumed low size bs p (X86.steps K.machine s [.movToCr0 .ebp]) :=
  ⟨h.stack.keep rfl fun _ _ => rfl, h.ebx, h.seg, h.ebp⟩

theorem Working.restore (h : Working low size bs image p s) :
    Resumed low size bs p (X86.steps K.machine s [.fxrstor .esi, .movToCr0 .ebp]) :=
  ⟨h.stack.keep rfl fun _ _ => rfl, h.ebx, h.seg, h.ebp⟩

theorem Working.loaded {depth : ℕ} (h : Working low size bs image p s)
    (hp : Located G data low size s₀) (hroom : bs.length + 8 + depth ≤ size)
    (hf : IsStdcall data depth K.trapLookupSaveArea)
    (himage : ∀ j < sseSaveSize, data (off image j)) : Resumed low size bs p (nmLoaded K G s) := by
  have hcall := h.call hp hroom hf
  unfold nmLoaded
  dsimp only
  split
  · exact (hcall.defaults hp (by omega) himage).restore
  · exact (hcall.area hp (by omega) himage).restore

theorem resumed_work {depth : ℕ} (h : OnStack low size p bs) (hp : Located G data low size s₀)
    (hdata : ∀ a, data a → p.mem a = s₀.mem a) (hroom : bs.length + 8 + depth ≤ size)
    (hf : IsStdcall data depth K.trapLookupSaveArea) : Resumed low size bs p (nmWork K G p) := by
  have hread : ∀ q ∈ G.vars, readDword p.mem q = readDword s₀.mem q := fun q hvar =>
    readDword_congr fun i hi => hdata _ (hp.vars q hvar i hi)
  have himage := hread G.fxImage G.fxImage_mem
  have howner := hread G.fxOwner G.fxOwner_mem
  have henter : Working low size bs (readDword p.mem G.fxImage) p (steps K.machine p (nmEnter G)) :=
    working_enter hp h
  unfold nmWork
  dsimp only
  split
  · exact henter.resume
  · next hi =>
    rw [nmEnter_zf, decide_eq_true_eq, himage] at hi
    have hdatai : ∀ j < sseSaveSize, data (off (readDword p.mem G.fxImage) j) :=
      himage ▸ hp.image_data hi
    have hsnapshot := henter.snapshot (K := K) hp hdatai
    split
    · exact hsnapshot.loaded hp hroom hf hdatai
    · next ho =>
      have hedi : (steps K.machine (steps K.machine p (nmEnter G)) (nmSnapshot G)).reg .edi =
        readDword s₀.mem G.fxOwner := by
        rw [nmSnapshot_edi, nmEnter_owner, howner]
        rw [henter.esi, himage]
        exact fun j hj => (hp.image hi j hj).2 _ G.fxOwner_mem
      rw [nmSnapshot_zf, decide_eq_true_eq, hedi] at ho
      have hdf : (steps K.machine (steps K.machine p (nmEnter G)) (nmSnapshot G)).flags.df =
        false :=
        steps_df (by simp [nmSnapshot, testVar, Op.system])
      exact (hsnapshot.flush hp (by omega) (hedi ▸ hp.owner ho) hdf).loaded hp hroom hf hdatai

end Working

theorem nmHandler_transparent {depth : ℕ} (hp : Located G data low size s)
    (hf : IsStdcall data depth K.trapLookupSaveArea) (hesp : s.reg .esp = off low k) (hk : k ≤ size)
    (hroom : 112 + depth ≤ k) :
    ∃ s', run K.machine (nmHandlerCode G) s = some s' ∧ s'.reg .esp = (afterPrologue K s).reg .esp ∧
      s'.reg .ebx = (afterPrologue K s).reg .ebx ∧ s'.seg = (afterPrologue K s).seg ∧
      s'.cr0 = (afterPrologue K s).cr0 ∧ ∀ i < size - (k - 104),
      s'.mem (off ((afterPrologue K s).reg .esp) i) =
      (afterPrologue K s).mem (off ((afterPrologue K s).reg .esp) i) := by
  have hgrown : Grown 104 s (afterPrologue K s) := (Grown.refl s).steps rfl
  have hlow := hgrown.low hesp (by omega)
  have hfit : k - 104 ≤ size := by omega
  have hstack := onStack_of_esp hfit hlow
  have hlen : ((List.range (size - (k - 104))).map fun i => (afterPrologue K s).mem
    (off low (k - 104 + i))).length =
      size - (k - 104) := by rw [List.length_map, List.length_range]
  have hdata : ∀ a, data a → (afterPrologue K s).mem a = s.mem a := fun a ha =>
    hgrown.off_stack hesp (by omega) hk fun i hi => (hp.ne ha hi).symm
  have hwork := resumed_work hstack hp hdata (by omega) hf
  obtain ⟨hsp, hbytes⟩ := hstack.agree hwork.stack
  rw [hlen] at hbytes
  exact ⟨_, run_nmHandler K G s, hsp, hwork.ebx, hwork.seg, hwork.cr0, hbytes⟩

/-- The two routines, at their jumps through `g_SwapTrampoline` and `g_KernelNmResume`. -/
theorem naked_transparent {depth : ℕ} (hp : Located G data low size s)
    (hf : IsStdcall data depth K.trapLookupSaveArea) (hesp : s.reg .esp = off low k) (hk : k ≤ size)
    (hroom : 112 + depth ≤ k) :
    (∃ s', run K.machine (swapDetourCode G) s = some s' ∧ s'.reg = s.reg ∧ s'.flags = s.flags ∧
      s'.cr0 = s.cr0 ∧ s'.fpu = s.fpu ∧ s'.seg = s.seg ∧
      ∀ i < size - k, s'.mem (off (s.reg .esp) i) = s.mem (off (s.reg .esp) i)) ∧
      ∃ s', run K.machine (nmHandlerCode G) s = some s' ∧
      s'.reg .esp = (afterPrologue K s).reg .esp ∧ s'.reg .ebx = (afterPrologue K s).reg .ebx ∧
      s'.seg = (afterPrologue K s).seg ∧ s'.cr0 = (afterPrologue K s).cr0 ∧ ∀ i < size - (k - 104),
      s'.mem (off ((afterPrologue K s).reg .esp) i) =
      (afterPrologue K s).mem (off ((afterPrologue K s).reg .esp) i) :=
  ⟨swapDetour_transparent hp hesp hk (by omega), nmHandler_transparent hp hf hesp hk hroom⟩

/-! ## A machine with an empty pool -/

/-- The variables from `0x100` on. -/
def lowGlobals : Globals := ⟨0x100, 0x104, 0x108, 0x10c, 0x110, 0x114, by decide⟩

/-- The table and the free list are zero, so that the lookup returns NULL. -/
def emptyPool : Surroundings where
  fsBase _ := 0
  trapLookupSaveArea s := (s.setReg .esp (s.reg .esp + 4)).setReg .eax 0
  ret := 0x3000

/-- An image at `0x1000`, an owner's area at `0x2000`. -/
def ownedState : State FxState where
  reg r := if r = .esp then 0x8078 else 0
  seg _ := 0
  flags := .ofImage 0x202
  cr0 := 0x80000001
  fpu := ⟨⟨fun _ => 0, fun _ => 0⟩, .default, 0xffbf⟩
  mem := writeDword 0x104 0x2000 (writeDword 0x100 0x1000 fun _ => 0)

theorem ownedState_image : readDword ownedState.mem lowGlobals.fxImage = 0x1000 := by
  have hne : Separate 0x100 0x104 := by decide
  exact hne.readDword.trans (readDword_writeDword _ _ _)

theorem ownedState_owner : readDword ownedState.mem lowGlobals.fxOwner = 0x2000 :=
  readDword_writeDword _ _ _

theorem emptyPool_isStdcall (data : Addr → Prop) : IsStdcall data 0 emptyPool.trapLookupSaveArea :=
  fun s _ =>
  ⟨setReg_reg_of_ne (by decide) _ |>.trans (setReg_reg_self _), rfl, rfl, rfl, rfl, rfl, rfl,
    fun _ _ _ => rfl⟩

theorem ownedState_located :
    Located lowGlobals (fun a => a.toNat < 0x4000) 0x8000 0x80 ownedState := by
  have hoff : ∀ p : Addr, ∀ n i : ℕ, p.toNat + n ≤ 2 ^ 32 → i < n → (off p i).toNat = p.toNat + i :=
    fun p n i hn hi =>
    off_toNat (by omega)
  have hvars : ∀ p ∈ lowGlobals.vars, ∀ j < 4, (off p j).toNat < 0x1000 := by
    simp only [Globals.vars, lowGlobals, List.forall_mem_cons, List.not_mem_nil, false_imp_iff,
      implies_true, and_true]
    decide
  constructor
  · omega
  · intro i hi
    rw [hoff _ 0x80 i (by decide) hi]
    exact not_lt.mpr (Nat.le_trans (by decide) (Nat.le_add_right _ _))
  · exact fun p hvar j hj => (hvars p hvar j hj).trans (by decide)
  · intro _ i hi
    rw [ownedState_image]
    have hi' := hoff 0x1000 sseSaveSize i (by decide) hi
    constructor
    · show (off 0x1000 i).toNat < 0x4000
      rw [hi']
      exact Nat.lt_trans (Nat.add_lt_add_left hi _) (by decide)
    · intro p hvar j hj he
      have hp := hvars p hvar j hj
      rw [← he, hi'] at hp
      exact absurd hp (not_lt.mpr (Nat.le_add_right _ _))
  · intro _ i hi
    rw [ownedState_owner]
    show (off 0x2000 i).toNat < 0x4000
    rw [hoff 0x2000 sseSaveSize i (by decide) hi]
    exact Nat.lt_trans (Nat.add_lt_add_left hi _) (by decide)

theorem naked_transparent_emptyPool :
    (∃ s', run emptyPool.machine (swapDetourCode lowGlobals) ownedState = some s' ∧
      s'.reg = ownedState.reg ∧ s'.flags = ownedState.flags ∧ s'.cr0 = ownedState.cr0 ∧
      s'.fpu = ownedState.fpu ∧ s'.seg = ownedState.seg ∧ ∀ i < 8, s'.mem (off 0x8078 i) =
      ownedState.mem (off 0x8078 i)) ∧ ∃ s', run emptyPool.machine (nmHandlerCode lowGlobals)
      ownedState = some s' ∧ s'.reg .esp = (afterPrologue emptyPool ownedState).reg .esp ∧
      s'.reg .ebx = (afterPrologue emptyPool ownedState).reg .ebx ∧
      s'.seg = (afterPrologue emptyPool ownedState).seg ∧
      s'.cr0 = (afterPrologue emptyPool ownedState).cr0 ∧
      ∀ i < 112, s'.mem (off ((afterPrologue emptyPool ownedState).reg .esp) i) =
      (afterPrologue emptyPool ownedState).mem (off ((afterPrologue emptyPool ownedState).reg .esp)
      i) :=
  naked_transparent (k := 0x78) ownedState_located (emptyPool_isStdcall _) rfl (by decide)
    (by decide)

end Nt351.Driver
