import Nt351Sse.Driver.Hooks

/-! The #NM hook from any state: which gate, what code and which globals it starts from need
not be those a load finds. Interrupts may be taken between its writes; they leave the hooks
alone. -/

namespace Nt351.Driver
open Memory Runs Preempt

variable {E : Env} {s s' : System} {m : Mem} {a b : Addr}

theorem interrupts_ctl (p : Point) (s : System) : (interrupts E p s).state.ctl = s.ctl :=
  exec_invariant (I := fun t : System => t.ctl = s.ctl) rfl fun _ i ht => (serve_ctl i).trans ht

/-! ## The compare -/

/-- `n` is the length of the longest common prefix of the bytes at `a` and `b`, of those
that are compared. -/
structure LongestMatch (m : Mem) (a b : Addr) (n : ℕ) : Prop where
  le : n ≤ nmPrologueLen
  agree : ∀ i < n, m (off a i) = m (off b i)
  differ : n < nmPrologueLen → m (off a n) ≠ m (off b n)

theorem matchedLen_spec (m : Mem) (a b : Addr) : LongestMatch m a b (matchedLen m a b) := by
  set p : ℕ → Bool := fun i => m (off a i) = m (off b i)
  have htaken : (List.range nmPrologueLen).takeWhile p <+: List.range nmPrologueLen :=
    List.takeWhile_prefix p
  have hle : matchedLen m a b ≤ nmPrologueLen :=
    htaken.length_le.trans_eq List.length_range
  refine ⟨hle, fun i hi => ?_, fun hlt => ?_⟩
  · have hget : ((List.range nmPrologueLen).takeWhile p)[i] = i := by
      rw [htaken.getElem hi, List.getElem_range]
    have hmem : p ((List.range nmPrologueLen).takeWhile p)[i] = true :=
      List.mem_takeWhile_imp (List.getElem_mem hi)
    rw [hget] at hmem
    exact of_decide_eq_true hmem
  · -- the rest of the range is not empty and starts at the first index that fails
    have hsplit : (List.range nmPrologueLen).takeWhile p ++ (List.range nmPrologueLen).dropWhile p =
        List.range nmPrologueLen := List.takeWhile_append_dropWhile
    have hlen := congrArg List.length hsplit
    rw [List.length_append, List.length_range] at hlen
    have hrest : 0 < ((List.range nmPrologueLen).dropWhile p).length := by
      change matchedLen m a b + _ = _ at hlen
      omega
    have hhead : ((List.range nmPrologueLen).dropWhile p)[0] = matchedLen m a b := by
      have hget : (List.range nmPrologueLen)[matchedLen m a b]? = some (matchedLen m a b) :=
        List.getElem?_range hlt
      have hzero : matchedLen m a b - ((List.range nmPrologueLen).takeWhile p).length = 0 :=
        Nat.sub_self _
      have hge : ((List.range nmPrologueLen).takeWhile p).length ≤ matchedLen m a b := le_rfl
      rw [← hsplit, List.getElem?_append_right hge, hzero] at hget
      exact (List.getElem?_eq_some_iff.mp hget).2
    have hstop := List.dropWhile_get_zero_not (p := p) _ hrest
    rw [List.get_eq_getElem, hhead] at hstop
    exact fun he => hstop (decide_eq_true he)

theorem matchedLen_eq_iff : matchedLen m a b = nmPrologueLen ↔
    ∀ i < nmPrologueLen, m (off a i) = m (off b i) := by
  have h := matchedLen_spec m a b
  constructor
  · intro hall i hi
    exact h.agree i (hall ▸ hi)
  · intro hall
    by_contra hne
    have hlt : matchedLen m a b < nmPrologueLen := lt_of_le_of_ne h.le hne
    exact h.differ hlt (hall _ hlt)

/-! ## The hook -/

/-- What a successful `InstallNmHook` makes of the hooks and the globals. -/
structure NmInstalled (E : Env) (c c' : Control) : Prop where
  target : gateTarget c'.gate = E.nmHandler
  selector : c'.gate.selector = c.gate.selector
  reserved : c'.gate.reserved = c.gate.reserved
  access : c'.gate.access = c.gate.access
  resume : c'.kernelNmResume = gateTarget c.gate + BitVec.ofNat 32 nmPrologueLen
  hooked : c'.nmHooked = true

theorem wp_interrupts_ctl {p : Point} {Q : Unit → System → Prop}
    (hQ : ∀ s', s'.ctl = s.ctl → Q () s') : wp (interrupts E p) (fun _ => True) Q s :=
  ⟨fun _ _ => trivial, hQ _ (interrupts_ctl p s)⟩

theorem installNmHook_refused
    (h : matchedLen s.ctl.text (gateTarget s.ctl.gate) E.nmHandler ≠ nmPrologueLen) :
    (installNmHook E s).result = (false, gateTarget s.ctl.gate,
      matchedLen s.ctl.text (gateTarget s.ctl.gate) E.nmHandler) ∧
      (installNmHook E s).state = s := by
  suffices hwp : wp (installNmHook E) (fun _ => True) (fun r s' =>
      r = (false, gateTarget s.ctl.gate,
        matchedLen s.ctl.text (gateTarget s.ctl.gate) E.nmHandler) ∧ s' = s) s from hwp.2
  unfold installNmHook
  rw [wp_bind, wp_read, wp_bind, wp_read, if_pos h, wp_pure]
  exact ⟨rfl, rfl⟩

theorem installNmHook_installed
    (h : matchedLen s.ctl.text (gateTarget s.ctl.gate) E.nmHandler = nmPrologueLen) :
    (installNmHook E s).result = (true, gateTarget s.ctl.gate, nmPrologueLen) ∧
      (installNmHook E s).state.ctl = { s.ctl with
        kernelNmResume := off (gateTarget s.ctl.gate) nmPrologueLen
        gate := setGateTarget E.nmHandler s.ctl.gate
        nmHooked := true } := by
  suffices hwp : wp (installNmHook E) (fun _ => True) (fun r s' =>
      r = (true, gateTarget s.ctl.gate, nmPrologueLen) ∧ s'.ctl = { s.ctl with
        kernelNmResume := off (gateTarget s.ctl.gate) nmPrologueLen
        gate := setGateTarget E.nmHandler s.ctl.gate
        nmHooked := true }) s from hwp.2
  unfold installNmHook
  rw [wp_bind, wp_read, wp_bind, wp_read, if_neg (not_not.mpr h), wp_bind, wp_write, wp_bind]
  refine wp_interrupts_ctl fun s₁ h₁ => ?_
  rw [wp_bind, wp_write, wp_bind]
  refine wp_interrupts_ctl fun s₂ h₂ => ?_
  rw [wp_bind, wp_write, wp_bind]
  refine wp_interrupts_ctl fun s₃ h₃ => ?_
  rw [wp_pure, h]
  refine ⟨rfl, ?_⟩
  simp only [h₃, System.setCtl, h₂, h₁]

/-- `RemoveNmHook`, once it has been installed. -/
theorem removeNmHook_hooked (h : s.ctl.nmHooked = true) :
    (removeNmHook E s).state.ctl = { s.ctl with
      gate := setGateTarget (s.ctl.kernelNmResume - BitVec.ofNat 32 nmPrologueLen) s.ctl.gate
      nmHooked := false } := by
  suffices hwp : wp (removeNmHook E) (fun _ => True) (fun _ s' => s'.ctl = { s.ctl with
      gate := setGateTarget (s.ctl.kernelNmResume - BitVec.ofNat 32 nmPrologueLen) s.ctl.gate
      nmHooked := false }) s from hwp.2
  unfold removeNmHook
  rw [wp_bind, wp_read, if_pos h, wp_bind, wp_write, wp_bind]
  refine wp_interrupts_ctl fun s₁ h₁ => ?_
  rw [wp_bind, wp_write]
  refine wp_interrupts_ctl fun s₂ h₂ => ?_
  simp only [h₂, System.setCtl, h₁]

theorem removeNmHook_unhooked (h : s.ctl.nmHooked = false) : (removeNmHook E s).state = s := by
  suffices hwp : wp (removeNmHook E) (fun _ => True) (fun _ s' => s' = s) s from hwp.2
  unfold removeNmHook
  rw [wp_bind, wp_read, if_neg (Bool.not_eq_true _ ▸ h), wp_pure]

/-- Whether `InstallNmHook` installs, what it reports, and what `RemoveNmHook` undoes. -/
structure NmReversible (E : Env) (s : System) : Prop where
  installs : (installNmHook E s).result.1 = true ↔ ∀ i < nmPrologueLen,
    s.ctl.text (off (gateTarget s.ctl.gate) i) = s.ctl.text (off E.nmHandler i)
  live : (installNmHook E s).result.2.1 = gateTarget s.ctl.gate
  matched : LongestMatch s.ctl.text (gateTarget s.ctl.gate) E.nmHandler
    (installNmHook E s).result.2.2
  refused : (installNmHook E s).result.1 = false → (installNmHook E s).state = s
  installed : (installNmHook E s).result.1 = true →
    NmInstalled E s.ctl (installNmHook E s).state.ctl
  -- however the trap code has run since
  removed : (installNmHook E s).result.1 = true → ∀ s', s'.ctl = (installNmHook E s).state.ctl →
    (removeNmHook E s').state.ctl.gate = s.ctl.gate ∧
      ∀ s'', s''.ctl = (removeNmHook E s').state.ctl → (removeNmHook E s'').state = s''

theorem nmHook_reversible (E : Env) (s : System) : NmReversible E s := by
  have hspec := matchedLen_spec s.ctl.text (gateTarget s.ctl.gate) E.nmHandler
  by_cases h : matchedLen s.ctl.text (gateTarget s.ctl.gate) E.nmHandler = nmPrologueLen
  · obtain ⟨hresult, hctl⟩ := installNmHook_installed h
    have hgate := gateTarget_setGateTarget E.nmHandler s.ctl.gate
    refine ⟨?_, ?_, ?_, ?_, ?_, ?_⟩
    · rw [hresult]
      exact iff_of_true rfl (matchedLen_eq_iff.mp h)
    · rw [hresult]
    · rw [hresult]
      exact h ▸ hspec
    · intro hfalse
      rw [hresult] at hfalse
      exact absurd hfalse Bool.true_eq_false.mp
    · intro
      rw [hctl]
      exact ⟨hgate, rfl, rfl, rfl, rfl, rfl⟩
    · intro _ s' hs'
      rw [hctl] at hs'
      have hremoved := removeNmHook_hooked (E := E) (s := s') (by rw [hs'])
      refine ⟨?_, fun s'' hs'' => removeNmHook_unhooked ?_⟩
      · rw [hremoved, hs']
        change setGateTarget (off (gateTarget s.ctl.gate) nmPrologueLen -
          BitVec.ofNat 32 nmPrologueLen) (setGateTarget E.nmHandler s.ctl.gate) = _
        rw [off, BitVec.add_sub_cancel, setGateTarget_gateTarget]
      · rw [hs'', hremoved]
  · obtain ⟨hresult, hstate⟩ := installNmHook_refused h
    refine ⟨?_, ?_, ?_, fun _ => hstate, ?_, ?_⟩
    · rw [hresult]
      exact iff_of_false Bool.false_ne_true (mt matchedLen_eq_iff.mpr h)
    · rw [hresult]
    · rw [hresult]
      exact hspec
    · intro htrue
      rw [hresult] at htrue
      exact absurd htrue Bool.false_ne_true
    · intro htrue
      rw [hresult] at htrue
      exact absurd htrue Bool.false_ne_true

end Nt351.Driver
