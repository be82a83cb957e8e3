import Nt351Sse.Base.Assignment
import Nt351Sse.Base.Runs

/-! Lazy switching of one live context between many keys. Each key is handed a record
from a pool on first use; the live context is written back to the record of its owner,
either by the trap of the key that takes the context over or eagerly when control is
switched away. An armed machine traps on its next access. -/

namespace Nt351.LazyContext
open Runs

/-- A record `C` keeps a context `V` among other bytes. -/
structure Record (V C : Type*) where
  get : C → V
  put : V → C → C
  get_put : ∀ v c, get (put v c) = v
  default : V

structure State (K B V C : Type*) where
  pool : Assignment K B
  area : B → C
  live : V
  -- the record the live context will be written back to
  owner : Option B
  -- the key whose accesses may go untrapped
  loaded : Option K
  cur : K
  armed : Bool

inductive Event (K V : Type*)
  | read
  | write (f : V → V)
  -- `flush`: is the context written back first; `spurious`: is the machine armed anyway
  | switch (k : K) (flush spurious : Bool)

def Event.isAccess {K V : Type*} : Event K V → Prop
  | read => True
  | write _ => True
  | switch _ _ _ => False

variable {K B V C : Type*} [DecidableEq K] [DecidableEq B] (R : Record V C)

/-- What the records of a pool keep for key `k`. -/
def saved (pool : Assignment K B) (area : B → C) (k : K) : V :=
  match pool.held k with
  | none => R.default
  | some b => R.get (area b)

namespace State

def flushed (s : State K B V C) : B → C :=
  match s.owner with
  | none => s.area
  | some b => Function.update s.area b (R.put s.live (s.area b))

def flush (s : State K B V C) : State K B V C := { s with area := s.flushed R, owner := none }

def trap (s : State K B V C) : State K B V C :=
  let pool := s.pool.acquire s.cur
  { s with
    pool := pool
    area := s.flushed R
    live := saved R pool (s.flushed R) s.cur
    owner := pool.held s.cur
    loaded := some s.cur
    armed := false }

def access (s : State K B V C) : State K B V C := if s.armed then s.trap R else s

def enter (k : K) (spurious : Bool) (s : State K B V C) : State K B V C :=
  { s with cur := k, armed := spurious || decide (s.loaded ≠ some k) }

def step (s : State K B V C) : Event K V → State K B V C
  | .read => s.access R
  | .write f => { s.access R with live := f (s.access R).live }
  | .switch k true spurious => (s.flush R).enter k spurious
  | .switch k false spurious => s.enter k spurious

def value (s : State K B V C) (k : K) : V :=
  if s.loaded = some k then s.live else saved R s.pool s.area k

structure Wf (s : State K B V C) : Prop where
  owner : ∀ b, s.owner = some b → ∃ k, s.loaded = some k ∧ s.pool.held k = some b
  opened : s.armed = false → s.loaded = some s.cur

/-- The records nobody holds keep the default context. -/
def FreeDefault (s : State K B V C) : Prop := ∀ b ∈ s.pool.free, R.get (s.area b) = R.default

/-- A trap taken in `s` overwrites no context that is nowhere saved. -/
def NoLoss (s : State K B V C) (e : Event K V) : Prop :=
  e.isAccess → s.armed = true → s.owner = none →
    ∀ k, s.loaded = some k → s.live = saved R s.pool s.area k

/-- The machine is armed only for keys other than the loaded one. -/
def Strict (s : State K B V C) : Prop := s.armed = true → s.loaded ≠ some s.cur

/-! ## One step -/

variable {R} {s : State K B V C} {k : K} {b : B} {e : Event K V}

omit [DecidableEq K] in
theorem flushed_of_none (h : s.owner = none) : s.flushed R = s.area := by simp only [flushed, h]

omit [DecidableEq K] in
theorem flushed_self (h : s.owner = some b) : s.flushed R b = R.put s.live (s.area b) := by
  simp only [flushed, h, Function.update_self]

omit [DecidableEq K] in
theorem flushed_other (h : s.owner ≠ some b) : s.flushed R b = s.area b := by
  cases ho : s.owner with
  | none => rw [flushed_of_none ho]
  | some c =>
    have hne : b ≠ c := by
      rintro rfl
      exact h ho
    simp only [flushed, ho, Function.update_of_ne hne]

omit [DecidableEq K] [DecidableEq B] in
theorem Wf.owner_notMem_free (h : s.Wf) (hb : b ∈ s.pool.free) : s.owner ≠ some b := by
  intro ho
  obtain ⟨k, -, hk⟩ := h.owner b ho
  exact s.pool.apart k b hk hb

omit [DecidableEq B] in
theorem saved_acquire {pool : Assignment K B} {area : B → C}
    (hfree : ∀ b ∈ pool.free, R.get (area b) = R.default) (j : K) :
    saved R (pool.acquire j) area k = saved R pool area k := by
  cases hj : pool.held j with
  | some c => rw [Assignment.acquire_of_held hj]
  | none =>
    cases hf : pool.free with
    | nil => rw [Assignment.acquire_of_empty hf]
    | cons c cs =>
      rw [Assignment.acquire_of_free hj hf]
      by_cases hkj : k = j
      · subst hkj
        have hc : R.get (area c) = R.default := hfree c (hf ▸ List.mem_cons_self)
        simp only [saved, Assignment.grant, Function.update_self, hj, hc]
      · simp only [saved, Assignment.grant, Function.update_of_ne hkj]

theorem saved_flushed (h : s.Wf) :
    saved R s.pool (s.flushed R) k = if s.owner ≠ none ∧
      s.loaded = some k then s.live else saved R s.pool s.area k := by
  cases ho : s.owner with
  | none =>
    rw [flushed_of_none ho, if_neg]
    exact fun hc => hc.1 rfl
  | some b =>
    obtain ⟨j, hl, hj⟩ := h.owner b ho
    by_cases hkj : s.loaded = some k
    · obtain rfl : j = k := Option.some.inj (hl.symm.trans hkj)
      rw [if_pos ⟨Option.some_ne_none b, hkj⟩, saved, hj]
      change R.get (s.flushed R b) = s.live
      rw [flushed_self ho, R.get_put]
    · rw [if_neg fun hc => hkj hc.2]
      unfold saved
      split
      · rfl
      · next c hc =>
        have hbc : s.owner ≠ some c := by
          intro hoc
          obtain rfl : b = c := Option.some.inj (ho.symm.trans hoc)
          exact hkj ((s.pool.inj k j b hc hj) ▸ hl)
        rw [flushed_other hbc]

omit [DecidableEq K] in
theorem FreeDefault.flushed (h : s.FreeDefault R) (hw : s.Wf) :
    ∀ b ∈ s.pool.free, R.get (s.flushed R b) = R.default := by
  intro b hb
  rw [flushed_other (hw.owner_notMem_free hb)]
  exact h b hb

omit [DecidableEq B] in
theorem acquire_free_subset {pool : Assignment K B} (j : K) (hb : b ∈ (pool.acquire j).free) :
    b ∈ pool.free := by
  cases hj : pool.held j with
  | some c => rwa [Assignment.acquire_of_held hj] at hb
  | none =>
    cases hf : pool.free with
    | nil => rwa [Assignment.acquire_of_empty hf, hf] at hb
    | cons c cs =>
      rw [Assignment.acquire_of_free hj hf] at hb
      exact List.mem_cons_of_mem c hb

omit [DecidableEq K] in
theorem Wf.flush (h : s.Wf) : (s.flush R).Wf :=
  ⟨fun b hb => absurd hb (Option.some_ne_none b).symm, h.opened⟩

omit [DecidableEq B] in
theorem Wf.enter (h : s.Wf) (k : K) (spurious : Bool) : (s.enter k spurious).Wf := by
  refine ⟨h.owner, fun ha => ?_⟩
  have ha' : (spurious || decide (s.loaded ≠ some k)) = false := ha
  simp only [Bool.or_eq_false_iff, decide_eq_false_iff_not, not_not] at ha'
  exact ha'.2

theorem wf_trap (s : State K B V C) : (s.trap R).Wf := ⟨fun _ hb => ⟨s.cur, rfl, hb⟩, fun _ => rfl⟩

/-- An access traps if the machine is armed, and changes nothing if it is not. -/
theorem access_cases {P : State K B V C → Prop} (htrap : s.armed = true → P (s.trap R))
    (hkeep : s.armed = false → P s) : P (s.access R) := by
  unfold State.access
  split
  · next ha => exact htrap ha
  · next ha => exact hkeep (Bool.eq_false_of_not_eq_true ha)

theorem Wf.access (h : s.Wf) : (s.access R).Wf := by
  refine access_cases (fun _ => ?_) fun _ => h
  exact wf_trap s

theorem Wf.step (h : s.Wf) (e : Event K V) : (s.step R e).Wf := by
  cases e with
  | read => exact h.access
  | write f => exact ⟨h.access.owner, h.access.opened⟩
  | switch k flush spurious =>
    cases flush with
    | true => exact h.flush.enter k spurious
    | false => exact h.enter k spurious

theorem FreeDefault.access (h : s.FreeDefault R) (hw : s.Wf) : (s.access R).FreeDefault R := by
  refine access_cases (fun _ b hb => ?_) fun _ => h
  exact h.flushed hw b (acquire_free_subset s.cur hb)

theorem FreeDefault.step (h : s.FreeDefault R) (hw : s.Wf) (e : Event K V) :
    (s.step R e).FreeDefault R := by
  cases e with
  | read => exact h.access hw
  | write f => exact h.access hw
  | switch k flush spurious =>
    cases flush with
    | true => exact h.flushed hw
    | false => exact h

theorem Wf.access_loaded (h : s.Wf) : (s.access R).loaded = some s.cur := by
  refine access_cases (P := fun s' => s'.loaded = some s.cur) (fun _ => ?_) h.opened
  rfl

theorem access_cur (s : State K B V C) : (s.access R).cur = s.cur := by
  refine access_cases (P := fun s' => s'.cur = s.cur) (fun _ => ?_) fun _ => rfl
  rfl

end State

/-! ## One private context per key -/

open State

variable {R} {s : State K B V C} {k : K} {e : Event K V}

structure Files (K V : Type*) where
  cur : K
  file : K → V

def Files.step (i : Files K V) : Event K V → Files K V
  | .read => i
  | .write f => { i with file := Function.update i.file i.cur (f (i.file i.cur)) }
  | .switch k _ _ => { i with cur := k }

theorem Files.write_self (i : Files K V) (f : V → V) :
    (i.step (.write f)).file i.cur = f (i.file i.cur) :=
  Function.update_self ..

theorem Files.write_other {i : Files K V} (f : V → V) (hk : k ≠ i.cur) :
    (i.step (.write f)).file k = i.file k :=
  Function.update_of_ne hk ..

variable (R) in
/-- The machine keeps for every key the context its private file holds. -/
structure Sim (s : State K B V C) (i : Files K V) : Prop where
  wf : s.Wf
  free : s.FreeDefault R
  cur : s.cur = i.cur
  file : ∀ k, s.value R k = i.file k

variable {i : Files K V}

/-- What a trap keeps for `k`: the live context only if it has an owner. -/
theorem value_trap (hw : s.Wf) (hf : s.FreeDefault R) (k : K) :
    (s.trap R).value R k =
      if s.owner ≠ none ∧ s.loaded = some k then s.live else saved R s.pool s.area k := by
  rw [← saved_flushed hw, ← saved_acquire (hf.flushed hw) s.cur]
  unfold value
  split
  · next hl =>
    have hk : s.cur = k := Option.some.inj hl
    rw [← hk]
    rfl
  · rfl

theorem value_access (hw : s.Wf) (hf : s.FreeDefault R) (hloss : s.NoLoss R .read) (k : K) :
    (s.access R).value R k = s.value R k := by
  refine access_cases (P := fun s' => s'.value R k = s.value R k) (fun ha => ?_) fun _ => rfl
  rw [value_trap hw hf, value]
  by_cases hl : s.loaded = some k
  · by_cases ho : s.owner = none
    · rw [if_neg fun hc => hc.1 ho, if_pos hl]
      exact (hloss trivial ha ho k hl).symm
    · rw [if_pos ⟨ho, hl⟩, if_pos hl]
  · rw [if_neg fun hc => hl hc.2, if_neg hl]

theorem value_flush (hw : s.Wf) (k : K) : (s.flush R).value R k = s.value R k := by
  change (if s.loaded = some k then s.live else saved R s.pool (s.flushed R) k) = _
  rw [saved_flushed hw, value]
  by_cases hl : s.loaded = some k
  · rw [if_pos hl, if_pos hl]
  · rw [if_neg hl, if_neg hl, if_neg fun hc => hl hc.2]

theorem Sim.step (h : Sim R s i) (hloss : s.NoLoss R e) : Sim R (s.step R e) (i.step e) := by
  refine ⟨h.wf.step e, h.free.step h.wf e, ?_, fun k => ?_⟩
  · cases e with
    | read => exact (access_cur s).trans h.cur
    | write f => exact (access_cur s).trans h.cur
    | switch k flush spurious =>
      cases flush with
      | true => rfl
      | false => rfl
  · cases e with
    | read => exact (value_access h.wf h.free hloss k).trans (h.file k)
    | write f =>
      have hkeep := (value_access h.wf h.free hloss k).trans (h.file k)
      have hloaded := h.wf.access_loaded (R := R)
      by_cases hk : k = i.cur
      · subst hk
        rw [h.cur] at hloaded
        rw [value, if_pos hloaded] at hkeep
        rw [Files.write_self, ← hkeep]
        exact if_pos hloaded
      · have hne : (s.access R).loaded ≠ some k := fun hc =>
          hk ((Option.some.inj (hc.symm.trans hloaded)).trans h.cur)
        rw [value, if_neg hne] at hkeep
        rw [Files.write_other f hk, ← hkeep]
        exact if_neg hne
    | switch j flush spurious =>
      cases flush with
      | true => exact (value_flush h.wf k).trans (h.file k)
      | false => exact h.file k

theorem Sim.read (h : Sim R s i) (hloss : s.NoLoss R .read) : (s.access R).live = i.file i.cur := by
  have hkeep := (value_access h.wf h.free hloss s.cur).trans (h.file s.cur)
  rwa [value, if_pos h.wf.access_loaded, h.cur] at hkeep

omit [DecidableEq B] in
theorem strict_enter (k : K) (s : State K B V C) : Strict (s.enter k false) := by
  intro ha
  have ha' : (false || decide (s.loaded ≠ some k)) = true := ha
  rw [Bool.false_or, decide_eq_true_eq] at ha'
  exact ha'

theorem read_enter (hw : s.Wf) (hf : s.FreeDefault R) (flush : Bool) (k : K) :
    ((s.step R (.switch k flush false)).access R).live = s.value R k := by
  have hw' := hw.step (R := R) (.switch k flush false)
  have hf' := hf.step hw (.switch k flush false)
  have hcur : (s.step R (.switch k flush false)).cur = k := by cases flush <;> rfl
  have hvalue : (s.step R (.switch k flush false)).value R k = s.value R k := by
    cases flush with
    | true => exact value_flush hw k
    | false => rfl
  have hstrict : Strict (s.step R (.switch k flush false)) := by
    cases flush with
    | true => exact strict_enter k _
    | false => exact strict_enter k _
  have hloaded := hw'.access_loaded (R := R)
  rw [hcur] at hloaded
  rw [← hvalue]
  set s' := s.step R (.switch k flush false)
  calc (s'.access R).live = (s'.access R).value R k := by rw [value, if_pos hloaded]
    _ = s'.value R k := by
      refine access_cases (P := fun t => t.value R k = s'.value R k) (fun ha => ?_) fun _ => rfl
      have hne : s'.loaded ≠ some k := hcur ▸ hstrict ha
      rw [value_trap hw' hf', value, if_neg fun hc => hne hc.2, if_neg hne]

/-- A trap that overwrites an unsaved context loses it: the key it belonged to no longer
reads it. -/
theorem Sim.lost (h : Sim R s i) (hstrict : Strict s) (hloss : ¬ s.NoLoss R e) :
    ∃ k, s.loaded = some k ∧ (s.step R e).value R k ≠ (i.step e).file k := by
  unfold NoLoss at hloss
  push Not at hloss
  obtain ⟨hacc, ha, ho, k, hl, hne⟩ := hloss
  have hk : s.cur ≠ k := fun hc => hstrict ha (hc ▸ hl)
  have htrap : (s.trap R).value R k = saved R s.pool s.area k := by
    rw [value_trap h.wf h.free, if_neg fun hc => hc.1 ho]
  have hfile : i.file k = s.live := by
    rw [← h.file k, value, if_pos hl]
  have hloaded : (s.trap R).loaded ≠ some k := fun hc => hk (Option.some.inj hc)
  refine ⟨k, hl, ?_⟩
  cases e with
  | read =>
    change (s.access R).value R k ≠ i.file k
    rw [State.access, if_pos ha, htrap, hfile]
    exact hne.symm
  | write f =>
    have hkeep : (s.step R (.write f)).value R k = saved R s.pool s.area k := by
      rw [← htrap, value, value, State.step, State.access, if_pos ha, if_neg hloaded,
        if_neg hloaded]
    rw [hkeep, Files.write_other f (h.cur ▸ hk.symm), hfile]
    exact hne.symm
  | switch j flush spurious => exact hacc.elim

theorem Sim.run {es : List (Event K V)} (h : Sim R s i)
    (hloss : Along (State.step R) (NoLoss R) s es) :
    Sim R (exec (State.step R) s es) (exec Files.step i es) := by
  induction es generalizing s i with
  | nil => exact h
  | cons e es ih => exact ih (h.step hloss.1) hloss.2

def Event.isSpurious : Event K V → Bool
  | .switch _ _ spurious => spurious
  | _ => false

theorem State.Strict.step (h : Strict s) (he : e.isSpurious = false) : Strict (s.step R e) := by
  have haccess : Strict (s.access R) := by
    refine access_cases (fun _ ha => ?_) fun _ => h
    exact absurd ha Bool.false_ne_true
  cases e with
  | read => exact haccess
  | write f => exact haccess
  | switch k flush spurious =>
    obtain rfl : spurious = false := he
    cases flush with
    | true => exact strict_enter k _
    | false => exact strict_enter k _

def Event.within (P : Finset K) : Event K V → Prop
  | .switch k _ _ => k ∈ P
  | _ => True

structure Among (P : Finset K) (s : State K B V C) : Prop where
  cur : s.cur ∈ P
  loaded : ∀ k, s.loaded = some k → k ∈ P

variable {P : Finset K}

theorem Among.access (h : Among P s) : Among P (s.access R) := by
  refine access_cases (fun _ => ⟨h.cur, fun k hk => ?_⟩) fun _ => h
  obtain rfl : s.cur = k := Option.some.inj hk
  exact h.cur

theorem Among.step (h : Among P s) (he : e.within P) : Among P (s.step R e) := by
  cases e with
  | read => exact h.access
  | write f => exact ⟨h.access.cur, h.access.loaded⟩
  | switch k flush spurious =>
    cases flush with
    | true => exact ⟨he, h.loaded⟩
    | false => exact ⟨he, h.loaded⟩

/-- A run loses nothing exactly if after each part of it every key can still be given
back its own context. -/
theorem Sim.lossless_iff {es : List (Event K V)} (h : Sim R s i) (hstrict : Strict s)
    (hamong : Among P s) (hes : ∀ e ∈ es, e.isSpurious = false ∧ e.within P) :
    Along (State.step R) (NoLoss R) s es ↔ ∀ p, p <+: es →
      ∀ k ∈ P, ((exec (State.step R) s (p ++ [.switch k true false])).access R).live =
      (exec Files.step i p).file k := by
  constructor
  · rintro hloss p ⟨q, rfl⟩ k -
    have hp := h.run (along_append.mp hloss).1
    rw [exec_concat, read_enter hp.wf hp.free]
    exact hp.file k
  · intro hread
    induction es generalizing s i with
    | nil => trivial
    | cons e es ih =>
      have he : s.NoLoss R e := by
        by_contra hlost
        obtain ⟨k, hl, hk⟩ := h.lost hstrict hlost
        have hr := hread [e] ⟨es, rfl⟩ k (hamong.loaded k hl)
        rw [exec_concat, exec_cons, exec_nil, read_enter (h.wf.step e) (h.free.step h.wf e)] at hr
        exact hk hr
      obtain ⟨hspurious, hwithin⟩ := hes e List.mem_cons_self
      apply And.intro he
      apply ih (h.step he) (hstrict.step hspurious) (hamong.step hwithin)
      · exact fun e he => hes e (List.mem_cons_of_mem _ he)
      · intro p hp k hk
        exact hread (e :: p) ((List.cons_prefix_cons ..).mpr ⟨rfl, hp⟩) k hk

/-! ## Ownership and arming that agree -/

/-- With no owner the machine is armed and the loaded key's context is saved. -/
def Agreed (R : Record V C) (s : State K B V C) : Prop :=
  s.owner = none → s.armed = true ∧ ∀ k, s.loaded = some k → s.live = saved R s.pool s.area k

omit [DecidableEq K] [DecidableEq B] in
theorem Agreed.noLoss (h : Agreed R s) (e : Event K V) : s.NoLoss R e := fun _ _ ho => (h ho).2

structure Room (P : Finset K) (s : State K B V C) : Prop where
  cur : s.cur ∈ P
  holders : s.pool.holders ⊆ P
  card : P.card ≤ s.pool.capacity

theorem Room.access (h : Room P s) : Room P (s.access R) := by
  refine access_cases (fun _ => ?_) fun _ => h
  refine ⟨h.cur, Assignment.acquire_holders_subset h.cur h.holders, ?_⟩
  exact h.card.trans_eq (Assignment.acquire_capacity _ _).symm

theorem Room.step (h : Room P s) (he : e.within P) : Room P (s.step R e) := by
  cases e with
  | read => exact h.access
  | write f => exact ⟨h.access.cur, h.access.holders, h.access.card⟩
  | switch k flush spurious =>
    cases flush with
    | true => exact ⟨he, h.holders, h.card⟩
    | false => exact ⟨he, h.holders, h.card⟩

theorem Room.access_owner (h : Room P s) (ha : Agreed R s) : (s.access R).owner ≠ none := by
  refine access_cases (P := fun s' => s'.owner ≠ none) (fun _ => ?_) fun hidle ho => ?_
  · exact Assignment.acquire_held_of_room h.cur h.holders h.card
  · exact Bool.false_ne_true (hidle.symm.trans (ha ho).1)

/-- A switch that leaves no owner arms the machine. -/
def SwitchArmed (R : Record V C) (s : State K B V C) (e : Event K V) : Prop :=
  ¬ e.isAccess → (s.step R e).owner = none → (s.step R e).armed = true

theorem Agreed.step (h : Agreed R s) (hw : s.Wf) (hroom : Room P s) (harm : SwitchArmed R s e) :
    Agreed R (s.step R e) := by
  cases e with
  | read => exact fun ho => absurd ho (hroom.access_owner h)
  | write f => exact fun ho => absurd ho (hroom.access_owner h)
  | switch k flush spurious =>
    cases flush with
    | true =>
      refine fun ho => ⟨harm id ho, fun j hj => ?_⟩
      change s.live = saved R s.pool (s.flushed R) j
      rw [saved_flushed hw]
      by_cases hown : s.owner = none
      · rw [if_neg fun hc => hc.1 hown]
        exact (h hown).2 j hj
      · exact (if_pos ⟨hown, hj⟩).symm
    | false => exact fun ho => ⟨harm id ho, (h ho).2⟩

theorem Agreed.lossless {es : List (Event K V)} (h : Agreed R s) (hw : s.Wf) (hroom : Room P s)
    (hes : ∀ e ∈ es, e.within P) (harm : Along (State.step R) (SwitchArmed R) s es) :
    Along (State.step R) (NoLoss R) s es := by
  induction es generalizing s with
  | nil => trivial
  | cons e es ih =>
    have hroom' := hroom.step (R := R) (hes e List.mem_cons_self)
    have hes' : ∀ e ∈ es, e.within P := fun e he => hes e (List.mem_cons_of_mem _ he)
    exact ⟨h.noLoss e, ih (h.step hw hroom harm.1) (hw.step e) hroom' hes' harm.2⟩

def Event.isFlush : Event K V → Bool
  | .switch _ flush _ => flush
  | _ => false

/-- Without eager flushes the context has an owner once a key is loaded. -/
def Owned (s : State K B V C) : Prop := s.owner = none → s.loaded = none

theorem Owned.switchArmed (h : Owned s) (he : e.isFlush = false) : SwitchArmed R s e := by
  intro hacc ho
  cases e with
  | read => exact absurd trivial hacc
  | write f => exact absurd trivial hacc
  | switch k flush spurious =>
    obtain rfl : flush = false := he
    have hl : s.loaded = none := h ho
    change (spurious || decide (s.loaded ≠ some k)) = true
    simp [hl]

theorem Owned.along {es : List (Event K V)} (h : Owned s) (ha : Agreed R s) (hw : s.Wf)
    (hroom : Room P s) (hes : ∀ e ∈ es, e.within P) (hflush : ∀ e ∈ es, e.isFlush = false) :
    Along (State.step R) (SwitchArmed R) s es := by
  induction es generalizing s with
  | nil => trivial
  | cons e es ih =>
    have harm := h.switchArmed (R := R) (hflush e List.mem_cons_self)
    have howned : Owned (s.step R e) := by
      cases e with
      | read => exact fun ho => absurd ho (hroom.access_owner ha)
      | write f => exact fun ho => absurd ho (hroom.access_owner ha)
      | switch k flush spurious =>
        obtain rfl : flush = false := hflush _ List.mem_cons_self
        exact h
    exact ⟨harm, ih howned (ha.step hw hroom harm) (hw.step e)
      (hroom.step (hes e List.mem_cons_self))
      (fun e he => hes e (List.mem_cons_of_mem _ he)) fun e he =>
      hflush e (List.mem_cons_of_mem _ he)⟩

/-! ## Two runs that differ in other keys' contexts -/

/-- `s` and `s'` look the same to key `k`, and will as long as `k` writes the same. -/
structure Alike (k : K) (s s' : State K B V C) : Prop where
  pool : s.pool = s'.pool
  owner : s.owner = s'.owner
  loaded : s.loaded = s'.loaded
  cur : s.cur = s'.cur
  armed : s.armed = s'.armed
  area : ∀ b, s.pool.held k = some b ∨ b ∈ s.pool.free → s.area b = s'.area b
  live : s.loaded = some k → s.live = s'.live

/-- The events of the two runs are the same, or are accesses by another key. -/
def Same (k : K) (s _s' : State K B V C) (e e' : Event K V) : Prop :=
  e = e' ∨ s.cur ≠ k ∧ e.isAccess ∧ e'.isAccess

variable {s' : State K B V C} {e' : Event K V}

omit [DecidableEq K] in
theorem Alike.flushed (h : Alike k s s') (hw : s.Wf) :
    ∀ b, s.pool.held k = some b ∨ b ∈ s.pool.free → s.flushed R b = s'.flushed R b := by
  intro b hb
  by_cases ho : s.owner = some b
  · rw [flushed_self ho, flushed_self (h.owner ▸ ho), h.area b hb]
    -- the owner's record is held by the loaded key, so that key is `k`
    obtain ⟨j, hl, hj⟩ := hw.owner b ho
    rcases hb with hb | hb
    · obtain rfl : j = k := s.pool.inj j k b hj hb
      rw [h.live hl]
    · exact absurd hb (s.pool.apart j b hj)
  · rw [flushed_other ho, flushed_other (h.owner ▸ ho), h.area b hb]

theorem Alike.trap (h : Alike k s s') (hw : s.Wf) : Alike k (s.trap R) (s'.trap R) := by
  have hpool : (s.trap R).pool = (s'.trap R).pool := by
    simp only [State.trap, h.pool, h.cur]
  have harea : ∀ b, (s.trap R).pool.held k = some b ∨ b ∈ (s.trap R).pool.free →
      s.flushed R b = s'.flushed R b := by
    intro b hb
    refine h.flushed hw b ?_
    rcases hb with hb | hb
    · exact Assignment.held_or_free_of_acquire hb
    · exact .inr (acquire_free_subset s.cur hb)
  have hcur : s.cur = s'.cur := h.cur
  refine ⟨hpool, ?_, ?_, hcur, rfl, harea, fun hl => ?_⟩
  · simp only [State.trap, h.pool, h.cur]
  · simp only [State.trap, h.cur]
  · obtain rfl : s.cur = k := Option.some.inj hl
    change saved R (s.trap R).pool (s.flushed R) s.cur =
      saved R (s'.trap R).pool (s'.flushed R) s'.cur
    rw [← hpool, ← hcur]
    cases hb : (s.trap R).pool.held s.cur with
    | none => simp only [saved, hb]
    | some b => simp only [saved, hb, harea b (.inl hb)]

theorem Alike.access (h : Alike k s s') (hw : s.Wf) : Alike k (s.access R) (s'.access R) := by
  unfold State.access
  rw [← h.armed]
  split
  · exact h.trap hw
  · exact h

omit [DecidableEq K] in
theorem Alike.flush (h : Alike k s s') (hw : s.Wf) : Alike k (s.flush R) (s'.flush R) :=
  ⟨h.pool, rfl, h.loaded, h.cur, h.armed, h.flushed hw, h.live⟩

omit [DecidableEq B] in
theorem Alike.enter (h : Alike k s s') (j : K) (spurious : Bool) :
    Alike k (s.enter j spurious) (s'.enter j spurious) :=
  ⟨h.pool, h.owner, h.loaded, rfl, by simp only [State.enter, h.loaded], h.area, h.live⟩

omit [DecidableEq K] [DecidableEq B] in
theorem Alike.other (h : Alike k s s') (hl : s.loaded ≠ some k) (v v' : V) :
    Alike k { s with live := v } { s' with live := v' } :=
  ⟨h.pool, h.owner, h.loaded, h.cur, h.armed, h.area, fun hc => absurd hc hl⟩

theorem step_of_access (he : e.isAccess) : ∃ v, s.step R e = { s.access R with live := v } := by
  cases e with
  | read => exact ⟨(s.access R).live, rfl⟩
  | write f => exact ⟨f (s.access R).live, rfl⟩
  | switch k flush spurious => exact he.elim

theorem Alike.step (h : Alike k s s') (hw : s.Wf) (he : Same k s s' e e') :
    Alike k (s.step R e) (s'.step R e') := by
  have haccess := h.access (R := R) hw
  rcases he with rfl | ⟨hk, he, he'⟩
  · cases e with
    | read => exact haccess
    | write f =>
      refine ⟨haccess.pool, haccess.owner, haccess.loaded, haccess.cur, haccess.armed, haccess.area,
        fun hl => ?_⟩
      exact congrArg f (haccess.live hl)
    | switch j flush spurious =>
      cases flush with
      | true => exact (h.flush hw).enter j spurious
      | false => exact h.enter j spurious
  · obtain ⟨v, hv⟩ := step_of_access (R := R) (s := s) he
    obtain ⟨v', hv'⟩ := step_of_access (R := R) (s := s') he'
    have hl : (s.access R).loaded ≠ some k :=
      fun hc => hk (Option.some.inj (hw.access_loaded.symm.trans hc))
    rw [hv, hv']
    exact haccess.other hl v v'

theorem Alike.read (h : Alike k s s') (hw : s.Wf) (hk : s.cur = k) :
    (s.access R).live = (s'.access R).live :=
  (h.access hw).live (hk ▸ hw.access_loaded)

end Nt351.LazyContext
