import Nt351Sse.Base.LazyContext
import Nt351Sse.Driver.Lookups
import Nt351Sse.Driver.Trap

/-! One CPU with the driver loaded. A thread's SSE access traps to `NmHandler` while
CR0.TS is set; a context switch may run `SwapDetour` and then the part of `SwapContext`
that decides TS. Of the kernel's own #NM handler only what the README states is used: it
clears TS, makes the current thread the one whose NPX state is loaded, and leaves XMM and
MXCSR alone. -/

namespace Nt351.Driver
open Memory Probing Runs

inductive Reg
  | xmm (i : Fin 8)
  | mxcsr
deriving DecidableEq

def Reg.Val : Reg → Type
  | xmm _ => Fin 16 → Byte
  | mxcsr => BitVec 32

namespace Sse

def get (s : Sse) : (r : Reg) → r.Val
  | .xmm i => fun j => s.xmm ⟨16 * i + j, by omega⟩
  | .mxcsr => s.mxcsr

def set (s : Sse) : (r : Reg) → r.Val → Sse
  | .xmm i, v => { s with
      xmm := fun j => if j.val / 16 = i then v ⟨j % 16, Nat.mod_lt _ (by decide)⟩ else s.xmm j }
  | .mxcsr, v => { s with mxcsr := v }

theorem get_set_self (s : Sse) (r : Reg) (v : r.Val) : (s.set r v).get r = v := by
  cases r with
  | xmm i =>
    funext j
    have hdiv : (16 * i.val + j.val) / 16 = i := by omega
    have hmod : (16 * i.val + j.val) % 16 = j := by omega
    simp only [get, set, hdiv, hmod, if_true]
  | mxcsr => rfl

theorem get_set_other (s : Sse) {q r : Reg} (v : r.Val) (h : q ≠ r) :
    (s.set r v).get q = s.get q := by
  cases r with
  | xmm i =>
    cases q with
    | xmm k =>
      funext j
      have hdiv : (16 * k.val + j.val) / 16 ≠ i := by
        intro he
        exact h (congrArg Reg.xmm (Fin.ext (by omega)))
      simp only [get, set, hdiv, if_false]
    | mxcsr => rfl
  | mxcsr =>
    cases q with
    | xmm k => rfl
    | mxcsr => exact absurd rfl h

theorem ext_get {s s' : Sse} (h : ∀ r, s.get r = s'.get r) : s = s' := by
  cases s with
  | mk xmm mxcsr =>
    cases s' with
    | mk xmm' mxcsr' =>
      have hm : mxcsr = mxcsr' := h .mxcsr
      have hx : xmm = xmm' := by
        funext j
        have hj := congrFun (h (.xmm ⟨j / 16, by omega⟩)) ⟨j % 16, by omega⟩
        have hje : (⟨16 * (j / 16) + j % 16, by omega⟩ : Fin 128) = j :=
          Fin.ext (Nat.div_add_mod _ _)
        simpa only [get, hje] using hj
      rw [hm, hx]

end Sse

/-! ## The machine -/

structure Cpu where
  trap : Trap
  cur : Thread
  -- the thread whose NPX state is loaded
  npx : Option Thread

inductive Event
  | read (r : Reg)
  | write (r : Reg) (v : r.Val)
  -- `detour`: does `SwapDetour` run; `spurious`: is TS set where it could be left clear
  | switch (t : Thread) (detour spurious : Bool)

namespace Cpu

/-- CR0.TS -/
def ts (s : Cpu) : Bool := s.trap.cr0.getLsbD 3

def setTs (on : Bool) (cr0 : BitVec 32) : BitVec 32 := if on then cr0 ||| 8#32 else cr0 &&& ~~~8#32

theorem setTs_ts (on : Bool) (cr0 : BitVec 32) : (setTs on cr0).getLsbD 3 = on := by
  cases on with
  | true => simp [setTs]
  | false => simp [setTs]

/-- The kernel's own handler, entered past its prologue. What it loads into the x87
registers is up to the kernel. -/
def kernelNm (kernelX87 : Cpu → X87) (s : Cpu) : Cpu :=
  { s with
    trap :=
      { s.trap with cr0 := setTs false s.trap.cr0, fx := { s.trap.fx with x87 := kernelX87 s } }
    npx := some s.cur }

variable (kernelX87 : Cpu → X87)

/-- What comes before an SSE instruction completes. -/
def access (s : Cpu) : Cpu :=
  if s.ts then kernelNm kernelX87 { s with trap := nmHandler s.cur s.trap } else s

/-- `SwapContext`: the incoming thread runs with TS clear only if its NPX state is loaded. -/
def swapContext (t : Thread) (spurious : Bool) (s : Cpu) : Cpu :=
  { s with
    trap := { s.trap with cr0 := setTs (spurious || decide (s.npx ≠ some t)) s.trap.cr0 }
    cur := t }

def observe (s : Cpu) (r : Reg) : r.Val := (s.access kernelX87).trap.fx.sse.get r

def withSse (f : Sse → Sse) (s : Cpu) : Cpu :=
  { s with trap := { s.trap with fx := { s.trap.fx with sse := f s.trap.fx.sse } } }

def step (s : Cpu) : Event → Cpu
  | .read _ => s.access kernelX87
  | .write r v => (s.access kernelX87).withSse fun sse => sse.set r v
  | .switch t true spurious => swapContext t spurious { s with trap := swapDetour s.trap }
  | .switch t false spurious => swapContext t spurious s

end Cpu

/-! ## Areas as records -/

def contents (m : Mem) (p : Addr) : Fin sseSaveSize → Byte := fun j => m (off p j)

def asMem (c : Fin sseSaveSize → Byte) : Mem :=
  fun a => if h : a.toNat < sseSaveSize then c ⟨a.toNat, h⟩ else 0

theorem asMem_contents {m : Mem} {p : Addr} {j : ℕ} (hj : j < sseSaveSize) :
    asMem (contents m p) (off 0 j) = m (off p j) := by
  have hlt : (0 : Addr).toNat + j < 2 ^ 32 := by
    simp only [sseSaveSize] at hj
    change 0 + j < 2 ^ 32
    omega
  have hs : (off 0 j).toNat = j := (off_toNat hlt).trans (Nat.zero_add j)
  simp only [asMem, contents, hs, hj, dif_pos]

theorem sseAt_asMem (L : SseLayout) (m : Mem) (p : Addr) :
    sseAt L (asMem (contents m p)) 0 = sseAt L m p :=
  sseAt_congr fun _ hj => asMem_contents hj

theorem contents_storeSse (L : SseLayout) (v : Sse) (m : Mem) (p : Addr) :
    contents (storeSse L p v m) p = contents (storeSse L 0 v (asMem (contents m p))) 0 := by
  funext j
  simp only [contents, storeSse_byte j.isLt, asMem_contents j.isLt]

def saveRecord : LazyContext.Record Sse (Fin sseSaveSize → Byte) where
  get c := sseAt saveLayout (asMem c) 0
  put v c := contents (storeSse saveLayout 0 v (asMem c)) 0
  get_put v c := by rw [sseAt_asMem, sseAt_storeSse]
  default := .default

end Nt351.Driver
