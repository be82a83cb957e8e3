import Nt351Sse.Base.Memory

/-! A part of the 32-bit x86 for ring-0 code with flat segments: the general registers,
EFLAGS, CR0, the segment registers, byte memory and an FPU that is only saved and restored.
A routine is a list of instructions with labels; it jumps forwards and ends in a jump
through memory. Interrupts, faults and debug traps are left out. -/

namespace Nt351.X86
open Memory

/-! ## EFLAGS -/

/-- VM, RF, VIF and VIP, which `popfd` does not load, are clear in ring-0 code. -/
structure Eflags where
  cf : Bool
  pf : Bool
  af : Bool
  zf : Bool
  sf : Bool
  tf : Bool
  intr : Bool
  df : Bool
  of : Bool
  iopl : BitVec 2
  nt : Bool
  ac : Bool
  id : Bool
deriving DecidableEq

namespace Eflags

def bit (b : Bool) (i : ℕ) : BitVec 32 := if b then BitVec.twoPow 32 i else 0

/-- What `pushfd` stores. -/
def image (f : Eflags) : BitVec 32 :=
  2#32 ||| bit f.cf 0 ||| bit f.pf 2 ||| bit f.af 4 ||| bit f.zf 6 ||| bit f.sf 7 ||| bit f.tf 8 |||
    bit f.intr 9 |||
    bit f.df 10 ||| bit f.of 11 ||| f.iopl.setWidth 32 <<< 12 ||| bit f.nt 14 ||| bit f.ac 18 |||
    bit f.id 21

/-- What `popfd` loads. -/
def ofImage (v : BitVec 32) : Eflags where
  cf := v.getLsbD 0
  pf := v.getLsbD 2
  af := v.getLsbD 4
  zf := v.getLsbD 6
  sf := v.getLsbD 7
  tf := v.getLsbD 8
  intr := v.getLsbD 9
  df := v.getLsbD 10
  of := v.getLsbD 11
  iopl := v.extractLsb' 12 2
  nt := v.getLsbD 14
  ac := v.getLsbD 18
  id := v.getLsbD 21

theorem getElem_bit (b : Bool) (i j : ℕ) (hj : j < 32) : (bit b i)[j] = (b && decide (i = j)) := by
  cases b with
  | false => simp [bit]
  | true => simp [bit, BitVec.getElem_twoPow, eq_comm]

theorem ofImage_image (f : Eflags) : ofImage f.image = f := by
  have hiopl : f.image.extractLsb' 12 2 = f.iopl := by
    apply BitVec.eq_of_getLsbD_eq
    intro i hi
    interval_cases i <;> simp [image, getElem_bit]
  cases f
  simp only [ofImage, hiopl, mk.injEq, true_and]
  simp [image, getElem_bit]

/-- The flags set by a result; PF is the parity of its low byte. -/
def ofResult (r : BitVec 32) (f : Eflags) : Eflags :=
  { f with
    zf := decide (r = 0)
    sf := r.msb
    pf := ((List.range 8).countP fun i => r.getLsbD i) % 2 == 0 }

/-- `and`, `or` and `xor`; AF is undefined after them. -/
def logic (r : BitVec 32) (f : Eflags) : Eflags := { ofResult r f with cf := false, of := false }

def add (a b : BitVec 32) (f : Eflags) : Eflags :=
  { ofResult (a + b) f with
    cf := decide (2 ^ 32 ≤ a.toNat + b.toNat)
    af := decide (16 ≤ a.toNat % 16 + b.toNat % 16)
    of := a.saddOverflow b }

def sub (a b : BitVec 32) (f : Eflags) : Eflags :=
  { ofResult (a - b) f with
    cf := decide (a.toNat < b.toNat)
    af := decide (a.toNat % 16 < b.toNat % 16)
    of := a.ssubOverflow b }

/-- `inc` leaves CF alone. -/
def inc (a : BitVec 32) (f : Eflags) : Eflags := { add a 1 f with cf := f.cf }

end Eflags

/-! ## The state -/

inductive Gpr
  | eax | ecx | edx | ebx | esp | ebp | esi | edi
deriving DecidableEq

inductive Sreg
  | cs | ss | ds | es | fs | gs
deriving DecidableEq

structure State (φ : Type) where
  reg : Gpr → BitVec 32
  seg : Sreg → BitVec 16
  flags : Eflags
  cr0 : BitVec 32
  fpu : φ
  mem : Mem

/-- What the instructions take from outside: `fxsave` and `fxrstor`, the base a selector in
FS stands for, the routines that are called, and a return address. -/
structure Machine (φ F : Type) where
  fxsave : Addr → φ → Mem → Mem
  fxrstor : Addr → Mem → φ → φ
  fsBase : BitVec 16 → Addr
  callee : F → State φ → State φ
  ret : Addr

/-- `[base + disp]` -/
structure Ref where
  base : Option Gpr
  disp : BitVec 32

/-- The address of a variable. -/
def Ref.var (a : Addr) : Ref := ⟨none, a⟩

def Ref.field (r : Gpr) (i : ℕ) : Ref := ⟨some r, BitVec.ofNat 32 i⟩

/-- `rep movsb` with DF set: downwards. -/
def movsbDown (s d : Addr) (m : Mem) : ℕ → Mem
  | 0 => m
  | n + 1 => Function.update (movsbDown s d m n) (d - BitVec.ofNat 32 n)
    (movsbDown s d m n (s - BitVec.ofNat 32 n))

/-- `rep stosb` with DF set: downwards. -/
def stosbDown (d : Addr) (v : Byte) (m : Mem) : ℕ → Mem
  | 0 => m
  | n + 1 => Function.update (stosbDown d v m n) (d - BitVec.ofNat 32 n) v

/-! ## Instructions -/

inductive Op
  | push (r : Gpr) | pushImm (v : BitVec 32) | pushSeg (r : Sreg) | pop (r : Gpr)
  | pushfd | popfd | pushad | popad
  | mov (d s : Gpr) | movImm (d : Gpr) (v : BitVec 32) | movImm16 (d : Gpr) (v : BitVec 16)
  | load (d : Gpr) (a : Ref) | loadFs (d : Gpr) (disp : BitVec 32)
  | store (a : Ref) (s : Gpr) | storeImm (a : Ref) (v : BitVec 32)
  | storeImm16 (a : Ref) (v : BitVec 16)
  | movSeg (d : Sreg) (s : Gpr) | movFromCr0 (d : Gpr) | movToCr0 (s : Gpr)
  | and (d : Gpr) (v : BitVec 32) | or (d s : Gpr) | xor (d s : Gpr) | add (d : Gpr) (v : BitVec 32)
  | sub (d : Gpr) (v : BitVec 32)
  | incMem (a : Ref)
  | cli | cld | repMovsb | repStosb
  | fxsave (a : Gpr) | fxrstor (a : Gpr)

/-- A variable is loaded and tested for zero. -/
def testVar (r : Gpr) (p : Addr) : List Op := [.load r (.var p), .or r r]

/-- `push r`, `push r'`, `ops`, `pop r'`, `pop r`. -/
def around (r r' : Gpr) (ops : List Op) : List Op :=
  .push r :: .push r' :: (ops.concat (.pop r')).concat (.pop r)

inductive Instr (L F : Type)
  | op (o : Op)
  | call (f : F)
  | label (l : L) | jz (l : L) | jmp (l : L)
  | jmpMem (a : Ref)

namespace State

variable {φ : Type}

def setReg (r : Gpr) (v : BitVec 32) (s : State φ) : State φ :=
  { s with reg := Function.update s.reg r v }

def setFlags (f : Eflags) (s : State φ) : State φ := { s with flags := f }

def setMem (m : Mem) (s : State φ) : State φ := { s with mem := m }

def addr (s : State φ) (a : Ref) : Addr :=
  match a.base with
  | none => a.disp
  | some r => s.reg r + a.disp

def push (v : BitVec 32) (s : State φ) : State φ :=
  (s.setReg .esp (s.reg .esp - 4)).setMem (writeDword (s.reg .esp - 4) v s.mem)

/-- The dword on top of the stack. -/
def top (s : State φ) : BitVec 32 := readDword s.mem (s.reg .esp)

def drop (s : State φ) : State φ := s.setReg .esp (s.reg .esp + 4)

def pop (r : Gpr) (s : State φ) : State φ := s.drop.setReg r s.top

/-- The ESP stored is the one before the first push. -/
def pushad (s : State φ) : State φ :=
  [s.reg .eax, s.reg .ecx, s.reg .edx, s.reg .ebx, s.reg .esp, s.reg .ebp, s.reg .esi,
    s.reg .edi].foldl (fun s v => s.push v) s

def popad (s : State φ) : State φ :=
  ((((((((s.pop .edi).pop .esi).pop .ebp).drop).pop .ebx).pop .edx).pop .ecx).pop .eax)

end State

/-- Bits 0 to 15 of `v` are replaced. -/
def setLow16 (v : BitVec 32) (w : BitVec 16) : BitVec 32 := v &&& 0xffff0000 ||| w.setWidth 32

def writeWord (p : Addr) (v : BitVec 16) (m : Mem) : Mem :=
  Function.update (Function.update m p (v.setWidth 8)) (off p 1) ((v >>> 8).setWidth 8)

variable {φ L F : Type}

def step (M : Machine φ F) (s : State φ) : Op → State φ
  | .push r => s.push (s.reg r)
  | .pushImm v => s.push v
  | .pushSeg r => s.push ((s.seg r).setWidth 32)
  | .pop r => s.pop r
  | .pushfd => s.push s.flags.image
  | .popfd => s.drop.setFlags (.ofImage s.top)
  | .pushad => s.pushad
  | .popad => s.popad
  | .mov d r => s.setReg d (s.reg r)
  | .movImm d v => s.setReg d v
  | .movImm16 d v => s.setReg d (setLow16 (s.reg d) v)
  | .load d a => s.setReg d (readDword s.mem (s.addr a))
  | .loadFs d disp => s.setReg d (readDword s.mem (M.fsBase (s.seg .fs) + disp))
  | .store a r => s.setMem (writeDword (s.addr a) (s.reg r) s.mem)
  | .storeImm a v => s.setMem (writeDword (s.addr a) v s.mem)
  | .storeImm16 a v => s.setMem (writeWord (s.addr a) v s.mem)
  | .movSeg d r => { s with seg := Function.update s.seg d ((s.reg r).setWidth 16) }
  | .movFromCr0 d => s.setReg d s.cr0
  | .movToCr0 r => { s with cr0 := s.reg r }
  | .and d v => (s.setReg d (s.reg d &&& v)).setFlags (s.flags.logic (s.reg d &&& v))
  | .or d r => (s.setReg d (s.reg d ||| s.reg r)).setFlags (s.flags.logic (s.reg d ||| s.reg r))
  | .xor d r => (s.setReg d (s.reg d ^^^ s.reg r)).setFlags (s.flags.logic (s.reg d ^^^ s.reg r))
  | .add d v => (s.setReg d (s.reg d + v)).setFlags (s.flags.add (s.reg d) v)
  | .sub d v => (s.setReg d (s.reg d - v)).setFlags (s.flags.sub (s.reg d) v)
  | .incMem a => (s.setMem (writeDword (s.addr a) (readDword s.mem (s.addr a) + 1) s.mem)).setFlags
      (s.flags.inc (readDword s.mem (s.addr a)))
  | .cli => s.setFlags { s.flags with intr := false }
  | .cld => s.setFlags { s.flags with df := false }
  | .repMovsb =>
    let n := (s.reg .ecx).toNat
    if s.flags.df then
      (((s.setMem (movsbDown (s.reg .esi) (s.reg .edi) s.mem n)).setReg .esi
        (s.reg .esi - s.reg .ecx)).setReg .edi
        (s.reg .edi - s.reg .ecx)).setReg .ecx 0
    else
      (((s.setMem (movsb (s.reg .esi) (s.reg .edi) s.mem n)).setReg .esi
        (s.reg .esi + s.reg .ecx)).setReg .edi
        (s.reg .edi + s.reg .ecx)).setReg .ecx 0
  | .repStosb =>
    let n := (s.reg .ecx).toNat
    let al : Byte := (s.reg .eax).setWidth 8
    if s.flags.df then
      ((s.setMem (stosbDown (s.reg .edi) al s.mem n)).setReg .edi
        (s.reg .edi - s.reg .ecx)).setReg .ecx 0
    else
      ((s.setMem (stosb (s.reg .edi) al s.mem n)).setReg .edi (s.reg .edi + s.reg .ecx)).setReg .ecx
        0
  | .fxsave a => s.setMem (M.fxsave (s.reg a) s.fpu s.mem)
  | .fxrstor a => { s with fpu := M.fxrstor (s.reg a) s.mem s.fpu }

def steps (M : Machine φ F) (s : State φ) (ops : List Op) : State φ := ops.foldl (step M) s

/-- What comes after label `l`. -/
def after [DecidableEq L] (l : L) : List (Instr L F) → List (Instr L F)
  | [] => []
  | .label l' :: c => if l = l' then c else after l c
  | _ :: c => after l c

theorem after_length [DecidableEq L] (l : L) (c : List (Instr L F)) :
    (after l c).length ≤ c.length := by
  induction c with
  | nil => exact le_rfl
  | cons i c ih =>
    rw [List.length_cons]
    unfold after
    split
    · exact Nat.zero_le _
    · next heq =>
      cases heq
      split
      · exact Nat.le_succ _
      · exact ih.trans (Nat.le_succ _)
    · next heq =>
      cases heq
      exact ih.trans (Nat.le_succ _)

/-- The state at the jump through memory, `none` if the code does not get there. -/
def run [DecidableEq L] (M : Machine φ F) : List (Instr L F) → State φ → Option (State φ)
  | [], _ => none
  | .op o :: c, s => run M c (step M s o)
  | .call f :: c, s => run M c (M.callee f (s.push M.ret))
  | .label _ :: c, s => run M c s
  | .jz l :: c, s => if s.flags.zf then run M (after l c) s else run M c s
  | .jmp l :: c, s => run M (after l c) s
  | .jmpMem _ :: _, s => some s
termination_by c => c.length
decreasing_by
  all_goals
    try have := after_length l c
    simp only [List.length_cons]
    omega

end Nt351.X86
