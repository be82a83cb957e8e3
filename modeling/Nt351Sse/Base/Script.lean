import Nt351Sse.Base.Python

/-! Scripts that read and write files and print, and may raise an exception. A `Contract`
says what holds after a script that returns, and that one that raises left the files as
they were. -/

namespace Nt351.Python

structure World where
  files : Str → Option Bytes
  printed : List Str

abbrev Script := ExceptT Error (StateM World)

instance : MonadLift (Except Error) Script := ⟨fun x => ExceptT.mk (pure x)⟩

namespace Script

variable {α β : Type} {m : Script α} {f : α → Script β} {w : World} {a : α} {b : β}

def exec (m : Script α) (w : World) : Except Error α × World := StateT.run (ExceptT.run m) w

def readFile (path : Str) : Script Bytes := do
  match (← get).files path with
  | none => throw .os
  | some data => pure data

def writeFile (path : Str) (data : Bytes) : Script Unit :=
  modify fun w => { w with files := Function.update w.files path (some data) }

/-- `if c: raise e` -/
def raiseIf (c : Prop) [Decidable c] (e : Error) : Script Unit := if c then throw e else pure ()

def print (line : Str) : Script Unit := modify fun w => { w with printed := w.printed ++ [line] }

theorem exec_bind_ok {w' : World} (h : m.exec w = (.ok a, w')) :
    (m >>= f).exec w = (f a).exec w' := by
  show (ExceptT.bindCont f (m.exec w).1).run (m.exec w).2 = _
  rw [h]
  rfl

theorem exec_bind_error {e : Error} {w' : World} (h : m.exec w = (.error e, w')) :
    (m >>= f).exec w = (.error e, w') := by
  show (ExceptT.bindCont f (m.exec w).1).run (m.exec w).2 = _
  rw [h]
  rfl

theorem exec_lift_bind {x : Except Error α} (h : x = .ok a) :
    (liftM x >>= f).exec w = (f a).exec w := exec_bind_ok (h ▸ rfl)

theorem exec_raiseIf {c : Prop} [Decidable c] {e : Error} (h : ¬c) :
    (raiseIf c e).exec w = (.ok (), w) := by
  rw [raiseIf, if_neg h]
  rfl

theorem exec_readFile {path : Str} {data : Bytes} (h : w.files path = some data) :
    (readFile path).exec w = (.ok data, w) := by
  show exec (match w.files path with
    | none => throw .os
    | some data => pure data) w = _
  rw [h]
  rfl

theorem exec_readFile_none {path : Str} (h : w.files path = none) :
    (readFile path).exec w = (.error .os, w) := by
  show exec (match w.files path with
    | none => throw .os
    | some data => pure data) w = _
  rw [h]
  rfl

theorem exec_print (line : Str) :
    (print line).exec w = (.ok (), { w with printed := w.printed ++ [line] }) := rfl

theorem exec_writeFile (path : Str) (data : Bytes) : (writeFile path data).exec w =
    (.ok (), { w with files := Function.update w.files path (some data) }) := rfl

/-- Run from `w`, a script that returns leaves `post`, and one that raises leaves `files`. -/
def Contract (m : Script α) (w : World) (files : Str → Option Bytes)
    (post : α → World → Prop) : Prop :=
  match m.exec w with
  | (.ok a, w') => post a w'
  | (.error _, w') => w'.files = files

namespace Contract

variable {files : Str → Option Bytes} {post : β → World → Prop}

theorem of_exec {m' : Script β} {w' : World} {m : Script β} (h : m.exec w = m'.exec w')
    (hc : Contract m' w' files post) : Contract m w files post := by
  rw [Contract, h]
  exact hc

theorem of_error {m : Script β} {e : Error} (h : m.exec w = (.error e, w))
    (hfiles : w.files = files) : Contract m w files post := by
  rw [Contract, h]
  exact hfiles

/-! One rule for each step that a script may begin with. -/

theorem lift {x : Except Error α} (hfiles : w.files = files)
    (h : ∀ a, x = .ok a → Contract (f a) w files post) :
    Contract (liftM x >>= f) w files post := by
  cases x with
  | ok a => exact of_exec (exec_lift_bind rfl) (h a rfl)
  | error e => exact of_error (exec_bind_error rfl) hfiles

theorem raiseIf {c : Prop} [Decidable c] {e : Error} {f : Unit → Script β}
    (hfiles : w.files = files) (h : ¬c → Contract (f ()) w files post) :
    Contract (raiseIf c e >>= f) w files post := by
  by_cases hc : c
  · have hrun : (Script.raiseIf c e).exec w = (.error e, w) := by
      rw [Script.raiseIf, if_pos hc]
      rfl
    exact of_error (exec_bind_error hrun) hfiles
  · exact of_exec (exec_bind_ok (exec_raiseIf hc)) (h hc)

theorem readFile {path : Str} {f : Bytes → Script β} (hfiles : w.files = files)
    (h : ∀ data, w.files path = some data → Contract (f data) w files post) :
    Contract (readFile path >>= f) w files post := by
  cases hdata : w.files path with
  | none => exact of_error (exec_bind_error (exec_readFile_none hdata)) hfiles
  | some data => exact of_exec (exec_bind_ok (exec_readFile hdata)) (h data hdata)

theorem print {line : Str} {f : Unit → Script β}
    (h : Contract (f ()) { w with printed := w.printed ++ [line] } files post) :
    Contract (print line >>= f) w files post := of_exec (exec_bind_ok (exec_print line)) h

end Contract

end Script

end Nt351.Python
