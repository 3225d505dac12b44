import LeonOS.Interp.Steps
import LeonOS.Lib.Post
import LeonOS.Lib.TwoRuns

/-!
# What an instruction leaves alone

Nothing but a system call gets out of the interpreted program: every other arm of `exec_one` works
on registers and guest memory.  So a property of computations that is closed under such work
(`Closed`) and that a system call has is one of every instruction (`closed_execOne`) and of the
whole step loop (`closed_runSteps`).

Two properties are: to keep what a system call keeps of the rest, whether the program returns or
fails (`execOne_keeps`, `runSteps_keeps`), and to do the same from two states that are the same to
the system calls (`execOne_agrees`).
-/

set_option autoImplicit false

namespace LeonOS

open Bytes RustM X86

variable {ω : Type} {syscall : Interp ω Bool} {base : U64} {c : Prop} [Decidable c]

/-- **Closed under work on the program**: registers and memory may be read and changed. -/
structure Closed (P : ∀ {α : Type}, Interp ω α → Prop) : Prop where
  /-- A value. -/
  ret {α : Type} (a : α) : P (pure a)
  /-- An error. -/
  fail {α : Type} (e : Fault RunError) : P (throw e : Interp ω α)
  /-- One thing after another. -/
  seq {α β : Type} {x : Interp ω α} {f : α → Interp ω β} (hx : P x) (hf : ∀ a, P (f a)) :
    P (x >>= f)
  /-- The registers are read. -/
  cpu : P (getCpu : Interp ω Cpu)
  /-- They are changed. -/
  setCpu (f : Cpu → Cpu) : P (modifyCpu f : Interp ω Unit)
  /-- Memory is read. -/
  read {α : Type} (f : List U8 → Rust RunError α) : P (reading f : Interp ω α)
  /-- It is changed. -/
  write (f : List U8 → Rust RunError (List U8)) : P (writing f : Interp ω Unit)

variable {P : ∀ {α : Type}, Interp ω α → Prop} (h : Closed P)

include h

/-! ## Small steps -/

theorem closed_lift {α : Type} (x : Rust RunError α) : P (lift x : Interp ω α) := by
  cases x with
  | ok a => exact h.ret a
  | error e => exact h.fail e

theorem closed_map {α β : Type} {x : Interp ω α} {f : α → β} (hx : P x) : P (f <$> x) := by
  rw [← bind_pure_comp]
  exact h.seq hx fun a ↦ h.ret (f a)

omit h in
theorem closed_ite {α : Type} {x y : Interp ω α} (hx : P x) (hy : P y) :
    P (if c then x else y) := by
  split
  · exact hx
  · exact hy

theorem closed_ripPlus (n : ℕ) : P (ripPlus n : Interp ω U64) :=
  h.seq h.cpu fun _ ↦ closed_lift h _

theorem closed_ripAdd (n : ℕ) : P (ripAdd n : Interp ω Unit) :=
  h.seq h.cpu fun _ ↦ h.seq (closed_lift h _) fun _ ↦ h.setCpu _

theorem closed_next (n : ℕ) : P (next n : Interp ω Bool) :=
  h.seq (closed_ripAdd h n) fun _ ↦ h.ret false

theorem closed_assign (dst : Reg) (v : U64) (n : ℕ) : P (assign dst v n : Interp ω Bool) :=
  h.seq (h.setCpu _) fun _ ↦ closed_next h n

theorem closed_pushU64 (v : U64) : P (pushU64 base v : Interp ω Unit) :=
  h.seq h.cpu fun _ ↦ h.seq (closed_lift h _) fun _ ↦ h.seq (h.write _) fun _ ↦ h.setCpu _

theorem closed_popU64 : P (popU64 base : Interp ω U64) :=
  h.seq h.cpu fun _ ↦ h.seq (h.read _) fun v ↦ h.seq (closed_lift h _) fun _ ↦
    h.seq (h.setCpu _) fun _ ↦ h.ret v

theorem closed_jump (nextRip rel : U64) : P (jump nextRip rel : Interp ω Bool) :=
  h.seq (closed_lift h _) fun _ ↦ h.seq (h.setCpu _) fun _ ↦ h.ret false

/-! ## Arms -/

theorem closed_arm {body : Interp ω Bool} (hbody : P body) : P (arm c body) :=
  closed_ite (closed_map h hbody) (h.ret none)

theorem closed_setArm (dst : Reg) (value : Cpu → U64) (n : ℕ) :
    P (setArm c dst value n : Interp ω (Option Bool)) :=
  closed_arm h (h.seq h.cpu fun _ ↦ closed_assign h _ _ _)

theorem closed_pushArm (src : Reg) (n : ℕ) : P (pushArm base c src n : Interp ω (Option Bool)) :=
  closed_arm h (h.seq h.cpu fun _ ↦ h.seq (closed_pushU64 h _) fun _ ↦ closed_next h n)

theorem closed_popArm (dst : Reg) (n : ℕ) : P (popArm base c dst n : Interp ω (Option Bool)) :=
  closed_arm h (h.seq (closed_popU64 h) fun _ ↦ closed_assign h _ _ _)

theorem closed_loadArm (dst : Reg) (addr : Cpu → U64) (n : ℕ) :
    P (loadArm base c dst addr n : Interp ω (Option Bool)) :=
  closed_arm h (h.seq h.cpu fun _ ↦ h.seq (h.read _) fun _ ↦ closed_assign h _ _ _)

theorem closed_movImmArm (dst : Reg) : P (movImmArm base c dst : Interp ω (Option Bool)) :=
  closed_arm h (h.seq (closed_ripPlus h 3) fun _ ↦ h.seq (h.read _) fun _ ↦
    closed_assign h _ _ _)

theorem closed_leaRipArm (dst : Reg) : P (leaRipArm base c dst : Interp ω (Option Bool)) :=
  closed_arm h (h.seq (closed_ripPlus h 3) fun _ ↦ h.seq (h.read _) fun _ ↦
    h.seq (closed_ripPlus h 7) fun _ ↦ h.seq (closed_lift h _) fun _ ↦
      h.seq (h.setCpu _) fun _ ↦ h.ret false)

theorem closed_testArm (r : Reg) : P (testArm c r : Interp ω (Option Bool)) :=
  closed_arm h (h.seq (h.setCpu _) fun _ ↦ closed_next h 3)

theorem closed_group1Arm (modrm : U8) (imm : U64) (n : ℕ) :
    P (group1Arm modrm imm n : Interp ω (Option Bool)) := by
  rw [group1Arm]
  refine h.seq h.cpu fun cpu ↦ ?_
  split
  · exact h.seq (h.setCpu _) fun _ ↦ closed_map h (closed_next h n)
  · exact h.ret none

theorem closed_movLoadArm (b : Vector U8 8) : P (movLoadArm base b : Interp ω (Option Bool)) := by
  rw [movLoadArm]
  refine closed_ite (h.seq h.cpu fun cpu ↦ ?_) (h.ret none)
  split
  · exact h.seq (closed_lift h _) fun _ ↦ h.seq (h.read _) fun _ ↦
      h.seq (h.setCpu _) fun _ ↦ closed_map h (closed_next h _)
  · exact h.ret none

theorem closed_leaArm (rex : U8) (put : Cpu → U8 → U64 → Cpu) (b : Vector U8 8) :
    P (leaArm rex put b : Interp ω (Option Bool)) :=
  closed_arm h (h.seq h.cpu fun _ ↦ h.seq (closed_lift h _) fun _ ↦
    h.seq (h.setCpu _) fun _ ↦ closed_next h 4)

/-- The end of the arms that store a double word. -/
theorem closed_storeImm (addr : U64) (p n : ℕ) : P (do
    let va ← ripPlus p
    let imm ← reading fun mem ↦ readU32 base mem va
    writing fun mem ↦ writeU32 base mem addr imm
    next n : Interp ω Bool) :=
  h.seq (closed_ripPlus h p) fun _ ↦ h.seq (h.read _) fun _ ↦ h.seq (h.write _) fun _ ↦
    closed_next h n

theorem closed_aluImm8Arm (b : Vector U8 8) : P (aluImm8Arm b : Interp ω (Option Bool)) :=
  closed_ite (closed_group1Arm h _ _ 4) (h.ret none)

theorem closed_aluImm32Arm (b : Vector U8 8) :
    P (aluImm32Arm base b : Interp ω (Option Bool)) :=
  closed_ite (h.seq (closed_ripPlus h 3) fun _ ↦ h.seq (h.read _) fun _ ↦
    closed_group1Arm h _ _ 7) (h.ret none)

theorem closed_movHighArm (b : Vector U8 8) : P (movHighArm base b : Interp ω (Option Bool)) :=
  closed_arm h (h.seq (closed_ripPlus h 2) fun _ ↦ h.seq (h.read _) fun _ ↦
    h.seq (h.setCpu _) fun _ ↦ closed_next h 6)

theorem closed_movLowArm (b : Vector U8 8) : P (movLowArm base b : Interp ω (Option Bool)) :=
  closed_arm h (h.seq (closed_ripPlus h 1) fun _ ↦ h.seq (h.read _) fun _ ↦
    h.seq (h.setCpu _) fun _ ↦ closed_next h 5)

theorem closed_storeImmArm (b : Vector U8 8) :
    P (storeImmArm base b : Interp ω (Option Bool)) :=
  closed_arm h (h.seq h.cpu fun _ ↦ h.seq (closed_lift h _) fun _ ↦ closed_storeImm h _ 3 7)

theorem closed_storeImmSpArm (b : Vector U8 8) :
    P (storeImmSpArm base b : Interp ω (Option Bool)) :=
  closed_arm h (h.seq h.cpu fun _ ↦ h.seq (closed_lift h _) fun _ ↦ closed_storeImm h _ 4 8)

theorem closed_jmpArm (b : Vector U8 8) : P (jmpArm base b : Interp ω (Option Bool)) :=
  closed_arm h (h.seq (closed_ripPlus h 1) fun _ ↦ h.seq (h.read _) fun _ ↦
    h.seq (closed_ripPlus h 5) fun _ ↦ closed_jump h _ _)

theorem closed_jmpShortArm (b : Vector U8 8) : P (jmpShortArm b : Interp ω (Option Bool)) :=
  closed_arm h (h.seq (closed_ripPlus h 2) fun _ ↦ closed_jump h _ _)

theorem closed_callRel32 : P (callRel32 base : Interp ω Bool) :=
  h.seq (closed_ripPlus h 1) fun _ ↦ h.seq (h.read _) fun _ ↦ h.seq (closed_ripPlus h 5) fun _ ↦
    h.seq (closed_pushU64 h _) fun _ ↦ closed_jump h _ _

theorem closed_jeArm (b : Vector U8 8) : P (jeArm b : Interp ω (Option Bool)) :=
  closed_arm h (h.seq (closed_ripPlus h 2) fun _ ↦ h.seq h.cpu fun _ ↦
    closed_ite (closed_jump h _ _) (h.seq (h.setCpu _) fun _ ↦ h.ret false))

theorem closed_callPtr : P (callPtr base : Interp ω Bool) := by
  have hcall : ∀ nextRip target : U64, P (do
      pushU64 base nextRip
      modifyCpu ({ · with rip := target })
      return false : Interp ω Bool) := fun _ _ ↦
    h.seq (closed_pushU64 h _) fun _ ↦ h.seq (h.setCpu _) fun _ ↦ h.ret false
  rw [callPtr]
  refine h.seq (closed_ripPlus h 2) fun _ ↦ h.seq (h.read _) fun _ ↦
    h.seq (closed_ripPlus h 6) fun _ ↦ h.seq (closed_lift h _) fun _ ↦ h.seq (h.read _) fun _ ↦
    h.seq h.cpu fun _ ↦ h.seq (h.read _) fun _ ↦ closed_ite ?_ (hcall _ _)
  refine h.seq (h.read _) fun _ ↦ closed_ite ?_ (hcall _ _)
  exact h.seq (h.setCpu _) fun _ ↦ h.ret false

/-! ## Instructions -/

theorem closed_arms (hsys : P syscall) (b : Vector U8 8) : ∀ a ∈ arms syscall base b, P a := by
  simp only [arms, movArm, zeroArm, List.forall_mem_cons, closed_setArm h, closed_pushArm h,
    closed_popArm h, closed_loadArm h, closed_movImmArm h, closed_leaRipArm h, closed_testArm h,
    closed_movLoadArm h, closed_leaArm h, closed_aluImm8Arm h, closed_aluImm32Arm h,
    closed_movHighArm h, closed_movLowArm h, closed_storeImmArm h, closed_storeImmSpArm h,
    closed_jmpArm h, closed_jmpShortArm h, closed_jeArm h,
    List.not_mem_nil, false_imp_iff, implies_true, true_and, and_true]
  -- what is left are the arms that the chain has in full
  refine ⟨closed_arm h (closed_next h 4), closed_arm h (closed_next h 1),
    closed_arm h (h.ret true), ?_, ?_, ?_,
    closed_arm h (h.seq (h.setCpu _) fun _ ↦ closed_next h 2), ?_,
    closed_arm h (closed_callRel32 h), closed_arm h (closed_callPtr h)⟩
  · exact closed_arm h (h.seq h.cpu fun _ ↦ h.seq (h.write _) fun _ ↦ closed_next h 5)
  · exact closed_arm h (h.seq h.cpu fun _ ↦ h.seq (closed_lift h _) fun _ ↦
      closed_assign h _ _ _)
  · exact closed_arm h (h.seq h.cpu fun _ ↦ h.seq (h.read _) fun _ ↦
      h.seq (h.setCpu _) fun _ ↦ closed_next h 5)
  · exact closed_arm h (h.seq hsys fun exit ↦ h.seq (closed_ripAdd h 2) fun _ ↦ h.ret exit)

theorem closed_firstArm {α : Type} {as : List (Interp ω (Option α))} {o : Interp ω α}
    (has : ∀ a ∈ as, P a) (ho : P o) : P (firstArm as o) := by
  induction as with
  | nil => exact ho
  | cons a as ih =>
    obtain ⟨ha, has⟩ := List.forall_mem_cons.mp has
    refine h.seq ha fun r ↦ ?_
    split
    · exact h.ret _
    · exact ih has

/-- **An instruction** has the property if a system call has it. -/
theorem closed_execOne (hsys : P syscall) : P (execOne syscall base) :=
  h.seq h.cpu fun _ ↦ h.seq (h.read _) fun b ↦
    closed_firstArm h (closed_arms h hsys b) (h.fail _)

/-- **The step loop** has it, too. -/
theorem closed_runSteps (hsys : P syscall) (n : ℕ) : P (runSteps syscall base n) := by
  induction n with
  | zero => exact h.seq h.cpu fun _ ↦ h.fail _
  | succ n ih => exact h.seq (closed_execOne h hsys) fun _ ↦ closed_ite (h.ret ()) ih

omit h

/-! ## What is outside of the program -/

section Keeps

variable {R : ω → ω → Prop}

/-- What is outside of the program, before and after, is related. -/
def OnOs (R : ω → ω → Prop) (g g' : Guest ω) : Prop := R g.os g'.os

variable [IsPreorder ω R]

instance : IsPreorder (Guest ω) (OnOs R) where
  refl g := refl (r := R) g.os
  trans _ _ _ h h' := IsTrans.trans (r := R) _ _ _ h h'

theorem keeps_getCpu : Keeps (OnOs R) (getCpu : Interp ω Cpu) :=
  keeps_get.bind fun g ↦ keeps_pure g.cpu

theorem keeps_modifyCpu (f : Cpu → Cpu) : Keeps (OnOs R) (modifyCpu f : Interp ω Unit) :=
  keeps_modify fun g ↦ refl (r := R) g.os

theorem keeps_reading {α : Type} (f : List U8 → Rust RunError α) :
    Keeps (OnOs R) (reading f : Interp ω α) :=
  keeps_get.bind fun g ↦ keeps_lift (f g.mem)

theorem keeps_writing (f : List U8 → Rust RunError (List U8)) :
    Keeps (OnOs R) (writing f : Interp ω Unit) :=
  keeps_get.bind fun g ↦ (keeps_lift (f g.mem)).bind fun _ ↦
    keeps_modify fun g ↦ refl (r := R) g.os

theorem closed_keeps : Closed fun {α} (x : Interp ω α) ↦ Keeps (OnOs R) x :=
  ⟨keeps_pure, keeps_throw, .bind, keeps_getCpu, keeps_modifyCpu, keeps_reading, keeps_writing⟩

/-- **An instruction keeps what a system call keeps.** -/
theorem execOne_keeps (hsys : Keeps (OnOs R) syscall) : Keeps (OnOs R) (execOne syscall base) :=
  closed_execOne closed_keeps hsys

/-- **The step loop keeps what a system call keeps.** -/
theorem runSteps_keeps (hsys : Keeps (OnOs R) syscall) (n : ℕ) :
    Keeps (OnOs R) (runSteps syscall base n) :=
  closed_runSteps closed_keeps hsys n

end Keeps

/-! ## Two programs -/

section Agrees

variable {R : ω → ω → Prop}

/-- Two programs are at the same place, and what is outside of them is related. -/
structure SameGuest (R : ω → ω → Prop) (g g' : Guest ω) : Prop where
  /-- The registers. -/
  cpu : g.cpu = g'.cpu
  /-- The memory of the program. -/
  mem : g.mem = g'.mem
  /-- What is outside. -/
  os : R g.os g'.os

theorem getCpu_agrees : Agrees (SameGuest R) (getCpu : Interp ω Cpu) := fun g g' h ↦ by
  change Alike (SameGuest R) (.ok g.cpu g) (.ok g'.cpu g')
  rw [h.cpu]
  exact .ok h

theorem modifyCpu_agrees (f : Cpu → Cpu) :
    Agrees (SameGuest R) (modifyCpu f : Interp ω Unit) :=
  agrees_modify fun _ _ h ↦ ⟨congrArg f h.cpu, h.mem, h.os⟩

theorem reading_agrees {α : Type} (f : List U8 → Rust RunError α) :
    Agrees (SameGuest R) (reading f : Interp ω α) := fun g g' h ↦ by
  change Alike (SameGuest R) (RustM.lift (f g.mem) g) (RustM.lift (f g'.mem) g')
  rw [h.mem]
  exact agrees_lift _ g g' h

theorem writing_agrees (f : List U8 → Rust RunError (List U8)) :
    Agrees (SameGuest R) (writing f : Interp ω Unit) := fun g g' h ↦ by
  change Alike (SameGuest R) ((RustM.lift (f g.mem) >>= _) g) ((RustM.lift (f g'.mem) >>= _) g')
  rw [h.mem]
  exact ((agrees_lift _).bind fun mem ↦
    agrees_modify fun _ _ h ↦ ⟨h.cpu, rfl, h.os⟩) g g' h

theorem closed_agrees : Closed fun {α} (x : Interp ω α) ↦ Agrees (SameGuest R) x :=
  ⟨agrees_pure, fun e ↦ agrees_lift (.error e), .bind, getCpu_agrees, modifyCpu_agrees,
    reading_agrees, writing_agrees⟩

/-- **An instruction does the same in both**, if a system call does. -/
theorem execOne_agrees (hsys : Agrees (SameGuest R) syscall) :
    Agrees (SameGuest R) (execOne syscall base) :=
  closed_execOne closed_agrees hsys

end Agrees

end LeonOS
