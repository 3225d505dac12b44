import LeonOS.Interp.Calls
import LeonOS.Lib.Loop

/-!
# How a program ends

The step loop counts its steps (`StepsIn`).  It returns at the step that ends the program, which is
a `ret`, a `hlt` or a system call (`execOne_stops`), it fails where a step fails or the count is
used up, and it panics where a step panics.
-/

set_option autoImplicit false

namespace LeonOS

open Bytes RustM

variable {ω α : Type} {g g' g₁ : Guest ω} {base : U64} {syscall : Interp ω Bool} {k n : ℕ}
  {b : Vector U8 8}

/-! ## The step loop -/

/-- `n` steps after which the program goes on. -/
abbrev StepsIn (syscall : Interp ω Bool) (base : U64) : ℕ → Guest ω → Guest ω → Prop :=
  Iterates (execOne syscall base)

/-- What the step loop ends with when it is at `MAX_STEPS`. -/
def stepLimit : Interp ω Unit := do throw (.err (.stepLimit maxSteps (← getCpu).rip))

theorem runSteps_eq_loop (n : ℕ) :
    runSteps syscall base n = loop (execOne syscall base) stepLimit n := by
  induction n with
  | zero => rfl
  | succ n ih => rw [runSteps, loop, ih]

theorem runSteps_of_step (h : execOne syscall base g = .ok false g₁) :
    runSteps syscall base (n + 1) g = runSteps syscall base n g₁ := by
  rw [runSteps_eq_loop, runSteps_eq_loop, loop_of_step h]

theorem runSteps_of_stop (h : execOne syscall base g = .ok true g₁) :
    runSteps syscall base (n + 1) g = .ok () g₁ := by
  rw [runSteps_eq_loop, loop_of_stop h]

theorem runSteps_of_error {e : Fault RunError} (h : execOne syscall base g = .error e g₁) :
    runSteps syscall base (n + 1) g = .error e g₁ := by
  rw [runSteps_eq_loop, loop_of_error h]

theorem runSteps_add (h : StepsIn syscall base k g g') (n : ℕ) :
    runSteps syscall base (k + n) g = runSteps syscall base n g' := by
  rw [runSteps_eq_loop, runSteps_eq_loop, h.loop_add]

/-- **A run that returns** has come to the end of the program. -/
theorem runSteps_eq_ok (h : runSteps syscall base n g = .ok () g') :
    ∃ k < n, ∃ last, StepsIn syscall base k g last ∧ execOne syscall base last = .ok true g' := by
  rw [runSteps_eq_loop] at h
  obtain ⟨k, last, hsteps, ⟨hk, hlast⟩ | ⟨-, hlast⟩⟩ := loop_eq_ok h
  · exact ⟨k, hk, last, hsteps, hlast⟩
  · cases hlast

/-- **A run that fails** has come to a step that does, or used up its count. -/
theorem runSteps_eq_err {e : RunError} (h : runSteps syscall base n g = .error (.err e) g') :
    ∃ k, ∃ last, StepsIn syscall base k g last ∧
      (k < n ∧ execOne syscall base last = .error (.err e) g' ∨ k = n ∧ g' = last) := by
  rw [runSteps_eq_loop] at h
  obtain ⟨k, last, hsteps, ⟨hk, hlast⟩ | ⟨hk, hlast⟩⟩ := loop_eq_error h
  · exact ⟨k, last, hsteps, .inl ⟨hk, hlast⟩⟩
  · cases hlast
    exact ⟨k, _, hsteps, .inr ⟨hk, rfl⟩⟩

theorem not_panics_stepLimit : ¬Panics stepLimit g := by
  rintro ⟨_, h⟩
  cases h

/-- **A run panics** exactly where one of its steps does. -/
theorem panics_runSteps : Panics (runSteps syscall base n) g ↔
    ∃ k < n, ∃ last, StepsIn syscall base k g last ∧ Panics (execOne syscall base) last := by
  rw [runSteps_eq_loop]
  exact panics_loop fun _ ↦ not_panics_stepLimit

/-! ## The steps that end a program -/

/-- The program goes on behind it. -/
def GoesOn (body : Interp ω Bool) : Prop := ∀ g g', body g ≠ .ok true g'

theorem goesOn_pure : GoesOn (pure false : Interp ω Bool) := fun _ _ h ↦ by
  cases h

theorem goesOn_bind {x : Interp ω α} {f : α → Interp ω Bool} (h : ∀ a, GoesOn (f a)) :
    GoesOn (x >>= f) := fun g g' hx ↦ by
  obtain ⟨a, g₁, -, hf⟩ := RustM.bind_eq_ok.mp hx
  exact h a g₁ g' hf

theorem goesOn_ite {c : Prop} [Decidable c] {x y : Interp ω Bool} (hx : GoesOn x) (hy : GoesOn y) :
    GoesOn (if c then x else y) := by
  split
  · exact hx
  · exact hy

theorem goesOn_next : GoesOn (next n : Interp ω Bool) := goesOn_bind fun _ ↦ goesOn_pure

theorem goesOn_assign {dst : X86.Reg} {v : U64} : GoesOn (assign dst v n : Interp ω Bool) :=
  goesOn_bind fun _ ↦ goesOn_next

theorem goesOn_jump {nextRip rel : U64} : GoesOn (jump nextRip rel : Interp ω Bool) :=
  goesOn_bind fun _ ↦ goesOn_bind fun _ ↦ goesOn_pure

theorem goesOn_callPtr : GoesOn (callPtr base : Interp ω Bool) := by
  have hcall (nextRip target : U64) : GoesOn (do
      pushU64 base nextRip
      modifyCpu ({ · with rip := target })
      return false : Interp ω Bool) := goesOn_bind fun _ ↦ goesOn_bind fun _ ↦ goesOn_pure
  refine goesOn_bind fun _ ↦ goesOn_bind fun _ ↦ goesOn_bind fun _ ↦ goesOn_bind fun _ ↦
    goesOn_bind fun _ ↦ goesOn_bind fun _ ↦ goesOn_bind fun _ ↦ goesOn_ite ?_ (hcall _ _)
  exact goesOn_bind fun _ ↦ goesOn_ite (goesOn_bind fun _ ↦ goesOn_pure) (hcall _ _)

/-- The bytes of a `ret`, a `hlt` or a `syscall`. -/
def StopBytes (b0 b1 : U8) : Prop := (b0 = 0xC3 ∨ b0 = 0xF4) ∨ b0 = 0x0F ∧ b1 = 0x05

/-- The arm ends the program only at such bytes. -/
def StopsAt (b : Vector U8 8) (a : Interp ω (Option Bool)) : Prop :=
  ∀ g g', a g = .ok (some true) g' → StopBytes (b.get 0) (b.get 1)

section Arms

variable {c : Prop} [Decidable c]

theorem stopsAt_arm {body : Interp ω Bool} (h : GoesOn body) : StopsAt b (arm c body) :=
  fun g g' ha ↦ absurd (arm_eq_some.mp ha).2 (h g g')

theorem stopsAt_setArm {dst : X86.Reg} {value : Cpu → U64} :
    StopsAt b (setArm c dst value n : Interp ω (Option Bool)) :=
  stopsAt_arm (goesOn_bind fun _ ↦ goesOn_assign)

theorem stopsAt_pushArm {src : X86.Reg} :
    StopsAt b (pushArm base c src n : Interp ω (Option Bool)) :=
  stopsAt_arm (goesOn_bind fun _ ↦ goesOn_bind fun _ ↦ goesOn_next)

theorem stopsAt_popArm {dst : X86.Reg} : StopsAt b (popArm base c dst n : Interp ω (Option Bool)) :=
  stopsAt_arm (goesOn_bind fun _ ↦ goesOn_assign)

theorem stopsAt_loadArm {dst : X86.Reg} {addr : Cpu → U64} :
    StopsAt b (loadArm base c dst addr n : Interp ω (Option Bool)) :=
  stopsAt_arm (goesOn_bind fun _ ↦ goesOn_bind fun _ ↦ goesOn_assign)

theorem stopsAt_movImmArm {dst : X86.Reg} :
    StopsAt b (movImmArm base c dst : Interp ω (Option Bool)) :=
  stopsAt_arm (goesOn_bind fun _ ↦ goesOn_bind fun _ ↦ goesOn_assign)

theorem stopsAt_leaRipArm {dst : X86.Reg} :
    StopsAt b (leaRipArm base c dst : Interp ω (Option Bool)) :=
  stopsAt_arm (goesOn_bind fun _ ↦ goesOn_bind fun _ ↦ goesOn_bind fun _ ↦ goesOn_bind fun _ ↦
    goesOn_bind fun _ ↦ goesOn_pure)

theorem stopsAt_testArm {r : X86.Reg} : StopsAt b (testArm c r : Interp ω (Option Bool)) :=
  stopsAt_arm (goesOn_bind fun _ ↦ goesOn_next)

theorem stopsAt_leaArm {rex : U8} {put : Cpu → U8 → U64 → Cpu} :
    StopsAt b (leaArm rex put b : Interp ω (Option Bool)) :=
  stopsAt_arm (goesOn_bind fun _ ↦ goesOn_bind fun _ ↦ goesOn_bind fun _ ↦ goesOn_next)

theorem stopsAt_movHighArm : StopsAt b (movHighArm base b : Interp ω (Option Bool)) :=
  stopsAt_arm (goesOn_bind fun _ ↦ goesOn_bind fun _ ↦ goesOn_bind fun _ ↦ goesOn_next)

theorem stopsAt_movLowArm : StopsAt b (movLowArm base b : Interp ω (Option Bool)) :=
  stopsAt_arm (goesOn_bind fun _ ↦ goesOn_bind fun _ ↦ goesOn_bind fun _ ↦ goesOn_next)

theorem stopsAt_storeImmArm : StopsAt b (storeImmArm base b : Interp ω (Option Bool)) :=
  stopsAt_arm (goesOn_bind fun _ ↦ goesOn_bind fun _ ↦ goesOn_bind fun _ ↦ goesOn_bind fun _ ↦
    goesOn_bind fun _ ↦ goesOn_next)

theorem stopsAt_storeImmSpArm : StopsAt b (storeImmSpArm base b : Interp ω (Option Bool)) :=
  stopsAt_arm (goesOn_bind fun _ ↦ goesOn_bind fun _ ↦ goesOn_bind fun _ ↦ goesOn_bind fun _ ↦
    goesOn_bind fun _ ↦ goesOn_next)

theorem stopsAt_jmpArm : StopsAt b (jmpArm base b : Interp ω (Option Bool)) :=
  stopsAt_arm (goesOn_bind fun _ ↦ goesOn_bind fun _ ↦ goesOn_bind fun _ ↦ goesOn_jump)

theorem stopsAt_jmpShortArm : StopsAt b (jmpShortArm b : Interp ω (Option Bool)) :=
  stopsAt_arm (goesOn_bind fun _ ↦ goesOn_jump)

theorem stopsAt_jeArm : StopsAt b (jeArm b : Interp ω (Option Bool)) :=
  stopsAt_arm (goesOn_bind fun _ ↦ goesOn_bind fun _ ↦
    goesOn_ite goesOn_jump (goesOn_bind fun _ ↦ goesOn_pure))

/-! ### Arms that may fall through -/

theorem stopsAt_bind {x : Interp ω α} {f : α → Interp ω (Option Bool)}
    (h : ∀ a, StopsAt b (f a)) : StopsAt b (x >>= f) := fun g g' hx ↦ by
  obtain ⟨a, g₁, -, hf⟩ := RustM.bind_eq_ok.mp hx
  exact h a g₁ g' hf

theorem stopsAt_none : StopsAt b (pure none : Interp ω (Option Bool)) := fun _ _ h ↦ by
  cases h

theorem stopsAt_some_next : StopsAt b (some <$> next n : Interp ω (Option Bool)) := fun g g' h ↦ by
  obtain ⟨stop, hnext, hstop⟩ := RustM.map_eq_ok.mp h
  cases hstop
  exact absurd hnext (goesOn_next g g')

theorem stopsAt_group1Arm {modrm : U8} {imm : U64} :
    StopsAt b (group1Arm modrm imm n : Interp ω (Option Bool)) := by
  refine stopsAt_bind fun cpu ↦ ?_
  split
  · exact stopsAt_bind fun _ ↦ stopsAt_some_next
  · exact stopsAt_none

theorem stopsAt_movLoadArm : StopsAt b (movLoadArm base b : Interp ω (Option Bool)) := by
  rw [movLoadArm]
  split
  · refine stopsAt_bind fun cpu ↦ ?_
    split
    · exact stopsAt_bind fun _ ↦ stopsAt_bind fun _ ↦ stopsAt_bind fun _ ↦ stopsAt_some_next
    · exact stopsAt_none
  · exact stopsAt_none

theorem stopsAt_aluImm8Arm : StopsAt b (aluImm8Arm b : Interp ω (Option Bool)) := by
  rw [aluImm8Arm]
  split
  · exact stopsAt_group1Arm
  · exact stopsAt_none

theorem stopsAt_aluImm32Arm : StopsAt b (aluImm32Arm base b : Interp ω (Option Bool)) := by
  rw [aluImm32Arm]
  split
  · exact stopsAt_bind fun _ ↦ stopsAt_bind fun _ ↦ stopsAt_group1Arm
  · exact stopsAt_none

end Arms

theorem arms_stopsAt (b : Vector U8 8) : ∀ a ∈ arms syscall base b, StopsAt b a := by
  simp only [arms, movArm, zeroArm, List.forall_mem_cons, stopsAt_setArm, stopsAt_pushArm,
    stopsAt_popArm, stopsAt_loadArm, stopsAt_movImmArm, stopsAt_leaRipArm, stopsAt_testArm,
    stopsAt_leaArm, stopsAt_movHighArm, stopsAt_movLowArm, stopsAt_storeImmArm,
    stopsAt_storeImmSpArm, stopsAt_jmpArm, stopsAt_jmpShortArm, stopsAt_jeArm, stopsAt_movLoadArm,
    stopsAt_aluImm8Arm, stopsAt_aluImm32Arm, List.not_mem_nil, false_imp_iff, implies_true,
    true_and, and_true]
  -- what is left are the arms that the chain has in full
  refine ⟨stopsAt_arm goesOn_next, stopsAt_arm goesOn_next, ?_, ?_, ?_, ?_, ?_, ?_, ?_,
    stopsAt_arm goesOn_callPtr⟩
  · exact fun _ _ h ↦ .inl (arm_eq_some.mp h).1
  · exact stopsAt_arm (goesOn_bind fun _ ↦ goesOn_bind fun _ ↦ goesOn_next)
  · exact stopsAt_arm (goesOn_bind fun _ ↦ goesOn_bind fun _ ↦ goesOn_assign)
  · exact stopsAt_arm (goesOn_bind fun _ ↦ goesOn_bind fun _ ↦ goesOn_bind fun _ ↦ goesOn_next)
  · exact stopsAt_arm (goesOn_bind fun _ ↦ goesOn_next)
  · exact fun _ _ h ↦ .inr (arm_eq_some.mp h).1
  · exact stopsAt_arm (goesOn_bind fun _ ↦ goesOn_bind fun _ ↦ goesOn_bind fun _ ↦
      goesOn_bind fun _ ↦ goesOn_jump)

/-- **What ends a program** is a `ret`, a `hlt` or a system call. -/
theorem execOne_stops (h : execOne syscall base g = .ok true g') :
    StopBytes (g.code base 0) (g.code base 1) := by
  obtain ⟨b, hb, a, ha, ha'⟩ := execOne_eq_ok h
  have hstop := arms_stopsAt b a ha g g' ha'
  have h0 : b.get 0 = g.code base 0 := hb 0 (by decide)
  have h1 : b.get 1 = g.code base 1 := hb 1 (by decide)
  rwa [h0, h1] at hstop

end LeonOS
