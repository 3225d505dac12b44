import LeonOS.Kernel.Effect
import LeonOS.Native.Syscall

/-!
# What system calls of native programs keep

A relation between the globals before and after that `dispatch` has for the calls it is given, and
that a byte of stdin has, is one that `leonos3_native_syscall_dispatch` has.
-/

set_option autoImplicit false

namespace LeonOS

open RustM

variable {R : Kernel → Kernel → Prop} [IsPreorder Kernel R] {nr : Nr} {a0 a1 a2 a3 : U64}

theorem nativeReadFrom_keeps
    (hstdin : ∀ w, Ensures readStdinByteBlocking w fun _ w' ↦ R w.kernel w'.kernel)
    (ptr n got : ℕ) (w : World) :
    Ensures (nativeReadFrom ptr n got) w fun _ w' ↦ R w.kernel w'.kernel := by
  induction n generalizing got w with
  | zero => exact ensures_pure.mpr (refl w.kernel)
  | succ n ih =>
    rw [nativeReadFrom]
    refine (hstdin w).bind fun ch w₁ h₁ ↦ ?_
    split
    · exact ensures_pure.mpr h₁
    · rw [ensures_bind, ensures_store, ensures_ite]
      exact ⟨fun _ ↦ ensures_pure.mpr h₁, fun _ ↦ (ih _ _).mono fun _ _ h ↦ trans_of R h₁ h⟩

/-- **The dispatcher of native programs** keeps what `dispatch` keeps. -/
theorem nativeDispatch_keeps
    (hstdin : ∀ w, Ensures readStdinByteBlocking w fun _ w' ↦ R w.kernel w'.kernel)
    (hcall : ∀ w, Ensures (dispatch nr a0 a1 a2 a3) w fun _ w' ↦ R w.kernel w'.kernel) (os : Os) :
    Ensures (nativeDispatch nr a0 a1 a2 a3) os fun _ os' ↦ R os.world.kernel os'.world.kernel := by
  have hsys : Ensures (nativeSys (dispatch nr a0 a1 a2 a3)) os fun _ os' ↦
      R os.world.kernel os'.world.kernel := ensures_nativeSys.mpr (hcall os.world)
  cases nr with
  | write =>
    rw [nativeDispatch, ensures_ite]
    refine ⟨fun _ ↦ ?_, fun _ ↦ hsys⟩
    rw [termWrite, ensures_bind, ensures_modify, ensures_pure]
    exact refl os.world.kernel
  | read =>
    rw [nativeDispatch, ensures_ite]
    refine ⟨fun _ ↦ ?_, fun _ ↦ hsys⟩
    rw [ensures_ite]
    refine ⟨fun _ ↦ ensures_pure.mpr (refl os.world.kernel), fun _ ↦ ?_⟩
    exact ensures_nativeSys.mpr (nativeReadFrom_keeps hstdin _ _ _ os.world)
  | _ => exact hsys

end LeonOS
