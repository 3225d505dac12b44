import LeonOS.Kernel.Effect
import LeonOS.Lib.Runs

/-!
# Runs of the kernel

What can happen to the kernel while programs run: system calls, from any program and in any order,
mounts, and what programs do to memory in between.  The exits of native programs and the reads of
stdin do not go through `dispatch`, and are events of their own.

A history keeps a record (`σ`) of what it has seen, which an event and its result add to; what the
record says is then compared with the kernel.
-/

set_option autoImplicit false

namespace LeonOS

open RustM

/-- What can happen. -/
inductive KernelEvent where
  /-- A system call. -/
  | call (nr : Nr) (arg0 arg1 arg2 arg3 : U64)
  /-- `set_rootfs`. -/
  | mount (image : Image)
  /-- `mark_exit_code`. -/
  | mark (code : BitVec 32)
  /-- The reader of stdin is called. -/
  | poll (polled : ℕ)
  /-- Memory is changed. -/
  | user (ram : ℕ → U8) (touched : List ℕ)

/-- The event, its result and the state afterwards. -/
inductive KernelEvent.Ran : KernelEvent → World → U64 → World → Prop
  | call {nr : Nr} {arg0 arg1 arg2 arg3 r : U64} {w w' : World}
      (h : dispatch nr arg0 arg1 arg2 arg3 w = .ok r w') : Ran (.call nr arg0 arg1 arg2 arg3) w r w'
  | mount {image : Image} {w : World} :
      Ran (.mount image) w 0 { w with kernel := w.kernel.setRootfs image }
  | mark {code : BitVec 32} {w : World} :
      Ran (.mark code) w 0 { w with kernel := w.kernel.markExitCode code }
  | poll {polled : ℕ} {w : World} :
      Ran (.poll polled) w 0 { w with kernel := { w.kernel with polled := polled } }
  | user {ram : ℕ → U8} {touched : List ℕ} {w : World} :
      Ran (.user ram touched) w 0 { w with ram := ram, touched := touched }

/-- The kernel and what a history has recorded of it. -/
structure Recorded (σ : Type) where
  /-- The record. -/
  record : σ
  /-- The kernel and memory. -/
  world : World

/-- A step of a history whose record `after` keeps. -/
def KernelEvent.Step {σ : Type} (after : KernelEvent → World → U64 → World → σ → σ)
    (e : KernelEvent) (s s' : Recorded σ) : Prop :=
  ∃ r, e.Ran s.world r s'.world ∧ s'.record = after e s.world r s'.world s.record

/-- **What every event keeps** holds in every state of a history; `allowed` are the events that it
may have. -/
theorem KernelEvent.always {σ : Type} {after : KernelEvent → World → U64 → World → σ → σ}
    {P : Recorded σ → Prop} {allowed : KernelEvent → Prop}
    (hkeep : ∀ e s r w', allowed e → P s → KernelEvent.Ran e s.world r w' →
      P ⟨after e s.world r w' s.record, w'⟩) {s : Recorded σ} (hs : P s) {es : List KernelEvent}
    (hes : ∀ e ∈ es, allowed e) : Runs.Always (KernelEvent.Step after) P s es := by
  have hall : Runs.AllSteps (KernelEvent.Step after) (fun e _ ↦ allowed e) s es :=
    fun es' e _ hbegin _ ↦ hes e (hbegin.subset (List.mem_append_right es' List.mem_cons_self))
  refine Runs.always_of_allSteps (fun e s₁ s₂ h₁ he hstep ↦ ?_) hs hall
  obtain ⟨r, hran, hrecord⟩ := hstep
  have h₂ := hkeep e s₁ r s₂.world he h₁ hran
  rw [← hrecord] at h₂
  exact h₂

/-! ## Reachable kernels -/

/-- A history that records nothing. -/
def KernelEvent.Happens (e : KernelEvent) (s s' : Recorded Unit) : Prop :=
  e.Step (fun _ _ _ _ u ↦ u) s s'

/-- **A kernel that runs lead to** from the boot. -/
def Kernel.Reachable (k : Kernel) : Prop := ∃ ram touched es s,
  Runs.Trace KernelEvent.Happens ⟨(), ⟨.boot, ram, touched⟩⟩ es s ∧ s.world.kernel = k

theorem Kernel.reachable_boot : Kernel.boot.Reachable := ⟨fun _ ↦ 0, [], [], _, .nil _, rfl⟩

/-- **What the boot has and every event keeps** is so in every reachable kernel. -/
theorem Kernel.Reachable.invariant {P : Kernel → Prop} {k : Kernel} (h : k.Reachable)
    (hboot : P .boot)
    (hkeep : ∀ e w r w', KernelEvent.Ran e w r w' → P w.kernel → P w'.kernel) : P k := by
  obtain ⟨ram, touched, es, s, hrun, rfl⟩ := h
  refine Runs.Trace.keeps (P := fun s : Recorded Unit ↦ P s.world.kernel) ?_ hrun hboot
  rintro e s s' hs ⟨r, hran, -⟩
  exact hkeep e s.world r s'.world hran hs

/-- An event leads from one reachable kernel to another. -/
theorem Kernel.Reachable.step {e : KernelEvent} {w w' : World} {r : U64}
    (h : w.kernel.Reachable) (hran : e.Ran w r w') : w'.kernel.Reachable := by
  obtain ⟨ram, touched, es, s, hrun, hkernel⟩ := h
  -- the memory of `w` need not be the one that the history has left
  have huser : KernelEvent.Ran (.user w.ram w.touched) s.world 0
      { s.world with ram := w.ram, touched := w.touched } := .user
  have hworld : { s.world with ram := w.ram, touched := w.touched } = w := by
    cases w
    cases hkernel
    rfl
  rw [hworld] at huser
  have hbefore : KernelEvent.Happens (.user w.ram w.touched) s ⟨(), w⟩ := ⟨0, huser, rfl⟩
  have hstep : KernelEvent.Happens e ⟨(), w⟩ ⟨(), w'⟩ := ⟨r, hran, rfl⟩
  exact ⟨ram, touched, es ++ ([.user w.ram w.touched] ++ [e]), ⟨(), w'⟩,
    hrun.append ((Runs.Trace.single hbefore).append (.single hstep)), rfl⟩

end LeonOS
