import LeonOS.Interp.Steps
import LeonOS.Interp.Syscall
import LeonOS.Kernel.Pointers

/-!
# Guest pointers

An interpreted program has an address space of its own: the address `va` is the element `va - base`
of `mem`, and the kernel's memory is another one.  A pointer that the program passes to a system
call means the former.  `Translated` says what this asks of a call that takes pointers: it does to
`mem` what the call does to memory, and does not look at the kernel's memory; an address outside
`mem` is refused.

The last arm of `handle_syscall` passes the registers on to `dispatch`, which dereferences them as
they are.  So the calls that go this way are translated exactly when they do not use their pointers
at all (`handleSyscall_translated_iff`).
-/

set_option autoImplicit false

namespace LeonOS

open Bytes RustM

/-! ## What is asked -/

/-- Is this an address of the program's memory? -/
def InMem (base : U64) (mem : List U8) (a : ℕ) : Prop :=
  base.toNat ≤ a ∧ a < base.toNat + mem.length

/-- The program's memory as the memory of a system call. -/
def Guest.asWorld (g : Guest Os) (base : U64) : World where
  kernel := g.os.world.kernel
  ram := Window.view base g.mem
  touched := []

/-- The program after a call that has returned `r`. -/
def Guest.returned (g : Guest Os) (r : U64) (mem : List U8) (k : Kernel) : Guest Os where
  cpu := { g.cpu with rax := r }
  mem := mem
  os := { g.os with world := { g.os.world with kernel := k } }

/-- The state that a run ends in. -/
def finalState {ε σ α : Type} : EStateM.Result ε σ α → σ
  | .ok _ s => s
  | .error _ s => s

/-- How a call with a bad pointer may end: with an error, or with `EFAULT` and nothing done. -/
def Refused (g : Guest Os) (out : EStateM.Result (Fault RunError) (Guest Os) Bool) : Prop :=
  (∃ e g', out = .error (.err e) g' ∧ g'.mem = g.mem ∧ g'.os = g.os) ∨
    out = .ok false (g.returned (-efault) g.mem g.os.world.kernel)

/-- **The pointers of a call are translated.** -/
structure Translated (base : U64) (g : Guest Os)
    (out : EStateM.Result (Fault RunError) (Guest Os) Bool) : Prop where
  /-- No address is dereferenced in the kernel's memory. -/
  untouched : (finalState out).os.world.touched = g.os.world.touched
  /-- The kernel's memory is not changed. -/
  unchanged : (finalState out).os.world.ram = g.os.world.ram
  /-- What the call does to memory is done to `mem`. -/
  done : ∀ r w, dispatch (.decode g.cpu.rax.toNat) g.cpu.rdi g.cpu.rsi g.cpu.rdx g.cpu.r10
      (g.asWorld base) = .ok r w → (∀ a ∈ w.touched, InMem base g.mem a) →
    ∃ mem, out = .ok false (g.returned r mem w.kernel) ∧ mem.length = g.mem.length ∧
      ∀ a, InMem base g.mem a → Window.view base mem a = w.ram a
  /-- An address outside `mem` is refused. -/
  refused : ∀ r w, dispatch (.decode g.cpu.rax.toNat) g.cpu.rdi g.cpu.rsi g.cpu.rdx g.cpu.r10
      (g.asWorld base) = .ok r w → (∃ a ∈ w.touched, ¬InMem base g.mem a) → Refused g out

/-! ## The last arm -/

variable {run : Run} {tmp : StackSlot} {base : U64} {g : Guest Os}

theorem handleSyscall_pointerCall (h : Nr.decode g.cpu.rax.toNat ∈ pointerCalls) :
    handleSyscall run tmp base g = handleDefault (.decode g.cpu.rax.toNat) g := by
  rw [handleSyscall, bind_getCpu]
  generalize Nr.decode g.cpu.rax.toNat = nr at h
  cases nr <;> first | rfl | exact absurd h (by decide)

theorem handleDefault_of_ok {nr : Nr} {r : U64} {w : World}
    (h : dispatch nr g.cpu.rdi g.cpu.rsi g.cpu.rdx g.cpu.r10 g.os.world = .ok r w) :
    handleDefault nr g = .ok false
      { g with cpu := { g.cpu with rax := r }, os := { g.os with world := w } } := by
  rw [handleDefault, bind_getCpu, bind_apply, sys, h]
  rfl

/-- **When pointers are translated**: exactly when the call is answered before it uses them. -/
theorem handleSyscall_translated_iff (run : Run) (tmp : StackSlot) (base : U64) (g : Guest Os)
    (hnr : Nr.decode g.cpu.rax.toNat ∈ pointerCalls) :
    Translated base g (handleSyscall run tmp base g) ↔
      PointersUnused g.os.world.kernel (.decode g.cpu.rax.toNat) g.cpu.rdi g.cpu.rsi g.cpu.rdx := by
  rw [handleSyscall_pointerCall hnr]
  constructor
  · intro h
    by_contra hused
    obtain ⟨r, w, hrun, hlt⟩ := dispatch_touches (w := g.os.world) g.cpu.r10 hnr hused
    have htouched := h.untouched
    rw [handleDefault_of_ok hrun] at htouched
    exact absurd (congrArg List.length htouched) hlt.ne'
  · intro h
    obtain ⟨r, k, hans⟩ := dispatch_of_unused g.cpu.r10 hnr h
    have hguest := hans (g.asWorld base) rfl
    rw [handleDefault_of_ok (hans g.os.world rfl)]
    refine ⟨rfl, rfl, fun r' w hrun _ ↦ ?_, fun r' w hrun hout ↦ ?_⟩
    · rw [hguest, EStateM.Result.ok.injEq] at hrun
      obtain ⟨rfl, rfl⟩ := hrun
      exact ⟨g.mem, rfl, rfl, fun _ _ ↦ rfl⟩
    · rw [hguest, EStateM.Result.ok.injEq] at hrun
      obtain ⟨rfl, rfl⟩ := hrun
      obtain ⟨a, ha, -⟩ := hout
      exact absurd ha List.not_mem_nil

/-! ### A clock -/

/-- A program with a page of memory at 0x400000, in a kernel that has just been booted. -/
def pageGuest (rax rdi rsi : U64) : Guest Os where
  cpu := { Cpu.start 0x400800 0x400000 with rax := rax, rdi := rdi, rsi := rsi }
  mem := List.replicate 0x1000 0
  os := ⟨⟨.boot, fun _ ↦ 0, []⟩, []⟩

/-- `uname(NULL)`. -/
theorem handleSyscall_translated_uname : Translated 0x400000 (pageGuest 63 0 0)
    (handleSyscall (fun _ _ _ ↦ pure ()) ⟨1, by decide⟩ 0x400000 (pageGuest 63 0 0)) :=
  (handleSyscall_translated_iff _ _ 0x400000 (pageGuest 63 0 0) (by decide)).mpr rfl

/-- `clock_gettime(0, 0x400100)`, with room for the answer at that address. -/
theorem clock_not_translated : ¬∀ (run : Run) (tmp : StackSlot),
    Translated 0x400000 (pageGuest 228 0 0x400100)
      (handleSyscall run tmp 0x400000 (pageGuest 228 0 0x400100)) := by
  intro h
  have htouched := (h (fun _ _ _ ↦ pure ()) ⟨1, by decide⟩).untouched
  exact absurd (congrArg List.length htouched) (by decide)

end LeonOS
