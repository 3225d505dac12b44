import LeonOS.Interp.Cases
import LeonOS.Lib.Runs

/-!
# The flags

Beside the `Cpu` of the interpreter, the flags that the hardware would have at the same place of the
same program (`Watched`): `test` and `cmp` set them, and so do `add`, `or`, `sub`, `and` and `xor`
from their results; the other instructions leave them.

Of the branches of `exec_one` only those for `test` and `cmp` write to `zf` and `sf`.  So the two
pairs of flags part at the first arithmetic instruction whose result has other flags than the ones
there are, and not before (`flagsRight_iff`).
-/

set_option autoImplicit false

namespace LeonOS

open Bytes X86 Runs

variable {run : Run} {tmp : StackSlot} {base : U64} {g g' : Guest Os} {stop : Bool}

/-! ## The statement -/

/-- A program that is interpreted, and the flags the hardware would have. -/
structure Watched where
  /-- The interpreter's state. -/
  guest : Guest Os
  /-- The flags of the hardware. -/
  hardware : Flags

/-- The flags of the hardware after the instruction at `rip`. -/
def Watched.flagsAfter (base : U64) (s : Watched) : Flags :=
  X86.flagsAfter s.guest.nextRip (s.guest.arch base 0) (s.guest.code base) s.hardware

/-- A completed step of the interpreter. -/
def Watched.Step (run : Run) (tmp : StackSlot) (base : U64) (stop : Bool) (s s' : Watched) : Prop :=
  execOne (handleSyscall run tmp base) base s.guest = .ok stop s'.guest ∧
    s'.hardware = s.flagsAfter base

/-- **The interpreter has the flags of the hardware.** -/
def Watched.FlagsRight (s : Watched) : Prop := s.guest.cpu.flags = s.hardware

/-- The instruction at `rip` does no arithmetic, or its result has the flags there are. -/
def FlagsHeld (base : U64) (g : Guest Os) : Prop :=
  ∀ i n fl, decode (g.code base) = some (i, n) →
    i.flags (g.nextRip n) (g.arch base 0) = some fl → fl = g.cpu.flags

/-- If the interpreter completes the step, the flags it should have are held. -/
def Watched.HoldsFlags (run : Run) (tmp : StackSlot) (base : U64) (stop : Bool) (s : Watched) :
    Prop :=
  (∃ g', execOne (handleSyscall run tmp base) base s.guest = .ok stop g') →
    FlagsHeld base s.guest

/-! ## One step -/

/-- **Only a comparison sets the flags.** -/
theorem execOne_flags (h : execOne (handleSyscall run tmp base) base g = .ok stop g') :
    g'.cpu.flags = match decodeCompare (g.code base) with
      | some (c, n) => c.flags (g.nextRip n) (g.arch base 0)
      | none => g.cpu.flags := by
  cases execOne_cases h with
  | registers n hplain _ hflags => rw [hplain.compare, hflags]
  | compare n c hdec _ hflags => rw [hdec, hflags]
  | store n va bs hplain _ _ _ _ hflags => rw [hplain.compare, hflags]
  | transfer _ hcompare _ hflags => rw [hcompare, hflags]
  | syscall h0 h1 g₁ hrun _ h =>
    have hcompare : decodeCompare (g.code base) = none := by
      simp [decodeCompare, decodeCompareOp, h0]
    obtain ⟨v, hcpu⟩ := handleSyscall_onlyRax hrun
    rw [hcompare, h]
    simp [Cpu.flags, hcpu]

theorem decodeCompare_of_decode {code : ℕ → U8} {i : Instr × ℕ} (h : decode code = some i) :
    decodeCompare code = none := by
  cases hc : decodeCompare code with
  | none => rfl
  | some c => exact nomatch h.symm.trans (decode_of_decodeCompare hc)

/-- **The flags stay right exactly if they are held.** -/
theorem Watched.step_flagsRight_iff {s s' : Watched} (hs : s.FlagsRight)
    (h : s.Step run tmp base stop s') : s'.FlagsRight ↔ FlagsHeld base s.guest := by
  rw [FlagsRight, execOne_flags h.1, h.2, Watched.flagsAfter, X86.flagsAfter, FlagsHeld]
  cases hdec : decode (s.guest.code base) with
  | none =>
    refine iff_of_true ?_ fun _ _ _ h ↦ nomatch h
    cases decodeCompare (s.guest.code base) with
    | none => exact hs
    | some c => rfl
  | some x =>
    obtain ⟨i, n⟩ := x
    rw [decodeCompare_of_decode hdec]
    simp only [Option.some_inj, Prod.mk.injEq]
    cases hfl : i.flags (s.guest.nextRip n) (s.guest.arch base 0) with
    | none =>
      refine iff_of_true hs ?_
      rintro _ _ fl ⟨rfl, rfl⟩ h
      exact nomatch hfl.symm.trans h
    | some fl =>
      constructor
      · rintro h _ _ fl' ⟨rfl, rfl⟩ h'
        exact (Option.some_inj.mp (h'.symm.trans hfl)).trans h.symm
      · exact fun h ↦ (h i n fl ⟨rfl, rfl⟩ hfl).symm

/-! ## Whole runs -/

/-- **In a run the flags are right in every state exactly if every step holds them.** -/
theorem flagsRight_iff (run : Run) (tmp : StackSlot) (base : U64) (g : Guest Os)
    (stops : List Bool) :
    Always (Watched.Step run tmp base) Watched.FlagsRight ⟨g, g.cpu.flags⟩ stops ↔
      AllSteps (Watched.Step run tmp base) (Watched.HoldsFlags run tmp base) ⟨g, g.cpu.flags⟩
        stops := by
  refine always_iff (fun stop s s' hs hc hstep ↦ ?_) (fun stop s hs hnext ↦ ?_) rfl
  · exact (Watched.step_flagsRight_iff hs hstep).mpr (hc ⟨_, hstep.1⟩)
  · rintro ⟨g', h⟩
    have hstep : Watched.Step run tmp base stop s ⟨g', s.flagsAfter base⟩ := ⟨h, rfl⟩
    exact (Watched.step_flagsRight_iff hs hstep).mp (hnext _ hstep)

/-- `xor eax, eax` and a jump that is taken if the result was zero. -/
def xorJe : Guest Os where
  cpu := .start 0x400800 0x400000
  mem := [0x31, 0xC0, 0x74, 0x02, 0x90, 0x90, 0xC3]
  os := ⟨⟨.boot, fun _ ↦ 0, []⟩, []⟩

/-- Its steps; it makes no system call. -/
def xorJeStep : Bool → Watched → Watched → Prop :=
  Watched.Step (fun _ _ _ ↦ pure ()) ⟨1, by decide⟩ 0x400000

set_option maxRecDepth 8000 in
/-- The interpreter does not jump: the zero flag is the one from before. -/
theorem xorJe_falls_through :
    (∃ s₁ s₂, xorJeStep false ⟨xorJe, xorJe.cpu.flags⟩ s₁ ∧ xorJeStep false s₁ s₂ ∧
      s₁.hardware = ⟨true, false⟩ ∧ s₂.guest.cpu.rip = 0x400004) ∧
      ¬Always xorJeStep Watched.FlagsRight ⟨xorJe, xorJe.cpu.flags⟩ [false] := by
  have h₁ : xorJeStep false ⟨xorJe, xorJe.cpu.flags⟩
      ⟨{ xorJe with cpu := .start 0x400800 0x400002 }, ⟨true, false⟩⟩ := ⟨rfl, rfl⟩
  have h₂ : xorJeStep false ⟨{ xorJe with cpu := .start 0x400800 0x400002 }, ⟨true, false⟩⟩
      ⟨{ xorJe with cpu := .start 0x400800 0x400004 }, ⟨true, false⟩⟩ := ⟨rfl, rfl⟩
  refine ⟨⟨_, _, h₁, h₂, rfl, rfl⟩, fun h ↦ ?_⟩
  exact nomatch h [false] _ List.prefix_rfl (.single h₁)

end LeonOS
