import LeonOS.Interp.Effect
import LeonOS.Lib.Precise

/-!
# Faults are precise

When `exec_one` returns an error, the registers, the memory of the program and everything outside of
it are what they were before the step (`execOne_precise`).  Each of its arms looks at the addresses
it needs, and fails if one is out of range, before it changes anything; so does each of the system
calls.  What an arm does after its first change can only panic.

The error of an arm is `AddressOutOfRange`.  An `UnsupportedInstruction` is that of a step which none
of them takes, and has the bytes at `rip`.
-/

set_option autoImplicit false

namespace LeonOS

open Bytes X86 Rust RustM

/-- The error of an arm. -/
def IsOutOfRange (e : RunError) : Prop := e = .addressOutOfRange

theorem isOutOfRange : IsOutOfRange .addressOutOfRange := rfl

variable {ω α : Type} {base va : U64} {mem bs : List U8} {n : ℕ}

/-! ## Guest memory -/

theorem raises_vaToIndex : Raises IsOutOfRange (vaToIndex base mem va) :=
  .ite (raises_fail isOutOfRange) (.ite (raises_fail isOutOfRange) (raises_ok _))

theorem raises_access : Raises IsOutOfRange (Window.access .addressOutOfRange base mem va n) :=
  raises_vaToIndex.bind fun _ ↦ (raises_okOr isOutOfRange _).bind fun _ ↦
    (raises_failIf isOutOfRange _).bind fun _ ↦ raises_ok _

theorem raises_write : Raises IsOutOfRange (Window.write .addressOutOfRange base mem va bs) :=
  raises_access.bind fun _ ↦ raises_copyFromSlice _ _ _ _

theorem raises_readBytes : Raises IsOutOfRange (readBytes base mem va) :=
  raises_vaToIndex.bind fun _ ↦ raises_ok _

theorem raises_readU8 : Raises IsOutOfRange (readU8 base mem va) :=
  raises_vaToIndex.bind fun _ ↦ raises_index _ _

theorem raises_readU32 : Raises IsOutOfRange (readU32 base mem va) :=
  raises_access.bind fun _ ↦ raises_ok _

theorem raises_readI32 : Raises IsOutOfRange (readI32 base mem va) :=
  raises_readU32.bind fun _ ↦ raises_ok _

theorem raises_readU64 : Raises IsOutOfRange (readU64 base mem va) :=
  raises_access.bind fun _ ↦ raises_ok _

theorem raises_isOutside : Raises IsOutOfRange (isOutside base mem va) :=
  .ite (raises_ok true) ((raises_add _ _).bind fun _ ↦ raises_ok _)

theorem raises_isInside : Raises IsOutOfRange (isInside base mem va) :=
  .ite (raises_ok false) ((raises_add _ _).bind fun _ ↦ raises_ok _)

/-! ## Small steps -/

theorem reads_getCpu : Reads IsOutOfRange (getCpu : Interp ω Cpu) :=
  reads_get.bind fun g ↦ reads_pure g.cpu

theorem reads_reading {f : List U8 → Rust RunError α} (h : ∀ mem, Raises IsOutOfRange (f mem)) :
    Reads IsOutOfRange (reading f : Interp ω α) :=
  reads_get.bind fun g ↦ reads_lift (h g.mem)

theorem reads_ripPlus (n : ℕ) : Reads IsOutOfRange (ripPlus n : Interp ω U64) :=
  reads_getCpu.bind fun _ ↦ reads_lift (raises_addWord _ n)

theorem infallible_getCpu : Infallible (getCpu : Interp ω Cpu) :=
  infallible_get.bind fun g ↦ infallible_pure g.cpu

theorem infallible_modifyCpu (f : Cpu → Cpu) : Infallible (modifyCpu f : Interp ω Unit) :=
  infallible_modify _

theorem infallible_ripAdd (n : ℕ) : Infallible (ripAdd n : Interp ω Unit) :=
  infallible_getCpu.bind fun _ ↦ (infallible_lift (raises_addWord _ n)).bind fun _ ↦
    infallible_modifyCpu _

theorem infallible_next (n : ℕ) : Infallible (next n : Interp ω Bool) :=
  (infallible_ripAdd n).bind fun _ ↦ infallible_pure false

theorem infallible_assign (dst : Reg) (v : U64) (n : ℕ) :
    Infallible (assign dst v n : Interp ω Bool) :=
  (infallible_modifyCpu _).bind fun _ ↦ infallible_next n

theorem infallible_jump (nextRip rel : U64) : Infallible (jump nextRip rel : Interp ω Bool) :=
  (infallible_lift (raises_addSigned _ _)).bind fun _ ↦ (infallible_modifyCpu _).bind fun _ ↦
    infallible_pure false

/-- A write fails before it writes. -/
theorem precise_writing {f : List U8 → Rust RunError (List U8)}
    (h : ∀ mem, Raises IsOutOfRange (f mem)) :
    Precise IsOutOfRange (writing f : Interp ω Unit) :=
  reads_get.then fun g ↦ (reads_lift (h g.mem)).then fun _ ↦ (infallible_modify _).precise

theorem precise_pushU64 (v : U64) : Precise IsOutOfRange (pushU64 base v : Interp ω Unit) :=
  reads_getCpu.then fun _ ↦ (reads_lift (raises_okOr isOutOfRange _)).then fun _ ↦
    (precise_writing fun _ ↦ raises_write).then fun _ ↦ infallible_modifyCpu _

theorem precise_popU64 : Precise IsOutOfRange (popU64 base : Interp ω U64) :=
  reads_getCpu.then fun _ ↦ (reads_reading fun _ ↦ raises_readU64).then fun _ ↦
    (reads_lift (raises_okOr isOutOfRange _)).then fun _ ↦
      ((infallible_modifyCpu _).bind fun _ ↦ infallible_pure _).precise

/-! ## Arms -/

section Arms

variable {c : Prop} [Decidable c] {b : Vector U8 8}

theorem precise_arm {body : Interp ω Bool} (h : Precise IsOutOfRange body) :
    Precise IsOutOfRange (arm c body) :=
  .ite h.map (infallible_pure none).precise

theorem precise_setArm (dst : Reg) (value : Cpu → U64) (n : ℕ) :
    Precise IsOutOfRange (setArm c dst value n : Interp ω (Option Bool)) :=
  precise_arm (infallible_getCpu.bind fun _ ↦ infallible_assign _ _ _).precise

theorem precise_pushArm (src : Reg) (n : ℕ) :
    Precise IsOutOfRange (pushArm base c src n : Interp ω (Option Bool)) :=
  precise_arm (reads_getCpu.then fun _ ↦ (precise_pushU64 _).then fun _ ↦ infallible_next n)

theorem precise_popArm (dst : Reg) (n : ℕ) :
    Precise IsOutOfRange (popArm base c dst n : Interp ω (Option Bool)) :=
  precise_arm (precise_popU64.then fun _ ↦ infallible_assign _ _ _)

theorem precise_loadArm (dst : Reg) (addr : Cpu → U64) (n : ℕ) :
    Precise IsOutOfRange (loadArm base c dst addr n : Interp ω (Option Bool)) :=
  precise_arm (reads_getCpu.then fun _ ↦ (reads_reading fun _ ↦ raises_readU64).then fun _ ↦
    (infallible_assign _ _ _).precise)

theorem precise_movImmArm (dst : Reg) :
    Precise IsOutOfRange (movImmArm base c dst : Interp ω (Option Bool)) :=
  precise_arm ((reads_ripPlus 3).then fun _ ↦ (reads_reading fun _ ↦ raises_readU32).then fun _ ↦
    (infallible_assign _ _ _).precise)

theorem precise_leaRipArm (dst : Reg) :
    Precise IsOutOfRange (leaRipArm base c dst : Interp ω (Option Bool)) :=
  precise_arm ((reads_ripPlus 3).then fun _ ↦ (reads_reading fun _ ↦ raises_readI32).then fun _ ↦
    (reads_ripPlus 7).then fun _ ↦ (reads_lift (raises_addSigned _ _)).then fun _ ↦
      ((infallible_modifyCpu _).bind fun _ ↦ infallible_pure false).precise)

theorem precise_testArm (r : Reg) : Precise IsOutOfRange (testArm c r : Interp ω (Option Bool)) :=
  precise_arm ((infallible_modifyCpu _).bind fun _ ↦ infallible_next 3).precise

theorem infallible_group1Arm (modrm : U8) (imm : U64) (n : ℕ) :
    Infallible (group1Arm modrm imm n : Interp ω (Option Bool)) := by
  rw [group1Arm]
  refine infallible_getCpu.bind fun cpu ↦ ?_
  split
  · refine (infallible_modifyCpu _).bind fun _ ↦ ?_
    rw [← bind_pure_comp]
    exact (infallible_next n).bind fun _ ↦ infallible_pure _
  · exact infallible_pure none

theorem precise_aluImm8Arm : Precise IsOutOfRange (aluImm8Arm b : Interp ω (Option Bool)) :=
  .ite (infallible_group1Arm _ _ 4).precise (infallible_pure none).precise

theorem precise_aluImm32Arm :
    Precise IsOutOfRange (aluImm32Arm base b : Interp ω (Option Bool)) :=
  .ite ((reads_ripPlus 3).then fun _ ↦ (reads_reading fun _ ↦ raises_readI32).then fun _ ↦
    (infallible_group1Arm _ _ 7).precise) (infallible_pure none).precise

theorem precise_movLoadArm : Precise IsOutOfRange (movLoadArm base b : Interp ω (Option Bool)) := by
  rw [movLoadArm]
  refine .ite (reads_getCpu.then fun cpu ↦ ?_) (infallible_pure none).precise
  cases haddr : movLoadAddr cpu b[1] b[2] with
  | none => exact (infallible_pure none).precise
  | some addr =>
    have hraises : Raises IsOutOfRange addr := by
      rw [movLoadAddr] at haddr
      split at haddr
      · split at haddr
        · cases haddr
        · obtain rfl := Option.some_inj.mp haddr
          exact raises_ok _
      · split at haddr
        · obtain rfl := Option.some_inj.mp haddr
          exact raises_addSigned _ _
        · cases haddr
    refine (reads_lift hraises).then fun _ ↦ (reads_reading fun _ ↦ raises_readU32).then fun _ ↦ ?_
    exact (infallible_modifyCpu _).precise.then fun _ ↦ (by
      rw [← bind_pure_comp]
      exact (infallible_next _).bind fun _ ↦ infallible_pure _)

theorem precise_leaArm (rex : U8) (put : Cpu → U8 → U64 → Cpu) :
    Precise IsOutOfRange (leaArm rex put b : Interp ω (Option Bool)) :=
  precise_arm (reads_getCpu.then fun _ ↦ (reads_lift (raises_addSigned _ _)).then fun _ ↦
    ((infallible_modifyCpu _).bind fun _ ↦ infallible_next 4).precise)

theorem precise_movHighArm : Precise IsOutOfRange (movHighArm base b : Interp ω (Option Bool)) :=
  precise_arm ((reads_ripPlus 2).then fun _ ↦ (reads_reading fun _ ↦ raises_readU32).then fun _ ↦
    ((infallible_modifyCpu _).bind fun _ ↦ infallible_next 6).precise)

theorem precise_movLowArm : Precise IsOutOfRange (movLowArm base b : Interp ω (Option Bool)) :=
  precise_arm ((reads_ripPlus 1).then fun _ ↦ (reads_reading fun _ ↦ raises_readU32).then fun _ ↦
    ((infallible_modifyCpu _).bind fun _ ↦ infallible_next 5).precise)

/-- The end of the arms that store a double word. -/
theorem precise_storeImm (addr : U64) (p n : ℕ) : Precise IsOutOfRange (do
    let va ← ripPlus p
    let imm ← reading fun mem ↦ readU32 base mem va
    writing fun mem ↦ writeU32 base mem addr imm
    next n : Interp ω Bool) :=
  (reads_ripPlus p).then fun _ ↦ (reads_reading fun _ ↦ raises_readU32).then fun _ ↦
    (precise_writing fun _ ↦ raises_write).then fun _ ↦ infallible_next n

theorem precise_storeImmArm : Precise IsOutOfRange (storeImmArm base b : Interp ω (Option Bool)) :=
  precise_arm (reads_getCpu.then fun _ ↦ (reads_lift (raises_addSigned _ _)).then fun _ ↦
    precise_storeImm _ 3 7)

theorem precise_storeImmSpArm :
    Precise IsOutOfRange (storeImmSpArm base b : Interp ω (Option Bool)) :=
  precise_arm (reads_getCpu.then fun _ ↦ (reads_lift (raises_addSigned _ _)).then fun _ ↦
    precise_storeImm _ 4 8)

theorem precise_jmpArm : Precise IsOutOfRange (jmpArm base b : Interp ω (Option Bool)) :=
  precise_arm ((reads_ripPlus 1).then fun _ ↦ (reads_reading fun _ ↦ raises_readI32).then fun _ ↦
    (reads_ripPlus 5).then fun _ ↦ (infallible_jump _ _).precise)

theorem precise_jmpShortArm : Precise IsOutOfRange (jmpShortArm b : Interp ω (Option Bool)) :=
  precise_arm ((reads_ripPlus 2).then fun _ ↦ (infallible_jump _ _).precise)

theorem precise_jeArm : Precise IsOutOfRange (jeArm b : Interp ω (Option Bool)) :=
  precise_arm ((reads_ripPlus 2).then fun _ ↦ reads_getCpu.then fun _ ↦
    .ite (infallible_jump _ _).precise
      ((infallible_modifyCpu _).bind fun _ ↦ infallible_pure false).precise)

/-- A call pushes before it jumps, and the jump can only panic. -/
theorem precise_callRel32 : Precise IsOutOfRange (callRel32 base : Interp ω Bool) :=
  (reads_ripPlus 1).then fun _ ↦ (reads_reading fun _ ↦ raises_readI32).then fun _ ↦
    (reads_ripPlus 5).then fun _ ↦ (precise_pushU64 _).then fun _ ↦ infallible_jump _ _

theorem precise_callPtr : Precise IsOutOfRange (callPtr base : Interp ω Bool) := by
  have hcall : ∀ nextRip target : U64, Precise IsOutOfRange (do
      pushU64 base nextRip
      modifyCpu ({ · with rip := target })
      return false : Interp ω Bool) := fun _ _ ↦
    (precise_pushU64 _).then fun _ ↦ (infallible_modifyCpu _).bind fun _ ↦ infallible_pure false
  rw [callPtr]
  refine (reads_ripPlus 2).then fun _ ↦ (reads_reading fun _ ↦ raises_readI32).then fun _ ↦
    (reads_ripPlus 6).then fun _ ↦ (reads_lift (raises_addSigned _ _)).then fun _ ↦
      (reads_reading fun _ ↦ raises_readU64).then fun _ ↦ reads_getCpu.then fun _ ↦
        (reads_reading fun _ ↦ raises_isOutside).then fun _ ↦ .ite ?_ (hcall _ _)
  refine (reads_reading fun _ ↦ raises_isInside).then fun _ ↦ .ite ?_ (hcall _ _)
  exact ((infallible_modifyCpu _).bind fun _ ↦ infallible_pure false).precise

/-- **Every arm is precise**, the one for `syscall` if the system calls are. -/
theorem precise_arms {syscall : Interp ω Bool} (hsys : Precise IsOutOfRange syscall) :
    ∀ a ∈ arms syscall base b, Precise IsOutOfRange a := by
  simp only [arms, movArm, zeroArm, List.forall_mem_cons, precise_setArm, precise_pushArm,
    precise_popArm, precise_loadArm, precise_movImmArm, precise_leaRipArm, precise_testArm,
    precise_movLoadArm, precise_leaArm, precise_aluImm8Arm, precise_aluImm32Arm,
    precise_movHighArm, precise_movLowArm, precise_storeImmArm, precise_storeImmSpArm,
    precise_jmpArm, precise_jmpShortArm, precise_jeArm,
    List.not_mem_nil, false_imp_iff, implies_true, true_and, and_true]
  -- what is left are the arms that the chain has in full
  refine ⟨precise_arm (infallible_next 4).precise, precise_arm (infallible_next 1).precise,
    precise_arm (infallible_pure true).precise, ?_, ?_, ?_,
    precise_arm ((infallible_modifyCpu _).bind fun _ ↦ infallible_next 2).precise, ?_,
    precise_arm precise_callRel32, precise_arm precise_callPtr⟩
  · exact precise_arm (reads_getCpu.then fun _ ↦ (precise_writing fun _ ↦ raises_write).then
      fun _ ↦ infallible_next 5)
  · exact precise_arm (reads_getCpu.then fun _ ↦ (reads_lift (raises_addSigned _ _)).then fun _ ↦
      (infallible_assign _ _ _).precise)
  · exact precise_arm (reads_getCpu.then fun _ ↦ (reads_reading fun _ ↦ raises_readU8).then
      fun _ ↦ ((infallible_modifyCpu _).bind fun _ ↦ infallible_next 5).precise)
  · exact precise_arm (hsys.then fun _ ↦ (infallible_ripAdd 2).bind fun _ ↦ infallible_pure _)

end Arms

/-! ## System calls -/

section Calls

variable {run : Run} {tmp : StackSlot}

theorem infallible_sys {x : SysM α} : Infallible (sys x) := fun g e g' h ↦ by
  rw [sys] at h
  cases hx : x g.os.world with
  | ok a w =>
    rw [hx] at h
    cases h
  | error e' w =>
    cases e' with
    | err e' => exact e'.elim
    | panic =>
      rw [hx] at h
      cases h

theorem infallible_attempt (x : RustM RunError Os Unit) : Infallible (attempt x) := fun g e g' h ↦ by
  rw [attempt] at h
  cases hx : x g.os with
  | ok a os =>
    rw [hx] at h
    cases h
  | error e' os =>
    rw [hx] at h
    cases e' <;> cases h

theorem infallible_setRax (v : U64) (stop : Bool) : Infallible (setRax v stop) :=
  (infallible_modifyCpu _).bind fun _ ↦ infallible_pure stop

theorem infallible_process (bytes : List U8) : Infallible (process bytes) := infallible_modify _

theorem infallible_writing {f : List U8 → Rust RunError (List U8)}
    (h : ∀ mem, Raises (fun _ ↦ False) (f mem)) : Infallible (writing f : Interp ω Unit) :=
  infallible_get.bind fun g ↦ (infallible_lift (h g.mem)).bind fun _ ↦ infallible_modify _

theorem infallible_readLineFrom (start n got : ℕ) : Infallible (readLineFrom start n got) := by
  induction n generalizing got with
  | zero => exact infallible_pure got
  | succ n ih =>
    rw [readLineFrom]
    refine infallible_sys.bind fun ch ↦ ?_
    split
    · exact infallible_pure got
    · exact (infallible_writing fun _ ↦ raises_setIndex _ _ _).bind fun _ ↦
        (infallible_process _).bind fun _ ↦ .ite (infallible_pure _) (ih _)

theorem infallible_readThroughTmp (start cap : ℕ) (fd : U64) :
    Infallible (readThroughTmp tmp start cap fd) := by
  rw [readThroughTmp]
  refine (infallible_modify _).bind fun _ ↦ infallible_sys.bind fun n ↦ ?_
  split
  · exact infallible_get.bind fun g ↦ (infallible_writing fun _ ↦ (raises_range _ _ _).bind fun _ ↦
      raises_copyFromSlice _ _ _ _).bind fun _ ↦ infallible_setRax n false
  · exact infallible_setRax n false

theorem precise_handleRead : Precise IsOutOfRange (handleRead tmp base) := by
  rw [handleRead]
  exact reads_getCpu.then fun cpu ↦ (reads_reading fun _ ↦ raises_vaToIndex).then fun start ↦
    reads_get.then fun g ↦ .ite (infallible_setRax _ _).precise
      (.ite ((infallible_readLineFrom _ _ _).bind fun _ ↦ infallible_setRax _ _).precise
        (infallible_readThroughTmp _ _ _).precise)

theorem raises_writeBytes {len : ℕ} : Raises IsOutOfRange (writeBytes base mem va len) :=
  raises_vaToIndex.bind fun _ ↦ (raises_okOr isOutOfRange _).bind fun _ ↦
    (raises_failIf isOutOfRange _).bind fun _ ↦ raises_range _ _ _

theorem precise_handleWrite : Precise IsOutOfRange (handleWrite base) := by
  have hend : ∀ cpu : Cpu, Infallible (do
      let n ← sys (dispatch .write cpu.rdi cpu.rsi cpu.rdx 0)
      setRax n false) := fun _ ↦ infallible_sys.bind fun _ ↦ infallible_setRax _ _
  rw [handleWrite]
  refine reads_getCpu.then fun cpu ↦ (reads_reading fun _ ↦ raises_writeBytes).then fun bytes ↦ ?_
  exact .ite ((infallible_process _).bind fun _ ↦ hend cpu).precise (hend cpu).precise

theorem raises_readUserCstrFrom (n : ℕ) (bytes : List U8) :
    Raises IsOutOfRange (readUserCstrFrom base mem va n bytes) := by
  induction n generalizing bytes with
  | zero => exact raises_ok none
  | succ n ih => exact raises_readU8.bind fun _ ↦ .ite (raises_ok _) (ih _)

theorem raises_readUserCstr : Raises IsOutOfRange (readUserCstr base mem va) :=
  .ite (raises_ok none) (raises_readUserCstrFrom _ _)

theorem raises_readUserPtrsFrom (n i : ℕ) :
    Raises IsOutOfRange (readUserPtrsFrom base mem va n i) := by
  induction n generalizing i with
  | zero => exact raises_ok []
  | succ n ih =>
    exact (raises_addWord _ _).bind fun _ ↦ raises_readU64.bind fun _ ↦ .ite (raises_ok [])
      ((ih _).bind fun _ ↦ raises_ok _)

theorem raises_readUserStrs (ptrs : List U64) :
    Raises IsOutOfRange (readUserStrs base mem ptrs) := by
  induction ptrs with
  | nil => exact raises_ok []
  | cons p ptrs ih =>
    refine raises_readUserCstr.bind fun s ↦ ?_
    cases s with
    | none => exact raises_fail isOutOfRange
    | some s => exact ih.bind fun _ ↦ raises_ok _

theorem raises_readUserStrArray (max : ℕ) :
    Raises IsOutOfRange (readUserStrArray base mem va max) :=
  Raises.bind (.ite (raises_ok []) (raises_readUserPtrsFrom _ _)) fun _ ↦ raises_readUserStrs _

theorem infallible_execFile (name : String) (argv envp : List String) (rec : FileRecord) :
    Infallible (execFile run name argv envp rec) :=
  infallible_sys.bind fun _ ↦ (infallible_attempt _).bind fun _ ↦
    .ite (infallible_setRax _ _) (infallible_setRax _ _)

/-- The path, the arguments and the environment are read before anything is done. -/
theorem precise_handleExecve : Precise IsOutOfRange (handleExecve run base) := by
  rw [handleExecve]
  refine reads_getCpu.then fun cpu ↦ (reads_reading fun _ ↦ raises_readUserCstr).then fun path ↦ ?_
  split
  · refine (reads_reading fun _ ↦ raises_readUserStrArray 64).then fun argv ↦
      (reads_reading fun _ ↦ raises_readUserStrArray 64).then fun envp ↦ ?_
    split
    · refine reads_get.then fun g ↦ ?_
      split
      · split
        · exact (infallible_execFile _ _ _ _).precise
        · exact (infallible_setRax _ _).precise
      · exact (infallible_setRax _ _).precise
    · exact (infallible_setRax _ _).precise
  · exact (infallible_setRax _ _).precise

/-- **Every system call is precise.** -/
theorem precise_handleSyscall : Precise IsOutOfRange (handleSyscall run tmp base) := by
  have hcall : ∀ (x : SysM U64) stop, Precise IsOutOfRange (sys x >>= fun n ↦ setRax n stop) :=
    fun x stop ↦ (infallible_sys.bind fun n ↦ infallible_setRax n stop).precise
  refine reads_getCpu.then fun cpu ↦ ?_
  split
  · exact precise_handleRead
  · exact precise_handleWrite
  · exact hcall _ false
  · exact hcall _ false
  · exact precise_handleExecve
  · exact hcall _ true
  · exact hcall _ true
  · exact reads_getCpu.then fun cpu ↦ hcall _ false

end Calls

/-! ## Steps -/

theorem firstArm_eq_err {as : List (Interp ω (Option α))} {otherwise : Interp ω α}
    {g g' : Guest ω} {e : RunError} (hfall : ∀ a ∈ as, FallsThrough a)
    (has : ∀ a ∈ as, Precise IsOutOfRange a) (h : firstArm as otherwise g = .error (.err e) g') :
    (g' = g ∧ IsOutOfRange e) ∨ otherwise g = .error (.err e) g' := by
  induction as with
  | nil => exact .inr h
  | cons a as ih =>
    obtain ⟨hfallA, hfall⟩ := List.forall_mem_cons.mp hfall
    obtain ⟨ha, has⟩ := List.forall_mem_cons.mp has
    rcases bind_eq_err.mp h with herr | ⟨o, g₁, hrun, hrest⟩
    · exact .inl (ha g e g' herr)
    · cases o with
      | some r => exact nomatch hrest
      | none =>
        obtain rfl := hfallA g g₁ hrun
        exact ih hfall has hrest

/-- What is left of a step that has failed with an error. -/
structure Faulted (base : U64) (g : Guest ω) (e : RunError) (g' : Guest ω) : Prop where
  /-- Nothing has changed. -/
  same : g' = g
  /-- An unsupported instruction is the one at `rip`, with zeros behind the end of memory. -/
  bytes : ∀ rip bytes, e = .unsupportedInstruction rip bytes → rip = g.cpu.rip ∧
    base.toNat ≤ rip.toNat ∧ rip.toNat - base.toNat < g.mem.length ∧
      ∀ k (hk : k < 8), bytes[k] = g.mem.getD (rip.toNat - base.toNat + k) 0

theorem faulted_outOfRange {g : Guest ω} {e : RunError} (h : IsOutOfRange e) :
    Faulted base g e g := by
  obtain rfl := h
  exact ⟨rfl, fun _ _ h ↦ nomatch h⟩

/-- **A step that fails has changed nothing**: its error is that of an arm, or there is none for the
instruction. -/
theorem execOne_eq_err {run : Run} {tmp : StackSlot} {g g' : Guest Os} {e : RunError}
    (h : execOne (handleSyscall run tmp base) base g = .error (.err e) g') :
    g' = g ∧ (IsOutOfRange e ∨ ∃ b, readBytes base g.mem g.cpu.rip = .ok b ∧
      e = .unsupportedInstruction g.cpu.rip b) := by
  rw [execOne, bind_getCpu] at h
  rcases bind_eq_err.mp h with herr | ⟨b, g₁, hread, h⟩
  · obtain ⟨rfl, he⟩ := (reads_reading fun _ ↦ raises_readBytes).precise _ _ _ herr
    exact ⟨rfl, .inl he⟩
  obtain ⟨rfl, hbytes⟩ := reading_eq_ok.mp hread
  rcases firstArm_eq_err arms_fall_through (precise_arms precise_handleSyscall) h with
    ⟨rfl, he⟩ | hthrow
  · exact ⟨rfl, .inl he⟩
  · cases hthrow
    exact ⟨rfl, .inr ⟨b, hbytes, rfl⟩⟩

/-- **Faults are precise.** -/
theorem execOne_precise (run : Run) (tmp : StackSlot) (base : U64) (g g' : Guest Os) (e : RunError)
    (h : execOne (handleSyscall run tmp base) base g = .error (.err e) g') :
    Faulted base g e g' := by
  obtain ⟨rfl, he | ⟨b, hbytes, rfl⟩⟩ := execOne_eq_err h
  · exact faulted_outOfRange he
  · obtain ⟨i, hi, -⟩ := Rust.bind_eq_ok.mp hbytes
    obtain ⟨hrip, hlt⟩ := Window.index_eq_ok.mp hi
    refine ⟨rfl, fun rip bytes he ↦ ?_⟩
    cases he
    refine ⟨rfl, by omega, by omega, fun k hk ↦ ?_⟩
    rw [readBytes_eq_ok hbytes k hk, Window.view, if_pos (by omega)]
    congr 1
    omega

/-- A byte that is no instruction, at the end of memory. -/
def badGuest : Guest Os where
  cpu := .start 0x400800 0x400000
  mem := [0x06]
  os := ⟨⟨.boot, fun _ ↦ 0, []⟩, []⟩

/-- The error of the step at it. -/
def badGuestError : RunError :=
  .unsupportedInstruction 0x400000 #v[0x06, 0, 0, 0, 0, 0, 0, 0]

set_option maxRecDepth 4000 in
theorem execOne_precise_badGuest :
    execOne (handleSyscall (fun _ _ _ ↦ pure ()) ⟨1, by decide⟩ 0x400000) 0x400000 badGuest =
        .error (.err badGuestError) badGuest ∧
      Faulted 0x400000 badGuest badGuestError badGuest := by
  have h : execOne (handleSyscall (fun _ _ _ ↦ pure ()) ⟨1, by decide⟩ 0x400000) 0x400000
      badGuest = .error (.err badGuestError) badGuest := rfl
  exact ⟨h, execOne_precise _ _ _ _ _ _ h⟩

end LeonOS
