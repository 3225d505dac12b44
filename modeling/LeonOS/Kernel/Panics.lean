import LeonOS.Kernel.Files
import LeonOS.Kernel.Pointers

/-!
# When a system call panics

The system calls do their arithmetic with `min`, `saturating_add` and bounds that were checked, with
one exception: `mmap` adds 0xFFF to a length that the caller chooses.  In a kernel whose table is in
order nothing else can panic (`panics_dispatch`).
-/

set_option autoImplicit false

namespace LeonOS

open Bytes RustM

variable {w : World} {nr : Nr} {arg0 arg1 arg2 arg3 : U64}

/-! ## Calls that return -/

theorem total_readStdinByteBlocking : Total TraceGrows readStdinByteBlocking := by
  refine total_getKernel.bind fun k ↦ ?_
  split
  · exact total_pure _
  · exact (total_modifyKernel _).bind fun _ ↦ total_pure _

theorem total_posixReadFrom (buf n got : ℕ) : Total TraceGrows (posixReadFrom buf n got) := by
  induction n generalizing got with
  | zero => exact total_pure _
  | succ n ih =>
    refine total_readStdinByteBlocking.bind fun ch ↦ ?_
    split
    · exact total_pure _
    · exact (total_store _ _).bind fun _ ↦ .ite (total_pure _) (ih _)

theorem total_posixRead (fd buf len : ℕ) : Total TraceGrows (posixRead fd buf len) :=
  .ite (.ite (total_pure _) (total_posixReadFrom _ _ _)) (total_pure _)

theorem total_sysClose (fd : ℕ) : Total TraceGrows (sysClose fd) := by
  refine total_getKernel.bind fun k ↦ ?_
  split
  · exact total_pure _
  · exact total_pure _
  · exact (total_modifyKernel _).bind fun _ ↦ total_pure _

theorem total_sysLseek (fd : ℕ) (off : U64) (whence : ℕ) :
    Total TraceGrows (sysLseek fd off whence) := by
  refine total_getKernel.bind fun k ↦ ?_
  split
  · exact total_pure _
  · exact total_pure _
  · split
    · exact (total_modifyKernel _).bind fun _ ↦ total_pure _
    · exact total_pure _
  · split
    · exact (total_modifyKernel _).bind fun _ ↦ total_pure _
    · exact total_pure _

theorem total_sysDup (fd : ℕ) : Total TraceGrows (sysDup fd) := by
  refine .ite (total_pure _) (total_getKernel.bind fun k ↦ ?_)
  split
  · exact total_pure _
  · exact total_pure _
  · exact total_allocFd _

theorem total_sysDup2 (oldfd newfd : ℕ) : Total TraceGrows (sysDup2 oldfd newfd) := by
  refine .ite (.ite (total_pure _) (total_pure _)) (.ite (total_pure _) ?_)
  refine total_getKernel.bind fun k ↦ ?_
  split
  · exact total_pure _
  · exact total_pure _
  · exact (total_modifyKernel _).bind fun _ ↦ total_pure _

theorem total_sysArchPrctl : Total TraceGrows (sysArchPrctl arg0 arg1) := by
  refine .ite ((total_modifyKernel _).bind fun _ ↦ total_pure _) ?_
  exact .ite ((total_modifyKernel _).bind fun _ ↦ total_pure _) (total_pure _)

/-- A read of a descriptor of a table that is in order. -/
theorem not_panics_sysRead (hk : w.kernel.FilesOk) (fd buf n : ℕ) :
    ¬Panics (sysRead fd buf n) w := by
  by_cases hbuf : buf = 0
  · rw [sysRead, if_pos hbuf]
    exact not_panics_pure
  cases hentry : w.kernel.fdTable[fd]? with
  | none =>
    rw [sysRead, if_neg hbuf, Panics, bind_getKernel, hentry]
    exact not_panics_pure
  | some entry =>
    cases entry with
    | free | rootDir =>
      rw [sysRead, if_neg hbuf, Panics, bind_getKernel, hentry]
      exact not_panics_pure
    | file dataPtr len pos mode =>
      obtain ⟨touched, hrun⟩ := sysRead_file hentry (hk.denotes _ _ _ _ _ hentry) rfl hbuf n
      exact panics_of_eq_ok hrun

/-! ## All calls -/

theorem panics_sysMmap : Panics (sysMmap arg1) w ↔ 2 ^ 64 ≤ arg1.toNat + 0xFFF := by
  rw [sysMmap, panics_bind, panics_lift, Rust.addWord_eq_panic]
  constructor
  · rintro (h | ⟨_, _, -, h⟩)
    · split at h
      · rename_i hlow
        rw [BitVec.lt_def] at hlow
        exact absurd h (by simp)
      · exact h
    · rw [panics_bind] at h
      rcases h with h | ⟨_, _, -, h⟩
      · exact absurd h (total_getKernel.not_panics _)
      · exact absurd h (((total_modifyKernel _).bind fun _ ↦ total_pure _).not_panics _)
  · intro h
    refine .inl ?_
    rw [if_neg (by rw [BitVec.lt_def, show (0x1000 : U64).toNat = 0x1000 from rfl]; omega)]
    exact h

/-- **The only panic** of a system call is the overflow of the length of `mmap`. -/
theorem panics_dispatch (hk : w.kernel.FilesOk) : Panics (dispatch nr arg0 arg1 arg2 arg3) w ↔
    nr = .mmap ∧ 2 ^ 64 ≤ arg1.toNat + 0xFFF := by
  by_cases hmmap : nr = .mmap
  · rw [hmmap, dispatch, panics_sysMmap]
    exact (and_iff_right rfl).symm
  refine iff_of_false ?_ fun h ↦ hmmap h.1
  by_cases hptr : nr ∈ pointerCalls
  · exact (total_pointerCall hptr).not_panics w
  cases nr with
  | mmap => exact absurd rfl hmmap
  | read =>
    rw [dispatch, panics_ite]
    rintro (⟨-, h⟩ | ⟨-, h⟩)
    · exact (total_posixRead _ _ _).not_panics w h
    · exact not_panics_sysRead hk _ _ _ h
  | close => exact (Total.ite (total_pure _) (total_sysClose _)).not_panics w
  | lseek => exact (Total.ite (total_pure _) (total_sysLseek _ _ _)).not_panics w
  | dup => exact (total_sysDup _).not_panics w
  | dup2 => exact (total_sysDup2 _ _).not_panics w
  | archPrctl => exact total_sysArchPrctl.not_panics w
  | brk => exact ((total_modifyKernel _).bind fun _ ↦
      total_getKernel.bind fun _ ↦ total_pure _).not_panics w
  | exit | exitGroup => exact ((total_modifyKernel _).bind fun _ ↦ total_pure _).not_panics w
  | getpid | gettid | setTidAddress =>
    exact (total_getKernel.bind fun _ ↦ total_pure _).not_panics w
  | _ => first | exact not_panics_pure | exact absurd (by decide) hptr

end LeonOS
