import LeonOS.Kernel.Dirents
import LeonOS.Kernel.Files

/-!
# Descriptor calls are atomic

A call on a descriptor either does what it is for, to the one entry it is for, or returns an error
and does nothing.  `openat` and `dup` find the entry themselves: it is the first free one.  What a
call can do at all is the list of `Effect`s; here the result is tied to it.
-/

set_option autoImplicit false

namespace LeonOS

open Bytes RustM

variable {w : World} {k k' : Kernel} {nr : Nr} {arg0 arg1 arg2 arg3 : U64} {fd : ℕ}

/-! ## What is asked -/

/-- The first free descriptor. -/
structure Kernel.LeastFree (k : Kernel) (fd : ℕ) : Prop where
  /-- It is not one of the standard streams. -/
  base : fdBase ≤ fd
  /-- It is free. -/
  free : k.fdTable[fd]? = some .free
  /-- None before it is. -/
  least : ∀ i, fdBase ≤ i → i < fd → k.fdTable[i]? ≠ some .free

/-- What an error leaves as it was. -/
structure Undisturbed (k k' : Kernel) : Prop where
  /-- The descriptors. -/
  fdTable : k'.fdTable = k.fdTable
  /-- The working directory. -/
  cwdBuf : k'.cwdBuf = k.cwdBuf
  /-- Its length. -/
  cwdLen : k'.cwdLen = k.cwdLen
  /-- The exit code. -/
  lastExit : k'.lastExit = k.lastExit
  /-- The flag that it waits. -/
  exitWaitable : k'.exitWaitable = k.exitWaitable

/-- The calls that return an error number. -/
def descriptorCalls : List Nr :=
  [.openat, .read, .close, .lseek, .fstat, .stat, .newfstatat, .getdents64, .dup, .dup2, .access,
    .chdir, .getcwd, .wait4]

/-- Does the call make a new descriptor, if it succeeds?  A `dup` of a standard stream does not. -/
def Nr.Allocates (nr : Nr) (arg0 : U64) : Prop :=
  nr = .openat ∨ nr = .dup ∧ fdBase ≤ arg0.toNat

/-- The new descriptor is the first free one, and nothing but its entry has changed. -/
def Allocated (k : Kernel) (r : U64) (k' : Kernel) : Prop :=
  ∃ fd entry, k.LeastFree fd ∧ r = BitVec.ofNat 64 fd ∧ k' = k.setFd fd entry

/-- Only the position of a descriptor has changed, or how much of stdin was consumed. -/
def OnlyPosition (k : Kernel) (fd : ℕ) (k' : Kernel) : Prop :=
  (∃ entry pos, k.fdTable[fd]? = some entry ∧ k' = k.setFd fd (entry.withPos pos)) ∨
    ∃ polled, k' = { k with polled := polled }

/-- **Descriptor calls are atomic**, in this state. -/
structure DescriptorsAtomic (w : World) : Prop where
  /-- The standard streams have no entry. -/
  reserved : ∀ fd < fdBase, w.kernel.fdTable[fd]? = some .free
  /-- A new descriptor is the first free one. -/
  allocates : ∀ nr arg0 arg1 arg2 arg3 r w', dispatch nr arg0 arg1 arg2 arg3 w = .ok r w' →
    nr.Allocates arg0 → 0 ≤ r.toInt → Allocated w.kernel r w'.kernel
  /-- `close` changes the entry it names. -/
  close : ∀ arg0 arg1 arg2 arg3 r w', dispatch .close arg0 arg1 arg2 arg3 w = .ok r w' →
    w'.kernel = w.kernel ∨ w'.kernel = w.kernel.setFd arg0.toNat .free
  /-- `dup2` changes the entry it names. -/
  dup2 : ∀ arg0 arg1 arg2 arg3 r w', dispatch .dup2 arg0 arg1 arg2 arg3 w = .ok r w' →
    w'.kernel = w.kernel ∨ ∃ entry, w.kernel.fdTable[arg0.toNat]? = some entry ∧
      w'.kernel = w.kernel.setFd arg1.toNat entry
  /-- `read`, `lseek` and `getdents64` change the position of the entry they name. -/
  seeks : ∀ nr arg0 arg1 arg2 arg3 r w', nr.seeks →
    dispatch nr arg0 arg1 arg2 arg3 w = .ok r w' → OnlyPosition w.kernel arg0.toNat w'.kernel
  /-- An error leaves everything as it was. -/
  errors : ∀ nr ∈ descriptorCalls, ∀ arg0 arg1 arg2 arg3 r w',
    dispatch nr arg0 arg1 arg2 arg3 w = .ok r w' → r.toInt < 0 → Undisturbed w.kernel w'.kernel

theorem Undisturbed.of_eq (h : k' = k) : Undisturbed k k' := by
  rw [h]
  exact ⟨rfl, rfl, rfl, rfl, rfl⟩

/-! ## New descriptors -/

theorem Kernel.leastFree_of_firstFree (h : k.firstFree = some fd) : k.LeastFree fd where
  base := (Kernel.firstFree_bound h).1
  free := Kernel.firstFree_free h
  least i hbase hlt hfree := by
    rw [Kernel.firstFree] at h
    obtain ⟨-, before, after, hsplit, hnone⟩ := List.find?_eq_some_iff_append.mp h
    have hmem : i ∈ List.range' fdBase (maxFds - fdBase) := by
      have hfd := (Kernel.firstFree_bound h).2
      exact List.mem_range'_1.mpr ⟨hbase, by rw [maxFds, fdBase] at *; omega⟩
    have hsorted := List.pairwise_lt_range' (s := fdBase) (n := maxFds - fdBase)
    rw [hsplit] at hmem hsorted
    rcases List.mem_append.mp hmem with hi | hi
    · have hno := hnone i hi
      rw [hfree] at hno
      exact absurd hno (by decide)
    · rcases List.mem_cons.mp hi with rfl | hi
      · exact lt_irrefl _ hlt
      · have hgt := (List.pairwise_cons.mp (List.pairwise_append.mp hsorted).2.1).1 i hi
        exact absurd hlt (by omega)

/-- A new descriptor, or an error and nothing done. -/
def AllocatedOrFailed (k : Kernel) (r : U64) (k' : Kernel) : Prop :=
  Allocated k r k' ∨ r.toInt < 0 ∧ k' = k

theorem allocFd_result (entry : FdEntry) (hk : w.kernel = k) :
    Ensures (allocFd entry) w fun r w' ↦ AllocatedOrFailed k r w'.kernel := by
  subst hk
  rw [allocFd, ensures_bind, ensures_getKernel]
  split
  · rename_i i hi
    simp only [ensures_bind, ensures_modifyKernel, ensures_pure]
    exact .inl ⟨i, entry, Kernel.leastFree_of_firstFree hi, rfl, rfl⟩
  · exact ensures_pure.mpr (.inr ⟨by decide, rfl⟩)

theorem openName_result (name : String) (flags : U64) (hk : w.kernel = k) :
    Ensures (openName name flags) w fun r w' ↦ AllocatedOrFailed k r w'.kernel := by
  rw [openName, ensures_bind, ensures_getKernel]
  split
  · split
    · rw [ensures_ite]
      refine ⟨fun _ ↦ ensures_pure.mpr (.inr ⟨by decide, hk⟩), fun _ ↦ ?_⟩
      exact allocFd_result _ hk
    · exact ensures_pure.mpr (.inr ⟨by decide, hk⟩)
  · exact ensures_pure.mpr (.inr ⟨by decide, hk⟩)

theorem openPath_result (path : String) (flags : U64) (hk : w.kernel = k) :
    Ensures (openPath path flags) w fun r w' ↦ AllocatedOrFailed k r w'.kernel := by
  rw [openPath]
  split
  · exact allocFd_result _ hk
  split
  · exact allocFd_result _ hk
  split
  · split
    · exact allocFd_result _ hk
    · exact openName_result _ _ hk
  · exact ensures_pure.mpr (.inr ⟨by decide, hk⟩)

theorem sysOpenat_result (dirfd : U64) (pathPtr : ℕ) (flags : U64) :
    Ensures (sysOpenat dirfd pathPtr flags) w fun r w' ↦
      AllocatedOrFailed w.kernel r w'.kernel := by
  rw [sysOpenat, ensures_ite]
  refine ⟨fun _ ↦ ensures_pure.mpr (.inr ⟨by decide, rfl⟩), fun _ ↦ ?_⟩
  rw [ensures_bind, ensures_getKernel, ensures_ite]
  refine ⟨fun _ ↦ ensures_pure.mpr (.inr ⟨by decide, rfl⟩), fun _ ↦ ?_⟩
  exact ensures_withPath (fun _ h ↦ .inr ⟨by decide, h⟩) fun _ path h ↦ openPath_result path flags h

theorem sysDup_result (hfd : ¬fd ≤ 2) :
    Ensures (sysDup fd) w fun r w' ↦ AllocatedOrFailed w.kernel r w'.kernel := by
  rw [sysDup, if_neg hfd, ensures_bind, ensures_getKernel]
  split
  · exact ensures_pure.mpr (.inr ⟨by decide, rfl⟩)
  · exact ensures_pure.mpr (.inr ⟨by decide, rfl⟩)
  · exact allocFd_result _ rfl

theorem AllocatedOrFailed.undisturbed {r : U64} (h : AllocatedOrFailed k r k') (hr : r.toInt < 0) :
    Undisturbed k k' := by
  rcases h with ⟨fd, entry, hfree, rfl, -⟩ | ⟨-, rfl⟩
  · obtain ⟨hlt, -⟩ := Vector.getElem?_eq_some_iff.mp hfree.free
    rw [maxFds] at hlt
    exact absurd hr (Rust.ofNat_of_lt (by omega)).1
  · exact .of_eq rfl

/-! ## Errors -/

/-- An error leaves the globals as they were. -/
def FailsClean (x : SysM U64) (w : World) : Prop :=
  Ensures x w fun r w' ↦ r.toInt < 0 → Undisturbed w.kernel w'.kernel

theorem failsClean_pure (r : U64) (w : World) : FailsClean (pure r) w :=
  ensures_pure.mpr fun _ ↦ .of_eq rfl

/-- So does a success that is none of these calls' business. -/
theorem failsClean_of_onlyRam {x : SysM U64} (h : Ensures x w fun _ w' ↦ OnlyRam w w') :
    FailsClean x w :=
  h.mono fun _ _ h _ ↦ .of_eq h

/-- What is done with a success. -/
theorem failsClean_modify {f : Kernel → Kernel} {r : U64} (hr : 0 ≤ r.toInt) :
    FailsClean (do modifyKernel f; return r) w := by
  rw [FailsClean, ensures_bind, ensures_modifyKernel, ensures_pure]
  exact fun h ↦ absurd hr (not_le.mpr h)

theorem sysRead_failsClean (hk : w.kernel.FilesOk) (buf n : ℕ) :
    FailsClean (sysRead fd buf n) w := by
  by_cases hbuf : buf = 0
  · rw [sysRead, if_pos hbuf]
    exact failsClean_pure _ w
  have hrest (h : ¬∃ dataPtr len pos mode,
      w.kernel.fdTable[fd]? = some (.file dataPtr len pos mode)) :
      FailsClean (sysRead fd buf n) w := by
    rw [FailsClean, sysRead, if_neg hbuf, ensures_bind, ensures_getKernel]
    split
    · exact failsClean_pure _ w
    · exact failsClean_pure _ w
    · exact failsClean_pure _ w
    · exact absurd ⟨_, _, _, _, ‹_›⟩ h
  by_cases hfile : ∃ dataPtr len pos mode, w.kernel.fdTable[fd]? = some (.file dataPtr len pos mode)
  · obtain ⟨dataPtr, len, pos, mode, hentry⟩ := hfile
    have hdenotes := hk.denotes _ _ _ _ _ hentry
    obtain ⟨touched, hrun⟩ := sysRead_file hentry hdenotes rfl hbuf n
    have hcount : OpenFile.count ⟨slice dataPtr.image.bytes dataPtr.offset len, pos⟩ n < 2 ^ 63 := by
      have hbound := hdenotes.bound
      have hlen := dataPtr.image.length_lt
      rw [OpenFile.count, length_slice]
      omega
    rw [FailsClean, ensures_of_eq hrun]
    exact fun h ↦ absurd h (Rust.ofNat_of_lt hcount).1
  · exact hrest hfile

theorem sysClose_failsClean : FailsClean (sysClose fd) w := by
  rw [FailsClean, sysClose, ensures_bind, ensures_getKernel]
  split
  · exact failsClean_pure _ w
  · exact failsClean_pure _ w
  · exact failsClean_modify (by decide)

theorem sysLseek_failsClean (off : U64) (whence : ℕ) : FailsClean (sysLseek fd off whence) w := by
  rw [FailsClean, sysLseek, ensures_bind, ensures_getKernel]
  split
  · exact failsClean_pure _ w
  · exact failsClean_pure _ w
  · split
    · rename_i hseek
      exact failsClean_modify (not_lt.mp (Rust.ofNat_of_lt (seekPos_bound hseek)).1)
    · exact failsClean_pure _ w
  · split
    · rename_i hseek
      exact failsClean_modify (not_lt.mp (Rust.ofNat_of_lt (seekPos_bound hseek)).1)
    · exact failsClean_pure _ w

/-- The name of a record is short. -/
theorem direntAt_length_le {pos ino : ℕ} {name : List U8} {typ : U8}
    (h : k.direntAt pos = some (name, typ, ino)) : name.length ≤ 48 := by
  match pos with
  | 0 | 1 =>
    cases h
    decide
  | i + 2 =>
    obtain ⟨name', hname, heq⟩ := Option.map_eq_some_iff.mp h
    cases heq
    exact length_le_of_rootNameByIndex hname

/-- The loop fails only before it has written a record, and what it has written is not much. -/
theorem getdentsFrom_failsClean (dirp count : ℕ) {n pos written : ℕ}
    (hk : written = 0 → w.kernel = k) (hsmall : written + n * 128 < 2 ^ 63) :
    Ensures (getdentsFrom fd dirp count n pos written) w fun r w' ↦
      r.toInt < 0 → Undisturbed k w'.kernel := by
  have hdone (w' : World) : Ensures (pure (BitVec.ofNat 64 written) : SysM U64) w' fun r w' ↦
      r.toInt < 0 → Undisturbed k w'.kernel := by
    rw [ensures_pure]
    exact fun h ↦ absurd h (Rust.ofNat_of_lt (by omega)).1
  induction n generalizing w pos written with
  | zero => exact hdone w
  | succ n ih =>
    rw [getdentsFrom, ensures_bind, ensures_getKernel]
    split
    · exact hdone w
    · rename_i name typ ino hdirent
      have hname := direntAt_length_le hdirent
      have hreclen : 0 < direntRecordLen name.length ∧ direntRecordLen name.length ≤ 128 := by
        rw [direntRecordLen]
        omega
      rw [ensures_ite]
      refine ⟨fun _ ↦ ?_, fun _ ↦ ?_⟩
      · split
        · rename_i hzero
          exact ensures_pure.mpr fun _ ↦ .of_eq (hk hzero)
        · exact hdone w
      refine (writeDirent_onlyRam _ _ _ _ _ _ w).bind fun _ w₁ h₁ ↦ ?_
      rw [ensures_bind, ensures_modifyKernel]
      refine ih (fun h ↦ absurd h (by omega)) (by omega) fun w' ↦ ?_
      rw [ensures_pure]
      exact fun h ↦ absurd h (Rust.ofNat_of_lt (by omega)).1

theorem sysGetdents64_failsClean (dirp count : ℕ) : FailsClean (sysGetdents64 fd dirp count) w := by
  have htotal := (two_le_rootEntriesCount w.kernel).2
  rw [FailsClean, sysGetdents64, ensures_ite]
  refine ⟨fun _ ↦ failsClean_pure _ w, fun _ ↦ ?_⟩
  rw [ensures_bind, ensures_getKernel]
  split
  · exact failsClean_pure _ w
  · rw [ensures_ite]
    refine ⟨fun _ ↦ failsClean_pure _ w, fun _ ↦ ?_⟩
    exact getdentsFrom_failsClean dirp count (fun _ ↦ rfl) (by omega)
  · exact failsClean_pure _ w

theorem sysDup_failsClean : FailsClean (sysDup fd) w := by
  by_cases hfd : fd ≤ 2
  · rw [sysDup, if_pos hfd]
    exact failsClean_pure _ w
  · exact (sysDup_result hfd).mono fun _ _ h ↦ h.undisturbed

theorem sysDup2_failsClean {newfd : ℕ} : FailsClean (sysDup2 fd newfd) w := by
  rw [FailsClean, sysDup2, ensures_ite]
  refine ⟨fun _ ↦ ?_, fun _ ↦ ?_⟩
  · split <;> exact failsClean_pure _ w
  rw [ensures_ite]
  refine ⟨fun _ ↦ failsClean_pure _ w, fun hnew ↦ ?_⟩
  rw [ensures_bind, ensures_getKernel]
  split
  · exact failsClean_pure _ w
  · exact failsClean_pure _ w
  · refine failsClean_modify (not_lt.mp (Rust.ofNat_of_lt ?_).1)
    have hlt := not_le.mp (not_or.mp hnew).1
    rw [maxFds] at hlt
    omega

theorem sysChdir_failsClean (pathPtr : ℕ) : FailsClean (sysChdir pathPtr) w := by
  rw [FailsClean, sysChdir, ensures_ite]
  refine ⟨fun _ ↦ failsClean_pure _ w, fun _ ↦ ?_⟩
  refine ensures_withPath (fun _ h _ ↦ .of_eq h) fun w₁ path h₁ ↦ ?_
  rw [chdirPath]
  split
  · rw [ensures_bind, ensures_modifyKernel, ensures_pure]
    exact fun h ↦ absurd h (by decide)
  · exact ensures_pure.mpr fun _ ↦ .of_eq h₁

theorem sysWait4_failsClean (pid : U64) (statusPtr : ℕ) : FailsClean (sysWait4 pid statusPtr) w := by
  have hpid : 0 ≤ (w.kernel.pid.setWidth 64).toInt := by
    have hlt := w.kernel.pid.isLt
    have hnat : (w.kernel.pid.setWidth 64).toNat = w.kernel.pid.toNat := by
      rw [BitVec.toNat_setWidth]
      omega
    rw [BitVec.toInt_eq_toNat_of_lt (by omega)]
    omega
  rw [FailsClean, sysWait4, ensures_bind, ensures_getKernel, ensures_ite]
  refine ⟨fun _ ↦ failsClean_pure _ w, fun _ ↦ ?_⟩
  rw [ensures_bind, ensures_modifyKernel, ensures_ite]
  refine ⟨fun hflag ↦ ?_, fun _ ↦ ?_⟩
  · rw [ensures_pure]
    exact fun _ ↦ ⟨rfl, rfl, rfl, rfl, hflag.symm⟩
  · have hself {w' : World} : Ensures (pure (w.kernel.pid.setWidth 64) : SysM U64) w' fun r w' ↦
        r.toInt < 0 → Undisturbed w.kernel w'.kernel :=
      ensures_pure.mpr fun h ↦ absurd h (not_lt.mpr hpid)
    split
    · rw [ensures_bind, ensures_store]
      exact hself
    · exact hself

/-- A read of a standard stream consumes stdin, and nothing else. -/
theorem Effect.polled_of_reserved (h : Effect k .read arg0 arg1 k')
    (hfree : k.fdTable[arg0.toNat]? = some .free) : ∃ polled, k' = { k with polled := polled } := by
  cases h with
  | none => exact ⟨k.polled, rfl⟩
  | exited hnr => exact absurd hnr (by decide)
  | @moved _ _ _ entry pos _ _ _ hentry =>
    obtain rfl : entry = .free := Option.some_inj.mp (hentry.symm.trans hfree)
    rw [FdEntry.withPos, Kernel.setFd_self hfree]
    exact ⟨k.polled, rfl⟩
  | polled polled => exact ⟨polled, rfl⟩

/-- **An error leaves everything as it was.** -/
theorem dispatch_failsClean (hk : w.kernel.FilesOk) (hnr : nr ∈ descriptorCalls) :
    FailsClean (dispatch nr arg0 arg1 arg2 arg3) w := by
  simp only [descriptorCalls, List.mem_cons, List.not_mem_nil, or_false] at hnr
  rcases hnr with rfl | rfl | rfl | rfl | rfl | rfl | rfl | rfl | rfl | rfl | rfl | rfl | rfl | rfl
  · exact (sysOpenat_result _ _ _).mono fun _ _ h ↦ h.undisturbed
  · rw [FailsClean, dispatch, ensures_ite]
    refine ⟨fun hlow r w' hrun _ ↦ ?_, fun _ ↦ sysRead_failsClean hk _ _⟩
    have heffect : Effect w.kernel .read arg0 arg1 w'.kernel := posixRead_effect _ _ _ r w' hrun
    obtain ⟨polled, hpolled⟩ := heffect.polled_of_reserved (hk.reserved _ (by rw [fdBase]; omega))
    rw [hpolled]
    exact ⟨rfl, rfl, rfl, rfl, rfl⟩
  · rw [FailsClean, dispatch, ensures_ite]
    exact ⟨fun _ ↦ failsClean_pure _ w, fun _ ↦ sysClose_failsClean⟩
  · rw [FailsClean, dispatch, ensures_ite]
    exact ⟨fun _ ↦ failsClean_pure _ w, fun _ ↦ sysLseek_failsClean _ _⟩
  · exact failsClean_of_onlyRam (sysFstat_onlyRam _ _ w)
  · exact failsClean_of_onlyRam (sysStatPath_onlyRam _ _ w)
  · exact failsClean_of_onlyRam (sysNewfstatat_onlyRam _ _ _ _ w)
  · exact sysGetdents64_failsClean _ _
  · exact sysDup_failsClean
  · exact sysDup2_failsClean
  · exact failsClean_of_onlyRam (sysAccess_onlyRam _ w)
  · exact sysChdir_failsClean _
  · exact failsClean_of_onlyRam (sysGetcwd_onlyRam _ _ w)
  · exact sysWait4_failsClean _ _

/-! ## All calls -/

/-- A call that makes a new descriptor. -/
theorem dispatch_allocates (hnr : nr.Allocates arg0) :
    Ensures (dispatch nr arg0 arg1 arg2 arg3) w fun r w' ↦
      AllocatedOrFailed w.kernel r w'.kernel := by
  rcases hnr with rfl | ⟨rfl, hbase⟩
  · exact sysOpenat_result _ _ _
  · exact sysDup_result (by rw [fdBase] at hbase; omega)

/-- A call that moves a position. -/
theorem Effect.onlyPosition (h : Effect k nr arg0 arg1 k') (hnr : nr.seeks) :
    OnlyPosition k arg0.toNat k' := by
  cases h with
  | none => exact .inr ⟨k.polled, rfl⟩
  | moved pos _ _ _ hentry => exact .inl ⟨_, pos, hentry, rfl⟩
  | polled polled => exact .inr ⟨polled, rfl⟩
  | exited hexit =>
    rcases hexit with rfl | rfl
    · exact absurd hnr (by simp [Nr.seeks])
    · exact absurd hnr (by simp [Nr.seeks])
  | _ => exact absurd hnr (by simp [Nr.seeks])

theorem Effect.of_close (h : Effect k .close arg0 arg1 k') :
    k' = k ∨ k' = k.setFd arg0.toNat .free := by
  cases h with
  | none => exact .inl rfl
  | closed => exact .inr rfl
  | exited hnr => exact absurd hnr (by decide)
  | moved _ hnr => exact absurd hnr (by simp [Nr.seeks])

theorem Effect.of_dup2 (h : Effect k .dup2 arg0 arg1 k') : k' = k ∨
    ∃ entry, k.fdTable[arg0.toNat]? = some entry ∧ k' = k.setFd arg1.toNat entry := by
  cases h with
  | none => exact .inl rfl
  | dupedTo _ hentry => exact .inr ⟨_, hentry, rfl⟩
  | exited hnr => exact absurd hnr (by decide)
  | moved _ hnr => exact absurd hnr (by simp [Nr.seeks])

theorem Kernel.FilesOk.atomic (hk : w.kernel.FilesOk) : DescriptorsAtomic w where
  reserved := hk.reserved
  allocates nr arg0 arg1 arg2 arg3 r w' hrun hnr hr := by
    rcases dispatch_allocates hnr r w' hrun with h | ⟨hneg, -⟩
    · exact h
    · exact absurd hr (not_le.mpr hneg)
  close arg0 arg1 arg2 arg3 r w' hrun := (dispatch_effect r w' hrun).of_close
  dup2 arg0 arg1 arg2 arg3 r w' hrun := (dispatch_effect r w' hrun).of_dup2
  seeks nr arg0 arg1 arg2 arg3 r w' hnr hrun := (dispatch_effect r w' hrun).onlyPosition hnr
  errors nr hnr arg0 arg1 arg2 arg3 r w' hrun := dispatch_failsClean hk hnr r w' hrun

/-- **From a mount on, descriptor calls are atomic**, whatever happens. -/
theorem descriptors_atomic (w : World) (image : Image) (es : List KernelEvent) :
    Runs.Always KernelEvent.Happens (fun s ↦ DescriptorsAtomic s.world)
      ⟨(), { w with kernel := w.kernel.setRootfs image }⟩ es := by
  intro es' s _ hrun
  have hk : s.world.kernel.FilesOk := by
    refine Runs.Trace.keeps (P := fun s : Recorded Unit ↦ s.world.kernel.FilesOk) ?_ hrun
      (Kernel.filesOk_setRootfs image)
    rintro e s s' hs ⟨r, hran, -⟩
    exact hran.filesOk hs
  exact hk.atomic

end LeonOS
