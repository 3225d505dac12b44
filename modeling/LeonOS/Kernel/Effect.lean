import LeonOS.Kernel.Syscall

/-!
# What a system call can have done

`Effect` lists what a call of `dispatch` can do to the globals, with the arguments that name the
descriptor and with the guards under which it is done.  `dispatch_effect` says that the list is
complete; what holds of the globals over a run is derived from it, and the functions of
`syscall.rs` are unfolded here for the last time except where a result is at stake.

The calls that only look at the caller's memory or fill it leave the globals alone (`OnlyRam`).
-/

set_option autoImplicit false

namespace LeonOS

open Bytes RustM

variable {w : World}

/-! ## Calls that stay in memory -/

/-- The globals are unchanged. -/
def OnlyRam (w w' : World) : Prop := w'.kernel = w.kernel

theorem OnlyRam.refl (w : World) : OnlyRam w w := rfl

theorem OnlyRam.trans {w₁ w₂ w₃ : World} (h : OnlyRam w₁ w₂) (h' : OnlyRam w₂ w₃) :
    OnlyRam w₁ w₃ :=
  Eq.trans h' h

theorem store_onlyRam (a : ℕ) (bs : List U8) (w : World) :
    Ensures (store a bs) w fun _ w' ↦ OnlyRam w w' :=
  ensures_store.mpr rfl

theorem readCstrFrom_onlyRam (ptr n : ℕ) (bytes : List U8) (w : World) :
    Ensures (readCstrFrom ptr n bytes) w fun _ w' ↦ OnlyRam w w' := by
  induction n generalizing bytes w with
  | zero => exact ensures_pure.mpr (OnlyRam.refl w)
  | succ n ih =>
    rw [readCstrFrom, ensures_bind, ensures_load, ensures_ite]
    exact ⟨fun _ ↦ ensures_pure.mpr rfl, fun _ ↦ ih _ _⟩

theorem readCstr_onlyRam (ptr : ℕ) (w : World) :
    Ensures (readCstr ptr) w fun _ w' ↦ OnlyRam w w' :=
  readCstrFrom_onlyRam ptr _ _ w

/-- What is done with a path is done with the globals unchanged. -/
theorem ensures_withPath {pathPtr : ℕ} {f : String → SysM U64} {w : World}
    {P : U64 → World → Prop} (hnone : ∀ w₁, w₁.kernel = w.kernel → P (-efault) w₁)
    (hf : ∀ w₁ path, w₁.kernel = w.kernel → Ensures (f path) w₁ P) :
    Ensures (withPath pathPtr f) w P := by
  refine (readCstr_onlyRam pathPtr w).bind fun path w₁ h₁ ↦ ?_
  split
  · exact hf w₁ _ h₁
  · exact ensures_pure.mpr (hnone w₁ h₁)

theorem writeStat_onlyRam (statPtr : ℕ) (isDir : Bool) (size : ℕ) (mode : BitVec 16) (ino : ℕ)
    (w : World) : Ensures (writeStat statPtr isDir size mode ino) w fun _ w' ↦ OnlyRam w w' := by
  rw [writeStat, ensures_bind, ensures_store, ensures_pure]
  rfl

theorem writeDirent_onlyRam (rec : ℕ) (name : List U8) (typ : U8) (ino off reclen : ℕ) (w : World) :
    Ensures (writeDirent rec name typ ino off reclen) w fun _ w' ↦ OnlyRam w w' := by
  rw [writeDirent]
  simp only [ensures_bind, ensures_store]
  rfl

theorem unameFrom_onlyRam (base : ℕ) (vals : List (List U8)) (w : World) :
    Ensures (unameFrom base vals) w fun _ w' ↦ OnlyRam w w' := by
  induction vals generalizing base w with
  | nil => exact ensures_pure.mpr (OnlyRam.refl w)
  | cons s vals ih =>
    rw [unameFrom]
    refine (store_onlyRam _ _ w).bind fun _ w₁ h₁ ↦ ?_
    refine (store_onlyRam _ _ w₁).bind fun _ w₂ h₂ ↦ ?_
    exact (ih _ w₂).mono fun _ _ h ↦ (h₁.trans h₂).trans h

theorem writeTime_onlyRam (tp : ℕ) (w : World) :
    Ensures (writeTime tp) w fun _ w' ↦ OnlyRam w w' := by
  rw [writeTime]
  simp only [ensures_bind, ensures_store, ensures_pure]
  rfl

/-! ## The list -/

/-- The entry at another position. -/
def FdEntry.withPos (entry : FdEntry) (pos : ℕ) : FdEntry :=
  match entry with
  | .free => .free
  | .rootDir _ => .rootDir pos
  | .file dataPtr len _ mode => .file dataPtr len pos mode

/-- The entry of a record in a mounted image, as `sys_openat` makes it. -/
def FileRecord.opened (r : FileRecord) (image : Image) : FdEntry :=
  .file ⟨image, r.dataPtr⟩ r.data.length 0 r.mode

/-- What can be opened. -/
inductive Kernel.Openable (k : Kernel) : FdEntry → Prop
  | rootDir : k.Openable (.rootDir 0)
  | file {image : Image} {i : ℕ} {r : FileRecord} (hmount : k.rootfs = some image)
      (hentry : Fs.entry image.bytes i = .ok r) : k.Openable (r.opened image)

/-- The calls that move the position of a descriptor. -/
def Nr.seeks (nr : Nr) : Prop := nr = .read ∨ nr = .lseek ∨ nr = .getdents64

/-- **What a system call can do to the globals.** -/
inductive Effect (k : Kernel) : Nr → U64 → U64 → Kernel → Prop
  | none {nr : Nr} {arg0 arg1 : U64} : Effect k nr arg0 arg1 k
  | opened {arg0 arg1 : U64} {fd : ℕ} {entry : FdEntry} (hfree : k.firstFree = some fd)
      (hentry : k.Openable entry) : Effect k .openat arg0 arg1 (k.setFd fd entry)
  | duped {arg0 arg1 : U64} {fd : ℕ} {entry : FdEntry} (hfree : k.firstFree = some fd)
      (hentry : k.fdTable[arg0.toNat]? = some entry) : Effect k .dup arg0 arg1 (k.setFd fd entry)
  | dupedTo {arg0 arg1 : U64} {entry : FdEntry} (hbase : fdBase ≤ arg1.toNat)
      (hentry : k.fdTable[arg0.toNat]? = some entry) :
      Effect k .dup2 arg0 arg1 (k.setFd arg1.toNat entry)
  | closed {arg0 arg1 : U64} (hbase : fdBase ≤ arg0.toNat) :
      Effect k .close arg0 arg1 (k.setFd arg0.toNat .free)
  | moved {nr : Nr} {arg0 arg1 : U64} {entry : FdEntry} (pos : ℕ) (hnr : nr.seeks)
      (hdir : nr = .getdents64 → entry.isRootDir) (hfile : nr = .read → ¬entry.isRootDir)
      (hentry : k.fdTable[arg0.toNat]? = some entry) :
      Effect k nr arg0 arg1 (k.setFd arg0.toNat (entry.withPos pos))
  | exited {nr : Nr} {arg0 arg1 : U64} (hnr : nr = .exit ∨ nr = .exitGroup) :
      Effect k nr arg0 arg1 (k.markExitCode (arg0.setWidth 32))
  | reaped {arg0 arg1 : U64} : Effect k .wait4 arg0 arg1 { k with exitWaitable := false }
  | brk {arg0 arg1 : U64} : Effect k .brk arg0 arg1 (k.brkSet arg0)
  | mapped {arg0 arg1 : U64} (mmapBase : U64) :
      Effect k .mmap arg0 arg1 { k with mmapBase := mmapBase }
  | archFs {arg0 arg1 : U64} : Effect k .archPrctl arg0 arg1 { k with archFs := arg1 }
  | archGs {arg0 arg1 : U64} : Effect k .archPrctl arg0 arg1 { k with archGs := arg1 }
  | changedDir {arg0 arg1 : U64} : Effect k .chdir arg0 arg1 k.setCwd
  | polled {arg0 arg1 : U64} (polled : ℕ) : Effect k .read arg0 arg1 { k with polled := polled }

variable {nr : Nr} {arg0 arg1 arg2 arg3 : U64}

theorem Effect.of_eq {k k' : Kernel} (h : k' = k) : Effect k nr arg0 arg1 k' :=
  h ▸ Effect.none

theorem OnlyRam.effect {w w' : World} (h : OnlyRam w w') :
    Effect w.kernel nr arg0 arg1 w'.kernel :=
  .of_eq h

/-! ## It is complete -/

theorem allocFd_opened {entry : FdEntry} {k : Kernel} (hk : w.kernel = k)
    (hentry : k.Openable entry) :
    Ensures (allocFd entry) w fun _ w' ↦ Effect k .openat arg0 arg1 w'.kernel := by
  subst hk
  rw [allocFd, ensures_bind, ensures_getKernel]
  split
  · rename_i i hi
    exact ensures_of_eq rfl |>.mpr (.opened hi hentry)
  · exact ensures_pure.mpr .none

theorem openName_effect (name : String) (flags : U64) {k : Kernel} (hk : w.kernel = k) :
    Ensures (openName name flags) w fun _ w' ↦ Effect k .openat arg0 arg1 w'.kernel := by
  rw [openName, ensures_bind, ensures_getKernel]
  split
  · rename_i image hmount
    split
    · rename_i r hopen
      obtain ⟨i, hentry, -⟩ := Fs.open_eq_ok hopen
      rw [ensures_ite]
      refine ⟨fun _ ↦ ensures_pure.mpr (.of_eq hk), fun _ ↦ ?_⟩
      exact allocFd_opened hk (.file (hk ▸ hmount) hentry)
    · exact ensures_pure.mpr (.of_eq hk)
  · exact ensures_pure.mpr (.of_eq hk)

theorem openPath_effect (path : String) (flags : U64) {k : Kernel} (hk : w.kernel = k) :
    Ensures (openPath path flags) w fun _ w' ↦ Effect k .openat arg0 arg1 w'.kernel := by
  rw [openPath]
  split
  · exact allocFd_opened hk .rootDir
  split
  · exact allocFd_opened hk .rootDir
  split
  · split
    · exact allocFd_opened hk .rootDir
    · exact openName_effect _ _ hk
  · exact ensures_pure.mpr (.of_eq hk)

theorem sysOpenat_effect (dirfd : U64) (pathPtr : ℕ) (flags : U64) :
    Ensures (sysOpenat dirfd pathPtr flags) w fun _ w' ↦
      Effect w.kernel .openat arg0 arg1 w'.kernel := by
  rw [sysOpenat, ensures_ite]
  refine ⟨fun _ ↦ ensures_pure.mpr .none, fun _ ↦ ?_⟩
  rw [ensures_bind, ensures_getKernel, ensures_ite]
  refine ⟨fun _ ↦ ensures_pure.mpr .none, fun _ ↦ ?_⟩
  exact ensures_withPath (fun _ h ↦ .of_eq h) fun _ path h ↦ openPath_effect path flags h

theorem sysRead_effect (buf len : ℕ) :
    Ensures (sysRead arg0.toNat buf len) w fun _ w' ↦ Effect w.kernel .read arg0 arg1 w'.kernel := by
  rw [sysRead, ensures_ite]
  refine ⟨fun _ ↦ ensures_pure.mpr .none, fun _ ↦ ?_⟩
  rw [ensures_bind, ensures_getKernel]
  split
  · exact ensures_pure.mpr .none
  · exact ensures_pure.mpr .none
  · exact ensures_pure.mpr .none
  · rename_i hentry
    rw [ensures_ite]
    refine ⟨fun _ ↦ ensures_pure.mpr .none, fun _ ↦ ?_⟩
    simp only [ensures_bind, ensures_lift, ensures_store, ensures_modifyKernel, ensures_pure]
    refine fun _ _ newPos _ ↦ .moved newPos (.inl rfl) (fun h ↦ by cases h) (fun _ ↦ ?_) hentry
    exact Bool.false_ne_true

theorem sysClose_effect (hbase : ¬arg0.toNat ≤ 2) : Ensures (sysClose arg0.toNat) w fun _ w' ↦
    Effect w.kernel .close arg0 arg1 w'.kernel := by
  rw [sysClose, ensures_bind, ensures_getKernel]
  split
  · exact ensures_pure.mpr .none
  · exact ensures_pure.mpr .none
  · simp only [ensures_bind, ensures_modifyKernel, ensures_pure]
    exact .closed (by rw [fdBase]; omega)

theorem sysLseek_effect (off : U64) (whence : ℕ) :
    Ensures (sysLseek arg0.toNat off whence) w fun _ w' ↦
      Effect w.kernel .lseek arg0 arg1 w'.kernel := by
  have hlseek : Nr.lseek.seeks := .inr (.inl rfl)
  rw [sysLseek, ensures_bind, ensures_getKernel]
  split
  · exact ensures_pure.mpr .none
  · exact ensures_pure.mpr .none
  · rename_i hentry
    split
    · simp only [ensures_bind, ensures_modifyKernel, ensures_pure]
      exact .moved _ hlseek (fun h ↦ by cases h) (fun h ↦ by cases h) hentry
    · exact ensures_pure.mpr .none
  · rename_i hentry
    split
    · simp only [ensures_bind, ensures_modifyKernel, ensures_pure]
      exact .moved _ hlseek (fun h ↦ by cases h) (fun h ↦ by cases h) hentry
    · exact ensures_pure.mpr .none

theorem statPath_onlyRam (path : String) (statPtr : ℕ) (w : World) :
    Ensures (statPath path statPtr) w fun _ w' ↦ OnlyRam w w' := by
  rw [statPath]
  split
  · exact writeStat_onlyRam _ _ _ _ _ w
  split
  · rw [ensures_bind, ensures_getKernel]
    split
    · split
      · exact writeStat_onlyRam _ _ _ _ _ w
      · exact ensures_pure.mpr (OnlyRam.refl w)
    · exact ensures_pure.mpr (OnlyRam.refl w)
  · exact ensures_pure.mpr (OnlyRam.refl w)

theorem sysStatPath_onlyRam (pathPtr statPtr : ℕ) (w : World) :
    Ensures (sysStatPath pathPtr statPtr) w fun _ w' ↦ OnlyRam w w' := by
  rw [sysStatPath, ensures_ite]
  refine ⟨fun _ ↦ ensures_pure.mpr (OnlyRam.refl w), fun _ ↦ ?_⟩
  exact ensures_withPath (fun _ h ↦ h) fun w₁ path h₁ ↦
    (statPath_onlyRam path statPtr w₁).mono fun _ _ h ↦ OnlyRam.trans h₁ h

theorem sysFstat_onlyRam (fd statPtr : ℕ) (w : World) :
    Ensures (sysFstat fd statPtr) w fun _ w' ↦ OnlyRam w w' := by
  rw [sysFstat, ensures_ite]
  refine ⟨fun _ ↦ ensures_pure.mpr (OnlyRam.refl w), fun _ ↦ ?_⟩
  split
  · exact (writeStat_onlyRam _ _ _ _ _ w)
  rw [ensures_bind, ensures_getKernel]
  split
  · exact ensures_pure.mpr (OnlyRam.refl w)
  · exact ensures_pure.mpr (OnlyRam.refl w)
  · exact (writeStat_onlyRam _ _ _ _ _ w)
  · exact (writeStat_onlyRam _ _ _ _ _ w)

theorem newfstatatPath_onlyRam (dirfd : U64) (pathPtr statPtr : ℕ) (flags : U64) (path : String)
    (w : World) :
    Ensures (newfstatatPath dirfd pathPtr statPtr flags path) w fun _ w' ↦ OnlyRam w w' := by
  rw [newfstatatPath]
  split
  · split
    · exact writeStat_onlyRam _ _ _ _ _ w
    split
    · exact ensures_pure.mpr (OnlyRam.refl w)
    · exact sysFstat_onlyRam _ _ w
  · rw [ensures_bind, ensures_getKernel]
    split
    · exact ensures_pure.mpr (OnlyRam.refl w)
    · exact sysStatPath_onlyRam _ _ w

theorem sysNewfstatat_onlyRam (dirfd : U64) (pathPtr statPtr : ℕ) (flags : U64) (w : World) :
    Ensures (sysNewfstatat dirfd pathPtr statPtr flags) w fun _ w' ↦ OnlyRam w w' := by
  rw [sysNewfstatat, ensures_ite]
  refine ⟨fun _ ↦ ensures_pure.mpr (OnlyRam.refl w), fun _ ↦ ?_⟩
  rw [ensures_ite]
  refine ⟨fun _ ↦ ensures_pure.mpr (OnlyRam.refl w), fun _ ↦ ?_⟩
  exact ensures_withPath (fun _ h ↦ h) fun w₁ path h₁ ↦
    (newfstatatPath_onlyRam _ _ _ _ path w₁).mono fun _ _ h ↦ OnlyRam.trans h₁ h

/-- The records are written one by one, and each moves the position. -/
theorem getdentsFrom_effect (dirp count n pos written : ℕ) {k : Kernel}
    {dir : FdEntry} (hdir : k.fdTable[arg0.toNat]? = some dir) (hroot : dir.isRootDir)
    (hk : w.kernel = k ∨ w.kernel = k.setFd arg0.toNat (dir.withPos pos)) :
    Ensures (getdentsFrom arg0.toNat dirp count n pos written) w fun _ w' ↦
      Effect k .getdents64 arg0 arg1 w'.kernel := by
  have hmoved : Effect k .getdents64 arg0 arg1 w.kernel := by
    rcases hk with hk | hk
    · exact .of_eq hk
    · rw [hk]
      exact .moved pos (.inr (.inr rfl)) (fun _ ↦ hroot) nofun hdir
  induction n generalizing w pos written with
  | zero => exact ensures_pure.mpr hmoved
  | succ n ih =>
    rw [getdentsFrom, ensures_bind, ensures_getKernel]
    split
    · exact ensures_pure.mpr hmoved
    · rename_i name typ ino _
      rw [ensures_ite]
      refine ⟨fun _ ↦ ?_, fun _ ↦ ?_⟩
      · split <;> exact ensures_pure.mpr hmoved
      refine (writeDirent_onlyRam _ _ _ _ _ _ w).bind fun _ w₁ h₁ ↦ ?_
      rw [ensures_bind, ensures_modifyKernel]
      have hset : w₁.kernel.setFd arg0.toNat (.rootDir (pos + 1)) =
          k.setFd arg0.toNat (dir.withPos (pos + 1)) := by
        cases dir with
        | free => exact absurd hroot (by decide)
        | file => exact absurd hroot (by simp [FdEntry.isRootDir])
        | rootDir p =>
          rcases hk with hk | hk <;> rw [h₁, hk]
          · rfl
          · exact Kernel.setFd_setFd
      refine ih _ _ (.inr hset) ?_
      rw [hset]
      exact .moved (pos + 1) (.inr (.inr rfl)) (fun _ ↦ hroot) nofun hdir

theorem sysGetdents64_effect (dirp count : ℕ) :
    Ensures (sysGetdents64 arg0.toNat dirp count) w fun _ w' ↦
      Effect w.kernel .getdents64 arg0 arg1 w'.kernel := by
  rw [sysGetdents64, ensures_ite]
  refine ⟨fun _ ↦ ensures_pure.mpr .none, fun _ ↦ ?_⟩
  rw [ensures_bind, ensures_getKernel]
  split
  · exact ensures_pure.mpr .none
  · rename_i hdir
    rw [ensures_ite]
    refine ⟨fun _ ↦ ensures_pure.mpr .none, fun _ ↦ ?_⟩
    exact getdentsFrom_effect _ _ _ _ _ hdir rfl (.inl rfl)
  · exact ensures_pure.mpr .none

theorem sysGetcwd_onlyRam (buf size : ℕ) (w : World) :
    Ensures (sysGetcwd buf size) w fun _ w' ↦ OnlyRam w w' := by
  rw [sysGetcwd, ensures_ite]
  refine ⟨fun _ ↦ ensures_pure.mpr (OnlyRam.refl w), fun _ ↦ ?_⟩
  rw [ensures_bind, ensures_getKernel, ensures_ite]
  refine ⟨fun _ ↦ ensures_pure.mpr (OnlyRam.refl w), fun _ ↦ ?_⟩
  refine (store_onlyRam _ _ w).bind fun _ w₁ h₁ ↦ ?_
  refine (store_onlyRam _ _ w₁).bind fun _ w₂ h₂ ↦ ?_
  exact ensures_pure.mpr (h₁.trans h₂)

theorem sysChdir_effect (pathPtr : ℕ) :
    Ensures (sysChdir pathPtr) w fun _ w' ↦ Effect w.kernel .chdir arg0 arg1 w'.kernel := by
  rw [sysChdir, ensures_ite]
  refine ⟨fun _ ↦ ensures_pure.mpr .none, fun _ ↦ ?_⟩
  refine ensures_withPath (fun _ h ↦ .of_eq h) fun w₁ path h₁ ↦ ?_
  rw [chdirPath]
  split
  · simp only [ensures_bind, ensures_modifyKernel, ensures_pure]
    rw [h₁]
    exact .changedDir
  · exact ensures_pure.mpr (.of_eq h₁)

theorem sysAccess_onlyRam (pathPtr : ℕ) (w : World) :
    Ensures (sysAccess pathPtr) w fun _ w' ↦ OnlyRam w w' := by
  rw [sysAccess, ensures_ite]
  refine ⟨fun _ ↦ ensures_pure.mpr (OnlyRam.refl w), fun _ ↦ ?_⟩
  refine ensures_withPath (fun _ h ↦ h) fun w₁ path h₁ ↦ ?_
  rw [accessPath, ensures_bind, ensures_getKernel, ensures_pure]
  exact h₁

theorem readlinkImpl_onlyRam (path : String) (buf bufsz : ℕ) (w : World) :
    Ensures (readlinkImpl path buf bufsz) w fun _ w' ↦ OnlyRam w w' := by
  rw [readlinkImpl, ensures_ite]
  refine ⟨fun _ ↦ ensures_pure.mpr (OnlyRam.refl w), fun _ ↦ ?_⟩
  split
  · exact (store_onlyRam _ _ w).bind fun _ w₁ h₁ ↦ ensures_pure.mpr h₁
  · exact ensures_pure.mpr (OnlyRam.refl w)

theorem sysReadlink_onlyRam (pathPtr buf bufsz : ℕ) (w : World) :
    Ensures (sysReadlink pathPtr buf bufsz) w fun _ w' ↦ OnlyRam w w' := by
  rw [sysReadlink, ensures_ite]
  refine ⟨fun _ ↦ ensures_pure.mpr (OnlyRam.refl w), fun _ ↦ ?_⟩
  exact ensures_withPath (fun _ h ↦ h) fun w₁ path h₁ ↦
    (readlinkImpl_onlyRam path buf bufsz w₁).mono fun _ _ h ↦ OnlyRam.trans h₁ h

theorem sysUname_onlyRam (buf : ℕ) (w : World) :
    Ensures (sysUname buf) w fun _ w' ↦ OnlyRam w w' := by
  rw [sysUname, ensures_ite]
  refine ⟨fun _ ↦ ensures_pure.mpr (OnlyRam.refl w), fun _ ↦ ?_⟩
  exact (unameFrom_onlyRam _ _ w).bind fun _ _ h ↦ ensures_pure.mpr h

theorem sysClockGettime_onlyRam (tp : ℕ) (w : World) :
    Ensures (sysClockGettime tp) w fun _ w' ↦ OnlyRam w w' := by
  rw [sysClockGettime, ensures_ite]
  refine ⟨fun _ ↦ ensures_pure.mpr (OnlyRam.refl w), fun _ ↦ ?_⟩
  exact (writeTime_onlyRam tp w)

theorem sysGettimeofday_onlyRam (tv : ℕ) (w : World) :
    Ensures (sysGettimeofday tv) w fun _ w' ↦ OnlyRam w w' := by
  rw [sysGettimeofday, ensures_ite]
  refine ⟨fun _ ↦ ensures_pure.mpr (OnlyRam.refl w), fun _ ↦ ?_⟩
  exact (writeTime_onlyRam tv w)

theorem sysGetrandom_onlyRam (buf len : ℕ) (w : World) :
    Ensures (sysGetrandom buf len) w fun _ w' ↦ OnlyRam w w' := by
  rw [sysGetrandom, ensures_ite]
  refine ⟨fun _ ↦ ensures_pure.mpr (OnlyRam.refl w), fun _ ↦ ?_⟩
  exact (store_onlyRam _ _ w).bind fun _ _ h ↦ ensures_pure.mpr h

theorem sysDup_effect :
    Ensures (sysDup arg0.toNat) w fun _ w' ↦ Effect w.kernel .dup arg0 arg1 w'.kernel := by
  rw [sysDup, ensures_ite]
  refine ⟨fun _ ↦ ensures_pure.mpr .none, fun _ ↦ ?_⟩
  rw [ensures_bind, ensures_getKernel]
  split
  · exact ensures_pure.mpr .none
  · exact ensures_pure.mpr .none
  · rename_i hentry
    rw [allocFd, ensures_bind, ensures_getKernel]
    split
    · rename_i i hi
      simp only [ensures_bind, ensures_modifyKernel, ensures_pure]
      exact .duped hi hentry
    · exact ensures_pure.mpr .none

theorem sysDup2_effect :
    Ensures (sysDup2 arg0.toNat arg1.toNat) w fun _ w' ↦
      Effect w.kernel .dup2 arg0 arg1 w'.kernel := by
  rw [sysDup2, ensures_ite]
  refine ⟨fun _ ↦ ?_, fun _ ↦ ?_⟩
  · split <;> exact ensures_pure.mpr .none
  rw [ensures_ite]
  refine ⟨fun _ ↦ ensures_pure.mpr .none, fun hnew ↦ ?_⟩
  rw [ensures_bind, ensures_getKernel]
  split
  · exact ensures_pure.mpr .none
  · exact ensures_pure.mpr .none
  · rename_i hentry
    simp only [ensures_bind, ensures_modifyKernel, ensures_pure]
    exact .dupedTo (not_lt.mp (not_or.mp hnew).2) hentry

theorem sysWait4_effect (pid : U64) (statusPtr : ℕ) : Ensures (sysWait4 pid statusPtr) w
    fun _ w' ↦ Effect w.kernel .wait4 arg0 arg1 w'.kernel := by
  rw [sysWait4, ensures_bind, ensures_getKernel, ensures_ite]
  refine ⟨fun _ ↦ ensures_pure.mpr .none, fun _ ↦ ?_⟩
  rw [ensures_bind, ensures_modifyKernel, ensures_ite]
  refine ⟨fun _ ↦ ensures_pure.mpr .reaped, fun _ ↦ ?_⟩
  split
  · simp only [ensures_bind, ensures_store, ensures_pure]
    exact .reaped
  · exact ensures_pure.mpr .reaped

theorem posixReadFrom_effect (buf n got : ℕ) {k : Kernel}
    (hk : ∃ polled, w.kernel = { k with polled := polled }) :
    Ensures (posixReadFrom buf n got) w fun _ w' ↦ Effect k .read arg0 arg1 w'.kernel := by
  induction n generalizing w got with
  | zero =>
    obtain ⟨polled, hk⟩ := hk
    rw [posixReadFrom, ensures_pure, hk]
    exact .polled polled
  | succ n ih =>
    have hpolled : Ensures readStdinByteBlocking w fun _ w' ↦
        ∃ polled, w'.kernel = { k with polled := polled } := by
      rw [readStdinByteBlocking, ensures_bind, ensures_getKernel]
      split
      · exact ensures_pure.mpr hk
      · simp only [ensures_bind, ensures_modifyKernel, ensures_pure]
        obtain ⟨polled, hk⟩ := hk
        exact ⟨_, by rw [hk]⟩
    rw [posixReadFrom]
    refine hpolled.bind fun ch w₁ h₁ ↦ ?_
    have hdone : Effect k .read arg0 arg1 w₁.kernel := by
      obtain ⟨polled, h⟩ := h₁
      rw [h]
      exact .polled polled
    split
    · exact ensures_pure.mpr hdone
    · rw [ensures_bind, ensures_store]
      split
      · exact ensures_pure.mpr hdone
      · exact ih _ h₁

theorem posixRead_effect (fd buf len : ℕ) : Ensures (posixRead fd buf len) w fun _ w' ↦
    Effect w.kernel .read arg0 arg1 w'.kernel := by
  rw [posixRead, ensures_ite]
  refine ⟨fun _ ↦ ?_, fun _ ↦ ensures_pure.mpr .none⟩
  split
  · exact ensures_pure.mpr .none
  · exact posixReadFrom_effect _ _ _ ⟨w.kernel.polled, rfl⟩

theorem sysMmap_effect :
    Ensures (sysMmap arg1) w fun _ w' ↦ Effect w.kernel .mmap arg0 arg1 w'.kernel := by
  rw [sysMmap]
  simp only [ensures_bind, ensures_lift, ensures_getKernel, ensures_modifyKernel, ensures_pure]
  exact fun _ _ ↦ .mapped _

theorem sysArchPrctl_effect : Ensures (sysArchPrctl arg0 arg1) w fun _ w' ↦
    Effect w.kernel .archPrctl arg0 arg1 w'.kernel := by
  rw [sysArchPrctl]
  split
  · simp only [ensures_bind, ensures_modifyKernel, ensures_pure]
    exact .archGs
  split
  · simp only [ensures_bind, ensures_modifyKernel, ensures_pure]
    exact .archFs
  · exact ensures_pure.mpr .none

/-- **The list of effects is complete.** -/
theorem dispatch_effect : Ensures (dispatch nr arg0 arg1 arg2 arg3) w fun _ w' ↦
    Effect w.kernel nr arg0 arg1 w'.kernel := by
  cases nr with
  | read =>
    rw [dispatch, ensures_ite]
    exact ⟨fun _ ↦ posixRead_effect _ _ _, fun _ ↦ sysRead_effect _ _⟩
  | brk => exact ensures_of_eq rfl |>.mpr .brk
  | exit => exact ensures_of_eq rfl |>.mpr (.exited (.inl rfl))
  | exitGroup => exact ensures_of_eq rfl |>.mpr (.exited (.inr rfl))
  | getpid | gettid | setTidAddress => exact ensures_of_eq rfl |>.mpr .none
  | close =>
    rw [dispatch, ensures_ite]
    exact ⟨fun _ ↦ ensures_pure.mpr .none, fun h ↦ sysClose_effect h⟩
  | lseek =>
    rw [dispatch, ensures_ite]
    exact ⟨fun _ ↦ ensures_pure.mpr .none, fun _ ↦ sysLseek_effect _ _⟩
  | mmap => exact sysMmap_effect
  | clockGettime => exact (sysClockGettime_onlyRam _ w).mono fun _ _ h ↦ h.effect
  | gettimeofday => exact (sysGettimeofday_onlyRam _ w).mono fun _ _ h ↦ h.effect
  | uname => exact (sysUname_onlyRam _ w).mono fun _ _ h ↦ h.effect
  | archPrctl => exact sysArchPrctl_effect
  | getrandom => exact (sysGetrandom_onlyRam _ _ w).mono fun _ _ h ↦ h.effect
  | openat => exact sysOpenat_effect _ _ _
  | newfstatat => exact (sysNewfstatat_onlyRam _ _ _ _ w).mono fun _ _ h ↦ h.effect
  | stat | lstat => exact (sysStatPath_onlyRam _ _ w).mono fun _ _ h ↦ h.effect
  | fstat => exact (sysFstat_onlyRam _ _ w).mono fun _ _ h ↦ h.effect
  | getdents64 => exact sysGetdents64_effect _ _
  | readlinkat | readlink => exact (sysReadlink_onlyRam _ _ _ w).mono fun _ _ h ↦ h.effect
  | faccessat | access => exact (sysAccess_onlyRam _ w).mono fun _ _ h ↦ h.effect
  | dup => exact sysDup_effect
  | dup2 => exact sysDup2_effect
  | getcwd => exact (sysGetcwd_onlyRam _ _ w).mono fun _ _ h ↦ h.effect
  | chdir => exact sysChdir_effect _
  | wait4 => exact sysWait4_effect _ _
  | _ => exact ensures_pure.mpr .none

/-! ## What it leaves alone -/

variable {k k' : Kernel} {fd : ℕ}

theorem Kernel.firstFree_free (h : k.firstFree = some fd) : k.fdTable[fd]? = some .free := by
  have hfree := List.find?_some h
  cases hentry : k.fdTable[fd]? with
  | none =>
    rw [hentry] at hfree
    exact nomatch hfree
  | some entry =>
    rw [hentry] at hfree
    cases entry with
    | free => rfl
    | rootDir | file => exact nomatch hfree

/-- The descriptor whose entry a call can change, apart from those that are free. -/
def Nr.Targets (nr : Nr) (arg0 arg1 : U64) (fd : ℕ) : Prop :=
  ((nr = .close ∨ nr.seeks) ∧ arg0.toNat = fd) ∨ (nr = .dup2 ∧ arg1.toNat = fd)

/-- **The other entries that are in use stay.** -/
theorem Effect.slot (h : Effect k nr arg0 arg1 k') (hfd : ¬nr.Targets arg0 arg1 fd)
    (hused : k.fdTable[fd]? ≠ some .free) : k'.fdTable[fd]? = k.fdTable[fd]? := by
  have hset {fd' : ℕ} {entry : FdEntry} (hne : fd' ≠ fd) :
      (k.setFd fd' entry).fdTable[fd]? = k.fdTable[fd]? := by
    by_cases hlt : fd' < maxFds
    · rw [Kernel.getElem?_setFd hlt, if_neg hne]
    · rw [Kernel.setFd_of_le (not_lt.mp hlt)]
  cases h with
  | opened hfree | duped hfree =>
    refine hset fun heq ↦ hused ?_
    rw [← heq]
    exact Kernel.firstFree_free hfree
  | dupedTo => exact hset fun heq ↦ hfd (.inr ⟨rfl, heq⟩)
  | closed => exact hset fun heq ↦ hfd (.inl ⟨.inl rfl, heq⟩)
  | moved _ hnr => exact hset fun heq ↦ hfd (.inl ⟨.inr hnr, heq⟩)
  | brk =>
    rw [Kernel.brkSet]
    split <;> rfl
  | _ => rfl

/-- A read leaves a directory where it is. -/
theorem Effect.slot_of_isRootDir {entry : FdEntry} (h : Effect k .read arg0 arg1 k')
    (hentry : k.fdTable[arg0.toNat]? = some entry) (hroot : entry.isRootDir) :
    k'.fdTable[arg0.toNat]? = k.fdTable[arg0.toNat]? := by
  cases h with
  | none | polled => rfl
  | exited hnr => exact absurd hnr (by decide)
  | moved _ _ _ hfile hentry' =>
    obtain rfl := Option.some_inj.mp (hentry.symm.trans hentry')
    exact absurd hroot (hfile rfl)

/-- A byte of stdin counts the polls up, and does nothing else. -/
theorem ensures_readStdinByteBlocking {w : World} {P : Kernel → Prop} (hsame : P w.kernel)
    (hpoll : ∀ n, P { w.kernel with polled := n }) :
    Ensures readStdinByteBlocking w fun _ w' ↦ P w'.kernel := by
  rw [readStdinByteBlocking, ensures_bind, ensures_getKernel]
  split
  · exact ensures_pure.mpr hsame
  · simp only [ensures_bind, ensures_modifyKernel, ensures_pure]
    exact hpoll _

theorem Effect.rootfs (h : Effect k nr arg0 arg1 k') : k'.rootfs = k.rootfs := by
  cases h with
  | brk =>
    rw [Kernel.brkSet]
    split <;> rfl
  | _ => rfl

end LeonOS
