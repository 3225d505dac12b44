import LeonOS.Kernel.Paths
import LeonOS.Kernel.Wait

/-!
# Arguments of type `int`

`openat` and `newfstatat` have a descriptor for their first argument and `wait4` a process, all of
them an `int` in the interface, of which a caller sets the low half of a register.  The calls read
the whole register.  So two registers with one low half are read alike only if they are both
descriptors of a directory, or neither is one (`intArgs_iff`), and the like for `wait4`.

An absolute path needs no descriptor, but `openat` and `newfstatat` look at it before the path.
-/

set_option autoImplicit false

namespace LeonOS

open Bytes RustM

/-- **Two values of a register are one `int`** to the calls, which then do the same. -/
structure ReadAlike (w : World) (a b arg1 arg2 arg3 : U64) : Prop where
  /-- To `openat`. -/
  openat : dispatch .openat a arg1 arg2 arg3 w = dispatch .openat b arg1 arg2 arg3 w
  /-- To `newfstatat`. -/
  newfstatat : dispatch .newfstatat a arg1 arg2 arg3 w = dispatch .newfstatat b arg1 arg2 arg3 w
  /-- To `wait4`. -/
  wait4 : dispatch .wait4 a arg1 arg2 arg3 w = dispatch .wait4 b arg1 arg2 arg3 w

/-- `fstat` has something to say of the descriptor, or it is the current directory. -/
def Kernel.HasStatus (k : Kernel) (dirfd : U64) : Prop :=
  dirfd = atFdcwd ∨ dirfd.toNat ≤ 2 ∨ ∃ entry, k.fdTable[dirfd.toNat]? = some entry ∧ entry ≠ .free

/-- The process is this one, or any. -/
def Kernel.WaitsFor (k : Kernel) (pid : U64) : Prop := pid.toInt ≤ 0 ∨ pid = k.pid.setWidth 64

/-- The whole register is a descriptor of the directory: it is `AT_FDCWD`, or the table has the
directory at its value. -/
def Kernel.NamesDir (k : Kernel) (dirfd : U64) : Prop :=
  dirfd = atFdcwd ∨ ∃ pos, k.fdTable[dirfd.toNat]? = some (.rootDir pos)

/-- When `newfstatat` does the same for two descriptors. -/
def SameStatus (k : Kernel) (a b flags : U64) (path : String) : Prop :=
  if path = "" ∧ flags &&& atEmptyPath ≠ 0 then a = b ∨ ¬k.HasStatus a ∧ ¬k.HasStatus b
  else (k.NamesDir a ↔ k.NamesDir b)

/-- **When the whole registers are read alike.** -/
structure WholeAlike (w : World) (a b arg1 arg2 arg3 : U64) : Prop where
  /-- There is no path, or both are descriptors of a directory, or neither is. -/
  openat : arg1 = 0 ∨ (w.kernel.NamesDir a ↔ w.kernel.NamesDir b)
  /-- The same, but for the empty path any descriptor counts. -/
  newfstatat : arg1 = 0 ∨ arg2 = 0 ∨
    ∀ path, cstrFrom w.ram arg1.toNat cstrMax [] = some path →
      SameStatus w.kernel a b arg3 path
  /-- Nothing waits, or both are processes to wait for, or neither is. -/
  wait4 : w.kernel.exitWaitable = false ∨ (w.kernel.WaitsFor a ↔ w.kernel.WaitsFor b)

variable {w : World} {a b : U64} {dirfd ptr stat flags : U64}

theorem Kernel.isDirfdOk_iff {k : Kernel} : k.isDirfdOk dirfd = true ↔ k.NamesDir dirfd := by
  rw [isDirfdOk, NamesDir, atFdcwd]
  by_cases hcwd : dirfd = -100
  · rw [if_pos hcwd]
    exact iff_of_true rfl (.inl hcwd)
  rw [if_neg hcwd, or_iff_right hcwd]
  by_cases hneg : dirfd.toInt < 0
  · rw [if_pos hneg]
    refine iff_of_false (by decide) fun h ↦ ?_
    obtain ⟨pos, hpos⟩ := h
    have hlt := (Vector.getElem?_eq_some_iff.mp hpos).1
    rw [BitVec.toInt_eq_toNat_cond, maxFds] at *
    split at hneg <;> omega
  · rw [if_neg hneg, Option.any_eq_true]
    constructor
    · rintro ⟨entry, hentry, hdir⟩
      cases entry with
      | rootDir pos => exact ⟨pos, hentry⟩
      | _ => cases hdir
    · rintro ⟨pos, hpos⟩
      exact ⟨_, hpos, rfl⟩

theorem Kernel.isDirfdOk_eq_iff {k : Kernel} :
    k.isDirfdOk a = k.isDirfdOk b ↔ (k.NamesDir a ↔ k.NamesDir b) := by
  rw [Bool.eq_iff_iff, isDirfdOk_iff, isDirfdOk_iff]

/-! ## `openat` -/

/-- A path is never refused as a bad descriptor is. -/
theorem openPath_ne_ebadf (path : String) (flags : U64) (w : World) :
    Ensures (openPath path flags) w fun r _ ↦ r ≠ -ebadf := by
  have halloc (entry : FdEntry) (w : World) :
      Ensures (allocFd entry) w fun r _ ↦ r ≠ -ebadf := by
    rw [allocFd, ensures_bind, ensures_getKernel]
    split
    · rename_i i hi
      simp only [ensures_bind, ensures_modifyKernel, ensures_pure]
      have hbound := (Kernel.firstFree_bound hi).2
      intro heq
      have hnat := congrArg BitVec.toNat heq
      rw [(Rust.ofNat_of_lt (hbound.trans (by decide))).2] at hnat
      exact absurd hbound (by rw [hnat]; decide)
    · exact ensures_pure.mpr (by decide)
  rw [openPath, ensures_ite]
  refine ⟨fun _ ↦ halloc _ w, fun _ ↦ ?_⟩
  rw [ensures_ite]
  refine ⟨fun _ ↦ halloc _ w, fun _ ↦ ?_⟩
  split
  · rw [ensures_ite]
    refine ⟨fun _ ↦ halloc _ w, fun _ ↦ ?_⟩
    rw [openName, ensures_bind, ensures_getKernel]
    split
    · split
      · rw [ensures_ite]
        exact ⟨fun _ ↦ ensures_pure.mpr (by decide), fun _ ↦ halloc _ w⟩
      · exact ensures_pure.mpr (by decide)
    · exact ensures_pure.mpr (by decide)
  · exact ensures_pure.mpr (by decide)

/-- What is done with the path decides the result, if there is a path. -/
theorem withPath_ensures {f : String → SysM U64} {P : U64 → World → Prop}
    (hnone : ∀ w', P (-efault) w') (hsome : ∀ path w', Ensures (f path) w' P) (w : World) :
    Ensures (withPath ptr.toNat f) w P := by
  refine (readCstrFrom_ensures ptr.toNat cstrMax [] w).bind fun path w₁ _ ↦ ?_
  cases path with
  | none => exact ensures_pure.mpr (hnone w₁)
  | some path => exact hsome path w₁

theorem sysOpenat_null : sysOpenat dirfd 0 flags w = .ok (-efault) w := by
  rw [sysOpenat, if_pos rfl]
  rfl

theorem sysOpenat_of_bad (hptr : ptr.toNat ≠ 0) (hbad : w.kernel.isDirfdOk dirfd = false) :
    sysOpenat dirfd ptr.toNat flags w = .ok (-ebadf) w := by
  rw [sysOpenat, if_neg hptr, bind_getKernel, if_pos hbad]
  rfl

theorem sysOpenat_of_good (hptr : ptr.toNat ≠ 0) (hgood : w.kernel.isDirfdOk dirfd = true) :
    sysOpenat dirfd ptr.toNat flags w = withPath ptr.toNat (openPath · flags) w := by
  rw [sysOpenat, if_neg hptr, bind_getKernel, if_neg (by rw [hgood]; decide)]

/-- What returns something else does not return this. -/
theorem ne_ok_of_ensures {x : SysM U64} {r : U64} (h : Ensures x w fun r' _ ↦ r' ≠ r) (w' : World) :
    x w ≠ .ok r w' := fun heq ↦ h r w' heq rfl

/-- **`openat` tells two descriptors apart** when one of them is a directory. -/
theorem openat_alike_iff (w : World) (a b ptr flags mode : U64) :
    dispatch .openat a ptr flags mode w = dispatch .openat b ptr flags mode w ↔
      ptr = 0 ∨ (w.kernel.NamesDir a ↔ w.kernel.NamesDir b) := by
  change sysOpenat a ptr.toNat flags w = sysOpenat b ptr.toNat flags w ↔ _
  rw [← Kernel.isDirfdOk_eq_iff]
  by_cases hptr : ptr = 0
  · rw [hptr, show (0 : U64).toNat = 0 from rfl, sysOpenat_null, sysOpenat_null]
    exact iff_of_true rfl (.inl rfl)
  have hnull : ptr.toNat ≠ 0 := fun h ↦ hptr (BitVec.toNat_inj.mp h)
  have hother : ∀ w', withPath ptr.toNat (openPath · flags) w ≠ .ok (-ebadf) w' :=
    ne_ok_of_ensures (withPath_ensures (fun _ ↦ by decide) (fun path w' ↦
      openPath_ne_ebadf path flags w') w)
  cases ha : w.kernel.isDirfdOk a <;> cases hb : w.kernel.isDirfdOk b
  · rw [sysOpenat_of_bad hnull ha, sysOpenat_of_bad hnull hb]
    exact iff_of_true rfl (.inr rfl)
  · rw [sysOpenat_of_bad hnull ha, sysOpenat_of_good hnull hb]
    exact iff_of_false (hother w).symm (not_or.mpr ⟨hptr, by decide⟩)
  · rw [sysOpenat_of_good hnull ha, sysOpenat_of_bad hnull hb]
    exact iff_of_false (hother w) (not_or.mpr ⟨hptr, by decide⟩)
  · rw [sysOpenat_of_good hnull ha, sysOpenat_of_good hnull hb]
    exact iff_of_true rfl (.inr rfl)

/-! ## `newfstatat` -/

variable {path : String}

/-- What is written has a status of zero. -/
theorem writeStat_ok (ptr : ℕ) (isDir : Bool) (size : ℕ) (mode : BitVec 16) (ino : ℕ) (w : World) :
    ∃ w', writeStat ptr isDir size mode ino w = .ok 0 w' := ⟨_, rfl⟩

/-- A path is never refused by `stat` as a bad descriptor is. -/
theorem sysStatPath_ne_ebadf (ptr stat : U64) (w : World) :
    Ensures (sysStatPath ptr.toNat stat.toNat) w fun r _ ↦ r ≠ -ebadf := by
  have hwrite (isDir : Bool) (size : ℕ) (mode : BitVec 16) (ino : ℕ) (w : World) :
      Ensures (writeStat stat.toNat isDir size mode ino) w fun r _ ↦ r ≠ -ebadf := by
    simp [writeStat, ebadf]
  rw [sysStatPath, ensures_ite]
  refine ⟨fun _ ↦ ensures_pure.mpr (by decide), fun _ ↦ ?_⟩
  refine withPath_ensures (fun _ ↦ by decide) (fun path w' ↦ ?_) w
  rw [statPath, ensures_ite]
  refine ⟨fun _ ↦ hwrite _ _ _ _ w', fun _ ↦ ?_⟩
  split
  · rw [ensures_bind, ensures_getKernel]
    split
    · split
      · exact hwrite _ _ _ _ w'
      · exact ensures_pure.mpr (by decide)
    · exact ensures_pure.mpr (by decide)
  · exact ensures_pure.mpr (by decide)

/-- The empty path and a descriptor with a status. -/
theorem newfstatatPath_of_status {k : Kernel} (ptr : U64) (hk : w.kernel = k)
    (hpath : path = "") (hflags : flags &&& atEmptyPath ≠ 0) (hstat : stat.toNat ≠ 0)
    (h : k.HasStatus dirfd) :
    ∃ w', newfstatatPath dirfd ptr.toNat stat.toNat flags path w = .ok 0 w' := by
  rw [newfstatatPath, if_pos ⟨hpath, hflags⟩]
  by_cases hcwd : dirfd = atFdcwd
  · rw [if_pos hcwd]
    exact writeStat_ok _ _ _ _ _ w
  have hlt : dirfd.toNat < 64 := by
    obtain hcwd' | hlow | ⟨entry, hget, -⟩ := h
    · exact absurd hcwd' hcwd
    · omega
    · exact (Vector.getElem?_eq_some_iff.mp hget).1
  have hpos : ¬dirfd.toInt < 0 := by
    rw [BitVec.toInt_eq_toNat_of_lt (by omega)]
    omega
  rw [if_neg hcwd, if_neg hpos, sysFstat, if_neg hstat]
  by_cases hlow : dirfd.toNat ≤ 2
  · rw [if_pos hlow]
    exact writeStat_ok _ _ _ _ _ w
  obtain ⟨entry, hget, hopen⟩ := (h.resolve_left hcwd).resolve_left hlow
  rw [if_neg hlow, bind_getKernel, hk, hget]
  cases entry with
  | free => exact absurd rfl hopen
  | rootDir pos => exact writeStat_ok _ _ _ _ _ w
  | file data len pos mode => exact writeStat_ok _ _ _ _ _ w

/-- The empty path and a descriptor without one. -/
theorem newfstatatPath_of_not_status (hpath : path = "") (hflags : flags &&& atEmptyPath ≠ 0)
    (hstat : stat.toNat ≠ 0) (h : ¬w.kernel.HasStatus dirfd) :
    newfstatatPath dirfd ptr.toNat stat.toNat flags path w = .ok (-ebadf) w := by
  rw [Kernel.HasStatus, not_or, not_or] at h
  obtain ⟨hcwd, hlow, hclosed⟩ := h
  rw [newfstatatPath, if_pos ⟨hpath, hflags⟩, if_neg hcwd]
  by_cases hneg : dirfd.toInt < 0
  · rw [if_pos hneg]
    rfl
  rw [if_neg hneg, sysFstat, if_neg hstat, if_neg hlow, bind_getKernel]
  cases hget : w.kernel.fdTable[dirfd.toNat]? with
  | none => rfl
  | some entry =>
    have hfree : entry = .free := by
      by_contra hopen
      exact hclosed ⟨entry, hget, hopen⟩
    rw [hfree]
    rfl

/-- Only one of the registers with one low half has a status. -/
theorem Kernel.HasStatus.unique {k : Kernel} (ha : k.HasStatus a) (hb : k.HasStatus b)
    (hlow : a.setWidth 32 = b.setWidth 32) : a = b := by
  have hbound {fd : U64} (h : k.HasStatus fd) : fd = atFdcwd ∨ fd.toNat < 64 := by
    obtain hcwd | hlow | ⟨entry, hget, -⟩ := h
    · exact .inl hcwd
    · exact .inr (by omega)
    · exact .inr (Vector.getElem?_eq_some_iff.mp hget).1
  have hnat := congrArg BitVec.toNat hlow
  rw [BitVec.toNat_setWidth, BitVec.toNat_setWidth] at hnat
  have hcwd : atFdcwd.toNat = 2 ^ 64 - 100 := rfl
  apply BitVec.eq_of_toNat_eq
  obtain rfl | ha := hbound ha <;> obtain rfl | hb := hbound hb <;> omega

/-- What `newfstatat` does from the path on. -/
theorem newfstatatPath_alike_iff (w : World) (ptr flags : U64) (path : String)
    (hstat : stat.toNat ≠ 0)
    (hlow : path = "" → a.setWidth 32 = b.setWidth 32) :
    newfstatatPath a ptr.toNat stat.toNat flags path w =
        newfstatatPath b ptr.toNat stat.toNat flags path w ↔
      SameStatus w.kernel a b flags path := by
  rw [SameStatus]
  by_cases hempty : path = "" ∧ flags &&& atEmptyPath ≠ 0
  · rw [if_pos hempty]
    obtain ⟨hpath, hflags⟩ := hempty
    by_cases ha : w.kernel.HasStatus a <;> by_cases hb : w.kernel.HasStatus b
    · obtain rfl := ha.unique hb (hlow hpath)
      exact iff_of_true rfl (.inl rfl)
    · obtain ⟨w', hrun⟩ := newfstatatPath_of_status ptr rfl hpath hflags hstat ha
      rw [hrun, newfstatatPath_of_not_status hpath hflags hstat hb]
      refine iff_of_false (fun h ↦ absurd (EStateM.Result.ok.inj h).1 (by decide)) ?_
      rintro (rfl | h)
      · exact hb ha
      · exact h.1 ha
    · obtain ⟨w', hrun⟩ := newfstatatPath_of_status ptr rfl hpath hflags hstat hb
      rw [hrun, newfstatatPath_of_not_status hpath hflags hstat ha]
      refine iff_of_false (fun h ↦ absurd (EStateM.Result.ok.inj h).1 (by decide)) ?_
      rintro (rfl | h)
      · exact ha hb
      · exact h.2 hb
    · rw [newfstatatPath_of_not_status hpath hflags hstat ha,
        newfstatatPath_of_not_status hpath hflags hstat hb]
      exact iff_of_true rfl (.inr ⟨ha, hb⟩)
  · rw [if_neg hempty, newfstatatPath, newfstatatPath, if_neg hempty, if_neg hempty,
      bind_getKernel, bind_getKernel, ← Kernel.isDirfdOk_eq_iff]
    have hother : ∀ w', sysStatPath ptr.toNat stat.toNat w ≠ .ok (-ebadf) w' :=
      ne_ok_of_ensures (sysStatPath_ne_ebadf ptr stat w)
    cases w.kernel.isDirfdOk a <;> cases w.kernel.isDirfdOk b
    · exact iff_of_true rfl rfl
    · exact iff_of_false (hother w).symm (by decide)
    · exact iff_of_false (hother w) (by decide)
    · exact iff_of_true rfl rfl

/-- **`newfstatat` tells two registers with one low half apart** when one of them is a directory,
or with an empty path any descriptor. -/
theorem newfstatat_alike_iff (w : World) (ptr stat flags : U64)
    (hlow : cstrFrom w.ram ptr.toNat cstrMax [] = some "" → a.setWidth 32 = b.setWidth 32) :
    dispatch .newfstatat a ptr stat flags w = dispatch .newfstatat b ptr stat flags w ↔
      ptr = 0 ∨ stat = 0 ∨ ∀ path, cstrFrom w.ram ptr.toNat cstrMax [] = some path →
        SameStatus w.kernel a b flags path := by
  change sysNewfstatat a ptr.toNat stat.toNat flags w = sysNewfstatat b ptr.toNat stat.toNat flags w
    ↔ _
  rw [sysNewfstatat, sysNewfstatat]
  by_cases hstat : stat = 0
  · simp [hstat]
  have hbuf : stat.toNat ≠ 0 := fun h ↦ hstat (BitVec.toNat_inj.mp h)
  rw [if_neg hbuf, if_neg hbuf]
  by_cases hptr : ptr = 0
  · simp [hptr]
  have hnull : ptr.toNat ≠ 0 := fun h ↦ hptr (BitVec.toNat_inj.mp h)
  obtain ⟨touched, hread⟩ := readCstrFrom_ok ptr.toNat cstrMax [] w
  simp only [if_neg hnull, withPath, readCstr, bind_apply, hread, hptr, hstat, false_or]
  cases hpath : cstrFrom w.ram ptr.toNat cstrMax [] with
  | none => exact iff_of_true rfl fun path h ↦ by cases h
  | some path =>
    have hiff := newfstatatPath_alike_iff { w with touched } ptr flags path hbuf fun hempty ↦
      hlow (hpath.trans (congrArg some hempty))
    simpa using hiff

/-! ## `wait4` -/

theorem Kernel.not_waitsFor {k : Kernel} {pid : U64} :
    ¬k.WaitsFor pid ↔ 0 < pid.toInt ∧ pid ≠ k.pid.setWidth 64 := by
  rw [Kernel.WaitsFor, not_or, not_le]

theorem sysWait4_of_other {pid : U64} (h : ¬w.kernel.WaitsFor pid) :
    sysWait4 pid stat.toNat w = .ok (-echild) w := by
  rw [sysWait4, bind_getKernel, if_pos (Kernel.not_waitsFor.mp h)]
  rfl

theorem sysWait4_of_waitsFor {pid : U64} (h : w.kernel.WaitsFor pid) :
    sysWait4 pid stat.toNat w = (do
      if w.kernel.exitWaitable = false then
        return -echild
      if stat.toNat ≠ 0 then
        store stat.toNat (toLE 4 ((w.kernel.lastExit &&& 0xff) <<< 8).toNat)
      return w.kernel.pid.setWidth 64 : SysM U64)
      { w with kernel := { w.kernel with exitWaitable := false } } := by
  rw [sysWait4, bind_getKernel, if_neg fun hother ↦ Kernel.not_waitsFor.mpr hother h,
    bind_modifyKernel]

/-- Where nothing waits, nothing is done. -/
theorem sysWait4_idle {pid : U64} (hidle : w.kernel.exitWaitable = false) :
    sysWait4 pid stat.toNat w = .ok (-echild) w := by
  by_cases h : w.kernel.WaitsFor pid
  · have hsame : { w with kernel := { w.kernel with exitWaitable := false } } = w := by
      rw [← hidle]
    rw [sysWait4_of_waitsFor h, if_pos hidle, hsame]
    rfl
  · exact sysWait4_of_other h

/-- What waits is returned with the process. -/
theorem sysWait4_ne_echild {pid : U64} (h : w.kernel.WaitsFor pid)
    (hbusy : w.kernel.exitWaitable = true) (w' : World) :
    sysWait4 pid stat.toNat w ≠ .ok (-echild) w' := by
  rw [sysWait4_of_waitsFor h]
  refine ne_ok_of_ensures ?_ w'
  rw [if_neg (by rw [hbusy]; decide), ensures_ite]
  refine ⟨fun _ ↦ ?_, fun _ ↦ ensures_pure.mpr (selfPid_ne_echild _)⟩
  rw [ensures_bind, ensures_store]
  exact ensures_pure.mpr (selfPid_ne_echild _)

/-- **`wait4` tells two processes apart** when it would wait for one of them. -/
theorem wait4_alike_iff (w : World) (a b stat options rusage : U64) :
    dispatch .wait4 a stat options rusage w = dispatch .wait4 b stat options rusage w ↔
      w.kernel.exitWaitable = false ∨ (w.kernel.WaitsFor a ↔ w.kernel.WaitsFor b) := by
  change sysWait4 a stat.toNat w = sysWait4 b stat.toNat w ↔ _
  cases hflag : w.kernel.exitWaitable with
  | false =>
    rw [sysWait4_idle hflag, sysWait4_idle hflag]
    exact iff_of_true rfl (.inl rfl)
  | true =>
    by_cases ha : w.kernel.WaitsFor a <;> by_cases hb : w.kernel.WaitsFor b
    · rw [sysWait4_of_waitsFor ha, sysWait4_of_waitsFor hb]
      exact iff_of_true rfl (.inr (iff_of_true ha hb))
    · rw [sysWait4_of_other hb]
      exact iff_of_false (sysWait4_ne_echild ha hflag w) (by simp [ha, hb])
    · rw [sysWait4_of_other ha]
      exact iff_of_false (sysWait4_ne_echild hb hflag w).symm (by simp [ha, hb])
    · rw [sysWait4_of_other ha, sysWait4_of_other hb]
      exact iff_of_true rfl (.inr (iff_of_false ha hb))

/-! ## Absolute paths -/

/-- A string that has begun is not empty. -/
theorem cstrFrom_ne_empty (ram : ℕ → U8) (ptr n : ℕ) {bytes : List U8} (hbytes : bytes ≠ []) :
    cstrFrom ram ptr n bytes ≠ some "" := by
  induction n generalizing bytes with
  | zero => exact nofun
  | succ n ih =>
    rw [cstrFrom]
    split
    · intro h
      have hempty : Rust.asBytes "" = bytes := Rust.asBytes_of_fromUtf8 h
      exact hbytes hempty.symm
    · exact ih (List.append_ne_nil_of_right_ne_nil bytes (List.cons_ne_nil _ _))

/-- An absolute path is not empty. -/
theorem cstrFrom_absolute {ram : ℕ → U8} {ptr : ℕ} (h : ram ptr = 0x2F) :
    cstrFrom ram ptr cstrMax [] ≠ some "" := by
  change (if ram ptr = 0 then Rust.fromUtf8 [] else cstrFrom ram ptr 255 [ram ptr]) ≠ _
  rw [h, if_neg (by decide)]
  exact cstrFrom_ne_empty ram ptr 255 (List.cons_ne_nil _ _)

/-- `newfstatat` looks at the descriptor once it has read an absolute path. -/
theorem newfstatat_absolute_iff (w : World) (a b ptr stat flags : U64) (hptr : ptr ≠ 0)
    (habs : w.ram ptr.toNat = 0x2F) :
    dispatch .newfstatat a ptr stat flags w = dispatch .newfstatat b ptr stat flags w ↔
      stat = 0 ∨ cstrFrom w.ram ptr.toNat cstrMax [] = none ∨
        (w.kernel.NamesDir a ↔ w.kernel.NamesDir b) := by
  rw [newfstatat_alike_iff w ptr stat flags fun h ↦ absurd h (cstrFrom_absolute habs),
    or_iff_right hptr]
  refine or_congr_right ?_
  cases hpath : cstrFrom w.ram ptr.toNat cstrMax [] with
  | none => simp
  | some path =>
    have hne : path ≠ "" := fun hempty ↦ cstrFrom_absolute habs (hempty ▸ hpath)
    simp [SameStatus, hne]

/-- **When an `int` is read as one**: two registers with one low half do the same just when they
are alike as wholes, and with an absolute path two descriptors do the same just when both are
directories or neither is. -/
theorem intArgs_iff (w : World) (a b arg1 arg2 arg3 : U64) :
    (a.setWidth 32 = b.setWidth 32 →
      (ReadAlike w a b arg1 arg2 arg3 ↔ WholeAlike w a b arg1 arg2 arg3)) ∧
    (arg1 ≠ 0 → w.ram arg1.toNat = 0x2F →
      (dispatch .openat a arg1 arg2 arg3 w = dispatch .openat b arg1 arg2 arg3 w ↔
        (w.kernel.NamesDir a ↔ w.kernel.NamesDir b)) ∧
      (dispatch .newfstatat a arg1 arg2 arg3 w = dispatch .newfstatat b arg1 arg2 arg3 w ↔
        arg2 = 0 ∨ cstrFrom w.ram arg1.toNat cstrMax [] = none ∨
          (w.kernel.NamesDir a ↔ w.kernel.NamesDir b))) := by
  refine ⟨fun hlow ↦ ⟨fun h ↦ ⟨?_, ?_, ?_⟩, fun h ↦ ⟨?_, ?_, ?_⟩⟩, fun hptr habs ↦ ⟨?_, ?_⟩⟩
  · exact (openat_alike_iff w a b arg1 arg2 arg3).mp h.openat
  · exact (newfstatat_alike_iff w arg1 arg2 arg3 fun _ ↦ hlow).mp h.newfstatat
  · exact (wait4_alike_iff w a b arg1 arg2 arg3).mp h.wait4
  · exact (openat_alike_iff w a b arg1 arg2 arg3).mpr h.openat
  · exact (newfstatat_alike_iff w arg1 arg2 arg3 fun _ ↦ hlow).mpr h.newfstatat
  · exact (wait4_alike_iff w a b arg1 arg2 arg3).mpr h.wait4
  · rw [openat_alike_iff, or_iff_right hptr]
  · exact newfstatat_absolute_iff w a b arg1 arg2 arg3 hptr habs

/-- The kernel after the boot, with `"/"` at `0x1000`. -/
def slashWorld : World := ⟨.boot, poke (fun _ ↦ 0) 0x1000 [0x2F], []⟩

theorem intArgs_iff_slash :
    (ReadAlike slashWorld 5 (2 ^ 32 + 5) 0x1000 0x2000 0 ↔
      WholeAlike slashWorld 5 (2 ^ 32 + 5) 0x1000 0x2000 0) ∧
    (dispatch .openat 7 0x1000 0x2000 0 slashWorld = dispatch .openat 9 0x1000 0x2000 0 slashWorld ↔
      (slashWorld.kernel.NamesDir 7 ↔ slashWorld.kernel.NamesDir 9)) :=
  ⟨(intArgs_iff slashWorld 5 (2 ^ 32 + 5) 0x1000 0x2000 0).1 (by decide),
    ((intArgs_iff slashWorld 7 9 0x1000 0x2000 0).2 (by decide) (by decide)).1⟩

/-- `AT_FDCWD` in a register whose upper half is zero is no directory, and the path after it is
absolute. -/
theorem atFdcwd_not_read : slashWorld.kernel.Reachable ∧
    (-100 : U64).setWidth 32 = (0xFFFFFF9C : U64).setWidth 32 ∧
    ¬ReadAlike slashWorld (-100) 0xFFFFFF9C 0x1000 0x2000 0 ∧
    dispatch .openat (-100) 0x1000 0x2000 0 slashWorld ≠
      dispatch .openat 0xFFFFFF9C 0x1000 0x2000 0 slashWorld := by
  have hne : dispatch .openat (-100) 0x1000 0x2000 0 slashWorld ≠
      dispatch .openat 0xFFFFFF9C 0x1000 0x2000 0 slashWorld := by
    rw [ne_eq, openat_alike_iff, ← Kernel.isDirfdOk_eq_iff]
    decide
  exact ⟨Kernel.reachable_boot, by decide, fun h ↦ hne h.openat, hne⟩

end LeonOS
