import LeonOS.Kernel.Effect

/-!
# When a system call uses its pointers

Some calls are answered before the memory of the caller is looked at: the pointer is null, the
descriptor is not open, nothing is waiting to be reaped.  `PointersUnused` is the condition for
each of the calls that take a pointer.  Under it the answer is a function of the globals and the
arguments (`dispatch_of_unused`); otherwise some address is dereferenced (`dispatch_touches`).
-/

set_option autoImplicit false

namespace LeonOS

open Bytes RustM

/-- The calls that take a pointer, other than `read` and `write`. -/
def pointerCalls : List Nr :=
  [.openat, .stat, .lstat, .fstat, .newfstatat, .getdents64, .readlink, .readlinkat, .access,
    .faccessat, .uname, .clockGettime, .gettimeofday, .getrandom, .getcwd, .chdir, .wait4]

/-- Is there a record at the position of this descriptor that fits in `count` bytes? -/
def Kernel.HasDirent (k : Kernel) (fd count : ℕ) : Prop :=
  ∃ pos name typ ino, k.fdTable[fd]? = some (.rootDir pos) ∧ pos < k.rootEntriesCount ∧
    k.direntAt pos = some (name, typ, ino) ∧ direntRecordLen name.length ≤ count

/-- **The call is answered before its pointers are used.** -/
def PointersUnused (k : Kernel) (nr : Nr) (arg0 arg1 arg2 : U64) : Prop :=
  match nr with
  | .openat => arg1 = 0 ∨ k.isDirfdOk arg0 = false
  | .stat | .lstat => arg0 = 0 ∨ arg1 = 0
  | .fstat => arg1 = 0 ∨ ¬arg0.toNat ≤ 2 ∧
      (k.fdTable[arg0.toNat]? = none ∨ k.fdTable[arg0.toNat]? = some .free)
  | .newfstatat => arg1 = 0 ∨ arg2 = 0
  | .getdents64 => arg1 = 0 ∨ ¬k.HasDirent arg0.toNat arg2.toNat
  | .readlink | .access | .chdir | .uname | .gettimeofday => arg0 = 0
  | .readlinkat | .faccessat | .clockGettime => arg1 = 0
  | .getrandom => arg0 = 0 ∨ arg1 = 0
  | .getcwd => arg0 = 0 ∨ arg1 = 0 ∨ arg1.toNat < k.cwdLen + 1
  | .wait4 => arg1 = 0 ∨ k.exitWaitable = false ∨
      0 < arg0.toInt ∧ arg0 ≠ k.pid.setWidth 64
  | _ => True

variable {w : World} {nr : Nr} {arg0 arg1 arg2 arg3 : U64}

theorem toNat_eq_zero {a : U64} : a.toNat = 0 ↔ a = 0 := by
  rw [← BitVec.toNat_inj]
  rfl

/-! ## Totality -/

/-- Nothing that was touched is forgotten. -/
def TraceGrows (w w' : World) : Prop := w.touched.length ≤ w'.touched.length

instance : IsPreorder World TraceGrows where
  refl _ := le_rfl
  trans _ _ _ := le_trans

theorem total_getKernel : Total TraceGrows getKernel := fun w ↦ ⟨w.kernel, w, rfl, le_rfl⟩

theorem total_modifyKernel (f : Kernel → Kernel) : Total TraceGrows (modifyKernel f) :=
  fun w ↦ ⟨(), { w with kernel := f w.kernel }, rfl, le_refl w.touched.length⟩

theorem total_load (a : ℕ) : Total TraceGrows (load a) :=
  fun w ↦ ⟨w.ram a, { w with touched := a :: w.touched }, rfl, Nat.le_succ _⟩

theorem total_store (a : ℕ) (bs : List U8) : Total TraceGrows (store a bs) :=
  fun w ↦ ⟨(), { w with ram := poke w.ram a bs, touched := List.range' a bs.length ++ w.touched },
    rfl, by simp [TraceGrows]⟩

theorem total_readCstrFrom (ptr n : ℕ) (bytes : List U8) :
    Total TraceGrows (readCstrFrom ptr n bytes) := by
  induction n generalizing bytes with
  | zero => exact total_pure _
  | succ n ih =>
    refine (total_load _).bind fun b ↦ ?_
    exact (total_pure _).ite (ih _)

theorem total_readCstr (ptr : ℕ) : Total TraceGrows (readCstr ptr) := total_readCstrFrom ptr _ _

theorem total_withPath (pathPtr : ℕ) {f : String → SysM U64}
    (hf : ∀ path, Total TraceGrows (f path)) : Total TraceGrows (withPath pathPtr f) := by
  refine (total_readCstr _).bind fun path ↦ ?_
  split
  · exact hf _
  · exact total_pure _

theorem total_writeStat (statPtr : ℕ) (isDir : Bool) (size : ℕ) (mode : BitVec 16) (ino : ℕ) :
    Total TraceGrows (writeStat statPtr isDir size mode ino) :=
  (total_store _ _).bind fun _ ↦ total_pure _

theorem total_writeDirent (rec : ℕ) (name : List U8) (typ : U8) (ino off reclen : ℕ) :
    Total TraceGrows (writeDirent rec name typ ino off reclen) := by
  iterate 6 refine (total_store _ _).bind fun _ ↦ ?_
  exact total_store _ _

theorem total_getdentsFrom (fd dirp count n pos written : ℕ) :
    Total TraceGrows (getdentsFrom fd dirp count n pos written) := by
  induction n generalizing pos written with
  | zero => exact total_pure _
  | succ n ih =>
    refine total_getKernel.bind fun k ↦ ?_
    split
    · exact total_pure _
    · refine .ite (.ite (total_pure _) (total_pure _)) ?_
      refine (total_writeDirent _ _ _ _ _ _).bind fun _ ↦ ?_
      exact (total_modifyKernel _).bind fun _ ↦ ih _ _

theorem total_allocFd (entry : FdEntry) : Total TraceGrows (allocFd entry) := by
  refine total_getKernel.bind fun k ↦ ?_
  split
  · exact (total_modifyKernel _).bind fun _ ↦ total_pure _
  · exact total_pure _

theorem total_openName (name : String) (flags : U64) : Total TraceGrows (openName name flags) := by
  refine total_getKernel.bind fun k ↦ ?_
  split
  · split
    · exact .ite (total_pure _) (total_allocFd _)
    · exact total_pure _
  · exact total_pure _

theorem total_openPath (path : String) (flags : U64) : Total TraceGrows (openPath path flags) := by
  refine .ite (total_allocFd _) (.ite (total_allocFd _) ?_)
  split
  · exact .ite (total_allocFd _) (total_openName _ _)
  · exact total_pure _

theorem total_sysOpenat (dirfd : U64) (pathPtr : ℕ) (flags : U64) :
    Total TraceGrows (sysOpenat dirfd pathPtr flags) := by
  refine .ite (total_pure _) (total_getKernel.bind fun k ↦ .ite (total_pure _) ?_)
  exact total_withPath _ fun path ↦ total_openPath path flags

theorem total_statPath (path : String) (statPtr : ℕ) :
    Total TraceGrows (statPath path statPtr) := by
  refine .ite (total_writeStat _ _ _ _ _) ?_
  split
  · refine total_getKernel.bind fun k ↦ ?_
    split
    · split
      · exact total_writeStat _ _ _ _ _
      · exact total_pure _
    · exact total_pure _
  · exact total_pure _

theorem total_sysStatPath (pathPtr statPtr : ℕ) :
    Total TraceGrows (sysStatPath pathPtr statPtr) :=
  .ite (total_pure _) (total_withPath _ fun path ↦ total_statPath path statPtr)

theorem total_sysFstat (fd statPtr : ℕ) : Total TraceGrows (sysFstat fd statPtr) := by
  refine .ite (total_pure _) (.ite (total_writeStat _ _ _ _ _) (total_getKernel.bind fun k ↦ ?_))
  split
  · exact total_pure _
  · exact total_pure _
  · exact total_writeStat _ _ _ _ _
  · exact total_writeStat _ _ _ _ _

theorem total_newfstatatPath (dirfd : U64) (pathPtr statPtr : ℕ) (flags : U64) (path : String) :
    Total TraceGrows (newfstatatPath dirfd pathPtr statPtr flags path) := by
  refine .ite (.ite (total_writeStat _ _ _ _ _) (.ite (total_pure _) (total_sysFstat _ _))) ?_
  exact total_getKernel.bind fun k ↦ .ite (total_pure _) (total_sysStatPath _ _)

theorem total_sysNewfstatat (dirfd : U64) (pathPtr statPtr : ℕ) (flags : U64) :
    Total TraceGrows (sysNewfstatat dirfd pathPtr statPtr flags) :=
  .ite (total_pure _) (.ite (total_pure _) (total_withPath _ (total_newfstatatPath _ _ _ _)))

theorem total_sysGetdents64 (fd dirp count : ℕ) :
    Total TraceGrows (sysGetdents64 fd dirp count) := by
  refine .ite (total_pure _) (total_getKernel.bind fun k ↦ ?_)
  split
  · exact total_pure _
  · exact .ite (total_pure _) (total_getdentsFrom _ _ _ _ _ _)
  · exact total_pure _

theorem total_readlinkImpl (path : String) (buf bufsz : ℕ) :
    Total TraceGrows (readlinkImpl path buf bufsz) := by
  refine .ite (total_pure _) (.ite ?_ (total_pure _))
  exact (total_store _ _).bind fun _ ↦ total_pure _

theorem total_sysReadlink (pathPtr buf bufsz : ℕ) :
    Total TraceGrows (sysReadlink pathPtr buf bufsz) :=
  .ite (total_pure _) (total_withPath _ fun path ↦ total_readlinkImpl path buf bufsz)

theorem total_accessPath (path : String) : Total TraceGrows (accessPath path) :=
  total_getKernel.bind fun _ ↦ total_pure _

theorem total_sysAccess (pathPtr : ℕ) : Total TraceGrows (sysAccess pathPtr) :=
  .ite (total_pure _) (total_withPath _ total_accessPath)

theorem total_unameFrom (base : ℕ) (vals : List (List U8)) :
    Total TraceGrows (unameFrom base vals) := by
  induction vals generalizing base with
  | nil => exact total_pure _
  | cons s vals ih =>
    exact (total_store _ _).bind fun _ ↦ (total_store _ _).bind fun _ ↦ ih _

theorem total_writeTime (tp : ℕ) : Total TraceGrows (writeTime tp) :=
  (total_store _ _).bind fun _ ↦ (total_store _ _).bind fun _ ↦ total_pure _

theorem total_sysGetcwd (buf size : ℕ) : Total TraceGrows (sysGetcwd buf size) := by
  refine .ite (total_pure _) (total_getKernel.bind fun k ↦ .ite (total_pure _) ?_)
  exact (total_store _ _).bind fun _ ↦ (total_store _ _).bind fun _ ↦ total_pure _

theorem total_chdirPath (path : String) : Total TraceGrows (chdirPath path) :=
  .ite ((total_modifyKernel _).bind fun _ ↦ total_pure _) (total_pure _)

theorem total_sysChdir (pathPtr : ℕ) : Total TraceGrows (sysChdir pathPtr) :=
  .ite (total_pure _) (total_withPath _ total_chdirPath)

theorem total_sysWait4 (pid : U64) (statusPtr : ℕ) : Total TraceGrows (sysWait4 pid statusPtr) := by
  refine total_getKernel.bind fun k ↦ .ite (total_pure _) ?_
  refine (total_modifyKernel _).bind fun _ ↦ .ite (total_pure _) (.ite ?_ (total_pure _))
  exact (total_store _ _).bind fun _ ↦ total_pure _

/-- **A call that takes a pointer returns.** -/
theorem total_pointerCall (h : nr ∈ pointerCalls) :
    Total TraceGrows (dispatch nr arg0 arg1 arg2 arg3) := by
  simp only [pointerCalls, List.mem_cons, List.not_mem_nil, or_false] at h
  rcases h with rfl | rfl | rfl | rfl | rfl | rfl | rfl | rfl | rfl | rfl | rfl | rfl | rfl | rfl |
    rfl | rfl | rfl
  · exact total_sysOpenat _ _ _
  · exact total_sysStatPath _ _
  · exact total_sysStatPath _ _
  · exact total_sysFstat _ _
  · exact total_sysNewfstatat _ _ _ _
  · exact total_sysGetdents64 _ _ _
  · exact total_sysReadlink _ _ _
  · exact total_sysReadlink _ _ _
  · exact total_sysAccess _
  · exact total_sysAccess _
  · exact .ite (total_pure _) ((total_unameFrom _ _).bind fun _ ↦ total_pure _)
  · exact .ite (total_pure _) (total_writeTime _)
  · exact .ite (total_pure _) (total_writeTime _)
  · exact .ite (total_pure _) ((total_store _ _).bind fun _ ↦ total_pure _)
  · exact total_sysGetcwd _ _
  · exact total_sysChdir _
  · exact total_sysWait4 _ _

/-! ## Answers without memory -/

/-- With these globals the call returns the same whatever the memory holds, and leaves it alone. -/
def Answers (x : SysM U64) (k : Kernel) : Prop :=
  ∃ r k', ∀ w : World, w.kernel = k → x w = .ok r { w with kernel := k' }

section Answers

variable {k : Kernel} {x y : SysM U64}

theorem answers_pure (r : U64) (k : Kernel) : Answers (pure r) k := by
  refine ⟨r, k, fun w hw ↦ ?_⟩
  rw [← hw]
  rfl

theorem Answers.get {f : Kernel → SysM U64} (h : Answers (f k) k) :
    Answers (getKernel >>= f) k := by
  obtain ⟨r, k', h⟩ := h
  refine ⟨r, k', fun w hw ↦ ?_⟩
  rw [bind_getKernel, hw]
  exact h w hw

theorem Answers.modify {f : Kernel → Kernel} {c : Unit → SysM U64} (h : Answers (c ()) (f k)) :
    Answers (modifyKernel f >>= c) k := by
  obtain ⟨r, k', h⟩ := h
  refine ⟨r, k', fun w hw ↦ ?_⟩
  rw [bind_modifyKernel, hw]
  exact h _ rfl

theorem Answers.ite {c : Prop} [Decidable c] (hx : c → Answers x k) (hy : ¬c → Answers y k) :
    Answers (if c then x else y) k := by
  split
  · exact hx ‹_›
  · exact hy ‹_›

/-- A null pointer is looked at first. -/
theorem Answers.null {a : U64} {r : U64} (h : a = 0) :
    Answers (if a.toNat = 0 then pure r else x) k :=
  .ite (fun _ ↦ answers_pure r k) fun hne ↦ absurd (toNat_eq_zero.mpr h) hne

theorem answers_sysGetdents64 {fd dirp count : ℕ} (h : dirp = 0 ∨ ¬k.HasDirent fd count) :
    Answers (sysGetdents64 fd dirp count) k := by
  refine .ite (fun _ ↦ answers_pure _ _) fun hnull ↦ .get ?_
  have hno := h.resolve_left hnull
  split
  · exact answers_pure _ _
  · rename_i pos hdir
    refine .ite (fun _ ↦ answers_pure _ _) fun hpos ↦ ?_
    obtain ⟨n, hn⟩ : ∃ n, k.rootEntriesCount - pos = n + 1 :=
      ⟨k.rootEntriesCount - pos - 1, by omega⟩
    rw [hn, getdentsFrom]
    refine .get ?_
    split
    · exact answers_pure _ _
    · rename_i name typ ino hdirent
      refine .ite (fun _ ↦ .ite (fun _ ↦ answers_pure _ _) fun h0 ↦ absurd rfl h0) fun hfit ↦ ?_
      exact absurd ⟨pos, name, typ, ino, hdir, by omega, hdirent, by omega⟩ hno
  · exact answers_pure _ _

theorem answers_sysWait4 {pid : U64} {statusPtr : ℕ} (h : statusPtr = 0 ∨
    k.exitWaitable = false ∨ 0 < pid.toInt ∧ pid ≠ k.pid.setWidth 64) :
    Answers (sysWait4 pid statusPtr) k := by
  refine .get (.ite (fun _ ↦ answers_pure _ _) fun hpid ↦ ?_)
  refine .modify (.ite (fun _ ↦ answers_pure _ _) fun hwait ↦ ?_)
  refine .ite (fun hptr ↦ absurd h ?_) fun _ ↦ answers_pure _ _
  rw [not_or, not_or]
  exact ⟨hptr, hwait, hpid⟩

end Answers

/-- **The answer without memory** is a function of the globals. -/
theorem dispatch_of_unused {k : Kernel} (arg3 : U64) (hnr : nr ∈ pointerCalls)
    (h : PointersUnused k nr arg0 arg1 arg2) : Answers (dispatch nr arg0 arg1 arg2 arg3) k := by
  simp only [pointerCalls, List.mem_cons, List.not_mem_nil, or_false] at hnr
  rcases hnr with rfl | rfl | rfl | rfl | rfl | rfl | rfl | rfl | rfl | rfl | rfl | rfl | rfl |
    rfl | rfl | rfl | rfl
  · refine .ite (fun _ ↦ answers_pure _ _) fun hnull ↦ .get ?_
    have hdir := h.resolve_left (toNat_eq_zero.not.mp hnull)
    exact .ite (fun _ ↦ answers_pure _ _) fun hok ↦ absurd hdir hok
  iterate 2
    exact .ite (fun _ ↦ answers_pure _ _) fun hnull ↦
      absurd (h.imp toNat_eq_zero.mpr toNat_eq_zero.mpr) hnull
  · refine .ite (fun _ ↦ answers_pure _ _) fun hnull ↦ ?_
    obtain ⟨hfd, hclosed⟩ := h.resolve_left (toNat_eq_zero.not.mp hnull)
    refine .ite (fun hle ↦ absurd hle hfd) fun _ ↦ .get ?_
    rcases hclosed with hclosed | hclosed
    · rw [hclosed]
      exact answers_pure _ _
    · rw [hclosed]
      exact answers_pure _ _
  · refine .ite (fun _ ↦ answers_pure _ _) fun hstat ↦ ?_
    exact .null (h.resolve_right (toNat_eq_zero.not.mp hstat))
  · exact answers_sysGetdents64 (h.imp_left toNat_eq_zero.mpr)
  · exact .null h
  · exact .null h
  · exact .null h
  · exact .null h
  · exact .null h
  · exact .null h
  · exact .null h
  · refine .ite (fun _ ↦ answers_pure _ _) fun hnull ↦ ?_
    have hlen := h.resolve_left (toNat_eq_zero.not.mp hnull)
    refine ⟨0, k, fun w hw ↦ ?_⟩
    have hnone : randomBytes 0xA7 (0 : U64).toNat = [] := rfl
    rw [hlen, hnone, bind_store, poke_nil, ← hw]
    rfl
  · refine .ite (fun _ ↦ answers_pure _ _) fun hnull ↦ .get ?_
    rw [not_or, toNat_eq_zero, toNat_eq_zero] at hnull
    have hlen := (h.resolve_left hnull.1).resolve_left hnull.2
    exact .ite (fun _ ↦ answers_pure _ _) fun hfit ↦ absurd hlen hfit
  · exact .null h
  · exact answers_sysWait4 (h.imp_left toNat_eq_zero.mpr)

/-! ## The others use their pointers -/

/-- The call returns, and has dereferenced an address. -/
def Touches (x : SysM U64) (w : World) : Prop :=
  ∃ r w', x w = .ok r w' ∧ w.touched.length < w'.touched.length

section Touches

variable {α : Type} {x y : SysM U64}

/-- The first access is enough, when the rest returns. -/
theorem touches_load {a : ℕ} {f : U8 → SysM U64} (hf : ∀ b, Total TraceGrows (f b)) :
    Touches (load a >>= f) w := by
  obtain ⟨r, w', hrun, hle⟩ := hf (w.ram a) { w with touched := a :: w.touched }
  exact ⟨r, w', hrun, Nat.lt_of_succ_le hle⟩

theorem touches_store {a : ℕ} {bs : List U8} (hbs : bs ≠ []) {f : Unit → SysM U64}
    (hf : ∀ u, Total TraceGrows (f u)) : Touches (store a bs >>= f) w := by
  obtain ⟨r, w', hrun, hle⟩ := hf () { w with
    ram := poke w.ram a bs, touched := List.range' a bs.length ++ w.touched }
  have hpos := List.length_pos_iff.mpr hbs
  rw [TraceGrows, List.length_append, List.length_range'] at hle
  exact ⟨r, w', hrun, by omega⟩

theorem touches_withPath {pathPtr : ℕ} {f : String → SysM U64}
    (hf : ∀ path, Total TraceGrows (f path)) : Touches (withPath pathPtr f) w := by
  rw [withPath, readCstr, cstrMax, readCstrFrom, bind_assoc]
  refine touches_load fun b ↦ ?_
  refine (Total.ite (total_pure _) (total_readCstrFrom _ _ _)).bind fun path ↦ ?_
  split
  · exact hf _
  · exact total_pure _

theorem touches_get {f : Kernel → SysM U64} (h : Touches (f w.kernel) w) :
    Touches (getKernel >>= f) w := h

theorem touches_writeStat {statPtr : ℕ} {isDir : Bool} {size : ℕ} {mode : BitVec 16} {ino : ℕ} :
    Touches (writeStat statPtr isDir size mode ino) w := by
  refine touches_store ?_ fun _ ↦ total_pure _
  simp [linuxStat, toLE]

theorem touches_writeTime {tp : ℕ} : Touches (writeTime tp) w :=
  touches_store (by decide) fun _ ↦ (total_store _ _).bind fun _ ↦ total_pure _

theorem touches_sysFstat {fd statPtr : ℕ} (hstat : statPtr ≠ 0) (h : ¬(¬fd ≤ 2 ∧
    (w.kernel.fdTable[fd]? = none ∨ w.kernel.fdTable[fd]? = some .free))) :
    Touches (sysFstat fd statPtr) w := by
  rw [sysFstat, if_neg hstat]
  by_cases hfd : fd ≤ 2
  · rw [if_pos hfd]
    exact touches_writeStat
  · rw [if_neg hfd]
    refine touches_get ?_
    have hopen := fun hclosed ↦ h ⟨hfd, hclosed⟩
    split
    · exact absurd (.inl ‹_›) hopen
    · exact absurd (.inr ‹_›) hopen
    · exact touches_writeStat
    · exact touches_writeStat

theorem touches_sysGetdents64 {fd dirp count : ℕ} (hdirp : dirp ≠ 0)
    (h : w.kernel.HasDirent fd count) : Touches (sysGetdents64 fd dirp count) w := by
  obtain ⟨pos, name, typ, ino, hdir, hpos, hdirent, hfit⟩ := h
  obtain ⟨n, hn⟩ : ∃ n, w.kernel.rootEntriesCount - pos = n + 1 :=
    ⟨w.kernel.rootEntriesCount - pos - 1, by omega⟩
  rw [sysGetdents64, if_neg hdirp]
  refine touches_get ?_
  rw [hdir]
  simp only
  rw [if_neg (by omega), hn, getdentsFrom]
  refine touches_get ?_
  rw [hdirent]
  simp only
  rw [if_neg (by omega), writeDirent]
  simp only [bind_assoc]
  refine touches_store (by simp [toLE]) fun _ ↦ ?_
  iterate 6 refine (total_store _ _).bind fun _ ↦ ?_
  exact (total_modifyKernel _).bind fun _ ↦ total_getdentsFrom _ _ _ _ _ _

theorem touches_sysWait4 {pid : U64} {statusPtr : ℕ} (h : ¬(statusPtr = 0 ∨
    w.kernel.exitWaitable = false ∨ 0 < pid.toInt ∧ pid ≠ w.kernel.pid.setWidth 64)) :
    Touches (sysWait4 pid statusPtr) w := by
  rw [not_or, not_or] at h
  rw [sysWait4]
  refine touches_get ?_
  simp only
  rw [if_neg h.2.2, if_neg h.2.1, if_pos h.1]
  refine ⟨w.kernel.pid.setWidth 64, _, rfl, ?_⟩
  simp [toLE]

/-- **Otherwise an address is dereferenced.** -/
theorem dispatch_touches (arg3 : U64) (hnr : nr ∈ pointerCalls)
    (h : ¬PointersUnused w.kernel nr arg0 arg1 arg2) :
    Touches (dispatch nr arg0 arg1 arg2 arg3) w := by
  simp only [pointerCalls, List.mem_cons, List.not_mem_nil, or_false] at hnr
  rcases hnr with rfl | rfl | rfl | rfl | rfl | rfl | rfl | rfl | rfl | rfl | rfl | rfl | rfl |
    rfl | rfl | rfl | rfl <;> simp only [PointersUnused, ← toNat_eq_zero] at h
  · rw [not_or] at h
    rw [dispatch, sysOpenat, if_neg h.1]
    refine touches_get ?_
    rw [if_neg h.2]
    exact touches_withPath fun path ↦ total_openPath path _
  iterate 2
    rw [dispatch, sysStatPath, if_neg h]
    exact touches_withPath fun path ↦ total_statPath path _
  · rw [not_or] at h
    exact touches_sysFstat h.1 h.2
  · rw [not_or] at h
    rw [dispatch, sysNewfstatat, if_neg h.2, if_neg h.1]
    exact touches_withPath (total_newfstatatPath _ _ _ _)
  · rw [not_or, not_not] at h
    exact touches_sysGetdents64 h.1 h.2
  · rw [dispatch, sysReadlink, if_neg h]
    exact touches_withPath fun path ↦ total_readlinkImpl path _ _
  · rw [dispatch, sysReadlinkat, sysReadlink, if_neg h]
    exact touches_withPath fun path ↦ total_readlinkImpl path _ _
  · rw [dispatch, sysAccess, if_neg h]
    exact touches_withPath total_accessPath
  · rw [dispatch, sysFaccessat, sysAccess, if_neg h]
    exact touches_withPath total_accessPath
  · rw [dispatch, sysUname, if_neg h, utsname, List.map_cons, unameFrom, bind_assoc]
    refine touches_store (by decide) fun _ ↦ ?_
    exact ((total_store _ _).bind fun _ ↦ total_unameFrom _ _).bind fun _ ↦ total_pure _
  · rw [dispatch, sysClockGettime, if_neg h]
    exact touches_writeTime
  · rw [dispatch, sysGettimeofday, if_neg h]
    exact touches_writeTime
  · rw [not_or] at h
    rw [dispatch, sysGetrandom, if_neg h.1]
    refine touches_store ?_ fun _ ↦ total_pure _
    cases hn : arg1.toNat with
    | zero => exact absurd hn h.2
    | succ n => exact List.cons_ne_nil _ _
  · rw [not_or, not_or] at h
    rw [dispatch, sysGetcwd, if_neg (not_or.mpr ⟨h.1, h.2.1⟩)]
    refine touches_get ?_
    rw [if_neg h.2.2]
    obtain ⟨r, w', hrun, hlt⟩ := touches_store (w := { w with
      ram := poke w.ram arg0.toNat (w.kernel.cwdBuf.toList.take w.kernel.cwdLen)
      touched := List.range' arg0.toNat (w.kernel.cwdBuf.toList.take w.kernel.cwdLen).length ++
        w.touched }) (a := arg0.toNat + w.kernel.cwdLen) (List.cons_ne_nil (0 : U8) [])
      fun _ ↦ total_pure (BitVec.ofNat 64 arg0.toNat)
    refine ⟨r, w', hrun, ?_⟩
    rw [List.length_append] at hlt
    omega
  · rw [dispatch, sysChdir, if_neg h]
    exact touches_withPath total_chdirPath
  · exact touches_sysWait4 h

end Touches

end LeonOS
