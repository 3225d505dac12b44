import LeonOS.Kernel.Files

/-!
# Looking up paths

Five functions of `syscall.rs` take a path: `sys_openat`, `sys_stat_path`, `sys_newfstatat`,
`path_exists` (for `access`) and `sys_chdir`.  Each compares the path with some of `""`, `"."`,
`"/"` and `".."` before it normalizes it, and then some ask for the empty name and some do not.
They agree (`ResolvesAlike`) on a path just when it is not `".."` and not one of the paths other
than `""` and `"/"` that are normalized to the empty name (`resolvesAlike_iff`): such a path is
opened as the root directory, but is not found by `stat` and `chdir`.
-/

set_option autoImplicit false

namespace LeonOS

open Bytes RustM

/-! ## What they agree on -/

/-- A path is stored at an address, shorter than `CSTR_MAX`. -/
structure CstrAt (ram : ℕ → U8) (ptr : ℕ) (path : String) : Prop where
  /-- Its bytes, and the zero behind them. -/
  bytes : peek ram ptr ((Rust.asBytes path).length + 1) = Rust.asBytes path ++ [0]
  /-- It has no zero itself. -/
  nonzero : 0 ∉ Rust.asBytes path
  /-- It is not too long. -/
  length_lt : (Rust.asBytes path).length < cstrMax

/-- A system call returns, and not an error. -/
def Succeeds (x : SysM U64) (w : World) : Prop := ∃ r w', x w = .ok r w' ∧ ¬r.toInt < 0

/-- `openat(AT_FDCWD, path, 0)`. -/
def openCall (pathPtr : U64) : SysM U64 := dispatch .openat atFdcwd pathPtr 0 0

/-- The path is opened as the root directory. -/
def OpensRoot (pathPtr : U64) (w : World) : Prop :=
  ∃ fd w', openCall pathPtr w = .ok fd w' ∧ ¬fd.toInt < 0 ∧
    w'.kernel.fdTable[fd.toNat]? = some (.rootDir 0)

/-- The calls that describe what a path names. -/
inductive StatCall (pathPtr statPtr : U64) : SysM U64 → Prop
  | stat (arg2 arg3 : U64) : StatCall pathPtr statPtr (dispatch .stat pathPtr statPtr arg2 arg3)
  | lstat (arg2 arg3 : U64) : StatCall pathPtr statPtr (dispatch .lstat pathPtr statPtr arg2 arg3)
  | newfstatat (flags : U64) :
    StatCall pathPtr statPtr (dispatch .newfstatat atFdcwd pathPtr statPtr flags)

/-- The calls that ask if a path names something. -/
inductive AccessCall (pathPtr : U64) : SysM U64 → Prop
  | access (arg1 arg2 arg3 : U64) : AccessCall pathPtr (dispatch .access pathPtr arg1 arg2 arg3)
  | faccessat (arg2 arg3 : U64) :
    AccessCall pathPtr (dispatch .faccessat atFdcwd pathPtr arg2 arg3)

/-- **All calls resolve the path at `pathPtr` alike.** -/
structure ResolvesAlike (pathPtr statPtr : U64) (w : World) : Prop where
  /-- What can be opened has a status. -/
  stat : ∀ x, StatCall pathPtr statPtr x → (Succeeds x w ↔ Succeeds (openCall pathPtr) w)
  /-- It can be accessed. -/
  access : ∀ x, AccessCall pathPtr x → (Succeeds x w ↔ Succeeds (openCall pathPtr) w)
  /-- It can be changed to when it is the root directory. -/
  chdir : ∀ arg1 arg2 arg3,
    Succeeds (dispatch .chdir pathPtr arg1 arg2 arg3) w ↔ OpensRoot pathPtr w
  /-- The descriptor has the status of the path. -/
  fstat : ∀ x, StatCall pathPtr statPtr x → ∀ fd w₁ r w₂, openCall pathPtr w = .ok fd w₁ →
    ¬fd.toInt < 0 → x w = .ok r w₂ → ∀ arg2 arg3,
      ∃ w₃, dispatch .fstat fd statPtr arg2 arg3 w₁ = .ok r w₃ ∧ w₃.ram = w₂.ram

/-! ## Reading the path -/

variable {w : World} {pathPtr statPtr : U64} {path : String} {fd : ℕ}

theorem cstrFrom_of_peek {ram : ℕ → U8} {ptr n : ℕ} {pre rest : List U8}
    (hbytes : peek ram (ptr + pre.length) (rest.length + 1) = rest ++ [0]) (hnonzero : 0 ∉ rest)
    (hlen : rest.length < n) : cstrFrom ram ptr n pre = Rust.fromUtf8 (pre ++ rest) := by
  obtain ⟨n, rfl⟩ : ∃ m, n = m + 1 := ⟨n - 1, by omega⟩
  rw [peek_succ] at hbytes
  induction rest generalizing pre n with
  | nil =>
    have hzero : ram (ptr + pre.length) = 0 := (List.cons.inj hbytes).1
    rw [cstrFrom, List.append_nil]
    exact if_pos hzero
  | cons b rest ih =>
    obtain ⟨hb, htail⟩ := List.cons.inj hbytes
    obtain ⟨hne, hrest⟩ := not_or.mp (List.mem_cons.not.mp hnonzero)
    rw [List.length_cons] at hlen htail
    obtain ⟨n, rfl⟩ : ∃ m, n = m + 1 := ⟨n - 1, by omega⟩
    rw [peek_succ] at htail
    have hlength : ptr + (pre ++ [b]).length = ptr + pre.length + 1 := by
      rw [List.length_append, List.length_singleton, Nat.add_assoc]
    rw [← hlength] at htail
    rw [cstrFrom, hb]
    refine (if_neg (Ne.symm hne)).trans ?_
    rw [ih htail hrest n (by omega), List.append_assoc, List.singleton_append]

theorem readCstrFrom_ok (ptr n : ℕ) (bytes : List U8) (w : World) : ∃ touched,
    readCstrFrom ptr n bytes w = .ok (cstrFrom w.ram ptr n bytes) { w with touched } := by
  induction n generalizing bytes w with
  | zero => exact ⟨w.touched, rfl⟩
  | succ n ih =>
    rw [readCstrFrom, bind_load, cstrFrom]
    by_cases hb : w.ram (ptr + bytes.length) = 0
    · rw [if_pos hb]
      exact ⟨_, congrArg (EStateM.Result.ok · _) (if_pos hb).symm⟩
    · obtain ⟨touched, hrun⟩ := ih (bytes ++ [w.ram (ptr + bytes.length)])
        { w with touched := (ptr + bytes.length) :: w.touched }
      rw [if_neg hb]
      refine ⟨touched, hrun.trans ?_⟩
      exact congrArg (EStateM.Result.ok · _) (if_neg hb).symm

/-- What is done with a path that is there. -/
theorem withPath_ok (h : CstrAt w.ram pathPtr.toNat path) (f : String → SysM U64) :
    ∃ touched, withPath pathPtr.toNat f w = f path { w with touched } := by
  obtain ⟨touched, hrun⟩ := readCstrFrom_ok pathPtr.toNat cstrMax [] w
  have hpath : cstrFrom w.ram pathPtr.toNat cstrMax [] = some path := by
    rw [cstrFrom_of_peek h.bytes h.nonzero h.length_lt]
    exact Rust.fromUtf8_asBytes path
  rw [hpath] at hrun
  refine ⟨touched, ?_⟩
  rw [withPath, readCstr, bind_apply, hrun]

/-! ## The calls, from the path on -/

/-- The paths that every function takes for the root directory. -/
def NamesRoot (path : String) : Prop := path = "" ∨ path = "." ∨ path = "/"

theorem openCall_eq (hptr : pathPtr ≠ 0) (h : CstrAt w.ram pathPtr.toNat path) :
    ∃ touched, openCall pathPtr w = openPath path 0 { w with touched } := by
  have hnull : pathPtr.toNat ≠ 0 := fun h ↦ hptr (BitVec.toNat_inj.mp h)
  have hdir : w.kernel.isDirfdOk atFdcwd = true := rfl
  obtain ⟨touched, hrun⟩ := withPath_ok h (openPath · 0)
  refine ⟨touched, ?_⟩
  rw [openCall, dispatch, sysOpenat, if_neg hnull, bind_getKernel, if_neg (by rw [hdir]; decide)]
  exact hrun

theorem sysStatPath_eq (hptr : pathPtr ≠ 0) (hstat : statPtr ≠ 0)
    (h : CstrAt w.ram pathPtr.toNat path) :
    ∃ touched, sysStatPath pathPtr.toNat statPtr.toNat w =
      statPath path statPtr.toNat { w with touched } := by
  have hnull : ¬(pathPtr.toNat = 0 ∨ statPtr.toNat = 0) := by
    rintro (h | h)
    · exact hptr (BitVec.toNat_inj.mp h)
    · exact hstat (BitVec.toNat_inj.mp h)
  rw [sysStatPath, if_neg hnull]
  exact withPath_ok h _

theorem StatCall.eq {x : SysM U64} (hx : StatCall pathPtr statPtr x) (hptr : pathPtr ≠ 0)
    (hstat : statPtr ≠ 0) (h : CstrAt w.ram pathPtr.toNat path) :
    ∃ touched, x w = statPath path statPtr.toNat { w with touched } := by
  cases hx with
  | stat | lstat => exact sysStatPath_eq hptr hstat h
  | newfstatat flags =>
    have hpath : pathPtr.toNat ≠ 0 := fun h ↦ hptr (BitVec.toNat_inj.mp h)
    have hbuf : statPtr.toNat ≠ 0 := fun h ↦ hstat (BitVec.toNat_inj.mp h)
    have hdir : w.kernel.isDirfdOk atFdcwd = true := rfl
    obtain ⟨touched, hrun⟩ :=
      withPath_ok h (newfstatatPath atFdcwd pathPtr.toNat statPtr.toNat flags)
    rw [dispatch, sysNewfstatat, if_neg hbuf, if_neg hpath, hrun, newfstatatPath]
    by_cases hempty : path = "" ∧ flags &&& atEmptyPath ≠ 0
    · refine ⟨touched, ?_⟩
      rw [if_pos hempty, if_pos rfl, statPath, if_pos (.inl hempty.1)]
    · rw [if_neg hempty, bind_getKernel, if_neg (by rw [hdir]; decide)]
      exact sysStatPath_eq hptr hstat h

theorem AccessCall.eq {x : SysM U64} (hx : AccessCall pathPtr x) (hptr : pathPtr ≠ 0)
    (h : CstrAt w.ram pathPtr.toNat path) :
    ∃ touched, x w = accessPath path { w with touched } := by
  have hnull : pathPtr.toNat ≠ 0 := fun h ↦ hptr (BitVec.toNat_inj.mp h)
  have haccess : ∃ touched, sysAccess pathPtr.toNat w = accessPath path { w with touched } := by
    rw [sysAccess, if_neg hnull]
    exact withPath_ok h _
  cases hx with
  | access | faccessat => exact haccess

theorem chdirCall_eq (hptr : pathPtr ≠ 0) (h : CstrAt w.ram pathPtr.toNat path)
    (arg1 arg2 arg3 : U64) :
    ∃ touched, dispatch .chdir pathPtr arg1 arg2 arg3 w = chdirPath path { w with touched } := by
  have hnull : pathPtr.toNat ≠ 0 := fun h ↦ hptr (BitVec.toNat_inj.mp h)
  rw [dispatch, sysChdir, if_neg hnull]
  exact withPath_ok h _

/-! ### What they find -/

theorem allocFd_ok (hfree : w.kernel.firstFree = some fd) (entry : FdEntry) :
    allocFd entry w =
      .ok (BitVec.ofNat 64 fd) { w with kernel := w.kernel.setFd fd entry } := by
  rw [allocFd, bind_getKernel, hfree]
  rfl

theorem openPath_root (h : NamesRoot path ∨ path = ".." ∨ normalizePath path = some "") :
    openPath path 0 w = allocFd (.rootDir 0) w := by
  rw [openPath]
  by_cases hroot : NamesRoot path
  · exact congrFun (if_pos hroot) w
  refine (congrFun (if_neg hroot) w).trans ?_
  by_cases hup : path = ".."
  · exact congrFun (if_pos hup) w
  refine (congrFun (if_neg hup) w).trans ?_
  rw [(h.resolve_left hroot).resolve_left hup]
  rfl

/-- A path that no function takes for the root directory. -/
structure Ordinary (path : String) : Prop where
  /-- It is none of those that are compared with. -/
  not_root : ¬NamesRoot path
  /-- Nor the other one of `sys_openat`. -/
  not_up : path ≠ ".."
  /-- It has a name. -/
  named : normalizePath path ≠ some ""

section Ordinary

variable {image : Image}

theorem Ordinary.fileAt (h : Ordinary path) (hmount : w.kernel.rootfs = some image) :
    w.kernel.fileAt path = (normalizePath path).bind fun name ↦
      (Fs.open image.bytes name).toOption := by
  have hspecial : ¬(path = "" ∨ path = "." ∨ path = "/" ∨ path = "..") := by
    have hroot := h.not_root
    have hup := h.not_up
    rw [NamesRoot] at hroot
    tauto
  rw [Kernel.fileAt, if_neg hspecial, hmount]
  cases hname : normalizePath path with
  | none => rfl
  | some name => exact if_neg fun hempty : name = "" ↦ h.named (hempty ▸ hname)

theorem Ordinary.openPath (h : Ordinary path) (hmount : w.kernel.rootfs = some image) :
    openPath path 0 w = match w.kernel.fileAt path with
      | some r => allocFd (r.opened image) w
      | none => .ok (-enoent) w := by
  rw [h.fileAt hmount, LeonOS.openPath]
  refine (congrFun (if_neg h.not_root) w).trans ((congrFun (if_neg h.not_up) w).trans ?_)
  cases hname : normalizePath path with
  | none => rfl
  | some name =>
    have hne : name ≠ "" := fun hempty ↦ h.named (hempty ▸ hname)
    refine (congrFun (if_neg hne) w).trans ?_
    rw [openName, bind_getKernel, hmount, Option.bind_some]
    dsimp only
    cases Fs.open image.bytes name with
    | error e => rfl
    | ok r => rfl

theorem Ordinary.statPath (h : Ordinary path) (hmount : w.kernel.rootfs = some image) (ptr : ℕ) :
    statPath path ptr w = match w.kernel.fileAt path with
      | some r => writeStat ptr false r.data.length r.mode 2 w
      | none => .ok (-enoent) w := by
  rw [h.fileAt hmount, LeonOS.statPath]
  refine (congrFun (if_neg h.not_root) w).trans ?_
  cases hname : normalizePath path with
  | none => rfl
  | some name =>
    rw [Option.bind_some]
    dsimp only
    rw [bind_getKernel, hmount]
    dsimp only
    cases Fs.open image.bytes name with
    | error e => rfl
    | ok r => rfl

theorem Ordinary.pathExists (h : Ordinary path) (hmount : w.kernel.rootfs = some image) :
    w.kernel.pathExists path = (w.kernel.fileAt path).isSome := by
  have hroot : ¬(path = "/" ∨ path = "." ∨ path = "") := by
    have hroot := h.not_root
    rw [NamesRoot] at hroot
    tauto
  rw [h.fileAt hmount, Kernel.pathExists, if_neg hroot, hmount]
  cases hname : normalizePath path with
  | none => rfl
  | some name =>
    have hne : name ≠ "" := fun hempty ↦ h.named (hempty ▸ hname)
    refine (if_neg hne).trans ?_
    dsimp only
    rw [Option.bind_some]
    cases Fs.open image.bytes name with
    | error e => rfl
    | ok r => rfl

end Ordinary

theorem chdirPath_root (h : NamesRoot path) :
    chdirPath path w = .ok 0 { w with kernel := w.kernel.setCwd } := by
  rw [chdirPath]
  rw [NamesRoot] at h
  exact congrFun (if_pos (by tauto)) w

theorem chdirPath_other (h : ¬NamesRoot path) : chdirPath path w = .ok (-enoent) w := by
  rw [chdirPath]
  rw [NamesRoot] at h
  exact congrFun (if_neg (by tauto)) w

/-! ## When they agree -/

theorem succeeds_of_ok {x : SysM U64} {r : U64} {w' : World} (h : x w = .ok r w') :
    Succeeds x w ↔ ¬r.toInt < 0 := by
  constructor
  · rintro ⟨r', w₁, h', hr⟩
    obtain ⟨rfl, -⟩ := EStateM.Result.ok.inj (h.symm.trans h')
    exact hr
  · exact fun hr ↦ ⟨r, w', h, hr⟩

/-- A path that only some functions take for the root directory is opened, but cannot be changed
to. -/
theorem not_resolvesAlike (hptr : pathPtr ≠ 0) (h : CstrAt w.ram pathPtr.toNat path)
    (hfree : w.kernel.firstFree = some fd) (hpath : ¬NamesRoot path)
    (hroot : path = ".." ∨ normalizePath path = some "") :
    ¬ResolvesAlike pathPtr statPtr w := by
  intro halike
  obtain ⟨touched, hopen⟩ := openCall_eq hptr h
  obtain ⟨touched', hchdir⟩ := chdirCall_eq hptr h 0 0 0
  have hlt := (Kernel.firstFree_bound hfree).2
  obtain ⟨hpos, hnat⟩ := Rust.ofNat_of_lt (n := fd) (hlt.trans (by decide))
  rw [openPath_root (.inr hroot)] at hopen
  have hopen := hopen.trans (allocFd_ok (w := { w with touched }) hfree _)
  rw [chdirPath_other hpath] at hchdir
  have hopens : OpensRoot pathPtr w := by
    refine ⟨_, _, hopen, hpos, ?_⟩
    rw [hnat]
    exact (Kernel.getElem?_setFd hlt).trans (if_pos rfl)
  have hsucceeds := (halike.chdir 0 0 0).mpr hopens
  rw [succeeds_of_ok hchdir] at hsucceeds
  exact hsucceeds (by decide)

/-- The status of an entry. -/
def FdEntry.status : FdEntry → Option (List U8)
  | .free => none
  | .rootDir _ => some (linuxStat true 0 0o040755 1)
  | .file _ len _ mode => some (linuxStat false len mode 2)

theorem fstat_ok {entry : FdEntry} {status : List U8} (hstat : statPtr ≠ 0)
    (hbase : fdBase ≤ fd ∧ fd < maxFds) (hentry : w.kernel.fdTable[fd]? = some entry)
    (hstatus : entry.status = some status) (arg2 arg3 : U64) : ∃ touched,
      dispatch .fstat (BitVec.ofNat 64 fd) statPtr arg2 arg3 w =
        .ok 0 ⟨w.kernel, poke w.ram statPtr.toNat status, touched⟩ := by
  have hbuf : statPtr.toNat ≠ 0 := fun h ↦ hstat (BitVec.toNat_inj.mp h)
  have hnat := (Rust.ofNat_of_lt (n := fd) (hbase.2.trans (by decide))).2
  have hhigh : ¬fd ≤ 2 := not_le.mpr hbase.1
  rw [dispatch, hnat, sysFstat, if_neg hbuf, if_neg hhigh, bind_getKernel, hentry]
  cases entry with
  | free => cases hstatus
  | rootDir | file =>
    obtain rfl := Option.some_inj.mp hstatus
    exact ⟨_, rfl⟩

/-- The calls agree on a path that is opened with an entry and has its status. -/
theorem resolvesAlike_found {entry : FdEntry} {status : List U8} (hptr : pathPtr ≠ 0)
    (hstat : statPtr ≠ 0) (h : CstrAt w.ram pathPtr.toNat path)
    (hfree : w.kernel.firstFree = some fd) (hstatus : entry.status = some status)
    (hopen : ∀ w' : World, w'.kernel = w.kernel → openPath path 0 w' = allocFd entry w')
    (hfound : ∀ w' : World, w'.kernel = w.kernel → ∃ touched, statPath path statPtr.toNat w' =
      .ok 0 ⟨w'.kernel, poke w'.ram statPtr.toNat status, touched⟩)
    (haccess : w.kernel.pathExists path = true)
    (hchdir : NamesRoot path ↔ entry = .rootDir 0) : ResolvesAlike pathPtr statPtr w := by
  have hbound := Kernel.firstFree_bound hfree
  obtain ⟨hpos, hnat⟩ := Rust.ofNat_of_lt (n := fd) (hbound.2.trans (by decide))
  obtain ⟨touched, hrun⟩ := openCall_eq hptr h
  replace hrun := hrun.trans (hopen { w with touched } rfl)
  have hopened := hrun.trans (allocFd_ok (w := { w with touched }) hfree entry)
  have hslot : (w.kernel.setFd fd entry).fdTable[fd]? = some entry :=
    (Kernel.getElem?_setFd hbound.2).trans (if_pos rfl)
  have hyes : Succeeds (openCall pathPtr) w := ⟨_, _, hopened, hpos⟩
  constructor
  · intro x hx
    obtain ⟨touched', hx⟩ := hx.eq hptr hstat h
    obtain ⟨_, hfound⟩ := hfound { w with touched := touched' } rfl
    exact iff_of_true ⟨0, _, hx.trans hfound, by decide⟩ hyes
  · intro x hx
    obtain ⟨touched', hx⟩ := hx.eq hptr h
    rw [accessPath, bind_getKernel, if_pos haccess] at hx
    exact iff_of_true ⟨0, _, hx, by decide⟩ hyes
  · intro arg1 arg2 arg3
    obtain ⟨touched', hrun'⟩ := chdirCall_eq hptr h arg1 arg2 arg3
    by_cases hroot : NamesRoot path
    · rw [chdirPath_root hroot] at hrun'
      refine iff_of_true ⟨0, _, hrun', by decide⟩ ⟨_, _, hopened, hpos, ?_⟩
      rw [hnat, ← hchdir.mp hroot]
      exact hslot
    · rw [chdirPath_other hroot] at hrun'
      refine iff_of_false (fun hyes ↦ (succeeds_of_ok hrun').mp hyes (by decide)) ?_
      rintro ⟨fd', w', hrun', -, hentry⟩
      obtain ⟨rfl, rfl⟩ := EStateM.Result.ok.inj (hopened.symm.trans hrun')
      rw [hnat] at hentry
      exact hroot (hchdir.mpr (Option.some_inj.mp (hslot.symm.trans hentry)))
  · intro x hx fd' w₁ r w₂ hrun₁ _ hrun₂ arg2 arg3
    obtain ⟨rfl, rfl⟩ := EStateM.Result.ok.inj (hopened.symm.trans hrun₁)
    obtain ⟨touched', hx⟩ := hx.eq hptr hstat h
    obtain ⟨_, hfound⟩ := hfound { w with touched := touched' } rfl
    obtain ⟨rfl, rfl⟩ := EStateM.Result.ok.inj ((hx.trans hfound).symm.trans hrun₂)
    obtain ⟨_, hfstat⟩ := fstat_ok (w := ⟨w.kernel.setFd fd entry, w.ram, touched⟩) hstat hbound
      hslot hstatus arg2 arg3
    exact ⟨_, hfstat, rfl⟩

theorem resolvesAlike_root (hptr : pathPtr ≠ 0) (hstat : statPtr ≠ 0)
    (h : CstrAt w.ram pathPtr.toNat path) (hfree : w.kernel.firstFree = some fd)
    (hroot : NamesRoot path) : ResolvesAlike pathPtr statPtr w := by
  refine resolvesAlike_found hptr hstat h hfree rfl (fun w' _ ↦ ?_) (fun w' _ ↦ ?_) ?_
    (iff_of_true hroot rfl)
  · exact openPath_root (.inl hroot)
  · rw [statPath]
    refine ⟨_, congrFun (if_pos hroot) w'⟩
  · rw [Kernel.pathExists, if_pos]
    rw [NamesRoot] at hroot
    tauto

theorem normalizePath_dot : normalizePath "." ≠ some "" := by
  decide

/-- They agree on a path that none of them finds. -/
theorem resolvesAlike_missing (hptr : pathPtr ≠ 0) (hstat : statPtr ≠ 0)
    (h : CstrAt w.ram pathPtr.toNat path)
    (hopen : ∀ w' : World, w'.kernel = w.kernel → openPath path 0 w' = .ok (-enoent) w')
    (hmissing : ∀ w' : World, w'.kernel = w.kernel →
      statPath path statPtr.toNat w' = .ok (-enoent) w')
    (haccess : w.kernel.pathExists path = false) (hroot : ¬NamesRoot path) :
    ResolvesAlike pathPtr statPtr w := by
  have hfails {x : SysM U64} {w' : World} (hx : x w = .ok (-enoent) w') : ¬Succeeds x w :=
    fun hyes ↦ (succeeds_of_ok hx).mp hyes (by decide)
  obtain ⟨touched, hrun⟩ := openCall_eq hptr h
  replace hrun := hrun.trans (hopen { w with touched } rfl)
  constructor
  · intro x hx
    obtain ⟨touched', hx⟩ := hx.eq hptr hstat h
    replace hx := hx.trans (hmissing { w with touched := touched' } rfl)
    exact iff_of_false (hfails hx) (hfails hrun)
  · intro x hx
    obtain ⟨touched', hx⟩ := hx.eq hptr h
    rw [accessPath, bind_getKernel, if_neg (by rw [haccess]; decide)] at hx
    exact iff_of_false (hfails hx) (hfails hrun)
  · intro arg1 arg2 arg3
    obtain ⟨touched', hrun'⟩ := chdirCall_eq hptr h arg1 arg2 arg3
    rw [chdirPath_other hroot] at hrun'
    refine iff_of_false (hfails hrun') ?_
    rintro ⟨fd', w', hopened, hpos, -⟩
    exact hfails hrun ⟨fd', w', hopened, hpos⟩
  · intro x _ fd' w₁ r w₂ hopened hpos
    exact absurd ⟨fd', w₁, hopened, hpos⟩ (hfails hrun)

/-- **When all calls resolve a path alike.** -/
theorem resolvesAlike_iff {image : Image} (hmount : w.kernel.rootfs = some image)
    (hfree : w.kernel.firstFree = some fd) (h : CstrAt w.ram pathPtr.toNat path)
    (hptr : pathPtr ≠ 0) (hstat : statPtr ≠ 0) :
    ResolvesAlike pathPtr statPtr w ↔
      path ≠ ".." ∧ (normalizePath path = some "" → path = "" ∨ path = "/") := by
  constructor
  · intro halike
    refine ⟨fun hup ↦ ?_, fun hname ↦ ?_⟩
    · refine not_resolvesAlike hptr h hfree ?_ (.inl hup) halike
      rw [hup, NamesRoot]
      decide
    · by_contra hroot
      refine not_resolvesAlike hptr h hfree ?_ (.inr hname) halike
      rintro (rfl | rfl | rfl)
      · exact hroot (.inl rfl)
      · exact absurd hname normalizePath_dot
      · exact hroot (.inr rfl)
  rintro ⟨hup, hname⟩
  by_cases hroot : NamesRoot path
  · exact resolvesAlike_root hptr hstat h hfree hroot
  have hordinary : Ordinary path := by
    refine ⟨hroot, hup, fun hempty ↦ hroot ?_⟩
    rcases hname hempty with rfl | rfl
    · exact .inl rfl
    · exact .inr (.inr rfl)
  have hopen (w' : World) (hw' : w'.kernel = w.kernel) := hordinary.openPath (hw' ▸ hmount)
  have hstatus (w' : World) (hw' : w'.kernel = w.kernel) :=
    hordinary.statPath (hw' ▸ hmount) statPtr.toNat
  have haccess := hordinary.pathExists hmount
  cases hfile : w.kernel.fileAt path with
  | none =>
    refine resolvesAlike_missing hptr hstat h (fun w' hw' ↦ ?_) (fun w' hw' ↦ ?_) ?_ hroot
    · rw [hopen w' hw', hw', hfile]
    · rw [hstatus w' hw', hw', hfile]
    · rw [haccess, hfile]
      rfl
  | some r =>
    have hentry : (r.opened image).status = some (linuxStat false r.data.length r.mode 2) := rfl
    refine resolvesAlike_found hptr hstat h hfree hentry (fun w' hw' ↦ ?_) (fun w' hw' ↦ ?_) ?_ ?_
    · rw [hopen w' hw', hw', hfile]
    · have hrun := hstatus w' hw'
      rw [hw', hfile] at hrun
      exact ⟨_, hrun⟩
    · rw [haccess, hfile]
      rfl
    · exact iff_of_false hroot nofun

/-- An image without files. -/
def emptyImage : Image := ⟨[0x4C, 0x46, 0x53, 0x31, 1, 0, 0, 0, 0, 0, 0, 0], by decide⟩

/-- The image was just mounted, and `".."` is at `0x1000`. -/
def parentWorld : World :=
  ⟨Kernel.boot.setRootfs emptyImage, poke (fun _ ↦ 0) 0x1000 [0x2E, 0x2E], []⟩

theorem cstrAt_parentWorld : CstrAt parentWorld.ram (0x1000 : U64).toNat ".." where
  bytes := by decide
  nonzero := by decide
  length_lt := by decide

theorem firstFree_parentWorld : parentWorld.kernel.firstFree = some 3 := by decide

theorem resolvesAlike_iff_parent : ResolvesAlike 0x1000 0x2000 parentWorld ↔
    ".." ≠ ".." ∧ (normalizePath ".." = some "" → ".." = "" ∨ ".." = "/") :=
  resolvesAlike_iff (w := parentWorld) rfl firstFree_parentWorld cstrAt_parentWorld (by decide)
    (by decide)

/-- `open("..")` works and `chdir("..")` does not. -/
theorem parent_not_resolvesAlike : ¬ResolvesAlike 0x1000 0x2000 parentWorld :=
  not_resolvesAlike (by decide) cstrAt_parentWorld firstFree_parentWorld (by rw [NamesRoot]; decide)
    (.inl rfl)

end LeonOS
