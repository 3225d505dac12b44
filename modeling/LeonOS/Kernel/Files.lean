import LeonOS.Kernel.Runs

/-!
# Open files

What a program may think of a file descriptor: some data, and a position in it (`OpenFile`).  A
history of system calls says for every descriptor which open file it stands for
(`OpenFiles.after`): opening a file gives its data at the position 0, `lseek` sets the position, a
`read` moves it by what it returns, and copies of descriptors go their own ways from then on.

The table of descriptors has pointers instead.  Each leads to the data of an entry in the mounted
image (`Kernel.FilesOk`), so the table too says for every descriptor which open file it stands for
(`Kernel.openFiles`), and it says the same as the history.
-/

set_option autoImplicit false

namespace LeonOS

open Bytes RustM

/-! ## Open files -/

/-- An open file. -/
structure OpenFile where
  /-- The data of the file. -/
  data : List U8
  /-- The position. -/
  pos : ℕ
  deriving DecidableEq

/-- How many bytes a read of `n` bytes gets. -/
def OpenFile.count (f : OpenFile) (n : ℕ) : ℕ := min n (f.data.length - f.pos)

/-- The bytes that a read of `n` bytes gets. -/
def OpenFile.read (f : OpenFile) (n : ℕ) : List U8 := slice f.data f.pos (f.count n)

/-- The file after a read of `n` bytes. -/
def OpenFile.advance (f : OpenFile) (n : ℕ) : OpenFile := ⟨f.data, f.pos + f.count n⟩

theorem OpenFile.length_read (f : OpenFile) (n : ℕ) : (f.read n).length = f.count n := by
  rw [OpenFile.read, length_slice, OpenFile.count]
  omega

/-- The open files, by descriptor. -/
abbrev OpenFiles := ℕ → Option OpenFile

/-- The open files after a system call with the result `r`; `opened` is the data of the file that
the path names, when the call opens a file. -/
def OpenFiles.after (nr : Nr) (arg0 arg1 r : U64) (opened : Option (List U8)) (files : OpenFiles) :
    OpenFiles :=
  if r.toInt < 0 then files
  else
    match nr with
    | .openat => Function.update files r.toNat (opened.map (⟨·, 0⟩))
    | .read =>
      Function.update files arg0.toNat ((files arg0.toNat).map fun f ↦ ⟨f.data, f.pos + r.toNat⟩)
    | .lseek =>
      Function.update files arg0.toNat ((files arg0.toNat).map fun f ↦ ⟨f.data, r.toNat⟩)
    | .close => Function.update files arg0.toNat none
    | .dup => Function.update files r.toNat (files arg0.toNat)
    | .dup2 => Function.update files arg1.toNat (files arg0.toNat)
    | _ => files

/-- The string at an address, as far as a path may go. -/
def cstrFrom (ram : ℕ → U8) (ptr : ℕ) : ℕ → List U8 → Option String
  | 0, _ => none
  | n + 1, bytes =>
    let b := ram (ptr + bytes.length)
    if b = 0 then Rust.fromUtf8 bytes else cstrFrom ram ptr n (bytes ++ [b])

/-- The file that a path names; some paths name the root directory. -/
def Kernel.fileAt (k : Kernel) (path : String) : Option FileRecord := do
  if path = "" ∨ path = "." ∨ path = "/" ∨ path = ".." then none
  else
    let name ← normalizePath path
    if name = "" then none
    else
      let image ← k.rootfs
      (Fs.open image.bytes name).toOption

/-- The data of the file that the path at an address names. -/
def World.dataAt (w : World) (pathPtr : ℕ) : Option (List U8) :=
  (cstrFrom w.ram pathPtr cstrMax []).bind fun path ↦ (w.kernel.fileAt path).map (·.data)

/-- The open files after an event. -/
def OpenFiles.afterEvent (e : KernelEvent) (w : World) (r : U64) (_ : World)
    (files : OpenFiles) : OpenFiles :=
  match e with
  | .call nr arg0 arg1 _ _ => files.after nr arg0 arg1 r (w.dataAt arg1.toNat)
  | .mount _ => fun _ ↦ none
  | _ => files

/-! ## What the table says -/

/-- The open file of an entry. -/
def FdEntry.openFile : FdEntry → Option OpenFile
  | .file dataPtr len pos _ => some ⟨slice dataPtr.image.bytes dataPtr.offset len, pos⟩
  | _ => none

/-- The open files of the table. -/
def Kernel.openFiles (k : Kernel) : OpenFiles := fun fd ↦ k.fdTable[fd]?.bind FdEntry.openFile

/-- The pointer and the length are those of an entry in the mounted image. -/
def Kernel.Denotes (k : Kernel) (dataPtr : DataPtr) (len : ℕ) : Prop :=
  ∃ image i r, k.rootfs = some image ∧ Fs.entry image.bytes i = .ok r ∧
    dataPtr = ⟨image, r.dataPtr⟩ ∧ len = r.data.length

/-- **The invariant of the table.** -/
structure Kernel.FilesOk (k : Kernel) : Prop where
  /-- The descriptors of the standard streams have no entry. -/
  reserved : ∀ fd < fdBase, k.fdTable[fd]? = some .free
  /-- Every file is an entry of the mounted image. -/
  denotes : ∀ (fd : ℕ) (dataPtr : DataPtr) (len pos : ℕ) (mode : BitVec 16),
    k.fdTable[fd]? = some (.file dataPtr len pos mode) → k.Denotes dataPtr len

variable {k k' : Kernel} {nr : Nr} {arg0 arg1 arg2 arg3 : U64} {w : World} {fd : ℕ}
  {entry : FdEntry} {opened : Option (List U8)}

theorem Kernel.openFiles_setFd (h : fd < maxFds) :
    (k.setFd fd entry).openFiles = Function.update k.openFiles fd entry.openFile := by
  funext fd'
  rw [Kernel.openFiles, Kernel.getElem?_setFd h, Function.update_apply]
  by_cases hfd : fd = fd'
  · rw [if_pos hfd, if_pos hfd.symm]
    rfl
  · rw [if_neg hfd, if_neg (Ne.symm hfd)]
    rfl

theorem Kernel.openFiles_eq (h : k.fdTable[fd]? = some entry) :
    k.openFiles fd = entry.openFile := by
  rw [Kernel.openFiles, h]
  rfl

theorem Kernel.openFiles_setRootfs (image : Image) :
    (k.setRootfs image).openFiles = fun _ ↦ none := by
  funext fd
  rw [Kernel.openFiles, Kernel.setRootfs, Kernel.setCwd]
  by_cases h : fd < maxFds
  · simp [FdEntry.openFile, h]
  · simp [FdEntry.openFile, h]

theorem Kernel.filesOk_setRootfs (image : Image) : (k.setRootfs image).FilesOk where
  reserved fd hfd := by
    have hlt : fd < maxFds := lt_trans hfd (by decide)
    simp [Kernel.setRootfs, Kernel.setCwd, hlt]
  denotes fd dataPtr len pos mode h := by
    rw [Kernel.setRootfs, Kernel.setCwd] at h
    simp [Vector.getElem?_replicate] at h

/-- The data of a file in a table that is in order, and no byte of it is outside of the image. -/
theorem Kernel.Denotes.bound {dataPtr : DataPtr} {len : ℕ} (h : k.Denotes dataPtr len) :
    dataPtr.offset + len ≤ dataPtr.image.bytes.length := by
  obtain ⟨image, i, r, -, hentry, rfl, rfl⟩ := h
  have hlen : image.bytes.length < 2 ^ 64 := image.length_lt.trans (by decide)
  exact (Fs.entryAt_data hlen (Fs.entryAt_of_entry hentry)).1

/-! ## Every event keeps the table in order -/

theorem Kernel.FilesOk.setFd (h : k.FilesOk) (hbase : fdBase ≤ fd)
    (hentry : ∀ dataPtr len pos mode, entry = .file dataPtr len pos mode → k.Denotes dataPtr len) :
    (k.setFd fd entry).FilesOk := by
  by_cases hfd : fd < maxFds
  · constructor
    · intro fd' hlt
      rw [Kernel.getElem?_setFd hfd, if_neg (by omega)]
      exact h.reserved fd' hlt
    · intro fd' dataPtr len pos mode hsome
      rw [Kernel.getElem?_setFd hfd] at hsome
      split at hsome
      · exact hentry dataPtr len pos mode (Option.some_inj.mp hsome)
      · exact h.denotes fd' dataPtr len pos mode hsome
  · rw [Kernel.setFd_of_le (not_lt.mp hfd)]
    exact h

theorem Kernel.FilesOk.of_eq (h : k.FilesOk) (htable : k'.fdTable = k.fdTable)
    (hmount : k'.rootfs = k.rootfs) : k'.FilesOk where
  reserved fd hfd := htable ▸ h.reserved fd hfd
  denotes fd dataPtr len pos mode hsome := by
    rw [Kernel.Denotes, hmount]
    exact h.denotes fd dataPtr len pos mode (htable ▸ hsome)

theorem Kernel.firstFree_bound (h : k.firstFree = some fd) : fdBase ≤ fd ∧ fd < maxFds := by
  have hmem := List.mem_range'_1.mp (List.mem_of_find?_eq_some h)
  rw [maxFds, fdBase] at *
  omega

/-- **A system call keeps the table in order.** -/
theorem Effect.filesOk (h : Effect k nr arg0 arg1 k') (hk : k.FilesOk) : k'.FilesOk := by
  cases h with
  | opened hfree hentry =>
    refine hk.setFd (Kernel.firstFree_bound hfree).1 fun dataPtr len pos mode heq ↦ ?_
    cases hentry with
    | rootDir => exact nomatch heq
    | file hmount hr =>
      cases heq
      exact ⟨_, _, _, hmount, hr, rfl, rfl⟩
  | duped hfree hentry =>
    refine hk.setFd (Kernel.firstFree_bound hfree).1 fun dataPtr len pos mode heq ↦ ?_
    exact hk.denotes _ dataPtr len pos mode (heq ▸ hentry)
  | dupedTo hbase hentry =>
    exact hk.setFd hbase fun dataPtr len pos mode heq ↦
      hk.denotes _ dataPtr len pos mode (heq ▸ hentry)
  | closed hbase => exact hk.setFd hbase nofun
  | @moved _ _ _ entry pos hnr hdir _ hentry =>
    by_cases hbase : fdBase ≤ arg0.toNat
    · refine hk.setFd hbase fun dataPtr len pos' mode heq ↦ ?_
      cases entry with
      | free | rootDir => exact nomatch heq
      | file dataPtr' len' pos'' mode' =>
        cases heq
        exact hk.denotes _ _ _ _ _ hentry
    · have hfree := hk.reserved arg0.toNat (not_le.mp hbase)
      obtain rfl : entry = .free := Option.some_inj.mp (hentry.symm.trans hfree)
      rw [FdEntry.withPos, Kernel.setFd_self hfree]
      exact hk
  | brk =>
    rw [Kernel.brkSet]
    split
    · exact hk
    · exact hk.of_eq rfl rfl
  | none => exact hk
  | _ => exact hk.of_eq rfl rfl

theorem KernelEvent.Ran.filesOk {e : KernelEvent} {r : U64} {w' : World} (h : e.Ran w r w')
    (hk : w.kernel.FilesOk) : w'.kernel.FilesOk := by
  cases h with
  | call h => exact (dispatch_effect _ _ h).filesOk hk
  | mount => exact Kernel.filesOk_setRootfs _
  | mark | poll | user => exact hk.of_eq rfl rfl

theorem Kernel.filesOk_boot : Kernel.boot.FilesOk where
  reserved fd hfd := by
    have hlt : fd < maxFds := lt_trans hfd (by decide)
    simp [Kernel.boot, hlt]
  denotes fd dataPtr len pos mode h := by
    simp [Kernel.boot, Vector.getElem?_replicate] at h

/-- **In every reachable kernel** the table is in order. -/
theorem Kernel.Reachable.filesOk (h : k.Reachable) : k.FilesOk :=
  h.invariant Kernel.filesOk_boot fun _ _ _ _ hran hk ↦ hran.filesOk hk

/-! ## The table says what the history says -/

theorem OpenFiles.after_of_neg {r : U64} {files : OpenFiles}
    (h : r.toInt < 0) : files.after nr arg0 arg1 r opened = files :=
  if_pos h

theorem OpenFiles.after_eq_self {r : U64} {files : OpenFiles}
    (hother : nr ∉ [.openat, .close, .dup, .dup2])
    (hnone : nr = .read ∨ nr = .lseek → files arg0.toNat = none) :
    files.after nr arg0 arg1 r opened = files := by
  have hsame : nr = .read ∨ nr = .lseek → ∀ f : OpenFile → OpenFile,
      Function.update files arg0.toNat ((files arg0.toNat).map f) = files := fun hnr f ↦ by
    rw [hnone hnr, Option.map_none, ← hnone hnr, Function.update_eq_self]
  by_cases hr : r.toInt < 0
  · exact if_pos hr
  cases nr with
  | openat | close | dup | dup2 => exact absurd hother (by decide)
  | read => exact (if_neg hr).trans (hsame (.inl rfl) _)
  | lseek => exact (if_neg hr).trans (hsame (.inr rfl) _)
  | _ => exact if_neg hr

/-! ### Opening -/

theorem readCstrFrom_ensures (ptr n : ℕ) (bytes : List U8) (w : World) :
    Ensures (readCstrFrom ptr n bytes) w fun path w' ↦
      path = cstrFrom w.ram ptr n bytes ∧ w'.kernel = w.kernel ∧ w'.ram = w.ram := by
  induction n generalizing bytes w with
  | zero => exact ensures_pure.mpr ⟨rfl, rfl, rfl⟩
  | succ n ih =>
    rw [readCstrFrom, ensures_bind, ensures_load, ensures_ite, cstrFrom]
    refine ⟨fun hb ↦ ensures_pure.mpr ⟨(if_pos hb).symm, rfl, rfl⟩, fun hb ↦ ?_⟩
    simp only [if_neg hb]
    exact ih _ _

/-- A new entry for `entry`, if there is one. -/
theorem allocFd_openFiles (entry : FdEntry) (w : World) :
    Ensures (allocFd entry) w fun r w' ↦ w'.kernel.openFiles =
      if r.toInt < 0 then w.kernel.openFiles
      else Function.update w.kernel.openFiles r.toNat entry.openFile := by
  rw [allocFd, ensures_bind, ensures_getKernel]
  split
  · rename_i i hi
    obtain ⟨hpos, hnat⟩ := Rust.ofNat_of_lt
      ((Kernel.firstFree_bound hi).2.trans (by decide))
    simp only [ensures_bind, ensures_modifyKernel, ensures_pure, if_neg hpos, hnat]
    exact Kernel.openFiles_setFd (Kernel.firstFree_bound hi).2
  · rw [ensures_pure, if_pos (by decide)]

theorem openFile_opened {image : Image} {name : String} {rec : FileRecord}
    (h : Fs.open image.bytes name = .ok rec) :
    (rec.opened image).openFile = some ⟨rec.data, 0⟩ := by
  obtain ⟨i, hentry, -⟩ := Fs.open_eq_ok h
  have hlen : image.bytes.length < 2 ^ 64 := image.length_lt.trans (by decide)
  have hdata := (Fs.entryAt_data hlen (Fs.entryAt_of_entry hentry)).2
  rw [FileRecord.opened, FdEntry.openFile, ← hdata]

/-- A file of the disk is opened with its data. -/
theorem openName_openFiles (name : String) (flags : U64) (w : World) :
    Ensures (openName name flags) w fun r w' ↦ w'.kernel.openFiles =
      w.kernel.openFiles.after .openat arg0 arg1 r ((w.kernel.rootfs.bind fun image ↦
        (Fs.open image.bytes name).toOption).map (·.data)) := by
  have hfail (e : U64) (he : e.toInt < 0) (data : Option (List U8)) :
      Ensures (pure e : SysM U64) w fun r w' ↦ w'.kernel.openFiles =
        w.kernel.openFiles.after .openat arg0 arg1 r data :=
    ensures_pure.mpr (OpenFiles.after_of_neg he).symm
  rw [openName, ensures_bind, ensures_getKernel]
  cases w.kernel.rootfs with
  | none => exact hfail (-enoent) (by decide) none
  | some image =>
    dsimp only
    rw [Option.bind_some]
    cases hopen : Fs.open image.bytes name with
    | error e => exact hfail (-enoent) (by decide) none
    | ok rec =>
      dsimp only
      rw [ensures_ite]
      refine ⟨fun _ ↦ hfail (-enotdir) (by decide) _, fun _ ↦ ?_⟩
      refine (allocFd_openFiles (rec.opened image) w).mono fun r w' h ↦ h.trans ?_
      rw [openFile_opened hopen]
      rfl

/-- `openat` from the path on. -/
theorem openPath_openFiles (path : String) (flags : U64) (w : World) :
    Ensures (openPath path flags) w fun r w' ↦ w'.kernel.openFiles =
      w.kernel.openFiles.after .openat arg0 arg1 r ((w.kernel.fileAt path).map (·.data)) := by
  have hdir (hnone : w.kernel.fileAt path = none) : Ensures (allocFd (.rootDir 0)) w fun r w' ↦
      w'.kernel.openFiles = w.kernel.openFiles.after .openat arg0 arg1 r
        ((w.kernel.fileAt path).map (·.data)) := by
    rw [hnone]
    exact allocFd_openFiles (.rootDir 0) w
  rw [openPath]
  by_cases hroot : path = "" ∨ path = "." ∨ path = "/"
  · rw [if_pos hroot]
    refine hdir (if_pos ?_)
    tauto
  by_cases hup : path = ".."
  · rw [if_neg hroot, if_pos hup]
    refine hdir (if_pos ?_)
    tauto
  have hname : w.kernel.fileAt path = (normalizePath path).bind fun name ↦
      if name = "" then none
      else w.kernel.rootfs.bind fun image ↦ (Fs.open image.bytes name).toOption :=
    if_neg (by tauto)
  rw [if_neg hroot, if_neg hup]
  cases hnorm : normalizePath path with
  | none => exact ensures_pure.mpr (OpenFiles.after_of_neg (by decide)).symm
  | some name =>
    rw [hnorm] at hname
    dsimp only
    by_cases hempty : name = ""
    · rw [if_pos hempty]
      exact hdir (hname.trans (if_pos hempty))
    · have hfile : w.kernel.fileAt path = w.kernel.rootfs.bind fun image ↦
          (Fs.open image.bytes name).toOption := hname.trans (if_neg hempty)
      rw [if_neg hempty, hfile]
      exact openName_openFiles name flags w

theorem sysOpenat_openFiles (dirfd : U64) (pathPtr : ℕ) (flags : U64) (w : World) :
    Ensures (sysOpenat dirfd pathPtr flags) w fun r w' ↦ w'.kernel.openFiles =
      w.kernel.openFiles.after .openat arg0 arg1 r (w.dataAt pathPtr) := by
  have hfail (e : U64) (he : e.toInt < 0) (w' : World) (hw' : w'.kernel = w.kernel) :
      w'.kernel.openFiles = w.kernel.openFiles.after .openat arg0 arg1 e (w.dataAt pathPtr) := by
    rw [hw', OpenFiles.after_of_neg he]
  rw [sysOpenat, ensures_ite]
  refine ⟨fun _ ↦ ensures_pure.mpr (hfail (-efault) (by decide) w rfl), fun _ ↦ ?_⟩
  rw [ensures_bind, ensures_getKernel, ensures_ite]
  refine ⟨fun _ ↦ ensures_pure.mpr (hfail (-ebadf) (by decide) w rfl), fun _ ↦ ?_⟩
  refine (readCstrFrom_ensures pathPtr cstrMax [] w).bind fun path w₁ h₁ ↦ ?_
  obtain ⟨hpath, hkernel, -⟩ := h₁
  have hdata : w.dataAt pathPtr = path.bind fun path ↦
      (w.kernel.fileAt path).map (·.data) := by
    rw [hpath]
    rfl
  cases path with
  | none => exact ensures_pure.mpr (hfail (-efault) (by decide) w₁ hkernel)
  | some path =>
    rw [hdata, Option.bind_some, ← hkernel]
    exact openPath_openFiles path flags w₁

/-! ### Reading and seeking -/

/-- **A read of a file**, by the entry that it goes through. -/
theorem sysRead_file {dataPtr : DataPtr} {len pos : ℕ} {mode : BitVec 16} {f : OpenFile}
    (hentry : w.kernel.fdTable[fd]? = some (.file dataPtr len pos mode))
    (hdenotes : w.kernel.Denotes dataPtr len)
    (hf : FdEntry.openFile (.file dataPtr len pos mode) = some f) {buf : ℕ} (hbuf : buf ≠ 0)
    (n : ℕ) : ∃ touched, sysRead fd buf n w = .ok (BitVec.ofNat 64 (f.count n))
      ⟨w.kernel.setFd fd (.file dataPtr len (pos + f.count n) mode), poke w.ram buf (f.read n),
        touched⟩ := by
  have hbound := hdenotes.bound
  have hlen := dataPtr.image.length_lt
  obtain rfl := Option.some_inj.mp hf
  have hlength : (slice dataPtr.image.bytes dataPtr.offset len).length = len :=
    length_slice_of_le hbound
  rw [OpenFile.read, OpenFile.count]
  simp only [hlength]
  rw [sysRead, if_neg hbuf, bind_getKernel, hentry]
  dsimp only
  by_cases hpos : pos ≥ len
  · have hzero : min n (len - pos) = 0 := by omega
    have hnil : slice (slice dataPtr.image.bytes dataPtr.offset len) pos 0 = [] := by
      rw [slice, List.take_zero]
    rw [if_pos hpos, hzero, hnil, poke_nil, Nat.add_zero, Kernel.setFd_self hentry]
    exact ⟨w.touched, rfl⟩
  · have hfit : pos + min n (len - pos) ≤ len := by omega
    have hsrc : dataPtr.bytes (ε := Empty) pos (min n (len - pos)) =
        .ok (slice (slice dataPtr.image.bytes dataPtr.offset len) pos (min n (len - pos))) := by
      rw [DataPtr.bytes, Rust.range_of_le (by omega) (by omega), slice_slice hfit]
      congr 2
      omega
    have hadd : (Rust.add pos (min n (len - pos)) : Rust Empty ℕ) =
        .ok (pos + min n (len - pos)) := Rust.add_of_lt (by omega)
    rw [if_neg hpos, hsrc, hadd]
    exact ⟨_, rfl⟩

theorem sysRead_openFiles (hk : w.kernel.FilesOk) (buf n : ℕ) :
    Ensures (sysRead arg0.toNat buf n) w fun r w' ↦ w'.kernel.openFiles =
      w.kernel.openFiles.after .read arg0 arg1 r opened := by
  have hfail (e : U64) (he : e.toInt < 0) : w.kernel.openFiles =
      w.kernel.openFiles.after .read arg0 arg1 e opened := (OpenFiles.after_of_neg he).symm
  by_cases hbuf : buf = 0
  · rw [sysRead, if_pos hbuf, ensures_pure]
    exact hfail (-efault) (by decide)
  cases hentry : w.kernel.fdTable[arg0.toNat]? with
  | none =>
    rw [sysRead, if_neg hbuf, ensures_bind, ensures_getKernel, hentry]
    exact ensures_pure.mpr (hfail (-ebadf) (by decide))
  | some entry =>
    cases entry with
    | free =>
      rw [sysRead, if_neg hbuf, ensures_bind, ensures_getKernel, hentry]
      exact ensures_pure.mpr (hfail (-ebadf) (by decide))
    | rootDir pos =>
      rw [sysRead, if_neg hbuf, ensures_bind, ensures_getKernel, hentry]
      exact ensures_pure.mpr (hfail (-eisdir) (by decide))
    | file dataPtr len pos mode =>
      have hdenotes := hk.denotes _ _ _ _ _ hentry
      obtain ⟨touched, hrun⟩ := sysRead_file hentry hdenotes rfl hbuf n
      have hcount : OpenFile.count ⟨slice dataPtr.image.bytes dataPtr.offset len, pos⟩ n <
          2 ^ 63 := by
        have hmax := dataPtr.image.length_lt
        have hbound := hdenotes.bound
        rw [OpenFile.count, length_slice_of_le hbound]
        omega
      obtain ⟨hpos, hnat⟩ := Rust.ofNat_of_lt hcount
      rw [ensures_of_eq hrun, Kernel.openFiles_setFd (Kernel.lt_of_getElem?_fdTable hentry)]
      refine Eq.trans ?_ (if_neg hpos).symm
      rw [hnat, Kernel.openFiles_eq hentry]
      rfl

theorem seekPos_bound {pos last whence newPos : ℕ} {off : U64}
    (h : seekPos pos last off whence = some newPos) : newPos < 2 ^ 63 := by
  have hgo : ∀ base : U64, (if Rust.saturatingAddSigned base off < 0 then none
      else some (Rust.saturatingAddSigned base off).toNat) = some newPos → newPos < 2 ^ 63 := by
    intro base h
    split at h
    · exact nomatch h
    · have hle : Rust.saturatingAddSigned base off ≤ 2 ^ 63 - 1 := by
        rw [Rust.saturatingAddSigned]
        omega
      have heq := Option.some_inj.mp h
      omega
  match whence with
  | 0 => exact hgo 0 h
  | 1 => exact hgo (BitVec.ofNat 64 pos) h
  | 2 => exact hgo (BitVec.ofNat 64 last) h
  | n + 3 => exact nomatch h

theorem sysLseek_openFiles (off : U64) (whence : ℕ) (w : World) :
    Ensures (sysLseek arg0.toNat off whence) w fun r w' ↦ w'.kernel.openFiles =
      w.kernel.openFiles.after .lseek arg0 arg1 r opened := by
  have hfail (e : U64) (he : e.toInt < 0) : w.kernel.openFiles =
      w.kernel.openFiles.after .lseek arg0 arg1 e opened := (OpenFiles.after_of_neg he).symm
  rw [sysLseek, ensures_bind, ensures_getKernel]
  split
  · exact ensures_pure.mpr (hfail (-ebadf) (by decide))
  · exact ensures_pure.mpr (hfail (-ebadf) (by decide))
  all_goals
    rename_i hentry
    split
    · rename_i newPos hseek
      obtain ⟨hpos, hnat⟩ := Rust.ofNat_of_lt (seekPos_bound hseek)
      simp only [ensures_bind, ensures_modifyKernel, ensures_pure]
      rw [Kernel.openFiles_setFd (Kernel.lt_of_getElem?_fdTable hentry)]
      refine Eq.trans ?_ (if_neg hpos).symm
      rw [hnat, Kernel.openFiles_eq hentry]
      rfl
    · exact ensures_pure.mpr (hfail (-einval) (by decide))

/-! ### Closing and copying -/

theorem sysClose_openFiles (w : World) :
    Ensures (sysClose arg0.toNat) w fun r w' ↦ w'.kernel.openFiles =
      w.kernel.openFiles.after .close arg0 arg1 r opened := by
  have hfail : w.kernel.openFiles =
      w.kernel.openFiles.after .close arg0 arg1 (-ebadf) opened :=
    (OpenFiles.after_of_neg (by decide)).symm
  rw [sysClose, ensures_bind, ensures_getKernel]
  split
  · exact ensures_pure.mpr hfail
  · exact ensures_pure.mpr hfail
  · rename_i hentry
    simp only [ensures_bind, ensures_modifyKernel, ensures_pure]
    exact Kernel.openFiles_setFd (Kernel.lt_of_getElem?_fdTable hentry)

theorem sysDup_openFiles (w : World) :
    Ensures (sysDup arg0.toNat) w fun r w' ↦ w'.kernel.openFiles =
      w.kernel.openFiles.after .dup arg0 arg1 r opened := by
  have hfail : w.kernel.openFiles =
      w.kernel.openFiles.after .dup arg0 arg1 (-ebadf) opened :=
    (OpenFiles.after_of_neg (by decide)).symm
  rw [sysDup, ensures_ite]
  refine ⟨fun hstd ↦ ensures_pure.mpr ?_, fun _ ↦ ?_⟩
  · obtain ⟨hpos, hnat⟩ := Rust.ofNat_of_lt (n := arg0.toNat) (by omega)
    refine Eq.trans ?_ (if_neg hpos).symm
    rw [hnat, Function.update_eq_self]
  rw [ensures_bind, ensures_getKernel]
  split
  · exact ensures_pure.mpr hfail
  · exact ensures_pure.mpr hfail
  · rename_i entry _ hentry
    refine (allocFd_openFiles entry w).mono fun r w' h ↦ h.trans ?_
    rw [← Kernel.openFiles_eq hentry]
    rfl

theorem sysDup2_openFiles (hk : w.kernel.FilesOk) :
    Ensures (sysDup2 arg0.toNat arg1.toNat) w fun r w' ↦ w'.kernel.openFiles =
      w.kernel.openFiles.after .dup2 arg0 arg1 r opened := by
  have hfail : w.kernel.openFiles =
      w.kernel.openFiles.after .dup2 arg0 arg1 (-ebadf) opened :=
    (OpenFiles.after_of_neg (by decide)).symm
  have hstd (fd : ℕ) (h : fd ≤ 2) : w.kernel.openFiles fd = none :=
    Kernel.openFiles_eq (hk.reserved fd (by rw [fdBase]; omega))
  rw [sysDup2, ensures_ite]
  refine ⟨fun hold ↦ ?_, fun _ ↦ ?_⟩
  · rw [ensures_ite]
    refine ⟨fun hnew ↦ ensures_pure.mpr ?_, fun _ ↦ ensures_pure.mpr hfail⟩
    obtain ⟨hpos, -⟩ := Rust.ofNat_of_lt (n := arg1.toNat) (by omega)
    refine Eq.trans ?_ (if_neg hpos).symm
    rw [hstd _ hold, ← hstd _ hnew, Function.update_eq_self]
  rw [ensures_ite]
  refine ⟨fun _ ↦ ensures_pure.mpr hfail, fun hnew ↦ ?_⟩
  rw [ensures_bind, ensures_getKernel]
  split
  · exact ensures_pure.mpr hfail
  · exact ensures_pure.mpr hfail
  · rename_i entry _ hentry
    have hlt : arg1.toNat < maxFds := not_le.mp (not_or.mp hnew).1
    obtain ⟨hpos, -⟩ := Rust.ofNat_of_lt (hlt.trans (by decide))
    simp only [ensures_bind, ensures_modifyKernel, ensures_pure]
    rw [Kernel.openFiles_setFd hlt, ← Kernel.openFiles_eq hentry]
    exact (if_neg hpos).symm

/-! ### All events -/

/-- The calls that have nothing to do with files. -/
theorem Effect.openFiles (h : Effect k nr arg0 arg1 k')
    (hother : nr ∉ [.read, .lseek, .openat, .close, .dup, .dup2]) :
    k'.openFiles = k.openFiles := by
  cases h with
  | opened | duped | dupedTo | closed | polled => exact absurd hother (by decide)
  | @moved _ _ _ entry pos hnr hdir _ hentry =>
    have hdents : nr = .getdents64 := by
      rcases hnr with rfl | rfl | hnr
      · exact absurd hother (by decide)
      · exact absurd hother (by decide)
      · exact hnr
    have hroot := hdir hdents
    rw [Kernel.openFiles_setFd (Kernel.lt_of_getElem?_fdTable hentry)]
    cases entry with
    | free | file => exact absurd hroot (by simp [FdEntry.isRootDir])
    | rootDir =>
      exact Function.update_eq_self_iff.mpr (Kernel.openFiles_eq hentry).symm
  | brk =>
    rw [Kernel.brkSet]
    split <;> rfl
  | _ => rfl

/-- A read of stdin. -/
theorem Effect.openFiles_stdin (h : Effect k .read arg0 arg1 k')
    (hstd : k.openFiles arg0.toNat = Option.none) : k'.openFiles = k.openFiles := by
  cases h with
  | none => rfl
  | polled => rfl
  | exited hnr => exact absurd hnr (by decide)
  | @moved _ _ _ entry pos hnr hdir _ hentry =>
    rw [Kernel.openFiles_setFd (Kernel.lt_of_getElem?_fdTable hentry),
      Function.update_eq_self_iff, hstd]
    rw [Kernel.openFiles_eq hentry] at hstd
    cases entry with
    | free | rootDir => rfl
    | file => exact nomatch hstd

/-- **The table follows the history**, one system call at a time. -/
theorem dispatch_openFiles (hk : w.kernel.FilesOk) :
    Ensures (dispatch nr arg0 arg1 arg2 arg3) w fun r w' ↦ w'.kernel.openFiles =
      w.kernel.openFiles.after nr arg0 arg1 r (w.dataAt arg1.toNat) := by
  have hstd (h : arg0.toNat ≤ 2) : w.kernel.openFiles arg0.toNat = none :=
    Kernel.openFiles_eq (hk.reserved _ (by rw [fdBase]; omega))
  cases nr with
  | read =>
    rw [dispatch, ensures_ite]
    refine ⟨fun hlow r w' hrun ↦ ?_, fun _ ↦ sysRead_openFiles hk _ _⟩
    have heffect : Effect w.kernel .read arg0 arg1 w'.kernel := posixRead_effect _ _ _ _ _ hrun
    exact (heffect.openFiles_stdin (hstd hlow)).trans
      (OpenFiles.after_eq_self (by decide) fun _ ↦ hstd hlow).symm
  | lseek =>
    rw [dispatch, ensures_ite]
    refine ⟨fun hlow ↦ ensures_pure.mpr ?_, fun _ ↦ sysLseek_openFiles _ _ w⟩
    exact (OpenFiles.after_eq_self (by decide) fun _ ↦ hstd hlow).symm
  | close =>
    rw [dispatch, ensures_ite]
    refine ⟨fun hlow ↦ ensures_pure.mpr ?_, fun _ ↦ sysClose_openFiles w⟩
    refine Eq.trans ?_ (if_neg (by decide)).symm
    exact (Function.update_eq_self_iff.mpr (hstd hlow).symm).symm
  | openat => exact sysOpenat_openFiles _ _ _ w
  | dup => exact sysDup_openFiles w
  | dup2 => exact sysDup2_openFiles hk
  | _ =>
    refine dispatch_effect.mono fun r w' h ↦ ?_
    rw [h.openFiles (by decide)]
    exact (OpenFiles.after_eq_self (by decide) fun h ↦ absurd h (by decide)).symm

/-- **What a read returns**, by the open file that the table says. -/
theorem dispatch_read {f : OpenFile} {buf n : U64} (hk : w.kernel.FilesOk)
    (hf : w.kernel.openFiles arg0.toNat = some f) (hbuf : buf ≠ 0) (arg3 : U64) :
    ∃ w', dispatch .read arg0 buf n arg3 w = .ok (BitVec.ofNat 64 (f.count n.toNat)) w' ∧
      w'.ram = poke w.ram buf.toNat (f.read n.toNat) ∧
      w'.kernel.openFiles =
        Function.update w.kernel.openFiles arg0.toNat (some (f.advance n.toNat)) := by
  have hhigh : ¬arg0.toNat ≤ 2 := fun hlow ↦ by
    have hnone := Kernel.openFiles_eq (hk.reserved arg0.toNat (by rw [fdBase]; omega))
    cases hf.symm.trans hnone
  have hnull : buf.toNat ≠ 0 := fun h ↦ hbuf (BitVec.toNat_inj.mp h)
  obtain ⟨entry, hentry, hopen⟩ := Option.bind_eq_some_iff.mp hf
  cases entry with
  | free | rootDir => cases hopen
  | file dataPtr len pos mode =>
    have hdenotes := hk.denotes _ _ _ _ _ hentry
    obtain ⟨touched, hrun⟩ := sysRead_file hentry hdenotes hopen hnull n.toNat
    rw [dispatch, if_neg hhigh, hrun]
    refine ⟨_, rfl, rfl, ?_⟩
    rw [Kernel.openFiles_setFd (Kernel.lt_of_getElem?_fdTable hentry)]
    obtain rfl := Option.some_inj.mp hopen
    rfl

/-- What a history says of the open files, and the table. -/
def FilesMatch (s : Recorded OpenFiles) : Prop :=
  s.world.kernel.FilesOk ∧ s.record = s.world.kernel.openFiles

theorem FilesMatch.step {s : Recorded OpenFiles} {e : KernelEvent} {r : U64} {w' : World}
    (h : FilesMatch s) (hran : e.Ran s.world r w') :
    FilesMatch ⟨OpenFiles.afterEvent e s.world r w' s.record, w'⟩ := by
  obtain ⟨hk, hrecord⟩ := h
  refine ⟨hran.filesOk hk, ?_⟩
  rw [hrecord]
  cases hran with
  | call hrun => exact (dispatch_openFiles hk _ _ hrun).symm
  | mount => exact (Kernel.openFiles_setRootfs _).symm
  | mark | poll | user => rfl

end LeonOS
