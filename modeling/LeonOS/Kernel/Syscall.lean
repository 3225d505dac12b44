import LeonOS.Kernel.State

/-!
# The system calls

`kernel/src/syscall.rs`, and the `PosixLayer` of `kernel/src/posix.rs` under it.  `dispatch` is the
table of all system calls; the functions before it are in the order of the source.

An argument of type `usize` or a pointer is a natural below `2 ^ 64` where it is a length, an index
or an address, and a word where its bits matter; an `isize` is a word, read with `toInt`.  A result
is the word that a caller gets in `rax`, so that `-(EBADF as isize)` is `-ebadf`.

Sums that the bounds of a slice keep below `2 ^ 64` are plain sums.
-/

set_option autoImplicit false

namespace LeonOS

open Bytes

/-! ## Constants -/

/-- `ENOENT`. -/
def enoent : U64 := 2

/-- `EBADF`. -/
def ebadf : U64 := 9

/-- `ECHILD`. -/
def echild : U64 := 10

/-- `EFAULT`. -/
def efault : U64 := 14

/-- `EBUSY`. -/
def ebusy : U64 := 16

/-- `ENOTDIR`. -/
def enotdir : U64 := 20

/-- `EISDIR`. -/
def eisdir : U64 := 21

/-- `EINVAL`. -/
def einval : U64 := 22

/-- `ENOTTY`. -/
def enotty : U64 := 25

/-- `ERANGE`. -/
def erange : U64 := 34

/-- `ENOSYS`. -/
def enosys : U64 := 38

/-- Results from -4095 to -1 are error numbers. -/
def isErrno (r : U64) : Prop := -4095 ≤ r.toInt ∧ r.toInt < 0

instance (r : U64) : Decidable (isErrno r) := inferInstanceAs (Decidable (_ ∧ _))

/-- `AT_FDCWD`. -/
def atFdcwd : U64 := -100

/-- `AT_EMPTY_PATH`. -/
def atEmptyPath : U64 := 0x1000

/-- `O_DIRECTORY`. -/
def oDirectory : U64 := 0o200000

/-- `CSTR_MAX`. -/
def cstrMax : ℕ := 256

/-- `DT_DIR`. -/
def dtDir : U8 := 4

/-- `DT_REG`. -/
def dtReg : U8 := 8

/-- The system calls that `dispatch` tells apart, `SYS_READ` and so on.  Those that its last two
arms refuse are one, `other`. -/
inductive Nr where
  | read | write | close | stat | fstat | lstat | poll | lseek | mmap | mprotect | munmap | brk
  | rtSigaction | rtSigprocmask | ioctl | pread64 | pwrite64 | readv | writev | access | select
  | dup | dup2 | nanosleep | getpid | socket | connect | accept | sendto | recvfrom | shutdown
  | bind | listen | execve | exit | wait4 | uname | fcntl | fsync | fdatasync | truncate
  | ftruncate | getcwd | chdir | rename | mkdir | rmdir | creat | link | unlink | readlink | chmod
  | chown | gettimeofday | getuid | getgid | geteuid | getegid | getppid | getpgrp | setsid
  | sigaltstack | archPrctl | gettid | futex | getdents64 | setTidAddress | clockGettime | exitGroup
  | openat | mkdirat | mknodat | newfstatat | unlinkat | renameat | readlinkat | faccessat | pselect6
  | ppoll | setRobustList | prlimit64 | getrandom | statx | rseq | other
  deriving DecidableEq, Repr

/-- The system call of a number. -/
def Nr.decode : ℕ → Nr
  | 0 => .read | 1 => .write | 3 => .close | 4 => .stat | 5 => .fstat | 6 => .lstat | 7 => .poll
  | 8 => .lseek | 9 => .mmap | 10 => .mprotect | 11 => .munmap | 12 => .brk | 13 => .rtSigaction
  | 14 => .rtSigprocmask | 16 => .ioctl | 17 => .pread64 | 18 => .pwrite64 | 19 => .readv
  | 20 => .writev | 21 => .access | 23 => .select | 32 => .dup | 33 => .dup2 | 35 => .nanosleep
  | 39 => .getpid | 41 => .socket | 42 => .connect | 43 => .accept | 44 => .sendto | 45 => .recvfrom
  | 48 => .shutdown | 49 => .bind | 50 => .listen | 59 => .execve | 60 => .exit | 61 => .wait4
  | 63 => .uname | 72 => .fcntl | 74 => .fsync | 75 => .fdatasync | 76 => .truncate
  | 77 => .ftruncate | 79 => .getcwd | 80 => .chdir | 82 => .rename | 83 => .mkdir | 84 => .rmdir
  | 85 => .creat | 86 => .link | 87 => .unlink | 89 => .readlink | 90 => .chmod | 92 => .chown
  | 96 => .gettimeofday | 102 => .getuid | 104 => .getgid | 107 => .geteuid | 108 => .getegid
  | 110 => .getppid | 111 => .getpgrp | 112 => .setsid | 131 => .sigaltstack | 158 => .archPrctl
  | 186 => .gettid | 202 => .futex | 217 => .getdents64 | 218 => .setTidAddress
  | 228 => .clockGettime | 231 => .exitGroup | 257 => .openat | 258 => .mkdirat | 259 => .mknodat
  | 262 => .newfstatat | 263 => .unlinkat | 264 => .renameat | 267 => .readlinkat | 269 => .faccessat
  | 270 => .pselect6 | 271 => .ppoll | 273 => .setRobustList | 302 => .prlimit64 | 318 => .getrandom
  | 332 => .statx | 334 => .rseq | _ => .other

/-! ## Strings -/

/-- `char::is_whitespace`: the characters with the property `White_Space`. -/
def isWhitespace (c : Char) : Bool :=
  (0x09 ≤ c.toNat && c.toNat ≤ 0x0D) || c.toNat == 0x20 || c.toNat == 0x85 || c.toNat == 0xA0
    || c.toNat == 0x1680 || (0x2000 ≤ c.toNat && c.toNat ≤ 0x200A) || c.toNat == 0x2028
    || c.toNat == 0x2029 || c.toNat == 0x202F || c.toNat == 0x205F || c.toNat == 0x3000

/-- `str::trim`. -/
def trim (s : List Char) : List Char := (s.dropWhile isWhitespace).rdropWhile isWhitespace

/-- `strip_prefix("./")`, or the string itself. -/
def stripDotSlash : List Char → List Char
  | '.' :: '/' :: stripped => stripped
  | trimmed => trimmed

/-- `normalize_path`. -/
def normalizePath (path : String) : Option String :=
  let trimmed := trim path.toList
  if trimmed = [] then some ""
  else
    let p := (stripDotSlash trimmed).dropWhile (· = '/')
    if '/' ∈ p then none else some (String.ofList p)

/-- The loop of `read_cstr` with `n` bytes to go; `bytes` are those before. -/
def readCstrFrom (ptr : ℕ) : ℕ → List U8 → SysM (Option String)
  | 0, _ => return none
  | n + 1, bytes => do
    let b ← load (ptr + bytes.length)
    if b = 0 then
      return Rust.fromUtf8 bytes
    readCstrFrom ptr n (bytes ++ [b])

/-- `read_cstr`. -/
def readCstr (ptr : ℕ) : SysM (Option String) := readCstrFrom ptr cstrMax []

/-- `match read_cstr(path_ptr) { Some(p) => p, None => return -(EFAULT as isize) }`, and what is
done with the path. -/
def withPath (pathPtr : ℕ) (f : String → SysM U64) : SysM U64 := do
  match ← readCstr pathPtr with
  | some path => f path
  | none => return -efault

/-! ## Files and directories -/

/-- The first index from `fdBase` on whose entry is free. -/
def Kernel.firstFree (k : Kernel) : Option ℕ :=
  (List.range' fdBase (maxFds - fdBase)).find? fun i ↦ (k.fdTable[i]?).any FdEntry.isFree

/-- `alloc_fd`. -/
def allocFd (entry : FdEntry) : SysM U64 := do
  match (← getKernel).firstFree with
  | some i =>
    modifyKernel (·.setFd i entry)
    return BitVec.ofNat 64 i
  | none => return -ebusy

/-- `sys_openat`, from the lookup of the name on. -/
def openName (name : String) (flags : U64) : SysM U64 := do
  let some image := (← getKernel).rootfs | return -enoent
  match Fs.open image.bytes name with
  | .ok rec =>
    if flags &&& oDirectory ≠ 0 then
      return -enotdir
    allocFd (.file ⟨image, rec.dataPtr⟩ rec.data.length 0 rec.mode)
  | .error _ => return -enoent

/-- `sys_openat`, from the path on. -/
def openPath (path : String) (flags : U64) : SysM U64 := do
  if path = "" ∨ path = "." ∨ path = "/" then
    return ← allocFd (.rootDir 0)
  if path = ".." then
    return ← allocFd (.rootDir 0)
  let some name := normalizePath path | return -enoent
  if name = "" then
    return ← allocFd (.rootDir 0)
  openName name flags

/-- `sys_openat`. -/
def sysOpenat (dirfd : U64) (pathPtr : ℕ) (flags : U64) : SysM U64 := do
  if pathPtr = 0 then
    return -efault
  if (← getKernel).isDirfdOk dirfd = false then
    return -ebadf
  withPath pathPtr (openPath · flags)

/-- `sys_read`. -/
def sysRead (fd buf len : ℕ) : SysM U64 := do
  if buf = 0 then
    return -efault
  match (← getKernel).fdTable[fd]? with
  | none | some .free => return -ebadf
  | some (.rootDir _) => return -eisdir
  | some (.file dataPtr total pos mode) =>
    if pos ≥ total then
      return 0
    let n := min len (total - pos)
    let src ← RustM.lift (dataPtr.bytes pos n)
    store buf src
    let newPos ← RustM.lift (Rust.add pos n)
    modifyKernel (·.setFd fd (.file dataPtr total newPos mode))
    return BitVec.ofNat 64 n

/-- `sys_close`. -/
def sysClose (fd : ℕ) : SysM U64 := do
  match (← getKernel).fdTable[fd]? with
  | none | some .free => return -ebadf
  | some _ =>
    modifyKernel (·.setFd fd .free)
    return 0

/-- The position that `sys_lseek` goes to, with `last` the end; none when it is `EINVAL`. -/
def seekPos (pos last : ℕ) (off : U64) (whence : ℕ) : Option ℕ :=
  let go (base : U64) : Option ℕ :=
    let newPos := Rust.saturatingAddSigned base off
    if newPos < 0 then none else some newPos.toNat
  match whence with
  | 0 => go 0
  | 1 => go (BitVec.ofNat 64 pos)
  | 2 => go (BitVec.ofNat 64 last)
  | _ => none

/-- `sys_lseek`. -/
def sysLseek (fd : ℕ) (off : U64) (whence : ℕ) : SysM U64 := do
  let k ← getKernel
  match k.fdTable[fd]? with
  | none | some .free => return -ebadf
  | some (.rootDir pos) =>
    let some newPos := seekPos pos k.rootEntriesCount off whence | return -einval
    modifyKernel (·.setFd fd (.rootDir newPos))
    return BitVec.ofNat 64 newPos
  | some (.file dataPtr len pos mode) =>
    let some newPos := seekPos pos len off whence | return -einval
    modifyKernel (·.setFd fd (.file dataPtr len newPos mode))
    return BitVec.ofNat 64 newPos

/-- The bytes of a `LinuxStat`. -/
def linuxStat (isDir : Bool) (size : ℕ) (mode : BitVec 16) (ino : ℕ) : List U8 :=
  let modeType : BitVec 32 := if isDir then 0o040000 else 0o100000
  toLE 8 1 ++ toLE 8 ino ++ toLE 8 1 ++ toLE 4 (modeType ||| (mode.setWidth 32 &&& 0o7777)).toNat
    ++ toLE 4 0 ++ toLE 4 0 ++ toLE 4 0 ++ toLE 8 0 ++ toLE 8 size ++ toLE 8 4096
    ++ toLE 8 ((size + 511) / 512) ++ List.replicate 48 0 ++ List.replicate 24 0

/-- `write_stat`. -/
def writeStat (statPtr : ℕ) (isDir : Bool) (size : ℕ) (mode : BitVec 16) (ino : ℕ) :
    SysM U64 := do
  store statPtr (linuxStat isDir size mode ino)
  return 0

/-- `sys_stat_path`, from the path on. -/
def statPath (path : String) (statPtr : ℕ) : SysM U64 := do
  if path = "" ∨ path = "." ∨ path = "/" then
    return ← writeStat statPtr true 0 0o040755 1
  let some name := normalizePath path | return -enoent
  let some image := (← getKernel).rootfs | return -enoent
  match Fs.open image.bytes name with
  | .ok rec => writeStat statPtr false rec.data.length rec.mode 2
  | .error _ => return -enoent

/-- `sys_stat_path`. -/
def sysStatPath (pathPtr statPtr : ℕ) : SysM U64 := do
  if pathPtr = 0 ∨ statPtr = 0 then
    return -efault
  withPath pathPtr (statPath · statPtr)

/-- `sys_fstat`. -/
def sysFstat (fd statPtr : ℕ) : SysM U64 := do
  if statPtr = 0 then
    return -efault
  if fd ≤ 2 then
    return ← writeStat statPtr false 0 0o020666 1
  match (← getKernel).fdTable[fd]? with
  | none | some .free => return -ebadf
  | some (.rootDir _) => writeStat statPtr true 0 0o040755 1
  | some (.file _ len _ mode) => writeStat statPtr false len mode 2

/-- `sys_newfstatat`, from the path on.  The path is read again when it is looked up. -/
def newfstatatPath (dirfd : U64) (pathPtr statPtr : ℕ) (flags : U64) (path : String) :
    SysM U64 := do
  if path = "" ∧ flags &&& atEmptyPath ≠ 0 then
    if dirfd = atFdcwd then
      return ← writeStat statPtr true 0 0o040755 1
    if dirfd.toInt < 0 then
      return -ebadf
    return ← sysFstat dirfd.toNat statPtr
  if (← getKernel).isDirfdOk dirfd = false then
    return -ebadf
  sysStatPath pathPtr statPtr

/-- `sys_newfstatat`. -/
def sysNewfstatat (dirfd : U64) (pathPtr statPtr : ℕ) (flags : U64) : SysM U64 := do
  if statPtr = 0 then
    return -efault
  if pathPtr = 0 then
    return -efault
  withPath pathPtr (newfstatatPath dirfd pathPtr statPtr flags)

/-- `dirent_record_len`: the length rounded up to a multiple of eight. -/
def direntRecordLen (nameLen : ℕ) : ℕ := (19 + nameLen + 1 + 7) / 8 * 8

/-- The name, type and inode number at a position of the root directory. -/
def Kernel.direntAt (k : Kernel) : ℕ → Option (List U8 × U8 × ℕ)
  | 0 => some ([0x2E], dtDir, 1)
  | 1 => some ([0x2E, 0x2E], dtDir, 1)
  | fileIdx + 2 => (k.rootNameByIndex fileIdx).map fun n ↦ (n, dtReg, fileIdx + 2)

/-- The writes of one record of `sys_getdents64`. -/
def writeDirent (rec : ℕ) (name : List U8) (typ : U8) (ino off reclen : ℕ) : SysM Unit := do
  store rec (toLE 8 ino)
  store (rec + 8) (toLE 8 off)
  store (rec + 16) (toLE 2 reclen)
  store (rec + 18) [typ]
  store (rec + 19) name
  store (rec + (19 + name.length)) [0]
  store (rec + (20 + name.length)) (List.replicate (reclen - (20 + name.length)) 0)

/-- The loop of `sys_getdents64` with `n` positions to go. -/
def getdentsFrom (fd dirp count : ℕ) : ℕ → ℕ → ℕ → SysM U64
  | 0, _, written => return BitVec.ofNat 64 written
  | n + 1, pos, written => do
    match (← getKernel).direntAt pos with
    | none => return BitVec.ofNat 64 written
    | some (name, typ, ino) =>
      let reclen := direntRecordLen name.length
      if written + reclen > count then
        if written = 0 then
          return -einval
        return BitVec.ofNat 64 written
      writeDirent (dirp + written) name typ ino (pos + 1) reclen
      modifyKernel (·.setFd fd (.rootDir (pos + 1)))
      getdentsFrom fd dirp count n (pos + 1) (written + reclen)

/-- `sys_getdents64`. -/
def sysGetdents64 (fd dirp count : ℕ) : SysM U64 := do
  if dirp = 0 then
    return -efault
  let k ← getKernel
  match k.fdTable[fd]? with
  | none => return -ebadf
  | some (.rootDir pos) =>
    let total := k.rootEntriesCount
    if pos ≥ total then
      return 0
    getdentsFrom fd dirp count (total - pos) pos 0
  | some _ => return -enotdir

/-! ## The rest -/

/-- `sys_getcwd`. -/
def sysGetcwd (buf size : ℕ) : SysM U64 := do
  if buf = 0 ∨ size = 0 then
    return -einval
  let k ← getKernel
  if k.cwdLen + 1 > size then
    return -erange
  store buf (k.cwdBuf.toList.take k.cwdLen)
  store (buf + k.cwdLen) [0]
  return BitVec.ofNat 64 buf

/-- `sys_chdir`, from the path on. -/
def chdirPath (path : String) : SysM U64 := do
  if path = "/" ∨ path = "." ∨ path = "" then
    modifyKernel Kernel.setCwd
    return 0
  return -enoent

/-- `sys_chdir`. -/
def sysChdir (pathPtr : ℕ) : SysM U64 := do
  if pathPtr = 0 then
    return -efault
  withPath pathPtr chdirPath

/-- `path_exists`. -/
def Kernel.pathExists (k : Kernel) (path : String) : Bool :=
  if path = "/" ∨ path = "." ∨ path = "" then true
  else
    match normalizePath path, k.rootfs with
    | none, _ => false
    | some name, rootfs =>
      if name = "" then true
      else
        match rootfs with
        | none => false
        | some image => (Fs.open image.bytes name).isOk

/-- `sys_access`, from the path on. -/
def accessPath (path : String) : SysM U64 := do
  return if (← getKernel).pathExists path then 0 else -enoent

/-- `sys_access`. -/
def sysAccess (pathPtr : ℕ) : SysM U64 := do
  if pathPtr = 0 then
    return -efault
  withPath pathPtr accessPath

/-- `sys_faccessat`. -/
def sysFaccessat (_dirfd : U64) (pathPtr : ℕ) : SysM U64 := sysAccess pathPtr

/-- `readlink_impl`. -/
def readlinkImpl (path : String) (buf bufsz : ℕ) : SysM U64 := do
  if buf = 0 ∨ bufsz = 0 then
    return -einval
  if path = "/proc/self/exe" ∨ path = "proc/self/exe" then
    let target := Rust.asBytes "/bin/busybox"
    let n := min target.length bufsz
    store buf (target.take n)
    return BitVec.ofNat 64 n
  return -enoent

/-- `sys_readlink`. -/
def sysReadlink (pathPtr buf bufsz : ℕ) : SysM U64 := do
  if pathPtr = 0 then
    return -efault
  withPath pathPtr (readlinkImpl · buf bufsz)

/-- `sys_readlinkat`. -/
def sysReadlinkat (_dirfd : U64) (pathPtr buf bufsz : ℕ) : SysM U64 :=
  sysReadlink pathPtr buf bufsz

/-- `vals`: the fields of a `struct utsname`. -/
def utsname : List (List U8) :=
  ["LeonOS", "leonos3", "0.1.0", "#1 LeonOS", "x86_64", ""].map Rust.asBytes

/-- The loop of `sys_uname`: each field is cleared and then filled. -/
def unameFrom (base : ℕ) : List (List U8) → SysM Unit
  | [] => return ()
  | s :: vals => do
    store base (List.replicate 65 0)
    store base (s.take 64)
    unameFrom (base + 65) vals

/-- `sys_uname`. -/
def sysUname (buf : ℕ) : SysM U64 := do
  if buf = 0 then
    return -efault
  unameFrom buf utsname
  return 0

/-- A time of zero. -/
def writeTime (tp : ℕ) : SysM U64 := do
  store tp (toLE 8 0)
  store (tp + 8) (toLE 8 0)
  return 0

/-- `sys_clock_gettime`. -/
def sysClockGettime (tp : ℕ) : SysM U64 := do
  if tp = 0 then
    return -efault
  writeTime tp

/-- `sys_gettimeofday`. -/
def sysGettimeofday (tv : ℕ) : SysM U64 := do
  if tv = 0 then
    return 0
  writeTime tv

/-- The next bytes of the "random" stream after `x`. -/
def randomBytes : U8 → ℕ → List U8
  | _, 0 => []
  | x, n + 1 => (x * 37 + 17) :: randomBytes (x * 37 + 17) n

/-- `sys_getrandom`. -/
def sysGetrandom (buf len : ℕ) : SysM U64 := do
  if buf = 0 then
    return -efault
  store buf (randomBytes 0xA7 len)
  return BitVec.ofNat 64 len

/-- `sys_dup`. -/
def sysDup (fd : ℕ) : SysM U64 := do
  if fd ≤ 2 then
    return BitVec.ofNat 64 fd
  match (← getKernel).fdTable[fd]? with
  | none | some .free => return -ebadf
  | some entry => allocFd entry

/-- `sys_dup2`. -/
def sysDup2 (oldfd newfd : ℕ) : SysM U64 := do
  if oldfd ≤ 2 then
    if newfd ≤ 2 then
      return BitVec.ofNat 64 newfd
    return -ebadf
  if newfd ≥ maxFds ∨ newfd < fdBase then
    return -ebadf
  match (← getKernel).fdTable[oldfd]? with
  | none | some .free => return -ebadf
  | some src =>
    modifyKernel (·.setFd newfd src)
    return BitVec.ofNat 64 newfd

/-- `sys_wait4`. -/
def sysWait4 (pid : U64) (statusPtr : ℕ) : SysM U64 := do
  let k ← getKernel
  let selfPid := k.pid.setWidth 64
  if 0 < pid.toInt ∧ pid ≠ selfPid then
    return -echild
  modifyKernel ({ · with exitWaitable := false })
  if k.exitWaitable = false then
    return -echild
  if statusPtr ≠ 0 then
    store statusPtr (toLE 4 ((k.lastExit &&& 0xff) <<< 8).toNat)
  return selfPid

/-! ## The layer below -/

/-- `PosixLayer::brk_set`. -/
def Kernel.brkSet (k : Kernel) (newBrk : U64) : Kernel :=
  if newBrk = 0 then k else { k with brk := newBrk }

/-- `read_stdin_byte_blocking`. -/
def readStdinByteBlocking : SysM (Option U8) := do
  let k ← getKernel
  match k.stdinReader with
  | none => return none
  | some stdin =>
    let m := Nat.find (stdin.live k.polled)
    modifyKernel ({ · with polled := m + 1 })
    return stdin.polls m

/-- The loop of `PosixLayer::read` with `n` bytes to go. -/
def posixReadFrom (buf : ℕ) : ℕ → ℕ → SysM U64
  | 0, got => return BitVec.ofNat 64 got
  | n + 1, got => do
    match ← readStdinByteBlocking with
    | none => return BitVec.ofNat 64 got
    | some ch =>
      store (buf + got) [ch]
      if ch = 0x0A ∨ ch = 0x0D then
        return BitVec.ofNat 64 (got + 1)
      posixReadFrom buf n (got + 1)

/-- `PosixLayer::read`; its loop polls the reader as `read_stdin_byte_blocking` does. -/
def posixRead (fd buf len : ℕ) : SysM U64 := do
  if fd = 0 then
    if buf = 0 ∨ len = 0 then
      return 0
    return ← posixReadFrom buf len 0
  return -ebadf

/-- `PosixLayer::write`. -/
def posixWrite (fd len : ℕ) : U64 :=
  if fd = 1 ∨ fd = 2 then BitVec.ofNat 64 len else -ebadf

/-- The arm for `SYS_MMAP`. -/
def sysMmap (arg1 : U64) : SysM U64 := do
  let len := if arg1 < 0x1000 then 0x1000 else arg1
  let alignLen ← RustM.lift (Rust.addWord len 0xFFF)
  let base := (← getKernel).mmapBase
  modifyKernel fun k ↦ { k with mmapBase := k.mmapBase + (alignLen &&& ~~~0xFFF) }
  return base

/-- The arm for `SYS_ARCH_PRCTL`. -/
def sysArchPrctl (arg0 arg1 : U64) : SysM U64 := do
  if arg0 = 0x1001 then
    modifyKernel ({ · with archGs := arg1 })
    return 0
  if arg0 = 0x1002 then
    modifyKernel ({ · with archFs := arg1 })
    return 0
  return if arg0 = 0x1003 ∨ arg0 = 0x1004 then 0 else -einval

/-- `dispatch`.  Its last two arguments are not used. -/
def dispatch (nr : Nr) (arg0 arg1 arg2 arg3 : U64) : SysM U64 :=
  match nr with
  | .read =>
    if arg0.toNat ≤ 2 then posixRead arg0.toNat arg1.toNat arg2.toNat
    else sysRead arg0.toNat arg1.toNat arg2.toNat
  | .write => return posixWrite arg0.toNat arg2.toNat
  | .brk => do
    modifyKernel (·.brkSet arg0)
    return (← getKernel).brk
  | .getpid | .gettid | .setTidAddress => return (← getKernel).pid.setWidth 64
  | .exit | .exitGroup => do
    modifyKernel (·.markExitCode (arg0.setWidth 32))
    return 0
  | .close => if arg0.toNat ≤ 2 then return 0 else sysClose arg0.toNat
  | .lseek => if arg0.toNat ≤ 2 then return arg1 else sysLseek arg0.toNat arg1 arg2.toNat
  | .ioctl => return -enotty
  | .mmap => sysMmap arg1
  | .mprotect | .munmap => return 0
  | .rtSigaction | .rtSigprocmask | .sigaltstack => return 0
  | .clockGettime => sysClockGettime arg1.toNat
  | .gettimeofday => sysGettimeofday arg0.toNat
  | .nanosleep => return 0
  | .uname => sysUname arg0.toNat
  | .getuid | .geteuid | .getgid | .getegid => return 0
  | .getppid | .getpgrp | .setsid => return 1
  | .archPrctl => sysArchPrctl arg0 arg1
  | .setRobustList | .rseq | .prlimit64 | .futex => return 0
  | .getrandom => sysGetrandom arg0.toNat arg1.toNat
  | .openat => sysOpenat arg0 arg1.toNat arg2
  | .newfstatat => sysNewfstatat arg0 arg1.toNat arg2.toNat arg3
  | .stat | .lstat => sysStatPath arg0.toNat arg1.toNat
  | .fstat => sysFstat arg0.toNat arg1.toNat
  | .statx => return 0
  | .getdents64 => sysGetdents64 arg0.toNat arg1.toNat arg2.toNat
  | .readlinkat => sysReadlinkat arg0 arg1.toNat arg2.toNat arg3.toNat
  | .readlink => sysReadlink arg0.toNat arg1.toNat arg2.toNat
  | .faccessat => sysFaccessat arg0 arg1.toNat
  | .access => sysAccess arg0.toNat
  | .dup => sysDup arg0.toNat
  | .dup2 => sysDup2 arg0.toNat arg1.toNat
  | .fcntl | .fsync | .fdatasync | .truncate | .ftruncate => return 0
  | .getcwd => sysGetcwd arg0.toNat arg1.toNat
  | .chdir => sysChdir arg0.toNat
  | .rename | .mkdir | .rmdir | .creat | .link | .unlink | .chmod | .chown | .mkdirat | .mknodat
  | .unlinkat | .renameat => return 0
  | .pread64 | .pwrite64 | .readv | .writev | .pselect6 | .ppoll | .poll | .select => return 0
  | .wait4 => sysWait4 arg0 arg1.toNat
  | .socket | .connect | .accept | .sendto | .recvfrom | .shutdown | .bind | .listen =>
    return -enosys
  | .execve | .other => return -enosys

end LeonOS
