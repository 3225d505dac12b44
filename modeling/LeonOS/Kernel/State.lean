import LeonOS.Fs.Image
import LeonOS.Lib.Memory
import LeonOS.Lib.Post

/-!
# The state of the kernel

The globals of `kernel/src/syscall.rs` and `kernel/src/posix.rs`, collected in `Kernel`, and what
the system calls have besides: the memory that the pointers of their callers lead to.

* `Kernel` has a field for each global.  The table of descriptors is a vector, and a file
  descriptor's `data_ptr` is a pointer into an image (`DataPtr`), so that a read through it which
  leaves the image is not a value.
* `World.ram` is memory as the pointers that a caller passes reach it.  The globals and the mounted
  image are not in it: a caller's buffer is taken to be elsewhere.  `World.touched` has every
  address that was dereferenced in it, the latest first.

A system call is a computation in `SysM`.  It returns no `Result`, so its only faults are panics;
an access outside of the image that a pointer was made from, which has no defined behaviour, counts
as one.
-/

set_option autoImplicit false

namespace LeonOS

open Bytes

/-! ## The globals -/

/-- An image that can be mounted: no slice is longer than `isize::MAX`. -/
structure Image where
  /-- The bytes. -/
  bytes : List U8
  /-- The bound on the length of a slice. -/
  length_lt : bytes.length < 2 ^ 63
  deriving DecidableEq

/-- A pointer made by `rec.data.as_ptr()`. -/
structure DataPtr where
  /-- The image that the record borrows from. -/
  image : Image
  /-- The place of the data there. -/
  offset : ℕ
  deriving DecidableEq

/-- The `n` bytes at `ptr.add(k)`. -/
def DataPtr.bytes {ε : Type} (ptr : DataPtr) (k n : ℕ) : Rust ε (List U8) :=
  Rust.range ptr.image.bytes (ptr.offset + k) (ptr.offset + k + n)

/-- `FdEntry`. -/
inductive FdEntry where
  | free
  | rootDir (pos : ℕ)
  | file (dataPtr : DataPtr) (len pos : ℕ) (mode : BitVec 16)
  deriving DecidableEq

/-- `matches!(entry, FdEntry::Free)`. -/
def FdEntry.isFree : FdEntry → Bool
  | .free => true
  | _ => false

/-- `matches!(entry, FdEntry::RootDir { .. })`. -/
def FdEntry.isRootDir : FdEntry → Bool
  | .rootDir _ => true
  | _ => false

/-- The function in `STDIN_READER`, as the sequence of what its calls return.  Whoever waits for a
byte gets one. -/
structure Stdin where
  /-- What the calls return, in their order. -/
  polls : ℕ → Option U8
  /-- A byte comes in the end. -/
  live : ∀ n, ∃ m, n ≤ m ∧ (polls m).isSome

/-- `FD_BASE`. -/
def fdBase : ℕ := 3

/-- `MAX_FDS`. -/
def maxFds : ℕ := 64

/-- The globals. -/
structure Kernel where
  /-- `POSIX.pid`. -/
  pid : BitVec 32
  /-- `POSIX.brk`. -/
  brk : U64
  /-- `LAST_EXIT`. -/
  lastExit : BitVec 32
  /-- `EXIT_WAITABLE`. -/
  exitWaitable : Bool
  /-- `MMAP_BASE`. -/
  mmapBase : U64
  /-- `ARCH_FS`. -/
  archFs : U64
  /-- `ARCH_GS`. -/
  archGs : U64
  /-- `ROOTFS`. -/
  rootfs : Option Image
  /-- `CWD_BUF`. -/
  cwdBuf : Vector U8 64
  /-- `CWD_LEN`. -/
  cwdLen : ℕ
  /-- `FD_TABLE`. -/
  fdTable : Vector FdEntry maxFds
  /-- `STDIN_READER`. -/
  stdinReader : Option Stdin
  /-- How often the reader was called. -/
  polled : ℕ

namespace Kernel

/-- The globals as they are initialized. -/
def boot : Kernel where
  pid := 3
  brk := 0x40000000
  lastExit := 0
  exitWaitable := false
  mmapBase := 0x70000000
  archFs := 0
  archGs := 0
  rootfs := none
  cwdBuf := Vector.replicate 64 0
  cwdLen := 1
  fdTable := Vector.replicate maxFds .free
  stdinReader := none
  polled := 0

/-- `FD_TABLE[fd] = entry`. -/
def setFd (k : Kernel) (fd : ℕ) (entry : FdEntry) : Kernel :=
  { k with fdTable := k.fdTable.setIfInBounds fd entry }

/-- `CWD_BUF[0] = b'/'; CWD_LEN = 1;`. -/
def setCwd (k : Kernel) : Kernel := { k with cwdBuf := k.cwdBuf.set 0 0x2F, cwdLen := 1 }

/-- `set_rootfs`. -/
def setRootfs (k : Kernel) (image : Image) : Kernel :=
  { k with rootfs := some image, fdTable := Vector.replicate maxFds .free }.setCwd

/-- `mark_exit_code`. -/
def markExitCode (k : Kernel) (code : BitVec 32) : Kernel :=
  { k with lastExit := code, exitWaitable := true }

/-- `root_entries_count`. -/
def rootEntriesCount (k : Kernel) : ℕ :=
  match k.rootfs with
  | some image =>
    match Fs.header image.bytes with
    | .ok hdr => hdr.fileCount + 2
    | .error _ => 2
  | none => 2

/-- `root_name_by_index`. -/
def rootNameByIndex (k : Kernel) (fileIdx : ℕ) : Option (List U8) := do
  let image ← k.rootfs
  let rec ← (Fs.entry image.bytes fileIdx).toOption
  return Rust.asBytes rec.name

/-- `is_dirfd_ok`; `AT_FDCWD` is -100. -/
def isDirfdOk (k : Kernel) (dirfd : U64) : Bool :=
  if dirfd = -100 then true
  else if dirfd.toInt < 0 then false
  else (k.fdTable[dirfd.toNat]?).any FdEntry.isRootDir

variable {k : Kernel} {fd fd' : ℕ} {entry : FdEntry}

theorem getElem?_setFd (h : fd < maxFds) : (k.setFd fd entry).fdTable[fd']? =
    if fd = fd' then some entry else k.fdTable[fd']? := by
  rw [setFd, Vector.getElem?_setIfInBounds]
  simp [h]

theorem setFd_of_le (h : maxFds ≤ fd) : k.setFd fd entry = k := by
  rw [setFd, Vector.setIfInBounds_eq_of_size_le h]

theorem setFd_setFd {entry' : FdEntry} : (k.setFd fd entry).setFd fd entry' = k.setFd fd entry' := by
  rw [setFd, setFd, setFd, Vector.setIfInBounds_setIfInBounds]

theorem setFd_self (h : k.fdTable[fd]? = some entry) : k.setFd fd entry = k := by
  obtain ⟨hfd, hentry⟩ := Vector.getElem?_eq_some_iff.mp h
  have htable : k.fdTable.setIfInBounds fd entry = k.fdTable := by
    refine Vector.ext fun i hi ↦ ?_
    rw [Vector.getElem_setIfInBounds hi]
    split
    · rename_i heq
      subst heq
      exact hentry.symm
    · rfl
  rw [setFd, htable]

theorem lt_of_getElem?_fdTable (h : k.fdTable[fd]? = some entry) : fd < maxFds :=
  (Vector.getElem?_eq_some_iff.mp h).1

end Kernel

/-! ## The callers' memory -/

/-- What a system call works on. -/
structure World where
  /-- The globals of the kernel. -/
  kernel : Kernel
  /-- Memory, as callers' pointers reach it. -/
  ram : ℕ → U8
  /-- The addresses that were dereferenced in it. -/
  touched : List ℕ

/-- What a runner works on besides its program: the kernel and the terminal. -/
structure Os where
  /-- The kernel. -/
  world : World
  /-- What was written to the terminal. -/
  screen : List U8

/-- The functions of `syscall.rs`. -/
abbrev SysM (α : Type) := RustM Empty World α

/-- The globals. -/
def getKernel : SysM Kernel := do return (← get).kernel

/-- Change the globals. -/
def modifyKernel (f : Kernel → Kernel) : SysM Unit :=
  modify fun w ↦ { w with kernel := f w.kernel }

/-- A read of the byte at `a`. -/
def load (a : ℕ) : SysM U8 := do
  modify fun w ↦ { w with touched := a :: w.touched }
  return (← get).ram a

/-- A write of some bytes at `a`. -/
def store (a : ℕ) (bs : List U8) : SysM Unit :=
  modify fun w ↦ { w with ram := poke w.ram a bs, touched := List.range' a bs.length ++ w.touched }

/-! ### Running them -/

section Run

open RustM

variable {w : World} {a : ℕ} {α : Type}

@[simp] theorem ensures_getKernel {P : Kernel → World → Prop} :
    Ensures getKernel w P ↔ P w.kernel w :=
  ensures_of_eq rfl

@[simp] theorem ensures_modifyKernel {f : Kernel → Kernel} {P : Unit → World → Prop} :
    Ensures (modifyKernel f) w P ↔ P () { w with kernel := f w.kernel } :=
  ensures_of_eq rfl

@[simp] theorem ensures_load {P : U8 → World → Prop} :
    Ensures (load a) w P ↔ P (w.ram a) { w with touched := a :: w.touched } :=
  ensures_of_eq rfl

@[simp] theorem ensures_store {bs : List U8} {P : Unit → World → Prop} :
    Ensures (store a bs) w P ↔ P () { w with
      ram := poke w.ram a bs, touched := List.range' a bs.length ++ w.touched } :=
  ensures_of_eq rfl

theorem bind_getKernel (f : Kernel → SysM α) : (getKernel >>= f) w = f w.kernel w := rfl

theorem bind_modifyKernel (f : Kernel → Kernel) (k : Unit → SysM α) :
    (modifyKernel f >>= k) w = k () { w with kernel := f w.kernel } := rfl

theorem bind_load (k : U8 → SysM α) :
    (load a >>= k) w = k (w.ram a) { w with touched := a :: w.touched } := rfl

theorem bind_store (bs : List U8) (k : Unit → SysM α) : (store a bs >>= k) w = k () { w with
    ram := poke w.ram a bs, touched := List.range' a bs.length ++ w.touched } := rfl

end Run

end LeonOS
