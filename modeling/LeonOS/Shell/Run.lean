import LeonOS.Interp.ExitCode
import LeonOS.Native.Syscall

/-!
# The `run` command

`handle_custom_command` of `kernel/src/main.rs`, for the commands `run` and `runelf`: the name is
looked up in the ramdisk, the file is given to the native runner, and to the interpreter when the
native runner refuses its addresses.  What the shell then prints is a `Report`.

A native program may do to the kernel what its system calls do, in any order, and to memory what it
likes (`NativeRuns`), so a command is a relation between two states of the shell.  A command in
which the kernel panics has no state after it.
-/

set_option autoImplicit false

namespace LeonOS

open Bytes RustM

/-! ## Commands -/

/-- `str::split_whitespace`. -/
def splitWhitespace (s : List Char) : List (List Char) :=
  (s.splitOnP isWhitespace).filter (· ≠ [])

/-- `strip_prefix("run ")`. -/
def stripRun : List Char → Option (List Char)
  | 'r' :: 'u' :: 'n' :: ' ' :: rest => some rest
  | _ => none

/-- `run_target`: the name of the file, and the arguments. -/
def runTarget (cmd : String) : Option (String × String) :=
  match stripRun cmd.toList with
  | some rest =>
    let rest := trim rest
    let name := trim (rest.takeWhile (!isWhitespace ·))
    let args := trim ((rest.dropWhile (!isWhitespace ·)).drop 1)
    if name = [] then none else some (String.ofList name, String.ofList args)
  | none => if cmd = "runelf" then some ("hello_world", "") else none

example : runTarget "run  busybox  ls -l" = some ("busybox", "ls -l") := by decide

/-- `argv`. -/
def runArgv (name args : String) : List String :=
  name :: (splitWhitespace args.toList).map String.ofList

/-- What the shell prints of a command. -/
inductive Report where
  /-- Nothing, where there is no ramdisk. -/
  | nothing
  /-- The error of `fs::open`. -/
  | notFound (e : FsError)
  /-- `exited with code`; an interpreted program has `(interp)` behind it. -/
  | exited (code : BitVec 32) (interp : Bool)
  /-- `failed`, with an error of the native loading phase. -/
  | failedNative (e : NativeError)
  /-- `failed`, with an error of `ensure_region_executable`. -/
  | notExecutable
  /-- `failed`, with an error of the interpreter. -/
  | failedInterp (e : RunError)
  deriving DecidableEq

/-! ## Native programs -/

/-- **What a native program may do**, with the exits it makes: system calls and changes of memory,
until it exits or returns. -/
inductive NativeRuns : Os → List (BitVec 32) → Os → Prop
  | ret (os : Os) : NativeRuns os [] os
  | exit {nr a0 a1 a2 a3 r : U64} {os os' : Os}
      (hexit : Nr.decode nr.toNat = .exit ∨ Nr.decode nr.toNat = .exitGroup)
      (h : nativeSyscall nr a0 a1 a2 a3 os = .ok r os') :
      NativeRuns os [a0.setWidth 32] os'
  | call {nr a0 a1 a2 a3 r : U64} {os os₁ os' : Os} {exits : List (BitVec 32)}
      (hexit : Nr.decode nr.toNat ≠ .exit) (hgroup : Nr.decode nr.toNat ≠ .exitGroup)
      (h : nativeSyscall nr a0 a1 a2 a3 os = .ok r os₁) (hrest : NativeRuns os₁ exits os') :
      NativeRuns os exits os'
  | memory {ram : ℕ → U8} {touched : List ℕ} {os os' : Os} {exits : List (BitVec 32)}
      (hrest : NativeRuns { os with world := { os.world with ram := ram, touched := touched } }
        exits os') : NativeRuns os exits os'

/-! ## The shell -/

/-- What a shell runs on. -/
structure Machine where
  /-- `ramdisk_bytes()`. -/
  ramdisk : Option Image
  /-- Where the vectors of the native runner are allocated. -/
  buffers : Buffers
  /-- Where the vector `tmp` of the interpreter is. -/
  tmp : StackSlot
  /-- How many programs have room on the kernel's stack inside of one another, besides the first. -/
  depth : ℕ

namespace Machine

/-- The command finds a file, to be run with these arguments. -/
def Finds (m : Machine) (cmd : String) (image : List U8) (argv : List String) : Prop :=
  ∃ name args disk rec, runTarget cmd = some (name, args) ∧ m.ramdisk = some disk ∧
    Fs.open disk.bytes name = .ok rec ∧ image = rec.data ∧ argv = runArgv name args

/-- `run_linux_elf_with_args`, as the shell calls it. -/
def interpret (m : Machine) (image : List U8) (argv : List String) : RustM RunError Os Unit :=
  runLinuxElf m.tmp (m.depth + 1) image argv []

/-- What is counted of such a call. -/
def account (m : Machine) (image : List U8) (argv : List String) (os : Os) : Account :=
  accountRun m.tmp (m.depth + 1) image argv [] os

end Machine

/-- A shell after a command. -/
structure Shell where
  /-- The kernel. -/
  os : Os
  /-- What was printed of the command. -/
  report : Report
  /-- The exits that were made in it. -/
  exits : List (BitVec 32)

/-- **A `run` command.** -/
inductive Shell.Step (m : Machine) (cmd : String) : Shell → Shell → Prop
  | noRamdisk {name args : String} {s : Shell} (hcmd : runTarget cmd = some (name, args))
      (hdisk : m.ramdisk = none) : Step m cmd s ⟨s.os, .nothing, []⟩
  | notFound {name args : String} {disk : Image} {e : FsError} {s : Shell}
      (hcmd : runTarget cmd = some (name, args)) (hdisk : m.ramdisk = some disk)
      (hopen : Fs.open disk.bytes name = .error (.err e)) :
      Step m cmd s ⟨s.os, .notFound e, []⟩
  | failedNative {image : List U8} {argv : List String} {e : NativeError} {s : Shell}
      (hfile : m.Finds cmd image argv)
      (hload : loadNativeElf m.buffers image argv [] = .error (.err e))
      (hfixed : ∀ vaddr type, e ≠ .fixedVaddrUnsupported vaddr type) :
      Step m cmd s ⟨s.os, .failedNative e, []⟩
  | notExecutable {image : List U8} {argv : List String} {prog : NativeProgram} {s : Shell}
      (hfile : m.Finds cmd image argv)
      (hload : loadNativeElf m.buffers image argv [] = .ok prog) :
      Step m cmd s ⟨s.os, .notExecutable, []⟩
  | native {image : List U8} {argv : List String} {prog : NativeProgram} {s : Shell} {os os' : Os}
      {exits : List (BitVec 32)} (hfile : m.Finds cmd image argv)
      (hload : loadNativeElf m.buffers image argv [] = .ok prog)
      (hstart : nativeStart s.os = .ok () os) (hrun : NativeRuns os exits os') :
      Step m cmd s ⟨os', .exited os'.lastExit false, exits⟩
  | interpreted {image : List U8} {argv : List String} {vaddr : ℕ} {type : BitVec 16} {s : Shell}
      {os' : Os} (hfile : m.Finds cmd image argv)
      (hload : loadNativeElf m.buffers image argv [] =
        .error (.err (.fixedVaddrUnsupported vaddr type)))
      (hrun : m.interpret image argv s.os = .ok () os') :
      Step m cmd s ⟨os', .exited os'.lastExit true, (m.account image argv s.os).exits⟩
  | failedInterp {image : List U8} {argv : List String} {vaddr : ℕ} {type : BitVec 16}
      {e : RunError} {s : Shell} {os' : Os} (hfile : m.Finds cmd image argv)
      (hload : loadNativeElf m.buffers image argv [] =
        .error (.err (.fixedVaddrUnsupported vaddr type)))
      (hrun : m.interpret image argv s.os = .error (.err e) os') :
      Step m cmd s ⟨os', .failedInterp e, (m.account image argv s.os).exits⟩

/-- The globals when the shell is started: the ramdisk is mounted if its header is one. -/
def Machine.bootKernel (m : Machine) (reader : Stdin) : Kernel :=
  let k := { Kernel.boot with stdinReader := some reader }
  match m.ramdisk with
  | some disk => if (Fs.header disk.bytes).isOk then k.setRootfs disk else k
  | none => k

/-- The shell when it is started. -/
def Machine.boot (m : Machine) (reader : Stdin) (ram : ℕ → U8) : Shell where
  os := ⟨⟨m.bootKernel reader, ram, []⟩, []⟩
  report := .nothing
  exits := []

/-- Vectors may be at the beginning of the address space. -/
theorem zero_base_fits (n : ℕ) (hn : n < 2 ^ 63) : (0 : U64).toNat + n < 2 ^ 64 :=
  (Nat.zero_add n).trans_lt (by omega)

/-- The first address that is not null. -/
theorem one_addr_ne_zero : (1 : U64) ≠ 0 := by decide

/-- The reader of a keyboard on which one key is held. -/
def heldKey : Stdin := ⟨fun _ ↦ some 0x20, fun n ↦ ⟨n, le_rfl, rfl⟩⟩

end LeonOS
