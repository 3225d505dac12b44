import LeonOS.Elf.Load
import LeonOS.Interp.Cpu

/-!
# The two runners

The loading phases of `run_linux_elf_with_args`, which interprets a program, and of
`run_native_elf_with_args`, which jumps into it.  The interpreter keeps the addresses of the file:
its `mem` stands at the lowest of them.  The native runner relocates: its `mem` stands where the
vector was allocated, and the phase ends with the check of the entry.
-/

set_option autoImplicit false

namespace LeonOS

open Bytes Elf

/-- `NativeError`, as far as loading goes. -/
inductive NativeError where
  | parse (e : ElfError)
  | noLoadSegment
  | addressOutOfRange
  | fixedVaddrUnsupported (minVaddr : ℕ) (eType : BitVec 16)
  | unsupportedComplexElf (entry : U64) (segments memorySize : ℕ)
  deriving DecidableEq

/-- The interpreter: `MAX_INTERP_MEM` is 16 MiB and the stack 128 KiB. -/
def linuxRunner : Runner RunError where
  parse := .parse
  noLoadSegment := .noLoadSegment
  addressOutOfRange := .addressOutOfRange
  unsupportedComplexElf := .unsupportedComplexElf
  checkType _ _ := .ok ()
  maxMem := 16 * 1024 * 1024
  stackSize := 128 * 1024
  checkType_ne_panic _ _ := nofun
  limit := by decide
  room := by decide

/-- The native runner: `MAX_NATIVE_MEM` is 32 MiB and the stack 256 KiB, and a file of type
`ET_EXEC` is refused. -/
def nativeRunner : Runner NativeError where
  parse := .parse
  noLoadSegment := .noLoadSegment
  addressOutOfRange := .addressOutOfRange
  unsupportedComplexElf := .unsupportedComplexElf
  checkType elf minVaddr :=
    Rust.failIf (elf.eType = 2) (.fixedVaddrUnsupported minVaddr elf.eType)
  maxMem := 32 * 1024 * 1024
  stackSize := 256 * 1024
  checkType_ne_panic _ _ := Rust.failIf_ne_panic
  limit := by decide
  room := by decide

/-- A program that is ready to be interpreted. -/
structure LinuxProgram where
  /-- `min_vaddr`, the address of `mem`. -/
  base : U64
  /-- `mem`. -/
  mem : List U8
  /-- `initial_rsp`. -/
  initialRsp : U64
  /-- `elf.entry`. -/
  entry : U64

/-- The loading phase of `run_linux_elf_with_args`. -/
def loadLinuxElf (image : List U8) (argv envp : List String) : Rust RunError LinuxProgram := do
  let (l, mem) ← loadImage linuxRunner image
  let base := BitVec.ofNat 64 l.minVaddr
  let (sp, mem) ← initialStack linuxRunner base mem argv envp
  return { base, mem, initialRsp := BitVec.ofNat 64 sp, entry := l.elf.entry }

/-- Where `vec![0u8; n]` puts its bytes: no allocation wraps around the address space.  The
allocation is taken to succeed, as it does while the heap has room; a program that is near the limit
of the native runner does not fit into the heap at all. -/
structure Buffers where
  /-- The address of a vector of that length. -/
  base : ℕ → U64
  /-- The address behind it exists. -/
  fits : ∀ n, n < 2 ^ 63 → (base n).toNat + n < 2 ^ 64

/-- A program that is ready to be entered. -/
structure NativeProgram where
  /-- `runtime_base`, the address of `mem`. -/
  base : U64
  /-- `mem`. -/
  mem : List U8
  /-- `user_rsp`. -/
  userRsp : U64
  /-- `entry`. -/
  entry : U64
  /-- `entry_idx`. -/
  entryIdx : ℕ

/-- The loading phase of `run_native_elf_with_args`, up to `entry_idx`. -/
def loadNativeElf (buffers : Buffers) (image : List U8) (argv envp : List String) :
    Rust NativeError NativeProgram := do
  let (l, mem) ← loadImage nativeRunner image
  let base := buffers.base mem.length
  let (sp, mem) ← initialStack nativeRunner base mem argv envp
  let entryOff ← Rust.okOr (Rust.checkedSub l.elf.entry.toNat l.minVaddr) .addressOutOfRange
  let entry ← Rust.add base.toNat entryOff
  let entryIdx ← Window.index .addressOutOfRange base mem (BitVec.ofNat 64 entry)
  return { base, mem, userRsp := BitVec.ofNat 64 sp, entry := BitVec.ofNat 64 entry, entryIdx }

end LeonOS
