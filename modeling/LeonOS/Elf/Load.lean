import LeonOS.Elf.Parse
import LeonOS.Lib.Memory

/-!
# Loading a program

The loading phase that `run_linux_elf_with_args` of `kernel/src/elf_runner.rs` and
`run_native_elf_with_args` of `kernel/src/native_runner.rs` have in common.  The two are copies of
one another: they differ in their errors, in two limits, in an extra refusal of the native one and
in the address that the vector `mem` stands for.  `Runner` has these differences, and the functions
below have a runner for a parameter.

1. `layout`: parse the file, find the range of its addresses, check the limits.
2. `copySegments`: copy the segments into a vector of zeros.
3. `buildInitialStack`: write the arguments and the environment to the end of the vector.

Addresses are naturals; a sum of two of them panics when it is not below `2 ^ 64`.
-/

set_option autoImplicit false

namespace LeonOS

open Bytes

/-- What the runners differ in. -/
structure Runner (ε : Type) where
  /-- The error for a file that is not parsed. -/
  parse : ElfError → ε
  /-- `NoLoadSegment`. -/
  noLoadSegment : ε
  /-- `AddressOutOfRange`. -/
  addressOutOfRange : ε
  /-- `UnsupportedComplexElf`, with its entry, segments and memory size. -/
  unsupportedComplexElf : U64 → ℕ → ℕ → ε
  /-- The check made as soon as the lowest address is known. -/
  checkType : ElfImage → ℕ → Rust ε Unit
  /-- The largest program. -/
  maxMem : ℕ
  /-- `STACK_SIZE`. -/
  stackSize : ℕ
  /-- The check never panics. -/
  checkType_ne_panic : ∀ elf minVaddr, checkType elf minVaddr ≠ .error .panic
  /-- The vector for a program can be allocated. -/
  limit : maxMem + stackSize < 2 ^ 63
  /-- There is room above the stack. -/
  room : 0x20 ≤ stackSize

namespace Elf

variable {ε : Type}

/-! ## Layout -/

/-- Where a program goes. -/
structure Layout where
  /-- The file. -/
  elf : ElfImage
  /-- `min_vaddr`. -/
  minVaddr : ℕ
  /-- `total_len`, the length of `mem`. -/
  totalLen : ℕ
  deriving DecidableEq

/-- `min_vaddr` and `max_vaddr`. -/
def addressRange (segments : List LoadSegment) : ℕ × ℕ :=
  segments.foldl (fun range seg ↦ (min range.1 seg.vaddr.toNat,
    max range.2 (Rust.saturatingAdd seg.vaddr.toNat seg.memSize.toNat))) (2 ^ 64 - 1, 0)

/-- The loading phase up to the allocation of `mem`. -/
def layout (r : Runner ε) (image : List U8) : Rust ε Layout := do
  let elf ← Rust.mapErr r.parse (parseElf64 image)
  Rust.failIf (elf.segments = []) r.noLoadSegment
  let (minVaddr, maxVaddr) := addressRange elf.segments
  r.checkType elf minVaddr
  Rust.failIf (maxVaddr ≤ minVaddr) r.addressOutOfRange
  let memLen := maxVaddr - minVaddr
  Rust.failIf (memLen > r.maxMem ∨ elf.segments.length > 16)
    (r.unsupportedComplexElf elf.entry elf.segments.length memLen)
  let totalLen ← Rust.okOr (Rust.checkedAdd memLen r.stackSize) r.addressOutOfRange
  return ⟨elf, minVaddr, totalLen⟩

/-! ## Segments -/

/-- The body of the copy loop before its `copy_from_slice`: the range of `mem` that is written, and
the bytes that are written there. -/
def segmentCopy (r : Runner ε) (image : List U8) (minVaddr memLen : ℕ) (seg : LoadSegment) :
    Rust ε (ℕ × ℕ × List U8) := do
  let dstStart ← Rust.sub seg.vaddr.toNat minVaddr
  let dstEnd := Rust.saturatingAdd dstStart seg.memSize.toNat
  Rust.failIf (dstEnd > memLen) r.addressOutOfRange
  let srcStart := seg.fileOffset.toNat
  let srcEnd := Rust.saturatingAdd srcStart seg.fileSize.toNat
  Rust.failIf (srcEnd > image.length) r.addressOutOfRange
  let fileLen := seg.fileSize.toNat
  let dstLast ← Rust.add dstStart fileLen
  let src ← Rust.range image srcStart srcEnd
  return (dstStart, dstLast, src)

/-- The copy loop. -/
def copySegments (r : Runner ε) (image : List U8) (minVaddr : ℕ) :
    List LoadSegment → List U8 → Rust ε (List U8)
  | [], mem => .ok mem
  | seg :: segments, mem => do
    let (dstStart, dstLast, src) ← segmentCopy r image minVaddr mem.length seg
    let mem ← Rust.copyFromSlice mem dstStart dstLast src
    copySegments r image minVaddr segments mem

/-! ## The initial stack -/

/-- `AT_PAGESZ`. -/
def atPagesz : ℕ := 6

/-- `AT_NULL`. -/
def atNull : ℕ := 0

/-- `push_cstr`: the new stack pointer and the memory afterwards. -/
def pushCstr (r : Runner ε) (base : U64) (mem : List U8) (sp : ℕ) (bytes : List U8) :
    Rust ε (ℕ × List U8) := do
  let len ← Rust.add bytes.length 1
  let newSp ← Rust.okOr (Rust.checkedSub sp len) r.addressOutOfRange
  let start ← Window.access r.addressOutOfRange base mem (BitVec.ofNat 64 newSp) len
  let mem ← Rust.copyFromSlice mem start (start + bytes.length) bytes
  let mem ← Rust.setIndex mem (start + bytes.length) 0
  return (newSp, mem)

/-- A loop over `push_cstr`, which begins with the last string: the pointers to the strings, the
stack pointer and the memory afterwards. -/
def pushCstrs (r : Runner ε) (base : U64) :
    List String → List U8 → ℕ → Rust ε (List ℕ × ℕ × List U8)
  | [], mem, sp => .ok ([], sp, mem)
  | s :: strs, mem, sp => do
    let (ptrs, sp, mem) ← pushCstrs r base strs mem sp
    let (sp, mem) ← pushCstr r base mem sp (Rust.asBytes s)
    return (sp :: ptrs, sp, mem)

/-- The loop over the words, the first of them the one with index `i`. -/
def writeWords (r : Runner ε) (base : U64) (sp : ℕ) : ℕ → List ℕ → List U8 → Rust ε (List U8)
  | _, [], mem => .ok mem
  | i, v :: words, mem => do
    let va ← Rust.add sp (i * 8)
    let mem ← Window.write r.addressOutOfRange base mem (BitVec.ofNat 64 va) (toLE 8 v)
    writeWords r base sp (i + 1) words mem

/-- The words of the initial stack, for the pointers to the arguments and to the environment. -/
def stackWords (argPtrs envPtrs : List ℕ) : List ℕ :=
  argPtrs.length :: (argPtrs ++ 0 :: (envPtrs ++ [0, atPagesz, 4096, atNull, 0]))

/-- `build_initial_stack`; `!0xf` clears the remainder by sixteen. -/
def buildInitialStack (r : Runner ε) (base : U64) (mem : List U8) (stackTop : ℕ)
    (argv envp : List String) : Rust ε (ℕ × List U8) := do
  let sp := stackTop / 16 * 16
  let (argPtrs, sp, mem) ← pushCstrs r base argv mem sp
  let (envPtrs, sp, mem) ← pushCstrs r base envp mem sp
  let words := stackWords argPtrs envPtrs
  let bytes ← Rust.mul words.length 8
  let sp ← Rust.okOr (Rust.checkedSub (sp / 16 * 16) bytes) r.addressOutOfRange
  let mem ← writeWords r base sp 0 words mem
  return (sp, mem)

/-- `stack_top`, and the stack below it. -/
def initialStack (r : Runner ε) (base : U64) (mem : List U8) (argv envp : List String) :
    Rust ε (ℕ × List U8) := do
  let memEnd ← Rust.add base.toNat mem.length
  let stackTop ← Rust.sub memEnd 0x10
  buildInitialStack r base mem stackTop argv envp

/-- The loading phase up to the initial stack.  The vector of `total_len` bytes is there: that
`alloc` may return null, and the kernel then stops in `alloc_error`, is a matter of the heap. -/
def loadImage (r : Runner ε) (image : List U8) : Rust ε (Layout × List U8) := do
  let l ← layout r image
  let mem ← copySegments r image l.minVaddr l.elf.segments (List.replicate l.totalLen 0)
  return (l, mem)

end Elf

end LeonOS
