import LeonOS.Lib.Rust

/-!
# Reading ELF headers

The model of `kernel/src/elf.rs`: `parseElf64` takes the bytes of a file and returns its entry
point and its loadable segments.

The source reads the two header structs with `read_unaligned` through a raw pointer.  Here that is
`readUnaligned`, which panics when the struct does not lie inside the image — the source has no
such check, so that the panic never happens (`parseElf64_ne_panic`) says that the parser reads no
byte outside the image.
-/

set_option autoImplicit false

namespace LeonOS

open Bytes

/-- `LoadSegment`. -/
structure LoadSegment where
  /-- `vaddr`. -/
  vaddr : U64
  /-- `mem_size`. -/
  memSize : U64
  /-- `file_offset`. -/
  fileOffset : U64
  /-- `file_size`. -/
  fileSize : U64
  /-- `flags`. -/
  flags : BitVec 32
  deriving DecidableEq, Repr

/-- `ElfImage`. -/
structure ElfImage where
  /-- `entry`. -/
  entry : U64
  /-- `e_type`. -/
  eType : BitVec 16
  /-- `segments`. -/
  segments : List LoadSegment
  deriving DecidableEq, Repr

/-- `ElfError`. -/
inductive ElfError where
  | tooSmall
  | badMagic
  | unsupportedClass
  | unsupportedEndian
  | unsupportedMachine
  | badHeader
  deriving DecidableEq, Repr

namespace Elf

/-! ## The structs -/

/-- The fields of `Elf64Ehdr` the parser looks at. -/
structure Elf64Ehdr where
  /-- `e_ident`. -/
  eIdent : List U8
  /-- `e_type`. -/
  eType : BitVec 16
  /-- `e_machine`. -/
  eMachine : ℕ
  /-- `e_entry`. -/
  eEntry : U64
  /-- `e_phoff`. -/
  ePhoff : ℕ
  /-- `e_phentsize`. -/
  ePhentsize : ℕ
  /-- `e_phnum`. -/
  ePhnum : ℕ

/-- The fields of `Elf64Phdr` the parser looks at. -/
structure Elf64Phdr where
  /-- `p_type`. -/
  pType : ℕ
  /-- `p_flags`. -/
  pFlags : BitVec 32
  /-- `p_offset`. -/
  pOffset : U64
  /-- `p_vaddr`. -/
  pVaddr : U64
  /-- `p_filesz`. -/
  pFilesz : U64
  /-- `p_memsz`. -/
  pMemsz : U64

/-- `size_of::<Elf64Ehdr>()`. -/
def ehdrSize : ℕ := 64

/-- `size_of::<Elf64Phdr>()`. -/
def phdrSize : ℕ := 56

/-- `ELFCLASS64`. -/
def elfClass64 : U8 := 2

/-- `ELFDATA2LSB`. -/
def elfData2Lsb : U8 := 1

/-- `EM_X86_64`. -/
def emX86_64 : ℕ := 62

/-- `PT_LOAD`. -/
def ptLoad : ℕ := 1

/-- The little-endian field of `n` bytes at offset `i` of a struct. -/
def field (s : List U8) (i n : ℕ) : ℕ := ofLE (slice s i n)

/-- `read_unaligned`, of a struct of `n` bytes at offset `i` of the image. -/
def readUnaligned (image : List U8) (i n : ℕ) : Rust ElfError (List U8) :=
  Rust.range image i (i + n)

/-- The layout of `Elf64Ehdr`. -/
def Elf64Ehdr.ofBytes (s : List U8) : Elf64Ehdr where
  eIdent := slice s 0 16
  eType := BitVec.ofNat 16 (field s 16 2)
  eMachine := field s 18 2
  eEntry := BitVec.ofNat 64 (field s 24 8)
  ePhoff := field s 32 8
  ePhentsize := field s 54 2
  ePhnum := field s 56 2

/-- The layout of `Elf64Phdr`. -/
def Elf64Phdr.ofBytes (s : List U8) : Elf64Phdr where
  pType := field s 0 4
  pFlags := BitVec.ofNat 32 (field s 4 4)
  pOffset := BitVec.ofNat 64 (field s 8 8)
  pVaddr := BitVec.ofNat 64 (field s 16 8)
  pFilesz := BitVec.ofNat 64 (field s 32 8)
  pMemsz := BitVec.ofNat 64 (field s 40 8)

/-! ## The parser -/

/-- The loop of `parse_elf64` over the program header table, from entry `i` on with `n` entries
to go. -/
def loadSegments (image : List U8) (phoff phentsize : ℕ) :
    ℕ → ℕ → Rust ElfError (List LoadSegment)
  | 0, _ => .ok []
  | n + 1, i => do
    let off ← Rust.add phoff (i * phentsize)
    let ph := Elf64Phdr.ofBytes (← readUnaligned image off phdrSize)
    let rest ← loadSegments image phoff phentsize n (i + 1)
    if ph.pType = ptLoad then
      return ⟨ph.pVaddr, ph.pMemsz, ph.pOffset, ph.pFilesz, ph.pFlags⟩ :: rest
    else return rest

/-- `parse_elf64`. -/
def parseElf64 (image : List U8) : Rust ElfError ElfImage := do
  Rust.failIf (image.length < ehdrSize) .tooSmall
  let ehdr := Elf64Ehdr.ofBytes (← readUnaligned image 0 ehdrSize)
  Rust.failIf (slice ehdr.eIdent 0 4 ≠ [0x7F, 0x45, 0x4C, 0x46]) .badMagic
  Rust.failIf (ehdr.eIdent[4]? ≠ some elfClass64) .unsupportedClass
  Rust.failIf (ehdr.eIdent[5]? ≠ some elfData2Lsb) .unsupportedEndian
  Rust.failIf (ehdr.eMachine ≠ emX86_64) .unsupportedMachine
  Rust.failIf (ehdr.ePhentsize ≠ phdrSize) .badHeader
  let tableLen ← Rust.okOr (Rust.checkedMul ehdr.ePhnum ehdr.ePhentsize) .badHeader
  let tableEnd ← Rust.okOr (Rust.checkedAdd ehdr.ePhoff tableLen) .badHeader
  Rust.failIf (tableEnd > image.length) .badHeader
  let segments ← loadSegments image ehdr.ePhoff ehdr.ePhentsize ehdr.ePhnum 0
  return ⟨ehdr.eEntry, ehdr.eType, segments⟩

end Elf

end LeonOS
