import LeonOS.Elf.Stack

/-!
# Loading leaves the code alone

The initial stack is written to the end of `mem`, from the stack pointer on, and what is below
stays what the copy loop has put there (`initialStack_below`).  So a file whose one segment is its
code is loaded with the code at the beginning of `mem` (`CodeFile.loads`).
-/

set_option autoImplicit false

namespace LeonOS

open Bytes

namespace Elf

variable {ε : Type} {r : Runner ε} {base : U64} {mem mem' : List U8} {sp : ℕ}
  {argv envp : List String}

/-! ## The initial stack -/

/-- The stack pointer that a program starts with, for `len` bytes at `base`. -/
def stackPointer (base len : ℕ) (argv envp : List String) : ℕ :=
  ((base + len - 0x10) / 16 * 16 - stringBytes argv - stringBytes envp) / 16 * 16 -
    (argv.length + envp.length + 7) * 8

/-- The bytes below an address are the same. -/
def SameBelow (base : U64) (sp : ℕ) (mem mem' : List U8) : Prop :=
  mem'.length = mem.length ∧ ∀ i, base.toNat + i < sp → mem'[i]? = mem[i]?

/-- **Where the initial stack is**: it begins at `stackPointer`, and nothing below is written. -/
theorem initialStack_below (h : initialStack r base mem argv envp = .ok (sp, mem')) :
    sp = stackPointer base.toNat mem.length argv envp ∧ SameBelow base sp mem mem' := by
  obtain ⟨-, low, hstack⟩ := initialStack_ok h
  have hlow := hstack.low_eq
  have hsp := hstack.sp_eq
  rw [stringBytes_append] at hlow
  refine ⟨?_, hstack.length_eq, fun i hi ↦ hstack.getElem?_of_lt hi⟩
  rw [stackPointer]
  omega

/-! ## Files that are code -/

/-- The address of the code. -/
def codeAddr : U64 := 0x400000

/-- The headers of a file of type `ET_EXEC` with one segment of `n` bytes, which come after them. -/
def codeHeaders (n : ℕ) : List U8 :=
  [0x7F, 0x45, 0x4C, 0x46, 2, 1, 1, 0] ++ toLE 8 0 ++ toLE 2 2 ++ toLE 2 62 ++ toLE 4 1 ++
    toLE 8 codeAddr.toNat ++ toLE 8 64 ++ toLE 8 0 ++ toLE 4 0 ++ toLE 2 64 ++ toLE 2 56 ++
    toLE 2 1 ++ toLE 6 0 ++ toLE 4 1 ++ toLE 4 5 ++ toLE 8 120 ++ toLE 8 codeAddr.toNat ++
    toLE 8 codeAddr.toNat ++ toLE 8 n ++ toLE 8 n ++ toLE 8 4096

/-- The file of some code. -/
def codeFile (code : List U8) : List U8 := codeHeaders code.length ++ code

/-- The segment. -/
def codeSegment (n : ℕ) : LoadSegment :=
  ⟨codeAddr, BitVec.ofNat 64 n, 120, BitVec.ofNat 64 n, 5⟩

/-- Where it goes. -/
def codeLayout (n : ℕ) : Layout where
  elf := ⟨codeAddr, 2, [codeSegment n]⟩
  minVaddr := codeAddr.toNat
  totalLen := n + linuxRunner.stackSize

/-- The interpreter finds the code. -/
structure CodeFile (code : List U8) : Prop where
  /-- The file goes where it should. -/
  layout : layout linuxRunner (codeFile code) = .ok (codeLayout code.length)
  /-- There is no more than a page of it. -/
  length_le : code.length ≤ 4096

/-- The arguments and the environment take no more than a page. -/
def ShortStack (argv envp : StrSlice) : Prop :=
  stringBytes argv.strs + stringBytes envp.strs + (argv.strs.length + envp.strs.length) * 8 ≤ 4096

instance (argv envp : StrSlice) : Decidable (ShortStack argv envp) :=
  inferInstanceAs (Decidable (_ ≤ _))

variable {code : List U8}

theorem length_codeHeaders (n : ℕ) : (codeHeaders n).length = 120 := by
  have hmagic : [(0x7F : U8), 0x45, 0x4C, 0x46, 2, 1, 1, 0].length = 8 := rfl
  unfold codeHeaders
  simp only [List.length_append, length_toLE, hmagic]

theorem CodeFile.segmentCopy_eq (h : CodeFile code) : segmentCopy linuxRunner (codeFile code)
    codeAddr.toNat (code.length + linuxRunner.stackSize) (codeSegment code.length) =
      .ok (0, code.length, code) := by
  have hlen := h.length_le
  have hvalid := layout_valid h.layout
  have hfile : (codeFile code).length = 120 + code.length := by
    rw [codeFile, List.length_append, length_codeHeaders]
  have hn : (BitVec.ofNat 64 code.length).toNat = code.length := toNat_ofNat_of_lt (by omega)
  have hcopyable : (codeLayout code.length).Copyable (codeFile code) (codeSegment code.length) := by
    refine ⟨?_, ?_⟩
    · change codeAddr.toNat - codeAddr.toNat + (BitVec.ofNat 64 code.length).toNat ≤
        code.length + linuxRunner.stackSize
      omega
    · change 120 + (BitVec.ofNat 64 code.length).toNat ≤ (codeFile code).length
      rw [hn, hfile]
  have hslice : slice (codeFile code) 120 code.length = code := by
    have hright := slice_append_right (codeHeaders code.length) code 0 code.length
    rw [length_codeHeaders] at hright
    rw [codeFile, hright, slice, List.drop_zero, List.take_length]
  have hmin : (codeLayout code.length).minVaddr ≤ (codeSegment code.length).vaddr.toNat := le_rfl
  have hcopy := segmentCopy_of_copyable hvalid (by omega) hmin hcopyable
  have hstart : (codeSegment code.length).vaddr.toNat - (codeLayout code.length).minVaddr = 0 :=
    Nat.sub_self _
  have hsize : (codeSegment code.length).fileSize.toNat = code.length := hn
  rw [hstart, hsize, Nat.zero_add] at hcopy
  rw [show (codeSegment code.length).fileOffset.toNat = 120 from rfl, hslice] at hcopy
  exact hcopy

theorem CodeFile.loadImage_eq (h : CodeFile code) : loadImage linuxRunner (codeFile code) =
    .ok (codeLayout code.length, code ++ List.replicate linuxRunner.stackSize 0) := by
  have hcopy := h.segmentCopy_eq
  have hzeros : List.replicate (code.length + linuxRunner.stackSize) (0 : U8) =
      List.replicate code.length 0 ++ List.replicate linuxRunner.stackSize 0 :=
    List.replicate_add _ _ _
  have hfill : overwrite (List.replicate code.length (0 : U8)) 0 code = code := by
    rw [overwrite, List.take_zero, List.nil_append, Nat.zero_add, List.drop_eq_nil_of_le,
      List.append_nil]
    rw [List.length_replicate]
  have hcopies : copySegments linuxRunner (codeFile code) codeAddr.toNat [codeSegment code.length]
      (List.replicate (code.length + linuxRunner.stackSize) 0) =
        .ok (code ++ List.replicate linuxRunner.stackSize 0) := by
    rw [copySegments, List.length_replicate, hcopy, Rust.ok_bind]
    dsimp only
    rw [Rust.copyFromSlice_of_le (by rw [List.length_replicate]; omega) (Nat.zero_add _),
      Rust.ok_bind, hzeros, overwrite_append_left (by rw [List.length_replicate]; omega), hfill]
    rfl
  rw [loadImage, h.layout, Rust.ok_bind]
  dsimp only [codeLayout]
  rw [hcopies]
  rfl

/-- **The code is loaded**: memory begins with it. -/
theorem CodeFile.loads (h : CodeFile code) (argv envp : StrSlice) (hshort : ShortStack argv envp) :
    ∃ prog, loadLinuxElf (codeFile code) argv.strs envp.strs = .ok prog ∧
      prog.base = codeAddr ∧ prog.entry = codeAddr ∧ code <+: prog.mem ∧
      prog.mem.length = code.length + linuxRunner.stackSize := by
  have hlen := h.length_le
  have hmem : (code ++ List.replicate linuxRunner.stackSize (0 : U8)).length =
      code.length + linuxRunner.stackSize := by
    rw [List.length_append, List.length_replicate]
  have hsize : linuxRunner.stackSize = 131072 := rfl
  have haddr : codeAddr.toNat = 0x400000 := rfl
  have hbase : BitVec.ofNat 64 codeAddr.toNat = codeAddr := rfl
  rw [ShortStack] at hshort
  have hend : codeAddr.toNat + (code ++ List.replicate linuxRunner.stackSize (0 : U8)).length <
      2 ^ 64 := by omega
  rcases initialStack_cases (r := linuxRunner) argv envp hend (by omega) with
    ⟨-, sp, mem, hstack⟩ | ⟨hnot, -⟩
  · obtain ⟨hsp, hsame, hbelow⟩ := initialStack_below hstack
    refine ⟨⟨codeAddr, mem, BitVec.ofNat 64 sp, codeAddr⟩, ?_, rfl, rfl, ?_, hsame.trans hmem⟩
    · rw [loadLinuxElf, h.loadImage_eq, Rust.ok_bind]
      dsimp only [codeLayout]
      rw [hbase, hstack]
      rfl
    · rw [stackPointer] at hsp
      refine List.prefix_iff_getElem?.mpr fun i hi ↦ ?_
      rw [hbelow i (by omega), List.getElem?_append_left hi, List.getElem?_eq_getElem hi]
  · refine absurd ?_ hnot
    rw [StackFits]
    omega

/-- The native runner refuses what the interpreter takes, if its type is `ET_EXEC`. -/
theorem layout_native_of_exec {image : List U8} {l : Layout} (h : layout linuxRunner image = .ok l)
    (htype : l.elf.eType = 2) :
    layout nativeRunner image = Rust.fail (.fixedVaddrUnsupported l.minVaddr 2) := by
  obtain ⟨elf, hparse, h⟩ := Rust.bind_eq_ok.mp h
  obtain ⟨_, hsegs, h⟩ := Rust.bind_eq_ok.mp h
  obtain ⟨_, -, h⟩ := Rust.bind_eq_ok.mp h
  obtain ⟨_, -, h⟩ := Rust.bind_eq_ok.mp h
  obtain ⟨_, -, h⟩ := Rust.bind_eq_ok.mp h
  obtain ⟨_, -, h⟩ := Rust.bind_eq_ok.mp h
  obtain rfl := Except.ok.inj h
  dsimp only at htype
  rw [Rust.mapErr_eq_ok] at hparse
  rw [Rust.failIf_eq_ok] at hsegs
  rw [layout, hparse, Rust.mapErr, Rust.ok_bind, Rust.failIf_of_not hsegs, Rust.ok_bind]
  dsimp only [nativeRunner]
  rw [Rust.failIf_of htype, Rust.fail_bind, htype]
  rfl

theorem CodeFile.loadNativeElf_eq (h : CodeFile code) (buffers : Buffers) (argv envp : List String) :
    loadNativeElf buffers (codeFile code) argv envp =
      .error (.err (.fixedVaddrUnsupported codeAddr.toNat 2)) := by
  rw [loadNativeElf, loadImage, layout_native_of_exec h.layout rfl]
  rfl

end Elf

end LeonOS
