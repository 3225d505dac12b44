import LeonOS.Elf.Parse

/-!
# What the ELF parser accepts

The grammar of the files that `parse_elf64` takes, said of the bytes of the image alone: eight
checks (`checks`), each with the error that it ends in, and what an image that passes them
describes (`described`).  The parser does the checks in order and then returns the description
(`parseElf64_grammar`); the structs of the source do not occur here.
-/

set_option autoImplicit false

namespace Rust

variable {ε α : Type} {e : ε}

/-! ## A list of checks -/

/-- The checks in order, each with its error. -/
def checkAll : List (Bool × ε) → Rust ε Unit
  | [] => .ok ()
  | (passed, e) :: checks => do
    failIf (passed = false) e
    checkAll checks

/-- The error of the first check that fails. -/
def firstError (checks : List (Bool × ε)) : Option ε := (checks.find? fun c ↦ !c.1).map Prod.snd

theorem firstError_eq_none {checks : List (Bool × ε)} :
    firstError checks = none ↔ ∀ c ∈ checks, c.1 = true := by
  simp [firstError]

/-- **The first check that fails** decides. -/
theorem checkAll_bind (checks : List (Bool × ε)) (x : Rust ε α) :
    (checkAll checks >>= fun _ ↦ x) = match firstError checks with
      | some e => fail e
      | none => x := by
  induction checks with
  | nil => rfl
  | cons c checks ih =>
    obtain ⟨passed, e⟩ := c
    cases passed with
    | false => rfl
    | true => exact ih

/-- A computation that does the first check itself. -/
theorem failIf_bind_eq_checkAll {c : Prop} [Decidable c] {passed : Bool}
    {checks : List (Bool × ε)} {x y : Rust ε α} (h : ¬c ↔ passed = true)
    (hxy : passed = true → x = (checkAll checks >>= fun _ ↦ y)) :
    (failIf c e >>= fun _ ↦ x) = (checkAll ((passed, e) :: checks) >>= fun _ ↦ y) := by
  cases passed with
  | false =>
    have hc : c := not_not.mp fun hc ↦ absurd (h.mp hc) (by decide)
    rw [failIf_of hc]
    rfl
  | true =>
    rw [failIf_of_not (h.mpr rfl)]
    exact hxy rfl

/-- A checked sum is a check, and then the sum. -/
theorem okOr_checkedAdd_bind (a b : ℕ) (e : ε) (f : ℕ → Rust ε α) :
    (okOr (checkedAdd a b) e >>= f) = (failIf (¬a + b < 2 ^ 64) e >>= fun _ ↦ f (a + b)) := by
  by_cases h : a + b < 2 ^ 64
  · rw [checkedAdd_of_lt h, failIf_of_not (not_not.mpr h)]
    rfl
  · rw [checkedAdd, if_neg h, failIf_of h]
    rfl

end Rust

namespace LeonOS

open Bytes

namespace Elf

/-! ## The grammar -/

/-- `e_phoff`. -/
def tableStart (image : List U8) : ℕ := field image 32 8

/-- `e_phnum`. -/
def tableCount (image : List U8) : ℕ := field image 56 2

/-- The end of the program header table. -/
def tableStop (image : List U8) : ℕ := tableStart image + 56 * tableCount image

/-- The checks, in order. -/
def checks (image : List U8) : List (Bool × ElfError) :=
  [(64 ≤ image.length, .tooSmall),
    (slice image 0 4 = [0x7F, 0x45, 0x4C, 0x46], .badMagic),
    (image[4]? = some 2, .unsupportedClass),
    (image[5]? = some 1, .unsupportedEndian),
    (field image 18 2 = 62, .unsupportedMachine),
    (field image 54 2 = 56, .badHeader),
    (tableStop image < 2 ^ 64, .badHeader),
    (tableStop image ≤ image.length, .badHeader)]

/-- **An image of the grammar.** -/
structure WellFormed (image : List U8) : Prop where
  /-- There is a header. -/
  length : 64 ≤ image.length
  /-- The identification: `"\x7FELF"`. -/
  magic : slice image 0 4 = [0x7F, 0x45, 0x4C, 0x46]
  /-- `ELFCLASS64`. -/
  class64 : image[4]? = some 2
  /-- `ELFDATA2LSB`. -/
  littleEndian : image[5]? = some 1
  /-- `e_machine`. -/
  machine : field image 18 2 = 62
  /-- `e_phentsize`. -/
  entrySize : field image 54 2 = 56
  /-- The end of the table is a `usize`. -/
  noOverflow : tableStop image < 2 ^ 64
  /-- The table is inside the image. -/
  inside : tableStop image ≤ image.length

/-- The segment that the program header at an offset describes, if it is to be loaded. -/
def segmentAt (image : List U8) (off : ℕ) : Option LoadSegment :=
  if field image off 4 = 1 then
    some ⟨BitVec.ofNat 64 (field image (off + 16) 8), BitVec.ofNat 64 (field image (off + 40) 8),
      BitVec.ofNat 64 (field image (off + 8) 8), BitVec.ofNat 64 (field image (off + 32) 8),
      BitVec.ofNat 32 (field image (off + 4) 4)⟩
  else none

/-- What an image of the grammar describes. -/
def described (image : List U8) : ElfImage where
  entry := BitVec.ofNat 64 (field image 24 8)
  eType := BitVec.ofNat 16 (field image 16 2)
  segments := (List.range (tableCount image)).filterMap fun i ↦
    segmentAt image (tableStart image + 56 * i)

theorem firstError_checks (image : List U8) :
    Rust.firstError (checks image) = none ↔ WellFormed image := by
  rw [Rust.firstError_eq_none]
  simp only [checks, List.forall_mem_cons, decide_eq_true_eq]
  constructor
  · rintro ⟨h₁, h₂, h₃, h₄, h₅, h₆, h₇, h₈, -⟩
    exact ⟨h₁, h₂, h₃, h₄, h₅, h₆, h₇, h₈⟩
  · rintro ⟨h₁, h₂, h₃, h₄, h₅, h₆, h₇, h₈⟩
    exact ⟨h₁, h₂, h₃, h₄, h₅, h₆, h₇, h₈, nofun⟩

/-! ## The structs -/

variable {image : List U8}

/-- A field of a struct in the image. -/
theorem field_slice {off size i n : ℕ} (h : i + n ≤ size) :
    field (slice image off size) i n = field image (off + i) n := by
  rw [field, slice_slice h, field]

theorem field_lt (image : List U8) (i n : ℕ) : field image i n < 256 ^ n := by
  refine lt_of_lt_of_le (ofLE_lt _) (Nat.pow_le_pow_right (by decide) ?_)
  rw [length_slice]
  exact min_le_left _ _

/-- The header of an image. -/
theorem ehdr_eq (image : List U8) : Elf64Ehdr.ofBytes (slice image 0 ehdrSize) =
    ⟨slice image 0 16, BitVec.ofNat 16 (field image 16 2), field image 18 2,
      BitVec.ofNat 64 (field image 24 8), tableStart image, field image 54 2,
      tableCount image⟩ := by
  have hfield {i n : ℕ} (h : i + n ≤ ehdrSize) :
      field (slice image 0 ehdrSize) i n = field image i n := by
    rw [field_slice h, Nat.zero_add]
  rw [Elf64Ehdr.ofBytes, slice_slice (by decide), hfield (by decide), hfield (by decide),
    hfield (by decide), hfield (by decide), hfield (by decide), hfield (by decide)]
  rfl

/-- A byte of the identification. -/
theorem getElem?_eIdent {i : ℕ} (hi : i < 16) : (slice image 0 16)[i]? = image[i]? := by
  rw [getElem?_slice, if_pos hi, Nat.zero_add]

/-- A program header in the image. -/
theorem segmentAt_eq {ph : Elf64Phdr} {off : ℕ} (h : ph = .ofBytes (slice image off phdrSize)) :
    segmentAt image off = if ph.pType = ptLoad then
      some ⟨ph.pVaddr, ph.pMemsz, ph.pOffset, ph.pFilesz, ph.pFlags⟩ else none := by
  subst h
  simp only [Elf64Phdr.ofBytes, phdrSize, ptLoad, segmentAt, field_slice, Nat.reduceAdd,
    Nat.reduceLeDiff, Nat.add_zero]

/-- **The loop over the table** collects the segments in order. -/
theorem loadSegments_eq {phoff n i : ℕ} (hend : phoff + 56 * (i + n) ≤ image.length)
    (hmax : phoff + 56 * (i + n) < 2 ^ 64) : loadSegments image phoff 56 n i =
      .ok ((List.range' i n).filterMap fun j ↦ segmentAt image (phoff + 56 * j)) := by
  induction n generalizing i with
  | zero => rfl
  | succ n ih =>
    have hread : (readUnaligned image (phoff + i * 56) phdrSize : Rust ElfError (List U8)) =
        .ok (slice image (phoff + 56 * i) phdrSize) := by
      rw [readUnaligned, phdrSize, Rust.range_of_le (by omega) (by omega), Nat.add_sub_cancel_left,
        Nat.mul_comm i]
    rw [loadSegments, Rust.add_of_lt (by omega), Rust.ok_bind, hread, Rust.ok_bind,
      ih (by omega) (by omega), Rust.ok_bind, List.range'_succ, List.filterMap_cons]
    generalize hph : Elf64Phdr.ofBytes _ = ph
    rw [segmentAt_eq hph.symm]
    split <;> rfl

/-! ## The parser -/

/-- The parser is the checks and then the description. -/
theorem parseElf64_eq (image : List U8) :
    parseElf64 image = (Rust.checkAll (checks image) >>= fun _ ↦ .ok (described image)) := by
  rw [parseElf64, checks]
  refine Rust.failIf_bind_eq_checkAll (by simp [ehdrSize]) fun h64 ↦ ?_
  have hread : (readUnaligned image 0 ehdrSize : Rust ElfError (List U8)) =
      .ok (slice image 0 ehdrSize) := Rust.range_of_le (Nat.zero_le _) (of_decide_eq_true h64)
  rw [hread, Rust.ok_bind, ehdr_eq]
  dsimp only
  refine Rust.failIf_bind_eq_checkAll (by simp [slice_slice]) fun _ ↦ ?_
  refine Rust.failIf_bind_eq_checkAll ?_ fun _ ↦ ?_
  · rw [getElem?_eIdent (by decide), not_not, decide_eq_true_eq, elfClass64]
  refine Rust.failIf_bind_eq_checkAll ?_ fun _ ↦ ?_
  · rw [getElem?_eIdent (by decide), not_not, decide_eq_true_eq, elfData2Lsb]
  refine Rust.failIf_bind_eq_checkAll (by simp [emX86_64]) fun _ ↦ ?_
  refine Rust.failIf_bind_eq_checkAll (by simp [phdrSize]) fun hsize ↦ ?_
  rw [decide_eq_true_eq] at hsize
  have hcount : tableCount image < 2 ^ 16 := field_lt image 56 2
  -- the product is of numbers of 16 bits, so that it is the sum that can overflow
  rw [hsize, Rust.checkedMul_of_lt (by omega), Rust.okOr_some, Rust.ok_bind, Nat.mul_comm,
    Rust.okOr_checkedAdd_bind]
  refine Rust.failIf_bind_eq_checkAll (by rw [not_not, decide_eq_true_eq, tableStop]) fun hmax ↦ ?_
  refine Rust.failIf_bind_eq_checkAll ?_ fun hend ↦ ?_
  · rw [gt_iff_lt, not_lt, decide_eq_true_eq, tableStop]
  rw [decide_eq_true_eq, tableStop] at hmax hend
  rw [loadSegments_eq (by omega) (by omega), Rust.ok_bind, ← List.range_eq_range']
  rfl

/-- **The parser takes what is of the grammar**, and returns what the bytes describe; the error of
another image is that of the first check that fails.  It never reads outside of the image. -/
theorem parseElf64_grammar (image : List U8) :
    (parseElf64 image = match Rust.firstError (checks image) with
      | some e => Rust.fail e
      | none => .ok (described image)) ∧
    ((∃ elf, parseElf64 image = .ok elf) ↔ WellFormed image) ∧
    parseElf64 image ≠ .error .panic := by
  rw [parseElf64_eq, Rust.checkAll_bind, ← firstError_checks]
  cases Rust.firstError (checks image) with
  | some e => simp [Rust.fail]
  | none => simp

end Elf

end LeonOS
