import LeonOS.Lib.Rust

/-!
# The LFS1 file system

The model of `kernel/src/fs.rs`, the reader of the ramdisk.  An image is a header of twelve bytes,
a table of one 64-byte entry a file, and the files' data:

* header: `"LFS1"`, version, number of files, four unused bytes;
* entry: length of the name, two unused bytes, offset and size of the data, mode, two unused
  bytes, the name.

The functions take any bytes for an image and answer an error when they are not one.  A
`FileRecord` borrows from the image; besides its data it has the place of the data there.
-/

set_option autoImplicit false

namespace LeonOS

open Bytes

/-- `FsError`. -/
inductive FsError where
  | tooSmall
  | badMagic
  | badVersion
  | outOfBounds
  | invalidName
  | notFound
  deriving DecidableEq, Repr

/-- `FsHeader`. -/
structure FsHeader where
  /-- `file_count`. -/
  fileCount : ℕ
  deriving DecidableEq, Repr

/-- `FileRecord`. -/
structure FileRecord where
  /-- `name`. -/
  name : String
  /-- `mode`. -/
  mode : BitVec 16
  /-- `data.as_ptr()`, as an offset in the image. -/
  dataPtr : ℕ
  /-- `data`. -/
  data : List U8
  deriving DecidableEq

namespace Fs

/-- `MAGIC`. -/
def magic : List U8 := [0x4C, 0x46, 0x53, 0x31]

/-- `VERSION`. -/
def version : ℕ := 1

/-- `HEADER_SIZE`. -/
def headerSize : ℕ := 12

/-- `ENTRY_SIZE`. -/
def entrySize : ℕ := 64

/-- `NAME_CAP`. -/
def nameCap : ℕ := 48

/-- `header`. -/
def header (image : List U8) : Rust FsError FsHeader := do
  Rust.failIf (image.length < headerSize) .tooSmall
  Rust.failIf ((← Rust.range image 0 4) ≠ magic) .badMagic
  Rust.failIf (ofLE (← Rust.range image 4 6) ≠ version) .badVersion
  let fileCount := ofLE (← Rust.range image 6 8)
  let tableLen ← Rust.okOr (Rust.checkedMul fileCount entrySize) .outOfBounds
  let tableEnd ← Rust.okOr (Rust.checkedAdd headerSize tableLen) .outOfBounds
  Rust.failIf (tableEnd > image.length) .outOfBounds
  return ⟨fileCount⟩

/-- `entry_at`. -/
def entryAt (image : List U8) (idx : ℕ) : Rust FsError FileRecord := do
  let off ← Rust.okOr (Rust.checkedMul idx entrySize) .outOfBounds
  let start ← Rust.okOr (Rust.checkedAdd headerSize off) .outOfBounds
  let entryEnd ← Rust.okOr (Rust.checkedAdd start entrySize) .outOfBounds
  Rust.failIf (entryEnd > image.length) .outOfBounds
  let e ← Rust.range image start entryEnd
  let nameLen := ofLE (← Rust.range e 0 2)
  Rust.failIf (nameLen = 0 ∨ nameLen > nameCap) .invalidName
  let offset := ofLE (← Rust.range e 4 8)
  let size := ofLE (← Rust.range e 8 12)
  let mode := BitVec.ofNat 16 (ofLE (← Rust.range e 12 14))
  let nameBytes ← Rust.range e 16 (16 + nameLen)
  let name ← Rust.okOr (Rust.fromUtf8 nameBytes) .invalidName
  let dataEnd ← Rust.okOr (Rust.checkedAdd offset size) .outOfBounds
  Rust.failIf (dataEnd > image.length) .outOfBounds
  return { name, mode, dataPtr := offset, data := ← Rust.range image offset dataEnd }

/-- The loop of `list`, from entry `i` on with `n` entries to go. -/
def listFrom {σ : Type} (image : List U8) (f : σ → FileRecord → σ) :
    ℕ → ℕ → RustM FsError σ Unit
  | 0, _ => pure ()
  | n + 1, i => do
    let rec ← RustM.lift (entryAt image i)
    modify (f · rec)
    listFrom image f n (i + 1)

/-- `list`; `σ` is what the closure has captured. -/
def list {σ : Type} (image : List U8) (f : σ → FileRecord → σ) : RustM FsError σ Unit := do
  let hdr ← RustM.lift (header image)
  listFrom image f hdr.fileCount 0

/-- The loop of `open`, from entry `i` on with `n` entries to go. -/
def openFrom (image : List U8) (wanted : String) : ℕ → ℕ → Rust FsError FileRecord
  | 0, _ => Rust.fail .notFound
  | n + 1, i => do
    let rec ← entryAt image i
    if rec.name = wanted then
      return rec
    openFrom image wanted n (i + 1)

/-- `open`. -/
def «open» (image : List U8) (wanted : String) : Rust FsError FileRecord := do
  let hdr ← header image
  openFrom image wanted hdr.fileCount 0

/-- `entry`. -/
def entry (image : List U8) (idx : ℕ) : Rust FsError FileRecord := do
  let hdr ← header image
  Rust.failIf (idx ≥ hdr.fileCount) .notFound
  entryAt image idx

/-! ## The reader without its checks

A slice is never longer than `isize::MAX`, so that no sum of an index into it overflows. -/

variable {image : List U8} {idx : ℕ} {r : FileRecord}

/-- The record that the bytes `e` of an entry stand for. -/
def readSlot (image e : List U8) : Rust FsError FileRecord := do
  Rust.failIf (ofLE (slice e 0 2) = 0 ∨ ofLE (slice e 0 2) > nameCap) .invalidName
  let name ← Rust.okOr (Rust.fromUtf8 (slice e 16 (ofLE (slice e 0 2)))) .invalidName
  Rust.failIf (ofLE (slice e 4 4) + ofLE (slice e 8 4) > image.length) .outOfBounds
  return {
    name
    mode := BitVec.ofNat 16 (ofLE (slice e 12 2))
    dataPtr := ofLE (slice e 4 4)
    data := slice image (ofLE (slice e 4 4)) (ofLE (slice e 8 4)) }

theorem ofLE_slice_lt (e : List U8) (i n : ℕ) : ofLE (slice e i n) < 256 ^ n := by
  refine (ofLE_lt _).trans_le (Nat.pow_le_pow_right (by decide) ?_)
  rw [length_slice]
  exact min_le_left _ _

theorem entryAt_of_le (h : headerSize + idx * entrySize + entrySize ≤ image.length)
    (hlen : image.length < 2 ^ 64) :
    entryAt image idx = readSlot image (slice image (headerSize + idx * entrySize) entrySize) := by
  have hsize : (slice image (headerSize + idx * entrySize) entrySize).length = 64 :=
    length_slice_of_le h
  have hmul := Rust.checkedMul_of_lt (a := idx) (b := entrySize) (by omega)
  have hadd := Rust.checkedAdd_of_lt (a := headerSize) (b := idx * entrySize) (by omega)
  have hend := Rust.checkedAdd_of_lt (a := headerSize + idx * entrySize) (b := entrySize) (by omega)
  simp only [entryAt, hmul, hadd, hend, Rust.okOr_some, Rust.ok_bind,
    Rust.range_of_le (Nat.le_add_right _ _) h, Nat.add_sub_cancel_left,
    Rust.failIf_of_not (Nat.not_lt.mpr h)]
  generalize slice image (headerSize + idx * entrySize) entrySize = e at hsize ⊢
  have h0 := ofLE_slice_lt e 0 2
  have h4 := ofLE_slice_lt e 4 4
  have h8 := ofLE_slice_lt e 8 4
  rw [Rust.range_of_le (by omega) (by omega), Rust.range_of_le (by omega) (by omega),
    Rust.range_of_le (by omega) (by omega), Rust.range_of_le (by omega) (by omega), readSlot]
  simp only [Rust.ok_bind, Nat.sub_zero, Nat.reduceSub]
  by_cases hname : ofLE (slice e 0 2) = 0 ∨ ofLE (slice e 0 2) > nameCap
  · rw [Rust.failIf_of hname, Rust.fail_bind, Rust.fail_bind]
  rw [Rust.failIf_of_not hname, Rust.ok_bind, Rust.ok_bind,
    Rust.range_of_le (by omega) (by rw [nameCap] at hname; omega), Rust.ok_bind,
    Nat.add_sub_cancel_left, Rust.checkedAdd_of_lt (by omega)]
  refine congrArg _ (funext fun name ↦ ?_)
  rw [Rust.okOr_some, Rust.ok_bind]
  by_cases hdata : ofLE (slice e 4 4) + ofLE (slice e 8 4) > image.length
  · rw [Rust.failIf_of hdata, Rust.fail_bind, Rust.fail_bind]
  rw [Rust.failIf_of_not hdata, Rust.range_of_le (by omega) (by omega), Nat.add_sub_cancel_left]
  rfl

theorem entryAt_of_lt (h : image.length < headerSize + idx * entrySize + entrySize) :
    entryAt image idx = Rust.fail .outOfBounds := by
  rw [entryAt, Rust.checkedMul]
  split
  · rw [Rust.okOr_some, Rust.ok_bind, Rust.checkedAdd]
    split
    · rw [Rust.okOr_some, Rust.ok_bind, Rust.checkedAdd]
      split
      · rw [Rust.okOr_some, Rust.ok_bind, Rust.failIf_of h, Rust.fail_bind]
      · rfl
    · rfl
  · rfl

theorem header_eq_ok {hdr : FsHeader} : header image = .ok hdr ↔
    slice image 0 4 = magic ∧ ofLE (slice image 4 2) = version ∧
      hdr.fileCount = ofLE (slice image 6 2) ∧
      headerSize + hdr.fileCount * entrySize ≤ image.length := by
  rcases Nat.lt_or_ge image.length headerSize with hlen | hlen
  · rw [header, Rust.failIf_of hlen, Rust.fail_bind]
    simp only [Rust.fail, reduceCtorEq, false_iff, not_and]
    omega
  have hcount := ofLE_slice_lt image 6 2
  have hmul := Rust.checkedMul_of_lt (a := ofLE (slice image 6 2)) (b := entrySize) (by
    rw [entrySize]; omega)
  have hadd := Rust.checkedAdd_of_lt (a := headerSize) (b := ofLE (slice image 6 2) * entrySize) (by
    rw [entrySize, headerSize]; omega)
  have h12 : 12 ≤ image.length := hlen
  rw [header, Rust.failIf_of_not (by omega), Rust.range_of_le (by omega) (by omega),
    Rust.range_of_le (by omega) (by omega), Rust.range_of_le (by omega) (by omega)]
  simp only [Rust.ok_bind, Nat.sub_zero, Nat.reduceSub, hmul, hadd, Rust.okOr_some]
  constructor
  · intro h
    obtain ⟨_, h0, h⟩ := Rust.bind_eq_ok.mp h
    obtain ⟨_, h4, h⟩ := Rust.bind_eq_ok.mp h
    obtain ⟨_, hend, h⟩ := Rust.bind_eq_ok.mp h
    rw [Rust.failIf_eq_ok, not_not] at h0 h4
    rw [Rust.failIf_eq_ok, not_lt] at hend
    obtain rfl := Except.ok.inj h
    exact ⟨h0, h4, rfl, hend⟩
  · rintro ⟨h0, h4, h6, hend⟩
    rw [Rust.failIf_of_not (not_not.mpr h0), Rust.failIf_of_not (not_not.mpr h4),
      Rust.failIf_of_not (by rw [← h6]; omega)]
    exact congrArg Except.ok (congrArg FsHeader.mk h6.symm)

theorem entry_of_lt {hdr : FsHeader} (hhdr : header image = .ok hdr) (h : idx < hdr.fileCount) :
    entry image idx = entryAt image idx := by
  rw [entry, hhdr, Rust.ok_bind, Rust.failIf_of_not (by omega), Rust.ok_bind]

theorem entry_of_le {hdr : FsHeader} (hhdr : header image = .ok hdr) (h : hdr.fileCount ≤ idx) :
    entry image idx = Rust.fail .notFound := by
  rw [entry, hhdr, Rust.ok_bind, Rust.failIf_of h, Rust.fail_bind]

/-- **The data of a record is a part of the image**, the one its pointer says. -/
theorem entryAt_data (hlen : image.length < 2 ^ 64) (h : entryAt image idx = .ok r) :
    r.dataPtr + r.data.length ≤ image.length ∧
      r.data = slice image r.dataPtr r.data.length := by
  rcases Nat.lt_or_ge image.length (headerSize + idx * entrySize + entrySize) with hi | hi
  · rw [entryAt_of_lt hi] at h
    exact absurd h (by simp [Rust.fail])
  rw [entryAt_of_le hi hlen, readSlot] at h
  obtain ⟨_, -, h⟩ := Rust.bind_eq_ok.mp h
  obtain ⟨name, -, h⟩ := Rust.bind_eq_ok.mp h
  obtain ⟨_, hdata, h⟩ := Rust.bind_eq_ok.mp h
  rw [Rust.failIf_eq_ok, not_lt] at hdata
  obtain rfl := Except.ok.inj h
  refine ⟨?_, ?_⟩ <;> simp only [length_slice_of_le hdata]
  exact hdata

/-! ### The loops -/

/-- What a loop from entry `i` on, with `n` entries to go, meets: some records, and the error of the
entry behind them, or none when it has come to the end. -/
inductive Scan (image : List U8) : ℕ → ℕ → List FileRecord → Option FsError → Prop
  | done (i : ℕ) : Scan image i 0 [] none
  | stop {i n : ℕ} {e : FsError} : entryAt image i = .error (.err e) →
      Scan image i (n + 1) [] (some e)
  | next {i n : ℕ} {r : FileRecord} {recs : List FileRecord} {stop : Option FsError} :
      entryAt image i = .ok r → Scan image (i + 1) n recs stop →
        Scan image i (n + 1) (r :: recs) stop

section Loops

variable {recs : List FileRecord} {stop : Option FsError} {i n : ℕ}

theorem Scan.of_records (h : ∀ k r, recs[k]? = some r → entryAt image (i + k) = .ok r) :
    Scan image i recs.length recs none := by
  induction recs generalizing i with
  | nil => exact .done i
  | cons r recs ih =>
    refine .next (h 0 r rfl) (ih fun k r' hk ↦ ?_)
    rw [Nat.add_assoc, Nat.add_comm 1]
    exact h (k + 1) r' hk

/-- **The loop of `list`** hands its closure the records, and ends as the scan does. -/
theorem Scan.listFrom_eq (h : Scan image i n recs stop) {σ : Type} (f : σ → FileRecord → σ) (s : σ) :
    listFrom image f n i s =
      stop.elim (.ok () (recs.foldl f s)) fun e ↦ .error (.err e) (recs.foldl f s) := by
  induction h generalizing s with
  | done i => rfl
  | stop he =>
    rw [listFrom, he]
    rfl
  | next hr _ ih =>
    rw [listFrom, hr, List.foldl_cons, ← ih]
    rfl

/-- **The loop of `open`** finds the first of the records with a name. -/
theorem Scan.openFrom_eq (h : Scan image i n recs stop) (wanted : String) :
    openFrom image wanted n i =
      Rust.okOr (recs.find? (·.name = wanted)) (stop.getD .notFound) := by
  induction h with
  | done i => rfl
  | stop he =>
    rw [openFrom, he]
    rfl
  | @next i n r recs stop hr _ ih =>
    rw [openFrom, hr, Rust.ok_bind, List.find?_cons]
    by_cases hname : r.name = wanted
    · rw [if_pos hname, decide_eq_true hname]
      rfl
    · rw [if_neg hname, decide_eq_false hname, ih]

end Loops

theorem openFrom_eq_ok {wanted : String} {n i : ℕ} (h : openFrom image wanted n i = .ok r) :
    ∃ k, i ≤ k ∧ k < i + n ∧ entryAt image k = .ok r ∧ r.name = wanted := by
  induction n generalizing i with
  | zero => exact absurd h (by simp [openFrom, Rust.fail])
  | succ n ih =>
    obtain ⟨rec, hrec, h⟩ := Rust.bind_eq_ok.mp h
    by_cases hname : rec.name = wanted
    · rw [if_pos hname] at h
      obtain rfl := Except.ok.inj h
      exact ⟨i, le_refl i, by omega, hrec, hname⟩
    · rw [if_neg hname] at h
      obtain ⟨k, hik, hkn, hk⟩ := ih h
      exact ⟨k, by omega, by omega, hk⟩

/-- What `open` finds is an entry. -/
theorem open_eq_ok {wanted : String} (h : Fs.open image wanted = .ok r) :
    ∃ i, entry image i = .ok r ∧ r.name = wanted := by
  obtain ⟨hdr, hhdr, h⟩ := Rust.bind_eq_ok.mp h
  obtain ⟨k, -, hk, hr, hname⟩ := openFrom_eq_ok h
  refine ⟨k, ?_, hname⟩
  rw [entry_of_lt hhdr (by omega)]
  exact hr

theorem entryAt_of_entry (h : entry image idx = .ok r) : entryAt image idx = .ok r := by
  obtain ⟨hdr, -, h⟩ := Rust.bind_eq_ok.mp h
  obtain ⟨_, -, h⟩ := Rust.bind_eq_ok.mp h
  exact h

end Fs

end LeonOS
