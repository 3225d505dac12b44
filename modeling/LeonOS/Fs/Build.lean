import LeonOS.Fs.Image

/-!
# The image builder

The model of `build_lfs1` of `build.rs`, which writes the image that `LeonOS.Fs.Image` reads, and
the round trip between the two.

The builder starts from a header and a table of zeros, and for each file writes the entry in
place and appends the data; the offset of the data is kept in a cursor.  Seen from the end the
image is three parts in a row (`buildLfs1_eq`): the header, the entries (`slots`), the data.  That
closed form is the invariant of the loop, with zeros for the entries still to come.
-/

set_option autoImplicit false

namespace LeonOS

open Bytes

/-- `BuildFile`. -/
structure BuildFile where
  /-- `name`. -/
  name : String
  /-- `mode`. -/
  mode : BitVec 16
  /-- `data`. -/
  data : List U8
  deriving DecidableEq

namespace Build

/-! ## The builder -/

/-- `ENTRY_SIZE` of the build script. -/
def entrySize : ℕ := 64

/-- `NAME_CAP` of the build script. -/
def nameCap : ℕ := 48

/-- `header_size`. -/
def headerSize : ℕ := 12

/-- The body of the loop of `build_lfs1`, without the cursor. -/
def buildEntry (blob : List U8) (i cursor : ℕ) (file : BuildFile) : Rust Empty (List U8) := do
  Rust.assert ((Rust.asBytes file.name).length ≤ nameCap)
  let entryOff := headerSize + i * entrySize
  let nameLen := toLE 2 (Rust.asBytes file.name).length
  let offset := toLE 4 cursor
  let size := toLE 4 file.data.length
  let blob ← Rust.copyFromSlice blob entryOff (entryOff + 2) nameLen
  let blob ← Rust.copyFromSlice blob (entryOff + 4) (entryOff + 8) offset
  let blob ← Rust.copyFromSlice blob (entryOff + 8) (entryOff + 12) size
  let blob ← Rust.copyFromSlice blob (entryOff + 12) (entryOff + 14) (toLE 2 file.mode.toNat)
  let nameBytes := Rust.asBytes file.name
  let blob ← Rust.copyFromSlice blob (entryOff + 16) (entryOff + 16 + nameBytes.length) nameBytes
  return blob ++ file.data

/-- The loop of `build_lfs1`, from file `i` on. -/
def buildEntries (blob : List U8) : ℕ → ℕ → List BuildFile → Rust Empty (List U8)
  | _, _, [] => .ok blob
  | i, cursor, file :: files => do
    let blob ← buildEntry blob i cursor file
    let cursor ← Rust.add cursor file.data.length
    buildEntries blob (i + 1) cursor files

/-- `build_lfs1`. -/
def buildLfs1 (files : List BuildFile) : Rust Empty (List U8) := do
  let tableSize := files.length * entrySize
  let blob := List.replicate (headerSize + tableSize) 0
  let blob ← Rust.copyFromSlice blob 0 4 [0x4C, 0x46, 0x53, 0x31]
  let blob ← Rust.copyFromSlice blob 4 6 (toLE 2 1)
  let blob ← Rust.copyFromSlice blob 6 8 (toLE 2 files.length)
  buildEntries blob 0 (headerSize + tableSize) files

/-! ## The image, seen from the end -/

/-- The fields of a header. -/
def headerFields (n : ℕ) : List (ℕ × List U8) :=
  [(0, [0x4C, 0x46, 0x53, 0x31]), (4, toLE 2 1), (6, toLE 2 n)]

/-- The header of an image with `n` files. -/
def headerBytes (n : ℕ) : List U8 := overwriteAll (List.replicate headerSize 0) (headerFields n)

/-- The fields of an entry. -/
def slotFields (file : BuildFile) (cursor : ℕ) : List (ℕ × List U8) :=
  [(0, toLE 2 (Rust.asBytes file.name).length), (4, toLE 4 cursor), (8, toLE 4 file.data.length),
    (12, toLE 2 file.mode.toNat), (16, Rust.asBytes file.name)]

/-- The entry of a file whose data is at `cursor`. -/
def slot (file : BuildFile) (cursor : ℕ) : List U8 :=
  overwriteAll (List.replicate entrySize 0) (slotFields file cursor)

/-- The entries of some files whose data begins at `cursor`. -/
def slots : ℕ → List BuildFile → List U8
  | _, [] => []
  | cursor, file :: files => slot file cursor ++ slots (cursor + file.data.length) files

/-- The data of some files. -/
def datas (files : List BuildFile) : List U8 := files.flatMap BuildFile.data

/-- The image of some files. -/
def lfs1 (files : List BuildFile) : List U8 :=
  headerBytes files.length ++
    (slots (headerSize + files.length * entrySize) files ++ datas files)

/-- Every file's name fits in an entry. -/
def NamesFit (files : List BuildFile) : Prop :=
  ∀ file ∈ files, (Rust.asBytes file.name).length ≤ nameCap

variable {file : BuildFile} {files : List BuildFile} {cursor i : ℕ}

theorem headerFields_fit (n : ℕ) : ∀ f ∈ headerFields n, f.1 + f.2.length ≤ 12 := by
  simp [headerFields]

theorem headerFields_pairwise (n : ℕ) :
    (headerFields n).Pairwise fun f g ↦ f.1 + f.2.length ≤ g.1 := by
  simp [headerFields]

theorem slotFields_fit (cursor : ℕ) (h : (Rust.asBytes file.name).length ≤ nameCap) :
    ∀ f ∈ slotFields file cursor, f.1 + f.2.length ≤ 64 := by
  rw [nameCap] at h
  simp [slotFields]
  omega

theorem slotFields_pairwise :
    (slotFields file cursor).Pairwise fun f g ↦ f.1 + f.2.length ≤ g.1 := by
  simp [slotFields]

@[simp] theorem length_headerBytes (n : ℕ) : (headerBytes n).length = 12 :=
  length_overwriteAll (headerFields_fit n)

theorem length_slot (h : (Rust.asBytes file.name).length ≤ nameCap) :
    (slot file cursor).length = 64 :=
  length_overwriteAll (slotFields_fit cursor h)

theorem length_slots (cursor : ℕ) (h : NamesFit files) :
    (slots cursor files).length = files.length * 64 := by
  induction files generalizing cursor with
  | nil => rfl
  | cons file files ih =>
    rw [slots, List.length_append, length_slot (h file List.mem_cons_self),
      ih _ fun f hf ↦ h f (List.mem_cons_of_mem file hf), List.length_cons]
    omega

/-! ## The builder writes the closed form -/

/-- Writes into the middle one of three parts. -/
theorem copyFields (pre e post : List U8) {fs : List (ℕ × List U8)}
    (h : ∀ f ∈ fs, f.1 + f.2.length ≤ e.length) :
    fs.foldlM (fun blob f ↦ Rust.copyFromSlice blob (pre.length + f.1)
        (pre.length + (f.1 + f.2.length)) f.2) (pre ++ (e ++ post)) =
      (.ok (pre ++ (overwriteAll e fs ++ post)) : Rust Empty (List U8)) := by
  induction fs generalizing e with
  | nil => rfl
  | cons f fs ih =>
    have hf := h f List.mem_cons_self
    rw [List.foldlM_cons, Rust.copyFromSlice_of_le _ (Nat.add_assoc _ _ _),
      Rust.ok_bind, overwrite_append_right,
      overwrite_append_left hf, ih]
    · rfl
    · intro g hg
      rw [length_overwrite hf]
      exact h g (List.mem_cons_of_mem f hg)
    · rw [List.length_append, List.length_append]
      omega

/-- **One turn of the loop** fills the entry and appends the data. -/
theorem buildEntry_eq {pre post : List U8} (hname : (Rust.asBytes file.name).length ≤ nameCap)
    (hpre : pre.length = headerSize + i * entrySize) :
    buildEntry (pre ++ (List.replicate entrySize 0 ++ post)) i cursor file =
      .ok (pre ++ (slot file cursor ++ (post ++ file.data))) := by
  have hcopy := copyFields pre (List.replicate entrySize 0) post (slotFields_fit cursor hname)
  have hrun : buildEntry (pre ++ (List.replicate entrySize 0 ++ post)) i cursor file = (do
      let blob ← (slotFields file cursor).foldlM (fun blob f ↦ Rust.copyFromSlice blob
        (pre.length + f.1) (pre.length + (f.1 + f.2.length)) f.2)
          (pre ++ (List.replicate entrySize 0 ++ post))
      return blob ++ file.data) := by
    rw [buildEntry, Rust.assert, if_pos hname, ← hpre]
    simp only [slotFields, List.foldlM_cons, List.foldlM_nil, bind_assoc, pure_bind, length_toLE,
      Rust.ok_bind, Nat.add_assoc, Nat.add_zero, Nat.reduceAdd]
  rw [hrun, hcopy, Rust.ok_bind, List.append_assoc, List.append_assoc]
  rfl

theorem buildEntries_eq {pre : List U8} (post : List U8) (hnames : NamesFit files)
    (hpre : pre.length = headerSize + i * entrySize)
    (hcursor : cursor + (datas files).length < 2 ^ 64) :
    buildEntries (pre ++ (List.replicate (files.length * entrySize) 0 ++ post)) i cursor files =
      .ok (pre ++ (slots cursor files ++ (post ++ datas files))) := by
  induction files generalizing pre post i cursor with
  | nil => simp [buildEntries, slots, datas]
  | cons file files ih =>
    have hname := hnames file List.mem_cons_self
    have hdata : (datas (file :: files)).length = file.data.length + (datas files).length := by
      simp [datas]
    have hzeros : List.replicate ((file :: files).length * entrySize) (0 : U8) =
        List.replicate entrySize 0 ++ List.replicate (files.length * entrySize) 0 := by
      rw [← List.replicate_add, List.length_cons, Nat.add_one_mul, Nat.add_comm]
    rw [buildEntries, hzeros, List.append_assoc, buildEntry_eq hname hpre, Rust.ok_bind, Rust.add,
      if_pos (by omega), Rust.ok_bind, ← List.append_assoc, List.append_assoc (List.replicate _ _),
      ih]
    · simp [slots, datas]
    · exact fun f hf ↦ hnames f (List.mem_cons_of_mem file hf)
    · rw [List.length_append, hpre, length_slot hname, entrySize]
      omega
    · omega

/-- **The image is header, entries, data.** -/
theorem buildLfs1_eq (hnames : NamesFit files)
    (hlen : headerSize + files.length * entrySize + (datas files).length < 2 ^ 64) :
    buildLfs1 files = .ok (lfs1 files) := by
  have hcopy := copyFields [] (List.replicate headerSize 0)
    (List.replicate (files.length * entrySize) 0) (headerFields_fit files.length)
  have hentries := buildEntries_eq [] (i := 0) hnames (length_headerBytes files.length) hlen
  rw [List.append_nil] at hentries
  have hrun : buildLfs1 files = (do
      let blob ← (headerFields files.length).foldlM (fun blob f ↦ Rust.copyFromSlice blob
        (([] : List U8).length + f.1) (([] : List U8).length + (f.1 + f.2.length)) f.2)
          ([] ++ (List.replicate headerSize 0 ++ List.replicate (files.length * entrySize) 0))
      buildEntries blob 0 (headerSize + files.length * entrySize) files) := by
    rw [buildLfs1, List.replicate_add]
    simp only [headerFields, List.foldlM_cons, List.foldlM_nil, bind_assoc, pure_bind, length_toLE,
      List.length_nil, List.length_cons, Nat.zero_add, Nat.reduceAdd, List.nil_append]
  rw [hrun, hcopy, Rust.ok_bind]
  exact hentries

end Build

end LeonOS
