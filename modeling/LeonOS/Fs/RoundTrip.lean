import LeonOS.Fs.Build

/-!
# What the builder writes, the reader reads

The image of some files (`Build.lfs1`) read back with `Fs.header`, `Fs.entry`, `Fs.list` and
`Fs.open`.  The two sides have constants of their own, which agree.

An entry is looked up by splitting the files at it: the bytes before its entry are those of the
files before it, and so are those before its data (`entryAt_lfs1`).  Everything else is about the
list of records that the entries give (`records`).
-/

set_option autoImplicit false

namespace LeonOS

open Bytes

/-- What a record says about its file. -/
def FileRecord.contents (r : FileRecord) : BuildFile := ⟨r.name, r.mode, r.data⟩

namespace Build

variable {files pre post : List BuildFile} {file : BuildFile} {cursor i : ℕ}

/-- Files an image can hold. -/
structure Fits (files : List BuildFile) : Prop where
  /-- The number of files is a `u16`. -/
  count : files.length < 65536
  /-- Every file has a name. -/
  named : ∀ file ∈ files, Rust.asBytes file.name ≠ []
  /-- A name fits in its entry. -/
  names : NamesFit files
  /-- Every offset is a `u32`. -/
  size : headerSize + files.length * entrySize + (datas files).length < 2 ^ 32

/-- The record of a file whose data is at `cursor`. -/
def recordOf (file : BuildFile) (cursor : ℕ) : FileRecord where
  name := file.name
  mode := file.mode
  dataPtr := cursor
  data := file.data

/-- The records of some files whose data begins at `cursor`. -/
def records : ℕ → List BuildFile → List FileRecord
  | _, [] => []
  | cursor, file :: files => recordOf file cursor :: records (cursor + file.data.length) files

/-! ## The closed form, split at a file -/

theorem slots_append : slots cursor (pre ++ post) =
    slots cursor pre ++ slots (cursor + (datas pre).length) post := by
  induction pre generalizing cursor with
  | nil => rfl
  | cons file pre ih =>
    rw [List.cons_append, slots, ih, slots, List.append_assoc, Nat.add_assoc]
    simp [datas]

theorem datas_append : datas (pre ++ post) = datas pre ++ datas post := List.flatMap_append

theorem records_append : records cursor (pre ++ post) =
    records cursor pre ++ records (cursor + (datas pre).length) post := by
  induction pre generalizing cursor with
  | nil => rfl
  | cons file pre ih =>
    rw [List.cons_append, records, ih, records, List.cons_append, Nat.add_assoc]
    simp [datas]

theorem length_lfs1 (h : NamesFit files) :
    (lfs1 files).length = headerSize + files.length * entrySize + (datas files).length := by
  rw [lfs1, List.length_append, List.length_append, length_headerBytes, length_slots _ h, headerSize,
    entrySize, Nat.add_assoc]

/-- The bytes of an entry. -/
theorem slice_slot (h : NamesFit (pre ++ file :: post)) :
    slice (lfs1 (pre ++ file :: post)) (headerSize + pre.length * entrySize) entrySize =
      slot file (headerSize + (pre ++ file :: post).length * entrySize + (datas pre).length) := by
  have hpre : NamesFit pre := fun f hf ↦ h f (List.mem_append_left _ hf)
  rw [lfs1, slots_append, slots, List.append_assoc, List.append_assoc, ← List.append_assoc]
  refine slice_middle _ ?_ (length_slot (h file (by simp))).symm
  rw [List.length_append, length_headerBytes, length_slots _ hpre]
  rfl

/-- The bytes of a file. -/
theorem slice_data (h : NamesFit (pre ++ file :: post)) :
    slice (lfs1 (pre ++ file :: post))
      (headerSize + (pre ++ file :: post).length * entrySize + (datas pre).length)
        file.data.length = file.data := by
  have hdatas : datas (pre ++ file :: post) = datas pre ++ (file.data ++ datas post) := datas_append
  rw [lfs1, hdatas, ← List.append_assoc, ← List.append_assoc]
  have hslots := length_slots (headerSize + (pre ++ file :: post).length * entrySize) h
  generalize (pre ++ file :: post).length = n at hslots ⊢
  refine slice_middle _ ?_ rfl
  rw [List.length_append, List.length_append, length_headerBytes, hslots]
  rfl

/-- A field of an entry. -/
theorem slice_slotFields (cursor : ℕ) (hname : (Rust.asBytes file.name).length ≤ nameCap)
    {f : ℕ × List U8} (hf : f ∈ slotFields file cursor) :
    slice (slot file cursor) f.1 f.2.length = f.2 :=
  slice_overwriteAll (slotFields_fit cursor hname) slotFields_pairwise hf

/-- A field of the header. -/
theorem slice_headerFields (files : List BuildFile) {f : ℕ × List U8}
    (hf : f ∈ headerFields files.length) :
    slice (lfs1 files) f.1 f.2.length = f.2 := by
  rw [lfs1, slice_append_left]
  · exact slice_overwriteAll (headerFields_fit _) (headerFields_pairwise _) hf
  · rw [length_headerBytes]
    exact headerFields_fit _ f hf

/-! ## Reading -/

theorem header_lfs1 (h : Fits files) : Fs.header (lfs1 files) = .ok ⟨files.length⟩ := by
  rw [Fs.header_eq_ok]
  refine ⟨slice_headerFields files (f := (0, [0x4C, 0x46, 0x53, 0x31])) (by simp [headerFields]),
    ?_, ?_, ?_⟩
  · have hv := slice_headerFields files (f := (4, toLE 2 1)) (by simp [headerFields])
    rw [length_toLE] at hv
    rw [hv]
    rfl
  · have hn := slice_headerFields files (f := (6, toLE 2 files.length))
      (by simp [headerFields])
    rw [length_toLE] at hn
    rw [hn, ofLE_toLE_of_lt h.count]
  · rw [length_lfs1 h.names]
    exact Nat.le_add_right _ _

/-- **An entry is read back.** -/
theorem entryAt_lfs1 (h : Fits (pre ++ file :: post)) :
    Fs.entryAt (lfs1 (pre ++ file :: post)) pre.length = .ok (recordOf file
      (headerSize + (pre ++ file :: post).length * entrySize + (datas pre).length)) := by
  have hname : (Rust.asBytes file.name).length ≤ 48 := h.names file (by simp)
  have hpos := List.length_pos_iff.mpr (h.named file (by simp))
  have hsize := h.size
  have hlen := length_lfs1 h.names
  have hcount : (pre ++ file :: post).length = pre.length + (post.length + 1) := by simp
  have hdatas : (datas (pre ++ file :: post)).length =
      (datas pre).length + (file.data.length + (datas post).length) := by simp [datas]
  have hle : Fs.headerSize + pre.length * Fs.entrySize + Fs.entrySize ≤
      (lfs1 (pre ++ file :: post)).length := by
    rw [hlen, hcount]
    simp only [Fs.headerSize, Fs.entrySize, headerSize, entrySize]
    omega
  have hend : headerSize + (pre ++ file :: post).length * entrySize + (datas pre).length +
      file.data.length ≤ (lfs1 (pre ++ file :: post)).length := by
    rw [hlen, hdatas]
    omega
  have hdata := slice_data h.names
  rw [Fs.entryAt_of_le hle (by omega), show Fs.headerSize = headerSize from rfl,
    show Fs.entrySize = entrySize from rfl, slice_slot h.names]
  generalize headerSize + (pre ++ file :: post).length * entrySize + (datas pre).length = cursor
    at hdata hend ⊢
  have h0 := slice_slotFields cursor hname
    (f := (0, toLE 2 (Rust.asBytes file.name).length)) (by simp [slotFields])
  have h4 := slice_slotFields cursor hname
    (f := (4, toLE 4 cursor)) (by simp [slotFields])
  have h8 := slice_slotFields cursor hname
    (f := (8, toLE 4 file.data.length)) (by simp [slotFields])
  have h12 := slice_slotFields cursor hname
    (f := (12, toLE 2 file.mode.toNat)) (by simp [slotFields])
  have h16 := slice_slotFields cursor hname
    (f := (16, Rust.asBytes file.name)) (by simp [slotFields])
  rw [length_toLE] at h0 h4 h8 h12
  rw [Fs.readSlot, h0, h4, h8, h12, ofLE_toLE_of_lt (by omega), ofLE_toLE_of_lt (by omega),
    ofLE_toLE_of_lt (by omega), ofLE_toLE_of_lt file.mode.isLt, h16, Rust.fromUtf8_asBytes,
    Rust.failIf_of_not (by rw [Fs.nameCap]; omega), Rust.failIf_of_not (by omega), hdata,
    BitVec.ofNat_toNat, BitVec.setWidth_eq]
  rfl

/-! ## The records of an image -/

theorem length_records (cursor : ℕ) (files : List BuildFile) :
    (records cursor files).length = files.length := by
  induction files generalizing cursor with
  | nil => rfl
  | cons file files ih => rw [records, List.length_cons, ih, List.length_cons]

theorem map_contents_records (cursor : ℕ) (files : List BuildFile) :
    (records cursor files).map FileRecord.contents = files := by
  induction files generalizing cursor with
  | nil => rfl
  | cons file files ih =>
    rw [records, List.map_cons, ih]
    rfl

theorem getElem?_records (hi : i < files.length) : (records cursor files)[i]? =
    some (recordOf files[i] (cursor + (datas (files.take i)).length)) := by
  have hsplit : files = files.take i ++ files[i] :: files.drop (i + 1) := by
    rw [List.getElem_cons_drop, List.take_append_drop]
  have hlen : (records cursor (files.take i)).length = i := by
    rw [length_records, List.length_take, min_eq_left hi.le]
  conv_lhs => rw [hsplit, records_append]
  rw [List.getElem?_append_right hlen.le, hlen, Nat.sub_self]
  rfl

/-- **Every entry of an image is the record of its file.** -/
theorem entryAt_records (h : Fits files) {r : FileRecord}
    (hr : (records (headerSize + files.length * entrySize) files)[i]? = some r) :
    Fs.entryAt (lfs1 files) i = .ok r := by
  have hi : i < files.length := by
    rw [← length_records (headerSize + files.length * entrySize) files]
    exact (List.getElem?_eq_some_iff.mp hr).1
  rw [getElem?_records hi] at hr
  obtain rfl := Option.some_inj.mp hr
  have hsplit : files = files.take i ++ files[i] :: files.drop (i + 1) := by
    rw [List.getElem_cons_drop, List.take_append_drop]
  have hentry := entryAt_lfs1 (hsplit ▸ h)
  rw [← hsplit, List.length_take, min_eq_left hi.le] at hentry
  exact hentry

/-- The entries as a loop from the first one meets them. -/
theorem entryAt_zero_add (h : Fits files) : ∀ k r,
    (records (headerSize + files.length * entrySize) files)[k]? = some r →
      Fs.entryAt (lfs1 files) (0 + k) = .ok r := by
  intro k r hr
  rw [Nat.zero_add]
  exact entryAt_records h hr

theorem entry_lfs1 (h : Fits files) (hi : i < files.length) :
    (Fs.entry (lfs1 files) i).map FileRecord.contents = .ok files[i] := by
  rw [Fs.entry_of_lt (header_lfs1 h) hi, entryAt_records h (getElem?_records hi)]
  rfl

theorem list_lfs1 (h : Fits files) {σ : Type} (f : σ → FileRecord → σ) (s : σ) :
    Fs.list (lfs1 files) f s =
      .ok () ((records (headerSize + files.length * entrySize) files).foldl f s) := by
  have hloop := (Fs.Scan.of_records (entryAt_zero_add h)).listFrom_eq f s
  rw [length_records] at hloop
  rw [Fs.list, header_lfs1 h]
  exact hloop

theorem open_lfs1 (h : Fits files) (wanted : String) :
    (Fs.open (lfs1 files) wanted).map FileRecord.contents =
      Rust.okOr (files.find? (·.name = wanted)) .notFound := by
  have hloop := (Fs.Scan.of_records (entryAt_zero_add h)).openFrom_eq wanted
  rw [length_records] at hloop
  have hfind : files.find? (·.name = wanted) =
      ((records (headerSize + files.length * entrySize) files).find? (·.name = wanted)).map
        FileRecord.contents := by
    conv_lhs =>
      rw [← map_contents_records (headerSize + files.length * entrySize) files, List.find?_map]
    rfl
  rw [Fs.open, header_lfs1 h, Rust.ok_bind, hloop, hfind]
  cases (records (headerSize + files.length * entrySize) files).find? (·.name = wanted) <;> rfl

theorem exists_open_lfs1 (h : Fits files) {wanted : String}
    (hfile : files.find? (·.name = wanted) = some file) :
    ∃ rec, Fs.open (lfs1 files) wanted = .ok rec ∧ rec.data = file.data := by
  have hopen := open_lfs1 h wanted
  rw [hfile] at hopen
  cases hrun : Fs.open (lfs1 files) wanted with
  | error e =>
    rw [hrun] at hopen
    exact nomatch hopen
  | ok rec =>
    rw [hrun] at hopen
    exact ⟨rec, rfl, congrArg BuildFile.data (Except.ok.inj hopen)⟩

theorem length_lfs1_lt (h : Fits files) : (lfs1 files).length < 2 ^ 63 := by
  have hsize := h.size
  rw [length_lfs1 h.names]
  omega

end Build

/-- **The round trip.**  Of every list of files that an image can hold, the builder makes an image,
and the reader finds in it exactly these files: their number, each one at its index and nothing
behind them, all of them in order, and by a name the first that has it. -/
theorem buildLfs1_roundTrip (files : List BuildFile) (hcount : files.length < 65536)
    (hnamed : ∀ file ∈ files, Rust.asBytes file.name ≠ [])
    (hnames : ∀ file ∈ files, (Rust.asBytes file.name).length ≤ 48)
    (hsize : 12 + 64 * files.length + (files.map (·.data.length)).sum < 2 ^ 32) :
    ∃ image, Build.buildLfs1 files = .ok image ∧
      Fs.header image = .ok ⟨files.length⟩ ∧
      (∀ i (hi : i < files.length),
        (Fs.entry image i).map FileRecord.contents = .ok files[i]) ∧
      (∀ i, files.length ≤ i → Fs.entry image i = Rust.fail .notFound) ∧
      (∃ recs : List FileRecord, recs.map FileRecord.contents = files ∧
        ∀ {σ : Type} (f : σ → FileRecord → σ) (s : σ),
          Fs.list image f s = .ok () (recs.foldl f s)) ∧
      ∀ wanted, (Fs.open image wanted).map FileRecord.contents =
        Rust.okOr (files.find? (·.name = wanted)) .notFound := by
  have hdatas : (Build.datas files).length = (files.map (·.data.length)).sum :=
    List.length_flatMap
  have hfits : Build.Fits files := by
    refine ⟨hcount, hnamed, hnames, ?_⟩
    rw [hdatas, Build.headerSize, Build.entrySize, Nat.mul_comm]
    exact hsize
  refine ⟨Build.lfs1 files, Build.buildLfs1_eq hnames ?_, Build.header_lfs1 hfits, ?_, ?_, ?_, ?_⟩
  · exact hfits.size.trans (by decide)
  · exact fun i hi ↦ Build.entry_lfs1 hfits hi
  · exact fun i hi ↦ Fs.entry_of_le (Build.header_lfs1 hfits) hi
  · exact ⟨_, Build.map_contents_records _ files, fun f s ↦ Build.list_lfs1 hfits f s⟩
  · exact Build.open_lfs1 hfits

/-- Two files of one name, the first of them empty. -/
def twoFiles : List BuildFile := [⟨"a", 0o644, []⟩, ⟨"a", 0o755, [1, 2, 3]⟩]

theorem buildLfs1_roundTrip_twoFiles : ∃ image, Build.buildLfs1 twoFiles = .ok image ∧
    Fs.header image = .ok ⟨2⟩ ∧
    (Fs.entry image 1).map FileRecord.contents = .ok ⟨"a", 0o755, [1, 2, 3]⟩ ∧
    (Fs.open image "a").map FileRecord.contents = .ok ⟨"a", 0o644, []⟩ := by
  obtain ⟨image, himage, hheader, hentry, -, -, hopen⟩ :=
    buildLfs1_roundTrip twoFiles (by decide) (by decide) (by decide) (by decide)
  exact ⟨image, himage, hheader, hentry 1 (by decide), hopen "a"⟩

end LeonOS
