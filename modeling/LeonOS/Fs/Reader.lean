import LeonOS.Kernel.State

/-!
# Reading any bytes

The reader of the ramdisk, on bytes that nobody has checked.

* It does not panic, and a record that it returns is one of the table: its name is in its slot and
  its data in the image (`entryAt_record`).
* `header`, `list`, `open` and `entry` agree: each of them sees the entries up to the first that is
  an error (`Scan`), and that error (`readsAny`).
-/

set_option autoImplicit false

namespace LeonOS

open Bytes

namespace Fs

variable {image : List U8} {idx i n : ℕ} {r : FileRecord} {recs : List FileRecord}
  {stop : Option FsError}

/-! ## No panics -/

theorem header_ne_panic (image : List U8) : header image ≠ .error .panic := by
  rw [header]
  by_cases hlen : image.length < headerSize
  · rw [Rust.failIf_of hlen]
    exact fun h ↦ by cases h
  have h12 : 12 ≤ image.length := not_lt.mp hlen
  rw [Rust.failIf_of_not hlen, Rust.range_of_le (by omega) (by omega),
    Rust.range_of_le (by omega) (by omega), Rust.range_of_le (by omega) (by omega)]
  simp [Rust.bind_eq_panic, pure, Except.pure, -bind_pure_comp]

theorem readSlot_ne_panic (image e : List U8) : readSlot image e ≠ .error .panic := by
  simp [readSlot, Rust.bind_eq_panic, pure, Except.pure, -bind_pure_comp]

theorem entryAt_ne_panic (hlen : image.length < 2 ^ 64) (idx : ℕ) :
    entryAt image idx ≠ .error .panic := by
  rcases Nat.lt_or_ge image.length (headerSize + idx * entrySize + entrySize) with hi | hi
  · rw [entryAt_of_lt hi]
    exact fun h ↦ nomatch h
  · rw [entryAt_of_le hi hlen]
    exact readSlot_ne_panic _ _

theorem entry_ne_panic (hlen : image.length < 2 ^ 64) (idx : ℕ) :
    entry image idx ≠ .error .panic := by
  simp [entry, Rust.bind_eq_panic, header_ne_panic, entryAt_ne_panic hlen]

/-! ## Records -/

/-- **A record of the table**: it is the entry with this index, and borrows from the image. -/
structure RecordOf (image : List U8) (idx : ℕ) (r : FileRecord) : Prop where
  /-- The slot is in the image. -/
  slot_le : headerSize + idx * entrySize + entrySize ≤ image.length
  /-- The name is not empty. -/
  name_pos : 1 ≤ (Rust.asBytes r.name).length
  /-- The name fits in the slot. -/
  name_le : (Rust.asBytes r.name).length ≤ nameCap
  /-- It is what the slot has in its place. -/
  name_eq : Rust.asBytes r.name =
    slice image (headerSize + idx * entrySize + 16) (Rust.asBytes r.name).length
  /-- The data ends in the image. -/
  data_le : r.dataPtr + r.data.length ≤ image.length
  /-- It is what the image has there. -/
  data_eq : r.data = slice image r.dataPtr r.data.length

theorem entryAt_record (hlen : image.length < 2 ^ 64) (h : entryAt image idx = .ok r) :
    RecordOf image idx r := by
  obtain ⟨hdata, hslice⟩ := entryAt_data hlen h
  rcases Nat.lt_or_ge image.length (headerSize + idx * entrySize + entrySize) with hi | hi
  · rw [entryAt_of_lt hi] at h
    exact nomatch h
  rw [entryAt_of_le hi hlen, readSlot] at h
  obtain ⟨_, hname, h⟩ := Rust.bind_eq_ok.mp h
  obtain ⟨name, hutf, h⟩ := Rust.bind_eq_ok.mp h
  obtain ⟨_, -, h⟩ := Rust.bind_eq_ok.mp h
  obtain rfl := Except.ok.inj h
  rw [Rust.failIf_eq_ok, not_or, not_lt] at hname
  generalize ofLE (slice (slice image (headerSize + idx * entrySize) entrySize) 0 2) = n
    at hname hutf
  have hfit : 16 + n ≤ entrySize := by
    rw [nameCap] at hname
    rw [entrySize]
    omega
  have hbytes := Rust.asBytes_of_fromUtf8 (Rust.okOr_eq_ok.mp hutf)
  rw [slice_slice hfit] at hbytes
  have hcount : (Rust.asBytes name).length = n := by
    rw [hbytes, length_slice_of_le (by omega)]
  refine ⟨hi, ?_, ?_, ?_, hdata, hslice⟩
  · exact hcount ▸ Nat.pos_of_ne_zero hname.1
  · exact hcount ▸ hname.2
  · exact hcount ▸ hbytes

/-! ## What the loops meet -/

/-- Every loop meets something: it is the same for all of them. -/
theorem exists_scan (hlen : image.length < 2 ^ 64) (i n : ℕ) :
    ∃ recs stop, Scan image i n recs stop := by
  induction n generalizing i with
  | zero => exact ⟨[], none, .done i⟩
  | succ n ih =>
    cases hentry : entryAt image i with
    | ok r =>
      obtain ⟨recs, stop, hrest⟩ := ih (i + 1)
      exact ⟨r :: recs, stop, .next hentry hrest⟩
    | error e =>
      cases e with
      | err e => exact ⟨[], some e, .stop hentry⟩
      | panic => exact absurd hentry (entryAt_ne_panic hlen i)

theorem Scan.entryAt_eq (h : Scan image i n recs stop) {k : ℕ} (hk : recs[k]? = some r) :
    entryAt image (i + k) = .ok r := by
  induction h generalizing k with
  | done i => exact absurd hk (by simp)
  | stop he => exact absurd hk (by simp)
  | next hr _ ih =>
    cases k with
    | zero =>
      obtain rfl := Option.some_inj.mp hk
      exact hr
    | succ k =>
      have hrest := ih hk
      rwa [Nat.add_assoc, Nat.add_comm 1] at hrest

/-- Where a scan ends. -/
theorem Scan.end_eq (h : Scan image i n recs stop) :
    stop.elim (recs.length = n) fun e ↦
      recs.length < n ∧ entryAt image (i + recs.length) = .error (.err e) := by
  induction h with
  | done i => rfl
  | stop he => exact ⟨Nat.succ_pos _, he⟩
  | @next i n r recs stop hr _ ih =>
    cases stop with
    | none => exact congrArg (· + 1) ih
    | some e =>
      obtain ⟨hlt, he⟩ := ih
      rw [Nat.add_assoc, Nat.add_comm 1] at he
      exact ⟨Nat.succ_lt_succ hlt, he⟩

/-! ## The readers agree -/

/-- The entries up to the first that is an error, and that error if there is one. -/
structure Scanned (image : List U8) (n : ℕ) (recs : List FileRecord) (stop : Option FsError) :
    Prop where
  /-- The records are the entries, in order. -/
  entries : ∀ k r, recs[k]? = some r → entry image k = .ok r
  /-- The entry behind them is the error, or there is none. -/
  ends : stop.elim (recs.length = n) fun e ↦
    recs.length < n ∧ entry image recs.length = .error (.err e)

/-- What is asked of a reader that is given any bytes. -/
structure ReadsAny (image : List U8) : Prop where
  /-- `header` does not panic. -/
  header_ne_panic : header image ≠ .error .panic
  /-- `list` does not panic. -/
  list_ne_panic : ∀ {σ : Type} (f : σ → FileRecord → σ) (s s' : σ),
    list image f s ≠ .error .panic s'
  /-- `open` does not panic. -/
  open_ne_panic : ∀ wanted, Fs.open image wanted ≠ .error .panic
  /-- `entry` does not panic. -/
  entry_ne_panic : ∀ idx, entry image idx ≠ .error .panic
  /-- What `entry` returns is a record of the table. -/
  entry_record : ∀ idx r, entry image idx = .ok r → RecordOf image idx r
  /-- So is what `open` returns. -/
  open_record : ∀ wanted r, Fs.open image wanted = .ok r → ∃ idx, RecordOf image idx r
  /-- Without a header the others fail as it does. -/
  header_error : ∀ e, header image = .error e →
    (∀ {σ : Type} (f : σ → FileRecord → σ) (s : σ), list image f s = .error e s) ∧
      (∀ wanted, Fs.open image wanted = .error e) ∧ ∀ idx, entry image idx = .error e
  /-- With a header the others see the same entries. -/
  header_ok : ∀ hdr, header image = .ok hdr → ∃ recs stop, Scanned image hdr.fileCount recs stop ∧
    (∀ {σ : Type} (f : σ → FileRecord → σ) (s : σ), list image f s =
      stop.elim (.ok () (recs.foldl f s)) fun e ↦ .error (.err e) (recs.foldl f s)) ∧
    ∀ wanted, Fs.open image wanted =
      Rust.okOr (recs.find? (·.name = wanted)) (stop.getD .notFound)

theorem Scan.scanned {hdr : FsHeader} (hhdr : header image = .ok hdr)
    (h : Scan image 0 hdr.fileCount recs stop) : Scanned image hdr.fileCount recs stop := by
  have hle : recs.length ≤ hdr.fileCount := by
    have hend := h.end_eq
    cases stop with
    | none => exact hend.le
    | some e => exact hend.1.le
  refine ⟨fun k r hk ↦ ?_, ?_⟩
  · have hentry := h.entryAt_eq hk
    have hlt := (List.getElem?_eq_some_iff.mp hk).1
    rw [Nat.zero_add] at hentry
    rw [entry_of_lt hhdr (hlt.trans_le hle), hentry]
  · have hend := h.end_eq
    cases stop with
    | none => exact hend
    | some e =>
      obtain ⟨hlt, he⟩ := hend
      rw [Nat.zero_add] at he
      exact ⟨hlt, (entry_of_lt hhdr hlt).trans he⟩

theorem list_of_header {hdr : FsHeader} (hhdr : header image = .ok hdr) {σ : Type}
    (f : σ → FileRecord → σ) (s : σ) : list image f s = listFrom image f hdr.fileCount 0 s := by
  rw [list, hhdr]
  rfl

theorem list_of_error {e : Fault FsError} (hhdr : header image = .error e) {σ : Type}
    (f : σ → FileRecord → σ) (s : σ) : list image f s = .error e s := by
  rw [list, hhdr]
  rfl

theorem open_of_error {e : Fault FsError} (hhdr : header image = .error e) (wanted : String) :
    Fs.open image wanted = .error e := by
  rw [Fs.open, hhdr]
  rfl

theorem list_ne_panic (hlen : image.length < 2 ^ 64) {σ : Type} (f : σ → FileRecord → σ) (s s' : σ) :
    list image f s ≠ .error .panic s' := by
  cases hhdr : header image with
  | error e =>
    rw [list_of_error hhdr]
    rintro ⟨⟩
    exact header_ne_panic image hhdr
  | ok hdr =>
    obtain ⟨recs, stop, hscan⟩ := exists_scan hlen 0 hdr.fileCount
    rw [list_of_header hhdr, hscan.listFrom_eq]
    cases stop <;> exact fun h ↦ nomatch h

theorem open_ne_panic (hlen : image.length < 2 ^ 64) (wanted : String) :
    Fs.open image wanted ≠ .error .panic := by
  cases hhdr : header image with
  | error e =>
    rw [open_of_error hhdr]
    rintro ⟨⟩
    exact header_ne_panic image hhdr
  | ok hdr =>
    obtain ⟨recs, stop, hscan⟩ := exists_scan hlen 0 hdr.fileCount
    rw [Fs.open, hhdr, Rust.ok_bind, hscan.openFrom_eq]
    exact Rust.okOr_ne_panic

/-- **The reader, on any bytes**. -/
theorem readsAny (image : Image) : ReadsAny image.bytes := by
  have hlen : image.bytes.length < 2 ^ 64 := image.length_lt.trans (by decide)
  have hentry : ∀ idx r, entry image.bytes idx = .ok r → RecordOf image.bytes idx r :=
    fun idx r h ↦ entryAt_record hlen (entryAt_of_entry h)
  refine ⟨Fs.header_ne_panic _, Fs.list_ne_panic hlen, Fs.open_ne_panic hlen,
    Fs.entry_ne_panic hlen, hentry, fun wanted r h ↦ ?_,
    fun e he ↦ ⟨list_of_error he, open_of_error he, fun idx ↦ ?_⟩, fun hdr hhdr ↦ ?_⟩
  · obtain ⟨idx, hidx, -⟩ := open_eq_ok h
    exact ⟨idx, hentry idx r hidx⟩
  · rw [entry, he]
    rfl
  · obtain ⟨recs, stop, hscan⟩ := exists_scan hlen 0 hdr.fileCount
    refine ⟨recs, stop, hscan.scanned hhdr, fun f s ↦ ?_, fun wanted ↦ ?_⟩
    · rw [list_of_header hhdr, hscan.listFrom_eq]
    · rw [Fs.open, hhdr, Rust.ok_bind, hscan.openFrom_eq]

end Fs

end LeonOS
