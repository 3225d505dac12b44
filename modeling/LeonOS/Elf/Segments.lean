import LeonOS.Elf.LoadSafe

/-!
# What the copy loop leaves in memory

The segments are copied one after another, so a byte of `mem` is the one that the last of the
segments with a byte for its address has in the file (`fileByte`), and is zero if there is no such
segment (`loadImage_getElem?`).

When the segments are apart from one another, each is found as it is in the file with zeros behind
(`loadImage_segment`).  The end of the program, `max_vaddr`, is computed with `saturating_add`,
though: where a segment reaches the end of the address space, the last of its bytes go to the area of
the stack (`segmentsLoaded_iff`).
-/

set_option autoImplicit false

namespace LeonOS

open Bytes

/-! ## The byte for an address -/

/-- Does the file part of a segment have a byte for this address? -/
def LoadSegment.Covers (seg : LoadSegment) (a : ℕ) : Prop :=
  seg.vaddr.toNat ≤ a ∧ a < seg.vaddr.toNat + seg.fileSize.toNat

instance (seg : LoadSegment) (a : ℕ) : Decidable (seg.Covers a) :=
  inferInstanceAs (Decidable (_ ∧ _))

/-- The byte of the image that a segment has for an address. -/
def LoadSegment.byteAt (image : List U8) (seg : LoadSegment) (a : ℕ) : Option U8 :=
  image[seg.fileOffset.toNat + (a - seg.vaddr.toNat)]?

/-- The addresses of a segment. -/
def LoadSegment.addrs (seg : LoadSegment) : Set ℕ :=
  Set.Ico seg.vaddr.toNat (seg.vaddr.toNat + seg.memSize.toNat)

namespace Elf

variable {ε : Type} {r : Runner ε} {image mem mem' : List U8} {a k minVaddr : ℕ}
  {seg : LoadSegment} {segments : List LoadSegment} {l : Layout}

/-- The last segment with a byte for an address. -/
def lastCover (segments : List LoadSegment) (a : ℕ) : Option LoadSegment :=
  segments.reverse.find? fun seg ↦ decide (seg.Covers a)

/-- The byte for an address: that of the last segment with one, or else zero. -/
def fileByte (image : List U8) (segments : List LoadSegment) (a : ℕ) : Option U8 :=
  (lastCover segments a).elim (some 0) fun seg ↦ seg.byteAt image a

theorem lastCover_cons (seg : LoadSegment) (segments : List LoadSegment) (a : ℕ) :
    lastCover (seg :: segments) a =
      (lastCover segments a).or (if seg.Covers a then some seg else none) := by
  simp [lastCover, List.find?_append]

theorem lastCover_eq_some (h : lastCover segments a = some seg) : seg ∈ segments ∧ seg.Covers a :=
  ⟨by simpa using List.mem_of_find?_eq_some h, by simpa using List.find?_some h⟩

theorem lastCover_eq_none : lastCover segments a = none ↔ ∀ seg ∈ segments, ¬seg.Covers a := by
  simp [lastCover]

/-! ## The copy loop -/

/-- What the checks and the slices of one turn ask for. -/
structure Copied (image : List U8) (minVaddr memLen : ℕ) (seg : LoadSegment) : Prop where
  /-- The segment does not begin below the lowest address. -/
  min_le : minVaddr ≤ seg.vaddr.toNat
  /-- Its memory ends inside `mem`. -/
  mem_le : seg.vaddr.toNat - minVaddr + seg.memSize.toNat ≤ memLen
  /-- So does its file part. -/
  file_le : seg.vaddr.toNat - minVaddr + seg.fileSize.toNat ≤ memLen
  /-- Its bytes are in the file. -/
  src_le : seg.fileOffset.toNat + seg.fileSize.toNat ≤ image.length

/-- **One turn of the loop** is one write. -/
theorem copySegments_cons_ok (himage : image.length < 2 ^ 63) (hmem : mem.length < 2 ^ 63)
    (h : copySegments r image minVaddr (seg :: segments) mem = .ok mem') :
    Copied image minVaddr mem.length seg ∧
      copySegments r image minVaddr segments (overwrite mem (seg.vaddr.toNat - minVaddr)
        (slice image seg.fileOffset.toNat seg.fileSize.toNat)) = .ok mem' := by
  obtain ⟨⟨dstStart, dstLast, src⟩, hcopy, h⟩ := Rust.bind_eq_ok.mp h
  obtain ⟨mem₁, hwrite, hrest⟩ := Rust.bind_eq_ok.mp h
  obtain ⟨_, hsub, hcopy⟩ := Rust.bind_eq_ok.mp hcopy
  obtain ⟨_, hdst, hcopy⟩ := Rust.bind_eq_ok.mp hcopy
  obtain ⟨_, hsrc, hcopy⟩ := Rust.bind_eq_ok.mp hcopy
  obtain ⟨_, hadd, hcopy⟩ := Rust.bind_eq_ok.mp hcopy
  obtain ⟨_, hrange, hcopy⟩ := Rust.bind_eq_ok.mp hcopy
  obtain ⟨rfl, hpair⟩ := Prod.mk.inj (Except.ok.inj hcopy)
  obtain ⟨rfl, rfl⟩ := Prod.mk.inj hpair
  obtain ⟨hmin, rfl⟩ := Rust.sub_eq_ok.mp hsub
  obtain ⟨-, rfl⟩ := Rust.add_eq_ok.mp hadd
  rw [Rust.failIf_eq_ok, saturatingAdd_gt (by omega), not_lt] at hdst hsrc
  have hend : Rust.saturatingAdd seg.fileOffset.toNat seg.fileSize.toNat =
      seg.fileOffset.toNat + seg.fileSize.toNat := by
    rw [Rust.saturatingAdd]
    omega
  rw [hend, Rust.range_eq_ok, Nat.add_sub_cancel_left] at hrange
  obtain ⟨-, rfl⟩ := hrange
  obtain ⟨⟨-, hfile, -⟩, rfl⟩ := Rust.copyFromSlice_eq_ok.mp hwrite
  exact ⟨⟨hmin, hdst, hfile, hsrc⟩, hrest⟩

theorem getElem?_copy (h : Copied image minVaddr mem.length seg) (k : ℕ) :
    (overwrite mem (seg.vaddr.toNat - minVaddr)
        (slice image seg.fileOffset.toNat seg.fileSize.toNat))[k]? =
      if seg.Covers (minVaddr + k) then seg.byteAt image (minVaddr + k) else mem[k]? := by
  obtain ⟨hmin, -, hfile, hsrc⟩ := h
  have hlen := length_slice_of_le hsrc
  have hcovers : seg.Covers (minVaddr + k) ↔ seg.vaddr.toNat - minVaddr ≤ k ∧
      k < seg.vaddr.toNat - minVaddr + seg.fileSize.toNat := by
    rw [LoadSegment.Covers]
    omega
  rw [getElem?_overwrite (by omega), hlen]
  simp only [hcovers]
  split
  · rw [getElem?_slice, if_pos (by omega), LoadSegment.byteAt]
    congr 1
    omega
  · rfl

/-- **The copy loop**: what it has asked for, and the bytes afterwards. -/
theorem copySegments_ok (himage : image.length < 2 ^ 63) (hmem : mem.length < 2 ^ 63)
    (h : copySegments r image minVaddr segments mem = .ok mem') :
    mem'.length = mem.length ∧ (∀ seg ∈ segments, Copied image minVaddr mem.length seg) ∧
      ∀ k, mem'[k]? = (lastCover segments (minVaddr + k)).elim mem[k]?
        fun seg ↦ seg.byteAt image (minVaddr + k) := by
  induction segments generalizing mem with
  | nil =>
    obtain rfl := Except.ok.inj h
    exact ⟨rfl, nofun, fun _ ↦ rfl⟩
  | cons seg segments ih =>
    obtain ⟨hcopied, hrest⟩ := copySegments_cons_ok himage hmem h
    have hlen : (overwrite mem (seg.vaddr.toNat - minVaddr)
        (slice image seg.fileOffset.toNat seg.fileSize.toNat)).length = mem.length := by
      have hfile := hcopied.file_le
      rw [length_overwrite (by rw [length_slice_of_le hcopied.src_le]; exact hfile)]
    obtain ⟨hlen', hall, hbytes⟩ := ih (by rwa [hlen]) hrest
    rw [hlen] at hlen' hall
    refine ⟨hlen', List.forall_mem_cons.mpr ⟨hcopied, hall⟩, fun k ↦ ?_⟩
    rw [hbytes, lastCover_cons, getElem?_copy hcopied]
    cases lastCover segments (minVaddr + k) with
    | some seg' => rfl
    | none => by_cases hc : seg.Covers (minVaddr + k) <;> simp [hc]

/-! ## The layout -/

/-- `mem_len`. -/
def Layout.memLen (r : Runner ε) (l : Layout) : ℕ := l.totalLen - r.stackSize

theorem addressRange_top (segments : List LoadSegment) (range : ℕ × ℕ) (hrange : range.2 < 2 ^ 64) :
    let top := (segments.foldl (fun range seg ↦ (min range.1 seg.vaddr.toNat,
      max range.2 (Rust.saturatingAdd seg.vaddr.toNat seg.memSize.toNat))) range).2
    range.2 ≤ top ∧ top < 2 ^ 64 ∧
      ∀ seg ∈ segments, Rust.saturatingAdd seg.vaddr.toNat seg.memSize.toNat ≤ top := by
  induction segments generalizing range with
  | nil => exact ⟨le_rfl, hrange, nofun⟩
  | cons seg segments ih =>
    have hsat : Rust.saturatingAdd seg.vaddr.toNat seg.memSize.toNat < 2 ^ 64 := by
      rw [Rust.saturatingAdd]
      omega
    obtain ⟨hle, hlt, hsegs⟩ := ih (min range.1 seg.vaddr.toNat,
      max range.2 (Rust.saturatingAdd seg.vaddr.toNat seg.memSize.toNat)) (max_lt hrange hsat)
    exact ⟨(le_max_left _ _).trans hle, hlt,
      List.forall_mem_cons.mpr ⟨(le_max_right _ _).trans hle, hsegs⟩⟩

/-- `mem_len` ends where the highest of the segments does, or the address space. -/
theorem layout_memLen {image : List U8} (h : layout r image = .ok l) :
    l.totalLen = l.memLen r + r.stackSize ∧ l.minVaddr + l.memLen r < 2 ^ 64 ∧
      ∀ seg ∈ l.elf.segments, Rust.saturatingAdd seg.vaddr.toNat seg.memSize.toNat ≤
        l.minVaddr + l.memLen r := by
  obtain ⟨elf, -, h⟩ := Rust.bind_eq_ok.mp h
  obtain ⟨_, -, h⟩ := Rust.bind_eq_ok.mp h
  obtain ⟨_, -, h⟩ := Rust.bind_eq_ok.mp h
  obtain ⟨_, hne, h⟩ := Rust.bind_eq_ok.mp h
  obtain ⟨_, -, h⟩ := Rust.bind_eq_ok.mp h
  obtain ⟨totalLen, htotal, h⟩ := Rust.bind_eq_ok.mp h
  obtain rfl := Except.ok.inj h
  obtain ⟨-, rfl⟩ := Rust.checkedAdd_eq_some.mp (Rust.okOr_eq_ok.mp htotal)
  obtain ⟨-, hlt, hsegs⟩ := addressRange_top elf.segments (2 ^ 64 - 1, 0) (by decide)
  rw [Rust.failIf_eq_ok, not_le] at hne
  rw [Layout.memLen]
  dsimp only at hne ⊢
  rw [Nat.add_sub_cancel, Nat.add_sub_cancel' hne.le]
  exact ⟨rfl, hlt, hsegs⟩

theorem loadImage_ok (h : loadImage r image = .ok (l, mem)) : layout r image = .ok l ∧
    copySegments r image l.minVaddr l.elf.segments (List.replicate l.totalLen 0) = .ok mem := by
  obtain ⟨l', hl, h⟩ := Rust.bind_eq_ok.mp h
  obtain ⟨mem', hcopy, h⟩ := Rust.bind_eq_ok.mp h
  obtain ⟨rfl, rfl⟩ := Prod.mk.inj (Except.ok.inj h)
  exact ⟨hl, hcopy⟩

/-- **Memory before the initial stack**: every byte is the one that the file has for it. -/
theorem loadImage_getElem? (himage : image.length < 2 ^ 63) (h : loadImage r image = .ok (l, mem)) :
    mem.length = l.totalLen ∧
      (∀ seg ∈ l.elf.segments, Copied image l.minVaddr l.totalLen seg) ∧
      ∀ k < mem.length, mem[k]? = fileByte image l.elf.segments (l.minVaddr + k) := by
  obtain ⟨hl, hcopy⟩ := loadImage_ok h
  have htotal := (layout_valid hl).total_le
  have hlimit := r.limit
  obtain ⟨hlen, hcopied, hbytes⟩ :=
    copySegments_ok himage (by rw [List.length_replicate]; omega) hcopy
  rw [List.length_replicate] at hlen hcopied
  refine ⟨hlen, hcopied, fun k hk ↦ ?_⟩
  rw [hbytes, List.getElem?_replicate_of_lt (by omega), fileByte]

/-! ## Segments that are apart -/

/-- No two segments share an address, and none has more bytes than memory. -/
structure Layout.Apart (l : Layout) : Prop where
  /-- The addresses are apart. -/
  disjoint : l.elf.segments.Pairwise fun seg seg' ↦ Disjoint seg.addrs seg'.addrs
  /-- The bytes fit. -/
  file_le : ∀ seg ∈ l.elf.segments, seg.fileSize.toNat ≤ seg.memSize.toNat

theorem Layout.Apart.eq_of_mem {seg' : LoadSegment} (h : l.Apart) (hseg : seg ∈ l.elf.segments)
    (hseg' : seg' ∈ l.elf.segments) (ha : a ∈ seg.addrs) (ha' : a ∈ seg'.addrs) : seg = seg' := by
  have hsymm : Std.Symm fun seg seg' : LoadSegment ↦ Disjoint seg.addrs seg'.addrs :=
    ⟨fun _ _ h ↦ h.symm⟩
  by_contra hne
  exact Set.disjoint_left.mp (h.disjoint.forall hseg hseg' hne) ha ha'

theorem Layout.Apart.mem_addrs (h : l.Apart) (hseg : seg ∈ l.elf.segments) (ha : seg.Covers a) :
    a ∈ seg.addrs :=
  ⟨ha.1, ha.2.trans_le (Nat.add_le_add_left (h.file_le seg hseg) _)⟩

/-- An address of a segment has its byte from there, or none. -/
theorem Layout.Apart.fileByte_eq (h : l.Apart) (hseg : seg ∈ l.elf.segments) (ha : a ∈ seg.addrs) :
    fileByte image l.elf.segments a = if seg.Covers a then seg.byteAt image a else some 0 := by
  rw [fileByte]
  split
  · rename_i hcovers
    cases hlast : lastCover l.elf.segments a with
    | none => exact absurd hcovers (lastCover_eq_none.mp hlast seg hseg)
    | some seg' =>
      obtain ⟨hseg', hcovers'⟩ := lastCover_eq_some hlast
      rw [h.eq_of_mem hseg hseg' ha (h.mem_addrs hseg' hcovers')]
      rfl
  · rename_i hcovers
    cases hlast : lastCover l.elf.segments a with
    | none => rfl
    | some seg' =>
      obtain ⟨hseg', hcovers'⟩ := lastCover_eq_some hlast
      rw [h.eq_of_mem hseg hseg' ha (h.mem_addrs hseg' hcovers')] at hcovers
      exact absurd hcovers' hcovers

/-- **A segment is in memory**: its bytes, and zeros behind them. -/
theorem loadImage_segment (himage : image.length < 2 ^ 63) (h : loadImage r image = .ok (l, mem))
    (hapart : l.Apart) (hseg : seg ∈ l.elf.segments) :
    slice mem (seg.vaddr.toNat - l.minVaddr) seg.memSize.toNat =
      slice image seg.fileOffset.toNat seg.fileSize.toNat ++
        List.replicate (seg.memSize.toNat - seg.fileSize.toNat) 0 := by
  obtain ⟨hlen, hcopied, hbytes⟩ := loadImage_getElem? himage h
  obtain ⟨hmin, hmem, -, hsrc⟩ := hcopied seg hseg
  have hfit := hapart.file_le seg hseg
  have hfile := length_slice_of_le hsrc
  apply List.ext_getElem?
  intro j
  rw [getElem?_slice]
  split
  · rename_i hj
    have hplace : l.minVaddr + (seg.vaddr.toNat - l.minVaddr + j) = seg.vaddr.toNat + j := by omega
    rw [hbytes _ (by omega), hplace,
      hapart.fileByte_eq hseg ⟨Nat.le_add_right _ _, Nat.add_lt_add_left hj _⟩]
    by_cases hcovers : seg.Covers (seg.vaddr.toNat + j)
    · have hlt := hcovers.2
      rw [if_pos hcovers, List.getElem?_append_left (by omega), getElem?_slice, if_pos (by omega),
        LoadSegment.byteAt, Nat.add_sub_cancel_left]
    · have hge : ¬j < seg.fileSize.toNat := fun hlt ↦
        hcovers ⟨Nat.le_add_right _ _, Nat.add_lt_add_left hlt _⟩
      rw [if_neg hcovers, List.getElem?_append_right (by omega),
        List.getElem?_replicate_of_lt (by omega)]
  · rw [List.getElem?_eq_none]
    simp only [List.length_append, List.length_replicate, hfile]
    omega

/-! ## The stack area -/

/-- What the segments leave in memory. -/
structure SegmentsLoaded (r : Runner ε) (image : List U8) (l : Layout) (mem : List U8) : Prop where
  /-- Every byte is that of the last segment that has one for its address. -/
  bytes : ∀ k < mem.length, mem[k]? = fileByte image l.elf.segments (l.minVaddr + k)
  /-- Segments that are apart have their bytes and zeros. -/
  segment : l.Apart → ∀ seg ∈ l.elf.segments,
    slice mem (seg.vaddr.toNat - l.minVaddr) seg.memSize.toNat =
      slice image seg.fileOffset.toNat seg.fileSize.toNat ++
        List.replicate (seg.memSize.toNat - seg.fileSize.toNat) 0
  /-- What is above them is zero. -/
  stack : l.Apart → slice mem (l.memLen r) r.stackSize = List.replicate r.stackSize 0

/-- The bytes that the file has for the last address, or for what would be behind it, are zero. -/
def TopBytesZero (image : List U8) (l : Layout) : Prop :=
  ∀ seg ∈ l.elf.segments, ∀ a, seg.Covers a → 2 ^ 64 - 1 ≤ a → seg.byteAt image a = some 0

theorem SegmentsLoaded.topBytesZero (himage : image.length < 2 ^ 63)
    (h : loadImage r image = .ok (l, mem)) (hloaded : SegmentsLoaded r image l mem)
    (hapart : l.Apart) : TopBytesZero image l := by
  obtain ⟨hlen, hcopied, hbytes⟩ := loadImage_getElem? himage h
  obtain ⟨htotal, hlt, -⟩ := layout_memLen (loadImage_ok h).1
  intro seg hseg a hcovers ha
  have hmem := (hcopied seg hseg).mem_le
  have hmin := (hcopied seg hseg).min_le
  have haddrs := hapart.mem_addrs hseg hcovers
  have htop : a < seg.vaddr.toNat + seg.memSize.toNat := haddrs.2
  obtain ⟨j, hj⟩ : ∃ j, a = l.minVaddr + (l.memLen r + j) :=
    ⟨a - l.minVaddr - l.memLen r, by omega⟩
  have hzero : (slice mem (l.memLen r) r.stackSize)[j]? = (List.replicate r.stackSize 0)[j]? := by
    rw [hloaded.stack hapart]
  rw [getElem?_slice, if_pos (by omega), hbytes _ (by omega), ← hj, hapart.fileByte_eq hseg haddrs,
    if_pos hcovers, List.getElem?_replicate_of_lt (by omega)] at hzero
  exact hzero

theorem segmentsLoaded_of_topBytesZero (himage : image.length < 2 ^ 63)
    (h : loadImage r image = .ok (l, mem)) (hzero : l.Apart → TopBytesZero image l) :
    SegmentsLoaded r image l mem := by
  obtain ⟨hlen, -, hbytes⟩ := loadImage_getElem? himage h
  obtain ⟨htotal, hlt, hends⟩ := layout_memLen (loadImage_ok h).1
  refine ⟨hbytes, fun hapart seg hseg ↦ loadImage_segment himage h hapart hseg,
    fun hapart ↦ List.ext_getElem? fun j ↦ ?_⟩
  rw [getElem?_slice]
  split
  · rename_i hj
    rw [List.getElem?_replicate_of_lt hj, hbytes _ (by omega), fileByte]
    cases hlast : lastCover l.elf.segments (l.minVaddr + (l.memLen r + j)) with
    | none => rfl
    | some seg =>
      -- its memory ends behind `max_vaddr`, so that the sum is saturated
      obtain ⟨hseg, hcovers⟩ := lastCover_eq_some hlast
      have hend := hends seg hseg
      have htop : l.minVaddr + (l.memLen r + j) < seg.vaddr.toNat + seg.memSize.toNat :=
        (hapart.mem_addrs hseg hcovers).2
      rw [Rust.saturatingAdd] at hend
      exact hzero hapart seg hseg _ hcovers (by omega)
  · rename_i hj
    rw [List.getElem?_eq_none (by rw [List.length_replicate]; omega)]

/-- **When the segments are loaded as they should be**: when none that is apart from the others has
bytes at the end of the address space. -/
theorem segmentsLoaded_iff (r : Runner ε) (image : Image) (l : Layout) (mem : List U8)
    (h : loadImage r image.bytes = .ok (l, mem)) :
    SegmentsLoaded r image.bytes l mem ↔ (l.Apart → TopBytesZero image.bytes l) :=
  ⟨fun hloaded ↦ hloaded.topBytesZero image.length_lt h,
    segmentsLoaded_of_topBytesZero image.length_lt h⟩

/-! ### The last addresses -/

/-- Four bytes for the last four addresses. -/
def lastBytes : Image := ⟨oneSegment 0xFFFFFFFFFFFFFFFC 4 4, by decide⟩

/-- Its segment. -/
def lastSegment : LoadSegment := ⟨0xFFFFFFFFFFFFFFFC, 4, 0, 4, 7⟩

set_option maxRecDepth 8000 in
theorem layout_lastBytes :
    layout linuxRunner lastBytes.bytes =
        .ok ⟨⟨0, 3, [lastSegment]⟩, 0xFFFFFFFFFFFFFFFC, 131075⟩ ∧
      layout nativeRunner lastBytes.bytes =
        .ok ⟨⟨0, 3, [lastSegment]⟩, 0xFFFFFFFFFFFFFFFC, 262147⟩ :=
  ⟨rfl, rfl⟩

theorem loadImage_lastBytes {totalLen : ℕ}
    (hl : layout r lastBytes.bytes = .ok ⟨⟨0, 3, [lastSegment]⟩, 0xFFFFFFFFFFFFFFFC, totalLen⟩) :
    ∃ mem, loadImage r lastBytes.bytes =
      .ok (⟨⟨0, 3, [lastSegment]⟩, 0xFFFFFFFFFFFFFFFC, totalLen⟩, mem) := by
  have hstack := (layout_valid hl).stack_le
  have hroom := r.room
  rcases loadImage_cases r lastBytes hl (by exact fun h ↦ ⟨h.dst, trivial⟩) with
    ⟨-, mem, -, hload⟩ | ⟨hnot, -⟩
  · exact ⟨mem, hload⟩
  · have hfour : 0xFFFFFFFFFFFFFFFC - 0xFFFFFFFFFFFFFFFC + 4 ≤ totalLen := by
      dsimp only at hstack
      omega
    exact absurd (List.forall_mem_singleton.mpr ⟨hfour, by decide⟩) hnot

/-- The fourth of them is the last byte of the magic number, and goes to the area of the stack. -/
theorem not_segmentsLoaded {totalLen : ℕ}
    (h : loadImage r lastBytes.bytes =
      .ok (⟨⟨0, 3, [lastSegment]⟩, 0xFFFFFFFFFFFFFFFC, totalLen⟩, mem)) :
    ¬SegmentsLoaded r lastBytes.bytes ⟨⟨0, 3, [lastSegment]⟩, 0xFFFFFFFFFFFFFFFC, totalLen⟩ mem := by
  intro hloaded
  have hzero := hloaded.topBytesZero lastBytes.length_lt h
    ⟨List.pairwise_singleton _ _, List.forall_mem_singleton.mpr le_rfl⟩
    lastSegment List.mem_cons_self (2 ^ 64 - 1) (by decide) le_rfl
  exact absurd hzero (by decide)

theorem lastBytes_not_loaded :
    (∃ l mem, loadImage linuxRunner lastBytes.bytes = .ok (l, mem) ∧
      ¬SegmentsLoaded linuxRunner lastBytes.bytes l mem) ∧
    ∃ l mem, loadImage nativeRunner lastBytes.bytes = .ok (l, mem) ∧
      ¬SegmentsLoaded nativeRunner lastBytes.bytes l mem := by
  obtain ⟨mem, hlinux⟩ := loadImage_lastBytes layout_lastBytes.1
  obtain ⟨mem', hnative⟩ := loadImage_lastBytes layout_lastBytes.2
  exact ⟨⟨_, mem, hlinux, not_segmentsLoaded hlinux⟩, _, mem', hnative, not_segmentsLoaded hnative⟩

theorem segmentsLoaded_iff_lastBytes : ∃ l mem, loadImage linuxRunner lastBytes.bytes = .ok (l, mem) ∧
    (SegmentsLoaded linuxRunner lastBytes.bytes l mem ↔
      (l.Apart → TopBytesZero lastBytes.bytes l)) := by
  obtain ⟨mem, h⟩ := loadImage_lastBytes layout_lastBytes.1
  exact ⟨_, mem, h, segmentsLoaded_iff linuxRunner lastBytes _ mem h⟩

end Elf

end LeonOS
