import LeonOS.Elf.Grammar
import LeonOS.Elf.Runners
import LeonOS.Kernel.State

/-!
# When loading is safe

Loading must not panic, whatever the file and the arguments are, and it must put the bytes of a
segment into the memory of this segment.  `load_safe_iff` says exactly when it does.

The parser (`parseElf64_ne_panic`), the limits (`layout_ne_panic`) and the initial stack
(`initialStack_cases`) always are safe.  Three things are not checked:

* `file_size` against `mem_size`, so that a segment can be copied past its own end and past the end
  of `mem`;
* the end of `mem` as an address, in the interpreter;
* the entry as an address, in the native runner.
-/

set_option autoImplicit false

namespace LeonOS

open Bytes

namespace Elf

variable {ε : Type} {r : Runner ε}

/-! ## Parsing -/

/-- **The parser reads no byte outside the image**, and its sums do not overflow. -/
theorem parseElf64_ne_panic (image : Image) : parseElf64 image.bytes ≠ .error .panic := by
  rw [parseElf64_eq, Rust.checkAll_bind]
  cases Rust.firstError (checks image.bytes) with
  | some e => exact nofun
  | none => exact nofun

theorem mapErr_ne_panic {ε ε' α : Type} {f : ε → ε'} {x : Rust ε α} (h : x ≠ .error .panic) :
    Rust.mapErr f x ≠ .error .panic := by
  cases x with
  | ok a => exact nofun
  | error e =>
    cases e with
    | err e => exact nofun
    | panic => exact absurd rfl h

theorem layout_ne_panic (r : Runner ε) (image : Image) :
    layout r image.bytes ≠ .error .panic := by
  intro h
  rw [layout] at h
  obtain ⟨elf, -, h⟩ := (Rust.bind_eq_panic.mp h).resolve_left
    (mapErr_ne_panic (parseElf64_ne_panic image))
  obtain ⟨_, -, h⟩ := (Rust.bind_eq_panic.mp h).resolve_left Rust.failIf_ne_panic
  obtain ⟨_, -, h⟩ := (Rust.bind_eq_panic.mp h).resolve_left (r.checkType_ne_panic _ _)
  obtain ⟨_, -, h⟩ := (Rust.bind_eq_panic.mp h).resolve_left Rust.failIf_ne_panic
  obtain ⟨_, -, h⟩ := (Rust.bind_eq_panic.mp h).resolve_left Rust.failIf_ne_panic
  obtain ⟨_, -, h⟩ := (Rust.bind_eq_panic.mp h).resolve_left Rust.okOr_ne_panic
  exact nomatch h

/-! ## Layout -/

theorem addressRange_le (segments : List LoadSegment) (range : ℕ × ℕ) :
    (segments.foldl (fun range seg ↦ (min range.1 seg.vaddr.toNat,
      max range.2 (Rust.saturatingAdd seg.vaddr.toNat seg.memSize.toNat))) range).1 ≤ range.1 ∧
    ∀ seg ∈ segments, (segments.foldl (fun range seg ↦ (min range.1 seg.vaddr.toNat,
      max range.2 (Rust.saturatingAdd seg.vaddr.toNat seg.memSize.toNat))) range).1 ≤
        seg.vaddr.toNat := by
  induction segments generalizing range with
  | nil => exact ⟨le_rfl, nofun⟩
  | cons seg segments ih =>
    obtain ⟨hrange, hsegs⟩ := ih (min range.1 seg.vaddr.toNat,
      max range.2 (Rust.saturatingAdd seg.vaddr.toNat seg.memSize.toNat))
    rw [List.foldl_cons]
    refine ⟨hrange.trans (min_le_left _ _), fun s hs ↦ ?_⟩
    rcases List.mem_cons.mp hs with rfl | hs
    · exact hrange.trans (min_le_right _ _)
    · exact hsegs s hs

/-- What the limits leave of a file. -/
structure Layout.Valid (r : Runner ε) (l : Layout) : Prop where
  /-- The lowest address is an address. -/
  min_lt : l.minVaddr < 2 ^ 64
  /-- It is the lowest. -/
  min_le : ∀ seg ∈ l.elf.segments, l.minVaddr ≤ seg.vaddr.toNat
  /-- The vector is no longer than the limits allow. -/
  total_le : l.totalLen ≤ r.maxMem + r.stackSize
  /-- It holds the stack. -/
  stack_le : r.stackSize ≤ l.totalLen

theorem layout_valid {image : List U8} {l : Layout} (h : layout r image = .ok l) : l.Valid r := by
  rw [layout] at h
  obtain ⟨elf, -, h⟩ := Rust.bind_eq_ok.mp h
  obtain ⟨_, -, h⟩ := Rust.bind_eq_ok.mp h
  obtain ⟨_, -, h⟩ := Rust.bind_eq_ok.mp h
  obtain ⟨_, -, h⟩ := Rust.bind_eq_ok.mp h
  obtain ⟨_, hlimit, h⟩ := Rust.bind_eq_ok.mp h
  obtain ⟨totalLen, htotal, h⟩ := Rust.bind_eq_ok.mp h
  obtain rfl := Except.ok.inj h
  rw [Rust.failIf_eq_ok, not_or, not_lt] at hlimit
  rw [Rust.okOr_eq_ok, Rust.checkedAdd_eq_some] at htotal
  obtain ⟨hmin, hmins⟩ := addressRange_le elf.segments (2 ^ 64 - 1, 0)
  have hle : totalLen ≤ r.maxMem + r.stackSize := by omega
  have hstack : r.stackSize ≤ totalLen := by omega
  exact ⟨Nat.lt_of_le_of_lt hmin (by decide), hmins, hle, hstack⟩

/-! ## Segments -/

/-- The two range checks that the copy loop makes of a segment. -/
structure Layout.Copyable (l : Layout) (image : List U8) (seg : LoadSegment) : Prop where
  /-- Its memory ends inside `mem`. -/
  dst : seg.vaddr.toNat - l.minVaddr + seg.memSize.toNat ≤ l.totalLen
  /-- Its bytes are in the file. -/
  src : seg.fileOffset.toNat + seg.fileSize.toNat ≤ image.length

/-- No segment that the copy loop comes to has more bytes than memory. -/
def Layout.FilesFit (l : Layout) (image : List U8) : List LoadSegment → Prop
  | [] => True
  | seg :: segments => l.Copyable image seg →
      seg.fileSize.toNat ≤ seg.memSize.toNat ∧ l.FilesFit image segments

/-- No segment that the copy loop comes to has bytes for behind the end of `mem`. -/
def Layout.FilesInMemory (l : Layout) (image : List U8) : List LoadSegment → Prop
  | [] => True
  | seg :: segments => l.Copyable image seg →
      seg.vaddr.toNat - l.minVaddr + seg.fileSize.toNat ≤ l.totalLen ∧
        l.FilesInMemory image segments

/-- Every copy the loop makes is into the memory of its segment. -/
def Layout.CopiesInside (r : Runner ε) (l : Layout) (image : List U8)
    (segments : List LoadSegment) (mem : List U8) : Prop :=
  ∀ before seg after mem' dstStart dstLast src, segments = before ++ seg :: after →
    copySegments r image l.minVaddr before mem = .ok mem' →
    segmentCopy r image l.minVaddr mem'.length seg = .ok (dstStart, dstLast, src) →
    seg.vaddr.toNat - l.minVaddr ≤ dstStart ∧
      dstLast ≤ seg.vaddr.toNat - l.minVaddr + seg.memSize.toNat

variable {l : Layout} {image mem : List U8} {seg : LoadSegment} {segments : List LoadSegment}

/-- Files that fit stay in memory. -/
theorem Layout.FilesFit.inMemory (h : l.FilesFit image segments) :
    l.FilesInMemory image segments := by
  induction segments with
  | nil => trivial
  | cons seg segments ih =>
    intro hcopy
    obtain ⟨hfit, hrest⟩ := h hcopy
    exact ⟨(Nat.add_le_add_left hfit _).trans hcopy.dst, ih hrest⟩

theorem saturatingAdd_gt {a b n : ℕ} (hn : n < 2 ^ 64 - 1) :
    Rust.saturatingAdd a b > n ↔ a + b > n := by
  rw [Rust.saturatingAdd]
  omega

theorem segmentCopy_of_copyable (hl : l.Valid r) (himage : image.length < 2 ^ 63)
    (hmin : l.minVaddr ≤ seg.vaddr.toNat) (h : l.Copyable image seg) :
    segmentCopy r image l.minVaddr l.totalLen seg = .ok (seg.vaddr.toNat - l.minVaddr,
      seg.vaddr.toNat - l.minVaddr + seg.fileSize.toNat,
      slice image seg.fileOffset.toNat seg.fileSize.toNat) := by
  have hlimit := r.limit
  have htotal := hl.total_le
  have hdst := h.dst
  have hsrc := h.src
  have hend : Rust.saturatingAdd seg.fileOffset.toNat seg.fileSize.toNat =
      seg.fileOffset.toNat + seg.fileSize.toNat := by
    rw [Rust.saturatingAdd]
    omega
  simp only [segmentCopy, Rust.sub_of_le hmin, Rust.ok_bind, hend]
  rw [Rust.failIf_of_not (by rw [saturatingAdd_gt] <;> omega), Rust.ok_bind,
    Rust.failIf_of_not (by omega), Rust.ok_bind, Rust.add_of_lt (by omega), Rust.ok_bind,
    Rust.range_of_le (Nat.le_add_right _ _) hsrc, Rust.ok_bind, Nat.add_sub_cancel_left]
  rfl

theorem segmentCopy_of_not_copyable (hl : l.Valid r) (himage : image.length < 2 ^ 63)
    (hmin : l.minVaddr ≤ seg.vaddr.toNat) (h : ¬l.Copyable image seg) :
    segmentCopy r image l.minVaddr l.totalLen seg = Rust.fail r.addressOutOfRange := by
  have hlimit := r.limit
  have htotal := hl.total_le
  simp only [segmentCopy, Rust.sub_of_le hmin, Rust.ok_bind]
  by_cases hdst : seg.vaddr.toNat - l.minVaddr + seg.memSize.toNat ≤ l.totalLen
  · have hsrc : ¬seg.fileOffset.toNat + seg.fileSize.toNat ≤ image.length := fun hsrc ↦
      h ⟨hdst, hsrc⟩
    rw [Rust.failIf_of_not (by rw [saturatingAdd_gt] <;> omega), Rust.ok_bind,
      Rust.failIf_of (by rw [saturatingAdd_gt] <;> omega), Rust.fail_bind]
  · rw [Rust.failIf_of (by rw [saturatingAdd_gt] <;> omega), Rust.fail_bind]

/-- **One turn of the copy loop** writes the bytes of its segment, if they are for memory. -/
theorem copySegments_cons (hl : l.Valid r) (himage : image.length < 2 ^ 63)
    (hmin : l.minVaddr ≤ seg.vaddr.toNat) (hmem : mem.length = l.totalLen)
    (h : l.Copyable image seg)
    (hfit : seg.vaddr.toNat - l.minVaddr + seg.fileSize.toNat ≤ l.totalLen) :
    ∃ mem', mem'.length = l.totalLen ∧ ∀ segments,
      copySegments r image l.minVaddr (seg :: segments) mem =
        copySegments r image l.minVaddr segments mem' := by
  have hlen := length_slice_of_le h.src
  have hle : seg.vaddr.toNat - l.minVaddr + seg.fileSize.toNat ≤ mem.length := by omega
  refine ⟨overwrite mem (seg.vaddr.toNat - l.minVaddr)
    (slice image seg.fileOffset.toNat seg.fileSize.toNat), ?_, fun segments ↦ ?_⟩
  · rw [length_overwrite (by rw [hlen]; exact hle), hmem]
  · rw [copySegments, hmem, segmentCopy_of_copyable hl himage hmin h, Rust.ok_bind]
    simp only
    rw [Rust.copyFromSlice_of_le hle (by rw [hlen]), Rust.ok_bind]

/-- The copies stay inside only if the files fit. -/
theorem filesFit_of_copiesInside (hl : l.Valid r) (himage : image.length < 2 ^ 63)
    (hmin : ∀ seg ∈ segments, l.minVaddr ≤ seg.vaddr.toNat) (hmem : mem.length = l.totalLen)
    (h : l.CopiesInside r image segments mem) : l.FilesFit image segments := by
  induction segments generalizing mem with
  | nil => trivial
  | cons seg segments ih =>
    intro hcopy
    have hseg := segmentCopy_of_copyable hl himage (hmin seg List.mem_cons_self) hcopy
    have hfit : seg.fileSize.toNat ≤ seg.memSize.toNat := by
      have hin := h [] seg segments mem _ _ _ rfl rfl (by rw [hmem, hseg])
      omega
    obtain ⟨mem', hmem', hstep⟩ := copySegments_cons hl himage (hmin seg List.mem_cons_self) hmem
      hcopy ((Nat.add_le_add_left hfit _).trans hcopy.dst)
    refine ⟨hfit, ih (fun s hs ↦ hmin s (List.mem_cons_of_mem _ hs)) hmem' ?_⟩
    intro before s after mem₁ dstStart dstLast src hsplit hbefore hs
    refine h (seg :: before) s after mem₁ dstStart dstLast src (by rw [hsplit]; rfl) ?_ hs
    rw [hstep, hbefore]

theorem copiesInside_of_filesFit (hl : l.Valid r) (himage : image.length < 2 ^ 63)
    (hmin : ∀ seg ∈ segments, l.minVaddr ≤ seg.vaddr.toNat) (hmem : mem.length = l.totalLen)
    (h : l.FilesFit image segments) : l.CopiesInside r image segments mem := by
  induction segments generalizing mem with
  | nil => exact fun before _ _ _ _ _ _ hsplit ↦ by simp at hsplit
  | cons seg segments ih =>
    have hseg := hmin seg List.mem_cons_self
    by_cases hcopy : l.Copyable image seg
    · obtain ⟨hfit, hrest⟩ := h hcopy
      obtain ⟨mem', hmem', hstep⟩ := copySegments_cons hl himage hseg hmem hcopy
        ((Nat.add_le_add_left hfit _).trans hcopy.dst)
      intro before s after mem₁ dstStart dstLast src hsplit hbefore hs
      rcases List.cons_eq_append_iff.mp hsplit with ⟨rfl, hsegs⟩ | ⟨before', rfl, hsegs⟩
      · obtain ⟨rfl, rfl⟩ := List.cons.inj hsegs
        obtain rfl := Except.ok.inj hbefore
        rw [hmem, segmentCopy_of_copyable hl himage hseg hcopy] at hs
        obtain ⟨rfl, rfl⟩ : s.vaddr.toNat - l.minVaddr = dstStart ∧
            s.vaddr.toNat - l.minVaddr + s.fileSize.toNat = dstLast := by
          simpa using And.intro (congrArg Prod.fst (Except.ok.inj hs))
            (congrArg (Prod.fst ∘ Prod.snd) (Except.ok.inj hs))
        exact ⟨le_rfl, by omega⟩
      · rw [hstep] at hbefore
        exact ih (fun s hs ↦ hmin s (List.mem_cons_of_mem _ hs)) hmem' hrest before' s after mem₁
          dstStart dstLast src hsegs hbefore hs
    · intro before s after mem₁ dstStart dstLast src hsplit hbefore hs
      rcases List.cons_eq_append_iff.mp hsplit with ⟨rfl, hsegs⟩ | ⟨before', rfl, -⟩
      · obtain ⟨rfl, rfl⟩ := List.cons.inj hsegs
        obtain rfl := Except.ok.inj hbefore
        rw [hmem, segmentCopy_of_not_copyable hl himage hseg hcopy] at hs
        exact nomatch hs
      · rw [copySegments, hmem, segmentCopy_of_not_copyable hl himage hseg hcopy] at hbefore
        exact nomatch hbefore

/-- **The copy loop**, when the files stay in memory: it completes if every segment passes the
checks, and is an error otherwise. -/
theorem copySegments_of_filesInMemory (hl : l.Valid r) (himage : image.length < 2 ^ 63)
    (hmin : ∀ seg ∈ segments, l.minVaddr ≤ seg.vaddr.toNat) (hmem : mem.length = l.totalLen)
    (h : l.FilesInMemory image segments) :
    ((∀ seg ∈ segments, l.Copyable image seg) ∧ ∃ mem', mem'.length = l.totalLen ∧
      copySegments r image l.minVaddr segments mem = .ok mem') ∨
    ((¬∀ seg ∈ segments, l.Copyable image seg) ∧
      copySegments r image l.minVaddr segments mem = Rust.fail r.addressOutOfRange) := by
  induction segments generalizing mem with
  | nil => exact .inl ⟨nofun, mem, hmem, rfl⟩
  | cons seg segments ih =>
    have hseg := hmin seg List.mem_cons_self
    by_cases hcopy : l.Copyable image seg
    · obtain ⟨hfit, hrest⟩ := h hcopy
      obtain ⟨mem', hmem', hstep⟩ := copySegments_cons hl himage hseg hmem hcopy hfit
      rw [hstep, List.forall_mem_cons, and_iff_right hcopy]
      exact ih (fun s hs ↦ hmin s (List.mem_cons_of_mem _ hs)) hmem' hrest
    · refine .inr ⟨fun hall ↦ hcopy (hall seg List.mem_cons_self), ?_⟩
      rw [copySegments, hmem, segmentCopy_of_not_copyable hl himage hseg hcopy, Rust.fail_bind]

/-- Otherwise the slice of `mem` that is to be written is out of range. -/
theorem copySegments_of_not_filesInMemory (hl : l.Valid r) (himage : image.length < 2 ^ 63)
    (hmin : ∀ seg ∈ segments, l.minVaddr ≤ seg.vaddr.toNat) (hmem : mem.length = l.totalLen)
    (h : ¬l.FilesInMemory image segments) :
    copySegments r image l.minVaddr segments mem = .error .panic := by
  induction segments generalizing mem with
  | nil => exact absurd trivial h
  | cons seg segments ih =>
    have hseg := hmin seg List.mem_cons_self
    obtain ⟨hcopy, h⟩ := Classical.not_imp.mp h
    by_cases hfit : seg.vaddr.toNat - l.minVaddr + seg.fileSize.toNat ≤ l.totalLen
    · obtain ⟨mem', hmem', hstep⟩ := copySegments_cons hl himage hseg hmem hcopy hfit
      rw [hstep]
      exact ih (fun s hs ↦ hmin s (List.mem_cons_of_mem _ hs)) hmem' fun hrest ↦ h ⟨hfit, hrest⟩
    · rw [copySegments, hmem, segmentCopy_of_copyable hl himage hseg hcopy, Rust.ok_bind]
      simp only
      rw [Rust.copyFromSlice, if_neg (by omega)]
      rfl

/-! ## The initial stack -/

/-- The bytes that some strings take, each with its terminator. -/
def stringBytes (strs : List String) : ℕ := (strs.map fun s ↦ (Rust.asBytes s).length + 1).sum

theorem stringBytes_nil : stringBytes [] = 0 := rfl

theorem stringBytes_cons (s : String) (strs : List String) :
    stringBytes (s :: strs) = (Rust.asBytes s).length + 1 + stringBytes strs := by
  rw [stringBytes, List.map_cons, List.sum_cons, ← stringBytes]

theorem stringBytes_append (strs strs' : List String) :
    stringBytes (strs ++ strs') = stringBytes strs + stringBytes strs' := by
  rw [stringBytes, List.map_append, List.sum_append, ← stringBytes, ← stringBytes]

/-- Do the arguments and the environment fit between `base` and the top of `len` bytes? -/
def StackFits (base len : ℕ) (argv envp : List String) : Prop :=
  base + (argv.length + envp.length + 7) * 8 ≤
    ((base + len - 0x10) / 16 * 16 - stringBytes argv - stringBytes envp) / 16 * 16

variable {base : U64} {sp : ℕ} {bytes : List U8} {strs : List String}

theorem toNat_ofNat_of_lt {n : ℕ} (h : n < 2 ^ 64) : (BitVec.ofNat 64 n).toNat = n := by
  rw [BitVec.toNat_ofNat, Nat.mod_eq_of_lt h]

theorem index_of_lt {oor : ε} {va : U64} (h : va.toNat < base.toNat) :
    Window.index oor base mem va = Rust.fail oor :=
  if_pos h

theorem pushCstr_of_le (hend : base.toNat + mem.length < 2 ^ 64)
    (hsp : sp ≤ base.toNat + mem.length) (h : base.toNat + (bytes.length + 1) ≤ sp) :
    ∃ mem', pushCstr r base mem sp bytes = .ok (sp - (bytes.length + 1), mem') ∧
      mem'.length = mem.length := by
  obtain ⟨start, hstart⟩ : ∃ start, sp - (bytes.length + 1) = base.toNat + start :=
    ⟨sp - (bytes.length + 1) - base.toNat, by omega⟩
  have hva : (BitVec.ofNat 64 (sp - (bytes.length + 1))).toNat = base.toNat + start := by
    rw [toNat_ofNat_of_lt (by omega), hstart]
  have haccess : Window.access r.addressOutOfRange base mem
      (BitVec.ofNat 64 (sp - (bytes.length + 1))) (bytes.length + 1) = .ok start :=
    (Window.access_eq_ok (by omega)).mpr ⟨hva, by omega, by omega⟩
  have hlen : (overwrite mem start bytes).length = mem.length := length_overwrite (by omega)
  have hlast : start + bytes.length < (overwrite mem start bytes).length := by omega
  refine ⟨overwrite (overwrite mem start bytes) (start + bytes.length) [0], ?_, ?_⟩
  · rw [pushCstr, Rust.add_of_lt (by omega), Rust.ok_bind, Rust.checkedSub_of_le (by omega),
      Rust.okOr_some, Rust.ok_bind, haccess, Rust.ok_bind,
      Rust.copyFromSlice_of_le (by omega) rfl, Rust.ok_bind, Rust.setIndex_of_lt hlast,
      Rust.ok_bind]
    rfl
  · rw [length_overwrite (by exact hlast), hlen]

theorem pushCstr_of_lt (hbytes : bytes.length < 2 ^ 63)
    (h : sp < base.toNat + (bytes.length + 1)) :
    pushCstr r base mem sp bytes = Rust.fail r.addressOutOfRange := by
  rw [pushCstr, Rust.add_of_lt (by omega), Rust.ok_bind]
  rcases Nat.lt_or_ge sp (bytes.length + 1) with hlt | hge
  · rw [Rust.checkedSub_of_lt hlt, Rust.okOr_none, Rust.fail_bind]
  · have hva : (BitVec.ofNat 64 (sp - (bytes.length + 1))).toNat < base.toNat := by
      rw [toNat_ofNat_of_lt (by omega)]
      omega
    rw [Rust.checkedSub_of_le hge, Rust.okOr_some, Rust.ok_bind, Window.access, index_of_lt hva,
      Rust.fail_bind, Rust.fail_bind]

/-- **Pushing some strings**: it succeeds if they all fit, and is an error otherwise. -/
theorem pushCstrs_cases (hend : base.toNat + mem.length < 2 ^ 64)
    (hsp : sp ≤ base.toNat + mem.length) (hbase : base.toNat ≤ sp)
    (hstrs : ∀ s ∈ strs, (Rust.asBytes s).length < 2 ^ 63) :
    (base.toNat + stringBytes strs ≤ sp ∧ ∃ ptrs mem', ptrs.length = strs.length ∧
      mem'.length = mem.length ∧
      pushCstrs r base strs mem sp = .ok (ptrs, sp - stringBytes strs, mem')) ∨
    (sp < base.toNat + stringBytes strs ∧
      pushCstrs r base strs mem sp = Rust.fail r.addressOutOfRange) := by
  induction strs with
  | nil => exact .inl ⟨hbase, [], mem, rfl, rfl, rfl⟩
  | cons s strs ih =>
    rw [stringBytes_cons, pushCstrs]
    rcases ih fun s hs ↦ hstrs s (List.mem_cons_of_mem _ hs) with
      ⟨hle, ptrs, mem₁, hptrs, hmem₁, hrest⟩ | ⟨hlt, hrest⟩
    · rw [hrest, Rust.ok_bind]
      rcases Nat.lt_or_ge (sp - stringBytes strs) (base.toNat + ((Rust.asBytes s).length + 1)) with
        hlt | hge
      · refine .inr ⟨by omega, ?_⟩
        simp only [pushCstr_of_lt (r := r) (hstrs s List.mem_cons_self) hlt,
          Rust.fail_bind]
      · have hend₁ : base.toNat + mem₁.length < 2 ^ 64 := by rw [hmem₁]; exact hend
        obtain ⟨mem₂, hpush, hmem₂⟩ := pushCstr_of_le (r := r) hend₁ (by omega) hge
        have hsub : sp - ((Rust.asBytes s).length + 1 + stringBytes strs) =
            sp - stringBytes strs - ((Rust.asBytes s).length + 1) := by omega
        refine .inl ⟨by omega, (sp - stringBytes strs - ((Rust.asBytes s).length + 1)) :: ptrs, mem₂,
          ?_, hmem₂.trans hmem₁, ?_⟩
        · rw [List.length_cons, List.length_cons, hptrs]
        · simp only [hpush, Rust.ok_bind, hsub]
          rfl
    · rw [hrest, Rust.fail_bind]
      exact .inr ⟨by omega, rfl⟩

theorem writeWords_of_le {words : List ℕ} {i : ℕ} (hend : base.toNat + mem.length < 2 ^ 64)
    (hbase : base.toNat ≤ sp) (h : sp + (i + words.length) * 8 ≤ base.toNat + mem.length) :
    ∃ mem', writeWords r base sp i words mem = .ok mem' ∧ mem'.length = mem.length := by
  induction words generalizing i mem with
  | nil => exact ⟨mem, rfl, rfl⟩
  | cons v words ih =>
    rw [List.length_cons] at h
    have hva : (BitVec.ofNat 64 (sp + i * 8)).toNat = sp + i * 8 := toNat_ofNat_of_lt (by omega)
    have haccess : Window.access r.addressOutOfRange base mem (BitVec.ofNat 64 (sp + i * 8))
        (toLE 8 v).length = .ok (sp + i * 8 - base.toNat) := by
      rw [Window.access_eq_ok (by omega), hva, length_toLE]
      omega
    have hle : sp + i * 8 - base.toNat + (toLE 8 v).length ≤ mem.length := by
      rw [length_toLE]
      omega
    have hlen := length_overwrite hle
    have hend₁ : base.toNat + (overwrite mem (sp + i * 8 - base.toNat) (toLE 8 v)).length <
        2 ^ 64 := by rw [hlen]; exact hend
    obtain ⟨mem', hrest, hmem'⟩ := ih (i := i + 1) hend₁ (by omega)
    refine ⟨mem', ?_, hmem'.trans hlen⟩
    rw [writeWords, Rust.add_of_lt (by omega), Rust.ok_bind, Window.write, haccess, Rust.ok_bind,
      Rust.copyFromSlice_of_le hle rfl, Rust.ok_bind, hrest]

theorem writeWords_of_lt {v : ℕ} {words : List ℕ} (hsp : sp < base.toNat) :
    writeWords r base sp 0 (v :: words) mem = Rust.fail r.addressOutOfRange := by
  have hva : (BitVec.ofNat 64 (sp + 0 * 8)).toNat < base.toNat := by
    rw [toNat_ofNat_of_lt (by omega)]
    omega
  rw [writeWords, Rust.add_of_lt (by omega), Rust.ok_bind, Window.write, Window.access,
    index_of_lt hva, Rust.fail_bind, Rust.fail_bind, Rust.fail_bind]

/-- The arguments or the environment of a program, a `&[&str]`: a slice is never longer than
`isize::MAX` bytes, and a `&str` takes sixteen. -/
structure StrSlice where
  /-- The strings. -/
  strs : List String
  /-- The bound on their number. -/
  length_lt : strs.length < 2 ^ 59
  /-- The bound on their lengths. -/
  bytes_lt : ∀ s ∈ strs, (Rust.asBytes s).length < 2 ^ 63

/-- No arguments. -/
def StrSlice.nil : StrSlice := ⟨[], by decide, nofun⟩

theorem length_stackWords (argPtrs envPtrs : List ℕ) :
    (stackWords argPtrs envPtrs).length = argPtrs.length + envPtrs.length + 7 := by
  simp only [stackWords, List.length_cons, List.length_append, List.length_nil]
  omega

/-- **The initial stack** is written if it fits, and is an error otherwise. -/
theorem initialStack_cases (argv envp : StrSlice) (hend : base.toNat + mem.length < 2 ^ 64)
    (hroom : 0x20 ≤ mem.length) :
    (StackFits base.toNat mem.length argv.strs envp.strs ∧
      ∃ sp mem', initialStack r base mem argv.strs envp.strs = .ok (sp, mem')) ∨
    (¬StackFits base.toNat mem.length argv.strs envp.strs ∧
      initialStack r base mem argv.strs envp.strs = Rust.fail r.addressOutOfRange) := by
  have hargc := argv.length_lt
  have henvc := envp.length_lt
  rw [initialStack, Rust.add_of_lt hend, Rust.ok_bind, Rust.sub_of_le (by omega), Rust.ok_bind,
    buildInitialStack, StackFits]
  simp only
  have htop : (base.toNat + mem.length - 0x10) / 16 * 16 ≤ base.toNat + mem.length := by omega
  rcases pushCstrs_cases (r := r) hend htop (by omega) argv.bytes_lt with
    ⟨hargv, argPtrs, mem₁, hptrs₁, hmem₁, hpush₁⟩ | ⟨hargv, hpush₁⟩
  · rw [hpush₁, Rust.ok_bind]
    have hend₁ : base.toNat + mem₁.length < 2 ^ 64 := by rw [hmem₁]; exact hend
    rcases pushCstrs_cases (r := r) hend₁ (by omega) (Nat.le_sub_of_add_le hargv) envp.bytes_lt with
      ⟨henvp, envPtrs, mem₂, hptrs₂, hmem₂, hpush₂⟩ | ⟨henvp, hpush₂⟩
    · have hwords := length_stackWords argPtrs envPtrs
      rw [hptrs₁, hptrs₂] at hwords
      simp only
      rw [hpush₂, Rust.ok_bind]
      simp only
      rw [hwords, Rust.mul_of_lt (by omega), Rust.ok_bind]
      have hsp : (base.toNat + mem.length - 0x10) / 16 * 16 - stringBytes argv.strs -
          stringBytes envp.strs ≤ base.toNat + mem.length := by omega
      generalize (base.toNat + mem.length - 0x10) / 16 * 16 - stringBytes argv.strs -
        stringBytes envp.strs = sp at hsp ⊢
      by_cases hfit : base.toNat + (argv.strs.length + envp.strs.length + 7) * 8 ≤ sp / 16 * 16
      · have hend₂ : base.toNat + mem₂.length < 2 ^ 64 := by rw [hmem₂]; exact hend₁
        have hbase : base.toNat ≤ sp / 16 * 16 - (argv.strs.length + envp.strs.length + 7) * 8 := by
          omega
        obtain ⟨mem₃, hwrite, -⟩ := writeWords_of_le (r := r) (i := 0) hend₂ hbase
          (by rw [hwords]; omega)
        refine .inl ⟨hfit, sp / 16 * 16 - (argv.strs.length + envp.strs.length + 7) * 8, mem₃, ?_⟩
        rw [Rust.checkedSub_of_le (by omega), Rust.okOr_some, Rust.ok_bind, hwrite]
        rfl
      · refine .inr ⟨hfit, ?_⟩
        rcases Nat.lt_or_ge (sp / 16 * 16) ((argv.strs.length + envp.strs.length + 7) * 8) with
          hlt | hge
        · rw [Rust.checkedSub_of_lt hlt, Rust.okOr_none, Rust.fail_bind]
        · rw [Rust.checkedSub_of_le hge, Rust.okOr_some, Rust.ok_bind, stackWords,
            writeWords_of_lt (by omega), Rust.fail_bind]
    · simp only
      rw [hpush₂, Rust.fail_bind]
      exact .inr ⟨by omega, rfl⟩
  · rw [hpush₁, Rust.fail_bind]
    exact .inr ⟨by omega, rfl⟩

/-! ## The loading phases -/

/-- What the files have to be for the copy loop not to panic, and what holds when it completes. -/
theorem loadImage_cases (r : Runner ε) (image : Image) {l : Layout}
    (hl : layout r image.bytes = .ok l) (h : l.FilesInMemory image.bytes l.elf.segments) :
    ((∀ seg ∈ l.elf.segments, l.Copyable image.bytes seg) ∧ ∃ mem, mem.length = l.totalLen ∧
      loadImage r image.bytes = .ok (l, mem)) ∨
    ((¬∀ seg ∈ l.elf.segments, l.Copyable image.bytes seg) ∧
      loadImage r image.bytes = Rust.fail r.addressOutOfRange) := by
  have hvalid := layout_valid hl
  rw [loadImage, hl, Rust.ok_bind]
  rcases copySegments_of_filesInMemory hvalid image.length_lt hvalid.min_le List.length_replicate h
    with ⟨hall, mem, hmem, hcopy⟩ | ⟨hall, hcopy⟩
  · refine .inl ⟨hall, mem, hmem, ?_⟩
    rw [hcopy]
    rfl
  · refine .inr ⟨hall, ?_⟩
    rw [hcopy, Rust.fail_bind]

theorem loadImage_of_layout_error (r : Runner ε) (image : Image)
    (h : ∀ l, layout r image.bytes ≠ .ok l) : ∃ e, loadImage r image.bytes = Rust.fail e := by
  have hpanic := layout_ne_panic r image
  rw [loadImage]
  cases hl : layout r image.bytes with
  | ok l => exact absurd hl (h l)
  | error e =>
    cases e with
    | err e => exact ⟨e, rfl⟩
    | panic => exact absurd hl hpanic

end Elf

open Elf

/-- The loading phase of the interpreter ends without a panic, and copies the bytes of a segment
into its memory only. -/
structure LinuxLoadSafe (image : Image) (argv envp : StrSlice) : Prop where
  /-- It does not panic. -/
  completes : loadLinuxElf image.bytes argv.strs envp.strs ≠ .error .panic
  /-- It copies inside. -/
  inside : ∀ l, layout linuxRunner image.bytes = .ok l →
    l.CopiesInside linuxRunner image.bytes l.elf.segments (List.replicate l.totalLen 0)

/-- The same of the native runner. -/
structure NativeLoadSafe (buffers : Buffers) (image : Image) (argv envp : StrSlice) : Prop where
  /-- It does not panic. -/
  completes : loadNativeElf buffers image.bytes argv.strs envp.strs ≠ .error .panic
  /-- It copies inside. -/
  inside : ∀ l, layout nativeRunner image.bytes = .ok l →
    l.CopiesInside nativeRunner image.bytes l.elf.segments (List.replicate l.totalLen 0)

/-- Files that the interpreter loads safely: the files of the segments fit, and so does the end of
the memory, if it is come to. -/
def LinuxFits (image : Image) : Prop :=
  ∀ l, layout linuxRunner image.bytes = .ok l → l.FilesFit image.bytes l.elf.segments ∧
    ((∀ seg ∈ l.elf.segments, l.Copyable image.bytes seg) → l.minVaddr + l.totalLen < 2 ^ 64)

/-- Files that the native runner loads safely: the files of the segments fit, and so does the
relocated entry, if it is come to. -/
def NativeFits (buffers : Buffers) (image : Image) (argv envp : StrSlice) : Prop :=
  ∀ l, layout nativeRunner image.bytes = .ok l → l.FilesFit image.bytes l.elf.segments ∧
    ((∀ seg ∈ l.elf.segments, l.Copyable image.bytes seg) →
      StackFits (buffers.base l.totalLen).toNat l.totalLen argv.strs envp.strs →
      l.minVaddr ≤ l.elf.entry.toNat →
        (buffers.base l.totalLen).toNat + (l.elf.entry.toNat - l.minVaddr) < 2 ^ 64)

variable {buffers : Buffers} {image : Image} {argv envp : StrSlice}

/-- Files that the interpreter loads without a panic: their bytes are for memory, and the end of the
memory fits, if it is come to. -/
def LinuxLoads (image : List U8) : Prop :=
  ∀ l, layout linuxRunner image = .ok l → l.FilesInMemory image l.elf.segments ∧
    ((∀ seg ∈ l.elf.segments, l.Copyable image seg) → l.minVaddr + l.totalLen < 2 ^ 64)

/-- **When the interpreter panics while it loads a file**: a slice of `mem` is out of range, or the
sum for `stack_top` overflows. -/
theorem loadLinuxElf_panics_iff (image : Image) (argv envp : StrSlice) :
    loadLinuxElf image.bytes argv.strs envp.strs = .error .panic ↔ ¬LinuxLoads image.bytes := by
  by_cases hlayout : ∃ l, layout linuxRunner image.bytes = .ok l
  · obtain ⟨l, hl⟩ := hlayout
    have hvalid := layout_valid hl
    have hroom := linuxRunner.room.trans hvalid.stack_le
    have hloads : LinuxLoads image.bytes ↔ l.FilesInMemory image.bytes l.elf.segments ∧
        ((∀ seg ∈ l.elf.segments, l.Copyable image.bytes seg) →
          l.minVaddr + l.totalLen < 2 ^ 64) := by
      refine ⟨fun h ↦ h l hl, fun h l' hl' ↦ ?_⟩
      obtain rfl := Except.ok.inj (hl.symm.trans hl')
      exact h
    rw [hloads, loadLinuxElf]
    by_cases hfiles : l.FilesInMemory image.bytes l.elf.segments
    · rw [and_iff_right hfiles]
      rcases loadImage_cases linuxRunner image hl hfiles with
        ⟨hall, mem, hmem, hload⟩ | ⟨hall, hload⟩
      · have hbase : (BitVec.ofNat 64 l.minVaddr).toNat = l.minVaddr :=
          toNat_ofNat_of_lt hvalid.min_lt
        rw [hload, Rust.ok_bind, imp_iff_right hall]
        simp only
        rcases Nat.lt_or_ge (l.minVaddr + l.totalLen) (2 ^ 64) with hlt | hge
        · refine iff_of_false (fun h ↦ ?_) (not_not.mpr hlt)
          rcases initialStack_cases (r := linuxRunner) argv envp
            (by rw [hbase, hmem]; exact hlt) (by rw [hmem]; exact hroom) with
            ⟨-, sp, mem', hstack⟩ | ⟨-, hstack⟩
          · rw [hstack] at h
            cases h
          · rw [hstack] at h
            cases h
        · refine iff_of_true ?_ (not_lt.mpr hge)
          rw [initialStack, hbase, hmem, Rust.add_of_le hge]
          rfl
      · rw [hload]
        exact iff_of_false (fun h ↦ by cases h) (not_not.mpr fun h ↦ absurd h hall)
    · refine iff_of_true ?_ fun h ↦ hfiles h.1
      rw [loadImage, hl, Rust.ok_bind, copySegments_of_not_filesInMemory hvalid image.length_lt
        hvalid.min_le List.length_replicate hfiles]
      rfl
  · have hnone := not_exists.mp hlayout
    obtain ⟨e, hload⟩ := loadImage_of_layout_error linuxRunner image hnone
    rw [loadLinuxElf, hload]
    exact iff_of_false (fun h ↦ by cases h) (not_not.mpr fun l hl ↦ absurd hl (hnone l))

theorem linuxLoadSafe_iff : LinuxLoadSafe image argv envp ↔ LinuxFits image := by
  constructor
  · intro h l hl
    have hvalid := layout_valid hl
    have hloads : LinuxLoads image.bytes :=
      not_not.mp fun hnot ↦ h.completes ((loadLinuxElf_panics_iff image argv envp).mpr hnot)
    refine ⟨?_, (hloads l hl).2⟩
    exact filesFit_of_copiesInside hvalid image.length_lt hvalid.min_le List.length_replicate
      (h.inside l hl)
  · intro h
    have hloads : LinuxLoads image.bytes := fun l hl ↦ ⟨(h l hl).1.inMemory, (h l hl).2⟩
    refine ⟨fun hpanic ↦ ?_, fun l hl ↦ ?_⟩
    · exact (loadLinuxElf_panics_iff image argv envp).mp hpanic hloads
    · have hvalid := layout_valid hl
      exact copiesInside_of_filesFit hvalid image.length_lt hvalid.min_le List.length_replicate
        (h l hl).1

/-- The end of the native loading phase, behind the initial stack. -/
theorem loadNativeElf_of_stack {l : Elf.Layout} {mem mem' : List U8} {sp : ℕ}
    (hload : loadImage nativeRunner image.bytes = .ok (l, mem))
    (hstack : initialStack nativeRunner (buffers.base mem.length) mem argv.strs envp.strs =
      .ok (sp, mem')) :
    loadNativeElf buffers image.bytes argv.strs envp.strs = .error .panic ↔
      l.minVaddr ≤ l.elf.entry.toNat ∧ 2 ^ 64 ≤
        (buffers.base mem.length).toNat + (l.elf.entry.toNat - l.minVaddr) := by
  rw [loadNativeElf, hload, Rust.ok_bind]
  simp only
  rw [hstack, Rust.ok_bind]
  simp only
  rcases Nat.lt_or_ge l.elf.entry.toNat l.minVaddr with hlt | hge
  · rw [Rust.checkedSub_of_lt hlt, Rust.okOr_none, Rust.fail_bind]
    exact ⟨fun h ↦ (nomatch h), fun h ↦ absurd h.1 (by omega)⟩
  rw [Rust.checkedSub_of_le hge, Rust.okOr_some, Rust.ok_bind, and_iff_right hge]
  rcases Nat.lt_or_ge ((buffers.base mem.length).toNat + (l.elf.entry.toNat - l.minVaddr)) (2 ^ 64)
    with hlt | hover
  · rw [Rust.add_of_lt hlt, Rust.ok_bind, Rust.bind_eq_panic]
    refine ⟨fun h ↦ ?_, fun h ↦ absurd h (by omega)⟩
    rcases h with h | ⟨_, -, h⟩
    · exact absurd h Window.index_ne_panic
    · exact nomatch h
  · rw [Rust.add_of_le hover]
    exact ⟨fun _ ↦ hover, fun _ ↦ rfl⟩

theorem nativeLoadSafe_iff :
    NativeLoadSafe buffers image argv envp ↔ NativeFits buffers image argv envp := by
  have hroom := nativeRunner.room
  have hlimit := nativeRunner.limit
  constructor
  · intro h l hl
    have hvalid := layout_valid hl
    have hfit := filesFit_of_copiesInside hvalid image.length_lt hvalid.min_le
      List.length_replicate (h.inside l hl)
    refine ⟨hfit, fun hall hstack hentry ↦ ?_⟩
    rcases loadImage_cases nativeRunner image hl hfit.inMemory with
      ⟨-, mem, hmem, hload⟩ | ⟨hall', -⟩
    · rw [← hmem] at hstack ⊢
      have hend := buffers.fits mem.length (by rw [hmem]; exact hvalid.total_le.trans_lt hlimit)
      rcases initialStack_cases (r := nativeRunner) argv envp hend
        (by rw [hmem]; exact hroom.trans hvalid.stack_le) with ⟨-, sp, mem', hrun⟩ | ⟨hnot, -⟩
      · by_contra hover
        exact h.completes ((loadNativeElf_of_stack hload hrun).mpr ⟨hentry, not_lt.mp hover⟩)
      · exact absurd hstack hnot
    · exact absurd hall hall'
  · intro h
    refine ⟨fun hpanic ↦ ?_, fun l hl ↦ ?_⟩
    · by_cases hlayout : ∃ l, layout nativeRunner image.bytes = .ok l
      · obtain ⟨l, hl⟩ := hlayout
        have hvalid := layout_valid hl
        obtain ⟨hfit, hentry⟩ := h l hl
        rcases loadImage_cases nativeRunner image hl hfit.inMemory with
          ⟨hall, mem, hmem, hload⟩ | ⟨-, hload⟩
        · have hend := buffers.fits mem.length (by rw [hmem]; exact hvalid.total_le.trans_lt hlimit)
          rw [← hmem] at hentry
          rcases initialStack_cases (r := nativeRunner) argv envp hend
            (by rw [hmem]; exact hroom.trans hvalid.stack_le) with
            ⟨hfits, sp, mem', hrun⟩ | ⟨-, hrun⟩
          · obtain ⟨hge, hover⟩ := (loadNativeElf_of_stack hload hrun).mp hpanic
            exact absurd (hentry hall hfits hge) (not_lt.mpr hover)
          · rw [loadNativeElf, hload, Rust.ok_bind] at hpanic
            simp only at hpanic
            rw [hrun] at hpanic
            exact nomatch hpanic
        · rw [loadNativeElf, hload] at hpanic
          exact nomatch hpanic
      · obtain ⟨e, hload⟩ := loadImage_of_layout_error nativeRunner image (not_exists.mp hlayout)
        rw [loadNativeElf, hload] at hpanic
        exact nomatch hpanic
    · have hvalid := layout_valid hl
      exact copiesInside_of_filesFit hvalid image.length_lt hvalid.min_le List.length_replicate
        (h l hl).1

/-- **When loading is safe.** -/
theorem load_safe_iff (buffers : Buffers) (image : Image) (argv envp : StrSlice) :
    (LinuxLoadSafe image argv envp ↔ LinuxFits image) ∧
      (NativeLoadSafe buffers image argv envp ↔ NativeFits buffers image argv envp) :=
  ⟨linuxLoadSafe_iff, nativeLoadSafe_iff⟩

/-! ### Files that are not loaded safely -/

/-- A position-independent ELF file with one loadable segment and no further bytes. -/
def oneSegment (vaddr memSize fileSize : ℕ) : List U8 :=
  [0x7F, 0x45, 0x4C, 0x46, 2, 1, 1, 0] ++ toLE 8 0 ++ toLE 2 3 ++ toLE 2 62 ++ toLE 4 1 ++
    toLE 8 0 ++ toLE 8 64 ++ toLE 8 0 ++ toLE 4 0 ++ toLE 2 64 ++ toLE 2 56 ++ toLE 2 1 ++
    toLE 6 0 ++ toLE 4 1 ++ toLE 4 7 ++ toLE 8 0 ++ toLE 8 vaddr ++ toLE 8 vaddr ++
    toLE 8 fileSize ++ toLE 8 memSize ++ toLE 8 4096

/-- Two bytes for a memory of one. -/
def longFile : Image := ⟨oneSegment 0 1 2, by decide⟩

/-- A page below the end of the address space. -/
def topSegment : Image := ⟨oneSegment 0xFFFFFFFFFFFF0000 0x1000 0, by decide⟩

set_option maxRecDepth 8000 in
theorem layout_longFile : layout linuxRunner longFile.bytes =
    .ok ⟨⟨0, 3, [⟨0, 1, 0, 2, 7⟩]⟩, 0, 131073⟩ :=
  rfl

set_option maxRecDepth 8000 in
theorem layout_topSegment : layout linuxRunner topSegment.bytes =
    .ok ⟨⟨0, 3, [⟨0xFFFFFFFFFFFF0000, 0x1000, 0, 0, 7⟩]⟩, 0xFFFFFFFFFFFF0000, 135168⟩ :=
  rfl

theorem load_unsafe :
    ¬LinuxLoadSafe longFile .nil .nil ∧ ¬LinuxLoadSafe topSegment .nil .nil := by
  rw [linuxLoadSafe_iff, linuxLoadSafe_iff]
  constructor
  · intro h
    obtain ⟨hfit, -⟩ := (h _ layout_longFile).1 ⟨by decide, by decide⟩
    exact absurd hfit (by decide)
  · intro h
    have hend := (h _ layout_topSegment).2 (List.forall_mem_singleton.mpr ⟨by decide, by decide⟩)
    exact absurd hend (by decide)

end LeonOS
