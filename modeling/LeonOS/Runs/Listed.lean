import LeonOS.Fs.RoundTrip
import LeonOS.Kernel.Names
import LeonOS.Runs.Dirents

/-!
# Opening what the directory lists

A scan of the root directory emits the records of the directory and no others (`emits_iff`).  A file
whose name is plain and was emitted can be opened, described and accessed by all paths of the name,
in every reachable state that has a descriptor free, and what is read through the descriptor is the
data of the first entry with the name (`listed_usable`).

The enumeration goes by index and the lookup by name, so the two agree on the file only when no
entry before it has the same name; but they agree on the name.
-/

set_option autoImplicit false

namespace LeonOS

open Bytes RustM

/-! ## What a scan emits -/

/-- The events of a scan through `fd`: it is not closed or moved, and no image is mounted. -/
def KernelEvent.Scans (fd : U64) (e : KernelEvent) : Prop :=
  e.Spares fd 0 ∧ ∀ off whence arg3, e ≠ .call .lseek fd off whence arg3

/-- **A scan of the root directory emits the record**: it is one of those that the calls on a
descriptor which was just opened have listed. -/
def Emits (image : Image) (d : Dirent) : Prop :=
  ∃ fd w es s ds, fdBase ≤ fd.toNat ∧ w.kernel.rootfs = some image ∧
    w.kernel.fdTable[fd.toNat]? = some (.rootDir 0) ∧ (∀ e ∈ es, e.Scans fd) ∧
    Runs.Trace (KernelEvent.Step (Listing.after fd)) ⟨.fresh 0, w⟩ es s ∧
    s.record.seen = some ds ∧ d ∈ ds

variable {image : Image} {k : Kernel} {d : Dirent}

theorem KernelEvent.Scans.spares {fd : U64} {e : KernelEvent} (h : e.Scans fd) (last : ℕ) :
    e.Spares fd last := by
  cases e with
  | call nr arg0 arg1 arg2 arg3 =>
    cases nr with
    | lseek => exact fun heq ↦ absurd (heq ▸ rfl) (h.2 arg1 arg2 arg3)
    | _ => exact h.1
  | mount => exact h.1
  | mark | poll | user => trivial

/-- What a scan emits is in the directory. -/
theorem Emits.mem (h : Emits image d) (hmount : k.rootfs = some image) : d ∈ k.dirents := by
  obtain ⟨fd, w, es, s, ds, hbase, himage, hfd, hes, hrun, hseen, hd⟩ := h
  have hstart : ListingOk fd w.kernel.dirents ⟨.fresh 0, w⟩ :=
    ⟨rfl, [], rfl, List.nil_prefix, Nat.zero_le _, hfd, fun h ↦ (nomatch h)⟩
  have hok := KernelEvent.always (fun _ _ _ _ he hs hran ↦ ListingOk.step hbase he hs hran) hstart
    (fun e he ↦ (hes e he).spares _) es s List.prefix_rfl hrun
  obtain ⟨ds', hseen', hbegins, -⟩ := hok.pos
  obtain rfl := Option.some_inj.mp (hseen.symm.trans hseen')
  rw [dirents_congr (hmount.trans himage.symm)]
  exact List.mem_of_mem_drop (hbegins.subset hd)

/-- One call with a large buffer lists the directory. -/
theorem emits_of_mem (hmount : k.rootfs = some image) (h : d ∈ k.dirents) : Emits image d := by
  let w : World := ⟨k.setFd 3 (.rootDir 0), fun _ ↦ 0, []⟩
  have hfd : w.kernel.fdTable[(3 : U64).toNat]? = some (.rootDir 0) :=
    (Kernel.getElem?_setFd (by decide)).trans (if_pos rfl)
  have hsame : w.kernel.dirents = k.dirents := dirents_congr rfl
  obtain ⟨ds, r, w', hds, hrun, hlisted, -⟩ := dispatch_getdents64_fitting 0x1000
    0x10000000000 hfd (Nat.zero_le _) (by decide) 0
  have hsmall : Dirent.total w.kernel.dirents ≤ (0x10000000000 : U64).toNat := by
    have hle := Dirent.total_le (dirents_wellFormed w.kernel)
    have hlt := length_dirents_lt w.kernel
    exact hle.trans (show 2 ^ 16 * w.kernel.dirents.length ≤ 0x10000000000 by omega)
  rw [List.drop_zero, Dirent.fitting_of_total_le hsmall, hsame] at hds
  obtain rfl := hds
  have hr := hlisted.returned (List.ne_nil_of_mem h)
  let e : KernelEvent := .call .getdents64 3 0x1000 0x10000000000 0
  have hstep : e.Step (Listing.after 3) ⟨.fresh 0, w⟩ ⟨Listing.after 3 e w r w' (.fresh 0), w'⟩ :=
    ⟨r, .call hrun, rfl⟩
  refine ⟨3, w, [e], _, k.dirents, by decide, hmount, hfd, ?_, .single hstep, ?_, h⟩
  · intro e' he'
    rw [List.mem_singleton.mp he']
    exact ⟨trivial, fun _ _ _ heq ↦ (nomatch (KernelEvent.call.inj heq).1)⟩
  · have happend : Listing.after 3 e w r w' (.fresh 0) =
        Listing.append (.fresh 0) r (peek w'.ram 0x1000 r.toNat) := if_pos ⟨rfl, hr.1⟩
    have hparsed : Dirent.parse (peek w'.ram 0x1000 r.toNat) = some k.dirents := by
      rw [hr.2]
      exact hlisted.parsed
    change (Listing.after 3 e w r w' (.fresh 0)).seen = some k.dirents
    rw [happend]
    simp [Listing.append, Listing.fresh, hparsed]

/-- **A scan emits what is in the directory.** -/
theorem emits_iff (hmount : k.rootfs = some image) : Emits image d ↔ d ∈ k.dirents :=
  ⟨fun h ↦ h.mem hmount, emits_of_mem hmount⟩

/-- **A scan emits the name of a file**: the record of an entry with the name.  The name is the whole
one, which may have zeros in it. -/
def EmitsFile (image : Image) (name : String) : Prop :=
  ∃ i r, Fs.entry image.bytes i = .ok r ∧ r.name = name ∧
    Emits image (Dirent.of (i + 2) (Rust.asBytes name))

variable {name path : String}

/-- The record of a place in the directory. -/
theorem rootNames_of_dirents {i : ℕ} {bytes : List U8} (h : Dirent.of i bytes ∈ k.dirents) :
    ∃ bytes', k.rootNames[i]? = some bytes' ∧ Dirent.of i bytes' = Dirent.of i bytes := by
  obtain ⟨j, hj, heq⟩ := List.mem_mapIdx.mp h
  obtain rfl : j = i := Nat.succ_injective (congrArg Dirent.off heq)
  exact ⟨_, List.getElem?_eq_getElem hj, heq⟩

/-- The name is in the directory. -/
theorem EmitsFile.rootNames (h : EmitsFile image name) (hmount : k.rootfs = some image) :
    ∃ i, k.rootNames[i + 2]? = some (Rust.asBytes name) := by
  obtain ⟨i, r, hentry, rfl, hemits⟩ := h
  obtain ⟨bytes, hbytes, -⟩ := rootNames_of_dirents ((emits_iff hmount).mp hemits)
  obtain ⟨image', r', hmount', hentry', rfl⟩ := entry_of_rootNames hbytes
  obtain rfl := Option.some_inj.mp (hmount.symm.trans hmount')
  obtain rfl := Except.ok.inj (hentry.symm.trans hentry')
  exact ⟨i, hbytes⟩

/-! ## Reading to the end -/

/-- A loop that reads into one buffer after the other until a read returns zero, and what it gets.
It gets nothing when a read fails, or when there are not enough buffers. -/
def readToEnd (fd : U64) : List (U64 × U64) → World → Option (List U8)
  | [], _ => none
  | (buf, n) :: bufs, w =>
    match dispatch .read fd buf n 0 w with
    | .ok r w' =>
      if r.toInt < 0 then none
      else if r = 0 then some []
      else (readToEnd fd bufs w').map (peek w'.ram buf.toNat r.toNat ++ ·)
    | .error _ _ => none

/-- ReadBuffers that something can be read into. -/
def ReadBuffers (bufs : List (U64 × U64)) : Prop := ∀ b ∈ bufs, b.1 ≠ 0 ∧ b.2 ≠ 0

/-- What is left of an open file. -/
def OpenFile.rest (f : OpenFile) : List U8 := f.data.drop f.pos

namespace OpenFile

variable (f : OpenFile) (n : ℕ)

theorem length_rest : f.rest.length = f.data.length - f.pos := List.length_drop

theorem read_append_rest : f.read n ++ (f.advance n).rest = f.rest := by
  rw [read, slice, rest, advance, rest, ← List.drop_drop, List.take_append_drop]

theorem length_rest_advance : (f.advance n).rest.length = f.rest.length - f.count n := by
  rw [length_rest, length_rest]
  exact (Nat.sub_sub _ _ _).symm

end OpenFile

theorem Kernel.length_data_lt {fd : ℕ} {f : OpenFile} (hf : k.openFiles fd = some f) :
    f.data.length < 2 ^ 63 := by
  obtain ⟨entry, -, hopen⟩ := Option.bind_eq_some_iff.mp hf
  cases entry with
  | free | rootDir => exact nomatch hopen
  | file dataPtr len pos mode =>
    obtain rfl := Option.some_inj.mp hopen
    have hlt := dataPtr.image.length_lt
    simp
    omega

/-- **The loop gets what is left of the file**, or it runs out of buffers before the end. -/
theorem readToEnd_eq {fd : U64} {w : World} {f : OpenFile} {bufs : List (U64 × U64)}
    (hk : w.kernel.FilesOk) (hf : w.kernel.openFiles fd.toNat = some f) (hbufs : ReadBuffers bufs) :
    readToEnd fd bufs w = some f.rest ∨
      readToEnd fd bufs w = none ∧ bufs.length ≤ f.rest.length := by
  induction bufs generalizing w f with
  | nil => exact .inr ⟨rfl, Nat.zero_le _⟩
  | cons b bufs ih =>
    obtain ⟨buf, n⟩ := b
    obtain ⟨hbuf, hn⟩ := hbufs _ List.mem_cons_self
    have hsize : 0 < n.toNat := Nat.pos_of_ne_zero fun h ↦ hn (BitVec.toNat_inj.mp h)
    have hlt := Kernel.length_data_lt hf
    have hcount : f.count n.toNat = min n.toNat f.rest.length := by
      rw [OpenFile.count, OpenFile.length_rest]
    have hrest : f.rest.length ≤ f.data.length := by
      rw [OpenFile.length_rest]
      omega
    obtain ⟨hpos, hnat⟩ := Rust.ofNat_of_lt (n := f.count n.toNat) (by omega)
    obtain ⟨w', hrun, hram, hfiles⟩ := dispatch_read hk hf hbuf 0
    rw [readToEnd, hrun]
    dsimp only
    rw [if_neg hpos]
    by_cases hend : f.rest = []
    · have hzero : f.count n.toNat = 0 := by
        rw [hcount, hend, List.length_nil, Nat.min_zero]
      rw [hzero, hend]
      exact .inl rfl
    have hmore : 0 < f.count n.toNat := by
      have := List.length_pos_iff.mpr hend
      omega
    have hne : BitVec.ofNat 64 (f.count n.toNat) ≠ 0 := fun h ↦ by
      rw [h] at hnat
      exact absurd hnat (Nat.ne_of_lt hmore)
    have hgot : peek w'.ram buf.toNat (f.count n.toNat) = f.read n.toNat := by
      rw [hram, ← f.length_read, peek_poke_self]
    have hk' : w'.kernel.FilesOk := (dispatch_effect _ _ hrun).filesOk hk
    have hf' : w'.kernel.openFiles fd.toNat = some (f.advance n.toNat) := by
      rw [hfiles, Function.update_self]
    rw [if_neg hne, hnat, hgot]
    rcases ih hk' hf' fun b hb ↦ hbufs b (List.mem_cons_of_mem _ hb) with hall | ⟨hnone, hfew⟩
    · rw [hall, Option.map_some, f.read_append_rest]
      exact .inl rfl
    · rw [f.length_rest_advance] at hfew
      rw [hnone, List.length_cons]
      exact .inr ⟨rfl, by omega⟩

/-! ## Listed files -/

/-- **A path can be used for a file** in a state: `r` is the record of the entry that it is. -/
structure Usable (image : Image) (r : FileRecord) (path : String) (w : World) : Prop where
  /-- It is opened as the file, and all of the data is read through the descriptor. -/
  openat : ∀ pathPtr : U64, pathPtr ≠ 0 →
    peek w.ram pathPtr.toNat ((Rust.asBytes path).length + 1) = Rust.asBytes path ++ [0] →
    ∃ fd w', openCall pathPtr w = .ok fd w' ∧ ¬fd.toInt < 0 ∧
      w'.kernel = w.kernel.setFd fd.toNat (r.opened image) ∧
      ∀ bufs, ReadBuffers bufs →
        (∀ bs, readToEnd fd bufs w' = some bs → bs = r.data) ∧
        (r.data.length < bufs.length → readToEnd fd bufs w' = some r.data)
  /-- Its status has the length of the data. -/
  stat : ∀ pathPtr statPtr : U64, pathPtr ≠ 0 → statPtr ≠ 0 →
    peek w.ram pathPtr.toNat ((Rust.asBytes path).length + 1) = Rust.asBytes path ++ [0] →
    ∀ x, StatCall pathPtr statPtr x → ∃ w', x w = .ok 0 w' ∧ w'.kernel = w.kernel ∧
      w'.ram = poke w.ram statPtr.toNat (linuxStat false r.data.length r.mode 2) ∧
      stSize w'.ram statPtr.toNat = r.data.length
  /-- It can be accessed. -/
  access : ∀ pathPtr : U64, pathPtr ≠ 0 →
    peek w.ram pathPtr.toNat ((Rust.asBytes path).length + 1) = Rust.asBytes path ++ [0] →
    ∀ x, AccessCall pathPtr x → ∃ w', x w = .ok 0 w' ∧ w'.kernel = w.kernel

/-- A file that was opened is read to its end. -/
theorem readToEnd_opened {name : String} {w : World} {r : FileRecord} {fd : ℕ}
    {touched : List ℕ} (hk : w.kernel.FilesOk) (hmount : w.kernel.rootfs = some image)
    (hopen : Fs.open image.bytes name = .ok r) (hfree : w.kernel.firstFree = some fd)
    {bufs : List (U64 × U64)} (hbufs : ReadBuffers bufs) :
    (∀ bs, readToEnd (BitVec.ofNat 64 fd) bufs
      ⟨w.kernel.setFd fd (r.opened image), w.ram, touched⟩ = some bs → bs = r.data) ∧
    (r.data.length < bufs.length → readToEnd (BitVec.ofNat 64 fd) bufs
      ⟨w.kernel.setFd fd (r.opened image), w.ram, touched⟩ = some r.data) := by
  obtain ⟨hbase, hlt⟩ := Kernel.firstFree_bound hfree
  have hnat := (Rust.ofNat_of_lt (n := fd) (hlt.trans (by decide))).2
  obtain ⟨i, hentry, -⟩ := Fs.open_eq_ok hopen
  have hk' : (w.kernel.setFd fd (r.opened image)).FilesOk :=
    hk.setFd hbase fun _ _ _ _ heq ↦ by
      cases heq
      exact ⟨image, i, r, hmount, hentry, rfl, rfl⟩
  have hf : (w.kernel.setFd fd (r.opened image)).openFiles (BitVec.ofNat 64 fd).toNat =
      some ⟨r.data, 0⟩ := by
    rw [hnat, Kernel.openFiles_setFd hlt, Function.update_self, openFile_opened hopen]
  have hrest : OpenFile.rest ⟨r.data, 0⟩ = r.data := List.drop_zero
  have hread := readToEnd_eq (w := ⟨w.kernel.setFd fd (r.opened image), w.ram, touched⟩) hk' hf
    hbufs
  rw [hrest] at hread
  rcases hread with hall | ⟨hnone, hfew⟩
  · rw [hall]
    exact ⟨fun bs hbs ↦ (Option.some_inj.mp hbs).symm, fun _ ↦ rfl⟩
  · rw [hnone]
    exact ⟨nofun, fun hmore ↦ absurd hmore (by omega)⟩

/-- **What the directory lists can be opened.** -/
theorem listed_usable {image : Image} {name : String} (hname : EmitsFile image name)
    (hplain : PlainName name) : ∃ i r, Fs.First image.bytes name i r ∧
      ∀ path ∈ pathsOf name, ∀ w : World, w.kernel.Reachable → w.kernel.rootfs = some image →
        (∃ slot, fdBase ≤ slot ∧ w.kernel.fdTable[slot]? = some .free) →
          Usable image r path w := by
  obtain ⟨i, hi⟩ := hname.rootNames (k := Kernel.boot.setRootfs image) rfl
  obtain ⟨j, r, hfirst, hopen⟩ := open_of_listed (k := Kernel.boot.setRootfs image) rfl hi
  have hlen : image.bytes.length < 2 ^ 64 := image.length_lt.trans (by decide)
  have hne := hfirst.name_ne hlen
  refine ⟨j, r, hfirst, fun path hpath w hreach hmount hfree ↦ ?_⟩
  obtain ⟨slot, hbase, hslot⟩ := hfree
  obtain ⟨fd, hfd⟩ := exists_firstFree hbase hslot
  have hcstr {ptr : ℕ} (hram : peek w.ram ptr ((Rust.asBytes path).length + 1) =
      Rust.asBytes path ++ [0]) : CstrAt w.ram ptr path :=
    hplain.cstrAt (length_le_of_mem_rootNames hi) hpath hram
  have hordinary := hplain.ordinary hne hpath
  have hfile := fileAt_of_listed hplain hne hpath hmount hopen
  constructor
  · intro pathPtr hptr hram
    obtain ⟨touched, hrun⟩ := openCall_file hptr (hcstr hram) hordinary hmount hfile hfd
    obtain ⟨hpos, hnat⟩ := Rust.ofNat_of_lt (n := fd)
      ((Kernel.firstFree_bound hfd).2.trans (by decide))
    refine ⟨_, _, hrun, hpos, by rw [hnat], fun bufs hbufs ↦ ?_⟩
    exact readToEnd_opened hreach.filesOk hmount hopen hfd hbufs
  · intro pathPtr statPtr hptr hstat hram x hx
    obtain ⟨touched, hrun⟩ := statCall_file hptr hstat (hcstr hram) hordinary hmount hfile hx
    have hsize := status_poke false _ 2 r.mode w.ram statPtr.toNat (hfirst.length_lt hlen)
      (by decide)
    exact ⟨_, hrun, rfl, rfl, hsize.2.2.2⟩
  · intro pathPtr hptr hram x hx
    obtain ⟨touched, hrun⟩ := accessCall_file hptr (hcstr hram) hordinary hmount hfile hx
    exact ⟨_, hrun, rfl⟩

/-- Three files, two of them of one name. -/
def threeFiles : List BuildFile := [⟨"a", 0o644, [1, 2, 3]⟩, ⟨"b", 0o600, []⟩, ⟨"a", 0o755, [4]⟩]

set_option maxRecDepth 20000 in
/-- Their image. -/
def threeImage : Image := ⟨Build.lfs1 threeFiles, by decide⟩

theorem plainName_a : PlainName "a" :=
  plainName_of_char rfl (by decide) (by decide) (by decide) (by decide)

set_option maxRecDepth 20000 in
theorem emitsFile_three : EmitsFile threeImage "a" :=
  ⟨0, ⟨"a", 0o644, 204, [1, 2, 3]⟩, rfl, rfl,
    (emits_iff (k := Kernel.boot.setRootfs threeImage) rfl).mpr (by decide)⟩

theorem reachable_three : (Kernel.boot.setRootfs threeImage).Reachable := by
  have hran : KernelEvent.Ran (.mount threeImage) ⟨.boot, fun _ ↦ 0, []⟩ 0
      ⟨Kernel.boot.setRootfs threeImage, fun _ ↦ 0, []⟩ := .mount
  exact Kernel.Reachable.step (w := ⟨.boot, fun _ ↦ 0, []⟩) Kernel.reachable_boot hran

/-- The first of them is opened as `./a`. -/
theorem listed_usable_three : ∃ i r, Fs.First threeImage.bytes "a" i r ∧
    Usable threeImage r "./a"
      ⟨Kernel.boot.setRootfs threeImage, poke (fun _ ↦ 0) 0x1000 (Rust.asBytes "./a"), []⟩ := by
  obtain ⟨i, r, hfirst, husable⟩ := listed_usable emitsFile_three plainName_a
  exact ⟨i, r, hfirst, husable "./a" (by decide) _ reachable_three rfl ⟨3, le_rfl, by decide⟩⟩

end LeonOS
