import LeonOS.Kernel.Dirents
import LeonOS.Kernel.Paths

/-!
# Names and paths

A path names a file by the file's name alone, or by `/` or `./` and the name (`pathsOf`).  A name
is plain (`PlainName`) when there is nothing in it that a path cannot have or that `normalize_path`
takes for something else.  All paths of a plain name are normalized to it, and none of them is one
that the functions compare with first.

A plain name that the root directory lists is found: the entries before the one that was listed are
valid, so that the search of `open` gets as far, and ends at the first entry with the name
(`open_of_listed`).
-/

set_option autoImplicit false

namespace LeonOS

open Bytes RustM

/-! ## Plain names -/

/-- **A name that can be written in a path.** -/
structure PlainName (name : String) : Prop where
  /-- It has no `/`. -/
  no_slash : '/' ∉ name.toList
  /-- It has no zero. -/
  no_nul : 0 ∉ Rust.asBytes name
  /-- It does not begin with a space. -/
  head : ∀ c ∈ name.toList.head?, isWhitespace c = false
  /-- It does not end with a space. -/
  last : ∀ c ∈ name.toList.getLast?, isWhitespace c = false
  /-- It is not the directory. -/
  not_dot : name ≠ "."
  /-- It is not the directory above. -/
  not_up : name ≠ ".."

/-- A name of one character is plain when the character is. -/
theorem plainName_of_char {name : String} {c : Char} (hname : name.toList = [c]) (hslash : c ≠ '/')
    (hspace : isWhitespace c = false) (hnul : 0 ∉ Rust.asBytes name) (hdot : name ≠ ".") :
    PlainName name where
  no_slash := by
    rw [hname, List.mem_singleton]
    exact hslash.symm
  no_nul := hnul
  head c' hc' := by
    rw [hname] at hc'
    exact Option.some_inj.mp hc' ▸ hspace
  last c' hc' := by
    rw [hname] at hc'
    exact Option.some_inj.mp hc' ▸ hspace
  not_dot := hdot
  not_up := by
    rintro rfl
    exact absurd hname (by simp)

/-- The paths of a name. -/
def pathsOf (name : String) : List String := [name, "/" ++ name, "./" ++ name]

variable {name path : String}

theorem trim_eq_self {s : List Char} (hhead : ∀ c, s.head? = some c → isWhitespace c = false)
    (hlast : ∀ c, s.getLast? = some c → isWhitespace c = false) : trim s = s := by
  have hfront : s.dropWhile isWhitespace = s := by
    refine List.dropWhile_eq_self_iff.mpr fun hlen ↦ ?_
    simp [hhead s[0] (by rw [List.head?_eq_getElem?, List.getElem?_eq_getElem hlen])]
  rw [trim, hfront]
  refine List.rdropWhile_eq_self_iff.mpr fun hne ↦ ?_
  simp [hlast _ (List.getLast?_eq_some_getLast hne)]

theorem stripDotSlash_eq_self {s : List Char} (h : ∀ t, s ≠ '.' :: '/' :: t) :
    stripDotSlash s = s := by
  unfold stripDotSlash
  split
  · exact absurd rfl (h _)
  · rfl

theorem dropWhile_slash {s : List Char} (h : '/' ∉ s) : s.dropWhile (· = '/') = s := by
  refine List.dropWhile_eq_self_iff.mpr fun hlen heq ↦ h ?_
  rw [← of_decide_eq_true heq]
  exact List.getElem_mem hlen

/-- A path with a prefix that is taken off is normalized to what is behind it. -/
theorem PlainName.normalizePath_eq (h : PlainName name) (hne : name ≠ "") (front : List Char)
    (hpath : path.toList = front ++ name.toList)
    (hspace : ∀ c, front.head? = some c → isWhitespace c = false)
    (hstrip : (stripDotSlash (front ++ name.toList)).dropWhile (· = '/') = name.toList) :
    normalizePath path = some name := by
  have hchars : name.toList ≠ [] := fun hnil ↦ hne (String.toList_eq_nil_iff.mp hnil)
  have htrim : trim path.toList = front ++ name.toList := by
    rw [hpath]
    refine trim_eq_self (fun c hc ↦ ?_) fun c hc ↦ h.last c ?_
    · cases front with
      | nil => exact h.head c hc
      | cons d front => exact hspace c hc
    · rwa [List.getLast?_append_of_ne_nil _ hchars] at hc
  simp [normalizePath, htrim, hstrip, h.no_slash, hchars]

/-- **All paths of a plain name are normalized to it.** -/
theorem PlainName.normalizePath (h : PlainName name) (hne : name ≠ "")
    (hpath : path ∈ pathsOf name) : normalizePath path = some name := by
  have hrest := dropWhile_slash h.no_slash
  rcases List.mem_cons.mp hpath with rfl | hpath
  · refine h.normalizePath_eq hne [] rfl nofun ?_
    rw [List.nil_append, stripDotSlash_eq_self fun t ht ↦ h.no_slash (by simp [ht]), hrest]
  rcases List.mem_cons.mp hpath with rfl | hpath
  · refine h.normalizePath_eq hne ['/'] (String.toList_append ..) (fun c hc ↦ ?_) ?_
    · obtain rfl : '/' = c := Option.some_inj.mp hc
      decide
    · rw [stripDotSlash_eq_self (by simp)]
      simp [hrest]
  · rw [List.mem_singleton.mp hpath]
    refine h.normalizePath_eq hne ['.', '/'] (String.toList_append ..) (fun c hc ↦ ?_) ?_
    · obtain rfl : '.' = c := Option.some_inj.mp hc
      decide
    · simp [stripDotSlash, hrest]

/-- What is normalized to a plain name is not taken for the directory. -/
theorem PlainName.ordinary (h : PlainName name) (hne : name ≠ "") (hpath : path ∈ pathsOf name) :
    Ordinary path := by
  have hname := h.normalizePath hne hpath
  constructor
  · rintro (rfl | rfl | rfl)
    · exact hne (Option.some_inj.mp (hname.symm.trans (by decide)))
    · exact h.not_dot (Option.some_inj.mp (hname.symm.trans (by decide)))
    · exact hne (Option.some_inj.mp (hname.symm.trans (by decide)))
  · rintro rfl
    exact h.not_up (Option.some_inj.mp (hname.symm.trans (by decide)))
  · rw [hname]
    exact fun heq ↦ hne (Option.some_inj.mp heq)

/-- A path of a plain name is read from memory as it is, if the name is not too long. -/
theorem PlainName.cstrAt (h : PlainName name) (hlen : (Rust.asBytes name).length ≤ 48)
    (hpath : path ∈ pathsOf name) {ram : ℕ → U8} {ptr : ℕ}
    (hram : peek ram ptr ((Rust.asBytes path).length + 1) = Rust.asBytes path ++ [0]) :
    CstrAt ram ptr path := by
  have hbytes : ∃ front, Rust.asBytes path = front ++ Rust.asBytes name ∧ 0 ∉ front ∧
      front.length ≤ 2 := by
    rcases List.mem_cons.mp hpath with rfl | hpath
    · exact ⟨[], rfl, nofun, by decide⟩
    rcases List.mem_cons.mp hpath with rfl | hpath
    · exact ⟨_, Rust.asBytes_append .., by decide, by decide⟩
    · rw [List.mem_singleton.mp hpath]
      exact ⟨_, Rust.asBytes_append .., by decide, by decide⟩
  obtain ⟨front, hfront, hzero, hshort⟩ := hbytes
  refine ⟨hram, ?_, ?_⟩
  · rw [hfront]
    exact fun hmem ↦ (List.mem_append.mp hmem).elim hzero h.no_nul
  · rw [hfront, List.length_append, cstrMax]
    omega

/-! ## The search -/

namespace Fs

/-- **The first entry with a name.** -/
structure First (image : List U8) (name : String) (i : ℕ) (r : FileRecord) : Prop where
  /-- It is an entry. -/
  entry : entry image i = .ok r
  /-- It has the name. -/
  named : r.name = name
  /-- None before it has. -/
  least : ∀ j < i, ∀ r', Fs.entry image j = .ok r' → r'.name ≠ name

variable {image : List U8} {i m n : ℕ} {r : FileRecord}

theorem First.name_ne (h : First image name i r) (hlen : image.length < 2 ^ 64) : name ≠ "" := by
  have hpos := (entryAt_record hlen (entryAt_of_entry h.entry)).name_pos
  rw [h.named] at hpos
  rintro rfl
  exact absurd hpos (by decide)

theorem First.length_lt (h : First image name i r) (hlen : image.length < 2 ^ 64) :
    r.data.length < 2 ^ 64 := by
  have hle := (entryAt_record hlen (entryAt_of_entry h.entry)).data_le
  omega

/-- The loop of `open` finds a name that an entry has, if there is none before it that is not
valid. -/
theorem openFrom_found (hvalid : ∀ k ≤ m, ∃ r, entryAt image (i + k) = .ok r)
    (hr : entryAt image (i + m) = .ok r) (hname : r.name = name) (hm : m < n) :
    ∃ k r', openFrom image name n i = .ok r' ∧ entryAt image (i + k) = .ok r' ∧ k ≤ m ∧
      r'.name = name ∧ ∀ j < k, ∀ r', entryAt image (i + j) = .ok r' → r'.name ≠ name := by
  induction m generalizing i n with
  | zero =>
    obtain ⟨n, rfl⟩ : ∃ l, n = l + 1 := ⟨n - 1, by omega⟩
    rw [Nat.add_zero] at hr
    refine ⟨0, r, ?_, hr, le_rfl, hname, fun j hj ↦ absurd hj (Nat.not_lt_zero j)⟩
    simp [openFrom, hr, hname, pure, Except.pure]
  | succ m ih =>
    obtain ⟨n, rfl⟩ : ∃ l, n = l + 1 := ⟨n - 1, by omega⟩
    obtain ⟨r₀, hr₀⟩ := hvalid 0 (Nat.zero_le _)
    rw [Nat.add_zero] at hr₀
    by_cases hfirst : r₀.name = name
    · refine ⟨0, r₀, ?_, hr₀, Nat.zero_le _, hfirst, fun j hj ↦ absurd hj (Nat.not_lt_zero j)⟩
      simp [openFrom, hr₀, hfirst, pure, Except.pure]
    have hnext (k : ℕ) : i + 1 + k = i + (k + 1) := by omega
    obtain ⟨k, r', hopen, hentry, hk, hr', hleast⟩ :=
      ih (i := i + 1) (n := n) (fun k hk ↦ by rw [hnext]; exact hvalid (k + 1) (by omega))
        (by rw [hnext]; exact hr) (by omega)
    refine ⟨k + 1, r', ?_, by rw [← hnext]; exact hentry, by omega, hr', fun j hj r'' hr'' ↦ ?_⟩
    · simp [openFrom, hr₀, hfirst, hopen]
    · cases j with
      | zero =>
        rw [Nat.add_zero, hr₀] at hr''
        rw [← Except.ok.inj hr'']
        exact hfirst
      | succ j =>
        rw [← hnext] at hr''
        exact hleast j (by omega) r'' hr''

end Fs

variable {k : Kernel} {image : Image} {i : ℕ}

/-- **A name that is listed is found**, at its first entry. -/
theorem open_of_listed (hmount : k.rootfs = some image)
    (h : k.rootNames[i + 2]? = some (Rust.asBytes name)) :
    ∃ j r, Fs.First image.bytes name j r ∧ Fs.open image.bytes name = .ok r := by
  have hvalid (m : ℕ) (hm : m ≤ i) : ∃ r, Fs.entry image.bytes m = .ok r := by
    have hlt := (List.getElem?_eq_some_iff.mp h).1
    obtain ⟨image', r, hmount', hr, -⟩ := entry_of_rootNames
      (List.getElem?_eq_getElem (show m + 2 < k.rootNames.length by omega))
    obtain rfl := Option.some_inj.mp (hmount.symm.trans hmount')
    exact ⟨r, hr⟩
  obtain ⟨image', r, hmount', hr, hname⟩ := entry_of_rootNames h
  obtain rfl := Option.some_inj.mp (hmount.symm.trans hmount')
  obtain ⟨hdr, hhdr, hcount⟩ := Rust.bind_eq_ok.mp hr
  obtain ⟨_, hlt, -⟩ := Rust.bind_eq_ok.mp hcount
  rw [Rust.failIf_eq_ok, not_le] at hlt
  obtain ⟨j, r', hopen, hentry, hj, hr', hleast⟩ := Fs.openFrom_found (i := 0) (m := i)
    (fun m hm ↦ by
      obtain ⟨r, hr⟩ := hvalid m hm
      rw [Nat.zero_add]
      exact ⟨r, Fs.entryAt_of_entry hr⟩)
    (by rw [Nat.zero_add]; exact Fs.entryAt_of_entry hr) (Rust.asBytes_injective hname) hlt
  refine ⟨j, r', ⟨?_, hr', fun m hm r'' hr'' ↦ hleast m hm r'' ?_⟩, ?_⟩
  · rw [Fs.entry_of_lt hhdr (by omega), ← Nat.zero_add j]
    exact hentry
  · rw [Nat.zero_add]
    exact Fs.entryAt_of_entry hr''
  · rw [Fs.open, hhdr]
    exact hopen

/-! ## What the calls do with a file -/

section Calls

variable {w : World} {pathPtr statPtr : U64} {fd : ℕ} {r : FileRecord}

theorem fileAt_of_listed (hplain : PlainName name) (hne : name ≠ "") (hpath : path ∈ pathsOf name)
    (hmount : w.kernel.rootfs = some image) (hopen : Fs.open image.bytes name = .ok r) :
    w.kernel.fileAt path = some r := by
  rw [(hplain.ordinary hne hpath).fileAt hmount, hplain.normalizePath hne hpath, Option.bind_some,
    hopen]
  rfl

theorem openCall_file (hptr : pathPtr ≠ 0) (hcstr : CstrAt w.ram pathPtr.toNat path)
    (hpath : Ordinary path) (hmount : w.kernel.rootfs = some image)
    (hfile : w.kernel.fileAt path = some r) (hfree : w.kernel.firstFree = some fd) :
    ∃ touched, openCall pathPtr w =
      .ok (BitVec.ofNat 64 fd) ⟨w.kernel.setFd fd (r.opened image), w.ram, touched⟩ := by
  obtain ⟨touched, hrun⟩ := openCall_eq hptr hcstr
  refine ⟨touched, ?_⟩
  rw [hrun, hpath.openPath (w := { w with touched }) hmount, hfile]
  exact allocFd_ok (w := { w with touched }) hfree _

theorem statCall_file (hptr : pathPtr ≠ 0) (hstat : statPtr ≠ 0)
    (hcstr : CstrAt w.ram pathPtr.toNat path) (hpath : Ordinary path)
    (hmount : w.kernel.rootfs = some image) (hfile : w.kernel.fileAt path = some r) {x : SysM U64}
    (hx : StatCall pathPtr statPtr x) : ∃ touched, x w =
      .ok 0 ⟨w.kernel, poke w.ram statPtr.toNat (linuxStat false r.data.length r.mode 2),
        touched⟩ := by
  obtain ⟨touched, hrun⟩ := hx.eq hptr hstat hcstr
  rw [hpath.statPath (w := { w with touched }) hmount, hfile] at hrun
  exact ⟨_, hrun⟩

theorem accessCall_file (hptr : pathPtr ≠ 0) (hcstr : CstrAt w.ram pathPtr.toNat path)
    (hpath : Ordinary path) (hmount : w.kernel.rootfs = some image)
    (hfile : w.kernel.fileAt path = some r) {x : SysM U64} (hx : AccessCall pathPtr x) :
    ∃ touched, x w = .ok 0 { w with touched } := by
  obtain ⟨touched, hrun⟩ := hx.eq hptr hcstr
  have hexists : w.kernel.pathExists path = true := by
    rw [hpath.pathExists hmount, hfile]
    rfl
  rw [accessPath, bind_getKernel, if_pos hexists] at hrun
  exact ⟨touched, hrun⟩

theorem exists_firstFree {slot : ℕ} (hbase : fdBase ≤ slot)
    (hslot : w.kernel.fdTable[slot]? = some .free) : ∃ fd, w.kernel.firstFree = some fd := by
  have hlt := Kernel.lt_of_getElem?_fdTable hslot
  refine Option.isSome_iff_exists.mp (List.find?_isSome.mpr ⟨slot, ?_, ?_⟩)
  · exact List.mem_range'_1.mpr ⟨hbase, by rw [maxFds, fdBase] at *; omega⟩
  · rw [hslot]
    rfl

end Calls

/-! ## What a status says -/

/-- `st_dev` of the status at an address. -/
def stDev (ram : ℕ → U8) (ptr : ℕ) : ℕ := ofLE (peek ram ptr 8)

/-- `st_ino`. -/
def stIno (ram : ℕ → U8) (ptr : ℕ) : ℕ := ofLE (peek ram (ptr + 8) 8)

/-- `st_mode`. -/
def stMode (ram : ℕ → U8) (ptr : ℕ) : BitVec 32 := BitVec.ofNat 32 (ofLE (peek ram (ptr + 24) 4))

/-- `st_size`. -/
def stSize (ram : ℕ → U8) (ptr : ℕ) : ℕ := ofLE (peek ram (ptr + 48) 8)

/-- The type bits of a mode, as `d_type` has them. -/
def modeType (mode : BitVec 32) : U8 := ((mode &&& 0o170000) >>> 12).setWidth 8

section Status

variable (isDir : Bool) (size ino : ℕ) (mode : BitVec 16) (ram : ℕ → U8) (ptr : ℕ)

/-- The mode that is written. -/
def linuxMode (isDir : Bool) (mode : BitVec 16) : BitVec 32 :=
  (if isDir then 0o040000 else 0o100000) ||| (mode.setWidth 32 &&& 0o7777)

theorem modeType_linuxMode : modeType (linuxMode isDir mode) = if isDir then dtDir else dtReg := by
  have hperm : mode.setWidth 32 &&& 0o7777 &&& 0o170000 = 0 := by
    rw [BitVec.and_assoc]
    exact BitVec.and_zero
  rw [modeType, linuxMode, BitVec.and_or_distrib_right, hperm]
  cases isDir <;> rfl

/-- The fields of a status, one after the other. -/
theorem linuxStat_fields : ∃ rest, linuxStat isDir size mode ino = toLE 8 1 ++ (toLE 8 ino ++
    (toLE 8 1 ++ (toLE 4 (linuxMode isDir mode).toNat ++ (toLE 4 0 ++ (toLE 4 0 ++ (toLE 4 0 ++
      (toLE 8 0 ++ (toLE 8 size ++ rest)))))))) := by
  refine ⟨toLE 8 4096 ++ toLE 8 ((size + 511) / 512) ++ List.replicate 48 0 ++
    List.replicate 24 0, ?_⟩
  simp only [linuxStat, linuxMode, List.append_assoc]

/-- **What is read from a status** that was written. -/
theorem status_poke (hsize : size < 2 ^ 64) (hino : ino < 2 ^ 64) :
    stDev (poke ram ptr (linuxStat isDir size mode ino)) ptr = 1 ∧
      stIno (poke ram ptr (linuxStat isDir size mode ino)) ptr = ino ∧
      stMode (poke ram ptr (linuxStat isDir size mode ino)) ptr = linuxMode isDir mode ∧
      stSize (poke ram ptr (linuxStat isDir size mode ino)) ptr = size := by
  obtain ⟨rest, hfields⟩ := linuxStat_fields isDir size ino mode
  have hfield (front : List U8) {i n v : ℕ} {back : List U8}
      (hsplit : linuxStat isDir size mode ino = front ++ (toLE n v ++ back))
      (hi : i = front.length) :
      ofLE (peek (poke ram ptr (linuxStat isDir size mode ino)) (ptr + i) n) = v % 256 ^ n := by
    rw [peek_poke_slice (by simp [hsplit, hi]), hsplit, slice_middle _ hi (by simp), ofLE_toLE]
  refine ⟨?_, ?_, ?_, ?_⟩
  · have hdev := hfield [] (n := 8) (v := 1) hfields rfl
    simpa [stDev] using hdev
  · rw [stIno, hfield (toLE 8 1) hfields (by simp)]
    exact Nat.mod_eq_of_lt hino
  · have hword : (linuxMode isDir mode).toNat % 256 ^ 4 = (linuxMode isDir mode).toNat :=
      Nat.mod_eq_of_lt (linuxMode isDir mode).isLt
    rw [stMode, hfield (toLE 8 1 ++ (toLE 8 ino ++ toLE 8 1)) (by simpa using hfields) (by simp),
      hword, BitVec.ofNat_toNat, BitVec.setWidth_eq]
  · rw [stSize, hfield (toLE 8 1 ++ (toLE 8 ino ++ (toLE 8 1 ++
      (toLE 4 (linuxMode isDir mode).toNat ++ (toLE 4 0 ++ (toLE 4 0 ++ (toLE 4 0 ++ toLE 8 0)))))))
      (by simpa using hfields) (by simp)]
    exact Nat.mod_eq_of_lt hsize

end Status

end LeonOS
