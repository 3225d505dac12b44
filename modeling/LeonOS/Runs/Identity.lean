import LeonOS.Runs.Listed

/-!
# Inode numbers

`getdents64` numbers the files by their place in the directory, from 2 on; `stat` and `fstat` give
every file the number 2.  So the record of a name and the status of it agree (`Identified`) on the
directory itself and on the first file, and on nothing else (`identity_iff`), and all files have
one identity (`st_dev`, `st_ino`).

`..` is a case of its own.  Its record, and the descriptor that is opened by it, have the number 1,
but no status can be had by this path: `stat` looks for a file of this name.
-/

set_option autoImplicit false

namespace LeonOS

open Bytes RustM

/-! ## Agreement -/

/-- The status at an address has the inode number and the type of the record. -/
def Dirent.Reported (d : Dirent) (ram : ℕ → U8) (statPtr : ℕ) : Prop :=
  stIno ram statPtr = d.ino ∧ modeType (stMode ram statPtr) = d.typ

/-- A path and a buffer for a status in memory, while the kernel is `k`. -/
structure Asked (k : Kernel) (name : String) (w : World) (pathPtr statPtr : U64) : Prop where
  /-- The kernel. -/
  kernel : w.kernel = k
  /-- The path is somewhere. -/
  path_ne : pathPtr ≠ 0
  /-- So is the buffer. -/
  stat_ne : statPtr ≠ 0
  /-- The path is the name. -/
  path : CstrAt w.ram pathPtr.toNat name

/-- `stat` on the name reports what the record says. -/
def StatAgrees (k : Kernel) (name : String) (d : Dirent) : Prop :=
  ∀ w pathPtr statPtr x, Asked k name w pathPtr statPtr → StatCall pathPtr statPtr x →
    ∃ w', x w = .ok 0 w' ∧ d.Reported w'.ram statPtr.toNat

/-- `fstat` on a descriptor that was opened by the name reports what the record says. -/
def FstatAgrees (k : Kernel) (name : String) (d : Dirent) : Prop :=
  ∀ w pathPtr statPtr arg2 arg3, Asked k name w pathPtr statPtr →
    ∃ fd w₁ w₂, openCall pathPtr w = .ok fd w₁ ∧ ¬fd.toInt < 0 ∧
      dispatch .fstat fd statPtr arg2 arg3 w₁ = .ok 0 w₂ ∧ d.Reported w₂.ram statPtr.toNat

/-- **The record of a name is identified**: all that report about the name agree with it. -/
def Identified (k : Kernel) (name : String) (d : Dirent) : Prop :=
  StatAgrees k name d ∧ FstatAgrees k name d

/-- `stat` on a name reports an identity. -/
def StatIdentity (k : Kernel) (name : String) (dev ino : ℕ) : Prop :=
  ∃ w pathPtr statPtr x w', Asked k name w pathPtr statPtr ∧ StatCall pathPtr statPtr x ∧
    x w = .ok 0 w' ∧ stDev w'.ram statPtr.toNat = dev ∧ stIno w'.ram statPtr.toNat = ino

/-- **Two different files never have one identity.** -/
def NeverShare (k : Kernel) : Prop :=
  ∀ i j name name', i ≠ j → k.rootNames[i + 2]? = some (Rust.asBytes name) →
    k.rootNames[j + 2]? = some (Rust.asBytes name') →
      ∀ dev ino, ¬(StatIdentity k name dev ino ∧ StatIdentity k name' dev ino)

/-! ## What is reported -/

variable {k : Kernel} {name : String} {w : World} {pathPtr statPtr : U64} {d : Dirent} {i fd : ℕ}
  {image : Image} {r : FileRecord}

/-- Any short name can be asked for. -/
theorem exists_asked (k : Kernel) (hzero : 0 ∉ Rust.asBytes name)
    (hlen : (Rust.asBytes name).length < cstrMax) :
    ∃ w, Asked k name w 0x1000 0x2000 := by
  refine ⟨⟨k, poke (fun _ ↦ 0) 0x1000 (Rust.asBytes name ++ [0]), []⟩, rfl, by decide, by decide,
    ⟨?_, hzero, hlen⟩⟩
  rw [← List.length_singleton (a := (0 : U8)), ← List.length_append]
  exact peek_poke_self _ _ _

theorem reported_iff {isDir : Bool} {size ino : ℕ} {mode : BitVec 16} {ram : ℕ → U8} {ptr : ℕ}
    (hsize : size < 2 ^ 64) (hino : ino < 2 ^ 64) :
    d.Reported (poke ram ptr (linuxStat isDir size mode ino)) ptr ↔
      ino = d.ino ∧ (if isDir then dtDir else dtReg) = d.typ := by
  obtain ⟨-, hstIno, hstMode, -⟩ := status_poke isDir size ino mode ram ptr hsize hino
  rw [Dirent.Reported, hstIno, hstMode, modeType_linuxMode]

/-- The names of the directory are strings. -/
theorem exists_name {bytes : List U8} (h : k.rootNames[i]? = some bytes) :
    ∃ name, bytes = Rust.asBytes name := by
  match i with
  | 0 => exact ⟨".", (Option.some_inj.mp h).symm⟩
  | 1 => exact ⟨"..", (Option.some_inj.mp h).symm⟩
  | i + 2 =>
    obtain ⟨-, r, -, -, hname⟩ := entry_of_rootNames h
    exact ⟨r.name, hname.symm⟩

/-- What the calls report decides if they agree. -/
theorem statAgrees_iff (isDir : Bool) {size ino : ℕ} (mode : BitVec 16) (hsize : size < 2 ^ 64)
    (hino : ino < 2 ^ 64) (hasked : ∃ w, Asked k name w 0x1000 0x2000)
    (hstat : ∀ w pathPtr statPtr x, Asked k name w pathPtr statPtr → StatCall pathPtr statPtr x →
      ∃ touched, x w =
        .ok 0 ⟨w.kernel, poke w.ram statPtr.toNat (linuxStat isDir size mode ino), touched⟩) :
    StatAgrees k name d ↔ ino = d.ino ∧ (if isDir then dtDir else dtReg) = d.typ := by
  constructor
  · intro h
    obtain ⟨w, hw⟩ := hasked
    obtain ⟨w', hrun, hreported⟩ := h w _ _ _ hw (.stat 0 0)
    obtain ⟨touched, hrun'⟩ := hstat w _ _ _ hw (.stat 0 0)
    obtain ⟨-, rfl⟩ := EStateM.Result.ok.inj (hrun.symm.trans hrun')
    exact (reported_iff hsize hino).mp hreported
  · intro h w pathPtr statPtr x hw hx
    obtain ⟨touched, hrun⟩ := hstat w pathPtr statPtr x hw hx
    exact ⟨_, hrun, (reported_iff hsize hino).mpr h⟩

theorem fstatAgrees_iff {isDir : Bool} {size ino : ℕ} {mode : BitVec 16} (entry : FdEntry)
    (hsize : size < 2 ^ 64) (hino : ino < 2 ^ 64) (hasked : ∃ w, Asked k name w 0x1000 0x2000)
    (hfree : k.firstFree = some fd) (hstatus : entry.status = some (linuxStat isDir size mode ino))
    (hopen : ∀ w pathPtr statPtr, Asked k name w pathPtr statPtr → ∃ touched, openCall pathPtr w =
      .ok (BitVec.ofNat 64 fd) ⟨w.kernel.setFd fd entry, w.ram, touched⟩) :
    FstatAgrees k name d ↔ ino = d.ino ∧ (if isDir then dtDir else dtReg) = d.typ := by
  obtain ⟨hbase, hlt⟩ := Kernel.firstFree_bound hfree
  have hpos := (Rust.ofNat_of_lt (n := fd) (hlt.trans (by decide))).1
  have hfstat (w : World) (statPtr arg2 arg3 : U64) (touched : List ℕ) (hstat : statPtr ≠ 0) :=
    fstat_ok (w := ⟨w.kernel.setFd fd entry, w.ram, touched⟩) hstat ⟨hbase, hlt⟩
      ((Kernel.getElem?_setFd hlt).trans (if_pos rfl)) hstatus arg2 arg3
  constructor
  · intro h
    obtain ⟨w, hw⟩ := hasked
    obtain ⟨fd', w₁, w₂, hrun, -, hrun₂, hreported⟩ := h w _ _ 0 0 hw
    obtain ⟨touched, hrun'⟩ := hopen w _ _ hw
    obtain ⟨rfl, rfl⟩ := EStateM.Result.ok.inj (hrun.symm.trans hrun')
    obtain ⟨touched', hrun₂'⟩ := hfstat w _ 0 0 touched hw.stat_ne
    obtain ⟨-, rfl⟩ := EStateM.Result.ok.inj (hrun₂.symm.trans hrun₂')
    exact (reported_iff hsize hino).mp hreported
  · intro h w pathPtr statPtr arg2 arg3 hw
    obtain ⟨touched, hrun⟩ := hopen w pathPtr statPtr hw
    obtain ⟨touched', hrun₂⟩ := hfstat w statPtr arg2 arg3 touched hw.stat_ne
    exact ⟨_, _, _, hrun, hpos, hrun₂, (reported_iff hsize hino).mpr h⟩

/-! ## The directory -/

theorem exists_asked_dot (k : Kernel) : ∃ w, Asked k "." w 0x1000 0x2000 :=
  exists_asked k (by decide) (by decide)

theorem exists_asked_up (k : Kernel) : ∃ w, Asked k ".." w 0x1000 0x2000 :=
  exists_asked k (by decide) (by decide)

theorem openCall_root (hw : Asked k name w pathPtr statPtr) (hroot : NamesRoot name ∨ name = "..")
    (hfree : k.firstFree = some fd) : ∃ touched, openCall pathPtr w =
      .ok (BitVec.ofNat 64 fd) ⟨w.kernel.setFd fd (.rootDir 0), w.ram, touched⟩ := by
  obtain ⟨rfl, hptr, -, hpath⟩ := hw
  obtain ⟨touched, hrun⟩ := openCall_eq hptr hpath
  refine ⟨touched, ?_⟩
  rw [hrun, openPath_root (hroot.imp_right .inl)]
  exact allocFd_ok (w := { w with touched }) hfree _

/-- The record of `.` is right. -/
theorem identified_dot (hfree : k.firstFree = some fd) :
    Identified k "." (Dirent.of 0 (Rust.asBytes ".")) := by
  constructor
  · refine (statAgrees_iff true 0o040755 (Nat.two_pow_pos 64) (by decide)
      (exists_asked_dot k) fun w pathPtr statPtr x hw hx ↦ ?_).mpr ⟨rfl, rfl⟩
    obtain ⟨touched, hrun⟩ := hx.eq hw.path_ne hw.stat_ne hw.path
    rw [statPath] at hrun
    exact ⟨_, hrun.trans (congrFun (if_pos (.inr (.inl rfl))) _)⟩
  · refine (fstatAgrees_iff (.rootDir 0) (by decide) (by decide) (exists_asked_dot k) hfree
      rfl fun w pathPtr statPtr hw ↦ ?_).mpr ⟨rfl, rfl⟩
    exact openCall_root hw (.inl (.inr (.inl rfl))) hfree

/-- `stat` takes `..` for a file. -/
theorem statPath_up (ptr : ℕ) (w : World) : statPath ".." ptr w = .ok (-enoent) w ∨
    ∃ size mode, size < 2 ^ 64 ∧ statPath ".." ptr w = writeStat ptr false size mode 2 w := by
  have hname : normalizePath ".." = some ".." := by decide
  have hroot : ¬(".." = "" ∨ ".." = "." ∨ ".." = "/") := by decide
  rw [statPath, hname]
  cases hmount : w.kernel.rootfs with
  | none =>
    refine .inl ((congrFun (if_neg hroot) w).trans ?_)
    dsimp only
    rw [bind_getKernel, hmount]
    rfl
  | some image =>
    cases hopen : Fs.open image.bytes ".." with
    | error e =>
      refine .inl ((congrFun (if_neg hroot) w).trans ?_)
      dsimp only
      rw [bind_getKernel, hmount]
      dsimp only
      rw [hopen]
      rfl
    | ok r =>
      refine .inr ⟨r.data.length, r.mode, ?_, (congrFun (if_neg hroot) w).trans ?_⟩
      · obtain ⟨i, hentry, -⟩ := Fs.open_eq_ok hopen
        have hlen := image.length_lt
        have hle := (Fs.entryAt_record (hlen.trans (by decide))
          (Fs.entryAt_of_entry hentry)).data_le
        omega
      · dsimp only
        rw [bind_getKernel, hmount]
        dsimp only
        rw [hopen]

/-- `..` has no status, or that of a file with this name. -/
theorem not_statAgrees_up : ¬StatAgrees k ".." (Dirent.of 1 (Rust.asBytes "..")) := by
  intro h
  obtain ⟨w, hw⟩ := exists_asked_up k
  obtain ⟨w', hrun, hreported⟩ := h w _ _ _ hw (.stat 0 0)
  obtain ⟨touched, hrun'⟩ := (StatCall.stat 0 0).eq hw.path_ne hw.stat_ne hw.path
  rcases statPath_up _ { w with touched } with hup | ⟨size, mode, hsize, hup⟩
  · exact nomatch (EStateM.Result.ok.inj (hrun.symm.trans (hrun'.trans hup))).1
  · obtain ⟨-, rfl⟩ := EStateM.Result.ok.inj (hrun.symm.trans (hrun'.trans hup))
    exact nomatch ((reported_iff hsize (by decide)).mp hreported).1

theorem fstatAgrees_up (hfree : k.firstFree = some fd) :
    FstatAgrees k ".." (Dirent.of 1 (Rust.asBytes "..")) := by
  refine (fstatAgrees_iff (.rootDir 0) (by decide) (by decide) (exists_asked_up k) hfree rfl
    fun w pathPtr statPtr hw ↦ ?_).mpr ⟨rfl, rfl⟩
  exact openCall_root hw (.inr rfl) hfree

/-! ## Files -/

theorem exists_asked_file (hplain : PlainName name)
    (hname : k.rootNames[i + 2]? = some (Rust.asBytes name)) :
    ∃ w, Asked k name w 0x1000 0x2000 :=
  exists_asked k hplain.no_nul ((length_le_of_mem_rootNames hname).trans_lt (by decide))

section Files

variable (hplain : PlainName name) (hmount : k.rootfs = some image)
  (hname : k.rootNames[i + 2]? = some (Rust.asBytes name))

include hplain hmount hname

/-- What is found under a name of the directory. -/
theorem exists_file : ∃ r, r.data.length < 2 ^ 64 ∧ Ordinary name ∧
    ∀ w : World, w.kernel = k → w.kernel.fileAt name = some r := by
  obtain ⟨j, r, hfirst, hopen⟩ := open_of_listed hmount hname
  have hlen : image.bytes.length < 2 ^ 64 := image.length_lt.trans (by decide)
  have hne := hfirst.name_ne hlen
  refine ⟨r, hfirst.length_lt hlen, hplain.ordinary hne List.mem_cons_self, fun w hw ↦ ?_⟩
  exact fileAt_of_listed hplain hne List.mem_cons_self (hw ▸ hmount) hopen

/-- **A file is identified just when it is the first.** -/
theorem agrees_file_iff (hfree : k.firstFree = some fd) :
    (StatAgrees k name (Dirent.of (i + 2) (Rust.asBytes name)) ↔ i = 0) ∧
      (FstatAgrees k name (Dirent.of (i + 2) (Rust.asBytes name)) ↔ i = 0) := by
  obtain ⟨r, hsize, hordinary, hfile⟩ := exists_file hplain hmount hname
  have hasked := exists_asked_file hplain hname
  have hnumber : (2 = (Dirent.of (i + 2) (Rust.asBytes name)).ino ∧
      (if false then dtDir else dtReg) = (Dirent.of (i + 2) (Rust.asBytes name)).typ) ↔ i = 0 := by
    simp [Dirent.of]
  rw [← hnumber]
  constructor
  · exact statAgrees_iff false r.mode hsize (by decide) hasked fun w pathPtr statPtr x hw hx ↦
      statCall_file hw.path_ne hw.stat_ne hw.path hordinary (hw.kernel ▸ hmount)
        (hfile w hw.kernel) hx
  · exact fstatAgrees_iff (r.opened image) hsize (by decide) hasked hfree rfl
      fun w pathPtr statPtr hw ↦ openCall_file hw.path_ne hw.path hordinary (hw.kernel ▸ hmount)
        (hfile w hw.kernel) (hw.kernel ▸ hfree)

/-- Every file has the same identity. -/
theorem statIdentity_file : StatIdentity k name 1 2 := by
  obtain ⟨r, hsize, hordinary, hfile⟩ := exists_file hplain hmount hname
  obtain ⟨w, hw⟩ := exists_asked_file hplain hname
  obtain ⟨touched, hrun⟩ := statCall_file hw.path_ne hw.stat_ne hw.path hordinary
    (hw.kernel ▸ hmount) (hfile w hw.kernel) (.stat 0 0)
  obtain ⟨hdev, hino, -⟩ := status_poke false r.data.length 2 r.mode w.ram (0x2000 : U64).toNat
    hsize (by decide)
  exact ⟨w, _, _, _, _, hw, .stat 0 0, hrun, hdev, hino⟩

end Files

/-- Two files have one identity. -/
theorem neverShare_iff (hmount : k.rootfs = some image)
    (hplain : ∀ i name, k.rootNames[i + 2]? = some (Rust.asBytes name) → PlainName name) :
    NeverShare k ↔ k.rootNames.length ≤ 3 := by
  constructor
  · intro hnever
    by_contra hmore
    have hexists (i : ℕ) (hi : i + 2 < k.rootNames.length) :
        ∃ name, k.rootNames[i + 2]? = some (Rust.asBytes name) ∧ StatIdentity k name 1 2 := by
      have hget := List.getElem?_eq_getElem hi
      obtain ⟨name, hbytes⟩ := exists_name hget
      rw [hbytes] at hget
      exact ⟨name, hget, statIdentity_file (hplain i name hget) hmount hget⟩
    obtain ⟨name, hname, hidentity⟩ := hexists 0 (by omega)
    obtain ⟨name', hname', hidentity'⟩ := hexists 1 (by omega)
    exact hnever 0 1 name name' (by decide) hname hname' 1 2 ⟨hidentity, hidentity'⟩
  · intro hfew i j name name' hne hname hname'
    have hi := (List.getElem?_eq_some_iff.mp hname).1
    have hj := (List.getElem?_eq_some_iff.mp hname').1
    omega

/-- **When the numbers agree**: the record of a name is identified just when it is that of `.` or of
the first file, and files have identities of their own just when there is at most one of them. -/
theorem identity_iff {image : Image} {k : Kernel} {fd : ℕ} (hmount : k.rootfs = some image)
    (hfree : k.firstFree = some fd)
    (hplain : ∀ i name, k.rootNames[i + 2]? = some (Rust.asBytes name) → PlainName name) :
    (∀ d, Emits image d → ∃ i name, k.rootNames[i]? = some (Rust.asBytes name) ∧
      d = Dirent.of i (Rust.asBytes name) ∧ (Identified k name d ↔ i = 0 ∨ i = 2) ∧
        (FstatAgrees k name d ↔ i ≤ 2)) ∧
    (NeverShare k ↔ k.rootNames.length ≤ 3) := by
  refine ⟨fun d hd ↦ ?_, neverShare_iff hmount hplain⟩
  obtain ⟨i, hi, rfl⟩ := List.mem_mapIdx.mp ((emits_iff hmount).mp hd)
  have hget := List.getElem?_eq_getElem hi
  obtain ⟨name, hbytes⟩ := exists_name hget
  rw [hbytes] at hget ⊢
  refine ⟨i, name, hget, rfl, ?_⟩
  match i with
  | 0 =>
    obtain rfl : "." = name := Rust.asBytes_injective (Option.some_inj.mp hget)
    exact ⟨iff_of_true (identified_dot hfree) (.inl rfl),
      iff_of_true (identified_dot hfree).2 (by decide)⟩
  | 1 =>
    obtain rfl : ".." = name := Rust.asBytes_injective (Option.some_inj.mp hget)
    exact ⟨iff_of_false (fun h ↦ not_statAgrees_up h.1) (by decide),
      iff_of_true (fstatAgrees_up hfree) (by decide)⟩
  | i + 2 =>
    obtain ⟨hstat, hfstat⟩ := agrees_file_iff (hplain i name hget) hmount hget hfree
    rw [Identified, hstat, hfstat]
    omega

/-- Two files. -/
def abFiles : List BuildFile := [⟨"a", 0o644, [1]⟩, ⟨"b", 0o600, []⟩]

set_option maxRecDepth 20000 in
/-- Their image. -/
def abImage : Image := ⟨Build.lfs1 abFiles, by decide⟩

/-- The image is mounted. -/
def abKernel : Kernel := Kernel.boot.setRootfs abImage

set_option maxRecDepth 20000 in
theorem rootNames_ab : abKernel.rootNames = ["." , "..", "a", "b"].map Rust.asBytes := by decide

theorem firstFree_ab : abKernel.firstFree = some 3 := by decide

theorem plainName_b : PlainName "b" :=
  plainName_of_char rfl (by decide) (by decide) (by decide) (by decide)

theorem plainName_ab (i : ℕ) (name : String)
    (h : abKernel.rootNames[i + 2]? = some (Rust.asBytes name)) : PlainName name := by
  rw [rootNames_ab] at h
  match i with
  | 0 =>
    obtain rfl : "a" = name := Rust.asBytes_injective (Option.some_inj.mp h)
    exact plainName_a
  | 1 =>
    obtain rfl : "b" = name := Rust.asBytes_injective (Option.some_inj.mp h)
    exact plainName_b
  | i + 2 => exact nomatch h

theorem identity_iff_ab :
    (∀ d, Emits abImage d → ∃ i name, abKernel.rootNames[i]? = some (Rust.asBytes name) ∧
      d = Dirent.of i (Rust.asBytes name) ∧ (Identified abKernel name d ↔ i = 0 ∨ i = 2) ∧
        (FstatAgrees abKernel name d ↔ i ≤ 2)) ∧
    (NeverShare abKernel ↔ abKernel.rootNames.length ≤ 3) :=
  identity_iff rfl firstFree_ab plainName_ab

/-- The record of the second file has the number 3, `stat` reports 2, and so it does for the
first. -/
theorem ab_not_identified : Emits abImage (Dirent.of 3 (Rust.asBytes "b")) ∧
    ¬Identified abKernel "b" (Dirent.of 3 (Rust.asBytes "b")) ∧
    StatIdentity abKernel "a" 1 2 ∧ StatIdentity abKernel "b" 1 2 := by
  have hlist (i : ℕ) (name : String) (h : ["." , "..", "a", "b"][i]? = some name) :
      abKernel.rootNames[i]? = some (Rust.asBytes name) := by
    rw [rootNames_ab, List.getElem?_map, h]
    rfl
  have hb := hlist 3 "b" rfl
  refine ⟨(emits_iff (k := abKernel) rfl).mpr ?_, fun h ↦ ?_, ?_, ?_⟩
  · rw [Kernel.dirents]
    exact List.mem_of_getElem? (i := 3) (by rw [List.getElem?_mapIdx, hb]; rfl)
  · exact absurd ((agrees_file_iff (i := 1) plainName_b rfl hb firstFree_ab).1.mp h.1) (by decide)
  · exact statIdentity_file (i := 0) plainName_a rfl (hlist 2 "a" rfl)
  · exact statIdentity_file (i := 1) plainName_b rfl hb

end LeonOS
