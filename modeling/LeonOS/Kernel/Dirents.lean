import LeonOS.Fs.Reader
import LeonOS.Kernel.Runs
import LeonOS.Lib.Stream

/-!
# Listing the root directory

`getdents64` writes records (`Dirent`) for the names at the position of a descriptor and after it,
as many as fit.  The directory has the names `.` and `..` and then those of the entries of the
mounted image, up to the first entry that is not valid (`Kernel.rootNames`); the record of each
name depends on the name and its place alone (`Kernel.dirents`).

One call writes the longest run of records from the position on that fits, and moves the position
behind them (`dispatch_getdents64`).
-/

set_option autoImplicit false

namespace LeonOS

open Bytes RustM

/-! ## Records -/

/-- A record of `getdents64`. -/
structure Dirent where
  /-- `d_ino`. -/
  ino : ℕ
  /-- `d_off`. -/
  off : ℕ
  /-- `d_reclen`. -/
  reclen : ℕ
  /-- `d_type`. -/
  typ : U8
  /-- `d_name`, up to the end of the record. -/
  name : List U8
  deriving DecidableEq

namespace Dirent

/-- The bytes of a record. -/
def bytes (d : Dirent) : List U8 :=
  toLE 8 d.ino ++ toLE 8 d.off ++ toLE 2 d.reclen ++ [d.typ] ++ d.name

/-- The record for the name at a position. -/
def of (pos : ℕ) (name : List U8) : Dirent where
  ino := if pos < 2 then 1 else pos
  off := pos + 1
  reclen := direntRecordLen name.length
  typ := if pos < 2 then dtDir else dtReg
  name := name ++ List.replicate (direntRecordLen name.length - (19 + name.length)) 0

/-- The record at the front of some bytes, with its length. -/
def next (bs : List U8) : Option (Dirent × ℕ) :=
  let reclen := ofLE (slice bs 16 2)
  if 19 ≤ reclen ∧ reclen ≤ bs.length then
    some (⟨ofLE (slice bs 0 8), ofLE (slice bs 8 8), reclen, (bs.getD 18 0),
      slice bs 19 (reclen - 19)⟩, reclen)
  else none

/-- The records in some bytes. -/
def parse (bs : List U8) : Option (List Dirent) := Stream.parse next bs.length bs

/-- The total length of some records. -/
def total (ds : List Dirent) : ℕ := (ds.map reclen).sum

/-- **A well-formed record**: its fields have the sizes that they are written with, its length is a
multiple of eight, and the name ends with a zero. -/
structure WellFormed (d : Dirent) : Prop where
  /-- `d_ino` is a double word. -/
  ino : d.ino < 2 ^ 64
  /-- `d_off` is one. -/
  off : d.off < 2 ^ 64
  /-- `d_reclen` is a word. -/
  reclen : d.reclen < 2 ^ 16
  /-- The name fills the record. -/
  name : d.reclen = 19 + d.name.length
  /-- The next record is aligned. -/
  aligned : 8 ∣ d.reclen
  /-- The name is terminated. -/
  terminated : d.name.getLast? = some 0

variable {d : Dirent} {ds : List Dirent}

theorem WellFormed.length (h : d.WellFormed) : d.bytes.length = d.reclen := by
  rw [bytes, h.name]
  simp only [List.length_append, length_toLE, List.length_singleton]

theorem WellFormed.bytes_ne_nil (h : d.WellFormed) : d.bytes ≠ [] := by
  refine List.ne_nil_of_length_pos ?_
  rw [h.length, h.name]
  omega

theorem length_flatMap (h : ∀ d ∈ ds, d.WellFormed) : (ds.flatMap bytes).length = total ds := by
  rw [List.length_flatMap, total]
  exact congrArg List.sum (List.map_congr_left fun d hd ↦ (h d hd).length)

/-- A record at the front of a stream is found there. -/
theorem next_append (h : d.WellFormed) (rest : List U8) :
    next (d.bytes ++ rest) = some (d, d.bytes.length) := by
  have hino : slice (d.bytes ++ rest) 0 8 = toLE 8 d.ino := by
    have heq : d.bytes ++ rest = [] ++ (toLE 8 d.ino ++
        (toLE 8 d.off ++ toLE 2 d.reclen ++ [d.typ] ++ d.name ++ rest)) := by
      simp only [bytes, List.append_assoc, List.nil_append]
    rw [heq]
    exact slice_middle _ rfl (length_toLE 8 _).symm
  have hoff : slice (d.bytes ++ rest) 8 8 = toLE 8 d.off := by
    have heq : d.bytes ++ rest = toLE 8 d.ino ++ (toLE 8 d.off ++
        (toLE 2 d.reclen ++ [d.typ] ++ d.name ++ rest)) := by
      simp only [bytes, List.append_assoc]
    rw [heq]
    exact slice_middle _ (length_toLE 8 _).symm (length_toLE 8 _).symm
  have hreclen : slice (d.bytes ++ rest) 16 2 = toLE 2 d.reclen := by
    have heq : d.bytes ++ rest = (toLE 8 d.ino ++ toLE 8 d.off) ++ (toLE 2 d.reclen ++
        ([d.typ] ++ d.name ++ rest)) := by
      simp only [bytes, List.append_assoc]
    rw [heq]
    exact slice_middle _ (by simp) (length_toLE 2 _).symm
  have htyp : (d.bytes ++ rest).getD 18 0 = d.typ := by
    have heq : d.bytes ++ rest = (toLE 8 d.ino ++ toLE 8 d.off ++ toLE 2 d.reclen) ++
        (d.typ :: (d.name ++ rest)) := by
      simp only [bytes, List.append_assoc, List.cons_append, List.nil_append]
    rw [heq, List.getD_eq_getElem?_getD, List.getElem?_append_right (by simp)]
    simp
  have hname : slice (d.bytes ++ rest) 19 (d.reclen - 19) = d.name := by
    have heq : d.bytes ++ rest = (toLE 8 d.ino ++ toLE 8 d.off ++ toLE 2 d.reclen ++ [d.typ]) ++
        (d.name ++ rest) := by
      simp only [bytes, List.append_assoc]
    rw [heq]
    exact slice_middle _ (by simp) (by rw [h.name]; omega)
  have hword : ofLE (toLE 2 d.reclen) = d.reclen := ofLE_toLE_of_lt h.reclen
  have hfit : 19 ≤ d.reclen ∧ d.reclen ≤ (d.bytes ++ rest).length := by
    rw [List.length_append, h.length]
    have := h.name
    omega
  rw [next, hino, hoff, hreclen, htyp, hword, if_pos hfit, hname, h.length,
    ofLE_toLE_of_lt h.ino, ofLE_toLE_of_lt h.off]

/-- **Records are read back.** -/
theorem parse_flatMap (h : ∀ d ∈ ds, d.WellFormed) : parse (ds.flatMap bytes) = some ds :=
  Stream.parse_flatMap (fun d hd ↦ next_append (h d hd)) (fun d hd ↦ (h d hd).bytes_ne_nil)
    (Stream.length_le_flatMap fun d hd ↦ (h d hd).bytes_ne_nil)

end Dirent

/-! ## The directory -/

/-- The names in the root directory, up to the first entry that is not valid. -/
def Kernel.rootNames (k : Kernel) : List (List U8) :=
  [0x2E] :: [0x2E, 0x2E] ::
    Stream.leading ((List.range (k.rootEntriesCount - 2)).map k.rootNameByIndex)

/-- The records of the root directory. -/
def Kernel.dirents (k : Kernel) : List Dirent := k.rootNames.mapIdx Dirent.of

variable {k : Kernel} {w : World} {i : ℕ} {d : Dirent} {name : List U8}

theorem two_le_rootEntriesCount (k : Kernel) :
    2 ≤ k.rootEntriesCount ∧ k.rootEntriesCount < 2 ^ 16 + 2 := by
  rw [Kernel.rootEntriesCount]
  cases k.rootfs with
  | none => exact ⟨le_rfl, by decide⟩
  | some image =>
    dsimp only
    cases hhdr : Fs.header image.bytes with
    | error e => exact ⟨le_rfl, show 2 < 2 ^ 16 + 2 by decide⟩
    | ok hdr =>
      obtain ⟨-, -, hcount, -⟩ := Fs.header_eq_ok.mp hhdr
      have hlt := Fs.ofLE_slice_lt image.bytes 6 2
      dsimp only
      omega

theorem length_rootNames_le (k : Kernel) : k.rootNames.length ≤ k.rootEntriesCount := by
  have hle := Stream.length_leading_le
    ((List.range (k.rootEntriesCount - 2)).map k.rootNameByIndex)
  rw [List.length_map, List.length_range] at hle
  have htwo := (two_le_rootEntriesCount k).1
  rw [Kernel.rootNames, List.length_cons, List.length_cons]
  omega

/-- Behind `.` and `..`, the directory lists the names of the entries. -/
theorem rootNameByIndex_of_rootNames (h : k.rootNames[i + 2]? = some name) :
    k.rootNameByIndex i = some name := by
  have hi := Stream.getElem?_leading (show (Stream.leading _)[i]? = some name from h)
  rw [List.getElem?_map, Option.map_eq_some_iff] at hi
  obtain ⟨j, hj, hname⟩ := hi
  obtain ⟨hlt, rfl⟩ := List.getElem?_eq_some_iff.mp hj
  rw [List.getElem_range] at hname
  exact hname

/-- Before the end of the list, a position has the name that the list says. -/
theorem direntAt_of_rootNames (h : k.rootNames[i]? = some name) :
    k.direntAt i = some (name, (Dirent.of i name).typ, (Dirent.of i name).ino) := by
  match i with
  | 0 | 1 =>
    obtain rfl := Option.some_inj.mp h
    rfl
  | i + 2 =>
    rw [Kernel.direntAt, rootNameByIndex_of_rootNames h]
    rfl

/-- At the end of the list nothing is left. -/
theorem direntAt_length (h : k.rootNames.length < k.rootEntriesCount) :
    k.direntAt k.rootNames.length = none := by
  rw [Kernel.rootNames, List.length_cons, List.length_cons] at h ⊢
  rw [Kernel.direntAt, Option.map_eq_none_iff]
  rcases Stream.getElem?_length_leading
    ((List.range (k.rootEntriesCount - 2)).map k.rootNameByIndex) with hend | hend
  · rw [List.getElem?_eq_none_iff, List.length_map, List.length_range] at hend
    omega
  · rw [List.getElem?_map, Option.map_eq_some_iff] at hend
    obtain ⟨j, hj, hname⟩ := hend
    obtain ⟨hlt, rfl⟩ := List.getElem?_eq_some_iff.mp hj
    rw [List.getElem_range] at hname
    exact hname

/-! ### Its records -/

theorem entry_of_rootNameByIndex (h : k.rootNameByIndex i = some name) : ∃ image r,
    k.rootfs = some image ∧ Fs.entry image.bytes i = .ok r ∧ Rust.asBytes r.name = name := by
  obtain ⟨image, hmount, h⟩ := Option.bind_eq_some_iff.mp h
  obtain ⟨r, hentry, hname⟩ := Option.bind_eq_some_iff.mp h
  refine ⟨image, r, hmount, ?_, Option.some_inj.mp hname⟩
  cases hrun : Fs.entry image.bytes i with
  | error e =>
    rw [hrun] at hentry
    exact nomatch hentry
  | ok r' =>
    rw [hrun] at hentry
    exact congrArg Except.ok (Option.some_inj.mp hentry)

theorem length_le_of_rootNameByIndex (h : k.rootNameByIndex i = some name) : name.length ≤ 48 := by
  obtain ⟨image, r, -, hentry, rfl⟩ := entry_of_rootNameByIndex h
  have hlen : image.bytes.length < 2 ^ 64 := image.length_lt.trans (by decide)
  exact (Fs.entryAt_record hlen (Fs.entryAt_of_entry hentry)).name_le

theorem entry_of_rootNames (h : k.rootNames[i + 2]? = some name) : ∃ image r,
    k.rootfs = some image ∧ Fs.entry image.bytes i = .ok r ∧ Rust.asBytes r.name = name :=
  entry_of_rootNameByIndex (rootNameByIndex_of_rootNames h)

theorem length_le_of_mem_rootNames (h : k.rootNames[i]? = some name) : name.length ≤ 48 := by
  match i with
  | 0 | 1 =>
    obtain rfl := Option.some_inj.mp h
    decide
  | i + 2 => exact length_le_of_rootNameByIndex (rootNameByIndex_of_rootNames h)

theorem Dirent.of_wellFormed (hi : i < 2 ^ 16 + 2) (hname : name.length ≤ 48) :
    (Dirent.of i name).WellFormed := by
  have hreclen : 19 + name.length < direntRecordLen name.length ∧
      direntRecordLen name.length < 2 ^ 16 := by
    rw [direntRecordLen]
    omega
  constructor
  · rw [Dirent.of]
    dsimp only
    split <;> omega
  · rw [Dirent.of]
    dsimp only
    omega
  · exact hreclen.2
  · rw [Dirent.of]
    simp only [List.length_append, List.length_replicate]
    omega
  · exact Dvd.intro_left _ rfl
  · obtain ⟨n, hn⟩ : ∃ n, direntRecordLen name.length - (19 + name.length) = n + 1 :=
      ⟨_, (Nat.succ_pred_eq_of_pos (by omega)).symm⟩
    rw [Dirent.of]
    dsimp only
    rw [hn, List.replicate_succ', ← List.append_assoc, List.getLast?_concat]

theorem dirents_wellFormed (k : Kernel) : ∀ d ∈ k.dirents, d.WellFormed := by
  intro d hd
  obtain ⟨i, hi, hof⟩ := List.mem_mapIdx.mp hd
  have hname := List.getElem?_eq_getElem hi
  have hlt := hi.trans_le (length_rootNames_le k)
  have htotal := (two_le_rootEntriesCount k).2
  rw [← hof]
  exact Dirent.of_wellFormed (by omega) (length_le_of_mem_rootNames hname)

/-! ## One call -/

theorem dirents_congr {k' : Kernel} (h : k'.rootfs = k.rootfs) : k'.dirents = k.dirents := by
  have hcount : k'.rootEntriesCount = k.rootEntriesCount := by
    rw [Kernel.rootEntriesCount, h, Kernel.rootEntriesCount]
  have hname : k'.rootNameByIndex = k.rootNameByIndex := by
    funext i
    rw [Kernel.rootNameByIndex, h, Kernel.rootNameByIndex]
  rw [Kernel.dirents, Kernel.rootNames, hcount, hname, Kernel.dirents, Kernel.rootNames]

theorem writeDirent_ok (rec pos : ℕ) (name : List U8) (w : World) :
    ∃ touched, writeDirent rec name (Dirent.of pos name).typ (Dirent.of pos name).ino (pos + 1)
      (direntRecordLen name.length) w =
        .ok () ⟨w.kernel, poke w.ram rec (Dirent.of pos name).bytes, touched⟩ := by
  have hpad : direntRecordLen name.length - (19 + name.length) =
      1 + (direntRecordLen name.length - (20 + name.length)) := by
    rw [direntRecordLen]
    omega
  have hbytes : (Dirent.of pos name).bytes = toLE 8 (Dirent.of pos name).ino ++ toLE 8 (pos + 1) ++
      toLE 2 (direntRecordLen name.length) ++ [(Dirent.of pos name).typ] ++ name ++ [0] ++
        List.replicate (direntRecordLen name.length - (20 + name.length)) 0 := by
    rw [Dirent.bytes]
    simp only [Dirent.of, hpad, List.replicate_add, List.append_assoc]
    rfl
  have hend : rec + (20 + name.length) = rec + (8 + 8 + 2 + 1 + name.length + 1) := by omega
  rw [hbytes]
  simp only [← poke_poke_append, List.length_append, length_toLE, List.length_singleton]
  rw [writeDirent, hend]
  exact ⟨_, rfl⟩

/-- The records at the front of some that fit. -/
def Dirent.fitting : ℕ → List Dirent → List Dirent
  | _, [] => []
  | room, d :: ds => if d.reclen ≤ room then d :: fitting (room - d.reclen) ds else []

/-- What is returned when `ds` were written of the records `rest`, behind `written` bytes. -/
def Dirent.answer (rest ds : List Dirent) (written : ℕ) : U64 :=
  if written = 0 ∧ ds = [] ∧ rest ≠ [] then -einval
  else BitVec.ofNat 64 (written + Dirent.total ds)

/-- What the loop has done when it wrote the records `ds` from the position on. -/
def Dirent.Wrote (w : World) (fd base pos written : ℕ) (ds : List Dirent)
    (x : EStateM.Result (Fault Empty) World U64) : Prop :=
  ∃ touched, x = .ok (answer (w.kernel.dirents.drop pos) ds written)
    ⟨w.kernel.setFd fd (.rootDir (pos + ds.length)),
      poke w.ram base (ds.flatMap bytes), touched⟩

theorem Dirent.wrote_nil {fd base pos written : ℕ}
    (hfd : w.kernel.fdTable[fd]? = some (.rootDir pos))
    (h : written ≠ 0 ∨ w.kernel.dirents.drop pos = []) :
    Wrote w fd base pos written [] (.ok (BitVec.ofNat 64 written) w) := by
  refine ⟨w.touched, ?_⟩
  rw [answer, if_neg (by tauto), List.length_nil, Nat.add_zero, Kernel.setFd_self hfd,
    List.flatMap_nil, poke_nil]
  rfl

theorem drop_dirents (h : k.rootNames[i]? = some name) :
    k.dirents.drop i = Dirent.of i name :: k.dirents.drop (i + 1) := by
  have hget : k.dirents[i]? = some (Dirent.of i name) := by
    rw [Kernel.dirents, List.getElem?_mapIdx, h]
    rfl
  obtain ⟨hi, hof⟩ := List.getElem?_eq_some_iff.mp hget
  rw [List.drop_eq_getElem_cons hi, hof]

/-- One record more. -/
theorem Dirent.Wrote.cons {fd base pos written : ℕ} {ds : List Dirent} {w' : World}
    {x : EStateM.Result (Fault Empty) World U64}
    (hwf : (Dirent.of pos name).WellFormed)
    (hkernel : w'.kernel = w.kernel.setFd fd (.rootDir (pos + 1)))
    (hram : w'.ram = poke w.ram base (Dirent.of pos name).bytes)
    (h : Wrote w' fd (base + (Dirent.of pos name).reclen) (pos + 1)
      (written + (Dirent.of pos name).reclen) ds x) :
    Wrote w fd base pos written (Dirent.of pos name :: ds) x := by
  obtain ⟨touched, h⟩ := h
  have hpos : (Dirent.of pos name).reclen ≠ 0 := by
    rw [hwf.name]
    omega
  have hanswer : answer (w.kernel.dirents.drop (pos + 1)) ds
      (written + (Dirent.of pos name).reclen) =
        answer (w.kernel.dirents.drop pos) (Dirent.of pos name :: ds) written := by
    rw [answer, answer, if_neg (by omega), if_neg (by simp), total, total, List.map_cons,
      List.sum_cons, Nat.add_assoc]
  have hsame : w'.kernel.dirents = w.kernel.dirents := dirents_congr (by rw [hkernel]; rfl)
  refine ⟨touched, ?_⟩
  rw [h, hsame, hkernel, hram, hanswer, Kernel.setFd_setFd, ← hwf.length,
    poke_poke_append, ← List.flatMap_cons, List.length_cons, Nat.add_assoc,
    Nat.add_comm 1 ds.length]

/-- **The loop writes the records that fit.** -/
theorem getdentsFrom_ok {fd : ℕ} (dirp count : ℕ) {n pos written : ℕ}
    (hfd : w.kernel.fdTable[fd]? = some (.rootDir pos)) (hpos : pos ≤ w.kernel.dirents.length)
    (hn : pos + n = w.kernel.rootEntriesCount) (hwritten : written ≤ count) :
    Dirent.Wrote w fd (dirp + written) pos written
      (Dirent.fitting (count - written) (w.kernel.dirents.drop pos))
      (getdentsFrom fd dirp count n pos written w) := by
  have hlen : w.kernel.dirents.length = w.kernel.rootNames.length := List.length_mapIdx
  have hle := length_rootNames_le w.kernel
  have hlt := Kernel.lt_of_getElem?_fdTable hfd
  induction n generalizing w pos written with
  | zero =>
    have hnil : w.kernel.dirents.drop pos = [] := List.drop_of_length_le (by omega)
    rw [hnil]
    exact Dirent.wrote_nil hfd (.inr hnil)
  | succ n ih =>
    rw [getdentsFrom, bind_getKernel]
    rcases hpos.eq_or_lt with hend | hmore
    · have hnil : w.kernel.dirents.drop pos = [] := List.drop_of_length_le (by omega)
      rw [hend, hlen, direntAt_length (by omega), ← hlen, ← hend, hnil]
      exact Dirent.wrote_nil hfd (.inr hnil)
    obtain ⟨name, hname⟩ : ∃ name, w.kernel.rootNames[pos]? = some name :=
      ⟨_, List.getElem?_eq_getElem (hlen ▸ hmore)⟩
    have hrest := drop_dirents hname
    have hwf : (Dirent.of pos name).WellFormed :=
      dirents_wellFormed w.kernel _ (List.mem_of_mem_drop (hrest ▸ List.mem_cons_self))
    have hreclen : direntRecordLen name.length = (Dirent.of pos name).reclen := rfl
    rw [direntAt_of_rootNames hname]
    dsimp only
    rw [hreclen, hrest, Dirent.fitting]
    by_cases hfit : (Dirent.of pos name).reclen ≤ count - written
    · rw [if_pos hfit, if_neg (by omega)]
      obtain ⟨touched, hwrite⟩ := writeDirent_ok (dirp + written) pos name w
      rw [hreclen] at hwrite
      rw [bind_apply, hwrite]
      dsimp only
      rw [bind_modifyKernel]
      have hnext := @ih ⟨w.kernel.setFd fd (.rootDir (pos + 1)),
        poke w.ram (dirp + written) (Dirent.of pos name).bytes, touched⟩
        (pos + 1) (written + (Dirent.of pos name).reclen)
        ((Kernel.getElem?_setFd hlt).trans (if_pos rfl)) hmore
        (show pos + 1 + n = w.kernel.rootEntriesCount by omega) (by omega) hlen hle
      rw [← Nat.sub_sub, ← Nat.add_assoc] at hnext
      exact Dirent.Wrote.cons hwf rfl rfl hnext
    · rw [if_neg hfit, if_pos (by omega)]
      by_cases hzero : written = 0
      · rw [if_pos hzero]
        refine ⟨w.touched, ?_⟩
        rw [Dirent.answer, if_pos ⟨hzero, rfl, by rw [hrest]; exact List.cons_ne_nil _ _⟩,
          List.length_nil, Nat.add_zero, Kernel.setFd_self hfd, List.flatMap_nil, poke_nil]
        rfl
      · rw [if_neg hzero]
        exact Dirent.wrote_nil hfd (.inl hzero)

/-! ### Its result -/

/-- **What a call leaves** when `rest` are the records from the position on and it wrote `ds`. -/
structure Listed (rest : List Dirent) (dirp count : ℕ) (ram ram' : ℕ → U8) (r : U64)
    (ds : List Dirent) : Prop where
  /-- It wrote the next records. -/
  next : ds <+: rest
  /-- They fit. -/
  fits : Dirent.total ds ≤ count
  /-- Nothing else was written. -/
  ram : ram' = poke ram dirp (ds.flatMap Dirent.bytes)
  /-- They have the length that their fields say. -/
  length : (ds.flatMap Dirent.bytes).length = Dirent.total ds
  /-- They can be told apart. -/
  parsed : Dirent.parse (peek ram' dirp (Dirent.total ds)) = some ds
  /-- Each of them is aligned and terminated. -/
  wellFormed : ∀ d ∈ ds, d.WellFormed
  /-- Their length is returned. -/
  returned : ds ≠ [] → ¬r.toInt < 0 ∧ r.toNat = Dirent.total ds
  /-- A call that wrote none of those that are left had no room for the first. -/
  refused : ∀ d, rest.head? = some d → (ds = [] ↔ count < d.reclen) ∧ (ds = [] → r = -einval)
  /-- A zero is the end. -/
  ended : r = 0 ↔ rest = []

namespace Dirent

variable {room : ℕ} {ds : List Dirent}

theorem fitting_prefix (room : ℕ) (ds : List Dirent) : fitting room ds <+: ds := by
  induction ds generalizing room with
  | nil => exact List.prefix_rfl
  | cons d ds ih =>
    rw [fitting]
    split
    · exact List.cons_prefix_cons.mpr ⟨rfl, ih _⟩
    · exact List.nil_prefix

theorem total_fitting (room : ℕ) (ds : List Dirent) : total (fitting room ds) ≤ room := by
  induction ds generalizing room with
  | nil => exact Nat.zero_le room
  | cons d ds ih =>
    rw [fitting]
    split
    · have hrest := ih (room - d.reclen)
      rw [total] at hrest ⊢
      rw [List.map_cons, List.sum_cons]
      omega
    · exact Nat.zero_le room

theorem fitting_of_total_le (h : total ds ≤ room) : fitting room ds = ds := by
  induction ds generalizing room with
  | nil => rfl
  | cons d ds ih =>
    rw [total, List.map_cons, List.sum_cons] at h
    rw [fitting, if_pos (by omega), ih]
    rw [total]
    omega

theorem fitting_eq_nil (h : ds.head? = some d) : fitting room ds = [] ↔ room < d.reclen := by
  obtain ⟨ds, rfl⟩ := List.head?_eq_some_iff.mp h
  rw [fitting]
  split
  · simp only [List.cons_ne_nil, false_iff]
    omega
  · simp only [true_iff]
    omega

theorem total_le (h : ∀ d ∈ ds, d.WellFormed) : total ds ≤ 2 ^ 16 * ds.length := by
  induction ds with
  | nil => exact le_rfl
  | cons d ds ih =>
    have hrest := ih fun e he ↦ h e (List.mem_cons_of_mem d he)
    have hreclen := (h d List.mem_cons_self).reclen
    rw [total] at hrest ⊢
    rw [List.map_cons, List.sum_cons, List.length_cons]
    omega

theorem total_pos (h : ∀ d ∈ ds, d.WellFormed) (hne : ds ≠ []) : 0 < total ds := by
  obtain ⟨d, ds, rfl⟩ := List.exists_cons_of_ne_nil hne
  rw [total, List.map_cons, List.sum_cons, (h d List.mem_cons_self).name]
  omega

/-- The length of what was written is returned. -/
theorem answer_of_ne_nil {rest : List Dirent} (hne : ds ≠ []) (hsmall : total ds < 2 ^ 63) :
    ¬(answer rest ds 0).toInt < 0 ∧ (answer rest ds 0).toNat = total ds := by
  rw [answer, if_neg fun h ↦ hne h.2.1, Nat.zero_add]
  exact Rust.ofNat_of_lt hsmall

/-- Where nothing was, though there are records, the call is refused. -/
theorem answer_nil {rest : List Dirent} (hrest : rest ≠ []) : answer rest [] 0 = -einval :=
  if_pos ⟨rfl, rfl, hrest⟩

/-- A zero is returned at the end only. -/
theorem answer_eq_zero_iff {rest : List Dirent} (hinit : ds <+: rest)
    (hds : ∀ d ∈ ds, d.WellFormed) (hsmall : total ds < 2 ^ 63) :
    answer rest ds 0 = 0 ↔ rest = [] := by
  constructor
  · intro hzero
    by_contra hrest
    by_cases hne : ds = []
    · rw [hne, answer_nil hrest] at hzero
      exact absurd hzero (by decide)
    · have hnat : (answer rest ds 0).toNat = total ds := (answer_of_ne_nil hne hsmall).2
      rw [hzero] at hnat
      exact absurd hnat (Nat.ne_of_lt (total_pos hds hne))
  · intro hnil
    rw [hnil, List.prefix_nil] at hinit
    rw [hinit, answer, if_neg fun h ↦ h.2.2 hnil]
    rfl

end Dirent

/-- What the loop does from the start is what is said of a call. -/
theorem Dirent.Wrote.listed {fd dirp count : ℕ} {r : U64} {w' : World}
    (h : Wrote w fd dirp i 0 (fitting count (w.kernel.dirents.drop i)) (.ok r w')) :
    Listed (w.kernel.dirents.drop i) dirp count w.ram w'.ram r
      (fitting count (w.kernel.dirents.drop i)) := by
  obtain ⟨touched, h⟩ := h
  obtain ⟨hr, hw⟩ := EStateM.Result.ok.inj h
  have hram := congrArg World.ram hw
  dsimp only at hram
  have hinit := fitting_prefix count (w.kernel.dirents.drop i)
  have hfits := total_fitting count (w.kernel.dirents.drop i)
  have hhead (d : Dirent) (hd : (w.kernel.dirents.drop i).head? = some d) :
      fitting count (w.kernel.dirents.drop i) = [] ↔ count < d.reclen := fitting_eq_nil hd
  have hwf : ∀ d ∈ w.kernel.dirents.drop i, d.WellFormed := fun d hd ↦
    dirents_wellFormed w.kernel d (List.mem_of_mem_drop hd)
  have hlen : (w.kernel.dirents.drop i).length ≤ 2 ^ 16 + 2 := by
    have htotal := (two_le_rootEntriesCount w.kernel).2
    have hle := length_rootNames_le w.kernel
    rw [List.length_drop, Kernel.dirents, List.length_mapIdx]
    omega
  generalize w.kernel.dirents.drop i = rest at hr hram hinit hfits hhead hwf hlen ⊢
  generalize fitting count rest = ds at hr hram hinit hfits hhead ⊢
  have hds : ∀ d ∈ ds, d.WellFormed := fun d hd ↦ hwf d (hinit.subset hd)
  have hlength := length_flatMap hds
  have hsmall : total ds < 2 ^ 63 := by
    have hle := total_le hds
    have := hinit.length_le
    omega
  rw [hr]
  constructor
  · exact hinit
  · exact hfits
  · exact hram
  · exact hlength
  · rw [hram, ← hlength, peek_poke_self]
    exact parse_flatMap hds
  · exact hds
  · exact fun hne ↦ answer_of_ne_nil hne hsmall
  · refine fun d hd ↦ ⟨hhead d hd, fun hnil ↦ ?_⟩
    rw [hnil]
    exact answer_nil fun h ↦ by rw [h] at hd; cases hd
  · exact answer_eq_zero_iff hinit hds hsmall

/-- A call on the descriptor of the directory writes what fits. -/
theorem dispatch_getdents64_fitting {fd : U64} (dirp count : U64)
    (hfd : w.kernel.fdTable[fd.toNat]? = some (.rootDir i)) (hi : i ≤ w.kernel.dirents.length)
    (hdirp : dirp ≠ 0) (arg3 : U64) :
    ∃ ds r w', ds = Dirent.fitting count.toNat (w.kernel.dirents.drop i) ∧
      dispatch .getdents64 fd dirp count arg3 w = .ok r w' ∧
      Listed (w.kernel.dirents.drop i) dirp.toNat count.toNat w.ram w'.ram r ds ∧
      w'.kernel = w.kernel.setFd fd.toNat (.rootDir (i + ds.length)) := by
  have hnull : dirp.toNat ≠ 0 := fun h ↦ hdirp (BitVec.toNat_inj.mp h)
  have hlen : w.kernel.dirents.length = w.kernel.rootNames.length := List.length_mapIdx
  have hle := length_rootNames_le w.kernel
  have hcall : Dirent.Wrote w fd.toNat dirp.toNat i 0
      (Dirent.fitting count.toNat (w.kernel.dirents.drop i))
      (dispatch .getdents64 fd dirp count arg3 w) := by
    rw [dispatch, sysGetdents64, if_neg hnull, bind_getKernel, hfd]
    dsimp only
    by_cases htotal : w.kernel.rootEntriesCount ≤ i
    · have hnil : w.kernel.dirents.drop i = [] := List.drop_of_length_le (by omega)
      rw [if_pos htotal, hnil]
      exact Dirent.wrote_nil hfd (.inr hnil)
    · rw [if_neg htotal]
      exact getdentsFrom_ok dirp.toNat count.toNat hfd hi (by omega) (Nat.zero_le _)
  cases hrun : dispatch .getdents64 fd dirp count arg3 w with
  | error e w' =>
    rw [hrun] at hcall
    obtain ⟨_, h⟩ := hcall
    cases h
  | ok r w' =>
    rw [hrun] at hcall
    refine ⟨_, r, w', rfl, rfl, hcall.listed, ?_⟩
    obtain ⟨_, h⟩ := hcall
    exact congrArg World.kernel (EStateM.Result.ok.inj h).2

/-- **A call on the descriptor of the directory.** -/
theorem dispatch_getdents64 {fd dirp count : U64}
    (hfd : w.kernel.fdTable[fd.toNat]? = some (.rootDir i)) (hi : i ≤ w.kernel.dirents.length)
    (hdirp : dirp ≠ 0) (arg3 : U64) :
    ∃ ds r w', dispatch .getdents64 fd dirp count arg3 w = .ok r w' ∧
      Listed (w.kernel.dirents.drop i) dirp.toNat count.toNat w.ram w'.ram r ds ∧
      w'.kernel = w.kernel.setFd fd.toNat (.rootDir (i + ds.length)) := by
  obtain ⟨ds, r, w', -, h⟩ := dispatch_getdents64_fitting dirp count hfd hi hdirp arg3
  exact ⟨ds, r, w', h⟩

end LeonOS
