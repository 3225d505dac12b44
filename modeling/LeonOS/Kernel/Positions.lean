import LeonOS.Kernel.Atomic

/-!
# Positions

Every entry of the table has a position of its own.  A call that goes through a descriptor moves
the position of that entry as its result says (`dispatch_moves`), and no position is ever more than
`lseek` can return (`Kernel.Reachable.posOk`), so `lseek(fd, 0, SEEK_CUR)` tells it.
-/

set_option autoImplicit false

namespace LeonOS

open Bytes RustM

/-- The position of an entry. -/
def FdEntry.pos : FdEntry → ℕ
  | .free => 0
  | .rootDir pos => pos
  | .file _ _ pos _ => pos

/-- The position of a descriptor. -/
def Kernel.posOf (k : Kernel) (fd : ℕ) : ℕ := (k.fdTable[fd]?).elim 0 FdEntry.pos

/-- `lseek` can return every position. -/
def Kernel.PosOk (k : Kernel) : Prop :=
  ∀ (fd : ℕ) (entry : FdEntry), k.fdTable[fd]? = some entry → entry.pos < 2 ^ 63

/-- The position after a call with the result `r`.  A `read` moves it by the result, and `lseek`
moves it to the result; how far a `getdents64` goes, the table says (`now`). -/
def Nr.posAfter (nr : Nr) (r : U64) (now pos : ℕ) : ℕ :=
  if r.toInt < 0 then pos
  else
    match nr with
    | .read => pos + r.toNat
    | .lseek => r.toNat
    | .getdents64 => now
    | _ => pos

variable {w : World} {k : Kernel} {nr : Nr} {arg0 arg1 arg2 arg3 : U64} {fd pos : ℕ}
  {entry : FdEntry}

theorem FdEntry.withPos_pos (entry : FdEntry) : entry.withPos entry.pos = entry := by
  cases entry <;> rfl

theorem FdEntry.withPos_withPos (entry : FdEntry) (pos pos' : ℕ) :
    (entry.withPos pos).withPos pos' = entry.withPos pos' := by
  cases entry <;> rfl

theorem FdEntry.pos_withPos (h : entry ≠ .free) : (entry.withPos pos).pos = pos := by
  cases entry with
  | free => exact absurd rfl h
  | rootDir | file => rfl

theorem FdEntry.withPos_ne_free (h : entry ≠ .free) : entry.withPos pos ≠ .free := by
  cases entry with
  | free => exact absurd rfl h
  | rootDir | file => exact nofun

theorem Nr.posAfter_of_neg {r : U64} {now : ℕ} (h : r.toInt < 0) : nr.posAfter r now pos = pos :=
  if_pos h

theorem Kernel.posOf_eq (h : k.fdTable[fd]? = some entry) : k.posOf fd = entry.pos := by
  rw [Kernel.posOf, h]
  rfl

/-! ## Calls through a descriptor -/

/-- The position of the descriptor is moved as the result says, and nothing else is done. -/
def Moves (nr : Nr) (fd : ℕ) (entry : FdEntry) (k : Kernel) (r : U64) (k' : Kernel) : Prop :=
  nr.posAfter r (k'.posOf fd) entry.pos < 2 ^ 63 ∧
    k' = k.setFd fd (entry.withPos (nr.posAfter r (k'.posOf fd) entry.pos))

/-- What fails moves nothing. -/
theorem Moves.failed {r : U64} (hentry : k.fdTable[fd]? = some entry) (hpos : entry.pos < 2 ^ 63)
    (hr : r.toInt < 0) : Moves nr fd entry k r k := by
  rw [Moves, Nr.posAfter_of_neg hr, FdEntry.withPos_pos, Kernel.setFd_self hentry]
  exact ⟨hpos, rfl⟩

theorem Moves.slot {k' : Kernel} {r : U64} (h : Moves nr fd entry k r k') (hfd : fd < maxFds) :
    k'.fdTable[fd]? = some (entry.withPos (nr.posAfter r (k'.posOf fd) entry.pos)) :=
  (congrArg (fun k : Kernel ↦ k.fdTable[fd]?) h.2).trans
    ((Kernel.getElem?_setFd hfd).trans (if_pos rfl))

theorem sysRead_moves (hk : w.kernel.FilesOk) (hentry : w.kernel.fdTable[fd]? = some entry)
    (hused : entry ≠ .free) (hpos : entry.pos < 2 ^ 63) (buf n : ℕ) :
    Ensures (sysRead fd buf n) w fun r w' ↦ Moves .read fd entry w.kernel r w'.kernel := by
  by_cases hbuf : buf = 0
  · rw [sysRead, if_pos hbuf, ensures_pure]
    exact .failed hentry hpos (by decide)
  cases entry with
  | free => exact absurd rfl hused
  | rootDir pos =>
    rw [sysRead, if_neg hbuf, ensures_bind, ensures_getKernel, hentry]
    exact ensures_pure.mpr (.failed hentry hpos (by decide))
  | file dataPtr len pos mode =>
    have hdenotes := hk.denotes _ _ _ _ _ hentry
    obtain ⟨touched, hrun⟩ := sysRead_file hentry hdenotes rfl hbuf n
    have hlen := dataPtr.image.length_lt
    have hbound := hdenotes.bound
    have hcount : OpenFile.count ⟨slice dataPtr.image.bytes dataPtr.offset len, pos⟩ n =
        min n (len - pos) := by
      rw [OpenFile.count, length_slice_of_le hbound]
    rw [hcount] at hrun
    obtain ⟨hnneg, hnat⟩ := Rust.ofNat_of_lt (n := min n (len - pos)) (by omega)
    rw [ensures_of_eq hrun, Moves, Nr.posAfter, if_neg hnneg]
    dsimp only [FdEntry.pos] at hpos ⊢
    rw [hnat]
    exact ⟨by omega, rfl⟩

theorem sysLseek_moves (hentry : w.kernel.fdTable[fd]? = some entry) (hused : entry ≠ .free)
    (hpos : entry.pos < 2 ^ 63) (off : U64) (whence : ℕ) :
    Ensures (sysLseek fd off whence) w fun r w' ↦ Moves .lseek fd entry w.kernel r w'.kernel := by
  have hmoved {newPos : ℕ} {last : ℕ}
      (h : seekPos entry.pos last off whence = some newPos) :
      Moves .lseek fd entry w.kernel (BitVec.ofNat 64 newPos)
        (w.kernel.setFd fd (entry.withPos newPos)) := by
    obtain ⟨hnneg, hnat⟩ := Rust.ofNat_of_lt (seekPos_bound h)
    rw [Moves, Nr.posAfter, if_neg hnneg, hnat]
    exact ⟨seekPos_bound h, rfl⟩
  have hfailed : Ensures (pure (-einval) : SysM U64) w fun r w' ↦
      Moves .lseek fd entry w.kernel r w'.kernel :=
    ensures_pure.mpr (.failed hentry hpos (by decide))
  rw [sysLseek, ensures_bind, ensures_getKernel, hentry]
  cases entry with
  | free => exact absurd rfl hused
  | rootDir pos =>
    dsimp only
    split
    · rename_i hseek
      simp only [ensures_bind, ensures_modifyKernel, ensures_pure]
      exact hmoved hseek
    · exact hfailed
  | file dataPtr len pos mode =>
    dsimp only
    split
    · rename_i hseek
      simp only [ensures_bind, ensures_modifyKernel, ensures_pure]
      exact hmoved hseek
    · exact hfailed

/-- The loop never leaves the directory's entries. -/
theorem getdentsFrom_pos (dirp count : ℕ) {n pos written : ℕ}
    (hk : w.kernel = k.setFd fd (.rootDir pos)) (hend : pos + n < 2 ^ 63) :
    Ensures (getdentsFrom fd dirp count n pos written) w fun _ w' ↦
      ∃ pos', w'.kernel = k.setFd fd (.rootDir pos') ∧ pos' < 2 ^ 63 := by
  induction n generalizing w pos written with
  | zero => exact ensures_pure.mpr ⟨pos, hk, hend⟩
  | succ n ih =>
    have hstay : ∃ pos', w.kernel = k.setFd fd (.rootDir pos') ∧ pos' < 2 ^ 63 :=
      ⟨pos, hk, by omega⟩
    rw [getdentsFrom, ensures_bind, ensures_getKernel]
    split
    · exact ensures_pure.mpr hstay
    rw [ensures_ite]
    refine ⟨fun _ ↦ ?_, fun _ ↦ ?_⟩
    · split <;> exact ensures_pure.mpr hstay
    refine (writeDirent_onlyRam _ _ _ _ _ _ w).bind fun _ w₁ h₁ ↦ ?_
    rw [ensures_bind, ensures_modifyKernel]
    refine ih ?_ (by omega)
    dsimp only
    rw [h₁, hk, Kernel.setFd_setFd]

theorem sysGetdents64_pos (hentry : w.kernel.fdTable[fd]? = some entry)
    (hpos : entry.pos < 2 ^ 63) (dirp count : ℕ) : Ensures (sysGetdents64 fd dirp count) w
      fun _ w' ↦ ∃ pos', w'.kernel = w.kernel.setFd fd (entry.withPos pos') ∧ pos' < 2 ^ 63 := by
  have hstay : ∃ pos', w.kernel = w.kernel.setFd fd (entry.withPos pos') ∧ pos' < 2 ^ 63 := by
    refine ⟨entry.pos, ?_, hpos⟩
    rw [FdEntry.withPos_pos, Kernel.setFd_self hentry]
  have htotal := (two_le_rootEntriesCount w.kernel).2
  rw [sysGetdents64, ensures_ite]
  refine ⟨fun _ ↦ ensures_pure.mpr hstay, fun _ ↦ ?_⟩
  rw [ensures_bind, ensures_getKernel, hentry]
  cases entry with
  | free | file => exact ensures_pure.mpr hstay
  | rootDir pos =>
    rw [ensures_ite]
    refine ⟨fun _ ↦ ensures_pure.mpr hstay, fun _ ↦ ?_⟩
    exact getdentsFrom_pos dirp count (Kernel.setFd_self hentry).symm (by omega)

theorem sysGetdents64_moves (hentry : w.kernel.fdTable[fd]? = some entry) (hused : entry ≠ .free)
    (hpos : entry.pos < 2 ^ 63) (dirp count : ℕ) : Ensures (sysGetdents64 fd dirp count) w
      fun r w' ↦ Moves .getdents64 fd entry w.kernel r w'.kernel := by
  intro r w' hrun
  obtain ⟨pos, hk, hbound⟩ := sysGetdents64_pos hentry hpos dirp count r w' hrun
  have hslot : w'.kernel.fdTable[fd]? = some (entry.withPos pos) := by
    rw [hk]
    exact (Kernel.getElem?_setFd (Kernel.lt_of_getElem?_fdTable hentry)).trans (if_pos rfl)
  by_cases hr : r.toInt < 0
  · have htable := (sysGetdents64_failsClean dirp count r w' hrun hr).fdTable
    rw [htable, hentry] at hslot
    have hsame : w'.kernel = w.kernel := by
      rw [hk, ← Option.some_inj.mp hslot, Kernel.setFd_self hentry]
    rw [hsame]
    exact .failed hentry hpos hr
  · have hnow : w'.kernel.posOf fd = pos := by
      rw [Kernel.posOf_eq hslot, FdEntry.pos_withPos hused]
    rw [Moves, Nr.posAfter, if_neg hr, hnow]
    exact ⟨hbound, hk⟩

/-- **A call through a descriptor moves it as the result says.** -/
theorem dispatch_moves (hk : w.kernel.FilesOk) (hnr : nr.seeks)
    (hentry : w.kernel.fdTable[arg0.toNat]? = some entry) (hused : entry ≠ .free)
    (hpos : entry.pos < 2 ^ 63) : Ensures (dispatch nr arg0 arg1 arg2 arg3) w fun r w' ↦
      Moves nr arg0.toNat entry w.kernel r w'.kernel := by
  have hhigh : ¬arg0.toNat ≤ 2 := fun hlow ↦ by
    rw [hk.reserved arg0.toNat (by rw [fdBase]; omega)] at hentry
    exact hused (Option.some_inj.mp hentry).symm
  rcases hnr with rfl | rfl | rfl
  · rw [dispatch, if_neg hhigh]
    exact sysRead_moves hk hentry hused hpos _ _
  · rw [dispatch, if_neg hhigh]
    exact sysLseek_moves hentry hused hpos _ _
  · exact sysGetdents64_moves hentry hused hpos _ _

/-! ## All positions -/

theorem Kernel.PosOk.of_eq {k' : Kernel} (h : k.PosOk) (htable : k'.fdTable = k.fdTable) :
    k'.PosOk := by
  rw [Kernel.PosOk, htable]
  exact h

theorem Kernel.PosOk.setFd (h : k.PosOk) (hentry : entry.pos < 2 ^ 63) :
    (k.setFd fd entry).PosOk := by
  intro fd' entry' hslot
  by_cases hfd : fd < maxFds
  · rw [Kernel.getElem?_setFd hfd] at hslot
    split at hslot
    · obtain rfl := Option.some_inj.mp hslot
      exact hentry
    · exact h fd' entry' hslot
  · rw [Kernel.setFd_of_le (not_lt.mp hfd)] at hslot
    exact h fd' entry' hslot

theorem Kernel.posOk_of_free
    (h : ∀ (fd : ℕ) (entry : FdEntry), k.fdTable[fd]? = some entry → entry = .free) : k.PosOk := by
  intro fd entry hentry
  rw [h fd entry hentry]
  exact Nat.two_pow_pos 63

/-- A call keeps the positions where `lseek` can return them. -/
theorem dispatch_posOk (hk : w.kernel.FilesOk) (hpos : w.kernel.PosOk) :
    Ensures (dispatch nr arg0 arg1 arg2 arg3) w fun _ w' ↦ w'.kernel.PosOk := by
  intro r w' hrun
  have heffect : Effect w.kernel nr arg0 arg1 w'.kernel := dispatch_effect r w' hrun
  generalize hk' : w'.kernel = k' at heffect
  cases heffect with
  | opened _ hentry =>
    refine hpos.setFd ?_
    cases hentry with
    | rootDir | file => exact Nat.two_pow_pos 63
  | duped _ hentry | dupedTo _ hentry => exact hpos.setFd (hpos _ _ hentry)
  | closed => exact hpos.setFd (Nat.two_pow_pos 63)
  | @moved _ _ _ entry pos hnr hdir hfile hentry =>
    by_cases hused : entry = .free
    · rw [hused] at hentry
      rw [hused, FdEntry.withPos, Kernel.setFd_self hentry]
      exact hpos
    · obtain ⟨hbound, hmoved⟩ := dispatch_moves hk hnr hentry hused (hpos _ _ hentry) r w' hrun
      rw [← hk', hmoved]
      refine hpos.setFd ?_
      rw [FdEntry.pos_withPos hused]
      exact hbound
  | brk =>
    rw [Kernel.brkSet]
    split
    · exact hpos
    · exact hpos.of_eq rfl
  | none => exact hpos
  | _ => exact hpos.of_eq rfl

/-- **In every reachable kernel** `lseek` can return every position. -/
theorem Kernel.Reachable.posOk (h : k.Reachable) : k.PosOk := by
  have hfree {fd : ℕ} {entry : FdEntry}
      (h : (Vector.replicate maxFds FdEntry.free)[fd]? = some entry) : entry = .free := by
    rw [Vector.getElem?_replicate] at h
    split at h
    · exact (Option.some_inj.mp h).symm
    · exact nomatch h
  have hboth : k.FilesOk ∧ k.PosOk := by
    refine h.invariant (P := fun k ↦ k.FilesOk ∧ k.PosOk)
      ⟨Kernel.filesOk_boot, Kernel.posOk_of_free fun _ _ ↦ hfree⟩ ?_
    rintro e w r w' hran ⟨hk, hpos⟩
    refine ⟨hran.filesOk hk, ?_⟩
    cases hran with
    | call hrun => exact dispatch_posOk hk hpos _ _ hrun
    | mount => exact Kernel.posOk_of_free fun _ _ ↦ hfree
    | mark | poll | user => exact hpos.of_eq rfl
  exact hboth.2

end LeonOS
