import LeonOS.Runs.Dup

/-!
# Closed and open descriptors

Seven calls look a descriptor up and refuse one that is not open.  Six match on every kind of entry
and answer `EBADF`; `getdents64` asks for a directory only, and answers `ENOTDIR` for an entry of
the table that is free (`refused_iff`).

An `lseek` through an open descriptor goes where it is told (`lseek_exact`): the sum of the base and
the offset is a mathematical one, cut off at the largest `isize`.
-/

set_option autoImplicit false

namespace LeonOS

open Bytes RustM

/-! ## Closed descriptors -/

/-- The call looks up its first argument, for which the others must be as they should. -/
def Nr.LooksUp (nr : Nr) (arg1 : U64) : Prop :=
  match nr with
  | .read | .getdents64 | .fstat => arg1 ≠ 0
  | .lseek | .dup | .close | .dup2 => True
  | _ => False

/-- A descriptor is not open: its entry is free, or it is beyond the table. -/
def Kernel.NotOpen (k : Kernel) (fd : U64) : Prop :=
  ∀ entry, k.fdTable[fd.toNat]? = some entry → entry = .free

variable {w : World} {nr : Nr} {fd arg1 arg2 arg3 : U64}

/-- What is found in its place. -/
theorem Kernel.NotOpen.entry {k : Kernel} (h : k.NotOpen fd) :
    k.fdTable[fd.toNat]? = if fd.toNat < maxFds then some .free else none := by
  split
  · rename_i hlt
    have hget : k.fdTable[fd.toNat]? = some k.fdTable[fd.toNat] :=
      Vector.getElem?_eq_getElem hlt
    rw [hget, h _ hget]
  · rename_i hge
    exact Vector.getElem?_eq_none (not_lt.mp hge)

/-- A free entry of the table is no directory. -/
theorem getdents64_free (hdirp : arg1 ≠ 0) (hfd : fd.toNat < maxFds) (h : w.kernel.NotOpen fd) :
    dispatch .getdents64 fd arg1 arg2 arg3 w = .ok (-enotdir) w := by
  have hnull : arg1.toNat ≠ 0 := fun h ↦ hdirp (BitVec.toNat_inj.mp h)
  rw [dispatch, sysGetdents64, if_neg hnull, bind_getKernel, h.entry, if_pos hfd]
  rfl

/-- The other calls, and all of them beyond the table. -/
theorem dispatch_notOpen (hnr : nr.LooksUp arg1) (hfd : fdBase ≤ fd.toNat)
    (h : w.kernel.NotOpen fd) (hother : ¬(nr = .getdents64 ∧ fd.toNat < maxFds)) :
    dispatch nr fd arg1 arg2 arg3 w = .ok (-ebadf) w := by
  have hhigh : ¬fd.toNat ≤ 2 := not_le.mpr hfd
  have hentry := h.entry
  have hnull (hne : arg1 ≠ 0) : arg1.toNat ≠ 0 := fun h ↦ hne (BitVec.toNat_inj.mp h)
  cases nr with
  | read =>
    rw [dispatch, if_neg hhigh, sysRead, if_neg (hnull hnr), bind_getKernel, hentry]
    split <;> rfl
  | fstat =>
    rw [dispatch, sysFstat, if_neg (hnull hnr), if_neg hhigh, bind_getKernel, hentry]
    split <;> rfl
  | getdents64 =>
    have hbeyond : ¬fd.toNat < maxFds := fun hlt ↦ hother ⟨rfl, hlt⟩
    rw [dispatch, sysGetdents64, if_neg (hnull hnr), bind_getKernel, hentry, if_neg hbeyond]
    rfl
  | lseek =>
    rw [dispatch, if_neg hhigh, sysLseek, bind_getKernel, hentry]
    split <;> rfl
  | close =>
    rw [dispatch, if_neg hhigh, sysClose, bind_getKernel, hentry]
    split <;> rfl
  | dup =>
    rw [dispatch, sysDup, if_neg hhigh, bind_getKernel, hentry]
    split <;> rfl
  | dup2 =>
    rw [dispatch, sysDup2, if_neg hhigh]
    by_cases hnew : arg1.toNat ≥ maxFds ∨ arg1.toNat < fdBase
    · rw [if_pos hnew]
      rfl
    · rw [if_neg hnew, bind_getKernel, hentry]
      split <;> rfl
  | _ => exact hnr.elim

/-- **A closed descriptor is refused**, with `EBADF` and nothing done, by every call that looks it
up, but for a `getdents64` of a free entry. -/
theorem refused_iff (w : World) (nr : Nr) (fd arg1 arg2 arg3 : U64) (hnr : nr.LooksUp arg1)
    (hfd : fdBase ≤ fd.toNat) (h : w.kernel.NotOpen fd) :
    dispatch nr fd arg1 arg2 arg3 w = .ok (-ebadf) w ↔
      ¬(nr = .getdents64 ∧ fd.toNat < maxFds) := by
  refine ⟨?_, dispatch_notOpen hnr hfd h⟩
  rintro hrun ⟨rfl, hlt⟩
  rw [getdents64_free hnr hlt h] at hrun
  exact absurd (EStateM.Result.ok.inj hrun).1 (by decide)

/-- The kernel after the boot, when nothing is open. -/
def bootWorld : World := ⟨.boot, fun _ ↦ 0, []⟩

theorem notOpen_boot (fd : U64) : Kernel.boot.NotOpen fd := by
  intro entry hentry
  rw [Kernel.boot, Vector.getElem?_replicate] at hentry
  split at hentry
  · exact (Option.some_inj.mp hentry).symm
  · cases hentry

theorem refused_iff_boot : dispatch .read 5 0x1000 16 0 bootWorld = .ok (-ebadf) bootWorld ↔
    ¬(Nr.read = .getdents64 ∧ (5 : U64).toNat < maxFds) :=
  refused_iff bootWorld .read 5 0x1000 16 0 (by rw [Nr.LooksUp]; decide) (by decide) (notOpen_boot 5)

/-- A `getdents64` of a descriptor that was never opened. -/
theorem getdents64_not_refused : bootWorld.kernel.Reachable ∧ bootWorld.kernel.NotOpen 5 ∧
    dispatch .getdents64 5 0x1000 1024 0 bootWorld ≠ .ok (-ebadf) bootWorld := by
  refine ⟨Kernel.reachable_boot, notOpen_boot 5, ?_⟩
  rw [getdents64_free (by decide) (by decide) (notOpen_boot 5)]
  exact fun h ↦ absurd (EStateM.Result.ok.inj h).1 (by decide)

/-! ## Seeking -/

/-- The end of an open file or directory. -/
def FdEntry.last (k : Kernel) : FdEntry → ℕ
  | .free => 0
  | .rootDir _ => k.rootEntriesCount
  | .file _ len _ _ => len

/-- What an offset is counted from: the start, the position or the end. -/
def FdEntry.seekBase (entry : FdEntry) (k : Kernel) : ℕ → Option ℕ
  | 0 => some 0
  | 1 => some entry.pos
  | 2 => some (entry.last k)
  | _ => none

/-- Where an offset leads to, over the integers. -/
def FdEntry.seekTarget (entry : FdEntry) (k : Kernel) (off : U64) (whence : U64) : Option ℤ :=
  (entry.seekBase k whence.toNat).map fun base ↦ base + off.toInt

/-- The largest `isize`. -/
def isizeMax : ℤ := 2 ^ 63 - 1

variable {entry : FdEntry} {off whence : U64}

/-- Where `sys_lseek` goes from a base that is an `isize`. -/
theorem saturatingAddSigned_base {base : ℕ} (h : base < 2 ^ 63) :
    Rust.saturatingAddSigned (BitVec.ofNat 64 base) off = min (base + off.toInt) isizeMax := by
  obtain ⟨hpos, hnat⟩ := Rust.ofNat_of_lt h
  have hint : (BitVec.ofNat 64 base).toInt = base := by
    rw [BitVec.toInt_eq_toNat_of_lt (by omega), hnat]
  have hlow := BitVec.le_toInt off
  rw [Rust.saturatingAddSigned, hint, isizeMax]
  omega

/-- **The position that `sys_lseek` goes to**, when the base is an `isize`. -/
theorem seekPos_eq {k : Kernel} (entry : FdEntry) (hpos : entry.pos < 2 ^ 63)
    (hlast : entry.last k < 2 ^ 63) (off whence : U64) :
    seekPos entry.pos (entry.last k) off whence.toNat =
      (entry.seekTarget k off whence).bind fun target ↦
        if target < 0 then none else some (min target isizeMax).toNat := by
  have hgo {base : ℕ} (h : base < 2 ^ 63) :
      (if Rust.saturatingAddSigned (BitVec.ofNat 64 base) off < 0 then none
        else some (Rust.saturatingAddSigned (BitVec.ofNat 64 base) off).toNat) =
      if (base : ℤ) + off.toInt < 0 then none
        else some (min ((base : ℤ) + off.toInt) isizeMax).toNat := by
    rw [saturatingAddSigned_base h]
    refine if_congr ?_ rfl rfl
    rw [isizeMax]
    omega
  rw [FdEntry.seekTarget]
  match whence.toNat with
  | 0 => exact hgo (Nat.two_pow_pos 63)
  | 1 => exact hgo hpos
  | 2 => exact hgo hlast
  | n + 3 => rfl

/-- What `sys_lseek` does with an open entry. -/
theorem sysLseek_open {n : ℕ} (off whence : U64) (hentry : w.kernel.fdTable[n]? = some entry)
    (hopen : entry ≠ .free) : sysLseek n off whence.toNat w =
      match seekPos entry.pos (entry.last w.kernel) off whence.toNat with
      | some newPos => .ok (BitVec.ofNat 64 newPos)
          { w with kernel := w.kernel.setFd n (entry.withPos newPos) }
      | none => .ok (-einval) w := by
  rw [sysLseek, bind_getKernel, hentry]
  cases entry with
  | free => exact absurd rfl hopen
  | rootDir pos =>
    dsimp only [FdEntry.pos, FdEntry.last]
    cases seekPos pos w.kernel.rootEntriesCount off whence.toNat <;> rfl
  | file dataPtr len pos mode =>
    dsimp only [FdEntry.pos, FdEntry.last]
    cases seekPos pos len off whence.toNat <;> rfl

/-- The end of a file or directory is an `isize`. -/
theorem FdEntry.last_lt (hk : w.kernel.FilesOk) {n : ℕ}
    (hentry : w.kernel.fdTable[n]? = some entry) : entry.last w.kernel < 2 ^ 63 := by
  cases entry with
  | free => exact Nat.two_pow_pos 63
  | rootDir pos =>
    have htotal := (two_le_rootEntriesCount w.kernel).2
    rw [FdEntry.last]
    omega
  | file dataPtr len pos mode =>
    have hbound := (hk.denotes _ _ _ _ _ hentry).bound
    have hlen := dataPtr.image.length_lt
    rw [FdEntry.last]
    omega

/-- **Where `lseek` goes** in a reachable kernel: to the sum of the base and the offset, or to the
largest `isize` if this is less.  A sum that is negative, and a base that there is not, are refused
and nothing is done. -/
theorem lseek_exact (w : World) (fd off whence arg3 : U64) (entry : FdEntry)
    (hreach : w.kernel.Reachable) (hfd : fdBase ≤ fd.toNat)
    (hentry : w.kernel.fdTable[fd.toNat]? = some entry) (hopen : entry ≠ .free) :
    entry.pos ≤ isizeMax ∧
    (∀ target, entry.seekTarget w.kernel off whence = some target → 0 ≤ target →
      ∃ r, r.toInt = min target isizeMax ∧ dispatch .lseek fd off whence arg3 w = .ok r
        { w with kernel := w.kernel.setFd fd.toNat (entry.withPos (min target isizeMax).toNat) }) ∧
    ((∀ target, entry.seekTarget w.kernel off whence = some target → target < 0) →
      dispatch .lseek fd off whence arg3 w = .ok (-einval) w) := by
  have hpos := hreach.posOk fd.toNat entry hentry
  have hlast := FdEntry.last_lt hreach.filesOk hentry
  have hrun := sysLseek_open off whence hentry hopen
  rw [seekPos_eq entry hpos hlast] at hrun
  rw [dispatch, if_neg (not_le.mpr hfd)]
  refine ⟨?_, fun target htarget hnneg ↦ ?_, fun hneg ↦ ?_⟩
  · rw [isizeMax]
    omega
  · rw [htarget, Option.bind_some, if_neg (not_lt.mpr hnneg)] at hrun
    refine ⟨_, ?_, hrun⟩
    have hlt : (min target isizeMax).toNat < 2 ^ 63 := by
      rw [isizeMax]
      omega
    rw [BitVec.toInt_eq_toNat_of_lt (by rw [(Rust.ofNat_of_lt hlt).2]; omega),
      (Rust.ofNat_of_lt hlt).2]
    rw [isizeMax]
    omega
  · rw [hrun]
    cases htarget : entry.seekTarget w.kernel off whence with
    | none => rfl
    | some target => rw [Option.bind_some, if_pos (hneg target htarget)]

theorem lseek_exact_rootOpen : ∃ r, r.toInt = min 7 isizeMax ∧
    dispatch .lseek 3 5 2 0 rootOpen = .ok r
      { rootOpen with kernel := rootOpen.kernel.setFd 3 (.rootDir 7) } :=
  (lseek_exact rootOpen 3 5 2 0 (.rootDir 0) reachable_rootOpen (by decide) rfl nofun).2.1 7 rfl
    (by decide)

/-- A seek beyond the largest `isize` is no error: it ends there. -/
theorem lseek_saturates : rootOpen.kernel.Reachable ∧
    FdEntry.seekTarget (.rootDir 0) rootOpen.kernel 0x7FFFFFFFFFFFFFFF 2 = some (isizeMax + 2) ∧
    dispatch .lseek 3 0x7FFFFFFFFFFFFFFF 2 0 rootOpen = .ok 0x7FFFFFFFFFFFFFFF
      { rootOpen with kernel := rootOpen.kernel.setFd 3 (.rootDir isizeMax.toNat) } := by
  have htarget : FdEntry.seekTarget (.rootDir 0) rootOpen.kernel 0x7FFFFFFFFFFFFFFF 2 =
      some (isizeMax + 2) := by
    have hint : (0x7FFFFFFFFFFFFFFF : U64).toInt = isizeMax := by simp [isizeMax]
    rw [FdEntry.seekTarget, hint]
    exact congrArg some (Int.add_comm 2 isizeMax)
  have hseek := seekPos_eq (FdEntry.rootDir 0) (Nat.two_pow_pos 63)
    (FdEntry.last_lt (n := 3) reachable_rootOpen.filesOk rfl) 0x7FFFFFFFFFFFFFFF 2
  rw [htarget, Option.bind_some, if_neg (by simp [isizeMax]),
    min_eq_right (by simp [isizeMax])] at hseek
  refine ⟨reachable_rootOpen, htarget, ?_⟩
  rw [dispatch, if_neg (by decide)]
  have hentry : rootOpen.kernel.fdTable[3]? = some (.rootDir 0) := rfl
  refine (sysLseek_open _ _ hentry (by decide)).trans ?_
  rw [hseek]
  rfl

end LeonOS
