import LeonOS.Kernel.Syscall
import LeonOS.Lib.TwoRuns

/-!
# What programs find

The descriptors, the break and the cursor of `mmap` are globals (`Tables`), and a program finds them
as they are.  What `openat`, `dup`, `close`, `read`, `brk` and `mmap` answer depends on them, on the
mounted image, on the input that is still to come and on memory, and on nothing else
(`dispatch_agrees`).
-/

set_option autoImplicit false

namespace LeonOS

open RustM

/-! ## Tables -/

/-- The descriptors, the break and the cursor. -/
structure Tables where
  /-- `FD_TABLE`. -/
  fdTable : Vector FdEntry maxFds
  /-- `POSIX.brk`. -/
  brk : U64
  /-- `MMAP_BASE`. -/
  mmapBase : U64
  deriving DecidableEq

/-- The tables of a kernel. -/
def Kernel.tables (k : Kernel) : Tables := ⟨k.fdTable, k.brk, k.mmapBase⟩

theorem Kernel.mmapBase_tables (k : Kernel) : k.tables.mmapBase = k.mmapBase := rfl

/-- Those of a fresh boot. -/
def Tables.fresh : Tables := Kernel.boot.tables

/-- What the reader of stdin is still to return. -/
def Kernel.pending (k : Kernel) : Option (ℕ → Option U8) :=
  k.stdinReader.map fun stdin n ↦ stdin.polls (k.polled + n)

/-- The calls, and `write`. -/
def tableCalls : List Nr := [.openat, .dup, .close, .read, .brk, .mmap, .write]

/-- **Two kernels are the same to these calls.** -/
structure SameTables (w w' : World) : Prop where
  /-- The tables. -/
  tables : w.kernel.tables = w'.kernel.tables
  /-- The mounted image. -/
  rootfs : w.kernel.rootfs = w'.kernel.rootfs
  /-- The input. -/
  pending : w.kernel.pending = w'.kernel.pending
  /-- Memory. -/
  ram : w.ram = w'.ram

variable {w w' : World} {ptr fd buf len n got : ℕ} {entry : FdEntry} {path name : String}
  {flags dirfd arg0 arg1 arg2 arg3 : U64} {α : Type}

namespace SameTables

theorem fdTable (h : SameTables w w') : w.kernel.fdTable = w'.kernel.fdTable :=
  congrArg Tables.fdTable h.tables

theorem brk (h : SameTables w w') : w.kernel.brk = w'.kernel.brk := congrArg Tables.brk h.tables

theorem mmapBase (h : SameTables w w') : w.kernel.mmapBase = w'.kernel.mmapBase :=
  congrArg Tables.mmapBase h.tables

theorem setFd (h : SameTables w w') (fd : ℕ) (entry : FdEntry) :
    SameTables { w with kernel := w.kernel.setFd fd entry }
      { w' with kernel := w'.kernel.setFd fd entry } := by
  refine ⟨?_, h.rootfs, h.pending, h.ram⟩
  exact congrArg (fun t ↦ { t with fdTable := t.fdTable.setIfInBounds fd entry }) h.tables

end SameTables

/-- The globals may be looked at, where both kernels have the same. -/
theorem alike_getKernel {x : Kernel → SysM α}
    (h : Alike SameTables (x w.kernel w) (x w'.kernel w')) :
    Alike SameTables ((getKernel >>= x) w) ((getKernel >>= x) w') := h

/-! ## Memory -/

theorem load_agrees (a : ℕ) : Agrees SameTables (load a) := fun w w' h ↦ by
  have hbyte : w.ram a = w'.ram a := congrFun h.ram a
  change Alike SameTables (.ok (w.ram a) _) (.ok (w'.ram a) _)
  rw [hbyte]
  exact .ok ⟨h.tables, h.rootfs, h.pending, h.ram⟩

theorem store_agrees (a : ℕ) (bs : List U8) : Agrees SameTables (store a bs) :=
  agrees_modify fun _ _ h ↦
    ⟨h.tables, h.rootfs, h.pending, congrArg (poke · a bs) h.ram⟩

theorem readCstrFrom_agrees (bytes : List U8) : Agrees SameTables (readCstrFrom ptr n bytes) := by
  induction n generalizing bytes with
  | zero => exact agrees_pure none
  | succ n ih =>
    rw [readCstrFrom]
    exact (load_agrees _).bind fun b ↦ (agrees_pure _).ite (ih _)

theorem withPath_agrees {f : String → SysM U64} (h : ∀ path, Agrees SameTables (f path)) :
    Agrees SameTables (withPath ptr f) :=
  (readCstrFrom_agrees []).bind fun path ↦ by
    cases path with
    | none => exact agrees_pure _
    | some path => exact h path

/-! ## Files -/

theorem allocFd_agrees (entry : FdEntry) : Agrees SameTables (allocFd entry) := fun w w' h ↦ by
  refine alike_getKernel ?_
  have hfree : w'.kernel.firstFree = w.kernel.firstFree := by
    rw [Kernel.firstFree, Kernel.firstFree, h.fdTable]
  rw [hfree]
  cases w.kernel.firstFree with
  | none => exact .ok h
  | some i => exact .ok (h.setFd i entry)

theorem openName_agrees : Agrees SameTables (openName name flags) := fun w w' h ↦ by
  refine alike_getKernel ?_
  rw [← h.rootfs]
  cases w.kernel.rootfs with
  | none => exact .ok h
  | some image =>
    dsimp only
    cases Fs.open image.bytes name with
    | error e => exact .ok h
    | ok rec => exact ((agrees_pure _).ite (allocFd_agrees _)) w w' h

theorem openPath_agrees : Agrees SameTables (openPath path flags) := by
  have hroot := allocFd_agrees (.rootDir 0)
  rw [openPath]
  refine .ite hroot (.ite hroot ?_)
  cases normalizePath path with
  | none => exact agrees_pure _
  | some name => exact .ite hroot openName_agrees

theorem sysOpenat_agrees : Agrees SameTables (sysOpenat dirfd ptr flags) := by
  rw [sysOpenat]
  refine .ite (agrees_pure _) fun w w' h ↦ alike_getKernel ?_
  have hdir : w'.kernel.isDirfdOk dirfd = w.kernel.isDirfdOk dirfd := by
    rw [Kernel.isDirfdOk, Kernel.isDirfdOk, h.fdTable]
  rw [hdir]
  exact (Agrees.ite (agrees_pure _) (withPath_agrees fun _ ↦ openPath_agrees)) w w' h

theorem sysRead_agrees : Agrees SameTables (sysRead fd buf len) := by
  rw [sysRead]
  refine .ite (agrees_pure _) fun w w' h ↦ alike_getKernel ?_
  rw [← h.fdTable]
  cases w.kernel.fdTable[fd]? with
  | none => exact .ok h
  | some entry =>
    cases entry with
    | free | rootDir => exact .ok h
    | file dataPtr total pos mode =>
      dsimp only
      by_cases hend : pos ≥ total
      · rw [if_pos hend]
        exact .ok h
      · rw [if_neg hend]
        have hread : ∀ n, Agrees SameTables (do
            let src ← lift (dataPtr.bytes pos n)
            store buf src
            let newPos ← lift (Rust.add pos n)
            modifyKernel (·.setFd fd (.file dataPtr total newPos mode))
            return BitVec.ofNat 64 n) := fun n ↦
          (agrees_lift _).bind fun src ↦ (store_agrees _ _).bind fun _ ↦
            (agrees_lift _).bind fun newPos ↦
              (agrees_modify fun _ _ h ↦ h.setFd _ _).bind fun _ ↦ agrees_pure _
        exact hread _ w w' h

theorem sysClose_agrees : Agrees SameTables (sysClose fd) := fun w w' h ↦ by
  refine alike_getKernel ?_
  rw [← h.fdTable]
  cases w.kernel.fdTable[fd]? with
  | none => exact .ok h
  | some entry =>
    cases entry with
    | free => exact .ok h
    | rootDir | file => exact .ok (h.setFd fd .free)

theorem sysDup_agrees : Agrees SameTables (sysDup fd) := by
  rw [sysDup]
  refine .ite (agrees_pure _) fun w w' h ↦ alike_getKernel ?_
  rw [← h.fdTable]
  cases w.kernel.fdTable[fd]? with
  | none => exact .ok h
  | some entry =>
    cases entry with
    | free => exact .ok h
    | rootDir | file => exact allocFd_agrees _ w w' h

/-! ## Stdin -/

/-- Two readers with the same input to come find the next byte after the same number of calls. -/
theorem find_sub_eq {stdin stdin' : Stdin} {p p' : ℕ}
    (h : ∀ n, stdin.polls (p + n) = stdin'.polls (p' + n)) :
    ∃ j, Nat.find (stdin.live p) = p + j ∧ Nat.find (stdin'.live p') = p' + j := by
  obtain ⟨hp, hsome⟩ := Nat.find_spec (stdin.live p)
  obtain ⟨hp', hsome'⟩ := Nat.find_spec (stdin'.live p')
  obtain ⟨j, hj⟩ := Nat.exists_eq_add_of_le hp
  obtain ⟨j', hj'⟩ := Nat.exists_eq_add_of_le hp'
  have hle : j' ≤ j := by
    have hmin := Nat.find_min' (stdin'.live p') (m := p' + j)
      ⟨Nat.le_add_right _ _, by rw [← h, ← hj]; exact hsome⟩
    omega
  have hge : j ≤ j' := by
    have hmin := Nat.find_min' (stdin.live p) (m := p + j')
      ⟨Nat.le_add_right _ _, by rw [h, ← hj']; exact hsome'⟩
    omega
  obtain rfl := hle.antisymm hge
  exact ⟨j', hj, hj'⟩

theorem readStdinByteBlocking_agrees : Agrees SameTables readStdinByteBlocking := fun w w' h ↦ by
  have hpending := h.pending
  rw [Kernel.pending, Kernel.pending] at hpending
  rw [readStdinByteBlocking]
  refine alike_getKernel ?_
  cases hr : w.kernel.stdinReader with
  | none =>
    cases hr' : w'.kernel.stdinReader with
    | none => exact .ok h
    | some stdin' =>
      rw [hr, hr'] at hpending
      exact nomatch hpending
  | some stdin =>
    cases hr' : w'.kernel.stdinReader with
    | none =>
      rw [hr, hr'] at hpending
      exact nomatch hpending
    | some stdin' =>
      rw [hr, hr'] at hpending
      have hpolls : ∀ n, stdin.polls (w.kernel.polled + n) = stdin'.polls (w'.kernel.polled + n) :=
        congrFun (Option.some_inj.mp hpending)
      obtain ⟨j, hj, hj'⟩ := find_sub_eq hpolls
      have hsame : SameTables
          { w with kernel := { w.kernel with polled := w.kernel.polled + j + 1 } }
          { w' with kernel := { w'.kernel with polled := w'.kernel.polled + j + 1 } } := by
        refine ⟨h.tables, h.rootfs, ?_, h.ram⟩
        rw [Kernel.pending, Kernel.pending]
        dsimp only
        rw [hr, hr']
        refine congrArg some (funext fun n ↦ ?_)
        have hlater := hpolls (j + 1 + n)
        simpa only [Nat.add_assoc] using hlater
      change Alike SameTables
        (.ok (stdin.polls (Nat.find (stdin.live w.kernel.polled))) { w with kernel :=
          { w.kernel with polled := Nat.find (stdin.live w.kernel.polled) + 1 } })
        (.ok (stdin'.polls (Nat.find (stdin'.live w'.kernel.polled))) { w' with kernel :=
          { w'.kernel with polled := Nat.find (stdin'.live w'.kernel.polled) + 1 } })
      rw [hj, hj', hpolls]
      exact .ok hsame

theorem posixReadFrom_agrees : Agrees SameTables (posixReadFrom buf n got) := by
  induction n generalizing got with
  | zero => exact agrees_pure _
  | succ n ih =>
    rw [posixReadFrom]
    refine readStdinByteBlocking_agrees.bind fun ch ↦ ?_
    cases ch with
    | none => exact agrees_pure _
    | some ch => exact (store_agrees _ _).bind fun _ ↦ (agrees_pure _).ite ih

/-! ## The table -/

theorem sysMmap_agrees : Agrees SameTables (sysMmap arg1) := by
  rw [sysMmap]
  refine (agrees_lift _).bind fun alignLen w w' h ↦ alike_getKernel ?_
  rw [h.mmapBase]
  have hmove : SameTables
      { w with kernel := { w.kernel with
        mmapBase := w.kernel.mmapBase + (alignLen &&& ~~~0xFFF) } }
      { w' with kernel := { w'.kernel with
        mmapBase := w'.kernel.mmapBase + (alignLen &&& ~~~0xFFF) } } := by
    refine ⟨?_, h.rootfs, h.pending, h.ram⟩
    exact congrArg (fun t ↦ { t with mmapBase := t.mmapBase + (alignLen &&& ~~~0xFFF) }) h.tables
  exact .ok hmove

theorem brk_agrees : Agrees SameTables (dispatch .brk arg0 arg1 arg2 arg3) := fun w w' h ↦ by
  have hset : SameTables { w with kernel := w.kernel.brkSet arg0 }
      { w' with kernel := w'.kernel.brkSet arg0 } := by
    by_cases hzero : arg0 = 0
    · rw [hzero]
      exact h
    · rw [Kernel.brkSet, Kernel.brkSet, if_neg hzero, if_neg hzero]
      exact ⟨congrArg (fun t ↦ { t with brk := arg0 }) h.tables, h.rootfs, h.pending, h.ram⟩
  change Alike SameTables (.ok (w.kernel.brkSet arg0).brk _) (.ok (w'.kernel.brkSet arg0).brk _)
  rw [hset.brk]
  exact .ok hset

/-- **What these calls look at**: two kernels that are the same to them answer the same, and stay
so. -/
theorem dispatch_agrees {nr : Nr} (h : nr ∈ tableCalls) :
    Agrees SameTables (dispatch nr arg0 arg1 arg2 arg3) := by
  simp only [tableCalls, List.mem_cons, List.not_mem_nil, or_false] at h
  rcases h with rfl | rfl | rfl | rfl | rfl | rfl | rfl
  · exact sysOpenat_agrees
  · exact sysDup_agrees
  · exact (agrees_pure _).ite sysClose_agrees
  · have hposix : Agrees SameTables (posixRead arg0.toNat arg1.toNat arg2.toNat) := by
      rw [posixRead]
      exact .ite (.ite (agrees_pure _) posixReadFrom_agrees) (agrees_pure _)
    exact hposix.ite sysRead_agrees
  · exact brk_agrees
  · exact sysMmap_agrees
  · exact agrees_pure _

end LeonOS
