import LeonOS.Kernel.Syscall
import LeonOS.Lib.Local
import Mathlib.Order.Interval.Set.Basic

/-!
# The memory of a system call

Which addresses a call may use is said by its arguments alone: the bytes of the path that it is
passed (`pathBytes`), which it reads, and the buffer that it is passed (`outBuffer`), which it
fills.  `dispatch_local` says for every call, every argument and every state that it stays in
there: it reads no other byte, so the answer and what it writes do not depend on any other; it
writes no other byte; and it uses no other address.

There is a lemma for each function of `syscall.rs`, with the part of memory that this function has
been given.
-/

set_option autoImplicit false

namespace LeonOS

open Bytes RustM

/-- A world: the callers' memory, and the globals. -/
def worldView : MemoryView World ℕ U8 Kernel where
  ram := World.ram
  touched := World.touched
  rest := World.kernel

/-- A call that reads `R` and writes `W`. -/
abbrev Confined {α : Type} (R W : Set ℕ) (x : SysM α) (w : World) : Prop := Local worldView R W x w

/-- The `n` bytes at `a`. -/
abbrev bytesAt (a n : ℕ) : Set ℕ := Set.Ico a (a + n)

/-- The bytes of a C string, its end included, as far as `read_cstr` looks. -/
def cstrAddrs (ram : ℕ → U8) (ptr : ℕ) : Set ℕ :=
  {a | ∃ i < cstrMax, a = ptr + i ∧ ∀ j < i, ram (ptr + j) ≠ 0}

/-- The path that a call is passed. -/
def pathArg (nr : Nr) (arg0 arg1 : U64) : Option ℕ :=
  match nr with
  | .stat | .lstat | .access | .chdir | .readlink => some arg0.toNat
  | .openat | .newfstatat | .faccessat | .readlinkat => some arg1.toNat
  | _ => none

/-- **What a call reads**: its path. -/
def pathBytes (ram : ℕ → U8) (nr : Nr) (arg0 arg1 : U64) : Set ℕ :=
  {a | ∃ ptr, pathArg nr arg0 arg1 = some ptr ∧ a ∈ cstrAddrs ram ptr}

/-- **What a call writes**: the buffer that it is passed, which is as long as the caller says or as
the structure that is to be filled. -/
def outBuffer (nr : Nr) (arg0 arg1 arg2 arg3 : U64) : Set ℕ :=
  match nr with
  | .read | .getdents64 | .readlink => bytesAt arg1.toNat arg2.toNat
  | .readlinkat => bytesAt arg2.toNat arg3.toNat
  | .getrandom | .getcwd => bytesAt arg0.toNat arg1.toNat
  | .stat | .lstat | .fstat => bytesAt arg1.toNat 144
  | .newfstatat => bytesAt arg2.toNat 144
  | .uname => bytesAt arg0.toNat 390
  | .clockGettime => bytesAt arg1.toNat 16
  | .gettimeofday => bytesAt arg0.toNat 16
  | .wait4 => bytesAt arg1.toNat 4
  | _ => ∅

/-! ## Memory -/

section Memory

variable {R W : Set ℕ} {w : World} {a ptr : ℕ} {α : Type}

theorem bytesAt_subset {a b m n : ℕ} (hb : b ≤ a) (h : a + m ≤ b + n) :
    bytesAt a m ⊆ bytesAt b n :=
  Set.Ico_subset_Ico hb h

theorem local_getKernel : Confined R W getKernel w := fun w' h ↦ by
  have hk : w.kernel = w'.kernel := h.rest
  have h₁ : getKernel w = .ok w.kernel w := rfl
  have h₂ : getKernel w' = .ok w.kernel w' := by rw [hk]; rfl
  rw [h₁, h₂]
  exact .ok (.refl h.rest)

/-- The globals are the rest. -/
theorem local_getKernel_bind {f : Kernel → SysM α} (hf : Confined R W (f w.kernel) w) :
    Confined R W (getKernel >>= f) w :=
  local_getKernel.bind fun _ _ h ↦ by
    cases h
    exact hf

theorem local_modifyKernel (f : Kernel → Kernel) : Confined R W (modifyKernel f) w := fun w' h ↦
  .ok ⟨congrArg f h.rest, ⟨[], rfl, rfl, by simp⟩, fun _ ↦ .inr ⟨rfl, rfl⟩⟩

theorem local_load (ha : a ∈ R) : Confined R W (load a) w := fun w' h ↦ by
  have hb : w.ram a = w'.ram a := h.ram a ha
  have h₁ : load a w = .ok (w.ram a) { w with touched := a :: w.touched } := rfl
  have h₂ : load a w' = .ok (w.ram a) { w' with touched := a :: w'.touched } := by rw [hb]; rfl
  rw [h₁, h₂]
  refine .ok ⟨h.rest, ⟨[a], rfl, rfl, fun x hx ↦ .inl ?_⟩, fun _ ↦ .inr ⟨rfl, rfl⟩⟩
  rwa [List.mem_singleton.mp hx]

theorem local_store {bs : List U8} (ha : bytesAt a bs.length ⊆ W) :
    Confined R W (store a bs) w := fun w' h ↦ by
  refine .ok ⟨h.rest, ⟨List.range' a bs.length, rfl, rfl, fun x hx ↦ .inr (ha ?_)⟩, fun x ↦ ?_⟩
  · simpa [Set.mem_Ico] using List.mem_range'_1.mp hx
  · by_cases hx : a ≤ x ∧ x < a + bs.length
    · refine .inl ⟨ha hx, ?_⟩
      change poke w.ram a bs x = poke w'.ram a bs x
      rw [poke, poke, if_pos hx, if_pos hx]
    · exact .inr ⟨poke_of_lt (by omega), poke_of_lt (by omega)⟩

/-- A write of so many bytes, and then the answer. -/
theorem local_store_bind {bs : List U8} {n b : ℕ} {f : Unit → SysM α} (hW : bytesAt b n ⊆ W)
    (hb : b ≤ a) (hn : a + bs.length ≤ b + n) (hf : ∀ w, Confined R W (f ()) w) :
    Confined R W (store a bs >>= f) w :=
  (local_store ((bytesAt_subset hb hn).trans hW)).seq fun _ _ ↦ hf _

/-! ## Strings -/

/-- The loop reads as long as it has not met the end. -/
theorem local_readCstrFrom {n : ℕ} {bytes : List U8} (hn : bytes.length + n = cstrMax)
    (hR : cstrAddrs w.ram ptr ⊆ R) (hbytes : ∀ j < bytes.length, w.ram (ptr + j) ≠ 0) :
    Confined R W (readCstrFrom ptr n bytes) w := by
  induction n generalizing bytes w with
  | zero => exact local_pure _
  | succ n ih =>
    have hread : ptr + bytes.length ∈ R := hR ⟨bytes.length, by omega, rfl, hbytes⟩
    refine (local_load hread).bind fun b w₁ hrun ↦ .ite (fun _ ↦ local_pure _) fun hb ↦ ?_
    cases hrun
    refine ih (by rw [List.length_append]; simp; omega) hR fun j hj ↦ ?_
    rw [List.length_append, List.length_singleton, Nat.lt_succ_iff_lt_or_eq] at hj
    obtain hj | rfl := hj
    · exact hbytes j hj
    · exact hb

theorem local_readCstr (hR : cstrAddrs w.ram ptr ⊆ R) : Confined R W (readCstr ptr) w :=
  local_readCstrFrom (by simp) hR (by simp)

/-- Reading a string writes nothing. -/
theorem readCstr_ram {path : Option String} {w' : World} (h : readCstr ptr w = .ok path w') :
    w'.ram = w.ram := by
  have hlocal : Confined (cstrAddrs w.ram ptr) ∅ (readCstr ptr) w := local_readCstr subset_rfl
  exact funext fun a ↦ hlocal.keeps h (Set.notMem_empty a)

theorem local_withPath {f : String → SysM U64} (hR : cstrAddrs w.ram ptr ⊆ R)
    (hf : ∀ path w', w'.ram = w.ram → Confined R W (f path) w') :
    Confined R W (withPath ptr f) w := by
  refine (local_readCstr hR).bind fun path w' hrun ↦ ?_
  split
  · exact hf _ w' (readCstr_ram hrun)
  · exact local_pure _

end Memory

/-! ## Files and directories -/

section Files

variable {R W : Set ℕ} {w : World} {fd buf len dirp count pathPtr statPtr : ℕ} {flags dirfd : U64}

theorem local_allocFd (entry : FdEntry) : Confined R W (allocFd entry) w := by
  refine local_getKernel_bind ?_
  split
  · exact (local_modifyKernel _).seq fun _ _ ↦ local_pure _
  · exact local_pure _

theorem local_openName (name : String) : Confined R W (openName name flags) w := by
  refine local_getKernel_bind ?_
  split
  · split
    · exact .ite (fun _ ↦ local_pure _) fun _ ↦ local_allocFd _
    · exact local_pure _
  · exact local_pure _

theorem local_openPath (path : String) : Confined R W (openPath path flags) w := by
  refine .ite (fun _ ↦ local_allocFd _) fun _ ↦ .ite (fun _ ↦ local_allocFd _) fun _ ↦ ?_
  split
  · exact .ite (fun _ ↦ local_allocFd _) fun _ ↦ local_openName _
  · exact local_pure _

theorem local_sysOpenat (hR : cstrAddrs w.ram pathPtr ⊆ R) :
    Confined R W (sysOpenat dirfd pathPtr flags) w := by
  refine .ite (fun _ ↦ local_pure _) fun _ ↦ local_getKernel_bind ?_
  refine .ite (fun _ ↦ local_pure _) fun _ ↦ ?_
  exact local_withPath hR fun path _ _ ↦ local_openPath path

/-- What is copied from a file is as long as was asked for. -/
theorem local_sysRead (hW : bytesAt buf len ⊆ W) : Confined R W (sysRead fd buf len) w := by
  refine .ite (fun _ ↦ local_pure _) fun _ ↦ local_getKernel_bind ?_
  split
  · exact local_pure _
  · exact local_pure _
  · exact local_pure _
  · rename_i dataPtr total pos mode _
    refine .ite (fun _ ↦ local_pure _) fun _ ↦ (local_lift _).bind fun src w₁ hsrc ↦ ?_
    have hlen : src.length = min len (total - pos) := by
      obtain ⟨hle, rfl⟩ := Rust.range_eq_ok.mp (lift_eq_ok.mp hsrc).1
      rw [length_slice_of_le (by omega)]
      omega
    refine local_store_bind hW le_rfl (by omega) fun w₂ ↦ (local_lift _).seq fun newPos w₃ ↦ ?_
    exact (local_modifyKernel _).seq fun _ _ ↦ local_pure _

theorem local_sysClose : Confined R W (sysClose fd) w := by
  refine local_getKernel_bind ?_
  split
  · exact local_pure _
  · exact local_pure _
  · exact (local_modifyKernel _).seq fun _ _ ↦ local_pure _

theorem local_sysLseek (off : U64) (whence : ℕ) : Confined R W (sysLseek fd off whence) w := by
  refine local_getKernel_bind ?_
  split
  · exact local_pure _
  · exact local_pure _
  all_goals
    split
    · exact (local_modifyKernel _).seq fun _ _ ↦ local_pure _
    · exact local_pure _

theorem length_linuxStat (isDir : Bool) (size : ℕ) (mode : BitVec 16) (ino : ℕ) :
    (linuxStat isDir size mode ino).length = 144 := by
  simp [linuxStat]

theorem local_writeStat (isDir : Bool) (size : ℕ) (mode : BitVec 16) (ino : ℕ)
    (hW : bytesAt statPtr 144 ⊆ W) : Confined R W (writeStat statPtr isDir size mode ino) w :=
  local_store_bind hW le_rfl (by rw [length_linuxStat]) fun _ ↦ local_pure _

theorem local_statPath (path : String) (hW : bytesAt statPtr 144 ⊆ W) :
    Confined R W (statPath path statPtr) w := by
  refine .ite (fun _ ↦ local_writeStat _ _ _ _ hW) fun _ ↦ ?_
  split
  · refine local_getKernel_bind ?_
    split
    · split
      · exact local_writeStat _ _ _ _ hW
      · exact local_pure _
    · exact local_pure _
  · exact local_pure _

theorem local_sysStatPath (hR : cstrAddrs w.ram pathPtr ⊆ R) (hW : bytesAt statPtr 144 ⊆ W) :
    Confined R W (sysStatPath pathPtr statPtr) w :=
  .ite (fun _ ↦ local_pure _) fun _ ↦ local_withPath hR fun path _ _ ↦ local_statPath path hW

theorem local_sysFstat (hW : bytesAt statPtr 144 ⊆ W) : Confined R W (sysFstat fd statPtr) w := by
  refine .ite (fun _ ↦ local_pure _) fun _ ↦
    .ite (fun _ ↦ local_writeStat _ _ _ _ hW) fun _ ↦ local_getKernel_bind ?_
  split
  · exact local_pure _
  · exact local_pure _
  · exact local_writeStat _ _ _ _ hW
  · exact local_writeStat _ _ _ _ hW

/-- The path is still there when it is read again. -/
theorem local_newfstatatPath (path : String) (hR : cstrAddrs w.ram pathPtr ⊆ R)
    (hW : bytesAt statPtr 144 ⊆ W) :
    Confined R W (newfstatatPath dirfd pathPtr statPtr flags path) w := by
  refine .ite (fun _ ↦ ?_) fun _ ↦ ?_
  · refine .ite (fun _ ↦ local_writeStat _ _ _ _ hW) fun _ ↦ ?_
    exact .ite (fun _ ↦ local_pure _) fun _ ↦ local_sysFstat hW
  · refine local_getKernel_bind (.ite (fun _ ↦ local_pure _) fun _ ↦ ?_)
    exact local_sysStatPath hR hW

theorem local_sysNewfstatat (hR : cstrAddrs w.ram pathPtr ⊆ R) (hW : bytesAt statPtr 144 ⊆ W) :
    Confined R W (sysNewfstatat dirfd pathPtr statPtr flags) w := by
  refine .ite (fun _ ↦ local_pure _) fun _ ↦ .ite (fun _ ↦ local_pure _) fun _ ↦ ?_
  refine local_withPath hR fun path w' hram ↦ ?_
  rw [← hram] at hR
  exact local_newfstatatPath path hR hW

/-- A record is as long as it says. -/
theorem local_writeDirent {rec reclen : ℕ} (name : List U8) (typ : U8) (ino off : ℕ)
    (hreclen : reclen = direntRecordLen name.length) (hW : bytesAt rec reclen ⊆ W) :
    Confined R W (writeDirent rec name typ ino off reclen) w := by
  have hfit : 20 + name.length ≤ reclen := by
    rw [hreclen, direntRecordLen]
    omega
  refine local_store_bind hW le_rfl (by simp; omega) fun _ ↦ ?_
  refine local_store_bind hW (by omega) (by simp; omega) fun _ ↦ ?_
  refine local_store_bind hW (by omega) (by simp; omega) fun _ ↦ ?_
  refine local_store_bind hW (by omega) (by simp; omega) fun _ ↦ ?_
  refine local_store_bind hW (by omega) (by omega) fun _ ↦ ?_
  refine local_store_bind hW (by omega) (by simp; omega) fun _ ↦ local_store ?_
  exact (bytesAt_subset (by omega) (by simp; omega)).trans hW

theorem local_getdentsFrom {n pos written : ℕ} (hW : bytesAt dirp count ⊆ W) :
    Confined R W (getdentsFrom fd dirp count n pos written) w := by
  induction n generalizing pos written w with
  | zero => exact local_pure _
  | succ n ih =>
    refine local_getKernel_bind ?_
    split
    · exact local_pure _
    · rename_i name typ ino _
      refine .ite (fun _ ↦ .ite (fun _ ↦ local_pure _) fun _ ↦ local_pure _) fun hfit ↦ ?_
      have hrec : bytesAt (dirp + written) (direntRecordLen name.length) ⊆ W :=
        (bytesAt_subset (by omega) (by omega)).trans hW
      refine (local_writeDirent name typ ino (pos + 1) rfl hrec).seq fun _ _ ↦ ?_
      exact (local_modifyKernel _).seq fun _ _ ↦ ih

theorem local_sysGetdents64 (hW : bytesAt dirp count ⊆ W) :
    Confined R W (sysGetdents64 fd dirp count) w := by
  refine .ite (fun _ ↦ local_pure _) fun _ ↦ local_getKernel_bind ?_
  split
  · exact local_pure _
  · exact .ite (fun _ ↦ local_pure _) fun _ ↦ local_getdentsFrom hW
  · exact local_pure _

end Files

/-! ## The rest -/

section Others

variable {R W : Set ℕ} {w : World} {fd buf size len bufsz pathPtr tp : ℕ}

theorem local_sysGetcwd (hW : bytesAt buf size ⊆ W) : Confined R W (sysGetcwd buf size) w := by
  refine .ite (fun _ ↦ local_pure _) fun _ ↦ local_getKernel_bind ?_
  refine .ite (fun _ ↦ local_pure _) fun hlen ↦ ?_
  refine local_store_bind hW le_rfl (by simp; omega) fun _ ↦ ?_
  exact local_store_bind hW (by omega) (by simp; omega) fun _ ↦ local_pure _

theorem local_chdirPath (path : String) : Confined R W (chdirPath path) w :=
  .ite (fun _ ↦ (local_modifyKernel _).seq fun _ _ ↦ local_pure _) fun _ ↦ local_pure _

theorem local_sysChdir (hR : cstrAddrs w.ram pathPtr ⊆ R) : Confined R W (sysChdir pathPtr) w :=
  .ite (fun _ ↦ local_pure _) fun _ ↦ local_withPath hR fun path _ _ ↦ local_chdirPath path

theorem local_sysAccess (hR : cstrAddrs w.ram pathPtr ⊆ R) : Confined R W (sysAccess pathPtr) w :=
  .ite (fun _ ↦ local_pure _) fun _ ↦
    local_withPath hR fun _ _ _ ↦ local_getKernel_bind (local_pure _)

theorem local_readlinkImpl (path : String) (hW : bytesAt buf bufsz ⊆ W) :
    Confined R W (readlinkImpl path buf bufsz) w := by
  refine .ite (fun _ ↦ local_pure _) fun _ ↦ .ite (fun _ ↦ ?_) fun _ ↦ local_pure _
  exact local_store_bind hW le_rfl (by simp) fun _ ↦ local_pure _

theorem local_sysReadlink (hR : cstrAddrs w.ram pathPtr ⊆ R) (hW : bytesAt buf bufsz ⊆ W) :
    Confined R W (sysReadlink pathPtr buf bufsz) w :=
  .ite (fun _ ↦ local_pure _) fun _ ↦ local_withPath hR fun path _ _ ↦ local_readlinkImpl path hW

/-- Each field takes 65 bytes. -/
theorem local_unameFrom {base : ℕ} {vals : List (List U8)}
    (hW : bytesAt base (65 * vals.length) ⊆ W) : Confined R W (unameFrom base vals) w := by
  induction vals generalizing base w with
  | nil => exact local_pure _
  | cons s vals ih =>
    rw [List.length_cons] at hW
    refine local_store_bind hW le_rfl (by simp) fun _ ↦ ?_
    refine local_store_bind hW le_rfl ?_ fun _ ↦ ih ?_
    · rw [List.length_take]
      omega
    · exact (bytesAt_subset (by omega) (by omega)).trans hW

theorem local_sysUname (hW : bytesAt buf 390 ⊆ W) : Confined R W (sysUname buf) w :=
  .ite (fun _ ↦ local_pure _) fun _ ↦ (local_unameFrom hW).seq fun _ _ ↦ local_pure _

theorem local_writeTime (hW : bytesAt tp 16 ⊆ W) : Confined R W (writeTime tp) w :=
  local_store_bind hW le_rfl (by simp) fun _ ↦
    local_store_bind hW (by omega) (by simp) fun _ ↦ local_pure _

theorem length_randomBytes (x : U8) (n : ℕ) : (randomBytes x n).length = n := by
  induction n generalizing x with
  | zero => rfl
  | succ n ih => rw [randomBytes, List.length_cons, ih]

theorem local_sysGetrandom (hW : bytesAt buf len ⊆ W) : Confined R W (sysGetrandom buf len) w :=
  .ite (fun _ ↦ local_pure _) fun _ ↦
    local_store_bind hW le_rfl (by rw [length_randomBytes]) fun _ ↦ local_pure _

theorem local_sysDup : Confined R W (sysDup fd) w := by
  refine .ite (fun _ ↦ local_pure _) fun _ ↦ local_getKernel_bind ?_
  split
  · exact local_pure _
  · exact local_pure _
  · exact local_allocFd _

theorem local_sysDup2 (newfd : ℕ) : Confined R W (sysDup2 fd newfd) w := by
  refine .ite (fun _ ↦ .ite (fun _ ↦ local_pure _) fun _ ↦ local_pure _) fun _ ↦
    .ite (fun _ ↦ local_pure _) fun _ ↦ local_getKernel_bind ?_
  split
  · exact local_pure _
  · exact local_pure _
  · exact (local_modifyKernel _).seq fun _ _ ↦ local_pure _

theorem local_sysWait4 (pid : U64) (hW : bytesAt buf 4 ⊆ W) : Confined R W (sysWait4 pid buf) w := by
  refine local_getKernel_bind (.ite (fun _ ↦ local_pure _) fun _ ↦ ?_)
  refine (local_modifyKernel _).seq fun _ _ ↦ ?_
  refine .ite (fun _ ↦ local_pure _) fun _ ↦ .ite (fun _ ↦ ?_) fun _ ↦ local_pure _
  exact local_store_bind hW le_rfl (by simp) fun _ ↦ local_pure _

/-- The reader is one of the globals, so what it returns is known. -/
theorem local_readStdinByteBlocking : Confined R W readStdinByteBlocking w := by
  refine local_getKernel_bind ?_
  split
  · exact local_pure _
  · exact (local_modifyKernel _).seq fun _ _ ↦ local_pure _

theorem local_posixReadFrom {n got : ℕ} (hW : bytesAt buf (got + n) ⊆ W) :
    Confined R W (posixReadFrom buf n got) w := by
  induction n generalizing got w with
  | zero => exact local_pure _
  | succ n ih =>
    refine local_readStdinByteBlocking.seq fun ch _ ↦ ?_
    split
    · exact local_pure _
    · refine local_store_bind hW (by omega) (by simp) fun _ ↦ ?_
      refine .ite (fun _ ↦ local_pure _) fun _ ↦ ih ?_
      rwa [Nat.add_right_comm]

theorem local_posixRead (hW : bytesAt buf len ⊆ W) : Confined R W (posixRead fd buf len) w := by
  refine .ite (fun _ ↦ .ite (fun _ ↦ local_pure _) fun _ ↦ ?_) fun _ ↦ local_pure _
  exact local_posixReadFrom (by rwa [Nat.zero_add])

theorem local_sysMmap (arg1 : U64) : Confined R W (sysMmap arg1) w :=
  (local_lift _).seq fun _ _ ↦
    local_getKernel_bind ((local_modifyKernel _).seq fun _ _ ↦ local_pure _)

theorem local_sysArchPrctl (arg0 arg1 : U64) : Confined R W (sysArchPrctl arg0 arg1) w := by
  refine .ite (fun _ ↦ ?_) fun _ ↦ .ite (fun _ ↦ ?_) fun _ ↦ local_pure _
  all_goals exact (local_modifyKernel _).seq fun _ _ ↦ local_pure _

end Others

/-- **Every system call** reads its path and writes its buffer, and that is all. -/
theorem dispatch_local (nr : Nr) (arg0 arg1 arg2 arg3 : U64) (w : World) :
    Confined (pathBytes w.ram nr arg0 arg1) (outBuffer nr arg0 arg1 arg2 arg3)
      (dispatch nr arg0 arg1 arg2 arg3) w := by
  have hpath : ∀ ptr, pathArg nr arg0 arg1 = some ptr →
      cstrAddrs w.ram ptr ⊆ pathBytes w.ram nr arg0 arg1 := fun ptr h a ha ↦ ⟨ptr, h, ha⟩
  cases nr with
  | read => exact .ite (fun _ ↦ local_posixRead subset_rfl) fun _ ↦ local_sysRead subset_rfl
  | brk => exact (local_modifyKernel _).seq fun _ _ ↦ local_getKernel_bind (local_pure _)
  | exit => exact (local_modifyKernel _).seq fun _ _ ↦ local_pure _
  | exitGroup => exact (local_modifyKernel _).seq fun _ _ ↦ local_pure _
  | getpid => exact local_getKernel_bind (local_pure _)
  | gettid => exact local_getKernel_bind (local_pure _)
  | setTidAddress => exact local_getKernel_bind (local_pure _)
  | close => exact .ite (fun _ ↦ local_pure _) fun _ ↦ local_sysClose
  | lseek => exact .ite (fun _ ↦ local_pure _) fun _ ↦ local_sysLseek _ _
  | mmap => exact local_sysMmap _
  | archPrctl => exact local_sysArchPrctl _ _
  | openat => exact local_sysOpenat (hpath _ rfl)
  | stat => exact local_sysStatPath (hpath _ rfl) subset_rfl
  | lstat => exact local_sysStatPath (hpath _ rfl) subset_rfl
  | fstat => exact local_sysFstat subset_rfl
  | newfstatat => exact local_sysNewfstatat (hpath _ rfl) subset_rfl
  | getdents64 => exact local_sysGetdents64 subset_rfl
  | readlink => exact local_sysReadlink (hpath _ rfl) subset_rfl
  | readlinkat => exact local_sysReadlink (hpath _ rfl) subset_rfl
  | access => exact local_sysAccess (hpath _ rfl)
  | faccessat => exact local_sysAccess (hpath _ rfl)
  | chdir => exact local_sysChdir (hpath _ rfl)
  | getcwd => exact local_sysGetcwd subset_rfl
  | uname => exact local_sysUname subset_rfl
  | clockGettime =>
    exact .ite (fun _ ↦ local_pure _) fun _ ↦ local_writeTime subset_rfl
  | gettimeofday =>
    exact .ite (fun _ ↦ local_pure _) fun _ ↦ local_writeTime subset_rfl
  | getrandom => exact local_sysGetrandom subset_rfl
  | dup => exact local_sysDup
  | dup2 => exact local_sysDup2 _
  | wait4 => exact local_sysWait4 _ subset_rfl
  | _ => exact local_pure _

end LeonOS
