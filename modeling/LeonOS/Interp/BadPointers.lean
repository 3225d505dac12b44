import LeonOS.Interp.Execve
import LeonOS.Interp.Pointers
import LeonOS.Interp.StepFrame

/-!
# Bad pointers

A `read`, `write` or `execve` of an interpreted program checks its pointers, and a pointer that does
not lead into the program's memory (`BadPointer`) should be answered with `EFAULT`
(`AnswersEfault`), as the null path of an `execve` is.  But a check that fails is passed on by `?`
and ends the whole run, and `read` cuts its buffer off where memory ends.  Only a path that is read
without leaving memory and yet is no string is answered (`answersEfault_iff`).
-/

set_option autoImplicit false

namespace LeonOS

open Bytes RustM

/-! ## Pointers -/

/-- A buffer is inside the program's memory. -/
def BufferInside (base : U64) (mem : List U8) (va : U64) (n : ℕ) : Prop :=
  ∃ bytes, bytes.length = n ∧ Window.Holds base mem va.toNat bytes

/-- A string is, with the zero that ends it. -/
def StringInside (base : U64) (mem : List U8) (va : U64) : Prop :=
  ∃ bytes, Window.Holds base mem va.toNat (bytes ++ [0])

/-- An array of strings is, with the null pointer that ends it. -/
def StringsInside (base : U64) (mem : List U8) (va : U64) : Prop :=
  ∃ ptrs : List U64,
    Window.Holds base mem va.toNat ((ptrs ++ [0]).flatMap fun p : U64 ↦ toLE 8 p.toNat) ∧
      ∀ p ∈ ptrs, p ≠ 0 ∧ StringInside base mem p

/-- **A call has a bad pointer**: one that is not null and leads out of the program's memory. -/
def BadPointer (base : U64) (g : Guest Os) : Nr → Prop
  | .read | .write =>
    g.cpu.rsi ≠ 0 ∧ ¬BufferInside base g.mem g.cpu.rsi g.cpu.rdx.toNat
  | .execve =>
    (g.cpu.rdi ≠ 0 ∧ ¬StringInside base g.mem g.cpu.rdi) ∨
    (g.cpu.rsi ≠ 0 ∧ ¬StringsInside base g.mem g.cpu.rsi) ∨
    (g.cpu.rdx ≠ 0 ∧ ¬StringsInside base g.mem g.cpu.rdx)
  | _ => False

/-- **A call is answered with `EFAULT`**, and has done nothing. -/
def AnswersEfault (g : Guest Os) (out : EStateM.Result (Fault RunError) (Guest Os) Bool) : Prop :=
  ∃ stop g', out = .ok stop g' ∧ g'.cpu.rax = -efault ∧ g'.mem = g.mem ∧
    g'.os.world.kernel = g.os.world.kernel

/-- The byte at an address. -/
def byteAt (base : U64) (mem : List U8) (va : U64) : Option U8 :=
  if va.toNat < base.toNat then none else mem[va.toNat - base.toNat]?

/-- The bytes from `va + off` on. -/
def BytesAt (base : U64) (mem : List U8) (va : U64) : ℕ → List U8 → Prop
  | _, [] => True
  | off, b :: bytes =>
    byteAt base mem (va + BitVec.ofNat 64 off) = some b ∧ BytesAt base mem va (off + 1) bytes

/-- A path that is no string, though all that is read of it is inside memory: it is null, has no
end among its first 4096 bytes, or is not in UTF-8. -/
def NoString (base : U64) (mem : List U8) (va : U64) : Prop :=
  va = 0 ∨ ∃ bytes, BytesAt base mem va 0 bytes ∧ 0 ∉ bytes ∧
    (bytes.length = 4096 ∨ bytes.length < 4096 ∧
      byteAt base mem (va + BitVec.ofNat 64 bytes.length) = some 0 ∧ Rust.fromUtf8 bytes = none)

/-! ## The path -/

variable {run : Run} {tmp : StackSlot} {base va : U64} {mem : List U8} {g : Guest Os}

theorem readU8_eq_byteAt {b : U8} : readU8 base mem va = .ok b ↔ byteAt base mem va = some b := by
  rw [readU8, byteAt, vaToIndex, Rust.bind_eq_ok]
  constructor
  · rintro ⟨i, hi, hb⟩
    obtain ⟨hva, hlt⟩ := Window.index_eq_ok.mp hi
    rw [Rust.index, List.getElem?_eq_getElem hlt] at hb
    rw [if_neg (by omega), hva, Nat.add_sub_cancel_left, List.getElem?_eq_getElem hlt]
    exact congrArg some (Except.ok.inj hb)
  · intro h
    split at h
    · cases h
    · rename_i hge
      obtain ⟨hlt, -⟩ := List.getElem?_eq_some_iff.mp h
      refine ⟨va.toNat - base.toNat, Window.index_eq_ok.mpr ⟨by omega, hlt⟩, ?_⟩
      rw [Rust.index, h]

/-- The next bytes, up to `n` of them, make no string of those before them, though they are inside
memory. -/
def ScanFails (base : U64) (mem : List U8) (va : U64) (n : ℕ) (pre : List U8) : Prop :=
  ∃ bytes, BytesAt base mem va pre.length bytes ∧ 0 ∉ bytes ∧
    (bytes.length = n ∨ bytes.length < n ∧
      byteAt base mem (va + BitVec.ofNat 64 (pre.length + bytes.length)) = some 0 ∧
      Rust.fromUtf8 (pre ++ bytes) = none)

/-- The first of them is a zero, or there is a byte less to come. -/
theorem scanFails_succ (n : ℕ) (pre : List U8) : ScanFails base mem va (n + 1) pre ↔
    ∃ b, byteAt base mem (va + BitVec.ofNat 64 pre.length) = some b ∧
      if b = 0 then Rust.fromUtf8 pre = none else ScanFails base mem va n (pre ++ [b]) := by
  -- what stands before the others has become one longer
  have hlen (b : U8) : (pre ++ [b]).length = pre.length + 1 := by
    rw [List.length_append, List.length_singleton]
  have hend (b : U8) (bytes : List U8) :
      (pre ++ [b]).length + bytes.length = pre.length + (b :: bytes).length := by
    rw [hlen, List.length_cons]
    omega
  constructor
  · rintro ⟨bytes, hbytes, hnonzero, hstop⟩
    cases bytes with
    | nil =>
      obtain ⟨-, hb, hutf⟩ := hstop.resolve_left (Nat.succ_ne_zero n).symm
      refine ⟨0, hb, ?_⟩
      rwa [if_pos rfl, ← List.append_nil pre]
    | cons b bytes =>
      obtain ⟨hne, hnonzero⟩ := List.ne_and_not_mem_of_not_mem_cons hnonzero
      refine ⟨b, hbytes.1, ?_⟩
      rw [if_neg (Ne.symm hne), ScanFails]
      refine ⟨bytes, (hlen b).symm ▸ hbytes.2, hnonzero, ?_⟩
      rw [hend, List.append_assoc, List.singleton_append]
      exact hstop.imp Nat.succ.inj (.imp Nat.lt_of_succ_lt_succ id)
  · rintro ⟨b, hb, hrest⟩
    by_cases hzero : b = 0
    · rw [if_pos hzero] at hrest
      rw [hzero] at hb
      refine ⟨[], trivial, List.not_mem_nil, .inr ⟨Nat.succ_pos n, hb, ?_⟩⟩
      rwa [List.append_nil]
    · rw [if_neg hzero, ScanFails] at hrest
      obtain ⟨bytes, hbytes, hnonzero, hstop⟩ := hrest
      rw [hend, List.append_assoc, List.singleton_append] at hstop
      rw [hlen] at hbytes
      have hcons := List.not_mem_cons_of_ne_of_not_mem (Ne.symm hzero) hnonzero
      exact ⟨b :: bytes, ⟨hb, hbytes⟩, hcons,
        hstop.imp (congrArg Nat.succ) (.imp Nat.succ_lt_succ id)⟩

/-- The loop finds no string, but does not leave memory. -/
theorem readUserCstrFrom_eq_none (n : ℕ) (pre : List U8) :
    readUserCstrFrom base mem va n pre = .ok none ↔ ScanFails base mem va n pre := by
  induction n generalizing pre with
  | zero => exact iff_of_true rfl ⟨[], trivial, List.not_mem_nil, .inl rfl⟩
  | succ n ih =>
    rw [readUserCstrFrom, Rust.bind_eq_ok, scanFails_succ]
    refine exists_congr fun b ↦ and_congr readU8_eq_byteAt ?_
    by_cases hzero : b = 0
    · rw [if_pos hzero, if_pos hzero]
      exact ⟨Except.ok.inj, congrArg Except.ok⟩
    · rw [if_neg hzero, if_neg hzero, ih]

theorem readUserCstr_eq_none :
    readUserCstr base mem va = .ok none ↔ NoString base mem va := by
  rw [readUserCstr, NoString]
  by_cases hva : va = 0
  · rw [if_pos hva]
    exact iff_of_true rfl (.inl hva)
  · rw [if_neg hva, or_iff_right hva, readUserCstrFrom_eq_none, ScanFails]
    simp only [List.length_nil, Nat.zero_add, List.nil_append]

/-! ## The three calls -/

/-- A file that is run, or cannot be, is not answered with `EFAULT`. -/
theorem execFile_ne_efault (name : String) (argv envp : List String) (rec : FileRecord) :
    Ensures (execFile run name argv envp rec) g fun _ g' ↦ g'.cpu.rax ≠ -efault := by
  have hzero : (0 : U64) ≠ -efault := by decide
  have henoexec : -enoexec ≠ -efault := by decide
  rw [execFile, ensures_bind]
  intro _ g₁ _
  rw [ensures_bind]
  intro ran g₂ _
  rw [ensures_ite]
  exact ⟨fun _ ↦ ensures_setRax.mpr hzero, fun _ ↦ ensures_setRax.mpr henoexec⟩

/-- Nor is anything else that comes after the path. -/
theorem handleExecve_ne_efault {path : String}
    (hpath : readUserCstr base g.mem g.cpu.rdi = .ok (some path)) :
    Ensures (handleExecve run base) g fun _ g' ↦ g'.cpu.rax ≠ -efault := by
  have hne : -enoent ≠ -efault := by decide
  have henoent : Ensures (setRax (-enoent) false) g fun _ g' ↦ g'.cpu.rax ≠ -efault :=
    ensures_setRax.mpr hne
  rw [handleExecve, ensures_bind, ensures_getCpu, ensures_bind, ensures_reading]
  intro path' hpath'
  obtain rfl : some path = path' := Except.ok.inj (hpath.symm.trans hpath')
  dsimp only
  rw [ensures_bind, ensures_reading]
  intro argv _
  rw [ensures_bind, ensures_reading]
  intro envp _
  cases normalizeExecPath path with
  | none => exact henoent
  | some name =>
    dsimp only
    rw [ensures_bind, ensures_get]
    cases g.os.world.kernel.rootfs with
    | none => exact henoent
    | some image =>
      dsimp only
      cases Fs.open image.bytes name with
      | error e => exact henoent
      | ok rec => exact execFile_ne_efault name argv envp rec

/-- `execve` answers `EFAULT` just for such a path. -/
theorem handleExecve_answersEfault_iff :
    AnswersEfault g (handleExecve run base g) ↔ NoString base g.mem g.cpu.rdi := by
  rw [← readUserCstr_eq_none]
  cases hpath : readUserCstr base g.mem g.cpu.rdi with
  | error e =>
    refine iff_of_false ?_ fun h ↦ by cases h
    rintro ⟨stop, g', hrun, -⟩
    rw [handleExecve, bind_getCpu, bind_reading, hpath] at hrun
    cases hrun
  | ok path =>
    cases path with
    | none =>
      refine iff_of_true ⟨false, { g with cpu := { g.cpu with rax := -efault } }, ?_⟩ rfl
      rw [handleExecve, bind_getCpu, bind_reading, hpath]
      exact ⟨rfl, rfl, rfl, rfl⟩
    | some path =>
      refine iff_of_false ?_ fun h ↦ by cases h
      rintro ⟨stop, g', hrun, hrax, -⟩
      exact handleExecve_ne_efault hpath stop g' hrun hrax

/-- A `write` of a bad buffer does not return. -/
theorem handleWrite_bad (h : ¬BufferInside base g.mem g.cpu.rsi g.cpu.rdx.toNat) :
    Ensures (handleWrite base) g fun _ _ ↦ False := by
  rw [handleWrite, ensures_bind, ensures_getCpu, ensures_bind, ensures_reading]
  intro bytes hbytes
  refine absurd ?_ h
  obtain ⟨start, hstart, hbytes⟩ := Rust.bind_eq_ok.mp hbytes
  obtain ⟨last, hlast, hbytes⟩ := Rust.bind_eq_ok.mp hbytes
  obtain ⟨-, -, hbytes⟩ := Rust.bind_eq_ok.mp hbytes
  rw [vaToIndex, Window.index_eq_ok] at hstart
  rw [Rust.okOr_eq_ok, Rust.checkedAdd_eq_some] at hlast
  obtain ⟨⟨-, hle⟩, -⟩ := Rust.range_eq_ok.mp hbytes
  have hend : start + g.cpu.rdx.toNat ≤ g.mem.length := by omega
  refine ⟨slice g.mem start g.cpu.rdx.toNat, length_slice_of_le hend, ?_⟩
  refine ⟨g.mem.take start, g.mem.drop (start + g.cpu.rdx.toNat), ?_, ?_⟩
  · rw [slice, ← List.drop_drop, List.take_append_drop, List.take_append_drop]
  · rw [List.length_take, hstart.1]
    omega

/-! ### `read` -/

/-- The reader of stdin was called. -/
theorem readStdinByteBlocking_polls (w : World) : Ensures readStdinByteBlocking w fun ch w' ↦
    ch = none ∨ w.kernel.polled < w'.kernel.polled := by
  rw [readStdinByteBlocking, ensures_bind, ensures_getKernel]
  split
  · exact ensures_pure.mpr (.inl rfl)
  · rename_i stdin _
    simp only [ensures_bind, ensures_modifyKernel, ensures_pure]
    exact .inr (Nat.lt_succ_of_le (Nat.find_spec (stdin.live w.kernel.polled)).1)

/-- The reader of stdin was called as often, or more often. -/
def PolledMore (k k' : Kernel) : Prop := k.polled ≤ k'.polled

instance : IsPreorder Kernel PolledMore where
  refl k := le_refl k.polled
  trans _ _ _ h h' := Nat.le_trans h h'

theorem readStdinByteBlocking_polledMore (w : World) :
    Ensures readStdinByteBlocking w fun _ w' ↦ PolledMore w.kernel w'.kernel := by
  rw [readStdinByteBlocking, ensures_bind, ensures_getKernel]
  split
  · exact ensures_pure.mpr (refl w.kernel)
  · rename_i stdin _
    simp only [ensures_bind, ensures_modifyKernel, ensures_pure]
    exact Nat.le_succ_of_le (Nat.find_spec (stdin.live w.kernel.polled)).1

/-- A line from stdin leaves its mark, if it is not empty. -/
theorem readLineFrom_polls (start n got : ℕ) :
    Ensures (readLineFrom start (n + 1) got) g fun last g' ↦
      last = got ∨ g'.os.world.kernel ≠ g.os.world.kernel := by
  rw [readLineFrom, ensures_bind, ensures_sys]
  refine (readStdinByteBlocking_polls g.os.world).mono fun ch w hch ↦ ?_
  cases ch with
  | none => exact ensures_pure.mpr (.inl rfl)
  | some ch =>
    have hpolled := hch.resolve_left fun h ↦ by cases h
    have hne {k : Kernel} (h : PolledMore w.kernel k) : k ≠ g.os.world.kernel := by
      rintro rfl
      exact absurd h (not_le.mpr hpolled)
    simp only [ensures_bind, ensures_writing, ensures_process, ensures_ite, ensures_pure]
    intro mem _
    refine ⟨fun _ ↦ .inr (hne (refl w.kernel)), fun _ last g' hrun ↦ .inr (hne ?_)⟩
    exact (readLineFrom_keeps readStdinByteBlocking_polledMore start n (got + 1) _).1 last g' hrun

/-- A `read` from the kernel's stack is not answered with `EFAULT`. -/
theorem dispatch_read_ne_efault {fd addr want : U64} {w : World} (hfd : fd ≠ 0)
    (haddr : addr ≠ 0) (hwant : want.toNat ≤ 256) :
    Ensures (dispatch .read fd addr want 0) w fun r _ ↦ r ≠ -efault := by
  have hbuf : addr.toNat ≠ 0 := fun h ↦ haddr (BitVec.toNat_inj.mp h)
  rw [dispatch, ensures_ite]
  refine ⟨fun _ ↦ ?_, fun _ ↦ ?_⟩
  · have hstdin : fd.toNat ≠ 0 := fun h ↦ hfd (BitVec.toNat_inj.mp h)
    rw [posixRead, if_neg hstdin]
    exact ensures_pure.mpr (by decide)
  · rw [sysRead, if_neg hbuf, ensures_bind, ensures_getKernel]
    split
    · exact ensures_pure.mpr (by decide)
    · exact ensures_pure.mpr (by decide)
    · exact ensures_pure.mpr (by decide)
    · rw [ensures_ite]
      refine ⟨fun _ ↦ ensures_pure.mpr (by decide), fun _ ↦ ?_⟩
      simp only [ensures_bind, ensures_lift, ensures_store, ensures_modifyKernel, ensures_pure]
      intro src _ newPos _ heq
      have hnat := congrArg BitVec.toNat heq
      rw [(Rust.ofNat_of_lt (by omega)).2] at hnat
      exact absurd (hnat.symm.le.trans (min_le_left _ _)) (by rw [efault]; simp; omega)

theorem readThroughTmp_ne_efault {fd : U64} (hfd : fd ≠ 0) (start cap : ℕ) :
    Ensures (readThroughTmp tmp start cap fd) g fun _ g' ↦ g'.cpu.rax ≠ -efault := by
  rw [readThroughTmp, ensures_bind]
  intro _ g₁ _
  rw [ensures_bind, ensures_sys]
  refine (dispatch_read_ne_efault hfd tmp.ne_zero ?_).mono fun n w hn ↦ ?_
  · rw [BitVec.toNat_ofNat]
    exact (Nat.mod_le _ _).trans (min_le_right _ _)
  rw [ensures_ite]
  refine ⟨fun _ ↦ ?_, fun _ ↦ ensures_setRax.mpr hn⟩
  rw [ensures_bind, ensures_get, ensures_bind, ensures_writing]
  exact fun mem _ ↦ ensures_setRax.mpr hn

/-- A `read` is never answered with `EFAULT`. -/
theorem handleRead_not_efault : Ensures (handleRead tmp base) g fun _ g' ↦
    ¬(g'.cpu.rax = -efault ∧ g'.os.world.kernel = g.os.world.kernel) := by
  have hzero : (0 : U64) ≠ -efault := by decide
  rw [handleRead, ensures_bind, ensures_getCpu, ensures_bind, ensures_reading]
  intro start _
  rw [ensures_bind, ensures_get, ensures_ite]
  refine ⟨fun _ ↦ ?_, fun hcap ↦ ?_⟩
  · exact ensures_setRax.mpr fun h ↦ hzero h.1
  rw [ensures_ite]
  refine ⟨fun _ ↦ ?_, fun hfd ↦ ?_⟩
  · obtain ⟨n, hn⟩ := Nat.exists_eq_succ_of_ne_zero hcap
    rw [hn]
    refine (readLineFrom_polls start n 0).bind fun got g' hgot ↦ ensures_setRax.mpr ?_
    rintro ⟨hrax, hkernel⟩
    rw [hgot.resolve_right (not_not.mpr hkernel)] at hrax
    exact hzero hrax
  · exact (readThroughTmp_ne_efault hfd start _).mono fun _ g' h h' ↦ h h'.1

/-- **When a bad pointer is answered with `EFAULT`**: when the path of an `execve` is no string, and
memory is not left to find this out. -/
theorem answersEfault_iff (run : Run) (tmp : StackSlot) (base : U64) (g : Guest Os)
    (hbad : BadPointer base g (.decode g.cpu.rax.toNat)) :
    AnswersEfault g (handleSyscall run tmp base g) ↔
      Nr.decode g.cpu.rax.toNat = .execve ∧ NoString base g.mem g.cpu.rdi := by
  rw [handleSyscall, bind_getCpu]
  generalize Nr.decode g.cpu.rax.toNat = nr at hbad
  cases nr with
  | read =>
    refine iff_of_false ?_ fun h ↦ (by cases h.1)
    rintro ⟨stop, g', hrun, hrax, -, hkernel⟩
    exact handleRead_not_efault stop g' hrun ⟨hrax, hkernel⟩
  | write =>
    refine iff_of_false ?_ fun h ↦ (by cases h.1)
    rintro ⟨stop, g', hrun, -⟩
    exact handleWrite_bad hbad.2 stop g' hrun
  | execve => exact handleExecve_answersEfault_iff.trans (iff_and_self.mpr fun _ ↦ rfl)
  | _ => exact hbad.elim

/-- A program that writes a byte from an address below its memory. -/
def strayGuest : Guest Os :=
  { pageGuest 1 1 0x1000 with cpu := { (pageGuest 1 1 0x1000).cpu with rdx := 1 } }

theorem badPointer_stray : BadPointer 0x400000 strayGuest (.decode strayGuest.cpu.rax.toNat) := by
  refine ⟨by decide, ?_⟩
  rintro ⟨bytes, -, hbytes⟩
  exact absurd hbytes.le.1 (by decide)

theorem answersEfault_iff_stray : AnswersEfault strayGuest
    (handleSyscall (fun _ _ _ ↦ pure ()) ⟨1, by decide⟩ 0x400000 strayGuest) ↔
      Nr.decode strayGuest.cpu.rax.toNat = .execve ∧
        NoString 0x400000 strayGuest.mem strayGuest.cpu.rdi :=
  answersEfault_iff _ _ 0x400000 strayGuest badPointer_stray

/-- The write ends the run. -/
theorem stray_not_answered : BadPointer 0x400000 strayGuest (.decode strayGuest.cpu.rax.toNat) ∧
    ¬∃ (run : Run) (tmp : StackSlot),
      AnswersEfault strayGuest (handleSyscall run tmp 0x400000 strayGuest) := by
  refine ⟨badPointer_stray, ?_⟩
  rintro ⟨run, tmp, stop, g', hrun, -⟩
  exact nomatch hrun

end LeonOS
