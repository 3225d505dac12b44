import LeonOS.Interp.Execve
import LeonOS.Kernel.Panics
import LeonOS.Runs.Files

/-!
# When a system call of an interpreted program panics

`handle_syscall` looks at every address before it uses it, and adds up what it has looked at: where
guest memory ends below the top of the address space none of its own sums overflows and none of its
slices is out of range.  What is left is the sum of `mmap` under it, and the panics of a program
that `execve` runs inside (`panics_handleSyscall`).
-/

set_option autoImplicit false

namespace LeonOS

open Bytes RustM

/-! ## Small steps -/

section Small

variable {ω : Type} {g : Guest ω} {base : U64} {n : ℕ}

theorem readU8_ne_panic {mem : List U8} {va : U64} : readU8 base mem va ≠ .error .panic := by
  intro h
  rcases Rust.bind_eq_panic.mp h with h | ⟨i, hi, h⟩
  · exact Window.index_ne_panic h
  · rw [Rust.index, List.getElem?_eq_getElem (Window.index_eq_ok.mp hi).2] at h
    cases h

theorem readBytes_ne_panic {mem : List U8} {va : U64} : readBytes base mem va ≠ .error .panic := by
  intro h
  rcases Rust.bind_eq_panic.mp h with h | ⟨i, -, h⟩
  · exact Window.index_ne_panic h
  · exact nomatch h

theorem readU32_ne_panic {mem : List U8} {va : U64} : readU32 base mem va ≠ .error .panic := by
  intro h
  rcases Rust.bind_eq_panic.mp h with h | ⟨i, -, h⟩
  · exact Window.access_ne_panic h
  · exact nomatch h

theorem readI32_ne_panic {mem : List U8} {va : U64} : readI32 base mem va ≠ .error .panic := by
  intro h
  rcases Rust.bind_eq_panic.mp h with h | ⟨v, -, h⟩
  · exact readU32_ne_panic h
  · exact nomatch h

theorem readU64_ne_panic {mem : List U8} {va : U64} : readU64 base mem va ≠ .error .panic := by
  intro h
  rcases Rust.bind_eq_panic.mp h with h | ⟨i, -, h⟩
  · exact Window.access_ne_panic h
  · exact nomatch h

theorem panics_bind_getCpu {α : Type} {k : Cpu → Interp ω α} :
    Panics (getCpu >>= k) g ↔ Panics (k g.cpu) g := Iff.rfl

theorem panics_bind_modifyCpu {α : Type} {f : Cpu → Cpu} {k : Unit → Interp ω α} :
    Panics (modifyCpu f >>= k) g ↔ Panics (k ()) { g with cpu := f g.cpu } := Iff.rfl

theorem panics_bind_lift {α β : Type} {x : Rust RunError α} {k : α → Interp ω β} :
    Panics (lift x >>= k) g ↔ x = .error .panic ∨ ∃ v, x = .ok v ∧ Panics (k v) g := by
  simp [panics_bind]

theorem panics_bind_reading {α β : Type} {f : List U8 → Rust RunError α} {k : α → Interp ω β} :
    Panics (reading f >>= k) g ↔
      f g.mem = .error .panic ∨ ∃ v, f g.mem = .ok v ∧ Panics (k v) g := by
  rw [reading, bind_assoc]
  exact panics_bind_lift (x := f g.mem) (g := g)

theorem panics_bind_writing {β : Type} {f : List U8 → Rust RunError (List U8)}
    {k : Unit → Interp ω β} : Panics (writing f >>= k) g ↔
      f g.mem = .error .panic ∨ ∃ mem, f g.mem = .ok mem ∧ Panics (k ()) { g with mem := mem } := by
  rw [writing, bind_assoc, Panics, bind_get, bind_assoc]
  exact panics_bind_lift (x := f g.mem)

end Small

variable {run : Run} {tmp : StackSlot} {base : U64} {g : Guest Os}

theorem panics_sys {α : Type} {x : SysM α} : Panics (sys x) g ↔ Panics x g.os.world := by
  rw [Panics, Panics, sys]
  cases hx : x g.os.world with
  | ok a w => simp
  | error e w =>
    cases e with
    | err e => exact e.elim
    | panic => simp

theorem sys_eq_ok {α : Type} {x : SysM α} {a : α} {g' : Guest Os} (h : sys x g = .ok a g') :
    ∃ w, x g.os.world = .ok a w ∧ g' = { g with os := { g.os with world := w } } := by
  rw [sys] at h
  cases hx : x g.os.world with
  | ok b w =>
    rw [hx] at h
    cases h
    exact ⟨w, rfl, rfl⟩
  | error e w =>
    rw [hx] at h
    cases e with
    | err e => exact e.elim
    | panic => cases h

theorem not_panics_setRax {v : U64} {stop : Bool} : ¬Panics (setRax v stop) g := panics_of_eq_ok rfl

/-- A call whose result is put into `rax`. -/
theorem panics_sys_setRax {x : SysM U64} {stop : Bool} :
    Panics (sys x >>= fun n ↦ setRax n stop) g ↔ Panics x g.os.world := by
  rw [panics_bind, panics_sys, or_iff_left]
  rintro ⟨_, _, -, h⟩
  exact not_panics_setRax h

/-! ## `read` and `write` -/

theorem not_panics_readLineFrom {start n got : ℕ} (h : start + got + n ≤ g.mem.length) :
    ¬Panics (readLineFrom start n got) g := by
  induction n generalizing got g with
  | zero => exact not_panics_pure
  | succ n ih =>
    rw [readLineFrom, panics_bind, panics_sys]
    rintro (hpanic | ⟨ch, g', hsys, hrest⟩)
    · exact total_readStdinByteBlocking.not_panics _ hpanic
    obtain ⟨w, -, rfl⟩ := sys_eq_ok hsys
    cases ch with
    | none => exact not_panics_pure hrest
    | some ch =>
      have hset := Rust.setIndex_of_lt (ε := RunError)
        (a := if ch = 0x0D then 0x0A else ch) (show start + got < g.mem.length by omega)
      rcases panics_bind_writing.mp hrest with hpanic | ⟨mem, hmem, hrest⟩
      · cases hset.symm.trans hpanic
      obtain rfl := Except.ok.inj (hset.symm.trans hmem)
      rw [panics_bind] at hrest
      rcases hrest with hpanic | ⟨_, g₁, hprocess, hrest⟩
      · exact not_panics_modify hpanic
      cases hprocess
      rw [panics_ite] at hrest
      rcases hrest with ⟨-, hpure⟩ | ⟨-, hrest⟩
      · exact not_panics_pure hpure
      · refine ih ?_ hrest
        rw [length_overwrite (by rw [List.length_singleton]; omega)]
        omega

/-- A descriptor that is not an open file is refused. -/
theorem dispatch_read_refused {w : World} {arg0 arg1 : U64}
    (hf : w.kernel.openFiles arg0.toNat = none) (hfd : arg0 ≠ 0) (hbuf : arg1 ≠ 0)
    (arg2 arg3 : U64) :
    ∃ r, r.toInt < 0 ∧ dispatch .read arg0 arg1 arg2 arg3 w = .ok r w := by
  have hfd : arg0.toNat ≠ 0 := fun h ↦ hfd (toNat_eq_zero.mp h)
  have hbuf : arg1.toNat ≠ 0 := fun h ↦ hbuf (toNat_eq_zero.mp h)
  rw [dispatch]
  split
  · rw [posixRead, if_neg hfd]
    exact ⟨-ebadf, by decide, rfl⟩
  rw [sysRead, if_neg hbuf, bind_getKernel]
  cases hentry : w.kernel.fdTable[arg0.toNat]? with
  | none => exact ⟨-ebadf, by decide, rfl⟩
  | some entry =>
    cases entry with
    | free => exact ⟨-ebadf, by decide, rfl⟩
    | rootDir => exact ⟨-eisdir, by decide, rfl⟩
    | file => cases hf.symm.trans (Kernel.openFiles_eq hentry)

theorem not_panics_readThroughTmp {start cap : ℕ} {fd : U64} (hk : g.os.world.kernel.FilesOk)
    (hfd : fd ≠ 0) (hcap : start + cap ≤ g.mem.length) :
    ¬Panics (readThroughTmp tmp start cap fd) g := by
  cases hf : g.os.world.kernel.openFiles fd.toNat with
  | some f =>
    have hok := @readThroughTmp_ok tmp _ _ _ _ _ hk hf hcap
    obtain ⟨g', hrun, -⟩ := hok
    exact panics_of_eq_ok hrun
  | none =>
    let w : World :=
      { g.os.world with ram := poke g.os.world.ram tmp.addr.toNat (List.replicate 256 0) }
    obtain ⟨r, hneg, hrun⟩ := dispatch_read_refused (w := w) hf hfd tmp.ne_zero
      (BitVec.ofNat 64 (min cap 256)) 0
    have hcall : sys (dispatch .read fd tmp.addr (BitVec.ofNat 64 (min cap 256)) 0)
        { g with os := { g.os with world := w } } =
          .ok r { g with os := { g.os with world := w } } := by
      rw [sys, hrun]
    change ¬Panics (sys (dispatch .read fd tmp.addr (BitVec.ofNat 64 (min cap 256)) 0) >>= _)
      { g with os := { g.os with world := w } }
    rw [Panics, bind_apply, hcall]
    dsimp only
    rw [if_neg (not_le.mpr hneg)]
    exact not_panics_setRax

theorem not_panics_handleRead (hk : g.os.world.kernel.FilesOk) :
    ¬Panics (handleRead tmp base) g := by
  rw [handleRead, panics_bind_getCpu, panics_bind_reading]
  rintro (hpanic | ⟨start, hstart, h⟩)
  · exact Window.index_ne_panic hpanic
  have hlt := (Window.index_eq_ok.mp hstart).2
  rw [Panics, bind_get] at h
  change Panics _ g at h
  rw [panics_ite] at h
  rcases h with ⟨-, h⟩ | ⟨-, h⟩
  · exact not_panics_setRax h
  rw [panics_ite] at h
  rcases h with ⟨-, h⟩ | ⟨hfd, h⟩
  · rcases panics_bind.mp h with h | ⟨_, _, -, h⟩
    · exact not_panics_readLineFrom (by omega) h
    · exact not_panics_setRax h
  · exact not_panics_readThroughTmp hk hfd (by omega) h

theorem writeBytes_ne_panic {mem : List U8} {va : U64} {len : ℕ} :
    writeBytes base mem va len ≠ .error .panic := by
  intro h
  rcases Rust.bind_eq_panic.mp h with h | ⟨start, -, h⟩
  · exact Window.index_ne_panic h
  rcases Rust.bind_eq_panic.mp h with h | ⟨last, hlast, h⟩
  · exact Rust.okOr_ne_panic h
  rw [Rust.okOr_eq_ok, Rust.checkedAdd, Option.ite_none_right_eq_some] at hlast
  obtain rfl := Option.some_inj.mp hlast.2
  rcases Rust.bind_eq_panic.mp h with h | ⟨_, hle, h⟩
  · exact Rust.failIf_ne_panic h
  · rw [Rust.range_of_le (by omega) (not_lt.mp (Rust.failIf_eq_ok.mp hle))] at h
    cases h

theorem not_panics_handleWrite : ¬Panics (handleWrite base) g := by
  have hwrite (g : Guest Os) (arg0 arg1 arg2 : U64) :
      ¬Panics (sys (dispatch .write arg0 arg1 arg2 0) >>= fun n ↦ setRax n false) g := by
    rw [panics_sys_setRax]
    exact not_panics_pure
  rw [handleWrite, panics_bind_getCpu, panics_bind_reading]
  rintro (hpanic | ⟨bytes, -, h⟩)
  · exact writeBytes_ne_panic hpanic
  dsimp only at h
  rw [panics_ite] at h
  rcases h with ⟨-, h⟩ | ⟨-, h⟩
  · rcases panics_bind.mp h with h | ⟨_, _, -, h⟩
    · exact not_panics_modify h
    · exact hwrite _ _ _ _ h
  · exact hwrite _ _ _ _ h

/-! ## `execve` -/

theorem readUserCstrFrom_ne_panic {mem : List U8} {va : U64} {n : ℕ} {bytes : List U8} :
    readUserCstrFrom base mem va n bytes ≠ .error .panic := by
  induction n generalizing bytes with
  | zero => exact fun h ↦ nomatch h
  | succ n ih =>
    intro h
    rcases Rust.bind_eq_panic.mp h with h | ⟨b, -, h⟩
    · exact readU8_ne_panic h
    · split at h
      · exact nomatch h
      · exact ih h

theorem readUserCstr_ne_panic {mem : List U8} {va : U64} :
    readUserCstr base mem va ≠ .error .panic := by
  rw [readUserCstr]
  split
  · exact fun h ↦ nomatch h
  · exact readUserCstrFrom_ne_panic

/-- The address of the next pointer does not overflow: the one before it was read. -/
theorem readUserPtrsFrom_ne_panic {mem : List U8} {va : U64} {n i : ℕ}
    (hend : base.toNat + mem.length < 2 ^ 64) (hva : va.toNat + i * 8 < 2 ^ 64) :
    readUserPtrsFrom base mem va n i ≠ .error .panic := by
  induction n generalizing i with
  | zero => exact fun h ↦ nomatch h
  | succ n ih =>
    intro h
    rcases Rust.bind_eq_panic.mp h with h | ⟨at_, hat, h⟩
    · exact absurd (Rust.addWord_eq_panic.mp h) (not_le.mpr hva)
    rcases Rust.bind_eq_panic.mp h with h | ⟨p, hp, h⟩
    · exact readU64_ne_panic h
    split at h
    · exact nomatch h
    rcases Rust.bind_eq_panic.mp h with h | ⟨ptrs, -, h⟩
    · obtain ⟨j, hj, -⟩ := Rust.bind_eq_ok.mp hp
      obtain ⟨hplace, -, hle⟩ := Window.access_bound hj
      have hnat : at_.toNat = va.toNat + i * 8 := by
        rw [← (Rust.addWord_eq_ok.mp hat).2, BitVec.toNat_add, BitVec.toNat_ofNat,
          Nat.add_mod_mod, Nat.mod_eq_of_lt hva]
      exact ih (by omega) h
    · exact nomatch h

theorem readUserStrs_ne_panic {mem : List U8} {ptrs : List U64} :
    readUserStrs base mem ptrs ≠ .error .panic := by
  induction ptrs with
  | nil => exact fun h ↦ nomatch h
  | cons p ptrs ih =>
    intro h
    rcases Rust.bind_eq_panic.mp h with h | ⟨s, -, h⟩
    · exact readUserCstr_ne_panic h
    cases s with
    | none => exact nomatch h
    | some s =>
      rcases Rust.bind_eq_panic.mp h with h | ⟨strs, -, h⟩
      · exact ih h
      · exact nomatch h

theorem readUserStrArray_ne_panic {mem : List U8} {va : U64} {max : ℕ}
    (hend : base.toNat + mem.length < 2 ^ 64) :
    readUserStrArray base mem va max ≠ .error .panic := by
  intro h
  rcases Rust.bind_eq_panic.mp h with h | ⟨ptrs, -, h⟩
  · rw [readUserPtrArray] at h
    split at h
    · exact nomatch h
    · exact readUserPtrsFrom_ne_panic hend (by have := va.isLt; omega) h
  · exact readUserStrs_ne_panic h

/-- The arm itself does not panic, whatever it finds. -/
theorem not_panics_handleExecve (hend : base.toNat + g.mem.length < 2 ^ 64)
    (hrun : ∀ image argv envp os, ¬Panics (run image argv envp) os) :
    ¬Panics (handleExecve run base) g := by
  rw [handleExecve, panics_bind_getCpu, panics_bind_reading]
  rintro (h | ⟨path, -, h⟩)
  · exact readUserCstr_ne_panic h
  cases path with
  | none => exact not_panics_setRax h
  | some path =>
    rcases panics_bind_reading.mp h with h | ⟨argv, -, h⟩
    · exact readUserStrArray_ne_panic hend h
    rcases panics_bind_reading.mp h with h | ⟨envp, -, h⟩
    · exact readUserStrArray_ne_panic hend h
    revert h
    cases normalizeExecPath path with
    | none => exact not_panics_setRax
    | some name =>
      rintro ⟨g', h⟩
      dsimp only at h
      rw [bind_get] at h
      cases hmount : g.os.world.kernel.rootfs with
      | none =>
        rw [hmount] at h
        exact not_panics_setRax ⟨_, h⟩
      | some image =>
        rw [hmount] at h
        dsimp only at h
        cases hopen : Fs.open image.bytes name with
        | error e =>
          rw [hopen] at h
          exact not_panics_setRax ⟨_, h⟩
        | ok rec =>
          rw [hopen] at h
          dsimp only at h
          rw [execFile_eq] at h
          cases hres : run rec.data (execArgs name argv) envp g.os.started with
          | ok _ os =>
            rw [hres] at h
            cases h
          | error e os =>
            rw [hres] at h
            cases e with
            | err e => cases h
            | panic => exact hrun _ _ _ _ ⟨os, hres⟩

/-- **The panics of `execve`** are those of the program that it runs. -/
theorem panics_handleExecve (hend : base.toNat + g.mem.length < 2 ^ 64) :
    Panics (handleExecve run base) g ↔ ∃ name argv envp rec,
      ExecTarget base g name argv envp rec ∧
        Panics (run rec.data (execArgs name argv) envp) g.os.started := by
  have hcalm : ¬Panics (handleExecve (fun _ _ _ ↦ pure ()) base) g :=
    not_panics_handleExecve hend fun _ _ _ _ ↦ not_panics_pure
  rcases handleExecve_cases base g with ⟨name, argv, envp, rec, htarget, heq⟩ | ⟨hnone, heq⟩
  · rw [Panics, heq run, execFile_eq]
    constructor
    · rintro ⟨g', h⟩
      refine ⟨name, argv, envp, rec, htarget, ?_⟩
      cases hres : run rec.data (execArgs name argv) envp g.os.started with
      | ok _ os =>
        rw [hres] at h
        cases h
      | error e os =>
        rw [hres] at h
        cases e with
        | err e => cases h
        | panic => exact ⟨os, hres⟩
    · rintro ⟨name', argv', envp', rec', htarget', os, hres⟩
      obtain ⟨rfl, rfl, rfl, rfl⟩ := htarget.unique htarget'
      rw [hres]
      exact ⟨_, rfl⟩
  · have hno : ¬∃ name argv envp rec, ExecTarget base g name argv envp rec ∧
        Panics (run rec.data (execArgs name argv) envp) g.os.started := by
      rintro ⟨_, _, _, _, htarget, -⟩
      exact hnone _ _ _ _ htarget
    refine iff_of_false ?_ hno
    rcases heq with ⟨r, heq⟩ | ⟨e, heq⟩
    · exact panics_of_eq_ok (heq run)
    · rw [Panics, heq run]
      rintro ⟨g', h⟩
      cases h
      exact hcalm ⟨_, heq _⟩

/-! ## All calls -/

/-- What makes a system call panic. -/
inductive CallOverflows (run : Run) (base : U64) (g : Guest Os) : Prop
  /-- The length of `mmap`, rounded up. -/
  | mmap (hnr : Nr.decode g.cpu.rax.toNat = .mmap) (hlen : 2 ^ 64 ≤ g.cpu.rsi.toNat + 0xFFF)
  /-- A program that `execve` runs does. -/
  | execve {name : String} {argv envp : List String} {rec : FileRecord}
      (hnr : Nr.decode g.cpu.rax.toNat = .execve) (htarget : ExecTarget base g name argv envp rec)
      (hrun : Panics (run rec.data (execArgs name argv) envp) g.os.started)

/-- **When a system call panics.** -/
theorem panics_handleSyscall (hk : g.os.world.kernel.FilesOk)
    (hend : base.toNat + g.mem.length < 2 ^ 64) :
    Panics (handleSyscall run tmp base) g ↔ CallOverflows run base g := by
  have hdispatch (nr : Nr) (arg0 arg1 arg2 arg3 : U64) (stop : Bool) (hnr : nr ≠ .mmap) :
      ¬Panics (sys (dispatch nr arg0 arg1 arg2 arg3) >>= fun n ↦ setRax n stop) g := by
    rw [panics_sys_setRax, panics_dispatch hk]
    exact fun h ↦ hnr h.1
  have hdefault (nr : Nr) (hnr : nr ≠ .mmap) : ¬Panics (handleDefault nr) g := by
    rw [handleDefault, panics_bind_getCpu]
    exact hdispatch _ _ _ _ _ _ hnr
  have hother (h : Nr.decode g.cpu.rax.toNat ≠ .mmap)
      (h' : Nr.decode g.cpu.rax.toNat ≠ .execve) : ¬CallOverflows run base g := by
    rintro (⟨hnr, -⟩ | ⟨hnr, -, -⟩)
    · exact h hnr
    · exact h' hnr
  rw [handleSyscall, panics_bind_getCpu]
  cases hnr : Nr.decode g.cpu.rax.toNat with
  | read => exact iff_of_false (not_panics_handleRead hk) (hother (by simp [hnr]) (by simp [hnr]))
  | write => exact iff_of_false not_panics_handleWrite (hother (by simp [hnr]) (by simp [hnr]))
  | execve =>
    dsimp only
    rw [panics_handleExecve hend]
    constructor
    · rintro ⟨name, argv, envp, rec, htarget, hrun⟩
      exact .execve hnr htarget hrun
    · rintro (⟨hmmap, -⟩ | ⟨-, htarget, hrun⟩)
      · cases hnr.symm.trans hmmap
      · exact ⟨_, _, _, _, htarget, hrun⟩
  | mmap =>
    dsimp only
    rw [handleDefault, panics_bind_getCpu, panics_sys_setRax, panics_dispatch hk]
    constructor
    · exact fun h ↦ .mmap hnr h.2
    · rintro (⟨-, hlen⟩ | ⟨hexec, -, -⟩)
      · exact ⟨rfl, hlen⟩
      · cases hnr.symm.trans hexec
  | getpid | brk | exit | exitGroup =>
    exact iff_of_false (hdispatch _ _ _ _ _ _ (by decide)) (hother (by simp [hnr]) (by simp [hnr]))
  | _ =>
    exact iff_of_false (hdefault _ (by decide)) (hother (by simp [hnr]) (by simp [hnr]))

/-! ## Registers -/

/-- No register but `rax` is changed. -/
def OnlyRax (g g' : Guest Os) : Prop := ∃ v, g'.cpu = { g.cpu with rax := v }

instance : IsPreorder (Guest Os) OnlyRax where
  refl g := ⟨g.cpu.rax, rfl⟩
  trans _ _ _ h h' := by
    obtain ⟨v, h⟩ := h
    obtain ⟨v', h'⟩ := h'
    refine ⟨v', ?_⟩
    rw [h', h]

theorem onlyRax_of_eq {g g' : Guest Os} (h : g'.cpu = g.cpu) : OnlyRax g g' := by
  refine ⟨g.cpu.rax, ?_⟩
  rw [h]

theorem onlyRax_sys {α : Type} (x : SysM α) : Keeps OnlyRax (sys x) := by
  intro g
  refine ⟨fun a g' h ↦ ?_, fun e g' h ↦ ?_⟩
  · obtain ⟨w, -, rfl⟩ := sys_eq_ok h
    exact onlyRax_of_eq rfl
  · rw [sys] at h
    cases hx : x g.os.world with
    | ok a w =>
      rw [hx] at h
      cases h
    | error e' w =>
      rw [hx] at h
      cases e' with
      | err e => exact e.elim
      | panic => cases h

theorem onlyRax_reading {α : Type} (f : List U8 → Rust RunError α) :
    Keeps OnlyRax (reading f : Interp Os α) :=
  keeps_get.bind fun g ↦ keeps_lift (f g.mem)

theorem onlyRax_writing (f : List U8 → Rust RunError (List U8)) :
    Keeps OnlyRax (writing f : Interp Os Unit) :=
  keeps_get.bind fun g ↦ (keeps_lift (f g.mem)).bind fun _ ↦
    keeps_modify fun _ ↦ onlyRax_of_eq rfl

theorem onlyRax_getCpu : Keeps OnlyRax (getCpu : Interp Os Cpu) :=
  keeps_get.bind fun g ↦ keeps_pure g.cpu

theorem onlyRax_setRax (v : U64) (stop : Bool) : Keeps OnlyRax (setRax v stop) :=
  Keeps.bind (keeps_modify fun _ ↦ ⟨v, rfl⟩) fun _ ↦ keeps_pure stop

theorem onlyRax_process (bytes : List U8) : Keeps OnlyRax (process bytes) :=
  keeps_modify fun _ ↦ onlyRax_of_eq rfl

theorem onlyRax_clearTmp : Keeps OnlyRax (clearTmp tmp) :=
  keeps_modify fun _ ↦ onlyRax_of_eq rfl

theorem onlyRax_sys_setRax (x : SysM U64) (stop : Bool) :
    Keeps OnlyRax (sys x >>= fun n ↦ setRax n stop) :=
  (onlyRax_sys x).bind fun n ↦ onlyRax_setRax n stop

theorem onlyRax_readLineFrom (start n got : ℕ) : Keeps OnlyRax (readLineFrom start n got) := by
  induction n generalizing got with
  | zero => exact keeps_pure got
  | succ n ih =>
    rw [readLineFrom]
    refine (onlyRax_sys _).bind fun ch ↦ ?_
    split
    · exact keeps_pure got
    · refine (onlyRax_writing _).bind fun _ ↦ (onlyRax_process _).bind fun _ ↦ ?_
      exact .ite (keeps_pure _) (ih _)

theorem onlyRax_handleRead : Keeps OnlyRax (handleRead tmp base) := by
  rw [handleRead]
  refine onlyRax_getCpu.bind fun cpu ↦ (onlyRax_reading _).bind fun start ↦ keeps_get.bind fun g ↦ ?_
  refine .ite (onlyRax_setRax 0 false) (.ite ?_ ?_)
  · exact (onlyRax_readLineFrom _ _ _).bind fun got ↦ onlyRax_setRax _ false
  · refine onlyRax_clearTmp.bind fun _ ↦ (onlyRax_sys _).bind fun n ↦ ?_
    refine .ite ?_ (onlyRax_setRax n false)
    exact keeps_get.bind fun g ↦ (onlyRax_writing _).bind fun _ ↦ onlyRax_setRax n false

theorem onlyRax_handleWrite : Keeps OnlyRax (handleWrite base) := by
  rw [handleWrite]
  refine onlyRax_getCpu.bind fun cpu ↦ (onlyRax_reading _).bind fun bytes ↦ ?_
  have hend := onlyRax_sys_setRax (dispatch .write cpu.rdi cpu.rsi cpu.rdx 0) false
  exact .ite ((onlyRax_process _).bind fun _ ↦ hend) hend

theorem onlyRax_handleDefault (nr : Nr) : Keeps OnlyRax (handleDefault nr) :=
  onlyRax_getCpu.bind fun _ ↦ onlyRax_sys_setRax _ false

/-- **A system call returns in `rax`**, and changes no other register. -/
theorem handleSyscall_onlyRax {stop : Bool} {g' : Guest Os}
    (h : handleSyscall run tmp base g = .ok stop g') : OnlyRax g g' := by
  rw [handleSyscall, bind_getCpu] at h
  cases hnr : Nr.decode g.cpu.rax.toNat with
  | read =>
    rw [hnr] at h
    exact (onlyRax_handleRead g).1 _ _ h
  | write =>
    rw [hnr] at h
    exact (onlyRax_handleWrite g).1 _ _ h
  | execve =>
    rw [hnr] at h
    dsimp only at h
    rcases handleExecve_cases base g with ⟨name, argv, envp, rec, -, heq⟩ | ⟨-, ⟨r, heq⟩ | ⟨e, heq⟩⟩
    · rw [heq run, execFile_eq] at h
      cases hres : run rec.data (execArgs name argv) envp g.os.started with
      | ok _ os =>
        rw [hres] at h
        cases h
        exact ⟨0, rfl⟩
      | error e os =>
        rw [hres] at h
        cases e with
        | err e =>
          cases h
          exact ⟨-enoexec, rfl⟩
        | panic => cases h
    · rw [heq run] at h
      cases h
      exact ⟨r, rfl⟩
    · cases (heq run).symm.trans h
  | getpid | brk | exit | exitGroup =>
    rw [hnr] at h
    exact (onlyRax_sys_setRax _ _ g).1 _ _ h
  | _ =>
    rw [hnr] at h
    exact (onlyRax_handleDefault _ g).1 _ _ h

end LeonOS
