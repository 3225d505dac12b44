import LeonOS.Elf.LoadSafe
import LeonOS.Fs.Reader
import LeonOS.Shell.Loop

/-!
# What is done at the prompt

The commands that neither run a file nor halt: `help`, `ls`, `stat`, `cat`, `elf` and the others, on
whatever bytes the ramdisk has.  Each of them returns, and prints; in memory it touches nothing; and
to the globals it does what `commandEffect` says, which is something for `ramdisk` and `syscall`
only.

So much is said of the globals, of memory and of the screen; what the commands ask the heap for is in
`Shell.Session`.
-/

set_option autoImplicit false

namespace LeonOS

open RustM Console

/-! ## Computations that print -/

/-- The globals and the terminal, with the rest of the state as it is. -/
def Os.set (os : Os) (k : Kernel) (text : List U8) : Os :=
  ⟨{ os.world with kernel := k }, os.screen ++ text⟩

@[simp] theorem Os.set_kernel (os : Os) (k : Kernel) (text : List U8) :
    (os.set k text).world.kernel = k := rfl

@[simp] theorem Os.set_set (os : Os) (k k' : Kernel) (text text' : List U8) :
    (os.set k text).set k' text' = os.set k' (text ++ text') := by
  simp [Os.set]

theorem Os.set_self (os : Os) : os.set os.world.kernel [] = os := by
  simp [Os.set]

theorem Os.set_print (os : Os) (text : String) :
    os.print text = os.set os.world.kernel (Rust.asBytes text) := rfl

/-- **The computation returns**, after it has printed something and done `f` to the globals. -/
def Calm {α : Type} (f : Kernel → Kernel) (x : ShellM α) : Prop :=
  ∀ os, ∃ a text, x os = .ok a (os.set (f os.world.kernel) text)

section Calm

variable {α β : Type} {f g : Kernel → Kernel} {x y : ShellM α}

theorem calm_pure (a : α) : Calm id (pure a) := fun os ↦ ⟨a, [], congrArg _ os.set_self.symm⟩

theorem Calm.bind {k : α → ShellM β} (hx : Calm f x) (hk : ∀ a, Calm g (k a)) :
    Calm (g ∘ f) (x >>= k) := fun os ↦ by
  obtain ⟨a, text, hrun⟩ := hx os
  obtain ⟨b, text', hrun'⟩ := hk a (os.set (f os.world.kernel) text)
  rw [Os.set_kernel, Os.set_set] at hrun'
  exact ⟨b, text ++ text', bind_eq_ok.mpr ⟨a, _, hrun, hrun'⟩⟩

/-- Before a computation that leaves the globals alone, or after it. -/
theorem Calm.seq {k : α → ShellM β} (hx : Calm id x) (hk : ∀ a, Calm f (k a)) :
    Calm f (x >>= k) :=
  hx.bind hk

theorem Calm.andThen {k : α → ShellM β} (hx : Calm f x) (hk : ∀ a, Calm id (k a)) :
    Calm f (x >>= k) :=
  hx.bind hk

theorem Calm.ite {c : Prop} [Decidable c] (hx : c → Calm f x) (hy : ¬c → Calm f y) :
    Calm f (if c then x else y) := by
  split
  · exact hx ‹_›
  · exact hy ‹_›

theorem calm_process (bytes : List U8) : Calm id (Console.process bytes) := fun _ ↦ ⟨(), bytes, rfl⟩

theorem calm_print (text : String) : Calm id (print text) := fun _ ↦ ⟨(), Rust.asBytes text, rfl⟩

/-- What is done with the `Result` of a function that does not panic. -/
theorem calm_result {ε : Type} {x : Rust ε α} {k : Except ε α → ShellM β}
    (hpanic : x ≠ .error .panic) (hok : ∀ a, x = .ok a → Calm f (k (.ok a)))
    (herr : ∀ e, x = .error (.err e) → Calm f (k (.error e))) :
    Calm f (result (lift x) >>= k) := fun os ↦ by
  rcases x with (e | _) | a
  · exact herr e rfl os
  · exact absurd rfl hpanic
  · exact hok a rfl os

/-- A call whose answer does not depend on memory. -/
theorem calm_call {x : SysM α} (h : ∀ w : World, ∃ a, x w = .ok a { w with kernel := f w.kernel }) :
    Calm f (call x) := fun os ↦ by
  obtain ⟨a, hrun⟩ := h os.world
  refine ⟨a, [], infallible_eq_ok.mpr ?_⟩
  rw [nativeSys, hrun]
  simp [Os.set]

theorem calm_forM {xs : List β} {k : β → ShellM Unit} (h : ∀ x, Calm id (k x)) :
    Calm id (xs.forM k) := by
  induction xs with
  | nil => exact calm_pure ()
  | cons x xs ih => exact (h x).seq fun _ ↦ ih

end Calm

/-! ## The commands -/

namespace Console

variable (c : Console)

/-- Mounting the ramdisk again, if it is one. -/
def remount (k : Kernel) : Kernel :=
  match c.ramdisk with
  | some disk => if (Fs.header disk.bytes).isOk then k.setRootfs disk else k
  | none => k

/-- **What a command does to the globals**, if it is not one that runs a file. -/
def commandEffect (cmd : String) (k : Kernel) : Kernel :=
  if cmd = "ramdisk" then c.remount k
  else if cmd = "syscall" then { k with mmapBase := k.mmapBase + 0x3000 }
  else k

/-- The line neither runs a file nor halts. -/
def AtPrompt (input : String) : Prop := trimmed input ≠ "halt" ∧ runTarget (trimmed input) = none

instance (input : String) : Decidable (AtPrompt input) := inferInstanceAs (Decidable (_ ∧ _))

variable {c}

theorem open_ne_panic (disk : Image) (name : String) :
    Fs.open disk.bytes name ≠ .error .panic :=
  Fs.open_ne_panic (disk.length_lt.trans (by decide)) name

theorem remount_of_none (h : c.ramdisk = none) : c.remount = id := by
  funext k
  rw [remount, h, id_eq]

theorem remount_of_ok {disk : Image} {hdr : FsHeader} (h : c.ramdisk = some disk)
    (hhdr : Fs.header disk.bytes = .ok hdr) : c.remount = (·.setRootfs disk) := by
  funext k
  rw [remount, h]
  exact if_pos (by rw [hhdr]; rfl)

theorem remount_of_error {disk : Image} {e : Fault FsError} (h : c.ramdisk = some disk)
    (hhdr : Fs.header disk.bytes = .error e) : c.remount = id := by
  funext k
  rw [remount, h]
  exact if_neg (by rw [hhdr]; simp [Except.isOk, Except.toBool])

theorem calm_ramdiskCommand : Calm c.remount c.ramdiskCommand := by
  rw [ramdiskCommand]
  cases hdisk : c.ramdisk with
  | none =>
    rw [remount_of_none hdisk]
    exact calm_print _
  | some disk =>
    refine (calm_print _).seq fun _ ↦ calm_result (Fs.header_ne_panic _) (fun hdr hhdr ↦ ?_) ?_
    · rw [remount_of_ok hdisk hhdr]
      exact (calm_call fun w ↦ ⟨(), rfl⟩).andThen fun _ ↦ calm_print _
    · intro e he
      rw [remount_of_error hdisk he]
      exact calm_print _

/-- The lines of `ls` are all that the scan does. -/
theorem foldl_listLine (recs : List FileRecord) (os : Os) :
    recs.foldl (fun os rec ↦ os.print (listLine rec)) os =
      os.set os.world.kernel (recs.flatMap fun rec ↦ Rust.asBytes (listLine rec)) := by
  induction recs generalizing os with
  | nil => exact os.set_self.symm
  | cons rec recs ih => rw [List.foldl_cons, ih, Os.set_print, Os.set_set, Os.set_kernel]; rfl

theorem calm_lsCommand : Calm id c.lsCommand := by
  rw [lsCommand]
  cases c.ramdisk with
  | none => exact calm_print _
  | some disk =>
    have hlen : disk.bytes.length < 2 ^ 64 := disk.length_lt.trans (by decide)
    have hlist : Calm id (result (Fs.list disk.bytes fun os rec ↦ os.print (listLine rec)) :
        ShellM (Except FsError Unit)) := fun os ↦ by
      rw [result]
      cases hhdr : Fs.header disk.bytes with
      | ok hdr =>
        obtain ⟨recs, stop, hscan⟩ := Fs.exists_scan hlen 0 hdr.fileCount
        rw [Fs.list_of_header hhdr, hscan.listFrom_eq, foldl_listLine]
        cases stop <;> exact ⟨_, _, rfl⟩
      | error e =>
        rw [Fs.list_of_error hhdr]
        cases e with
        | panic => exact absurd hhdr (Fs.header_ne_panic disk.bytes)
        | err e => exact ⟨.error e, [], congrArg _ os.set_self.symm⟩
    refine hlist.seq fun r ↦ ?_
    cases r with
    | ok => exact calm_pure ()
    | error e => exact calm_print _

theorem calm_statCommand (name : String) : Calm id (c.statCommand name) := by
  rw [statCommand]
  cases c.ramdisk with
  | none => exact calm_print _
  | some disk =>
    exact calm_result (open_ne_panic disk _) (fun _ _ ↦ calm_print _) fun _ _ ↦ calm_print _

theorem calm_catCommand (name : String) : Calm id (c.catCommand name) := by
  rw [catCommand]
  cases c.ramdisk with
  | none => exact calm_print _
  | some disk =>
    refine calm_result (open_ne_panic disk _) (fun rec _ ↦ ?_) fun _ _ ↦ calm_print _
    exact (calm_forM fun b ↦ calm_process _).seq fun _ ↦ calm_print _

theorem calm_posixCommand : Calm id posixCommand :=
  (calm_call fun w ↦ ⟨w.kernel, rfl⟩).seq fun _ ↦ calm_print _

/-- The `mmap` of three pages. -/
theorem dispatch_mmap (w : World) : dispatch .mmap 0 0x3000 0 0 w = .ok w.kernel.mmapBase
    { w with kernel := { w.kernel with mmapBase := w.kernel.mmapBase + 0x3000 } } := by
  have hlen : (Rust.addWord 0x3000 0xFFF : Rust Empty U64) = .ok 0x3FFF := by
    rw [Rust.addWord_eq_ok]
    decide
  have hif : (if (0x3000 : U64) < 0x1000 then (0x1000 : U64) else 0x3000) = 0x3000 := by decide
  have hmask : (0x3FFF : U64) &&& ~~~0xFFF = 0x3000 := by decide
  rw [dispatch, sysMmap, hif, hlen]
  refine (bind_apply _ _ w).trans ((bind_getKernel _).trans ((bind_modifyKernel _ _).trans ?_))
  rw [hmask]
  rfl

/-- The path of the `openat` is not looked at: -1 is no descriptor. -/
theorem calm_syscallCommand :
    Calm (fun k ↦ { k with mmapBase := k.mmapBase + 0x3000 }) syscallCommand := by
  have hpid : Calm id (call (dispatch .getpid 0 0 0 0)) := calm_call fun w ↦ ⟨_, rfl⟩
  have hbrk : Calm (·.brkSet 0) (call (dispatch .brk 0 0 0 0)) := calm_call fun w ↦ ⟨_, rfl⟩
  have hkeep : (fun k : Kernel ↦ k.brkSet 0) = id := funext fun k ↦ if_pos rfl
  rw [hkeep] at hbrk
  have hopen : Calm id (call (dispatch .openat (-1) 1 0 0)) := calm_call fun w ↦ ⟨_, rfl⟩
  refine hpid.seq fun pid ↦ hbrk.seq fun brk ↦ ?_
  refine (calm_call fun w ↦ ⟨_, dispatch_mmap w⟩).andThen fun mm ↦ ?_
  exact hopen.seq fun opened ↦ calm_print _

theorem calm_busyboxCommand : Calm id busyboxCommand :=
  (calm_print _).seq fun _ ↦ (calm_print _).seq fun _ ↦ calm_print _

theorem calm_elfCommand (name : String) : Calm id (c.elfCommand name) := by
  rw [elfCommand]
  cases c.ramdisk with
  | none => exact calm_print _
  | some disk =>
    refine calm_result (open_ne_panic disk _) (fun rec hopen ↦ ?_) fun _ _ ↦ calm_print _
    obtain ⟨idx, hrec⟩ := (Fs.readsAny disk).open_record name rec hopen
    have hdata : rec.data.length < 2 ^ 63 := by
      have hle := hrec.data_le
      have hlt := disk.length_lt
      omega
    refine calm_result (Elf.parseElf64_ne_panic ⟨rec.data, hdata⟩) (fun img _ ↦ ?_) fun _ _ ↦
      calm_print _
    exact (calm_print _).seq fun _ ↦ calm_forM fun _ ↦ calm_print _

theorem calm_runCommand {cmd : String} (h : runTarget cmd = none) : Calm id (c.runCommand cmd) := by
  rw [runCommand, h]
  exact calm_print _

theorem commandEffect_of_ne {cmd : String} (hramdisk : cmd ≠ "ramdisk")
    (hsyscall : cmd ≠ "syscall") : c.commandEffect cmd = id := by
  funext k
  rw [commandEffect, if_neg hramdisk, if_neg hsyscall, id_eq]

/-- A custom command. -/
theorem calm_handleCustomCommand {cmd : String} (h : runTarget cmd = none) :
    Calm (c.commandEffect cmd) (c.handleCustomCommand cmd) := by
  have hdone {f : Kernel → Kernel} {x : ShellM Unit} (hx : Calm f x) :
      Calm f (do x; return true) := hx.andThen fun _ ↦ calm_pure true
  rw [handleCustomCommand]
  refine .ite (fun hramdisk ↦ ?_) fun hramdisk ↦ ?_
  · rw [hramdisk]
    exact hdone calm_ramdiskCommand
  by_cases hsyscall : cmd = "syscall"
  · subst hsyscall
    exact hdone calm_syscallCommand
  rw [commandEffect_of_ne hramdisk hsyscall]
  refine .ite (fun _ ↦ hdone calm_lsCommand) fun _ ↦ ?_
  split
  · exact hdone (calm_statCommand _)
  split
  · exact hdone (calm_catCommand _)
  refine .ite (fun _ ↦ hdone calm_posixCommand) fun _ ↦ .ite (absurd · hsyscall) fun _ ↦ ?_
  refine .ite (fun _ ↦ hdone calm_busyboxCommand) fun _ ↦ ?_
  refine .ite (fun _ ↦ hdone (calm_print _)) fun _ ↦ ?_
  split
  · exact hdone (calm_elfCommand _)
  · exact hdone (calm_runCommand h)

/-- **A line at the prompt.** -/
theorem calm_execCommand {input : String} (h : AtPrompt input) :
    Calm (c.commandEffect (trimmed input)) (execCommand c.handleCustomCommand input) := by
  obtain ⟨hhalt, htarget⟩ := h
  rw [execCommand]
  generalize trimmed input = cmd at hhalt htarget ⊢
  have hword {word : String} {x : ShellM Unit} (hx : Calm id x) (hramdisk : word ≠ "ramdisk")
      (hsyscall : word ≠ "syscall") (hcmd : cmd = word) : Calm (c.commandEffect cmd) x := by
    rwa [hcmd, commandEffect_of_ne hramdisk hsyscall]
  have hprint (text : String) : Calm id (do print text; return) :=
    (calm_print text).seq fun _ ↦ calm_pure ()
  refine .ite (hword (calm_pure ()) (by decide) (by decide)) fun _ ↦ ?_
  refine .ite (hword (hprint _) (by decide) (by decide)) fun _ ↦ ?_
  refine .ite (hword (hprint _) (by decide) (by decide)) fun _ ↦ ?_
  refine .ite (hword (hprint _) (by decide) (by decide)) fun _ ↦ ?_
  refine .ite (absurd · hhalt) fun _ ↦ ?_
  split
  · rename_i rest hecho
    have hne {word : String} (hword : stripPrefix "echo " word = none) : cmd ≠ word := by
      rintro rfl
      cases hecho.symm.trans hword
    rw [commandEffect_of_ne (hne (by decide)) (hne (by decide))]
    exact (calm_print rest).seq fun _ ↦ hprint "\n"
  refine .ite (hword (hprint _) (by decide) (by decide)) fun _ ↦ ?_
  refine (calm_handleCustomCommand htarget).andThen fun known ↦ .ite (fun _ ↦ calm_pure ()) ?_
  exact fun _ ↦ (calm_print _).seq fun _ ↦ (calm_print _).seq fun _ ↦ calm_print _

end Console

end LeonOS
