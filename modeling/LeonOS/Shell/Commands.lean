import LeonOS.Shell.Run

/-!
# The commands of the shell

`exec_command` of `kernel/src/shell.rs` takes one line; what it does not know itself it hands to
`handle_custom_command` of `kernel/src/main.rs`, which answers whether it knew the line.

The text that the source prints for a line that nobody knows is never printed, and neither is the
one for a `run` without a ramdisk (`misreported`): the `else` with the second text belongs to the
test for a `run` command, not to the one for a ramdisk, and the `return true` behind it stands
outside of both.
-/

set_option autoImplicit false

namespace LeonOS

open RustM

/-! ## What is printed -/

/-- `{:x}`. -/
def hex (n : ℕ) : String := String.ofList (Nat.toDigits 16 n)

/-- `{:o}`. -/
def octal (n : ℕ) : String := String.ofList (Nat.toDigits 8 n)

/-- `{:?}` of a struct variant. -/
def debugStruct (name : String) (fields : List (String × String)) : String :=
  name ++ " \x7b " ++ ", ".intercalate (fields.map fun f ↦ f.1 ++ ": " ++ f.2) ++ " \x7d"

/-- `{:?}`. -/
def FsError.debug : FsError → String
  | .tooSmall => "TooSmall"
  | .badMagic => "BadMagic"
  | .badVersion => "BadVersion"
  | .outOfBounds => "OutOfBounds"
  | .invalidName => "InvalidName"
  | .notFound => "NotFound"

/-- `{:?}`. -/
def ElfError.debug : ElfError → String
  | .tooSmall => "TooSmall"
  | .badMagic => "BadMagic"
  | .unsupportedClass => "UnsupportedClass"
  | .unsupportedEndian => "UnsupportedEndian"
  | .unsupportedMachine => "UnsupportedMachine"
  | .badHeader => "BadHeader"

/-- `{:?}` of the `UnsupportedComplexElf` of either runner. -/
def debugComplexElf (entry : U64) (segments memorySize : ℕ) : String :=
  debugStruct "UnsupportedComplexElf" [("entry", toString entry.toNat),
    ("segments", toString segments), ("memory_size", toString memorySize)]

/-- `{:?}`. -/
def NativeError.debug : NativeError → String
  | .parse e => "Parse(" ++ e.debug ++ ")"
  | .noLoadSegment => "NoLoadSegment"
  | .addressOutOfRange => "AddressOutOfRange"
  | .fixedVaddrUnsupported minVaddr eType => debugStruct "FixedVaddrUnsupported"
    [("min_vaddr", toString minVaddr), ("e_type", toString eType.toNat)]
  | .unsupportedComplexElf entry segments memorySize => debugComplexElf entry segments memorySize

/-- `{:?}`. -/
def RunError.debug : RunError → String
  | .parse e => "Parse(" ++ e.debug ++ ")"
  | .noLoadSegment => "NoLoadSegment"
  | .addressOutOfRange => "AddressOutOfRange"
  | .unsupportedComplexElf entry segments memorySize => debugComplexElf entry segments memorySize
  | .unsupportedInstruction rip bytes => debugStruct "UnsupportedInstruction"
    [("rip", toString rip.toNat),
      ("bytes", "[" ++ ", ".intercalate (bytes.toList.map fun b ↦ toString b.toNat) ++ "]")]
  | .stepLimit steps lastRip => debugStruct "StepLimit"
    [("steps", toString steps), ("last_rip", toString lastRip.toNat)]

/-- The errors of `ensure_region_executable`, which are `NativeError`s too. -/
inductive PageError where
  | pagingUnavailable
  | addressOutOfRange
  | pageNotMapped (addr : U64)
  | pageFlagUpdate (addr : U64)
  deriving DecidableEq

/-- `{:?}`. -/
def PageError.debug : PageError → String
  | .pagingUnavailable => "PagingUnavailable"
  | .addressOutOfRange => "AddressOutOfRange"
  | .pageNotMapped addr => debugStruct "PageNotMapped" [("addr", toString addr.toNat)]
  | .pageFlagUpdate addr => debugStruct "PageFlagUpdate" [("addr", toString addr.toNat)]

/-- The terminal after a text. -/
def Os.print (os : Os) (text : String) : Os := { os with screen := os.screen ++ Rust.asBytes text }

/-! ## The parts of a console -/

/-- The shell is not returned to: `halt` spins for ever, and a program may. -/
inductive Halted where
  | halted
  deriving DecidableEq

/-- The functions of the shell. -/
abbrev ShellM (α : Type) := RustM Halted Os α

/-- What the commands work on. -/
structure Console extends Machine where
  /-- `RAMDISK_INFO.addr`. -/
  ramdiskAddr : U64
  /-- `ensure_region_executable`, on the page tables as they are. -/
  pageError : NativeProgram → Option PageError
  /-- `leonos3_native_enter`: what the processor does until the program is left. -/
  enter : NativeProgram → ShellM Unit

namespace Console

/-- `terminal.process(bytes)`. -/
def process (bytes : List U8) : ShellM Unit :=
  modify fun os ↦ { os with screen := os.screen ++ bytes }

/-- `write!(terminal, ..)`, and `terminal.process` of a literal. -/
def print (text : String) : ShellM Unit := modify (·.print text)

/-- A call into `syscall.rs`. -/
def call {α : Type} (x : SysM α) : ShellM α := infallible (nativeSys x)

/-- `cmd.strip_prefix(pre)`. -/
def stripPrefix (pre cmd : String) : Option String :=
  (pre.toList.isPrefixOf? cmd.toList).map String.ofList

/-- `str::trim`. -/
def trimmed (s : String) : String := String.ofList (trim s.toList)

/-! ## Custom commands -/

section Commands

variable (c : Console)

/-- `ramdisk`. -/
def ramdiskCommand : ShellM Unit :=
  match c.ramdisk with
  | none => print "ramdisk: not loaded\n"
  | some disk => do
    print s!"ramdisk: addr=0x{hex c.ramdiskAddr.toNat}, len={disk.bytes.length} bytes\n"
    match ← result (lift (Fs.header disk.bytes)) with
    | .ok h =>
      call (modifyKernel (·.setRootfs disk))
      print s!"rootfs: files={h.fileCount}\n"
    | .error e => print s!"rootfs: invalid ({e.debug})\n"

/-- A line of `ls`. -/
def listLine (rec : FileRecord) : String :=
  (octal rec.mode.toNat).leftpad 6 ' ' ++ " " ++ (toString rec.data.length).leftpad 8 ' ' ++ " " ++
    rec.name ++ "\n"

/-- `ls`. -/
def lsCommand : ShellM Unit :=
  match c.ramdisk with
  | none => print "ls: ramdisk not loaded\n"
  | some disk => do
    match ← result (Fs.list disk.bytes fun os rec ↦ os.print (listLine rec)) with
    | .ok () => return
    | .error e => print s!"ls: fs error: {e.debug}\n"

/-- `stat`. -/
def statCommand (name : String) : ShellM Unit :=
  match c.ramdisk with
  | none => print "stat: ramdisk not loaded\n"
  | some disk => do
    match ← result (lift (Fs.open disk.bytes (trimmed name))) with
    | .ok rec =>
      print s!"name={rec.name} size={rec.data.length} mode={octal rec.mode.toNat}\n"
    | .error e => print s!"stat: {e.debug}\n"

/-- `cat`. -/
def catCommand (name : String) : ShellM Unit :=
  match c.ramdisk with
  | none => print "cat: ramdisk not loaded\n"
  | some disk => do
    match ← result (lift (Fs.open disk.bytes (trimmed name))) with
    | .ok rec =>
      rec.data.forM fun b ↦
        process [if b = 0x0A ∨ b = 0x0D ∨ 0x20 ≤ b ∧ b ≤ 0x7E then b else 0x2E]
      print "\n"
    | .error e => print s!"cat: {e.debug}\n"

/-- `posix`. -/
def posixCommand : ShellM Unit := do
  let k ← call getKernel
  print s!"posix: pid={k.pid.toNat}, brk=0x{hex k.brk.toNat}\n"

/-- `syscall`. -/
def syscallCommand : ShellM Unit := do
  let pid ← call (dispatch .getpid 0 0 0 0)
  let brk ← call (dispatch .brk 0 0 0 0)
  let mm ← call (dispatch .mmap 0 0x3000 0 0)
  let opened ← call (dispatch .openat (-1) 1 0 0)
  print (s!"syscall getpid={pid.toInt} brk=0x{hex brk.toNat} mmap=0x{hex mm.toNat} " ++
    s!"openat={opened.toInt}\n")

/-- `supported_syscalls_hint`. -/
def supportedSyscallsHint : String :=
  "read, write, close, dup/dup2, brk, mmap, mprotect, munmap, rt_sigaction, rt_sigprocmask, " ++
    "ioctl, getpid/gettid, exit/exit_group, wait4(min), arch_prctl, futex, " ++
    "clock_gettime/gettimeofday, uname, uid/gid, getcwd/chdir, access/faccessat, " ++
    "readlink/readlinkat, openat, fstat/newfstatat, lseek, getdents64, getrandom, prlimit64, " ++
    "set_robust_list"

/-- `busybox`. -/
def busyboxCommand : ShellM Unit := do
  print "busybox status: pre-boot compatibility mode\n"
  print s!"syscalls: {supportedSyscallsHint}\n"
  print "missing: execve/fork/wait4/pipe/tty ioctl/procfs\n"

/-- A line of `elf`. -/
def segmentLine (seg : LoadSegment) (idx : ℕ) : String :=
  s!"  [{idx}] vaddr=0x{hex seg.vaddr.toNat} mem=0x{hex seg.memSize.toNat} " ++
    s!"file_off=0x{hex seg.fileOffset.toNat} file_sz=0x{hex seg.fileSize.toNat} " ++
    s!"flags=0x{hex seg.flags.toNat}\n"

/-- `elf_target`. -/
def elfTarget (cmd : String) : Option String :=
  match stripPrefix "elf " cmd with
  | some name => some (trimmed name)
  | none => if cmd = "elf" then some "hello_world" else none

/-- `elf`. -/
def elfCommand (name : String) : ShellM Unit :=
  match c.ramdisk with
  | none => print "elf: ramdisk not loaded\n"
  | some disk => do
    match ← result (lift (Fs.open disk.bytes name)) with
    | .ok rec =>
      match ← result (lift (Elf.parseElf64 rec.data)) with
      | .ok img =>
        print (s!"elf {name}: entry=0x{hex img.entry.toNat}, " ++
          s!"load_segments={img.segments.length}\n")
        img.segments.zipIdx.forM fun (seg, idx) ↦ print (segmentLine seg idx)
      | .error e => print s!"elf: parse error: {e.debug}\n"
    | .error e => print s!"elf: {e.debug}\n"

/-! ### Running a file -/

/-- The errors of `run_native_elf_with_args`. -/
inductive NativeFailure where
  /-- Of the loading phase. -/
  | load (e : NativeError)
  /-- Of `ensure_region_executable`. -/
  | page (e : PageError)

/-- `{:?}`. -/
def NativeFailure.debug : NativeFailure → String
  | .load e => e.debug
  | .page e => e.debug

/-- `run_native_elf_with_args`. -/
def runNative (image : List U8) (argv : List String) : ShellM (Except NativeFailure Unit) := do
  match ← result (lift (loadNativeElf c.buffers image argv [])) with
  | .error e => return .error (.load e)
  | .ok prog =>
    match c.pageError prog with
    | some e => return .error (.page e)
    | none =>
      infallible nativeStart
      c.enter prog
      return .ok ()

/-- The report of a program that has ended; it ends in `(interp)` if it was interpreted. -/
def exitText (name args : String) (code : BitVec 32) (suffix : String) : String :=
  s!"\nrun {name} {args}: exited with code {code.toInt}{suffix}\n"

/-- `last_exit_code`, and the report of it. -/
def printExit (name args suffix : String) : ShellM Unit := do
  let k ← call getKernel
  print (exitText name args k.lastExit suffix)

/-- A file is run: by the processor, or by the interpreter if it is not to be relocated. -/
def runFile (name args : String) (rec : FileRecord) : ShellM Unit := do
  let argv := runArgv name args
  match ← c.runNative rec.data argv with
  | .ok () => printExit name args ""
  | .error (.load (.fixedVaddrUnsupported _ _)) =>
    match ← result (c.interpret rec.data argv) with
    | .ok () => printExit name args " (interp)"
    | .error e => print s!"run {name} {args}: failed: {e.debug}\n"
  | .error e => print s!"run {name} {args}: failed: {e.debug}\n"

/-- The last block of `handle_custom_command`. -/
def runCommand (cmd : String) : ShellM Unit :=
  match runTarget cmd with
  | some (name, args) =>
    match c.ramdisk with
    | some disk => do
      match ← result (lift (Fs.open disk.bytes name)) with
      | .ok rec => c.runFile name args rec
      | .error e => print s!"run: {e.debug}\n"
    -- The `if` that looks for a ramdisk has no `else`.
    | none => return
  | none => print "run: ramdisk not loaded\n"

/-- `handle_custom_command`. -/
def handleCustomCommand (cmd : String) : ShellM Bool := do
  if cmd = "ramdisk" then
    c.ramdiskCommand
    return true
  if cmd = "ls" then
    c.lsCommand
    return true
  if let some name := stripPrefix "stat " cmd then
    c.statCommand name
    return true
  if let some name := stripPrefix "cat " cmd then
    c.catCommand name
    return true
  if cmd = "posix" then
    posixCommand
    return true
  if cmd = "syscall" then
    syscallCommand
    return true
  if cmd = "busybox" then
    busyboxCommand
    return true
  if cmd = "syscap" then
    print s!"syscap: {supportedSyscallsHint}\n"
    return true
  if let some name := elfTarget cmd then
    c.elfCommand name
    return true
  c.runCommand cmd
  -- The `false` of the source stands behind this `return`.
  return true

end Commands

end Console

/-! ## Lines -/

/-- `exec_command`. -/
def execCommand (handleCustom : String → ShellM Bool) (input : String) : ShellM Unit := do
  let cmd := Console.trimmed input
  if cmd = "" then
    return
  if cmd = "help" then
    Console.print ("commands: help, echo, clear, about, ramdisk, ls, stat <f>, cat <f>, posix, " ++
      "syscall, syscap, busybox, elf [f], run <f> [args], runelf, halt\n")
    return
  if cmd = "about" then
    Console.print "LeonOS 3 - Rust toy OS with os-terminal\n"
    return
  if cmd = "clear" then
    Console.print "\x1b[2J\x1b[H"
    return
  if cmd = "halt" then
    Console.print "System halted.\n"
    throw (.err .halted)
  if let some rest := Console.stripPrefix "echo " cmd then
    Console.print rest
    Console.print "\n"
    return
  if cmd = "echo" then
    Console.print "\n"
    return
  if ← handleCustom cmd then
    return
  Console.print "unknown command: "
  Console.print cmd
  Console.print "\n"

/-! ## Lines that are left to `run` -/

/-- The other commands that are one word. -/
def commands : List String :=
  ["help", "about", "clear", "halt", "echo", "ramdisk", "ls", "posix", "syscall", "busybox",
    "syscap", "elf"]

/-- What the other commands with an argument begin with. -/
def commandPrefixes : List String := ["echo ", "stat ", "cat ", "elf "]

/-- No command but `run` and `runelf` takes this text. -/
structure LeftToRun (cmd : String) : Prop where
  /-- There is something on the line. -/
  ne_empty : cmd ≠ ""
  /-- It is not one of the words. -/
  notMem : cmd ∉ commands
  /-- It does not begin as one of the others. -/
  noPrefix : ∀ pre ∈ commandPrefixes, Console.stripPrefix pre cmd = none

namespace LeftToRun

open Console

variable {cmd input : String} {c : Console}

theorem elfTarget_eq (h : LeftToRun cmd) : elfTarget cmd = none := by
  rw [elfTarget, h.noPrefix "elf " (by simp [commandPrefixes])]
  exact if_neg fun heq ↦ h.notMem (by simp [commands, heq])

/-- All tests before the last block fail. -/
theorem handleCustomCommand_eq (h : LeftToRun cmd) :
    c.handleCustomCommand cmd = do c.runCommand cmd; return true := by
  have hmem := h.notMem
  simp only [commands, List.mem_cons, List.not_mem_nil, or_false, not_or] at hmem
  simp only [handleCustomCommand, hmem, ite_false, h.elfTarget_eq,
    h.noPrefix "stat " (by simp [commandPrefixes]), h.noPrefix "cat " (by simp [commandPrefixes])]

/-- The line is handed over. -/
theorem execCommand_eq {handleCustom : String → ShellM Bool} (h : LeftToRun (trimmed input)) :
    execCommand handleCustom input = (do
      if ← handleCustom (trimmed input) then
        return
      print "unknown command: "
      print (trimmed input)
      print "\n") := by
  have hmem := h.notMem
  simp only [commands, List.mem_cons, List.not_mem_nil, or_false, not_or] at hmem
  simp only [execCommand, hmem, h.ne_empty, ite_false,
    h.noPrefix "echo " (by simp [commandPrefixes])]

/-- A name after `run` is not a command of another kind, and neither is `runelf`. -/
theorem of_runTarget (h : runTarget cmd ≠ none) : LeftToRun cmd := by
  have hlist : (∃ rest, cmd.toList = 'r' :: 'u' :: 'n' :: ' ' :: rest) ∨ cmd = "runelf" := by
    rw [runTarget] at h
    split at h
    · rename_i rest hrest
      rw [stripRun.eq_def] at hrest
      split at hrest
      · exact .inl ⟨_, ‹_›⟩
      · cases hrest
    · exact .inr (by_contra fun hne ↦ h (if_neg hne))
  obtain ⟨rest, hrest⟩ | rfl := hlist
  · refine ⟨?_, ?_, ?_⟩
    · rintro rfl
      cases hrest
    · intro hmem
      simp only [commands, List.mem_cons, List.not_mem_nil, or_false] at hmem
      rcases hmem with rfl | rfl | rfl | rfl | rfl | rfl | rfl | rfl | rfl | rfl | rfl | rfl <;>
        cases hrest
    · simp [commandPrefixes, stripPrefix, hrest, List.isPrefixOf?]
  · exact ⟨by decide, by decide, by decide⟩

end LeftToRun

/-! ## Reports -/

section Reports

open Console

variable {c : Console} {input text : String} {os os' : Os}

/-- Whatever is done with a line, the answer is that it was known. -/
theorem Console.exists_handleCustomCommand_eq (c : Console) (cmd : String) :
    ∃ x : ShellM Unit, c.handleCustomCommand cmd = do x; return true := by
  rw [handleCustomCommand]
  repeat' split
  all_goals exact ⟨_, rfl⟩

/-- **No line is refused.** -/
theorem Console.handleCustomCommand_ne_false (c : Console) (cmd : String) (os os' : Os) :
    c.handleCustomCommand cmd os ≠ .ok false os' := by
  obtain ⟨x, hx⟩ := c.exists_handleCustomCommand_eq cmd
  rw [hx]
  intro h
  obtain ⟨_, os₁, -, hpure⟩ := bind_eq_ok.mp h
  cases hpure

/-- A text that no command takes. -/
structure Unknown (cmd : String) : Prop extends LeftToRun cmd where
  /-- Nothing is to be run either. -/
  noTarget : runTarget cmd = none

/-- The line is reported as unknown. -/
structure ReportsUnknown (c : Console) (input : String) (os : Os) : Prop where
  /-- `handle_custom_command` returns `false`, and writes nothing. -/
  refused : c.handleCustomCommand (trimmed input) os = .ok false os
  /-- What is printed of the line. -/
  printed : execCommand c.handleCustomCommand input os =
    .ok () (os.print ("unknown command: " ++ trimmed input ++ "\n"))

/-- The missing ramdisk is reported. -/
def ReportsNoRamdisk (c : Console) (input : String) (os : Os) : Prop :=
  execCommand c.handleCustomCommand input os = .ok () (os.print "run: ramdisk not loaded\n")

theorem Os.print_ne (h : text ≠ "") : os.print text ≠ os := by
  intro heq
  have hscreen : os.screen ++ Rust.asBytes text = os.screen := congrArg Os.screen heq
  rw [List.append_right_eq_self] at hscreen
  exact h (Rust.asBytes_injective hscreen)

/-- A line that is left to `run` is left to it alone. -/
theorem LeftToRun.execCommand_eq_ok (h : LeftToRun (trimmed input))
    (hrun : c.runCommand (trimmed input) os = .ok () os') :
    execCommand c.handleCustomCommand input os = .ok () os' := by
  rw [h.execCommand_eq, h.handleCustomCommand_eq]
  simp only [bind_assoc, pure_bind, if_true]
  exact bind_eq_ok.mpr ⟨(), os', hrun, rfl⟩

/-- Of an unknown line, the shell says that there is no ramdisk. -/
theorem Unknown.execCommand_eq_ok (h : Unknown (trimmed input)) :
    execCommand c.handleCustomCommand input os =
      .ok () (os.print "run: ramdisk not loaded\n") := by
  refine h.toLeftToRun.execCommand_eq_ok ?_
  rw [runCommand, h.noTarget]
  rfl

/-- Of a `run` without a ramdisk, it says nothing. -/
theorem execCommand_of_noRamdisk (htarget : runTarget (trimmed input) ≠ none)
    (hdisk : c.ramdisk = none) : execCommand c.handleCustomCommand input os = .ok () os := by
  obtain ⟨⟨name, args⟩, hsome⟩ := Option.ne_none_iff_exists'.mp htarget
  refine (LeftToRun.of_runTarget htarget).execCommand_eq_ok ?_
  rw [runCommand, hsome, hdisk]
  rfl

theorem not_reportsUnknown : ¬ReportsUnknown c input os := fun h ↦
  c.handleCustomCommand_ne_false _ os os h.refused

theorem not_reportsNoRamdisk (htarget : runTarget (trimmed input) ≠ none)
    (hdisk : c.ramdisk = none) : ¬ReportsNoRamdisk c input os := by
  intro h
  rw [ReportsNoRamdisk, execCommand_of_noRamdisk htarget hdisk] at h
  exact Os.print_ne (by decide) (EStateM.Result.ok.inj h).2.symm

/-- **The two reports are mixed up**: an unknown line is answered with the one for a missing
ramdisk, and a `run` without a ramdisk with none. -/
theorem misreported (c : Console) (input : String) (os : Os) :
    (Unknown (trimmed input) →
      execCommand c.handleCustomCommand input os = .ok () (os.print "run: ramdisk not loaded\n") ∧
        ¬ReportsUnknown c input os) ∧
      (runTarget (trimmed input) ≠ none → c.ramdisk = none →
        execCommand c.handleCustomCommand input os = .ok () os ∧ ¬ReportsNoRamdisk c input os) :=
  ⟨fun h ↦ ⟨h.execCommand_eq_ok, not_reportsUnknown⟩, fun htarget hdisk ↦
    ⟨execCommand_of_noRamdisk htarget hdisk, not_reportsNoRamdisk htarget hdisk⟩⟩

/-- A console without a ramdisk. -/
def bareConsole : Console where
  ramdisk := none
  buffers := ⟨fun _ ↦ 0, zero_base_fits⟩
  tmp := ⟨1, one_addr_ne_zero⟩
  depth := 0
  ramdiskAddr := 0
  pageError _ := none
  enter _ := pure ()

/-- On it, neither `foo` nor `run a` is reported as it should be. -/
theorem foo_and_run_misreported :
    (Unknown (trimmed "foo") ∧
      ¬ReportsUnknown bareConsole "foo" (bareConsole.boot heldKey fun _ ↦ 0).os) ∧
    (runTarget (trimmed "run a") = some ("a", "") ∧
      ¬ReportsNoRamdisk bareConsole "run a" (bareConsole.boot heldKey fun _ ↦ 0).os) := by
  have htarget : runTarget (trimmed "run a") = some ("a", "") := by decide
  exact ⟨⟨⟨⟨by decide, by decide, by decide⟩, by decide⟩, not_reportsUnknown⟩,
    htarget, not_reportsNoRamdisk (by simp [htarget]) rfl⟩

end Reports

/-! ## Runs of files -/

section Refinement

open Console

variable {c : Console} {cmd name args : String} {s : Shell} {os os' : Os}

/-- What is printed for a report. -/
inductive Report.Prints (name args : String) : Report → String → Prop
  | nothing : Prints name args .nothing ""
  | notFound (e : FsError) : Prints name args (.notFound e) s!"run: {e.debug}\n"
  | exited (code : BitVec 32) : Prints name args (.exited code false)
    (exitText name args code "")
  | interpreted (code : BitVec 32) : Prints name args (.exited code true)
    (exitText name args code " (interp)")
  | failedNative (e : NativeError) : Prints name args (.failedNative e)
    s!"run {name} {args}: failed: {e.debug}\n"
  | notExecutable (e : PageError) : Prints name args .notExecutable
    s!"run {name} {args}: failed: {e.debug}\n"
  | failedInterp (e : RunError) : Prints name args (.failedInterp e)
    s!"run {name} {args}: failed: {e.debug}\n"

/-- The processor does what native programs may do. -/
def Console.EntersNative (c : Console) : Prop :=
  ∀ prog os os', c.enter prog os = .ok () os' → ∃ exits, NativeRuns os exits os'

/-- The ways in which `run_native_elf_with_args` returns. -/
theorem Console.runNative_cases {image : List U8} {argv : List String}
    {r : Except NativeFailure Unit} (h : c.runNative image argv os = .ok r os') :
    (∃ e, r = .error (.load e) ∧ loadNativeElf c.buffers image argv [] = .error (.err e) ∧
      os' = os) ∨
    (∃ prog e, r = .error (.page e) ∧ loadNativeElf c.buffers image argv [] = .ok prog ∧
      os' = os) ∨
    ∃ prog os₁, r = .ok () ∧ loadNativeElf c.buffers image argv [] = .ok prog ∧
      nativeStart os = .ok () os₁ ∧ c.enter prog os₁ = .ok () os' := by
  obtain ⟨loaded, os₀, hloaded, hrest⟩ := bind_eq_ok.mp h
  cases loaded with
  | error e =>
    obtain ⟨hload, rfl⟩ := lift_eq_error.mp (result_eq_ok_error.mp hloaded)
    obtain ⟨rfl, rfl⟩ := pure_eq_ok.mp hrest
    exact .inl ⟨e, rfl, hload, rfl⟩
  | ok prog =>
    obtain ⟨hload, rfl⟩ := lift_eq_ok.mp (result_eq_ok_ok.mp hloaded)
    cases hpage : c.pageError prog with
    | some e =>
      simp only [hpage] at hrest
      obtain ⟨rfl, rfl⟩ := pure_eq_ok.mp hrest
      exact .inr (.inl ⟨prog, e, rfl, hload, rfl⟩)
    | none =>
      simp only [hpage] at hrest
      obtain ⟨_, os₁, hstart, hrest⟩ := bind_eq_ok.mp hrest
      obtain ⟨_, os₂, henter, hrest⟩ := bind_eq_ok.mp hrest
      obtain ⟨rfl, rfl⟩ := pure_eq_ok.mp hrest
      exact .inr (.inr ⟨prog, os₁, rfl, hload, infallible_eq_ok.mp hstart, henter⟩)

/-- **A file that is run makes a step of the shell**, and its report is printed. -/
theorem Console.exists_step_of_runFile {rec : FileRecord} (hnative : c.EntersNative)
    (hfile : c.Finds cmd rec.data (runArgv name args))
    (h : c.runFile name args rec s.os = .ok () os') :
    ∃ s' text, Shell.Step c.toMachine cmd s s' ∧ s'.report.Prints name args text ∧
      os' = s'.os.print text := by
  obtain ⟨r, os₁, hrun, hrest⟩ := bind_eq_ok.mp h
  obtain ⟨e, rfl, hload, rfl⟩ | ⟨prog, e, rfl, hload, rfl⟩ |
    ⟨prog, os₀, rfl, hload, hstart, henter⟩ := runNative_cases hrun
  · cases e with
    | fixedVaddrUnsupported minVaddr eType =>
      obtain ⟨r, os₂, hinterp, hprint⟩ := bind_eq_ok.mp hrest
      cases r with
      | ok =>
        exact ⟨_, _, .interpreted hfile hload (result_eq_ok_ok.mp hinterp), .interpreted _,
          (EStateM.Result.ok.inj hprint).2.symm⟩
      | error e =>
        exact ⟨_, _, .failedInterp hfile hload (result_eq_ok_error.mp hinterp), .failedInterp _,
          (EStateM.Result.ok.inj hprint).2.symm⟩
    | _ =>
      exact ⟨_, _, .failedNative hfile hload nofun, .failedNative _,
        (EStateM.Result.ok.inj hrest).2.symm⟩
  · exact ⟨_, _, .notExecutable hfile hload, .notExecutable e,
      (EStateM.Result.ok.inj hrest).2.symm⟩
  · obtain ⟨exits, hexits⟩ := hnative prog os₀ os₁ henter
    exact ⟨_, _, .native hfile hload hstart hexits, .exited _,
      (EStateM.Result.ok.inj hrest).2.symm⟩

/-- **A `run` command that returns is a step of the shell**, and prints its report. -/
theorem Console.exists_step_of_runCommand (hnative : c.EntersNative)
    (htarget : runTarget cmd = some (name, args)) (h : c.runCommand cmd s.os = .ok () os') :
    ∃ s' text, Shell.Step c.toMachine cmd s s' ∧ s'.report.Prints name args text ∧
      os' = s'.os.print text := by
  rw [runCommand, htarget] at h
  cases hdisk : c.ramdisk with
  | none =>
    simp only [hdisk] at h
    obtain ⟨-, rfl⟩ := pure_eq_ok.mp h
    exact ⟨_, _, .noRamdisk htarget hdisk, .nothing, by simp [Os.print, Rust.asBytes]⟩
  | some disk =>
    simp only [hdisk] at h
    obtain ⟨r, os₁, hfound, hrest⟩ := bind_eq_ok.mp h
    cases r with
    | error e =>
      obtain ⟨hopen, rfl⟩ := lift_eq_error.mp (result_eq_ok_error.mp hfound)
      exact ⟨_, _, .notFound htarget hdisk hopen, .notFound e,
        (EStateM.Result.ok.inj hrest).2.symm⟩
    | ok rec =>
      obtain ⟨hopen, rfl⟩ := lift_eq_ok.mp (result_eq_ok_ok.mp hfound)
      exact exists_step_of_runFile hnative
        ⟨name, args, disk, rec, htarget, hdisk, hopen, rfl, rfl⟩ hrest

end Refinement

end LeonOS
