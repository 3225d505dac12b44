import LeonOS.Elf.Runners
import LeonOS.Interp.Exec
import LeonOS.Kernel.Syscall

/-!
# System calls of interpreted programs

`handle_syscall` of `kernel/src/elf_runner.rs`, and the runner that it and the step loop make up.

A guest address means something only to the functions that take `base` and `mem`.  The arms for
`read`, `write` and `execve` go through these; the last arm hands the registers to `dispatch` as
they are.  `read` of a file goes through the vector `tmp` of 256 bytes on the kernel's stack, whose
place (`StackSlot`) is a parameter.

`execve` runs the new program on the kernel's stack, inside of the system call of the old one.  The
nesting is counted down in `runLinuxElf`, where it ends in a panic; `handleSyscall` itself has the
runner of the new program for a parameter.
-/

set_option autoImplicit false

namespace LeonOS

open Bytes

/-- The place of a local variable: not the null address. -/
structure StackSlot where
  /-- The address. -/
  addr : U64
  /-- A reference is not null. -/
  ne_zero : addr ≠ 0

/-- `ENOEXEC`. -/
def enoexec : U64 := 8

/-- A runner of the program in an image, with arguments and an environment. -/
abbrev Run := List U8 → List String → List String → RustM RunError Os Unit

/-- A call into `syscall.rs`. -/
def sys {α : Type} (x : SysM α) : Interp Os α := fun g ↦
  match x g.os.world with
  | .ok a w => .ok a { g with os := { g.os with world := w } }
  | .error .panic w => .error .panic { g with os := { g.os with world := w } }

/-- `terminal.process(bytes)`. -/
def process (bytes : List U8) : Interp Os Unit :=
  modify fun g ↦ { g with os := { g.os with screen := g.os.screen ++ bytes } }

/-- `cpu.rax = v; Ok(stop)`. -/
def setRax (v : U64) (stop : Bool) : Interp Os Bool := do
  modifyCpu ({ · with rax := v })
  return stop

/-! ## `read` and `write` -/

/-- The loop over the bytes of stdin, with `n` bytes to go. -/
def readLineFrom (start : ℕ) : ℕ → ℕ → Interp Os ℕ
  | 0, got => return got
  | n + 1, got => do
    match ← sys readStdinByteBlocking with
    | none => return got
    | some ch =>
      let mapped := if ch = 0x0D then 0x0A else ch
      writing fun mem ↦ Rust.setIndex mem (start + got) mapped
      process [mapped]
      if mapped = 0x0A then
        return got + 1
      readLineFrom start n (got + 1)

/-- `let mut tmp = [0u8; 256];`. -/
def clearTmp (tmp : StackSlot) : Interp Os Unit :=
  modify fun g ↦ { g with os := { g.os with world := { g.os.world with
    ram := poke g.os.world.ram tmp.addr.toNat (List.replicate 256 0) } } }

/-- `read` of a descriptor other than stdin, at most `cap` bytes. -/
def readThroughTmp (tmp : StackSlot) (start cap : ℕ) (fd : U64) : Interp Os Bool := do
  clearTmp tmp
  let want := min cap 256
  let n ← sys (dispatch .read fd tmp.addr (BitVec.ofNat 64 want) 0)
  if 0 ≤ n.toInt then
    let got := n.toNat
    let bytes := peek (← get).os.world.ram tmp.addr.toNat 256
    writing fun mem ↦ do
      let src ← Rust.range bytes 0 got
      Rust.copyFromSlice mem start (start + got) src
  setRax n false

/-- The arm for `SYS_READ`. -/
def handleRead (tmp : StackSlot) (base : U64) : Interp Os Bool := do
  let cpu ← getCpu
  let start ← reading fun mem ↦ vaToIndex base mem cpu.rsi
  let cap := min cpu.rdx.toNat ((← get).mem.length - start)
  if cap = 0 then
    return ← setRax 0 false
  if cpu.rdi = 0 then
    let got ← readLineFrom start cap 0
    return ← setRax (BitVec.ofNat 64 got) false
  readThroughTmp tmp start cap cpu.rdi

/-- The bytes that the arm for `SYS_WRITE` writes. -/
def writeBytes (base : U64) (mem : List U8) (va : U64) (len : ℕ) : Rust RunError (List U8) := do
  let start ← vaToIndex base mem va
  let last ← Rust.okOr (Rust.checkedAdd start len) .addressOutOfRange
  Rust.failIf (last > mem.length) .addressOutOfRange
  Rust.range mem start last

/-- The arm for `SYS_WRITE`. -/
def handleWrite (base : U64) : Interp Os Bool := do
  let cpu ← getCpu
  let bytes ← reading fun mem ↦ writeBytes base mem cpu.rsi cpu.rdx.toNat
  if cpu.rdi = 1 ∨ cpu.rdi = 2 then
    process bytes
  let n ← sys (dispatch .write cpu.rdi cpu.rsi cpu.rdx 0)
  setRax n false

/-! ## `execve` -/

/-- The loop of `read_user_cstr` with `n` bytes to go; `bytes` are those before. -/
def readUserCstrFrom (base : U64) (mem : List U8) (va : U64) :
    ℕ → List U8 → Rust RunError (Option String)
  | 0, _ => .ok none
  | n + 1, bytes => do
    let b ← readU8 base mem (va + BitVec.ofNat 64 bytes.length)
    if b = 0 then
      return Rust.fromUtf8 bytes
    readUserCstrFrom base mem va n (bytes ++ [b])

/-- `read_user_cstr`. -/
def readUserCstr (base : U64) (mem : List U8) (va : U64) : Rust RunError (Option String) :=
  if va = 0 then .ok none else readUserCstrFrom base mem va 4096 []

/-- The loop of `read_user_ptr_array` from index `i` on, with `n` pointers to go. -/
def readUserPtrsFrom (base : U64) (mem : List U8) (va : U64) : ℕ → ℕ → Rust RunError (List U64)
  | 0, _ => .ok []
  | n + 1, i => do
    let p ← readU64 base mem (← Rust.addWord va (i * 8))
    if p = 0 then
      return []
    return p :: (← readUserPtrsFrom base mem va n (i + 1))

/-- `read_user_ptr_array`. -/
def readUserPtrArray (base : U64) (mem : List U8) (va : U64) (max : ℕ) :
    Rust RunError (List U64) :=
  if va = 0 then .ok [] else readUserPtrsFrom base mem va max 0

/-- The strings that some pointers lead to. -/
def readUserStrs (base : U64) (mem : List U8) : List U64 → Rust RunError (List String)
  | [] => .ok []
  | p :: ptrs => do
    let some s ← readUserCstr base mem p | Rust.fail .addressOutOfRange
    return s :: (← readUserStrs base mem ptrs)

/-- `read_user_str_array`. -/
def readUserStrArray (base : U64) (mem : List U8) (va : U64) (max : ℕ) :
    Rust RunError (List String) := do
  readUserStrs base mem (← readUserPtrArray base mem va max)

/-- `normalize_exec_path`. -/
def normalizeExecPath (path : String) : Option String :=
  let trimmed := trim path.toList
  if trimmed = [] then none
  else
    let p := (stripDotSlash trimmed).dropWhile (· = '/')
    if p = [] ∨ '/' ∈ p then none else some (String.ofList p)

/-- The run of another program: did it return `Ok`? -/
def attempt (x : RustM RunError Os Unit) : Interp Os Bool := fun g ↦
  match x g.os with
  | .ok _ os => .ok true { g with os := os }
  | .error (.err _) os => .ok false { g with os := os }
  | .error .panic os => .error .panic { g with os := os }

/-- The arm for `SYS_EXECVE`, from the file on. -/
def execFile (run : Run) (name : String) (argv envp : List String) (rec : FileRecord) :
    Interp Os Bool := do
  sys (modifyKernel (·.markExitCode 0))
  if ← attempt (run rec.data (if argv = [] then [name] else argv) envp) then
    setRax 0 true
  else
    setRax (-enoexec) false

/-- The arm for `SYS_EXECVE`. -/
def handleExecve (run : Run) (base : U64) : Interp Os Bool := do
  let cpu ← getCpu
  let some path ← reading fun mem ↦ readUserCstr base mem cpu.rdi | setRax (-efault) false
  let argv ← reading fun mem ↦ readUserStrArray base mem cpu.rsi 64
  let envp ← reading fun mem ↦ readUserStrArray base mem cpu.rdx 64
  let some name := normalizeExecPath path | setRax (-enoent) false
  let some image := (← get).os.world.kernel.rootfs | setRax (-enoent) false
  match Fs.open image.bytes name with
  | .ok rec => execFile run name argv envp rec
  | .error _ => setRax (-enoent) false

/-! ## The table -/

/-- The last arm: the registers are the arguments. -/
def handleDefault (nr : Nr) : Interp Os Bool := do
  let cpu ← getCpu
  let n ← sys (dispatch nr cpu.rdi cpu.rsi cpu.rdx cpu.r10)
  setRax n false

/-- `handle_syscall`. -/
def handleSyscall (run : Run) (tmp : StackSlot) (base : U64) : Interp Os Bool := do
  let cpu ← getCpu
  match Nr.decode cpu.rax.toNat with
  | .read => handleRead tmp base
  | .write => handleWrite base
  | .getpid => do setRax (← sys (dispatch .getpid 0 0 0 0)) false
  | .brk => do setRax (← sys (dispatch .brk cpu.rdi 0 0 0)) false
  | .execve => handleExecve run base
  | .exit | .exitGroup => do setRax (← sys (dispatch .exit cpu.rdi 0 0 0)) true
  | nr => handleDefault nr

/-- The run of a loaded program. -/
def runProgram (run : Run) (tmp : StackSlot) (prog : LinuxProgram) : RustM RunError Os Unit :=
  fun os ↦
    match runSteps (handleSyscall run tmp prog.base) prog.base maxSteps
      ⟨Cpu.start prog.initialRsp prog.entry, prog.mem, os⟩ with
    | .ok _ g => .ok () g.os
    | .error e g => .error e g.os

/-- `run_linux_elf_with_args`, with fewer than `depth` programs nested in it by `execve`. -/
def runLinuxElf (tmp : StackSlot) : ℕ → Run
  | 0, _, _, _ => throw .panic
  | depth + 1, image, argv, envp => do
    let prog ← RustM.lift (loadLinuxElf image argv envp)
    runProgram (runLinuxElf tmp depth) tmp prog

end LeonOS
