import LeonOS.Lib.Bytes
import LeonOS.Lib.Rust
import LeonOS.Elf.Parse
import LeonOS.Lib.X86
import LeonOS.Interp.Cpu
import LeonOS.Interp.Exec
import LeonOS.Interp.Steps
import LeonOS.Interp.Conform
import LeonOS.Interp.Calls
import LeonOS.Lib.Loop
import LeonOS.Interp.Stops
import LeonOS.Fs.Image
import LeonOS.Fs.Build
import LeonOS.Fs.RoundTrip
import LeonOS.Kernel.State
import LeonOS.Kernel.Syscall
import LeonOS.Kernel.Effect
import LeonOS.Elf.Load
import LeonOS.Elf.Runners
import LeonOS.Elf.LoadSafe
import LeonOS.Interp.Syscall
import LeonOS.Kernel.Pointers
import LeonOS.Interp.Pointers
import LeonOS.Native.Syscall
import LeonOS.Kernel.Wait
import LeonOS.Lib.Runs
import LeonOS.Runs.Wait
import LeonOS.Kernel.Runs
import LeonOS.Kernel.Files
import LeonOS.Runs.Files
import LeonOS.Kernel.Dirents
import LeonOS.Runs.Dirents
import LeonOS.Kernel.Allocator
import LeonOS.Kernel.Paths
import LeonOS.Interp.Execve
import LeonOS.Interp.Panics
import LeonOS.Interp.Overflow
import LeonOS.Kernel.Atomic
import LeonOS.Kernel.Positions
import LeonOS.Runs.Dup
import LeonOS.Lib.Regions
import LeonOS.Runs.Addresses
import LeonOS.Interp.Account
import LeonOS.Elf.Code
import LeonOS.Interp.ExitCode
import LeonOS.Interp.Programs
import LeonOS.Shell.Run
import LeonOS.Shell.ExitCode
import LeonOS.Kernel.Tables
import LeonOS.Shell.Leftovers
import LeonOS.Elf.Stack
import LeonOS.Elf.Arguments
import LeonOS.Elf.Segments
import LeonOS.Fs.Reader
import LeonOS.Lib.Precise
import LeonOS.Interp.Faults
import LeonOS.Interp.FailedExecve
import LeonOS.Interp.StepFrame
import LeonOS.Interp.Cases
import LeonOS.Interp.RunPanics
import LeonOS.Interp.Flags
import LeonOS.Kernel.Names
import LeonOS.Runs.Listed
import LeonOS.Runs.Identity
import LeonOS.Lib.Asm
import LeonOS.Native.Entry
import LeonOS.Native.Transparent
import LeonOS.Native.Enter
import LeonOS.Kernel.IntArgs
import LeonOS.Runs.Descriptors
import LeonOS.Interp.BadPointers
import LeonOS.Lib.Lines
import LeonOS.Runs.Stdin
import LeonOS.Shell.Commands
import LeonOS.Shell.Keyboard
import LeonOS.Lib.Log
import LeonOS.Shell.Loop
import LeonOS.Lib.Core
import LeonOS.Interp.Hardware
import LeonOS.Lib.Linear
import LeonOS.Kernel.HeapHistory
import LeonOS.Lib.Metered
import LeonOS.Interp.Metered
import LeonOS.Interp.Nesting
import LeonOS.Native.Paging
import LeonOS.Lib.Local
import LeonOS.Kernel.Footprint
import LeonOS.Native.Call
import LeonOS.Native.Isolation
import LeonOS.Shell.Prompt
import LeonOS.Shell.Session
import LeonOS.Shell.Typing
import LeonOS.Shell.Files
import LeonOS.Lib.Newlines
import LeonOS.Lib.Uart
import LeonOS.Devices.Serial
import LeonOS.Devices.Display
