import LeonOS.Interp.StepFrame
import LeonOS.Lib.Lines
import LeonOS.Lib.Runs
import LeonOS.Native.Syscall

/-!
# Reading stdin

Both runners read stdin in a loop of their own.  Each `read` takes the rest of a line, or as much of
it as was asked for, and stores it with its carriage return made a newline; the next one goes on
where it has stopped.  So what programs are given does not depend on the runner (`stdin_delivered`),
only on the bytes that come (`Stdin.stream`) and on what is asked for.
-/

set_option autoImplicit false

namespace LeonOS

open Bytes Lines RustM

/-! ## The stream -/

/-- The byte that a reader gets who has called the function `n` times. -/
def Stdin.byte (stdin : Stdin) (n : ℕ) : U8 := (stdin.polls (Nat.find (stdin.live n))).getD 0

/-- How often the function has been called afterwards. -/
def Stdin.after (stdin : Stdin) (n : ℕ) : ℕ := Nat.find (stdin.live n) + 1

/-- The bytes that are still to come. -/
def Stdin.stream (stdin : Stdin) (n i : ℕ) : U8 := stdin.byte (stdin.after^[i] n)

/-- The function is installed, and was called `n` times. -/
structure Kernel.ReadsFrom (k : Kernel) (stdin : Stdin) (n : ℕ) : Prop where
  /-- It is in `STDIN_READER`. -/
  reader : k.stdinReader = some stdin
  /-- Its calls. -/
  polled : k.polled = n

/-- The end of a line: LF or CR. -/
def EndsLine (b : U8) : Prop := b = 0x0A ∨ b = 0x0D

instance (b : U8) : Decidable (EndsLine b) := inferInstanceAs (Decidable (_ ∨ _))

/-- `mapped`: CR becomes LF. -/
def mapCr (b : U8) : U8 := if b = 0x0D then 0x0A else b

/-- The mapped byte tells where a line ends. -/
theorem mapCr_eq_iff (b : U8) : mapCr b = 0x0A ↔ EndsLine b := by
  rw [mapCr, EndsLine]
  by_cases h : b = 0x0D
  · simp [h]
  · rw [if_neg h, or_iff_left h]

variable {stdin : Stdin} {p i : ℕ}

theorem Stdin.stream_add (stdin : Stdin) (p i : ℕ) :
    stdin.stream (stdin.after^[i] p) = fun k ↦ stdin.stream p (i + k) := by
  funext k
  rw [Stdin.stream, Stdin.stream, Nat.add_comm, Function.iterate_add_apply]

/-- The bytes of a line, as they are stored. -/
def Stdin.line (stdin : Stdin) (p l : ℕ) : List U8 := (front (stdin.stream p) l).map mapCr

@[simp] theorem Stdin.length_line (stdin : Stdin) (p l : ℕ) : (stdin.line p l).length = l := by
  simp [Stdin.line]

theorem Stdin.line_succ (stdin : Stdin) (p l : ℕ) :
    stdin.line p (l + 1) = mapCr (stdin.byte p) :: stdin.line (stdin.after p) l := by
  rw [Stdin.line, front_succ]
  rfl

/-- How much of a line is taken by who asks for `n` bytes. -/
def Stdin.taken (stdin : Stdin) (n p : ℕ) : ℕ := lineLength EndsLine n (stdin.stream p)

theorem Stdin.taken_le (stdin : Stdin) (n p : ℕ) : stdin.taken n p ≤ n :=
  (isLine_lineLength EndsLine (stdin.stream p) n).le

@[simp] theorem Stdin.taken_zero (stdin : Stdin) (p : ℕ) : stdin.taken 0 p = 0 := rfl

@[simp] theorem Stdin.line_zero (stdin : Stdin) (p : ℕ) : stdin.line p 0 = [] := rfl

theorem Stdin.taken_succ (stdin : Stdin) (n p : ℕ) : stdin.taken (n + 1) p =
    if mapCr (stdin.byte p) = 0x0A then 1 else stdin.taken n (stdin.after p) + 1 :=
  if_congr (mapCr_eq_iff _).symm rfl rfl

theorem readStdinByteBlocking_eq {w : World} (h : w.kernel.ReadsFrom stdin p) :
    readStdinByteBlocking w = .ok (some (stdin.byte p))
      { w with kernel := { w.kernel with polled := stdin.after p } } := by
  obtain ⟨hreader, rfl⟩ := h
  obtain ⟨b, hb⟩ := Option.isSome_iff_exists.mp (Nat.find_spec (stdin.live w.kernel.polled)).2
  have hbyte : stdin.polls (Nat.find (stdin.live w.kernel.polled)) =
      some (stdin.byte w.kernel.polled) := by
    rw [Stdin.byte, hb]
    rfl
  rw [readStdinByteBlocking, bind_getKernel, hreader]
  exact congrArg (EStateM.Result.ok · _) hbyte

/-! ## The two loops -/

/-- A line has been read. -/
def Kernel.tookLine (k : Kernel) (stdin : Stdin) (p l : ℕ) : Kernel :=
  { k with polled := stdin.after^[l] p }

/-- **The loop of the native dispatcher** takes a line and stores it. -/
theorem nativeReadFrom_eq (ptr n got : ℕ) {w : World} (h : w.kernel.ReadsFrom stdin p) :
    ∃ touched, nativeReadFrom ptr n got w = .ok (BitVec.ofNat 64 (got + stdin.taken n p))
      ⟨w.kernel.tookLine stdin p (stdin.taken n p),
        poke w.ram (ptr + got) (stdin.line p (stdin.taken n p)), touched⟩ := by
  induction n generalizing got w p with
  | zero =>
    obtain ⟨-, rfl⟩ := h
    refine ⟨w.touched, ?_⟩
    rw [Stdin.taken_zero, Stdin.line_zero, poke_nil]
    rfl
  | succ n ih =>
    rw [nativeReadFrom, bind_apply, readStdinByteBlocking_eq h, Stdin.taken_succ]
    dsimp only
    rw [bind_store, ← mapCr]
    by_cases hend : mapCr (stdin.byte p) = 0x0A
    · rw [if_pos hend, if_pos hend, Stdin.line_succ]
      exact ⟨_, rfl⟩
    · rw [if_neg hend, if_neg hend, Stdin.line_succ]
      obtain ⟨touched, hrun⟩ := ih (got + 1)
        (w := ⟨{ w.kernel with polled := stdin.after p },
          poke w.ram (ptr + got) [mapCr (stdin.byte p)],
          List.range' (ptr + got) 1 ++ w.touched⟩) ⟨h.reader, rfl⟩
      refine ⟨touched, hrun.trans ?_⟩
      dsimp only
      rw [← Nat.add_assoc ptr, show got + 1 + stdin.taken n (stdin.after p) =
        got + (stdin.taken n (stdin.after p) + 1) by omega]
      exact congrArg (fun ram ↦ EStateM.Result.ok _ (World.mk _ ram touched))
        (poke_poke_append w.ram (ptr + got) [mapCr (stdin.byte p)] _)

/-- One byte is taken, stored and shown. -/
theorem readLineFrom_succ (start n got : ℕ) {g : Guest Os}
    (h : g.os.world.kernel.ReadsFrom stdin p) (hroom : start + got < g.mem.length) :
    readLineFrom start (n + 1) got g =
      (if mapCr (stdin.byte p) = 0x0A then pure (got + 1) else readLineFrom start n (got + 1))
        ⟨g.cpu, overwrite g.mem (start + got) [mapCr (stdin.byte p)],
          ⟨{ g.os.world with kernel := { g.os.world.kernel with polled := stdin.after p } },
            g.os.screen ++ [mapCr (stdin.byte p)]⟩⟩ := by
  have hsys : sys readStdinByteBlocking g = .ok (some (stdin.byte p)) { g with os := { g.os with
      world := { g.os.world with
        kernel := { g.os.world.kernel with polled := stdin.after p } } } } := by
    rw [sys, readStdinByteBlocking_eq h]
  rw [readLineFrom, bind_apply, hsys]
  dsimp only
  rw [bind_writing, ← mapCr, Rust.setIndex_of_lt hroom]
  dsimp only
  split
  · rfl
  · rfl

/-- **The loop of the interpreter** takes the same line, stores it and shows it. -/
theorem readLineFrom_eq (start n got : ℕ) {g : Guest Os}
    (h : g.os.world.kernel.ReadsFrom stdin p) (hroom : start + got + n ≤ g.mem.length) :
    readLineFrom start n got g = .ok (got + stdin.taken n p)
      { g with
        mem := overwrite g.mem (start + got) (stdin.line p (stdin.taken n p))
        os := ⟨{ g.os.world with
          kernel := g.os.world.kernel.tookLine stdin p (stdin.taken n p) },
          g.os.screen ++ stdin.line p (stdin.taken n p)⟩ } := by
  induction n generalizing got g p with
  | zero =>
    obtain ⟨-, rfl⟩ := h
    rw [Stdin.taken_zero, Stdin.line_zero, overwrite_nil, List.append_nil]
    rfl
  | succ n ih =>
    rw [readLineFrom_succ start n got h (by omega), Stdin.taken_succ]
    by_cases hend : mapCr (stdin.byte p) = 0x0A
    · rw [if_pos hend, if_pos hend, Stdin.line_succ]
      rfl
    · rw [if_neg hend, if_neg hend, Stdin.line_succ]
      have hlen : (overwrite g.mem (start + got) [mapCr (stdin.byte p)]).length = g.mem.length :=
        length_overwrite (by rw [List.length_singleton]; omega)
      have hbehind (bytes : List U8) : overwrite
          (overwrite g.mem (start + got) [mapCr (stdin.byte p)]) (start + got + 1) bytes =
            overwrite g.mem (start + got) (mapCr (stdin.byte p) :: bytes) :=
        overwrite_overwrite_behind (by rw [List.length_singleton]; omega)
      refine (ih (got + 1) (g := ⟨g.cpu, overwrite g.mem (start + got) [mapCr (stdin.byte p)],
        ⟨{ g.os.world with kernel := { g.os.world.kernel with polled := stdin.after p } },
          g.os.screen ++ [mapCr (stdin.byte p)]⟩⟩) ⟨h.reader, rfl⟩ ?_).trans ?_
      · dsimp only
        rw [hlen]
        omega
      · dsimp only
        rw [← Nat.add_assoc start, List.append_assoc, List.singleton_append,
          show got + 1 + stdin.taken n (stdin.after p) =
            got + (stdin.taken n (stdin.after p) + 1) by omega, hbehind]
        rfl

/-! ## The calls -/

theorem Stdin.toNat_taken (stdin : Stdin) (n : U64) (p : ℕ) :
    (BitVec.ofNat 64 (stdin.taken n.toNat p)).toNat = stdin.taken n.toNat p := by
  have hle := stdin.taken_le n.toNat p
  rw [BitVec.toNat_ofNat]
  omega

/-- `read(0, buf, n)` of a native program. -/
theorem nativeDispatch_stdin {os : Os} {buf : U64} (n a3 : U64)
    (h : os.world.kernel.ReadsFrom stdin p) (hbuf : buf ≠ 0) :
    ∃ touched, nativeDispatch .read 0 buf n a3 os =
      .ok (BitVec.ofNat 64 (stdin.taken n.toNat p))
        { os with world := ⟨os.world.kernel.tookLine stdin p (stdin.taken n.toNat p),
          poke os.world.ram buf.toNat (stdin.line p (stdin.taken n.toNat p)), touched⟩ } := by
  rw [nativeDispatch, if_pos rfl]
  by_cases hn : n = 0
  · obtain ⟨-, rfl⟩ := h
    refine ⟨os.world.touched, ?_⟩
    rw [if_pos (.inr hn), hn, show (0 : U64).toNat = 0 from rfl, Stdin.taken_zero, Stdin.line_zero,
      poke_nil]
    rfl
  · obtain ⟨touched, hrun⟩ := nativeReadFrom_eq buf.toNat n.toNat 0 h
    rw [Nat.add_zero, Nat.zero_add] at hrun
    refine ⟨touched, ?_⟩
    rw [if_neg (not_or.mpr ⟨hbuf, hn⟩), nativeSys, hrun]

/-- A program of the interpreter asks for a line, with a buffer in its memory. -/
structure AsksStdin (base : U64) (g : Guest Os) : Prop where
  /-- The call is `read`. -/
  call : Nr.decode g.cpu.rax.toNat = .read
  /-- Of stdin. -/
  fd : g.cpu.rdi = 0
  /-- The buffer begins in memory. -/
  start : base.toNat ≤ g.cpu.rsi.toNat ∧ g.cpu.rsi.toNat < base.toNat + g.mem.length
  /-- And ends there. -/
  room : g.cpu.rsi.toNat + g.cpu.rdx.toNat ≤ base.toNat + g.mem.length

variable {run : Run} {tmp : StackSlot} {base : U64}

/-- `read(0, buf, n)` of a program of the interpreter. -/
theorem handleSyscall_stdin {g : Guest Os} (h : g.os.world.kernel.ReadsFrom stdin p)
    (hasks : AsksStdin base g) :
    handleSyscall run tmp base g = .ok false
      { g with
        cpu := { g.cpu with rax := BitVec.ofNat 64 (stdin.taken g.cpu.rdx.toNat p) }
        mem := overwrite g.mem (g.cpu.rsi.toNat - base.toNat)
          (stdin.line p (stdin.taken g.cpu.rdx.toNat p))
        os := ⟨{ g.os.world with
          kernel := g.os.world.kernel.tookLine stdin p (stdin.taken g.cpu.rdx.toNat p) },
          g.os.screen ++ stdin.line p (stdin.taken g.cpu.rdx.toNat p)⟩ } := by
  obtain ⟨hlo, hhi⟩ := hasks.start
  have hroom := hasks.room
  have hindex : vaToIndex base g.mem g.cpu.rsi = .ok (g.cpu.rsi.toNat - base.toNat) :=
    Window.index_eq_ok.mpr ⟨by omega, by omega⟩
  rw [handleSyscall, bind_getCpu, hasks.call]
  dsimp only
  rw [handleRead, bind_getCpu, bind_reading, hindex]
  dsimp only
  rw [bind_get, min_eq_left (by omega)]
  by_cases hn : g.cpu.rdx.toNat = 0
  · obtain ⟨-, rfl⟩ := h
    rw [if_pos hn, hn, Stdin.taken_zero, Stdin.line_zero, overwrite_nil, List.append_nil]
    rfl
  · rw [if_neg hn, if_pos hasks.fd, bind_apply, readLineFrom_eq _ _ 0 h (by omega), Nat.zero_add,
      Nat.add_zero]
    rfl

/-! ## Sequences of calls -/

/-- What a program does, as far as stdin is concerned. -/
inductive StdinEvent where
  /-- It asks for `n` bytes, and gets a count, bytes in its buffer and an echo. -/
  | read (n : ℕ) (count : U64) (bytes echo : List U8)
  /-- Something else. -/
  | other

/-- What was asked for and what was stored. -/
def StdinEvent.given : StdinEvent → Option (ℕ × List U8)
  | .read n _ bytes _ => some (n, bytes)
  | .other => none

/-- What a program was given. -/
def given (es : List StdinEvent) : List (ℕ × List U8) := es.filterMap StdinEvent.given

/-- The reader is the same, and was not called. -/
def SameReader (k k' : Kernel) : Prop := k'.stdinReader = k.stdinReader ∧ k'.polled = k.polled

/-- A step of a native program. -/
inductive NativeReads : StdinEvent → Os → Os → Prop
  | read {os os' : Os} {buf n a3 count : U64} {echo : List U8} (hbuf : buf ≠ 0)
      (hrun : nativeDispatch .read 0 buf n a3 os = .ok count os')
      (hecho : os'.screen = os.screen ++ echo) :
      NativeReads (.read n.toNat count (peek os'.world.ram buf.toNat count.toNat) echo) os os'
  | other {os os' : Os} (h : SameReader os.world.kernel os'.world.kernel) :
      NativeReads .other os os'

/-- A step of a program of the interpreter. -/
inductive GuestReads (run : Run) (tmp : StackSlot) (base : U64) :
    StdinEvent → Guest Os → Guest Os → Prop
  | read {g g' : Guest Os} {stop : Bool} {echo : List U8} (hasks : AsksStdin base g)
      (hrun : handleSyscall run tmp base g = .ok stop g')
      (hecho : g'.os.screen = g.os.screen ++ echo) :
      GuestReads run tmp base (.read g.cpu.rdx.toNat g'.cpu.rax
        (slice g'.mem (g.cpu.rsi.toNat - base.toNat) g'.cpu.rax.toNat) echo) g g'
  | other {g g' : Guest Os} (h : SameReader g.os.world.kernel g'.os.world.kernel) :
      GuestReads run tmp base .other g g'

/-- What a step does to stdin: it takes a line, stores it and shows some of it, or nothing. -/
inductive TakesLine (stdin : Stdin) (shown : List U8 → List U8) (p : ℕ) : StdinEvent → ℕ → Prop
  | read {n : ℕ} {count : U64} (hcount : count.toNat = stdin.taken n p) :
      TakesLine stdin shown p (.read n count (stdin.line p (stdin.taken n p))
        (shown (stdin.line p (stdin.taken n p)))) (stdin.after^[stdin.taken n p] p)
  | other : TakesLine stdin shown p .other p

/-- Nothing of it. -/
def shownNot (_bytes : List U8) : List U8 := []

/-- All of it. -/
def shownAll (bytes : List U8) : List U8 := bytes

theorem Kernel.ReadsFrom.same {k k' : Kernel} (h : k.ReadsFrom stdin p) (hsame : SameReader k k') :
    k'.ReadsFrom stdin p :=
  ⟨hsame.1.trans h.reader, hsame.2.trans h.polled⟩

theorem Kernel.ReadsFrom.tookLine {k : Kernel} (h : k.ReadsFrom stdin p) (l : ℕ) :
    (k.tookLine stdin p l).ReadsFrom stdin (stdin.after^[l] p) :=
  ⟨h.reader, rfl⟩

theorem NativeReads.takesLine {e : StdinEvent} {os os' : Os} (h : NativeReads e os os')
    (hos : os.world.kernel.ReadsFrom stdin p) :
    ∃ p', TakesLine stdin shownNot p e p' ∧ os'.world.kernel.ReadsFrom stdin p' := by
  cases h with
  | @read _ _ buf n a3 count echo hbuf hrun hecho =>
    obtain ⟨touched, hline⟩ := nativeDispatch_stdin n a3 hos hbuf
    obtain ⟨rfl, rfl⟩ := EStateM.Result.ok.inj (hrun.symm.trans hline)
    obtain rfl : echo = [] := List.append_right_eq_self.mp hecho.symm
    refine ⟨_, ?_, hos.tookLine _⟩
    have hstored := peek_poke_self os.world.ram buf.toNat (stdin.line p (stdin.taken n.toNat p))
    rw [Stdin.length_line, ← stdin.toNat_taken n p] at hstored
    dsimp only
    rw [stdin.toNat_taken] at hstored ⊢
    rw [hstored]
    exact .read (stdin.toNat_taken n p)
  | other hsame => exact ⟨p, .other, hos.same hsame⟩

theorem GuestReads.takesLine {e : StdinEvent} {g g' : Guest Os} (h : GuestReads run tmp base e g g')
    (hg : g.os.world.kernel.ReadsFrom stdin p) :
    ∃ p', TakesLine stdin shownAll p e p' ∧ g'.os.world.kernel.ReadsFrom stdin p' := by
  cases h with
  | @read _ _ stop echo hasks hrun hecho =>
    obtain ⟨-, rfl⟩ := EStateM.Result.ok.inj (hrun.symm.trans (handleSyscall_stdin hg hasks))
    obtain rfl : _ = echo := List.append_cancel_left hecho
    refine ⟨_, ?_, hg.tookLine _⟩
    have hroom := hasks.room
    have hstart := hasks.start
    have hle := stdin.taken_le g.cpu.rdx.toNat p
    have hstored : slice (overwrite g.mem (g.cpu.rsi.toNat - base.toNat)
        (stdin.line p (stdin.taken g.cpu.rdx.toNat p))) (g.cpu.rsi.toNat - base.toNat)
          (stdin.line p (stdin.taken g.cpu.rdx.toNat p)).length =
        stdin.line p (stdin.taken g.cpu.rdx.toNat p) :=
      slice_overwrite_self (by rw [Stdin.length_line]; omega)
    rw [Stdin.length_line] at hstored
    dsimp only
    rw [stdin.toNat_taken, hstored]
    exact .read (stdin.toNat_taken _ p)
  | other hsame => exact ⟨p, .other, hg.same hsame⟩

/-! ## What is delivered -/

/-- The stream is given line by line, from its `i`-th byte to its `j`-th. -/
structure GivenLines (stdin : Stdin) (shown : List U8 → List U8) (p i j : ℕ)
    (es : List StdinEvent) : Prop where
  /-- Each call takes the shortest front that ends a line or is as long as was asked for. -/
  lines : Delivered EndsLine mapCr (stdin.stream p) i (given es) j
  /-- The counts are those of the bytes, and the echo is of the bytes. -/
  calls : ∀ n count bytes echo, .read n count bytes echo ∈ es →
    count.toNat = bytes.length ∧ echo = shown bytes

/-- **A run whose steps take lines** is given them one after the other. -/
theorem givenLines_of_trace {S : Type} {step : StdinEvent → S → S → Prop} {kernelOf : S → Kernel}
    {shown : List U8 → List U8}
    (htakes : ∀ e s s' p, step e s s' → (kernelOf s).ReadsFrom stdin p →
      ∃ p', TakesLine stdin shown p e p' ∧ (kernelOf s').ReadsFrom stdin p')
    {s s' : S} {es : List StdinEvent} (hrun : Runs.Trace step s es s')
    (hs : (kernelOf s).ReadsFrom stdin (stdin.after^[i] p)) :
    ∃ j, GivenLines stdin shown p i j es ∧ (kernelOf s').ReadsFrom stdin (stdin.after^[j] p) := by
  induction hrun generalizing i with
  | nil s => exact ⟨i, ⟨.nil i, nofun⟩, hs⟩
  | cons hstep _ ih =>
    obtain ⟨p', htaken, hs₁⟩ := htakes _ _ _ _ hstep hs
    cases htaken with
    | @read n count hcount =>
      have hnext : stdin.after^[stdin.taken n (stdin.after^[i] p)] (stdin.after^[i] p) =
          stdin.after^[i + stdin.taken n (stdin.after^[i] p)] p := by
        rw [Nat.add_comm, Function.iterate_add_apply]
      rw [hnext] at hs₁
      obtain ⟨j, ⟨hlines, hcalls⟩, hs'⟩ := ih hs₁
      refine ⟨j, ⟨?_, fun n' count' bytes' echo' hmem ↦ ?_⟩, hs'⟩
      · rw [given, List.filterMap_cons, StdinEvent.given, Stdin.line, Stdin.stream_add]
        refine .cons ?_ hlines
        rw [Stdin.taken, Stdin.stream_add]
        exact isLine_lineLength _ _ _
      · obtain heq | hmem := List.mem_cons.mp hmem
        · cases heq
          rw [Stdin.length_line, hcount]
          exact ⟨rfl, rfl⟩
        · exact hcalls n' count' bytes' echo' hmem
    | other =>
      obtain ⟨j, ⟨hlines, hcalls⟩, hs'⟩ := ih hs₁
      refine ⟨j, ⟨hlines, fun n count bytes echo hmem ↦ ?_⟩, hs'⟩
      exact hcalls n count bytes echo ((List.mem_cons.mp hmem).resolve_left nofun)

/-- All that was given, from the start of the stream. -/
theorem GivenLines.flatMap {shown : List U8 → List U8} {j : ℕ} {es : List StdinEvent}
    (h : GivenLines stdin shown p 0 j es) :
    (given es).flatMap Prod.snd = (front (stdin.stream p) j).map mapCr := by
  obtain ⟨l, rfl, hall⟩ := h.lines.flatMap
  simpa using hall

/-- **Stdin is delivered line by line** by both runners. -/
structure LineByLine (stdin : Stdin) (run : Run) (tmp : StackSlot) (base : U64) : Prop where
  /-- The native dispatcher answers every call. -/
  native_returns : ∀ p os buf n a3, os.world.kernel.ReadsFrom stdin p → buf ≠ 0 →
    ∃ count os', nativeDispatch .read 0 buf n a3 os = .ok count os' ∧ os'.screen = os.screen
  /-- So does the interpreter. -/
  guest_returns : ∀ p g, g.os.world.kernel.ReadsFrom stdin p → AsksStdin base g →
    ∃ g' echo, handleSyscall run tmp base g = .ok false g' ∧ g'.os.screen = g.os.screen ++ echo
  /-- A native program is given the stream, as far as it reads, and nothing is shown. -/
  native : ∀ p os es os', os.world.kernel.ReadsFrom stdin p → Runs.Trace NativeReads os es os' →
    ∃ j, GivenLines stdin shownNot p 0 j es ∧
      (given es).flatMap Prod.snd = (front (stdin.stream p) j).map mapCr ∧
      os'.world.kernel.ReadsFrom stdin (stdin.after^[j] p)
  /-- So is a program of the interpreter, and all that it is given is shown. -/
  guest : ∀ p g es g', g.os.world.kernel.ReadsFrom stdin p →
    Runs.Trace (GuestReads run tmp base) g es g' →
    ∃ j, GivenLines stdin shownAll p 0 j es ∧
      (given es).flatMap Prod.snd = (front (stdin.stream p) j).map mapCr ∧
      g'.os.world.kernel.ReadsFrom stdin (stdin.after^[j] p)
  /-- Programs that ask for the same are given the same. -/
  same : ∀ p os es os' g fs g', os.world.kernel.ReadsFrom stdin p →
    g.os.world.kernel.ReadsFrom stdin p → Runs.Trace NativeReads os es os' →
    Runs.Trace (GuestReads run tmp base) g fs g' →
    (given es).map Prod.fst = (given fs).map Prod.fst → given es = given fs

/-- **What both runners do with stdin.** -/
theorem stdin_delivered (stdin : Stdin) (run : Run) (tmp : StackSlot) (base : U64) :
    LineByLine stdin run tmp base := by
  have hnative {p : ℕ} {os os' : Os} {es : List StdinEvent}
      (hos : os.world.kernel.ReadsFrom stdin p) (hrun : Runs.Trace NativeReads os es os') :=
    givenLines_of_trace (i := 0) (fun _ _ _ _ h h' ↦ h.takesLine h') hrun hos
  have hguest {p : ℕ} {g g' : Guest Os} {es : List StdinEvent}
      (hg : g.os.world.kernel.ReadsFrom stdin p)
      (hrun : Runs.Trace (GuestReads run tmp base) g es g') :=
    givenLines_of_trace (i := 0) (fun _ _ _ _ h h' ↦ h.takesLine h') hrun hg
  constructor
  · intro p os buf n a3 hos hbuf
    obtain ⟨touched, hrun⟩ := nativeDispatch_stdin n a3 hos hbuf
    exact ⟨_, _, hrun, rfl⟩
  · intro p g hg hasks
    exact ⟨_, _, handleSyscall_stdin hg hasks, rfl⟩
  · intro p os es os' hos hrun
    obtain ⟨j, hlines, hos'⟩ := hnative hos hrun
    exact ⟨j, hlines, hlines.flatMap, hos'⟩
  · intro p g es g' hg hrun
    obtain ⟨j, hlines, hg'⟩ := hguest hg hrun
    exact ⟨j, hlines, hlines.flatMap, hg'⟩
  · intro p os es os' g fs g' hos hg hes hfs hasked
    obtain ⟨_, hlines, -⟩ := hnative hos hes
    obtain ⟨_, hlines', -⟩ := hguest hg hfs
    exact (hlines.lines.unique hlines'.lines hasked).1

end LeonOS
