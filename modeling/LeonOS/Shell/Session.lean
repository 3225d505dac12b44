import LeonOS.Kernel.HeapHistory
import LeonOS.Lib.Metered
import LeonOS.Shell.Prompt

/-!
# A session at the prompt

Whatever is typed, as long as no line runs a file or halts, the commands return (`calm_runShell`).
Some of them take blocks from the heap, which takes none back: `elf` collects the segments of a file
in a vector.  So a session goes on as long as the heap has the blocks that it asks for, and no
longer (`session_from_boot`).  Where it goes on, the machine is as it was when the shell was
started, but for the addresses that `syscall` has taken from `mmap`, and for the heap.

How vectors and the terminal grow is up to code that is not the kernel's, so that the blocks are a
parameter, `ShellBlocks`; all that is asked of it is that the vector of `elf` has room for its
segments.
-/

set_option autoImplicit false

namespace LeonOS

open RustM Console

/-! ## Sessions -/

section Sessions

variable {c : Console}

/-- The globals after these lines. -/
def Console.afterLines (c : Console) (k : Kernel) (inputs : List String) : Kernel :=
  inputs.foldl (fun k input ↦ c.commandEffect (trimmed input) k) k

theorem Console.afterLines_cons (input : String) (inputs : List String) :
    (c.afterLines · (input :: inputs)) =
      (c.afterLines · inputs) ∘ c.commandEffect (trimmed input) := by
  funext k
  rw [afterLines, List.foldl_cons, Function.comp_apply, afterLines]

/-- A line that ends is executed. -/
theorem Console.calm_lineEnd {held : List U8} {byte : U8} (hend : IsLineEnd byte)
    (h : AtPrompt (asText held)) :
    Calm (c.commandEffect (trimmed (asText held))) (c.shellCalls.effects held byte) := by
  rw [ShellCalls.effects, if_pos hend, shellCalls_process, shellCalls_exec]
  exact (calm_process _).seq fun _ ↦ (calm_execCommand h).andThen fun _ ↦ calm_process _

/-- Another byte is echoed at most. -/
theorem Console.calm_edit {held : List U8} {byte : U8} (hend : ¬IsLineEnd byte) :
    Calm id (c.shellCalls.effects held byte) := by
  rw [ShellCalls.effects, if_neg hend, shellCalls_process]
  split_ifs
  · exact calm_pure ()
  · exact calm_process _
  · exact calm_process _
  · exact calm_pure ()
  · exact calm_pure ()

/-- What is left of a stream, on a line of which `held` is there. -/
theorem Console.calm_effectsFrom (lines : List (List U8)) (held : List U8)
    (polls : List (Option U8))
    (h : ∀ input ∈ (polls.foldl Typed.poll ⟨[], held⟩).inputs, AtPrompt input) :
    Calm (c.afterLines · (polls.foldl Typed.poll ⟨[], held⟩).inputs)
      (c.shellCalls.effectsFrom ⟨lines, held⟩ polls) := by
  induction polls generalizing lines held with
  | nil => exact calm_pure ()
  | cons poll polls ih =>
    cases poll with
    | none => exact ih lines held h
    | some byte =>
      rw [ShellCalls.effectsFrom]
      rw [List.foldl_cons, Typed.poll] at h ⊢
      by_cases hend : IsLineEnd byte
      · rw [if_pos hend, List.nil_append, foldl_poll, List.map_singleton,
          List.singleton_append] at h ⊢
        obtain ⟨hline, hrest⟩ := List.forall_mem_cons.mp h
        rw [Typed.poll, if_pos hend, afterLines_cons]
        exact (calm_lineEnd hend hline).bind fun _ ↦ ih _ _ hrest
      · rw [if_neg hend] at h ⊢
        rw [Typed.poll, if_neg hend]
        exact (calm_edit hend).seq fun _ ↦ ih _ _ h

/-- **A session at the prompt.**  Whatever is typed that runs no file and does not halt, on a ramdisk
with any bytes: the shell goes on, memory is untouched, and the globals are what the lines make of
them. -/
theorem calm_runShell (c : Console) (polls : List (Option U8))
    (h : ∀ input ∈ (typed polls).inputs, AtPrompt input) :
    Calm (c.afterLines · (typed polls).inputs) (c.shellCalls.runShell polls) := fun os ↦ by
  obtain ⟨line, len, -, hrun⟩ := c.shellCalls.runShell_eq polls
  have hsession : Calm (c.afterLines · (typed polls).inputs) (do
      c.shellCalls.process prompt
      c.shellCalls.effectsFrom .start polls
      return (line, len)) :=
    (calm_process _).seq fun _ ↦ (calm_effectsFrom [] [] polls h).andThen fun _ ↦ calm_pure _
  rw [hrun]
  exact hsession os

/-- How many of the lines are `syscall`. -/
def syscallLines (inputs : List String) : ℕ := inputs.countP (trimmed · = "syscall")

/-- On a machine as it is started, mounting again changes nothing. -/
theorem Console.remount_bootKernel (c : Console) (reader : Stdin) (mmapBase : U64) :
    c.remount { c.bootKernel reader with mmapBase := mmapBase } =
      { c.bootKernel reader with mmapBase := mmapBase } := by
  rw [remount, Machine.bootKernel]
  cases c.ramdisk with
  | none => rfl
  | some disk =>
    dsimp only
    split <;> rfl

theorem Console.afterLines_bootKernel (c : Console) (reader : Stdin) (inputs : List String)
    (mmapBase : U64) :
    c.afterLines { c.bootKernel reader with mmapBase := mmapBase } inputs =
      { c.bootKernel reader with
        mmapBase := mmapBase + BitVec.ofNat 64 (0x3000 * syscallLines inputs) } := by
  induction inputs generalizing mmapBase with
  | nil => simp [afterLines, syscallLines]
  | cons input inputs ih =>
    rw [afterLines, List.foldl_cons, ← afterLines, commandEffect, syscallLines, List.countP_cons]
    by_cases hramdisk : trimmed input = "ramdisk"
    · rw [if_pos hramdisk, remount_bootKernel, ih, syscallLines]
      simp [hramdisk]
    rw [if_neg hramdisk]
    by_cases hsyscall : trimmed input = "syscall"
    · have hadd : mmapBase + 0x3000 + BitVec.ofNat 64 (0x3000 * syscallLines inputs) =
          mmapBase + BitVec.ofNat 64 (0x3000 * (syscallLines inputs + 1)) := by
        rw [Nat.mul_succ, BitVec.ofNat_add]
        bv_omega
      rw [if_pos hsyscall, ih, hadd, syscallLines]
      simp [hsyscall]
    · rw [if_neg hsyscall, ih, syscallLines]
      simp [hsyscall]

end Sessions

/-! ## The heap -/

/-- `parse_elf64` of a file that is on the ramdisk. -/
def Console.elfImage (c : Console) (name : String) : Option ElfImage :=
  c.ramdisk.bind fun disk ↦ (Fs.open disk.bytes name).toOption.bind fun rec ↦
    (Elf.parseElf64 rec.data).toOption

/-- How many segments an `elf` line collects; other lines collect none. -/
def Console.segmentsOf (c : Console) (input : String) : ℕ :=
  ((elfTarget (trimmed input)).bind c.elfImage).elim 0 fun img ↦ img.segments.length

/-- `size_of::<LoadSegment>()`. -/
def segmentSize : ℕ := 40

/-- **The blocks that the shell asks for**, when the terminal is given bytes and when a line is
executed. -/
structure ShellBlocks (c : Console) where
  /-- Those for some bytes. -/
  process : Os → List U8 → List Layout
  /-- Those for a line. -/
  exec : Os → String → List Layout
  /-- The segments are in one of them. -/
  segments : ∀ os input, segmentSize * c.segmentsOf input ≤ ((exec os input).map Layout.size).sum

/-- The heap, as a supply of blocks: it is used up to an address. -/
def Region.supply (r : Region) : Supply Layout ℕ where
  take := r.allocAll
  take_nil _ := rfl
  take_append _ ws' _ := r.allocAll_append ws'

/-- The calls of the shell, where the blocks are taken from a supply. -/
def Console.callsOn {μ : Type} (c : Console) (a : ShellBlocks c) (S : Supply Layout μ) :
    ShellCalls Halted (Os × μ) where
  process bytes := asking S (a.process · bytes) (c.shellCalls.process bytes)
  exec input := asking S (a.exec · input) (c.shellCalls.exec input)

/-- **The blocks that a session asks for**, from a state on. -/
def Console.asked (c : Console) (a : ShellBlocks c) (os : Os) (polls : List (Option U8)) :
    List Layout :=
  (endState ((c.callsOn a (.list Layout)).runShell polls (os, []))).2

/-! ## A session on the heap -/

section Asks

variable {ε σ μ ω : Type} {S : Supply ω μ} {x : ShellCalls ε σ} {z : ShellCalls ε (σ × List ω)}
  {y : ShellCalls ε (σ × μ)}

/-- What the calls of the loop ask for is what it asks for: a byte. -/
theorem ShellCalls.onByte_asks
    (hprocess : ∀ bytes, Asks S (x.process bytes) (z.process bytes) (y.process bytes))
    (hexec : ∀ input, Asks S (x.exec input) (z.exec input) (y.exec input))
    (line : List U8) (len : ℕ) (byte : U8) :
    Asks S (x.onByte line len byte) (z.onByte line len byte) (y.onByte line len byte) := by
  rw [onByte, onByte, onByte]
  refine .ite ((hprocess _).bind fun _ ↦ (asks_lift _).bind fun bytes ↦ ?_) (.ite ?_ (.ite ?_ ?_))
  · cases Rust.fromUtf8 bytes with
    | some input => exact (hexec input).bind fun _ ↦ (hprocess _).bind fun _ ↦ asks_pure _
    | none => exact (hprocess _).bind fun _ ↦ (hprocess _).bind fun _ ↦ asks_pure _
  · exact .ite ((hprocess _).bind fun _ ↦ asks_pure _) (asks_pure _)
  · refine .ite ((asks_lift _).bind fun line ↦ ?_) (asks_pure _)
    exact (hprocess _).bind fun _ ↦ asks_pure _
  · exact asks_pure _

/-- The loop. -/
theorem ShellCalls.runShellFrom_asks
    (hprocess : ∀ bytes, Asks S (x.process bytes) (z.process bytes) (y.process bytes))
    (hexec : ∀ input, Asks S (x.exec input) (z.exec input) (y.exec input))
    (line : List U8) (len : ℕ) (polls : List (Option U8)) :
    Asks S (x.runShellFrom line len polls) (z.runShellFrom line len polls)
      (y.runShellFrom line len polls) := by
  induction polls generalizing line len with
  | nil => exact asks_pure _
  | cons poll polls ih =>
    cases poll with
    | none => exact ih line len
    | some byte => exact (onByte_asks hprocess hexec line len byte).bind fun r ↦ ih r.1 r.2

/-- The session. -/
theorem ShellCalls.runShell_asks
    (hprocess : ∀ bytes, Asks S (x.process bytes) (z.process bytes) (y.process bytes))
    (hexec : ∀ input, Asks S (x.exec input) (z.exec input) (y.exec input))
    (polls : List (Option U8)) :
    Asks S (x.runShell polls) (z.runShell polls) (y.runShell polls) := by
  rw [runShell, runShell, runShell]
  exact (hprocess prompt).bind fun _ ↦ runShellFrom_asks hprocess hexec _ 0 polls

end Asks

section Heap

variable {c : Console} {a : ShellBlocks c} {μ : Type} {S : Supply Layout μ}

theorem Console.callsOn_process (bytes : List U8) : (c.callsOn a S).process bytes =
    asking S (a.process · bytes) (c.shellCalls.process bytes) := rfl

theorem Console.callsOn_exec (input : String) : (c.callsOn a S).exec input =
    asking S (a.exec · input) (c.shellCalls.exec input) := rfl

theorem Console.callsOn_asks (polls : List (Option U8)) : Asks S (c.shellCalls.runShell polls)
    ((c.callsOn a (.list Layout)).runShell polls) ((c.callsOn a S).runShell polls) := by
  have hprocess (bytes : List U8) : Asks S (c.shellCalls.process bytes)
      ((c.callsOn a (.list Layout)).process bytes) ((c.callsOn a S).process bytes) :=
    asks_asking (a.process · bytes) _
  have hexec (input : String) : Asks S (c.shellCalls.exec input)
      ((c.callsOn a (.list Layout)).exec input) ((c.callsOn a S).exec input) :=
    asks_asking (a.exec · input) _
  exact ShellCalls.runShell_asks hprocess hexec polls

/-! ### The segments of `elf` -/

/-- The bytes of some blocks. -/
def bytesOf (blocks : List Layout) : ℕ := (blocks.map Layout.size).sum

/-- So many bytes at least are asked for. -/
def AsksBytes {α : Type} (n : ℕ) (x : RustM Halted (Os × List Layout) α) : Prop :=
  ∀ s a s', x s = .ok a s' → bytesOf s.2 + n ≤ bytesOf s'.2

section AsksBytes

variable {α β : Type} {m n : ℕ} {x : RustM Halted (Os × List Layout) α}
  {f : α → RustM Halted (Os × List Layout) β}

theorem asksBytes_pure (v : α) : AsksBytes 0 (pure v) := by
  intro s b s' h
  obtain ⟨-, rfl⟩ := pure_eq_ok.mp h
  exact le_rfl

theorem AsksBytes.bind (hx : AsksBytes m x) (hf : ∀ v, AsksBytes n (f v)) :
    AsksBytes (m + n) (x >>= f) := by
  intro s b s' h
  obtain ⟨v, s₁, hfirst, hrest⟩ := bind_eq_ok.mp h
  have hm := hx s v s₁ hfirst
  have hn := hf v s₁ b s' hrest
  omega

theorem asksBytes_asking {ask : Os → List Layout} {y : ShellM α} (h : ∀ os, n ≤ bytesOf (ask os)) :
    AsksBytes n (asking (.list Layout) ask y) := by
  intro s v s' hrun
  have hn := h s.1
  rw [asking] at hrun
  dsimp only [Supply.list, Option.elim] at hrun
  cases hy : y s.1 with
  | ok w os =>
    rw [hy] at hrun
    cases hrun
    simp only [bytesOf, List.map_append, List.sum_append] at hn ⊢
    omega
  | error e os =>
    rw [hy] at hrun
    cases hrun

end AsksBytes

/-- How many segments the lines of a session collect. -/
def Console.segmentsShown (c : Console) (inputs : List String) : ℕ :=
  (inputs.map c.segmentsOf).sum

theorem Console.asksBytes_process (a : ShellBlocks c) (bytes : List U8) :
    AsksBytes 0 ((c.callsOn a (.list Layout)).process bytes) := by
  rw [callsOn_process]
  exact asksBytes_asking fun _ ↦ Nat.zero_le _

/-- A line that ends asks for its segments. -/
theorem Console.asksBytes_lineEnd (a : ShellBlocks c) {held : List U8} {byte : U8}
    (hend : IsLineEnd byte) : AsksBytes (segmentSize * c.segmentsOf (asText held))
      ((c.callsOn a (.list Layout)).effects held byte) := by
  have hexec : AsksBytes (segmentSize * c.segmentsOf (asText held))
      ((c.callsOn a (.list Layout)).exec (asText held)) := by
    rw [callsOn_exec]
    exact asksBytes_asking fun os ↦ a.segments os _
  have hall := (asksBytes_process a (Rust.asBytes "\n")).bind fun _ ↦ hexec.bind fun _ ↦
    asksBytes_process a prompt
  rw [Nat.zero_add, Nat.add_zero] at hall
  rw [ShellCalls.effects, if_pos hend]
  exact hall

/-- Any other byte asks for something. -/
theorem Console.asksBytes_edit (a : ShellBlocks c) {held : List U8} {byte : U8}
    (hend : ¬IsLineEnd byte) : AsksBytes 0 ((c.callsOn a (.list Layout)).effects held byte) := by
  rw [ShellCalls.effects, if_neg hend]
  split_ifs
  · exact asksBytes_pure ()
  · exact asksBytes_process a _
  · exact asksBytes_process a _
  · exact asksBytes_pure ()
  · exact asksBytes_pure ()

theorem Console.asksBytes_effectsFrom (a : ShellBlocks c) (lines : List (List U8)) (held : List U8)
    (polls : List (Option U8)) :
    AsksBytes (segmentSize * c.segmentsShown (polls.foldl Typed.poll ⟨[], held⟩).inputs)
      ((c.callsOn a (.list Layout)).effectsFrom ⟨lines, held⟩ polls) := by
  induction polls generalizing lines held with
  | nil => exact asksBytes_pure ()
  | cons poll polls ih =>
    cases poll with
    | none => exact ih lines held
    | some byte =>
      rw [ShellCalls.effectsFrom]
      rw [List.foldl_cons, Typed.poll]
      by_cases hend : IsLineEnd byte
      · rw [if_pos hend, List.nil_append, foldl_poll, List.map_singleton, List.singleton_append,
          segmentsShown, List.map_cons, List.sum_cons, ← segmentsShown, Nat.mul_add]
        rw [Typed.poll, if_pos hend]
        exact (asksBytes_lineEnd a hend).bind fun _ ↦ ih _ _
      · rw [if_neg hend, ← Nat.zero_add (segmentSize * _)]
        rw [Typed.poll, if_neg hend]
        exact (asksBytes_edit a hend).bind fun _ ↦ ih _ _

theorem Console.asksBytes_runShell (a : ShellBlocks c) (polls : List (Option U8)) :
    AsksBytes (segmentSize * c.segmentsShown (typed polls).inputs)
      ((c.callsOn a (.list Layout)).runShell polls) := by
  obtain ⟨line, len, -, hrun⟩ := (c.callsOn a (.list Layout)).runShell_eq polls
  have hall := (asksBytes_process a prompt).bind fun _ ↦
    (asksBytes_effectsFrom a [] [] polls).bind fun _ ↦ asksBytes_pure (line, len)
  rw [Nat.zero_add, Nat.add_zero] at hall
  rw [hrun]
  exact hall

/-- **What a session asks for decides** whether it goes on. -/
theorem Console.asked_decides {polls : List (Option U8)} {os os' : Os} {v : List U8 × ℕ} (r : Region)
    (a : ShellBlocks c) (hrun : c.shellCalls.runShell polls os = .ok v os') (next : ℕ) :
    (r.allocAll (c.asked a os polls) next = none →
      Panics ((c.callsOn a r.supply).runShell polls) (os, next)) ∧
    ∀ next', r.allocAll (c.asked a os polls) next = some next' →
      next + segmentSize * c.segmentsShown (typed polls).inputs ≤ next' ∧
      (c.callsOn a r.supply).runShell polls (os, next) = .ok v (os', next') := by
  obtain ⟨blocks, hlist, hsupply⟩ := callsOn_asks (a := a) (S := r.supply) polls os v os' hrun
  have hasked : c.asked a os polls = blocks := by
    rw [asked, hlist []]
    rfl
  rw [hasked]
  refine ⟨(hsupply next).1, fun next' htake ↦ ⟨?_, (hsupply next).2 next' htake⟩⟩
  have hsegments := asksBytes_runShell a polls _ v _ (hlist [])
  have hspent := (Region.allocAll_spent htake).1
  simp only [bytesOf, List.nil_append, List.map_nil, List.sum_nil] at hsegments
  omega

end Heap

/-! ## From boot -/

theorem Console.exists_boot (c : Console) (reader : Stdin) (ram : ℕ → U8)
    (polls : List (Option U8)) (h : ∀ input ∈ (typed polls).inputs, AtPrompt input) :
    ∃ r text, c.shellCalls.runShell polls (c.boot reader ram).os = .ok r ⟨⟨{ c.bootKernel reader with
      mmapBase := 0x70000000 + BitVec.ofNat 64 (0x3000 * syscallLines (typed polls).inputs) },
      ram, []⟩, text⟩ := by
  have hbase : c.bootKernel reader = { c.bootKernel reader with mmapBase := 0x70000000 } := by
    rw [Machine.bootKernel]
    cases c.ramdisk with
    | none => rfl
    | some disk =>
      dsimp only
      split <;> rfl
  have hafter := c.afterLines_bootKernel reader (typed polls).inputs 0x70000000
  rw [← hbase] at hafter
  obtain ⟨r, text, hrun⟩ := calm_runShell c polls h (c.boot reader ram).os
  have hkernel : (c.boot reader ram).os.world.kernel = c.bootKernel reader := rfl
  rw [hkernel] at hrun
  dsimp only at hrun
  rw [hafter] at hrun
  exact ⟨r, text, hrun⟩

/-- **Booting, and a session at the prompt.**  Whatever is on the ramdisk and whatever is typed, as
long as no line runs a file or halts: the shell goes on as long as the heap has the blocks that it
asks for, and no longer.

Where it goes on, the machine is as it was when the shell was started: the one trace that commands
leave in the globals is that each `syscall` has moved the cursor of `mmap` by three pages, and the
one that they leave on the heap is that so much of it is gone, among it the segments of each line of
`elf`. -/
theorem session_from_boot (c : Console) (reader : Stdin) (ram : ℕ → U8) (polls : List (Option U8))
    (h : ∀ input ∈ (typed polls).inputs, AtPrompt input) (a : ShellBlocks c) (r : Region)
    (next : ℕ) :
    (r.allocAll (c.asked a (c.boot reader ram).os polls) next = none →
      Panics ((c.callsOn a r.supply).runShell polls) ((c.boot reader ram).os, next)) ∧
    ∀ next', r.allocAll (c.asked a (c.boot reader ram).os polls) next = some next' →
      next + segmentSize * c.segmentsShown (typed polls).inputs ≤ next' ∧
      ∃ v text, (c.callsOn a r.supply).runShell polls ((c.boot reader ram).os, next) =
        .ok v (⟨⟨{ c.bootKernel reader with
          mmapBase := 0x70000000 + BitVec.ofNat 64 (0x3000 * syscallLines (typed polls).inputs) },
          ram, []⟩, text⟩, next') := by
  obtain ⟨v, text, hrun⟩ := c.exists_boot reader ram polls h
  obtain ⟨hstops, hgoes⟩ := Console.asked_decides r a hrun next
  refine ⟨hstops, fun next' htake ↦ ?_⟩
  obtain ⟨hsegments, hrun'⟩ := hgoes next' htake
  exact ⟨hsegments, v, text, hrun'⟩

/-- **Lines of `elf` use the heap up**: with more segments than fit, all lines together, the session
does not go on. -/
theorem session_runs_out (c : Console) (reader : Stdin) (ram : ℕ → U8) (polls : List (Option U8))
    (h : ∀ input ∈ (typed polls).inputs, AtPrompt input) (a : ShellBlocks c) (r : Region)
    {next : ℕ} (hnext : next ≤ r.stop)
    (hmany : r.stop < next + segmentSize * c.segmentsShown (typed polls).inputs) :
    Panics ((c.callsOn a r.supply).runShell polls) ((c.boot reader ram).os, next) := by
  obtain ⟨v, text, hrun⟩ := c.exists_boot reader ram polls h
  obtain ⟨hstops, hgoes⟩ := Console.asked_decides r a hrun next
  cases htake : r.allocAll (c.asked a (c.boot reader ram).os polls) next with
  | none => exact hstops htake
  | some next' =>
    have hsegments := (hgoes next' htake).1
    have hstop := (Region.allocAll_spent htake).2 hnext
    omega

/-- One `syscall`, typed. -/
def syscallLine : List (Option U8) := (Rust.asBytes "syscall\n").map some

/-- A vector for each line, and nothing for the terminal. -/
def lineBlocks : ShellBlocks bareConsole where
  process _ _ := []
  exec _ _ := [vectorLayout]
  segments _ input := by
    have hnone : bareConsole.elfImage = fun _ ↦ none := rfl
    rw [Console.segmentsOf, hnone]
    cases elfTarget (trimmed input) <;> exact Nat.zero_le _

theorem session_from_boot_syscall :
    (someRegion.allocAll (bareConsole.asked lineBlocks (bareConsole.boot heldKey fun _ ↦ 0).os
        syscallLine) 0x200000 = none →
      Panics ((bareConsole.callsOn lineBlocks someRegion.supply).runShell syscallLine)
        ((bareConsole.boot heldKey fun _ ↦ 0).os, 0x200000)) ∧
    ∀ next', someRegion.allocAll (bareConsole.asked lineBlocks
        (bareConsole.boot heldKey fun _ ↦ 0).os syscallLine) 0x200000 = some next' →
      0x200000 + segmentSize * bareConsole.segmentsShown (typed syscallLine).inputs ≤ next' ∧
      ∃ v text, (bareConsole.callsOn lineBlocks someRegion.supply).runShell syscallLine
          ((bareConsole.boot heldKey fun _ ↦ 0).os, 0x200000) =
        .ok v (⟨⟨{ bareConsole.bootKernel heldKey with
          mmapBase := 0x70000000 +
            BitVec.ofNat 64 (0x3000 * syscallLines (typed syscallLine).inputs) },
          fun _ ↦ 0, []⟩, text⟩, next') :=
  session_from_boot bareConsole heldKey (fun _ ↦ 0) syscallLine (by decide +kernel) lineBlocks
    someRegion 0x200000

end LeonOS
