import LeonOS.Shell.Commands
import LeonOS.Lib.Log

/-!
# The line editor of the shell

`run_shell` of `kernel/src/shell.rs`.  It collects a line in an array of 256 bytes with a separate
length, and the array is not cleared in between.

`edit` says what a byte does to a list, and `Typed` splits a stream at its line ends that way.  The
loop does what it does because of that list alone (`runShellFrom_eq`): where its array is longer,
nothing is seen of the rest.  So it calls `exec_command` with the lines that were typed, and with
nothing else (`runShell_calls`).
-/

set_option autoImplicit false

namespace LeonOS

open RustM

/-! ## The loop -/

variable {ε σ : Type}

/-- What the loop calls: it is generic in both. -/
structure ShellCalls (ε σ : Type) where
  /-- `terminal.process`. -/
  process : List U8 → RustM ε σ Unit
  /-- `exec_command`. -/
  exec : String → RustM ε σ Unit

/-- `b'\r' | b'\n'`. -/
def IsLineEnd (byte : U8) : Prop := byte = 0x0D ∨ byte = 0x0A

/-- `8 | 127`. -/
def IsErase (byte : U8) : Prop := byte = 8 ∨ byte = 127

/-- `0x20..=0x7e`. -/
def IsPrintable (byte : U8) : Prop := 0x20 ≤ byte ∧ byte ≤ 0x7E

instance : DecidablePred IsLineEnd := fun byte ↦ inferInstanceAs (Decidable (byte = 0x0D ∨ _))

instance : DecidablePred IsErase := fun byte ↦ inferInstanceAs (Decidable (byte = 8 ∨ _))

instance : DecidablePred IsPrintable := fun byte ↦ inferInstanceAs (Decidable (0x20 ≤ byte ∧ _))

/-- `line.len()`. -/
def lineSize : ℕ := 256

/-- The prompt. -/
def prompt : List U8 := Rust.asBytes "leon> "

namespace ShellCalls

variable (calls : ShellCalls ε σ)

/-- The body of the loop, for a byte that was read: `line` and `len` after it. -/
def onByte (line : List U8) (len : ℕ) (byte : U8) : RustM ε σ (List U8 × ℕ) :=
  if IsLineEnd byte then do
    calls.process (Rust.asBytes "\n")
    match Rust.fromUtf8 (← lift (Rust.range line 0 len)) with
    | some input => calls.exec input
    | none => calls.process (Rust.asBytes "invalid utf-8 input\n")
    calls.process prompt
    return (line, 0)
  else if IsErase byte then
    if len > 0 then do
      calls.process (Rust.asBytes "\x08 \x08")
      return (line, len - 1)
    else return (line, len)
  else if IsPrintable byte then
    if len < line.length then do
      let line ← lift (Rust.setIndex line len byte)
      calls.process [byte]
      return (line, len + 1)
    else return (line, len)
  else return (line, len)

/-- The loop, over what `read_input` returns. -/
def runShellFrom (line : List U8) (len : ℕ) : List (Option U8) → RustM ε σ (List U8 × ℕ)
  | [] => return (line, len)
  | none :: polls => runShellFrom line len polls
  | some byte :: polls => do
    let (line, len) ← calls.onByte line len byte
    runShellFrom line len polls

/-- `run_shell`, until it has polled that often. -/
def runShell (polls : List (Option U8)) : RustM ε σ (List U8 × ℕ) := do
  calls.process prompt
  calls.runShellFrom (List.replicate lineSize 0) 0 polls

end ShellCalls

/-! ## Typing -/

/-- What a byte does to the list of the bytes held. -/
def edit (held : List U8) (byte : U8) : List U8 :=
  if IsPrintable byte then if held.length < lineSize then held ++ [byte] else held
  else if IsErase byte then held.dropLast
  else held

/-- A stream, split at its line ends. -/
structure Typed where
  /-- The lines that have ended. -/
  lines : List (List U8)
  /-- The bytes held since. -/
  held : List U8

/-- Nothing was typed. -/
def Typed.start : Typed := ⟨[], []⟩

/-- What a poll does. -/
def Typed.poll (t : Typed) : Option U8 → Typed
  | none => t
  | some byte =>
    if IsLineEnd byte then ⟨t.lines ++ [t.held], []⟩ else ⟨t.lines, edit t.held byte⟩

/-- **What is typed** by a stream. -/
def typed (polls : List (Option U8)) : Typed := polls.foldl Typed.poll .start

/-- Printable bytes as a string. -/
def asText (bytes : List U8) : String := String.ofList (bytes.map fun b ↦ Char.ofNat b.toNat)

/-! ### Printable bytes -/

theorem asBytes_asText {bytes : List U8} (h : ∀ b ∈ bytes, b.toNat < 128) :
    Rust.asBytes (asText bytes) = bytes := Rust.asBytes_ofList_ascii h

theorem fromUtf8_asText {bytes : List U8} (h : ∀ b ∈ bytes, IsPrintable b) :
    Rust.fromUtf8 bytes = some (asText bytes) := by
  have hascii : ∀ b ∈ bytes, b.toNat < 128 := fun b hb ↦ by
    have hle : b ≤ 0x7E := (h b hb).2
    rw [BitVec.le_def] at hle
    exact hle.trans_lt (by decide)
  rw [← Rust.fromUtf8_asBytes, asBytes_asText hascii]

/-! ## The array holds the list -/

variable {calls : ShellCalls ε σ} {line : List U8} {len : ℕ} {t : Typed} {byte : U8}

/-- **The front of the array** is the list. -/
structure Holds (line : List U8) (len : ℕ) (held : List U8) : Prop where
  /-- The array has its size. -/
  length_eq : line.length = lineSize
  /-- The front is not longer. -/
  le : len ≤ lineSize
  /-- It is the list. -/
  take_eq : line.take len = held
  /-- There are only printable bytes in it. -/
  printable : ∀ b ∈ held, IsPrintable b

namespace Holds

variable {held : List U8}

theorem length_held (h : Holds line len held) : held.length = len := by
  rw [← h.take_eq, List.length_take, h.length_eq]
  exact min_eq_left h.le

/-- The empty line. -/
theorem nil (h : line.length = lineSize) : Holds line 0 [] := ⟨h, Nat.zero_le _, rfl, nofun⟩

/-- A byte is typed behind the front, over whatever is there. -/
theorem push (h : Holds line len held) (hlt : len < lineSize) (hbyte : IsPrintable byte) :
    Holds (Bytes.overwrite line len [byte]) (len + 1) (held ++ [byte]) where
  length_eq := (Bytes.length_overwrite (by
    rw [h.length_eq, List.length_singleton]
    exact hlt)).trans h.length_eq
  le := hlt
  take_eq := by
    have hlen : len + 1 = (line.take len ++ [byte]).length := by
      rw [h.take_eq, List.length_append, h.length_held, List.length_singleton]
    rw [Bytes.overwrite, hlen, List.take_left, h.take_eq]
  printable b hb := by
    obtain hb | hb := List.mem_append.mp hb
    · exact h.printable b hb
    · exact List.mem_singleton.mp hb ▸ hbyte

/-- The last byte is erased: it stays in the array, behind the front. -/
theorem pop (h : Holds line len held) : Holds line (len - 1) held.dropLast where
  length_eq := h.length_eq
  le := (Nat.sub_le len 1).trans h.le
  take_eq := by
    rw [List.dropLast_eq_take, h.length_held, ← h.take_eq, List.take_take,
      min_eq_left (Nat.sub_le len 1)]
  printable b hb := h.printable b (List.dropLast_subset _ hb)

end Holds

/-- What is called for a byte, as far as the list tells. -/
def ShellCalls.effects (calls : ShellCalls ε σ) (held : List U8) (byte : U8) : RustM ε σ Unit :=
  if IsLineEnd byte then do
    calls.process (Rust.asBytes "\n")
    calls.exec (asText held)
    calls.process prompt
  else if IsErase byte then
    if held = [] then return else calls.process (Rust.asBytes "\x08 \x08")
  else if IsPrintable byte then
    if held.length < lineSize then calls.process [byte] else return
  else return

/-- What is called for a stream. -/
def ShellCalls.effectsFrom (calls : ShellCalls ε σ) (t : Typed) :
    List (Option U8) → RustM ε σ Unit
  | [] => return
  | none :: polls => calls.effectsFrom t polls
  | some byte :: polls => do
    calls.effects t.held byte
    calls.effectsFrom (t.poll (some byte)) polls

/-! ### One byte -/

theorem IsPrintable.not_lineEnd (h : IsPrintable byte) : ¬IsLineEnd byte := by
  rintro (rfl | rfl) <;> exact absurd h (by decide)

theorem IsPrintable.not_erase (h : IsPrintable byte) : ¬IsErase byte := by
  rintro (rfl | rfl) <;> exact absurd h (by decide)

namespace Holds

variable {held : List U8}

/-- A line has ended: the front is handed over as a string. -/
theorem onByte_lineEnd (h : Holds line len held) (hend : IsLineEnd byte) :
    calls.onByte line len byte = do calls.effects held byte; return (line, 0) := by
  have hrange : (Rust.range line 0 len : Rust ε (List U8)) = .ok held := by
    rw [Rust.range_eq_ok, h.length_eq, Bytes.slice, ← h.take_eq]
    exact ⟨⟨Nat.zero_le len, h.le⟩, rfl⟩
  have hlift : (lift (.ok held) : RustM ε σ (List U8)) = pure held := rfl
  rw [ShellCalls.onByte, ShellCalls.effects, if_pos hend, if_pos hend]
  simp only [hrange, hlift, pure_bind, fromUtf8_asText h.printable, bind_assoc]

/-- A byte is erased, if there is one. -/
theorem onByte_erase (h : Holds line len held) (hend : ¬IsLineEnd byte) (herase : IsErase byte) :
    calls.onByte line len byte = do calls.effects held byte; return (line, len - 1) := by
  rw [ShellCalls.onByte, ShellCalls.effects, if_neg hend, if_neg hend, if_pos herase,
    if_pos herase]
  by_cases hlen : len > 0
  · have hne : held ≠ [] := List.ne_nil_of_length_pos (h.length_held.symm ▸ hlen)
    rw [if_pos hlen, if_neg hne]
  · have hzero : len = 0 := Nat.eq_zero_of_not_pos hlen
    have hnil : held = [] := List.length_eq_zero_iff.mp (h.length_held.trans hzero)
    rw [if_neg hlen, if_pos hnil, hzero, pure_bind]

/-- A byte is typed where there is room for it. -/
theorem onByte_push (h : Holds line len held) (hbyte : IsPrintable byte) (hlt : len < lineSize) :
    calls.onByte line len byte = do
      calls.effects held byte
      return (Bytes.overwrite line len [byte], len + 1) := by
  have hset : (Rust.setIndex line len byte : Rust ε (List U8)) =
      .ok (Bytes.overwrite line len [byte]) := by
    rw [Rust.setIndex_eq_ok, h.length_eq]
    exact ⟨hlt, rfl⟩
  rw [ShellCalls.onByte, ShellCalls.effects, if_neg hbyte.not_lineEnd, if_neg hbyte.not_lineEnd,
    if_neg hbyte.not_erase, if_neg hbyte.not_erase, if_pos hbyte, if_pos hbyte, h.length_held,
    h.length_eq, if_pos hlt, if_pos hlt, hset]
  rfl

/-- Where there is none it is lost. -/
theorem onByte_full (h : Holds line len held) (hbyte : IsPrintable byte) (hfull : ¬len < lineSize) :
    calls.onByte line len byte = do calls.effects held byte; return (line, len) := by
  rw [ShellCalls.onByte, ShellCalls.effects, if_neg hbyte.not_lineEnd, if_neg hbyte.not_lineEnd,
    if_neg hbyte.not_erase, if_neg hbyte.not_erase, if_pos hbyte, if_pos hbyte, h.length_held,
    h.length_eq, if_neg hfull, if_neg hfull, pure_bind]

end Holds

/-- Any other byte is passed over. -/
theorem ShellCalls.onByte_other (held : List U8) (hend : ¬IsLineEnd byte) (herase : ¬IsErase byte)
    (hbyte : ¬IsPrintable byte) :
    calls.onByte line len byte = do calls.effects held byte; return (line, len) := by
  rw [onByte, effects, if_neg hend, if_neg hend, if_neg herase, if_neg herase, if_neg hbyte,
    if_neg hbyte, pure_bind]

/-- **One byte** does to the array what it does to the list, and what is called for it depends on
the list only. -/
theorem ShellCalls.onByte_eq (calls : ShellCalls ε σ) (h : Holds line len t.held) (byte : U8) :
    ∃ line' len', Holds line' len' (t.poll (some byte)).held ∧
      calls.onByte line len byte = do calls.effects t.held byte; return (line', len') := by
  by_cases hend : IsLineEnd byte
  · refine ⟨line, 0, ?_, h.onByte_lineEnd hend⟩
    rw [Typed.poll, if_pos hend]
    exact .nil h.length_eq
  rw [Typed.poll, if_neg hend, edit]
  by_cases hbyte : IsPrintable byte
  · rw [if_pos hbyte, h.length_held]
    by_cases hlt : len < lineSize
    · rw [if_pos hlt]
      exact ⟨_, _, h.push hlt hbyte, h.onByte_push hbyte hlt⟩
    · rw [if_neg hlt]
      exact ⟨line, len, h, h.onByte_full hbyte hlt⟩
  rw [if_neg hbyte]
  by_cases herase : IsErase byte
  · rw [if_pos herase]
    exact ⟨line, len - 1, h.pop, h.onByte_erase hend herase⟩
  · rw [if_neg herase]
    exact ⟨line, len, h, onByte_other t.held hend herase hbyte⟩

/-- **The loop** does to the array what the stream does to the list, and calls what it calls because
of the list only. -/
theorem ShellCalls.runShellFrom_eq (calls : ShellCalls ε σ) (h : Holds line len t.held)
    (polls : List (Option U8)) : ∃ line' len', Holds line' len' (polls.foldl Typed.poll t).held ∧
      calls.runShellFrom line len polls = do calls.effectsFrom t polls; return (line', len') := by
  induction polls generalizing line len t with
  | nil => exact ⟨line, len, h, rfl⟩
  | cons poll polls ih =>
    cases poll with
    | none => exact ih h
    | some byte =>
      obtain ⟨line₁, len₁, h₁, hbyte⟩ := calls.onByte_eq h byte
      obtain ⟨line', len', h', hrest⟩ := ih h₁
      refine ⟨line', len', h', ?_⟩
      rw [runShellFrom, effectsFrom, hbyte]
      simp only [bind_assoc, pure_bind, hrest]

/-- What the shell has called, and what it holds. -/
theorem ShellCalls.runShell_eq (calls : ShellCalls ε σ) (polls : List (Option U8)) :
    ∃ line len, Holds line len (typed polls).held ∧ calls.runShell polls = do
      calls.process prompt
      calls.effectsFrom .start polls
      return (line, len) := by
  obtain ⟨line, len, h, hrun⟩ := calls.runShellFrom_eq (t := .start)
    (Holds.nil List.length_replicate) polls
  exact ⟨line, len, h, by rw [runShell, hrun]⟩

/-! ## A log of calls -/

/-- The same calls, with those of `exec_command` written down. -/
def ShellCalls.logged (calls : ShellCalls ε σ) : ShellCalls ε (σ × List String) where
  process bytes := noting [] (calls.process bytes)
  exec input := noting [input] (calls.exec input)

/-- The lines that have ended, as strings. -/
def Typed.inputs (t : Typed) : List String := t.lines.map asText

theorem foldl_poll (lines : List (List U8)) (held : List U8) (polls : List (Option U8)) :
    (polls.foldl Typed.poll ⟨lines, held⟩).inputs =
      lines.map asText ++ (polls.foldl Typed.poll ⟨[], held⟩).inputs := by
  induction polls generalizing lines held with
  | nil => simp [Typed.inputs]
  | cons poll polls ih =>
    cases poll with
    | none => exact ih lines held
    | some byte =>
      rw [List.foldl_cons, List.foldl_cons, Typed.poll, Typed.poll]
      by_cases hend : IsLineEnd byte
      · rw [if_pos hend, if_pos hend, ih, ih ([] ++ [held]), List.map_append,
          List.nil_append, List.append_assoc]
      · rw [if_neg hend, if_neg hend, ih]

/-- A byte ends a line, or nothing is executed. -/
theorem ShellCalls.notes_effects (calls : ShellCalls ε σ) (held : List U8) (byte : U8) :
    Notes (calls.logged.effects held byte) (Typed.poll ⟨[], held⟩ (some byte)).inputs := by
  have hprocess (bytes : List U8) : Notes (calls.logged.process bytes) [] := notes_noting _ _
  rw [effects, Typed.poll]
  split
  · exact (hprocess _).bind fun _ ↦ (notes_noting [asText held] _).bind fun _ ↦ hprocess _
  · repeat' split
    all_goals first | exact hprocess _ | exact notes_pure _

theorem ShellCalls.notes_effectsFrom (calls : ShellCalls ε σ) (t : Typed)
    (polls : List (Option U8)) : Notes (calls.logged.effectsFrom t polls)
      (polls.foldl Typed.poll ⟨[], t.held⟩).inputs := by
  induction polls generalizing t with
  | nil => exact notes_pure ()
  | cons poll polls ih =>
    cases poll with
    | none => exact ih t
    | some byte =>
      have hpoll : (Typed.poll ⟨[], t.held⟩ (some byte)).held = (t.poll (some byte)).held := by
        rw [Typed.poll, Typed.poll]
        split <;> rfl
      rw [List.foldl_cons, foldl_poll, hpoll]
      exact (calls.notes_effects t.held byte).bind fun _ ↦ ih _

theorem ShellCalls.notes_runShell (calls : ShellCalls ε σ) (polls : List (Option U8)) :
    Notes (calls.logged.runShell polls) (typed polls).inputs := by
  obtain ⟨line, len, -, hrun⟩ := calls.logged.runShell_eq polls
  have hnotes := (notes_noting [] (calls.process prompt)).bind fun _ ↦
    (calls.notes_effectsFrom .start polls).bind fun _ ↦ notes_pure (line, len)
  rw [List.nil_append, List.append_nil] at hnotes
  rw [hrun]
  exact hnotes

/-- The log is one of the calls that the shell makes. -/
theorem ShellCalls.annotates_runShell (calls : ShellCalls ε σ) (polls : List (Option U8)) :
    Annotates (calls.logged.runShell polls) (calls.runShell polls) := by
  have hprocess (bytes : List U8) : Annotates (calls.logged.process bytes) (calls.process bytes) :=
    annotates_noting _ _
  have hbyte (line : List U8) (len : ℕ) (byte : U8) :
      Annotates (calls.logged.onByte line len byte) (calls.onByte line len byte) := by
    rw [onByte, onByte]
    split_ifs
    · refine (hprocess _).bind fun _ ↦ (annotates_lift _).bind fun bytes ↦ ?_
      have hend : Annotates (do calls.logged.process prompt; return (line, 0))
          (do calls.process prompt; return (line, 0)) :=
        (hprocess _).bind fun _ ↦ annotates_pure _
      cases Rust.fromUtf8 bytes with
      | some input => exact (annotates_noting _ _).bind fun _ ↦ hend
      | none => exact (hprocess _).bind fun _ ↦ hend
    · exact (hprocess _).bind fun _ ↦ annotates_pure _
    · exact annotates_pure _
    · exact (annotates_lift _).bind fun _ ↦ (hprocess _).bind fun _ ↦ annotates_pure _
    · exact annotates_pure _
    · exact annotates_pure _
  refine (hprocess _).bind fun _ ↦ ?_
  generalize List.replicate lineSize (0 : U8) = line, 0 = len
  induction polls generalizing line len with
  | nil => exact annotates_pure _
  | cons poll polls ih =>
    cases poll with
    | none => exact ih line len
    | some byte => exact (hbyte line len byte).bind fun r ↦ ih r.1 r.2

/-! ## The shell executes lines -/

/-- All calls return. -/
structure ShellCalls.Return (calls : ShellCalls ε σ) : Prop where
  /-- `terminal.process`. -/
  process : ∀ bytes s, ∃ s', calls.process bytes s = .ok () s'
  /-- `exec_command`. -/
  exec : ∀ input s, ∃ s', calls.exec input s = .ok () s'

/-- Then the shell goes on. -/
theorem ShellCalls.Return.effectsFrom (h : calls.Return) (t : Typed) (polls : List (Option U8))
    (s : σ) : ∃ s', calls.effectsFrom t polls s = .ok () s' := by
  have heffects (held : List U8) (byte : U8) (s : σ) :
      ∃ s', calls.effects held byte s = .ok () s' := by
    rw [effects]
    split_ifs
    · obtain ⟨s₁, h₁⟩ := h.process (Rust.asBytes "\n") s
      obtain ⟨s₂, h₂⟩ := h.exec (asText held) s₁
      obtain ⟨s₃, h₃⟩ := h.process prompt s₂
      exact ⟨s₃, bind_eq_ok.mpr ⟨(), s₁, h₁, bind_eq_ok.mpr ⟨(), s₂, h₂, h₃⟩⟩⟩
    all_goals first | exact h.process _ s | exact ⟨s, rfl⟩
  induction polls generalizing t s with
  | nil => exact ⟨s, rfl⟩
  | cons poll polls ih =>
    cases poll with
    | none => exact ih t s
    | some byte =>
      obtain ⟨s₁, h₁⟩ := heffects t.held byte s
      obtain ⟨s', hrest⟩ := ih (t.poll (some byte)) s₁
      exact ⟨s', bind_eq_ok.mpr ⟨(), s₁, h₁, hrest⟩⟩

theorem ShellCalls.Return.runShell (h : calls.Return) (polls : List (Option U8)) (s : σ) :
    ∃ r s', calls.runShell polls s = .ok r s' := by
  obtain ⟨line, len, -, hrun⟩ := calls.runShell_eq polls
  obtain ⟨s₁, h₁⟩ := h.process prompt s
  obtain ⟨s', h'⟩ := h.effectsFrom .start polls s₁
  rw [hrun]
  exact ⟨_, s', bind_eq_ok.mpr ⟨(), s₁, h₁, bind_eq_ok.mpr ⟨(), s', h', rfl⟩⟩⟩

/-- How many bytes of a stream end a line. -/
def lineEnds (polls : List (Option U8)) : ℕ := (polls.filterMap id).countP (IsLineEnd ·)

/-- There is one line for each byte that ends one. -/
theorem length_lines_foldl (t : Typed) (polls : List (Option U8)) :
    (polls.foldl Typed.poll t).lines.length = t.lines.length + lineEnds polls := by
  induction polls generalizing t with
  | nil => rfl
  | cons poll polls ih =>
    rw [List.foldl_cons, ih, lineEnds, lineEnds]
    cases poll with
    | none => rfl
    | some byte =>
      have hcons : (some byte :: polls).filterMap id = byte :: polls.filterMap id := rfl
      rw [Typed.poll, hcons, List.countP_cons]
      by_cases hend : IsLineEnd byte
      · simp only [hend, if_true, List.length_append, List.length_singleton, decide_true]
        omega
      · simp [hend]

/-- **The shell executes the lines that are typed**, each of them once and in their order, whatever
its calls do.  It stops nowhere but in a call, and what it holds is the line: a string at every
moment. -/
theorem runShell_calls (calls : ShellCalls ε σ) (polls : List (Option U8)) (s : σ) :
    (withoutNotes (calls.logged.runShell polls (s, [])) = calls.runShell polls s) ∧
    (∀ line len s', calls.logged.runShell polls (s, []) = .ok (line, len) s' →
      s'.2 = (typed polls).inputs ∧ len ≤ 256 ∧ line.take len = (typed polls).held ∧
        Rust.fromUtf8 (line.take len) = some (asText (typed polls).held)) ∧
    (∀ e s', calls.logged.runShell polls (s, []) = .error e s' →
      s'.2 <+: (typed polls).inputs) ∧
    (calls.Return → ∃ r s', calls.runShell polls s = .ok r s') ∧
    (typed polls).inputs.length = lineEnds polls := by
  have hnotes := calls.notes_runShell polls (s, [])
  obtain ⟨line₀, len₀, hholds, hrun⟩ := calls.logged.runShell_eq polls
  refine ⟨calls.annotates_runShell polls (s, []), ?_, ?_, fun h ↦ h.runShell polls s, ?_⟩
  · intro line len s' hok
    rw [hok] at hnotes
    rw [hrun] at hok
    obtain ⟨_, s₁, -, hrest⟩ := bind_eq_ok.mp hok
    obtain ⟨_, s₂, -, hpure⟩ := bind_eq_ok.mp hrest
    obtain ⟨heq, -⟩ := pure_eq_ok.mp hpure
    obtain ⟨rfl, rfl⟩ := Prod.mk.inj heq
    refine ⟨hnotes, hholds.le, hholds.take_eq, ?_⟩
    rw [hholds.take_eq]
    exact fromUtf8_asText hholds.printable
  · intro e s' herror
    rw [herror] at hnotes
    obtain ⟨ws, hpre, heq⟩ := hnotes
    rw [heq]
    exact hpre
  · rw [Typed.inputs, List.length_map, typed, length_lines_foldl]
    exact Nat.zero_add _

/-! ## The shell of the kernel -/

section Kernel

variable {c : Console} {bytes : List U8}

/-- What the kernel runs its shell with. -/
def Console.shellCalls (c : Console) : ShellCalls Halted Os where
  process := Console.process
  exec := execCommand c.handleCustomCommand

@[simp] theorem Console.shellCalls_process : c.shellCalls.process = Console.process := rfl

@[simp] theorem Console.shellCalls_exec :
    c.shellCalls.exec = execCommand c.handleCustomCommand := rfl

/-- Text that is typed is echoed. -/
theorem Console.effectsFrom_printable (lines : List (List U8)) (held : List U8) (os : Os)
    (h : ∀ b ∈ bytes, IsPrintable b) (hlen : held.length + bytes.length ≤ lineSize)
    (polls : List (Option U8)) :
    c.shellCalls.effectsFrom ⟨lines, held⟩ (bytes.map some ++ polls) os =
      c.shellCalls.effectsFrom ⟨lines, held ++ bytes⟩ polls
        ⟨os.world, os.screen ++ bytes⟩ := by
  induction bytes generalizing held os with
  | nil => simp
  | cons b bytes ih =>
    obtain ⟨hb, htail⟩ := List.forall_mem_cons.mp h
    rw [List.length_cons] at hlen
    have hroom : held.length < lineSize := by omega
    have hpoll : Typed.poll ⟨lines, held⟩ (some b) = ⟨lines, held ++ [b]⟩ := by
      rw [Typed.poll, if_neg hb.not_lineEnd, edit, if_pos hb, if_pos hroom]
    have heffects : c.shellCalls.effects held b = Console.process [b] := by
      rw [ShellCalls.effects, if_neg hb.not_lineEnd, if_neg hb.not_erase, if_pos hb, if_pos hroom,
        shellCalls_process]
    have hrest := ih (held ++ [b]) ⟨os.world, os.screen ++ [b]⟩ htail (by
      rw [List.length_append, List.length_singleton]
      omega)
    rw [List.append_assoc, List.append_assoc] at hrest
    rw [List.map_cons, List.cons_append, ShellCalls.effectsFrom, heffects, hpoll]
    exact hrest

/-- What a text that was typed does at the end of its line. -/
theorem Console.effects_lineEnd (c : Console) (os : Os) {os' : Os}
    (hexec : execCommand c.handleCustomCommand (asText bytes)
      ⟨os.world, os.screen ++ Rust.asBytes "\n"⟩ = .ok () os') :
    c.shellCalls.effects bytes 0x0A os = .ok () ⟨os'.world, os'.screen ++ prompt⟩ := by
  rw [ShellCalls.effects, if_pos (.inr rfl), shellCalls_process, shellCalls_exec]
  exact bind_eq_ok.mpr ⟨(), ⟨os.world, os.screen ++ Rust.asBytes "\n"⟩, rfl,
    bind_eq_ok.mpr ⟨(), os', hexec, rfl⟩⟩

/-- **An unknown command, typed at the prompt**, is echoed and answered with the report of a missing
ramdisk. -/
theorem Console.runShell_unknown (h : ∀ b ∈ bytes, IsPrintable b) (hlen : bytes.length ≤ lineSize)
    (hunknown : Unknown (trimmed (asText bytes))) (os : Os) :
    ∃ r, c.shellCalls.runShell (bytes.map some ++ [some 0x0A]) os = .ok r ⟨os.world,
      os.screen ++ prompt ++ bytes ++ Rust.asBytes "\n" ++
        Rust.asBytes "run: ramdisk not loaded\n" ++ prompt⟩ := by
  obtain ⟨line, len, -, hrun⟩ := c.shellCalls.runShell_eq (bytes.map some ++ [some 0x0A])
  have htyped := effectsFrom_printable (c := c) [] [] ⟨os.world, os.screen ++ prompt⟩ h
    (by simpa using hlen) [some 0x0A]
  have hend := c.effects_lineEnd ⟨os.world, os.screen ++ prompt ++ bytes⟩
    hunknown.execCommand_eq_ok
  rw [hrun]
  refine ⟨(line, len), bind_eq_ok.mpr ⟨(), ⟨os.world, os.screen ++ prompt⟩, rfl, ?_⟩⟩
  exact bind_eq_ok.mpr ⟨(), _, htyped.trans (bind_eq_ok.mpr ⟨(), _, hend, rfl⟩), rfl⟩

end Kernel

end LeonOS
