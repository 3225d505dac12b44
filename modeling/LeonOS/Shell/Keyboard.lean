import LeonOS.Lib.Bytes
import LeonOS.Lib.Runs

/-!
# The keyboard

`keyboard_read_ascii_nonblocking` and `scancode_to_ascii` of `kernel/src/main.rs`.  One flag,
`SHIFT_DOWN`, stands for the two shift keys: it is set by a press of either and cleared by a release
of either.  So it is wrong just while one of them is held after the release of the other, and then a
key that has two characters gives the wrong one (`characters_right_iff`).

A scancode is one byte of set 1, as it is to the source, which reads the port byte by byte.  So of
an extended key the byte `0xE0` is a scancode of its own, which means nothing, and the byte behind it
is taken for the key that has it without the prefix: the Enter of the keypad is an Enter, and the
`E0 2A` that some keys send before their scancode is a left shift.
-/

set_option autoImplicit false

namespace LeonOS

open Runs

/-! ## Scancodes -/

/-- The character of a key, `scancode_to_ascii` up to its type. -/
def scancodeChar (sc : U8) (shift : Bool) : Option Char :=
  match sc with
  | 0x1C => some '\n'
  | 0x0E => some '\x08'
  | 0x39 => some ' '
  | 0x02 => some (if shift then '!' else '1')
  | 0x03 => some (if shift then '@' else '2')
  | 0x04 => some (if shift then '#' else '3')
  | 0x05 => some (if shift then '$' else '4')
  | 0x06 => some (if shift then '%' else '5')
  | 0x07 => some (if shift then '^' else '6')
  | 0x08 => some (if shift then '&' else '7')
  | 0x09 => some (if shift then '*' else '8')
  | 0x0A => some (if shift then '(' else '9')
  | 0x0B => some (if shift then ')' else '0')
  | 0x0C => some (if shift then '_' else '-')
  | 0x0D => some (if shift then '+' else '=')
  | 0x10 => some (if shift then 'Q' else 'q')
  | 0x11 => some (if shift then 'W' else 'w')
  | 0x12 => some (if shift then 'E' else 'e')
  | 0x13 => some (if shift then 'R' else 'r')
  | 0x14 => some (if shift then 'T' else 't')
  | 0x15 => some (if shift then 'Y' else 'y')
  | 0x16 => some (if shift then 'U' else 'u')
  | 0x17 => some (if shift then 'I' else 'i')
  | 0x18 => some (if shift then 'O' else 'o')
  | 0x19 => some (if shift then 'P' else 'p')
  | 0x1E => some (if shift then 'A' else 'a')
  | 0x1F => some (if shift then 'S' else 's')
  | 0x20 => some (if shift then 'D' else 'd')
  | 0x21 => some (if shift then 'F' else 'f')
  | 0x22 => some (if shift then 'G' else 'g')
  | 0x23 => some (if shift then 'H' else 'h')
  | 0x24 => some (if shift then 'J' else 'j')
  | 0x25 => some (if shift then 'K' else 'k')
  | 0x26 => some (if shift then 'L' else 'l')
  | 0x2C => some (if shift then 'Z' else 'z')
  | 0x2D => some (if shift then 'X' else 'x')
  | 0x2E => some (if shift then 'C' else 'c')
  | 0x2F => some (if shift then 'V' else 'v')
  | 0x30 => some (if shift then 'B' else 'b')
  | 0x31 => some (if shift then 'N' else 'n')
  | 0x32 => some (if shift then 'M' else 'm')
  | _ => none

/-- `scancode_to_ascii`. -/
def scancodeToAscii (sc : U8) (shift : Bool) : Option U8 :=
  (scancodeChar sc shift).map fun ch ↦ BitVec.ofNat 8 ch.toNat

/-- What a poll finds at the two ports. -/
structure Poll where
  /-- The byte at `PS2_STATUS`. -/
  status : U8
  /-- The byte at `PS2_DATA`, which is read if the other one says that it is there. -/
  data : U8

/-- The scancode that is read. -/
def Poll.scancode (p : Poll) : Option U8 := if p.status &&& 0x01 = 0 then none else some p.data

/-- `keyboard_read_ascii_nonblocking`, from the scancode on. -/
def keyboardScancode (sc : U8) (shiftDown : Bool) : Option U8 × Bool :=
  match sc with
  | 0x2A | 0x36 => (none, true)
  | 0xAA | 0xB6 => (none, false)
  | sc =>
    if sc &&& 0x80 ≠ 0 then (none, shiftDown)
    else (scancodeToAscii sc shiftDown, shiftDown)

/-- `keyboard_read_ascii_nonblocking`, with `SHIFT_DOWN` before and after. -/
def keyboardReadAsciiNonblocking (p : Poll) (shiftDown : Bool) : Option U8 × Bool :=
  match p.scancode with
  | none => (none, shiftDown)
  | some sc => keyboardScancode sc shiftDown

/-! ## The two shift keys -/

/-- The shift keys themselves. -/
structure ShiftKeys where
  /-- The left one is held. -/
  left : Bool
  /-- The right one is held. -/
  right : Bool
  /-- The last scancode of a shift key was that of a release. -/
  released : Bool

/-- What a scancode tells about them. -/
def ShiftKeys.after (keys : ShiftKeys) (sc : U8) : ShiftKeys :=
  match sc with
  | 0x2A => ⟨true, keys.right, false⟩
  | 0x36 => ⟨keys.left, true, false⟩
  | 0xAA => ⟨false, keys.right, true⟩
  | 0xB6 => ⟨keys.left, false, true⟩
  | _ => keys

/-- At least one is held. -/
def ShiftKeys.held (keys : ShiftKeys) : Bool := keys.left || keys.right

/-- One was released, and the other is still held. -/
def ShiftKeys.otherReleased (keys : ShiftKeys) : Bool := keys.released && keys.held

/-- The flag and the keys. -/
structure Keyboard where
  /-- `SHIFT_DOWN`. -/
  shiftDown : Bool
  /-- The keys. -/
  keys : ShiftKeys

/-- Nothing is held. -/
def Keyboard.start : Keyboard := ⟨false, ⟨false, false, false⟩⟩

/-- The keyboard after a poll. -/
def Keyboard.after (k : Keyboard) (p : Poll) : Keyboard where
  shiftDown := (keyboardReadAsciiNonblocking p k.shiftDown).2
  keys := p.scancode.elim k.keys k.keys.after

/-- A poll, as a step. -/
def Keyboard.Step (p : Poll) (k k' : Keyboard) : Prop := k' = k.after p

/-- A scancode of a shift key. -/
def IsShift (sc : U8) : Prop := sc = 0x2A ∨ sc = 0x36 ∨ sc = 0xAA ∨ sc = 0xB6

/-- A press of a key that has a character. -/
def IsCharacter (sc : U8) : Prop := (scancodeToAscii sc false).isSome

/-- A key with two characters: all but Enter, Backspace and Space. -/
def HasShifted (sc : U8) : Prop := scancodeToAscii sc true ≠ scancodeToAscii sc false

/-- **A key that is pressed gives its character**, the shifted one if a shift key is held. -/
def Keyboard.CharacterRight (p : Poll) (k : Keyboard) : Prop :=
  ∀ sc, p.scancode = some sc → IsCharacter sc →
    (keyboardReadAsciiNonblocking p k.shiftDown).1 = scancodeToAscii sc k.keys.held

/-- **Other keys are quiet**: releases, unknown keys and polls that find nothing give nothing and
leave the flag as it is, and the shift keys give nothing. -/
structure Keyboard.Quiet (p : Poll) (k : Keyboard) : Prop where
  /-- Nothing is there. -/
  nothing : p.scancode = none → keyboardReadAsciiNonblocking p k.shiftDown = (none, k.shiftDown)
  /-- A release, or an unknown key. -/
  other : ∀ sc, p.scancode = some sc → ¬IsShift sc → sc &&& 0x80 ≠ 0 ∨ ¬IsCharacter sc →
    keyboardReadAsciiNonblocking p k.shiftDown = (none, k.shiftDown)
  /-- A shift key. -/
  shift : ∀ sc, p.scancode = some sc → IsShift sc →
    (keyboardReadAsciiNonblocking p k.shiftDown).1 = none

/-- The poll does not find a key with two characters while one shift key is held and the other one
was released last. -/
def Keyboard.NotMixed (p : Poll) (k : Keyboard) : Prop :=
  ∀ sc, p.scancode = some sc → HasShifted sc → ¬k.keys.otherReleased

/-! ## One scancode -/

variable {p : Poll} {k : Keyboard} {sc : U8}

set_option maxRecDepth 4000 in
/-- Where a key has a character at all does not depend on the shift keys. -/
theorem scancodeToAscii_isSome (sc : U8) (shift : Bool) :
    (scancodeToAscii sc shift).isSome = (scancodeToAscii sc false).isSome := by
  revert sc shift
  decide

set_option maxRecDepth 4000 in
/-- A release has no character, and neither has a shift key. -/
theorem scancodeToAscii_eq_none (h : sc &&& 0x80 ≠ 0 ∨ IsShift sc) (shift : Bool) :
    scancodeToAscii sc shift = none := by
  rw [IsShift] at h
  revert sc shift
  decide

theorem keyboardScancode_shift (h : IsShift sc) (shiftDown : Bool) :
    (keyboardScancode sc shiftDown).1 = none := by
  obtain rfl | rfl | rfl | rfl := h <;> rfl

theorem keyboardScancode_other (h : ¬IsShift sc) (shiftDown : Bool) :
    keyboardScancode sc shiftDown = (scancodeToAscii sc shiftDown, shiftDown) := by
  simp only [IsShift, not_or] at h
  obtain ⟨h₁, h₂, h₃, h₄⟩ := h
  unfold keyboardScancode
  split
  · exact absurd rfl h₁
  · exact absurd rfl h₂
  · exact absurd rfl h₃
  · exact absurd rfl h₄
  · split
    · rename_i hrelease
      rw [scancodeToAscii_eq_none (.inl hrelease)]
    · rfl

theorem ShiftKeys.after_other (h : ¬IsShift sc) (keys : ShiftKeys) : keys.after sc = keys := by
  simp only [IsShift, not_or] at h
  obtain ⟨h₁, h₂, h₃, h₄⟩ := h
  unfold ShiftKeys.after
  split
  · exact absurd rfl h₁
  · exact absurd rfl h₂
  · exact absurd rfl h₃
  · exact absurd rfl h₄
  · rfl

theorem keyboardRead_none (h : p.scancode = none) (shiftDown : Bool) :
    keyboardReadAsciiNonblocking p shiftDown = (none, shiftDown) := by
  rw [keyboardReadAsciiNonblocking, h]

theorem keyboardRead_some (h : p.scancode = some sc) (shiftDown : Bool) :
    keyboardReadAsciiNonblocking p shiftDown = keyboardScancode sc shiftDown := by
  rw [keyboardReadAsciiNonblocking, h]

/-! ## The flag -/

/-- **The flag tells the last shift key**: while it is set a key is held, and while a key is held
and it is not set, the other one was released last. -/
structure Keyboard.FlagOk (k : Keyboard) : Prop where
  /-- The flag is set. -/
  down : k.shiftDown = true → k.keys.held = true ∧ k.keys.released = false
  /-- It is not. -/
  up : k.shiftDown = false → k.keys.held = true → k.keys.released = true

theorem Keyboard.flagOk_start : Keyboard.start.FlagOk := ⟨nofun, nofun⟩

/-- Every poll keeps it so. -/
theorem Keyboard.FlagOk.after (h : k.FlagOk) (p : Poll) : (k.after p).FlagOk := by
  rw [Keyboard.after]
  cases hsc : p.scancode with
  | none =>
    rw [keyboardRead_none hsc]
    exact h
  | some sc =>
    rw [keyboardRead_some hsc]
    by_cases hshift : IsShift sc
    · obtain ⟨shiftDown, left, right, released⟩ := k
      obtain rfl | rfl | rfl | rfl := hshift
      · exact ⟨fun _ ↦ ⟨rfl, rfl⟩, nofun⟩
      · exact ⟨fun _ ↦ ⟨Bool.or_true left, rfl⟩, nofun⟩
      · exact ⟨nofun, fun _ _ ↦ rfl⟩
      · exact ⟨nofun, fun _ _ ↦ rfl⟩
    · rw [keyboardScancode_other hshift, Option.elim_some, ShiftKeys.after_other hshift]
      exact h

/-- **The flag is wrong** while a shift key is held and the other one was released last. -/
theorem Keyboard.FlagOk.eq_held_iff (h : k.FlagOk) :
    k.shiftDown = k.keys.held ↔ ¬k.keys.otherReleased := by
  obtain ⟨hdown, hup⟩ := h
  rw [ShiftKeys.otherReleased]
  cases hflag : k.shiftDown with
  | true =>
    obtain ⟨hheld, hreleased⟩ := hdown hflag
    simp [hheld, hreleased]
  | false =>
    cases hheld : k.keys.held with
    | true => simp [hup hflag hheld]
    | false => simp

/-! ## The characters -/

theorem Keyboard.quiet (p : Poll) (k : Keyboard) : k.Quiet p where
  nothing h := keyboardRead_none h _
  other sc h hshift hother := by
    have hnone : scancodeToAscii sc k.shiftDown = none := by
      obtain hrelease | hunknown := hother
      · exact scancodeToAscii_eq_none (.inl hrelease) _
      · rw [← Option.not_isSome_iff_eq_none, scancodeToAscii_isSome]
        exact hunknown
    rw [keyboardRead_some h, keyboardScancode_other hshift, hnone]
  shift sc h hshift := by
    rw [keyboardRead_some h]
    exact keyboardScancode_shift hshift _

/-- A key has two characters just if the shift keys matter to a press of it. -/
theorem character_eq_iff (sc : U8) (shift shift' : Bool) :
    (IsCharacter sc → scancodeToAscii sc shift = scancodeToAscii sc shift') ↔
      (HasShifted sc → shift = shift') := by
  rw [IsCharacter, HasShifted]
  by_cases hchar : (scancodeToAscii sc false).isSome
  · cases shift <;> cases shift' <;> simp [hchar, eq_comm]
  · have hnone (shift : Bool) : scancodeToAscii sc shift = none := by
      rw [← Option.not_isSome_iff_eq_none, scancodeToAscii_isSome]
      exact hchar
    simp [hnone]

/-- **When a key gives the right character.** -/
theorem Keyboard.FlagOk.characterRight_iff (h : k.FlagOk) (p : Poll) :
    k.CharacterRight p ↔ k.NotMixed p := by
  refine forall₂_congr fun sc hsc ↦ ?_
  rw [keyboardRead_some hsc, ← h.eq_held_iff]
  by_cases hshift : IsShift sc
  · have hnone := scancodeToAscii_eq_none (.inr hshift)
    simp [IsCharacter, HasShifted, hnone]
  · rw [keyboardScancode_other hshift]
    exact character_eq_iff sc k.shiftDown k.keys.held

/-- **When all keys give the right characters** in a sequence of polls: none of them is pressed in
the wrong case.  The other scancodes always do what they should. -/
theorem characters_right_iff (ps : List Poll) :
    AllSteps Keyboard.Step (fun p k ↦ k.Quiet p) .start ps ∧
    (AllSteps Keyboard.Step (fun p k ↦ k.CharacterRight p) .start ps ↔
      AllSteps Keyboard.Step (fun p k ↦ k.NotMixed p) .start ps) := by
  refine ⟨fun _ p k _ _ ↦ k.quiet p, ?_⟩
  refine allSteps_congr (P := Keyboard.FlagOk) (fun p k k' h _ hstep ↦ ?_)
    (fun p k h ↦ h.characterRight_iff p) Keyboard.flagOk_start
  rw [hstep]
  exact h.after p

/-- A scancode that is there. -/
def scancodePoll (sc : U8) : Poll := ⟨0x01, sc⟩

/-- Both shift keys are pressed, the left one is released and A is pressed: a small letter. -/
theorem released_other_shift : ¬AllSteps Keyboard.Step (fun p k ↦ k.CharacterRight p) .start
    ([0x2A, 0x36, 0xAA, 0x1E].map scancodePoll) := by
  intro h
  have hrun : Trace Keyboard.Step .start ([0x2A, 0x36, 0xAA].map scancodePoll)
      (((Keyboard.start.after (scancodePoll 0x2A)).after (scancodePoll 0x36)).after
        (scancodePoll 0xAA)) := .cons rfl (.cons rfl (.cons rfl (.nil _)))
  have hright := h _ (scancodePoll 0x1E) _ List.prefix_rfl hrun 0x1E rfl (by
    rw [IsCharacter]
    decide)
  exact absurd hright (by decide)

end LeonOS
