import LeonOS.Lib.Newlines
import LeonOS.Lib.Uart
import Mathlib.Order.Filter.AtTopBot.Basic

/-!
# The log on the serial port

`kernel/src/logger.rs`.  The first message sets the port up; then each byte waits for the
transmitter, and a line feed has a carriage return sent before it.  A port that always comes to be
ready gets every byte of every message, in order, once, and with the settings that `serial_init`
has made; so who listens can tell the messages (`serial_delivered`).

The loop that waits is given a number of rounds.  The settings are made before the first byte goes
out, because `SERIAL_INIT` is looked at before the loop over the bytes.
-/

set_option autoImplicit false

namespace LeonOS

open Filter Newlines Uart

/-- `SERIAL_INIT`, and the port at `COM1`. -/
structure Serial where
  /-- `SERIAL_INIT`. -/
  init : Bool
  /-- The port. -/
  port : Port

/-- `serial_init`. -/
def serialInit (wire : Wire) (p : Port) : Port :=
  let p := p.write wire 1 0x00
  let p := p.write wire 3 0x80
  let p := p.write wire 0 0x03
  let p := p.write wire 1 0x00
  let p := p.write wire 3 0x03
  let p := p.write wire 2 0xC7
  p.write wire 4 0x0B

/-- The loop of `serial_write_byte`, for at most so many rounds. -/
def waitReady (wire : Wire) : ℕ → Port → Option Port
  | 0, _ => none
  | n + 1, p =>
    let status := p.lineStatus wire
    if status.1 &&& 0x20 = 0 then waitReady wire n status.2 else some status.2

/-- `serial_write_byte`. -/
def serialWriteByte (wire : Wire) (rounds : ℕ) (p : Port) (byte : U8) : Option Port := do
  let p ← waitReady wire rounds p
  return p.write wire 0 byte

/-- The carriage return that `serial_write` sends before a line feed. -/
def serialWriteCr (wire : Wire) (rounds : ℕ) (p : Port) (b : U8) : Option Port :=
  if b = 0x0A then serialWriteByte wire rounds p 0x0D else some p

/-- The loop of `serial_write` over the bytes. -/
def serialWriteBytes (wire : Wire) (rounds : ℕ) : List U8 → Port → Option Port
  | [], p => some p
  | b :: bytes, p => do
    let p ← serialWriteCr wire rounds p b
    let p ← serialWriteByte wire rounds p b
    serialWriteBytes wire rounds bytes p

/-- `serial_write`. -/
def serialWrite (wire : Wire) (rounds : ℕ) (s : Serial) (text : String) : Option Serial := do
  let s := if s.init then s else ⟨true, serialInit wire s.port⟩
  let p ← serialWriteBytes wire rounds (Rust.asBytes text) s.port
  return ⟨true, p⟩

/-- Messages, one after another. -/
def serialWrites (wire : Wire) (rounds : ℕ) (s : Serial) (texts : List String) : Option Serial :=
  texts.foldlM (serialWrite wire rounds) s

/-! ## The settings -/

/-- 38400 baud, eight bits, no parity, one stop bit. -/
def logLine : Line := ⟨3, 3, false⟩

/-- The port is set up for the log. -/
structure SetUp (p : Port) : Prop where
  /-- The settings are made. -/
  line : p.line = logLine
  /-- The first port leads to the transmitter. -/
  dlab : p.dlab = false

/-- What has been sent between two states, and that nothing was lost. -/
structure Sends (bytes : List U8) (p p' : Port) : Prop where
  /-- It is sent behind what was sent before, with the settings of the log. -/
  sent : p'.sent = p.sent ++ bytes.map (Prod.mk logLine)
  /-- No byte came too early. -/
  lost : p'.lost = p.lost
  /-- The settings stay. -/
  setUp : SetUp p'

variable {wire : Wire} {p p₁ p' : Port} {bytes bytes' : List U8} {rounds : ℕ}

theorem Sends.nil (h : SetUp p) : Sends [] p p := ⟨by simp, rfl, h⟩

theorem Sends.trans (h : Sends bytes p p₁) (h' : Sends bytes' p₁ p') :
    Sends (bytes ++ bytes') p p' :=
  ⟨by simp [h'.sent, h.sent], h'.lost.trans h.lost, h'.setUp⟩

/-- **The port is set up**, and the 3 for the divisor is not sent. -/
theorem serialInit_sends (wire : Wire) (p : Port) : Sends [] p (serialInit wire p) := by
  have hfirst : ∃ q, p.write wire 1 0x00 = q ∧ q.sent = p.sent ∧ q.lost = p.lost := by
    refine ⟨_, rfl, ?_⟩
    simp only [Port.write]
    split <;> exact ⟨rfl, rfl⟩
  obtain ⟨q, hq, hsent, hlost⟩ := hfirst
  have hrest : serialInit wire p =
      { q with fcr := 0xC7, lcr := 0x03, mcr := 0x0B, dll := 0x03, dlm := 0x00 } := by
    rw [serialInit, hq]
    simp [Port.write, Port.dlab]
  rw [hrest]
  refine ⟨?_, hlost, by simp [Port.line, logLine], by simp [Port.dlab]⟩
  rw [List.map_nil, List.append_nil]
  exact hsent

/-! ## Bytes -/

/-- The loop ends as soon as the transmitter is empty. -/
theorem waitReady_eq (h : p.busy < rounds) :
    waitReady wire rounds p = some { p with busy := 0 } := by
  induction rounds generalizing p with
  | zero => exact absurd h (Nat.not_lt_zero _)
  | succ n ih =>
    rw [waitReady, Port.lineStatus]
    by_cases hbusy : p.busy = 0
    · have hset : (wire.status (p.sent.map Prod.snd) ||| 0x20) &&& 0x20 ≠ 0 := by
        intro hzero
        have hbit := congrArg (BitVec.getLsbD · 5) hzero
        simp at hbit
      rw [if_pos hbusy]
      dsimp only
      rw [if_neg hset, ← hbusy]
    · have hclear : wire.status (p.sent.map Prod.snd) &&& 0xDF &&& 0x20 = 0 := by
        rw [BitVec.and_assoc]
        exact BitVec.and_zero
      rw [if_neg hbusy]
      dsimp only
      rw [if_pos hclear, ih (show p.busy - 1 < n by omega)]

theorem serialWriteByte_sends (wire : Wire) (h : SetUp p) (b : U8) : ∃ p', Sends [b] p p' ∧
    ∀ᶠ rounds in atTop, serialWriteByte wire rounds p b = some p' := by
  have hwrite : ({ p with busy := 0 } : Port).write wire 0 b =
      ({ p with busy := 0 } : Port).transmit wire b := by
    rw [Port.write, if_neg (by rw [Port.dlab]; exact ne_true_of_eq_false h.dlab)]
  refine ⟨({ p with busy := 0 } : Port).transmit wire b, ⟨?_, rfl, ⟨h.line, h.dlab⟩⟩,
    (eventually_gt_atTop p.busy).mono fun rounds hrounds ↦ ?_⟩
  · rw [← h.line]
    rfl
  · rw [serialWriteByte, waitReady_eq hrounds, ← hwrite]
    rfl

/-- **A message is sent**, with its line ends. -/
theorem serialWriteBytes_sends (wire : Wire) (bytes : List U8) (h : SetUp p) :
    ∃ p', Sends (cook 0x0D 0x0A bytes) p p' ∧
      ∀ᶠ rounds in atTop, serialWriteBytes wire rounds bytes p = some p' := by
  induction bytes generalizing p with
  | nil => exact ⟨p, .nil h, .of_forall fun _ ↦ rfl⟩
  | cons b bytes ih =>
    have hcr : ∃ p₁, Sends (if b = 0x0A then [0x0D] else []) p p₁ ∧ ∀ᶠ rounds in atTop,
        serialWriteCr wire rounds p b = some p₁ := by
      simp only [serialWriteCr]
      split
      · exact serialWriteByte_sends wire h 0x0D
      · exact ⟨p, .nil h, .of_forall fun _ ↦ rfl⟩
    obtain ⟨p₁, hsends₁, hrun₁⟩ := hcr
    obtain ⟨p₂, hsends₂, hrun₂⟩ := serialWriteByte_sends wire hsends₁.setUp b
    obtain ⟨p₃, hsends₃, hrun₃⟩ := ih hsends₂.setUp
    refine ⟨p₃, ?_, (hrun₁.and (hrun₂.and hrun₃)).mono fun rounds hrun ↦ ?_⟩
    swap
    · rw [serialWriteBytes, hrun.1, Option.bind_eq_bind, Option.bind_some, hrun.2.1,
        Option.bind_some, hrun.2.2]
    have hcook : cook 0x0D 0x0A (b :: bytes) =
        ((if b = 0x0A then [0x0D] else []) ++ [b]) ++ cook 0x0D 0x0A bytes := by
      rw [cook_cons]
      split
      · simp [*]
      · rfl
    rw [hcook]
    exact (hsends₁.trans hsends₂).trans hsends₃

/-! ## Messages -/

theorem serialWrite_sends (wire : Wire) {s : Serial} (h : s.init = true → SetUp s.port)
    (text : String) :
    ∃ s', s'.init = true ∧ Sends (cook 0x0D 0x0A (Rust.asBytes text)) s.port s'.port ∧
      ∀ᶠ rounds in atTop, serialWrite wire rounds s text = some s' := by
  have hready : ∃ p, Sends [] s.port p ∧
      (if s.init then s else ⟨true, serialInit wire s.port⟩ : Serial) = ⟨true, p⟩ := by
    cases hinit : s.init with
    | true => exact ⟨s.port, .nil (h hinit), by simp [← hinit]⟩
    | false => exact ⟨serialInit wire s.port, serialInit_sends wire s.port, by simp⟩
  obtain ⟨p, hset, hp⟩ := hready
  obtain ⟨p', hsends, hrun⟩ := serialWriteBytes_sends wire (Rust.asBytes text) hset.setUp
  refine ⟨⟨true, p'⟩, rfl, hset.trans hsends, hrun.mono fun rounds hrounds ↦ ?_⟩
  rw [serialWrite, hp]
  simp [hrounds]

/-- The same for one message after another, where the port need not be set up before the first. -/
theorem serialWrites_sends (wire : Wire) {s : Serial} (h : s.init = true → SetUp s.port)
    (texts : List String) :
    ∃ s', s'.port.sent = s.port.sent ++
        (cook 0x0D 0x0A (texts.flatMap Rust.asBytes)).map (Prod.mk logLine) ∧
      s'.port.lost = s.port.lost ∧
      ∀ᶠ rounds in atTop, serialWrites wire rounds s texts = some s' := by
  induction texts generalizing s with
  | nil => exact ⟨s, by simp, rfl, .of_forall fun _ ↦ rfl⟩
  | cons text texts ih =>
    obtain ⟨s₁, hinit, hsends, hrun⟩ := serialWrite_sends wire h text
    obtain ⟨s', hsent, hlost, hruns⟩ := ih fun _ ↦ hsends.setUp
    refine ⟨s', ?_, hlost.trans hsends.lost, (hrun.and hruns).mono fun rounds hrounds ↦ ?_⟩
    · rw [hsent, hsends.sent, List.flatMap_cons, cook_append, List.map_append, List.append_assoc]
    · rw [serialWrites, List.foldlM_cons, hrounds.1]
      exact hrounds.2

/-- **The log is delivered**: from a port in any state, when the driver is not limited in its
rounds, all bytes of all messages are sent in their order, with the settings of the log and a
carriage return before each line feed, and none is lost; and what is received tells the messages. -/
theorem serial_delivered (wire : Wire) (p : Port) (texts : List String) :
    ∃ s', (∀ᶠ rounds in atTop, serialWrites wire rounds ⟨false, p⟩ texts = some s') ∧
      s'.port.sent = p.sent ++
        (cook 0x0D 0x0A (texts.flatMap Rust.asBytes)).map (Prod.mk logLine) ∧
      s'.port.lost = p.lost ∧
      uncook 0x0D 0x0A ((s'.port.sent.drop p.sent.length).map Prod.snd) =
        texts.flatMap Rust.asBytes := by
  obtain ⟨s', hsent, hlost, hrun⟩ :=
    serialWrites_sends wire (s := ⟨false, p⟩) (fun h ↦ by cases h) texts
  refine ⟨s', hrun, hsent, hlost, ?_⟩
  have hreceived : (s'.port.sent.drop p.sent.length).map Prod.snd =
      cook 0x0D 0x0A (texts.flatMap Rust.asBytes) := by
    rw [hsent]
    simp [Function.comp_def]
  rw [hreceived]
  exact uncook_cook (by simp) _

end LeonOS
