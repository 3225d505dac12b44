import LeonOS.Lib.Rust

/-!
# A serial port

The 16550 as its driver sees it: registers behind eight ports, of which the first two lead to the
divisor of the clock as long as bit 7 of the line control register is set.  A byte that is written
to the transmitter goes out with the settings that the port has then (`Uart.Line`); one that comes
before the last one has gone is lost.

How long a byte takes is not known: `Wire.delay` says, of what has been sent so far, how many reads
of the line status register still find the transmitter full afterwards.
-/

set_option autoImplicit false

namespace Uart

/-- What the driver does not control. -/
structure Wire where
  /-- How often the transmitter is found full after all this was sent. -/
  delay : List U8 → ℕ
  /-- The other bits of the line status register. -/
  status : List U8 → U8

/-- The settings with which a byte goes out. -/
structure Line where
  /-- The divisor of the clock. -/
  divisor : BitVec 16
  /-- The low bits of the line control register: word length, stop bits, parity, break. -/
  format : BitVec 7
  /-- Bit 4 of the modem control register: nothing goes out. -/
  loopback : Bool
  deriving DecidableEq

/-- The registers, and what has become of the bytes. -/
structure Port where
  /-- Interrupt enable. -/
  ier : U8
  /-- FIFO control. -/
  fcr : U8
  /-- Line control. -/
  lcr : U8
  /-- Modem control. -/
  mcr : U8
  /-- The low byte of the divisor. -/
  dll : U8
  /-- Its high byte. -/
  dlm : U8
  /-- How often the transmitter will be found full. -/
  busy : ℕ
  /-- What has been sent, and how. -/
  sent : List (Line × U8)
  /-- What was written while the transmitter was full. -/
  lost : List U8

namespace Port

variable {wire : Wire} {p : Port}

/-- The divisor latch access bit. -/
def dlab (p : Port) : Bool := p.lcr.getLsbD 7

/-- The settings of the moment. -/
def line (p : Port) : Line := ⟨p.dlm ++ p.dll, p.lcr.setWidth 7, p.mcr.getLsbD 4⟩

/-- A byte for the transmitter. -/
def transmit (wire : Wire) (p : Port) (b : U8) : Port :=
  if p.busy = 0 then
    { p with
      sent := p.sent ++ [(p.line, b)]
      busy := wire.delay ((p.sent ++ [(p.line, b)]).map Prod.snd) }
  else { p with lost := p.lost ++ [b] }

/-- A write to one of the ports. -/
def write (wire : Wire) (p : Port) (port : ℕ) (v : U8) : Port :=
  match port with
  | 0 => if p.dlab then { p with dll := v } else p.transmit wire v
  | 1 => if p.dlab then { p with dlm := v } else { p with ier := v }
  | 2 => { p with fcr := v }
  | 3 => { p with lcr := v }
  | 4 => { p with mcr := v }
  | _ => p

/-- A read of the line status register, whose bit 5 says that the transmitter is empty. -/
def lineStatus (wire : Wire) (p : Port) : U8 × Port :=
  if p.busy = 0 then (wire.status (p.sent.map Prod.snd) ||| 0x20, p)
  else (wire.status (p.sent.map Prod.snd) &&& 0xDF, { p with busy := p.busy - 1 })

end Port

end Uart
