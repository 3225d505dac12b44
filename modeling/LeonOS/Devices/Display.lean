import LeonOS.Lib.Bytes
import LeonOS.Lib.Rust

/-!
# The screen

`Display` of `kernel/src/main.rs`, the surface that the terminal draws on: `draw_pixel` puts the
bytes of a color where the framebuffer has the pixel.  What is drawn is a picture (`pictureOf`), in
which every pixel has the color that it was drawn with last.

The framebuffer comes from the bootloader, with numbers for its width, its height and so on that the
driver takes as they are.  What color a pixel has is said by the format of the bootloader
(`FrameBufferInfo.HasColor`), whatever the driver writes.  `display_right_iff` says for which numbers
the framebuffer shows the picture, whatever is drawn: all pixels must be in the buffer and large
enough for a color, no row may reach into the next one, and in a format that the driver does not name
red, green and blue must be the first three bytes.
-/

set_option autoImplicit false

namespace LeonOS

open Bytes

/-! ## The driver -/

/-- `PixelFormat`. -/
inductive PixelFormat where
  /-- A byte red, a byte green and a byte blue. -/
  | rgb
  /-- A byte blue, a byte green and a byte red. -/
  | bgr
  /-- A byte gray. -/
  | u8
  /-- Any other, with the bits at which red, green and blue begin. -/
  | unknown (redPosition greenPosition bluePosition : ℕ)
  deriving DecidableEq

/-- `FrameBufferInfo`. -/
structure FrameBufferInfo where
  /-- `width`. -/
  width : ℕ
  /-- `height`. -/
  height : ℕ
  /-- `pixel_format`. -/
  pixelFormat : PixelFormat
  /-- `bytes_per_pixel`. -/
  bytesPerPixel : ℕ
  /-- `stride`. -/
  stride : ℕ

/-- `Rgb`. -/
structure Rgb where
  /-- `color.0`. -/
  r : U8
  /-- `color.1`. -/
  g : U8
  /-- `color.2`. -/
  b : U8
  deriving DecidableEq

/-- `Display`. -/
structure Display where
  /-- `info`. -/
  info : FrameBufferInfo
  /-- `buffer`. -/
  buffer : List U8

/-- `gray`. -/
def Rgb.gray (color : Rgb) : U8 :=
  BitVec.ofNat 8 ((color.r.toNat + color.g.toNat + color.b.toNat) / 3)

/-- The end of `draw_pixel`, with `pixel` the bytes of the pixel. -/
def FrameBufferInfo.paint (info : FrameBufferInfo) (pixel : List U8) (color : Rgb) :
    Rust Empty (List U8) :=
  match info.pixelFormat with
  | .rgb => do
    let pixel ← Rust.setIndex pixel 0 color.r
    let pixel ← Rust.setIndex pixel 1 color.g
    Rust.setIndex pixel 2 color.b
  | .bgr => do
    let pixel ← Rust.setIndex pixel 0 color.b
    let pixel ← Rust.setIndex pixel 1 color.g
    Rust.setIndex pixel 2 color.r
  | .u8 => Rust.setIndex pixel 0 color.gray
  | _ => do
    let pixel ← Rust.setIndex pixel 0 color.r
    let pixel ← if 1 < info.bytesPerPixel then Rust.setIndex pixel 1 color.g else .ok pixel
    if 2 < info.bytesPerPixel then Rust.setIndex pixel 2 color.b else .ok pixel

/-- `draw_pixel`. -/
def Display.drawPixel (d : Display) (x y : ℕ) (color : Rgb) : Rust Empty Display :=
  if d.info.width ≤ x ∨ d.info.height ≤ y then .ok d
  else do
    let row ← Rust.mul y d.info.stride
    let pixelIndex ← Rust.add row x
    let byteIndex ← Rust.mul pixelIndex d.info.bytesPerPixel
    let last ← Rust.add byteIndex d.info.bytesPerPixel
    let pixel ← Rust.range d.buffer byteIndex last
    let pixel ← d.info.paint pixel color
    return { d with buffer := overwrite d.buffer byteIndex pixel }

/-- A call of `draw_pixel`. -/
structure Draw where
  /-- `x`. -/
  x : ℕ
  /-- `y`. -/
  y : ℕ
  /-- `color`. -/
  color : Rgb

/-- Calls, one after another. -/
def Display.drawAll (d : Display) (draws : List Draw) : Rust Empty Display :=
  draws.foldlM (fun d draw ↦ d.drawPixel draw.x draw.y draw.color) d

/-! ## Pictures -/

/-- The color of each pixel that has one. -/
abbrev Picture := ℕ → ℕ → Option Rgb

/-- A pixel gets a color. -/
def Picture.draw (pic : Picture) (draw : Draw) : Picture := fun x y ↦
  if x = draw.x ∧ y = draw.y then some draw.color else pic x y

/-- What is drawn. -/
def pictureOf (draws : List Draw) : Picture := draws.foldl Picture.draw fun _ _ ↦ none

/-- A bit of a pixel.  A pixel is a number, its lowest byte first. -/
def bitAt (pixel : List U8) (i : ℕ) : Bool := (pixel.getD (i / 8) 0).getLsbD (i % 8)

/-- The eight bits of a pixel from a position on. -/
def HasBits (pixel : List U8) (position : ℕ) (v : U8) : Prop :=
  position + 8 ≤ 8 * pixel.length ∧ ∀ j < 8, bitAt pixel (position + j) = v.getLsbD j

namespace FrameBufferInfo

/-- **The pixel has the color**, in its format.  How many bits a channel has is not told; it is those
of a color. -/
def HasColor (info : FrameBufferInfo) (pixel : List U8) (color : Rgb) : Prop :=
  match info.pixelFormat with
  | .rgb => HasBits pixel 0 color.r ∧ HasBits pixel 8 color.g ∧ HasBits pixel 16 color.b
  | .bgr => HasBits pixel 16 color.r ∧ HasBits pixel 8 color.g ∧ HasBits pixel 0 color.b
  | .u8 => HasBits pixel 0 color.gray
  | .unknown red green blue =>
    HasBits pixel red color.r ∧ HasBits pixel green color.g ∧ HasBits pixel blue color.b

/-- How many bytes a color takes. -/
def colorBytes (info : FrameBufferInfo) : ℕ := if info.pixelFormat = .u8 then 1 else 3

/-- The place of a pixel. -/
def index (info : FrameBufferInfo) (x y : ℕ) : ℕ := (y * info.stride + x) * info.bytesPerPixel

/-- **The pixels suit the driver.** -/
structure Suits (info : FrameBufferInfo) : Prop where
  /-- They are large enough. -/
  bytes : info.colorBytes ≤ info.bytesPerPixel
  /-- In a format without a name, red, green and blue are the first three bytes. -/
  order : ∀ red green blue, info.pixelFormat = .unknown red green blue →
    red = 0 ∧ green = 8 ∧ blue = 16

end FrameBufferInfo

namespace Display

/-- The bytes of a pixel. -/
def pixelAt (d : Display) (x y : ℕ) : List U8 :=
  slice d.buffer (d.info.index x y) d.info.bytesPerPixel

/-- **Every visible pixel is in the buffer**, and suits the driver. -/
def Fits (d : Display) : Prop :=
  ∀ x < d.info.width, ∀ y < d.info.height,
    d.info.Suits ∧ d.info.index x y + d.info.bytesPerPixel ≤ d.buffer.length

/-- **The display shows a picture**: every visible pixel has its color, or is as it was in the
beginning, and all bytes that are not of a color are as they were. -/
structure Shows (start : Display) (pic : Picture) (d : Display) : Prop where
  /-- It is the same framebuffer. -/
  info : d.info = start.info
  /-- It has not become longer or shorter. -/
  length : d.buffer.length = start.buffer.length
  /-- The pixels that were drawn. -/
  drawn : ∀ x < start.info.width, ∀ y < start.info.height, ∀ color, pic x y = some color →
    start.info.HasColor (d.pixelAt x y) color
  /-- The others. -/
  blank : ∀ x < start.info.width, ∀ y < start.info.height, pic x y = none →
    d.pixelAt x y = start.pixelAt x y
  /-- The bytes of no color. -/
  others : ∀ i, (∀ x < start.info.width, ∀ y < start.info.height,
    i < start.info.index x y ∨ start.info.index x y + start.info.colorBytes ≤ i) →
      d.buffer[i]? = start.buffer[i]?

end Display

/-! ## Bits -/

section Bits

variable {pixel bs : List U8} {k i : ℕ} {v : U8}

/-- A byte of a pixel is eight of its bits. -/
theorem hasBits_byte : HasBits pixel (8 * k) v ↔ pixel[k]? = some v := by
  have hbit (j : ℕ) (hj : j < 8) : bitAt pixel (8 * k + j) = (pixel.getD k 0).getLsbD j := by
    rw [bitAt, Nat.mul_add_div (by decide), Nat.mul_add_mod, Nat.div_eq_of_lt hj,
      Nat.mod_eq_of_lt hj, Nat.add_zero]
  rw [List.getElem?_eq_some_iff]
  constructor
  · rintro ⟨hlen, hbits⟩
    have hk : k < pixel.length := by omega
    refine ⟨hk, BitVec.eq_of_getLsbD_eq fun j hj ↦ ?_⟩
    rw [← hbits j hj, hbit j hj, List.getD_eq_getElem _ _ hk]
  · rintro ⟨hk, rfl⟩
    refine ⟨by omega, fun j hj ↦ ?_⟩
    rw [hbit j hj, List.getD_eq_getElem _ _ hk]

/-- Two pixels that were the same before their first bytes were written differ in a bit of one of
these. -/
theorem bitAt_overwrite (h : bs.length ≤ pixel.length) : bitAt (overwrite pixel 0 bs) i =
    if i / 8 < bs.length then bitAt bs i else bitAt pixel i := by
  rw [bitAt, bitAt, bitAt, List.getD_eq_getElem?_getD, List.getD_eq_getElem?_getD,
    List.getD_eq_getElem?_getD, getElem?_overwrite (by rwa [Nat.zero_add])]
  split <;> simp_all

/-- Where the same pixel has different bits after different bytes were written, these differ. -/
theorem bitAt_ne_of_hasBits {bs' : List U8} {v' : U8} (hle : bs.length ≤ pixel.length)
    (hlen : bs'.length = bs.length) (h : HasBits (overwrite pixel 0 bs) i v)
    (h' : HasBits (overwrite pixel 0 bs') i v') (hne : v.getLsbD 0 ≠ v'.getLsbD 0) :
    i / 8 < bs.length ∧ bitAt bs i ≠ bitAt bs' i := by
  have hbit := h.2 0 (by decide)
  have hbit' := h'.2 0 (by decide)
  rw [Nat.add_zero, bitAt_overwrite hle] at hbit
  rw [Nat.add_zero, bitAt_overwrite (hlen ▸ hle), hlen] at hbit'
  split at hbit
  · rename_i hi
    rw [if_pos hi] at hbit'
    rw [hbit, hbit']
    exact ⟨hi, hne⟩
  · rename_i hi
    rw [if_neg hi] at hbit'
    exact absurd (hbit.symm.trans hbit') hne

theorem bitAt_take {n : ℕ} (h : i / 8 < n) : bitAt (bs.take n) i = bitAt bs i := by
  rw [bitAt, bitAt, List.getD_eq_getElem?_getD, List.getElem?_take_of_lt h,
    List.getD_eq_getElem?_getD]

end Bits

/-! ## One pixel -/

namespace FrameBufferInfo

variable {info : FrameBufferInfo} {pixel pixel' : List U8} {color : Rgb} {x y x' y' : ℕ}

/-- The bytes that the driver writes for a color. -/
def written (info : FrameBufferInfo) (color : Rgb) : List U8 :=
  match info.pixelFormat with
  | .rgb => [color.r, color.g, color.b]
  | .bgr => [color.b, color.g, color.r]
  | .u8 => [color.gray]
  | _ => [color.r, color.g, color.b].take info.bytesPerPixel

/-- How many bytes a pixel must have for it. -/
def needed (info : FrameBufferInfo) : ℕ :=
  match info.pixelFormat with
  | .rgb | .bgr => 3
  | _ => 1

theorem needed_pos (info : FrameBufferInfo) : 0 < info.needed := by
  rw [needed]
  cases info.pixelFormat <;> simp

theorem Suits.needed_le (h : info.Suits) : info.needed ≤ info.bytesPerPixel := by
  have hbytes := h.bytes
  rw [colorBytes] at hbytes
  rw [needed]
  cases hformat : info.pixelFormat <;> simp_all
  omega

theorem length_written_le (h : info.needed ≤ info.bytesPerPixel) (color : Rgb) :
    (info.written color).length ≤ info.bytesPerPixel := by
  rw [needed] at h
  rw [written]
  cases hformat : info.pixelFormat <;> simp_all

/-- Where the pixels suit it, the driver writes the bytes of the color and no others. -/
theorem Suits.length_written (h : info.Suits) (color : Rgb) :
    (info.written color).length = info.colorBytes := by
  have hbytes := h.bytes
  rw [colorBytes] at hbytes ⊢
  rw [written]
  cases hformat : info.pixelFormat <;> simp_all

/-- The bytes of a pixel are written one after another, as far as there are any. -/
theorem setIndex_three (pixel : List U8) (a b c : U8) :
    (do
      let pixel ← Rust.setIndex pixel 0 a
      let pixel ← Rust.setIndex pixel 1 b
      Rust.setIndex pixel 2 c : Rust Empty (List U8)) =
      if 3 ≤ pixel.length then .ok (overwrite pixel 0 [a, b, c]) else Rust.panicked := by
  rcases pixel with _ | ⟨p, _ | ⟨q, _ | ⟨r, rest⟩⟩⟩
  · rfl
  · rfl
  · rfl
  · simp [Rust.setIndex, overwrite]

/-- **The bytes of a color are written**, when there is place for them. -/
theorem paint_eq (hlen : pixel.length = info.bytesPerPixel) :
    info.paint pixel color =
      if info.needed ≤ info.bytesPerPixel then .ok (overwrite pixel 0 (info.written color))
      else Rust.panicked := by
  rw [paint, needed, written]
  cases hformat : info.pixelFormat with
  | rgb => simp only [setIndex_three, hlen]
  | bgr => simp only [setIndex_three, hlen]
  | u8 => simp only [Rust.setIndex, hlen, Nat.lt_iff_add_one_le, Nat.zero_add]
  | unknown =>
    rcases pixel with _ | ⟨p, _ | ⟨q, _ | ⟨r, rest⟩⟩⟩
    all_goals simp [← hlen, Rust.setIndex, overwrite, Rust.panicked, bind, Except.bind]

/-- **The driver gives a pixel its color**, where the pixels suit it. -/
theorem Suits.hasColor (h : info.Suits) (hlen : pixel.length = info.bytesPerPixel) (color : Rgb) :
    info.HasColor (overwrite pixel 0 (info.written color)) color := by
  have hle := length_written_le h.needed_le color
  have hcolor := h.length_written color
  have horder := h.order
  have hbyte (k : ℕ) (v : U8) (hk : (info.written color)[k]? = some v) :
      HasBits (overwrite pixel 0 (info.written color)) (8 * k) v := by
    have hlt := (List.getElem?_eq_some_iff.mp hk).1
    rw [hasBits_byte, getElem?_overwrite (by omega), if_pos (by omega), Nat.sub_zero, hk]
  rw [colorBytes] at hcolor
  rw [HasColor]
  cases hformat : info.pixelFormat with
  | rgb =>
    have hwritten : info.written color = [color.r, color.g, color.b] := by rw [written, hformat]
    rw [hwritten] at hbyte ⊢
    exact ⟨hbyte 0 _ rfl, hbyte 1 _ rfl, hbyte 2 _ rfl⟩
  | bgr =>
    have hwritten : info.written color = [color.b, color.g, color.r] := by rw [written, hformat]
    rw [hwritten] at hbyte ⊢
    exact ⟨hbyte 2 _ rfl, hbyte 1 _ rfl, hbyte 0 _ rfl⟩
  | u8 =>
    have hwritten : info.written color = [color.gray] := by rw [written, hformat]
    rw [hwritten] at hbyte ⊢
    exact hbyte 0 _ rfl
  | unknown red green blue =>
    obtain ⟨rfl, rfl, rfl⟩ := horder red green blue hformat
    have hwritten : info.written color = [color.r, color.g, color.b] := by
      have hbytes := h.bytes
      rw [colorBytes, hformat, if_neg (by simp)] at hbytes
      rw [written, hformat]
      exact List.take_of_length_le hbytes
    rw [hwritten] at hbyte ⊢
    exact ⟨hbyte 0 _ rfl, hbyte 1 _ rfl, hbyte 2 _ rfl⟩

/-- **And only there**, when it is to be so for every color: a color with one bit tells where the
driver puts this bit. -/
theorem suits_of_hasColor (hlen : pixel.length = info.bytesPerPixel)
    (hneeded : info.needed ≤ info.bytesPerPixel)
    (h : ∀ color, info.HasColor (overwrite pixel 0 (info.written color)) color) : info.Suits := by
  rw [needed] at hneeded
  cases hformat : info.pixelFormat with
  | rgb => exact ⟨by simp_all [colorBytes], by simp [hformat]⟩
  | bgr => exact ⟨by simp_all [colorBytes], by simp [hformat]⟩
  | u8 => exact ⟨by simp_all [colorBytes], by simp [hformat]⟩
  | unknown red green blue =>
    have hwritten (color : Rgb) :
        info.written color = [color.r, color.g, color.b].take info.bytesPerPixel := by
      rw [written, hformat]
    have hbit {r g b v : U8} {i : ℕ} (hv : v.getLsbD 0 = true)
        (h₁ : HasBits (overwrite pixel 0 ([r, g, b].take info.bytesPerPixel)) i v)
        (h₀ : HasBits (overwrite pixel 0 (([0, 0, 0] : List U8).take info.bytesPerPixel)) i 0) :
        i / 8 < info.bytesPerPixel ∧ i < 24 ∧ bitAt [r, g, b] i ≠ bitAt [0, 0, 0] i := by
      obtain ⟨hi, hne⟩ := bitAt_ne_of_hasBits (by simp [hlen]) (by simp) h₁ h₀ (by simp [hv])
      rw [List.length_take] at hi
      simp only [List.length_cons, List.length_nil] at hi
      rw [bitAt_take (by omega), bitAt_take (by omega)] at hne
      exact ⟨by omega, by omega, hne⟩
    simp only [HasColor, hformat, hwritten] at h
    obtain ⟨hred₀, hgreen₀, hblue₀⟩ := h ⟨0, 0, 0⟩
    have hfirst : ∀ i < 24, bitAt ([1, 0, 0] : List U8) i ≠ bitAt [0, 0, 0] i → i = 0 := by decide
    have hsecond : ∀ i < 24, bitAt ([0, 1, 0] : List U8) i ≠ bitAt [0, 0, 0] i → i = 8 := by decide
    have hthird : ∀ i < 24, bitAt ([0, 0, 1] : List U8) i ≠ bitAt [0, 0, 0] i → i = 16 := by decide
    obtain ⟨-, hlt, hne⟩ := hbit rfl (h ⟨1, 0, 0⟩).1 hred₀
    have hred := hfirst red hlt hne
    obtain ⟨-, hlt, hne⟩ := hbit rfl (h ⟨0, 1, 0⟩).2.1 hgreen₀
    have hgreen := hsecond green hlt hne
    obtain ⟨hin, hlt, hne⟩ := hbit rfl (h ⟨0, 0, 1⟩).2.2 hblue₀
    have hblue := hthird blue hlt hne
    refine ⟨?_, fun red' green' blue' hformat' ↦ ?_⟩
    · rw [hblue] at hin
      rw [colorBytes, hformat, if_neg (by simp)]
      exact hin
    · cases hformat.symm.trans hformat'
      exact ⟨hred, hgreen, hblue⟩

/-- No two pixels share a byte, when no row reaches into the next one. -/
theorem index_apart (hrows : info.width ≤ info.stride ∨ info.height ≤ 1) (hx : x < info.width)
    (hy : y < info.height) (hx' : x' < info.width) (hy' : y' < info.height)
    (hne : ¬(x' = x ∧ y' = y)) :
    info.index x y + info.bytesPerPixel ≤ info.index x' y' ∨
      info.index x' y' + info.bytesPerPixel ≤ info.index x y := by
  have hrow : ∀ {x y x' y' : ℕ}, x < info.width → y' < info.height → y < y' →
      y * info.stride + x < y' * info.stride + x' := by
    intro x y x' y' hx hy' hlt
    have hstride : x < info.stride := by omega
    have hnext := Nat.mul_le_mul_right info.stride (Nat.succ_le_of_lt hlt)
    rw [Nat.succ_mul] at hnext
    omega
  have hlt : y * info.stride + x < y' * info.stride + x' ∨
      y' * info.stride + x' < y * info.stride + x := by
    rcases Nat.lt_trichotomy y y' with h | h | h
    · exact .inl (hrow hx hy' h)
    · subst h
      omega
    · exact .inr (hrow hx' hy h)
  refine hlt.imp (fun h ↦ ?_) fun h ↦ ?_
  all_goals
    have hmul := Nat.mul_le_mul_right info.bytesPerPixel (Nat.succ_le_of_lt h)
    rwa [Nat.succ_mul] at hmul

end FrameBufferInfo

namespace Display

open FrameBufferInfo

variable {d d' start : Display} {pic : Picture} {x y : ℕ} {color : Rgb}

/-- **A pixel is drawn** by its bytes being written, when it is in the buffer. -/
theorem drawPixel_eq_ok (hlen : d.buffer.length < 2 ^ 63) (hx : x < d.info.width)
    (hy : y < d.info.height) :
    d.drawPixel x y color = .ok d' ↔
      (d.info.needed ≤ d.info.bytesPerPixel ∧
        d.info.index x y + d.info.bytesPerPixel ≤ d.buffer.length) ∧
      { d with buffer := overwrite d.buffer (d.info.index x y) (d.info.written color) } = d' := by
  have hvisible : ¬(d.info.width ≤ x ∨ d.info.height ≤ y) := by omega
  rw [drawPixel, if_neg hvisible]
  constructor
  · intro h
    obtain ⟨row, hrow, h⟩ := Rust.bind_eq_ok.mp h
    obtain ⟨-, rfl⟩ := Rust.mul_eq_ok.mp hrow
    obtain ⟨i, hi, h⟩ := Rust.bind_eq_ok.mp h
    obtain ⟨-, rfl⟩ := Rust.add_eq_ok.mp hi
    obtain ⟨i, hi, h⟩ := Rust.bind_eq_ok.mp h
    obtain ⟨-, rfl⟩ := Rust.mul_eq_ok.mp hi
    obtain ⟨last, hlast, h⟩ := Rust.bind_eq_ok.mp h
    obtain ⟨-, rfl⟩ := Rust.add_eq_ok.mp hlast
    obtain ⟨pixel, hpixel, h⟩ := Rust.bind_eq_ok.mp h
    obtain ⟨⟨-, hin⟩, rfl⟩ := Rust.range_eq_ok.mp hpixel
    obtain ⟨pixel, hpaint, h⟩ := Rust.bind_eq_ok.mp h
    rw [Nat.add_sub_cancel_left, paint_eq (length_slice_of_le hin)] at hpaint
    split at hpaint
    · rename_i hneeded
      rw [← Except.ok.inj hpaint,
        overwrite_slice hin (length_written_le hneeded color)] at h
      exact ⟨⟨hneeded, hin⟩, Except.ok.inj h⟩
    · cases hpaint
  · rintro ⟨⟨hneeded, hin⟩, rfl⟩
    have hpos : 0 < d.info.bytesPerPixel := (needed_pos d.info).trans_le hneeded
    have hindex : y * d.info.stride + x ≤ d.info.index x y := Nat.le_mul_of_pos_right _ hpos
    rw [index] at hindex hin
    rw [Rust.mul_of_lt (by omega), Rust.ok_bind, Rust.add_of_lt (by omega), Rust.ok_bind,
      Rust.mul_of_lt (by omega), Rust.ok_bind, Rust.add_of_lt (by omega), Rust.ok_bind,
      Rust.range_of_le (by omega) hin, Rust.ok_bind, Nat.add_sub_cancel_left,
      paint_eq (length_slice_of_le hin), if_pos hneeded, Rust.ok_bind,
      overwrite_slice hin (length_written_le hneeded color)]
    rfl

theorem drawPixel_of_not_visible (h : ¬(x < d.info.width ∧ y < d.info.height)) :
    d.drawPixel x y color = .ok d :=
  if_pos (by omega)

theorem drawAll_singleton (d : Display) (draw : Draw) :
    d.drawAll [draw] = d.drawPixel draw.x draw.y draw.color := by
  simp [drawAll]

/-! ## What is shown -/

/-- Before anything is drawn. -/
theorem shows_start (start : Display) : start.Shows (pictureOf []) start :=
  ⟨rfl, rfl, fun _ _ _ _ _ h ↦ (by cases h), fun _ _ _ _ _ ↦ rfl, fun _ _ ↦ rfl⟩

/-- The pixel after bytes were written at its place. -/
theorem slice_overwrite_front {buffer bs : List U8} {i n : ℕ} (h : i + n ≤ buffer.length)
    (hle : bs.length ≤ n) :
    slice (overwrite buffer i bs) i n = overwrite (slice buffer i n) 0 bs := by
  have hpart : 0 + bs.length ≤ (slice buffer i n).length := by
    rw [length_slice_of_le h]
    omega
  apply List.ext_getElem?
  intro k
  rw [getElem?_slice, getElem?_overwrite (by omega), getElem?_overwrite hpart, getElem?_slice]
  by_cases hk : k < n
  · rw [if_pos hk, if_pos hk, Nat.add_sub_cancel_left, Nat.sub_zero]
    simp only [Nat.zero_le, true_and, Nat.zero_add, Nat.le_add_right, Nat.add_lt_add_iff_left]
  · rw [if_neg hk, if_neg hk, if_neg (by omega)]

/-- The bytes of a color are put where a visible pixel is. -/
theorem Shows.paint (h : start.Shows pic d) (hfits : start.Fits)
    (hrows : start.info.width ≤ start.info.stride ∨ start.info.height ≤ 1) {draw : Draw}
    (hx : draw.x < start.info.width) (hy : draw.y < start.info.height) :
    start.Shows (pic.draw draw) { d with
      buffer := overwrite d.buffer (start.info.index draw.x draw.y)
        (start.info.written draw.color) } := by
  obtain ⟨hinfo, hlength, hdrawn, hblank, hothers⟩ := h
  obtain ⟨hsuits, hin⟩ := hfits _ hx _ hy
  have hwritten := hsuits.length_written draw.color
  have hbytes := hsuits.bytes
  have hplace : start.info.index draw.x draw.y + (start.info.written draw.color).length ≤
      d.buffer.length := by omega
  -- another pixel shares no byte with it
  have hother {x y : ℕ} (hx' : x < start.info.width) (hy' : y < start.info.height)
      (hne : ¬(x = draw.x ∧ y = draw.y)) :
      slice (overwrite d.buffer (start.info.index draw.x draw.y)
        (start.info.written draw.color)) (start.info.index x y) start.info.bytesPerPixel =
          d.pixelAt x y := by
    have hapart := index_apart hrows hx hy hx' hy' hne
    rw [slice_overwrite_of_disjoint hplace (by omega), pixelAt, hinfo]
  refine ⟨hinfo, (length_overwrite hplace).trans hlength, fun x hx' y hy' color hcolor ↦ ?_,
    fun x hx' y hy' hnone ↦ ?_, fun i hi ↦ ?_⟩
  · rw [pixelAt, hinfo]
    rw [Picture.draw] at hcolor
    split at hcolor
    · rename_i hsame
      obtain ⟨rfl, rfl⟩ := hsame
      cases hcolor
      rw [slice_overwrite_front (by omega) (by omega)]
      exact hsuits.hasColor (length_slice_of_le (by omega)) _
    · rename_i hne
      rw [hother hx' hy' hne]
      exact hdrawn x hx' y hy' color hcolor
  · rw [pixelAt, hinfo]
    rw [Picture.draw] at hnone
    split at hnone
    · cases hnone
    · rename_i hne
      rw [hother hx' hy' hne]
      exact hblank x hx' y hy' hnone
  · have hout := hi _ hx _ hy
    rw [getElem?_overwrite hplace, if_neg (by omega), hothers i hi]

/-- What is shown depends on the visible part of the picture. -/
theorem Shows.congr {pic' : Picture} (h : start.Shows pic d)
    (heq : ∀ x < start.info.width, ∀ y < start.info.height, pic' x y = pic x y) :
    start.Shows pic' d where
  info := h.info
  length := h.length
  drawn x hx y hy color hcolor := h.drawn x hx y hy color ((heq x hx y hy).symm.trans hcolor)
  blank x hx y hy hnone := h.blank x hx y hy ((heq x hx y hy).symm.trans hnone)
  others := h.others

/-- **What is drawn next is shown too.** -/
theorem Shows.draw (h : start.Shows pic d) (hlen : start.buffer.length < 2 ^ 63)
    (hfits : start.Fits) (hrows : start.info.width ≤ start.info.stride ∨ start.info.height ≤ 1)
    (draw : Draw) :
    ∃ d', d.drawPixel draw.x draw.y draw.color = .ok d' ∧ start.Shows (pic.draw draw) d' := by
  have hinfo := h.info
  have hlength := h.length
  by_cases hvisible : draw.x < start.info.width ∧ draw.y < start.info.height
  · obtain ⟨hx, hy⟩ := hvisible
    obtain ⟨hsuits, hin⟩ := hfits _ hx _ hy
    refine ⟨_, ?_, h.paint hfits hrows hx hy⟩
    rw [drawPixel_eq_ok (by rwa [hlength]) (by rwa [hinfo]) (by rwa [hinfo]), hinfo, hlength]
    exact ⟨⟨hsuits.needed_le, hin⟩, rfl⟩
  · refine ⟨d, drawPixel_of_not_visible (by rwa [hinfo]), h.congr fun x hx y hy ↦ ?_⟩
    rw [Picture.draw, if_neg]
    rintro ⟨rfl, rfl⟩
    exact hvisible ⟨hx, hy⟩

/-- **Any number of draws.** -/
theorem Shows.drawAll (h : start.Shows pic d) (hlen : start.buffer.length < 2 ^ 63)
    (hfits : start.Fits) (hrows : start.info.width ≤ start.info.stride ∨ start.info.height ≤ 1)
    (draws : List Draw) :
    ∃ d', d.drawAll draws = .ok d' ∧ start.Shows (draws.foldl Picture.draw pic) d' := by
  induction draws generalizing d pic with
  | nil => exact ⟨d, rfl, h⟩
  | cons draw draws ih =>
    obtain ⟨d₁, hdraw, hshows⟩ := h.draw hlen hfits hrows draw
    obtain ⟨d', hrest, hshows'⟩ := ih hshows
    refine ⟨d', ?_, hshows'⟩
    rw [drawAll, List.foldlM_cons, hdraw]
    exact hrest

/-- Every pixel is changed by some color. -/
theorem exists_overwrite_ne {info : FrameBufferInfo} {pixel : List U8}
    (hlen : pixel.length = info.bytesPerPixel) (hneeded : info.needed ≤ info.bytesPerPixel) :
    ∃ color, overwrite pixel 0 (info.written color) ≠ pixel := by
  have hfirst (color : Rgb) : (overwrite pixel 0 (info.written color))[0]? =
      (info.written color)[0]? := by
    have hle := length_written_le hneeded color
    have hpos := (needed_pos info).trans_le hneeded
    have hfront : 0 < (info.written color).length := by
      rw [written]
      cases info.pixelFormat <;> simp [hpos]
    rw [getElem?_overwrite (by omega), if_pos (by omega)]
  have htwo : (info.written ⟨0, 0, 0⟩)[0]? ≠ (info.written ⟨1, 1, 1⟩)[0]? := by
    obtain ⟨n, hn⟩ := Nat.exists_eq_succ_of_ne_zero ((needed_pos info).trans_le hneeded).ne'
    rw [written, written]
    cases info.pixelFormat <;> simp [Rgb.gray, hn]
  by_contra hall
  push Not at hall
  exact htwo (by rw [← hfirst, ← hfirst, hall, hall])

/-- **The screen is right**, whatever is drawn, if and only if all visible pixels are in the buffer
and suit the driver, and the rows do not overlap. -/
theorem display_right_iff (hlen : start.buffer.length < 2 ^ 63) :
    (∀ draws, ∃ d', start.drawAll draws = .ok d' ∧ start.Shows (pictureOf draws) d') ↔
      start.Fits ∧ (start.info.width ≤ start.info.stride ∨ start.info.height ≤ 1) := by
  constructor
  · intro h
    have hone {x y : ℕ} (color : Rgb) (hx : x < start.info.width) (hy : y < start.info.height) :
        (start.info.needed ≤ start.info.bytesPerPixel ∧
          start.info.index x y + start.info.bytesPerPixel ≤ start.buffer.length) ∧
        start.Shows (pictureOf [⟨x, y, color⟩]) { start with
          buffer := overwrite start.buffer (start.info.index x y) (start.info.written color) } := by
      obtain ⟨d', hdraw, hshows⟩ := h [⟨x, y, color⟩]
      rw [drawAll_singleton, drawPixel_eq_ok hlen hx hy] at hdraw
      exact ⟨hdraw.1, hdraw.2 ▸ hshows⟩
    -- the pixel after a color was drawn
    have hpixel {x y : ℕ} (color : Rgb) (hx : x < start.info.width) (hy : y < start.info.height) :
        slice (overwrite start.buffer (start.info.index x y) (start.info.written color))
          (start.info.index x y) start.info.bytesPerPixel =
            overwrite (start.pixelAt x y) 0 (start.info.written color) := by
      obtain ⟨hneeded, hin⟩ := (hone color hx hy).1
      exact slice_overwrite_front hin (length_written_le hneeded color)
    refine ⟨fun x hx y hy ↦ ?_, ?_⟩
    · obtain ⟨hneeded, hin⟩ := (hone ⟨0, 0, 0⟩ hx hy).1
      refine ⟨suits_of_hasColor (length_slice_of_le hin) hneeded fun color ↦ ?_, hin⟩
      have hcolor := (hone color hx hy).2.drawn x hx y hy color (by simp [pictureOf, Picture.draw])
      rw [pixelAt, hpixel color hx hy] at hcolor
      exact hcolor
    · by_contra hrows
      push Not at hrows
      -- the first pixel of the second row has the place of one in the first row
      have hfirst : 0 < start.info.width := by omega
      have hsame : start.info.index start.info.stride 0 = start.info.index 0 1 := by
        simp [index]
      obtain ⟨hneeded, hin⟩ := (hone ⟨0, 0, 0⟩ hfirst hrows.2).1
      obtain ⟨color, hcolor⟩ := exists_overwrite_ne (length_slice_of_le hin) hneeded
      have hblank := (hone color hfirst hrows.2).2.blank start.info.stride hrows.1 0 (by omega)
        (by simp [pictureOf, Picture.draw])
      rw [pixelAt, pixelAt, hsame, hpixel color hfirst hrows.2] at hblank
      exact hcolor hblank
  · rintro ⟨hfits, hrows⟩ draws
    exact (shows_start start).drawAll hlen hfits hrows draws

/-- With blue in the first byte, in a format without a name, red is shown as blue. -/
theorem display_wrong : ¬∀ draws, ∃ d',
    (⟨⟨1, 1, .unknown 16 8 0, 4, 1⟩, List.replicate 4 0⟩ : Display).drawAll draws = .ok d' ∧
      Shows ⟨⟨1, 1, .unknown 16 8 0, 4, 1⟩, List.replicate 4 0⟩ (pictureOf draws) d' := by
  intro h
  have hsuits := (((display_right_iff (by simp)).mp h).1 0 (by simp) 0 (by simp)).1
  have horder := hsuits.order 16 8 0 rfl
  simp at horder

end Display

end LeonOS
