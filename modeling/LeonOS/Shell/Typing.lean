import LeonOS.Shell.Keyboard
import LeonOS.Shell.Loop

/-!
# What can be typed

`run_shell` reads its bytes from `keyboard_read_ascii_nonblocking`.  Which lines the shell is given
depends on both: on the table of `scancode_to_ascii`, which knows the keys of letters, digits and
the row above them only, and on the line editor.

`executed_iff` says exactly which lines can be given to `exec_command` by pressing keys: those of at
most 256 characters from `lineChars`.  For each of them there is a way to type it (`press`), and
nothing else comes out of the keyboard whatever the ports return.  There is no period among the
characters, so the file `initrd.txt` that `build.rs` puts on every ramdisk cannot be named at the
prompt.
-/

set_option autoImplicit false

namespace LeonOS

/-! ## The keyboard as a stream -/

/-- What `read_input` returns, poll by poll, with `SHIFT_DOWN` before the first. -/
def keyboardReads : Bool → List Poll → List (Option U8)
  | _, [] => []
  | shiftDown, p :: ps =>
    (keyboardReadAsciiNonblocking p shiftDown).1 ::
      keyboardReads (keyboardReadAsciiNonblocking p shiftDown).2 ps

/-- `SHIFT_DOWN` after these polls. -/
def shiftAfter (shiftDown : Bool) (ps : List Poll) : Bool :=
  ps.foldl (fun shiftDown p ↦ (keyboardReadAsciiNonblocking p shiftDown).2) shiftDown

/-- The characters of the keys that stay on a line. -/
def lineChars : List Char :=
  ['1', '!', '2', '@', '3', '#', '4', '$', '5', '%', '6', '^', '7', '&', '8', '*', '9', '(',
    '0', ')', '-', '_', '=', '+', 'q', 'Q', 'w', 'W', 'e', 'E', 'r', 'R', 't', 'T', 'y', 'Y',
    'u', 'U', 'i', 'I', 'o', 'O', 'p', 'P', 'a', 'A', 's', 'S', 'd', 'D', 'f', 'F', 'g', 'G',
    'h', 'H', 'j', 'J', 'k', 'K', 'l', 'L', 'z', 'Z', 'x', 'X', 'c', 'C', 'v', 'V', 'b', 'B',
    'n', 'N', 'm', 'M', ' ']

/-- The byte of a character. -/
def charByte (ch : Char) : U8 := BitVec.ofNat 8 ch.toNat

/-- Their bytes. -/
def lineBytes : List U8 := lineChars.map charByte

variable {ps ps' : List Poll} {p : Poll} {b sc : U8} {bs : List U8} {shift shiftDown : Bool}

theorem keyboardReads_append (ps ps' : List Poll) (shiftDown : Bool) :
    keyboardReads shiftDown (ps ++ ps') =
      keyboardReads shiftDown ps ++ keyboardReads (shiftAfter shiftDown ps) ps' := by
  induction ps generalizing shiftDown with
  | nil => rfl
  | cons p ps ih => rw [List.cons_append, keyboardReads, ih, keyboardReads, List.cons_append]; rfl

/-- What comes out of the keyboard has a key. -/
theorem exists_key_of_mem_reads (h : some b ∈ keyboardReads shiftDown ps) :
    ∃ sc shift, scancodeToAscii sc shift = some b := by
  induction ps generalizing shiftDown with
  | nil => exact nomatch h
  | cons p ps ih =>
    rw [keyboardReads, List.mem_cons] at h
    obtain h | h := h
    · cases hsc : p.scancode with
      | none =>
        rw [keyboardRead_none hsc] at h
        exact nomatch h
      | some sc =>
        rw [keyboardRead_some hsc] at h
        by_cases hshift : IsShift sc
        · rw [keyboardScancode_shift hshift] at h
          exact nomatch h
        · rw [keyboardScancode_other hshift] at h
          exact ⟨sc, shiftDown, h.symm⟩
    · exact ih h

/-! ## Pressing keys -/

/-- The keys, without and with a shift key. -/
def keys : List (U8 × Bool) :=
  (List.range 0x40).flatMap fun sc ↦ [(BitVec.ofNat 8 sc, false), (BitVec.ofNat 8 sc, true)]

/-- The key of a byte, and whether it takes a shift key: the first in the table. -/
def keyOf (b : U8) : Option (U8 × Bool) :=
  keys.find? fun key ↦ scancodeToAscii key.1 key.2 = some b

/-- A byte is typed: the key is pressed and released, with a shift key around it if need be. -/
def press (b : U8) : List Poll :=
  match keyOf b with
  | some (sc, true) =>
    [scancodePoll 0x2A, scancodePoll sc, scancodePoll (sc ||| 0x80), scancodePoll 0xAA]
  | some (sc, false) => [scancodePoll sc, scancodePoll (sc ||| 0x80)]
  | none => []

/-- Some bytes are typed. -/
def presses (bs : List U8) : List Poll := bs.flatMap press

/-- Their bytes. -/
def keyBytes : List U8 := keys.filterMap fun key ↦ scancodeToAscii key.1 key.2

/-- The keys in their order have the characters of a line, besides Enter and Backspace. -/
theorem filter_keyBytes :
    keyBytes.filter (fun b ↦ b ≠ 0x0A ∧ b ≠ 8) = lineBytes ++ [0x20] := by
  decide +kernel

set_option maxRecDepth 4000 in
theorem scancodeToAscii_of_le (h : 0x40 ≤ sc) (shift : Bool) : scancodeToAscii sc shift = none := by
  revert sc shift
  decide

/-- **The table**: Enter, Backspace, and the characters of a line. -/
theorem mem_lineBytes_of_key (h : scancodeToAscii sc shift = some b) :
    b = 0x0A ∨ b = 8 ∨ b ∈ lineBytes := by
  have hlt : sc.toNat < 0x40 := by
    by_contra hle
    rw [scancodeToAscii_of_le (BitVec.le_def.mpr (not_lt.mp hle))] at h
    exact nomatch h
  have hkey : (sc, shift) ∈ keys := by
    refine List.mem_flatMap.mpr ⟨sc.toNat, List.mem_range.mpr hlt, ?_⟩
    rw [BitVec.ofNat_toNat, BitVec.setWidth_eq]
    cases shift <;> simp
  have hmem : b ∈ keyBytes := List.mem_filterMap.mpr ⟨(sc, shift), hkey, h⟩
  by_cases hother : b ≠ 0x0A ∧ b ≠ 8
  · have hfilter : b ∈ keyBytes.filter (fun b ↦ b ≠ 0x0A ∧ b ≠ 8) :=
      List.mem_filter.mpr ⟨hmem, decide_eq_true hother⟩
    rw [filter_keyBytes] at hfilter
    refine .inr (.inr ((List.mem_append.mp hfilter).elim id fun hspace ↦ ?_))
    rw [List.mem_singleton.mp hspace]
    exact List.mem_map.mpr ⟨' ', by decide, rfl⟩
  · rw [not_and_or, not_not, not_not] at hother
    exact hother.imp_right .inl

/-- Enter and the bytes of a line have a key. -/
theorem exists_keyOf (hb : b ∈ 0x0A :: lineBytes) :
    ∃ sc shift, keyOf b = some (sc, shift) ∧ scancodeToAscii sc shift = some b := by
  have hmem : b ∈ keyBytes := by
    obtain rfl | hb := List.mem_cons.mp hb
    · exact List.mem_filterMap.mpr ⟨(0x1C, false), by decide, rfl⟩
    · refine List.mem_of_mem_filter (p := fun b ↦ b ≠ 0x0A ∧ b ≠ 8) ?_
      rw [filter_keyBytes]
      exact List.mem_append_left _ hb
  obtain ⟨key, hkey, hsome⟩ := List.mem_filterMap.mp hmem
  cases hfind : keyOf b with
  | none => exact absurd (by simpa using hsome) (List.find?_eq_none.mp hfind key hkey)
  | some key' => exact ⟨key'.1, key'.2, rfl, by simpa using List.find?_some hfind⟩

/-- A key that has a character is pressed and released. -/
theorem keyboardScancode_of_key (h : scancodeToAscii sc shift = some b) :
    keyboardScancode sc shift = (some b, shift) ∧
      keyboardScancode (sc ||| 0x80) shift = (none, shift) := by
  have hsc : ¬(sc &&& 0x80 ≠ 0 ∨ IsShift sc) := fun hno ↦
    nomatch h.symm.trans (scancodeToAscii_eq_none hno shift)
  rw [not_or, not_not] at hsc
  have hrelease : ∀ sc : U8, sc &&& 0x80 = 0 ∧ ¬(sc = 0x2A ∨ sc = 0x36) →
      (sc ||| 0x80) &&& 0x80 ≠ 0 ∧ ¬(sc ||| 0x80 = 0x2A ∨ sc ||| 0x80 = 0x36 ∨
        sc ||| 0x80 = 0xAA ∨ sc ||| 0x80 = 0xB6) := by decide +kernel
  obtain ⟨hhigh, hother⟩ := hrelease sc ⟨hsc.1, fun hshift ↦ hsc.2 (hshift.imp_right .inl)⟩
  rw [keyboardScancode_other hsc.2, keyboardScancode_other hother, h,
    scancodeToAscii_eq_none (.inl hhigh)]
  exact ⟨rfl, rfl⟩

theorem scancode_scancodePoll (sc : U8) : (scancodePoll sc).scancode = some sc := by
  have hready : ¬(0x01 : U8) &&& 0x01 = 0 := by decide
  exact if_neg hready

/-- A key gives its byte, and leaves the shift keys up. -/
theorem reads_press (hb : b ∈ 0x0A :: lineBytes) :
    (keyboardReads false (press b)).filterMap id = [b] ∧ shiftAfter false (press b) = false := by
  obtain ⟨sc, shift, hkey, hsc⟩ := exists_keyOf hb
  obtain ⟨hpress, hrelease⟩ := keyboardScancode_of_key hsc
  have hdown : keyboardScancode 0x2A false = (none, true) := rfl
  have hup : keyboardScancode 0xAA true = (none, false) := rfl
  rw [press, hkey]
  cases shift <;>
    simp only [keyboardReads, shiftAfter, keyboardRead_some (scancode_scancodePoll _), hpress,
      hrelease, hdown, hup, List.foldl_cons, List.foldl_nil, List.filterMap_cons, id_eq,
      List.filterMap_nil, and_self]

/-- **What is typed is read**, byte by byte. -/
theorem reads_presses (h : ∀ b ∈ bs, b ∈ 0x0A :: lineBytes) :
    (keyboardReads false (presses bs)).filterMap id = bs := by
  induction bs with
  | nil => rfl
  | cons b bs ih =>
    obtain ⟨hb, htail⟩ := List.forall_mem_cons.mp h
    obtain ⟨hread, hshift⟩ := reads_press hb
    rw [presses, List.flatMap_cons, ← presses, keyboardReads_append, List.filterMap_append, hread,
      hshift, ih htail, List.singleton_append]

/-! ## Lines -/

/-- Polls that find nothing do nothing. -/
theorem foldl_poll_filterMap (t : Typed) (polls : List (Option U8)) :
    polls.foldl Typed.poll t = ((polls.filterMap id).map some).foldl Typed.poll t := by
  induction polls generalizing t with
  | nil => rfl
  | cons poll polls ih =>
    cases poll with
    | none => exact ih t
    | some byte => exact ih (t.poll (some byte))

/-- Printable bytes are held as long as there is room. -/
theorem foldl_poll_printable (lines : List (List U8)) (held : List U8)
    (h : ∀ b ∈ bs, IsPrintable b) (hlen : held.length + bs.length ≤ lineSize) :
    (bs.map some).foldl Typed.poll ⟨lines, held⟩ = ⟨lines, held ++ bs⟩ := by
  induction bs generalizing held with
  | nil => rw [List.append_nil]; rfl
  | cons b bs ih =>
    obtain ⟨hb, htail⟩ := List.forall_mem_cons.mp h
    rw [List.length_cons] at hlen
    have hpoll : Typed.poll ⟨lines, held⟩ (some b) = ⟨lines, held ++ [b]⟩ := by
      have hroom : held.length < lineSize := by omega
      rw [Typed.poll, if_neg hb.not_lineEnd, edit, if_pos hb, if_pos hroom]
    rw [List.map_cons, List.foldl_cons, hpoll, ih (held ++ [b]) htail ?_, List.append_assoc,
      List.singleton_append]
    rw [List.length_append, List.length_singleton]
    omega

theorem printable_of_lineBytes (h : b ∈ lineBytes) : IsPrintable b := by
  have hall : lineBytes.all fun b ↦ IsPrintable b := by decide +kernel
  simpa using List.all_eq_true.mp hall b h

theorem ofNat_charByte {ch : Char} (h : ch ∈ lineChars) : Char.ofNat (charByte ch).toNat = ch := by
  have hall : lineChars.all fun ch ↦ Char.ofNat (charByte ch).toNat = ch := by decide +kernel
  simpa using List.all_eq_true.mp hall ch h

/-- A text of the table, as bytes. -/
structure OfKeys (s : String) (bs : List U8) : Prop where
  /-- They are the bytes of the text. -/
  asBytes : Rust.asBytes s = bs
  /-- And it is their text. -/
  asText : asText bs = s
  /-- One for each character. -/
  length : bs.length = s.length
  /-- They have keys. -/
  mem : ∀ b ∈ bs, b ∈ lineBytes

theorem ofKeys {s : String} (h : ∀ ch ∈ s.toList, ch ∈ lineChars) :
    OfKeys s (s.toList.map charByte) := by
  have hbytes : ∀ b ∈ s.toList.map charByte, b ∈ lineBytes := by
    intro b hb
    obtain ⟨ch, hch, rfl⟩ := List.mem_map.mp hb
    exact List.mem_map_of_mem (h ch hch)
  have hid : s.toList.map ((fun b : U8 ↦ Char.ofNat b.toNat) ∘ charByte) = s.toList.map id :=
    List.map_congr_left fun ch hch ↦ ofNat_charByte (h ch hch)
  have htext : asText (s.toList.map charByte) = s := by
    rw [asText, List.map_map, hid, List.map_id, String.ofList_toList]
  refine ⟨?_, htext, by rw [List.length_map, String.length_toList], hbytes⟩
  conv_lhs => rw [← htext]
  refine asBytes_asText fun b hb ↦ ?_
  have hle : b ≤ 0x7E := (printable_of_lineBytes (hbytes b hb)).2
  rw [BitVec.le_def] at hle
  exact hle.trans_lt (by decide)

/-- The keys of a line, and Enter. -/
def pressLine (s : String) : List Poll := presses (Rust.asBytes s ++ [0x0A])

theorem reads_pressLine {s : String} (h : ∀ ch ∈ s.toList, ch ∈ lineChars) :
    (keyboardReads false (pressLine s)).filterMap id = Rust.asBytes s ++ [0x0A] := by
  refine reads_presses fun b hb ↦ ?_
  obtain hb | hb := List.mem_append.mp hb
  · rw [(ofKeys h).asBytes] at hb
    exact List.mem_cons_of_mem _ ((ofKeys h).mem b hb)
  · exact List.mem_cons.mpr (.inl (List.mem_singleton.mp hb))

/-- Bytes of a line, and not too many. -/
structure LineOk (held : List U8) : Prop where
  /-- They are in the table. -/
  mem : ∀ b ∈ held, b ∈ lineBytes
  /-- There is room for them. -/
  length_le : held.length ≤ lineSize

theorem lineOk_nil : LineOk [] := ⟨fun _ h ↦ absurd h List.not_mem_nil, Nat.zero_le _⟩

/-- The bytes that come from the keyboard keep the line in the table. -/
theorem LineOk.edit {held : List U8} (h : LineOk held) (hend : ¬IsLineEnd b)
    (hb : b = 0x0A ∨ b = 8 ∨ b ∈ lineBytes) : LineOk (edit held b) := by
  obtain rfl | rfl | hb := hb
  · exact absurd (.inr rfl) hend
  · exact ⟨fun b hb ↦ h.mem b (List.dropLast_subset _ hb), by
      have := h.length_le
      simp [LeonOS.edit, IsPrintable, IsErase]
      omega⟩
  · rw [LeonOS.edit, if_pos (printable_of_lineBytes hb)]
    split
    · refine ⟨fun b' hb' ↦ ?_, by rw [List.length_append, List.length_singleton]; omega⟩
      obtain hb' | rfl := (List.mem_append.mp hb').imp_right List.mem_singleton.mp
      · exact h.mem b' hb'
      · exact hb
    · exact h

/-- Whatever keys are pressed, the lines are in the table. -/
theorem lineOk_foldl {polls : List (Option U8)} {t : Typed} (hheld : LineOk t.held)
    (hlines : ∀ line ∈ t.lines, LineOk line)
    (hpolls : ∀ b, some b ∈ polls → b = 0x0A ∨ b = 8 ∨ b ∈ lineBytes) :
    ∀ line ∈ (polls.foldl Typed.poll t).lines, LineOk line := by
  induction polls generalizing t with
  | nil => exact hlines
  | cons poll polls ih =>
    have hrest : ∀ b, some b ∈ polls → b = 0x0A ∨ b = 8 ∨ b ∈ lineBytes :=
      fun b hb ↦ hpolls b (List.mem_cons_of_mem _ hb)
    cases poll with
    | none => exact ih hheld hlines hrest
    | some byte =>
      rw [List.foldl_cons, Typed.poll]
      split
      · refine ih lineOk_nil (fun line hline ↦ ?_) hrest
        obtain hline | rfl := (List.mem_append.mp hline).imp_right List.mem_singleton.mp
        · exact hlines line hline
        · exact hheld
      · rename_i hend
        exact ih (hheld.edit hend (hpolls byte List.mem_cons_self)) hlines hrest

/-- A line that is executed consists of the characters of keys. -/
theorem lineOk_of_executed {s : String} (h : s ∈ (typed (keyboardReads shiftDown ps)).inputs) :
    s.length ≤ lineSize ∧ ∀ ch ∈ s.toList, ch ∈ lineChars := by
  obtain ⟨line, hline, rfl⟩ := List.mem_map.mp h
  have hok : LineOk line := by
    have hnone : ∀ line ∈ Typed.start.lines, LineOk line :=
      fun _ h ↦ absurd h List.not_mem_nil
    refine lineOk_foldl (t := .start) lineOk_nil hnone (fun b hb ↦ ?_) line hline
    obtain ⟨sc, shift, hkey⟩ := exists_key_of_mem_reads hb
    exact mem_lineBytes_of_key hkey
  have htext : (asText line).toList = line.map fun b ↦ Char.ofNat b.toNat := String.toList_ofList
  constructor
  · rw [← String.length_toList, htext, List.length_map]
    exact hok.length_le
  · rw [htext]
    intro ch hch
    obtain ⟨b, hb, rfl⟩ := List.mem_map.mp hch
    obtain ⟨ch, hmem, rfl⟩ := List.mem_map.mp (hok.mem b hb)
    rwa [ofNat_charByte hmem]

/-- **The lines that can be executed** by pressing keys: those of at most 256 characters of the
table, and no others. -/
theorem executed_iff (s : String) :
    (∃ ps, s ∈ (typed (keyboardReads false ps)).inputs) ↔
      s.length ≤ 256 ∧ ∀ ch ∈ s.toList, ch ∈ lineChars := by
  constructor
  · rintro ⟨ps, h⟩
    exact lineOk_of_executed h
  · rintro ⟨hlen, hchars⟩
    have hkeys := ofKeys hchars
    have hroom : ([] : List U8).length + (s.toList.map charByte).length ≤ lineSize := by
      rw [hkeys.length, List.length_nil, Nat.zero_add]
      exact hlen
    refine ⟨pressLine s, ?_⟩
    rw [typed, foldl_poll_filterMap, reads_pressLine hchars, hkeys.asBytes, List.map_append,
      List.foldl_append, Typed.start,
      foldl_poll_printable [] [] (fun b hb ↦ printable_of_lineBytes (hkeys.mem b hb)) hroom]
    simp [Typed.poll, IsLineEnd, Typed.inputs, hkeys.asText]

end LeonOS
