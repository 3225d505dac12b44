import LeonOS.Fs.RoundTrip
import LeonOS.Kernel.Names
import LeonOS.Shell.Prompt
import LeonOS.Shell.Typing
import Mathlib.Data.List.Basic

/-!
# Files, from the build to the screen

The files that `build_lfs1` has put into the ramdisk, as somebody at the keyboard gets to see them:
`ls` prints a line for each of them in their order, `stat` and `cat` find the first of a name
(`ShowsFiles`), and this is what appears on the screen when the keys of the command are pressed
(`typed_cat`).

A name with a character that no key has is never that of a file that a command opens
(`never_named`): `initrd.txt`, which every ramdisk begins with, is listed but cannot be shown.
-/

set_option autoImplicit false

namespace LeonOS

open RustM Console Build

/-! ## What the commands print -/

/-- A byte as `cat` shows it. -/
def shown (b : U8) : U8 := if b = 0x0A ∨ b = 0x0D ∨ 0x20 ≤ b ∧ b ≤ 0x7E then b else 0x2E

/-- The listing of `ls`. -/
def listing (files : List BuildFile) : List U8 :=
  files.flatMap fun file ↦ Rust.asBytes (listLine (recordOf file 0))

/-- What `stat` prints. -/
def statText (files : List BuildFile) (name : String) : List U8 :=
  match files.find? (·.name = name) with
  | some file => Rust.asBytes
    s!"name={file.name} size={file.data.length} mode={octal file.mode.toNat}\n"
  | none => Rust.asBytes "stat: NotFound\n"

/-- What `cat` prints. -/
def catText (files : List BuildFile) (name : String) : List U8 :=
  match files.find? (·.name = name) with
  | some file => file.data.map shown ++ Rust.asBytes "\n"
  | none => Rust.asBytes "cat: NotFound\n"

/-- The terminal with some bytes more. -/
def Os.show (os : Os) (text : List U8) : Os := ⟨os.world, os.screen ++ text⟩

/-- **A shell on these files.** -/
structure ShowsFiles (c : Console) (files : List BuildFile) : Prop where
  /-- `ls`. -/
  ls : ∀ input os, trimmed input = "ls" →
    execCommand c.handleCustomCommand input os = .ok () (os.show (listing files))
  /-- `stat`. -/
  stat : ∀ input arg os, stripPrefix "stat " (trimmed input) = some arg →
    execCommand c.handleCustomCommand input os = .ok () (os.show (statText files (trimmed arg)))
  /-- `cat`. -/
  cat : ∀ input arg os, stripPrefix "cat " (trimmed input) = some arg →
    execCommand c.handleCustomCommand input os = .ok () (os.show (catText files (trimmed arg)))

section Shows

variable {c : Console} {files : List BuildFile} {image : Image} {cmd input arg name word : String}
  {os os' : Os}

/-- A text after a prefix. -/
theorem toList_of_stripPrefix {pre : String} (h : stripPrefix pre cmd = some arg) :
    cmd.toList = pre.toList ++ arg.toList := by
  rw [stripPrefix, Option.map_eq_some_iff] at h
  obtain ⟨l, hl, rfl⟩ := h
  rw [String.toList_ofList, List.isPrefixOf?_eq_some_iff_append_eq.mp hl]

/-- A text does not begin with two letters. -/
theorem stripPrefix_eq_none {pre pre' : String} {a b : Char} (h : stripPrefix pre cmd = some arg)
    (hpre : pre.toList.head? = some a) (hpre' : pre'.toList.head? = some b) (hab : a ≠ b) :
    stripPrefix pre' cmd = none := by
  cases hcmd : stripPrefix pre' cmd with
  | none => rfl
  | some arg' =>
    have ha : cmd.toList.head? = some a := by
      rw [toList_of_stripPrefix h, List.head?_append, hpre, Option.some_or]
    have hb : cmd.toList.head? = some b := by
      rw [toList_of_stripPrefix hcmd, List.head?_append, hpre', Option.some_or]
    exact absurd (Option.some_inj.mp (ha.symm.trans hb)) hab

/-- What the command line begins with tells it from other words. -/
theorem ne_of_stripPrefix {pre : String} (h : stripPrefix pre cmd = some arg)
    (hword : stripPrefix pre word = none) : cmd ≠ word := by
  rintro rfl
  exact nomatch h.symm.trans hword

/-- The line is one of a custom command. -/
theorem execCommand_of_custom
    (hmem : trimmed input ∉ ["", "help", "about", "clear", "halt", "echo"])
    (hecho : stripPrefix "echo " (trimmed input) = none)
    (h : c.handleCustomCommand (trimmed input) os = .ok true os') :
    execCommand c.handleCustomCommand input os = .ok () os' := by
  simp only [List.mem_cons, List.not_mem_nil, or_false, not_or] at hmem
  obtain ⟨h₁, h₂, h₃, h₄, h₅, h₆⟩ := hmem
  rw [execCommand]
  simp only [h₁, h₂, h₃, h₄, h₅, h₆, hecho, ite_false]
  exact bind_eq_ok.mpr ⟨true, os', h, rfl⟩

theorem Os.show_show (os : Os) (text text' : List U8) :
    (os.show text).show text' = os.show (text ++ text') := by
  simp [Os.show]

/-- `open`, on an image that was built. -/
theorem open_built (h : Fits files) (name : String) :
    (∃ rec, files.find? (·.name = name) = some rec.contents ∧
      Fs.open (lfs1 files) name = .ok rec) ∨
    files.find? (·.name = name) = none ∧ Fs.open (lfs1 files) name = .error (.err .notFound) := by
  have hopen := open_lfs1 h name
  cases hfind : files.find? (·.name = name) with
  | none =>
    rw [hfind, Rust.okOr_none] at hopen
    rcases hrun : Fs.open (lfs1 files) name with e | rec
    · rw [hrun] at hopen
      exact .inr ⟨rfl, congrArg _ (Except.error.inj hopen)⟩
    · rw [hrun] at hopen
      exact nomatch hopen
  | some file =>
    rw [hfind, Rust.okOr_some] at hopen
    rcases hrun : Fs.open (lfs1 files) name with e | rec
    · rw [hrun] at hopen
      exact nomatch hopen
    · rw [hrun] at hopen
      exact .inl ⟨rec, congrArg _ (Except.ok.inj hopen).symm, rfl⟩

theorem lsCommand_built (h : Fits files) (hdisk : c.ramdisk = some image)
    (himage : image.bytes = lfs1 files) (os : Os) :
    c.lsCommand os = .ok () (os.show (listing files)) := by
  have hrecs : (records (headerSize + files.length * entrySize) files).flatMap
      (fun rec ↦ Rust.asBytes (listLine rec)) = listing files := by
    conv_rhs => rw [listing, ← map_contents_records (headerSize + files.length * entrySize) files,
      List.flatMap_map]
    rfl
  have hlist : result (Fs.list image.bytes fun os rec ↦ os.print (listLine rec)) os =
      (.ok (.ok ()) (os.show (listing files)) : EStateM.Result (Fault Halted) Os _) := by
    rw [result, himage, list_lfs1 h, foldl_listLine, hrecs]
    rfl
  rw [lsCommand, hdisk]
  exact bind_eq_ok.mpr ⟨_, _, hlist, rfl⟩

theorem statCommand_built (h : Fits files) (hdisk : c.ramdisk = some image)
    (himage : image.bytes = lfs1 files) (os : Os) :
    c.statCommand arg os = .ok () (os.show (statText files (trimmed arg))) := by
  rw [statCommand, hdisk, statText]
  dsimp only
  obtain ⟨rec, hfind, hopen⟩ | ⟨hfind, hopen⟩ := open_built h (trimmed arg)
  · rw [himage, hopen, hfind]
    rfl
  · rw [himage, hopen, hfind]
    rfl

/-- The loop of `cat`. -/
theorem forM_shown (data : List U8) (os : Os) :
    (data.forM fun b ↦ Console.process
        [if b = 0x0A ∨ b = 0x0D ∨ 0x20 ≤ b ∧ b ≤ 0x7E then b else 0x2E] : ShellM Unit) os =
      .ok () (os.show (data.map shown)) := by
  induction data generalizing os with
  | nil => simp [Os.show, pure, EStateM.pure]
  | cons b data ih =>
    refine bind_eq_ok.mpr ⟨(), os.show [shown b], rfl, (ih _).trans ?_⟩
    simp [Os.show]

theorem catCommand_built (h : Fits files) (hdisk : c.ramdisk = some image)
    (himage : image.bytes = lfs1 files) (os : Os) :
    c.catCommand arg os = .ok () (os.show (catText files (trimmed arg))) := by
  rw [catCommand, hdisk, catText]
  dsimp only
  obtain ⟨rec, hfind, hopen⟩ | ⟨hfind, hopen⟩ := open_built h (trimmed arg)
  · rw [himage, hopen, hfind]
    refine bind_eq_ok.mpr ⟨.ok rec, os, rfl, bind_eq_ok.mpr ⟨(), _, forM_shown rec.data os, ?_⟩⟩
    exact congrArg _ (Os.show_show os _ _)
  · rw [himage, hopen, hfind]
    rfl

/-- **What was built is shown.** -/
theorem showsFiles (h : Fits files) (hdisk : c.ramdisk = some image)
    (himage : image.bytes = lfs1 files) : ShowsFiles c files where
  ls input os hinput := by
    refine execCommand_of_custom (by rw [hinput]; decide) (by rw [hinput]; decide) ?_
    rw [hinput, handleCustomCommand]
    exact bind_eq_ok.mpr ⟨(), _, lsCommand_built h hdisk himage os, rfl⟩
  stat input arg os hinput := by
    have hne {word : String} (hword : stripPrefix "stat " word = none) : trimmed input ≠ word :=
      ne_of_stripPrefix hinput hword
    refine execCommand_of_custom ?_ ?_ ?_
    · simp only [List.mem_cons, List.not_mem_nil, or_false, not_or]
      exact ⟨hne (by decide), hne (by decide), hne (by decide), hne (by decide), hne (by decide),
        hne (by decide)⟩
    · exact stripPrefix_eq_none hinput rfl rfl (by decide)
    · rw [handleCustomCommand, if_neg (hne (by decide)), if_neg (hne (by decide)), hinput]
      exact bind_eq_ok.mpr ⟨(), _, statCommand_built h hdisk himage os, rfl⟩
  cat input arg os hinput := by
    have hne {word : String} (hword : stripPrefix "cat " word = none) : trimmed input ≠ word :=
      ne_of_stripPrefix hinput hword
    refine execCommand_of_custom ?_ (stripPrefix_eq_none hinput rfl rfl (by decide)) ?_
    · simp only [List.mem_cons, List.not_mem_nil, or_false, not_or]
      exact ⟨hne (by decide), hne (by decide), hne (by decide), hne (by decide), hne (by decide),
        hne (by decide)⟩
    · rw [handleCustomCommand, if_neg (hne (by decide)), if_neg (hne (by decide)),
        stripPrefix_eq_none hinput rfl rfl (by decide), hinput]
      exact bind_eq_ok.mpr ⟨(), _, catCommand_built h hdisk himage os, rfl⟩

end Shows

/-! ## At the keyboard -/

section Keyboard

variable {ε σ : Type} {c : Console} {files : List BuildFile} {image : Image}

theorem ShellCalls.effectsFrom_filterMap (calls : ShellCalls ε σ) (t : Typed)
    (polls : List (Option U8)) :
    calls.effectsFrom t polls = calls.effectsFrom t ((polls.filterMap id).map some) := by
  induction polls generalizing t with
  | nil => rfl
  | cons poll polls ih =>
    cases poll with
    | none => exact ih t
    | some byte =>
      have hcons : ((some byte :: polls).filterMap id).map some =
          some byte :: (polls.filterMap id).map some := rfl
      rw [hcons, effectsFrom, effectsFrom]
      exact congrArg _ (funext fun _ ↦ ih (t.poll (some byte)))

/-- **A line that is typed** is echoed and executed, and the shell is back at its prompt. -/
theorem Console.runShell_pressLine {input : String} (hchars : ∀ ch ∈ input.toList, ch ∈ lineChars)
    (hlen : input.length ≤ lineSize) (os : Os) {text : List U8}
    (hexec : ∀ os, execCommand c.handleCustomCommand input os = .ok () (os.show text)) :
    ∃ r, c.shellCalls.runShell (keyboardReads false (pressLine input)) os = .ok r
      (os.show (prompt ++ Rust.asBytes input ++ Rust.asBytes "\n" ++ text ++ prompt)) := by
  have hkeys := ofKeys hchars
  obtain ⟨line, len, -, hrun⟩ :=
    c.shellCalls.runShell_eq (keyboardReads false (pressLine input))
  have hprintable : ∀ b ∈ Rust.asBytes input, IsPrintable b := by
    rw [hkeys.asBytes]
    exact fun b hb ↦ printable_of_lineBytes (hkeys.mem b hb)
  have hroom : ([] : List U8).length + (Rust.asBytes input).length ≤ lineSize := by
    rw [hkeys.asBytes, hkeys.length, List.length_nil, Nat.zero_add]
    exact hlen
  have htyped := effectsFrom_printable (c := c) [] [] (os.show prompt) hprintable hroom [some 0x0A]
  have hend : c.shellCalls.effects (Rust.asBytes input) 0x0A
      ((os.show prompt).show (Rust.asBytes input)) = .ok ()
        (((((os.show prompt).show (Rust.asBytes input)).show (Rust.asBytes "\n")).show text).show
          prompt) := by
    refine c.effects_lineEnd _ ?_
    rw [hkeys.asBytes, hkeys.asText]
    exact hexec _
  rw [hrun, ShellCalls.effectsFrom_filterMap, reads_pressLine hchars, List.map_append]
  refine ⟨(line, len), bind_eq_ok.mpr ⟨(), os.show prompt, rfl, bind_eq_ok.mpr ⟨(), _, ?_, rfl⟩⟩⟩
  refine htyped.trans (bind_eq_ok.mpr ⟨(), _, hend, ?_⟩)
  simp only [Os.show_show]
  rfl

/-- A name that can be typed as an argument. -/
structure TypableName (name : String) : Prop where
  /-- Each character has a key. -/
  chars : ∀ ch ∈ name.toList, ch ∈ lineChars
  /-- It does not begin with a space. -/
  head : ∀ ch ∈ name.toList.head?, isWhitespace ch = false
  /-- It does not end with a space. -/
  last : ∀ ch ∈ name.toList.getLast?, isWhitespace ch = false

theorem TypableName.trimmed_eq {name : String} (h : TypableName name) : trimmed name = name := by
  rw [trimmed, trim_eq_self h.head h.last, String.ofList_toList]

/-- With the command before it. -/
theorem TypableName.trimmed_cat {name : String} (h : TypableName name) (hne : name ≠ "") :
    trimmed ("cat " ++ name) = "cat " ++ name := by
  have hchars : name.toList ≠ [] := fun hnil ↦ hne (String.toList_eq_nil_iff.mp hnil)
  have htoList : ("cat " ++ name).toList = 'c' :: 'a' :: 't' :: ' ' :: name.toList := by
    rw [String.toList_append]
    rfl
  rw [trimmed, trim_eq_self, String.ofList_toList]
  · rw [htoList]
    rintro ch ⟨⟩
    decide
  · have hlast : ("cat " ++ name).toList.getLast? = name.toList.getLast? := by
      rw [String.toList_append, List.getLast?_append_of_ne_nil _ hchars]
    rw [hlast]
    exact h.last

/-- **From the build to the screen.**  A file that was built into the ramdisk, under a name with
keys: when `cat`, the name and Enter are typed, its bytes appear on the screen, the first file's of
that name, with a period for each byte that has no picture. -/
theorem typed_cat {file : BuildFile} {name : String} (hfits : Fits files)
    (hbuild : buildLfs1 files = .ok image.bytes) (hdisk : c.ramdisk = some image)
    (hfile : files.find? (·.name = name) = some file) (hname : TypableName name) (os : Os) :
    ∃ r, c.shellCalls.runShell (keyboardReads false (pressLine ("cat " ++ name))) os = .ok r
      (os.show (prompt ++ Rust.asBytes ("cat " ++ name) ++ Rust.asBytes "\n" ++
        (file.data.map shown ++ Rust.asBytes "\n") ++ prompt)) := by
  obtain ⟨hmem, hnamed⟩ : file ∈ files ∧ file.name = name :=
    ⟨List.mem_of_find?_eq_some hfile, by simpa using List.find?_some hfile⟩
  have hne : name ≠ "" := by
    rintro rfl
    exact hfits.named file hmem (by rw [hnamed]; rfl)
  have himage : image.bytes = lfs1 files :=
    Except.ok.inj (hbuild.symm.trans (buildLfs1_eq hfits.names (hfits.size.trans (by decide))))
  have hshort : name.length ≤ nameCap := by
    rw [← (ofKeys hname.chars).length, ← (ofKeys hname.chars).asBytes, ← hnamed]
    exact hfits.names file hmem
  have hcat : stripPrefix "cat " (trimmed ("cat " ++ name)) = some name := by
    rw [hname.trimmed_cat hne, stripPrefix, String.toList_append,
      List.isPrefixOf?_eq_some_iff_append_eq.mpr rfl, Option.map_some, String.ofList_toList]
  refine runShell_pressLine (fun ch hch ↦ ?_) ?_ os fun os ↦ ?_
  · rw [String.toList_append] at hch
    obtain hch | hch := List.mem_append.mp hch
    · have hall : ∀ ch ∈ "cat ".toList, ch ∈ lineChars := by simp [lineChars]
      exact hall ch hch
    · exact hname.chars ch hch
  · rw [String.length_append]
    exact (Nat.add_le_add_left hshort _).trans (by decide)
  · rw [(showsFiles hfits hdisk himage).cat _ name os hcat, hname.trimmed_eq, catText, hfile]

/-- A file of two bytes, of which one has no picture. -/
def greeting : List BuildFile := [⟨"hi", 0o644, [0x68, 0x07]⟩]

theorem fits_greeting : Fits greeting :=
  ⟨by decide, by decide, by unfold NamesFit; decide, by decide⟩

/-- A console with this file. -/
def greetingConsole : Console :=
  { bareConsole with ramdisk := some ⟨lfs1 greeting, length_lfs1_lt fits_greeting⟩ }

theorem typableName_hi : TypableName "hi" where
  chars := by simp [lineChars]
  head := by
    rintro ch ⟨⟩
    decide
  last := by
    rintro ch ⟨⟩
    decide

theorem typed_cat_greeting : ∃ r, greetingConsole.shellCalls.runShell
    (keyboardReads false (pressLine ("cat " ++ "hi"))) ⟨⟨Kernel.boot, fun _ ↦ 0, []⟩, []⟩ = .ok r
      (Os.show ⟨⟨Kernel.boot, fun _ ↦ 0, []⟩, []⟩ (prompt ++ Rust.asBytes ("cat " ++ "hi") ++
        Rust.asBytes "\n" ++ ([0x68, 0x07].map shown ++ Rust.asBytes "\n") ++ prompt)) :=
  have hbuild : buildLfs1 greeting =
      .ok (⟨lfs1 greeting, length_lfs1_lt fits_greeting⟩ : Image).bytes :=
    buildLfs1_eq fits_greeting.names (by decide)
  typed_cat fits_greeting hbuild rfl rfl typableName_hi _

/-! ## Names that cannot be typed -/

/-- The command names the file. -/
def Names (input name : String) : Prop :=
  (∃ arg, stripPrefix "stat " (trimmed input) = some arg ∧ trimmed arg = name) ∨
    (∃ arg, stripPrefix "cat " (trimmed input) = some arg ∧ trimmed arg = name) ∨
    elfTarget (trimmed input) = some name ∨ ∃ args, runTarget (trimmed input) = some (name, args)

theorem mem_of_mem_trim {ch : Char} {l : List Char} (h : ch ∈ trim l) : ch ∈ l :=
  (List.dropWhile_sublist _).subset ((List.rdropWhile_prefix _ _).subset h)

theorem mem_of_mem_trimmed {ch : Char} {text : String} (h : ch ∈ (trimmed text).toList) :
    ch ∈ text.toList := by
  rw [trimmed, String.toList_ofList] at h
  exact mem_of_mem_trim h

theorem mem_of_stripPrefix {ch : Char} {pre cmd arg : String}
    (hstrip : stripPrefix pre cmd = some arg) (h : ch ∈ arg.toList) : ch ∈ cmd.toList := by
  rw [toList_of_stripPrefix hstrip]
  exact List.mem_append_right _ h

theorem mem_of_stripRun {ch : Char} {l rest : List Char} (hstrip : stripRun l = some rest)
    (h : ch ∈ rest) : ch ∈ l := by
  unfold stripRun at hstrip
  split at hstrip
  · obtain rfl := Option.some_inj.mp hstrip
    simp [h]
  · exact nomatch hstrip

/-- The file that is run without being named. -/
theorem helloWorld_chars : ∀ ch ∈ "hello_world".toList, ch ∈ lineChars := by
  simp [lineChars]

/-- A name is a part of the line, or the one that goes without saying. -/
theorem Names.mem {input name : String} (h : Names input name) {ch : Char}
    (hch : ch ∈ name.toList) : ch ∈ input.toList ∨ ch ∈ lineChars := by
  obtain ⟨arg, harg, rfl⟩ | ⟨arg, harg, rfl⟩ | helf | ⟨args, hrun⟩ := h
  · exact .inl (mem_of_mem_trimmed (mem_of_stripPrefix harg (mem_of_mem_trimmed hch)))
  · exact .inl (mem_of_mem_trimmed (mem_of_stripPrefix harg (mem_of_mem_trimmed hch)))
  · rw [elfTarget] at helf
    split at helf
    · rename_i arg harg
      obtain rfl := Option.some_inj.mp helf
      exact .inl (mem_of_mem_trimmed (mem_of_stripPrefix harg (mem_of_mem_trimmed hch)))
    · split at helf
      · obtain rfl := Option.some_inj.mp helf
        exact .inr (helloWorld_chars ch hch)
      · cases helf
  · rw [runTarget] at hrun
    split at hrun
    · rename_i rest hrest
      dsimp only at hrun
      split at hrun
      · cases hrun
      · obtain ⟨rfl, -⟩ := Prod.mk.inj (Option.some_inj.mp hrun)
        rw [String.toList_ofList] at hch
        have hrest' := mem_of_mem_trim ((List.takeWhile_sublist _).subset (mem_of_mem_trim hch))
        exact .inl (mem_of_mem_trimmed (mem_of_stripRun hrest hrest'))
    · split at hrun
      · obtain ⟨rfl, -⟩ := Prod.mk.inj (Option.some_inj.mp hrun)
        exact .inr (helloWorld_chars ch hch)
      · cases hrun

/-- **Files that cannot be opened from the keyboard**: those whose name has a character without a
key.  Whatever is typed, no command names them. -/
theorem never_named {name : String} {ch : Char} (hch : ch ∈ name.toList) (hkey : ch ∉ lineChars)
    (ps : List Poll) : ∀ input ∈ (typed (keyboardReads false ps)).inputs, ¬Names input name := by
  intro input hinput hnames
  exact hkey ((hnames.mem hch).elim ((lineOk_of_executed hinput).2 ch) id)

/-- The first file of every ramdisk. -/
theorem never_named_initrd : ¬∃ input, input ∈ (typed (keyboardReads false
    (pressLine "cat initrd_txt"))).inputs ∧ Names input "initrd.txt" := by
  have hdot : '.' ∈ "initrd.txt".toList := by decide
  rintro ⟨input, hinput, hnames⟩
  exact never_named hdot (by simp [lineChars]) _ input hinput hnames

end Keyboard

end LeonOS
