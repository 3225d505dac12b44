import LeonOS.Interp.Metered
import LeonOS.Interp.Programs
import LeonOS.Interp.RunPanics

/-!
# When runs return

A run of the interpreter comes to its end within the step limit, but for three things: the kernel's
stack may have no frame left for the next program, the heap may have no room left, and a sum may
overflow.  Nothing in the code looks out for them.  `RunFits` says that none of them happens, of the
steps that a run comes to, and of those of the programs inside of it.

So a run returns, within bounds that are the same for all runs, exactly if it fits
(`run_bounded_iff`).  A program that starts itself never fits (`selfExec_never_returns`).
-/

set_option autoImplicit false

namespace LeonOS

open Bytes RustM Elf

variable {r : Region} {a : Allocations} {tmp : StackSlot} {depth level k : ℕ} {base : U64}
  {run : Run} {mrun : MeteredRun} {g : Guest Os} {m : Meter} {t : Guest Os × Meter}
  {prog : LinuxProgram} {mem : List U8} {va : U64}

/-! ## What a program hands over to the next -/

theorem readUserCstrFrom_length {n : ℕ} {bytes : List U8} {s : String}
    (h : readUserCstrFrom base mem va n bytes = .ok (some s)) :
    (Rust.asBytes s).length ≤ bytes.length + n := by
  induction n generalizing bytes with
  | zero => cases h
  | succ n ih =>
    obtain ⟨b, -, h⟩ := Rust.bind_eq_ok.mp h
    split at h
    · rw [Rust.asBytes_of_fromUtf8 (Except.ok.inj h)]
      exact Nat.le_add_right _ _
    · have hle := ih h
      rw [List.length_append, List.length_singleton] at hle
      omega

theorem readUserCstr_length {s : String} (h : readUserCstr base mem va = .ok (some s)) :
    (Rust.asBytes s).length ≤ 4096 := by
  rw [readUserCstr] at h
  split at h
  · cases h
  · exact (readUserCstrFrom_length h).trans (Nat.zero_add 4096).le

theorem readUserPtrsFrom_length {n i : ℕ} {ptrs : List U64}
    (h : readUserPtrsFrom base mem va n i = .ok ptrs) : ptrs.length ≤ n := by
  induction n generalizing i ptrs with
  | zero =>
    obtain rfl := Except.ok.inj h
    exact le_rfl
  | succ n ih =>
    obtain ⟨ptr, -, h⟩ := Rust.bind_eq_ok.mp h
    obtain ⟨p, -, h⟩ := Rust.bind_eq_ok.mp h
    split at h
    · obtain rfl := Except.ok.inj h
      exact Nat.zero_le _
    · obtain ⟨rest, hrest, h⟩ := Rust.bind_eq_ok.mp h
      obtain rfl := Except.ok.inj h
      exact Nat.succ_le_succ (ih hrest)

theorem readUserStrs_bounds {ptrs : List U64} {strs : List String}
    (h : readUserStrs base mem ptrs = .ok strs) :
    strs.length = ptrs.length ∧ ∀ s ∈ strs, (Rust.asBytes s).length ≤ 4096 := by
  induction ptrs generalizing strs with
  | nil =>
    obtain rfl := Except.ok.inj h
    exact ⟨rfl, fun s hs ↦ absurd hs List.not_mem_nil⟩
  | cons p ptrs ih =>
    obtain ⟨s, hs, h⟩ := Rust.bind_eq_ok.mp h
    cases s with
    | none => cases h
    | some s =>
      obtain ⟨rest, hrest, h⟩ := Rust.bind_eq_ok.mp h
      obtain rfl := Except.ok.inj h
      obtain ⟨hlen, hall⟩ := ih hrest
      exact ⟨congrArg (· + 1) hlen, List.forall_mem_cons.mpr ⟨readUserCstr_length hs, hall⟩⟩

/-- **The strings of an array** are few and short. -/
theorem readUserStrArray_bounds {max : ℕ} {strs : List String}
    (h : readUserStrArray base mem va max = .ok strs) :
    strs.length ≤ max ∧ ∀ s ∈ strs, (Rust.asBytes s).length ≤ 4096 := by
  obtain ⟨ptrs, hptrs, h⟩ := Rust.bind_eq_ok.mp h
  obtain ⟨hlen, hall⟩ := readUserStrs_bounds h
  refine ⟨?_, hall⟩
  rw [readUserPtrArray] at hptrs
  split at hptrs
  · obtain rfl := Except.ok.inj hptrs
    exact hlen ▸ Nat.zero_le max
  · exact hlen ▸ readUserPtrsFrom_length hptrs

/-- The name of a file is a part of its path. -/
theorem normalizeExecPath_length {path name : String} (h : normalizeExecPath path = some name) :
    (Rust.asBytes name).length ≤ (Rust.asBytes path).length := by
  have hstrip (l : List Char) : stripDotSlash l <:+ l := by
    unfold stripDotSlash
    split
    · exact List.suffix_append ['.', '/'] _
    · exact List.suffix_rfl
  have htrim : trim path.toList <:+: path.toList :=
    (List.rdropWhile_prefix _ _).isInfix.trans (List.dropWhile_suffix _).isInfix
  rw [normalizeExecPath] at h
  dsimp only at h
  split at h
  · cases h
  split at h
  · cases h
  obtain rfl := Option.some_inj.mp h
  obtain ⟨before, after, hsplit⟩ :=
    ((List.dropWhile_suffix _).isInfix.trans (hstrip _).isInfix).trans htrim
  have hpath : path = String.ofList before ++
      String.ofList ((stripDotSlash (trim path.toList)).dropWhile (· = '/')) ++
        String.ofList after := by
    rw [← String.ofList_append, ← String.ofList_append, hsplit, String.ofList_toList]
  conv_rhs => rw [hpath]
  rw [Rust.asBytes_append, Rust.asBytes_append, List.length_append, List.length_append]
  omega

/-- **The next program** is a file, and what it is handed are slices. -/
theorem nextProgram_slices {p : List U8 × List String × List String}
    (h : g.nextProgram base = some p) :
    ∃ image : Image, ∃ argv envp : StrSlice, p = (image.bytes, argv.strs, envp.strs) := by
  obtain ⟨-, -, htarget⟩ := nextProgram_eq_some.mp h
  obtain ⟨image, argv, envp⟩ := p
  obtain ⟨name, argv', envp', rec, hexec⟩ := exists_execTarget htarget
  obtain ⟨rfl, hargs, rfl⟩ : image = rec.data ∧ argv = execArgs name argv' ∧ envp = envp' := by
    simpa using htarget.symm.trans hexec.execTarget_eq
  obtain ⟨path, hpath, hname⟩ := hexec.path
  obtain ⟨disk, -, hopen⟩ := hexec.file
  obtain ⟨hargc, hargv⟩ := readUserStrArray_bounds hexec.argv
  obtain ⟨henvc, henvp⟩ := readUserStrArray_bounds hexec.envp
  have hrec : rec.data.length < 2 ^ 63 := by
    obtain ⟨i, hentry, -⟩ := Fs.open_eq_ok hopen
    have hdata := Fs.entryAt_data (disk.length_lt.trans (by decide)) (Fs.entryAt_of_entry hentry)
    have hdisk := disk.length_lt
    omega
  have hshort : ∀ s ∈ execArgs name argv', (Rust.asBytes s).length ≤ 4096 := by
    rw [execArgs]
    split
    · exact List.forall_mem_singleton.mpr
        ((normalizeExecPath_length hname).trans (readUserCstr_length hpath))
    · exact hargv
  have hcount : (execArgs name argv').length ≤ 64 := by
    rw [execArgs]
    split
    · exact Nat.succ_le_succ (Nat.zero_le 63)
    · exact hargc
  refine ⟨⟨rec.data, hrec⟩, ⟨execArgs name argv', by omega, fun s hs ↦ ?_⟩,
    ⟨envp, by omega, fun s hs ↦ ?_⟩, by rw [hargs]⟩
  · exact (hshort s hs).trans_lt (by decide)
  · exact (henvp s hs).trans_lt (by decide)

/-! ## The condition -/

/-- **A step has room**, and none of its sums overflows; `fits` says of the program that it starts
whether there is room for its run. -/
structure StepHasRoom (r : Region) (a : Allocations)
    (fits : List U8 → List String → List String → Os × Meter → Prop) (base : U64)
    (t : Guest Os × Meter) : Prop where
  /-- The sums of the instruction. -/
  sums : StepFits (fun _ _ _ ↦ pure ()) base t.1
  /-- The blocks that it asks for, and then the program that it starts. -/
  room : ∃ next, r.allocAll (a.step base t.1) t.2.next = some next ∧
    ∀ p, t.1.nextProgram base = some p →
      fits p.1 p.2.1 p.2.2 (t.1.os.started, { t.2.tick with next := next })

/-- **There is room for a run**, and none of its sums overflows: the stack has a frame for it, the
loading phase has its blocks, and so has every step that the program comes to. -/
def RunFits (r : Region) (a : Allocations) (tmp : StackSlot) :
    ℕ → ℕ → List U8 → List String → List String → Os × Meter → Prop
  | 0, _, _, _, _, _ => False
  | depth + 1, level, image, argv, envp, s => LinuxLoads image ∧
    ∃ next, r.allocAll (a.load image argv envp) s.2.next = some next ∧
      ∀ prog, loadLinuxElf image argv envp = .ok prog → ∀ k < maxSteps, ∀ t,
        Iterates (meteredStep r a (meteredRun r a tmp depth (level + 1)) tmp prog.base) k
          (prog.guest s.1, Meter.enter { s.2 with next := next } level) t →
        StepHasRoom r a (RunFits r a tmp depth (level + 1)) prog.base t

/-! ## It is the condition -/

/-- The sums of a step are those of the instruction and of the program that it starts. -/
theorem stepFits_iff : StepFits run base g ↔ StepFits (fun _ _ _ ↦ pure ()) base g ∧
    ∀ p, g.nextProgram base = some p → ¬Panics (run p.1 p.2.1 p.2.2) g.os.started := by
  constructor
  · intro h
    refine ⟨⟨h.sums, h.whole, fun h0 h1 hover ↦ ?_⟩, fun p hp hpanic ↦ ?_⟩
    · cases hover with
      | mmap hnr hlen => exact h.call h0 h1 (.mmap hnr hlen)
      | execve _ _ hrun => exact not_panics_pure hrun
    · obtain ⟨hat, hnr, htarget⟩ := nextProgram_eq_some.mp hp
      obtain ⟨name, argv, envp, rec, hexec⟩ := exists_execTarget htarget
      obtain rfl := Option.some_inj.mp (htarget.symm.trans hexec.execTarget_eq)
      exact h.call hat.1 hat.2 (.execve hnr hexec hpanic)
  · rintro ⟨h, hnext⟩
    refine ⟨h.sums, h.whole, fun h0 h1 hover ↦ ?_⟩
    cases hover with
    | mmap hnr hlen => exact h.call h0 h1 (.mmap hnr hlen)
    | execve hnr hexec hrun =>
      exact hnext _ (nextProgram_eq_some.mpr ⟨⟨h0, h1⟩, hnr, hexec.execTarget_eq⟩) hrun

/-- An instruction panics by one of its own sums, or with the program that it starts. -/
theorem panics_nestedRun_bind (h : t.1.InOrder base) :
    Panics (nestedRun mrun base >>= fun nested ↦
        metered (execOne (handleSyscall nested tmp base) base)) t ↔
      ¬(StepFits (fun _ _ _ ↦ pure ()) base t.1 ∧ ∀ p, t.1.nextProgram base = some p →
        ¬Panics (mrun p.1 p.2.1 p.2.2) (t.1.os.started, t.2)) := by
  have hstep (run : Run) : Panics (execOne (handleSyscall run tmp base) base) t.1 ↔
      ¬StepFits run base t.1 :=
    not_iff_not.mp ((not_panics_step_iff h.files h.bound).trans not_not.symm)
  rw [Panics, bind_apply, nestedRun]
  cases hnext : t.1.nextProgram base with
  | none =>
    refine panics_metered.trans ((hstep _).trans (not_congr (and_iff_left ?_).symm))
    exact fun p hp ↦ by cases hp
  | some p =>
    refine panics_metered.trans ((hstep _).trans (not_congr (stepFits_iff.trans ?_)))
    refine and_congr_right fun _ ↦ forall_congr' fun q ↦ ?_
    rw [hnext]
    refine forall_congr' fun hq ↦ not_congr ?_
    obtain rfl := Option.some_inj.mp hq
    exact panics_seen

/-- **A step** that has room does not panic, and every other does. -/
theorem not_panics_meteredStep_iff (h : t.1.InOrder base) :
    ¬Panics (meteredStep r a mrun tmp base) t ↔
      StepHasRoom r a (fun image argv envp s ↦ ¬Panics (mrun image argv envp) s) base t := by
  have hpanics : Panics (meteredStep r a mrun tmp base) t ↔
      r.allocAll (a.step base t.1) t.2.next = none ∨
        ∃ next, r.allocAll (a.step base t.1) t.2.next = some next ∧
          ¬(StepFits (fun _ _ _ ↦ pure ()) base t.1 ∧ ∀ p, t.1.nextProgram base = some p →
            ¬Panics (mrun p.1 p.2.1 p.2.2) (t.1.os.started, { t.2.tick with next := next })) := by
    refine (panics_takeBlocks_bind (s := (t.1, t.2.tick))).trans (or_congr_right ?_)
    exact exists_congr fun next ↦ and_congr_right fun _ ↦
      panics_nestedRun_bind (t := (t.1, { t.2.tick with next := next })) h
  rw [hpanics]
  constructor
  · intro hcalm
    obtain ⟨hsome, hcalm⟩ := not_or.mp hcalm
    obtain ⟨next, hnext⟩ := Option.ne_none_iff_exists'.mp hsome
    obtain ⟨hsums, hrun⟩ := not_not.mp fun hnot ↦ hcalm ⟨next, hnext, hnot⟩
    exact ⟨hsums, next, hnext, hrun⟩
  · rintro ⟨hsums, next, hnext, hrun⟩ (hnone | ⟨next', hnext', hnot⟩)
    · cases hnext.symm.trans hnone
    · obtain rfl := Option.some_inj.mp (hnext.symm.trans hnext')
      exact hnot ⟨hsums, hrun⟩

theorem StepHasRoom.congr
    {fits fits' : List U8 → List String → List String → Os × Meter → Prop}
    (h : ∀ p, t.1.nextProgram base = some p → ∀ m,
      (fits p.1 p.2.1 p.2.2 (t.1.os.started, m) ↔ fits' p.1 p.2.1 p.2.2 (t.1.os.started, m))) :
    StepHasRoom r a fits base t ↔ StepHasRoom r a fits' base t := by
  constructor
  · rintro ⟨hsums, next, hnext, hfits⟩
    exact ⟨hsums, next, hnext, fun p hp ↦ (h p hp _).mp (hfits p hp)⟩
  · rintro ⟨hsums, next, hnext, hfits⟩
    exact ⟨hsums, next, hnext, fun p hp ↦ (h p hp _).mpr (hfits p hp)⟩

/-- A program panics where one of its steps does. -/
theorem panics_meteredProgram {s : Os × Meter} : Panics (meteredProgram r a mrun tmp prog) s ↔
    ∃ k < maxSteps, ∃ t, Iterates (meteredStep r a mrun tmp prog.base) k (prog.guest s.1, s.2) t ∧
      Panics (meteredStep r a mrun tmp prog.base) t := by
  rw [← panics_loop fun t h ↦ not_panics_stepLimit (panics_metered.mp h)]
  exact panics_seen

/-- A run panics where the heap has too little for its loading phase, where that panics, or where the
program does. -/
theorem panics_meteredRun_succ (image : Image) (argv envp : StrSlice) (s : Os × Meter) :
    Panics (meteredRun r a tmp (depth + 1) level image.bytes argv.strs envp.strs) s ↔
      r.allocAll (a.load image.bytes argv.strs envp.strs) s.2.next = none ∨
      ∃ next, r.allocAll (a.load image.bytes argv.strs envp.strs) s.2.next = some next ∧
        (¬LinuxLoads image.bytes ∨
          ∃ prog, loadLinuxElf image.bytes argv.strs envp.strs = .ok prog ∧
            Panics (meteredProgram r a (meteredRun r a tmp depth (level + 1)) tmp prog)
              (s.1, Meter.enter { s.2 with next := next } level)) := by
  refine panics_takeBlocks_bind.trans (or_congr_right (exists_congr fun next ↦
    and_congr_right fun _ ↦ ?_))
  rw [panics_bind, panics_lift, loadLinuxElf_panics_iff]
  refine or_congr_right ⟨?_, ?_⟩
  · rintro ⟨prog, s', hlift, hpanic⟩
    obtain ⟨hload, rfl⟩ := lift_eq_ok.mp hlift
    exact ⟨prog, hload, hpanic⟩
  · rintro ⟨prog, hload, hpanic⟩
    exact ⟨prog, _, lift_eq_ok.mpr ⟨hload, rfl⟩, hpanic⟩

/-- **A run that fits does not panic**, and every other does. -/
theorem not_panics_meteredRun_iff (depth level : ℕ) (image : Image) (argv envp : StrSlice)
    (s : Os × Meter) (hos : s.1.world.kernel.FilesOk) :
    ¬Panics (meteredRun r a tmp depth level image.bytes argv.strs envp.strs) s ↔
      RunFits r a tmp depth level image.bytes argv.strs envp.strs s := by
  induction depth generalizing level image argv envp s with
  | zero => exact iff_of_false (not_not.mpr ⟨s, rfl⟩) id
  | succ depth ih =>
    have hstep {prog : LinuxProgram} {m : Meter} {k : ℕ} {t : Guest Os × Meter}
        (hload : loadLinuxElf image.bytes argv.strs envp.strs = .ok prog)
        (hsteps : Iterates (meteredStep r a (meteredRun r a tmp depth (level + 1)) tmp prog.base) k
          (prog.guest s.1, m) t) :
        ¬Panics (meteredStep r a (meteredRun r a tmp depth (level + 1)) tmp prog.base) t ↔
          StepHasRoom r a (RunFits r a tmp depth (level + 1)) prog.base t := by
      have hfollows : Follows
          (meteredStep r a (meteredRun r a tmp depth (level + 1)) tmp prog.base)
          (execOne (handleSyscall (runLinuxElf tmp depth) tmp prog.base) prog.base) :=
        meteredStep_follows (meteredRun_follows depth (level + 1))
      have hplain := hfollows.iterates hsteps
      have horder := (inOrder_guest hload hos).steps hplain
      refine (not_panics_meteredStep_iff horder).trans (StepHasRoom.congr fun p hp m ↦ ?_)
      obtain ⟨image', argv', envp', rfl⟩ := nextProgram_slices hp
      exact ih (level + 1) image' argv' envp' (t.1.os.started, m) (horder.files.of_eq rfl rfl)
    rw [panics_meteredRun_succ, RunFits]
    constructor
    · intro hcalm
      obtain ⟨hsome, hcalm⟩ := not_or.mp hcalm
      obtain ⟨next, hnext⟩ := Option.ne_none_iff_exists'.mp hsome
      obtain ⟨hloads, hcalm⟩ := not_or.mp fun hnot ↦ hcalm ⟨next, hnext, hnot⟩
      refine ⟨not_not.mp hloads, next, hnext, fun prog hload k hk t hsteps ↦ ?_⟩
      refine (hstep hload hsteps).mp fun hpanic ↦ hcalm ⟨prog, hload, ?_⟩
      exact panics_meteredProgram.mpr ⟨k, hk, t, hsteps, hpanic⟩
    · rintro ⟨hloads, next, hnext, hroom⟩ (hnone | ⟨next', hnext', hnot | ⟨prog, hload, hpanic⟩⟩)
      · cases hnext.symm.trans hnone
      · exact hnot hloads
      · obtain rfl := Option.some_inj.mp (hnext.symm.trans hnext')
        obtain ⟨k, hk, t, hsteps, hpanic⟩ := panics_meteredProgram.mp hpanic
        exact (hstep hload hsteps).mpr (hroom prog hload k hk t hsteps) hpanic

/-! ## Runs that return -/

/-- **A run returns**, after no more than `N` instructions, and with no more than `D` programs
around its innermost one. -/
structure ReturnsWithin (N D : ℕ) (x : EStateM.Result (Fault RunError) (Os × Meter) Unit) :
    Prop where
  /-- It returns, with or without an error. -/
  returns : (∃ s, x = .ok () s) ∨ ∃ e s, x = .error (.err e) s
  /-- The instructions, with those of programs started by `execve`. -/
  instructions : (endState x).2.instructions ≤ N
  /-- The recursion through `handle_syscall`. -/
  nesting : (endState x).2.nesting ≤ D

theorem returns_iff {x : RustM RunError (Os × Meter) Unit} {s : Os × Meter} :
    ((∃ t, x s = .ok () t) ∨ ∃ e t, x s = .error (.err e) t) ↔ ¬Panics x s := by
  rw [Panics]
  cases x s with
  | ok u t => simp
  | error e t => cases e <;> simp

/-- **Which runs return**: those that fit, and all of them within the same bounds. -/
theorem run_bounded_iff (r : Region) (hsize : r.size = heapSize) (a : Allocations)
    (tmp : StackSlot) (depth : ℕ) (image : Image) (argv envp : StrSlice) (os : Os)
    (hk : os.world.kernel.Reachable) (next : ℕ) (hstart : r.start ≤ next) (hstop : next ≤ r.stop) :
    ReturnsWithin (maxSteps * mostPrograms) mostPrograms
        (meteredRun r a tmp depth 0 image.bytes argv.strs envp.strs (os, .start next)) ↔
      RunFits r a tmp depth 0 image.bytes argv.strs envp.strs (os, .start next) := by
  have hfits :
      ¬Panics (meteredRun r a tmp depth 0 image.bytes argv.strs envp.strs) (os, .start next) ↔
        RunFits r a tmp depth 0 image.bytes argv.strs envp.strs (os, .start next) :=
    not_panics_meteredRun_iff depth 0 image argv envp (os, .start next) hk.filesOk
  rw [← hfits, ← returns_iff]
  refine ⟨fun h ↦ h.returns, fun h ↦ ?_⟩
  obtain ⟨hinstr, hnest⟩ := meteredRun_bounded a tmp hsize hstart hstop depth image.bytes argv.strs
    envp.strs os rfl
  exact ⟨h, hinstr, hnest⟩

/-- 33423360 instructions, and 255 programs. -/
example : maxSteps * mostPrograms = 33423360 ∧ mostPrograms = 255 := by decide

/-! ### Programs that start a program -/

/-- `execve` of the path behind the code, which is `a`. -/
abbrev execCode : List U8 := callCode 59 0x40000C [0x61, 0]

set_option maxRecDepth 8000 in
theorem codeFile_exec : CodeFile execCode := ⟨rfl, by decide⟩

theorem Elf.CodeFile.linuxLoads {code : List U8} (h : CodeFile code) :
    LinuxLoads (codeFile code) := by
  obtain ⟨prog, hload, -⟩ := h.loads .nil .nil (by decide)
  have hlen : (codeFile code).length < 2 ^ 63 := by
    have hle := h.length_le
    rw [codeFile, List.length_append, length_codeHeaders]
    omega
  refine not_not.mp fun hnot ↦ ?_
  have hpanic := (loadLinuxElf_panics_iff ⟨codeFile code, hlen⟩ .nil .nil).mpr hnot
  cases hload.symm.trans hpanic

/-- An instruction that is not a system call. -/
theorem meteredStep_of_not_atSyscall {stop : Bool} {g' : Guest Os} (hat : ¬g.AtSyscall base)
    (h : execOne (pure false) base g = .ok stop g') :
    meteredStep r a mrun tmp base (g, m) = .ok stop (g', m.tick) := by
  have hblocks : a.step base g = [] := if_neg hat
  have hnext : g.nextProgram base = none := if_neg fun hnext ↦ hat hnext.1
  have htake : takeBlocks r (a.step base) (g, m.tick) = .ok () (g, m.tick) := by
    rw [takeBlocks, hblocks]
    rfl
  have hnested : nestedRun mrun base (g, m.tick) = .ok (fun _ _ _ ↦ pure ()) (g, m.tick) := by
    rw [nestedRun, hnext]
    rfl
  have htick : (modifyMeter Meter.tick : RustM RunError (Guest Os × Meter) Unit) (g, m) =
      .ok () (g, m.tick) := rfl
  rw [meteredStep, bind_apply, htick]
  dsimp only
  rw [bind_apply, htake]
  dsimp only
  rw [bind_apply, hnested]
  dsimp only
  rw [metered, execOne_of_not_atSyscall hat (pure false), h]
  rfl

section Exec

variable {sp : U64} {os : Os} {disk : Image} {rec : FileRecord} {code : List U8}

/-- Its `execve` starts the file `a`. -/
theorem nextProgram_exec (sp : U64) (hin : CallIn 59 0x40000C [0x61, 0] mem)
    (hroot : os.world.kernel.rootfs = some disk) (hopen : Fs.open disk.bytes "a" = .ok rec) :
    (atCall 59 0x40000C sp mem os).nextProgram codeAddr = some (rec.data, ["a"], []) := by
  have hat : (atCall 59 0x40000C sp mem os).At codeAddr execCode 10 := hin.at_call sp os
  have hbyte {i : ℕ} {va : U64} (hva : va.toNat = codeAddr.toNat + i) (hi : i < execCode.length) :
      readU8 codeAddr mem va = .ok execCode[i] := by
    have hidx : vaToIndex codeAddr mem va = .ok i :=
      Window.index_eq_ok.mpr ⟨hva, hi.trans_le hin.code_prefix.length_le⟩
    rw [readU8, hidx, Rust.ok_bind, Rust.index, List.prefix_iff_getElem?.mp hin.code_prefix i hi]
  have hpath : readUserCstr codeAddr mem 0x40000C = .ok (some "a") :=
    readUserCstr_a (by decide) (hbyte (i := 12) rfl (by decide)) (hbyte (i := 13) rfl (by decide))
  have htarget : ExecTarget codeAddr (atCall 59 0x40000C sp mem os) "a" [] [] rec :=
    ⟨⟨"a", hpath, by decide⟩, rfl, rfl, disk, hroot, hopen⟩
  exact nextProgram_eq_some.mpr ⟨hin.atSyscall sp os, rfl, htarget.execTarget_eq⟩

theorem atEntry_not_atSyscall (hin : CallIn 59 0x40000C [0x61, 0] mem) :
    ¬(atEntry sp mem os).AtSyscall codeAddr := fun hat ↦ by
  have h0 : (atEntry sp mem os).code codeAddr 0 = 0xB8 :=
    (hin.at_entry sp os).code_eq (k := 0) (by decide)
  exact absurd (h0.symm.trans hat.1) (by decide)

theorem betweenMoves_not_atSyscall (hin : CallIn 59 0x40000C [0x61, 0] mem) :
    ¬(betweenMoves 59 sp mem os).AtSyscall codeAddr := fun hat ↦ by
  have h0 : (betweenMoves 59 sp mem os).code codeAddr 0 = 0xBF :=
    (hin.at_between sp os).code_eq (k := 0) (by decide)
  exact absurd (h0.symm.trans hat.1) (by decide)

theorem meteredStep_mov_eax (hin : CallIn 59 0x40000C [0x61, 0] mem) :
    meteredStep r a mrun tmp codeAddr (atEntry sp mem os, m) =
      .ok false (betweenMoves 59 sp mem os, m.tick) :=
  meteredStep_of_not_atSyscall (atEntry_not_atSyscall hin) (hin.step_mov_eax sp os)

theorem meteredStep_mov_edi (hin : CallIn 59 0x40000C [0x61, 0] mem) :
    meteredStep r a mrun tmp codeAddr (betweenMoves 59 sp mem os, m) =
      .ok false (atCall 59 0x40000C sp mem os, m.tick) :=
  meteredStep_of_not_atSyscall (betweenMoves_not_atSyscall hin) (hin.step_mov_edi sp os)

/-- The file is loaded with its code at the entry. -/
theorem exec_loaded : ∃ prog sp mem, loadLinuxElf (codeFile execCode) ["a"] [] = .ok prog ∧
    CallIn 59 0x40000C [0x61, 0] mem ∧ prog.base = codeAddr ∧
      ∀ os, prog.guest os = atEntry sp mem os := by
  obtain ⟨⟨base, mem, sp, entry⟩, hload, rfl, rfl, hcode, hmem⟩ :=
    codeFile_exec.loads (oneArg "a" (by decide)) .nil (by decide)
  dsimp only at hcode hmem
  have hsize : linuxRunner.stackSize = 131072 := rfl
  have hlen := codeFile_exec.length_le
  exact ⟨_, sp, mem, hload, ⟨hcode, by omega, by decide, by decide⟩, rfl, fun _ ↦ rfl⟩

end Exec

/-! ### A program that starts one that returns -/

theorem byteBlock_isPow : ∃ k ≤ 63, 1 = 2 ^ k := ⟨0, Nat.zero_le 63, rfl⟩

theorem byteBlock_rounded {n : ℕ} (h : n < 2 ^ 63) : (n + 1 - 1) / 1 * 1 ≤ 2 ^ 63 - 1 := by
  rw [Nat.add_sub_cancel, Nat.div_one, Nat.mul_one]
  exact Nat.le_sub_one_of_lt h

/-- The block of a vector of bytes. -/
def byteBlock (n : ℕ) (h : n < 2 ^ 63) : Layout := ⟨n, 1, byteBlock_isPow, byteBlock_rounded h⟩

theorem totalLen_lt {image : List U8} {l : Elf.Layout} (h : layout linuxRunner image = .ok l) :
    l.totalLen < 2 ^ 63 :=
  (layout_valid h).total_le.trans_lt linuxRunner.limit

/-- The memory of a program. -/
def memoryBlocks (image : List U8) : List Layout :=
  (layout linuxRunner image).toOption.elim [] fun l ↦
    if h : l.totalLen < 2 ^ 63 then [byteBlock l.totalLen h] else []

theorem memoryBlocks_eq {image : List U8} {l : Elf.Layout} (h : layout linuxRunner image = .ok l) :
    memoryBlocks image = [byteBlock l.totalLen (totalLen_lt h)] := by
  rw [memoryBlocks, h]
  exact dif_pos (totalLen_lt h)

/-- Nothing else is allocated. -/
def memoryOnly : Allocations where
  load image _ _ := memoryBlocks image
  call _ _ := []
  memory image l _ _ h := by
    rw [memoryBlocks_eq h]
    exact ⟨_, List.mem_singleton_self _, rfl⟩

theorem memoryOnly_load_eq (image : List U8) (argv envp : List String) :
    memoryOnly.load image argv envp = memoryBlocks image := rfl

theorem memoryOnly_step : memoryOnly.step base g = [] := by
  rw [Allocations.step]
  split <;> rfl

theorem alloc_byteBlock {n next : ℕ} (h : n < 2 ^ 63) (hroom : next + n ≤ r.stop) :
    r.alloc (byteBlock n h) next = (next + n, next) := by
  have hplace : (next + (byteBlock n h).align - 1) / (byteBlock n h).align * (byteBlock n h).align =
      next := by
    rw [show (byteBlock n h).align = 1 from rfl, Nat.add_sub_cancel, Nat.div_one, Nat.mul_one]
  rw [Region.alloc, hplace]
  exact if_pos hroom

theorem memoryOnly_load {code : List U8} {argv envp : List String} {next : ℕ} (h : CodeFile code)
    (hpos : 0 < next) (hroom : next + (code.length + linuxRunner.stackSize) ≤ r.stop) :
    r.allocAll (memoryOnly.load (codeFile code) argv envp) next =
      some (next + (code.length + linuxRunner.stackSize)) := by
  have hblock := alloc_byteBlock (totalLen_lt h.layout) hroom
  rw [memoryOnly_load_eq, memoryBlocks_eq h.layout, Region.allocAll, hblock, if_neg hpos.ne']
  rfl

/-- An instruction that goes through has no sum that overflows. -/
theorem Guest.InOrder.stepFits {stop : Bool} {g' : Guest Os} (h : g.InOrder base)
    (hok : execOne (handleSyscall run tmp base) base g = .ok stop g') : StepFits run base g :=
  (not_panics_step_iff h.files h.bound).mp (panics_of_eq_ok hok)

theorem Guest.InOrder.stepHasRoom {stop : Bool} {g' : Guest Os}
    {fits : List U8 → List String → List String → Os × Meter → Prop} (h : g.InOrder base)
    (hat : ¬g.AtSyscall base) (hok : execOne (pure false) base g = .ok stop g') :
    StepHasRoom r a fits base (g, m) := by
  have hstep : execOne (handleSyscall (fun _ _ _ ↦ pure ()) ⟨1, by decide⟩ base) base g =
      .ok stop g' := (execOne_of_not_atSyscall hat _).trans hok
  refine ⟨h.stepFits hstep, m.next, ?_, fun p hp ↦ absurd (nextProgram_eq_some.mp hp).1 hat⟩
  rw [Allocations.step, if_neg hat]
  rfl

/-- A program that just returns fits where its memory does. -/
theorem fits_return {s : Os × Meter} (hos : s.1.world.kernel.FilesOk) (hpos : 0 < s.2.next)
    (hroom : s.2.next + 131073 ≤ r.stop) :
    RunFits r memoryOnly tmp (depth + 1) level (codeFile [0xC3]) ["a"] [] s := by
  obtain ⟨⟨base, mem, sp, entry⟩, hload, rfl, rfl, hcode, hmem⟩ :=
    codeFile_return.loads (oneArg "a" (by decide)) .nil (by decide)
  refine ⟨codeFile_return.linuxLoads, _, memoryOnly_load codeFile_return hpos
    (by rw [Nat.add_comm [0xC3].length]; exact hroom), fun prog hprog k _ t hsteps ↦ ?_⟩
  obtain rfl := Except.ok.inj (hload.symm.trans hprog)
  have horder := inOrder_guest hload hos
  have h0 : (atEntry sp mem s.1).code codeAddr 0 = 0xC3 :=
    (⟨hcode, horder.bound, rfl⟩ : (atEntry sp mem s.1).At codeAddr [0xC3] 0).code_eq (by decide)
  have hat : ¬(atEntry sp mem s.1).AtSyscall codeAddr := fun hat ↦
    absurd (h0.symm.trans hat.1) (by decide)
  rw [hsteps.eq_of_stop (meteredStep_of_not_atSyscall hat (execOne_ret h0))]
  exact horder.stepHasRoom hat (execOne_ret h0)

/-- The system call goes through, and is the last step. -/
theorem exec_stops (run : Run) (tmp : StackSlot) (sp : U64) {os : Os} {disk : Image}
    {rec : FileRecord} (hin : CallIn 59 0x40000C [0x61, 0] mem)
    (hroot : os.world.kernel.rootfs = some disk)
    (hopen : Fs.open disk.bytes "a" = .ok rec)
    (hrun : ∃ os', run rec.data ["a"] [] os.started = .ok () os') :
    ∃ g', execOne (handleSyscall run tmp codeAddr) codeAddr (atCall 59 0x40000C sp mem os) =
      .ok true g' := by
  obtain ⟨os', hrun⟩ := hrun
  obtain ⟨-, hnr, htarget⟩ := nextProgram_eq_some.mp (nextProgram_exec sp hin hroot hopen)
  have hspec := handleExecve_spec codeAddr (atCall 59 0x40000C sp mem os)
  rw [htarget] at hspec
  have hcall : handleSyscall run tmp codeAddr (atCall 59 0x40000C sp mem os) =
      afterExec (atCall 59 0x40000C sp mem os) (.ok () os') := by
    rw [handleSyscall_of_execve hnr, ← hrun]
    exact hspec run
  exact ⟨_, hin.execOne_call sp os hcall rfl⟩

/-- A program that starts it fits where the memory of both does. -/
theorem fits_exec {s : Os × Meter} (hos : s.1.world.kernel.FilesOk)
    (hroot : s.1.world.kernel.rootfs = some codeFile_return.disk) (hpos : 0 < s.2.next)
    (hroom : s.2.next + 262159 ≤ r.stop) :
    RunFits r memoryOnly tmp (depth + 2) level (codeFile execCode) ["a"] [] s := by
  obtain ⟨prog, sp, mem, hload, hin, hbase, hguest⟩ := exec_loaded
  obtain ⟨rec, hopen, hdata⟩ := codeFile_return.open_disk
  have hsize : execCode.length + linuxRunner.stackSize = 131086 := rfl
  refine ⟨codeFile_exec.linuxLoads, _, memoryOnly_load codeFile_exec hpos (by omega),
    fun prog' hprog k _ t hsteps ↦ ?_⟩
  obtain rfl := Except.ok.inj (hload.symm.trans hprog)
  have horder : (atEntry sp mem s.1).InOrder codeAddr := hguest s.1 ▸ hbase ▸ inOrder_guest hload hos
  rw [hbase, hguest] at hsteps
  rw [hbase]
  have hbetween : (betweenMoves 59 sp mem s.1).InOrder codeAddr :=
    horder.step (keeps_pure false) (fun _ ↦ ensures_pure.mpr rfl) (hin.step_mov_eax sp s.1)
  have hcall : (atCall 59 0x40000C sp mem s.1).InOrder codeAddr :=
    hbetween.step (keeps_pure false) (fun _ ↦ ensures_pure.mpr rfl) (hin.step_mov_edi sp s.1)
  cases hsteps with
  | refl => exact horder.stepHasRoom (atEntry_not_atSyscall hin) (hin.step_mov_eax sp s.1)
  | head hstep hsteps =>
    cases (meteredStep_mov_eax hin).symm.trans hstep
    cases hsteps with
    | refl => exact hbetween.stepHasRoom (betweenMoves_not_atSyscall hin) (hin.step_mov_edi sp s.1)
    | head hstep hsteps =>
      cases (meteredStep_mov_edi hin).symm.trans hstep
      cases hsteps with
      | refl =>
        obtain ⟨g', hstop⟩ := exec_stops (fun _ _ _ ↦ pure ()) tmp sp hin hroot hopen ⟨_, rfl⟩
        refine ⟨hcall.stepFits hstop, _, by rw [memoryOnly_step, Region.allocAll], fun p hp ↦ ?_⟩
        obtain rfl := Option.some_inj.mp ((nextProgram_exec sp hin hroot hopen).symm.trans hp)
        rw [hdata]
        refine fits_return (hos.of_eq rfl rfl) (Nat.add_pos_left hpos _) ?_
        exact (Nat.add_assoc _ _ _).le.trans hroom
      | head hstep _ =>
        obtain ⟨g', hstop⟩ := exec_stops (runLinuxElf tmp (depth + 1)) tmp sp hin hroot
          hopen ⟨_, by
            rw [hdata]
            exact (runLinuxElf_return (oneArg "a" (by decide)) .nil (by decide) tmp depth _).1⟩
        have hgoes := (meteredStep_follows (meteredRun_follows _ _)).ok hstep
        exact absurd (EStateM.Result.ok.inj (hstop.symm.trans hgoes)).1 (by decide)

/-- **A run within the bounds**, of a program that starts another. -/
theorem run_bounded_iff_exec :
    (ReturnsWithin (maxSteps * mostPrograms) mostPrograms
        (meteredRun someRegion memoryOnly ⟨1, by decide⟩ 2 0 (codeFile execCode) ["a"] []
          (.mounted codeFile_return.disk, .start 0x200000)) ↔
      RunFits someRegion memoryOnly ⟨1, by decide⟩ 2 0 (codeFile execCode) ["a"] []
        (.mounted codeFile_return.disk, .start 0x200000)) ∧
    RunFits someRegion memoryOnly ⟨1, by decide⟩ 2 0 (codeFile execCode) ["a"] []
      (.mounted codeFile_return.disk, .start 0x200000) := by
  have hlen : (codeFile execCode).length < 2 ^ 63 := by
    rw [codeFile, List.length_append, length_codeHeaders]
    decide
  constructor
  · exact run_bounded_iff someRegion rfl memoryOnly _ 2 ⟨codeFile execCode, hlen⟩
      (oneArg "a" (by decide)) .nil (.mounted codeFile_return.disk)
      (Kernel.Reachable.step (w := ⟨.boot, fun _ ↦ 0, []⟩) Kernel.reachable_boot .mount) 0x200000
      le_rfl (Nat.le_add_right _ _)
  · exact fits_exec (Kernel.filesOk_setRootfs _) rfl (by decide) (by decide)

/-! ### A program that starts itself -/

/-- A program that starts one that does not return does not return. -/
theorem panics_meteredStep_of_nextProgram {p : List U8 × List String × List String}
    (hnext : g.nextProgram base = some p)
    (h : ∀ m, Panics (mrun p.1 p.2.1 p.2.2) (g.os.started, m)) :
    Panics (meteredStep r a mrun tmp base) (g, m) := by
  refine panics_takeBlocks_bind.mpr ?_
  cases r.allocAll (a.step base g) m.tick.next with
  | none => exact .inl rfl
  | some next =>
    refine .inr ⟨next, rfl, ?_⟩
    rw [Panics, bind_apply, nestedRun, hnext]
    exact panics_metered.mpr (panics_of_nextProgram hnext (panics_seen.mpr (h _)))

theorem panics_selfExec (depth level : ℕ) (s : Os × Meter)
    (hroot : s.1.world.kernel.rootfs = some codeFile_exec.disk) :
    Panics (meteredRun r a tmp depth level (codeFile execCode) ["a"] []) s := by
  induction depth generalizing level s with
  | zero => exact ⟨s, rfl⟩
  | succ depth ih =>
    obtain ⟨prog, sp, mem, hload, hin, hbase, hguest⟩ := exec_loaded
    obtain ⟨rec, hopen, hdata⟩ := codeFile_exec.open_disk
    refine panics_takeBlocks_bind.mpr ?_
    cases r.allocAll (a.load (codeFile execCode) ["a"] []) s.2.next with
    | none => exact .inl rfl
    | some next =>
      refine .inr ⟨next, rfl, panics_bind.mpr (.inr ⟨prog, _, lift_eq_ok.mpr ⟨hload, rfl⟩, ?_⟩)⟩
      refine panics_meteredProgram.mpr ⟨2, by decide, ?_⟩
      rw [hbase, hguest]
      refine ⟨_, .head (meteredStep_mov_eax hin) (.head (meteredStep_mov_edi hin) (.refl _)), ?_⟩
      have hnext := nextProgram_exec sp hin hroot hopen
      rw [hdata] at hnext
      exact panics_meteredStep_of_nextProgram hnext fun m ↦ ih (level + 1) (_, m) hroot

/-- **It never returns**, whatever room there is. -/
theorem selfExec_never_returns : ¬∃ (r : Region) (a : Allocations) (tmp : StackSlot)
    (depth next N D : ℕ), ReturnsWithin N D (meteredRun r a tmp depth 0 (codeFile execCode) ["a"] []
      (.mounted codeFile_exec.disk, .start next)) := by
  rintro ⟨r, a, tmp, depth, next, N, D, h⟩
  exact returns_iff.mp h.returns (panics_selfExec depth 0 (.mounted codeFile_exec.disk, _) rfl)

end LeonOS
