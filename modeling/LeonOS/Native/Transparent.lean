import LeonOS.Native.Entry

/-!
# Native system calls, as the program sees them

A `syscall` instruction is to change `rax`, `rcx` and `r11`, and memory where the call is meant to
write.  The entry code keeps the registers that it pushes.  The registers that carry the arguments
are what the compiled dispatcher left in them, and the words that it pushes are on the stack of the
program, in the 128 bytes below `rsp` that the program may use (`transparentWith_iff`).

A dispatcher that follows the System V convention need not keep the registers of its arguments, so
that for no state at all is the system call transparent (`syscall_transparent_iff`).
-/

set_option autoImplicit false

namespace LeonOS

open Bytes X86

namespace Native

/-- The registers of the arguments of a function. -/
def argRegs : List Reg := [.rdi, .rsi, .rdx, .rcx, .r8, .r9]

/-- The number of a system call and its arguments. -/
def syscallRegs : List Reg := [.rax, .rdi, .rsi, .rdx, .r10, .r8]

/-- **`leonos3_native_syscall_dispatch`**, as it was compiled. -/
structure Dispatcher where
  /-- What a call does. -/
  run : State → State
  /-- What it returns, for the arguments. -/
  result : List U64 → U64
  /-- The memory that it is meant to write. -/
  writes : List U64 → Set ℕ
  /-- It keeps the registers of its caller. -/
  sysv : SysV run
  /-- The result is in `rax`. -/
  returns : ∀ s, (run s).regs .rax = result (argRegs.map s.regs)
  /-- It leaves the stack of its caller alone. -/
  frame : ∀ s x, (s.regs .rsp).toNat ≤ x → x ∉ writes (argRegs.map s.regs) →
    (run s).mem x = s.mem x

/-- **A system call is transparent to the program** that makes it in the state `m`, when the
dispatcher is `D`. -/
def TransparentWith (L : Layout) (D : Dispatcher) (m : X86.Machine) : Prop :=
  ∃ t, (L.program D.run id).Leaves m t ∧ t.rip = m.cpu.regs .rcx ∧
    (∀ r, r ∉ [Reg.rax, .rcx, .r11] → t.cpu.regs r = m.cpu.regs r) ∧
    t.cpu.regs .rax = D.result (syscallRegs.map m.cpu.regs) ∧
    ∀ x, x ∉ D.writes (syscallRegs.map m.cpu.regs) → t.cpu.mem x = m.cpu.mem x

/-- **It is transparent**, however the dispatcher was compiled. -/
def Transparent (L : Layout) (m : X86.Machine) : Prop := ∀ D, TransparentWith L D m

/-- A program has made a system call that is not an exit. -/
structure Called (L : Layout) (m : X86.Machine) : Prop where
  /-- Control is at the entry. -/
  rip : m.rip = L.syscallEntry
  /-- It is not `exit`. -/
  not_exit : m.cpu.regs .rax ≠ 60
  /-- It is not `exit_group`. -/
  not_exitGroup : m.cpu.regs .rax ≠ 231
  /-- The code of the program is elsewhere. -/
  outside : L.Outside (m.cpu.regs .rcx)

/-! ## The entry code -/

/-- The registers that are pushed. -/
def pushed : List Reg := [.rcx, .r11, .rbx, .rbp, .r12, .r13, .r14, .r15]

/-- The moves of the arguments. -/
def shuffle : List (Reg × Reg) :=
  [(.rbx, .rdi), (.rbp, .rsi), (.r12, .rdx), (.r13, .r10), (.r14, .r8), (.r15, .r9),
    (.rdi, .rax), (.rsi, .rbx), (.rdx, .rbp), (.rcx, .r12), (.r8, .r13), (.r9, .r14)]

/-- The state that the dispatcher is called in. -/
def entered (L : Layout) (m : X86.Machine) : State :=
  ((State.pushRegs { m.cpu with sf := (m.cpu.regs .rax - 231).msb } pushed).moves shuffle).push
    (L.addr 31)

variable {L : Layout} {D : Dispatcher} {f : State → State} {m : X86.Machine}

theorem regs_entered (r : Reg) : (entered L m).regs r = match r with
    | .rsp => m.cpu.regs .rsp - 72
    | .rdi => m.cpu.regs .rax
    | .rsi | .rbx => m.cpu.regs .rdi
    | .rdx | .rbp => m.cpu.regs .rsi
    | .rcx | .r12 => m.cpu.regs .rdx
    | .r8 | .r13 => m.cpu.regs .r10
    | .r9 | .r14 => m.cpu.regs .r8
    | .r15 => m.cpu.regs .r9
    | r => m.cpu.regs r := by
  have hsp : m.cpu.regs .rsp - BitVec.ofNat 64 (8 * pushed.length) - 8#64 =
      m.cpu.regs .rsp - 72#64 := by
    rw [show 8 * pushed.length = 64 from rfl]
    bv_omega
  cases r <;> simp [entered, State.moves, shuffle, regs_pushRegs, hsp]

/-- The arguments are handed on. -/
theorem args_entered : argRegs.map (entered L m).regs = syscallRegs.map m.cpu.regs := by
  simp [argRegs, syscallRegs, regs_entered]

theorem mem_moves (s : State) (ms : List (Reg × Reg)) : (s.moves ms).mem = s.mem := by
  induction ms generalizing s with
  | nil => rfl
  | cons m ms ih => exact ih _

/-- What is pushed is on the stack, under the return address. -/
theorem frame_entered : Frame (entered L m).mem ((entered L m).regs .rsp)
    (L.addr 31 :: (pushed.map m.cpu.regs).reverse) := by
  let s : State := { m.cpu with sf := (m.cpu.regs .rax - 231).msb }
  have hpushed := frame_pushRegs (s := s) pushed (by decide) (frame_nil _ _) (by decide)
  rw [List.append_nil] at hpushed
  have hsp : ((s.pushRegs pushed).moves shuffle).regs .rsp = (s.pushRegs pushed).regs .rsp := by
    simp [State.moves, shuffle]
  have hmoved : Frame ((s.pushRegs pushed).moves shuffle).mem
      (((s.pushRegs pushed).moves shuffle).regs .rsp) (pushed.map m.cpu.regs).reverse := by
    rw [mem_moves, hsp]
    exact hpushed
  have htop := hmoved.push (v := L.addr 31) (by simp [pushed])
  rw [entered, regs_push, if_pos rfl]
  exact htop

/-- The words that were pushed are there when the dispatcher, `f`, returns. -/
def Survives (L : Layout) (f : State → State) (m : X86.Machine) : Prop :=
  Frame (f (entered L m)).mem ((f (entered L m)).regs .rsp) (pushed.map m.cpu.regs).reverse

/-- They are when the stack does not wrap around and the call does not write to them. -/
theorem survives_of_clear (hroom : 72 ≤ (m.cpu.regs .rsp).toNat)
    (hclear : ∀ x, (m.cpu.regs .rsp).toNat - 72 ≤ x → x < (m.cpu.regs .rsp).toNat →
      x ∉ D.writes (syscallRegs.map m.cpu.regs)) : Survives L D.run m := by
  have hsp : ((entered L m).regs .rsp).toNat = (m.cpu.regs .rsp).toNat - 72 := by
    rw [regs_entered]
    bv_omega
  have hkept : Frame (D.run (entered L m)).mem ((entered L m).regs .rsp)
      (L.addr 31 :: (pushed.map m.cpu.regs).reverse) := by
    have hlt := (m.cpu.regs .rsp).isLt
    refine frame_entered.congr ?_ fun x hlo hhi ↦ ?_
    · simp [pushed, hsp]
      omega
    · refine D.frame _ x hlo ?_
      rw [args_entered]
      simp [pushed, hsp] at hlo hhi
      exact hclear x (by omega) (by omega)
  rw [Survives, D.sysv.rsp]
  exact hkept.tail

/-- **The way of a system call** through the entry code. -/
theorem syscall_leaves (h : Called L m) (hsurvives : Survives L f m) :
    (L.program f id).Leaves m
      ⟨(f (entered L m)).popRegs pushed.reverse, false, m.cpu.regs .rcx⟩ := by
  have hP : (L.program f id).Apart := Layout.program_apart
  let s : State := { m.cpu with sf := (m.cpu.regs .rax - 231).msb }
  have hbegin : (L.program f id).Reaches m ⟨s, false, L.addr 10⟩ :=
    reaches_pushes h.rip h.not_exit h.not_exitGroup
  have hpushes := Program.straight_of_drop (i := 10) (m := ⟨s, false, L.addr 10⟩)
    (pushed.map .push) hP rfl rfl
  rw [execFrom_pushes] at hpushes
  have hmoves := Program.straight_of_drop (i := 18) (m := ⟨s.pushRegs pushed, false, L.addr 18⟩)
    (shuffle.map fun p ↦ .mov .qword (.reg p.1) (.reg p.2)) hP rfl rfl
  rw [execFrom_moves] at hmoves
  have hcall := Program.step_instr (i := 30)
    (m := ⟨(s.pushRegs pushed).moves shuffle, false, L.addr 30⟩) hP rfl rfl
  have hdispatch := Program.step_ext (P := L.program f id) (f := f)
    (m := ⟨entered L m, false, L.dispatch⟩)
    (Layout.find_eq_none fun i hi ↦ (L.functions i hi).1) (if_pos rfl)
  have htop : (entered L m).top = L.addr 31 := frame_entered.head rfl
  rw [htop] at hdispatch
  have hpops := Program.straight_of_drop (i := 31) (m := ⟨f (entered L m), false, L.addr 31⟩)
    (pushed.reverse.map .pop) hP rfl rfl
  rw [execFrom_pops] at hpops
  obtain ⟨-, -, -, hwords⟩ := popRegs_spec pushed.reverse (by decide) (by decide) hsurvives
  have hrcx := hwords 7 .rcx (m.cpu.regs .rcx) rfl rfl
  have hjump : (L.program f id).step
      ⟨(f (entered L m)).popRegs pushed.reverse, false, L.addr 39⟩ =
        some ⟨(f (entered L m)).popRegs pushed.reverse, false, m.cpu.regs .rcx⟩ := by
    rw [← hrcx]
    exact Program.step_instr (i := 39) hP rfl rfl
  refine ⟨?_, Program.step_outside h.outside.program⟩
  exact hbegin.trans <| hpushes.trans <| hmoves.trans <| (Program.Reaches.of_step hcall).trans <|
    (Program.Reaches.of_step hdispatch).trans <| hpops.trans (.of_step hjump)

/-- The registers that were pushed are restored, and so is the stack pointer; the others are as the
dispatcher has left them. -/
theorem after_syscall (hrsp : (f (entered L m)).regs .rsp = (entered L m).regs .rsp + 8)
    (hsurvives : Survives L f m) :
    ((f (entered L m)).popRegs pushed.reverse).mem = (f (entered L m)).mem ∧
    (∀ r ∈ .rsp :: pushed,
      ((f (entered L m)).popRegs pushed.reverse).regs r = m.cpu.regs r) ∧
    ∀ r, r ∉ .rsp :: pushed →
      ((f (entered L m)).popRegs pushed.reverse).regs r = (f (entered L m)).regs r := by
  obtain ⟨hmem, hsp, hother, hwords⟩ :=
    popRegs_spec pushed.reverse (by decide) (by decide) hsurvives
  refine ⟨hmem, fun r hr ↦ ?_, fun r hr ↦ ?_⟩
  · rcases List.mem_cons.mp hr with rfl | hr
    · rw [hsp, hrsp, regs_entered, List.length_reverse, show 8 * pushed.length = 64 from rfl]
      bv_omega
    · obtain ⟨k, hk⟩ := List.mem_iff_getElem?.mp (List.mem_reverse.mpr hr)
      exact hwords k r _ hk (by rw [← List.map_reverse, List.getElem?_map, hk]; rfl)
  · obtain ⟨hrsp, hr⟩ := not_or.mp (List.mem_cons.not.mp hr)
    exact hother r hrsp fun hmem ↦ hr (List.mem_reverse.mp hmem)

/-- The registers that the entry code neither pushes nor returns a result in. -/
def lost : List Reg := [.rdi, .rsi, .rdx, .r8, .r9, .r10]

/-- **What a dispatcher has to do** for a system call to be transparent. -/
theorem transparentWith_iff (h : Called L m) (hsurvives : Survives L D.run m) :
    TransparentWith L D m ↔
      (∀ r ∈ lost, (D.run (entered L m)).regs r = m.cpu.regs r) ∧
        ∀ x, x ∉ D.writes (syscallRegs.map m.cpu.regs) →
          (D.run (entered L m)).mem x = m.cpu.mem x := by
  have hleaves := syscall_leaves h hsurvives
  obtain ⟨hmem, hkept, hother⟩ := after_syscall (D.sysv.rsp _) hsurvives
  constructor
  · rintro ⟨t, ht, -, hregs, -, hbytes⟩
    obtain rfl := ht.unique hleaves
    refine ⟨fun r hr ↦ ?_, fun x hx ↦ ?_⟩
    · rw [← hregs r (by revert r; decide)]
      exact (hother r (by revert r; decide)).symm
    · rw [← hbytes x hx]
      exact (congrFun hmem x).symm
  · rintro ⟨hregs, hbytes⟩
    refine ⟨_, hleaves, rfl, fun r hr ↦ ?_, ?_, fun x hx ↦ ?_⟩
    · by_cases hpushed : r ∈ .rsp :: pushed
      · exact hkept r hpushed
      · have hlost : r ∈ lost := by
          revert hr hpushed
          cases r <;> decide
        exact (hother r hpushed).trans (hregs r hlost)
    · refine (hother .rax (by decide)).trans ?_
      rw [D.returns, args_entered]
    · exact (congrFun hmem x).trans (hbytes x hx)

/-- A dispatcher that leaves a value in `rdi`, writes nothing and returns zero. -/
def leaving (v : U64) : Dispatcher where
  run s := (s.drop.writeReg .qword .rdi v).writeReg .qword .rax 0
  result _ := 0
  writes _ := ∅
  sysv := {
    rsp := fun s ↦ by simp
    saved := fun s r hr ↦ by
      revert r
      simp [calleeSaved] }
  returns s := by simp
  frame _ _ _ _ := rfl

theorem survives_leaving (v : U64) : Survives L (leaving v).run m := by
  rw [Survives, (leaving v).sysv.rsp]
  exact frame_entered.tail

/-- No system call is transparent. -/
theorem not_transparent (h : Called L m) : ¬Transparent L m := by
  intro htransparent
  have hkeeps := (transparentWith_iff h (survives_leaving (m.cpu.regs .rdi + 1))).mp
    (htransparent _)
  have hrdi := hkeeps.1 .rdi (by decide)
  simp [leaving] at hrdi

/-- **When a system call is transparent**: for no state at all, as the dispatcher need not keep the
registers of its arguments.  With a given dispatcher it is just when that one does keep them, and
the words that are pushed on the stack of the program were there before. -/
theorem syscall_transparent_iff {L : Layout} {m : X86.Machine} (h : Called L m) :
    ¬Transparent L m ∧
      ∀ D : Dispatcher, 72 ≤ (m.cpu.regs .rsp).toNat →
        (∀ x, (m.cpu.regs .rsp).toNat - 72 ≤ x → x < (m.cpu.regs .rsp).toNat →
          x ∉ D.writes (syscallRegs.map m.cpu.regs)) →
        (TransparentWith L D m ↔
          (∀ r ∈ lost, (D.run (entered L m)).regs r = m.cpu.regs r) ∧
            ∀ x, x ∉ D.writes (syscallRegs.map m.cpu.regs) →
              (D.run (entered L m)).mem x = m.cpu.mem x) :=
  ⟨not_transparent h, fun _ hroom hclear ↦
    transparentWith_iff h (survives_of_clear hroom hclear)⟩

/-- `getpid`. -/
def getpidCall : X86.Machine where
  cpu := ⟨fun r ↦ match r with | .rax => 39 | .rcx => 0x8002 | .rsp => 0x9000 | _ => 0,
    fun _ ↦ 0, false⟩
  zf := false
  rip := Layout.spaced.syscallEntry

theorem called_getpid : Called Layout.spaced getpidCall where
  rip := rfl
  not_exit := by decide
  not_exitGroup := by decide
  outside := Layout.outside_spaced (by decide)

/-- The dispatcher need not restore `rdi`. -/
theorem getpid_not_transparent : ¬Transparent Layout.spaced getpidCall :=
  not_transparent called_getpid

theorem syscall_transparent_iff_getpid : Called Layout.spaced getpidCall ∧
    ¬Transparent Layout.spaced getpidCall ∧
    ¬TransparentWith Layout.spaced (leaving 7) getpidCall := by
  obtain ⟨hnever, hiff⟩ := syscall_transparent_iff called_getpid
  refine ⟨called_getpid, hnever, fun h ↦ ?_⟩
  have hkeeps := (hiff (leaving 7) (by decide) (fun _ _ _ hx ↦ nomatch hx)).mp h
  exact absurd (hkeeps.1 .rdi (by decide)) (by decide)

end Native

end LeonOS
