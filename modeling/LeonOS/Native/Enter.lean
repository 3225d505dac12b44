import LeonOS.Native.Entry

/-!
# Entering a native program, and the way back

`leonos3_native_enter` is a function to the kernel that calls it.  It saves `rsp` and the address of
`.Lnative_return` in two statics, takes the stack of the program and calls its entry point
(`enter_leaves`).  There are two ways back.

* A system call `exit` or `exit_group` ends at `.Lnative_exit`, which takes both from the statics:
  control returns to the kernel with its `rsp`, and the other registers are those of the program
  (`exit_leaves`).
* A plain return goes on at `.Lnative_return` with the stack of the program, and the `ret` there
  takes a word of that stack for the return address (`return_leaves`).

So the registers that the kernel relies on are kept just when the program exits and has kept them
itself (`enter_wellBehaved_iff`).
-/

set_option autoImplicit false

namespace LeonOS

open Bytes X86

namespace Native

/-- **`leonos3_native_mark_exit`**, as it was compiled. -/
structure MarkExit where
  /-- What a call does. -/
  run : State → State
  /-- The size of its stack frame. -/
  depth : ℕ
  /-- Its static memory. -/
  data : Set ℕ
  /-- It keeps the registers of its caller. -/
  sysv : SysV run
  /-- Other memory is left alone. -/
  frame : ∀ s, depth ≤ (s.regs .rsp).toNat → ∀ x ∉ data,
    x < (s.regs .rsp).toNat - depth ∨ (s.regs .rsp).toNat ≤ x → (run s).mem x = s.mem x

/-- The memory that the way back relies on: the two statics and the return address. -/
def relied (L : Layout) (k : X86.Machine) : Set ℕ :=
  {x | x ∈ word L.returnRsp ∨ x ∈ word L.returnRip ∨ x ∈ word (k.cpu.regs .rsp)}

/-- The kernel has called `leonos3_native_enter` in the state `k`. -/
structure Calling (L : Layout) (k : X86.Machine) : Prop where
  /-- Control is there. -/
  rip : k.rip = L.enterLabel
  /-- The code of the program is elsewhere. -/
  entry : L.Outside (k.cpu.regs .rdi)
  /-- So is the code of the kernel. -/
  back : L.Outside k.cpu.top
  /-- The statics are two. -/
  statics : Disjoint (word L.returnRsp) (word L.returnRip)
  /-- The stack of the kernel does not overlap them. -/
  stack : Disjoint (word (k.cpu.regs .rsp)) (word L.returnRsp ∪ word L.returnRip)
  /-- The stack of the program is another one. -/
  own : k.cpu.regs .rsi ≠ k.cpu.regs .rsp
  /-- The word below its top is none of these. -/
  slot : Disjoint (word (k.cpu.regs .rsi - 8)) (relied L k)

/-- The program ends with `exit` or `exit_group`, on a stack that has room for the call of
`leonos3_native_mark_exit`. -/
structure Exits (L : Layout) (M : MarkExit) (k u : X86.Machine) : Prop where
  /-- Control is at the entry for system calls. -/
  rip : u.rip = L.syscallEntry
  /-- The number of the call. -/
  number : u.cpu.regs .rax = 60 ∨ u.cpu.regs .rax = 231
  /-- The stack does not wrap around. -/
  room : M.depth + 8 ≤ (u.cpu.regs .rsp).toNat
  /-- It is the program's. -/
  stack : ∀ x, (u.cpu.regs .rsp).toNat - (M.depth + 8) ≤ x → x < (u.cpu.regs .rsp).toNat →
    x ∉ relied L k

/-- The program returns from its entry point with a balanced stack. -/
structure Returns (L : Layout) (k u : X86.Machine) : Prop where
  /-- Control is behind the call. -/
  rip : u.rip = L.nativeReturn
  /-- The stack is balanced. -/
  rsp : u.cpu.regs .rsp = k.cpu.regs .rsi
  /-- The word on it, which was `argc`, is not an address in this code. -/
  word : L.Outside u.cpu.top

/-- The program, started in the state `p`, has ended in the state `u`; it may have changed
everything but the words that the kernel relies on. -/
structure Ended (L : Layout) (M : MarkExit) (k p u : X86.Machine) : Prop where
  /-- These words are as they were. -/
  kept : ∀ x ∈ relied L k, u.cpu.mem x = p.cpu.mem x
  /-- And the statics of `leonos3_native_mark_exit` are others. -/
  data : Disjoint M.data (relied L k)
  /-- The two ways to end. -/
  ends : Exits L M k u ∨ Returns L k u

/-- **The call was well-behaved**: from `u` on control returns to behind the call of
`leonos3_native_enter`, with `rsp` as before it and the registers that a function has to keep. -/
def WellBehaved (L : Layout) (dispatch : State → State) (M : MarkExit) (k u : X86.Machine) : Prop :=
  ∃ t, (L.program dispatch M.run).Leaves u t ∧ t.rip = k.cpu.top ∧
    t.cpu.regs .rsp = k.cpu.regs .rsp + 8 ∧ ∀ r ∈ calleeSaved, t.cpu.regs r = k.cpu.regs r

/-! ## The way in -/

/-- The instructions in front of the call of the entry point. -/
def saves (L : Layout) : List Instr := [
  .mov .qword (.mem (L.ripTo 0 L.returnRsp)) (.reg .rsp),
  .lea .qword .rax (L.ripTo 1 L.nativeReturn),
  .mov .qword (.mem (L.ripTo 2 L.returnRip)) (.reg .rax),
  .mov .qword (.reg .rsp) (.reg .rsi)]

/-- What they do. -/
def saved (L : Layout) (s : State) : State :=
  ({ s with
    mem := poke (poke s.mem L.returnRsp.toNat (toLE 8 (s.regs .rsp).toNat)) L.returnRip.toNat
      (toLE 8 L.nativeReturn.toNat) }.writeReg .qword .rax L.nativeReturn).writeReg .qword .rsp
    (s.regs .rsi)

/-- The state that the program is started in. -/
def started (L : Layout) (k : X86.Machine) : X86.Machine :=
  ⟨(saved L k.cpu).push L.nativeReturn, k.zf, k.cpu.regs .rdi⟩

variable {L : Layout} {dispatch : State → State} {M : MarkExit} {k p u : X86.Machine}

theorem execFrom_saves (s : State) :
    (L.program dispatch M.run).execFrom 0 s (saves L) = saved L s := by
  have hea (i : ℕ) (a : U64) (s : State) :
      s.ea ((L.program dispatch M.run).addr (i + 1)) (L.ripTo i a) = a := L.ea_ripTo i s
  simp [saves, Program.execFrom, exec, State.write, State.read, hea, Size.truncate, Size.bytes]
  rfl

/-- **The program is started.** -/
theorem enter_leaves (h : Calling L k) :
    (L.program dispatch M.run).Leaves k (started L k) := by
  have hP : (L.program dispatch M.run).Apart := Layout.program_apart
  have hsaves := Program.straight_of_drop (i := 0) (m := k) (saves L) hP h.rip rfl
  rw [execFrom_saves] at hsaves
  have hcall : (L.program dispatch M.run).step ⟨saved L k.cpu, k.zf, L.addr 4⟩ =
      some (started L k) := Program.step_instr (i := 4) hP rfl rfl
  exact ⟨hsaves.trans (.of_step hcall), Program.step_outside h.entry.program⟩

theorem apart_of_disjoint {a b : U64} (h : Disjoint (word a) (word b)) :
    b.toNat + 8 ≤ a.toNat ∨ a.toNat + 8 ≤ b.toNat := by
  by_contra hnot
  have hboth : max a.toNat b.toNat ∈ word a ∧ max a.toNat b.toNat ∈ word b := by
    simp only [word, Set.mem_ofPred_eq]
    omega
  exact Set.disjoint_left.mp h hboth.1 hboth.2

/-- The words that the kernel relies on, when the program has left them alone. -/
structure Intact (L : Layout) (k : X86.Machine) (m : ℕ → U8) : Prop where
  /-- The stack pointer of the kernel is saved. -/
  returnRsp : X86.load m L.returnRsp.toNat 8 = k.cpu.regs .rsp
  /-- So is where to go on. -/
  returnRip : X86.load m L.returnRip.toNat 8 = L.nativeReturn
  /-- The return address is where it was. -/
  back : X86.load m (k.cpu.regs .rsp).toNat 8 = k.cpu.top

theorem intact_started (h : Calling L k) : Intact L k (started L k).cpu.mem := by
  have hmem : (started L k).cpu.mem =
      poke (poke (poke k.cpu.mem L.returnRsp.toNat (toLE 8 (k.cpu.regs .rsp).toNat))
        L.returnRip.toNat (toLE 8 L.nativeReturn.toNat)) (k.cpu.regs .rsi - 8).toNat
        (toLE 8 L.nativeReturn.toNat) := by
    simp [started, saved, mem_push]
  have hslot {a : U64} (ha : word a ⊆ relied L k) :=
    apart_of_disjoint (h.slot.mono_right ha)
  have hstack := Set.disjoint_union_right.mp h.stack
  rw [hmem]
  constructor
  · rw [load_poke_of_disjoint (hslot fun x hx ↦ .inl hx),
      load_poke_of_disjoint (apart_of_disjoint h.statics.symm), load_poke_self]
  · rw [load_poke_of_disjoint (hslot fun x hx ↦ .inr (.inl hx)), load_poke_self]
  · rw [load_poke_of_disjoint (hslot fun x hx ↦ .inr (.inr hx)),
      load_poke_of_disjoint (apart_of_disjoint hstack.2.symm),
      load_poke_of_disjoint (apart_of_disjoint hstack.1.symm), State.top]

/-- Memory that agrees on them. -/
theorem Intact.congr {m m' : ℕ → U8} (h : Intact L k m) (heq : ∀ x ∈ relied L k, m' x = m x) :
    Intact L k m' where
  returnRsp := (load_congr fun x hx ↦ heq x (.inl hx)).trans h.returnRsp
  returnRip := (load_congr fun x hx ↦ heq x (.inr (.inl hx))).trans h.returnRip
  back := (load_congr fun x hx ↦ heq x (.inr (.inr hx))).trans h.back

/-! ## The two ways back -/

/-- A word is put on the stack of the program, and `leonos3_native_mark_exit` runs. -/
theorem Exits.intact_mark {s : State} (h : Exits L M k u) (hdata : Disjoint M.data (relied L k))
    (hmem : Intact L k u.cpu.mem) (hs : s.mem = u.cpu.mem) (hrsp : s.regs .rsp = u.cpu.regs .rsp)
    (v : U64) : Intact L k (M.run (s.push v)).mem := by
  have hroom := h.room
  have hsp : ((s.push v).regs .rsp).toNat = (u.cpu.regs .rsp).toNat - 8 := by
    rw [regs_push, if_pos rfl, hrsp]
    bv_omega
  refine hmem.congr fun x hx ↦ ?_
  have hout : x < (u.cpu.regs .rsp).toNat - (M.depth + 8) ∨ (u.cpu.regs .rsp).toNat ≤ x := by
    by_contra hin
    exact h.stack x (by omega) (by omega) hx
  rw [M.frame _ (by omega) x (Set.disjoint_right.mp hdata hx) (by omega), mem_push, ← hs]
  rw [regs_push, if_pos rfl] at hsp
  exact poke_of_lt (by rw [hsp, length_toLE]; omega)

/-- The call of `leonos3_native_mark_exit` returns, with the registers of the program and with the
words of the kernel as they were. -/
theorem reaches_marked (h : Exits L M k u) (hdata : Disjoint M.data (relied L k))
    (hmem : Intact L k u.cpu.mem) : ∃ v zf,
      (L.program dispatch M.run).Reaches u ⟨v, zf, L.addr 41⟩ ∧ Intact L k v.mem ∧
        ∀ r ∈ calleeSaved, v.regs r = u.cpu.regs r := by
  have hP : (L.program dispatch M.run).Apart := Layout.program_apart
  obtain ⟨sf, zf, hbegin⟩ : ∃ sf zf, (L.program dispatch M.run).Reaches u
      ⟨{ u.cpu with sf := sf }, zf, L.nativeExit⟩ := reaches_nativeExit h.rip h.number
  let s : State := { u.cpu with sf := sf }
  have hcall := Program.step_instr (P := L.program dispatch M.run) (i := 40)
    (m := ⟨s, zf, L.addr 40⟩) hP rfl rfl
  have hmark := Program.step_ext (P := L.program dispatch M.run) (f := M.run)
    (m := ⟨s.push (L.addr 41), zf, L.markExit⟩)
    (Layout.find_eq_none fun i hi ↦ (L.functions i hi).2)
    ((if_neg L.dispatch_ne.symm).trans (if_pos rfl))
  have htop : (s.push (L.addr 41)).top = L.addr 41 := by
    rw [State.top, mem_push, regs_push, if_pos rfl]
    exact load_poke_self _ _ _
  rw [htop] at hmark
  refine ⟨M.run (s.push (L.addr 41)), zf,
    hbegin.trans ((Program.Reaches.of_step hcall).trans (.of_step hmark)),
    h.intact_mark (s := s) hdata hmem rfl rfl _, fun r hr ↦ ?_⟩
  have hne : r ≠ .rsp := by
    rintro rfl
    exact absurd hr (by decide)
  calc (M.run (s.push (L.addr 41))).regs r = (s.push (L.addr 41)).regs r := M.sysv.saved _ r hr
    _ = u.cpu.regs r := by simp [s, hne]

/-- Behind it `rsp` is restored, and `.Lnative_return` returns to the kernel. -/
theorem reaches_kernel {v : State} {zf : Bool} (hintact : Intact L k v.mem) :
    (L.program dispatch M.run).Reaches ⟨v, zf, L.addr 41⟩
      ⟨(v.writeReg .qword .rsp (k.cpu.regs .rsp)).drop, zf, k.cpu.top⟩ := by
  have hP : (L.program dispatch M.run).Apart := Layout.program_apart
  let w : State := v.writeReg .qword .rsp (k.cpu.regs .rsp)
  have hrsp : (L.program dispatch M.run).step ⟨v, zf, L.addr 41⟩ = some ⟨w, zf, L.addr 42⟩ := by
    rw [Program.step_instr (i := 41) (x := .data (.mov .qword (.reg .rsp)
      (.mem (L.ripTo 41 L.returnRsp)))) hP rfl rfl]
    have hea : v.ea (L.addr 42) (L.ripTo 41 L.returnRsp) = L.returnRsp := L.ea_ripTo 41 v
    simp only [Asm.run, exec, State.read, State.write, Layout.program, hea, Size.bytes,
      hintact.returnRsp, w]
  have hjump : (L.program dispatch M.run).step ⟨w, zf, L.addr 42⟩ =
      some ⟨w, zf, L.nativeReturn⟩ := by
    rw [Program.step_instr (i := 42) (x := .jmp (.operand (.mem (L.ripTo 42 L.returnRip))))
      hP rfl rfl]
    have hea : w.ea (L.addr 43) (L.ripTo 42 L.returnRip) = L.returnRip := L.ea_ripTo 42 w
    simp only [Asm.run, Target.eval, State.read, Layout.program, hea, Size.bytes]
    rw [show w.mem = v.mem from rfl, hintact.returnRip]
  have hback : w.top = k.cpu.top := by
    rw [State.top, show w.regs .rsp = k.cpu.regs .rsp by simp [w]]
    exact hintact.back
  have hret : (L.program dispatch M.run).step ⟨w, zf, L.nativeReturn⟩ =
      some ⟨w.drop, zf, k.cpu.top⟩ := by
    rw [← hback]
    exact Program.step_instr (i := 5) hP rfl rfl
  exact (Program.Reaches.of_step hrsp).trans ((Program.Reaches.of_step hjump).trans (.of_step hret))

/-- **The way back of an exit**: to the kernel, with the registers of the program. -/
theorem exit_leaves (hk : Calling L k) (h : Exits L M k u) (hdata : Disjoint M.data (relied L k))
    (hmem : Intact L k u.cpu.mem) :
    ∃ t, (L.program dispatch M.run).Leaves u t ∧ t.rip = k.cpu.top ∧
      t.cpu.regs .rsp = k.cpu.regs .rsp + 8 ∧
      ∀ r ∈ calleeSaved, t.cpu.regs r = u.cpu.regs r := by
  obtain ⟨v, zf, hmarked, hintact, hregs⟩ := reaches_marked (L := L) h hdata hmem
  refine ⟨_, ⟨hmarked.trans (reaches_kernel hintact), Program.step_outside hk.back.program⟩,
    rfl, by simp, fun r hr ↦ ?_⟩
  have hne : r ≠ .rsp := by
    rintro rfl
    exact absurd hr (by decide)
  rw [regs_drop, if_neg hne, regs_writeReg, if_neg hne]
  exact hregs r hr

/-- **The way back of a plain return**: to the word on the stack of the program. -/
theorem return_leaves (h : Returns L k u) :
    (L.program dispatch M.run).Leaves u ⟨u.cpu.drop, u.zf, u.cpu.top⟩ :=
  ⟨.of_step (Program.step_instr (i := 5) Layout.program_apart rfl h.rip),
    Program.step_outside h.word.program⟩

/-- A program that exits and has kept the registers lets the kernel go on. -/
theorem wellBehaved_of_exits (hk : Calling L k) (hu : Ended L M k (started L k) u)
    (hexit : Exits L M k u) (hsaved : ∀ r ∈ calleeSaved, u.cpu.regs r = k.cpu.regs r) :
    WellBehaved L dispatch M k u := by
  obtain ⟨t, ht, hrip, hrsp, hregs⟩ := exit_leaves hk hexit hu.data
    ((intact_started hk).congr hu.kept)
  exact ⟨t, ht, hrip, hrsp, fun r hr ↦ (hregs r hr).trans (hsaved r hr)⟩

/-- No other program does. -/
theorem exits_of_wellBehaved (hk : Calling L k) (hu : Ended L M k (started L k) u)
    (h : WellBehaved L dispatch M k u) :
    Exits L M k u ∧ ∀ r ∈ calleeSaved, u.cpu.regs r = k.cpu.regs r := by
  obtain ⟨t, ht, -, hrsp, hsaved⟩ := h
  rcases hu.ends with hexit | hreturn
  · obtain ⟨t', ht', -, -, hregs⟩ :=
      @exit_leaves L dispatch M k u hk hexit hu.data ((intact_started hk).congr hu.kept)
    obtain rfl := ht.unique ht'
    exact ⟨hexit, fun r hr ↦ (hregs r hr).symm.trans (hsaved r hr)⟩
  · -- the stack is that of the program, eight bytes up
    obtain rfl := ht.unique (return_leaves hreturn)
    rw [regs_drop, if_pos rfl, hreturn.rsp] at hrsp
    exact absurd (by bv_omega) hk.own

/-- **When `leonos3_native_enter` is a well-behaved function**: just when the program exits, and
leaves in the registers what the kernel had in them. -/
theorem enter_wellBehaved_iff {L : Layout} {dispatch : State → State} {M : MarkExit}
    {k p u : X86.Machine} (hk : Calling L k) (hp : (L.program dispatch M.run).Leaves k p)
    (hu : Ended L M k p u) : WellBehaved L dispatch M k u ↔
      (u.rip = L.syscallEntry ∧ (u.cpu.regs .rax = 60 ∨ u.cpu.regs .rax = 231)) ∧
        ∀ r ∈ calleeSaved, u.cpu.regs r = k.cpu.regs r := by
  obtain rfl := hp.unique (enter_leaves hk)
  constructor
  · intro h
    obtain ⟨hexit, hsaved⟩ := exits_of_wellBehaved hk hu h
    exact ⟨⟨hexit.rip, hexit.number⟩, hsaved⟩
  · rintro ⟨⟨hrip, -⟩, hsaved⟩
    refine wellBehaved_of_exits hk hu (hu.ends.resolve_right fun hreturn ↦ ?_) hsaved
    exact absurd (L.apart 5 6 (by decide) (by decide) (hreturn.rip.symm.trans hrip)) (by decide)

/-! ### A program that exits, and one that returns -/

/-- A function that stores the exit code in a static and returns. -/
def storeCode : MarkExit where
  run s := { s.drop with mem := poke s.mem 0x200010 (toLE 4 (s.regs .rdi).toNat) }
  depth := 0
  data := {x | 0x200010 ≤ x ∧ x < 0x200014}
  sysv := {
    rsp := fun s ↦ by
      change s.drop.regs .rsp = _
      simp
    saved := fun s r hr ↦ by
      change s.drop.regs r = _
      rw [regs_drop, if_neg]
      rintro rfl
      exact absurd hr (by decide) }
  frame s _ x hx _ := by
    refine poke_of_lt ?_
    simp only [Set.mem_ofPred_eq, length_toLE] at hx ⊢
    omega

/-- The kernel calls the entry point `0x8000` with the stack `0x9f00`; a value is in `rbx`. -/
def kernelCall : X86.Machine where
  cpu := ⟨fun r ↦ match r with
      | .rdi => 0x8000 | .rsi => 0x9f00 | .rsp => 0x7000 | .rbx => 1 | _ => 0,
    poke (fun _ ↦ 0) 0x7000 (toLE 8 0x6000), false⟩
  zf := false
  rip := Layout.spaced.enterLabel

theorem disjoint_word {a b : U64} (h : b.toNat + 8 ≤ a.toNat ∨ a.toNat + 8 ≤ b.toNat) :
    Disjoint (word a) (word b) := by
  refine Set.disjoint_left.mpr fun x hx hx' ↦ ?_
  simp only [word, Set.mem_ofPred_eq] at hx hx'
  omega

/-- Where the words are that the kernel relies on. -/
theorem of_mem_relied {x : ℕ} (hx : x ∈ relied Layout.spaced kernelCall) :
    x < 0x7008 ∨ 0x200000 ≤ x ∧ x < 0x200010 := by
  rcases hx with ⟨hlo, hhi⟩ | ⟨hlo, hhi⟩ | ⟨hlo, hhi⟩
  · exact .inr ⟨hlo, hhi.trans (by decide)⟩
  · exact .inr ⟨(show 0x200000 ≤ 0x200008 by decide).trans hlo, hhi⟩
  · exact .inl hhi

theorem calling_kernelCall : Calling Layout.spaced kernelCall where
  rip := rfl
  entry := Layout.outside_spaced (by decide)
  back := Layout.outside_spaced (by decide)
  statics := disjoint_word (by decide)
  stack := Set.disjoint_union_right.mpr ⟨disjoint_word (by decide), disjoint_word (by decide)⟩
  own := by decide
  slot := Set.disjoint_left.mpr fun x hx hrelied ↦ by
    have hword : 0x9ef8 ≤ x ∧ x < 0x9f00 := hx
    have := of_mem_relied hrelied
    omega

/-- The program makes the system call `exit`, with a value in `rbx`. -/
def exiting (v : U64) : X86.Machine where
  cpu := ⟨fun r ↦ match r with | .rax => 60 | .rsp => 0x9ef0 | .rbx => v | _ => 0,
    (started Layout.spaced kernelCall).cpu.mem, false⟩
  zf := false
  rip := Layout.spaced.syscallEntry

/-- The program returns, with the registers as they were. -/
def returning : X86.Machine where
  cpu := ⟨Function.update kernelCall.cpu.regs .rsp 0x9f00,
    (started Layout.spaced kernelCall).cpu.mem, false⟩
  zf := false
  rip := Layout.spaced.nativeReturn

theorem disjoint_data : Disjoint storeCode.data (relied Layout.spaced kernelCall) :=
  Set.disjoint_left.mpr fun x hx hrelied ↦ by
    have hdata : 0x200010 ≤ x ∧ x < 0x200014 := hx
    have := of_mem_relied hrelied
    omega

theorem ended_exiting (v : U64) : Ended Layout.spaced storeCode kernelCall
    (started Layout.spaced kernelCall) (exiting v) where
  kept _ _ := rfl
  data := disjoint_data
  ends := .inl {
    rip := rfl
    number := .inl rfl
    room := show 8 ≤ 0x9ef0 by decide
    stack := fun x hlo hhi hrelied ↦ by
      have hroom : 0x9ee8 ≤ x := hlo
      have hlt : x < 0x9ef0 := hhi
      have := of_mem_relied hrelied
      omega }

theorem ended_returning : Ended Layout.spaced storeCode kernelCall
    (started Layout.spaced kernelCall) returning where
  kept _ _ := rfl
  data := disjoint_data
  ends := .inr {
    rip := rfl
    rsp := rfl
    word := Layout.outside_spaced (by decide) }

/-- The kernel gets the `rbx` of a program that exits, and is not returned to by one that
returns. -/
theorem kernel_not_kept : Calling Layout.spaced kernelCall ∧
    (Ended Layout.spaced storeCode kernelCall (started Layout.spaced kernelCall) (exiting 2) ∧
      ¬WellBehaved Layout.spaced id storeCode kernelCall (exiting 2)) ∧
    Ended Layout.spaced storeCode kernelCall (started Layout.spaced kernelCall) returning ∧
      ¬WellBehaved Layout.spaced id storeCode kernelCall returning := by
  refine ⟨calling_kernelCall, ⟨ended_exiting 2, fun h ↦ ?_⟩, ended_returning, fun h ↦ ?_⟩
  · have hrbx := (exits_of_wellBehaved calling_kernelCall (ended_exiting 2) h).2 .rbx (by decide)
    exact absurd hrbx (by decide)
  · have hrip := (exits_of_wellBehaved calling_kernelCall ended_returning h).1.rip
    exact absurd hrip (by decide)

theorem enter_wellBehaved_iff_exit : WellBehaved Layout.spaced id storeCode kernelCall
    (exiting 1) := by
  refine (enter_wellBehaved_iff calling_kernelCall (enter_leaves calling_kernelCall)
    (ended_exiting 1)).mpr ⟨⟨rfl, .inl rfl⟩, ?_⟩
  decide

end Native

end LeonOS
