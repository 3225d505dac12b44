import LeonOS.Lib.X86

/-!
# Assembly

Instructions that say where to go on (`Asm`), over the instructions of the subset that move data,
and programs of them (`Program`).  The instructions of a program are at the addresses that an
assembler has given them, each falling through to the address of the next.  Control may also be at
the address of a function that is not part of the program, and such a function is taken as one step
(`ext`): it does what it does to registers and memory, and returns to the address on the stack.
A machine whose control is anywhere else has left the program.

* `Program.straight` runs instructions that only move data, all at once.
* `SysV` says which registers a function keeps.
* `Frame` is the stack as words: what is pushed is below them, and pops read them.
-/

set_option autoImplicit false

namespace X86

open Bytes

/-! ## Programs -/

/-- What a jump or a call names. -/
inductive Target where
  | label (a : U64)
  | operand (o : RM)
  deriving DecidableEq

/-- The instructions, with those that change the flow of control. -/
inductive Asm where
  /-- An instruction that moves data. -/
  | data (i : Instr)
  /-- Compare a register with an immediate. -/
  | cmp (r : Reg) (imm : U64)
  /-- Jump when the zero flag is set. -/
  | je (a : U64)
  | jmp (t : Target)
  | call (t : Target)
  | ret
  deriving DecidableEq

/-- The registers, the flags and memory, and where control is. -/
structure Machine where
  /-- Registers, memory and the sign flag. -/
  cpu : State
  /-- The zero flag. -/
  zf : Bool
  /-- `rip`. -/
  rip : U64

/-- A word on the stack. -/
def State.push (s : State) (v : U64) : State :=
  let sp := s.regs .rsp - 8
  { s.writeReg .qword .rsp sp with mem := poke s.mem sp.toNat (toLE 8 v.toNat) }

/-- The word on top of the stack. -/
def State.top (s : State) : U64 := load s.mem (s.regs .rsp).toNat 8

/-- The stack without it. -/
def State.drop (s : State) : State := s.writeReg .qword .rsp (s.regs .rsp + 8)

/-- The address that is named. -/
def Target.eval (s : State) (next : U64) : Target → U64
  | .label a => a
  | .operand o => s.read next .qword o

/-- The effect of an instruction; `next` is the address of the one behind it. -/
def Asm.run (next : U64) (m : Machine) : Asm → Machine
  | .data i => { m with cpu := exec next m.cpu i, rip := next }
  | .cmp r imm =>
    { cpu := { m.cpu with sf := (m.cpu.regs r - imm).msb }, zf := m.cpu.regs r = imm, rip := next }
  | .je a => { m with rip := if m.zf then a else next }
  | .jmp t => { m with rip := t.eval m.cpu next }
  | .call t => { m with cpu := m.cpu.push next, rip := t.eval m.cpu next }
  | .ret => { m with cpu := m.cpu.drop, rip := m.cpu.top }

/-- A program. -/
structure Program where
  /-- The address of each instruction. -/
  addr : ℕ → U64
  /-- The instructions. -/
  code : List Asm
  /-- The functions that it calls, by address. -/
  ext : U64 → Option (State → State)

namespace Program

variable (P : Program)

/-- The index of the instruction at an address. -/
def find (a : U64) : Option ℕ := (List.range P.code.length).find? (P.addr · = a)

/-- One step; none when control is outside. -/
def step (m : Machine) : Option Machine :=
  match P.find m.rip with
  | some i => (P.code[i]?).map fun x ↦ x.run (P.addr (i + 1)) m
  | none => (P.ext m.rip).map fun f ↦ { m with cpu := f m.cpu, rip := m.cpu.top }

/-- One machine leads to another. -/
def Reaches : Machine → Machine → Prop := Relation.ReflTransGen fun m m' ↦ P.step m = some m'

/-- A run that has left the program. -/
def Leaves (m m' : Machine) : Prop := P.Reaches m m' ∧ P.step m' = none

/-- Instructions have addresses of their own. -/
def Apart : Prop := ∀ i j, i < P.code.length → j < P.code.length → P.addr i = P.addr j → i = j

/-- An address where the program has nothing. -/
def Outside (a : U64) : Prop := P.find a = none ∧ P.ext a = none

variable {P} {m m' m'' : Machine} {i : ℕ} {x : Asm}

theorem Reaches.refl : P.Reaches m m := Relation.ReflTransGen.refl

theorem Reaches.trans (h : P.Reaches m m') (h' : P.Reaches m' m'') : P.Reaches m m'' :=
  Relation.ReflTransGen.trans h h'

theorem Reaches.of_step (h : P.step m = some m') : P.Reaches m m' := Relation.ReflTransGen.single h

/-- A run that has left goes through every state that its start leads to. -/
theorem Leaves.of_reaches (h : P.Leaves m m'') (h' : P.Reaches m m') : P.Leaves m' m'' := by
  obtain ⟨hrun, hend⟩ := h
  refine ⟨?_, hend⟩
  induction h' using Relation.ReflTransGen.head_induction_on with
  | refl => exact hrun
  | head hstep _ ih =>
    refine ih ?_
    rcases Relation.ReflTransGen.cases_head hrun with rfl | ⟨c, hc, hrest⟩
    · exact nomatch hend.symm.trans hstep
    · obtain rfl := Option.some_inj.mp (hc.symm.trans hstep)
      exact hrest

/-- **It ends in one way.** -/
theorem Leaves.unique (h : P.Leaves m m') (h' : P.Leaves m m'') : m' = m'' := by
  obtain ⟨hrun, -⟩ := h'.of_reaches h.1
  rcases Relation.ReflTransGen.cases_head hrun with heq | ⟨c, hc, -⟩
  · exact heq
  · exact nomatch h.2.symm.trans hc

theorem find_addr (hP : P.Apart) (hi : i < P.code.length) : P.find (P.addr i) = some i := by
  have hmem : i ∈ List.range P.code.length := List.mem_range.mpr hi
  cases hfind : P.find (P.addr i) with
  | none => exact absurd (decide_eq_true rfl) (List.find?_eq_none.mp hfind i hmem)
  | some j =>
    have hj := List.mem_range.mp (List.mem_of_find?_eq_some hfind)
    have heq := List.find?_some (p := fun j ↦ decide (P.addr j = P.addr i)) hfind
    exact congrArg some (hP j i hj hi (of_decide_eq_true heq))

/-- The instruction at an address is executed. -/
theorem step_instr (hP : P.Apart) (hx : P.code[i]? = some x) (hrip : m.rip = P.addr i) :
    P.step m = some (x.run (P.addr (i + 1)) m) := by
  rw [step, hrip, find_addr hP (List.getElem?_eq_some_iff.mp hx).1]
  dsimp only
  rw [hx, Option.map_some]

/-- A register is compared, and the jump is made when it has the value. -/
theorem reaches_cmpJe {r : Reg} {imm a : U64} (hP : P.Apart)
    (hcmp : P.code[i]? = some (.cmp r imm)) (hje : P.code[i + 1]? = some (.je a))
    (hrip : m.rip = P.addr i) : P.Reaches m ⟨{ m.cpu with sf := (m.cpu.regs r - imm).msb },
      m.cpu.regs r = imm, if m.cpu.regs r = imm then a else P.addr (i + 2)⟩ := by
  have hjump := step_instr (m := (Asm.cmp r imm).run (P.addr (i + 1)) m) hP hje rfl
  refine (Reaches.of_step (step_instr hP hcmp hrip)).trans (Reaches.of_step ?_)
  rw [hjump]
  simp [Asm.run]

/-- The function at an address is called. -/
theorem step_ext {f : State → State} (hnone : P.find m.rip = none) (hf : P.ext m.rip = some f) :
    P.step m = some { m with cpu := f m.cpu, rip := m.cpu.top } := by
  rw [step, hnone]
  dsimp only
  rw [hf, Option.map_some]

theorem step_outside (h : P.Outside m.rip) : P.step m = none := by
  rw [step, h.1]
  dsimp only
  rw [h.2, Option.map_none]

/-- The instructions from an index on, all of which move data. -/
def execFrom (P : Program) : ℕ → State → List Instr → State
  | _, s, [] => s
  | i, s, d :: ds => execFrom P (i + 1) (exec (P.addr (i + 1)) s d) ds

/-- **Straight-line code.** -/
theorem straight (hP : P.Apart) {ds : List Instr} (hrip : m.rip = P.addr i)
    (hcode : ∀ k d, ds[k]? = some d → P.code[i + k]? = some (.data d)) :
    P.Reaches m { m with cpu := execFrom P i m.cpu ds, rip := P.addr (i + ds.length) } := by
  induction ds generalizing m i with
  | nil =>
    rw [List.length_nil, Nat.add_zero, ← hrip]
    exact .refl
  | cons d ds ih =>
    have hstep := step_instr hP (hcode 0 d rfl) hrip
    have hrest := @ih { m with cpu := exec (P.addr (i + 1)) m.cpu d, rip := P.addr (i + 1) } (i + 1)
      rfl fun k d' hk ↦ by
        rw [Nat.add_assoc, Nat.add_comm 1 k]
        exact hcode (k + 1) d' hk
    rw [Nat.add_assoc, Nat.add_comm 1] at hrest
    exact (Reaches.of_step hstep).trans hrest

/-- Straight-line code, found by its place in the program. -/
theorem straight_of_drop (ds : List Instr) {rest : List Asm} (hP : P.Apart)
    (hrip : m.rip = P.addr i) (hcode : P.code.drop i = ds.map .data ++ rest) :
    P.Reaches m { m with cpu := execFrom P i m.cpu ds, rip := P.addr (i + ds.length) } := by
  refine straight hP hrip fun k d hk ↦ ?_
  have hlt := (List.getElem?_eq_some_iff.mp hk).1
  rw [← List.getElem?_drop, hcode, List.getElem?_append_left (by simpa using hlt),
    List.getElem?_map, hk]
  rfl

end Program

/-! ## Registers -/

variable {s : State} {r r' : Reg} {v next : U64}

@[simp] theorem regs_writeReg :
    (s.writeReg .qword r v).regs r' = if r' = r then v else s.regs r' :=
  Function.update_apply ..

@[simp] theorem mem_writeReg : (s.writeReg .qword r v).mem = s.mem := rfl

@[simp] theorem regs_push :
    (s.push v).regs r = if r = .rsp then s.regs .rsp - 8 else s.regs r :=
  Function.update_apply ..

theorem mem_push : (s.push v).mem = poke s.mem (s.regs .rsp - 8).toNat (toLE 8 v.toNat) := rfl

@[simp] theorem regs_drop : s.drop.regs r = if r = .rsp then s.regs .rsp + 8 else s.regs r :=
  Function.update_apply ..

@[simp] theorem mem_drop : s.drop.mem = s.mem := rfl

/-- Moves between registers, one after the other, as pairs of the target and the source. -/
def State.moves (s : State) (ms : List (Reg × Reg)) : State :=
  ms.foldl (fun s m ↦ s.writeReg .qword m.1 (s.regs m.2)) s

theorem execFrom_moves (P : Program) (i : ℕ) (ms : List (Reg × Reg)) :
    P.execFrom i s (ms.map fun m ↦ .mov .qword (.reg m.1) (.reg m.2)) = s.moves ms := by
  induction ms generalizing s i with
  | nil => rfl
  | cons m ms ih => exact ih (i + 1)

/-! ## The stack -/

/-- The words at an address. -/
def Frame (m : ℕ → U8) (a : U64) (vs : List U64) : Prop :=
  ∀ k v, vs[k]? = some v → load m (a + BitVec.ofNat 64 (8 * k)).toNat 8 = v

theorem frame_nil (m : ℕ → U8) (a : U64) : Frame m a [] := nofun

theorem load_poke_of_disjoint {m : ℕ → U8} {a b : ℕ} (h : b + 8 ≤ a ∨ a + 8 ≤ b) :
    load (poke m a (toLE 8 v.toNat)) b 8 = load m b 8 := by
  rw [load, peek_poke_of_disjoint (by rw [length_toLE]; exact h), load]

/-- Words that are not written to. -/
theorem Frame.congr {m m' : ℕ → U8} {a : U64} {vs : List U64} (h : Frame m a vs)
    (hfit : a.toNat + 8 * vs.length ≤ 2 ^ 64)
    (heq : ∀ x, a.toNat ≤ x → x < a.toNat + 8 * vs.length → m' x = m x) : Frame m' a vs := by
  intro k v hv
  have hk := (List.getElem?_eq_some_iff.mp hv).1
  have haddr : (a + BitVec.ofNat 64 (8 * k)).toNat = a.toNat + 8 * k := by
    rw [BitVec.toNat_add, BitVec.toNat_ofNat]
    omega
  have hword := h k v hv
  rw [haddr] at hword ⊢
  rw [← hword, load, peek_congr fun x hlo hhi ↦ heq x (by omega) (by omega), load]

/-- The first word. -/
theorem Frame.head {m : ℕ → U8} {a : U64} {vs : List U64} (h : Frame m a vs)
    (hv : vs[0]? = some v) : load m a.toNat 8 = v := by
  have htop := h 0 v hv
  rw [Nat.mul_zero, BitVec.add_zero] at htop
  exact htop

/-- The words behind it. -/
theorem Frame.tail {m : ℕ → U8} {a : U64} {vs : List U64} (h : Frame m a vs) :
    Frame m (a + 8) vs.tail := by
  intro k v hv
  have haddr : a + 8 + BitVec.ofNat 64 (8 * k) = a + BitVec.ofNat 64 (8 * (k + 1)) := by
    bv_omega
  rw [haddr]
  exact h (k + 1) v (by rw [← hv, List.getElem?_tail])

/-- Words that are a multiple of eight bytes apart do not overlap. -/
theorem disjoint_words (a : U64) {k : ℕ} (hk : k < 2 ^ 60) :
    (a + BitVec.ofNat 64 (8 * (k + 1))).toNat + 8 ≤ a.toNat ∨
      a.toNat + 8 ≤ (a + BitVec.ofNat 64 (8 * (k + 1))).toNat := by
  have := a.isLt
  rw [BitVec.toNat_add, BitVec.toNat_ofNat]
  omega

/-- **A word is pushed in front of the others.** -/
theorem Frame.push {vs : List U64} (h : Frame s.mem (s.regs .rsp) vs) (hlen : vs.length < 2 ^ 60) :
    Frame (s.push v).mem (s.regs .rsp - 8) (v :: vs) := by
  intro k u hu
  rw [mem_push]
  cases k with
  | zero =>
    obtain rfl := Option.some_inj.mp hu
    rw [Nat.mul_zero, BitVec.ofNat_eq_ofNat, BitVec.add_zero]
    exact load_poke_self _ _ _
  | succ k =>
    have hk := (List.getElem?_eq_some_iff.mp hu).1
    rw [List.length_cons] at hk
    have haddr : s.regs .rsp - 8 + BitVec.ofNat 64 (8 * (k + 1)) =
        s.regs .rsp + BitVec.ofNat 64 (8 * k) := by
      bv_omega
    rw [load_poke_of_disjoint (disjoint_words (s.regs .rsp - 8) (by omega)), haddr]
    exact h k u hu

/-- Registers that are pushed, one after the other. -/
def State.pushRegs (s : State) (rs : List Reg) : State := rs.foldl (fun s r ↦ s.push (s.regs r)) s

theorem execFrom_pushes (P : Program) (i : ℕ) (rs : List Reg) :
    P.execFrom i s (rs.map .push) = s.pushRegs rs := by
  induction rs generalizing s i with
  | nil => rfl
  | cons r rs ih => exact ih (i + 1)

theorem regs_pushRegs (rs : List Reg) : (s.pushRegs rs).regs r =
    if r = .rsp then s.regs .rsp - BitVec.ofNat 64 (8 * rs.length) else s.regs r := by
  induction rs generalizing s with
  | nil =>
    split
    · rename_i hr
      rw [hr, List.length_nil, Nat.mul_zero]
      exact (BitVec.sub_zero _).symm
    · rfl
  | cons r' rs ih =>
    refine (ih (s := s.push (s.regs r'))).trans ?_
    rw [List.length_cons, regs_push, if_pos rfl, regs_push]
    split
    · bv_omega
    · rfl

/-- The registers that were pushed are on the stack, the last in front. -/
theorem frame_pushRegs (rs : List Reg) {vs : List U64} (hrs : .rsp ∉ rs)
    (h : Frame s.mem (s.regs .rsp) vs) (hlen : vs.length + rs.length < 2 ^ 60) :
    Frame (s.pushRegs rs).mem ((s.pushRegs rs).regs .rsp) ((rs.map s.regs).reverse ++ vs) := by
  induction rs generalizing s vs with
  | nil => exact h
  | cons r rs ih =>
    obtain ⟨hr, hrs⟩ := not_or.mp (List.mem_cons.not.mp hrs)
    rw [List.length_cons] at hlen
    have hpush := h.push (v := s.regs r) (by omega)
    have hmap : rs.map (s.push (s.regs r)).regs = rs.map s.regs :=
      List.map_congr_left fun r' hr' ↦ by
        rw [regs_push, if_neg fun heq : r' = .rsp ↦ hrs (heq ▸ hr')]
    have hframe : Frame (s.push (s.regs r)).mem ((s.push (s.regs r)).regs .rsp)
        (s.regs r :: vs) := by
      rw [regs_push, if_pos rfl]
      exact hpush
    have hrest := ih hrs hframe (by rw [List.length_cons]; omega)
    rw [hmap] at hrest
    rw [List.map_cons, List.reverse_cons, List.append_assoc]
    exact hrest

/-- What is in memory after words were pushed, the last in front. -/
def wordBytes (vs : List U64) : List U8 := vs.flatMap fun v ↦ toLE 8 v.toNat

theorem length_wordBytes (vs : List U64) : (wordBytes vs).length = 8 * vs.length := by
  induction vs with
  | nil => rfl
  | cons v vs ih =>
    rw [wordBytes, List.flatMap_cons, List.length_append, length_toLE, ← wordBytes, ih]
    simp
    omega

/-- A word that is pushed in front of others. -/
theorem mem_push_words {m : ℕ → U8} {a : U64} {vs : List U64}
    (hmem : s.mem = poke m a.toNat (wordBytes vs)) (hrsp : s.regs .rsp = a) (hroom : 8 ≤ a.toNat) :
    (s.push v).mem = poke m (a - 8).toNat (wordBytes (v :: vs)) := by
  have haddr : a.toNat = (a - 8).toNat + (toLE 8 v.toNat).length := by
    rw [length_toLE]
    bv_omega
  rw [mem_push, hrsp, hmem, haddr, poke_poke_front]
  rfl

theorem mem_pushRegs (rs : List Reg) {m : ℕ → U8} {a : U64} {vs : List U64} (hrs : .rsp ∉ rs)
    (hmem : s.mem = poke m a.toNat (wordBytes vs)) (hrsp : s.regs .rsp = a)
    (hroom : 8 * rs.length ≤ a.toNat) :
    (s.pushRegs rs).mem = poke m (a - BitVec.ofNat 64 (8 * rs.length)).toNat
      (wordBytes ((rs.map s.regs).reverse ++ vs)) := by
  induction rs generalizing s a vs with
  | nil =>
    rw [List.length_nil, Nat.mul_zero, BitVec.sub_zero]
    exact hmem
  | cons r rs ih =>
    obtain ⟨hr, hrs⟩ := not_or.mp (List.mem_cons.not.mp hrs)
    rw [List.length_cons] at hroom
    have hmap : rs.map (s.push (s.regs r)).regs = rs.map s.regs :=
      List.map_congr_left fun r' hr' ↦ by
        rw [regs_push, if_neg fun heq : r' = .rsp ↦ hrs (heq ▸ hr')]
    have hrest := ih (s := s.push (s.regs r)) hrs (mem_push_words hmem hrsp (by omega))
      (by rw [regs_push, if_pos rfl, hrsp]) (by bv_omega)
    have haddr : a - 8 - BitVec.ofNat 64 (8 * rs.length) =
        a - BitVec.ofNat 64 (8 * (r :: rs).length) := by
      rw [List.length_cons]
      bv_omega
    rw [hmap, haddr] at hrest
    rw [List.map_cons, List.reverse_cons, List.append_assoc]
    exact hrest

/-- Registers that are popped, one after the other. -/
def State.popRegs (s : State) (rs : List Reg) : State :=
  rs.foldl (fun s r ↦ s.drop.writeReg .qword r s.top) s

theorem execFrom_pops (P : Program) (i : ℕ) (rs : List Reg) :
    P.execFrom i s (rs.map .pop) = s.popRegs rs := by
  induction rs generalizing s i with
  | nil => rfl
  | cons r rs ih => exact ih (i + 1)

/-- **What is popped**: the words of the frame, in their order. -/
theorem popRegs_spec (rs : List Reg) {vs : List U64} (hrs : .rsp ∉ rs) (hnodup : rs.Nodup)
    (h : Frame s.mem (s.regs .rsp) vs) :
    (s.popRegs rs).mem = s.mem ∧
      (s.popRegs rs).regs .rsp = s.regs .rsp + BitVec.ofNat 64 (8 * rs.length) ∧
      (∀ r, r ≠ .rsp → r ∉ rs → (s.popRegs rs).regs r = s.regs r) ∧
      ∀ (k : ℕ) (r : Reg) (v : U64), rs[k]? = some r → vs[k]? = some v →
        (s.popRegs rs).regs r = v := by
  induction rs generalizing s vs with
  | nil =>
    refine ⟨rfl, ?_, fun r _ _ ↦ rfl, nofun⟩
    rw [List.length_nil, Nat.mul_zero]
    exact (BitVec.add_zero _).symm
  | cons r rs ih =>
    obtain ⟨hr, hrs⟩ := not_or.mp (List.mem_cons.not.mp hrs)
    obtain ⟨hmem, hnodup⟩ := List.nodup_cons.mp hnodup
    let s₁ := s.drop.writeReg .qword r s.top
    have hsp : s₁.regs .rsp = s.regs .rsp + 8 := by
      simp [s₁, hr]
    have hframe : Frame s₁.mem (s₁.regs .rsp) vs.tail := by
      rw [hsp]
      exact h.tail
    obtain ⟨hmem₁, hsp₁, hother, hwords⟩ := ih hrs hnodup hframe
    refine ⟨hmem₁, ?_, fun r' hne hr' ↦ ?_, fun k r' v hr' hv ↦ ?_⟩
    · refine hsp₁.trans ?_
      rw [hsp, List.length_cons]
      bv_omega
    · obtain ⟨hne', hr'⟩ := not_or.mp (List.mem_cons.not.mp hr')
      refine (hother r' hne hr').trans ?_
      simp [s₁, hne, hne']
    · cases k with
      | zero =>
        obtain rfl := Option.some_inj.mp hr'
        refine (hother r (Ne.symm hr) hmem).trans ?_
        simp [s₁, State.top, h.head hv]
      | succ k => exact hwords k r' v hr' (by rw [← hv, List.getElem?_tail])

/-! ## Functions -/

/-- The registers that a function keeps by the System V convention, apart from `rsp`. -/
def calleeSaved : List Reg := [.rbx, .rbp, .r12, .r13, .r14, .r15]

/-- **A function that follows the System V convention**: it returns with the stack as it was before
the call, and keeps the registers that are the caller's. -/
structure SysV (f : State → State) : Prop where
  /-- The return address is popped. -/
  rsp : ∀ s, (f s).regs .rsp = s.regs .rsp + 8
  /-- The registers are kept. -/
  saved : ∀ s, ∀ r ∈ calleeSaved, (f s).regs r = s.regs r

end X86
