import LeonOS.Kernel.Footprint
import LeonOS.Native.Syscall
import LeonOS.Native.Transparent

/-!
# A native system call, and the stack of the program

`leonos3_native_syscall_entry` runs on the stack of the program: below `rsp` it pushes eight
registers and the return address of its call, and below these are the frames of the compiled
functions of the kernel.  `nativeCall` is a system call with all of this, and `nativeCall_local` says
which memory it uses: that part of the stack, and the buffers that its arguments describe.

What the compiler has made of the functions is a parameter, `Compiled`.  The entry code is the one of
`Native.Entry`: `nativeCall_leaves` says that it resumes the program in the registers and the memory
that `nativeCall` ends in.
-/

set_option autoImplicit false

namespace LeonOS

open Bytes RustM X86

/-- Memory, and what is not memory: the globals and the terminal. -/
def osView : MemoryView Os ℕ U8 (Kernel × List U8) where
  ram os := os.world.ram
  touched os := os.world.touched
  rest os := (os.world.kernel, os.screen)

/-- **What the dispatcher reads**: the bytes that it writes to the terminal, or its path. -/
def callReads (ram : ℕ → U8) (nr a0 a1 a2 : U64) : Set ℕ :=
  match Nr.decode nr.toNat with
  | .write => bytesAt a1.toNat a2.toNat
  | nr => pathBytes ram nr a0 a1

/-- **What it writes**: the buffer that it is to fill. -/
def callWrites (nr a0 a1 a2 a3 : U64) : Set ℕ := outBuffer (Nr.decode nr.toNat) a0 a1 a2 a3

/-! ## The dispatcher -/

section Dispatch

variable {R W : Set ℕ} {os t : Os} {ptr len : ℕ}

theorem worldView_same (h : osView.Same R os t) : worldView.Same R os.world t.world :=
  ⟨(Prod.mk.inj h.rest).1, h.ram⟩

/-- A function of `syscall.rs`. -/
theorem local_nativeSys {α : Type} {x : SysM α} (h : Confined R W x os.world) :
    Local osView R W (nativeSys x) os := fun t ht ↦ by
  have hscreen : os.screen = t.screen := (Prod.mk.inj ht.rest).2
  have hstep {w w' : World} (h' : worldView.SameStep R W os.world t.world w w') :
      osView.SameStep R W os t { os with world := w } { t with world := w' } :=
    ⟨Prod.ext h'.rest hscreen, h'.touched, h'.ram⟩
  rw [nativeSys, nativeSys]
  obtain ⟨a, w, w', hw, hw', h'⟩ | ⟨e, w, w', hw, hw', h'⟩ := (h t.world (worldView_same ht)).ends
  · rw [hw, hw']
    exact .ok (hstep h')
  · rw [hw, hw']
    exact .error (hstep h')

/-- What goes to the terminal is what is read. -/
theorem local_termWrite (hR : bytesAt ptr len ⊆ R) : Local osView R W (termWrite ptr len) os :=
  fun t ht ↦ by
    obtain ⟨hkernel, hscreen⟩ := Prod.mk.inj ht.rest
    refine .ok ⟨Prod.ext hkernel ?_, ⟨List.range' ptr len, rfl, rfl, fun a ha ↦ .inl (hR ?_)⟩,
      fun _ ↦ .inr ⟨rfl, rfl⟩⟩
    · have hbytes : peek os.world.ram ptr len = peek t.world.ram ptr len :=
        peek_congr fun a ha hlt ↦ ht.ram a (hR ⟨ha, hlt⟩)
      exact congrArg₂ (· ++ ·) hscreen hbytes
    · simpa [Set.mem_Ico] using List.mem_range'_1.mp ha

theorem local_nativeReadFrom {w : World} {n got : ℕ} (hW : bytesAt ptr (got + n) ⊆ W) :
    Confined R W (nativeReadFrom ptr n got) w := by
  induction n generalizing got w with
  | zero => exact local_pure _
  | succ n ih =>
    refine local_readStdinByteBlocking.seq fun ch _ ↦ ?_
    split
    · exact local_pure _
    · refine local_store_bind hW (by omega) (by simp) fun _ ↦ ?_
      refine .ite (fun _ ↦ local_pure _) fun _ ↦ ih ?_
      rwa [Nat.add_right_comm]

/-- **The dispatcher** uses the buffers that it is passed, and no other byte of memory. -/
theorem nativeSyscall_local (nr a0 a1 a2 a3 : U64) (os : Os) :
    Local osView (callReads os.world.ram nr a0 a1 a2) (callWrites nr a0 a1 a2 a3)
      (nativeSyscall nr a0 a1 a2 a3) os := by
  have hsys (nr : Nr) : Local osView (pathBytes os.world.ram nr a0 a1)
      (outBuffer nr a0 a1 a2 a3) (nativeSys (dispatch nr a0 a1 a2 a3)) os :=
    local_nativeSys (dispatch_local nr a0 a1 a2 a3 os.world)
  have hexit {R W : Set ℕ} : Local osView R W (do nativeMarkExit a0; return 0 : OsM U64) os :=
    (local_nativeSys (local_modifyKernel _)).seq fun _ _ ↦ local_pure _
  rw [nativeSyscall, callReads, callWrites]
  cases Nr.decode nr.toNat with
  | exit => exact hexit
  | exitGroup => exact hexit
  | write =>
    refine .ite (fun _ ↦ (local_termWrite subset_rfl).seq fun _ _ ↦ local_pure _) fun _ ↦ ?_
    exact local_nativeSys (local_pure _)
  | read =>
    refine .ite (fun _ ↦ .ite (fun _ ↦ local_pure _) fun _ ↦ ?_) fun _ ↦ hsys .read
    exact local_nativeSys (local_nativeReadFrom (by rw [Nat.zero_add]; exact subset_rfl))
  | _ => exact hsys _

end Dispatch

namespace Native

/-! ## The call -/

/-- A system call that ends the program: `exit` or `exit_group`. -/
def Ends (nr : U64) : Prop := nr = 60 ∨ nr = 231

instance (nr : U64) : Decidable (Ends nr) := inferInstanceAs (Decidable (_ ∨ _))

/-- What the dispatcher reads, for the registers of the program. -/
def readsOf (ram : ℕ → U8) (regs : Reg → U64) : Set ℕ :=
  callReads ram (regs .rax) (regs .rdi) (regs .rsi) (regs .rdx)

/-- What it writes. -/
def writesOf (regs : Reg → U64) : Set ℕ :=
  callWrites (regs .rax) (regs .rdi) (regs .rsi) (regs .rdx) (regs .r10)

/-- The `n` bytes below `rsp`. -/
def stackBelow (regs : Reg → U64) (n : ℕ) : Set ℕ := bytesAt ((regs .rsp).toNat - n) n

/-- What a compiled function leaves behind, besides what it is for. -/
structure Remains where
  /-- Its frame, from the lowest address on. -/
  frame : List U8
  /-- The registers. -/
  regs : Reg → U64
  /-- The flags. -/
  flags : U64

/-- **The functions that the entry code calls, as they were compiled.**  What they leave behind is
determined by what they are passed and by what they read: the globals, the buffers, and the stack as
far as they use it. -/
structure Compiled where
  /-- How many bytes their frames have. -/
  depth : ℕ
  /-- What they leave behind. -/
  remains : (Reg → U64) → Os → Remains
  /-- The bytes of their frames. -/
  length_frame : ∀ regs os, (remains regs os).frame.length = depth
  /-- They read nothing else. -/
  determined : ∀ regs os t,
    osView.Same (readsOf os.world.ram regs ∪ writesOf regs ∪ stackBelow regs (72 + depth)) os t →
      remains regs os = remains regs t

/-- What they leave behind, in the state that they are called in. -/
def Compiled.leave (C : Compiled) (regs : Reg → U64) : OsM Remains := do
  return C.remains regs (← get)

/-- What is on the stack when the function is called, from the lowest address on: the return address
and the registers that were pushed, or for an exit the return address alone. -/
def savedBytes (L : Layout) (regs : Reg → U64) : List U8 :=
  if Ends (regs .rax) then wordBytes [L.addr 41]
  else wordBytes (L.addr 31 :: (pushed.map regs).reverse)

/-- Bytes are put on the stack. -/
def putBelow (sp : ℕ) (bs : List U8) : OsM Unit := nativeSys (store (sp - bs.length) bs)

/-- The registers that the program is resumed with. -/
def resumed (regs : Reg → U64) (left : Remains) (answer : U64) (r : Reg) : U64 :=
  if r ∈ .rsp :: pushed then regs r else if r = .rax then answer else left.regs r

/-- **A system call**, from the `syscall` instruction on.  The registers are those that the
instruction has left; the result is what the program is resumed with. -/
def nativeCall (L : Layout) (C : Compiled) (regs : Reg → U64) : OsM ((Reg → U64) × U64) := do
  let sp := (regs .rsp).toNat
  let saved := savedBytes L regs
  putBelow sp saved
  let left ← C.leave regs
  putBelow (sp - saved.length) left.frame
  let answer ← nativeSyscall (regs .rax) (regs .rdi) (regs .rsi) (regs .rdx) (regs .r10)
  return (resumed regs left answer, left.flags)

/-- **The call stays in `P`**, from memory `ram`: so much of the stack as it uses is there, and so
are the buffers, which are not on that part of the stack. -/
structure CallAtHome (P : Set ℕ) (C : Compiled) (ram : ℕ → U8) (regs : Reg → U64) : Prop where
  /-- The stack does not wrap around. -/
  room : 72 + C.depth ≤ (regs .rsp).toNat
  /-- The stack. -/
  stack : stackBelow regs (72 + C.depth) ⊆ P
  /-- What the dispatcher reads. -/
  reads : readsOf ram regs ⊆ P \ stackBelow regs (72 + C.depth)
  /-- What it writes. -/
  writes : writesOf regs ⊆ P \ stackBelow regs (72 + C.depth)

/-! ## The memory of a call -/

section Memory

variable {L : Layout} {C : Compiled} {P : Set ℕ} {ram ram' : ℕ → U8} {regs : Reg → U64} {os : Os}

/-- A string is where it was, when it has not been written to. -/
theorem cstrAddrs_subset {ptr : ℕ} (h : ∀ a ∈ cstrAddrs ram ptr, ram' a = ram a) :
    cstrAddrs ram' ptr ⊆ cstrAddrs ram ptr := by
  rintro _ ⟨i, hi, rfl, hne⟩
  refine ⟨i, hi, rfl, fun j hj ↦ ?_⟩
  induction j using Nat.strong_induction_on with
  | h j ih =>
    have hmem : ptr + j ∈ cstrAddrs ram ptr :=
      ⟨j, by omega, rfl, fun k hk ↦ ih k hk (by omega)⟩
    rw [← h _ hmem]
    exact hne j hj

theorem readsOf_subset (h : ∀ a ∈ readsOf ram regs, ram' a = ram a) :
    readsOf ram' regs ⊆ readsOf ram regs := by
  rw [readsOf, callReads] at h
  rw [readsOf, readsOf, callReads, callReads]
  revert h
  cases Nr.decode (regs .rax).toNat with
  | write => exact fun _ ↦ subset_rfl
  | _ =>
    rintro h a ⟨ptr, hptr, ha⟩
    exact ⟨ptr, hptr, cstrAddrs_subset (fun b hb ↦ h b ⟨ptr, hptr, hb⟩) ha⟩

theorem length_savedBytes : (savedBytes L regs).length = if Ends (regs .rax) then 8 else 72 := by
  rw [savedBytes]
  split <;> rw [length_wordBytes] <;> rfl

theorem ram_putBelow {sp : ℕ} {bs : List U8} {u : Unit} {os' : Os}
    (h : putBelow sp bs os = .ok u os') : os'.world.ram = poke os.world.ram (sp - bs.length) bs := by
  cases h
  rfl

/-- What a call needs of memory it needs of any memory that differs on the stack only. -/
theorem CallAtHome.congr (h : CallAtHome P C ram regs)
    (heq : ∀ a, a ∉ stackBelow regs (72 + C.depth) → ram' a = ram a) : CallAtHome P C ram' regs where
  room := h.room
  stack := h.stack
  reads := (readsOf_subset fun a ha ↦ heq a (h.reads ha).2).trans h.reads
  writes := h.writes

/-- The part of the stack that something is put on. -/
theorem CallAtHome.bytesAt_subset (h : CallAtHome P C ram regs) {a n : ℕ}
    (ha : (regs .rsp).toNat - (72 + C.depth) ≤ a) (hn : a + n ≤ (regs .rsp).toNat) :
    bytesAt a n ⊆ P :=
  (LeonOS.bytesAt_subset ha (by have := h.room; omega)).trans h.stack

/-- Bytes on that part of the stack change nothing for the call. -/
theorem CallAtHome.poke (h : CallAtHome P C ram regs) {a : ℕ} {bs : List U8}
    (ha : (regs .rsp).toNat - (72 + C.depth) ≤ a) (hn : a + bs.length ≤ (regs .rsp).toNat) :
    CallAtHome P C (poke ram a bs) regs :=
  h.congr fun x hx ↦ poke_of_lt (by
    have hroom := h.room
    rw [stackBelow, Set.mem_Ico] at hx
    omega)

end Memory

/-! ## The entry code -/

section Machine

variable {L : Layout} {C : Compiled} {P : Set ℕ} {m : X86.Machine} {os os' : Os} {f : State → State}
  {regs' : Reg → U64} {flags : U64}

/-- What the entry code has put on the stack when it calls the dispatcher. -/
theorem mem_entered (hexit : ¬Ends (m.cpu.regs .rax)) (hroom : 72 ≤ (m.cpu.regs .rsp).toNat) :
    (entered L m).mem = poke m.cpu.mem ((m.cpu.regs .rsp).toNat - (savedBytes L m.cpu.regs).length)
      (savedBytes L m.cpu.regs) := by
  let s : State := { m.cpu with sf := (m.cpu.regs .rax - 231).msb }
  have hlen : 8 * pushed.length = 64 := rfl
  have hnone : s.mem = poke m.cpu.mem (m.cpu.regs .rsp).toNat (wordBytes []) := by
    rw [wordBytes, List.flatMap_nil, poke_nil]
  have hpushed := mem_pushRegs pushed (by decide) hnone rfl (by omega)
  rw [List.append_nil, hlen] at hpushed
  have hsp : ((s.pushRegs pushed).moves shuffle).regs .rsp = m.cpu.regs .rsp - 64#64 := by
    simp [State.moves, shuffle, regs_pushRegs, hlen, s]
  have htop := mem_push_words (v := L.addr 31) ((mem_moves _ shuffle).trans hpushed) hsp
    (by bv_omega)
  have haddr : (m.cpu.regs .rsp - 64#64 - 8).toNat = (m.cpu.regs .rsp).toNat - 72 := by bv_omega
  rw [haddr] at htop
  rw [length_savedBytes, if_neg hexit, savedBytes, if_neg hexit]
  exact htop

/-- **The entry code resumes the program** in what `nativeCall` ends in, if the function that it
calls leaves that memory and those of the registers that it does not restore. -/
theorem nativeCall_leaves (hm : Called L m) (hmem : os.world.ram = m.cpu.mem)
    (hin : CallAtHome P C os.world.ram m.cpu.regs)
    (hcall : nativeCall L C m.cpu.regs os = .ok (regs', flags) os')
    (hfmem : (f (entered L m)).mem = os'.world.ram)
    (hfrsp : (f (entered L m)).regs .rsp = (entered L m).regs .rsp + 8)
    (hfregs : ∀ r, r ∉ .rsp :: pushed → (f (entered L m)).regs r = regs' r) :
    ∃ t, (L.program f id).Leaves m t ∧ t.rip = m.cpu.regs .rcx ∧ t.cpu.regs = regs' ∧
      t.cpu.mem = os'.world.ram := by
  have hexit : ¬Ends (m.cpu.regs .rax) := fun h ↦ h.elim hm.not_exit hm.not_exitGroup
  have hroom := hin.room
  have hlen : (savedBytes L m.cpu.regs).length = 72 := by rw [length_savedBytes, if_neg hexit]
  obtain ⟨u, os₁, h₁, hcall⟩ := bind_eq_ok.mp hcall
  obtain ⟨left, os₂, h₂, hcall⟩ := bind_eq_ok.mp hcall
  cases h₂
  obtain ⟨u, os₃, h₃, hcall⟩ := bind_eq_ok.mp hcall
  obtain ⟨answer, os₄, h₄, hcall⟩ := bind_eq_ok.mp hcall
  obtain ⟨hresult, rfl⟩ := pure_eq_ok.mp hcall
  obtain ⟨rfl, rfl⟩ := Prod.mk.inj hresult
  have hsp : ((entered L m).regs .rsp).toNat = (m.cpu.regs .rsp).toNat - 72 := by
    rw [regs_entered]
    bv_omega
  have hmem₁ : os₁.world.ram = (entered L m).mem := by
    rw [ram_putBelow h₁, mem_entered hexit (by omega), hmem]
  -- neither the frame of the function nor the buffer is where the registers were saved
  have hkept (x : ℕ) (hlo : (m.cpu.regs .rsp).toNat - 72 ≤ x) (hhi : x < (m.cpu.regs .rsp).toNat) :
      (f (entered L m)).mem x = (entered L m).mem x := by
    have hwrites : x ∉ writesOf m.cpu.regs := fun hx ↦
      (hin.writes hx).2 (Set.mem_Ico.mpr ⟨by omega, by omega⟩)
    have hcall : os'.world.ram x = os₃.world.ram x :=
      (nativeSyscall_local _ _ _ _ _ os₃).keeps h₄ hwrites
    have hframe := C.length_frame m.cpu.regs os₁
    rw [hfmem, hcall, ram_putBelow h₃, poke_of_lt (by omega), hmem₁]
  have hsurvives : Survives L f m := by
    have hlt := (m.cpu.regs .rsp).isLt
    rw [Survives, hfrsp]
    refine (frame_entered.congr ?_ fun x hlo hhi ↦ hkept x (by omega) ?_).tail
    · simp [pushed, hsp]
      omega
    · simp [pushed, hsp] at hhi
      omega
  obtain ⟨hmem', hrestored, hother⟩ := after_syscall hfrsp hsurvives
  refine ⟨_, syscall_leaves hm hsurvives, rfl, funext fun r ↦ ?_, hmem'.trans hfmem⟩
  by_cases hr : r ∈ .rsp :: pushed
  · exact (hrestored r hr).trans (if_pos hr).symm
  · exact (hother r hr).trans (hfregs r hr)

end Machine

end Native

end LeonOS
