import LeonOS.Interp.Cases

/-!
# What a step leaves alone

How far `rip` goes and which bytes of memory change in a completed step (`execOne_frame`).

`rip` advances by the length of the instruction, which is `X86.length` of the bytes at it, unless
the instruction `Transfers` control.  Every byte of memory that changes is one that the instruction
`Stores` to, and that is a predicate on the bytes and the registers before the step and, for a
`read` system call, on the count it returns.
-/

set_option autoImplicit false

namespace LeonOS

open Bytes X86 RustM

section

variable {ω : Type} {g g' : Guest ω} {base : U64} {n : ℕ}

/-! ## The statement -/

/-- What a step from `g` to `g'` leaves alone of memory. -/
structure MemFrame (base : U64) (g g' : Guest ω) : Prop where
  /-- Memory keeps its length. -/
  length : g'.mem.length = g.mem.length
  /-- A byte that has changed is one of a store. -/
  mem : ∀ x, Window.view base g'.mem x ≠ Window.view base g.mem x →
    ∃ a len, Stores base g g'.cpu.rax a len ∧ a.toNat ≤ x ∧ x < a.toNat + len

/-- What a step from `g` to `g'` leaves alone. -/
structure StepFrame (base : U64) (g g' : Guest ω) : Prop extends MemFrame base g g' where
  /-- `rip` advances by the length of the instruction. -/
  rip : ¬Transfers (g.code base) → ∃ len, X86.length (g.code base) = some len ∧
    g'.cpu.rip.toNat = g.cpu.rip.toNat + len

theorem MemFrame.of_eq (h : g'.mem = g.mem) : MemFrame base g g' where
  length := by rw [h]
  mem x hx := absurd (by rw [h]) hx

theorem MemFrame.of_changes {va : U64} {i : ℕ} (hva : va.toNat = base.toNat + i)
    (hmem : ChangesOnly g.mem g'.mem i n) (hs : Stores base g g'.cpu.rax va n) :
    MemFrame base g g' where
  length := hmem.length
  mem x hx := by
    obtain ⟨hlo, hhi⟩ := Window.mem_of_view_ne hmem hx
    exact ⟨va, n, hs, by omega, by omega⟩

theorem MemFrame.of_write {va : U64} {bs : List U8}
    (hw : Window.write (.addressOutOfRange : RunError) base g.mem va bs = .ok g'.mem)
    (hs : Stores base g g'.cpu.rax va bs.length) : MemFrame base g g' := by
  obtain ⟨i, hva, hmem⟩ := Window.write_changesOnly hw
  exact .of_changes hva hmem hs

/-- **The frame of a step**, if the system call it may make has one. -/
theorem StepCase.frame {syscall : Interp ω Bool} {stop : Bool}
    (h : StepCase syscall base g stop g')
    (hsys : g.code base 0 = 0x0F → g.code base 1 = 0x05 →
      Ensures syscall g fun _ g' ↦ g'.cpu.rip = g.cpu.rip ∧ MemFrame base g g') :
    StepFrame base g g' := by
  cases h with
  | registers n hplain h _ =>
    exact ⟨.of_eq h.mem, fun _ ↦ ⟨n, hplain.length, by rw [h.rip, toNat_nextRip h.bound]⟩⟩
  | compare n c hdec h _ =>
    exact ⟨.of_eq h.mem, fun _ ↦
      ⟨n, length_of_decodeCompare hdec, by rw [h.rip, toNat_nextRip h.bound]⟩⟩
  | store n va bs hplain hs hw hrip hbound _ =>
    exact ⟨.of_write hw (hs _), fun _ ↦ ⟨n, hplain.length, by rw [hrip, toNat_nextRip hbound]⟩⟩
  | transfer htransfers _ hmem _ =>
    refine ⟨?_, fun hn ↦ absurd htransfers hn⟩
    rcases hmem with hmem | ⟨v, hs, hw⟩
    · exact .of_eq hmem
    · exact .of_write hw (by simpa using hs _)
  | syscall h0 h1 g₁ hrun hbound h =>
    obtain ⟨hrip, hmem⟩ := hsys h0 h1 stop g₁ hrun
    obtain rfl := h
    refine ⟨⟨hmem.length, hmem.mem⟩, fun _ ↦ ⟨2, ?_, ?_⟩⟩
    · simp [X86.length, rexLength, opLength, twoByte, Format.lengthFrom, h0, h1]
    · rw [toNat_nextRip hbound, hrip]

end

/-! ## System calls -/

section Calls

variable {run : Run} {tmp : StackSlot} {base : U64} {g g' : Guest Os}

/-- Memory is as it was. -/
def SameMem (g g' : Guest Os) : Prop := g'.mem = g.mem

/-- A system call that reaches the last arm of `handle_syscall`. -/
def ReachesDefault (g : Guest Os) (base : U64) : Prop :=
  g.code base 0 = 0x0F ∧ g.code base 1 = 0x05 ∧ Nr.decode g.cpu.rax.toNat ∉
    [.read, .write, .getpid, .brk, .execve, .exit, .exitGroup]

@[simp] theorem ensures_setRax {v : U64} {stop : Bool} {P : Bool → Guest Os → Prop} :
    Ensures (setRax v stop) g P ↔ P stop { g with cpu := { g.cpu with rax := v } } :=
  ensures_of_eq rfl

@[simp] theorem ensures_process {bytes : List U8} {P : Unit → Guest Os → Prop} :
    Ensures (process bytes) g P ↔
      P () { g with os := { g.os with screen := g.os.screen ++ bytes } } :=
  ensures_of_eq rfl

theorem ensures_sys {α : Type} {x : SysM α} {P : α → Guest Os → Prop} :
    Ensures (sys x) g P ↔ Ensures x g.os.world fun a w ↦
      P a { g with os := { g.os with world := w } } := by
  simp only [Ensures, sys]
  cases x g.os.world with
  | ok a w => simp
  | error e w =>
    cases e with
    | err e => exact e.elim
    | panic => simp

theorem sys_setRax_sameMem {x : SysM U64} {stop : Bool} :
    Ensures (sys x >>= fun v ↦ setRax v stop) g fun _ g' ↦ SameMem g g' := by
  simp only [ensures_bind, ensures_sys, ensures_setRax]
  exact fun _ _ _ ↦ rfl

theorem handleWrite_sameMem : Ensures (handleWrite base) g fun _ g' ↦ SameMem g g' := by
  simp only [handleWrite, ensures_bind, ensures_getCpu, ensures_reading, ensures_ite,
    ensures_process, ensures_sys, ensures_setRax]
  exact fun _ _ ↦ ⟨fun _ _ _ _ ↦ rfl, fun _ _ _ _ ↦ rfl⟩

theorem handleExecve_sameMem : Ensures (handleExecve run base) g fun _ g' ↦ SameMem g g' := by
  intro stop g' h
  rcases handleExecve_cases base g with ⟨name, argv, envp, rec, -, heq⟩ | ⟨-, ⟨r, heq⟩ | ⟨e, heq⟩⟩
  · rw [heq run, execFile_eq] at h
    cases hres : run rec.data (execArgs name argv) envp g.os.started with
    | ok _ os =>
      rw [hres] at h
      cases h
      rfl
    | error e os =>
      rw [hres] at h
      cases e with
      | err e =>
        cases h
        rfl
      | panic => exact nomatch h
  · rw [heq run] at h
    cases h
    rfl
  · exact nomatch (heq run).symm.trans h

/-- The bytes that a line from the terminal changes. -/
theorem readLineFrom_changes (start n got : ℕ) :
    Ensures (readLineFrom start n got) g fun last g' ↦ got ≤ last ∧ last ≤ got + n ∧
      ChangesOnly g.mem g'.mem (start + got) (last - got) := by
  induction n generalizing got g with
  | zero =>
    rw [readLineFrom, ensures_pure]
    exact ⟨le_rfl, le_rfl, .rfl⟩
  | succ n ih =>
    rw [readLineFrom, ensures_bind, ensures_sys]
    intro ch w _
    cases ch with
    | none => exact ensures_pure.mpr ⟨le_rfl, by omega, .rfl⟩
    | some ch =>
      simp only [ensures_bind, ensures_writing, ensures_process, ensures_ite, ensures_pure]
      intro mem hmem
      obtain ⟨hlt, rfl⟩ := Rust.setIndex_eq_ok.mp hmem
      have hone : ChangesOnly g.mem
          (overwrite g.mem (start + got) [if ch = 0x0D then 0x0A else ch]) (start + got) 1 :=
        changesOnly_overwrite hlt
      refine ⟨fun _ ↦ ⟨by omega, by omega, hone.mono le_rfl (by simp)⟩, fun _ ↦ ?_⟩
      refine (ih (got + 1)).mono fun last g' ⟨hlo, hhi, hrest⟩ ↦ ⟨by omega, by omega, ?_⟩
      exact (hone.mono le_rfl (by simp; omega)).trans (hrest.mono (by omega) (by omega))

/-- What a `read` changes: no more than it was asked for, and no more than it returns. -/
def ReadFrame (base : U64) (g g' : Guest Os) : Prop :=
  ∃ i got, g.cpu.rsi.toNat = base.toNat + i ∧ ChangesOnly g.mem g'.mem i got ∧
    got ≤ g.cpu.rdx.toNat ∧ got ≤ countOf g'.cpu.rax

theorem countOf_ofNat {n : ℕ} (h : n ≤ 2 ^ 63) : countOf (BitVec.ofNat 64 n) = n := by
  have hnat : (BitVec.ofNat 64 n).toNat = n := by
    rw [BitVec.toNat_ofNat]
    omega
  rw [countOf, if_neg, hnat]
  rw [isErrno, BitVec.toInt_eq_toNat_cond, hnat]
  split <;> omega

theorem countOf_of_nonneg {r : U64} (h : 0 ≤ r.toInt) : countOf r = r.toNat :=
  if_neg fun hr ↦ by
    have := hr.2
    omega

/-- A file does not return more than it is asked for. -/
theorem dispatch_read_count {arg0 arg1 arg2 : U64} {w : World} (h0 : arg0 ≠ 0) :
    Ensures (dispatch .read arg0 arg1 arg2 0) w fun r _ ↦
      0 ≤ r.toInt → r.toNat ≤ arg2.toNat := by
  have hfail (e : U64) (he : e.toInt < 0) : 0 ≤ e.toInt → e.toNat ≤ arg2.toNat :=
    fun h ↦ absurd he (by omega)
  have hfd : arg0.toNat ≠ 0 := fun h ↦ h0 (BitVec.eq_of_toNat_eq h)
  rw [dispatch, ensures_ite, posixRead, if_neg hfd]
  refine ⟨fun _ ↦ ensures_pure.mpr (hfail (-ebadf) (by decide)), fun _ ↦ ?_⟩
  rw [sysRead]
  split
  · exact ensures_pure.mpr (hfail (-efault) (by decide))
  rw [ensures_bind, ensures_getKernel]
  split
  · exact ensures_pure.mpr (hfail (-ebadf) (by decide))
  · exact ensures_pure.mpr (hfail (-ebadf) (by decide))
  · exact ensures_pure.mpr (hfail (-eisdir) (by decide))
  · simp only [ensures_ite, ensures_pure, ensures_bind, ensures_lift, ensures_store,
      ensures_modifyKernel, BitVec.toNat_ofNat]
    refine ⟨fun _ _ ↦ Nat.zero_le _, fun _ src _ pos _ _ ↦ ?_⟩
    exact (Nat.mod_le _ _).trans (min_le_left _ _)

theorem readThroughTmp_frame {start cap : ℕ} (hstart : g.cpu.rsi.toNat = base.toNat + start)
    (hcap : cap ≤ g.cpu.rdx.toNat) (hfd : g.cpu.rdi ≠ 0) :
    Ensures (readThroughTmp tmp start cap g.cpu.rdi) g fun _ g' ↦ ReadFrame base g g' := by
  simp only [readThroughTmp, clearTmp, ensures_bind, ensures_modify, ensures_sys, ensures_ite,
    ensures_get, ensures_writing, ensures_setRax]
  refine (dispatch_read_count hfd).mono fun r w hr ↦ ⟨fun hpos mem hmem ↦ ?_, fun _ ↦ ?_⟩
  · obtain ⟨src, hsrc, hcopy⟩ := Rust.bind_eq_ok.mp hmem
    obtain ⟨⟨-, hfit, hlen⟩, rfl⟩ := Rust.copyFromSlice_eq_ok.mp hcopy
    have hcount := hr hpos
    rw [BitVec.toNat_ofNat] at hcount
    refine ⟨start, r.toNat, hstart, ?_, ?_, (countOf_of_nonneg hpos).ge⟩
    · rw [show r.toNat = src.length by omega]
      exact changesOnly_overwrite (by omega)
    · have := Nat.mod_le (min cap 256) (2 ^ 64)
      omega
  · exact ⟨start, 0, hstart, .rfl, Nat.zero_le _, Nat.zero_le _⟩

theorem handleRead_frame (hbase : base.toNat + g.mem.length ≤ 2 ^ 63) :
    Ensures (handleRead tmp base) g fun _ g' ↦ ReadFrame base g g' := by
  simp only [handleRead, ensures_bind, ensures_getCpu, ensures_reading, ensures_get, ensures_ite,
    ensures_setRax]
  intro start hstart
  obtain ⟨hva, hlt⟩ := Window.index_eq_ok.mp hstart
  refine ⟨fun _ ↦ ⟨start, 0, hva, .rfl, Nat.zero_le _, Nat.zero_le _⟩,
    fun _ ↦ ⟨fun _ ↦ ?_, fun _ ↦ ?_⟩⟩
  · refine (readLineFrom_changes _ _ _).mono fun got g' hchanges ↦ ?_
    obtain ⟨_, hgot, hmem⟩ := hchanges
    refine ⟨start, got, hva, hmem, by omega, ?_⟩
    rw [countOf_ofNat (by omega)]
  · exact readThroughTmp_frame hva (min_le_left _ _) ‹_›

/-- **What a system call leaves alone**, unless it reaches the last arm. -/
theorem handleSyscall_frame (hbase : base.toNat + g.mem.length ≤ 2 ^ 63)
    (h0 : g.code base 0 = 0x0F) (h1 : g.code base 1 = 0x05) (hdefault : ¬ReachesDefault g base) :
    Ensures (handleSyscall run tmp base) g fun _ g' ↦
      g'.cpu.rip = g.cpu.rip ∧ MemFrame base g g' := by
  intro stop g' h
  constructor
  · obtain ⟨v, hcpu⟩ := handleSyscall_onlyRax h
    rw [hcpu]
  rw [handleSyscall, bind_getCpu] at h
  have hreaches := not_and.mp (not_and.mp hdefault h0) h1
  cases hnr : Nr.decode g.cpu.rax.toNat <;> rw [hnr] at h hreaches
  case read =>
    obtain ⟨i, got, hva, hmem, hcount, hr⟩ := handleRead_frame hbase stop g' h
    exact .of_changes hva hmem (.read got h0 h1 hnr hcount hr)
  case write => exact .of_eq (handleWrite_sameMem stop g' h)
  case execve => exact .of_eq (handleExecve_sameMem stop g' h)
  case getpid | brk | exit | exitGroup => exact .of_eq (sys_setRax_sameMem stop g' h)
  all_goals exact absurd (by decide) hreaches

/-- **Step frame and instruction length.** -/
theorem execOne_frame (run : Run) (tmp : StackSlot) (base : U64) (g g' : Guest Os) (stop : Bool)
    (hbase : base.toNat + g.mem.length ≤ 2 ^ 63) (hdefault : ¬ReachesDefault g base)
    (h : execOne (handleSyscall run tmp base) base g = .ok stop g') : StepFrame base g g' :=
  (execOne_cases h).frame fun h0 h1 ↦ handleSyscall_frame hbase h0 h1 hdefault

/-- `push rbp` below a stack of eight bytes. -/
def pushGuest : Guest Os where
  cpu := { Cpu.start 0x400010 0x400000 with rbp := 0x1122334455667788 }
  mem := 0x55 :: List.replicate 15 0
  os := ⟨⟨.boot, fun _ ↦ 0, []⟩, []⟩

set_option maxRecDepth 4000 in
theorem execOne_frame_pushGuest :
    ∃ g', execOne (handleSyscall (fun _ _ _ ↦ pure ()) ⟨1, by decide⟩ 0x400000) 0x400000
      pushGuest = .ok false g' ∧ StepFrame 0x400000 pushGuest g' := by
  have h : execOne (handleSyscall (fun _ _ _ ↦ pure ()) ⟨1, by decide⟩ 0x400000) 0x400000
      pushGuest = .ok false { pushGuest with
        cpu := { pushGuest.cpu with rsp := 0x400008, rip := 0x400001 }
        mem := 0x55 :: List.replicate 7 0 ++
          [0x88, 0x77, 0x66, 0x55, 0x44, 0x33, 0x22, 0x11] } := rfl
  exact ⟨_, h, execOne_frame _ _ _ _ _ _ (by decide) (fun hd ↦ absurd hd.1 (by decide)) h⟩

end Calls

end LeonOS
