import LeonOS.Interp.Steps

/-!
# Calls and returns in the interpreter

Both call branches push the address of the next instruction, `E8` and `FF 15` alike
(`call_pushes`).  Nothing pops it: the branch of `RET` is the branch of `HLT`, which ends the
program.  So the return from a call is the end of the run, whatever the callee did and however
long it took (`call_never_returns`).
-/

set_option autoImplicit false

namespace LeonOS

open Bytes X86

variable {ω : Type} {g g' g₀ g₁ r : Guest ω} {base ret : U64} {syscall : Interp ω Bool}

/-! ## Runs -/

/-- A step after which the program goes on. -/
def Step (syscall : Interp ω Bool) (base : U64) (g g' : Guest ω) : Prop :=
  execOne syscall base g = .ok false g'

/-- Any number of steps. -/
def Steps (syscall : Interp ω Bool) (base : U64) : Guest ω → Guest ω → Prop :=
  Relation.ReflTransGen (Step syscall base)

/-- `g` stands at a call, and the instruction after it is at `ret`: a `call rel32`, or a call
through a pointer that leads into guest memory. -/
inductive CallAt (base : U64) (g : Guest ω) : U64 → Prop
  | rel32 (h0 : g.code base 0 = 0xE8) : CallAt base g (g.nextRip 5)
  | ptr {target : U64} (h0 : g.code base 0 = 0xFF) (h1 : g.code base 1 = 0x15)
      (htarget : readU64 base g.mem (g.nextRip 6 + imm32 (g.code base) 2) = .ok target)
      (hlo : base.toNat ≤ target.toNat) (hhi : target.toNat < base.toNat + g.mem.length) :
      CallAt base g (g.nextRip 6)

/-- `r` stands at a `RET` with `rsp` where the call that led to `g₁` has left it, at the return
address, and the address is still there. -/
structure ReturnAt (base : U64) (g₁ r : Guest ω) : Prop where
  /-- The instruction is a `RET`. -/
  code : r.code base 0 = 0xC3
  /-- The stack is balanced. -/
  rsp : r.cpu.rsp = g₁.cpu.rsp
  /-- The return address has not been written over. -/
  intact : peek (Window.view base r.mem) r.cpu.rsp.toNat 8 =
    peek (Window.view base g₁.mem) r.cpu.rsp.toNat 8

/-- The step from `r` goes back behind the call in `g₀`. -/
def Continues (syscall : Interp ω Bool) (base : U64) (g₀ r : Guest ω) (ret : U64) : Prop :=
  ∃ g', Step syscall base r g' ∧ g'.cpu.rip = ret ∧ g'.cpu.rsp = g₀.cpu.rsp

/-! ## The arm of a first byte -/

/-- The step at an address that holds a byte other than zero. -/
theorem execOne_of_code (syscall : Interp ω Bool) (h : g.code base 0 ≠ 0) : ∃ b : Vector U8 8,
    (∀ k (hk : k < 8), b[k] = g.code base k) ∧
      execOne syscall base g = firstArm (arms syscall base b)
        (throw (.err (.unsupportedInstruction g.cpu.rip b))) g := by
  have hidx : ∃ i, vaToIndex base g.mem g.cpu.rip = .ok i := by
    refine ⟨g.cpu.rip.toNat - base.toNat, Window.index_eq_ok.mpr ?_⟩
    rw [Guest.code, Window.view, Nat.add_zero] at h
    split at h
    · refine ⟨by omega, Nat.lt_of_not_le fun hle ↦ h ?_⟩
      rw [List.getD_eq_getElem?_getD, List.getElem?_eq_none hle, Option.getD_none]
    · exact absurd rfl h
  obtain ⟨i, hi⟩ := hidx
  have hb : ∃ b, readBytes base g.mem g.cpu.rip = .ok b := by
    rw [readBytes, hi]
    exact ⟨_, rfl⟩
  obtain ⟨b, hb⟩ := hb
  refine ⟨b, readBytes_eq_ok hb, ?_⟩
  rw [execOne, bind_getCpu, reading, RustM.bind_apply, RustM.bind_apply]
  simp [hb, RustM.lift, get, getThe, MonadStateOf.get, EStateM.get]

theorem firstArm_none {α : Type} (rest : List (Interp ω (Option α))) (o : Interp ω α) :
    firstArm (pure none :: rest) o = firstArm rest o := rfl

theorem firstArm_arm_of_not {c : Prop} [Decidable c] (hc : ¬c) (body : Interp ω Bool)
    (rest : List (Interp ω (Option Bool))) (o : Interp ω Bool) :
    firstArm (arm c body :: rest) o = firstArm rest o := by
  rw [arm, if_neg hc]
  rfl

theorem firstArm_arm_of {c : Prop} [Decidable c] (hc : c) (body : Interp ω Bool)
    (rest : List (Interp ω (Option Bool))) (o : Interp ω Bool) :
    firstArm (arm c body :: rest) o g = body g := by
  rw [arm, if_pos hc, firstArm, RustM.bind_apply]
  simp only [Functor.map, EStateM.map]
  cases body g <;> rfl

section Chain

attribute [local simp] arms setArm movArm zeroArm pushArm popArm loadArm movImmArm leaRipArm testArm
  leaArm movHighArm movLowArm storeImmArm storeImmSpArm jmpArm jmpShortArm jeArm
  aluImm8Arm aluImm32Arm movLoadArm firstArm_none firstArm_arm_of_not firstArm_arm_of

/-- **`RET` ends the program**, and nothing else happens. -/
theorem execOne_ret (h : r.code base 0 = 0xC3) : execOne syscall base r = .ok true r := by
  obtain ⟨b, hb, hx⟩ := execOne_of_code syscall (by rw [h]; decide)
  have h0 : b[0] = 0xC3 := (hb 0 (by decide)).trans h
  rw [hx]
  simp [h0]

theorem execOne_callRel32 (h : g.code base 0 = 0xE8) :
    execOne syscall base g = callRel32 base g := by
  obtain ⟨b, hb, hx⟩ := execOne_of_code syscall (by rw [h]; decide)
  have h0 : b[0] = 0xE8 := (hb 0 (by decide)).trans h
  rw [hx]
  simp [h0]

theorem execOne_callPtr (h0 : g.code base 0 = 0xFF) (h1 : g.code base 1 = 0x15) :
    execOne syscall base g = callPtr base g := by
  obtain ⟨b, hb, hx⟩ := execOne_of_code syscall (by rw [h0]; decide)
  have h0 : b[0] = 0xFF := (hb 0 (by decide)).trans h0
  have h1 : b[1] = 0x15 := (hb 1 (by decide)).trans h1
  rw [hx]
  simp [h0, h1]

end Chain

/-! ## What a call leaves behind -/

theorem pushed {v : U64} {mem : List U8} (h : writeU64 base g.mem (g.cpu.rsp - 8) v = .ok mem) :
    X86.load (Window.view base mem) (g.cpu.rsp - 8).toNat 8 = v := by
  rw [view_write h, load_poke_self]

theorem isOutside_eq_false {mem : List U8} {va : U64} {o : Bool} (hlo : base.toNat ≤ va.toNat)
    (hhi : va.toNat < base.toNat + mem.length) (h : isOutside base mem va = .ok o) : o = false := by
  rw [isOutside, if_neg (by omega)] at h
  obtain ⟨top, htop, h⟩ := Rust.bind_eq_ok.mp h
  rw [Rust.add] at htop
  split at htop
  · obtain rfl := Except.ok.inj htop
    obtain rfl := Except.ok.inj h
    simpa using hhi
  · exact absurd htop (by simp [Rust.panicked])

/-- A call pushes the address of the next instruction. -/
theorem call_pushes (hcall : CallAt base g ret) (h : Step syscall base g g') :
    g'.cpu.rsp = g.cpu.rsp - 8 ∧ X86.load (Window.view base g'.mem) g'.cpu.rsp.toNat 8 = ret := by
  rw [Step] at h
  cases hcall with
  | rel32 h0 =>
    rw [execOne_callRel32 h0] at h
    obtain ⟨-, h⟩ := bind_ripPlus_eq_ok.mp h
    obtain ⟨rel, -, h⟩ := bind_reading_eq_ok.mp h
    obtain ⟨-, h⟩ := bind_ripPlus_eq_ok.mp h
    obtain ⟨-, mem, hw, h⟩ := bind_pushU64_eq_ok.mp h
    obtain ⟨target, -, h⟩ := bind_lift_eq_ok.mp h
    rw [bind_modifyCpu, RustM.pure_eq_ok] at h
    rw [h.2]
    exact ⟨rfl, pushed hw⟩
  | ptr h0 h1 htarget hlo hhi =>
    rw [execOne_callPtr h0 h1] at h
    obtain ⟨hp, h⟩ := bind_ripPlus_eq_ok.mp h
    obtain ⟨disp, hdisp, h⟩ := bind_reading_eq_ok.mp h
    obtain ⟨-, h⟩ := bind_ripPlus_eq_ok.mp h
    obtain ⟨ptrVa, hva, h⟩ := bind_lift_eq_ok.mp h
    obtain ⟨target', ht, h⟩ := bind_reading_eq_ok.mp h
    rw [← readI32_nextRip hp hdisp, Rust.addSigned_eq_ok] at hva
    obtain ⟨-, rfl⟩ := hva
    obtain rfl := Except.ok.inj (htarget.symm.trans ht)
    rw [bind_getCpu] at h
    obtain ⟨outside, ho, h⟩ := bind_reading_eq_ok.mp h
    obtain rfl := isOutside_eq_false hlo hhi ho
    obtain ⟨-, mem, hw, h⟩ := bind_pushU64_eq_ok.mp h
    rw [bind_modifyCpu, RustM.pure_eq_ok] at h
    rw [h.2]
    exact ⟨rfl, pushed hw⟩

/-! ## What a return does -/

theorem runSteps_of_steps (h : Steps syscall base g r)
    (hr : execOne syscall base r = .ok true r) :
    ∃ k, ∀ n, k < n → runSteps syscall base n g = .ok () r := by
  induction h using Relation.ReflTransGen.head_induction_on with
  | refl =>
    refine ⟨0, fun n hn ↦ ?_⟩
    obtain ⟨n, rfl⟩ := Nat.exists_eq_succ_of_ne_zero hn.ne'
    rw [runSteps, RustM.bind_apply, hr]
    rfl
  | head hstep _ ih =>
    obtain ⟨k, hk⟩ := ih
    refine ⟨k + 1, fun n hn ↦ ?_⟩
    obtain ⟨n, rfl⟩ := Nat.exists_eq_succ_of_ne_zero (by omega : n ≠ 0)
    rw [Step] at hstep
    rw [runSteps, RustM.bind_apply, hstep]
    exact hk n (by omega)

/-- **No call returns.**  Whatever the callee does between the call and a `RET` on the intact
return address, the step of the `RET` does not go on behind the call: it ends the program. -/
theorem call_never_returns (hcall : CallAt base g₀ ret) (hstep : Step syscall base g₀ g₁)
    (hrun : Steps syscall base g₁ r) (hret : ReturnAt base g₁ r) :
    X86.load (Window.view base r.mem) r.cpu.rsp.toNat 8 = ret ∧
      ¬Continues syscall base g₀ r ret ∧
      ∃ k, ∀ n, k < n → runSteps syscall base n g₀ = .ok () r := by
  have hr : execOne syscall base r = .ok true r := execOne_ret hret.code
  refine ⟨?_, ?_, runSteps_of_steps (.head hstep hrun) hr⟩
  · rw [X86.load, hret.intact, hret.rsp]
    exact (call_pushes hcall hstep).2
  · rintro ⟨g', h, -⟩
    rw [Step, hr] at h
    exact absurd h (by simp)

/-- A program that calls a function consisting of a `RET` and then halts. -/
def callRet (rip rsp : U64) (pushed : List U8) : Guest Unit where
  cpu := .start rsp rip
  mem := [0xE8, 0x01, 0x00, 0x00, 0x00, 0xF4, 0xC3, 0x00] ++ pushed
  os := ()

/-- Before the call, with the stack above the code. -/
def beforeCall : Guest Unit := callRet 0x1000 0x1010 (List.replicate 8 0)

/-- In the function. -/
def inCallee : Guest Unit := callRet 0x1006 0x1008 [0x05, 0x10, 0, 0, 0, 0, 0, 0]

set_option maxRecDepth 4000 in
theorem step_beforeCall : Step (pure true) 0x1000 beforeCall inCallee := by
  rfl

/-- The function returns at once, and the `HLT` behind the call is not reached. -/
theorem inCallee_ends :
    CallAt 0x1000 beforeCall 0x1005 ∧ Step (pure true) 0x1000 beforeCall inCallee ∧
      ReturnAt 0x1000 inCallee inCallee ∧
      ¬Continues (pure true) 0x1000 beforeCall inCallee 0x1005 := by
  refine ⟨.rel32 (by rfl), step_beforeCall, ⟨by rfl, rfl, rfl⟩, ?_⟩
  rintro ⟨g', h, -⟩
  rw [Step, execOne_ret (by rfl)] at h
  exact absurd h (by simp)

theorem call_never_returns_callRet :
    X86.load (Window.view 0x1000 inCallee.mem) inCallee.cpu.rsp.toNat 8 = 0x1005 ∧
      ¬Continues (pure true) 0x1000 beforeCall inCallee 0x1005 ∧
      ∃ k, ∀ n, k < n → runSteps (pure true) 0x1000 n beforeCall = .ok () inCallee :=
  call_never_returns (.rel32 (by rfl)) step_beforeCall .refl ⟨by rfl, rfl, rfl⟩

end LeonOS
