import LeonOS.Kernel.Effect

/-!
# The exit that waits

`LAST_EXIT` and `EXIT_WAITABLE` together hold at most one exit code, the one that the next `wait4`
is to report: `Kernel.waitable`.  An exit fills it, `wait4` takes it out, and no other system call
touches it (`dispatch_waitable`).

`waitSpec` says what a `wait4` has to answer when a given exit code waits.  The one that
`sys_wait4` goes by is `waitable` (`wait4_spec`), and as only the low byte of a code is reported,
this is all that can be told of it from outside (`waitSpec_inj`).
-/

set_option autoImplicit false

namespace LeonOS

open Bytes RustM

/-- The exit code that the next `wait4` reports. -/
def Kernel.waitable (k : Kernel) : Option (BitVec 32) :=
  if k.exitWaitable then some k.lastExit else none

/-- What `wait4(pid, status)` answers when `pending` waits, and memory afterwards. -/
def waitSpec (pending : Option (BitVec 32)) (selfPid pid statusPtr : U64) (ram : ℕ → U8) :
    U64 × (ℕ → U8) :=
  match pending with
  | some code =>
    if pid.toInt ≤ 0 ∨ pid = selfPid then
      (selfPid, if statusPtr = 0 then ram
        else poke ram statusPtr.toNat (toLE 4 ((code &&& 0xff) <<< 8).toNat))
    else (-echild, ram)
  | none => (-echild, ram)

/-- `wait4` takes out what it reports. -/
def takenBy (r : U64) (pending : Option (BitVec 32)) : Option (BitVec 32) :=
  if r = -echild then pending else none

/-- The exit that waits after a system call with the result `r`, if `pending` waited before: an
exit waits, and `wait4` takes one out. -/
def Nr.pendingAfter (nr : Nr) (arg0 r : U64) (pending : Option (BitVec 32)) :
    Option (BitVec 32) :=
  match nr with
  | .exit | .exitGroup => some (arg0.setWidth 32)
  | .wait4 => takenBy r pending
  | _ => pending

/-! ## What the calls do to it -/

variable {k k' : Kernel} {nr : Nr} {arg0 arg1 arg2 arg3 : U64} {w : World}

theorem Nr.pendingAfter_of_ne (hexit : nr ≠ .exit) (hgroup : nr ≠ .exitGroup)
    (hwait : nr ≠ .wait4) (r : U64) (pending : Option (BitVec 32)) :
    nr.pendingAfter arg0 r pending = pending := by
  cases nr with
  | exit => exact absurd rfl hexit
  | exitGroup => exact absurd rfl hgroup
  | wait4 => exact absurd rfl hwait
  | _ => rfl

theorem Effect.waitable (h : Effect k nr arg0 arg1 k') (hexit : nr ≠ .exit)
    (hgroup : nr ≠ .exitGroup) (hwait : nr ≠ .wait4) : k'.waitable = k.waitable := by
  cases h with
  | exited hnr => exact absurd hnr (not_or.mpr ⟨hexit, hgroup⟩)
  | reaped => exact absurd rfl hwait
  | brk =>
    rw [Kernel.brkSet]
    split <;> rfl
  | _ => rfl

/-- The same exit waits. -/
def SameWaitable (k k' : Kernel) : Prop := k'.waitable = k.waitable

instance : IsPreorder Kernel SameWaitable where
  refl _ := rfl
  trans _ _ _ h h' := Eq.trans h' h

/-- The other calls leave it alone. -/
theorem dispatch_waitable (hexit : nr ≠ .exit) (hgroup : nr ≠ .exitGroup) (hwait : nr ≠ .wait4) :
    Ensures (dispatch nr arg0 arg1 arg2 arg3) w fun _ w' ↦ SameWaitable w.kernel w'.kernel :=
  dispatch_effect.mono fun _ _ h ↦ h.waitable hexit hgroup hwait

theorem readStdinByteBlocking_waitable (w : World) :
    Ensures readStdinByteBlocking w fun _ w' ↦ SameWaitable w.kernel w'.kernel :=
  ensures_readStdinByteBlocking rfl fun _ ↦ rfl

theorem selfPid_ne_echild (pid : BitVec 32) : pid.setWidth 64 ≠ -echild := by
  intro h
  have hnat := congrArg BitVec.toNat h
  have hlt := pid.isLt
  rw [BitVec.toNat_setWidth, Nat.mod_eq_of_lt (by omega)] at hnat
  rw [hnat] at hlt
  exact absurd hlt (by decide)

/-- **`wait4` goes by `waitable`.** -/
theorem wait4_spec (pid statusPtr options rusage : U64) (w : World) :
    ∃ w', dispatch .wait4 pid statusPtr options rusage w = .ok
        (waitSpec w.kernel.waitable (w.kernel.pid.setWidth 64) pid statusPtr w.ram).1 w' ∧
      w'.ram = (waitSpec w.kernel.waitable (w.kernel.pid.setWidth 64) pid statusPtr w.ram).2 ∧
      w'.kernel.waitable = takenBy
        (waitSpec w.kernel.waitable (w.kernel.pid.setWidth 64) pid statusPtr w.ram).1
        w.kernel.waitable := by
  have hzero : statusPtr.toNat = 0 ↔ statusPtr = 0 := BitVec.toNat_inj (y := 0)
  rw [dispatch, sysWait4, bind_getKernel]
  by_cases hpid : 0 < pid.toInt ∧ pid ≠ w.kernel.pid.setWidth 64
  · rw [if_pos hpid]
    have hspec : waitSpec w.kernel.waitable (w.kernel.pid.setWidth 64) pid statusPtr w.ram =
        (-echild, w.ram) := by
      cases w.kernel.waitable with
      | none => rfl
      | some code => exact if_neg (not_or.mpr ⟨not_le.mpr hpid.1, hpid.2⟩)
    rw [hspec]
    exact ⟨w, rfl, rfl, rfl⟩
  · rw [if_neg hpid, bind_modifyKernel]
    have hself : pid.toInt ≤ 0 ∨ pid = w.kernel.pid.setWidth 64 := by
      rcases not_and_or.mp hpid with h | h
      · exact .inl (not_lt.mp h)
      · exact .inr (not_not.mp h)
    cases hflag : w.kernel.exitWaitable with
    | false =>
      have hnone : w.kernel.waitable = none := by
        rw [Kernel.waitable, hflag]
        rfl
      rw [hnone]
      exact ⟨_, rfl, rfl, rfl⟩
    | true =>
      have hsome : w.kernel.waitable = some w.kernel.lastExit := by
        rw [Kernel.waitable, hflag]
        rfl
      simp only [hsome, waitSpec, if_pos hself, takenBy, if_neg (selfPid_ne_echild _)]
      by_cases hstatus : statusPtr = 0
      · rw [if_pos hstatus, if_neg (by decide), if_neg (not_not.mpr (hzero.mpr hstatus))]
        exact ⟨_, rfl, rfl, rfl⟩
      · rw [if_neg hstatus, if_neg (by decide), if_pos (fun h ↦ hstatus (hzero.mp h))]
        exact ⟨_, rfl, rfl, rfl⟩

/-! ## What can be told of it -/

/-- The part of a code that is reported. -/
def lowByte (code : BitVec 32) : BitVec 32 := code &&& 0xff

theorem waitSpec_congr {p p' : Option (BitVec 32)} (h : p.map lowByte = p'.map lowByte)
    (selfPid pid statusPtr : U64) (ram : ℕ → U8) :
    waitSpec p selfPid pid statusPtr ram = waitSpec p' selfPid pid statusPtr ram := by
  cases p with
  | none => rw [Option.map_none, eq_comm, Option.map_eq_none_iff] at h; rw [h]
  | some code =>
    obtain ⟨code', rfl, hcode⟩ := Option.map_eq_some_iff.mp h.symm
    rw [waitSpec, waitSpec, ← lowByte, ← lowByte, hcode]

/-- Codes that are reported alike stay so. -/
theorem Nr.map_lowByte_pendingAfter {p p' : Option (BitVec 32)}
    (h : p.map lowByte = p'.map lowByte) (nr : Nr) (arg0 r : U64) :
    (nr.pendingAfter arg0 r p).map lowByte = (nr.pendingAfter arg0 r p').map lowByte := by
  cases nr with
  | exit | exitGroup => rfl
  | wait4 =>
    rw [Nr.pendingAfter, Nr.pendingAfter, takenBy, takenBy]
    split
    · exact h
    · rfl
  | _ => exact h

theorem shiftLeft_lowByte_inj {c c' : BitVec 32}
    (h : (lowByte c <<< 8).toNat = (lowByte c' <<< 8).toNat) : lowByte c = lowByte c' := by
  have hlt : ∀ c : BitVec 32, (lowByte c).toNat < 256 := fun c ↦ by
    rw [lowByte, BitVec.toNat_and]
    exact Nat.lt_succ_of_le Nat.and_le_right
  have hc := hlt c
  have hc' := hlt c'
  rw [BitVec.toNat_shiftLeft, BitVec.toNat_shiftLeft, Nat.shiftLeft_eq, Nat.shiftLeft_eq] at h
  exact BitVec.eq_of_toNat_eq (by omega)

/-- The answers of `wait4(0, 8)` tell exit codes apart, up to their low byte. -/
theorem waitSpec_inj {p p' : Option (BitVec 32)} {pid : BitVec 32} {ram : ℕ → U8}
    (h : waitSpec p (pid.setWidth 64) 0 8 ram = waitSpec p' (pid.setWidth 64) 0 8 ram) :
    p.map lowByte = p'.map lowByte := by
  have hpid := selfPid_ne_echild pid
  have hself : (0 : U64).toInt ≤ 0 ∨ 0 = pid.setWidth 64 := .inl (by decide)
  cases p with
  | none =>
    cases p' with
    | none => rfl
    | some c' =>
      simp only [waitSpec, if_pos hself, Prod.mk.injEq] at h
      exact absurd h.1.symm hpid
  | some c =>
    cases p' with
    | none =>
      simp only [waitSpec, if_pos hself, Prod.mk.injEq] at h
      exact absurd h.1 hpid
    | some c' =>
      simp only [waitSpec, if_pos hself, Prod.mk.injEq, true_and] at h
      have hbytes := congrArg (peek · 8 4) h
      have hpeek : ∀ c : BitVec 32, peek (poke ram 8 (toLE 4 ((c &&& 0xff) <<< 8).toNat)) 8 4 =
          toLE 4 ((c &&& 0xff) <<< 8).toNat := fun c ↦ by
        simpa using peek_poke_self ram 8 (toLE 4 ((c &&& 0xff) <<< 8).toNat)
      have hword : ∀ c : BitVec 32, ofLE (toLE 4 c.toNat) = c.toNat := fun c ↦
        ofLE_toLE_of_lt c.isLt
      have hle : toLE 4 ((c &&& 0xff) <<< 8).toNat = toLE 4 ((c' &&& 0xff) <<< 8).toNat := by
        rw [← hpeek c, ← hpeek c']
        exact hbytes
      have hval := congrArg ofLE hle
      rw [hword, hword] at hval
      exact congrArg some (shiftLeft_lowByte_inj hval)

end LeonOS
