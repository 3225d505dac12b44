import LeonOS.Interp.Exec

/-!
# What a completed step has done

The inversion lemmas of `execOne`.  For each small step and each family of arms there is one lemma
that says exactly when it returns a value and which state it leaves; nothing after this file
unfolds them again.

An arm that falls through has changed nothing (`arms_fall_through`), so the state a completed
`execOne` leaves is the state one arm of the chain has made from the state before
(`execOne_eq_ok`).
-/

set_option autoImplicit false

namespace LeonOS

open Bytes X86

variable {ω : Type} {g g' : Guest ω} {base : U64} {n : ℕ} {stop : Bool}

theorem ofNat_toNat_sub {a : U64} {n : ℕ} (h : n ≤ a.toNat) :
    BitVec.ofNat 64 (a.toNat - n) = a - BitVec.ofNat 64 n := by
  rw [← BitVec.toNat_inj]
  simp only [BitVec.toNat_ofNat, BitVec.toNat_sub]
  omega

theorem ofNat_toNat_add {a : U64} {n : ℕ} :
    BitVec.ofNat 64 (a.toNat + n) = a + BitVec.ofNat 64 n := by
  rw [← BitVec.toNat_inj]
  simp

/-! ## Small steps -/

/-- The address of the instruction after one of `n` bytes. -/
def Guest.nextRip (g : Guest ω) (n : ℕ) : U64 := g.cpu.rip + BitVec.ofNat 64 n

@[simp] theorem getCpu_eq_ok {cpu : Cpu} :
    (getCpu : Interp ω Cpu) g = .ok cpu g' ↔ g' = g ∧ cpu = g.cpu := by
  rw [getCpu, RustM.bind_eq_ok]
  simp

@[simp] theorem modifyCpu_eq_ok {f : Cpu → Cpu} {u : Unit} :
    (modifyCpu f : Interp ω Unit) g = .ok u g' ↔ g' = { g with cpu := f g.cpu } := by
  simp [modifyCpu]

@[simp] theorem ripPlus_eq_ok {v : U64} :
    (ripPlus n : Interp ω U64) g = .ok v g' ↔
      g' = g ∧ g.cpu.rip.toNat + n < 2 ^ 64 ∧ g.cpu.rip + BitVec.ofNat 64 n = v := by
  rw [ripPlus, RustM.bind_eq_ok]
  simp

@[simp] theorem reading_eq_ok {α : Type} {f : List U8 → Rust RunError α} {a : α} :
    (reading f : Interp ω α) g = .ok a g' ↔ g' = g ∧ f g.mem = .ok a := by
  rw [reading, RustM.bind_eq_ok]
  simp

@[simp] theorem writing_eq_ok {f : List U8 → Rust RunError (List U8)} {u : Unit} :
    (writing f : Interp ω Unit) g = .ok u g' ↔
      ∃ mem, f g.mem = .ok mem ∧ g' = { g with mem := mem } := by
  rw [writing, RustM.bind_eq_ok]
  simp [RustM.bind_eq_ok]

@[simp] theorem ripAdd_eq_ok {u : Unit} :
    (ripAdd n : Interp ω Unit) g = .ok u g' ↔ g.cpu.rip.toNat + n < 2 ^ 64 ∧
      g' = { g with cpu := { g.cpu with rip := g.cpu.rip + BitVec.ofNat 64 n } } := by
  rw [ripAdd, RustM.bind_eq_ok]
  simp [RustM.bind_eq_ok]

@[simp] theorem next_eq_ok :
    (next n : Interp ω Bool) g = .ok stop g' ↔ (g.cpu.rip.toNat + n < 2 ^ 64 ∧
      g' = { g with cpu := { g.cpu with rip := g.cpu.rip + BitVec.ofNat 64 n } }) ∧
      stop = false := by
  rw [next, RustM.bind_eq_ok]
  simp

/-- The state after a register got a value and `rip` went on. -/
def Guest.assigned (g : Guest ω) (dst : Reg) (v : U64) (n : ℕ) : Guest ω :=
  { g with cpu := { g.cpu.put dst v with rip := g.cpu.rip + BitVec.ofNat 64 n } }

@[simp] theorem assign_eq_ok {dst : Reg} {v : U64} :
    (assign dst v n : Interp ω Bool) g = .ok stop g' ↔
      (g.cpu.rip.toNat + n < 2 ^ 64 ∧ g' = g.assigned dst v n) ∧ stop = false := by
  rw [assign, RustM.bind_eq_ok]
  simp [Guest.assigned]

theorem pushU64_eq_ok {v : U64} {u : Unit} :
    (pushU64 base v : Interp ω Unit) g = .ok u g' ↔ 8 ≤ g.cpu.rsp.toNat ∧
      ∃ mem, writeU64 base g.mem (g.cpu.rsp - 8) v = .ok mem ∧
        g' = { g with cpu := { g.cpu with rsp := g.cpu.rsp - 8 }, mem := mem } := by
  rw [pushU64, RustM.bind_eq_ok]
  simp only [getCpu_eq_ok, RustM.bind_eq_ok, RustM.lift_eq_ok, Rust.okOr_eq_ok, Rust.checkedSub,
    Option.ite_none_right_eq_some, writing_eq_ok, modifyCpu_eq_ok]
  constructor
  · rintro ⟨_, _, ⟨rfl, rfl⟩, _, _, ⟨⟨hle, h⟩, rfl⟩, _, _, ⟨mem, hw, rfl⟩, rfl⟩
    rw [← Option.some_inj.mp h, ofNat_toNat_sub hle] at hw ⊢
    exact ⟨hle, mem, hw, rfl⟩
  · rintro ⟨hle, mem, hw, rfl⟩
    refine ⟨_, _, ⟨rfl, rfl⟩, _, _, ⟨⟨hle, rfl⟩, rfl⟩, ⟨⟩, _, ⟨mem, ?_, rfl⟩, ?_⟩
    · rw [ofNat_toNat_sub hle]
      exact hw
    · rw [ofNat_toNat_sub hle]
      rfl

theorem popU64_eq_ok {v : U64} :
    (popU64 base : Interp ω U64) g = .ok v g' ↔ readU64 base g.mem g.cpu.rsp = .ok v ∧
      g.cpu.rsp.toNat + 8 < 2 ^ 64 ∧
        g' = { g with cpu := { g.cpu with rsp := g.cpu.rsp + 8 } } := by
  rw [popU64, RustM.bind_eq_ok]
  simp only [getCpu_eq_ok, RustM.bind_eq_ok, reading_eq_ok, RustM.lift_eq_ok, Rust.okOr_eq_ok,
    Rust.checkedAdd, Option.ite_none_right_eq_some, modifyCpu_eq_ok, RustM.pure_eq_ok]
  constructor
  · rintro ⟨_, _, ⟨rfl, rfl⟩, _, _, ⟨rfl, hv⟩, _, _, ⟨⟨hlt, h⟩, rfl⟩, _, _, rfl, rfl, rfl⟩
    rw [← Option.some_inj.mp h, ofNat_toNat_add]
    exact ⟨hv, hlt, rfl⟩
  · rintro ⟨hv, hlt, rfl⟩
    refine ⟨_, _, ⟨rfl, rfl⟩, _, _, ⟨rfl, hv⟩, _, _, ⟨⟨hlt, rfl⟩, rfl⟩, ⟨⟩, _, rfl, rfl, ?_⟩
    rw [ofNat_toNat_add]
    rfl

/-! ### In sequence -/

section Bind

variable {α β : Type} {a : β}

theorem bind_get (k : Guest ω → Interp ω β) : (get >>= k) g = k g g := rfl

theorem bind_getCpu (k : Cpu → Interp ω β) : (getCpu >>= k) g = k g.cpu g := rfl

theorem bind_modifyCpu (f : Cpu → Cpu) (k : Unit → Interp ω β) :
    (modifyCpu f >>= k) g = k () { g with cpu := f g.cpu } := rfl

theorem bind_lift_eq_ok {x : Rust RunError α} {k : α → Interp ω β} :
    (RustM.lift x >>= k) g = .ok a g' ↔ ∃ v, x = .ok v ∧ k v g = .ok a g' := by
  simp [RustM.bind_eq_ok]

theorem bind_ripPlus_eq_ok {k : U64 → Interp ω β} :
    (ripPlus n >>= k) g = .ok a g' ↔
      g.cpu.rip.toNat + n < 2 ^ 64 ∧ k (g.nextRip n) g = .ok a g' := by
  simp [RustM.bind_eq_ok, Guest.nextRip]

theorem bind_reading_eq_ok {f : List U8 → Rust RunError α} {k : α → Interp ω β} :
    (reading f >>= k) g = .ok a g' ↔ ∃ v, f g.mem = .ok v ∧ k v g = .ok a g' := by
  simp [RustM.bind_eq_ok]

theorem bind_writing_eq_ok {f : List U8 → Rust RunError (List U8)} {k : Unit → Interp ω β} :
    (writing f >>= k) g = .ok a g' ↔
      ∃ mem, f g.mem = .ok mem ∧ k () { g with mem := mem } = .ok a g' := by
  simp [RustM.bind_eq_ok, @Unique.exists_iff Unit]

theorem bind_pushU64_eq_ok {v : U64} {k : Unit → Interp ω β} :
    (pushU64 base v >>= k) g = .ok a g' ↔ 8 ≤ g.cpu.rsp.toNat ∧
      ∃ mem, writeU64 base g.mem (g.cpu.rsp - 8) v = .ok mem ∧
        k () { g with cpu := { g.cpu with rsp := g.cpu.rsp - 8 }, mem := mem } = .ok a g' := by
  simp [RustM.bind_eq_ok, pushU64_eq_ok, and_assoc, @Unique.exists_iff Unit]

theorem bind_popU64_eq_ok {k : U64 → Interp ω β} :
    (popU64 base >>= k) g = .ok a g' ↔ ∃ v, readU64 base g.mem g.cpu.rsp = .ok v ∧
      g.cpu.rsp.toNat + 8 < 2 ^ 64 ∧
        k v { g with cpu := { g.cpu with rsp := g.cpu.rsp + 8 } } = .ok a g' := by
  simp [RustM.bind_eq_ok, popU64_eq_ok, and_assoc]

end Bind

/-! ## Arms -/

section Arms

variable {c : Prop} [Decidable c]

@[simp] theorem arm_eq_some {body : Interp ω Bool} :
    arm c body g = .ok (some stop) g' ↔ c ∧ body g = .ok stop g' := by
  rw [arm]
  split
  · simp_all [RustM.map_eq_ok]
  · simp_all

@[simp] theorem arm_eq_none {body : Interp ω Bool} :
    arm c body g = .ok none g' ↔ ¬c ∧ g' = g := by
  rw [arm]
  split
  · simp_all [RustM.map_eq_ok]
  · simp_all

/-- An arm that falls through leaves the state alone. -/
def FallsThrough {α : Type} (a : Interp ω (Option α)) : Prop :=
  ∀ g g', a g = .ok none g' → g' = g

theorem fallsThrough_arm {body : Interp ω Bool} : FallsThrough (arm c body) :=
  fun _ _ h ↦ (arm_eq_none.mp h).2

theorem group1Arm_eq_ok {modrm : U8} {imm : U64} {o : Option Bool} :
    group1Arm modrm imm n g = .ok o g' ↔
      match group1 (regOf modrm) (getReg64 g.cpu (rmOf modrm)) imm with
      | some v => ∃ stop, ({ g with cpu := setReg64 g.cpu (rmOf modrm) v } |> next n) =
          .ok stop g' ∧ some stop = o
      | none => o = none ∧ g' = g := by
  rw [group1Arm, RustM.bind_eq_ok]
  constructor
  · rintro ⟨cpu, g, h₁, h⟩
    obtain ⟨rfl, rfl⟩ := getCpu_eq_ok.mp h₁
    cases hv : group1 (regOf modrm) (getReg64 g.cpu (rmOf modrm)) imm with
    | none => simpa [hv] using h
    | some v => simpa [hv, RustM.bind_eq_ok, RustM.map_eq_ok] using h
  · intro h
    refine ⟨g.cpu, g, getCpu_eq_ok.mpr ⟨rfl, rfl⟩, ?_⟩
    cases hv : group1 (regOf modrm) (getReg64 g.cpu (rmOf modrm)) imm with
    | none => simpa [hv] using h
    | some v => simpa [hv, RustM.bind_eq_ok, RustM.map_eq_ok] using h

theorem fallsThrough_group1Arm {modrm : U8} {imm : U64} :
    FallsThrough (group1Arm modrm imm n : Interp ω (Option Bool)) := by
  intro g g' h
  rw [group1Arm_eq_ok] at h
  split at h
  · simp at h
  · exact h.2

theorem fallsThrough_aluImm8Arm {b : Vector U8 8} :
    FallsThrough (aluImm8Arm b : Interp ω (Option Bool)) := by
  intro g g' h
  rw [aluImm8Arm] at h
  split at h
  · exact fallsThrough_group1Arm _ _ h
  · simpa using h

theorem fallsThrough_aluImm32Arm {b : Vector U8 8} :
    FallsThrough (aluImm32Arm base b : Interp ω (Option Bool)) := by
  intro g g' h
  rw [aluImm32Arm] at h
  split at h
  · obtain ⟨va, _, h₁, h₂⟩ := RustM.bind_eq_ok.mp h
    obtain ⟨imm, _, h₂, h₃⟩ := RustM.bind_eq_ok.mp h₂
    rw [fallsThrough_group1Arm _ _ h₃, (reading_eq_ok.mp h₂).1, (ripPlus_eq_ok.mp h₁).1]
  · simpa using h

theorem fallsThrough_movLoadArm {b : Vector U8 8} :
    FallsThrough (movLoadArm base b : Interp ω (Option Bool)) := by
  intro g g' h
  rw [movLoadArm] at h
  split at h
  · rw [RustM.bind_eq_ok] at h
    obtain ⟨cpu, g, h₁, h⟩ := h
    obtain ⟨rfl, rfl⟩ := getCpu_eq_ok.mp h₁
    cases ha : movLoadAddr g.cpu b[1] b[2] with
    | none => simpa [ha] using h
    | some addr => simp [ha, RustM.bind_eq_ok, RustM.map_eq_ok] at h
  · simpa using h

end Arms

/-! ## The chain -/

theorem arms_fall_through {syscall : Interp ω Bool} {b : Vector U8 8} :
    ∀ a ∈ arms syscall base b, FallsThrough a := by
  simp only [arms, setArm, movArm, zeroArm, pushArm, popArm, loadArm, movImmArm, leaRipArm,
    testArm, leaArm, movHighArm, movLowArm, storeImmArm, storeImmSpArm, jmpArm,
    jmpShortArm, jeArm, List.forall_mem_cons, fallsThrough_arm,
    fallsThrough_aluImm8Arm, fallsThrough_aluImm32Arm, fallsThrough_movLoadArm, true_and]
  simp

theorem firstArm_eq_ok {α : Type} {as : List (Interp ω (Option α))} {e : Fault RunError} {r : α}
    (has : ∀ a ∈ as, FallsThrough a) (h : firstArm as (throw e) g = .ok r g') :
    ∃ a ∈ as, a g = .ok (some r) g' := by
  induction as generalizing g with
  | nil => simp [firstArm, throw, throwThe, MonadExceptOf.throw, EStateM.throw] at h
  | cons a rest ih =>
    rw [firstArm, RustM.bind_eq_ok] at h
    obtain ⟨o, g₁, ha, h⟩ := h
    rcases o with _ | r'
    · obtain rfl := has a List.mem_cons_self g g₁ ha
      obtain ⟨a', ha', hr⟩ := ih (fun x hx ↦ has x (List.mem_cons_of_mem a hx)) h
      exact ⟨a', List.mem_cons_of_mem a ha', hr⟩
    · obtain ⟨rfl, rfl⟩ := RustM.pure_eq_ok.mp h
      exact ⟨a, List.mem_cons_self, ha⟩

/-- The bytes of guest memory from `rip` on. -/
def Guest.code (g : Guest ω) (base : U64) (i : ℕ) : U8 :=
  Window.view base g.mem (g.cpu.rip.toNat + i)

theorem peek_code (p k : ℕ) :
    peek (g.code base) p k = peek (Window.view base g.mem) (g.cpu.rip.toNat + p) k := by
  simp only [peek, Guest.code, Nat.add_assoc]

/-- A doubleword read at `rip + p` is the immediate the decoder finds there. -/
theorem readU32_nextRip {p : ℕ} {v : BitVec 32} (hp : g.cpu.rip.toNat + p < 2 ^ 64)
    (h : readU32 base g.mem (g.nextRip p) = .ok v) : imm32 (g.code base) p = v.signExtend 64 := by
  have hrip : (g.nextRip p).toNat = g.cpu.rip.toNat + p := by
    rw [Guest.nextRip, BitVec.toNat_add, BitVec.toNat_ofNat, Nat.add_mod_mod, Nat.mod_eq_of_lt hp]
  rw [imm32, readU32_eq_ok h, peek_code, hrip]

theorem readI32_nextRip {p : ℕ} {v : U64} (hp : g.cpu.rip.toNat + p < 2 ^ 64)
    (h : readI32 base g.mem (g.nextRip p) = .ok v) : imm32 (g.code base) p = v := by
  obtain ⟨w, hw, h⟩ := Rust.bind_eq_ok.mp h
  exact (readU32_nextRip hp hw).trans (Except.ok.inj h)

theorem readBytes_eq_ok {va : U64} {mem : List U8} {b : Vector U8 8}
    (h : readBytes base mem va = .ok b) (k : ℕ) (hk : k < 8) :
    b[k] = Window.view base mem (va.toNat + k) := by
  obtain ⟨i, hi, h⟩ := Rust.bind_eq_ok.mp h
  obtain ⟨hva, hlt⟩ := Window.index_eq_ok.mp hi
  obtain rfl := Except.ok.inj h
  rw [Window.view, if_pos (show base.toNat ≤ va.toNat + k by omega),
    show va.toNat + k - base.toNat = i + k by omega, Vector.getElem_ofFn]
  rcases Nat.lt_or_ge (i + k) mem.length with hik | hik
  · exact if_pos (show k < min 8 (mem.length - i) by omega)
  · rw [if_neg (show ¬k < min 8 (mem.length - i) by omega), List.getD_eq_getElem?_getD,
      List.getElem?_eq_none hik, Option.getD_none]

/-- **A completed step is one arm**, which has returned from the state before the step with the
bytes at `rip` before it. -/
theorem execOne_eq_ok {syscall : Interp ω Bool} (h : execOne syscall base g = .ok stop g') :
    ∃ b : Vector U8 8, (∀ k (hk : k < 8), b[k] = g.code base k) ∧
      ∃ a ∈ arms syscall base b, a g = .ok (some stop) g' := by
  obtain ⟨cpu, _, h₁, h⟩ := RustM.bind_eq_ok.mp h
  obtain ⟨rfl, rfl⟩ := getCpu_eq_ok.mp h₁
  obtain ⟨b, _, h₂, h⟩ := RustM.bind_eq_ok.mp h
  obtain ⟨rfl, h₂⟩ := reading_eq_ok.mp h₂
  exact ⟨b, readBytes_eq_ok h₂, firstArm_eq_ok arms_fall_through h⟩

end LeonOS
