import LeonOS.Elf.LoadSafe

/-!
# The initial stack

`build_initial_stack` in closed form.  From the top down there are the strings of the arguments, one
behind the other, the strings of the environment, and, from an address that is a multiple of 16, the
words.  All of it is one write of bytes, and another below (`StackAt`), and where it ends depends
only on the number of the strings and on their length (`buildInitialStack_ok`).
-/

set_option autoImplicit false

namespace LeonOS

open Bytes

namespace Elf

variable {ε : Type} {r : Runner ε} {base : U64} {mem mem' mem₁ bytes : List U8}
  {sp sp' sp₁ low stackTop i p : ℕ} {strs argv envp : List String} {words ptrs ptrs' : List ℕ}

/-! ## Strings and words as bytes -/

/-- The bytes of some strings, each with its terminator. -/
def cstrBytes (strs : List String) : List U8 := strs.flatMap fun s ↦ Rust.asBytes s ++ [0]

/-- Where the strings are when their bytes begin at an address. -/
def cstrPtrs : List String → ℕ → List ℕ
  | [], _ => []
  | s :: strs, p => p :: cstrPtrs strs (p + ((Rust.asBytes s).length + 1))

/-- The bytes of some words. -/
def wordBytes (words : List ℕ) : List U8 := words.flatMap (toLE 8)

theorem cstrBytes_cons (s : String) (strs : List String) :
    cstrBytes (s :: strs) = Rust.asBytes s ++ [0] ++ cstrBytes strs := by
  rw [cstrBytes, List.flatMap_cons, ← cstrBytes]

theorem cstrBytes_append (strs strs' : List String) :
    cstrBytes (strs ++ strs') = cstrBytes strs ++ cstrBytes strs' :=
  List.flatMap_append

theorem wordBytes_nil : wordBytes [] = [] := rfl

theorem wordBytes_append (words words' : List ℕ) :
    wordBytes (words ++ words') = wordBytes words ++ wordBytes words' :=
  List.flatMap_append

theorem wordBytes_cons (v : ℕ) (words : List ℕ) :
    wordBytes (v :: words) = toLE 8 v ++ wordBytes words := by
  rw [wordBytes, List.flatMap_cons, ← wordBytes]

theorem cstrBytes_nil : cstrBytes [] = [] := rfl

@[simp] theorem length_cstrBytes (strs : List String) :
    (cstrBytes strs).length = stringBytes strs := by
  induction strs with
  | nil => rfl
  | cons s strs ih =>
    rw [cstrBytes_cons, stringBytes_cons, List.length_append, List.length_append, ih]
    rfl

@[simp] theorem length_cstrPtrs (strs : List String) (p : ℕ) :
    (cstrPtrs strs p).length = strs.length := by
  induction strs generalizing p with
  | nil => rfl
  | cons s strs ih => rw [cstrPtrs, List.length_cons, List.length_cons, ih]

@[simp] theorem length_wordBytes (words : List ℕ) :
    (wordBytes words).length = words.length * 8 := by
  induction words with
  | nil => rfl
  | cons v words ih =>
    rw [wordBytes_cons, List.length_append, length_toLE, ih, List.length_cons]
    omega

/-! ## The loops -/

theorem pushCstr_ok (hsp : sp < 2 ^ 64) (h : pushCstr r base mem sp bytes = .ok (sp', mem')) :
    sp = sp' + (bytes.length + 1) ∧ base.toNat ≤ sp' ∧ sp ≤ base.toNat + mem.length ∧
      mem' = overwrite mem (sp' - base.toNat) (bytes ++ [0]) := by
  obtain ⟨len, hlen, h⟩ := Rust.bind_eq_ok.mp h
  obtain ⟨newSp, hnew, h⟩ := Rust.bind_eq_ok.mp h
  obtain ⟨start, haccess, h⟩ := Rust.bind_eq_ok.mp h
  obtain ⟨mem₁, hcopy, h⟩ := Rust.bind_eq_ok.mp h
  obtain ⟨mem₂, hset, h⟩ := Rust.bind_eq_ok.mp h
  obtain ⟨rfl, rfl⟩ := Prod.mk.inj (Except.ok.inj h)
  obtain ⟨-, rfl⟩ := Rust.add_eq_ok.mp hlen
  obtain ⟨hle, rfl⟩ := Rust.checkedSub_eq_some.mp (Rust.okOr_eq_ok.mp hnew)
  obtain ⟨-, rfl⟩ := Rust.copyFromSlice_eq_ok.mp hcopy
  obtain ⟨hva, -, hend⟩ := Window.access_bound haccess
  rw [toNat_ofNat_of_lt (by omega)] at hva
  have hmem₁ : (overwrite mem start bytes).length = mem.length := length_overwrite (by omega)
  rw [Rust.setIndex_of_lt (by omega), overwrite_overwrite_behind (by omega)] at hset
  obtain rfl := Except.ok.inj hset
  have hstart : sp - (bytes.length + 1) - base.toNat = start := by omega
  rw [hstart]
  exact ⟨by omega, by omega, by omega, rfl⟩

/-- **Some strings are pushed**: their bytes are written in one piece. -/
theorem pushCstrs_ok (hsp : sp < 2 ^ 64) (h : pushCstrs r base strs mem sp = .ok (ptrs, sp', mem')) :
    sp = sp' + stringBytes strs ∧ ptrs = cstrPtrs strs sp' ∧ mem'.length = mem.length ∧
      (strs ≠ [] → base.toNat ≤ sp' ∧ sp ≤ base.toNat + mem.length) ∧
      mem' = overwrite mem (sp' - base.toNat) (cstrBytes strs) := by
  induction strs generalizing ptrs sp' mem' with
  | nil =>
    obtain ⟨rfl, hpair⟩ := Prod.mk.inj (Except.ok.inj h)
    obtain ⟨rfl, rfl⟩ := Prod.mk.inj hpair
    exact ⟨rfl, rfl, rfl, fun h ↦ absurd rfl h, (overwrite_nil _ _).symm⟩
  | cons s strs ih =>
    obtain ⟨⟨ptrs, sp₁, mem₁⟩, hrest, h⟩ := Rust.bind_eq_ok.mp h
    obtain ⟨⟨sp₂, mem₂⟩, hpush, h⟩ := Rust.bind_eq_ok.mp h
    obtain ⟨rfl, hpair⟩ := Prod.mk.inj (Except.ok.inj h)
    obtain ⟨rfl, rfl⟩ := Prod.mk.inj hpair
    obtain ⟨hsp₁, hptrs, hlen₁, hbounds, hmem₁⟩ := ih hrest
    obtain ⟨hsp₂, hbase, htop, hmem₂⟩ := pushCstr_ok (by omega) hpush
    have hlen : (Rust.asBytes s ++ [0]).length = (Rust.asBytes s).length + 1 :=
      List.length_append
    have hend : sp ≤ base.toNat + mem.length := by
      rcases strs with _ | ⟨t, strs⟩
      · rw [stringBytes_nil] at hsp₁
        omega
      · exact (hbounds (List.cons_ne_nil t strs)).2
    refine ⟨by rw [stringBytes_cons]; omega, ?_, ?_, fun _ ↦ ⟨hbase, hend⟩, ?_⟩
    · rw [cstrPtrs, hptrs, hsp₂]
    · rw [hmem₂, length_overwrite (by omega), hlen₁]
    · have hstart : sp₁ - base.toNat = sp₂ - base.toNat + (Rust.asBytes s ++ [0]).length := by omega
      rw [hmem₂, hmem₁, hstart, overwrite_overwrite_before (by omega), cstrBytes_cons]

/-- The arguments are pushed, and then the environment. -/
theorem pushBoth_ok (hsp : sp < 2 ^ 64)
    (hargv : pushCstrs r base argv mem sp = .ok (ptrs, sp₁, mem₁))
    (henvp : pushCstrs r base envp mem₁ sp₁ = .ok (ptrs', low, mem')) :
    sp = low + stringBytes (envp ++ argv) ∧ ptrs = cstrPtrs argv (low + stringBytes envp) ∧
      ptrs' = cstrPtrs envp low ∧ mem'.length = mem.length ∧
      (envp ++ argv ≠ [] → base.toNat ≤ low ∧ sp ≤ base.toNat + mem.length) ∧
      mem' = overwrite mem (low - base.toNat) (cstrBytes (envp ++ argv)) := by
  obtain ⟨hsp₁, rfl, hlen₁, hargs, hmem₁⟩ := pushCstrs_ok hsp hargv
  obtain ⟨rfl, hptrs', hlen₂, henvs, hmem₂⟩ := pushCstrs_ok (by omega) henvp
  rcases eq_or_ne envp [] with rfl | hne
  · rw [stringBytes_nil, Nat.add_zero] at *
    rw [cstrBytes_nil, overwrite_nil] at hmem₂
    rw [List.nil_append, hmem₂]
    exact ⟨hsp₁, rfl, hptrs', hlen₁, hargs, hmem₁⟩
  · obtain ⟨hlow, hend⟩ := henvs hne
    have hle : sp ≤ base.toNat + mem.length := by
      rcases eq_or_ne argv [] with rfl | hargs'
      · rw [stringBytes_nil] at hsp₁
        omega
      · exact (hargs hargs').2
    have hstart : low + stringBytes envp - base.toNat =
        low - base.toNat + (cstrBytes envp).length := by
      rw [length_cstrBytes]
      omega
    refine ⟨by rw [stringBytes_append]; omega, rfl, hptrs', by omega, fun _ ↦ ⟨hlow, hle⟩, ?_⟩
    rw [hmem₂, hmem₁, hstart, overwrite_overwrite_before, cstrBytes_append]
    rw [length_cstrBytes]
    omega

theorem writeWords_ok (h : writeWords r base sp i words mem = .ok mem') :
    mem'.length = mem.length ∧
      (words ≠ [] → base.toNat ≤ sp + i * 8 ∧
        sp + (i + words.length) * 8 ≤ base.toNat + mem.length) ∧
      mem' = overwrite mem (sp + i * 8 - base.toNat) (wordBytes words) := by
  induction words generalizing i mem with
  | nil =>
    obtain rfl := Except.ok.inj h
    exact ⟨rfl, fun h ↦ absurd rfl h, (overwrite_nil _ _).symm⟩
  | cons v words ih =>
    obtain ⟨va, hva, h⟩ := Rust.bind_eq_ok.mp h
    obtain ⟨mem₁, hwrite, hrest⟩ := Rust.bind_eq_ok.mp h
    obtain ⟨j, hj, -, hend, rfl⟩ := Window.write_eq_ok hwrite
    obtain ⟨hlen₁, hbounds, rfl⟩ := ih hrest
    rw [length_overwrite hend] at hlen₁ hbounds
    obtain ⟨hlt, rfl⟩ := Rust.add_eq_ok.mp hva
    rw [length_toLE] at hend
    rw [toNat_ofNat_of_lt hlt] at hj
    refine ⟨hlen₁, fun _ ↦ ⟨by omega, ?_⟩, ?_⟩
    · rw [List.length_cons]
      rcases words with _ | ⟨w, words⟩
      · rw [List.length_nil]
        omega
      · have := (hbounds (List.cons_ne_nil w words)).2
        omega
    · have hstart : sp + (i + 1) * 8 - base.toNat = j + (toLE 8 v).length := by
        rw [length_toLE]
        omega
      have hfirst : sp + i * 8 - base.toNat = j := by omega
      rw [hstart, hfirst, overwrite_overwrite_behind (by rw [length_toLE]; omega), wordBytes_cons]

/-! ## The stack -/

/-- The words of the initial stack, for strings that begin at an address. -/
def stackBytes (low : ℕ) (argv envp : List String) : List U8 :=
  wordBytes (stackWords (cstrPtrs argv (low + stringBytes envp)) (cstrPtrs envp low))

theorem length_stackBytes (low : ℕ) (argv envp : List String) :
    (stackBytes low argv envp).length = (argv.length + envp.length + 7) * 8 := by
  rw [stackBytes, length_wordBytes, length_stackWords, length_cstrPtrs, length_cstrPtrs]

/-- What `build_initial_stack` makes of the memory. -/
structure StackAt (base : U64) (mem : List U8) (stackTop : ℕ) (argv envp : List String)
    (sp low : ℕ) (mem' : List U8) : Prop where
  /-- The strings end where the stack does. -/
  low_eq : low + stringBytes (envp ++ argv) = stackTop / 16 * 16
  /-- The words end where the strings begin, or a little below. -/
  sp_eq : sp + (argv.length + envp.length + 7) * 8 = low / 16 * 16
  /-- The words are in memory. -/
  base_le : base.toNat ≤ sp
  /-- All of them are. -/
  words_le : sp + (argv.length + envp.length + 7) * 8 ≤ base.toNat + mem.length
  /-- So are the strings, if there are any. -/
  strings_le : envp ++ argv ≠ [] → low + stringBytes (envp ++ argv) ≤ base.toNat + mem.length
  /-- Strings and words are all that is written. -/
  mem_eq : mem' = overwrite (overwrite mem (low - base.toNat) (cstrBytes (envp ++ argv)))
    (sp - base.toNat) (stackBytes low argv envp)
  /-- The length is the same. -/
  length_eq : mem'.length = mem.length

/-- **The initial stack in closed form**. -/
theorem buildInitialStack_ok (htop : stackTop < 2 ^ 64)
    (h : buildInitialStack r base mem stackTop argv envp = .ok (sp, mem')) :
    ∃ low, StackAt base mem stackTop argv envp sp low mem' := by
  obtain ⟨⟨argPtrs, sp₁, mem₁⟩, hargv, h⟩ := Rust.bind_eq_ok.mp h
  obtain ⟨⟨envPtrs, low, mem₂⟩, henvp, h⟩ := Rust.bind_eq_ok.mp h
  obtain ⟨n, hn, h⟩ := Rust.bind_eq_ok.mp h
  obtain ⟨sp₃, hsub, h⟩ := Rust.bind_eq_ok.mp h
  obtain ⟨mem₃, hwords, h⟩ := Rust.bind_eq_ok.mp h
  obtain ⟨rfl, rfl⟩ := Prod.mk.inj (Except.ok.inj h)
  obtain ⟨hlow, rfl, rfl, hlen₂, hstrings, rfl⟩ := pushBoth_ok (by omega) hargv henvp
  obtain ⟨hlen₃, hbounds, hmem₃⟩ := writeWords_ok hwords
  obtain ⟨hbase, hend⟩ := hbounds (List.cons_ne_nil _ _)
  obtain ⟨-, rfl⟩ := Rust.mul_eq_ok.mp hn
  obtain ⟨hle, rfl⟩ := Rust.checkedSub_eq_some.mp (Rust.okOr_eq_ok.mp hsub)
  rw [length_stackWords, length_cstrPtrs, length_cstrPtrs] at hend hle hbase hmem₃ ⊢
  rw [Nat.zero_add, hlen₂] at hend
  rw [Nat.zero_mul, Nat.add_zero] at hbase hmem₃
  refine ⟨low, hlow.symm, Nat.sub_add_cancel hle, hbase, hend, fun hne ↦ ?_, hmem₃,
    hlen₃.trans hlen₂⟩
  rw [← hlow]
  exact (hstrings hne).2

theorem StackAt.length_strings (h : StackAt base mem stackTop argv envp sp low mem') :
    (overwrite mem (low - base.toNat) (cstrBytes (envp ++ argv))).length = mem.length := by
  rcases eq_or_ne (envp ++ argv) [] with hnil | hne
  · rw [hnil, cstrBytes_nil, overwrite_nil]
  · have hend := h.strings_le hne
    have hsp := h.sp_eq
    have hbase := h.base_le
    rw [length_overwrite]
    rw [length_cstrBytes]
    omega

/-- Nothing below the stack pointer is written. -/
theorem StackAt.getElem?_of_lt (h : StackAt base mem stackTop argv envp sp low mem') {k : ℕ}
    (hk : base.toNat + k < sp) : mem'[k]? = mem[k]? := by
  have hlen := h.length_strings
  have hsp := h.sp_eq
  have hend := h.words_le
  have hbase := h.base_le
  rw [h.mem_eq, getElem?_overwrite (by rw [hlen, length_stackBytes]; omega), if_neg (by omega)]
  rcases eq_or_ne (envp ++ argv) [] with hnil | hne
  · rw [hnil, cstrBytes_nil, overwrite_nil]
  · have hstrings := h.strings_le hne
    rw [getElem?_overwrite (by rw [length_cstrBytes]; omega), if_neg (by omega)]

/-- `stack_top` is 16 bytes below the end of the memory. -/
theorem initialStack_ok (h : initialStack r base mem argv envp = .ok (sp, mem')) :
    base.toNat + mem.length < 2 ^ 64 ∧
      ∃ low, StackAt base mem (base.toNat + mem.length - 0x10) argv envp sp low mem' := by
  obtain ⟨memEnd, hend, h⟩ := Rust.bind_eq_ok.mp h
  obtain ⟨top, htop, h⟩ := Rust.bind_eq_ok.mp h
  obtain ⟨hlt, rfl⟩ := Rust.add_eq_ok.mp hend
  obtain ⟨-, rfl⟩ := Rust.sub_eq_ok.mp htop
  exact ⟨hlt, buildInitialStack_ok (by omega) h⟩

/-- **When the stack is aligned**: the words are an odd number of arguments and environment strings
and seven others, so that they are an even number of them. -/
theorem buildInitialStack_aligned_iff (stackTop : U64)
    (h : buildInitialStack r base mem stackTop.toNat argv envp = .ok (sp, mem')) :
    sp % 16 = 0 ↔ (argv.length + envp.length) % 2 = 1 := by
  obtain ⟨low, hstack⟩ := buildInitialStack_ok stackTop.isLt h
  have hsp := hstack.sp_eq
  omega

set_option maxRecDepth 4000 in
/-- With two arguments there are nine words. -/
theorem buildInitialStack_misaligned :
    (∃ sp mem, buildInitialStack linuxRunner 0x400000 (List.replicate 144 0) 0x400080 ["ls", "a"] [] =
      .ok (sp, mem) ∧ ¬ sp % 16 = 0) ∧
    ∃ sp mem, buildInitialStack nativeRunner 0x400000 (List.replicate 144 0) 0x400080 ["ls", "a"] [] =
      .ok (sp, mem) ∧ ¬ sp % 16 = 0 :=
  ⟨⟨0x400028, _, rfl, by decide⟩, 0x400028, _, rfl, by decide⟩

set_option maxRecDepth 4000 in
theorem buildInitialStack_aligned_iff_one : ∃ sp mem,
    buildInitialStack linuxRunner 0x400000 (List.replicate 144 0) (0x400080 : U64).toNat ["ls"] [] =
      .ok (sp, mem) ∧ (sp % 16 = 0 ↔ (["ls"].length + ([] : List String).length) % 2 = 1) := by
  obtain ⟨sp, mem, h⟩ : ∃ sp mem, buildInitialStack linuxRunner 0x400000 (List.replicate 144 0)
      (0x400080 : U64).toNat ["ls"] [] = .ok (sp, mem) := ⟨0x400030, _, rfl⟩
  exact ⟨sp, mem, h, buildInitialStack_aligned_iff 0x400080 h⟩

end Elf

end LeonOS
