import LeonOS.Elf.Code
import LeonOS.Elf.Segments
import LeonOS.Interp.Syscall
import LeonOS.Lib.Regions

/-!
# What a program finds on its stack

The initial stack is written by `build_initial_stack` and read by `read_user_cstr`,
`read_user_ptr_array` and `read_user_str_array`.

* `initialStack_arguments`: what is read is what was written, and no two pieces of it overlap.
* `keepsProgram_iff`: when what is written leaves the program alone.  There are `STACK_SIZE` bytes for
  it, but `push_cstr` and `write_u64` compare with the beginning of `mem`, which is that of the
  program.
-/

set_option autoImplicit false

namespace LeonOS

open Bytes Elf Window

variable {ε : Type} {r : Runner ε} {base : U64} {mem mem' bs : List U8} {a i n sp low p : ℕ}
  {s : String} {strs argv envp : List String} {words : List ℕ}

/-! ## Reading what is held -/

theorem readU8_of_holds {b : U8} (h : Holds base mem a [b])
    (hend : base.toNat + mem.length < 2 ^ 64) : readU8 base mem (BitVec.ofNat 64 a) = .ok b := by
  have hle := h.le
  obtain ⟨pre, post, rfl, rfl⟩ := h
  simp only [List.length_append, List.length_singleton] at hle hend
  have hindex : vaToIndex base (pre ++ ([b] ++ post))
      (BitVec.ofNat 64 (base.toNat + pre.length)) = .ok pre.length := by
    refine Window.index_eq_ok.mpr ⟨toNat_ofNat_of_lt (by omega), ?_⟩
    simp
  rw [readU8, hindex, Rust.ok_bind, Rust.index]
  simp

theorem readU64_of_holds (h : Holds base mem a (toLE 8 n))
    (hend : base.toNat + mem.length < 2 ^ 64) :
    readU64 base mem (BitVec.ofNat 64 a) = .ok (BitVec.ofNat 64 n) := by
  have hne : toLE 8 n ≠ [] := List.ne_nil_of_length_pos (by rw [length_toLE]; omega)
  obtain ⟨i, haccess, hslice⟩ := h.access_eq RunError.addressOutOfRange hne hend
  rw [length_toLE] at haccess hslice
  rw [readU64, haccess, Rust.ok_bind, hslice, ofLE_toLE]
  refine congrArg Except.ok (BitVec.eq_of_toNat_eq ?_)
  simp

/-- The scan for the zero byte. -/
theorem readUserCstrFrom_of_holds (pre : List U8)
    (h : Holds base mem (a + pre.length) (bs ++ [0])) (hnul : 0 ∉ bs) (hn : bs.length < n)
    (hend : base.toNat + mem.length < 2 ^ 64) :
    readUserCstrFrom base mem (BitVec.ofNat 64 a) n pre = .ok (Rust.fromUtf8 (pre ++ bs)) := by
  have hva : BitVec.ofNat 64 a + BitVec.ofNat 64 pre.length = BitVec.ofNat 64 (a + pre.length) :=
    (BitVec.ofNat_add ..).symm
  induction bs generalizing pre n with
  | nil =>
    obtain ⟨n, rfl⟩ := Nat.exists_eq_succ_of_ne_zero hn.ne'
    rw [readUserCstrFrom, hva, readU8_of_holds h hend, Rust.ok_bind, if_pos rfl, List.append_nil]
    rfl
  | cons b bs ih =>
    obtain ⟨n, rfl⟩ := Nat.exists_eq_succ_of_ne_zero (Nat.ne_zero_of_lt hn)
    rw [List.mem_cons, not_or] at hnul
    rw [List.cons_append, ← List.singleton_append, holds_append, Nat.add_assoc,
      ← List.length_append] at h
    rw [readUserCstrFrom, hva, readU8_of_holds h.1 hend, Rust.ok_bind, if_neg (Ne.symm hnul.1)]
    have hrest := ih (pre ++ [b]) h.2 hnul.2 (Nat.lt_of_succ_lt_succ hn) (BitVec.ofNat_add ..).symm
    rwa [List.append_assoc] at hrest

/-- A string that `execve` can read back. -/
def Short (s : String) : Prop := 0 ∉ Rust.asBytes s ∧ (Rust.asBytes s).length ≤ 4095

instance (s : String) : Decidable (Short s) := inferInstanceAs (Decidable (_ ∧ _))

theorem readUserCstr_of_holds (h : Holds base mem a (Rust.asBytes s ++ [0]))
    (hs : Short s) (ha : a ≠ 0) (hend : base.toNat + mem.length < 2 ^ 64) :
    readUserCstr base mem (BitVec.ofNat 64 a) = .ok (some s) := by
  have hle := h.le
  have hne : BitVec.ofNat 64 a ≠ 0 := by
    rw [ne_eq, ← BitVec.toNat_inj, toNat_ofNat_of_lt (by simp at hle; omega)]
    exact ha
  rw [readUserCstr, if_neg hne, readUserCstrFrom_of_holds [] h hs.1 (by have := hs.2; omega)
    hend, List.nil_append, Rust.fromUtf8_asBytes]

/-- The scan for the null pointer; a full array has none. -/
theorem readUserPtrsFrom_of_holds {ptrs : List ℕ}
    (h : Holds base mem (a + i * 8) (wordBytes (ptrs ++ [0])))
    (hptrs : ∀ p ∈ ptrs, p ≠ 0 ∧ p < 2 ^ 64) (hn : ptrs.length ≤ n)
    (hend : base.toNat + mem.length < 2 ^ 64) :
    readUserPtrsFrom base mem (BitVec.ofNat 64 a) n i = .ok (ptrs.map (BitVec.ofNat 64)) := by
  induction n generalizing i ptrs with
  | zero =>
    obtain rfl := List.length_eq_zero_iff.mp (Nat.le_zero.mp hn)
    rfl
  | succ n ih =>
    have hle := h.le
    have hadd : (Rust.addWord (BitVec.ofNat 64 a) (i * 8) : Rust RunError U64) =
        .ok (BitVec.ofNat 64 (a + i * 8)) := by
      rw [length_wordBytes, List.length_append, List.length_singleton] at hle
      exact Rust.addWord_eq_ok.mpr
        ⟨by rw [toNat_ofNat_of_lt (by omega)]; omega, (BitVec.ofNat_add ..).symm⟩
    rw [readUserPtrsFrom, hadd, Rust.ok_bind]
    cases ptrs with
    | nil =>
      rw [List.nil_append, wordBytes_cons, holds_append] at h
      have hzero : BitVec.ofNat 64 0 = 0 := rfl
      rw [readU64_of_holds h.1 hend, Rust.ok_bind, if_pos hzero]
      rfl
    | cons p ptrs =>
      rw [List.cons_append, wordBytes_cons, holds_append, length_toLE, Nat.add_assoc,
        ← Nat.succ_mul] at h
      obtain ⟨hne, hlt⟩ := hptrs p List.mem_cons_self
      have hword : BitVec.ofNat 64 p ≠ 0 := by
        rw [ne_eq, ← BitVec.toNat_inj, toNat_ofNat_of_lt hlt]
        exact hne
      rw [readU64_of_holds h.1 hend, Rust.ok_bind, if_neg hword,
        ih h.2 (fun q hq ↦ hptrs q (List.mem_cons_of_mem p hq)) (Nat.le_of_succ_le_succ hn)]
      rfl

theorem readUserStrs_of_holds (h : Holds base mem p (cstrBytes strs))
    (hstrs : ∀ s ∈ strs, Short s) (hp : p ≠ 0) (hend : base.toNat + mem.length < 2 ^ 64) :
    readUserStrs base mem ((cstrPtrs strs p).map (BitVec.ofNat 64)) = .ok strs := by
  induction strs generalizing p with
  | nil => rfl
  | cons s strs ih =>
    rw [cstrBytes_cons, holds_append, List.length_append, List.length_singleton] at h
    rw [cstrPtrs, List.map_cons, readUserStrs,
      readUserCstr_of_holds h.1 (hstrs s List.mem_cons_self) hp hend, Rust.ok_bind]
    dsimp only
    rw [ih h.2 (fun t ht ↦ hstrs t (List.mem_cons_of_mem s ht)) (by omega)]
    rfl

theorem mem_cstrPtrs {q : ℕ} (h : q ∈ cstrPtrs strs p) : p ≤ q ∧ q < p + stringBytes strs := by
  induction strs generalizing p with
  | nil => exact absurd h List.not_mem_nil
  | cons s strs ih =>
    rw [stringBytes_cons]
    rcases List.mem_cons.mp h with rfl | h
    · omega
    · have := ih h
      omega

/-- **An array of strings is read back**. -/
theorem readUserStrArray_of_holds (hptrs : Holds base mem a (wordBytes (cstrPtrs strs p ++ [0])))
    (hbytes : Holds base mem p (cstrBytes strs)) (hstrs : ∀ s ∈ strs, Short s)
    (hn : strs.length ≤ n) (ha : a ≠ 0) (hp : p ≠ 0) (hend : base.toNat + mem.length < 2 ^ 64) :
    readUserPtrArray base mem (BitVec.ofNat 64 a) n =
        .ok ((cstrPtrs strs p).map (BitVec.ofNat 64)) ∧
      readUserStrArray base mem (BitVec.ofNat 64 a) n = .ok strs := by
  have hle := hptrs.le
  have hle' := hbytes.le
  rw [length_wordBytes, List.length_append, List.length_singleton] at hle
  rw [length_cstrBytes] at hle'
  have hne : BitVec.ofNat 64 a ≠ 0 := by
    rw [ne_eq, ← BitVec.toNat_inj, toNat_ofNat_of_lt (by omega)]
    exact ha
  have hread : readUserPtrArray base mem (BitVec.ofNat 64 a) n =
      .ok ((cstrPtrs strs p).map (BitVec.ofNat 64)) := by
    rw [readUserPtrArray, if_neg hne]
    refine readUserPtrsFrom_of_holds (by rwa [Nat.zero_mul, Nat.add_zero]) (fun q hq ↦ ?_)
      (by rwa [length_cstrPtrs]) hend
    have := mem_cstrPtrs hq
    omega
  refine ⟨hread, ?_⟩
  rw [readUserStrArray, hread, Rust.ok_bind, readUserStrs_of_holds hbytes hstrs hp hend]

/-! ## The pieces of the stack -/

/-- The words, piece by piece. -/
structure StackWords (base : U64) (mem : List U8) (sp low : ℕ) (argv envp : List String) :
    Prop where
  /-- `argc`. -/
  argc : Holds base mem sp (toLE 8 argv.length)
  /-- The pointers to the arguments. -/
  argPtrs : Holds base mem (sp + 8)
    (wordBytes (cstrPtrs argv (low + stringBytes envp) ++ [0]))
  /-- The pointers to the environment. -/
  envPtrs : Holds base mem (sp + 8 * (argv.length + 2)) (wordBytes (cstrPtrs envp low ++ [0]))
  /-- The auxiliary vector. -/
  auxv : Holds base mem (sp + 8 * (argv.length + envp.length + 3))
    (wordBytes [atPagesz, 4096, atNull, 0])

theorem stackWords_of_holds (h : Holds base mem sp (stackBytes low argv envp)) :
    StackWords base mem sp low argv envp := by
  have hwords : stackBytes low argv envp = toLE 8 argv.length ++
      (wordBytes (cstrPtrs argv (low + stringBytes envp) ++ [0]) ++
        (wordBytes (cstrPtrs envp low ++ [0]) ++ wordBytes [atPagesz, 4096, atNull, 0])) := by
    simp [stackBytes, stackWords, wordBytes_nil, wordBytes_cons, wordBytes_append]
  rw [hwords, holds_append, holds_append, holds_append] at h
  obtain ⟨hargc, hargs, henvs, hauxv⟩ := h
  simp only [length_toLE, length_wordBytes, List.length_append, length_cstrPtrs,
    List.length_singleton] at hargs henvs hauxv
  refine ⟨hargc, hargs, ?_, ?_⟩
  · convert henvs using 1
    omega
  · convert hauxv using 1
    omega

/-- The strings and the words are held. -/
theorem Elf.StackAt.holds {stackTop : ℕ} (h : StackAt base mem stackTop argv envp sp low mem')
    (htop : stackTop ≤ base.toNat + mem.length) :
    Holds base mem' sp (stackBytes low argv envp) ∧
      Holds base mem' low (cstrBytes (envp ++ argv)) := by
  have hlen := h.length_strings
  have hlow := h.low_eq
  have hsp := h.sp_eq
  have hbase := h.base_le
  have hwords := length_stackBytes low argv envp
  have hstrings : (cstrBytes (envp ++ argv)).length = stringBytes (envp ++ argv) :=
    length_cstrBytes _
  have hsp' : base.toNat + (sp - base.toNat) = sp := by omega
  have hlow' : base.toNat + (low - base.toNat) = low := by omega
  have hstringsAt : Holds base (overwrite mem (low - base.toNat) (cstrBytes (envp ++ argv)))
      (base.toNat + (low - base.toNat)) (cstrBytes (envp ++ argv)) := holds_overwrite (by omega)
  have hwordsAt : Holds base mem' (base.toNat + (sp - base.toNat)) (stackBytes low argv envp) := by
    rw [h.mem_eq]
    exact holds_overwrite (by omega)
  rw [hsp'] at hwordsAt
  rw [hlow'] at hstringsAt
  refine ⟨hwordsAt, ?_⟩
  rw [h.mem_eq]
  exact hstringsAt.overwrite_below (by omega)

/-! ### Where the strings are -/

/-- The addresses of some strings, each with its terminator. -/
def stringRegions (ptrs : List ℕ) (strs : List String) : List Extent :=
  List.zipWith (fun p s ↦ ⟨p, (Rust.asBytes s).length + 1⟩) ptrs strs

theorem stringRegions_cons (p : ℕ) (s : String) (strs : List String) :
    stringRegions (cstrPtrs (s :: strs) p) (s :: strs) = ⟨p, (Rust.asBytes s).length + 1⟩ ::
      stringRegions (cstrPtrs strs (p + ((Rust.asBytes s).length + 1))) strs :=
  rfl

theorem stringRegions_within {reg : Extent} (h : reg ∈ stringRegions (cstrPtrs strs p) strs) :
    p ≤ reg.start ∧ reg.start + reg.length ≤ p + stringBytes strs := by
  induction strs generalizing p with
  | nil => exact absurd h List.not_mem_nil
  | cons s strs ih =>
    rw [stringRegions_cons] at h
    rw [stringBytes_cons]
    rcases List.mem_cons.mp h with rfl | h
    · exact ⟨le_rfl, by dsimp only; omega⟩
    · have := ih h
      omega

theorem stringRegions_apart (strs : List String) (p : ℕ) :
    (stringRegions (cstrPtrs strs p) strs).Pairwise fun reg reg' ↦
      Disjoint reg.addrs reg'.addrs := by
  induction strs generalizing p with
  | nil => exact .nil
  | cons s strs ih =>
    rw [stringRegions_cons]
    exact List.pairwise_cons.mpr
      ⟨fun reg hreg ↦ (Extent.disjoint_of_le (stringRegions_within hreg).1).symm, ih _⟩

/-- The words of the initial stack, and its strings. -/
def stackRegions (sp : ℕ) (argPtrs envPtrs : List ℕ) (argv envp : List String) : List Extent :=
  ⟨sp, (argv.length + envp.length + 7) * 8⟩ ::
    (stringRegions argPtrs argv ++ stringRegions envPtrs envp)

theorem stackRegions_apart (hsp : sp + (argv.length + envp.length + 7) * 8 ≤ low) :
    (stackRegions sp (cstrPtrs argv (low + stringBytes envp)) (cstrPtrs envp low) argv envp).Pairwise
      fun reg reg' ↦ Disjoint reg.addrs reg'.addrs := by
  refine List.pairwise_cons.mpr ⟨fun reg hreg ↦ (Extent.disjoint_of_le ?_).symm,
    List.pairwise_append.mpr ⟨stringRegions_apart _ _, stringRegions_apart _ _,
      fun reg hreg reg' hreg' ↦ Extent.disjoint_of_le ?_⟩⟩
  · rcases List.mem_append.mp hreg with hreg | hreg
    · have := (stringRegions_within hreg).1
      dsimp only
      omega
    · exact hsp.trans (stringRegions_within hreg).1
  · exact (stringRegions_within hreg').2.trans (stringRegions_within hreg).1

/-! ## What a program finds -/

/-- **The arguments and the environment are there**, and the auxiliary vector behind them. -/
structure ArgumentsAt (base : U64) (mem : List U8) (sp : ℕ) (argv envp : List String) : Prop where
  /-- The word at the stack pointer. -/
  argc : readU64 base mem (BitVec.ofNat 64 sp) = .ok (BitVec.ofNat 64 argv.length)
  /-- The array behind it. -/
  args : readUserStrArray base mem (BitVec.ofNat 64 (sp + 8)) 64 = .ok argv
  /-- Its end. -/
  argsEnd : readU64 base mem (BitVec.ofNat 64 (sp + 8 * (argv.length + 1))) = .ok 0
  /-- The next array. -/
  envs : readUserStrArray base mem (BitVec.ofNat 64 (sp + 8 * (argv.length + 2))) 64 = .ok envp
  /-- Its end. -/
  envsEnd : readU64 base mem (BitVec.ofNat 64 (sp + 8 * (argv.length + envp.length + 2))) = .ok 0
  /-- The pairs `(6, 4096)` and `(0, 0)`. -/
  auxv : ∀ i (hi : i < 4), readU64 base mem
    (BitVec.ofNat 64 (sp + 8 * (argv.length + envp.length + 3 + i))) = .ok ([6, 4096, 0, 0][i])
  /-- No string overlaps another, or the words. -/
  apart : ∀ argPtrs envPtrs, readUserPtrArray base mem (BitVec.ofNat 64 (sp + 8)) 64 = .ok argPtrs →
    readUserPtrArray base mem (BitVec.ofNat 64 (sp + 8 * (argv.length + 2))) 64 = .ok envPtrs →
      (stackRegions sp (argPtrs.map BitVec.toNat) (envPtrs.map BitVec.toNat) argv envp).Pairwise
        fun reg reg' ↦ Disjoint reg.addrs reg'.addrs

theorem readU64_of_words (h : Holds base mem a (wordBytes words)) (hi : i < words.length)
    (hend : base.toNat + mem.length < 2 ^ 64) :
    readU64 base mem (BitVec.ofNat 64 (a + 8 * i)) = .ok (BitVec.ofNat 64 words[i]) := by
  induction words generalizing a i with
  | nil => exact absurd hi (Nat.not_lt_zero i)
  | cons v words ih =>
    rw [wordBytes_cons, holds_append, length_toLE] at h
    cases i with
    | zero => exact readU64_of_holds h.1 hend
    | succ i =>
      have hrest := ih h.2 (Nat.lt_of_succ_lt_succ hi)
      rw [Nat.mul_succ, Nat.add_comm (8 * i), ← Nat.add_assoc]
      exact hrest

theorem map_toNat_cstrPtrs (h : p + stringBytes strs ≤ 2 ^ 64) :
    ((cstrPtrs strs p).map (BitVec.ofNat 64)).map BitVec.toNat = cstrPtrs strs p := by
  rw [List.map_map]
  refine (List.map_congr_left fun q hq ↦ ?_).trans (List.map_id _)
  exact toNat_ofNat_of_lt ((mem_cstrPtrs hq).2.trans_le h)

/-- The null pointer behind an array. -/
theorem readU64_of_ptrs (h : Holds base mem a (wordBytes (cstrPtrs strs p ++ [0])))
    (hend : base.toNat + mem.length < 2 ^ 64) :
    readU64 base mem (BitVec.ofNat 64 (a + 8 * strs.length)) = .ok 0 := by
  have hread := readU64_of_words (i := (cstrPtrs strs p).length) h (by simp) hend
  rw [List.getElem_concat_length rfl, length_cstrPtrs] at hread
  exact hread

/-- **Arguments survive the trip to the program**. -/
theorem initialStack_arguments (hargc : argv.length ≤ 64) (henvc : envp.length ≤ 64)
    (hargv : ∀ s ∈ argv, Short s) (henvp : ∀ s ∈ envp, Short s)
    (h : initialStack r base mem argv envp = .ok (sp, mem')) :
    ArgumentsAt base mem' sp argv envp := by
  obtain ⟨hend, low, hstack⟩ := initialStack_ok h
  have hlow := hstack.low_eq
  have hsp := hstack.sp_eq
  have hlen := hstack.length_eq
  obtain ⟨hwords, hstrings⟩ := hstack.holds (Nat.sub_le _ _)
  obtain ⟨hargcAt, hargPtrs, henvPtrs, hauxv⟩ := stackWords_of_holds hwords
  rw [← hlen] at hend
  rw [cstrBytes_append, holds_append, length_cstrBytes] at hstrings
  rw [stringBytes_append] at hlow
  obtain ⟨hargs, hargv⟩ := readUserStrArray_of_holds hargPtrs hstrings.2 hargv hargc (by omega)
    (by omega) hend
  obtain ⟨henvs, henvp⟩ := readUserStrArray_of_holds henvPtrs hstrings.1 henvp henvc (by omega)
    (by omega) hend
  refine ⟨readU64_of_holds hargcAt hend, hargv, ?_, henvp, ?_, fun i hi ↦ ?_,
    fun argPtrs envPtrs hargs' henvs' ↦ ?_⟩
  · have hnull := readU64_of_ptrs hargPtrs hend
    rwa [show sp + 8 + 8 * argv.length = sp + 8 * (argv.length + 1) by omega] at hnull
  · have hnull := readU64_of_ptrs henvPtrs hend
    rwa [show sp + 8 * (argv.length + 2) + 8 * envp.length =
      sp + 8 * (argv.length + envp.length + 2) by omega] at hnull
  · have hword := readU64_of_words hauxv hi hend
    rw [Nat.add_assoc, ← Nat.mul_add] at hword
    rw [hword]
    match i, hi with
    | 0, _ | 1, _ | 2, _ | 3, _ => rfl
  · obtain rfl := Except.ok.inj (hargs.symm.trans hargs')
    obtain rfl := Except.ok.inj (henvs.symm.trans henvs')
    rw [map_toNat_cstrPtrs (by omega), map_toNat_cstrPtrs (by omega)]
    exact stackRegions_apart (by omega)

set_option maxRecDepth 4000 in
/-- Two arguments, and a string of the environment. -/
theorem initialStack_arguments_two : ∃ sp mem,
    initialStack linuxRunner 0x400000 (List.replicate 192 0) ["ls", "a"] ["A=b"] = .ok (sp, mem) ∧
      ArgumentsAt 0x400000 mem sp ["ls", "a"] ["A=b"] := by
  obtain ⟨sp, mem, h⟩ : ∃ sp mem, initialStack linuxRunner 0x400000 (List.replicate 192 0)
      ["ls", "a"] ["A=b"] = .ok (sp, mem) := ⟨0x400050, _, rfl⟩
  exact ⟨sp, mem, h,
    initialStack_arguments (by decide) (by decide) (by decide) (by decide) h⟩

/-! ## Arguments that do not fit -/

/-- **The stack stays where it belongs**: the program is left alone, and what does not fit in the
area of the stack is an error. -/
structure KeepsProgram (r : Runner ε) (l : Elf.Layout) (mem : List U8) (argv envp : List String) :
    Prop where
  /-- The bytes of the program are the same. -/
  kept : ∀ sp mem', initialStack r (BitVec.ofNat 64 l.minVaddr) mem argv envp = .ok (sp, mem') →
    mem'.take (l.memLen r) = mem.take (l.memLen r)
  /-- What does not fit is refused. -/
  refused : ¬StackFits (l.minVaddr + l.memLen r) r.stackSize argv envp →
    ∃ e, initialStack r (BitVec.ofNat 64 l.minVaddr) mem argv envp = .error (.err e)

theorem Elf.StackAt.take_eq {stackTop n : ℕ} (h : StackAt base mem stackTop argv envp sp low mem')
    (hn : base.toNat + n ≤ sp) : mem'.take n = mem.take n := by
  apply List.ext_getElem?
  intro k
  rw [List.getElem?_take, List.getElem?_take]
  split
  · exact h.getElem?_of_lt (by omega)
  · rfl

/-- Where the stack begins, if it is written. -/
theorem Elf.StackAt.le_sp {n : ℕ} (h : StackAt base mem (base.toNat + mem.length - 0x10) argv envp sp
    low mem') (hn : n ≤ mem.length)
    (hfits : StackFits (base.toNat + n) (mem.length - n) argv envp) : base.toNat + n ≤ sp := by
  have hlow := h.low_eq
  have hsp := h.sp_eq
  have hsum : base.toNat + n + (mem.length - n) = base.toNat + mem.length := by omega
  rw [stringBytes_append] at hlow
  rw [StackFits, hsum] at hfits
  omega

/-- **When the stack stays where it belongs**: when it fits in its area, or does not even fit in the
memory of the program. -/
theorem keepsProgram_iff (r : Runner ε) (image : Image) (l : Elf.Layout) (mem : List U8)
    (argv envp : StrSlice) (h : loadImage r image.bytes = .ok (l, mem)) :
    KeepsProgram r l mem argv.strs envp.strs ↔
      StackFits (l.minVaddr + l.memLen r) r.stackSize argv.strs envp.strs ∨
        l.minVaddr + l.totalLen < 2 ^ 64 ∧
          ¬StackFits l.minVaddr l.totalLen argv.strs envp.strs := by
  obtain ⟨hlen, -, -⟩ := loadImage_getElem? image.length_lt h
  have hl := (loadImage_ok h).1
  have hvalid := layout_valid hl
  have hroom := r.room
  have hstack := hvalid.stack_le
  have hbase : (BitVec.ofNat 64 l.minVaddr).toNat = l.minVaddr := toNat_ofNat_of_lt hvalid.min_lt
  rcases Nat.lt_or_ge (l.minVaddr + l.totalLen) (2 ^ 64) with hend | hend
  · rcases initialStack_cases (r := r) argv envp (by rw [hbase, hlen]; exact hend)
      (by omega) with ⟨hfits, sp, mem', hrun⟩ | ⟨hnot, hrun⟩
    · rw [hbase, hlen] at hfits
      constructor
      · intro hkeeps
        refine .inl (not_not.mp fun harea ↦ ?_)
        obtain ⟨e, he⟩ := hkeeps.refused harea
        cases hrun.symm.trans he
      · rintro (harea | ⟨-, hnot⟩)
        · refine ⟨fun sp mem' hrun ↦ ?_, fun hnot ↦ absurd harea hnot⟩
          obtain ⟨-, low, hat⟩ := initialStack_ok hrun
          refine hat.take_eq (hat.le_sp (by rw [hlen]; exact Nat.sub_le _ _) ?_)
          rwa [hbase, hlen, Elf.Layout.memLen, Nat.sub_sub_self hstack]
        · exact absurd hfits hnot
    · rw [hbase, hlen] at hnot
      refine iff_of_true ⟨fun sp mem' hok ↦ ?_, fun _ ↦ ⟨_, hrun⟩⟩ (.inr ⟨hend, hnot⟩)
      cases hrun.symm.trans hok
  · -- the sum for `stack_top` overflows
    have hrun : initialStack r (BitVec.ofNat 64 l.minVaddr) mem argv.strs envp.strs =
        .error .panic := by
      rw [initialStack, Rust.add_of_le (by rw [hbase, hlen]; exact hend)]
      rfl
    constructor
    · intro hkeeps
      refine .inl (not_not.mp fun harea ↦ ?_)
      obtain ⟨e, he⟩ := hkeeps.refused harea
      cases hrun.symm.trans he
    · rintro (harea | ⟨hlt, -⟩)
      · exact ⟨fun sp mem' hok ↦ (by cases hrun.symm.trans hok), fun hnot ↦ absurd harea hnot⟩
      · exact absurd hlt (not_lt.mpr hend)

/-! ### Thirty-two arguments -/

/-- A string of letters. -/
def letters (n : ℕ) : String := String.ofList (List.replicate n 'a')

theorem asBytes_letters (n : ℕ) : Rust.asBytes (letters n) = List.replicate n 0x61 := by
  have hascii : ∀ b ∈ List.replicate n (0x61 : U8), b.toNat < 128 := fun b hb ↦ by
    rw [List.eq_of_mem_replicate hb]
    decide
  have hbytes := Rust.asBytes_ofList_ascii hascii
  rwa [List.map_replicate] at hbytes

theorem short_letters {n : ℕ} (h : n ≤ 4095) : Short (letters n) := by
  rw [Short, asBytes_letters]
  simpa using h

/-- Sixteen bytes of code. -/
def nops : List U8 := List.replicate 16 0x90

/-- A little more than 127 KiB of arguments. -/
def manyArgs : List String := letters 3775 :: List.replicate 31 (letters 4095)

theorem short_manyArgs {s : String} (h : s ∈ manyArgs) : Short s := by
  rcases List.mem_cons.mp h with rfl | h
  · exact short_letters (by decide)
  · rw [List.eq_of_mem_replicate h]
    exact short_letters le_rfl

theorem stringBytes_manyArgs : stringBytes manyArgs = 130752 := by
  rw [manyArgs, stringBytes_cons, stringBytes, List.map_replicate, asBytes_letters,
    asBytes_letters, List.length_replicate, List.length_replicate]
  rfl

/-- The slice of them. -/
def manySlice : StrSlice :=
  ⟨manyArgs, by decide, fun _ hs ↦ (short_manyArgs hs).2.trans_lt (by decide)⟩

set_option maxRecDepth 8000 in
theorem codeFile_nops : CodeFile nops := ⟨rfl, by decide⟩

theorem stackFits_manyArgs : StackFits codeAddr.toNat 131088 manyArgs [] := by
  have hstrings := stringBytes_manyArgs
  have haddr : codeAddr.toNat = 0x400000 := rfl
  have hargc : manyArgs.length = 32 := rfl
  rw [StackFits, stringBytes_nil, List.length_nil]
  omega

theorem sp_manyArgs (hlen : mem.length = 131088)
    (h : StackAt codeAddr mem (codeAddr.toNat + mem.length - 0x10) manyArgs [] sp low mem') :
    sp = codeAddr.toNat + 8 := by
  have hlow := h.low_eq
  have hsp := h.sp_eq
  have haddr : codeAddr.toNat = 0x400000 := rfl
  have hargc : manyArgs.length = 32 := rfl
  rw [stringBytes_append, stringBytes_nil, stringBytes_manyArgs, hlen, haddr] at hlow
  rw [hargc, List.length_nil] at hsp
  rw [haddr]
  omega

/-- `argc` is written over the second half of the code. -/
theorem manyArgs_overwrite : (∀ s ∈ manyArgs, Short s) ∧ manyArgs.length ≤ 64 ∧
    ∃ l mem sp mem', loadImage linuxRunner (codeFile nops) = .ok (l, mem) ∧
      initialStack linuxRunner (BitVec.ofNat 64 l.minVaddr) mem manyArgs [] = .ok (sp, mem') ∧
        ¬mem'.take (l.memLen linuxRunner) = mem.take (l.memLen linuxRunner) := by
  have hload := codeFile_nops.loadImage_eq
  have hlen : (nops ++ List.replicate linuxRunner.stackSize (0 : U8)).length = 131088 := by
    rw [List.length_append, List.length_replicate]
    rfl
  have hcode : (nops ++ List.replicate linuxRunner.stackSize (0 : U8))[8]? = some 0x90 := rfl
  generalize nops ++ List.replicate linuxRunner.stackSize (0 : U8) = mem at hload hlen hcode
  have hend : codeAddr.toNat + mem.length < 2 ^ 64 := by
    rw [hlen]
    decide
  rcases initialStack_cases (r := linuxRunner) manySlice .nil hend (by rw [hlen]; decide) with
    ⟨-, sp, mem', hrun⟩ | ⟨hnot, -⟩
  · change initialStack linuxRunner codeAddr mem manyArgs [] = .ok (sp, mem') at hrun
    refine ⟨fun s hs ↦ short_manyArgs hs, by decide, _, mem, sp, mem', hload, hrun, fun hsame ↦ ?_⟩
    obtain ⟨-, low, hat⟩ := initialStack_ok hrun
    have hsp := sp_manyArgs hlen hat
    obtain ⟨pre, post, hmem', hpre⟩ :=
      (stackWords_of_holds (hat.holds (Nat.sub_le _ _)).1).argc
    have hpre8 : pre.length = 8 := Nat.add_left_cancel (hpre.symm.trans hsp)
    have hfirst : mem'[8]? = some 32 := by
      rw [hmem', List.getElem?_append_right hpre8.le, hpre8]
      rfl
    have htake : (mem'.take 16)[8]? = (mem.take 16)[8]? := congrArg (·[8]?) hsame
    rw [List.getElem?_take_of_lt (by decide), List.getElem?_take_of_lt (by decide), hfirst,
      hcode] at htake
    exact absurd htake (by decide)
  · rw [hlen] at hnot
    exact absurd stackFits_manyArgs hnot

/-- The file. -/
def nopsFile : Image :=
  ⟨codeFile nops, by rw [codeFile, List.length_append, length_codeHeaders]; decide⟩

theorem keepsProgram_iff_nops : ∃ l mem, loadImage linuxRunner nopsFile.bytes = .ok (l, mem) ∧
    (KeepsProgram linuxRunner l mem manySlice.strs StrSlice.nil.strs ↔
      StackFits (l.minVaddr + l.memLen linuxRunner) linuxRunner.stackSize manySlice.strs
          StrSlice.nil.strs ∨
        l.minVaddr + l.totalLen < 2 ^ 64 ∧
          ¬StackFits l.minVaddr l.totalLen manySlice.strs StrSlice.nil.strs) :=
  ⟨_, _, codeFile_nops.loadImage_eq,
    keepsProgram_iff linuxRunner nopsFile _ _ manySlice .nil codeFile_nops.loadImage_eq⟩

end LeonOS
