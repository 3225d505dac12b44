import LeonOS.Lib.Runs
import LeonOS.Lib.Rust

/-!
# The heap

The bump allocator of `kernel/src/allocator.rs`, with any number of calls at once.  All its atomics
are sequentially consistent, so that a run is an interleaving of the loads, the stores and the
`compare_exchange` of the calls; what a call computes between two of them it computes on values of
its own.

* `alignUp` rounds an address up to the next multiple of an alignment (`alignUp_ok`).
* `HeapCall.step` is what one call does next, and `Heap.step` what the system does.
* `Heap.Ok` is the invariant: every block ends where `next` is or before.  A call that claims a
  block has seen that `next` is still the address that it rounded up, so its block begins behind
  all others (`Heap.Ok.step`).
-/

set_option autoImplicit false

namespace LeonOS

/-! ## Rounding up -/

/-- `align_up`. -/
def alignUp (addr align : ℕ) : Rust Empty ℕ := do
  let sum ← Rust.add addr align
  let last ← Rust.sub sum 1
  let mask ← Rust.sub align 1
  return (BitVec.ofNat 64 last &&& ~~~(BitVec.ofNat 64 mask)).toNat

/-- Clearing the low bits rounds down. -/
theorem and_not_mask {x k : ℕ} (hx : x < 2 ^ 64) (hk : k ≤ 63) :
    (BitVec.ofNat 64 x &&& ~~~(BitVec.ofNat 64 (2 ^ k - 1))).toNat = x / 2 ^ k * 2 ^ k := by
  apply Nat.eq_of_testBit_eq
  intro i
  rw [BitVec.testBit_toNat, Nat.testBit_mul_two_pow, Nat.testBit_div_two_pow, BitVec.getLsbD_and,
    BitVec.getLsbD_not, BitVec.getLsbD_ofNat, BitVec.getLsbD_ofNat, Nat.testBit_two_pow_sub_one]
  by_cases hi : i < 64
  · by_cases hki : k ≤ i
    · simp [hi, hki, Nat.sub_add_cancel hki]
    · simp only [hi, hki, decide_true, decide_false, Bool.true_and, Bool.false_and,
        show i < k by omega, Bool.not_true, Bool.and_false]
  · have hhigh : x.testBit (i - k + k) = false :=
      Nat.testBit_lt_two_pow (hx.trans_le (Nat.pow_le_pow_right (by omega) (by omega)))
    simp [hi, hhigh]

/-- **The least multiple** of an alignment that an address is not above. -/
structure IsAlignUp (addr align a : ℕ) : Prop where
  /-- It is a multiple. -/
  dvd : align ∣ a
  /-- It is not below. -/
  le : addr ≤ a
  /-- And it is the least. -/
  least : ∀ b, align ∣ b → addr ≤ b → a ≤ b

theorem isAlignUp_div {addr align : ℕ} (hpos : 0 < align) :
    IsAlignUp addr align ((addr + align - 1) / align * align) := by
  have hmod := Nat.div_add_mod (addr + align - 1) align
  have hlt := Nat.mod_lt (addr + align - 1) hpos
  rw [Nat.mul_comm] at hmod
  refine ⟨Nat.dvd_mul_left _ _, by omega, ?_⟩
  rintro b ⟨m, rfl⟩ hle
  rw [Nat.mul_comm align m]
  refine Nat.mul_le_mul_right _ (Nat.le_of_lt_succ ?_)
  rw [Nat.div_lt_iff_lt_mul hpos, Nat.succ_mul, Nat.mul_comm m]
  omega

/-- **`align_up` finds it**, unless the sum overflows. -/
theorem alignUp_ok {addr k : ℕ} (hk : k ≤ 63) (hsum : addr + 2 ^ k < 2 ^ 64) :
    ∃ a, alignUp addr (2 ^ k) = .ok a ∧ IsAlignUp addr (2 ^ k) a := by
  have hpos : 0 < 2 ^ k := Nat.two_pow_pos k
  refine ⟨_, ?_, isAlignUp_div hpos⟩
  rw [alignUp, Rust.add_of_lt hsum, Rust.ok_bind, Rust.sub_of_le (by omega), Rust.ok_bind,
    Rust.sub_of_le (by omega), Rust.ok_bind, and_not_mask (by omega) hk]
  rfl

theorem alignUp_overflow {addr align : ℕ} (hsum : 2 ^ 64 ≤ addr + align) :
    alignUp addr align = Rust.panicked := by
  rw [alignUp, Rust.add_of_le hsum]
  rfl

/-! ## Calls -/

/-- A valid `Layout`. -/
structure Layout where
  /-- `size()`. -/
  size : ℕ
  /-- `align()`. -/
  align : ℕ
  /-- The alignment is a power of two. -/
  isPow : ∃ k ≤ 63, align = 2 ^ k
  /-- Rounded up to the alignment, the size is at most `isize::MAX`. -/
  rounded : (size + align - 1) / align * align ≤ 2 ^ 63 - 1

/-- `BumpAllocator`. -/
structure BumpAllocator where
  /-- `heap_start`. -/
  heapStart : ℕ
  /-- `heap_end`. -/
  heapEnd : ℕ
  /-- `next`. -/
  next : ℕ
  /-- `initialized`. -/
  initialized : Bool

/-- `BumpAllocator::new`. -/
def BumpAllocator.new : BumpAllocator := ⟨0, 0, 0, false⟩

/-- What `init` is given. -/
structure Region where
  /-- `heap_start`. -/
  start : ℕ
  /-- `heap_size`. -/
  size : ℕ
  /-- The heap is not at zero. -/
  start_pos : 0 < start
  /-- Its end is not above the lower half of the address space. -/
  stop_le : start + size ≤ 2 ^ 63

/-- The end of the heap. -/
def Region.stop (r : Region) : ℕ := r.start + r.size

/-- Where `init` is. -/
inductive InitStage where
  | called
  | storedStart
  | storedEnd
  | storedNext
  | done
  deriving DecidableEq

/-- The next store of `init`. -/
def Region.init (r : Region) (bump : BumpAllocator) : InitStage → InitStage × BumpAllocator
  | .called => (.storedStart, { bump with heapStart := r.start })
  | .storedStart => (.storedEnd, { bump with heapEnd := r.stop })
  | .storedEnd => (.storedNext, { bump with next := r.start })
  | .storedNext | .done => (.done, { bump with initialized := true })

/-- A call of the allocator. -/
inductive HeapCall where
  | alloc (layout : Layout)
  | dealloc (ptr : ℕ) (layout : Layout)

/-- Where a call is.  The null pointer is 0. -/
inductive CallStage where
  | called
  /-- `initialized` was true. -/
  | checked
  /-- `heap_end` was loaded. -/
  | bounded (heapEnd : ℕ)
  /-- `next` was loaded, or returned by a `compare_exchange` that failed. -/
  | trying (heapEnd current : ℕ)
  | returned (ptr : ℕ)
  | freed
  | panicked
  deriving DecidableEq

/-- `alloc_start` and `alloc_end` of a round of the loop; none when the block does not fit. -/
def Layout.place (layout : Layout) (heapEnd current : ℕ) : Rust Empty (Option (ℕ × ℕ)) := do
  let allocStart ← alignUp current layout.align
  match Rust.checkedAdd allocStart layout.size with
  | none => return none
  | some allocEnd =>
    if allocEnd > heapEnd then
      return none
    return some (allocStart, allocEnd)

/-- What a call does next. -/
def HeapCall.step (bump : BumpAllocator) : HeapCall → CallStage → CallStage × BumpAllocator
  | .dealloc _ _, _ => (.freed, bump)
  | .alloc _, .called => (if bump.initialized then .checked else .returned 0, bump)
  | .alloc _, .checked => (.bounded bump.heapEnd, bump)
  | .alloc _, .bounded heapEnd => (.trying heapEnd bump.next, bump)
  | .alloc layout, .trying heapEnd current =>
    match layout.place heapEnd current with
    | .error _ => (.panicked, bump)
    | .ok none => (.returned 0, bump)
    | .ok (some (allocStart, allocEnd)) =>
      if bump.next = current then
        (.returned allocStart, { bump with next := allocEnd })
      else (.trying heapEnd bump.next, bump)
  | .alloc _, stage => (stage, bump)

/-- The allocator and all that use it. -/
structure Heap (ι : Type) where
  /-- The atomics. -/
  bump : BumpAllocator
  /-- Where `init` is. -/
  init : InitStage
  /-- Where the calls are. -/
  stage : ι → CallStage

/-- Who takes the next step. -/
inductive HeapEvent (ι : Type) where
  | init
  | call (i : ι)

namespace Heap

variable {ι : Type} [DecidableEq ι]

/-- Before the first step. -/
def new : Heap ι := ⟨.new, .called, fun _ ↦ .called⟩

/-- A step of the system. -/
def step (r : Region) (calls : ι → HeapCall) (e : HeapEvent ι) (h : Heap ι) : Heap ι :=
  match e with
  | .init =>
    let (init, bump) := r.init h.bump h.init
    { h with init, bump }
  | .call i =>
    let (stage, bump) := (calls i).step h.bump (h.stage i)
    { h with bump, stage := Function.update h.stage i stage }

/-- The state after some steps. -/
def run (r : Region) (calls : ι → HeapCall) (es : List (HeapEvent ι)) : Heap ι :=
  Runs.exec (step r calls) new es

end Heap

/-! ## What a call does -/

variable {layout : Layout} {heapEnd current : ℕ}

theorem Layout.place_ok {allocStart allocEnd : ℕ}
    (h : layout.place heapEnd current = .ok (some (allocStart, allocEnd))) :
    IsAlignUp current layout.align allocStart ∧ allocEnd = allocStart + layout.size ∧
      allocEnd ≤ heapEnd := by
  obtain ⟨k, hk, hpow⟩ := layout.isPow
  rw [place, hpow] at h
  rcases Nat.lt_or_ge (current + 2 ^ k) (2 ^ 64) with hsum | hsum
  · obtain ⟨a, halign, ha⟩ := alignUp_ok hk hsum
    rw [halign, Rust.ok_bind, Rust.checkedAdd] at h
    split at h
    · cases h
    · rename_i hadd
      split at h
      · cases h
      · obtain ⟨rfl, rfl⟩ := Prod.mk.inj (Option.some_inj.mp (Except.ok.inj h))
        rw [Option.ite_none_right_eq_some, Option.some_inj] at hadd
        rw [hpow]
        exact ⟨ha, hadd.2.symm, by omega⟩
  · rw [alignUp_overflow hsum] at h
    cases h

/-- Below `2 ^ 63` only the largest alignment overflows, at the end of the largest heap. -/
theorem Layout.place_error {e : Fault Empty} (hcurrent : current ≤ 2 ^ 63)
    (h : layout.place heapEnd current = .error e) : layout.align = 2 ^ 63 ∧ current = 2 ^ 63 := by
  obtain ⟨k, hk, hpow⟩ := layout.isPow
  have hle : 2 ^ k ≤ 2 ^ 63 := Nat.pow_le_pow_right (by decide) hk
  rw [place, hpow] at h
  rcases Nat.lt_or_ge (current + 2 ^ k) (2 ^ 64) with hsum | hsum
  · obtain ⟨a, halign, -⟩ := alignUp_ok hk hsum
    rw [halign, Rust.ok_bind, Rust.checkedAdd] at h
    split at h
    · cases h
    · split at h <;> cases h
  · rw [hpow]
    omega

/-! ## The invariant -/

/-- The atomics while `init` runs. -/
def InitStage.Ok (r : Region) (bump : BumpAllocator) : InitStage → Prop
  | .called | .storedStart => bump.initialized = false ∧ bump.next = 0
  | .storedEnd => bump.initialized = false ∧ bump.next = 0 ∧ bump.heapEnd = r.stop
  | .storedNext => bump.initialized = false ∧ bump.next = r.start ∧ bump.heapEnd = r.stop
  | .done => r.start ≤ bump.next ∧ bump.next ≤ r.stop ∧ bump.heapEnd = r.stop

/-- What a call holds: values that it has loaded, or a block. -/
def CallStage.Ok (r : Region) (init : InitStage) (next : ℕ) (call : HeapCall) : CallStage → Prop
  | .called | .freed => True
  | .checked => init = .done
  | .bounded heapEnd => init = .done ∧ heapEnd = r.stop
  | .trying heapEnd current =>
    init = .done ∧ heapEnd = r.stop ∧ r.start ≤ current ∧ current ≤ next
  | .returned ptr => ∀ layout, call = .alloc layout → ptr ≠ 0 →
    layout.align ∣ ptr ∧ r.start ≤ ptr ∧ ptr + layout.size ≤ next
  | .panicked => ∃ layout, call = .alloc layout ∧ layout.align = 2 ^ 63 ∧ 2 ^ 63 ≤ next

variable {ι : Type} {r : Region} {calls : ι → HeapCall} {h : Heap ι}
  {bump : BumpAllocator} {init : InitStage} {call : HeapCall} {stage : CallStage}

theorem Region.start_le_stop (r : Region) : r.start ≤ r.stop := Nat.le_add_right _ _

theorem InitStage.Ok.next_le (h : init.Ok r bump) : bump.next ≤ r.stop := by
  have hstop := r.start_le_stop
  cases init with
  | called | storedStart => exact h.2.trans_le (Nat.zero_le _)
  | storedEnd => exact h.2.1.trans_le (Nat.zero_le _)
  | storedNext => exact h.2.1.trans_le hstop
  | done => exact h.2.1

theorem InitStage.Ok.eq_done (h : init.Ok r bump) (hinit : bump.initialized = true) :
    init = .done := by
  cases init with
  | done => rfl
  | called | storedStart | storedEnd | storedNext =>
    exact absurd (hinit.symm.trans h.1) (by decide)

/-- A store of `init`. -/
theorem InitStage.Ok.step (h : init.Ok r bump) :
    (r.init bump init).1.Ok r (r.init bump init).2 ∧ bump.next ≤ (r.init bump init).2.next ∧
      (init = .done → (r.init bump init).1 = .done) := by
  have hstop := r.start_le_stop
  cases init with
  | called => exact ⟨h, le_rfl, nofun⟩
  | storedStart => exact ⟨⟨h.1, h.2, rfl⟩, le_rfl, nofun⟩
  | storedEnd => exact ⟨⟨h.1, rfl, h.2.2⟩, h.2.1.trans_le (Nat.zero_le _), nofun⟩
  | storedNext => exact ⟨⟨h.2.1.ge, h.2.1.trans_le hstop, h.2.2⟩, le_rfl, nofun⟩
  | done => exact ⟨h, le_rfl, fun _ ↦ rfl⟩

/-- What a call holds stays good while others take steps. -/
theorem CallStage.Ok.mono {init' : InitStage} {next next' : ℕ} (h : stage.Ok r init next call)
    (hinit : init = .done → init' = .done) (hnext : next ≤ next') :
    stage.Ok r init' next' call := by
  cases stage with
  | called | freed => trivial
  | checked => exact hinit h
  | bounded heapEnd => exact ⟨hinit h.1, h.2⟩
  | trying heapEnd current => exact ⟨hinit h.1, h.2.1, h.2.2.1, h.2.2.2.trans hnext⟩
  | returned ptr =>
    intro layout hcall hptr
    obtain ⟨hdvd, hstart, hend⟩ := h layout hcall hptr
    exact ⟨hdvd, hstart, hend.trans hnext⟩
  | panicked =>
    obtain ⟨layout, hcall, halign, hle⟩ := h
    exact ⟨layout, hcall, halign, hle.trans hnext⟩

/-- **What one step of a call can do**: go on with the atomics as they are, owning no block that it
did not own before, or claim a block that begins at `next` or behind. -/
inductive Took (r : Region) (init : InitStage) (bump : BumpAllocator) (call : HeapCall)
    (stage : CallStage) : CallStage × BumpAllocator → Prop
  | loaded {stage' : CallStage} (hok : stage'.Ok r init bump.next call)
      (hown : ∀ ptr, stage' = .returned ptr → ptr = 0 ∨ stage = .returned ptr) :
      Took r init bump call stage (stage', bump)
  | claimed {layout : Layout} {ptr : ℕ} (hcall : call = .alloc layout) (hinit : init = .done)
      (hstart : bump.next ≤ ptr) (halign : layout.align ∣ ptr) (hend : ptr + layout.size ≤ r.stop) :
      Took r init bump call stage (.returned ptr, { bump with next := ptr + layout.size })

theorem HeapCall.step_took (hinit : init.Ok r bump) (h : stage.Ok r init bump.next call) :
    Took r init bump call stage (call.step bump stage) := by
  cases call with
  | dealloc ptr layout => exact .loaded trivial nofun
  | alloc layout =>
    cases stage with
    | called =>
      rw [HeapCall.step]
      by_cases hready : bump.initialized = true
      · rw [if_pos hready]
        exact .loaded (hinit.eq_done hready) nofun
      · rw [if_neg hready]
        exact .loaded (fun _ _ hptr ↦ absurd rfl hptr) fun ptr hptr ↦
          .inl (CallStage.returned.inj hptr).symm
    | checked =>
      obtain rfl : init = .done := h
      exact .loaded ⟨rfl, hinit.2.2⟩ nofun
    | bounded heapEnd =>
      obtain ⟨rfl, hend⟩ := h
      exact .loaded ⟨rfl, hend, hinit.1, le_rfl⟩ nofun
    | trying heapEnd current =>
      obtain ⟨rfl, hend, hstart, hcurrent⟩ := h
      have hstop := r.stop_le
      have hnext := hinit.2.1
      rw [HeapCall.step]
      cases hplace : layout.place heapEnd current with
      | error e =>
        obtain ⟨halign, hlast⟩ := layout.place_error (hcurrent.trans (hnext.trans hstop)) hplace
        exact .loaded ⟨layout, rfl, halign, hlast ▸ hcurrent⟩ nofun
      | ok block =>
        cases block with
        | none =>
          exact .loaded (fun _ _ hptr ↦ absurd rfl hptr) fun ptr hptr ↦
            .inl (CallStage.returned.inj hptr).symm
        | some block =>
          obtain ⟨allocStart, allocEnd⟩ := block
          obtain ⟨halign, rfl, hfit⟩ := layout.place_ok hplace
          dsimp only
          by_cases hsame : bump.next = current
          · rw [if_pos hsame]
            exact .claimed rfl rfl (hsame ▸ halign.le) halign.dvd (hend ▸ hfit)
          · rw [if_neg hsame]
            exact .loaded ⟨rfl, hend, hinit.1, le_rfl⟩ nofun
    | returned ptr => exact .loaded h fun ptr' hptr ↦ .inr hptr
    | freed => exact .loaded trivial nofun
    | panicked => exact .loaded h nofun

/-- Call `i` has returned a block. -/
structure Heap.Owns (h : Heap ι) (calls : ι → HeapCall) (i : ι) (layout : Layout) (ptr : ℕ) :
    Prop where
  /-- It was called for one. -/
  call : calls i = .alloc layout
  /-- It has returned. -/
  returned : h.stage i = .returned ptr
  /-- Not with null. -/
  ne_null : ptr ≠ 0

/-- **The invariant of the heap.** -/
structure Heap.Ok (r : Region) (calls : ι → HeapCall) (h : Heap ι) : Prop where
  /-- The atomics are those of `init`. -/
  init : h.init.Ok r h.bump
  /-- All calls hold what is good. -/
  stage : ∀ i, (h.stage i).Ok r h.init h.bump.next (calls i)
  /-- No two blocks overlap. -/
  disjoint : ∀ (i j : ι) (layout layout' : Layout) (ptr ptr' : ℕ), i ≠ j →
    h.Owns calls i layout ptr → h.Owns calls j layout' ptr' →
      ptr + layout.size ≤ ptr' ∨ ptr' + layout'.size ≤ ptr

theorem Heap.Owns.end_le {i : ι} {layout : Layout} {ptr : ℕ} (hok : h.Ok r calls)
    (hown : h.Owns calls i layout ptr) : ptr + layout.size ≤ h.bump.next := by
  have hstage := hok.stage i
  rw [hown.returned] at hstage
  exact (hstage layout hown.call hown.ne_null).2.2

theorem Heap.Owns.of_update [DecidableEq ι] {i j : ι} {layout : Layout} {ptr : ℕ}
    (hown : (Heap.mk bump init (Function.update h.stage i stage)).Owns calls j layout ptr) :
    (j = i ∧ stage = .returned ptr) ∨ (j ≠ i ∧ h.Owns calls j layout ptr) := by
  have hreturned := hown.returned
  dsimp only at hreturned
  by_cases hj : j = i
  · rw [hj, Function.update_self] at hreturned
    exact .inl ⟨hj, hreturned⟩
  · rw [Function.update_of_ne hj] at hreturned
    exact .inr ⟨hj, hown.call, hreturned, hown.ne_null⟩

theorem Heap.Ok.new : (Heap.new : Heap ι).Ok r calls where
  init := ⟨rfl, rfl⟩
  stage _ := trivial
  disjoint _ _ _ _ _ _ _ hown := nomatch hown.returned

/-- **A step keeps it**, and `next` does not decrease. -/
theorem Heap.Ok.step [DecidableEq ι] (hok : h.Ok r calls) (e : HeapEvent ι) :
    (h.step r calls e).Ok r calls ∧ h.bump.next ≤ (h.step r calls e).bump.next := by
  cases e with
  | init =>
    obtain ⟨hinit, hnext, hdone⟩ := hok.init.step
    refine ⟨⟨hinit, fun i ↦ (hok.stage i).mono hdone hnext, ?_⟩, hnext⟩
    intro i j layout layout' ptr ptr' hne hi hj
    exact hok.disjoint i j layout layout' ptr ptr' hne ⟨hi.1, hi.2, hi.3⟩ ⟨hj.1, hj.2, hj.3⟩
  | call i =>
    have htook := HeapCall.step_took hok.init (hok.stage i)
    rw [Heap.step]
    generalize (calls i).step h.bump (h.stage i) = x at htook
    cases htook with
    | @loaded stage' hstage hown =>
      refine ⟨⟨hok.init, ?_, ?_⟩, le_rfl⟩
      · intro j
        by_cases hj : j = i
        · rw [hj]
          simpa only [Function.update_self] using hstage
        · simpa only [Function.update_of_ne hj] using hok.stage j
      · have hold {j : ι} {layout : Layout} {ptr : ℕ}
            (hj : (Heap.mk h.bump h.init (Function.update h.stage i stage')).Owns calls j layout
              ptr) : h.Owns calls j layout ptr := by
          rcases hj.of_update with ⟨rfl, hreturned⟩ | ⟨-, hold⟩
          · exact ⟨hj.call, (hown ptr hreturned).resolve_left hj.ne_null, hj.ne_null⟩
          · exact hold
        intro j j' layout layout' ptr ptr' hne hj hj'
        exact hok.disjoint j j' layout layout' ptr ptr' hne (hold hj) (hold hj')
    | @claimed layout ptr hcall hinit hstart halign hend =>
      have hfrom := hok.init
      rw [hinit] at hfrom
      have hgrow : h.bump.next ≤ ptr + layout.size := hstart.trans (Nat.le_add_right _ _)
      refine ⟨⟨?_, ?_, ?_⟩, hgrow⟩
      · dsimp only
        rw [hinit]
        exact ⟨hfrom.1.trans hgrow, hend, hfrom.2.2⟩
      · intro j
        by_cases hj : j = i
        · rw [hj]
          dsimp only
          rw [Function.update_self]
          rintro layout' hcall' hptr
          obtain rfl := HeapCall.alloc.inj (hcall.symm.trans hcall')
          exact ⟨halign, hfrom.1.trans hstart, le_rfl⟩
        · simpa only [Function.update_of_ne hj] using (hok.stage j).mono id hgrow
      · have hbelow {j : ι} {layout' : Layout} {ptr' : ℕ} (hj : h.Owns calls j layout' ptr') :
            ptr' + layout'.size ≤ ptr := (hj.end_le hok).trans hstart
        intro j j' layout₁ layout₂ ptr₁ ptr₂ hne hj hj'
        rcases hj.of_update with ⟨rfl, hptr⟩ | ⟨-, hold⟩
        · obtain rfl := CallStage.returned.inj hptr
          rcases hj'.of_update with ⟨rfl, -⟩ | ⟨-, hold'⟩
          · exact absurd rfl hne
          · exact .inr (hbelow hold')
        · rcases hj'.of_update with ⟨rfl, hptr⟩ | ⟨-, hold'⟩
          · obtain rfl := CallStage.returned.inj hptr
            exact .inl (hbelow hold)
          · exact hok.disjoint j j' layout₁ layout₂ ptr₁ ptr₂ hne hold hold'

theorem Heap.Ok.run [DecidableEq ι] (es : List (HeapEvent ι)) : (Heap.run r calls es).Ok r calls :=
  Runs.exec_keeps (fun e _ hok ↦ (hok.step e).1) Heap.Ok.new

theorem Heap.run_concat [DecidableEq ι] (es : List (HeapEvent ι)) (e : HeapEvent ι) :
    Heap.run r calls (es ++ [e]) = (Heap.run r calls es).step r calls e :=
  Runs.exec_concat

/-- `next` does not decrease. -/
theorem Heap.run_mono [DecidableEq ι] {es es' : List (HeapEvent ι)} (hinit : es' <+: es) :
    (Heap.run r calls es').bump.next ≤ (Heap.run r calls es).bump.next := by
  obtain ⟨rest, rfl⟩ := hinit
  induction rest using List.reverseRecOn with
  | nil => rw [List.append_nil]
  | append_singleton rest e ih =>
    rw [← List.append_assoc, Heap.run_concat]
    exact ih.trans ((Heap.Ok.run _).step e).2

/-- A call that has returned stays as it is. -/
theorem Heap.run_returned [DecidableEq ι] {es es' : List (HeapEvent ι)} {i : ι} {ptr : ℕ}
    {layout : Layout} (hcall : calls i = .alloc layout) (hinit : es' <+: es)
    (h : (Heap.run r calls es').stage i = .returned ptr) :
    (Heap.run r calls es).stage i = .returned ptr := by
  obtain ⟨rest, rfl⟩ := hinit
  induction rest using List.reverseRecOn with
  | nil => rwa [List.append_nil]
  | append_singleton rest e ih =>
    rw [← List.append_assoc, Heap.run_concat]
    cases e with
    | init => exact ih
    | call j =>
      rw [Heap.step]
      dsimp only
      by_cases hj : i = j
      · rw [← hj, Function.update_self, ih, hcall]
        rfl
      · rwa [Function.update_of_ne hj]

/-- **The allocator is sound.** -/
structure HeapSound {ι : Type} [DecidableEq ι] (r : Region) (calls : ι → HeapCall)
    (es : List (HeapEvent ι)) : Prop where
  /-- A block is aligned. -/
  aligned : ∀ (i : ι) (layout : Layout) (ptr : ℕ),
    (Heap.run r calls es).Owns calls i layout ptr → layout.align ∣ ptr
  /-- It is inside of the heap. -/
  inside : ∀ (i : ι) (layout : Layout) (ptr : ℕ), (Heap.run r calls es).Owns calls i layout ptr →
    r.start ≤ ptr ∧ ptr + layout.size ≤ r.stop
  /-- No two blocks overlap. -/
  disjoint : ∀ (i j : ι) (layout layout' : Layout) (ptr ptr' : ℕ), i ≠ j →
    (Heap.run r calls es).Owns calls i layout ptr →
    (Heap.run r calls es).Owns calls j layout' ptr' →
      ptr + layout.size ≤ ptr' ∨ ptr' + layout'.size ≤ ptr
  /-- `next` has not decreased. -/
  mono : ∀ es', es' <+: es → (Heap.run r calls es').bump.next ≤ (Heap.run r calls es).bump.next
  /-- It is not above the end. -/
  next_le : (Heap.run r calls es).bump.next ≤ r.stop
  /-- None of the steps of a call that returned null has changed it. -/
  null : ∀ (i : ι) (layout : Layout), calls i = .alloc layout →
    (Heap.run r calls es).stage i = .returned 0 → ∀ es', es' ++ [.call i] <+: es →
      (Heap.run r calls (es' ++ [.call i])).bump.next = (Heap.run r calls es').bump.next
  /-- A call can panic only over an alignment of `2 ^ 63`, and when the heap is used up to there. -/
  panicked : ∀ i, (Heap.run r calls es).stage i = .panicked → ∃ layout, calls i = .alloc layout ∧
    layout.align = 2 ^ 63 ∧ (Heap.run r calls es).bump.next = 2 ^ 63

/-- **The bump allocator is sound**, however its calls are interleaved. -/
theorem heap_sound {ι : Type} [DecidableEq ι] (r : Region) (calls : ι → HeapCall)
    (es : List (HeapEvent ι)) : HeapSound r calls es := by
  have hok : (Heap.run r calls es).Ok r calls := Heap.Ok.run es
  have hnext := hok.init.next_le
  have hblock {i : ι} {layout : Layout} {ptr : ℕ}
      (hown : (Heap.run r calls es).Owns calls i layout ptr) :
      layout.align ∣ ptr ∧ r.start ≤ ptr ∧ ptr + layout.size ≤ (Heap.run r calls es).bump.next := by
    have hstage := hok.stage i
    rw [hown.returned] at hstage
    exact hstage layout hown.call hown.ne_null
  constructor
  · intro i layout ptr hown
    exact (hblock hown).1
  · intro i layout ptr hown
    exact ⟨(hblock hown).2.1, (hblock hown).2.2.trans hnext⟩
  · exact hok.disjoint
  · exact fun es' hinit ↦ Heap.run_mono hinit
  · exact hnext
  · intro i layout hcall hnull es' hbegin
    have hbefore : (Heap.run r calls es').Ok r calls := Heap.Ok.run es'
    have htook := HeapCall.step_took hbefore.init (hbefore.stage i)
    generalize hstep : (calls i).step _ _ = x at htook
    cases htook with
    | loaded =>
      rw [Heap.run_concat, Heap.step]
      dsimp only
      rw [hstep]
    | @claimed layout' ptr _ hinit hstart _ _ =>
      have hstage : (Heap.run r calls (es' ++ [.call i])).stage i = .returned ptr := by
        rw [Heap.run_concat, Heap.step]
        dsimp only
        rw [hstep, Function.update_self]
      have hreturned := Heap.run_returned hcall hbegin hstage
      obtain rfl := CallStage.returned.inj (hnull.symm.trans hreturned)
      have hfrom := hbefore.init
      rw [hinit] at hfrom
      have hpos := r.start_pos.trans_le (hfrom.1.trans hstart)
      exact absurd hpos (lt_irrefl 0)
  · intro i hpanicked
    have hstage := hok.stage i
    rw [hpanicked] at hstage
    obtain ⟨layout, hcall, halign, hle⟩ := hstage
    exact ⟨layout, hcall, halign, le_antisymm (hnext.trans r.stop_le) hle⟩

end LeonOS
