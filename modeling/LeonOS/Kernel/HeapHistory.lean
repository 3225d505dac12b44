import LeonOS.Kernel.Allocator
import LeonOS.Lib.Linear
import LeonOS.Elf.Segments

/-!
# The heap as a sequential object

What the allocator is for, said of one address: a call of `alloc` gets the first aligned address
behind all blocks before it, if its block ends inside of the heap, and null otherwise
(`bumpObject`).  However the loads and the `compare_exchange` of the calls are interleaved, their
answers are those of this object in the order in which they return (`heap_linearizable`).

Two things follow that are not about one call.  A call that is still trying has lost a round only to
a call that has won one, so that it has taken no more steps than three and the number of blocks that
others have got (`heap_lockFree`).  And since nothing is reclaimed, the blocks that have ever been
handed out fit into the heap together (`heap_used_up`).
-/

set_option autoImplicit false

namespace LeonOS

open Linear

variable {ι : Type} [DecidableEq ι] {r : Region} {calls : ι → HeapCall} {h : Heap ι}

/-! ## The object -/

/-- `alloc` when all blocks end at `next`: where they end then, and the answer. -/
def Region.alloc (r : Region) (layout : Layout) (next : ℕ) : ℕ × ℕ :=
  let ptr := (next + layout.align - 1) / layout.align * layout.align
  if ptr + layout.size ≤ r.stop then (ptr + layout.size, ptr) else (next, 0)

/-- What a call does to the end of all blocks, once `init` has returned, and its answer. -/
def HeapCall.apply (r : Region) : HeapCall → Option ℕ → Option ℕ × ℕ
  | .alloc layout, some next => (some (r.alloc layout next).1, (r.alloc layout next).2)
  | .alloc _, none => (none, 0)
  | .dealloc _ _, a => (a, 0)

/-- **The sequential allocator.** -/
def bumpObject (r : Region) (calls : ι → HeapCall) : Object (Option ℕ) (HeapEvent ι) ℕ where
  apply
    | .init, a => (some (a.getD r.start), 0)
    | .call i, a => (calls i).apply r a

/-- What a call has returned. -/
def HeapCall.answer : HeapCall → CallStage → Option ℕ
  | .alloc _, .returned ptr => some ptr
  | .dealloc _ _, .freed => some 0
  | _, _ => none

@[simp] theorem HeapCall.answer_returned (layout : Layout) (ptr : ℕ) :
    (HeapCall.alloc layout).answer (.returned ptr) = some ptr := rfl

/-- The allocator as a system of calls, `init` being one of them. -/
def heapCalls (r : Region) (calls : ι → HeapCall) : Calls (Heap ι) (HeapEvent ι) ℕ where
  next := Heap.step r calls
  answer
    | .init, h => if h.init = .done then some 0 else none
    | .call i, h => (calls i).answer (h.stage i)

/-- The answers of a run, in the order in which they were given. -/
def Heap.history (r : Region) (calls : ι → HeapCall) (es : List (HeapEvent ι)) :
    List (HeapEvent ι × ℕ) :=
  (heapCalls r calls).history .new es

/-- The state of the object. -/
def InitStage.abs (bump : BumpAllocator) (init : InitStage) : Option ℕ :=
  if init = .done then some bump.next else none

/-- The state of the object for the whole system. -/
def Heap.abs (h : Heap ι) : Option ℕ := h.init.abs h.bump

/-! ## Its calls are lawful -/

theorem HeapCall.answer_step {call : HeapCall} {stage : CallStage} {ptr : ℕ} (bump : BumpAllocator)
    (h : call.answer stage = some ptr) : call.step bump stage = (stage, bump) := by
  cases call <;> cases stage <;> first | rfl | cases h

theorem heapCalls_lawful : (heapCalls r calls).Lawful where
  stable c h ptr hans := by
    cases c with
    | init =>
      obtain ⟨hdone, hans⟩ := Option.ite_none_right_eq_some.mp hans
      simpa [heapCalls, Heap.step, Region.init, hdone] using hans
    | call i =>
      have hstep := HeapCall.answer_step h.bump hans
      simpa [heapCalls, Heap.step, hstep] using hans
  own c c' h hne := by
    cases c with
    | init =>
      cases c' with
      | init => exact absurd rfl hne
      | call i => rfl
    | call i =>
      cases c' with
      | init => rfl
      | call j =>
        have hij : i ≠ j := fun h ↦ hne (congrArg _ h)
        simp [heapCalls, Heap.step, hij]

/-! ## One step -/

/-- `init` has returned exactly if `initialized` is set. -/
def Heap.Ready (h : Heap ι) : Prop := h.init = .done → h.bump.initialized = true

theorem HeapCall.step_initialized (bump : BumpAllocator) (call : HeapCall) (stage : CallStage) :
    (call.step bump stage).2.initialized = bump.initialized := by
  cases call with
  | dealloc ptr layout => rfl
  | alloc layout =>
    cases stage with
    | trying heapEnd current =>
      rw [HeapCall.step]
      split <;> try rfl
      split <;> rfl
    | called | checked | bounded | returned | freed | panicked => rfl

theorem Heap.Ready.step (hready : h.Ready) (e : HeapEvent ι) : (h.step r calls e).Ready := by
  cases e with
  | init =>
    intro hdone
    cases hinit : h.init <;> simp [Heap.step, Region.init, hinit] at hdone ⊢
  | call i =>
    intro hdone
    exact (HeapCall.step_initialized _ _ _).trans (hready hdone)

section Place

variable {layout : Layout} {current next : ℕ}

theorem Layout.align_pos (layout : Layout) : 0 < layout.align := by
  obtain ⟨k, -, h⟩ := layout.isPow
  rw [h]
  exact Nat.two_pow_pos k

theorem IsAlignUp.eq_div {addr align a : ℕ} (hpos : 0 < align) (h : IsAlignUp addr align a) :
    (addr + align - 1) / align * align = a := by
  have hdiv : IsAlignUp addr align _ := isAlignUp_div hpos
  exact le_antisymm (hdiv.least a h.dvd h.le) (h.least _ hdiv.dvd hdiv.le)

/-- A round that fits finds the block of the sequential allocator. -/
theorem Region.alloc_of_place {ptr last : ℕ}
    (h : layout.place r.stop current = .ok (some (ptr, last))) :
    r.alloc layout current = (last, ptr) := by
  obtain ⟨halign, rfl, hfit⟩ := layout.place_ok h
  rw [Region.alloc, halign.eq_div layout.align_pos, if_pos hfit]

/-- A round that does not fit would not fit later either. -/
theorem Region.alloc_of_place_none (h : layout.place r.stop current = .ok none)
    (hle : current ≤ next) : r.alloc layout next = (next, 0) := by
  obtain ⟨k, hk, hpow⟩ := layout.isPow
  rw [Layout.place, hpow] at h
  have hnext : IsAlignUp next (2 ^ k) _ := isAlignUp_div (Nat.two_pow_pos k)
  rcases Nat.lt_or_ge (current + 2 ^ k) (2 ^ 64) with hsum | hsum
  · obtain ⟨a, halign, ha⟩ := alignUp_ok hk hsum
    have hmono := ha.least _ hnext.dvd (hle.trans hnext.le)
    have hstop : r.stop ≤ 2 ^ 63 := r.stop_le
    rw [halign, Rust.ok_bind, Rust.checkedAdd] at h
    rw [Region.alloc, hpow, if_neg]
    by_cases hadd : a + layout.size < 2 ^ 64
    · rw [if_pos hadd] at h
      dsimp only at h
      split at h
      · omega
      · cases h
    · omega
  · rw [alignUp_overflow hsum] at h
    cases h

end Place

/-! ## One block after another -/

/-- Some blocks are taken, one after the other; none when `alloc` returns null. -/
def Region.allocAll (r : Region) : List Layout → ℕ → Option ℕ
  | [], next => some next
  | block :: blocks, next =>
    if (r.alloc block next).2 = 0 then none else r.allocAll blocks (r.alloc block next).1

section Blocks

variable {block : Layout} {blocks : List Layout} {next next' : ℕ}

theorem Region.alloc_spent (h : (r.alloc block next).2 ≠ 0) :
    next + block.size ≤ (r.alloc block next).1 ∧ (r.alloc block next).1 ≤ r.stop := by
  have hup : IsAlignUp next block.align _ := isAlignUp_div block.align_pos
  have hle := hup.le
  rw [Region.alloc] at h ⊢
  split
  · exact ⟨Nat.add_le_add_right hle _, ‹_›⟩
  · rename_i hfit
    rw [if_neg hfit] at h
    exact absurd rfl h

/-- Blocks that were taken are behind one another, inside of the heap. -/
theorem Region.allocAll_spent (h : r.allocAll blocks next = some next') :
    next + (blocks.map Layout.size).sum ≤ next' ∧ (next ≤ r.stop → next' ≤ r.stop) := by
  induction blocks generalizing next with
  | nil =>
    obtain rfl := Option.some_inj.mp h
    exact ⟨le_rfl, id⟩
  | cons block blocks ih =>
    rw [Region.allocAll, Option.ite_none_left_eq_some] at h
    obtain ⟨hne, h⟩ := h
    obtain ⟨hsize, hstop⟩ := Region.alloc_spent hne
    obtain ⟨hsum, hroom⟩ := ih h
    rw [List.map_cons, List.sum_cons]
    exact ⟨by omega, fun _ ↦ hroom hstop⟩

theorem Region.allocAll_append (blocks' : List Layout) :
    r.allocAll (blocks ++ blocks') next = (r.allocAll blocks next).bind (r.allocAll blocks') := by
  induction blocks generalizing next with
  | nil => rfl
  | cons block blocks ih =>
    rw [List.cons_append, allocAll, allocAll]
    split
    · rfl
    · exact ih

end Blocks

/-- **What a step of a call does to the object**: nothing, or what the call is for. -/
theorem HeapCall.step_effect {bump : BumpAllocator} {init : InitStage} {call : HeapCall}
    {stage : CallStage} (hinit : init.Ok r bump)
    (hready : init = .done → bump.initialized = true)
    (hstage : stage.Ok r init bump.next call) (hnone : call.answer stage = none) :
    match call.answer (call.step bump stage).1 with
    | none => init.abs (call.step bump stage).2 = init.abs bump
    | some ptr => call.apply r (init.abs bump) = (init.abs (call.step bump stage).2, ptr) := by
  cases call with
  | dealloc ptr layout => rfl
  | alloc layout =>
    cases stage with
    | called =>
      rw [HeapCall.step]
      by_cases hinitialized : bump.initialized = true
      · rw [if_pos hinitialized]
        rfl
      · have hdone : init ≠ .done := fun h ↦ hinitialized (hready h)
        rw [if_neg hinitialized]
        simp [HeapCall.answer, InitStage.abs, hdone, HeapCall.apply]
    | trying heapEnd current =>
      obtain ⟨rfl, rfl, -, hcurrent⟩ := hstage
      rw [HeapCall.step]
      cases hplace : layout.place r.stop current with
      | error e => rfl
      | ok block =>
        cases block with
        | none =>
          simp [HeapCall.answer, InitStage.abs, HeapCall.apply,
            Region.alloc_of_place_none hplace hcurrent]
        | some block =>
          obtain ⟨ptr, last⟩ := block
          dsimp only
          by_cases hsame : bump.next = current
          · have halloc := Region.alloc_of_place hplace
            rw [if_pos hsame]
            simp [HeapCall.answer, InitStage.abs, HeapCall.apply, hsame, halloc]
          · rw [if_neg hsame]
            rfl
    | returned ptr => cases hnone
    | checked | bounded | freed | panicked => rfl

theorem Heap.step_effect (hok : h.Ok r calls) (hready : h.Ready) (c : HeapEvent ι) :
    Calls.Effect (bumpObject r calls) h.abs ((heapCalls r calls).next c h).abs
      ((heapCalls r calls).completes c h) := by
  cases c with
  | init =>
    cases hstage : h.init with
    | storedNext =>
      have hinit := hok.init
      rw [hstage] at hinit
      simp [Calls.Effect, Calls.completes, heapCalls, Heap.abs, InitStage.abs, Heap.step,
        Region.init, hstage, bumpObject, hinit.2.1]
    | called | storedStart | storedEnd | done =>
      simp [Calls.Effect, Calls.completes, heapCalls, Heap.abs, InitStage.abs, Heap.step,
        Region.init, hstage]
  | call i =>
    cases hans : (calls i).answer (h.stage i) with
    | some ptr =>
      have hstep := HeapCall.answer_step h.bump hans
      simp [Calls.Effect, Calls.completes, heapCalls, Heap.abs, Heap.step, hans, hstep]
    | none =>
      have heffect := HeapCall.step_effect hok.init hready (hok.stage i) hans
      cases hnew : (calls i).answer ((calls i).step h.bump (h.stage i)).1 with
      | none =>
        simpa [Calls.Effect, Calls.completes, heapCalls, Heap.abs, Heap.step, hans, hnew]
          using heffect
      | some ptr =>
        simpa [Calls.Effect, Calls.completes, heapCalls, Heap.abs, Heap.step, hans, hnew, bumpObject]
          using heffect

/-! ## Runs -/

theorem Heap.answer_new (c : HeapEvent ι) : (heapCalls r calls).answer c .new = none := by
  cases c with
  | init => rfl
  | call i => cases hcall : calls i <;> simp [heapCalls, Heap.new, HeapCall.answer, hcall]

theorem Heap.replays_history (es : List (HeapEvent ι)) :
    (bumpObject r calls).Replays none (Heap.history r calls es) (Heap.run r calls es).abs := by
  have hkeep (c : HeapEvent ι) (h : Heap ι) (hs : h.Ok r calls ∧ h.Ready) :
      ((heapCalls r calls).next c h).Ok r calls ∧ ((heapCalls r calls).next c h).Ready :=
    ⟨(hs.1.step c).1, hs.2.step c⟩
  exact Calls.replays_history hkeep (fun c _ hs ↦ Heap.step_effect hs.1 hs.2 c)
    ⟨Heap.Ok.new, nofun⟩

theorem Heap.mem_history (es : List (HeapEvent ι)) (i : ι) (ptr : ℕ) :
    (.call i, ptr) ∈ Heap.history r calls es ↔
      (calls i).answer ((Heap.run r calls es).stage i) = some ptr :=
  heapCalls_lawful.mem_history Heap.answer_new

theorem Heap.nodup_history (es : List (HeapEvent ι)) :
    ((Heap.history r calls es).map Prod.fst).Nodup :=
  heapCalls_lawful.nodup_history Heap.answer_new

/-- The number of blocks that have been handed out. -/
def Heap.blocks (r : Region) (calls : ι → HeapCall) (es : List (HeapEvent ι)) : ℕ :=
  (Heap.history r calls es).countP fun x ↦ x.2 ≠ 0

/-- How many steps a call may have taken to get where it is, when `next` is at `next` and there have
been so many blocks.  One round is still open if `next` has moved on. -/
def CallStage.Steps (next blocks steps : ℕ) : CallStage → Prop
  | .called => steps = 0
  | .checked => steps ≤ 1
  | .bounded _ => steps ≤ 2
  | .trying _ current => steps + (if current = next then 0 else 1) ≤ 3 + blocks
  | .returned _ | .freed | .panicked => True

/-- The step is one of call `i`. -/
def HeapEvent.isCall (i : ι) : HeapEvent ι → Bool
  | .init => false
  | .call j => j = i

/-- The number of steps that call `i` has taken. -/
def stepsOf (i : ι) (es : List (HeapEvent ι)) : ℕ := es.countP (·.isCall i)

/-- A call that has not come to an end. -/
def CallStage.Unfinished (stage : CallStage) : Prop :=
  stage = .called ∨ stage = .checked ∨ (∃ heapEnd, stage = .bounded heapEnd) ∨
    ∃ heapEnd current, stage = .trying heapEnd current

theorem stepsOf_concat {i : ι} {es : List (HeapEvent ι)} {e : HeapEvent ι} :
    stepsOf i (es ++ [e]) = stepsOf i es + (if e.isCall i then 1 else 0) := by
  simp [stepsOf, List.countP_append, List.countP_cons]

theorem Heap.blocks_concat {es : List (HeapEvent ι)} {e : HeapEvent ι} :
    Heap.blocks r calls (es ++ [e]) = Heap.blocks r calls es +
      ((heapCalls r calls).completes e (Heap.run r calls es)).toList.countP fun x ↦ x.2 ≠ 0 := by
  rw [Heap.blocks, Heap.history, Calls.history_concat, List.countP_append]
  rfl

/-- **A step moves `next` only with a block.** -/
theorem Heap.Ok.step_next (hok : h.Ok r calls) (i : ι) :
    (h.step r calls (.call i)).bump.next = h.bump.next ∨
      1 ≤ ((heapCalls r calls).completes (.call i) h).toList.countP fun x ↦ x.2 ≠ 0 := by
  cases hans : (calls i).answer (h.stage i) with
  | some ptr => exact .inl (by simp [Heap.step, HeapCall.answer_step _ hans])
  | none =>
    have htook := HeapCall.step_took hok.init (hok.stage i)
    generalize hstep : (calls i).step h.bump (h.stage i) = x at htook
    cases htook with
    | loaded => exact .inl (by simp [Heap.step, hstep])
    | @claimed layout ptr hcall hinit hstart _ _ =>
      have hfrom := hok.init
      rw [hinit] at hfrom
      have hne : ptr ≠ 0 := (r.start_pos.trans_le (hfrom.1.trans hstart)).ne'
      rw [hcall] at hans hstep
      refine .inr ?_
      simp [Calls.completes, heapCalls, Heap.step, hcall, hans, hstep, hne]

/-- A round that fails has loaded what `next` is now. -/
theorem HeapCall.step_steps {bump : BumpAllocator} {stage : CallStage} {blocks steps : ℕ}
    (layout : Layout) (h : stage.Steps bump.next blocks steps) :
    ((HeapCall.alloc layout).step bump stage).1.Steps
      ((HeapCall.alloc layout).step bump stage).2.next blocks (steps + 1) := by
  cases stage with
  | called =>
    obtain rfl : steps = 0 := h
    rw [HeapCall.step]
    split
    · exact le_rfl
    · trivial
  | checked => exact Nat.succ_le_succ h
  | bounded heapEnd =>
    have h : steps ≤ 2 := h
    simp only [HeapCall.step, CallStage.Steps, if_true]
    omega
  | trying heapEnd current =>
    rw [HeapCall.step]
    split
    · trivial
    · trivial
    · split
      · trivial
      · rename_i hmoved
        simp only [CallStage.Steps, if_neg (Ne.symm hmoved)] at h ⊢
        simpa using h
  | returned ptr => trivial
  | freed | panicked => trivial

theorem CallStage.Steps.mono {stage : CallStage} {next next' blocks blocks' steps : ℕ}
    (h : stage.Steps next blocks steps) (hblocks : blocks ≤ blocks')
    (hnext : ∀ heapEnd current, stage = .trying heapEnd current →
      next' = next ∨ blocks < blocks') : stage.Steps next' blocks' steps := by
  cases stage with
  | trying heapEnd current =>
    have hnext := hnext heapEnd current rfl
    simp only [CallStage.Steps] at h ⊢
    split <;> split at h <;> omega
  | called | checked | bounded | returned | freed | panicked => exact h

theorem Heap.run_steps {i : ι} {layout : Layout} (hcall : calls i = .alloc layout)
    (es : List (HeapEvent ι)) : ((Heap.run r calls es).stage i).Steps (Heap.run r calls es).bump.next
      (Heap.blocks r calls es) (stepsOf i es) := by
  induction es using List.reverseRecOn with
  | nil => rfl
  | append_singleton es e ih =>
    have hok : (Heap.run r calls es).Ok r calls := Heap.Ok.run es
    rw [Heap.run_concat, stepsOf_concat, Heap.blocks_concat]
    cases e with
    | init =>
      refine ih.mono (Nat.le_add_right _ _) fun heapEnd current hstage ↦ .inl ?_
      have htrying := hok.stage i
      rw [hstage] at htrying
      simp [Heap.step, Region.init, htrying.1]
    | call j =>
      have hmoved := hok.step_next j
      by_cases hj : j = i
      · subst hj
        have hstep := HeapCall.step_steps layout ih
        rw [← hcall] at hstep
        simp only [Heap.step, HeapEvent.isCall, decide_true, if_true, Function.update_self]
        exact hstep.mono (Nat.le_add_right _ _) fun _ _ _ ↦ .inl rfl
      · simp only [Heap.step, HeapEvent.isCall, hj, decide_false, Bool.false_eq_true, if_false,
          Nat.add_zero, Function.update_of_ne (Ne.symm hj)]
        exact ih.mono (Nat.le_add_right _ _) fun _ _ _ ↦ hmoved.imp_right fun h ↦ by omega

/-- **The allocator is lock-free**: a call that has not come to an end has taken no more steps than
three and the number of blocks that have been handed out, so that it waits for no one who does not
get one. -/
theorem heap_lockFree (es : List (HeapEvent ι)) (i : ι) (layout : Layout)
    (hcall : calls i = .alloc layout) (hstage : ((Heap.run r calls es).stage i).Unfinished) :
    stepsOf i es ≤ 3 + Heap.blocks r calls es := by
  have hsteps := Heap.run_steps (r := r) hcall es
  rcases hstage with h | h | ⟨heapEnd, h⟩ | ⟨heapEnd, current, h⟩ <;> rw [h] at hsteps
  · obtain hsteps : stepsOf i es = 0 := hsteps
    omega
  · obtain hsteps : stepsOf i es ≤ 1 := hsteps
    omega
  · obtain hsteps : stepsOf i es ≤ 2 := hsteps
    omega
  · exact (Nat.le_add_right _ _).trans hsteps

/-! ## Capacity -/

/-- The size of the block that an answer hands out. -/
def blockSize (calls : ι → HeapCall) : HeapEvent ι × ℕ → ℕ
  | (.call i, ptr) => match calls i with
    | .alloc layout => if ptr = 0 then 0 else layout.size
    | .dealloc _ _ => 0
  | (.init, _) => 0

/-- What is left of the heap. -/
def Region.room (r : Region) (a : Option ℕ) : ℕ := r.stop - a.getD r.start

theorem HeapCall.apply_room (call : HeapCall) (a : Option ℕ) :
    (match call with
      | .alloc layout => if (call.apply r a).2 = 0 then 0 else layout.size
      | .dealloc _ _ => 0) + r.room (call.apply r a).1 ≤ r.room a := by
  cases call with
  | dealloc ptr layout => simp [HeapCall.apply]
  | alloc layout =>
    cases a with
    | none => simp [HeapCall.apply]
    | some next =>
      have hdiv : IsAlignUp next layout.align _ := isAlignUp_div layout.align_pos
      have hle := hdiv.le
      simp only [HeapCall.apply, Region.room, Option.getD_some, Region.alloc]
      split <;> split <;> simp_all <;> omega

omit [DecidableEq ι] in
theorem replays_room {a a' : Option ℕ} {hist : List (HeapEvent ι × ℕ)}
    (h : (bumpObject r calls).Replays a hist a') :
    (hist.map (blockSize calls)).sum + r.room a' ≤ r.room a := by
  induction h with
  | nil => simp
  | @cons a a₁ a' c ptr hist happly _ ih =>
    have hstep : blockSize calls (c, ptr) + r.room a₁ ≤ r.room a := by
      cases c with
      | init =>
        obtain ⟨rfl, rfl⟩ := Prod.mk.inj happly
        cases a <;> simp [blockSize, Region.room]
      | call i =>
        have hroom := HeapCall.apply_room (r := r) (calls i) a
        have happly : (calls i).apply r a = (a₁, ptr) := happly
        simpa [blockSize, happly] using hroom
    rw [List.map_cons, List.sum_cons]
    omega

/-- What has been handed out and what is left of the heap are no more than the heap. -/
theorem Heap.blocks_room_le (es : List (HeapEvent ι)) :
    ((Heap.history r calls es).map (blockSize calls)).sum + r.room (Heap.run r calls es).abs ≤
      r.size := by
  have hroom := replays_room (@Heap.replays_history ι _ r calls es)
  have hstart : r.room none = r.size := Nat.add_sub_cancel_left _ _
  rwa [hstart] at hroom

/-- **Nothing is reclaimed**: all the blocks that have ever been handed out, whether they were given
back or not, fit into the heap together. -/
theorem heap_used_up (r : Region) (calls : ι → HeapCall) (es : List (HeapEvent ι)) :
    ((Heap.history r calls es).map (blockSize calls)).sum ≤ r.size :=
  (Nat.le_add_right _ _).trans (Heap.blocks_room_le es)

/-! ### Programs -/

/-- `HEAP_SIZE`. -/
def heapSize : ℕ := 32 * 1024 * 1024

theorem Heap.Owns.mem_history {es : List (HeapEvent ι)} {i : ι} {layout : Layout} {ptr : ℕ}
    (hown : (Heap.run r calls es).Owns calls i layout ptr) :
    (.call i, ptr) ∈ Heap.history r calls es := by
  rw [Heap.mem_history, hown.call, hown.returned]
  rfl

omit [DecidableEq ι] in
/-- Blocks of distinct calls together are not larger than all blocks. -/
theorem sum_blocks_le (s : Finset ι) (ptr : ι → ℕ) {hist : List (HeapEvent ι × ℕ)}
    (hnodup : (hist.map Prod.fst).Nodup) (hmem : ∀ i ∈ s, (.call i, ptr i) ∈ hist) :
    ∑ i ∈ s, blockSize calls (.call i, ptr i) ≤ (hist.map (blockSize calls)).sum := by
  classical
  have hinj : Set.InjOn (fun i ↦ (HeapEvent.call i, ptr i)) s := by
    intro i _ j _ h
    exact HeapEvent.call.inj (Prod.mk.inj h).1
  rw [← List.sum_toFinset _ hnodup.of_map, ← Finset.sum_image (f := blockSize calls) hinj]
  refine Finset.sum_le_sum_of_subset fun x hx ↦ ?_
  obtain ⟨i, hi, rfl⟩ := Finset.mem_image.mp hx
  exact List.mem_toFinset.mpr (hmem i hi)

/-- The vector of a program is longer than its stack. -/
theorem layout_stack_lt {ε : Type} {runner : Runner ε} {image : List U8} {l : Elf.Layout}
    (h : Elf.layout runner image = .ok l) : runner.stackSize < l.totalLen := by
  obtain ⟨elf, -, h⟩ := Rust.bind_eq_ok.mp h
  obtain ⟨_, -, h⟩ := Rust.bind_eq_ok.mp h
  obtain ⟨_, -, h⟩ := Rust.bind_eq_ok.mp h
  obtain ⟨_, hrange, h⟩ := Rust.bind_eq_ok.mp h
  obtain ⟨_, -, h⟩ := Rust.bind_eq_ok.mp h
  obtain ⟨totalLen, htotal, h⟩ := Rust.bind_eq_ok.mp h
  obtain rfl := Except.ok.inj h
  rw [Rust.failIf_eq_ok, not_le] at hrange
  obtain ⟨-, rfl⟩ := Rust.checkedAdd_eq_some.mp (Rust.okOr_eq_ok.mp htotal)
  dsimp only
  omega

/-- **A boot starts only so many programs**: of all the programs that a runner has ever laid out, no
more can have got the vector for their memory than the heap has room for stacks, whatever was
allocated beside them and whatever was given back. -/
theorem programs_bounded {ε : Type} (runner : Runner ε) (hsize : r.size = heapSize)
    (es : List (HeapEvent ι)) (s : Finset ι)
    (hs : ∀ i ∈ s, ∃ image l layout ptr, Elf.layout runner image = .ok l ∧
      layout.size = l.totalLen ∧ (Heap.run r calls es).Owns calls i layout ptr) :
    s.card * (runner.stackSize + 1) ≤ heapSize := by
  let ptr (i : ι) : ℕ := ((calls i).answer ((Heap.run r calls es).stage i)).getD 0
  have hblock (i : ι) (hi : i ∈ s) : (.call i, ptr i) ∈ Heap.history r calls es ∧
      runner.stackSize + 1 ≤ blockSize calls (.call i, ptr i) := by
    obtain ⟨image, l, layout, p, hlayout, hlen, hown⟩ := hs i hi
    have hptr : ptr i = p := by simp [ptr, hown.call, hown.returned]
    have hlt := layout_stack_lt hlayout
    rw [hptr]
    refine ⟨hown.mem_history, ?_⟩
    simp only [blockSize, hown.call, if_neg hown.ne_null]
    omega
  calc s.card * (runner.stackSize + 1)
      ≤ ∑ i ∈ s, blockSize calls (.call i, ptr i) :=
        Finset.card_nsmul_le_sum s _ _ fun i hi ↦ (hblock i hi).2
    _ ≤ ((Heap.history r calls es).map (blockSize calls)).sum :=
        sum_blocks_le s ptr (Heap.nodup_history es) fun i hi ↦ (hblock i hi).1
    _ ≤ heapSize := hsize ▸ (Nat.le_add_right _ _).trans (Heap.blocks_room_le es)

/-! ### A program in a heap of its own -/

/-- The vector of a program of three bytes. -/
def vectorLayout : Layout := ⟨262147, 1, ⟨0, by decide, rfl⟩, by decide⟩

/-- A heap as long as the kernel's. -/
def someRegion : Region := ⟨0x200000, heapSize, by decide, by decide⟩

/-- Two calls for a vector, and one that gives the first block back. -/
def vectorCalls (i : Fin 3) : HeapCall :=
  if i = 2 then .dealloc 0x200000 vectorLayout else .alloc vectorLayout

/-- After `init` the second call gets in between the load and the `compare_exchange` of the first,
which fails. -/
def retrySteps : List (HeapEvent (Fin 3)) :=
  List.replicate 4 .init ++ List.replicate 3 (.call 0) ++ List.replicate 4 (.call 1) ++ [.call 0]

theorem heap_lockFree_retry :
    stepsOf 0 retrySteps ≤ 3 + Heap.blocks someRegion vectorCalls retrySteps :=
  heap_lockFree retrySteps 0 vectorLayout rfl (.inr (.inr (.inr ⟨_, _, rfl⟩)))

/-- The first call gets its block too, and the other block is given back. -/
def freedSteps : List (HeapEvent (Fin 3)) := retrySteps ++ [.call 0, .call 2]

theorem vectorCalls_owns : (Heap.run someRegion vectorCalls freedSteps).Owns vectorCalls 0
    vectorLayout 0x240003 ∧
    (Heap.run someRegion vectorCalls freedSteps).Owns vectorCalls 1 vectorLayout 0x200000 :=
  ⟨⟨rfl, rfl, by decide⟩, ⟨rfl, rfl, by decide⟩⟩

theorem programs_bounded_freed :
    Finset.card ({0, 1} : Finset (Fin 3)) * (nativeRunner.stackSize + 1) ≤ heapSize := by
  have hs : ∀ i ∈ ({0, 1} : Finset (Fin 3)), ∃ image l layout ptr,
      Elf.layout nativeRunner image = .ok l ∧ layout.size = l.totalLen ∧
        (Heap.run someRegion vectorCalls freedSteps).Owns vectorCalls i layout ptr := by
    intro i hi
    rcases Finset.mem_insert.mp hi with rfl | hi
    · exact ⟨_, _, _, _, Elf.layout_lastBytes.2, rfl, vectorCalls_owns.1⟩
    · obtain rfl := Finset.mem_singleton.mp hi
      exact ⟨_, _, _, _, Elf.layout_lastBytes.2, rfl, vectorCalls_owns.2⟩
  exact programs_bounded nativeRunner rfl freedSteps {0, 1} hs

end LeonOS
