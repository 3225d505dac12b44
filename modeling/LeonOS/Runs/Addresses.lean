import LeonOS.Kernel.Panics
import LeonOS.Lib.Regions

/-!
# Addresses that are handed out

`mmap` hands out the addresses behind its cursor, and `brk` moves the end of the heap to where it is
told.  Neither looks at the other, and neither looks where the addresses end.  So the regions of a
history and the heap are apart exactly as long as what is asked of both calls leaves them room
(`handsOutApart_iff`).
-/

set_option autoImplicit false

namespace LeonOS

open Bytes RustM

/-- A length in whole pages. -/
def pageRound (n : ℕ) : ℕ := (n + 0xFFF) / 0x1000 * 0x1000

/-- The length of the region that `mmap` hands out for a length. -/
def mmapLength (asked : ℕ) : ℕ := pageRound (max asked 0x1000)

/-- What `mmap` has handed out. -/
structure HandOut where
  /-- The address that it returned. -/
  start : ℕ
  /-- The length that it was asked for. -/
  asked : ℕ

/-- The region. -/
def HandOut.region (h : HandOut) : Extent := ⟨h.start, mmapLength h.asked⟩

/-- `[0x4000_0000, brk)`. -/
def Kernel.heap (k : Kernel) : Set ℕ := Set.Ico 0x40000000 k.brk.toNat

/-- The regions after an event. -/
def HandOut.after (e : KernelEvent) (_ : World) (r : U64) (_ : World) (hs : List HandOut) :
    List HandOut :=
  match e with
  | .call .mmap _ arg1 _ _ => if isErrno r then hs else ⟨r.toNat, arg1.toNat⟩ :: hs
  | _ => hs

/-- **What was handed out is apart**, and the heap too. -/
structure HandOutsApart (s : Recorded (List HandOut)) : Prop where
  /-- Regions begin at a page. -/
  aligned : ∀ h ∈ s.record, 0x1000 ∣ h.start
  /-- They have the length that was asked for. -/
  long : ∀ h ∈ s.record, h.asked ≤ h.region.length
  /-- They do not go around the address space. -/
  fits : ∀ h ∈ s.record, h.start + h.region.length ≤ 2 ^ 64
  /-- No two of them share an address. -/
  apart : s.record.Pairwise fun h h' ↦ Disjoint h.region.addrs h'.region.addrs
  /-- None of them shares one with the heap. -/
  heap : ∀ h ∈ s.record, Disjoint h.region.addrs s.world.kernel.heap

/-- The call returns, and the cursor does not wrap. -/
def KernelEvent.Computes (e : KernelEvent) (w : World) : Prop :=
  ∀ nr arg0 arg1 arg2 arg3, e = .call nr arg0 arg1 arg2 arg3 → ∃ r w',
    dispatch nr arg0 arg1 arg2 arg3 w = .ok r w' ∧ w.kernel.mmapBase ≤ w'.kernel.mmapBase

/-- **An event hands out addresses as it should**: without overflow, and apart. -/
def HandsOutApart (e : KernelEvent) (s : Recorded (List HandOut)) : Prop :=
  e.Computes s.world ∧ ∀ s', e.Step HandOut.after s s' → HandOutsApart s'

/-- The event leaves room.  A region has to end before the addresses do, and the heap before the
regions. -/
def LeavesRoom (e : KernelEvent) (s : Recorded (List HandOut)) : Prop :=
  match e with
  | .call .mmap _ arg1 _ _ =>
    s.world.kernel.mmapBase.toNat + mmapLength arg1.toNat < 2 ^ 64 ∧
      s.world.kernel.brk ≤ s.world.kernel.mmapBase
  | .call .brk arg0 _ _ _ => arg0 ≤ 0x70000000 ∨ s.record = []
  | _ => True

/-! ## `mmap` -/

variable {w w' : World} {arg0 arg1 arg2 arg3 r : U64} {n : ℕ}

theorem and_not_page (x : U64) : (x &&& ~~~(0xFFF : U64)).toNat = x.toNat / 0x1000 * 0x1000 := by
  have hshift : x &&& ~~~(0xFFF : U64) = (x >>> 12) <<< 12 := by
    have hmask : ∀ i : Fin 64, (~~~(0xFFF : U64)).getLsbD i = decide (12 ≤ i.val) := by decide
    refine BitVec.eq_of_getLsbD_eq fun i hi ↦ ?_
    rw [BitVec.getLsbD_and, hmask ⟨i, hi⟩, BitVec.getLsbD_shiftLeft, BitVec.getLsbD_ushiftRight]
    by_cases h : 12 ≤ i
    · simp [h, hi, Nat.not_lt.mpr h]
    · simp [h, Nat.lt_of_not_le h]
  rw [hshift, BitVec.toNat_shiftLeft, BitVec.toNat_ushiftRight, Nat.shiftLeft_eq,
    Nat.shiftRight_eq_div_pow]
  omega

theorem le_mmapLength (n : ℕ) : n ≤ mmapLength n ∧ 0 < mmapLength n := by
  rw [mmapLength, pageRound]
  omega

/-- **What `mmap` does** when its length does not overflow. -/
theorem sysMmap_ok (w : World) (h : arg1.toNat + 0xFFF < 2 ^ 64) : ∃ base, sysMmap arg1 w =
    .ok w.kernel.mmapBase { w with kernel := { w.kernel with mmapBase := base } } ∧
      base.toNat = (w.kernel.mmapBase.toNat + mmapLength arg1.toNat) % 2 ^ 64 := by
  let len : U64 := if arg1 < 0x1000 then 0x1000 else arg1
  have hlen : len.toNat = max arg1.toNat 0x1000 := by
    dsimp only [len]
    split
    · rename_i hlow
      rw [BitVec.lt_def, show (0x1000 : U64).toNat = 0x1000 from rfl] at hlow
      exact (max_eq_right hlow.le).symm
    · rename_i hhigh
      rw [BitVec.lt_def, show (0x1000 : U64).toNat = 0x1000 from rfl] at hhigh
      exact (max_eq_left (not_lt.mp hhigh)).symm
  have hadd : (Rust.addWord len 0xFFF : Rust Empty U64) = .ok (len + BitVec.ofNat 64 0xFFF) :=
    Rust.addWord_eq_ok.mpr ⟨by omega, rfl⟩
  refine ⟨w.kernel.mmapBase + (len + BitVec.ofNat 64 0xFFF &&& ~~~(0xFFF : U64)), ?_, ?_⟩
  · change (RustM.lift (Rust.addWord len 0xFFF) >>= _) w = _
    rw [hadd]
    rfl
  · have hsum : (len + BitVec.ofNat 64 0xFFF).toNat = max arg1.toNat 0x1000 + 0xFFF := by
      rw [BitVec.toNat_add, hlen, show (BitVec.ofNat 64 0xFFF).toNat = 0xFFF from rfl]
      exact Nat.mod_eq_of_lt (by omega)
    rw [BitVec.toNat_add, and_not_page, hsum]
    rfl

/-! ## The invariant -/

/-- The regions lie one behind the other up to the cursor, and the heap below the first. -/
structure AddressesOk (s : Recorded (List HandOut)) : Prop where
  /-- Calls do not panic but for their arguments. -/
  files : s.world.kernel.FilesOk
  /-- Regions begin at a page. -/
  aligned : ∀ h ∈ s.record, 0x1000 ∣ h.start
  /-- So will the next. -/
  cursor : 0x1000 ∣ s.world.kernel.mmapBase.toNat
  /-- They lie between the first address and the cursor. -/
  stacked : Extent.Stacked 0x70000000 s.world.kernel.mmapBase.toNat
    (s.record.map HandOut.region)
  /-- If there are any, one begins at the first address, and the heap ends before it. -/
  first : s.record ≠ [] →
    (∃ h ∈ s.record, h.start = 0x70000000) ∧ s.world.kernel.brk ≤ 0x70000000
  /-- If not, the cursor is there. -/
  fresh : s.record = [] → s.world.kernel.mmapBase = 0x70000000

variable {e : KernelEvent} {s s' : Recorded (List HandOut)}

theorem AddressesOk.apart (h : AddressesOk s) : HandOutsApart s where
  aligned := h.aligned
  long hand _ := (le_mmapLength hand.asked).1
  fits hand hmem :=
    (h.stacked.below _ (List.mem_map_of_mem hmem)).trans s.world.kernel.mmapBase.isLt.le
  apart := by
    have hapart := List.pairwise_map.mp h.stacked.apart
    exact hapart
  heap hand hmem := by
    have hbrk := (h.first (List.ne_nil_of_mem hmem)).2
    rw [BitVec.le_def] at hbrk
    exact h.stacked.disjoint (List.mem_map_of_mem hmem) hbrk

/-- What leaves the cursor and the break alone keeps the invariant. -/
theorem AddressesOk.of_eq (h : AddressesOk s) (hfiles : w'.kernel.FilesOk)
    (hcursor : w'.kernel.mmapBase = s.world.kernel.mmapBase)
    (hbrk : w'.kernel.brk = s.world.kernel.brk) : AddressesOk ⟨s.record, w'⟩ := by
  obtain ⟨-, haligned, hpage, hstacked, hfirst, hfresh⟩ := h
  rw [← hcursor] at hpage hstacked hfresh
  rw [← hbrk] at hfirst
  exact ⟨hfiles, haligned, hpage, hstacked, hfirst, hfresh⟩

/-- Only `mmap` moves the cursor, and only `brk` the break. -/
theorem Effect.addresses {k k' : Kernel} {nr : Nr} (h : Effect k nr arg0 arg1 k')
    (hmmap : nr ≠ .mmap) (hbrk : nr ≠ .brk) : k'.mmapBase = k.mmapBase ∧ k'.brk = k.brk := by
  cases h with
  | mapped => exact absurd rfl hmmap
  | brk => exact absurd rfl hbrk
  | _ => exact ⟨rfl, rfl⟩

/-- The result of `mmap` is not an error. -/
theorem AddressesOk.not_isErrno (h : AddressesOk s) : ¬isErrno s.world.kernel.mmapBase := by
  have hpage := h.cursor
  rw [isErrno, BitVec.toInt_eq_toNat_cond]
  split <;> omega

theorem AddressesOk.brk (h : AddressesOk s) (hroom : arg0 ≤ 0x70000000 ∨ s.record = []) :
    AddressesOk ⟨s.record, { s.world with kernel := s.world.kernel.brkSet arg0 }⟩ := by
  by_cases hzero : arg0 = 0
  · rw [hzero]
    exact h
  have hset : s.world.kernel.brkSet arg0 = { s.world.kernel with brk := arg0 } := if_neg hzero
  rw [hset]
  refine ⟨h.files.of_eq rfl rfl, h.aligned, h.cursor, h.stacked, fun hne ↦ ?_, h.fresh⟩
  exact ⟨(h.first hne).1, hroom.resolve_right hne⟩

theorem AddressesOk.mmap {base : U64} (h : AddressesOk s)
    (hbase : base.toNat = s.world.kernel.mmapBase.toNat + mmapLength arg1.toNat)
    (hbrk : s.world.kernel.brk ≤ s.world.kernel.mmapBase) :
    AddressesOk ⟨⟨s.world.kernel.mmapBase.toNat, arg1.toNat⟩ :: s.record,
      { s.world with kernel := { s.world.kernel with mmapBase := base } }⟩ where
  files := h.files.of_eq rfl rfl
  aligned hand hmem := by
    rcases List.mem_cons.mp hmem with rfl | hmem
    · exact h.cursor
    · exact h.aligned hand hmem
  cursor := by
    change 0x1000 ∣ base.toNat
    rw [hbase]
    exact Nat.dvd_add h.cursor (Dvd.intro_left _ rfl)
  stacked := by
    change Extent.Stacked 0x70000000 base.toNat _
    rw [hbase]
    exact h.stacked.push _
  first _ := by
    by_cases hnil : s.record = []
    · have hfresh := h.fresh hnil
      rw [hfresh] at hbrk ⊢
      exact ⟨⟨_, List.mem_cons_self, rfl⟩, hbrk⟩
    · obtain ⟨⟨hand, hmem, hstart⟩, hlow⟩ := h.first hnil
      exact ⟨⟨hand, List.mem_cons_of_mem _ hmem, hstart⟩, hlow⟩
  fresh hnil := absurd hnil (List.cons_ne_nil _ _)

/-! ## One event -/

/-- An `mmap` that leaves room. -/
theorem AddressesOk.mmap_ok (h : AddressesOk s) (arg0 arg1 arg2 arg3 : U64)
    (hroom : s.world.kernel.mmapBase.toNat + mmapLength arg1.toNat < 2 ^ 64) : ∃ base,
      dispatch .mmap arg0 arg1 arg2 arg3 s.world = .ok s.world.kernel.mmapBase
        { s.world with kernel := { s.world.kernel with mmapBase := base } } ∧
      base.toNat = s.world.kernel.mmapBase.toNat + mmapLength arg1.toNat := by
  have hlow := h.stacked.base_le
  have hlen := (le_mmapLength arg1.toNat).1
  obtain ⟨base, hrun, hbase⟩ := sysMmap_ok s.world (show arg1.toNat + 0xFFF < 2 ^ 64 by omega)
  rw [Nat.mod_eq_of_lt hroom] at hbase
  exact ⟨base, hrun, hbase⟩

/-- **What leaves room keeps the invariant.** -/
theorem AddressesOk.step (h : AddressesOk s) (hroom : LeavesRoom e s)
    (hstep : e.Step HandOut.after s s') : AddressesOk s' := by
  obtain ⟨record, w'⟩ := s'
  obtain ⟨r, hran, hrecord⟩ := hstep
  dsimp only at hran hrecord
  have hfiles := hran.filesOk h.files
  rw [hrecord]
  cases hran with
  | mount | mark | poll | user => exact h.of_eq hfiles rfl rfl
  | @call nr arg0 arg1 arg2 arg3 _ _ _ hrun =>
    by_cases hmmap : nr = .mmap
    · subst hmmap
      obtain ⟨hfits, hbrk⟩ := hroom
      obtain ⟨base, hrun', hbase⟩ := h.mmap_ok arg0 arg1 arg2 arg3 hfits
      obtain ⟨rfl, rfl⟩ := EStateM.Result.ok.inj (hrun.symm.trans hrun')
      rw [HandOut.after, if_neg h.not_isErrno]
      exact h.mmap hbase hbrk
    by_cases hbrk : nr = .brk
    · subst hbrk
      obtain ⟨-, rfl⟩ := EStateM.Result.ok.inj hrun
      exact h.brk hroom
    · have heffect : Effect s.world.kernel nr arg0 arg1 w'.kernel := dispatch_effect r w' hrun
      obtain ⟨hcursor, hbreak⟩ := heffect.addresses hmmap hbrk
      have hsame :
          HandOut.after (.call nr arg0 arg1 arg2 arg3) s.world r w' s.record = s.record := by
        unfold HandOut.after
        split
        · rename_i heq
          exact absurd (KernelEvent.call.inj heq).1 hmmap
        · rfl
      rw [hsame]
      exact h.of_eq hfiles hcursor hbreak

theorem AddressesOk.computes (h : AddressesOk s) (hroom : LeavesRoom e s) : e.Computes s.world := by
  rintro nr arg0 arg1 arg2 arg3 rfl
  by_cases hmmap : nr = .mmap
  · subst hmmap
    obtain ⟨hfits, -⟩ := hroom
    obtain ⟨base, hrun, hbase⟩ := h.mmap_ok arg0 arg1 arg2 arg3 hfits
    refine ⟨_, _, hrun, ?_⟩
    rw [BitVec.le_def]
    dsimp only
    omega
  · have hreturns : ¬Panics (dispatch nr arg0 arg1 arg2 arg3) s.world := fun hpanics ↦
      hmmap ((panics_dispatch h.files).mp hpanics).1
    obtain ⟨r, w', hrun⟩ := exists_ok_of_not_panics hreturns
    have heffect : Effect s.world.kernel nr arg0 arg1 w'.kernel := dispatch_effect r w' hrun
    refine ⟨r, w', hrun, ?_⟩
    by_cases hbrk : nr = .brk
    · subst hbrk
      obtain ⟨-, rfl⟩ := EStateM.Result.ok.inj hrun
      dsimp only
      rw [Kernel.brkSet]
      split <;> exact BitVec.le_refl _
    · rw [(heffect.addresses hmmap hbrk).1]
      exact BitVec.le_refl _

/-- **What hands out apart leaves room.** -/
theorem AddressesOk.leavesRoom (h : AddressesOk s) (hgood : HandsOutApart e s) : LeavesRoom e s := by
  obtain ⟨hcomputes, hapart⟩ := hgood
  have hlow := h.stacked.base_le
  unfold LeavesRoom
  split
  · rename_i arg0 arg1 arg2 arg3
    obtain ⟨r, w', hrun, hmono⟩ := hcomputes _ _ _ _ _ rfl
    have hfits : arg1.toNat + 0xFFF < 2 ^ 64 := by
      by_contra hover
      exact absurd ((panics_dispatch h.files).mpr ⟨rfl, not_lt.mp hover⟩) (panics_of_eq_ok hrun)
    obtain ⟨base, hrun', hbase⟩ := sysMmap_ok s.world hfits
    obtain ⟨rfl, rfl⟩ := EStateM.Result.ok.inj (hrun.symm.trans hrun')
    have hlen : mmapLength arg1.toNat < 2 ^ 64 := by
      rw [mmapLength, pageRound]
      omega
    rw [BitVec.le_def] at hmono
    dsimp only at hmono
    refine ⟨by omega, ?_⟩
    have hstep := hapart ⟨⟨s.world.kernel.mmapBase.toNat, arg1.toNat⟩ :: s.record, _⟩
      ⟨_, .call hrun, (if_neg h.not_isErrno).symm⟩
    have hheap := hstep.heap _ List.mem_cons_self
    rw [BitVec.le_def]
    exact (Extent.disjoint_Ico_iff (le_trans (by decide) hlow) (le_mmapLength _).2).mp hheap
  · rename_i arg0 arg1 arg2 arg3
    by_cases hnil : s.record = []
    · exact .inr hnil
    refine .inl ?_
    obtain ⟨⟨hand, hmem, hstart⟩, hbrk⟩ := h.first hnil
    by_cases hzero : arg0 = 0
    · rw [hzero]
      exact BitVec.le_def.mpr (Nat.zero_le _)
    have hset : s.world.kernel.brkSet arg0 = { s.world.kernel with brk := arg0 } := if_neg hzero
    have hrun : dispatch .brk arg0 arg1 arg2 arg3 s.world =
        .ok arg0 { s.world with kernel := { s.world.kernel with brk := arg0 } } := by
      rw [← hset]
      exact congrArg (EStateM.Result.ok · _) (congrArg Kernel.brk hset)
    have hheap := (hapart ⟨s.record, _⟩ ⟨_, .call hrun, rfl⟩).heap hand hmem
    have hle := (Extent.disjoint_Ico_iff (le_of_le_of_eq (by decide) hstart.symm)
      (le_mmapLength _).2).mp hheap
    rw [BitVec.le_def]
    exact hle.trans_eq hstart
  · trivial

/-! ## Whole histories -/

theorem addressesOk_boot (ram : ℕ → U8) (touched : List ℕ) :
    AddressesOk ⟨[], ⟨.boot, ram, touched⟩⟩ where
  files := Kernel.filesOk_boot
  aligned := nofun
  cursor := show 0x1000 ∣ Kernel.boot.mmapBase.toNat by decide
  stacked := .nil (show 0x70000000 ≤ Kernel.boot.mmapBase.toNat by decide)
  first hne := absurd rfl hne
  fresh _ := rfl

theorem AddressesOk.allSteps_iff (h : AddressesOk s) {es : List KernelEvent} :
    Runs.AllSteps (KernelEvent.Step HandOut.after) HandsOutApart s es ↔
      Runs.AllSteps (KernelEvent.Step HandOut.after) LeavesRoom s es := by
  refine (Runs.allSteps_congr (fun e s s' h hroom hstep ↦ h.step hroom hstep)
    (fun e s h ↦ ⟨fun hroom ↦ ?_, h.leavesRoom⟩) h).symm
  exact ⟨h.computes hroom, fun s' hstep ↦ (h.step hroom hstep).apart⟩

/-- **From the boot on**, what is handed out is apart, in all of a history, if and only if all that
was asked for has left room. -/
theorem handsOutApart_iff (ram : ℕ → U8) (touched : List ℕ) (es : List KernelEvent) :
    Runs.AllSteps (KernelEvent.Step HandOut.after) HandsOutApart ⟨[], ⟨.boot, ram, touched⟩⟩ es ↔
      Runs.AllSteps (KernelEvent.Step HandOut.after) LeavesRoom
        ⟨[], ⟨.boot, ram, touched⟩⟩ es :=
  (addressesOk_boot ram touched).allSteps_iff

/-- Three ways not to: a length that overflows, lengths that take the cursor around, and a heap that
is grown over a region. -/
theorem not_handsOutApart :
    ¬Runs.AllSteps (KernelEvent.Step HandOut.after) HandsOutApart ⟨[], ⟨.boot, fun _ ↦ 0, []⟩⟩
        [.call .mmap 0 (-1) 0 0] ∧
      ¬Runs.AllSteps (KernelEvent.Step HandOut.after) HandsOutApart ⟨[], ⟨.boot, fun _ ↦ 0, []⟩⟩
        [.call .mmap 0 0x8000000000000000 0 0, .call .mmap 0 0x8000000000000000 0 0] ∧
      ¬Runs.AllSteps (KernelEvent.Step HandOut.after) HandsOutApart ⟨[], ⟨.boot, fun _ ↦ 0, []⟩⟩
        [.call .mmap 0 0x1000 0 0, .call .brk 0x80000000 0 0 0] := by
  refine ⟨fun hall ↦ ?_, fun hall ↦ ?_, fun hall ↦ ?_⟩ <;>
    have hroom := (addressesOk_boot _ _).allSteps_iff.mp hall
  · have hfirst := (Runs.allSteps_cons.mp hroom).1
    exact absurd hfirst.1 (by decide)
  · obtain ⟨base, hrun, hbase⟩ := (addressesOk_boot (fun _ ↦ 0) []).mmap_ok 0 0x8000000000000000 0 0
      (by decide)
    have hsecond := (Runs.allSteps_cons.mp hroom).2 ⟨[⟨0x70000000, 0x8000000000000000⟩], _⟩
      ⟨_, .call hrun, rfl⟩
    have hfits := (Runs.allSteps_cons.mp hsecond).1.1
    dsimp only at hfits
    rw [hbase] at hfits
    exact absurd hfits (by decide)
  · obtain ⟨base, hrun, hbase⟩ := (addressesOk_boot (fun _ ↦ 0) []).mmap_ok 0 0x1000 0 0 (by decide)
    have hsecond := (Runs.allSteps_cons.mp hroom).2 ⟨[⟨0x70000000, 0x1000⟩], _⟩
      ⟨_, .call hrun, rfl⟩
    rcases (Runs.allSteps_cons.mp hsecond).1 with hlow | hnil
    · exact absurd hlow (by decide)
    · exact nomatch hnil

end LeonOS
