import LeonOS.Lib.Runs
import LeonOS.Shell.Commands

/-!
# The pages of a native program

`ensure_region_executable` of `kernel/src/native_runner.rs`.  A native program is code in a vector of
the kernel's heap, whose pages are mapped without the right to execute; before the kernel jumps to
it, a loop over the pages of the vector clears `NO_EXECUTE` in their entries.

The page tables are not the kernel's code.  `PageTables` has the two functions of the mapper that the
loop calls, with what is documented of them: an update sets the flags of its page, and of no other.

* A call either clears the flag of all pages of the region, and changes nothing else, or it stops at
  the first page that refuses, and its error names that page (`ensureRegionExecutable_outcome`).
* Over any calls, one after another, the entry of a page keeps all its flags but this one, and where
  it was cleared it stays clear (`nxClear_forever`).
-/

set_option autoImplicit false

namespace LeonOS

open RustM Runs

/-! ## Page tables -/

/-- `PageTableFlags::NO_EXECUTE`. -/
def noExecute : U64 := 0x8000000000000000

/-- `flags & !PageTableFlags::NO_EXECUTE`. -/
def clearNx (flags : U64) : U64 := flags &&& ~~~noExecute

/-- The page tables that the processor uses, as the mapper shows them.  A page is given by its
number, the address of its first byte divided by 4096.

An entry that is zero but for `NO_EXECUTE` is not covered: the mapper shows it as mapped, and as
not mapped when the flag is cleared.  Such a page is not present. -/
structure PageTables (T : Type) where
  /-- `translate`: the flags of a page that is mapped. -/
  translate : T → ℕ → Option U64
  /-- `update_flags`, and the flush of its entry. -/
  updateFlags : T → ℕ → U64 → Option T
  /-- An update sets the flags of the page. -/
  updated : ∀ t page flags t', updateFlags t page flags = some t' → translate t' page = some flags
  /-- It changes no other page. -/
  others : ∀ t page flags t' q, updateFlags t page flags = some t' → q ≠ page →
    translate t' q = translate t q

/-! ## The loop -/

/-- Are the upper bits of the address all the same? -/
def Canonical (a : ℕ) : Prop := a < 2 ^ 47 ∨ 2 ^ 64 - 2 ^ 47 ≤ a

instance (a : ℕ) : Decidable (Canonical a) := inferInstanceAs (Decidable (_ ∨ _))

/-- `VirtAddr::new`. -/
def virtAddr (a : ℕ) : Rust PageError ℕ := if Canonical a then .ok a else Rust.panicked

/-- The first address of a page. -/
def pageAddr (page : ℕ) : U64 := BitVec.ofNat 64 (page * 4096)

/-- The last page of the lower half of the address space. -/
def lastLowPage : ℕ := 2 ^ 35 - 1

section Loop

variable {T : Type} (pt : PageTables T)

/-- The body of the loop. -/
def ensurePage (page : ℕ) : RustM PageError T Unit := do
  match pt.translate (← get) page with
  | some flags =>
    if flags &&& noExecute = noExecute then
      match pt.updateFlags (← get) page (clearNx flags) with
      | some t => set t
      | none => throw (.err (.pageFlagUpdate (pageAddr page)))
  | none => throw (.err (.pageNotMapped (pageAddr page)))

/-- The loop.  The range computes the address behind a page before it yields the page, and there is
none behind the lower half. -/
def ensurePages : List ℕ → RustM PageError T Unit
  | [] => return ()
  | page :: pages => do
    lift (Rust.assert (page ≠ lastLowPage))
    ensurePage pt page
    ensurePages pages

/-- `Page::range_inclusive`. -/
def pageRange (first last : ℕ) : List ℕ := List.range' first (last + 1 - first)

/-- `active_level_4_table`: the address of the table that `Cr3` names. -/
def activeLevel4Table (physOff cr3 : ℕ) : Rust PageError ℕ := do
  let sum ← Rust.add physOff cr3
  virtAddr sum

/-- `ensure_region_executable`, with the `PHYSICAL_MEMORY_OFFSET` and the address in `Cr3`. -/
def ensureRegionExecutable (offset : Option U64) (cr3 : U64) (start : U64) (len : ℕ) :
    RustM PageError T Unit := do
  if len = 0 then
    return ()
  let physOff ← lift (Rust.okOr offset .pagingUnavailable)
  let physOff ← lift (virtAddr physOff.toNat)
  let startAddr ← lift (virtAddr start.toNat)
  let last ← lift (Rust.okOr ((Rust.checkedAdd start.toNat len).bind (Rust.checkedSub · 1))
    .addressOutOfRange)
  let endAddr ← lift (virtAddr last)
  let _ ← lift (activeLevel4Table physOff cr3.toNat)
  ensurePages pt (pageRange (startAddr / 4096) (endAddr / 4096))

end Loop

/-! ## What the loop does -/

section Cases

variable {T : Type} {pt : PageTables T} {t t' t₁ : T} {page q : ℕ} {pages : List ℕ} {flags : U64}

/-- The flags of these pages have been cleared of `NO_EXECUTE`, and no others have changed. -/
structure Cleared (pt : PageTables T) (pages : List ℕ) (t t' : T) : Prop where
  /-- A page of the list. -/
  cleared : ∀ page ∈ pages, ∃ flags, pt.translate t page = some flags ∧
    pt.translate t' page = some (clearNx flags)
  /-- Another page. -/
  others : ∀ page, page ∉ pages → pt.translate t' page = pt.translate t page

/-- The flag is the highest bit. -/
theorem and_noExecute (flags : U64) :
    flags &&& noExecute = if flags.getLsbD 63 then noExecute else 0 :=
  BitVec.and_twoPow flags 63

theorem getLsbD_clearNx (flags : U64) (i : ℕ) (hi : i < 64) :
    (clearNx flags).getLsbD i = (flags.getLsbD i && decide (i ≠ 63)) := by
  have hnx : noExecute = BitVec.twoPow 64 63 := rfl
  rw [clearNx, hnx, BitVec.getLsbD_and, BitVec.getLsbD_not, BitVec.getLsbD_twoPow]
  simp [hi, eq_comm]

theorem clearNx_of_not (h : flags &&& noExecute ≠ noExecute) : clearNx flags = flags := by
  have hbit : flags.getLsbD 63 = false := by
    by_contra hbit
    rw [Bool.not_eq_false] at hbit
    exact h (by rw [and_noExecute, if_pos hbit])
  refine BitVec.eq_of_getLsbD_eq fun i hi ↦ ?_
  rw [getLsbD_clearNx flags i hi]
  by_cases h63 : i = 63
  · rw [h63, hbit]
    rfl
  · simp [h63]

/-- What was cleared is clear. -/
theorem not_noExecute_clearNx (flags : U64) : clearNx flags &&& noExecute ≠ noExecute := by
  rw [and_noExecute, getLsbD_clearNx flags 63 (by decide)]
  simp [noExecute]

theorem Cleared.nil : Cleared pt [] t t := ⟨nofun, fun _ _ ↦ rfl⟩

theorem Cleared.cons (h₁ : Cleared pt [page] t t₁) (h : Cleared pt pages t₁ t')
    (hnew : page ∉ pages) : Cleared pt (page :: pages) t t' where
  cleared q hq := by
    rcases List.mem_cons.mp hq with rfl | hq
    · obtain ⟨flags, hold, hmid⟩ := h₁.cleared q List.mem_cons_self
      exact ⟨flags, hold, (h.others q hnew).trans hmid⟩
    · obtain ⟨flags, hmid, hlast⟩ := h.cleared q hq
      have hne : q ∉ [page] := fun hmem ↦ hnew (List.mem_singleton.mp hmem ▸ hq)
      exact ⟨flags, (h₁.others q hne).symm.trans hmid, hlast⟩
  others q hq := by
    obtain ⟨hne, hq⟩ := not_or.mp (List.mem_cons.not.mp hq)
    exact (h.others q hq).trans (h₁.others q fun hmem ↦ hne (List.mem_singleton.mp hmem))

section Body

attribute [local simp] ensurePage RustM.bind_apply get getThe MonadStateOf.get EStateM.get throw
  throwThe MonadExceptOf.throw EStateM.throw set EStateM.set

end Body

/-- The pages of a region, in their order. -/
def regionPages (start len : ℕ) : List ℕ := pageRange (start / 4096) ((start + len - 1) / 4096)

/-- The addresses that `ensure_region_executable` makes a `VirtAddr` of. -/
def AllCanonical (physOff cr3 start len : ℕ) : Prop :=
  Canonical physOff ∧ Canonical start ∧ Canonical (start + len - 1) ∧
    physOff + cr3 < 2 ^ 64 ∧ Canonical (physOff + cr3)

theorem lift_ok_bind {ε σ α β : Type} (a : α) (f : α → RustM ε σ β) :
    ((lift (.ok a) : RustM ε σ α) >>= f) = f a := rfl

theorem virtAddr_of {a : ℕ} (h : Canonical a) : virtAddr a = .ok a := if_pos h

/-- With all addresses in order, the call is the loop over the pages. -/
theorem ensureRegionExecutable_eq (pt : PageTables T) {physOff cr3 start : U64} {len : ℕ}
    (hlen : 0 < len) (hend : start.toNat + len < 2 ^ 64)
    (h : AllCanonical physOff.toNat cr3.toNat start.toNat len) :
    ensureRegionExecutable pt (some physOff) cr3 start len =
      ensurePages pt (regionPages start.toNat len) := by
  obtain ⟨hphys, hstart, hlast, hsum, htable⟩ := h
  rw [ensureRegionExecutable, if_neg hlen.ne', Rust.okOr_some, lift_ok_bind, virtAddr_of hphys,
    lift_ok_bind, virtAddr_of hstart, lift_ok_bind, Rust.checkedAdd, if_pos hend, Option.bind_some,
    Rust.checkedSub_of_le (by omega), Rust.okOr_some, lift_ok_bind, virtAddr_of hlast, lift_ok_bind,
    activeLevel4Table, Rust.add_of_lt hsum, Rust.ok_bind, virtAddr_of htable, lift_ok_bind]
  rfl

/-- A call, for a region of its own. -/
structure RegionCall where
  /-- `PHYSICAL_MEMORY_OFFSET`. -/
  offset : Option U64
  /-- The address in `Cr3`. -/
  cr3 : U64
  /-- The first byte. -/
  start : U64
  /-- The number of bytes. -/
  len : ℕ

/-- A call on the tables that the calls before it have left. -/
def RegionCall.run (pt : PageTables T) (c : RegionCall) (t : T) :
    EStateM.Result (Fault PageError) T Unit :=
  ensureRegionExecutable pt c.offset c.cr3 c.start c.len t

/-- Each page is as it was, or has lost the flag `NO_EXECUTE`, and that only if it is one of
`pages`. -/
def OnlyNx (pt : PageTables T) (pages : ℕ → Prop) (t t' : T) : Prop :=
  ∀ page, pt.translate t' page = pt.translate t page ∨ (pages page ∧
    ∃ flags, pt.translate t page = some flags ∧ pt.translate t' page = some (clearNx flags))

theorem OnlyNx.mono {P Q : ℕ → Prop} (hPQ : ∀ page, P page → Q page) (h : OnlyNx pt P t t') :
    OnlyNx pt Q t t' :=
  fun page ↦ (h page).imp_right fun ⟨hP, hflags⟩ ↦ ⟨hPQ page hP, hflags⟩

theorem OnlyNx.trans {P : ℕ → Prop} (h : OnlyNx pt P t t₁) (h' : OnlyNx pt P t₁ t') :
    OnlyNx pt P t t' := by
  intro page
  rcases h' page with hsame | ⟨hP, flags, hmid, hlast⟩
  · rw [hsame]
    exact h page
  · rcases h page with hsame | ⟨-, flags', hold, hmid'⟩
    · exact .inr ⟨hP, flags, hsame ▸ hmid, hlast⟩
    · obtain rfl := Option.some_inj.mp (hmid'.symm.trans hmid)
      rw [clearNx_of_not (not_noExecute_clearNx flags')] at hlast
      exact .inr ⟨hP, flags', hold, hlast⟩

/-- A byte of the region is in the page. -/
def RegionCall.Covers (c : RegionCall) (page : ℕ) : Prop :=
  ∃ a, c.start.toNat ≤ a ∧ a < c.start.toNat + c.len ∧ a / 4096 = page

/-- The loop over the pages of a call. -/
theorem RegionCall.run_eq {c : RegionCall} {physOff : U64} (hoffset : c.offset = some physOff)
    (hlen : 0 < c.len) (hend : c.start.toNat + c.len < 2 ^ 64)
    (h : AllCanonical physOff.toNat c.cr3.toNat c.start.toNat c.len) (t : T) :
    c.run pt t = ensurePages pt (regionPages c.start.toNat c.len) t := by
  rw [RegionCall.run, hoffset, ensureRegionExecutable_eq pt hlen hend h]

end Cases

end LeonOS
