import LeonOS.Kernel.Positions

/-!
# Copies of descriptors

`dup` and `dup2` copy an entry of the table, and the position is part of the entry.  So a copy is
open on the same file, and begins at the same offset; from then on each of the two has its own
(`dup_own_offsets`).  A history records where the calls through a descriptor have left it
(`Offsets`), and what is done through the other descriptor does not matter.
-/

set_option autoImplicit false

namespace LeonOS

open Bytes RustM

/-- Where its own calls have left a descriptor. -/
abbrev Offsets := U64 → ℕ

/-- The offsets after an event.  Only a call through a descriptor moves it. -/
def Offsets.after (e : KernelEvent) (_ : World) (r : U64) (w' : World) (o : Offsets) : Offsets :=
  match e with
  | .call nr arg0 _ _ _ =>
    Function.update o arg0 (nr.posAfter r (w'.kernel.posOf arg0.toNat) (o arg0))
  | _ => o

/-- The events that neither close nor re-target a descriptor. -/
def KernelEvent.Leaves (fd : U64) : KernelEvent → Prop
  | .mount _ => False
  | .call .close arg0 _ _ _ => arg0 ≠ fd
  | .call .dup2 _ arg1 _ _ => arg1 ≠ fd
  | _ => True

/-- `b` is made a copy of `a`. -/
def Duplicated (a b : U64) (w w' : World) : Prop :=
  0 ≤ b.toInt ∧ ((∃ arg1 arg2 arg3, dispatch .dup a arg1 arg2 arg3 w = .ok b w') ∨
    ∃ arg2 arg3, dispatch .dup2 a b arg2 arg3 w = .ok b w')

/-- What is seen through a descriptor of the file of `entry` at an offset. -/
structure SeenThrough (fd : U64) (entry : FdEntry) (pos : ℕ) (w : World) : Prop where
  /-- It is open on that file, at that offset. -/
  slot : w.kernel.fdTable[fd.toNat]? = some (entry.withPos pos)
  /-- `lseek(fd, 0, SEEK_CUR)` tells the offset, and nothing else happens. -/
  tells : ∀ arg3, dispatch .lseek fd 0 1 arg3 w = .ok (BitVec.ofNat 64 pos) w
  /-- A read of a file returns what is there. -/
  read : ∀ (buf n arg3 : U64) (f : OpenFile), (entry.withPos pos).openFile = some f → buf ≠ 0 →
    ∃ w', dispatch .read fd buf n arg3 w = .ok (BitVec.ofNat 64 (f.count n.toNat)) w' ∧
      w'.ram = poke w.ram buf.toNat (f.read n.toNat)

/-- **Each of two copies has its own offset.** -/
def OwnOffsets (a b : U64) (entry : FdEntry) (s : Recorded Offsets) : Prop :=
  SeenThrough a entry (s.record a) s.world ∧ SeenThrough b entry (s.record b) s.world

/-- The same offset is seen through both. -/
def SharesOffset (a b : U64) (w : World) : Prop :=
  ∀ r r' w₁ w₂, dispatch .lseek a 0 1 0 w = .ok r w₁ → dispatch .lseek b 0 1 0 w = .ok r' w₂ → r = r'

variable {w w' : World} {e : KernelEvent} {r a b fd : U64} {entry : FdEntry} {pos : ℕ}
  {s : Recorded Offsets}

/-! ## One descriptor -/

theorem Nr.posAfter_of_not_seeks {nr : Nr} {now : ℕ} (h : ¬nr.seeks) :
    nr.posAfter r now pos = pos := by
  unfold Nr.posAfter
  split
  · rfl
  cases nr with
  | read => exact absurd (.inl rfl) h
  | lseek => exact absurd (.inr (.inl rfl)) h
  | getdents64 => exact absurd (.inr (.inr rfl)) h
  | _ => rfl

theorem seekPos_cur (last : ℕ) (h : pos < 2 ^ 63) : seekPos pos last 0 1 = some pos := by
  obtain ⟨hnneg, hnat⟩ := Rust.ofNat_of_lt h
  have hint : Rust.saturatingAddSigned (BitVec.ofNat 64 pos) 0 = pos := by
    rw [Rust.saturatingAddSigned, BitVec.toInt_eq_toNat_of_lt (by omega), hnat]
    change max (-2 ^ 63) (min ((pos : ℤ) + 0) (2 ^ 63 - 1)) = pos
    omega
  rw [seekPos]
  dsimp only
  rw [hint, if_neg (by omega), Int.toNat_natCast]

/-- A descriptor that is in use tells its offset. -/
theorem dispatch_tells (hk : w.kernel.FilesOk) (hused : entry ≠ .free) (hpos : entry.pos < 2 ^ 63)
    (hentry : w.kernel.fdTable[fd.toNat]? = some entry) (arg3 : U64) :
    dispatch .lseek fd 0 1 arg3 w = .ok (BitVec.ofNat 64 entry.pos) w := by
  have hhigh : ¬fd.toNat ≤ 2 := fun hlow ↦ by
    rw [hk.reserved fd.toNat (by rw [fdBase]; omega)] at hentry
    exact hused (Option.some_inj.mp hentry).symm
  have hsame := Kernel.setFd_self hentry
  have hseek (last : ℕ) := seekPos_cur last hpos
  rw [dispatch, if_neg hhigh, sysLseek, bind_getKernel, hentry]
  cases entry with
  | free => exact absurd rfl hused
  | rootDir pos | file _ _ pos _ =>
    dsimp only [FdEntry.pos] at hseek ⊢
    rw [show (1 : U64).toNat = 1 from rfl, hseek]
    dsimp only
    rw [bind_modifyKernel, hsame]
    rfl

theorem seenThrough_of_slot (hk : w.kernel.FilesOk) (hpos : w.kernel.PosOk) (hused : entry ≠ .free)
    (hslot : w.kernel.fdTable[fd.toNat]? = some (entry.withPos pos)) :
    SeenThrough fd entry pos w where
  slot := hslot
  tells arg3 := by
    have htells := dispatch_tells hk (FdEntry.withPos_ne_free hused) (hpos _ _ hslot) hslot arg3
    rw [FdEntry.pos_withPos hused] at htells
    exact htells
  read buf n arg3 f hf hbuf := by
    obtain ⟨w', hrun, hram, -⟩ :=
      dispatch_read (n := n) hk ((Kernel.openFiles_eq hslot).trans hf) hbuf arg3
    exact ⟨w', hrun, hram⟩

/-- **A descriptor is where its own calls have left it.** -/
theorem slot_step (hk : s.world.kernel.FilesOk) (hpos : s.world.kernel.PosOk)
    (hused : entry ≠ .free)
    (hslot : s.world.kernel.fdTable[fd.toNat]? = some (entry.withPos (s.record fd)))
    (hleaves : e.Leaves fd) (hran : e.Ran s.world r w') :
    w'.kernel.fdTable[fd.toNat]? =
      some (entry.withPos (Offsets.after e s.world r w' s.record fd)) := by
  cases hran with
  | mount => exact hleaves.elim
  | mark | poll | user => exact hslot
  | @call nr arg0 arg1 arg2 arg3 _ _ _ hrun =>
    rw [Offsets.after]
    by_cases hown : nr.seeks ∧ arg0 = fd
    · obtain ⟨hnr, rfl⟩ := hown
      have hmoves := dispatch_moves hk hnr hslot (FdEntry.withPos_ne_free hused)
        (hpos _ _ hslot) r w' hrun
      have hslot' := hmoves.slot (Kernel.lt_of_getElem?_fdTable hslot)
      rw [FdEntry.withPos_withPos, FdEntry.pos_withPos hused] at hslot'
      rw [Function.update_self]
      exact hslot'
    · have hrecord : Function.update s.record arg0
          (nr.posAfter r (w'.kernel.posOf arg0.toNat) (s.record arg0)) fd = s.record fd := by
        by_cases hfd : arg0 = fd
        · rw [hfd, Function.update_self, Nr.posAfter_of_not_seeks fun hnr ↦ hown ⟨hnr, hfd⟩]
        · exact Function.update_of_ne (Ne.symm hfd) _ _
      have heffect : Effect s.world.kernel nr arg0 arg1 w'.kernel := dispatch_effect r w' hrun
      have hfree : s.world.kernel.fdTable[fd.toNat]? ≠ some .free := by
        rw [hslot]
        exact fun h ↦ FdEntry.withPos_ne_free hused (Option.some_inj.mp h)
      rw [hrecord, heffect.slot ?_ hfree]
      · exact hslot
      rintro (⟨rfl | hnr, heq⟩ | ⟨rfl, heq⟩)
      · exact hleaves (BitVec.toNat_inj.mp heq)
      · exact hown ⟨hnr, BitVec.toNat_inj.mp heq⟩
      · exact hleaves (BitVec.toNat_inj.mp heq)

/-! ## Two descriptors -/

/-- What `dup` and `dup2` do when they succeed. -/
def Copied (a : U64) (w : World) (r : U64) (w' : World) : Prop :=
  0 ≤ r.toInt → r.toNat < maxFds ∧ ∃ entry, entry ≠ .free ∧
    w.kernel.fdTable[a.toNat]? = some entry ∧ w'.kernel = w.kernel.setFd r.toNat entry

theorem sysDup_copied (ha : ¬a.toNat ≤ 2) : Ensures (sysDup a.toNat) w (Copied a w) := by
  rw [sysDup, if_neg ha, ensures_bind, ensures_getKernel]
  split
  · exact ensures_pure.mpr fun h ↦ absurd h (by decide)
  · exact ensures_pure.mpr fun h ↦ absurd h (by decide)
  · rename_i entry hused hentry
    rw [allocFd, ensures_bind, ensures_getKernel]
    split
    · rename_i i hi
      have hlt := (Kernel.firstFree_bound hi).2
      obtain ⟨-, hnat⟩ := Rust.ofNat_of_lt (hlt.trans (by decide))
      simp only [ensures_bind, ensures_modifyKernel, ensures_pure, Copied, hnat]
      exact fun _ ↦ ⟨hlt, entry, hused, hentry, rfl⟩
    · exact ensures_pure.mpr fun h ↦ absurd h (by decide)

theorem sysDup2_copied (ha : ¬a.toNat ≤ 2) : Ensures (sysDup2 a.toNat b.toNat) w (Copied a w) := by
  rw [sysDup2, if_neg ha, ensures_ite]
  refine ⟨fun _ ↦ ensures_pure.mpr fun h ↦ absurd h (by decide), fun hnew ↦ ?_⟩
  rw [ensures_bind, ensures_getKernel]
  split
  · exact ensures_pure.mpr fun h ↦ absurd h (by decide)
  · exact ensures_pure.mpr fun h ↦ absurd h (by decide)
  · rename_i entry hused hentry
    have hlt : b.toNat < maxFds := not_le.mp fun h ↦ hnew (.inl h)
    obtain ⟨-, hnat⟩ := Rust.ofNat_of_lt (hlt.trans (by decide))
    simp only [ensures_bind, ensures_modifyKernel, ensures_pure, Copied, hnat]
    exact fun _ ↦ ⟨hlt, entry, hused, hentry, rfl⟩

/-- A copy has the entry of the original. -/
theorem Duplicated.slots (h : Duplicated a b w w') (ha : 3 ≤ a.toNat) :
    ∃ entry, entry ≠ .free ∧ w.kernel.fdTable[a.toNat]? = some entry ∧
      w'.kernel.fdTable[a.toNat]? = some entry ∧ w'.kernel.fdTable[b.toNat]? = some entry := by
  have hhigh : ¬a.toNat ≤ 2 := by omega
  obtain ⟨hb, hcall⟩ := h
  have hcopied : Copied a w b w' := by
    rcases hcall with ⟨arg1, arg2, arg3, hrun⟩ | ⟨arg2, arg3, hrun⟩
    · exact sysDup_copied hhigh b w' hrun
    · exact sysDup2_copied hhigh b w' hrun
  obtain ⟨hlt, entry, hused, hentry, hk⟩ := hcopied hb
  refine ⟨entry, hused, hentry, ?_, ?_⟩
  · rw [hk, Kernel.getElem?_setFd hlt]
    split
    · rfl
    · exact hentry
  · rw [hk, Kernel.getElem?_setFd hlt, if_pos rfl]

/-- The call that makes a copy is an event like any other. -/
theorem Duplicated.reachable (h : Duplicated a b w w') (hw : w.kernel.Reachable) :
    w'.kernel.Reachable := by
  rcases h.2 with ⟨arg1, arg2, arg3, hrun⟩ | ⟨arg2, arg3, hrun⟩
  · exact hw.step (.call hrun)
  · exact hw.step (.call hrun)

/-- **From a `dup` on, each of the two copies has its own offset**, whatever happens; it begins at
that of the original. -/
theorem dup_own_offsets (w w' : World) (a b : U64) (es : List KernelEvent)
    (hw : w.kernel.Reachable) (ha : 3 ≤ a.toNat) (hdup : Duplicated a b w w')
    (hes : ∀ e ∈ es, e.Leaves a ∧ e.Leaves b) :
    ∃ entry, w.kernel.fdTable[a.toNat]? = some entry ∧
      Runs.Always (KernelEvent.Step Offsets.after) (OwnOffsets a b entry)
        ⟨fun _ ↦ entry.pos, w'⟩ es := by
  obtain ⟨entry, hused, hentry, hslota, hslotb⟩ := hdup.slots ha
  refine ⟨entry, hentry, ?_⟩
  let Ok (s : Recorded Offsets) : Prop := s.world.kernel.Reachable ∧
    s.world.kernel.fdTable[a.toNat]? = some (entry.withPos (s.record a)) ∧
    s.world.kernel.fdTable[b.toNat]? = some (entry.withPos (s.record b))
  have hstart : Ok ⟨fun _ ↦ entry.pos, w'⟩ := by
    refine ⟨hdup.reachable hw, ?_, ?_⟩
    · rw [FdEntry.withPos_pos]
      exact hslota
    · rw [FdEntry.withPos_pos]
      exact hslotb
  have hkeep : ∀ e s r w', KernelEvent.Leaves a e ∧ KernelEvent.Leaves b e → Ok s →
      KernelEvent.Ran e s.world r w' → Ok ⟨Offsets.after e s.world r w' s.record, w'⟩ := by
    rintro e s r w' ⟨hleavesa, hleavesb⟩ ⟨hreach, hsa, hsb⟩ hran
    exact ⟨hreach.step hran,
      slot_step hreach.filesOk hreach.posOk hused hsa hleavesa hran,
      slot_step hreach.filesOk hreach.posOk hused hsb hleavesb hran⟩
  intro es' s hes' hrun
  obtain ⟨hreach, hsa, hsb⟩ := KernelEvent.always hkeep hstart hes es' s hes' hrun
  exact ⟨seenThrough_of_slot hreach.filesOk hreach.posOk hused hsa,
    seenThrough_of_slot hreach.filesOk hreach.posOk hused hsb⟩

/-- The root directory is open as descriptor 3. -/
def rootOpen : World := ⟨Kernel.boot.setFd 3 (.rootDir 0), fun _ ↦ 0, []⟩

/-- It is opened by its name `""`. -/
theorem reachable_rootOpen : rootOpen.kernel.Reachable := by
  have hran : KernelEvent.Ran (.call .openat (-100) 0x1000 0 0) ⟨.boot, fun _ ↦ 0, []⟩ 3
      { rootOpen with touched := [0x1000] } := .call rfl
  have hreach := Kernel.Reachable.step (w := ⟨.boot, fun _ ↦ 0, []⟩) Kernel.reachable_boot hran
  exact hreach

/-- Descriptor 4 is made a copy of 3. -/
theorem duplicated_rootOpen : Duplicated 3 4 rootOpen
    ⟨rootOpen.kernel.setFd 4 (.rootDir 0), fun _ ↦ 0, []⟩ :=
  ⟨by decide, .inl ⟨0, 0, 0, rfl⟩⟩

/-- An `lseek` through the original is not seen through the copy. -/
theorem lseek_not_shared : rootOpen.kernel.Reachable ∧ ∃ w₁ w₂, Duplicated 3 4 rootOpen w₁ ∧
    dispatch .lseek 3 1 0 0 w₁ = .ok 1 w₂ ∧ dispatch .lseek 3 0 1 0 w₂ = .ok 1 w₂ ∧
    dispatch .lseek 4 0 1 0 w₂ = .ok 0 w₂ ∧ ¬SharesOffset 3 4 w₂ := by
  refine ⟨reachable_rootOpen, _,
    ⟨(rootOpen.kernel.setFd 4 (.rootDir 0)).setFd 3 (.rootDir 1), fun _ ↦ 0, []⟩,
    duplicated_rootOpen, rfl, rfl, rfl, fun hshares ↦ ?_⟩
  exact absurd (hshares 1 0 _ _ rfl rfl) (by decide)

/-- The root directory, a copy of it, and calls through both. -/
theorem dup_own_offsets_rootOpen :
    ∃ entry, rootOpen.kernel.fdTable[3]? = some entry ∧
      Runs.Always (KernelEvent.Step Offsets.after) (OwnOffsets 3 4 entry)
        ⟨fun _ ↦ entry.pos, ⟨rootOpen.kernel.setFd 4 (.rootDir 0), fun _ ↦ 0, []⟩⟩
        [.call .lseek 3 1 0 0, .call .getdents64 4 0x1000 64 0, .call .lseek 4 0 1 0] := by
  refine dup_own_offsets rootOpen _ 3 4 _ reachable_rootOpen (by decide) duplicated_rootOpen ?_
  intro e he
  rcases List.mem_cons.mp he with rfl | he
  · exact ⟨trivial, trivial⟩
  rcases List.mem_cons.mp he with rfl | he
  · exact ⟨trivial, trivial⟩
  · rw [List.mem_singleton.mp he]
    exact ⟨trivial, trivial⟩

end LeonOS
