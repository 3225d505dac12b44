import LeonOS.Kernel.Dirents

/-!
# Listing directories

A descriptor of the root directory lists it exactly, over whole histories: the records of its
`getdents64` calls, put one after the other, are those of the directory in their order, none of
them twice and none left out, whatever buffers the calls were given and whatever happened to other
descriptors in between (`dirents_exact`).  A zero says that all of them were listed, and the
`d_off` of a record leads `lseek` to what is behind it.

A history records where a listing began, what has been seen since, and if a zero was returned
(`Listing`).
-/

set_option autoImplicit false

namespace LeonOS

open Bytes RustM

/-- What was listed through a descriptor. -/
structure Listing where
  /-- The position that the listing began at. -/
  start : ℕ
  /-- The records of the calls, if all that they wrote were records. -/
  seen : Option (List Dirent)
  /-- A call has returned zero. -/
  done : Bool

namespace Listing

/-- The listing before the first call. -/
def fresh (start : ℕ) : Listing := ⟨start, some [], false⟩

/-- The listing after a call that returned `r`; `bs` are the bytes that it says it wrote. -/
def append (l : Listing) (r : U64) (bs : List U8) : Listing where
  start := l.start
  seen := do return (← l.seen) ++ (← Dirent.parse bs)
  done := l.done || r = 0

/-- The listing through `fd` after an event.  A call that fails adds nothing, and `lseek` begins a
new listing. -/
def after (fd : U64) (e : KernelEvent) (_ : World) (r : U64) (w' : World) (l : Listing) :
    Listing :=
  match e with
  | .call .getdents64 arg0 dirp _ _ =>
    if arg0 = fd ∧ ¬r.toInt < 0 then l.append r (peek w'.ram dirp.toNat r.toNat) else l
  | .call .lseek arg0 off _ _ => if arg0 = fd then fresh off.toNat else l
  | _ => l

end Listing

/-- The events that leave `fd` open.  It may be moved to the start, or to the `d_off` of a record;
`last` is the number of them. -/
def KernelEvent.Spares (fd : U64) (last : ℕ) : KernelEvent → Prop
  | .mount _ => False
  | .call .close arg0 _ _ _ => arg0 ≠ fd
  | .call .dup2 _ arg1 _ _ => arg1 ≠ fd
  | .call .lseek arg0 off whence _ => arg0 = fd → whence = 0 ∧ off.toNat ≤ last
  | _ => True

/-- Calls through `fd` list the directory from a position on. -/
def ListsFrom (fd : U64) (i : ℕ) (w : World) : Prop :=
  ∀ dirp count arg3 : U64, dirp ≠ 0 → ∃ ds r w',
    dispatch .getdents64 fd dirp count arg3 w = .ok r w' ∧
    Listed (w.kernel.dirents.drop i) dirp.toNat count.toNat w.ram w'.ram r ds ∧
    w'.kernel = w.kernel.setFd fd.toNat (.rootDir (i + ds.length))

/-- **The directory is listed exactly.** -/
structure DirentsExact (fd : U64) (all : List Dirent) (s : Recorded Listing) : Prop where
  /-- The directory stays as it is. -/
  same : s.world.kernel.dirents = all
  /-- What was seen are the records from where the listing began, and the next call goes on behind
  them. -/
  seen : ∃ ds, s.record.seen = some ds ∧ ds <+: all.drop s.record.start ∧
    ListsFrom fd (s.record.start + ds.length) s.world
  /-- After a zero, it is all of them. -/
  done : s.record.done = true → s.record.seen = some (all.drop s.record.start)
  /-- The `d_off` of a record leads to what is behind it. -/
  resume : ∀ (i : ℕ) (d : Dirent) (arg3 : U64), all[i]? = some d →
    ∃ w', dispatch .lseek fd (BitVec.ofNat 64 d.off) 0 arg3 s.world =
      .ok (BitVec.ofNat 64 d.off) w' ∧ w'.kernel.dirents = all ∧ ListsFrom fd (i + 1) w'

/-! ## The invariant -/

/-- What a history says of a listing, and the table. -/
structure ListingOk (fd : U64) (all : List Dirent) (s : Recorded Listing) : Prop where
  /-- The directory stays as it is. -/
  same : s.world.kernel.dirents = all
  /-- The position is behind what was seen. -/
  pos : ∃ ds, s.record.seen = some ds ∧ ds <+: all.drop s.record.start ∧
    s.record.start + ds.length ≤ all.length ∧
    s.world.kernel.fdTable[fd.toNat]? = some (.rootDir (s.record.start + ds.length)) ∧
    (s.record.done = true → ds = all.drop s.record.start)

variable {fd : U64} {all : List Dirent} {s : Recorded Listing} {w : World} {i : ℕ}

theorem length_dirents_lt (k : Kernel) : k.dirents.length < 2 ^ 16 + 2 := by
  rw [Kernel.dirents, List.length_mapIdx]
  exact (length_rootNames_le k).trans_lt (two_le_rootEntriesCount k).2

/-- `lseek` to a position. -/
theorem dispatch_lseek_rootDir {whence : U64} {off : U64} (hbase : fdBase ≤ fd.toNat)
    (hfd : w.kernel.fdTable[fd.toNat]? = some (.rootDir i)) (hwhence : whence = 0)
    (hoff : off.toNat < 2 ^ 63) (arg3 : U64) :
    dispatch .lseek fd off whence arg3 w =
      .ok off { w with kernel := w.kernel.setFd fd.toNat (.rootDir off.toNat) } := by
  have hseek : seekPos i w.kernel.rootEntriesCount off 0 = some off.toNat := by
    have hint : Rust.saturatingAddSigned 0 off = off.toNat := by
      rw [Rust.saturatingAddSigned, BitVec.toInt_eq_toNat_of_lt (x := off) (by omega)]
      change max (-2 ^ 63) (min (0 + (off.toNat : ℤ)) (2 ^ 63 - 1)) = off.toNat
      omega
    rw [seekPos]
    dsimp only
    rw [hint, if_neg (by omega), Int.toNat_natCast]
  have hlow : ¬fd.toNat ≤ 2 := by
    rw [fdBase] at hbase
    omega
  rw [dispatch, if_neg hlow, sysLseek, bind_getKernel, hfd, hwhence]
  dsimp only
  rw [show (0 : U64).toNat = 0 from rfl, hseek]
  dsimp only
  rw [bind_modifyKernel, BitVec.ofNat_toNat, BitVec.setWidth_eq]
  rfl

theorem off_of_dirents {d : Dirent} (h : w.kernel.dirents[i]? = some d) : d.off = i + 1 := by
  rw [Kernel.dirents, List.getElem?_mapIdx, Option.map_eq_some_iff] at h
  obtain ⟨name, -, rfl⟩ := h
  rfl

theorem ListingOk.exact (hbase : fdBase ≤ fd.toNat) (h : ListingOk fd all s) :
    DirentsExact fd all s := by
  obtain ⟨rfl, ds, hseen, hprefix, hle, hfd, hdone⟩ := h
  constructor
  · rfl
  · refine ⟨ds, hseen, hprefix, fun dirp count arg3 hdirp ↦ ?_⟩
    exact dispatch_getdents64 hfd hle hdirp arg3
  · intro h
    rw [hseen, hdone h]
  · intro i d arg3 hd
    have hi := (List.getElem?_eq_some_iff.mp hd).1
    have hsmall := length_dirents_lt s.world.kernel
    have hoff : (BitVec.ofNat 64 d.off).toNat = i + 1 := by
      rw [off_of_dirents hd]
      exact (Rust.ofNat_of_lt (by omega)).2
    have hslot : (s.world.kernel.setFd fd.toNat (.rootDir (i + 1))).fdTable[fd.toNat]? =
        some (.rootDir (i + 1)) :=
      (Kernel.getElem?_setFd (Kernel.lt_of_getElem?_fdTable hfd)).trans (if_pos rfl)
    refine ⟨_, dispatch_lseek_rootDir hbase hfd rfl (by omega) arg3, rfl, ?_⟩
    rw [hoff]
    intro dirp count arg3 hdirp
    exact @dispatch_getdents64 ⟨_, _, _⟩ _ _ _ _ hslot hi hdirp arg3

/-! ## One event -/

/-- A call through another descriptor, or one that lists nothing. -/
theorem Listing.after_call {nr : Nr} {arg0 arg1 arg2 arg3 r : U64} {w' : World} (l : Listing)
    (h : arg0 = fd → nr ≠ .getdents64 ∧ nr ≠ .lseek) :
    l.after fd (.call nr arg0 arg1 arg2 arg3) w r w' = l := by
  cases nr with
  | getdents64 => exact if_neg fun heq ↦ (h heq.1).1 rfl
  | lseek => exact if_neg fun heq ↦ (h heq).2 rfl
  | _ => rfl

/-- A descriptor of the directory that is spared stays where it is. -/
theorem ListingOk.call {nr : Nr} {arg0 arg1 arg2 arg3 r : U64} {w' : World}
    (h : ListingOk fd all s)
    (hspares : (KernelEvent.call nr arg0 arg1 arg2 arg3).Spares fd all.length)
    (hother : arg0 = fd → nr ≠ .getdents64 ∧ nr ≠ .lseek)
    (hrun : dispatch nr arg0 arg1 arg2 arg3 s.world = .ok r w') :
    ListingOk fd all ⟨s.record, w'⟩ := by
  obtain ⟨rfl, ds, hseen, hprefix, hle, hfd, hdone⟩ := h
  have heffect : Effect s.world.kernel nr arg0 arg1 w'.kernel := dispatch_effect _ _ hrun
  have hslot : w'.kernel.fdTable[fd.toNat]? = s.world.kernel.fdTable[fd.toNat]? := by
    by_cases hread : nr = .read ∧ arg0 = fd
    · obtain ⟨rfl, rfl⟩ := hread
      exact heffect.slot_of_isRootDir hfd rfl
    refine heffect.slot (fun htarget ↦ ?_) (by rw [hfd]; simp)
    rcases htarget with ⟨hnr, heq⟩ | ⟨rfl, heq⟩
    · obtain rfl := BitVec.toNat_inj.mp heq
      rcases hnr with rfl | rfl | rfl | rfl
      · exact hspares rfl
      · exact hread ⟨rfl, rfl⟩
      · exact (hother rfl).2 rfl
      · exact (hother rfl).1 rfl
    · exact hspares (BitVec.toNat_inj.mp heq)
  refine ⟨dirents_congr heffect.rootfs, ds, hseen, hprefix, hle, ?_, hdone⟩
  rw [hslot]
  exact hfd

/-- A null pointer is refused. -/
theorem ListingOk.list_null {count arg3 r : U64} {w' : World} (h : ListingOk fd all s)
    (hrun : dispatch .getdents64 fd 0 count arg3 s.world = .ok r w') :
    ListingOk fd all
      ⟨s.record.after fd (.call .getdents64 fd 0 count arg3) s.world r w', w'⟩ := by
  rw [dispatch, sysGetdents64] at hrun
  obtain ⟨rfl, rfl⟩ := EStateM.Result.ok.inj hrun
  have hsame : s.record.after fd (.call .getdents64 fd 0 count arg3) s.world (-efault) s.world =
      s.record := if_neg fun hpos ↦ hpos.2 (by decide)
  rw [hsame]
  exact h

/-- A call that is not refused returns the length of what it has written. -/
theorem Listed.total {rest next : List Dirent} {dirp count : ℕ} {ram ram' : ℕ → U8} {r : U64}
    (h : Listed rest dirp count ram ram' r next) (hnot : ¬(next = [] ∧ rest ≠ [])) :
    ¬r.toInt < 0 ∧ r.toNat = Dirent.total next := by
  by_cases hnil : next = []
  · rw [h.ended.mpr (not_not.mp fun hrest ↦ hnot ⟨hnil, hrest⟩), hnil]
    decide
  · exact h.returned hnil

theorem ListingOk.list {dirp count arg3 r : U64} {w' : World} (h : ListingOk fd all s)
    (hrun : dispatch .getdents64 fd dirp count arg3 s.world = .ok r w') :
    ListingOk fd all
      ⟨s.record.after fd (.call .getdents64 fd dirp count arg3) s.world r w', w'⟩ := by
  by_cases hdirp : dirp = 0
  · subst hdirp
    exact h.list_null hrun
  obtain ⟨rfl, ds, hseen, hprefix, hle, hfd, hdone⟩ := h
  obtain ⟨next, r', w₁, hrun', hlisted, hkernel⟩ := dispatch_getdents64 hfd hle hdirp arg3
  obtain ⟨rfl, rfl⟩ := EStateM.Result.ok.inj (hrun'.symm.trans hrun)
  have hslot : w₁.kernel.fdTable[fd.toNat]? =
      some (.rootDir (s.record.start + (ds ++ next).length)) := by
    rw [hkernel, Kernel.getElem?_setFd (Kernel.lt_of_getElem?_fdTable hfd), if_pos rfl,
      List.length_append, Nat.add_assoc]
  have hsame : w₁.kernel.dirents = s.world.kernel.dirents :=
    dirents_congr (by rw [hkernel]; rfl)
  obtain ⟨rest, hrest⟩ := hprefix
  have hdrop : s.world.kernel.dirents.drop (s.record.start + ds.length) = rest := by
    rw [← List.drop_drop, ← hrest, List.drop_left]
  rw [hdrop] at hlisted
  by_cases hrefused : next = [] ∧ rest ≠ []
  · obtain ⟨rfl, hne⟩ := hrefused
    obtain ⟨d, rest', rfl⟩ := List.exists_cons_of_ne_nil hne
    obtain rfl := (hlisted.refused d rfl).2 rfl
    have hfail : s.record.after fd (.call .getdents64 fd dirp count arg3) s.world (-einval)
        w₁ = s.record := if_neg fun hpos ↦ hpos.2 (by decide)
    rw [List.append_nil] at hslot
    rw [hfail]
    exact ⟨hsame, ds, hseen, ⟨_, hrest⟩, hle, hslot, hdone⟩
  have hr := hlisted.total hrefused
  have happend : s.record.after fd (.call .getdents64 fd dirp count arg3) s.world r' w₁ =
      s.record.append r' (peek w₁.ram dirp.toNat r'.toNat) := if_pos ⟨rfl, hr.1⟩
  obtain ⟨rest', hrest'⟩ := hlisted.next
  rw [happend]
  refine ⟨hsame, ds ++ next, ?_, ⟨rest', ?_⟩, ?_, hslot, fun hend ↦ ?_⟩
  · change (do return (← s.record.seen) ++ (← Dirent.parse _)) = some (ds ++ next)
    rw [hr.2, hlisted.parsed, hseen]
    rfl
  · rw [List.append_assoc, hrest', hrest]
    rfl
  · have hlen := congrArg List.length hrest
    have hlen' := congrArg List.length hrest'
    rw [List.length_append, List.length_drop] at hlen
    rw [List.length_append] at hlen' ⊢
    change s.record.start + _ ≤ _
    omega
  · have hnil : rest = [] := by
      rcases Bool.or_eq_true_iff.mp hend with hend | hend
      · rw [hdone hend] at hrest
        exact List.append_right_eq_self.mp hrest
      · exact hlisted.ended.mp (of_decide_eq_true hend)
    rw [hnil, List.append_eq_nil_iff] at hrest'
    rw [hrest'.1, ← hnil, hrest]
    rfl

theorem ListingOk.seek {off arg3 r : U64} {w' : World} (hbase : fdBase ≤ fd.toNat)
    (h : ListingOk fd all s) (hoff : off.toNat ≤ all.length)
    (hrun : dispatch .lseek fd off 0 arg3 s.world = .ok r w') :
    ListingOk fd all ⟨.fresh off.toNat, w'⟩ := by
  obtain ⟨rfl, ds, hseen, hprefix, hle, hfd, hdone⟩ := h
  have hsmall := length_dirents_lt s.world.kernel
  rw [dispatch_lseek_rootDir hbase hfd rfl (by omega) arg3] at hrun
  obtain ⟨-, rfl⟩ := EStateM.Result.ok.inj hrun
  refine ⟨rfl, [], rfl, List.nil_prefix, hoff, ?_, fun h ↦ (nomatch h)⟩
  exact (Kernel.getElem?_setFd (Kernel.lt_of_getElem?_fdTable hfd)).trans (if_pos rfl)

theorem ListingOk.step {e : KernelEvent} {r : U64} {w' : World} (hbase : fdBase ≤ fd.toNat)
    (hspares : e.Spares fd all.length) (h : ListingOk fd all s) (hran : e.Ran s.world r w') :
    ListingOk fd all ⟨s.record.after fd e s.world r w', w'⟩ := by
  cases hran with
  | mount => exact hspares.elim
  | mark | poll | user => exact ⟨h.same, h.pos⟩
  | @call nr arg0 arg1 arg2 arg3 _ _ _ hrun =>
    by_cases hdents : arg0 = fd ∧ nr = .getdents64
    · obtain ⟨rfl, rfl⟩ := hdents
      exact h.list hrun
    by_cases hseek : arg0 = fd ∧ nr = .lseek
    · obtain ⟨rfl, rfl⟩ := hseek
      obtain ⟨rfl, hoff⟩ := hspares rfl
      have hok := h.seek hbase hoff hrun
      rw [← show s.record.after arg0 (.call .lseek arg0 arg1 0 arg3) s.world r w' =
        .fresh arg1.toNat from if_pos rfl] at hok
      exact hok
    · have hother : arg0 = fd → nr ≠ .getdents64 ∧ nr ≠ .lseek := fun heq ↦
        ⟨fun hnr ↦ hdents ⟨heq, hnr⟩, fun hnr ↦ hseek ⟨heq, hnr⟩⟩
      rw [Listing.after_call s.record hother]
      exact h.call hspares hother hrun

end LeonOS
