import LeonOS.Interp.Effect
import LeonOS.Kernel.Files

/-!
# Reading files

Files are read exactly, over whole histories: what a read through a descriptor returns is the part
of the file's data that begins where the history says, the read moves the position by what it
returns, and nothing else that happens to other descriptors matters (`files_exact`).  An interpreted
program gets the same bytes, at most 256 of them at once, by way of the vector `tmp`.
-/

set_option autoImplicit false

namespace LeonOS

open Bytes RustM

variable {run : Run} {tmp : StackSlot} {base : U64} {g : Guest Os} {f : OpenFile}

/-- How much of a read an interpreted program asks for at once. -/
def Guest.readCap (g : Guest Os) (start : ℕ) : ℕ :=
  min (min g.cpu.rdx.toNat (g.mem.length - start)) 256

theorem OpenFile.read_zero (f : OpenFile) : f.read 0 = [] ∧ f.count 0 = 0 ∧ f.advance 0 = f := by
  have hcount : f.count 0 = 0 := Nat.zero_min _
  refine ⟨?_, hcount, ?_⟩
  · rw [OpenFile.read, hcount, slice, List.take_zero]
  · rw [OpenFile.advance, hcount, Nat.add_zero]

/-- The bytes that `read` has put into `tmp` are those that are copied from there. -/
theorem range_tmp {ram : ℕ → U8} {a : ℕ} {bs : List U8} (h : bs.length ≤ 256) :
    (Rust.range (peek (poke ram a bs) a 256) 0 bs.length : Rust RunError (List U8)) = .ok bs := by
  rw [Rust.range_of_le (Nat.zero_le _) (by rw [length_peek]; exact h), Nat.sub_zero, slice,
    List.drop_zero, peek, ← List.map_take, List.take_range, min_eq_left h]
  exact congrArg Except.ok (peek_poke_self ram a bs)

/-- A read through `tmp`. -/
theorem readThroughTmp_ok {start cap : ℕ} {fd : U64} (hk : g.os.world.kernel.FilesOk)
    (hf : g.os.world.kernel.openFiles fd.toNat = some f) (hcap : start + cap ≤ g.mem.length) :
    ∃ g', readThroughTmp tmp start cap fd g = .ok false g' ∧
      g'.cpu = { g.cpu with rax := BitVec.ofNat 64 (f.count (min cap 256)) } ∧
      g'.mem = overwrite g.mem start (f.read (min cap 256)) ∧
      g'.os.world.kernel.openFiles = Function.update g.os.world.kernel.openFiles fd.toNat
        (some (f.advance (min cap 256))) := by
  have hcount : f.count (min cap 256) ≤ min cap 256 := min_le_left _ _
  have hwant : (BitVec.ofNat 64 (min cap 256)).toNat = min cap 256 := by
    rw [BitVec.toNat_ofNat]
    omega
  obtain ⟨hpos, hnat⟩ := Rust.ofNat_of_lt (n := f.count (min cap 256)) (by omega)
  let w₀ : World :=
    { g.os.world with ram := poke g.os.world.ram tmp.addr.toNat (List.replicate 256 0) }
  obtain ⟨w, hrun, hram, hfiles⟩ := dispatch_read (w := w₀) (n := BitVec.ofNat 64 (min cap 256))
    hk hf tmp.ne_zero 0
  rw [hwant] at hrun hram hfiles
  have hsrc : (Rust.range (peek w.ram tmp.addr.toNat 256) 0 (f.count (min cap 256)) :
      Rust RunError (List U8)) = .ok (f.read (min cap 256)) := by
    rw [hram, ← f.length_read]
    exact range_tmp (by rw [f.length_read]; omega)
  have hcopy : (Rust.copyFromSlice g.mem start (start + f.count (min cap 256))
      (f.read (min cap 256)) : Rust RunError (List U8)) =
        .ok (overwrite g.mem start (f.read (min cap 256))) :=
    Rust.copyFromSlice_of_le (by omega) (by rw [f.length_read])
  have hcall : sys (dispatch .read fd tmp.addr (BitVec.ofNat 64 (min cap 256)) 0)
      { g with os := { g.os with world := w₀ } } =
        .ok (BitVec.ofNat 64 (f.count (min cap 256))) { g with os := { g.os with world := w } } := by
    rw [sys, hrun]
  refine ⟨⟨{ g.cpu with rax := BitVec.ofNat 64 (f.count (min cap 256)) },
    overwrite g.mem start (f.read (min cap 256)), { g.os with world := w }⟩, ?_, rfl, rfl, hfiles⟩
  change (sys (dispatch .read fd tmp.addr (BitVec.ofNat 64 (min cap 256)) 0) >>= _)
    { g with os := { g.os with world := w₀ } } = _
  rw [bind_apply, hcall]
  dsimp only
  rw [if_pos (not_lt.mp hpos), bind_get, hnat, bind_writing]
  dsimp only
  rw [hsrc, Rust.ok_bind, hcopy]
  rfl

/-- **What a read returns to an interpreted program.** -/
theorem handleSyscall_read {start : ℕ} (hnr : Nr.decode g.cpu.rax.toNat = .read)
    (hk : g.os.world.kernel.FilesOk)
    (hf : g.os.world.kernel.openFiles g.cpu.rdi.toNat = some f)
    (hstart : vaToIndex base g.mem g.cpu.rsi = .ok start) :
    ∃ g', handleSyscall run tmp base g = .ok false g' ∧
      g'.cpu = { g.cpu with rax := BitVec.ofNat 64 (f.count (g.readCap start)) } ∧
      g'.mem = overwrite g.mem start (f.read (g.readCap start)) ∧
      g'.os.world.kernel.openFiles = Function.update g.os.world.kernel.openFiles g.cpu.rdi.toNat
        (some (f.advance (g.readCap start))) := by
  obtain ⟨hzero, hcount, hsame⟩ := f.read_zero
  have hlt := (Window.index_eq_ok.mp hstart).2
  have hstdin : g.cpu.rdi ≠ 0 := fun h ↦ by
    rw [h] at hf
    exact nomatch hf.symm.trans (Kernel.openFiles_eq (hk.reserved 0 (by decide)))
  rw [handleSyscall, bind_getCpu, hnr]
  dsimp only
  rw [handleRead, bind_getCpu, bind_reading, hstart]
  dsimp only
  rw [bind_get]
  by_cases hcap : min g.cpu.rdx.toNat (g.mem.length - start) = 0
  · have hread : g.readCap start = 0 := by rw [Guest.readCap, hcap, Nat.zero_min]
    rw [hread, hzero, hcount, hsame, if_pos hcap, overwrite_nil,
      Function.update_eq_self_iff.mpr hf.symm]
    exact ⟨_, rfl, rfl, rfl, rfl⟩
  · rw [if_neg hcap, if_neg hstdin]
    exact readThroughTmp_ok hk hf (by omega)

/-! ## Whole histories -/

/-- **Files are read exactly.** -/
structure FilesExact (s : Recorded OpenFiles) : Prop where
  /-- Every file of the table is the data of an entry of the mounted image. -/
  denotes : ∀ (fd : ℕ) (dataPtr : DataPtr) (len pos : ℕ) (mode : BitVec 16),
    s.world.kernel.fdTable[fd]? = some (.file dataPtr len pos mode) →
      s.world.kernel.Denotes dataPtr len
  /-- The table has the files that are open by the history. -/
  openFiles : s.world.kernel.openFiles = s.record
  /-- A read returns what there is at the position, and moves it. -/
  read : ∀ (fd buf n arg3 : U64) (f : OpenFile), s.record fd.toNat = some f → buf ≠ 0 →
    ∃ w', dispatch .read fd buf n arg3 s.world = .ok (BitVec.ofNat 64 (f.count n.toNat)) w' ∧
      w'.ram = poke s.world.ram buf.toNat (f.read n.toNat) ∧
      w'.kernel.openFiles = Function.update s.record fd.toNat (some (f.advance n.toNat))
  /-- So does a read of an interpreted program, in its own memory. -/
  guest : ∀ (run : Run) (tmp : StackSlot) (base : U64) (g : Guest Os) (start : ℕ) (f : OpenFile),
    g.os.world = s.world → Nr.decode g.cpu.rax.toNat = .read →
    s.record g.cpu.rdi.toNat = some f → vaToIndex base g.mem g.cpu.rsi = .ok start →
    ∃ g', handleSyscall run tmp base g = .ok false g' ∧
      g'.cpu = { g.cpu with rax := BitVec.ofNat 64 (f.count (g.readCap start)) } ∧
      g'.mem = overwrite g.mem start (f.read (g.readCap start)) ∧
      g'.os.world.kernel.openFiles =
        Function.update s.record g.cpu.rdi.toNat (some (f.advance (g.readCap start)))

theorem FilesMatch.exact {s : Recorded OpenFiles} (h : FilesMatch s) : FilesExact s where
  denotes := h.1.denotes
  openFiles := h.2.symm
  read fd buf n arg3 f hf hbuf := by
    rw [h.2] at hf ⊢
    exact dispatch_read h.1 hf hbuf arg3
  guest run tmp base g start f hworld hnr hf hstart := by
    rw [h.2, ← hworld] at hf ⊢
    exact handleSyscall_read hnr (hworld ▸ h.1) hf hstart

/-- **From a mount on, files are read exactly**, whatever happens. -/
theorem files_exact (w : World) (image : Image) (es : List KernelEvent) :
    Runs.Always (KernelEvent.Step OpenFiles.afterEvent) FilesExact
      ⟨fun _ ↦ none, { w with kernel := w.kernel.setRootfs image }⟩ es := by
  have hmount : FilesMatch ⟨fun _ ↦ none, { w with kernel := w.kernel.setRootfs image }⟩ :=
    ⟨Kernel.filesOk_setRootfs image, (Kernel.openFiles_setRootfs image).symm⟩
  intro es' s hes' hrun
  have hall : ∀ e ∈ es, (fun _ ↦ True : KernelEvent → Prop) e := fun _ _ ↦ trivial
  have hmatch := KernelEvent.always (fun _ _ _ _ _ hs hran ↦ FilesMatch.step hs hran) hmount hall
    es' s hes' hrun
  exact hmatch.exact

end LeonOS
