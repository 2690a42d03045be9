import PagedOs.Process.Midway

/-! # Frames of instructions that overlap

In every interleaving each frame is free, mapped by one page, or with the process that is about to
enter it, and no two processes are at the same byte of the RAM.
-/

namespace PagedOs

open Transition

variable {ι : Type*}

namespace Overlapped

/-- The frame that a process is about to enter in the list of the used ones. -/
def entering (s : Overlapped ι) (P : ι) : Option Int :=
  match s.within P with
  | some (.call (.putUsedfp _ fpn) _) => some fpn
  | _ => none

/-- The cell that a process is about to read or write. -/
def accessing (s : Overlapped ι) (P : ι) : Option (Device × Int) :=
  match s.within P with
  | some (.call (.read device addr _) _) => some (device, addr)
  | some (.call (.write device addr _) _) => some (device, addr)
  | _ => none

/-- Who has a frame: the pages that map it, and the process that is about to enter it. -/
def holders (s : Overlapped ι) : PageId ι ⊕ ι → Option Int :=
  Sum.elim (owners ramFrame s.sys.mm) s.entering

end Overlapped

/-! ## What a process is at -/

namespace Overlap

open Overlapped

variable [Fintype ι] {text : ι → List Inst} {total : Nat} {swap : Memphy} {s : Overlapped ι}
  {hand : ι → List Int} {wanted : ι → Nat} {settled : Sys ι} {P Q : ι}

/-- A frame that is about to be entered was taken by the process. -/
theorem entering_mem (overlap : Overlap text total swap s hand wanted settled)
    (passed : ∀ Q, checked (text Q) = true) {fpn : Int} (enters : s.entering P = some fpn) :
    fpn ∈ hand P := by
  have midway := overlap.midway P
  unfold Overlapped.entering at enters
  generalize s.within P = within at midway enters
  generalize hand P = taken at midway ⊢
  generalize wanted P = number at midway
  cases midway with
  | idle => cases enters
  | ask growing count => cases enters
  | enter growing count =>
      obtain rfl := Option.some.inj enters
      exact List.mem_reverse.mpr List.mem_cons_self
  | fresh begun => cases overlap.begun passed begun <;> cases enters

/-- A cell that is about to be accessed is on a page in RAM. -/
theorem accessing_inRam (overlap : Overlap text total swap s hand wanted settled)
    (passed : ∀ Q, checked (text Q) = true) {device : Device} {addr : Int}
    (accesses : s.accessing P = some (device, addr)) :
    device = .mram ∧ ∃ x, settled.InRam P x ∧ settled.physical P x = addr := by
  have midway := overlap.midway P
  unfold Overlapped.accessing at accesses
  generalize s.within P = within at midway accesses
  generalize hand P = taken at midway
  generalize wanted P = number at midway
  cases midway with
  | idle => cases accesses
  | ask growing count => cases accesses
  | enter growing count => cases accesses
  | fresh begun =>
      cases overlap.begun passed begun with
      | done after => cases accesses
      | grow next asks => cases accesses
      | read value after found reads present =>
          obtain ⟨rfl, rfl⟩ := Prod.mk.inj (Option.some.inj accesses)
          exact ⟨rfl, _, present, rfl⟩
      | write x value after present =>
          obtain ⟨rfl, rfl⟩ := Prod.mk.inj (Option.some.inj accesses)
          exact ⟨rfl, _, present, rfl⟩

/-- The frames that a process has taken, those of the others and the free ones are different. -/
theorem frames_apart [DecidableEq ι] (overlap : Overlap text total swap s hand wanted settled)
    {fpn : Int} (member : fpn ∈ hand P) : fpn ∈ settled.mram.freeFpList ∧
      fpn ∉ (s.shared .mram).freeFpList ∧ ∀ Q, Q ≠ P → fpn ∉ hand Q := by
  have nodup := Multiset.coe_nodup.mpr overlap.underway.sound.coherent.ram.nodup
  have frames := overlap.frames_erase P
  rw [frames, Multiset.nodup_add, Multiset.nodup_add] at nodup
  obtain ⟨⟨-, -, others⟩, -, free⟩ := nodup
  refine ⟨?_, ?_, fun Q different held => ?_⟩
  · rw [← Multiset.mem_coe, frames]
    exact Multiset.mem_add.mpr (.inl (Multiset.mem_add.mpr (.inl member)))
  · exact Multiset.disjoint_left.mp free (Multiset.mem_add.mpr (.inl member))
  · exact Multiset.disjoint_left.mp others member (Multiset.mem_sum.mpr
      ⟨Q, Finset.mem_erase.mpr ⟨different, Finset.mem_univ Q⟩, held⟩)

/-- The free list of the RAM, as the devices have it, holds no frame twice. -/
theorem free_nodup (overlap : Overlap text total swap s hand wanted settled) :
    (s.shared .mram).freeFpList.Nodup := by
  have nodup := Multiset.coe_nodup.mpr overlap.underway.sound.coherent.ram.nodup
  rw [overlap.frames, Multiset.nodup_add] at nodup
  exact Multiset.coe_nodup.mp nodup.2.1

/-- A frame that is free for the devices is free in the settled state too: the processes between
two calls have taken frames and returned none. -/
theorem free_subset (overlap : Overlap text total swap s hand wanted settled)
    {fpn : Int} (free : fpn ∈ (s.shared .mram).freeFpList) : fpn ∈ settled.mram.freeFpList := by
  rw [← Multiset.mem_coe, overlap.frames]
  exact Multiset.mem_add.mpr (.inr free)

/-- **Each frame is in one place.** -/
theorem ledger [DecidableEq ι] (overlap : Overlap text total swap s hand wanted settled)
    (passed : ∀ Q, checked (text Q) = true) :
    Ledger (s.shared .mram).Inside s.holders (s.shared .mram).freeFpList := by
  have ram := overlap.underway.sound.coherent.ram
  have tables : settled.mm = s.sys.mm := overlap.mm
  have inside (fpn : Int) : settled.mram.Inside fpn → (s.shared .mram).Inside fpn := by
    rw [Memphy.Inside, Memphy.Inside, overlap.mram.maxsz]
    exact id
  rw [tables] at ram
  -- a frame that a process is about to enter is one of the free frames of the settled system
  have taken {P : ι} {fpn : Int} (enters : s.entering P = some fpn) :=
    overlap.frames_apart (overlap.entering_mem passed enters)
  exact {
    exclusive := fun {left right fpn} held other => by
      cases left with
      | inl page =>
          cases right with
          | inl page' => exact congrArg Sum.inl (ram.exclusive held other)
          | inr Q => exact absurd (taken other).1 (ram.taken held)
      | inr P =>
          cases right with
          | inl page => exact absurd (taken held).1 (ram.taken other)
          | inr Q =>
              by_contra different
              have apart : Q ≠ P := fun same => different (by rw [same])
              exact (taken held).2.2 Q apart (overlap.entering_mem passed other)
    taken := fun {holder fpn} held => by
      cases holder with
      | inl page => exact fun free => ram.taken held (overlap.free_subset free)
      | inr P => exact (taken held).2.1
    nodup := overlap.free_nodup
    ownedValid := fun {holder fpn} held => by
      cases holder with
      | inl page => exact inside fpn (ram.ownedValid held)
      | inr P => exact inside fpn (ram.freeValid (taken held).1)
    freeValid := fun free => inside _ (ram.freeValid (overlap.free_subset free)) }

end Overlap

/-! ## Checked programs -/

namespace Overlapped

variable [Fintype ι] [DecidableEq ι] {text : ι → List Inst} {memory : Sys ι} {s : Overlapped ι}
  {history : List (ι × Option (Sigma DeviceCall.Result))}

/-- **Instructions that overlap are isolated** in every interleaving: each frame is free, mapped by
one page of one process, or with the one process that is about to enter it, and a byte that a
process is about to read or write is in RAM on a page of its own, so that no other one is about to
access it. -/
theorem overlapped_frames_exclusive (suited : Suited text memory)
    (run : Run (Guarded (Step text) (Unwedged text)) (start memory) history s) :
    Ledger (s.shared .mram).Inside s.holders (s.shared .mram).freeFpList ∧
      (∀ P device addr, s.accessing P = some (device, addr) →
        device = .mram ∧ 0 ≤ addr ∧ addr < (s.shared .mram).maxsz ∧
          ∃ pgn, s.holders (.inl (P, pgn)) = some (addr / 256)) ∧
      ∀ P Q cell, s.accessing P = some cell → s.accessing Q = some cell → P = Q := by
  obtain ⟨hand, wanted, settled, overlap⟩ := reached_overlap suited run
  have ledger := overlap.ledger suited.checked
  have onPage : ∀ P device addr, s.accessing P = some (device, addr) → device = .mram ∧
      0 ≤ addr ∧ addr < (s.shared .mram).maxsz ∧
        ∃ pgn, s.holders (.inl (P, pgn)) = some (addr / 256) := by
    intro P device addr accesses
    obtain ⟨ram, x, present, rfl⟩ := overlap.accessing_inRam suited.checked accesses
    have entry : (settled.mm P).pgd (pagingPgn x) = (s.sys.mm P).pgd (pagingPgn x) := by
      rw [overlap.mm]
      rfl
    have place : settled.physical P x =
        pagingFpn ((s.sys.mm P).pgd (pagingPgn x)) * 256 + x % 256 := by
      rw [Sys.physical, phyaddr_eq, pagingOffst_eq, entry]
    have frame : settled.physical P x / 256 = pagingFpn ((s.sys.mm P).pgd (pagingPgn x)) := by
      omega
    have held : s.holders (.inl (P, ⟨pagingPgn x, pagingPgn_lt x⟩)) =
        some (settled.physical P x / 256) := by
      rw [frame]
      exact ramFrame_eq_some.mpr ⟨by rwa [Sys.InRam, entry] at present, rfl⟩
    obtain ⟨nonneg, below⟩ := ledger.ownedValid held
    exact ⟨ram, by omega, by omega, _, held⟩
  refine ⟨ledger, onPage, fun P Q cell accesses other => ?_⟩
  obtain ⟨-, -, -, pgn, held⟩ := onPage P cell.1 cell.2 accesses
  obtain ⟨-, -, -, pgn', held'⟩ := onPage Q cell.1 cell.2 other
  exact congrArg Prod.fst (Sum.inl.inj (ledger.exclusive held held'))

/-- The two processes that allocate at the same time are both about to enter a frame. -/
def enteringPlay : Option (List (Bool × Option (Sigma DeviceCall.Result)) × Overlapped Bool) :=
  (start (Sys.boot Bool 1024 1024)).play DeviceCall.handle
    (fun P own => runCalls ⟨0, fun _ => 0, fun _ => 0⟩ 0 (allocating P) own) (Unwedged allocating)
    [false, true, false, true, false, true]

/-- What happens until each of the two is about to enter a frame. -/
def entered : List (Bool × Option (Sigma DeviceCall.Result)) × Overlapped Bool :=
  enteringPlay.get (by decide +kernel)

/-- The two frames are different, and both are off the free list. -/
theorem overlapped_frames_exclusive_entered :
    entered.2.entering false = some 0 ∧ entered.2.entering true = some 1 ∧
      Ledger (entered.2.shared .mram).Inside entered.2.holders
        (entered.2.shared .mram).freeFpList := by
  have played : enteringPlay = some entered := (Option.some_get _).symm
  have run : Run (Guarded (Step allocating) (Unwedged allocating)) (start (Sys.boot Bool 1024 1024))
      entered.1 entered.2 := Interleaved.run_play (fun _ _ _ begun => ⟨_, _, begun⟩) played
  exact ⟨by decide +kernel, by decide +kernel,
    (overlapped_frames_exclusive allocating_suited run).1⟩

end Overlapped

end PagedOs
