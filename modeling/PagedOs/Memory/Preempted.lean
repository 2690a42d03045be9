import PagedOs.Library.Deferred
import PagedOs.Memory.Allocator
import PagedOs.Memory.Swapping

/-! # Page faults that overlap

`lock_mem` is held within `MEMPHY_get_freefp` and `MEMPHY_write` and not between them, so while a
process is in `pg_getpage` any other one may run on another CPU, and fault as well. Each process is
in one call of `pg_getval` or `pg_setval` at a time. Its steps are the accesses to a device and the
changes of its page table; what it finds out about its own tables belongs to the step after it.
-/

namespace PagedOs

open Transition Deferred

variable {ι : Type*}

/-- An access to a page: `pg_getval`, or `pg_setval` with the value. -/
inductive PageAccess where
  | getval (addr : Int)
  | setval (addr : Int) (value : Byte)
deriving DecidableEq

/-- The address of an access, of which the page and the offset are taken. -/
def PageAccess.addr : PageAccess → Int
  | .getval addr => addr
  | .setval addr _ => addr

/-- The local variables of `pg_getpage` that name frames. -/
structure FaultFrames where
  vicfpn : Int
  swpfpn : Int
  tgtfpn : Int
deriving DecidableEq

/-- A statement of `pg_getpage` behind `MEMPHY_get_freefp`, the copies of pages being taken apart:
`MEMPHY_read` and `MEMPHY_write` with the variable `data` of `__swap_cp_page`, and the changes of
the tables. -/
inductive FaultStmt where
  | read (device : Device) (addr : Int)
  | write (device : Device) (addr : Int)
  | setSwap (pgn : Nat) (swpfpn : Int)
  | setFpn (pgn : Nat) (fpn : Int)
  | enlist (pgn : Nat)
deriving DecidableEq

/-- The loop of `__swap_cp_page`, as a read and a write for each cell. -/
def copyStmts (mpsrc : Device) (srcfpn : Int) (mpdst : Device) (dstfpn : Int) : List FaultStmt :=
  (List.range pagingPagesz).flatMap fun cellidx =>
    [.read mpsrc (srcfpn * pagingPagesz + (cellidx : Nat)),
      .write mpdst (dstfpn * pagingPagesz + (cellidx : Nat))]

/-- What `pg_getpage` does behind `MEMPHY_get_freefp`: two copies, two entries and the list. -/
def faultStmts (pgn vicpgn : Nat) (frames : FaultFrames) : List FaultStmt :=
  copyStmts .mram frames.vicfpn .activeMswp frames.swpfpn ++
    (copyStmts .activeMswp frames.tgtfpn .mram frames.vicfpn ++
      [.setSwap vicpgn frames.swpfpn, .setFpn pgn frames.vicfpn, .enlist pgn])

/-- Where a process is: in no call, behind `MEMPHY_get_freefp` with the entry read on entry and the
statements to come, or back from `pg_getpage` with the frame number. -/
inductive AccessPc where
  | idle
  | fault (access : PageAccess) (pte : Pte) (frames : FaultFrames) (todo : List FaultStmt)
  | ready (access : PageAccess) (fpn : Int)

/-- What a process has to do before it is back from `pg_getpage`. -/
def AccessPc.todo : AccessPc → List FaultStmt
  | .fault _ _ _ todo => todo
  | _ => []

/-- The devices and tables, and the variable `data` of each process in `__swap_cp_page`. -/
structure Shared (ι : Type*) where
  sys : Sys ι
  data : ι → Byte

/-- The processes in their calls, each with what it is about to do. -/
structure Preempted (ι : Type*) where
  shared : Shared ι
  pc : ι → AccessPc

/-- What happens in a step: `pg_getpage` returns without a fault or has taken a swap frame for its
victim, a statement of a fault, the return from a fault, and the access to the RAM through a frame
number. -/
inductive AccessEvent where
  | getPage (pgn : Nat) (result : Option Int)
  | work
  | back
  | read (addr fpn : Int) (value : Byte)
  | write (addr fpn : Int) (value : Byte)
deriving DecidableEq

namespace Sys

/-- One of the two devices, by its name. -/
def device (s : Sys ι) : Device → Memphy
  | .mram => s.mram
  | .activeMswp => s.activeMswp

/-- Replace one of the two devices, and keep the other. -/
def setDevice (s : Sys ι) (device : Device) (mp : Memphy) : Sys ι :=
  match device with
  | .mram => { s with mram := mp }
  | .activeMswp => { s with activeMswp := mp }

@[simp] theorem setDevice_device (s : Sys ι) (device : Device) :
    s.setDevice device (s.device device) = s := by
  cases device <;> rfl

@[simp] theorem setDevice_mm (s : Sys ι) (device : Device) (mp : Memphy) :
    (s.setDevice device mp).mm = s.mm := by
  cases device <;> rfl

@[simp] theorem device_setDevice (s : Sys ι) (device : Device) (mp : Memphy) :
    (s.setDevice device mp).device device = mp := by
  cases device <;> rfl

theorem device_setDevice_of_ne (s : Sys ι) {device other : Device} (different : other ≠ device)
    (mp : Memphy) : (s.setDevice device mp).device other = s.device other := by
  cases device <;> cases other <;> first | rfl | exact absurd rfl different

/-- The device stored last is the one that counts. -/
@[simp] theorem setDevice_setDevice (s : Sys ι) (device : Device) (mp mp' : Memphy) :
    (s.setDevice device mp).setDevice device mp' = s.setDevice device mp' := by
  cases device <;> rfl

/-- The frame number is the one that the entry of the page has. -/
def Locates (s : Sys ι) (P : ι) (addr fpn : Int) : Prop :=
  pagingPagePresent ((s.mm P).pgd (pagingPgn addr)) = true ∧
    pagingFpn ((s.mm P).pgd (pagingPgn addr)) = fpn

/-- Whether a page is in a frame is looked up in its entry. -/
instance (s : Sys ι) (P : ι) (addr fpn : Int) : Decidable (s.Locates P addr fpn) :=
  inferInstanceAs (Decidable (_ ∧ _))

end Sys

variable [DecidableEq ι]

/-- Replace the tables of one process, and keep those of the others. -/
def Shared.setTable (w : Shared ι) (P : ι) (mm : MmStruct) : Shared ι :=
  { w with sys := { w.sys with mm := Function.update w.sys.mm P mm } }

/-- A process executes a statement, on the shared state and its own byte. -/
def FaultStmt.exec (P : ι) (stmt : FaultStmt) (w : Shared ι) : Shared ι :=
  match stmt with
  | .read device addr =>
      let (_, data, mp) := (w.sys.device device).memphyRead addr (w.data P)
      ⟨w.sys.setDevice device mp, Function.update w.data P data⟩
  | .write device addr =>
      let (_, mp) := (w.sys.device device).memphyWrite addr (w.data P)
      { w with sys := w.sys.setDevice device mp }
  | .setSwap pgn swpfpn =>
      let mm := w.sys.mm P
      w.setTable P (mm.setPte pgn (pteSetSwap (mm.pgd pgn) 0 swpfpn))
  | .setFpn pgn fpn =>
      let mm := w.sys.mm P
      w.setTable P (mm.setPte pgn (pteSetFpn (mm.pgd pgn) fpn))
  | .enlist pgn => w.setTable P ((w.sys.mm P).enlistPgnNode pgn)

namespace Preempted

/-- Nobody is in a call, and every byte is 0. -/
def start (s : Sys ι) : Preempted ι := ⟨⟨s, fun _ => 0⟩, fun _ => .idle⟩

/-- A process moves on to the next place in its call. -/
def setPc (s : Preempted ι) (P : ι) (pc : AccessPc) : Preempted ι :=
  { s with pc := Function.update s.pc P pc }

/-- The next step of a process, which makes the access if it is in no call; `u` and `data` are what
uninitialised variables hold. -/
def next (s : Preempted ι) (P : ι) (access : PageAccess) (u : Uninit) (data : Byte) :
    AccessEvent × Preempted ι :=
  match s.pc P with
  | .idle =>
      let mm := s.shared.sys.mm P
      let pgn := pagingPgn access.addr
      let pte := mm.pgd pgn
      if pagingPagePresent pte then
        (.getPage pgn (some (pagingFpn pte)), s.setPc P (.ready access (pagingFpn pte)))
      else
        match mm.findVictimPage with
        | none => (.getPage pgn none, s)
        | some vicpgn =>
            let (_, swpfpn, mswp) := s.shared.sys.activeMswp.memphyGetFreefp u.swpfpn
            let frames := ⟨pagingFpn (mm.pgd vicpgn), swpfpn, pagingSwp pte⟩
            (.getPage pgn (some (pagingFpn pte)),
              ⟨{ s.shared with sys := { s.shared.sys with activeMswp := mswp } },
                Function.update s.pc P (.fault access pte frames (faultStmts pgn vicpgn frames))⟩)
  | .fault access pte frames (stmt :: rest) =>
      (.work, ⟨stmt.exec P s.shared, Function.update s.pc P (.fault access pte frames rest)⟩)
  | .fault access pte _ [] => (.back, s.setPc P (.ready access (pagingFpn pte)))
  | .ready (.getval addr) fpn =>
      let (_, value, mram) :=
        s.shared.sys.mram.memphyRead (Caller.phyaddr fpn (pagingOffst addr)) data
      (.read addr fpn value,
        ⟨{ s.shared with sys := { s.shared.sys with mram := mram } },
          Function.update s.pc P .idle⟩)
  | .ready (.setval addr value) fpn =>
      let (_, mram) :=
        s.shared.sys.mram.memphyWrite (Caller.phyaddr fpn (pagingOffst addr)) value
      (.write addr fpn value,
        ⟨{ s.shared with sys := { s.shared.sys with mram := mram } },
          Function.update s.pc P .idle⟩)

/-- The steps of the processes, in any order. -/
def Step (s : Preempted ι) (label : ι × AccessEvent) (t : Preempted ι) : Prop :=
  ∃ access u data, s.next label.1 access u data = (label.2, t)

end Preempted

namespace Preempted

/-- What a step of a process does. -/
inductive Move (s t : Preempted ι) (P : ι) : AccessEvent → Prop where
  | hit {access : PageAccess} {fpn : Int} (idle : s.pc P = .idle)
      (located : s.shared.sys.Locates P access.addr fpn) (shared : t.shared = s.shared)
      (pc : t.pc = Function.update s.pc P (.ready access fpn)) :
      Move s t P (.getPage (pagingPgn access.addr) (some fpn))
  | nobody {pgn : Nat} (idle : s.pc P = .idle) (inside : pgn < pagingMaxPgn)
      (absent : pagingPagePresent ((s.shared.sys.mm P).pgd pgn) = false)
      (nobody : (s.shared.sys.mm P).findVictimPage = none) (same : t = s) :
      Move s t P (.getPage pgn none)
  | fault {access : PageAccess} {pgn vicpgn : Nat} {swpfpn : Int} {mswp : Memphy} {u : Uninit}
      (idle : s.pc P = .idle) (inside : pgn < pagingMaxPgn)
      (absent : pagingPagePresent ((s.shared.sys.mm P).pgd pgn) = false)
      (victim : (s.shared.sys.mm P).findVictimPage = some vicpgn)
      (got : (s.shared.sys.activeMswp.memphyGetFreefp u.swpfpn).2 = (swpfpn, mswp))
      (shared : t.shared = { s.shared with sys := { s.shared.sys with activeMswp := mswp } })
      (pc : t.pc = Function.update s.pc P (.fault access ((s.shared.sys.mm P).pgd pgn)
        ⟨pagingFpn ((s.shared.sys.mm P).pgd vicpgn), swpfpn,
          pagingSwp ((s.shared.sys.mm P).pgd pgn)⟩
        (faultStmts pgn vicpgn ⟨pagingFpn ((s.shared.sys.mm P).pgd vicpgn), swpfpn,
          pagingSwp ((s.shared.sys.mm P).pgd pgn)⟩))) :
      Move s t P (.getPage pgn (some (pagingFpn ((s.shared.sys.mm P).pgd pgn))))
  | work {access : PageAccess} {pte : Pte} {frames : FaultFrames} {stmt : FaultStmt}
      {rest : List FaultStmt} (here : s.pc P = .fault access pte frames (stmt :: rest))
      (shared : t.shared = stmt.exec P s.shared)
      (pc : t.pc = Function.update s.pc P (.fault access pte frames rest)) : Move s t P .work
  | back {access : PageAccess} {pte : Pte} {frames : FaultFrames}
      (here : s.pc P = .fault access pte frames []) (shared : t.shared = s.shared)
      (pc : t.pc = Function.update s.pc P (.ready access (pagingFpn pte))) : Move s t P .back
  | read {addr fpn : Int} {data : Byte} (here : s.pc P = .ready (.getval addr) fpn)
      (shared : t.shared = s.shared) (pc : t.pc = Function.update s.pc P .idle) :
      Move s t P (.read addr fpn (s.shared.sys.mram.memphyRead
        (Caller.phyaddr fpn (pagingOffst addr)) data).2.1)
  | write {addr fpn : Int} {value : Byte} (here : s.pc P = .ready (.setval addr value) fpn)
      (shared : t.shared = { s.shared with
        sys := { s.shared.sys with mram := (s.shared.sys.mram.memphyWrite
          (Caller.phyaddr fpn (pagingOffst addr)) value).2 } })
      (pc : t.pc = Function.update s.pc P .idle) : Move s t P (.write addr fpn value)

/-- A step is one of the moves, by what the process is about to do. -/
theorem Step.move {s t : Preempted ι} {P : ι} {event : AccessEvent}
    (taken : Step s (P, event) t) : Move s t P event := by
  obtain ⟨access, u, data, taken⟩ := taken
  unfold next at taken
  split at taken
  case h_1 idle =>
    by_cases present :
        pagingPagePresent ((s.shared.sys.mm P).pgd (pagingPgn access.addr)) = true
    · simp only [present, ↓reduceIte] at taken
      obtain ⟨rfl, rfl⟩ := Prod.mk.inj taken
      exact .hit idle ⟨present, rfl⟩ rfl rfl
    · have absent := (Bool.not_eq_true _).mp present
      simp only [absent, Bool.false_eq_true, ↓reduceIte] at taken
      split at taken
      case h_1 nobody =>
        obtain ⟨rfl, rfl⟩ := Prod.mk.inj taken
        exact .nobody idle (pagingPgn_lt _) absent nobody rfl
      case h_2 vicpgn victim =>
        obtain ⟨rfl, rfl⟩ := Prod.mk.inj taken
        exact .fault idle (pagingPgn_lt _) absent victim rfl rfl rfl
  case h_2 access pte frames stmt rest here =>
    obtain ⟨rfl, rfl⟩ := Prod.mk.inj taken
    exact .work here rfl rfl
  case h_3 access pte frames here =>
    obtain ⟨rfl, rfl⟩ := Prod.mk.inj taken
    exact .back here rfl rfl
  case h_4 addr fpn here =>
    have device := s.shared.sys.mram.memphyRead_device (Caller.phyaddr fpn (pagingOffst addr)) data
    obtain ⟨status, value, mram, read⟩ : ∃ status value mram, s.shared.sys.mram.memphyRead
        (Caller.phyaddr fpn (pagingOffst addr)) data = (status, value, mram) := ⟨_, _, _, rfl⟩
    simp only [read] at taken device
    obtain ⟨rfl, rfl⟩ := Prod.mk.inj taken
    have cell : value = (s.shared.sys.mram.memphyRead (Caller.phyaddr fpn (pagingOffst addr))
        data).2.1 := by rw [read]
    rw [cell]
    exact .read here (by rw [device]) rfl
  case h_5 addr value fpn here =>
    obtain ⟨rfl, rfl⟩ := Prod.mk.inj taken
    exact .write here rfl rfl

end Preempted

/-! ## What a statement changes -/

theorem Memphy.memphyWrite_storage_of_ne (mp : Memphy) {addr other : Int} (different : other ≠ addr)
    (value : Byte) : (mp.memphyWrite addr value).2.storage other = mp.storage other := by
  cases access : mp.rdmflg with
  | true =>
      rw [memphyWrite_random access]
      exact Function.update_of_ne different ..
  | false => simp [memphyWrite, memphySeqWrite, access]

/-- What a read returns depends on the mode and on that cell alone. -/
theorem Memphy.memphyRead_congr {mp other : Memphy} {addr : Int}
    (access : other.rdmflg = mp.rdmflg) (cell : other.storage addr = mp.storage addr)
    (value : Byte) : (other.memphyRead addr value).2.1 = (mp.memphyRead addr value).2.1 := by
  cases flag : mp.rdmflg <;> simp [memphyRead, memphySeqRead, access, flag, cell]

/-- Two writes to different cells can be taken in either order. -/
theorem Memphy.memphyWrite_comm (mp : Memphy) {addr other : Int} (different : addr ≠ other)
    (value value' : Byte) :
    ((mp.memphyWrite addr value).2.memphyWrite other value').2 =
      ((mp.memphyWrite other value').2.memphyWrite addr value).2 := by
  cases access : mp.rdmflg with
  | true => simp [memphyWrite, access, Function.update_comm different]
  | false => simp [memphyWrite, memphySeqWrite, access]

namespace FaultStmt

variable {P Q : ι} {w : Shared ι}

/-- Reading a cell sets the byte of the process that reads, and no device moves. -/
theorem exec_read (P : ι) (device : Device) (addr : Int) (w : Shared ι) :
    (FaultStmt.read device addr).exec P w =
      ⟨w.sys, Function.update w.data P
        ((w.sys.device device).memphyRead addr (w.data P)).2.1⟩ := by
  simp only [exec, Memphy.memphyRead_device, Sys.setDevice_device]

/-- Writing a cell stores the byte of the process in its device. -/
theorem exec_write (P : ι) (device : Device) (addr : Int) (w : Shared ι) :
    (FaultStmt.write device addr).exec P w =
      ⟨w.sys.setDevice device ((w.sys.device device).memphyWrite addr (w.data P)).2, w.data⟩ := rfl

/-- A statement reads a cell, writes one, or changes the table of the process. -/
theorem cases_exec (stmt : FaultStmt) :
    (∃ device addr, stmt = .read device addr) ∨ (∃ device addr, stmt = .write device addr) ∨
      ∃ change : MmStruct → MmStruct, ∀ (P : ι) (w : Shared ι),
        stmt.exec P w = w.setTable P (change (w.sys.mm P)) := by
  cases stmt with
  | read device addr => exact .inl ⟨device, addr, rfl⟩
  | write device addr => exact .inr (.inl ⟨device, addr, rfl⟩)
  | setSwap pgn swpfpn =>
      exact .inr (.inr ⟨fun mm => mm.setPte pgn (pteSetSwap (mm.pgd pgn) 0 swpfpn), fun _ _ => rfl⟩)
  | setFpn pgn fpn =>
      exact .inr (.inr ⟨fun mm => mm.setPte pgn (pteSetFpn (mm.pgd pgn) fpn), fun _ _ => rfl⟩)
  | enlist pgn => exact .inr (.inr ⟨fun mm => mm.enlistPgnNode pgn, fun _ _ => rfl⟩)

/-- It leaves the tables of the other processes. -/
theorem exec_mm (other : Q ≠ P) (stmt : FaultStmt) (w : Shared ι) :
    (stmt.exec P w).sys.mm Q = w.sys.mm Q := by
  rcases stmt.cases_exec (ι := ι) with ⟨device, addr, rfl⟩ | ⟨device, addr, rfl⟩ | ⟨change, exec⟩
  · rw [exec_read]
  · rw [exec_write, Sys.setDevice_mm]
  · rw [exec]
    exact Function.update_of_ne other ..

theorem exec_frames (stmt : FaultStmt) (P : ι) (device : Device) (w : Shared ι) :
    Memphy.SameFrames (w.sys.device device) ((stmt.exec P w).sys.device device) := by
  rcases stmt.cases_exec (ι := ι) with ⟨other, addr, rfl⟩ | ⟨other, addr, rfl⟩ | ⟨change, exec⟩
  · rw [exec_read]
    exact .refl _
  · rw [exec_write]
    by_cases same : device = other
    · subst same
      rw [Sys.device_setDevice]
      exact Memphy.memphyWrite_sameFrames ..
    · rw [Sys.device_setDevice_of_ne _ same]
      exact .refl _
  · rw [exec]
    cases device <;> exact .refl _

end FaultStmt

/-- The frames of the devices that a fault is about. -/
def FaultFrames.Covers (frames : FaultFrames) : Device → Int → Prop
  | .mram, fpn => fpn = frames.vicfpn
  | .activeMswp, fpn => fpn = frames.swpfpn ∨ fpn = frames.tgtfpn

/-- Two faults that are about different frames. -/
def FaultFrames.Apart (frames other : FaultFrames) : Prop :=
  ∀ device fpn, frames.Covers device fpn → ¬ other.Covers device fpn

/-- A statement accesses cells of these frames only. -/
def FaultStmt.Within (frames : FaultFrames) : FaultStmt → Prop
  | .read device addr => frames.Covers device (addr / 256)
  | .write device addr => frames.Covers device (addr / 256)
  | _ => True

/-- The statements of a fault access the cells of its three frames only. -/
theorem faultStmts_within (pgn vicpgn : Nat) (frames : FaultFrames) :
    ∀ stmt ∈ faultStmts pgn vicpgn frames, stmt.Within frames := by
  have copied {src dst : Device} {srcfpn dstfpn : Int} (read : frames.Covers src srcfpn)
      (written : frames.Covers dst dstfpn) (stmt : FaultStmt)
      (member : stmt ∈ copyStmts src srcfpn dst dstfpn) : stmt.Within frames := by
    obtain ⟨cellidx, inside, member⟩ := List.mem_flatMap.mp member
    have below : cellidx < 256 := List.mem_range.mp inside
    have cell (fpn : Int) : (fpn * pagingPagesz + (cellidx : Nat)) / 256 = fpn := by
      have size : ((pagingPagesz : Nat) : Int) = 256 := rfl
      rw [size]
      omega
    rcases List.mem_cons.mp member with rfl | last
    · show frames.Covers src (_ / 256)
      rwa [cell]
    · obtain rfl := List.mem_singleton.mp last
      show frames.Covers dst (_ / 256)
      rwa [cell]
  have victim : frames.Covers .mram frames.vicfpn := rfl
  have slot : frames.Covers .activeMswp frames.swpfpn := Or.inl rfl
  have target : frames.Covers .activeMswp frames.tgtfpn := Or.inr rfl
  intro stmt member
  rcases List.mem_append.mp member with out | member
  · exact copied victim slot stmt out
  rcases List.mem_append.mp member with back | tables
  · exact copied target victim stmt back
  · simp only [List.mem_cons, List.not_mem_nil, or_false] at tables
    rcases tables with rfl | rfl | rfl <;> trivial

namespace FaultStmt

variable {P Q : ι}

/-- A cell of another frame keeps its byte. -/
theorem exec_storage {frames : FaultFrames} {stmt : FaultStmt} (within : stmt.Within frames)
    {device : Device} {addr : Int} (outside : ¬ frames.Covers device (addr / 256)) (P : ι)
    (w : Shared ι) :
    ((stmt.exec P w).sys.device device).storage addr = (w.sys.device device).storage addr := by
  rcases stmt.cases_exec (ι := ι) with ⟨other, cell, rfl⟩ | ⟨other, cell, rfl⟩ | ⟨change, exec⟩
  · rw [exec_read]
  · rw [exec_write]
    by_cases same : device = other
    · subst same
      rw [Sys.device_setDevice]
      refine Memphy.memphyWrite_storage_of_ne _ ?_ _
      rintro rfl
      exact outside within
    · rw [Sys.device_setDevice_of_ne _ same]
  · rw [exec]
    cases device <;> rfl

/-- Reads of two processes can be taken in either order. -/
theorem commute_read_read (other : P ≠ Q) (device device' : Device) (addr addr' : Int) :
    Function.Commute ((FaultStmt.read device addr).exec P)
      ((FaultStmt.read device' addr').exec Q) := by
  intro w
  simp only [exec_read, Function.update_of_ne other, Function.update_of_ne other.symm,
    Function.update_comm other]

/-- A read and a write of another process can be taken in either order when they are about
different cells. -/
theorem commute_read_write (other : P ≠ Q) {device device' : Device} {addr addr' : Int}
    (apart : device = device' → addr ≠ addr') :
    Function.Commute ((FaultStmt.read device addr).exec P)
      ((FaultStmt.write device' addr').exec Q) := by
  intro w
  simp only [exec_read, exec_write, Function.update_of_ne other.symm]
  congr 2
  by_cases same : device = device'
  · subst same
    rw [Sys.device_setDevice]
    exact Memphy.memphyRead_congr (Memphy.memphyWrite_sameFrames ..).rdmflg
      (Memphy.memphyWrite_storage_of_ne _ (apart rfl) _) _
  · rw [Sys.device_setDevice_of_ne _ same]

/-- Two writes can be taken in either order when they are about different cells. -/
theorem commute_write_write (P Q : ι) {device device' : Device} {addr addr' : Int}
    (apart : device = device' → addr ≠ addr') :
    Function.Commute ((FaultStmt.write device addr).exec P)
      ((FaultStmt.write device' addr').exec Q) := by
  intro w
  simp only [exec_write]
  congr 1
  by_cases same : device = device'
  · subst same
    rw [Sys.device_setDevice, Sys.device_setDevice, Sys.setDevice_setDevice,
      Sys.setDevice_setDevice, Memphy.memphyWrite_comm _ (apart rfl)]
  · rw [Sys.device_setDevice_of_ne _ same, Sys.device_setDevice_of_ne _ (Ne.symm same)]
    cases device <;> cases device' <;> first | rfl | exact absurd rfl same

/-- A read and an update of a page table can be taken in either order. -/
theorem commute_read_table (P Q : ι) (device : Device) (addr : Int) {stmt : FaultStmt}
    {change : MmStruct → MmStruct}
    (table : ∀ (P : ι) (w : Shared ι), stmt.exec P w = w.setTable P (change (w.sys.mm P))) :
    Function.Commute ((FaultStmt.read device addr).exec P) (stmt.exec Q) := by
  intro w
  rw [table, table, exec_read, exec_read]
  cases device <;> rfl

/-- A write and an update of a page table can be taken in either order. -/
theorem commute_write_table (P Q : ι) (device : Device) (addr : Int) {stmt : FaultStmt}
    {change : MmStruct → MmStruct}
    (table : ∀ (P : ι) (w : Shared ι), stmt.exec P w = w.setTable P (change (w.sys.mm P))) :
    Function.Commute ((FaultStmt.write device addr).exec P) (stmt.exec Q) := by
  intro w
  rw [table, table, exec_write, exec_write]
  cases device <;> rfl

/-- Updates of the page tables of two processes can be taken in either order. -/
theorem commute_table_table (other : P ≠ Q) {stmt stmt' : FaultStmt}
    {change change' : MmStruct → MmStruct}
    (table : ∀ (P : ι) (w : Shared ι), stmt.exec P w = w.setTable P (change (w.sys.mm P)))
    (table' : ∀ (P : ι) (w : Shared ι), stmt'.exec P w = w.setTable P (change' (w.sys.mm P))) :
    Function.Commute (stmt.exec P) (stmt'.exec Q) := by
  intro w
  simp only [table, table', Shared.setTable, Function.update_of_ne other,
    Function.update_of_ne other.symm, Function.update_comm other]

/-- **Statements of faults about different frames commute.** -/
theorem exec_commute (other : P ≠ Q) {frames frames' : FaultFrames} (apart : frames.Apart frames')
    {stmt stmt' : FaultStmt} (within : stmt.Within frames) (within' : stmt'.Within frames') :
    Function.Commute (stmt.exec P) (stmt'.exec Q) := by
  have cells {device device' : Device} {addr addr' : Int}
      (here : frames.Covers device (addr / 256)) (there : frames'.Covers device' (addr' / 256))
      (same : device = device') : addr ≠ addr' := by
    rintro rfl
    subst same
    exact apart _ _ here there
  rcases stmt.cases_exec (ι := ι) with ⟨device, addr, rfl⟩ | ⟨device, addr, rfl⟩ | ⟨change, table⟩
  · rcases stmt'.cases_exec (ι := ι) with
      ⟨device', addr', rfl⟩ | ⟨device', addr', rfl⟩ | ⟨change', table'⟩
    · exact commute_read_read other device device' addr addr'
    · exact commute_read_write other (cells within within')
    · exact commute_read_table P Q device addr table'
  · rcases stmt'.cases_exec (ι := ι) with
      ⟨device', addr', rfl⟩ | ⟨device', addr', rfl⟩ | ⟨change', table'⟩
    · refine (commute_read_write other.symm fun same hit => ?_).symm
      exact cells within within' same.symm hit.symm
    · exact commute_write_write P Q (cells within within')
    · exact commute_write_table P Q device addr table'
  · rcases stmt'.cases_exec (ι := ι) with
      ⟨device', addr', rfl⟩ | ⟨device', addr', rfl⟩ | ⟨change', table'⟩
    · exact (commute_read_table Q P device' addr' table).symm
    · exact (commute_write_table Q P device' addr' table).symm
    · exact commute_table_table other table table'

end FaultStmt

/-! ## A fault as a whole -/

/-- The statements of a copy do what `__swap_cp_page` does. -/
theorem finish_copyStmts (P : ι) (src dst : Device) (different : src ≠ dst) {w : Shared ι}
    (readable : (w.sys.device src).rdmflg = true) (data : Nat → Byte) (srcfpn dstfpn : Int) :
    (finish FaultStmt.exec P (copyStmts src srcfpn dst dstfpn) w).sys =
      w.sys.setDevice dst
        ((w.sys.device src).swapCpPage data srcfpn (w.sys.device dst) dstfpn).2 := by
  rw [Memphy.swapCpPage_fold data readable, copyStmts]
  generalize List.range pagingPagesz = cells
  induction cells generalizing w with
  | nil => exact (Sys.setDevice_device ..).symm
  | cons cellidx cells ih =>
      have source (mp : Memphy) : (w.sys.setDevice dst mp).device src = w.sys.device src :=
        Sys.device_setDevice_of_ne _ different mp
      rw [List.flatMap_cons, finish_append, finish_cons, finish_cons, finish_nil,
        FaultStmt.exec_read, FaultStmt.exec_write]
      simp only [Function.update_self, Memphy.memphyRead_random readable]
      rw [ih (by rw [source]; exact readable)]
      simp only [source, Sys.device_setDevice, Sys.setDevice_setDevice, List.foldl_cons]

/-- The last three statements of a fault make the exchange in the table of the process. -/
theorem finish_tables (P : ι) {pgn vicpgn : Nat} (distinct : vicpgn ≠ pgn) (w : Shared ι)
    (swpfpn : Int) :
    (finish FaultStmt.exec P [.setSwap vicpgn swpfpn,
        .setFpn pgn (pagingFpn ((w.sys.mm P).pgd vicpgn)), .enlist pgn] w).sys =
      { w.sys with
        mm := Function.update w.sys.mm P ((w.sys.mm P).exchanged pgn vicpgn swpfpn) } := by
  simp only [finish_cons, finish_nil, FaultStmt.exec, Shared.setTable, Function.update_self,
    Function.update_idem, MmStruct.setPte_pgd_of_ne distinct.symm, MmStruct.exchanged]

/-- The statements behind `MEMPHY_get_freefp` do what is left of `pg_getpage`. -/
theorem finish_faultStmts (t : Sys ι) (P : ι) {pgn vicpgn : Nat} (distinct : vicpgn ≠ pgn)
    (ramRandom : t.mram.rdmflg = true) {swpfpn : Int} {mswp : Memphy}
    (swapRandom : mswp.rdmflg = true) {u : Uninit}
    (got : (t.activeMswp.memphyGetFreefp u.swpfpn).2 = (swpfpn, mswp)) (data : ι → Byte) :
    (finish FaultStmt.exec P (faultStmts pgn vicpgn
        ⟨pagingFpn ((t.mm P).pgd vicpgn), swpfpn, pagingSwp ((t.mm P).pgd pgn)⟩)
      ⟨{ t with activeMswp := mswp }, data⟩).sys = t.put P ((t.caller P).faulted u pgn vicpgn) := by
  rw [faultStmts, finish_append, finish_append]
  -- the victim is copied out
  have out := finish_copyStmts P .mram .activeMswp (by decide)
    (w := ⟨{ t with activeMswp := mswp }, data⟩) ramRandom u.swapOut
    (pagingFpn ((t.mm P).pgd vicpgn)) swpfpn
  generalize finish FaultStmt.exec P (copyStmts .mram _ .activeMswp _) _ = afterOut at out ⊢
  -- and the page is copied in
  have outRandom : (afterOut.sys.device .activeMswp).rdmflg = true := by
    rw [out, Sys.device_setDevice]
    exact (Memphy.swapCpPage_sameFrames ..).rdmflg.trans swapRandom
  have back := finish_copyStmts P .activeMswp .mram (by decide) outRandom
    u.swapIn (pagingSwp ((t.mm P).pgd pgn)) (pagingFpn ((t.mm P).pgd vicpgn))
  generalize finish FaultStmt.exec P (copyStmts .activeMswp _ .mram _) _ = afterBack at back ⊢
  have table : afterBack.sys.mm = t.mm := by rw [back, out, Sys.setDevice_mm, Sys.setDevice_mm]
  have tables := finish_tables P distinct afterBack swpfpn
  rw [table] at tables
  have put : (t.caller P).faulted u pgn vicpgn = ⟨(t.mm P).exchanged pgn vicpgn swpfpn,
      afterBack.sys.mram, afterBack.sys.activeMswp⟩ := by
    simp only [Caller.faulted, Sys.caller, got, back, out, Sys.setDevice, Sys.device]
  rw [tables, put]
  rfl

end PagedOs
