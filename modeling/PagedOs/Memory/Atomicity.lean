import PagedOs.Memory.Preempted

/-! # Overlapping faults are atomic

A fault copies between frames that no other process accesses: the frame of its victim, the swap
frame that it took, and the swap frame of its page, which it leaves to nobody. So the statements of
overlapping faults commute, and a run is one in which each fault happens at once, when it takes the
swap frame.

In the state that all faults lead to every page has its bytes, and a process that reads a byte of
its page through the right frame number gets what it wrote there last.
-/

namespace PagedOs

open Transition Deferred

variable {ι : Type*}

/-- The page of an address, as a number that a table has an entry for. -/
def pageOf (P : ι) (addr : Int) : PageId ι := (P, ⟨pagingPgn addr, pagingPgn_lt addr⟩)

/-- The offset of an address is below the size of a page. -/
theorem pagingOffst_toNat_lt (addr : Int) : (pagingOffst addr).toNat < 256 := by
  rw [pagingOffst_eq]
  omega

/-- The offset of an address in its page. -/
def offsetOf (addr : Int) : Fin 256 := ⟨(pagingOffst addr).toNat, pagingOffst_toNat_lt addr⟩

/-- The physical address is the cell of the frame at the offset of the address. -/
theorem phyaddr_offset (addr fpn : Int) :
    Caller.phyaddr fpn (pagingOffst addr) = fpn * 256 + (offsetOf addr : Nat) := by
  have nonneg : 0 ≤ pagingOffst addr := by rw [pagingOffst_eq]; omega
  have offset : ((offsetOf addr : Nat) : Int) = pagingOffst addr := Int.toNat_of_nonneg nonneg
  rw [phyaddr_eq, offset]

/-- The frames of a fault that is not over. -/
def AccessPc.frames : AccessPc → Option FaultFrames
  | .fault _ _ frames _ => some frames
  | _ => none

/-- An access that holds no frames has no statement of a fault to do. -/
theorem AccessPc.todo_of_frames {pc : AccessPc} (none : pc.frames = none) : pc.todo = [] := by
  cases pc with
  | fault => cases none
  | idle => rfl
  | ready => rfl

/-- What happens to the pages in a step. -/
def AccessEvent.visible (label : ι × AccessEvent) : Option (ι × AccessEvent) :=
  match label.2 with
  | .work => none
  | .back => none
  | _ => some label

variable [DecidableEq ι]

/-- Whole calls of `pg_getpage`, and accesses to the RAM. -/
def Sys.AtomicStep (s : Sys ι) (label : ι × AccessEvent) (t : Sys ι) : Prop :=
  match label.2 with
  | .getPage pgn result => ∃ inside : pgn < pagingMaxPgn,
      Guarded GetPage Served s ((label.1, ⟨pgn, inside⟩), result) t
  | .read addr fpn value => t = s ∧ (s.Locates label.1 addr fpn →
      value = s.mram.storage (Caller.phyaddr fpn (pagingOffst addr)))
  | .write addr fpn value => s.Locates label.1 addr fpn ∧
      t = { s with mram := (s.mram.memphyWrite (Caller.phyaddr fpn (pagingOffst addr)) value).2 }
  | .work => False
  | .back => False

/-- Replace one of the devices by what a function makes of it. -/
def Shared.mapDevice (w : Shared ι) (device : Device) (change : Memphy → Memphy) : Shared ι :=
  { w with sys := w.sys.setDevice device (change (w.sys.device device)) }

/-- A change of a device commutes with a statement that does not touch what is changed. -/
theorem commute_mapDevice (P : ι) (stmt : FaultStmt) (device : Device) {change : Memphy → Memphy}
    (reads : ∀ addr, stmt = .read device addr → ∀ mp value,
      ((change mp).memphyRead addr value).2.1 = (mp.memphyRead addr value).2.1)
    (writes : ∀ addr, stmt = .write device addr → ∀ mp value,
      ((change mp).memphyWrite addr value).2 = change (mp.memphyWrite addr value).2) :
    Function.Commute (fun w : Shared ι => w.mapDevice device change) (stmt.exec P) := by
  intro w
  rcases stmt.cases_exec (ι := ι) with ⟨other, addr, rfl⟩ | ⟨other, addr, rfl⟩ | ⟨table, exec⟩
  · simp only [FaultStmt.exec_read, Shared.mapDevice]
    congr 2
    by_cases same : other = device
    · subst same
      rw [Sys.device_setDevice, reads addr rfl]
    · rw [Sys.device_setDevice_of_ne _ same]
  · simp only [FaultStmt.exec_write, Shared.mapDevice]
    congr 1
    by_cases same : other = device
    · subst same
      rw [Sys.device_setDevice, Sys.device_setDevice, Sys.setDevice_setDevice,
        Sys.setDevice_setDevice, writes addr rfl]
    · rw [Sys.device_setDevice_of_ne _ same, Sys.device_setDevice_of_ne _ (Ne.symm same)]
      cases device <;> cases other <;> first | rfl | exact absurd rfl same
  · simp only [exec, Shared.mapDevice]
    cases device <;> rfl

namespace Preempted

/-- What a process has to do before its fault is over. -/
def todo (s : Preempted ι) (P : ι) : List FaultStmt := (s.pc P).todo

/-- A call of `pg_getpage` is for a mapped page, and there is a swap frame for the victim of a
fault. A byte is written through the number of the frame that its page is in. -/
def Regular (s : Preempted ι) (label : ι × AccessEvent) : Prop :=
  match label.2 with
  | .getPage pgn _ => Mapped ((s.shared.sys.mm label.1).pgd pgn) ∧
      (pagingPagePresent ((s.shared.sys.mm label.1).pgd pgn) = false →
        s.shared.sys.activeMswp.freeFpList ≠ [])
  | .write addr fpn _ => s.shared.sys.Locates label.1 addr fpn
  | _ => True

/-- The pages that are accessed and the free list of the swap device decide, so that the condition
can be evaluated. -/
instance (s : Preempted ι) (label : ι × AccessEvent) : Decidable (s.Regular label) := by
  obtain ⟨P, event⟩ := label
  cases event with
  | getPage pgn result => exact inferInstanceAs (Decidable (_ ∧ (_ → _)))
  | write addr fpn value => exact inferInstanceAs (Decidable (s.shared.sys.Locates P addr fpn))
  | work => exact inferInstanceAs (Decidable True)
  | back => exact inferInstanceAs (Decidable True)
  | read addr fpn value => exact inferInstanceAs (Decidable True)

/-- The frames of a fault once it has happened: the process owns the first two, and the last one
is lost. -/
structure Claim (t : Sys ι) (P : ι) (frames : FaultFrames) : Prop where
  ram : ∃ page, owners ramFrame t.mm (P, page) = some frames.vicfpn
  swap : ∃ page, owners swapFrame t.mm (P, page) = some frames.swpfpn
  lost : ¬ Ledger.Placed (owners swapFrame t.mm) t.activeMswp.freeFpList frames.tgtfpn

/-- What is known of the faults that are not over, in the state that they lead to. -/
structure Claimed (s : Preempted ι) (t : Sys ι) : Prop where
  formed : t.WellFormed
  claims : ∀ P frames, (s.pc P).frames = some frames →
    Claim t P frames ∧ ∀ stmt ∈ s.todo P, stmt.Within frames
  targets : ∀ P Q frames frames', P ≠ Q → (s.pc P).frames = some frames →
    (s.pc Q).frames = some frames' → frames.tgtfpn ≠ frames'.tgtfpn

/-- The state that all faults lead to. -/
structure Settled (s : Preempted ι) (t : Sys ι) : Prop extends Claimed s t where
  sum : ∃ ks : List ι, ks.Nodup ∧ (∀ P, s.todo P ≠ [] → P ∈ ks) ∧
    (settle FaultStmt.exec ks s.todo s.shared).sys = t

variable {s s' : Preempted ι} {t : Sys ι} {P Q : ι}

omit [DecidableEq ι] in
/-- The frames of two faults of different processes are apart when the faults have different
targets. -/
theorem Claim.apart (formed : t.WellFormed) {frames frames' : FaultFrames}
    (claim : Claim t P frames) (claim' : Claim t Q frames') (other : P ≠ Q)
    (targets : frames.tgtfpn ≠ frames'.tgtfpn) : frames.Apart frames' := by
  obtain ⟨page, ram⟩ := claim.ram
  obtain ⟨page', ram'⟩ := claim'.ram
  obtain ⟨swapPage, swap⟩ := claim.swap
  obtain ⟨swapPage', swap'⟩ := claim'.swap
  intro device fpn here there
  cases device with
  | mram =>
      obtain rfl : fpn = frames.vicfpn := here
      have same : frames.vicfpn = frames'.vicfpn := there
      rw [← same] at ram'
      exact other (congrArg Prod.fst (formed.ram.exclusive ram ram'))
  | activeMswp =>
      rcases here with rfl | rfl <;> rcases there with same | same
      · rw [← same] at swap'
        exact other (congrArg Prod.fst (formed.swap.exclusive swap swap'))
      · exact claim'.lost (.inr ⟨_, same ▸ swap⟩)
      · exact claim.lost (.inr ⟨_, same ▸ swap'⟩)
      · exact targets same

/-- The statements that two faults have before them do not disturb each other. -/
theorem Claimed.independent (claimed : Claimed s t) : Independent FaultStmt.exec s.todo := by
  have pending {P : ι} {stmt : FaultStmt} (member : stmt ∈ s.todo P) :
      ∃ frames, (s.pc P).frames = some frames := by
    cases here : (s.pc P).frames with
    | some frames => exact ⟨frames, rfl⟩
    | none =>
        rw [todo, AccessPc.todo_of_frames here] at member
        cases member
  intro P Q other stmt member stmt' member'
  obtain ⟨frames, here⟩ := pending member
  obtain ⟨frames', there⟩ := pending member'
  obtain ⟨claim, within⟩ := claimed.claims P frames here
  obtain ⟨claim', within'⟩ := claimed.claims Q frames' there
  exact FaultStmt.exec_commute other
    (claim.apart claimed.formed claim' other (claimed.targets P Q _ _ other here there))
    (within stmt member) (within' stmt' member')

/-! ## What the faults of the other processes leave -/

namespace Settled

/-- A process that is in no fault has its tables. -/
theorem mm (settled : Settled s t) (quiet : s.todo P = []) : t.mm P = s.shared.sys.mm P := by
  obtain ⟨ks, -, -, rfl⟩ := settled.sum
  refine settle_view (fun w : Shared ι => w.sys.mm P) fun Q _ stmt member w => ?_
  refine FaultStmt.exec_mm ?_ stmt w
  rintro rfl
  rw [quiet] at member
  cases member

/-- The devices of the settled state have the free frames of the real one. -/
theorem frames (settled : Settled s t) (device : Device) :
    Memphy.SameFrames (s.shared.sys.device device) (t.device device) := by
  obtain ⟨ks, -, -, rfl⟩ := settled.sum
  let view (w : Shared ι) := ((w.sys.device device).maxsz, (w.sys.device device).rdmflg,
    (w.sys.device device).freeFpList, (w.sys.device device).usedFpList)
  have kept : view (settle FaultStmt.exec ks s.todo s.shared) = view s.shared :=
    settle_view view fun Q _ stmt _ w => by
      obtain ⟨size, access, free, used⟩ := stmt.exec_frames Q device w
      simp only [view, size, access, free, used]
  simp only [view, Prod.mk.injEq] at kept
  exact ⟨kept.1, kept.2.1, kept.2.2.1, kept.2.2.2⟩

/-- So do the cells of frames that no fault is about. -/
theorem storage (settled : Settled s t) {device : Device} {addr : Int}
    (outside : ∀ Q frames, (s.pc Q).frames = some frames → ¬ frames.Covers device (addr / 256)) :
    (t.device device).storage addr = (s.shared.sys.device device).storage addr := by
  have claims := settled.claims
  obtain ⟨ks, -, -, rfl⟩ := settled.sum
  refine settle_view (fun w : Shared ι => (w.sys.device device).storage addr)
    fun Q _ stmt member w => ?_
  cases here : (s.pc Q).frames with
  | some frames =>
      exact FaultStmt.exec_storage ((claims Q frames here).2 stmt member) (outside Q _ here) Q w
  | none =>
      rw [todo, AccessPc.todo_of_frames here] at member
      cases member

/-- The threads that are settled may be taken to be more. -/
theorem sum_mem (settled : Settled s t) (quiet : s.todo P = []) :
    ∃ ks : List ι, ks.Nodup ∧ P ∈ ks ∧ (∀ Q, s.todo Q ≠ [] → Q ∈ ks) ∧
      (settle FaultStmt.exec ks s.todo s.shared).sys = t := by
  obtain ⟨ks, nodup, covers, sum⟩ := settled.sum
  by_cases member : P ∈ ks
  · exact ⟨ks, nodup, member, covers, sum⟩
  · refine ⟨P :: ks, List.nodup_cons.mpr ⟨member, nodup⟩, List.mem_cons_self,
      fun Q busy => List.mem_cons_of_mem _ (covers Q busy), ?_⟩
    rw [settle_cons, quiet, finish_nil]
    exact sum

end Settled

/-! ## Steps that happen nowhere else -/

/-- When an access moves on, what the other processes have before them stays. -/
theorem todo_update {pc : AccessPc} (moved : s'.pc = Function.update s.pc P pc) :
    s'.todo = Function.update s.todo P pc.todo := by
  funext Q
  by_cases same : Q = P
  · subst same
    rw [todo, moved, Function.update_self, Function.update_self]
  · rw [todo, moved, Function.update_of_ne same, Function.update_of_ne same, todo]

/-- A process gets on with its fault, or is in none any more. -/
theorem Claimed.move (claimed : Claimed s t) {pc : AccessPc}
    (moved : s'.pc = Function.update s.pc P pc)
    (kept : ∀ frames, pc.frames = some frames → (s.pc P).frames = some frames)
    (fewer : ∀ stmt ∈ pc.todo, stmt ∈ s.todo P) : Claimed s' t := by
  have before {Q : ι} {frames : FaultFrames} (here : (s'.pc Q).frames = some frames) :
      (s.pc Q).frames = some frames ∧ ∀ stmt ∈ s'.todo Q, stmt ∈ s.todo Q := by
    rw [todo_update moved]
    rw [moved] at here
    by_cases same : Q = P
    · subst same
      rw [Function.update_self] at here ⊢
      exact ⟨kept frames here, fewer⟩
    · rw [Function.update_of_ne same] at here ⊢
      exact ⟨here, fun _ member => member⟩
  refine ⟨claimed.formed, fun Q frames here => ?_, fun Q R frames frames' other here there =>
    claimed.targets Q R frames frames' other (before here).1 (before there).1⟩
  obtain ⟨claim, within⟩ := claimed.claims Q frames (before here).1
  exact ⟨claim, fun stmt member => within stmt ((before here).2 stmt member)⟩

/-- A step of a process that does nothing to the devices and the tables. -/
theorem Settled.quiet (settled : Settled s t) {pc : AccessPc} (shared : s'.shared = s.shared)
    (moved : s'.pc = Function.update s.pc P pc) (quiet : s.todo P = []) (none : pc.frames = none) :
    Settled s' t := by
  have todo : s'.todo = s.todo := by
    rw [todo_update moved, AccessPc.todo_of_frames none, ← quiet, Function.update_eq_self]
  refine ⟨settled.toClaimed.move moved (fun frames here => ?_) fun stmt member => ?_, ?_⟩
  · rw [none] at here
    cases here
  · rw [AccessPc.todo_of_frames none] at member
    cases member
  · rw [todo, shared]
    exact settled.sum

/-- A statement of a fault leads to the same state. -/
theorem Settled.work (settled : Settled s t) {access : PageAccess} {pte : Pte}
    {frames : FaultFrames} {stmt : FaultStmt} {rest : List FaultStmt}
    (here : s.pc P = .fault access pte frames (stmt :: rest))
    (shared : s'.shared = stmt.exec P s.shared)
    (moved : s'.pc = Function.update s.pc P (.fault access pte frames rest)) : Settled s' t := by
  have next : s.todo P = stmt :: rest := by rw [todo, here]; rfl
  refine ⟨settled.toClaimed.move moved (fun frames same => ?_) fun stmt member => ?_, ?_⟩
  · rw [here]
    exact same
  · rw [next]
    exact List.mem_cons_of_mem _ member
  · obtain ⟨ks, nodup, covers, sum⟩ := settled.sum
    have member : P ∈ ks := covers P (by rw [next]; exact List.cons_ne_nil _ _)
    refine ⟨ks, nodup, fun Q busy => ?_, ?_⟩
    · by_cases same : Q = P
      · exact same ▸ member
      · rw [todo_update moved, Function.update_of_ne same] at busy
        exact covers Q busy
    · rw [todo_update moved, shared]
      exact (congrArg Shared.sys
        (settle_perform settled.toClaimed.independent nodup member next)).trans sum

/-! ## A fault takes a swap frame -/

/-- The first free frame is gone, as `MEMPHY_get_freefp` leaves the list. -/
def popFree (mp : Memphy) : Memphy := { mp with freeFpList := mp.freeFpList.tail }

/-- Taking a free frame commutes with each statement of a fault, which looks at cells and tables
only. -/
theorem commute_popFree (P : ι) (stmt : FaultStmt) :
    Function.Commute (fun w : Shared ι => w.mapDevice .activeMswp popFree) (stmt.exec P) := by
  refine commute_mapDevice P stmt .activeMswp (fun addr _ mp value => ?_) fun addr _ mp value => ?_
  · have access : (popFree mp).rdmflg = mp.rdmflg := rfl
    exact Memphy.memphyRead_congr access rfl value
  · cases access : mp.rdmflg <;>
      simp [popFree, Memphy.memphyWrite, Memphy.memphySeqWrite, access]

section Fault

variable {pgn vicpgn : Nat} {swpfpn : Int} {rest : List Int} {c : Caller}

/-- Who owns the swap frames after a fault. -/
theorem swapOwners_exchange (formed : t.WellFormed)
    (moved : (t.caller P).Exchange pgn vicpgn swpfpn rest c) (inside : pgn < pagingMaxPgn)
    (vicInside : vicpgn < pagingMaxPgn) (free : t.activeMswp.freeFpList = swpfpn :: rest) :
    owners swapFrame (t.put P c).mm =
      Function.update (Function.update (owners swapFrame t.mm) (P, ⟨vicpgn, vicInside⟩)
        (some swpfpn)) (P, ⟨pgn, inside⟩) none := by
  have valid := formed.swap.freeValid (free ▸ List.mem_cons_self : swpfpn ∈ _)
  have small := formed.swapSmall
  have table : (t.put P c).mm = Function.update t.mm P ((t.mm P).exchanged pgn vicpgn swpfpn) :=
    congrArg (Function.update t.mm P) moved.mm
  rw [table, exchanged_swapOwners inside vicInside valid.1 (by have := valid.2; omega),
    Function.update_eq_self]

/-- The claims of the other processes after a fault. -/
theorem Claim.exchange {frames : FaultFrames} (claim : Claim t Q frames) (other : Q ≠ P)
    (formed : t.WellFormed) (moved : (t.caller P).Exchange pgn vicpgn swpfpn rest c)
    (inside : pgn < pagingMaxPgn) (vicInside : vicpgn < pagingMaxPgn)
    (free : t.activeMswp.freeFpList = swpfpn :: rest) : Claim (t.put P c) Q frames := by
  have pages (frame : Pte → Option Int) (page : Fin pagingMaxPgn) :
      owners frame (t.put P c).mm (Q, page) = owners frame t.mm (Q, page) :=
    congrArg frame (Sys.put_pte_of_ne other c)
  obtain ⟨page, ram⟩ := claim.ram
  obtain ⟨swapPage, swap⟩ := claim.swap
  refine ⟨⟨page, (pages _ _).trans ram⟩, ⟨swapPage, (pages _ _).trans swap⟩, fun placed => ?_⟩
  have left : (t.put P c).activeMswp.freeFpList = rest := moved.swap.free
  rw [left, swapOwners_exchange formed moved inside vicInside free] at placed
  exact claim.lost (free ▸ placed.of_revoke.of_grant)

theorem claim_of_exchange (formed : t.WellFormed)
    (moved : (t.caller P).Exchange pgn vicpgn swpfpn rest c) (inside : pgn < pagingMaxPgn)
    (vicInside : vicpgn < pagingMaxPgn) (distinct : vicpgn ≠ pgn)
    (free : t.activeMswp.freeFpList = swpfpn :: rest)
    (held : swapFrame ((t.mm P).pgd pgn) = some (pagingSwp ((t.mm P).pgd pgn))) :
    Claim (t.put P c) P
      ⟨pagingFpn ((t.mm P).pgd vicpgn), swpfpn, pagingSwp ((t.mm P).pgd pgn)⟩ := by
  have left : (t.put P c).activeMswp.freeFpList = rest := moved.swap.free
  have apart : ((P, ⟨vicpgn, vicInside⟩) : PageId ι) ≠ (P, ⟨pgn, inside⟩) := fun same =>
    distinct (congrArg (fun page => (page.2 : Nat)) same)
  refine ⟨⟨⟨pgn, inside⟩, ?_⟩, ⟨⟨vicpgn, vicInside⟩, ?_⟩, ?_⟩
  · refine (congrArg ramFrame (Sys.exchange_pte_fetched moved inside)).trans ?_
    exact ramFrame_pteSetFpn _ (pagingFpn_nonneg _) (pagingFpn_lt _)
  · rw [swapOwners_exchange formed moved inside vicInside free, Function.update_of_ne apart,
      Function.update_self]
  · have ledger := formed.swap
    rw [free] at ledger
    rw [left, swapOwners_exchange formed moved inside vicInside free]
    refine (ledger.grant (P, ⟨vicpgn, vicInside⟩)).revoke_unplaced ?_
    rw [Function.update_of_ne apart.symm]
    exact held

end Fault

/-- A process comes to a fault, with claims that nobody had before. -/
theorem Claimed.enter (claimed : Claimed s t) {after : Sys ι} (formed : after.WellFormed)
    {pc : AccessPc} {own : FaultFrames} (moved : s'.pc = Function.update s.pc P pc)
    (mine : pc.frames = some own) (claim : Claim after P own)
    (within : ∀ stmt ∈ pc.todo, stmt.Within own)
    (others : ∀ Q frames, Q ≠ P → Claim t Q frames → Claim after Q frames)
    (placed : Ledger.Placed (owners swapFrame t.mm) t.activeMswp.freeFpList own.tgtfpn) :
    Claimed s' after := by
  have before {Q : ι} {frames : FaultFrames} (here : (s'.pc Q).frames = some frames) :
      (Q = P ∧ frames = own) ∨ (Q ≠ P ∧ (s.pc Q).frames = some frames) := by
    rw [moved] at here
    by_cases same : Q = P
    · subst same
      rw [Function.update_self, mine] at here
      exact .inl ⟨rfl, (Option.some.inj here).symm⟩
    · rw [Function.update_of_ne same] at here
      exact .inr ⟨same, here⟩
  refine ⟨formed, fun Q frames here => ?_, fun Q R frames frames' other here there same => ?_⟩
  · rw [todo_update moved]
    rcases before here with ⟨rfl, rfl⟩ | ⟨other, here⟩
    · rw [Function.update_self]
      exact ⟨claim, within⟩
    · obtain ⟨claim, within⟩ := claimed.claims Q frames here
      rw [Function.update_of_ne other]
      exact ⟨others Q frames other claim, within⟩
  · rcases before here with ⟨rfl, rfl⟩ | ⟨-, here⟩ <;>
      rcases before there with ⟨rfl, rfl⟩ | ⟨-, there⟩
    · exact other rfl
    · exact (claimed.claims R frames' there).1.lost (same ▸ placed)
    · exact (claimed.claims Q frames here).1.lost (same ▸ placed)
    · exact claimed.targets Q R frames frames' other here there same

/-- **A fault happens at once** in the state that all faults lead to. -/
theorem Settled.fault (settled : Settled s t) {access : PageAccess} {pgn vicpgn : Nat}
    {swpfpn : Int} {mswp : Memphy} {u : Uninit} (idle : s.pc P = .idle)
    (inside : pgn < pagingMaxPgn) (mapped : Mapped ((s.shared.sys.mm P).pgd pgn))
    (room : s.shared.sys.activeMswp.freeFpList ≠ [])
    (absent : pagingPagePresent ((s.shared.sys.mm P).pgd pgn) = false)
    (victim : (s.shared.sys.mm P).findVictimPage = some vicpgn)
    (got : (s.shared.sys.activeMswp.memphyGetFreefp u.swpfpn).2 = (swpfpn, mswp))
    (shared : s'.shared = { s.shared with sys := { s.shared.sys with activeMswp := mswp } })
    (moved : s'.pc = Function.update s.pc P (.fault access ((s.shared.sys.mm P).pgd pgn)
      ⟨pagingFpn ((s.shared.sys.mm P).pgd vicpgn), swpfpn, pagingSwp ((s.shared.sys.mm P).pgd pgn)⟩
      (faultStmts pgn vicpgn ⟨pagingFpn ((s.shared.sys.mm P).pgd vicpgn), swpfpn,
        pagingSwp ((s.shared.sys.mm P).pgd pgn)⟩))) :
    ∃ t', Guarded Sys.GetPage Sys.Served t
        ((P, ⟨pgn, inside⟩), some (pagingFpn ((s.shared.sys.mm P).pgd pgn))) t' ∧
      Settled s' t' := by
  have formed := settled.formed
  have quiet : s.todo P = [] := by rw [todo, idle]; rfl
  have table := settled.mm quiet
  rw [← table] at mapped absent victim moved ⊢
  -- the first free swap frame is the one that the fault takes
  obtain ⟨first, rest, list⟩ := List.exists_cons_of_ne_nil room
  have free : t.activeMswp.freeFpList = first :: rest :=
    (settled.frames .activeMswp).free.trans list
  have popped : swpfpn = first ∧ mswp = { s.shared.sys.activeMswp with
      freeFpList := s.shared.sys.activeMswp.freeFpList.tail } := by
    rw [Memphy.memphyGetFreefp, list] at got
    obtain ⟨rfl, rfl⟩ := Prod.mk.inj got
    exact ⟨rfl, by rw [list]; rfl⟩
  obtain ⟨rfl, rfl⟩ := popped
  obtain ⟨distinct, result⟩ := Caller.pgGetpage_miss (c := t.caller P) absent victim u
  obtain ⟨member, -⟩ := MmStruct.findVictimPage_some victim
  have vicInside := formed.listed P vicpgn member
  have exchange := Caller.faulted_exchange (c := t.caller P) formed.ramRandom formed.swapRandom u
    pgn vicpgn free
  have taken : Guarded Sys.GetPage Sys.Served t
      ((P, ⟨pgn, inside⟩), some (pagingFpn ((t.mm P).pgd pgn)))
      (t.put P ((t.caller P).faulted u pgn vicpgn)) :=
    ⟨⟨mapped, fun _ => by rw [free]; exact List.cons_ne_nil _ _⟩, u, by rw [result]; rfl,
      by rw [result]⟩
  refine ⟨_, taken, ?_⟩
  have held : owners swapFrame t.mm (P, ⟨pgn, inside⟩) = some (pagingSwp ((t.mm P).pgd pgn)) :=
    Sys.swapped_of_mapped mapped absent
  have claimed : Claimed s' (t.put P ((t.caller P).faulted u pgn vicpgn)) :=
    settled.toClaimed.enter (formed.getPage taken).1 moved rfl
      (claim_of_exchange formed exchange inside vicInside distinct free held)
      (faultStmts_within pgn vicpgn _)
      (fun Q frames other claim => claim.exchange other formed exchange inside vicInside free)
      (.inr ⟨_, held⟩)
  refine ⟨claimed, ?_⟩
  -- and the sum
  obtain ⟨ks, nodup, among, covers, sum⟩ := settled.sum_mem quiet
  refine ⟨ks, nodup, fun Q busy => ?_, ?_⟩
  · by_cases same : Q = P
    · exact same ▸ among
    · rw [todo_update moved, Function.update_of_ne same] at busy
      exact covers Q busy
  · have independent := claimed.independent
    rw [todo_update moved] at independent ⊢
    have pop : s'.shared = s.shared.mapDevice .activeMswp popFree := shared
    have commuted : settle FaultStmt.exec ks s.todo (s.shared.mapDevice .activeMswp popFree) =
        (settle FaultStmt.exec ks s.todo s.shared).mapDevice .activeMswp popFree :=
      settle_comm fun Q _ stmt _ => commute_popFree Q stmt
    have tail : (t.activeMswp.memphyGetFreefp u.swpfpn).2 = (swpfpn, popFree t.activeMswp) := by
      rw [Memphy.memphyGetFreefp, free, popFree, free]
      rfl
    have random : (popFree t.activeMswp).rdmflg = true := formed.swapRandom
    have whole := finish_faultStmts t P distinct formed.ramRandom random tail
      (settle FaultStmt.exec ks s.todo s.shared).data
    rw [pop, settle_add quiet nodup among independent, commuted, ← whole, ← sum]
    rfl

/-! ## Accesses to the RAM -/

omit [DecidableEq ι] in
/-- No fault that is not over is about the frame that a page of another process is in. -/
theorem Claimed.outside (claimed : Claimed s t) {addr fpn : Int} (located : t.Locates P addr fpn)
    (none : (s.pc P).frames = none) (Q : ι) (frames : FaultFrames)
    (here : (s.pc Q).frames = some frames) :
    ¬ frames.Covers .mram (Caller.phyaddr fpn (pagingOffst addr) / 256) := by
  intro covers
  obtain ⟨page, ram⟩ := (claimed.claims Q frames here).1.ram
  have frame : Caller.phyaddr fpn (pagingOffst addr) / 256 = fpn := by
    rw [phyaddr_offset]
    omega
  have same : fpn = frames.vicfpn := frame.symm.trans covers
  have owned : owners ramFrame t.mm (pageOf P addr) = some frames.vicfpn :=
    ramFrame_eq_some.mpr ⟨located.1, located.2.trans same⟩
  obtain rfl : P = Q := congrArg Prod.fst (claimed.formed.ram.exclusive owned ram)
  rw [none] at here
  cases here

/-- A process reads what it would read when all faults are over. -/
theorem Settled.read (settled : Settled s t) {addr fpn : Int} (located : t.Locates P addr fpn)
    (none : (s.pc P).frames = none) (data : Byte) :
    (s.shared.sys.mram.memphyRead (Caller.phyaddr fpn (pagingOffst addr)) data).2.1 =
      t.mram.storage (Caller.phyaddr fpn (pagingOffst addr)) := by
  have access : s.shared.sys.mram.rdmflg = true :=
    (settled.frames .mram).rdmflg.symm.trans settled.formed.ramRandom
  rw [Memphy.memphyRead_random access]
  have kept : (t.device .mram).storage _ = _ :=
    settled.storage (settled.toClaimed.outside located none)
  exact kept.symm

/-- What a process writes is there when all faults are over. -/
theorem Settled.write (settled : Settled s t) {addr fpn : Int} {value : Byte}
    (located : t.Locates P addr fpn) (none : (s.pc P).frames = none)
    (shared : s'.shared = { s.shared with
      sys := { s.shared.sys with mram := (s.shared.sys.mram.memphyWrite
        (Caller.phyaddr fpn (pagingOffst addr)) value).2 } })
    (moved : s'.pc = Function.update s.pc P .idle)
    (formed : ({ t with mram := (t.mram.memphyWrite (Caller.phyaddr fpn (pagingOffst addr))
      value).2 } : Sys ι).WellFormed) :
    Settled s' { t with mram := (t.mram.memphyWrite (Caller.phyaddr fpn (pagingOffst addr))
      value).2 } := by
  have outside := settled.toClaimed.outside located none
  have stored : s'.shared = s.shared.mapDevice .mram
      fun mp => (mp.memphyWrite (Caller.phyaddr fpn (pagingOffst addr)) value).2 := shared
  generalize Caller.phyaddr fpn (pagingOffst addr) = cell at formed outside stored ⊢
  have quiet : s.todo P = [] := AccessPc.todo_of_frames none
  have todo : s'.todo = s.todo := by
    rw [todo_update moved, ← Function.update_eq_self P s.todo, Function.update_idem, quiet]
    rfl
  have claimed : Claimed s' t := settled.toClaimed.move moved (fun _ here => by cases here)
    (fun _ member => by cases member)
  refine ⟨⟨formed, fun Q frames here => ?_, claimed.targets⟩, ?_⟩
  · obtain ⟨claim, within⟩ := claimed.claims Q frames here
    exact ⟨⟨claim.ram, claim.swap, claim.lost⟩, within⟩
  · obtain ⟨ks, nodup, covers, sum⟩ := settled.sum
    refine ⟨ks, nodup, by rwa [todo], ?_⟩
    have commuted : settle FaultStmt.exec ks s.todo (s.shared.mapDevice .mram
        fun mp => (mp.memphyWrite cell value).2) =
        (settle FaultStmt.exec ks s.todo s.shared).mapDevice .mram
          fun mp => (mp.memphyWrite cell value).2 := by
      refine settle_comm (f := fun w : Shared ι => w.mapDevice .mram
        fun mp => (mp.memphyWrite cell value).2) fun Q _ stmt member => ?_
      -- a statement of another fault is about another cell
      have apart (addr : Int) (frames : FaultFrames) (here : (s.pc Q).frames = some frames)
          (covered : frames.Covers .mram (addr / 256)) : addr ≠ cell := by
        rintro rfl
        exact outside Q frames here covered
      cases here : (s.pc Q).frames with
      | none =>
          rw [Preempted.todo, AccessPc.todo_of_frames here] at member
          cases member
      | some frames =>
          have within := (settled.claims Q frames here).2 stmt member
          refine commute_mapDevice Q stmt .mram (fun addr same mp data => ?_)
            fun addr same mp data => ?_
          · subst same
            exact Memphy.memphyRead_congr (Memphy.memphyWrite_sameFrames ..).rdmflg
              (Memphy.memphyWrite_storage_of_ne _ (apart addr frames here within) _) _
          · subst same
            exact Memphy.memphyWrite_comm _ (apart addr frames here within).symm _ _
    rw [todo, stored, commuted, ← sum]
    rfl

end Preempted

/-! ## What the pages hold -/

/-- The bytes of the pages after what happens in a step. -/
def remember (contents : PageId ι → Fin 256 → Byte) (label : ι × AccessEvent) :
    PageId ι → Fin 256 → Byte :=
  match label.2 with
  | .write addr _ value => Function.update contents (pageOf label.1 addr)
      (Function.update (contents (pageOf label.1 addr)) (offsetOf addr) value)
  | _ => contents

/-- A write is remembered at its page and offset, and nothing else changes. -/
theorem remember_write (contents : PageId ι → Fin 256 → Byte) (P : ι) (addr fpn : Int)
    (value : Byte) : remember contents (P, .write addr fpn value) =
      Function.update contents (pageOf P addr)
        (Function.update (contents (pageOf P addr)) (offsetOf addr) value) := rfl

/-- What was written last to each byte of the pages. -/
def remembered (contents : PageId ι → Fin 256 → Byte) (history : List (ι × AccessEvent)) :
    PageId ι → Fin 256 → Byte := history.foldl remember contents

/-- The statements of a fault write nothing that the process asked for. -/
theorem remembered_visible (contents : PageId ι → Fin 256 → Byte)
    (history : List (ι × AccessEvent)) :
    remembered contents (history.filterMap AccessEvent.visible) = remembered contents history := by
  induction history generalizing contents with
  | nil => rfl
  | cons label rest ih =>
      obtain ⟨P, event⟩ := label
      cases event <;> exact ih _

namespace Sys

variable {s t : Sys ι} {P : ι}

omit [DecidableEq ι] in
/-- The byte of a page that is in the frame is in the cell of the frame. -/
theorem content_of_locates {addr fpn : Int} (located : s.Locates P addr fpn) :
    s.content (pageOf P addr) (offsetOf addr) =
      s.mram.storage (Caller.phyaddr fpn (pagingOffst addr)) := by
  obtain ⟨present, rfl⟩ := located
  have inRam : pagingPagePresent (s.pte (pageOf P addr)) = true := present
  rw [content_of_present inRam, phyaddr_offset]
  rfl

/-- A byte written to a page in RAM. -/
theorem WellFormed.store (formed : s.WellFormed) {addr fpn : Int} (located : s.Locates P addr fpn)
    (value : Byte) :
    let t : Sys ι :=
      { s with mram := (s.mram.memphyWrite (Caller.phyaddr fpn (pagingOffst addr)) value).2 }
    t.WellFormed ∧ t.content = remember s.content (P, .write addr fpn value) := by
  intro t
  obtain ⟨present, rfl⟩ := located
  have frames : Memphy.SameFrames s.mram t.mram := Memphy.memphyWrite_sameFrames ..
  have coherent : Coherent (s.put P (s.caller P)) := by
    rw [put_caller]
    exact formed.toCoherent
  have put : s.put P { s.caller P with mram := t.mram } = t := by
    simp only [Sys.put, Sys.caller, Function.update_eq_self]
    rfl
  refine ⟨⟨put ▸ coherent.touch frames, ?_, formed.swapSmall⟩, ?_⟩
  · rw [frames.maxsz]
    exact formed.ramSmall
  funext page
  -- the cell is of the page in its frame
  have owned : owners ramFrame s.mm (pageOf P addr) =
      some (pagingFpn ((s.mm P).pgd (pagingPgn addr))) := ramFrame_eq_some.mpr ⟨present, rfl⟩
  have bytes (fpn : Int) : t.mram.page fpn = if fpn = pagingFpn ((s.mm P).pgd (pagingPgn addr)) then
      Function.update (s.mram.page fpn) (offsetOf addr) value else s.mram.page fpn := by
    funext offset
    have storage : t.mram.storage = Function.update s.mram.storage
        (Caller.phyaddr (pagingFpn ((s.mm P).pgd (pagingPgn addr))) (pagingOffst addr)) value := by
      simp only [t, Memphy.memphyWrite_random formed.ramRandom]
    rw [Memphy.page, storage, phyaddr_offset]
    split
    · rename_i same
      subst same
      by_cases here : offset = offsetOf addr
      · subst here
        rw [Function.update_self, Function.update_self]
      · have apart : (offset : Nat) ≠ offsetOf addr := fun hit => here (Fin.ext hit)
        rw [Function.update_of_ne here, Function.update_of_ne (by omega)]
        rfl
    · rename_i other
      rw [Function.update_of_ne (by omega)]
      rfl
  by_cases isPage : page = pageOf P addr
  · subst isPage
    have still : pagingPagePresent (t.pte (pageOf P addr)) = true := present
    have was : pagingPagePresent (s.pte (pageOf P addr)) = true := present
    rw [remember_write, Function.update_self, content_of_present still, content_of_present was]
    exact (bytes _).trans (if_pos rfl)
  · rw [remember_write, Function.update_of_ne isPage]
    refine content_congr (s := s) (t := t) rfl (fun inRam => ?_) fun _ => rfl
    refine (bytes _).trans (if_neg fun same => isPage ?_)
    exact formed.ram.exclusive (ramFrame_eq_some.mpr ⟨inRam, same⟩) owned

/-- The bytes of the pages change by what is written to them alone. -/
theorem AtomicStep.contents {label : ι × AccessEvent} (formed : s.WellFormed)
    (taken : s.AtomicStep label t) :
    t.WellFormed ∧ ∀ page, Mapped (s.pte page) →
      Mapped (t.pte page) ∧ t.content page = remember s.content label page := by
  obtain ⟨P, event⟩ := label
  cases event with
  | getPage pgn result =>
      obtain ⟨inside, taken⟩ := taken
      obtain ⟨formed, contents, -⟩ := formed.getPage taken
      exact ⟨formed, contents⟩
  | work => exact taken.elim
  | back => exact taken.elim
  | read addr fpn value =>
      obtain ⟨rfl, -⟩ := taken
      exact ⟨formed, fun page mapped => ⟨mapped, rfl⟩⟩
  | write addr fpn value =>
      obtain ⟨located, rfl⟩ := taken
      obtain ⟨formed, contents⟩ := formed.store located value
      exact ⟨formed, fun page mapped => ⟨mapped, congrFun contents page⟩⟩

/-- After a run the pages hold what was written to them last. -/
theorem run_contents {source : Sys ι} {history : List (ι × AccessEvent)}
    (formed : source.WellFormed) (run : Run AtomicStep source history t) (page : PageId ι)
    (mapped : Mapped (source.pte page)) :
    t.content page = remembered source.content history page := by
  have kept := run.history_invariant (fun history s => s.WellFormed ∧
      ∀ page, Mapped (source.pte page) →
        Mapped (s.pte page) ∧ s.content page = remembered source.content history page)
    (fun past before label after held taken => ?_) ⟨formed, fun page mapped => ⟨mapped, rfl⟩⟩
  · exact (kept.2 page mapped).2
  · obtain ⟨formed, contents⟩ := taken.contents held.1
    refine ⟨formed, fun page mapped => ?_⟩
    obtain ⟨before, same⟩ := held.2 page mapped
    obtain ⟨still, after⟩ := contents page before
    refine ⟨still, after.trans ?_⟩
    rw [remembered, List.foldl_append]
    show remember _ label page = remember (remembered source.content past) label page
    obtain ⟨P, event⟩ := label
    cases event with
    | write addr fpn value =>
        rw [remember_write, remember_write]
        by_cases isPage : page = pageOf P addr
        · subst isPage
          rw [Function.update_self, Function.update_self, same]
        · rw [Function.update_of_ne isPage, Function.update_of_ne isPage, same]
    | _ => exact same

end Sys

/-! ## Whole runs -/

namespace Preempted

variable {source t t' : Preempted ι} {history : List (ι × AccessEvent)}

omit [DecidableEq ι] in
/-- An access that is idle or ready holds no frames. -/
theorem frames_idle {pc : AccessPc} (quiet : pc = .idle ∨ ∃ access fpn, pc = .ready access fpn) :
    pc.frames = none := by
  rcases quiet with rfl | ⟨access, fpn, rfl⟩ <;> rfl

/-- Before the first step there is nothing to settle, so that the state is its own settled state.
-/
theorem start_settled (formed : source.shared.sys.WellFormed) (idle : ∀ P, source.pc P = .idle) :
    Settled source source.shared.sys where
  formed := formed
  claims := fun P frames here => by
    rw [frames_idle (.inl (idle P))] at here
    cases here
  targets := fun P Q frames frames' other here => by
    rw [frames_idle (.inl (idle P))] at here
    cases here
  sum := ⟨[], List.nodup_nil, fun P busy => absurd (by rw [todo, idle]; rfl) busy, rfl⟩

/-- A run leads to a settled state, which the faults and accesses lead to one at a time. -/
theorem run_settled (formed : source.shared.sys.WellFormed) (idle : ∀ P, source.pc P = .idle)
    (run : Run (Guarded Step Regular) source history t) :
    ∃ reached,
      Run Sys.AtomicStep source.shared.sys (history.filterMap AccessEvent.visible) reached ∧
        Settled t reached := by
  refine run.simulate Settled AccessEvent.visible ?_ (start_settled formed idle)
  rintro before ⟨P, event⟩ after mirror settled ⟨regular, taken⟩
  cases taken.move with
  | @hit access fpn idle located shared pc =>
      have quiet : before.todo P = [] := by rw [todo, idle]; rfl
      have table := settled.mm quiet
      obtain ⟨mapped, -⟩ := regular
      obtain ⟨present, same⟩ := located
      rw [← table] at mapped present same
      subst same
      have result := Caller.pgGetpage_hit (c := mirror.caller P) present .zeroed
      refine ⟨mirror, ⟨pagingPgn_lt _, ⟨mapped, fun absent => ?_⟩, .zeroed, ?_, ?_⟩,
        settled.quiet shared pc quiet rfl⟩
      · rw [show pagingPagePresent (mirror.pte (P, ⟨pagingPgn access.addr, pagingPgn_lt _⟩)) = true
          from present] at absent
        cases absent
      · rw [result]
        rfl
      · rw [result, Sys.put_caller]
  | @nobody pgn idle inside absent nobody same =>
      subst same
      have quiet : after.todo P = [] := by rw [todo, idle]; rfl
      obtain ⟨mapped, room⟩ := regular
      have free := room absent
      rw [← settled.mm quiet] at mapped absent nobody
      have result := Caller.pgGetpage_nobody (c := mirror.caller P) absent nobody .zeroed
      refine ⟨mirror, ⟨inside, ⟨mapped, fun _ => ?_⟩, .zeroed, ?_, ?_⟩, settled⟩
      · rw [show mirror.activeMswp.freeFpList = _ from (settled.frames .activeMswp).free]
        exact free
      · rw [result]
      · rw [result, Sys.put_caller]
  | fault idle inside absent victim got shared pc =>
      obtain ⟨mapped, room⟩ := regular
      obtain ⟨reached, moved, settled⟩ :=
        settled.fault idle inside mapped (room absent) absent victim got shared pc
      exact ⟨reached, ⟨inside, moved⟩, settled⟩
  | work here shared pc => exact settled.work here shared pc
  | back here shared pc =>
      exact settled.quiet shared pc (by rw [todo, here]; rfl) rfl
  | @read addr fpn data here shared pc =>
      have none := frames_idle (.inr ⟨_, _, here⟩)
      have quiet := AccessPc.todo_of_frames none
      refine ⟨mirror, ⟨rfl, fun located => ?_⟩, settled.quiet shared pc quiet rfl⟩
      exact settled.read located none data
  | @write addr fpn value here shared pc =>
      have none := frames_idle (.inr ⟨_, _, here⟩)
      have located : mirror.Locates P addr fpn := by
        have located : before.shared.sys.Locates P addr fpn := regular
        rwa [Sys.Locates, ← settled.mm (AccessPc.todo_of_frames none)] at located
      have stored := (settled.formed.store located value).1
      exact ⟨_, ⟨located, rfl⟩, settled.write located none shared pc stored⟩

/-- **Overlapping faults are atomic.** However the accesses of the processes to the devices
interleave, once no fault is under way the devices and the page tables are what the same calls of
`pg_getpage` and the same accesses lead to one at a time, each call in the place in which it took
its swap frame or returned without a fault. -/
theorem faults_atomic (formed : source.shared.sys.WellFormed) (idle : ∀ P, source.pc P = .idle)
    (run : Run (Guarded Step Regular) source history t) (ended : ∀ P, t.todo P = []) :
    Run Sys.AtomicStep source.shared.sys (history.filterMap AccessEvent.visible) t.shared.sys := by
  obtain ⟨reached, atomic, settled⟩ := run_settled formed idle run
  obtain ⟨ks, -, -, sum⟩ := settled.sum
  rw [settle_idle fun P _ => ended P] at sum
  rwa [sum]

/-- **Every process reads what it wrote.** In every such run, also while faults are under way, a
process that reads a byte of its page through the number of the frame that the page is in gets what
it wrote there last, or what was there at the start. -/
theorem reads_own_writes (formed : source.shared.sys.WellFormed)
    (idle : ∀ P, source.pc P = .idle) (run : Run (Guarded Step Regular) source history t) {P : ι}
    {addr fpn : Int} {value : Byte} (taken : Step t (P, .read addr fpn value) t')
    (located : t.shared.sys.Locates P addr fpn)
    (mapped : Mapped (source.shared.sys.pte (pageOf P addr))) :
    value = remembered source.shared.sys.content history (pageOf P addr) (offsetOf addr) := by
  obtain ⟨reached, atomic, settled⟩ := run_settled formed idle run
  have contents := Sys.run_contents formed atomic (pageOf P addr) mapped
  rw [remembered_visible] at contents
  cases taken.move with
  | @read _ _ data here shared pc =>
      have none := frames_idle (.inr ⟨_, _, here⟩)
      have located : reached.Locates P addr fpn := by
        rwa [Sys.Locates, ← settled.mm (AccessPc.todo_of_frames none)] at located
      rw [settled.read located none data, ← Sys.content_of_locates located, contents]

/-! ## Two faults that overlap -/

/-- A fault that has begun can be finished. -/
theorem run_work {s : Preempted ι} {P : ι} {access : PageAccess} {pte : Pte}
    {frames : FaultFrames} {todo : List FaultStmt} (here : s.pc P = .fault access pte frames todo) :
    ∃ t, Run (Guarded Step Regular) s (List.replicate todo.length (P, .work)) t ∧
      t.pc = Function.update s.pc P (.fault access pte frames []) := by
  induction todo generalizing s with
  | nil => exact ⟨s, .nil s, by rw [← here, Function.update_eq_self]⟩
  | cons stmt rest ih =>
      have taken : Step s (P, .work)
          ⟨stmt.exec P s.shared, Function.update s.pc P (.fault access pte frames rest)⟩ := by
        refine ⟨access, .zeroed, 0, ?_⟩
        simp only [next, here]
      obtain ⟨t, run, pc⟩ := ih (s := ⟨stmt.exec P s.shared, Function.update s.pc P
        (.fault access pte frames rest)⟩) (Function.update_self P _ s.pc)
      refine ⟨t, .cons ⟨trivial, taken⟩ run, ?_⟩
      rw [pc, Function.update_idem]

/-- The next steps of some processes with the accesses that they make if they are in no call, with
zero-filled local variables. -/
def play : Preempted ι → List (ι × PageAccess) → Option (List (ι × AccessEvent) × Preempted ι)
  | s, [] => some ([], s)
  | s, (P, access) :: rest =>
      let after := s.next P access .zeroed 0
      if s.Regular (P, after.1) then
        (after.2.play rest).map fun (history, last) => ((P, after.1) :: history, last)
      else none

/-- Turns that can be taken one after the other are a run of regular accesses. -/
theorem run_play {s : Preempted ι} {turns : List (ι × PageAccess)}
    (played : s.play turns = some (history, t)) : Run (Guarded Step Regular) s history t := by
  induction turns generalizing s history with
  | nil =>
      obtain ⟨rfl, rfl⟩ := Prod.mk.inj (Option.some_inj.mp played)
      exact .nil s
  | cons turn rest ih =>
      obtain ⟨P, access⟩ := turn
      rw [play] at played
      split at played
      case isTrue regular =>
        obtain ⟨⟨later, last⟩, followed, same⟩ := Option.map_eq_some_iff.mp played
        obtain ⟨rfl, rfl⟩ := Prod.mk.inj same
        exact .cons ⟨regular, access, .zeroed, 0, rfl⟩ (ih followed)
      case isFalse => cases played

/-- Two processes with two pages each in RAM and another one in swap. -/
def twoEach : Sys (Fin 2) :=
  let s := Sys.boot (Fin 2) 1024 2048
  let s := s.put ⟨0, Nat.two_pos⟩ ((s.caller ⟨0, Nat.two_pos⟩).incVmaLimit 300).2
  let s := s.put ⟨1, Nat.one_lt_two⟩ ((s.caller ⟨1, Nat.one_lt_two⟩).incVmaLimit 300).2
  let s := s.put ⟨0, Nat.two_pos⟩ ((s.caller ⟨0, Nat.two_pos⟩).incVmaLimit 256).2
  s.put ⟨1, Nat.one_lt_two⟩ ((s.caller ⟨1, Nat.one_lt_two⟩).incVmaLimit 256).2

/-- The two processes with two pages each are well-formed from the start. -/
theorem twoEach_wellFormed : twoEach.WellFormed where
  toCoherent := by
    have first := (Sys.boot_coherent 1024 2048).incVmaLimit (0 : Fin 2) 300 (by decide) (by decide)
      (by decide)
    have second := first.incVmaLimit 1 300 (by decide) (by decide) (by decide)
    have third := second.incVmaLimit 0 256 (by decide) (by decide) (by decide)
    exact third.incVmaLimit 1 256 (by decide) (by decide) (by decide)
  ramSmall := by decide
  swapSmall := by decide

/-- The faults of both on their third pages are under way. -/
def bothFault : List (Fin 2 × AccessEvent) × Preempted (Fin 2) :=
  ((start twoEach).play
    [(⟨0, Nat.two_pos⟩, .getval 512), (⟨1, Nat.one_lt_two⟩, .getval 512)]).getD ([], start twoEach)

/-- That of the second one is, and the first one has written a byte and is about to read it. -/
def writtenMeanwhile : List (Fin 2 × AccessEvent) × Preempted (Fin 2) :=
  ((start twoEach).play
    [(⟨1, Nat.one_lt_two⟩, .getval 512), (⟨0, Nat.two_pos⟩, .setval 5 7),
      (⟨1, Nat.one_lt_two⟩, .getval 512), (⟨0, Nat.two_pos⟩, .setval 5 7),
      (⟨0, Nat.two_pos⟩, .getval 5)]).getD ([], start twoEach)

theorem run_played {s : Preempted ι} {turns : List (ι × PageAccess)}
    (played : (s.play turns).isSome = true) :
    Run (Guarded Step Regular) s ((s.play turns).getD ([], s)).1
      ((s.play turns).getD ([], s)).2 := by
  obtain ⟨⟨history, t⟩, same⟩ := Option.isSome_iff_exists.mp played
  rw [same]
  exact run_play same

/-- An access that holds frames is within a fault. -/
theorem fault_of_frames {pc : AccessPc} (busy : pc.frames.isSome = true) :
    ∃ access pte frames todo, pc = .fault access pte frames todo := by
  cases pc with
  | fault access pte frames todo => exact ⟨access, pte, frames, todo, rfl⟩
  | idle => cases busy
  | ready => cases busy

/-- Both faults are finished, the second one first. -/
theorem faults_atomic_overlapping : ∃ last : Preempted (Fin 2),
    Run Sys.AtomicStep twoEach [(0, .getPage 2 (some 0)), (1, .getPage 2 (some 32))]
      last.shared.sys := by
  obtain ⟨_, _, _, first, here⟩ := fault_of_frames
    (show (bothFault.2.pc 0).frames.isSome = true by decide +kernel)
  obtain ⟨_, _, _, second, there⟩ := fault_of_frames
    (show (bothFault.2.pc 1).frames.isSome = true by decide +kernel)
  have begun : Run (Guarded Step Regular) (start twoEach) bothFault.1 bothFault.2 :=
    run_played (by decide +kernel)
  obtain ⟨middle, run, pc⟩ := run_work there
  have still : middle.pc 0 = bothFault.2.pc 0 := by
    rw [pc]
    exact Function.update_of_ne (by decide) ..
  obtain ⟨last, run', pc'⟩ := run_work (still.trans here)
  have ended (P : Fin 2) : last.todo P = [] := by
    match P with
    | 0 => rw [todo, pc', Function.update_self]; rfl
    | 1 => rw [todo, pc', Function.update_of_ne (by decide), pc, Function.update_self]; rfl
  have atomic := faults_atomic twoEach_wellFormed (fun _ => rfl)
    ((begun.append run).append run') ended
  have silent (P : Fin 2) (count : Nat) :
      (List.replicate count ((P, .work) : Fin 2 × AccessEvent)).filterMap AccessEvent.visible =
        [] := List.filterMap_replicate_of_none rfl
  rw [List.filterMap_append, List.filterMap_append, silent, silent, List.append_nil,
    List.append_nil] at atomic
  have calls : bothFault.1.filterMap AccessEvent.visible =
      [(0, .getPage 2 (some 0)), (1, .getPage 2 (some 32))] := by decide +kernel
  rw [calls] at atomic
  exact ⟨last, atomic⟩

/-- A process reads 7, which it has written before, while the other one is within a fault. -/
theorem reads_own_writes_meanwhile :
    (7 : Byte) = remembered twoEach.content writtenMeanwhile.1 (pageOf 0 5) (offsetOf 5) := by
  have begun : Run (Guarded Step Regular) (start twoEach) writtenMeanwhile.1 writtenMeanwhile.2 :=
    run_played (by decide +kernel)
  have taken : Step writtenMeanwhile.2 (0, .read 5 1 7)
      (writtenMeanwhile.2.next 0 (.getval 5) .zeroed 0).2 :=
    ⟨.getval 5, .zeroed, 0, Prod.ext (by decide +kernel) rfl⟩
  exact reads_own_writes twoEach_wellFormed (fun _ => rfl) begun taken (by decide +kernel)
    (by decide +kernel)

end Preempted

end PagedOs
