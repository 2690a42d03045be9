import Mathlib.Algebra.BigOperators.Ring.Finset
import PagedOs.Process.Midway

/-! # Instructions that overlap complete

No process waits for another one: in every interleaving a process with an instruction left has a
step, and the number of steps of all processes together is bounded by the lengths of their programs
and the pages that they ask for.
-/

namespace PagedOs

open Transition

/-! ## A process in its program -/

/-- A process is between two instructions, or at a call of one. -/
inductive Seated (text : List Inst) (own : Process) : Option (DeviceM Process) → Prop where
  | idle (inside : own.pc ≤ text.length) : Seated text own none
  | within {c : DeviceCall} {next : c.Result → DeviceM Process} (inside : own.pc < text.length)
      (returns : ∀ result, (next result).Returns fun after => after.pc = own.pc + 1) :
      Seated text own (some (.call c next))

/-- A process that begins an instruction has one left, and it is behind it when the calls return.
-/
theorem returns_of_runCalls {u : Uninit} {data : Byte} {text : List Inst} {own : Process}
    {m : DeviceM Process} (begun : runCalls u data text own = some m) :
    own.pc < text.length ∧ m.Returns fun after => after.pc = own.pc + 1 := by
  obtain ⟨ins, calls, found, -, rfl⟩ := runCalls_eq_some begun
  exact ⟨(List.getElem?_eq_some_iff.mp found).1, Calling.returns_bind_ret
    (f := fun result : Int × MmStruct => (⟨result.2, own.pc + 1⟩ : Process)) (fun _ => rfl) calls⟩

namespace Overlapped

variable {ι : Type*} [DecidableEq ι] {text : ι → List Inst} {memory : Sys ι} {s t : Overlapped ι}
  {label : ι × Option (Sigma DeviceCall.Result)}
  {history : List (ι × Option (Sigma DeviceCall.Result))}

/-- The other processes are seated as before when one goes on, and this one is within its
instruction or behind it. -/
theorem seated_proceed {s : Overlapped ι} {P : ι}
    (seated : ∀ Q, Seated (text Q) (s.own Q) (s.within Q)) {m : DeviceM Process}
    (inside : (s.own P).pc < (text P).length)
    (returns : m.Returns fun after => after.pc = (s.own P).pc + 1) (Q : ι) :
    Seated (text Q) ((s.proceed P m).own Q) ((s.proceed P m).within Q) := by
  by_cases same : Q = P
  · subst same
    cases m with
    | ret after =>
        have moved : after.pc = (s.own Q).pc + 1 := returns
        simp only [Interleaved.proceed_ret, Function.update_self]
        exact .idle (by omega)
    | call c next =>
        simp only [Interleaved.proceed_call, Function.update_self]
        exact .within inside returns
  · rw [Interleaved.proceed_own_of_ne m same, Interleaved.proceed_within_of_ne m same]
    exact seated Q

/-- A step of any process keeps all of them seated. -/
theorem seated_step (seated : ∀ Q, Seated (text Q) (s.own Q) (s.within Q))
    (taken : Step text s label t) (Q : ι) : Seated (text Q) (t.own Q) (t.within Q) := by
  cases taken with
  | @start P m idle may =>
      obtain ⟨u, data, begun⟩ := may
      obtain ⟨inside, returns⟩ := returns_of_runCalls begun
      exact seated_proceed seated inside returns Q
  | @call P c next result shared here returns =>
      have place := seated P
      rw [here] at place
      cases place with
      | within inside all =>
          exact seated_proceed (s := { s with shared := shared }) seated inside (all result) Q

/-- Every process is at one of its instructions, or within it, in every reachable state. -/
theorem reached_seated (run : Run (Step text) (start memory) history s) (P : ι) :
    Seated (text P) (s.own P) (s.within P) :=
  run.invariant (fun s => ∀ P, Seated (text P) (s.own P) (s.within P))
    (fun _ _ _ seated taken => seated_step seated taken) (fun _ => .idle (Nat.zero_le _)) P

/-! ## How far the processes are -/

/-- The steps of the instruction that a process is in, without those for the frames that it has
taken. -/
def stage : Option (DeviceM Process) → Nat
  | none => 0
  | some (.ret _) => 0
  | some (.call (.getFreefp ..) _) => 2
  | some (.call _ _) => 1

/-- An instruction has at most two steps besides those for its frames. -/
theorem stage_le (within : Option (DeviceM Process)) : stage within ≤ 2 := by
  unfold stage
  split <;> decide

/-- A process that is about to call has made a step of its instruction. -/
theorem stage_call_pos (c : DeviceCall) (next : c.Result → DeviceM Process) :
    1 ≤ stage (some (.call c next)) := by
  cases c <;> simp only [stage, le_refl, Nat.one_le_ofNat]

/-- The steps that a process has made, without those for its frames. -/
def made (s : Overlapped ι) (P : ι) : Nat := 2 * (s.own P).pc + stage (s.within P)

/-- A step of a process counts, and a frame that it takes counts twice. -/
structure Advances (s : Overlapped ι) (P : ι) (t : Overlapped ι) : Prop where
  others : ∀ Q, Q ≠ P → t.made Q = s.made Q
  counts : s.made P + 2 * (t.shared .mram).freeFpList.length + 1 ≤
    t.made P + 2 * (s.shared .mram).freeFpList.length

variable {P : ι} {shared : Device → Memphy}

/-- To advance it is enough that the count of the process itself goes up. -/
theorem advances_proceed {m : DeviceM Process}
    (counts : s.made P + 2 * (shared .mram).freeFpList.length + 1 ≤
      made (Interleaved.proceed { s with shared := shared } P m) P +
        2 * (s.shared .mram).freeFpList.length) :
    Advances s P (Interleaved.proceed { s with shared := shared } P m) where
  others := fun Q other => by
    rw [made, made, Interleaved.proceed_own_of_ne m other, Interleaved.proceed_within_of_ne m other]
  counts := by
    rw [Interleaved.proceed_shared]
    exact counts

theorem advances_ret {after : Process} (early : stage (s.within P) ≤ 1)
    (moved : after.pc = (s.own P).pc + 1)
    (same : (shared .mram).freeFpList = (s.shared .mram).freeFpList) :
    Advances s P (Interleaved.proceed { s with shared := shared } P (.ret after)) := by
  apply advances_proceed
  have ended : stage none = 0 := rfl
  simp only [made, Interleaved.proceed_ret, Function.update_self, moved, same, ended]
  omega

theorem advances_call {c : DeviceCall} {next : c.Result → DeviceM Process}
    (counts : stage (s.within P) + 2 * (shared .mram).freeFpList.length + 1 ≤
      stage (some (.call c next)) + 2 * (s.shared .mram).freeFpList.length) :
    Advances s P (Interleaved.proceed { s with shared := shared } P (.call c next)) := by
  apply advances_proceed
  simp only [made, Interleaved.proceed_call, Function.update_self]
  omega

end Overlapped

namespace Overlap

open Overlapped

variable {ι : Type*} [Fintype ι] [DecidableEq ι] {text : ι → List Inst} {total : Nat}
  {swap : Memphy} {s t : Overlapped ι} {hand : ι → List Int} {wanted : ι → Nat} {settled : Sys ι}
  {P : ι} {label : ι × Option (Sigma DeviceCall.Result)}

/-- **The first call of an instruction** counts. -/
theorem first_advances (overlap : Overlap text total swap s hand wanted settled)
    (passed : ∀ Q, checked (text Q) = true) {u : Uninit} {data : Byte} {c : DeviceCall}
    {next : c.Result → DeviceM Process}
    (begun : runCalls u data (text P) (s.own P) = some (.call c next))
    (here : s.within P = some (.call c next)) {result : c.Result} {shared : Device → Memphy}
    (returns : c.handle s.shared = (result, shared)) :
    Advances s P (Interleaved.proceed { s with shared := shared } P (next result)) := by
  have random := overlap.underway.sound.coherent.ramRandom
  have ram : (s.shared .mram).rdmflg = true := overlap.mram.rdmflg.trans random
  have moved := (returns_of_runCalls begun).2 result
  have shape := overlap.begun passed begun
  generalize whole : Calling.call c next = m at shape
  cases shape with
  | done after => cases whole
  | read value after found reads present =>
      cases whole
      obtain ⟨rfl, rfl⟩ := Prod.mk.inj ((DeviceCall.handle_read ram _ value).symm.trans returns)
      exact advances_ret (here ▸ Nat.le_refl 1) moved rfl
  | write addr value after present =>
      cases whole
      obtain ⟨rfl, rfl⟩ := Prod.mk.inj ((DeviceCall.handle_write ram _ value).symm.trans returns)
      exact advances_ret (here ▸ Nat.le_refl 1) moved rfl
  | grow next asks =>
      cases whole
      obtain ⟨rfl, rfl⟩ := Prod.mk.inj (show ((s.shared .mram).maxsz, s.shared) = _ from returns)
      have early : stage (s.within P) ≤ 1 := by
        rw [here]
        exact Nat.le_refl 1
      rcases asks (s.shared .mram).maxsz with ⟨after, last⟩ | ⟨_ | n, k, grows, -⟩
      · rw [last] at moved ⊢
        exact advances_ret early moved rfl
      · have last : next (s.shared .mram).maxsz = .ret (k (0, [], [])) := grows
        rw [last] at moved ⊢
        exact advances_ret early moved rfl
      · obtain ⟨later, call, -⟩ := Calls.allocPagesRange_succ n [] fun allocated =>
          (.ret (k allocated) : DeviceM Process)
        rw [grows, call]
        refine advances_call ?_
        rw [show stage (some (.call (.getFreefp .mram 0) later)) = 2 from rfl]
        omega

/-- **A step of a process** counts, and one that takes a frame counts for its entry, too. -/
theorem advances (overlap : Overlap text total swap s hand wanted settled)
    (passed : ∀ Q, checked (text Q) = true) (enough : ∑ Q, demandedPages (text Q) ≤ total)
    (seated : ∀ Q, Seated (text Q) (s.own Q) (s.within Q))
    (taken : Overlapped.Step text s label t) :
    Advances s label.1 t := by
  cases taken with
  | @start P m idle may =>
      obtain ⟨u, data, begun⟩ := may
      have moved := (returns_of_runCalls begun).2
      have ended : stage (s.within P) = 0 := by
        rw [idle]
        rfl
      change Advances s P _
      cases m with
      | ret after => exact advances_ret (by omega) moved rfl
      | call c next =>
          have begins := stage_call_pos c next
          exact advances_call (by omega)
  | @call P c next result shared here returns =>
      have moved : (next result).Returns fun after => after.pc = (s.own P).pc + 1 := by
        have all := seated P
        rw [here] at all
        cases all with
        | within inside all => exact all result
      cases overlap.nextCall enough here returns with
      | first begun empty => exact overlap.first_advances passed begun here returns
      | @ask left frmLst rest fpn k _ growing count hands asks free gone entering =>
          subst gone
          rw [entering]
          have first : stage (s.within P) = 2 := by
            rw [asks]
            rfl
          apply advances_call
          rw [first, free]
          change 2 + 2 * rest.length + 1 ≤ 1 + 2 * (rest.length + 1)
          omega
      | @enter left frmLst fpn k _ growing count hands enters entered asking =>
          subst entered
          have second : stage (s.within P) = 1 := by
            rw [enters]
            rfl
          rw [asking] at moved ⊢
          cases left with
          | zero => exact advances_ret second.le moved rfl
          | succ left =>
              obtain ⟨later, call, -⟩ := Calls.allocPagesRange_succ left (fpn :: frmLst)
                fun allocated => (.ret (k allocated) : DeviceM Process)
              rw [call]
              apply advances_call
              have asks : stage (some (.call (.getFreefp .mram 0) later)) = 2 := rfl
              rw [second, asks]
              change 1 + 2 * (s.shared .mram).freeFpList.length + 1 ≤ _
              omega

/-- **No process waits**: one with an instruction left has a step. -/
theorem enabled (overlap : Overlap text total swap s hand wanted settled)
    (passed : ∀ Q, checked (text Q) = true) (enough : ∑ Q, demandedPages (text Q) ≤ total)
    (seated : Seated (text P) (s.own P) (s.within P)) (left : (s.own P).pc < (text P).length)
    (unwedged : ∀ ins ∈ (text P)[(s.own P).pc]?, s.sys.UnwedgedInst P ins) :
    ∃ label t, label.1 = P ∧ Overlapped.Step text s label t := by
  generalize within : s.within P = place at seated
  cases seated with
  | @within c next => exact ⟨(P, some ⟨c, _⟩), _, rfl, .call within rfl⟩
  | idle =>
      have found := List.getElem?_eq_getElem left
      have quiet : settled.UnwedgedInst P (text P)[(s.own P).pc] := by
        have quiet := unwedged _ found
        rwa [Sys.UnwedgedInst, show s.sys.mm = settled.mm from overlap.mm.symm] at quiet
      obtain ⟨regular, -⟩ := overlap.underway.execute (fun Q _ => passed Q) enough
        (Finset.mem_univ P) found quiet
      obtain ⟨result, ran⟩ := overlap.underway.sound.executes regular .zeroed 0
      obtain ⟨m, begun⟩ := exists_runCalls found ran
      have own : (⟨settled.mm P, (s.own P).pc⟩ : Process) = s.own P := by rw [overlap.mm]
      rw [own] at begun
      exact ⟨(P, none), _, rfl, .start within ⟨_, _, begun⟩⟩

end Overlap

namespace Overlapped

variable {ι : Type*} [Fintype ι] [DecidableEq ι] {text : ι → List Inst} {memory : Sys ι}
  {s t : Overlapped ι} {P : ι} {history : List (ι × Option (Sigma DeviceCall.Result))}

/-- The count of all processes together goes up when one advances, as those of the others stay. -/
theorem Advances.sum (advances : Advances s P t) :
    ∑ Q, s.made Q + 2 * (t.shared .mram).freeFpList.length + 1 ≤
      ∑ Q, t.made Q + 2 * (s.shared .mram).freeFpList.length := by
  have before := Finset.add_sum_erase Finset.univ s.made (Finset.mem_univ P)
  have after := Finset.add_sum_erase Finset.univ t.made (Finset.mem_univ P)
  have others : ∑ Q ∈ Finset.univ.erase P, t.made Q = ∑ Q ∈ Finset.univ.erase P, s.made Q :=
    Finset.sum_congr rfl fun Q other => advances.others Q (Finset.ne_of_mem_erase other)
  have counts := advances.counts
  omega

theorem length_le_made (suited : Suited text memory)
    (run : Run (Guarded (Step text) (Unwedged text)) (start memory) history s) :
    history.length + 2 * (s.shared .mram).freeFpList.length ≤
      ∑ P, s.made P + 2 * memory.mram.freeFpList.length := by
  refine run.reached_invariant (fun history s =>
    history.length + 2 * (s.shared .mram).freeFpList.length ≤
      ∑ P, s.made P + 2 * memory.mram.freeFpList.length)
    (fun past before label after reached held taken => ?_) ?_
  · obtain ⟨hand, wanted, settled, overlap⟩ := reached_overlap suited reached
    have counts := (overlap.advances suited.checked suited.frames
      (reached_seated reached.unguarded) taken.2).sum
    rw [List.length_append, List.length_singleton]
    omega
  · rw [List.length_nil, Nat.zero_add]
    exact Nat.le_add_left ..

omit [Fintype ι] [DecidableEq ι] in
/-- A process cannot make more than two steps for each of its instructions, besides those for its
frames. -/
theorem made_le (seated : Seated (text P) (s.own P) (s.within P)) :
    s.made P ≤ 2 * (text P).length := by
  rw [made]
  have most := stage_le (s.within P)
  generalize s.within P = place at seated most ⊢
  cases seated with
  | idle inside =>
      have ended : stage none = 0 := rfl
      omega
  | within inside => omega

/-- **Overlapping instructions of checked programs complete**: a run has no more than two steps for
each instruction and two for each page, and a process with an instruction left has a step in every
state, whatever the others have done. -/
theorem overlapped_programs_complete (suited : Suited text memory)
    (run : Run (Guarded (Step text) (Unwedged text)) (start memory) history s) :
    history.length ≤ ∑ P, 2 * ((text P).length + demandedPages (text P)) ∧
      ∀ P, (s.own P).pc < (text P).length →
        (∀ ins ∈ (text P)[(s.own P).pc]?, s.sys.UnwedgedInst P ins) →
          ∃ label t, label.1 = P ∧ Guarded (Step text) (Unwedged text) s label t := by
  obtain ⟨hand, wanted, settled, overlap⟩ := reached_overlap suited run
  have seated := reached_seated run.unguarded
  refine ⟨?_, fun P left unwedged => ?_⟩
  · have counted := length_le_made suited run
    have steps : ∑ P, s.made P ≤ ∑ P, 2 * (text P).length :=
      Finset.sum_le_sum fun P _ => made_le (seated P)
    have taken : ∑ P, (hand P).length ≤ ∑ P, wanted P :=
      Finset.sum_le_sum fun P _ => (overlap.midway P).length_le
    have whole := overlap.taken_add_free
    have pages := overlap.pages_le
    rw [← Finset.mul_sum] at steps ⊢
    rw [Finset.sum_add_distrib]
    omega
  · obtain ⟨label, t, rfl, taken⟩ :=
      overlap.enabled suited.checked suited.frames (seated P) left unwedged
    exact ⟨label, t, rfl, unwedged, taken⟩

/-- The two processes that allocate at the same time make all of these steps. -/
theorem overlapped_programs_complete_allocated : allocated.1.length = 16 ∧
    allocated.1.length ≤ ∑ P, 2 * ((allocating P).length + demandedPages (allocating P)) ∧
      ∑ P, 2 * ((allocating P).length + demandedPages (allocating P)) = 16 :=
  ⟨by decide +kernel, (overlapped_programs_complete allocating_suited run_allocated).1,
    by decide +kernel⟩

end Overlapped

end PagedOs
