import PagedOs.Memory.Contents
import PagedOs.Process.Run

/-! # The path through the TLB

The functions of `cpu-tlb.c` that `run` calls in a build with `CPU_TLB`, in place of
`pgalloc`, `pgfree_data`, `pgread` and `pgwrite`. They share the lower layer with these; the
TLB itself is neither read nor written.
-/

namespace PagedOs

namespace Caller

/-- `tlballoc`, which returns the status of `__alloc`. -/
def tlballoc (proc : Caller) (size regIndex : BitVec 32) : Option (Int × Caller) :=
  (proc.alloc (toInt regIndex.toNat) (toInt size.toNat)).map fun (val, _, proc) => (val, proc)

/-- `tlbfree_data`. The result of `__free` is not looked at. -/
def tlbfreeData (proc : Caller) (regIndex : BitVec 32) : Option (Int × Caller) :=
  (proc.free (toInt regIndex.toNat)).map fun (_, proc) => (0, proc)

/-- `tlbread`, with the byte that `__read` leaves in its data argument. -/
def tlbread (proc : Caller) (u : Uninit) (source offset : BitVec 32) (data : Byte) :
    Int × Byte × Caller :=
  proc.read u (toInt source.toNat) (toInt offset.toNat) data

/-- `tlbwrite`, which goes to `__write` without a check of the offset. -/
def tlbwrite (proc : Caller) (u : Uninit) (data : Byte) (destination offset : BitVec 32) :
    Int × Caller :=
  proc.write u (toInt destination.toNat) (toInt offset.toNat) data

/-- The switch of `run` in this build. -/
def executeTlb (c : Caller) (u : Uninit) (data : Byte) (ins : Inst) : Option (Int × Caller) :=
  match ins.opcode with
  | .calcOp => some (calcProc, c)
  | .allocOp => c.tlballoc ins.arg0 ins.arg1
  | .freeOp => c.tlbfreeData ins.arg0
  | .readOp =>
      let (stat, _, c) := c.tlbread u ins.arg0 ins.arg1 data
      some (stat, c)
  | .writeOp => some (c.tlbwrite u (ins.arg0.setWidth 8) ins.arg1 ins.arg2)

end Caller

/-- `run` in this build, with the switch above. -/
def Pcb.runTlb (proc : Pcb) (pc : Nat) (c : Caller) (u : Uninit) (data : Byte) :
    Option (Int × Nat × Caller) :=
  match proc.text[pc]? with
  | none => some (1, pc, c)
  | some ins => (c.executeTlb u data ins).map fun (stat, c) => (stat, pc + 1, c)

/-! ## One call -/

namespace Caller

variable (c : Caller) (u : Uninit) (data value : Byte) (r o size : BitVec 32)

theorem tlballoc_eq : c.tlballoc size r = c.pgalloc size r := rfl

/-- A register that `__free` refuses makes the difference. -/
theorem tlbfreeData_refused (refused : 30 < r.toNat) :
    c.pgfreeData r = some (-1, c) ∧ c.tlbfreeData r = some (0, c) := by
  have failed : c.free (toInt r.toNat) = some (-1, c) :=
    if_pos ((register_refused_iff r).mpr refused)
  exact ⟨failed, by rw [tlbfreeData, failed, Option.map_some]⟩

/-- `tlbfree_data` and `pgfree_data` do the same to a register that `__free` does not refuse. -/
theorem tlbfreeData_passed (passed : ¬ 30 < r.toNat) : c.tlbfreeData r = c.pgfreeData r := by
  have checked := mt (register_refused_iff r).mp passed
  simp only [tlbfreeData, pgfreeData, free, checked, ↓reduceIte, Option.map_map,
    Function.comp_def]

/-- `tlbfree_data` agrees with `pgfree_data` on the registers that `__free` does not refuse. -/
theorem tlbfreeData_eq_iff : c.tlbfreeData r = c.pgfreeData r ↔ r.toNat ≤ 30 := by
  refine ⟨fun same => ?_, fun low => c.tlbfreeData_passed r (Nat.not_lt.mpr low)⟩
  by_contra refused
  obtain ⟨plain, tlb⟩ := c.tlbfreeData_refused r (Nat.lt_of_not_le refused)
  rw [plain, tlb] at same
  cases same

/-- The offset is not rejected, or no region is found either. -/
def Passes : Prop := c.rejects r o = true → 30 < r.toNat

variable {r o}

/-- `tlbread` and `pgread` do the same where the offset passes. -/
theorem tlbread_passes (passes : c.Passes r o) : c.tlbread u r o data = c.pgread u r o data := by
  by_cases rejected : c.rejects r o = true
  · rw [pgread_rejected rejected, tlbread, read, MmStruct.getSymrgById_refused _ (passes rejected)]
  · rw [pgread_not_rejected (Bool.eq_false_iff.mpr rejected), tlbread]

/-- `tlbwrite` and `pgwrite` do the same where the offset passes. -/
theorem tlbwrite_passes (passes : c.Passes r o) :
    c.tlbwrite u value r o = c.pgwrite u value r o := by
  by_cases rejected : c.rejects r o = true
  · rw [pgwrite_rejected rejected, tlbwrite, write,
      MmStruct.getSymrgById_refused _ (passes rejected)]
  · rw [pgwrite_not_rejected (Bool.eq_false_iff.mpr rejected), tlbwrite]

/-- An access at an offset that only `pgread` and `pgwrite` reject. -/
theorem tlbread_not_passes (stopped : ¬ c.Passes r o) :
    (c.pgread u r o data).1 = -1 ∧ (c.tlbread u r o data).1 = 0 := by
  obtain ⟨rejected, passed⟩ := Classical.not_imp.mp stopped
  rw [pgread_rejected rejected, tlbread, read, MmStruct.getSymrgById_passed _ passed]
  exact ⟨rfl, rfl⟩

/-- At an offset that only `pgread` and `pgwrite` reject the one reports the failure and the other
success. -/
theorem tlbwrite_not_passes (stopped : ¬ c.Passes r o) :
    (c.pgwrite u value r o).1 = -1 ∧ (c.tlbwrite u value r o).1 = 0 := by
  obtain ⟨rejected, passed⟩ := Classical.not_imp.mp stopped
  rw [pgwrite_rejected rejected, tlbwrite, write, MmStruct.getSymrgById_passed _ passed]
  exact ⟨rfl, rfl⟩

/-- `tlbread` agrees with `pgread`, and `tlbwrite` with `pgwrite`, at the offsets these do not
reject. -/
theorem tlbread_eq_iff : c.tlbread u r o data = c.pgread u r o data ↔ c.Passes r o := by
  refine ⟨fun same => ?_, c.tlbread_passes u data⟩
  by_contra stopped
  obtain ⟨plain, tlb⟩ := c.tlbread_not_passes u data stopped
  rw [same, plain] at tlb
  cases tlb

/-- `tlbwrite` agrees with `pgwrite` exactly where the offset passes. -/
theorem tlbwrite_eq_iff : c.tlbwrite u value r o = c.pgwrite u value r o ↔ c.Passes r o := by
  refine ⟨fun same => ?_, c.tlbwrite_passes u value⟩
  by_contra stopped
  obtain ⟨plain, tlb⟩ := c.tlbwrite_not_passes u value stopped
  rw [same, plain] at tlb
  cases tlb

/-- Both builds execute the instruction alike, by its opcode and the registers of the process. -/
def PathsAgree (ins : Inst) : Prop :=
  match ins.opcode with
  | .calcOp => True
  | .allocOp => True
  | .freeOp => ins.arg0.toNat ≤ 30
  | .readOp => c.Passes ins.arg0 ins.arg1
  | .writeOp => c.Passes ins.arg1 ins.arg2

variable {c} {ins : Inst}

/-- An instruction on which the two paths agree does the same on both. -/
theorem executeTlb_agrees (agree : c.PathsAgree ins) :
    c.executeTlb u data ins = c.execute u data ins := by
  unfold PathsAgree at agree
  unfold executeTlb execute
  cases op : ins.opcode <;> simp only [op] at agree ⊢
  case allocOp => exact c.tlballoc_eq ins.arg1 ins.arg0
  case freeOp => exact (c.tlbfreeData_eq_iff ins.arg0).mpr agree
  case readOp => rw [c.tlbread_passes u data agree]
  case writeOp => rw [c.tlbwrite_passes u _ agree]

/-- Where the builds do not agree, both executions return, with different statuses. -/
theorem executeTlb_differs (differ : ¬ c.PathsAgree ins) :
    ∃ before after, c.execute u data ins = some (-1, before) ∧
      c.executeTlb u data ins = some (0, after) := by
  unfold PathsAgree at differ
  unfold executeTlb execute
  cases op : ins.opcode <;> simp only [op, not_true_eq_false] at differ ⊢
  case freeOp =>
    obtain ⟨plain, tlb⟩ := c.tlbfreeData_refused ins.arg0 (Nat.lt_of_not_le differ)
    exact ⟨c, c, plain, tlb⟩
  case readOp =>
    obtain ⟨plain, tlb⟩ := c.tlbread_not_passes u data differ
    exact ⟨_, _, by rw [plain], by rw [tlb]⟩
  case writeOp =>
    obtain ⟨plain, tlb⟩ := c.tlbwrite_not_passes u (ins.arg0.setWidth 8) differ
    exact ⟨_, _, congrArg some (Prod.ext plain rfl), congrArg some (Prod.ext tlb rfl)⟩

end Caller

/-! ## Programs -/

namespace Machine

variable {ι : Type*} [DecidableEq ι]

/-- Both builds execute the instruction of the turn alike, if there is one. -/
def PathsAgree (pcb : ι → Pcb) (s : Machine ι) (turn : Turn ι) : Prop :=
  ∀ ins ∈ (pcb turn.1).text[s.pc turn.1]?, (s.memory.caller turn.1).PathsAgree ins

variable {pcb : ι → Pcb} {s : Machine ι} {turn : Turn ι}

/-- A step with such an instruction leads to the same state on both paths. -/
theorem step_agrees (agree : s.PathsAgree pcb turn) :
    s.step Pcb.runTlb pcb turn = s.step Pcb.run pcb turn := by
  obtain ⟨P, u, data⟩ := turn
  have same : (pcb P).runTlb (s.pc P) (s.memory.caller P) u data =
      (pcb P).run (s.pc P) (s.memory.caller P) u data := by
    unfold Pcb.runTlb Pcb.run
    cases found : (pcb P).text[s.pc P]? with
    | none => rfl
    | some ins => simp only [Caller.executeTlb_agrees u data (agree ins found)]
  simp only [step, same]

theorem step_differs (differ : ¬ s.PathsAgree pcb turn) : ∃ stat stat' stats stats',
    (s.step Pcb.run pcb turn).events = stat :: stats ∧
      (s.step Pcb.runTlb pcb turn).events = stat' :: stats' ∧ stat' ≠ stat := by
  obtain ⟨P, u, data⟩ := turn
  simp only [PathsAgree, not_forall] at differ
  obtain ⟨ins, found, differ⟩ := differ
  obtain ⟨before, after, plain, tlb⟩ := Caller.executeTlb_differs u data differ
  refine ⟨-1, 0, [], [], ?_, ?_, by decide⟩
  · simp only [step, Pcb.run, Option.mem_def.mp found, plain]
    rfl
  · simp only [step, Pcb.runTlb, Option.mem_def.mp found, tlb]
    rfl

/-- **The TLB path agrees with the plain one** exactly on the registers and at the offsets
that the plain one does not refuse. Hence programs that take turns have the same statuses
and leave the same memory in both builds exactly when no instruction executed is refused. -/
theorem tlb_path_agrees :
    (∀ (c : Caller) (size r : BitVec 32), c.tlballoc size r = c.pgalloc size r) ∧
    (∀ (c : Caller) (r : BitVec 32), c.tlbfreeData r = c.pgfreeData r ↔ r.toNat ≤ 30) ∧
    (∀ (c : Caller) (u : Uninit) (r o : BitVec 32) (data : Byte),
      c.tlbread u r o data = c.pgread u r o data ↔ (c.rejects r o = true → 30 < r.toNat)) ∧
    (∀ (c : Caller) (u : Uninit) (value : Byte) (r o : BitVec 32),
      c.tlbwrite u value r o = c.pgwrite u value r o ↔ (c.rejects r o = true → 30 < r.toNat)) ∧
    ∀ (pcb : ι → Pcb) (s : Machine ι) (turns : List (Turn ι)),
      Traced.feed (step Pcb.runTlb pcb) s turns = Traced.feed (step Pcb.run pcb) s turns ↔
        Traced.Along (step Pcb.run pcb) (PathsAgree pcb) s turns :=
  ⟨fun c size r => c.tlballoc_eq r size, Caller.tlbfreeData_eq_iff,
    fun c u _ _ data => c.tlbread_eq_iff u data, fun c u value _ _ => c.tlbwrite_eq_iff u value,
    fun _ s turns => Traced.feed_eq_iff (fun _ _ => step_agrees) (fun _ _ => step_differs)
      s turns⟩

/-- A process that writes behind its region of 100 bytes. -/
def writesBehind : Unit → Pcb := fun _ => ⟨0, [⟨.allocOp, 100, 0, 0⟩, ⟨.writeOp, 7, 0, 200⟩]⟩

/-- The write is refused in one build and done in the other. -/
theorem write_behind_differs :
    (¬ ∀ (c : Caller) (r : BitVec 32), c.tlbfreeData r = c.pgfreeData r) ∧
    ¬ ∀ turns, Traced.feed (step Pcb.runTlb writesBehind) ⟨fun _ => 0, .boot Unit 512 1024⟩ turns =
      Traced.feed (step Pcb.run writesBehind) ⟨fun _ => 0, .boot Unit 512 1024⟩ turns := by
  constructor
  · intro claim
    have same := congrArg (Option.map Prod.fst) (claim ((Sys.boot Unit 512 1024).caller ()) 31)
    exact absurd same (by decide +kernel)
  · intro claim
    have same := congrArg Traced.events (claim [((), .zeroed, 0), ((), .zeroed, 0)])
    exact absurd same (by decide +kernel)

end Machine

end PagedOs
