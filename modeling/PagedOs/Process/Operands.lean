import PagedOs.Library.Traced
import PagedOs.Memory.AddressSpace
import PagedOs.Process.Run

/-! # Region registers

Which entries of `symrgtbl` the instructions read and write, function by function, and where
the pointer that `get_symrg_byid` yields is followed. Forgetting that gives back the
functions of the memory interface. What is left out is the body of the functions that do
not come near the table.
-/

namespace PagedOs

/-- What an instruction does with the symbol table: it reads or writes an entry, or it
follows the NULL pointer. -/
inductive Touch where
  | symrgtbl (rgid : Int)
  | null
deriving DecidableEq

/-- The entry is one of the table. -/
def Touch.Inside : Touch → Prop
  | .symrgtbl rgid => 0 ≤ rgid ∧ rgid < pagingMaxSymtblSz
  | .null => False

/-- Read or write a field of an entry. -/
def touch (rgid : Int) : Traced Touch Unit := .record (.symrgtbl rgid)

/-- The pointer that `get_symrg_byid` returns, by the register that it points to. -/
def symrgPointer (rgid : Int) : Option Int :=
  if rgid < 0 ∨ rgid > pagingMaxSymtblSz then none else some rgid

/-- Follow the pointer, which is an event of the table, or the end when it is null. -/
def deref : Option Int → Traced Touch Unit
  | none => .abort .null
  | some rgid => touch rgid

namespace Caller

/-- `__alloc`: in both cases both bounds are written and the start is read back. -/
def allocTouching (c : Caller) (rgid size : Int) : Traced Touch (Int × Int × Caller) := do
  let done ← .lift (c.alloc rgid size)
  touch rgid
  touch rgid
  touch rgid
  return done

/-- `__free`: the entry is copied, and cleared once it is on the free list. -/
def freeTouching (c : Caller) (rgid : Int) : Traced Touch (Int × Caller) :=
  if rgid < 0 ∨ rgid > pagingMaxSymtblSz then return (-1, c)
  else do
    deref (symrgPointer rgid)
    let done ← .lift (c.free rgid)
    touch rgid
    touch rgid
    return done

/-- `__read`, with the registers of the table that it touches. -/
def readTouching (c : Caller) (u : Uninit) (rgid offset : Int) (data : Byte) :
    Traced Touch (Int × Byte × Caller) :=
  match symrgPointer rgid with
  | none => return (-1, data, c)
  | some entry => do
      deref (some entry)
      return c.read u rgid offset data

/-- `__write`, with the registers of the table that it touches. -/
def writeTouching (c : Caller) (u : Uninit) (rgid offset : Int) (value : Byte) :
    Traced Touch (Int × Caller) :=
  match symrgPointer rgid with
  | none => return (-1, c)
  | some entry => do
      deref (some entry)
      return c.write u rgid offset value

/-- `pgalloc`, with the registers of the table that it touches. -/
def pgallocTouching (proc : Caller) (size regIndex : BitVec 32) : Traced Touch (Int × Caller) := do
  let (status, _, proc) ← proc.allocTouching (toInt regIndex.toNat) (toInt size.toNat)
  return (status, proc)

/-- `pgfree_data`, with the registers of the table that it touches. -/
def pgfreeDataTouching (proc : Caller) (regIndex : BitVec 32) : Traced Touch (Int × Caller) :=
  proc.freeTouching (toInt regIndex.toNat)

/-- `pgread`: the table is indexed with the `uint32_t` before anything is checked, and once
more for the message. -/
def pgreadTouching (proc : Caller) (u : Uninit) (source offset : BitVec 32) (data : Byte) :
    Traced Touch (Int × Byte × Caller) := do
  touch source.toNat
  touch source.toNat
  if offset > BitVec.ofInt 32 (proc.sizeRg source) then
    touch source.toNat
    touch source.toNat
    touch source.toNat
    return (-1, data, proc)
  else proc.readTouching u (toInt source.toNat) (toInt offset.toNat) data

/-- `pgwrite`: the table is indexed for the check, for the messages and in `__write`. -/
def pgwriteTouching (proc : Caller) (u : Uninit) (data : Byte) (destination offset : BitVec 32) :
    Traced Touch (Int × Caller) := do
  touch destination.toNat
  touch destination.toNat
  if offset > BitVec.ofInt 32 (proc.sizeRg destination) then
    touch destination.toNat
    touch destination.toNat
    touch destination.toNat
    return (-1, proc)
  else proc.writeTouching u (toInt destination.toNat) (toInt offset.toNat) data

/-- The switch of `run`. Around a `FREE` it asks for the entry itself, and follows the pointer
afterwards to print the bounds. -/
def executeTouching (c : Caller) (u : Uninit) (data : Byte) (ins : Inst) :
    Traced Touch (Int × Caller) :=
  match ins.opcode with
  | .calcOp => return (calcProc, c)
  | .allocOp => c.pgallocTouching ins.arg0 ins.arg1
  | .freeOp => do
      let temp := symrgPointer (toInt ins.arg0.toNat)
      let done ← c.pgfreeDataTouching ins.arg0
      deref temp
      deref temp
      return done
  | .readOp => do
      let (stat, _, c) ← c.pgreadTouching u ins.arg0 ins.arg1 data
      return (stat, c)
  | .writeOp => c.pgwriteTouching u (ins.arg0.setWidth 8) ins.arg1 ins.arg2

end Caller

/-- `run`, with the registers of the table that its instruction touches. -/
def Pcb.runTouching (proc : Pcb) (pc : Nat) (c : Caller) (u : Uninit) (data : Byte) :
    Traced Touch (Int × Nat × Caller) :=
  match proc.text[pc]? with
  | none => return (1, pc, c)
  | some ins => do
      let (stat, c) ← c.executeTouching u data ins
      return (stat, pc + 1, c)

/-- The register of an instruction that names a region. -/
def Inst.region (ins : Inst) : Option (BitVec 32) :=
  match ins.opcode with
  | .calcOp => none
  | .allocOp => some ins.arg1
  | .freeOp => some ins.arg0
  | .readOp => some ins.arg0
  | .writeOp => some ins.arg1

/-! ## Forgetting the table -/

namespace Caller

variable (c : Caller) (u : Uninit) (data value : Byte) (rgid offset size : Int)

/-- Looking at an entry of the table succeeds. -/
@[simp] theorem result_touch : (touch rgid).result = some ⟨⟩ := rfl

/-- Looking at an entry of the table is recorded as this entry. -/
@[simp] theorem events_touch : (touch rgid).events = [.symrgtbl rgid] := rfl

theorem allocTouching_result : (c.allocTouching rgid size).result = c.alloc rgid size := by
  simp [allocTouching]

theorem freeTouching_result : (c.freeTouching rgid).result = c.free rgid := by
  by_cases outside : rgid < 0 ∨ rgid > pagingMaxSymtblSz
  · simp [freeTouching, free, outside]
  · simp [freeTouching, symrgPointer, deref, outside]

theorem readTouching_result :
    (c.readTouching u rgid offset data).result = some (c.read u rgid offset data) := by
  by_cases outside : rgid < 0 ∨ rgid > pagingMaxSymtblSz
  · simp [readTouching, symrgPointer, read, MmStruct.getSymrgById, outside]
  · simp [readTouching, symrgPointer, deref, outside]

theorem writeTouching_result :
    (c.writeTouching u rgid offset value).result = some (c.write u rgid offset value) := by
  by_cases outside : rgid < 0 ∨ rgid > pagingMaxSymtblSz
  · simp [writeTouching, symrgPointer, write, MmStruct.getSymrgById, outside]
  · simp [writeTouching, symrgPointer, deref, outside]

variable (r o : BitVec 32)

theorem pgallocTouching_result : (c.pgallocTouching o r).result = c.pgalloc o r := by
  simp only [pgallocTouching, Traced.result_bind, allocTouching_result, pgalloc]
  cases c.alloc (toInt r.toNat) (toInt o.toNat) <;> rfl

theorem pgreadTouching_result :
    (c.pgreadTouching u r o data).result = some (c.pgread u r o data) := by
  by_cases rejected : o > BitVec.ofInt 32 (c.sizeRg r)
  · simp [pgreadTouching, pgread, rejected]
  · simp [pgreadTouching, pgread, rejected, readTouching_result]

theorem pgwriteTouching_result :
    (c.pgwriteTouching u value r o).result = some (c.pgwrite u value r o) := by
  by_cases rejected : o > BitVec.ofInt 32 (c.sizeRg r)
  · simp [pgwriteTouching, pgwrite, rejected]
  · simp [pgwriteTouching, pgwrite, rejected, writeTouching_result]

/-- **Forgetting the table** gives back the switch of `run`, up to a `FREE` that follows the
NULL pointer. -/
theorem executeTouching_result (ins : Inst)
    (followed : ins.opcode = .freeOp → symrgPointer (toInt ins.arg0.toNat) ≠ none) :
    (c.executeTouching u data ins).result = c.execute u data ins := by
  cases op : ins.opcode with
  | calcOp => simp [executeTouching, execute, op]
  | allocOp => simp [executeTouching, execute, op, pgallocTouching_result]
  | freeOp =>
      obtain ⟨entry, pointer⟩ := Option.ne_none_iff_exists'.mp (followed op)
      simp [executeTouching, execute, op, pgfreeDataTouching, pgfreeData, freeTouching_result,
        pointer, deref]
  | readOp => simp [executeTouching, execute, op, pgreadTouching_result]
  | writeOp => simp [executeTouching, execute, op, pgwriteTouching_result]

end Caller

/-! ## Registers below 30 and others -/

open Traced

namespace Caller

variable {c : Caller} {u : Uninit} {data value : Byte} {rgid offset size : Int} {r o : BitVec 32}

/-- An entry of the table that is looked at is inside when its index is. -/
theorem touch_inside (inside : Touch.Inside (.symrgtbl rgid)) :
    Always Touch.Inside (touch rgid) := .record inside

/-- A pointer to an entry of the table is followed inside when the index of the entry is. -/
theorem deref_inside (inside : Touch.Inside (.symrgtbl rgid)) :
    Always Touch.Inside (deref (symrgPointer rgid)) := by
  have checked : ¬ (rgid < 0 ∨ rgid > pagingMaxSymtblSz) :=
    not_or.mpr ⟨Int.not_lt.mpr inside.1, Int.not_lt.mpr (Int.le_of_lt inside.2)⟩
  rw [symrgPointer, if_neg checked]
  exact touch_inside inside

/-- `__alloc` looks at the entry of its register only. -/
theorem allocTouching_inside (inside : Touch.Inside (.symrgtbl rgid)) :
    Always Touch.Inside (c.allocTouching rgid size) :=
  .bind (.lift _) fun _ _ => .bind (touch_inside inside) fun _ _ =>
    .bind (touch_inside inside) fun _ _ => .bind (touch_inside inside) fun _ _ => .pure _

/-- `__free` looks at the entry of its register only. -/
theorem freeTouching_inside (inside : Touch.Inside (.symrgtbl rgid)) :
    Always Touch.Inside (c.freeTouching rgid) := by
  unfold freeTouching
  split
  · exact .pure _
  · exact .bind (deref_inside inside) fun _ _ => .bind (.lift _) fun _ _ =>
      .bind (touch_inside inside) fun _ _ => .bind (touch_inside inside) fun _ _ => .pure _

/-- An access to the entry that the pointer yields, if it yields one. -/
theorem checked_inside {α : Type} {refused done : α} (inside : Touch.Inside (.symrgtbl rgid)) :
    Always Touch.Inside (match symrgPointer rgid with
      | none => return refused
      | some entry => do
          deref (some entry)
          return done) := by
  have followed := deref_inside inside
  split
  · exact .pure _
  · rename_i pointer
    rw [pointer] at followed
    exact .bind followed fun _ _ => .pure _

/-- `__read` looks at the entry of its register only. -/
theorem readTouching_inside (inside : Touch.Inside (.symrgtbl rgid)) :
    Always Touch.Inside (c.readTouching u rgid offset data) := checked_inside inside

/-- `__write` looks at the entry of its register only. -/
theorem writeTouching_inside (inside : Touch.Inside (.symrgtbl rgid)) :
    Always Touch.Inside (c.writeTouching u rgid offset value) := checked_inside inside

/-- A register below 30 is the index of an entry, as an `uint32_t` and as an `int`. -/
theorem entry_inside (low : r.toNat < 30) :
    Touch.Inside (.symrgtbl r.toNat) ∧ Touch.Inside (.symrgtbl (toInt r.toNat)) := by
  have inside : Touch.Inside (.symrgtbl r.toNat) :=
    ⟨Int.natCast_nonneg _, by rw [pagingMaxSymtblSz]; omega⟩
  rw [register_eq low]
  exact ⟨inside, inside⟩

/-- Both bounds are read for the comparison with the offset, and again for the message. -/
theorem compared_inside {α : Type} {rejected : Prop} [Decidable rejected] {refused : α}
    {access : Traced Touch α} (inside : Touch.Inside (.symrgtbl rgid))
    (accepted : Always Touch.Inside access) :
    Always Touch.Inside (do
      touch rgid
      touch rgid
      if rejected then
        touch rgid
        touch rgid
        touch rgid
        return refused
      else access) := by
  refine .bind (touch_inside inside) fun _ _ => .bind (touch_inside inside) fun _ _ => ?_
  split
  · exact .bind (touch_inside inside) fun _ _ => .bind (touch_inside inside) fun _ _ =>
      .bind (touch_inside inside) fun _ _ => .pure _
  · exact accepted

/-- A `pgread` of a register below 30 stays inside the table, also where it compares the offset. -/
theorem pgreadTouching_inside (low : r.toNat < 30) :
    Always Touch.Inside (c.pgreadTouching u r o data) := by
  obtain ⟨inside, index⟩ := entry_inside low
  exact compared_inside inside (readTouching_inside index)

/-- A `pgwrite` to a register below 30 stays inside the table, also where it compares the offset.
-/
theorem pgwriteTouching_inside (low : r.toNat < 30) :
    Always Touch.Inside (c.pgwriteTouching u value r o) := by
  obtain ⟨inside, index⟩ := entry_inside low
  exact compared_inside inside (writeTouching_inside index)

/-- An instruction with a register below 30 stays inside the table. -/
theorem executeTouching_inside {ins : Inst} (low : ∀ r ∈ ins.region, r.toNat < 30) :
    Always Touch.Inside (c.executeTouching u data ins) := by
  cases op : ins.opcode with
  | calcOp =>
      simp only [executeTouching, op]
      exact .pure _
  | allocOp =>
      have inside := (entry_inside (low ins.arg1 (by simp [Inst.region, op]))).2
      simp only [executeTouching, op]
      exact .bind (allocTouching_inside inside) fun _ _ => .pure _
  | freeOp =>
      have inside := (entry_inside (low ins.arg0 (by simp [Inst.region, op]))).2
      simp only [executeTouching, op]
      exact .bind (freeTouching_inside inside) fun _ _ => .bind (deref_inside inside) fun _ _ =>
        .bind (deref_inside inside) fun _ _ => .pure _
  | readOp =>
      simp only [executeTouching, op]
      exact .bind (pgreadTouching_inside (low ins.arg0 (by simp [Inst.region, op])))
        fun _ _ => .pure _
  | writeOp =>
      simp only [executeTouching, op]
      exact pgwriteTouching_inside (low ins.arg1 (by simp [Inst.region, op]))

/-- An allocation that returns has succeeded, whatever the register. -/
theorem pgalloc_status {status : Int} {c' : Caller} (ran : c.pgalloc o r = some (status, c')) :
    status = 0 := by
  simp only [pgalloc, alloc_eq, Option.map_map, Option.map_eq_some_iff] at ran
  obtain ⟨⟨found, mm⟩, -, outcome⟩ := ran
  cases found with
  | some rgnode => exact (Prod.mk.inj outcome).1.symm
  | none => exact (Prod.mk.inj outcome).1.symm

/-- For a register above 30 `get_symrg_byid` returns the NULL pointer. -/
theorem symrgPointer_outside (high : 30 < r.toNat) : symrgPointer (toInt r.toNat) = none :=
  if_pos ((register_refused_iff r).mpr high)

/-- An instruction with another register leaves the table, follows the NULL pointer or
succeeds. -/
theorem executeTouching_outside {ins : Inst} (region : ins.region = some r)
    (high : 30 ≤ r.toNat) :
    (∃ event ∈ (c.executeTouching u data ins).events, ¬ event.Inside) ∨
      ∀ status c', (c.executeTouching u data ins).result = some (status, c') → status = 0 := by
  have outside : ¬ Touch.Inside (.symrgtbl r.toNat) := fun inside => by
    have := inside.2
    rw [pagingMaxSymtblSz] at this
    omega
  unfold Inst.region at region
  cases op : ins.opcode with
  | calcOp => simp [op] at region
  | allocOp =>
      simp only [op, Option.some.injEq] at region
      refine .inr fun status c' ran => ?_
      simp only [executeTouching, op, pgallocTouching_result] at ran
      exact pgalloc_status ran
  | freeOp =>
      simp only [op, Option.some.injEq] at region
      simp only [executeTouching, op, region]
      left
      by_cases refused : 30 < r.toNat
      · have rejected := (register_refused_iff r).mpr refused
        refine ⟨.null, mem_events_bind.mpr (.inr ⟨(-1, c), ?_, ?_⟩), id⟩
        · rw [pgfreeDataTouching, freeTouching, if_pos rejected, result_pure]
        · rw [symrgPointer_outside refused]
          exact mem_events_of_first List.mem_cons_self
      · -- the check of `__free` lets 30 pass
        have passed := mt (register_refused_iff r).mp refused
        have last : r.toNat = 30 := by omega
        have index : toInt r.toNat = 30 := by
          rw [last]
          decide
        rw [last] at outside
        refine ⟨.symrgtbl 30, mem_events_of_first ?_, outside⟩
        rw [pgfreeDataTouching, freeTouching, if_neg passed, symrgPointer, if_neg passed, index]
        exact mem_events_of_first List.mem_cons_self
  | readOp =>
      simp only [op, Option.some.injEq] at region
      simp only [executeTouching, op, region]
      exact .inl ⟨_, mem_events_of_first (mem_events_of_first List.mem_cons_self), outside⟩
  | writeOp =>
      simp only [op, Option.some.injEq] at region
      simp only [executeTouching, op, region]
      exact .inl ⟨_, mem_events_of_first List.mem_cons_self, outside⟩

end Caller

namespace Pcb

variable {proc : Pcb} {pc : Nat} {c : Caller} {u : Uninit} {data : Byte}

theorem runTouching_result
    (followed : ∀ ins ∈ proc.text[pc]?, ins.opcode = .freeOp →
      symrgPointer (toInt ins.arg0.toNat) ≠ none) :
    (proc.runTouching pc c u data).result = proc.run pc c u data := by
  unfold runTouching run
  cases found : proc.text[pc]? with
  | none => rfl
  | some ins =>
      rw [found] at followed
      simp only [result_bind, c.executeTouching_result u data ins (followed ins rfl)]
      cases c.execute u data ins <;> rfl

/-- The operands of the instruction are checked: no entry outside the table is touched and
no NULL pointer followed, and an instruction whose register is outside of it fails and
leaves the memory alone. -/
structure OperandsChecked (proc : Pcb) (pc : Nat) (c : Caller) (u : Uninit) (data : Byte) :
    Prop where
  inside : Always Touch.Inside (proc.runTouching pc c u data)
  refused : ∀ ins ∈ proc.text[pc]?, ∀ r ∈ ins.region, 30 ≤ r.toNat →
    ∃ stat, stat ≠ 0 ∧ (proc.runTouching pc c u data).result = some (stat, pc + 1, c)

/-- The instruction, if there is one, has no register outside the table. -/
def RegisterLow (proc : Pcb) (pc : Nat) : Prop :=
  ∀ ins ∈ proc.text[pc]?, ∀ r ∈ ins.region, r.toNat < 30

/-- An instruction whose register is below 30 stays inside the table. -/
theorem RegisterLow.inside (low : proc.RegisterLow pc) :
    Always Touch.Inside (proc.runTouching pc c u data) := by
  unfold runTouching
  split
  · exact .pure _
  · rename_i ins found
    exact .bind (Caller.executeTouching_inside (low ins found)) fun _ _ => .pure _

/-- An instruction whose register is below 30 computes what the untraced one does, as it follows no
NULL pointer. -/
theorem RegisterLow.result (low : proc.RegisterLow pc) :
    (proc.runTouching pc c u data).result = proc.run pc c u data := by
  apply runTouching_result
  intro ins found op missing
  have below := low ins found ins.arg0 (by simp [Inst.region, op])
  rw [symrgPointer, if_neg (mt (register_refused_iff _).mp (by omega))] at missing
  cases missing

/-- **The registers decide.** An instruction is checked exactly when its register is below 30,
whatever the memory holds. -/
theorem operandsChecked_iff : proc.OperandsChecked pc c u data ↔ proc.RegisterLow pc := by
  constructor
  · intro checked ins found r region
    by_contra high
    obtain ⟨stat, failed, returned⟩ :=
      checked.refused ins found r region (Nat.le_of_not_lt high)
    have inside := checked.inside
    simp only [runTouching, Option.mem_def.mp found] at inside returned
    have outcome : (∃ event ∈ (c.executeTouching u data ins).events, ¬ event.Inside) ∨
        ∀ status c', (c.executeTouching u data ins).result = some (status, c') → status = 0 :=
      Caller.executeTouching_outside region (Nat.le_of_not_lt high)
    rcases outcome with ⟨event, member, outside⟩ | succeeds
    · exact outside (inside event (mem_events_of_first member))
    · obtain ⟨⟨status, after⟩, ran, same⟩ := Option.bind_eq_some_iff.mp
        (result_bind.symm.trans returned)
      rw [result_pure, Option.some.injEq] at same
      exact failed ((Prod.mk.inj same).1 ▸ succeeds status after ran)
  · intro low
    exact ⟨low.inside, fun ins found r region high => absurd (low ins found r region) (by omega)⟩

end Pcb

namespace Machine

variable {ι : Type*} [DecidableEq ι]

/-- A turn of a process, with what it does with its table. -/
def stepTouching (pcb : ι → Pcb) (s : Machine ι) : Turn ι → Traced Touch (Machine ι)
  | (P, u, data) =>
      let ran := (pcb P).runTouching (s.pc P) (s.memory.caller P) u data
      ⟨ran.events, ran.result.map fun (_, pc, c) => s.put P pc c⟩

/-- A step of a process with such an instruction computes what the untraced step does. -/
theorem stepTouching_result {pcb : ι → Pcb} {s : Machine ι} {turn : Turn ι}
    (low : (pcb turn.1).RegisterLow (s.pc turn.1)) :
    (s.stepTouching pcb turn).result = (s.step Pcb.run pcb turn).result := by
  obtain ⟨P, u, data⟩ := turn
  simp only [stepTouching, step, low.result]
  cases (pcb P).run (s.pc P) (s.memory.caller P) u data <;> rfl

/-- **Register operands are checked** exactly where there is nothing to check: in a run whose
instruction has no region register outside the table. Hence programs without such
registers never leave it. -/
theorem operands_checked :
    (∀ (proc : Pcb) (pc : Nat) (c : Caller) (u : Uninit) (data : Byte),
      proc.OperandsChecked pc c u data ↔ proc.RegisterLow pc) ∧
    ∀ (pcb : ι → Pcb) (s : Machine ι) (turns : List (Turn ι)),
      Along (stepTouching pcb) (fun s turn => (pcb turn.1).RegisterLow (s.pc turn.1)) s turns →
        Always Touch.Inside (feed (stepTouching pcb) s turns) ∧
          (feed (stepTouching pcb) s turns).result = (feed (step Pcb.run pcb) s turns).result :=
  ⟨fun _ _ _ _ _ => Pcb.operandsChecked_iff, fun _ _ _ low =>
    ⟨.feed (fun _ _ low => low.inside) low, result_feed_congr (fun _ _ => stepTouching_result) low⟩⟩

/-- A process that allocates the last variable, writes it, reads it and frees it. -/
def lastRegister : Unit → Pcb := fun _ => ⟨0,
  [⟨.allocOp, 100, 29, 0⟩, ⟨.writeOp, 7, 29, 50⟩, ⟨.readOp, 29, 50, 0⟩, ⟨.freeOp, 29, 0, 0⟩]⟩

/-- A program that uses the last register of the table stays inside of it. -/
theorem operands_checked_last_register :
    Always Touch.Inside (feed (stepTouching lastRegister) ⟨fun _ => 0, .boot Unit 512 1024⟩
      [((), .zeroed, 0), ((), .zeroed, 0), ((), .zeroed, 0), ((), .zeroed, 0)]) := by
  have low : ∀ ins ∈ (lastRegister ()).text, ∀ r ∈ ins.region, r.toNat < 30 := by
    simp [lastRegister, Inst.region]
  exact ((operands_checked.2 lastRegister _ _) (.of_forall (fun _ _ ins found =>
    low ins (List.mem_of_getElem? found)) _ _)).1

/-- An allocation to the register 30 writes behind the table and succeeds. -/
theorem register_thirty_accepted : ¬ ∀ (proc : Pcb) (pc : Nat) (s : Sys Unit) (u : Uninit)
    (data : Byte), proc.OperandsChecked pc (s.caller ()) u data := by
  intro claim
  have checked := claim ⟨0, [⟨.allocOp, 100, 30, 0⟩]⟩ 0 (Sys.boot Unit 512 1024) .zeroed 0
  have touched : Touch.symrgtbl 30 ∈ (Pcb.runTouching ⟨0, [⟨.allocOp, 100, 30, 0⟩]⟩ 0
      ((Sys.boot Unit 512 1024).caller ()) .zeroed 0).events := by decide +kernel
  exact absurd (checked.inside _ touched).2 (by decide)

end Machine

end PagedOs
