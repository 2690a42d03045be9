import PagedOs.Memory.Failure
import PagedOs.Process.Run

/-! # Reading into a register

`run` of `cpu.c` with the registers of the process, in the build with `MM_PAGING`. The byte
that a read obtains ends up in a parameter of `pgread`, and no instruction writes a register.
-/

namespace PagedOs

open Transition

variable {ι : Type*}

/-- The fields of `struct pcb_t` that `run` may change. -/
structure CpuState where
  pc : Nat
  regs : Fin 10 → BitVec 32

/-- `(uint32_t)data`, where a `char` is signed. -/
def registerOf (data : Byte) : BitVec 32 := data.signExtend 32

/-- `pgread` with what its parameter `destination` holds when it returns. -/
def Caller.pgreadInto (proc : Caller) (u : Uninit) (source offset destination : BitVec 32)
    (data : Byte) : Int × BitVec 32 × Caller :=
  if offset > BitVec.ofInt 32 (proc.sizeRg source) then (-1, destination, proc)
  else
    let (val, data, proc) := proc.read u (toInt source.toNat) (toInt offset.toNat) data
    (val, registerOf data, proc)

/-- `pgread` with the register that it is given does to the memory what it does without, and
returns the same status. -/
theorem Caller.pgreadInto_eq (proc : Caller) (u : Uninit) (source offset destination : BitVec 32)
    (data : Byte) : ((proc.pgreadInto u source offset destination data).1,
      (proc.pgreadInto u source offset destination data).2.2) =
        ((proc.pgread u source offset data).1, (proc.pgread u source offset data).2.2) := by
  unfold pgreadInto pgread
  split <;> rfl

/-- The switch of `run`. A parameter is a copy of its argument, so that what `pgread` leaves in
`destination` is lost. -/
def Caller.executeOn (c : Caller) (u : Uninit) (data : Byte) (cpu : CpuState) (ins : Inst) :
    Option (Int × CpuState × Caller) :=
  match ins.opcode with
  | .calcOp => some (calcProc, cpu, c)
  | .allocOp => (c.pgalloc ins.arg0 ins.arg1).map fun (stat, c) => (stat, cpu, c)
  | .freeOp => (c.pgfreeData ins.arg0).map fun (stat, c) => (stat, cpu, c)
  | .readOp =>
      let (stat, _, c) := c.pgreadInto u ins.arg0 ins.arg1 ins.arg2 data
      some (stat, cpu, c)
  | .writeOp =>
      let (stat, c) := c.pgwrite u (ins.arg0.setWidth 8) ins.arg1 ins.arg2
      some (stat, cpu, c)

/-- `run` on a CPU with its registers, which a read writes to. -/
def Pcb.runOn (proc : Pcb) (cpu : CpuState) (c : Caller) (u : Uninit) (data : Byte) :
    Option (Int × CpuState × Caller) :=
  match proc.text[cpu.pc]? with
  | none => some (1, cpu, c)
  | some ins => c.executeOn u data { cpu with pc := cpu.pc + 1 } ins

/-- Whatever the instruction, the registers are not touched. -/
theorem Caller.executeOn_eq (c : Caller) (u : Uninit) (data : Byte) (cpu : CpuState) (ins : Inst) :
    c.executeOn u data cpu ins = (c.execute u data ins).map fun (stat, c) => (stat, cpu, c) := by
  obtain ⟨opcode, arg0, arg1, arg2⟩ := ins
  cases opcode with
  | readOp =>
      have same := c.pgreadInto_eq u arg0 arg1 arg2 data
      simp only [Prod.mk.injEq] at same
      simp only [executeOn, execute, Option.map_some, same]
  | _ => rfl

/-- Forgetting the registers gives the run of the counter and the memory. -/
theorem Pcb.runOn_eq (proc : Pcb) (cpu : CpuState) (c : Caller) (u : Uninit) (data : Byte) :
    proc.runOn cpu c u data = (proc.run cpu.pc c u data).map fun (stat, pc, c) =>
      (stat, ⟨pc, cpu.regs⟩, c) := by
  unfold runOn run
  cases proc.text[cpu.pc]? with
  | none => rfl
  | some ins =>
      simp only [c.executeOn_eq, Option.map_map]
      rfl

/-! ## The cell that a read accesses -/

namespace Caller

/-- The RAM has the cell that `pg_getval` reads, in the frame that the entry of the page named
before the call. Nothing is read where `pg_getpage` fails. -/
def ReadsCell (c : Caller) (x : Int) : Prop :=
  pagingPagePresent (c.mm.pgd (pagingPgn x)) = true ∨ c.mm.findVictimPage.isSome = true →
    phyaddr (pagingFpn (c.mm.pgd (pagingPgn x))) (pagingOffst x) < c.mram.maxsz

/-- Two comparisons decide whether the device has the cell. -/
instance (c : Caller) (x : Int) : Decidable (c.ReadsCell x) := inferInstanceAs (Decidable (_ → _))

end Caller

namespace Calls

variable {c : Caller} {r o : BitVec 32}

/-- `pg_getval` accesses what `pg_getpage` does, and a cell of the RAM. -/
theorem pgGetval_inBounds (ramRandom : c.mram.rdmflg = true) (u : Uninit) (x : Int) (data : Byte) :
    (pgGetval c.mm u x data).InBounds c.device ↔
      (pgGetpage c.mm u (pagingPgn x)).InBounds c.device ∧ c.ReadsCell x := by
  rw [pgGetval, DeviceM.bind_inBounds]
  refine and_congr_right fun _ => ?_
  have fetched := perform_pgGetpage c u (pagingPgn x)
  have frames := c.pgGetpage_mram u (pagingPgn x)
  unfold Caller.perform at fetched
  generalize (pgGetpage c.mm u (pagingPgn x)).perform DeviceCall.handle c.device = raw at fetched ⊢
  obtain ⟨⟨found, mm⟩, d⟩ := raw
  rw [← fetched] at frames
  have random : (d .mram).rdmflg = true := frames.rdmflg.trans ramRandom
  have size : (d .mram).maxsz = c.mram.maxsz := frames.maxsz
  have nonneg : 0 ≤ Caller.phyaddr (pagingFpn (c.mm.pgd (pagingPgn x))) (pagingOffst x) := by
    have frame := pagingFpn_nonneg (c.mm.pgd (pagingPgn x))
    rw [phyaddr_eq, pagingOffst_eq]
    omega
  have returned : found = (c.pgGetpage u (pagingPgn x)).1 := congrArg Prod.fst fetched
  unfold Caller.ReadsCell
  cases found with
  | none =>
      -- neither is the page in RAM nor is there a victim
      refine iff_of_true trivial fun named => ?_
      rcases c.pgGetpage_cases u (pagingPgn x) with
        ⟨-, result⟩ | ⟨absent, nobody, -⟩ | ⟨vicpgn, -, -, -, result⟩
      · rw [result] at returned
        cases returned
      · rw [absent, nobody] at named
        exact absurd named (by decide)
      · rw [result] at returned
        cases returned
  | some fpn =>
      have cell : (DeviceM.read .mram (Caller.phyaddr fpn (pagingOffst x)) data >>= fun value =>
          (return ((0, value.2), mm) : DeviceM ((Int × Byte) × MmStruct))).InBounds d ↔
            0 ≤ Caller.phyaddr fpn (pagingOffst x) ∧
              Caller.phyaddr fpn (pagingOffst x) < c.mram.maxsz := by
        rw [DeviceM.bind_inBounds, DeviceM.read_inBounds random, size]
        exact and_iff_left trivial
      refine cell.trans ?_
      rcases c.pgGetpage_cases u (pagingPgn x) with
        ⟨present, result⟩ | ⟨-, -, result⟩ | ⟨vicpgn, -, victim, -, result⟩
      · rw [result] at returned
        obtain rfl := Option.some.inj returned
        simp only [present, true_or, forall_const, nonneg, true_and]
      · rw [result] at returned
        cases returned
      · rw [result] at returned
        obtain rfl := Option.some.inj returned
        simp only [victim, Option.isSome_some, or_true, forall_const, nonneg, true_and]

/-- And so does a `pgread` that is not rejected. -/
theorem pgread_inBounds (ramRandom : c.mram.rdmflg = true) (inside : r.toNat < 30)
    (accepted : c.rejects r o = false) (u : Uninit) (data : Byte) :
    (pgread c.mm u r o data).InBounds c.device ↔
      (pgGetpage c.mm u (pagingPgn (c.accessed r o))).InBounds c.device ∧
        c.ReadsCell (c.accessed r o) := by
  have taken : ¬ o > BitVec.ofInt 32 (c.mm.sizeRg r) := of_decide_eq_false accepted
  have cells := pgGetval_inBounds ramRandom u (c.accessed r o) data
  rw [Caller.accessed] at cells ⊢
  rw [pgread, if_neg taken, read, Caller.getSymrgById_register c.mm inside]
  simp only [DeviceM.bind_inBounds]
  exact (and_iff_left trivial).trans cells

end Calls

namespace Sys

variable [DecidableEq ι] {s : Sys ι} {P : ι}

/-- The byte at an address has been read into a register, and nothing else has happened. -/
structure Delivered (s t : Sys ι) (P : ι) (x : Int) (destination : Fin 10) (cpu cpu' : CpuState) :
    Prop where
  mapped : Mapped ((s.mm P).pgd (pagingPgn x))
  before : cpu'.regs destination = registerOf (s.byteAt P x)
  after : cpu'.regs destination = registerOf (t.byteAt P x)
  others : ∀ i, i ≠ destination → cpu'.regs i = cpu.regs i
  memory : s.KeepsPages t
  pc : cpu'.pc = cpu.pc + 1

/-- A `READ` that returns 0 delivers its byte, and accesses no cell that the devices do not have. -/
def ReadDelivers (s : Sys ι) (P : ι) (proc : Pcb) (cpu : CpuState) (u : Uninit) (data : Byte)
    (source offset : BitVec 32) (destination : Fin 10) : Prop :=
  ∀ cpu' c, proc.runOn cpu (s.caller P) u data = some (0, cpu', c) →
    s.Delivered (s.put P c) P ((s.caller P).virtualAddr source offset) destination cpu cpu' ∧
      (Calls.pgread (s.mm P) u source offset data).InBounds (s.caller P).device

/-- **When a `READ` delivers its byte**: if the offset is rejected, so that the status is not 0;
else only where the register holds the byte already, the RAM has the cell that is read, and the page
needs no fault that costs a byte. -/
theorem read_delivers_iff (ramRandom : s.mram.rdmflg = true)
    (swapRandom : s.activeMswp.rdmflg = true) {proc : Pcb} {cpu : CpuState}
    {source offset : BitVec 32} {destination : Fin 10}
    (fetched : proc.text[cpu.pc]? =
      some ⟨.readOp, source, offset, BitVec.ofNat 32 destination⟩)
    (inside : source.toNat < 30) (u : Uninit) (data : Byte) :
    s.ReadDelivers P proc cpu u data source offset destination ↔
      (s.caller P).rejects source offset = true ∨
        Mapped ((s.mm P).pgd (pagingPgn ((s.caller P).virtualAddr source offset))) ∧
        cpu.regs destination =
          registerOf (s.byteAt P ((s.caller P).virtualAddr source offset)) ∧
        (s.caller P).ReadsCell ((s.caller P).virtualAddr source offset) ∧
        s.FaultHarmless P u (pagingPgn ((s.caller P).virtualAddr source offset)) := by
  obtain ⟨page, place⟩ := (s.caller P).accessed_page source offset
  have ran : proc.runOn cpu (s.caller P) u data =
      some (((s.caller P).pgread u source offset data).1, ⟨cpu.pc + 1, cpu.regs⟩,
        ((s.caller P).pgread u source offset data).2.2) := by
    rw [Pcb.runOn_eq, Pcb.run, fetched]
    rfl
  cases rejected : (s.caller P).rejects source offset with
  | true =>
      refine iff_of_true (fun cpu' c returned => ?_) (.inl rfl)
      rw [ran, Caller.pgread_rejected rejected] at returned
      simp at returned
  | false =>
      have accepted := Caller.pgread_accepted inside rejected u data
      have state := (s.caller P).pgGetval_caller u ((s.caller P).accessed source offset) data
      rw [page] at state
      rw [accepted] at ran
      simp only [state] at ran
      have harmless := s.pgGetpage_harmless_iff ramRandom swapRandom P u
        (pagingPgn ((s.caller P).virtualAddr source offset))
      have cells := Calls.pgread_inBounds (c := s.caller P) ramRandom inside rejected u data
      rw [Caller.ReadsCell, page, place, ← Caller.ReadsCell] at cells
      rw [← harmless]
      simp only [Bool.false_eq_true, false_or]
      constructor
      · intro delivers
        obtain ⟨⟨mapped, before, -, -, memory, -⟩, accesses⟩ := delivers _ _ ran
        obtain ⟨fetch, cell⟩ := cells.mp accesses
        exact ⟨mapped, before, cell, memory, fetch⟩
      · rintro ⟨mapped, holds, cell, memory, fetch⟩ cpu' c returned
        simp only [ran, Option.some.injEq, Prod.mk.injEq, true_and] at returned
        obtain ⟨rfl, rfl⟩ := returned
        have kept := (memory (P, ⟨_, pagingPgn_lt _⟩) mapped).2.2
        refine ⟨⟨mapped, holds, ?_, fun _ _ => rfl, memory, rfl⟩, cells.mpr ⟨fetch, cell⟩⟩
        rw [byteAt, kept]
        exact holds

/-- A process that got 100 bytes in its first variable. -/
def oneAllocated : Sys Unit :=
  (((boot Unit 512 512).called () (.pgalloc 100 0)).get (by decide +kernel)).2.2

/-- And wrote one of them, so that there is a byte to read. -/
def oneWritten : Sys Unit :=
  ((oneAllocated.called () (.pgwrite 7 0 5)).get (by decide +kernel)).2.2

/-- The process that has written one byte is sound. -/
theorem oneWritten_sound : oneWritten.Sound := by
  have run : Run (Guarded MemoryStep RegularCall) (boot Unit 512 512)
      [((), .pgalloc 100 0, 0, 0), ((), .pgwrite 7 0 5, 0, 0)] oneWritten :=
    .cons ⟨by decide +kernel,
        memoryStep_of_called (by decide) _ (by decide +kernel) (by decide +kernel)⟩
      (.single ⟨by decide +kernel,
        memoryStep_of_called (s := oneAllocated) (by decide) _ (by decide +kernel)
          (by decide +kernel)⟩)
  apply run.invariant Sound (fun _ _ _ sound taken => (sound.step taken).sound)
  exact .start (fun _ => rfl) (Memphy.initMemphy_formatted ..) (Memphy.initMemphy_formatted ..) rfl
    rfl

/-- It reads the byte into register 1. -/
def reader : Pcb := ⟨1, [⟨.readOp, 0, 5, 1⟩]⟩

/-- The read of the byte delivers what the register holds already, which is the one value that it
can deliver. -/
theorem read_delivers_same_value :
    oneWritten.ReadDelivers () reader ⟨0, fun _ => 7⟩ .zeroed 0 0 5 1 :=
  (read_delivers_iff (by decide +kernel) (by decide +kernel) rfl (by decide) .zeroed 0).mpr
    (.inr ⟨by decide +kernel, by decide +kernel, by decide +kernel, .inl (by decide +kernel)⟩)

/-- The byte is 7, and the register stays 0. -/
theorem read_delivers_nothing :
    ¬ ∀ (s : Sys Unit) (proc : Pcb) (cpu : CpuState) (u : Uninit) (data : Byte)
      (source offset : BitVec 32) (destination : Fin 10), s.Coherent →
      proc.text[cpu.pc]? = some ⟨.readOp, source, offset, BitVec.ofNat 32 destination⟩ →
      source.toNat < 30 → (s.caller ()).InRegion source offset →
        s.ReadDelivers () proc cpu u data source offset destination := by
  intro claim
  have delivers := claim oneWritten reader ⟨0, fun _ => 0⟩ .zeroed 0 0 5 1 oneWritten_sound.coherent
    rfl (by decide) (by decide +kernel)
  have returned : ((oneWritten.caller ()).pgreadInto .zeroed 0 5 1 0).1 = 0 := by decide +kernel
  have delivered := delivers ⟨1, fun _ => 0⟩
    ((oneWritten.caller ()).pgreadInto .zeroed 0 5 1 0).2.2 (by rw [← returned]; rfl)
  exact absurd delivered.1.before (by decide +kernel)

end Sys

end PagedOs
