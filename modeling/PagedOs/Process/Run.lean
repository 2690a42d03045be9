import PagedOs.Library.Traced
import PagedOs.Memory.Interface

/-! # Executing instructions

`run` of `cpu.c` on the code of a process. A result `none` means that an instruction
never returns. Messages and dumps are left out.
-/

namespace PagedOs

/-- `enum ins_opcode_t`: the five instructions that a process can have. -/
inductive Opcode where
  | calcOp
  | allocOp
  | freeOp
  | readOp
  | writeOp
deriving DecidableEq

/-- `struct inst_t`: an opcode with three operands, of which it uses the first ones. -/
structure Inst where
  opcode : Opcode
  arg0 : BitVec 32
  arg1 : BitVec 32
  arg2 : BitVec 32
deriving DecidableEq

/-- The fields of `struct pcb_t` that are set once, with the code segment as its list of
instructions. -/
structure Pcb where
  prio : Nat
  text : List Inst

/-- `calc`, which does nothing and returns 0. -/
def calcProc : Int := 0

/-- The switch of `run`, with the status it returns. -/
def Caller.execute (c : Caller) (u : Uninit) (data : Byte) (ins : Inst) : Option (Int × Caller) :=
  match ins.opcode with
  | .calcOp => some (calcProc, c)
  | .allocOp => c.pgalloc ins.arg0 ins.arg1
  | .freeOp => c.pgfreeData ins.arg0
  | .readOp =>
      let (stat, _, c) := c.pgread u ins.arg0 ins.arg1 data
      some (stat, c)
  | .writeOp => some (c.pgwrite u (ins.arg0.setWidth 8) ins.arg1 ins.arg2)

/-- `run`, with the program counter it leaves. -/
def Pcb.run (proc : Pcb) (pc : Nat) (c : Caller) (u : Uninit) (data : Byte) :
    Option (Int × Nat × Caller) :=
  match proc.text[pc]? with
  | none => some (1, pc, c)
  | some ins => (c.execute u data ins).map fun (stat, c) => (stat, pc + 1, c)

/-- A run executes the instruction at the program counter and moves past it; behind the
last instruction it does nothing. -/
theorem Pcb.run_cases {proc : Pcb} {pc : Nat} {c c' : Caller} {u : Uninit} {data : Byte}
    {stat : Int} {pc' : Nat} (ran : proc.run pc c u data = some (stat, pc', c')) :
    (proc.text[pc]? = none ∧ pc' = pc) ∨
      ∃ ins, proc.text[pc]? = some ins ∧ pc' = pc + 1 := by
  unfold Pcb.run at ran
  cases found : proc.text[pc]? with
  | none =>
      simp only [found, Option.some.injEq, Prod.mk.injEq] at ran
      exact .inl ⟨rfl, ran.2.1.symm⟩
  | some ins =>
      simp only [found, Option.map_eq_some_iff, Prod.mk.injEq] at ran
      obtain ⟨_, -, -, moved, -⟩ := ran
      exact .inr ⟨ins, rfl, moved.symm⟩

/-! ## Processes that take turns -/

/-- Processes at their program counters, with the memory they share. -/
structure Machine (ι : Type*) where
  pc : ι → Nat
  memory : Sys ι

namespace Machine

variable {ι : Type*} [DecidableEq ι]

/-- Whose turn it is to run, and what its uninitialised variables hold. -/
abbrev Turn (ι : Type*) := ι × Uninit × Byte

/-- The process has run: its place in the code and its memory have changed. -/
def put (s : Machine ι) (P : ι) (pc : Nat) (c : Caller) : Machine ι :=
  ⟨Function.update s.pc P pc, s.memory.put P c⟩

/-- A turn of the process, with the status it records. The function that runs it is `Pcb.run`
or what another build has in its place. -/
def step (build : Pcb → Nat → Caller → Uninit → Byte → Option (Int × Nat × Caller))
    (pcb : ι → Pcb) (s : Machine ι) : Turn ι → Traced Int (Machine ι)
  | (P, u, data) =>
      match build (pcb P) (s.pc P) (s.memory.caller P) u data with
      | none => .lift none
      | some (stat, pc, c) => do
          .record stat
          return s.put P pc c

end Machine

end PagedOs
