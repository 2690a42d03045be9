import PagedOs.Library.Traced
import PagedOs.Process.Run

/-! # The time quantum

The loop of `cpu_routine` on one CPU, iteration by iteration. What `get_proc` returns, whether
the loader is done and the memory that `run` works on are up to the other threads; a process that
`get_proc` returns comes with the program counter it has then, which nobody else moves until the
CPU gives it back.

The local variable `time_left` is the slice that the process has left. It is used up exactly
when the process is put back, and nothing of it is left for the next one.
-/

namespace PagedOs

variable {α : Type*}

/-- The local variables of `cpu_routine`, the process with its program counter. -/
structure CpuVars (α : Type*) where
  proc : Option (α × Nat)
  timeLeft : Int

/-- The calls of `cpu_routine`. A run shows the program counter before and after it, and the time
that was left. -/
inductive CpuEvent (α : Type*) where
  | getProc (result : Option (α × Nat))
  | putProc (proc : α) (pc : Nat)
  | free (proc : α) (pc : Nat)
  | run (proc : α) (pc next : Nat) (timeLeft : Int)
  | nextSlot
  | detachEvent
deriving DecidableEq

/-- What an iteration finds: the result of its call of `get_proc`, the flag `done`, and the memory
and the uninitialised variables of its call of `run`. -/
structure Round (α : Type*) where
  got : Option (α × Nat)
  done : Bool
  caller : α → Caller
  uninit : Uninit
  data : Byte

/-- The end of an iteration that runs its process. -/
def runSlot (pcb : α → Pcb) (round : Round α) (proc : α) (pc : Nat) (timeLeft : Int) :
    Traced (CpuEvent α) (Option (CpuVars α)) :=
  match (pcb proc).run pc (round.caller proc) round.uninit round.data with
  | none => .lift none
  | some (_, next, _) => do
      .record (.run proc pc next timeLeft)
      .record .nextSlot
      return some ⟨some (proc, next), timeLeft - 1⟩

/-- An iteration from the second status check on. -/
def recheck (pcb : α → Pcb) (timeSlot : Int) (round : Round α) (s : CpuVars α) :
    Traced (CpuEvent α) (Option (CpuVars α)) :=
  match s.proc with
  | none =>
      if round.done then do
        .record .detachEvent
        return none
      else do
        .record .nextSlot
        return some s
  | some (proc, pc) =>
      runSlot pcb round proc pc (if s.timeLeft = 0 then timeSlot else s.timeLeft)

/-- An iteration of the loop of `cpu_routine`, with the local variables it leaves, or none when it
leaves the loop. -/
def cpuRoutine (pcb : α → Pcb) (timeSlot : Int) (round : Round α) (s : CpuVars α) :
    Traced (CpuEvent α) (Option (CpuVars α)) :=
  match s.proc with
  | none => do
      .record (.getProc round.got)
      match round.got with
      | none => do
          .record .nextSlot
          return some s
      | some got => recheck pcb timeSlot round ⟨some got, s.timeLeft⟩
  | some (proc, pc) =>
      if pc = (pcb proc).text.length then do
        .record (.free proc pc)
        .record (.getProc round.got)
        recheck pcb timeSlot round ⟨round.got, 0⟩
      else if s.timeLeft = 0 then do
        .record (.putProc proc pc)
        .record (.getProc round.got)
        recheck pcb timeSlot round ⟨round.got, s.timeLeft⟩
      else recheck pcb timeSlot round s

/-- The loop goes on unless it was left. -/
def cpuLoop (pcb : α → Pcb) (timeSlot : Int) (s : Option (CpuVars α)) (round : Round α) :
    Traced (CpuEvent α) (Option (CpuVars α)) :=
  match s with
  | none => return none
  | some s => cpuRoutine pcb timeSlot round s

/-- The calls of the iterations, from the first one on. -/
def cpuTrace (pcb : α → Pcb) (timeSlot : Int) (rounds : List (Round α)) :
    Traced (CpuEvent α) (Option (CpuVars α)) :=
  Traced.feed (cpuLoop pcb timeSlot) (some ⟨none, 0⟩) rounds

/-! ## What a process has had of its slice -/

/-- A call between two changes of the process. -/
def CpuEvent.Within : CpuEvent α → Prop
  | .run .. => True
  | .nextSlot => True
  | _ => False

section Since

variable [DecidableEq α]

/-- The call runs the process and advances its program counter. -/
def CpuEvent.advances (proc : α) : CpuEvent α → Bool
  | .run ran pc next _ => ran = proc && next = pc + 1
  | _ => false

/-- The process was got with this program counter, the CPU has not changed it since, and `run` has
advanced the counter this many times. -/
def Since (past : List (CpuEvent α)) (proc : α) (start count : Nat) : Prop :=
  ∃ early during, past = early ++ .getProc (some (proc, start)) :: during ∧
    (∀ event ∈ during, event.Within) ∧ during.countP (CpuEvent.advances proc) = count

/-- When a CPU gets a process no instruction was executed since. -/
theorem Since.got (past : List (CpuEvent α)) (proc : α) (start : Nat) :
    Since (past ++ [.getProc (some (proc, start))]) proc start 0 :=
  ⟨past, [], rfl, fun _ member => absurd member List.not_mem_nil, rfl⟩

/-- A call within the time slice counts when it advances the process. -/
theorem Since.snoc {past : List (CpuEvent α)} {proc : α} {start count : Nat}
    (since : Since past proc start count) {event : CpuEvent α} (within : event.Within) :
    Since (past ++ [event]) proc start
      (count + if event.advances proc = true then 1 else 0) := by
  obtain ⟨early, during, rfl, all, rfl⟩ := since
  refine ⟨early, during ++ [event], ?_, ?_, ?_⟩
  · rw [List.append_assoc, List.cons_append]
  · intro other member
    rcases List.mem_append.mp member with before | last
    · exact all other before
    · rwa [List.mem_singleton.mp last]
  · rw [List.countP_append, List.countP_singleton]

/-- The process is in its slice. Its counter has moved once for each slot that is gone, unless
it has come to the end of its code. -/
def InSlice (pcb : α → Pcb) (timeSlot : Int) (past : List (CpuEvent α)) (proc : α) (pc : Nat)
    (timeLeft : Int) : Prop :=
  ∃ start count, Since past proc start count ∧ pc = start + count ∧
    pc ≤ (pcb proc).text.length ∧ (count : Int) ≤ timeSlot ∧
    (pc < (pcb proc).text.length → (count : Int) + timeLeft = timeSlot)

/-- Since the process was got, `run` has advanced its counter exactly as often as its slice and
its code allow. -/
def ExactSlice (pcb : α → Pcb) (timeSlot : Int) (past : List (CpuEvent α)) (proc : α) : Prop :=
  ∃ start count, Since past proc start count ∧
    (count : Int) = min timeSlot ((pcb proc).text.length - start)

/-- What a call does about the slice. -/
def Metered (pcb : α → Pcb) (timeSlot : Int) (past : List (CpuEvent α)) : CpuEvent α → Prop
  | .putProc proc pc => pc < (pcb proc).text.length ∧ ExactSlice pcb timeSlot past proc
  | .free proc pc => pc = (pcb proc).text.length ∧ ExactSlice pcb timeSlot past proc
  | .run _ _ _ timeLeft => 1 ≤ timeLeft ∧ timeLeft ≤ timeSlot
  | _ => True

/-- What holds at the head of the loop. -/
def Sliced (pcb : α → Pcb) (timeSlot : Int) (past : List (CpuEvent α)) :
    Option (CpuVars α) → Prop
  | none => True
  | some ⟨none, timeLeft⟩ => timeLeft = 0
  | some ⟨some (proc, pc), timeLeft⟩ =>
      0 ≤ timeLeft ∧ timeLeft ≤ timeSlot ∧ InSlice pcb timeSlot past proc pc timeLeft

/-- The processes that `get_proc` returns are not past the end of their code. -/
def Round.Valid (pcb : α → Pcb) (round : Round α) : Prop :=
  ∀ proc pc, round.got = some (proc, pc) → pc ≤ (pcb proc).text.length

variable {pcb : α → Pcb} {timeSlot timeLeft : Int} {past : List (CpuEvent α)} {proc : α} {pc : Nat}

/-- A process that was just got has its whole slice. -/
theorem InSlice.got (inside : pc ≤ (pcb proc).text.length) (positive : 1 ≤ timeSlot) :
    InSlice pcb timeSlot (past ++ [.getProc (some (proc, pc))]) proc pc timeSlot :=
  ⟨pc, 0, .got past proc pc, rfl, inside, by omega, fun _ => by omega⟩

/-- A process whose slice is used up is not at the end of its code, or it is and has had enough. -/
theorem InSlice.exact (slice : InSlice pcb timeSlot past proc pc timeLeft)
    (used : pc = (pcb proc).text.length ∨ timeLeft = 0) : ExactSlice pcb timeSlot past proc := by
  obtain ⟨start, count, since, rfl, inside, bound, spent⟩ := slice
  refine ⟨start, count, since, ?_⟩
  rcases inside.eq_or_lt with complete | before
  · omega
  · have gone := spent before
    omega

theorem InSlice.run {c c' : Caller} {u : Uninit} {data : Byte} {stat : Int} {next : Nat}
    (slice : InSlice pcb timeSlot past proc pc timeLeft) (left : 1 ≤ timeLeft)
    (ran : (pcb proc).run pc c u data = some (stat, next, c')) :
    InSlice pcb timeSlot (past ++ [.run proc pc next timeLeft, .nextSlot]) proc next
      (timeLeft - 1) := by
  obtain ⟨start, count, since, rfl, inside, bound, spent⟩ := slice
  have ranWithin : (.run proc (start + count) next timeLeft : CpuEvent α).Within := trivial
  have slotWithin : (.nextSlot : CpuEvent α).Within := trivial
  have ranOnce : Since (past ++ [.run proc (start + count) next timeLeft]) proc start
      (count + if next = start + count + 1 then 1 else 0) := by
    simpa only [CpuEvent.advances, decide_true, Bool.true_and, decide_eq_true_eq] using
      since.snoc ranWithin
  have later : Since (past ++ [.run proc (start + count) next timeLeft, .nextSlot]) proc start
      (count + if next = start + count + 1 then 1 else 0) := by
    have waited := ranOnce.snoc slotWithin
    rwa [List.append_assoc] at waited
  rcases Pcb.run_cases ran with ⟨behind, rfl⟩ | ⟨ins, found, rfl⟩
  · have last := List.getElem?_eq_none_iff.mp behind
    rw [if_neg (by omega)] at later
    exact ⟨start, count, later, rfl, inside, bound, fun before => by omega⟩
  · obtain ⟨before, -⟩ := List.getElem?_eq_some_iff.mp found
    have used := spent before
    rw [if_pos rfl] at later
    exact ⟨start, count + 1, later, rfl, before, by omega, fun _ => by omega⟩

/-- An iteration runs its process within the slice. -/
theorem runSlot_metered (round : Round α) (left : 1 ≤ timeLeft) (bound : timeLeft ≤ timeSlot)
    (slice : InSlice pcb timeSlot past proc pc timeLeft) :
    Traced.Meets (Metered pcb timeSlot) (Sliced pcb timeSlot) past
      (runSlot pcb round proc pc timeLeft) := by
  rw [runSlot]
  split
  case h_1 => exact .never
  case h_2 next _ ran =>
    refine .record ⟨left, bound⟩ (.record trivial (.pure ?_))
    rw [List.append_assoc]
    exact ⟨by omega, by omega, slice.run left ran⟩

/-- The rest of an iteration behind a call of `get_proc`. -/
theorem fetched_metered (positive : 1 ≤ timeSlot) {round : Round α} (valid : round.Valid pcb) :
    Traced.Meets (Metered pcb timeSlot) (Sliced pcb timeSlot) (past ++ [.getProc round.got])
      (recheck pcb timeSlot round ⟨round.got, 0⟩) := by
  cases got : round.got with
  | none =>
      simp only [recheck]
      split
      · exact .record trivial (.pure trivial)
      · exact .record trivial (.pure rfl)
  | some fetched =>
      obtain ⟨proc, pc⟩ := fetched
      simp only [recheck, ↓reduceIte]
      exact runSlot_metered round positive le_rfl (.got (valid proc pc got) positive)

/-- **One iteration** keeps the slices. -/
theorem cpuRoutine_metered (positive : 1 ≤ timeSlot) {round : Round α} (valid : round.Valid pcb)
    {s : CpuVars α} (sliced : Sliced pcb timeSlot past (some s)) :
    Traced.Meets (Metered pcb timeSlot) (Sliced pcb timeSlot) past
      (cpuRoutine pcb timeSlot round s) := by
  obtain ⟨held, timeLeft⟩ := s
  cases held with
  | none =>
      obtain rfl : timeLeft = 0 := sliced
      have fetched : Traced.Meets (Metered pcb timeSlot) (Sliced pcb timeSlot)
          (past ++ [.getProc round.got]) (recheck pcb timeSlot round ⟨round.got, 0⟩) :=
        fetched_metered positive valid
      refine .record trivial ?_
      cases got : round.got with
      | none => exact .record trivial (.pure rfl)
      | some process =>
          rw [got] at fetched
          exact fetched
  | some process =>
      obtain ⟨proc, pc⟩ := process
      obtain ⟨nonneg, bound, slice⟩ := sliced
      simp only [cpuRoutine]
      split
      case isTrue complete =>
        refine .record ⟨complete, slice.exact (.inl complete)⟩ (.record trivial ?_)
        exact fetched_metered positive valid
      case isFalse incomplete =>
        have before : pc < (pcb proc).text.length := by
          obtain ⟨_, _, _, _, inside, _⟩ := slice
          omega
        split
        case isTrue used =>
          subst used
          refine .record ⟨before, slice.exact (.inr rfl)⟩ (.record trivial ?_)
          exact fetched_metered positive valid
        case isFalse left =>
          simp only [recheck, if_neg left]
          exact runSlot_metered round (by omega) bound slice

/-- The invariant of every run of the loop. -/
theorem cpuTrace_metered (positive : 1 ≤ timeSlot) {rounds : List (Round α)}
    (valid : ∀ round ∈ rounds, round.Valid pcb) :
    Traced.Meets (Metered pcb timeSlot) (Sliced pcb timeSlot) []
      (cpuTrace pcb timeSlot rounds) := by
  have steps : ∀ past s (round : Round α), Sliced pcb timeSlot past s → round.Valid pcb →
      Traced.Meets (Metered pcb timeSlot) (Sliced pcb timeSlot) past
        (cpuLoop pcb timeSlot s round) := by
    intro past s round sliced admissible
    cases s with
    | none => exact .pure trivial
    | some s => exact cpuRoutine_metered positive admissible sliced
  exact .feed steps rfl valid

/-- **The time quantum is exact.** -/
theorem time_quantum_exact (positive : 1 ≤ timeSlot) {rounds : List (Round α)}
    (valid : ∀ round ∈ rounds, round.Valid pcb) :
    (∀ s, (cpuTrace pcb timeSlot rounds).result = some (some s) →
        0 ≤ s.timeLeft ∧ s.timeLeft ≤ timeSlot ∧ (s.proc = none → s.timeLeft = 0)) ∧
      (∀ proc pc next timeLeft,
        .run proc pc next timeLeft ∈ (cpuTrace pcb timeSlot rounds).events →
          1 ≤ timeLeft ∧ timeLeft ≤ timeSlot) ∧
      (∀ before proc pc after,
        (cpuTrace pcb timeSlot rounds).events = before ++ .putProc proc pc :: after →
          pc < (pcb proc).text.length ∧ ExactSlice pcb timeSlot before proc) ∧
      ∀ before proc pc after,
        (cpuTrace pcb timeSlot rounds).events = before ++ .free proc pc :: after →
          pc = (pcb proc).text.length ∧ ExactSlice pcb timeSlot before proc := by
  obtain ⟨legal, kept⟩ := cpuTrace_metered positive valid
  have at_split : ∀ before event after,
      (cpuTrace pcb timeSlot rounds).events = before ++ event :: after →
        Metered pcb timeSlot before event := by
    intro before event after split
    rw [split] at legal
    exact legal.of_split
  refine ⟨?_, ?_, ?_, ?_⟩
  · rintro ⟨held, timeLeft⟩ reached
    have sliced := kept _ reached
    cases held with
    | none =>
        obtain rfl : timeLeft = 0 := sliced
        exact ⟨le_rfl, show (0 : Int) ≤ timeSlot by omega, fun _ => rfl⟩
    | some process =>
        obtain ⟨proc, pc⟩ := process
        exact ⟨sliced.1, sliced.2.1, nofun⟩
  · intro proc pc next timeLeft member
    obtain ⟨before, after, split⟩ := List.append_of_mem member
    exact at_split before _ after split
  · exact fun before proc pc after split => at_split before _ after split
  · exact fun before proc pc after split => at_split before _ after split

/-- A process of three instructions, none of which touches the memory. -/
def threeCalcs : Fin 1 → Pcb := fun _ =>
  ⟨0, [⟨.calcOp, 0, 0, 0⟩, ⟨.calcOp, 0, 0, 0⟩, ⟨.calcOp, 0, 0, 0⟩]⟩

/-- An iteration in which `get_proc` would return this. -/
def roundGetting (got : Option (Fin 1 × Nat)) : Round (Fin 1) :=
  ⟨got, false, (Sys.boot (Fin 1) 512 1024).caller, .zeroed, 0⟩

/-- With a time slot of 2 it is put back after two instructions. -/
theorem time_quantum_exact_two :
    2 < (threeCalcs 0).text.length ∧ ExactSlice threeCalcs 2 [.getProc (some (0, 0)),
      .run 0 0 1 2, .nextSlot, .run 0 1 2 1, .nextSlot] 0 := by
  have valid : ∀ round ∈ [roundGetting (some (0, 0)), roundGetting none, roundGetting none],
      round.Valid threeCalcs := by
    intro round member proc pc got
    rcases List.mem_cons.mp member with rfl | member
    · obtain ⟨rfl, rfl⟩ := Prod.mk.inj (Option.some.inj got)
      exact Nat.zero_le _
    · rcases List.mem_cons.mp member with rfl | member
      · exact nomatch got
      · obtain rfl := List.mem_singleton.mp member
        exact nomatch got
  exact (time_quantum_exact (show (1 : Int) ≤ 2 by decide) valid).2.2.1 _ 0 2
    [.getProc none, .nextSlot] rfl

end Since

end PagedOs
