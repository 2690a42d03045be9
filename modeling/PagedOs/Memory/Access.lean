import PagedOs.Memory.Faithful

/-! # Accesses and their regions

`pgread` and `pgwrite` compare the offset with the length of the region and let through
the offset that equals it, so that one byte behind every region can be accessed.
-/

namespace PagedOs

open Spans Transition

variable {ι : Type*}

namespace Caller

variable {c : Caller} {r o : BitVec 32}

/-- A read and a write at an offset succeed inside the region only, and change nothing
elsewhere. -/
structure AccessSafe (c : Caller) (u : Uninit) (r o : BitVec 32) (data value : Byte) : Prop where
  readInside : (c.pgread u r o data).1 = 0 → c.InRegion r o
  readRefused : ¬ c.InRegion r o → (c.pgread u r o data).1 ≠ 0 ∧ (c.pgread u r o data).2.2 = c
  writeInside : (c.pgwrite u value r o).1 = 0 → c.InRegion r o
  writeRefused : ¬ c.InRegion r o →
    (c.pgwrite u value r o).1 ≠ 0 ∧ (c.pgwrite u value r o).2 = c

/-- The offset is not the length of the region; for a region that ends below its start,
the offset exceeds the length that the subtraction yields in 32 bits. -/
def OffEnd (c : Caller) (r o : BitVec 32) : Prop :=
  let rg := c.mm.symrgtbl r.toNat
  if rg.rgStart ≤ rg.rgEnd then rg.rgStart.toNat + o.toNat ≠ rg.rgEnd.toNat
  else (rg.rgEnd - rg.rgStart).toNat % 2 ^ 32 < o.toNat

/-- Three comparisons decide whether an access is behind the end of its region. -/
instance (c : Caller) (r o : BitVec 32) : Decidable (c.OffEnd r o) := by
  unfold OffEnd
  infer_instance

/-- The length of the region is cut to 32 bits, and then the offset may be as large. -/
theorem rejects_iff : c.rejects r o = true ↔
    ((c.mm.symrgtbl r.toNat).rgEnd - (c.mm.symrgtbl r.toNat).rgStart).toNat % 2 ^ 32 <
      o.toNat := by
  have length : (BitVec.ofInt 32 (c.sizeRg r)).toNat =
      ((c.mm.symrgtbl r.toNat).rgEnd - (c.mm.symrgtbl r.toNat).rgStart).toNat % 2 ^ 32 := by
    rw [sizeRg, toInt, BitVec.ofInt_toInt, BitVec.toNat_ofInt]
    omega
  rw [rejects, decide_eq_true_eq, gt_iff_lt, BitVec.lt_def, length]

/-- What is neither rejected nor inside the region is the byte behind it. -/
theorem offEnd_iff : c.OffEnd r o ↔ c.rejects r o = true ∨ c.InRegion r o := by
  rw [rejects_iff, InRegion, OffEnd]
  generalize c.mm.symrgtbl r.toNat = rg
  have offset := o.isLt
  by_cases proper : rg.rgStart ≤ rg.rgEnd
  · have le := BitVec.le_def.mp proper
    simp only [proper, ↓reduceIte, BitVec.toNat_sub_of_le proper]
    omega
  · have lt := BitVec.lt_def.mp (BitVec.not_le.mp proper)
    simp only [proper, ↓reduceIte]
    omega

/-- **Accesses are safe exactly off the end of the region.** -/
theorem accessSafe_iff (inside : r.toNat < 30) (u : Uninit) (data value : Byte) :
    c.AccessSafe u r o data value ↔ c.OffEnd r o := by
  rw [offEnd_iff]
  cases rejected : c.rejects r o with
  | true =>
      have read := pgread_rejected rejected u data
      have write := pgwrite_rejected rejected u value
      have failed : (-1 : Int) ≠ 0 := by decide
      simp only [true_or, iff_true]
      constructor <;> simp [read, write]
  | false =>
      have read := pgread_accepted inside rejected u data
      have write := pgwrite_accepted inside rejected u value
      simp only [Bool.false_eq_true, false_or]
      refine ⟨fun safe => safe.readInside (by rw [read]), fun within => ?_⟩
      exact ⟨fun _ => within, fun outside => absurd within outside, fun _ => within,
        fun outside => absurd within outside⟩

end Caller

namespace Sys

variable [DecidableEq ι] {start s t : Sys ι} {P : ι} {destination offset : BitVec 32}

/-- A write off the end of its region, to a page in RAM or one that is fetched, keeps
the bytes of all other variables. -/
theorem Sound.write_apart (sound : Sound s) {value : Byte} {status : Int} {unread : Byte}
    (taken : MemoryStep s (P, .pgwrite value destination offset, status, unread) t)
    (offEnd : (s.caller P).OffEnd destination offset)
    (served : (s.caller P).rejects destination offset = false →
      (s.caller P).Served ((s.caller P).accessed destination offset))
    {Q : ι} {r x : Nat} (inside : r < 30) (other : (Q, r) ≠ (P, destination.toNat))
    (held : holds ((s.mm Q).symrgtbl r).span x = true) : t.byteAt Q x = s.byteAt Q x := by
  have inRange : destination.toNat < 30 := taken.1
  have target := Caller.offEnd_iff.mp offEnd
  have regular : s.RegularCall (P, .pgwrite value destination offset, status, unread) := by
    cases rejected : (s.caller P).rejects destination offset with
    | true => exact .inl rejected
    | false =>
        refine .inr ⟨served rejected, .inl (target.resolve_left ?_)⟩
        simp [rejected]
  have effect := sound.step ⟨regular, taken⟩
  have below := (sound.laid Q).variable_lt inside held
  have within : (s.mm Q).Within x := ⟨by omega, by have := (sound.laid Q).sbrk_le; omega⟩
  rw [effect.bytes Q x within]
  simp only [overwritten]
  apply if_neg
  rintro ⟨accepted, self, hit⟩
  subst self
  have inRegion := target.resolve_left (by simp [accepted])
  obtain ⟨address, -, -⟩ := inRegion.accessed (sound.laid Q) inRange
  have different : destination.toNat ≠ r := fun same => other (by rw [same])
  refine (sound.laid Q).variables_apart inRange inside different x ⟨holds_iff.mpr ?_, held⟩
  have sum : x = ((s.mm Q).symrgtbl destination.toNat).rgStart.toNat + offset.toNat := by
    rw [address] at hit
    exact_mod_cast hit
  rw [sum]
  exact ⟨Nat.le_add_right _ _, inRegion⟩

/-- **Accesses stay inside their regions** exactly off the end of these. Hence, in a run
of regular calls, a write off the end of its region that finds its page changes no byte
of another variable. -/
theorem accesses_inside :
    (∀ (c : Caller) (u : Uninit) (r o : BitVec 32) (data value : Byte), r.toNat < 30 →
      (c.AccessSafe u r o data value ↔ c.OffEnd r o)) ∧
    ∀ {start s t : Sys ι} {history : List (ι × MemoryCall × Int × Byte)} {P : ι}
      {destination offset : BitVec 32} {value unread : Byte} {status : Int},
      (∀ Q, start.mm Q = MmStruct.zeroed.initMm) → start.mram.Formatted →
      start.activeMswp.Formatted → start.mram.rdmflg = true → start.activeMswp.rdmflg = true →
      Run (Guarded MemoryStep RegularCall) start history s →
      MemoryStep s (P, .pgwrite value destination offset, status, unread) t →
      (s.caller P).OffEnd destination offset →
      ((s.caller P).rejects destination offset = false →
        (s.caller P).Served ((s.caller P).accessed destination offset)) →
      ∀ (Q : ι) (r x : Nat), r < 30 → (Q, r) ≠ (P, destination.toNat) →
        holds ((s.mm Q).symrgtbl r).span x = true → t.byteAt Q x = s.byteAt Q x := by
  refine ⟨fun c u r o data value inside => Caller.accessSafe_iff inside u data value, ?_⟩
  intro start s t history P destination offset value unread status empty ramFormatted
    swapFormatted ramRandom swapRandom run taken offEnd served Q r x inside other held
  have sound : Sound s := run.invariant Sound (fun _ _ _ sound taken => (sound.step taken).sound)
    (.start empty ramFormatted swapFormatted ramRandom swapRandom)
  exact sound.write_apart taken offEnd served inside other held

/-- A process with one variable of 100 bytes. -/
def oneVariable : Sys Unit :=
  (((boot Unit 512 1024).called () (.pgalloc 100 0)).get (by decide +kernel)).2.2

/-- And with another variable behind it, so that there is a neighbour to hit. -/
def twoVariables : Sys Unit :=
  ((oneVariable.called () (.pgalloc 100 1)).get (by decide +kernel)).2.2

/-- The last byte of the first variable was written. -/
def lastWritten : Sys Unit :=
  ((twoVariables.called () (.pgwrite 7 0 99)).get (by decide +kernel)).2.2

/-- The last byte of a region is written, and the first byte of the next one stays. -/
theorem accesses_inside_last_byte :
    (twoVariables.caller ()).AccessSafe .zeroed 0 99 0 7 ∧
      lastWritten.byteAt () 100 = twoVariables.byteAt () 100 := by
  have first : MemoryStep (boot Unit 512 1024) ((), .pgalloc 100 0, 0, 0) oneVariable :=
    memoryStep_of_called (by decide) _ (by decide +kernel) (by decide +kernel)
  have second : MemoryStep oneVariable ((), .pgalloc 100 1, 0, 0) twoVariables :=
    memoryStep_of_called (by decide) _ (by decide +kernel) (by decide +kernel)
  have written : MemoryStep twoVariables ((), .pgwrite 7 0 99, 0, 0) lastWritten :=
    memoryStep_of_called (by decide) _ (by decide +kernel) (by decide +kernel)
  have run : Run (Guarded MemoryStep RegularCall) (boot Unit 512 1024)
      [((), .pgalloc 100 0, 0, 0), ((), .pgalloc 100 1, 0, 0)] twoVariables :=
    .cons ⟨by decide +kernel, first⟩ (.single ⟨by decide +kernel, second⟩)
  refine ⟨((accesses_inside (ι := Unit)).1 _ _ _ _ _ _ (by decide)).mpr (by decide +kernel), ?_⟩
  exact (accesses_inside (ι := Unit)).2 (fun _ => rfl) (Memphy.initMemphy_formatted ..)
    (Memphy.initMemphy_formatted ..) rfl rfl run written (by decide +kernel)
    (fun _ => by decide +kernel) () 1 100 (by decide) (by decide) (by decide +kernel)

/-- The byte behind the first variable was written through it. -/
def behindWritten : Sys Unit :=
  ((twoVariables.called () (.pgwrite 7 0 100)).get (by decide +kernel)).2.2

/-- A write at the offset 100 of a variable of 100 bytes succeeds and hits the next one. -/
theorem byte_behind_accessed :
    (¬ ∀ (c : Caller) (u : Uninit) (r o : BitVec 32) (data value : Byte), r.toNat < 30 →
      c.AccessSafe u r o data value) ∧
    holds ((twoVariables.mm ()).symrgtbl 1).span 100 = true ∧
      twoVariables.byteAt () 100 = 0 ∧ behindWritten.byteAt () 100 = 7 := by
  refine ⟨fun claim => ?_, by decide +kernel, by decide +kernel, by decide +kernel⟩
  have safe := claim (twoVariables.caller ()) .zeroed 0 100 0 7 (by decide)
  exact absurd (safe.writeInside (by decide +kernel)) (by decide +kernel)

end Sys

end PagedOs
