import PagedOs.Memory.Contents

/-! # Reading back what was written

Runs of `pgalloc`, `pgfree_data`, `pgread` and `pgwrite` by any number of processes. A
byte that a process wrote to one of its regions is read back as long as every call is
regular: it has room, its free is not wedged, and a page it has to fetch ends up in the
frame that `pg_getpage` returns.
-/

namespace PagedOs

open Spans Transition

variable {ι : Type*}

/-- A call of a process on its memory. -/
inductive MemoryCall where
  | pgalloc (size regIndex : BitVec 32)
  | pgfreeData (regIndex : BitVec 32)
  | pgread (source offset : BitVec 32)
  | pgwrite (data : Byte) (destination offset : BitVec 32)

/-- The registers name variables, and a size is a positive `int`. -/
def MemoryCall.InRange : MemoryCall → Prop
  | .pgalloc size regIndex => (1 ≤ size.toNat ∧ size.toNat < 2 ^ 31) ∧ regIndex.toNat < 30
  | .pgfreeData regIndex => regIndex.toNat < 30
  | .pgread source _ => source.toNat < 30
  | .pgwrite _ destination _ => destination.toNat < 30

/-- Whether the operands are in range is decided by comparing them with the bounds. -/
instance (call : MemoryCall) : Decidable call.InRange :=
  match call with
  | .pgalloc _ _ => inferInstanceAs (Decidable ((_ ∧ _) ∧ _))
  | .pgfreeData _ => inferInstanceAs (Decidable (_ < _))
  | .pgread _ _ => inferInstanceAs (Decidable (_ < _))
  | .pgwrite _ _ _ => inferInstanceAs (Decidable (_ < _))

/-- The call frees the region `r` or allocates it anew. -/
def MemoryCall.Replaces (r : BitVec 32) : MemoryCall → Prop
  | .pgalloc _ regIndex => regIndex = r
  | .pgfreeData regIndex => regIndex = r
  | .pgread _ _ => False
  | .pgwrite _ _ _ => False

/-- The call replaces the region `r` or writes its byte `o`. -/
def MemoryCall.Disturbs (r o : BitVec 32) (call : MemoryCall) : Prop :=
  call.Replaces r ∨ ∃ data, call = .pgwrite data r o

namespace MemoryCall

variable {r o : BitVec 32}

theorem disturbs_pgalloc {size regIndex : BitVec 32} :
    (pgalloc size regIndex).Disturbs r o ↔ regIndex = r :=
  or_iff_left fun ⟨_, other⟩ => by cases other

theorem disturbs_pgfreeData {regIndex : BitVec 32} :
    (pgfreeData regIndex).Disturbs r o ↔ regIndex = r :=
  or_iff_left fun ⟨_, other⟩ => by cases other

theorem not_disturbs_pgread {source offset : BitVec 32} : ¬ (pgread source offset).Disturbs r o :=
  fun disturbs => disturbs.elim id fun ⟨_, other⟩ => by cases other

theorem disturbs_pgwrite {value : Byte} {destination offset : BitVec 32} :
    (pgwrite value destination offset).Disturbs r o ↔ destination = r ∧ offset = o := by
  refine ⟨fun disturbs => ?_, fun ⟨register, place⟩ => ?_⟩
  · rcases disturbs with replaces | ⟨data, writes⟩
    · exact replaces.elim
    · cases writes
      exact ⟨rfl, rfl⟩
  · subst register place
    exact .inr ⟨value, rfl⟩

end MemoryCall

namespace Caller

/-- A call with its status and, for a read, the byte obtained. -/
def memoryCall (c : Caller) (u : Uninit) (data : Byte) : MemoryCall → Option (Int × Byte × Caller)
  | .pgalloc size regIndex => (c.pgalloc size regIndex).map fun (status, c) => (status, data, c)
  | .pgfreeData regIndex => (c.pgfreeData regIndex).map fun (status, c) => (status, data, c)
  | .pgread source offset => some (c.pgread u source offset data)
  | .pgwrite value destination offset =>
      let (status, c) := c.pgwrite u value destination offset
      some (status, data, c)

/-- An access to the memory: pages move at most. -/
structure Accessed (c c' : Caller) : Prop where
  regions : MmStruct.SameRegions c.mm c'.mm
  mapped : ∀ pgn, Mapped (c.mm.pgd pgn) → Mapped (c'.mm.pgd pgn)
  ramSize : c'.mram.maxsz = c.mram.maxsz

theorem Accessed.refl (c : Caller) : c.Accessed c := ⟨.refl _, fun _ => id, rfl⟩

/-- `pg_getpage` moves pages between the devices and keeps the regions, the area and the free list
of the caller. -/
theorem pgGetpage_accessed (c : Caller) (u : Uninit) (pgn : Nat) :
    c.Accessed (c.pgGetpage u pgn).2 where
  regions := c.pgGetpage_sameRegions u pgn
  mapped := fun _ => c.pgGetpage_mapped u
  ramSize := (c.pgGetpage_mram u pgn).maxsz

/-- `pgread` keeps the regions, the area and the free list of the caller. -/
theorem pgread_accessed (c : Caller) (u : Uninit) (source offset : BitVec 32) (data : Byte) :
    c.Accessed (c.pgread u source offset data).2.2 := by
  rcases c.pgread_cases u source offset data with result | ⟨addr, result⟩
  · rw [result]
    exact .refl c
  · rw [result, pgGetval_caller]
    exact c.pgGetpage_accessed u _

/-- `pgwrite` keeps the regions, the area and the free list of the caller. -/
theorem pgwrite_accessed (c : Caller) (u : Uninit) (value : Byte)
    (destination offset : BitVec 32) :
    c.Accessed (c.pgwrite u value destination offset).2 := by
  rcases c.pgwrite_cases u value destination offset with result | ⟨addr, result⟩
  · rw [result]
    exact .refl c
  · obtain ⟨mram, frames, written⟩ := c.pgSetval_caller u addr value
    have fetched := c.pgGetpage_accessed u (pagingPgn addr)
    rw [result, written]
    exact ⟨fetched.regions, fetched.mapped, frames.maxsz.trans fetched.ramSize⟩

section MemoryCall

variable {c c' : Caller} {u : Uninit} {data byte : Byte} {status : Int}

/-- A call that ran as an allocation is the `pgalloc` of the code. -/
theorem memoryCall_pgalloc {size r : BitVec 32}
    (ran : c.memoryCall u data (.pgalloc size r) = some (status, byte, c')) :
    c.pgalloc size r = some (status, c') := by
  simp only [memoryCall, Option.map_eq_some_iff, Prod.mk.injEq, Prod.exists] at ran
  obtain ⟨_, _, done, rfl, -, rfl⟩ := ran
  exact done

/-- A call that ran as a free is the `pgfree_data` of the code. -/
theorem memoryCall_pgfreeData {r : BitVec 32}
    (ran : c.memoryCall u data (.pgfreeData r) = some (status, byte, c')) :
    c.pgfreeData r = some (status, c') := by
  simp only [memoryCall, Option.map_eq_some_iff, Prod.mk.injEq, Prod.exists] at ran
  obtain ⟨_, _, done, rfl, -, rfl⟩ := ran
  exact done

/-- A call that ran as a read leaves an accessed address space, whatever it returned. -/
theorem memoryCall_pgread {source offset : BitVec 32}
    (ran : c.memoryCall u data (.pgread source offset) = some (status, byte, c')) :
    c.Accessed c' := by
  have accessed := c.pgread_accessed u source offset data
  rwa [Option.some.inj ran] at accessed

/-- A call that ran as a write leaves an accessed address space, whatever it returned. -/
theorem memoryCall_pgwrite {value : Byte} {destination offset : BitVec 32}
    (ran : c.memoryCall u data (.pgwrite value destination offset) = some (status, byte, c')) :
    c.Accessed c' := by
  have accessed := c.pgwrite_accessed u value destination offset
  simp only [memoryCall, Option.some.injEq, Prod.mk.injEq] at ran
  rwa [ran.2.2] at accessed

end MemoryCall

/-- The offset lies in the region of the register. -/
def InRegion (c : Caller) (r o : BitVec 32) : Prop :=
  (c.mm.symrgtbl r.toNat).rgStart.toNat + o.toNat < (c.mm.symrgtbl r.toNat).rgEnd.toNat

/-- Whether an offset lies inside of a region is a comparison with the two bounds that `symrgtbl`
holds. -/
instance (c : Caller) (r o : BitVec 32) : Decidable (c.InRegion r o) :=
  inferInstanceAs (Decidable (_ < _))

/-- No variable of the process holds the address. -/
def Unused (c : Caller) (x : Int) : Prop :=
  ∀ r < 30, holds (c.mm.symrgtbl (r : Nat)).span x.toNat = false

/-- Whether an address lies outside of all regions is looked up register by register. -/
instance (c : Caller) (x : Int) : Decidable (c.Unused x) :=
  inferInstanceAs (Decidable (∀ r < 30, _ = _))

/-- An allocation finds room, a free is not wedged, and an access is rejected or served;
a write past the end of its region, which the bounds check lets through by one byte,
hits no other variable. -/
def Regular (c : Caller) : MemoryCall → Prop
  | .pgalloc size _ => c.HasRoom size
  | .pgfreeData regIndex =>
      MmStruct.wedged (c.mm.symrgtbl regIndex.toNat) c.mm.freeRegions = false
  | .pgread source offset =>
      c.rejects source offset = true ∨ c.Served (c.accessed source offset)
  | .pgwrite _ destination offset =>
      c.rejects destination offset = true ∨ c.Served (c.accessed destination offset) ∧
        (c.InRegion destination offset ∨ c.Unused (c.accessed destination offset))

/-- Whether a call is regular is read off the state before it. -/
instance (c : Caller) (call : MemoryCall) : Decidable (c.Regular call) :=
  match call with
  | .pgalloc _ _ => inferInstanceAs (Decidable (HasRoom _ _))
  | .pgfreeData _ => inferInstanceAs (Decidable (_ = _))
  | .pgread _ _ => inferInstanceAs (Decidable (_ ∨ _))
  | .pgwrite _ _ _ => inferInstanceAs (Decidable (_ ∨ _ ∧ (_ ∨ _)))

/-- A byte of a region is accessed at its address. -/
theorem InRegion.accessed {c : Caller} (laid : c.mm.Laid) {r o : BitVec 32} (inside : r.toNat < 30)
    (within : c.InRegion r o) :
    c.accessed r o = ((c.mm.symrgtbl r.toNat).rgStart.toNat + o.toNat : Nat) ∧
      c.mm.Within (c.accessed r o) ∧ c.rejects r o = false := by
  have low := laid.low
  have below := laid.sbrk_le
  unfold InRegion at within
  unfold Caller.accessed rejects sizeRg
  generalize region : c.mm.symrgtbl r.toNat = rg at *
  have bound : ∀ x, rg.rgStart.toNat ≤ x → x < rg.rgEnd.toNat → x < c.mm.mmap.sbrk.toNat := by
    intro x start stop
    apply laid.variable_lt inside
    rw [region]
    exact holds_iff.mpr ⟨start, stop⟩
  have here := bound (rg.rgStart.toNat + o.toNat) (Nat.le_add_right _ _) within
  have last := bound (rg.rgEnd.toNat - 1) (by omega) (by omega)
  have address : (rg.rgStart + toULong (toInt o.toNat)).toNat = rg.rgStart.toNat + o.toNat := by
    rw [toInt_eq_self (by omega) (by omega), add_toULong_toNat (by omega) (by omega) (by omega),
      Int.toNat_natCast]
  have size : (rg.rgEnd - rg.rgStart).toNat = rg.rgEnd.toNat - rg.rgStart.toNat :=
    BitVec.toNat_sub_of_le (BitVec.le_def.mpr (by omega))
  have converted : toInt (rg.rgStart + toULong (toInt o.toNat)).toNat =
      (rg.rgStart.toNat + o.toNat : Nat) := by
    rw [address, toInt_eq_self (by omega) (by omega)]
  rw [converted]
  refine ⟨rfl, ⟨by omega, by omega⟩, decide_eq_false ?_⟩
  simp only [gt_iff_lt, BitVec.lt_def, size]
  rw [toInt_eq_self (by omega) (by omega), BitVec.ofInt_natCast, BitVec.toNat_ofNat,
    Nat.mod_eq_of_lt (by omega)]
  omega

end Caller

namespace Sys

/-- The condition on the state before a call under which memory is faithful. -/
def RegularCall (s : Sys ι) (label : ι × MemoryCall × Int × Byte) : Prop :=
  (s.caller label.1).Regular label.2.1

/-- In a system the state is that of the process that calls. -/
instance (s : Sys ι) (label : ι × MemoryCall × Int × Byte) : Decidable (s.RegularCall label) :=
  inferInstanceAs (Decidable (Caller.Regular _ _))

/-- The byte `o` of the region `r` of a process is `value`. -/
structure Stored (s : Sys ι) (P : ι) (r o : BitVec 32) (value : Byte) : Prop where
  sound : Sound s
  inRegion : (s.caller P).InRegion r o
  byte : s.byteAt P ((s.caller P).accessed r o) = value

variable {s t : Sys ι} {P : ι} {r o : BitVec 32} {value : Byte}

/-- The address that a register and an offset stand for depends on the region of the register
alone. -/
theorem accessed_congr (region : (t.mm P).symrgtbl r.toNat = (s.mm P).symrgtbl r.toNat) :
    (t.caller P).accessed r o = (s.caller P).accessed r o := by
  simp only [Caller.accessed, caller, region]

/-- An offset stays inside of a region as long as the region stays. -/
theorem inRegion_congr (region : (t.mm P).symrgtbl r.toNat = (s.mm P).symrgtbl r.toNat)
    (within : (s.caller P).InRegion r o) : (t.caller P).InRegion r o := by
  simp only [Caller.InRegion, caller, region] at within ⊢
  exact within

/-- Address spaces as `init_mm` leaves them on zero-filled memory, over two formatted random access
devices, are sound. -/
theorem Sound.start (empty : ∀ P, s.mm P = MmStruct.zeroed.initMm)
    (ramFormatted : s.mram.Formatted) (swapFormatted : s.activeMswp.Formatted)
    (ramRandom : s.mram.rdmflg = true) (swapRandom : s.activeMswp.rdmflg = true) : Sound s where
  coherent := .start ramFormatted swapFormatted ramRandom swapRandom
    (fun P pgn => by rw [empty P]; rfl)
    (fun P pgn member => by rw [empty P] at member; exact absurd member List.not_mem_nil)
  laid := fun P => by
    rw [empty P]
    exact .start

/-- A regular write that hits the byte is a write of that byte. -/
theorem Stored.hits (stored : Stored s P r o value) (inside : r.toNat < 30)
    {destination offset : BitVec 32} (inRange : destination.toNat < 30)
    (target : (s.caller P).InRegion destination offset ∨
      (s.caller P).Unused ((s.caller P).accessed destination offset))
    (same : (s.caller P).accessed r o = (s.caller P).accessed destination offset) :
    destination = r ∧ offset = o := by
  have laid := stored.sound.laid P
  have within := stored.inRegion
  obtain ⟨address, -, -⟩ := within.accessed laid inside
  have held : holds ((s.mm P).symrgtbl r.toNat).span ((s.caller P).accessed r o).toNat = true := by
    rw [address, Int.toNat_natCast]
    exact holds_iff.mpr ⟨Nat.le_add_right _ _, within⟩
  rcases target with alsoWithin | unused
  · obtain ⟨otherAddress, -, -⟩ := alsoWithin.accessed laid inRange
    have sameRegion : destination.toNat = r.toNat := by
      by_contra different
      refine laid.variables_apart inRange inside different _ ⟨?_, held⟩
      rw [same, otherAddress, Int.toNat_natCast]
      exact holds_iff.mpr ⟨Nat.le_add_right _ _, alsoWithin⟩
    obtain rfl : destination = r := BitVec.eq_of_toNat_eq sameRegion
    refine ⟨rfl, BitVec.eq_of_toNat_eq ?_⟩
    omega
  · rw [same] at held
    exact absurd (held.symm.trans (unused r.toNat inside)) (by decide)

variable [DecidableEq ι]

/-- A process makes a call; the label says who made which call, its status and, for a
read, the byte obtained. -/
def MemoryStep (s : Sys ι) (label : ι × MemoryCall × Int × Byte) (t : Sys ι) : Prop :=
  label.2.1.InRange ∧ ∃ u before c,
    (s.caller label.1).memoryCall u before label.2.1 = some (label.2.2.1, label.2.2.2, c) ∧
      t = s.put label.1 c

/-- The bytes after a call, in a plain memory of one byte at each address. -/
def overwritten (s : Sys ι) (label : ι × MemoryCall × Int × Byte) (P : ι) (x : Int) : Byte :=
  match label.2.1 with
  | .pgwrite data destination offset =>
      if (s.caller label.1).rejects destination offset = false ∧ P = label.1 ∧
          x = (s.caller label.1).accessed destination offset then data
      else s.byteAt P x
  | _ => s.byteAt P x

/-- What a call does, in terms of a plain memory. -/
structure Effect (s : Sys ι) (label : ι × MemoryCall × Int × Byte) (t : Sys ι) : Prop where
  sound : Sound t
  regions : ∀ P (r : BitVec 32), (P = label.1 → ¬ label.2.1.Replaces r) →
    (t.mm P).symrgtbl r.toNat = (s.mm P).symrgtbl r.toNat
  bytes : ∀ P x, (s.mm P).Within x → t.byteAt P x = s.overwritten label P x
  obtained : ∀ r o, label.2.1 = .pgread r o → label.2.2.1 = 0 →
    label.2.2.2 = s.byteAt label.1 ((s.caller label.1).accessed r o)

/-- The call of one process changes a register only in its own address space. -/
theorem put_symrgtbl {Q : ι} {c : Caller} {r : Nat}
    (same : P = Q → c.mm.symrgtbl r = (s.mm Q).symrgtbl r) :
    ((s.put Q c).mm P).symrgtbl r = (s.mm P).symrgtbl r := by
  by_cases self : P = Q
  · rw [self, put_mm_self, same self]
  · rw [put_mm_of_ne s self]

/-- **A regular call works on a plain memory.** -/
theorem Sound.step (sound : Sound s) {label : ι × MemoryCall × Int × Byte}
    (taken : Guarded MemoryStep RegularCall s label t) : Effect s label t := by
  obtain ⟨Q, call, status, data⟩ := label
  obtain ⟨regular, inRange, u, before, c, result, rfl⟩ := taken
  simp only [RegularCall] at regular result inRange ⊢
  cases call with
  | pgalloc size regIndex =>
      obtain ⟨after, done, sound', keeps, others⟩ :=
        sound.pgalloc inRange.1.1 inRange.1.2 inRange.2 regular
      simp only [Caller.memoryCall, done, Option.map_some, Option.some.injEq, Prod.mk.injEq]
        at result
      obtain ⟨-, -, rfl⟩ := result
      refine ⟨sound', fun P r other => put_symrgtbl fun self => others _ fun same => ?_,
        fun P x within => (keeps P x within).2, fun _ _ isRead => by cases isRead⟩
      exact other self (BitVec.eq_of_toNat_eq same.symm)
  | pgfreeData regIndex =>
      obtain ⟨after, done, sound', keeps, others⟩ := sound.pgfreeData inRange regular
      simp only [Caller.memoryCall, done, Option.map_some, Option.some.injEq, Prod.mk.injEq]
        at result
      obtain ⟨-, -, rfl⟩ := result
      refine ⟨sound', fun P r other => put_symrgtbl fun self => others _ fun same => ?_,
        fun P x within => (keeps P x within).2, fun _ _ isRead => by cases isRead⟩
      exact other self (BitVec.eq_of_toNat_eq same.symm)
  | pgread source offset =>
      cases rejected : (s.caller Q).rejects source offset with
      | true =>
          simp only [Caller.memoryCall, Caller.pgread_rejected rejected, Option.some.injEq,
            Prod.mk.injEq] at result
          obtain ⟨failed, -, rfl⟩ := result
          rw [put_caller]
          refine ⟨sound, fun _ _ _ => rfl, fun _ _ _ => rfl, fun _ _ _ succeeded => ?_⟩
          exact absurd (failed.trans succeeded) (by decide)
      | false =>
          obtain ⟨after, done, sound', keeps, table⟩ :=
            sound.pgread u inRange rejected before (regular.resolve_left (by simp [rejected]))
          simp only [Caller.memoryCall, done, Option.some.injEq, Prod.mk.injEq] at result
          obtain ⟨-, rfl, rfl⟩ := result
          refine ⟨sound', fun P r _ => put_symrgtbl fun _ => congrFun table _,
            fun P x within => (keeps P x within).2, fun r o isRead _ => ?_⟩
          cases isRead
          rfl
  | pgwrite written destination offset =>
      cases rejected : (s.caller Q).rejects destination offset with
      | true =>
          simp only [Caller.memoryCall, Caller.pgwrite_rejected rejected, Option.some.injEq,
            Prod.mk.injEq] at result
          obtain ⟨-, -, rfl⟩ := result
          rw [put_caller]
          refine ⟨sound, fun _ _ _ => rfl, fun P x _ => ?_, fun _ _ isRead => by cases isRead⟩
          simp only [overwritten, rejected, Bool.true_eq_false, false_and, ↓reduceIte]
      | false =>
          obtain ⟨served, -⟩ := regular.resolve_left (by simp [rejected])
          obtain ⟨after, done, sound', bytes, table⟩ :=
            sound.pgwrite u inRange rejected written served
          simp only [Caller.memoryCall, done, Option.some.injEq, Prod.mk.injEq] at result
          obtain ⟨-, -, rfl⟩ := result
          refine ⟨sound', fun P r _ => put_symrgtbl fun _ => congrFun table _, fun P x within => ?_,
            fun _ _ isRead => by cases isRead⟩
          simp only [(bytes P x within).2, overwritten, rejected, true_and]

/-- A regular call that does not disturb a byte leaves it. -/
theorem Stored.step (stored : Stored s P r o value) (inside : r.toNat < 30)
    {label : ι × MemoryCall × Int × Byte} (taken : Guarded MemoryStep RegularCall s label t)
    (quiet : label.1 = P → ¬ label.2.1.Disturbs r o) : Stored t P r o value := by
  have effect := stored.sound.step taken
  have region := effect.regions P r fun self replaced => quiet self.symm (.inl replaced)
  refine ⟨effect.sound, inRegion_congr region stored.inRegion, ?_⟩
  obtain ⟨-, within, -⟩ := stored.inRegion.accessed (stored.sound.laid P) inside
  rw [accessed_congr region, effect.bytes P _ within]
  obtain ⟨Q, call, status, data⟩ := label
  cases call with
  | pgwrite written destination offset =>
      obtain ⟨regular, inRange, -⟩ := taken
      simp only [overwritten]
      rw [if_neg, stored.byte]
      rintro ⟨accepted, rfl, same⟩
      obtain ⟨-, target⟩ := regular.resolve_left (by simp [accepted])
      obtain ⟨rfl, rfl⟩ := stored.hits inside inRange target same
      exact quiet rfl (.inr ⟨written, rfl⟩)
  | _ => exact stored.byte

/-- What is read back is what was written: `pgwrite` of a byte of a region succeeds, calls
follow that do not disturb the byte, and a `pgread` of the byte succeeds. The run starts
with empty address spaces and two formatted random-access devices. -/
def Faithful (step : Sys ι → ι × MemoryCall × Int × Byte → Sys ι → Prop) : Prop :=
  ∀ {start s written later read : Sys ι} {before after : List (ι × MemoryCall × Int × Byte)}
    {P : ι} {r o : BitVec 32} {value unread obtained : Byte},
    (∀ Q, start.mm Q = MmStruct.zeroed.initMm) → start.mram.Formatted →
    start.activeMswp.Formatted → start.mram.rdmflg = true → start.activeMswp.rdmflg = true →
    Run step start before s → step s (P, .pgwrite value r o, 0, unread) written →
    (s.caller P).InRegion r o → Run step written after later →
    (∀ label ∈ after, label.1 = P → ¬ label.2.1.Disturbs r o) →
    step later (P, .pgread r o, 0, obtained) read → obtained = value

/-- **Memory is faithful** in every run of regular calls. -/
theorem memory_faithful :
    Faithful (Guarded (MemoryStep : Sys ι → _ → Sys ι → Prop) RegularCall) := by
  intro start s written later read before after P r o value unread obtained empty ramFormatted
    swapFormatted ramRandom swapRandom run write inRegion quietRun quiet readStep
  have inside : r.toNat < 30 := write.2.1
  have sound : Sound s := run.invariant Sound (fun _ _ _ sound taken => (sound.step taken).sound)
    (.start empty ramFormatted swapFormatted ramRandom swapRandom)
  have stored : Stored written P r o value := by
    have effect := sound.step write
    have region := effect.regions P r fun _ replaced => replaced
    obtain ⟨-, within, accepted⟩ := inRegion.accessed (sound.laid P) inside
    refine ⟨effect.sound, inRegion_congr region inRegion, ?_⟩
    rw [accessed_congr region, effect.bytes P _ within]
    exact if_pos ⟨accepted, rfl, rfl⟩
  have kept : Stored later P r o value := by
    clear readStep write run
    induction quietRun with
    | nil _ => exact stored
    | cons taken _ ih =>
        exact ih (fun label member => quiet label (List.mem_cons_of_mem _ member))
          (stored.step inside taken (quiet _ List.mem_cons_self))
  rw [← kept.byte]
  exact (kept.sound.step readStep).obtained r o rfl rfl

/-- The system after a call that returns, with zero-filled local variables. -/
def called (s : Sys ι) (P : ι) (call : MemoryCall) : Option (Int × Byte × Sys ι) :=
  ((s.caller P).memoryCall .zeroed 0 call).map fun (status, data, c) => (status, data, s.put P c)

/-- A call that the code defines ran with some values of the uninitialised locals. -/
theorem ran_of_called {call : MemoryCall} {status : Int} {data : Byte}
    (defined : (s.called P call).isSome = true)
    (statusIs : ((s.called P call).get defined).1 = status)
    (dataIs : ((s.called P call).get defined).2.1 = data) :
    ∃ u before c, (s.caller P).memoryCall u before call = some (status, data, c) ∧
      ((s.called P call).get defined).2.2 = s.put P c := by
  obtain ⟨⟨ran, byte, c⟩, result⟩ :=
    Option.isSome_iff_exists.mp (Option.isSome_map.symm.trans defined)
  have reached : s.called P call = some (ran, byte, s.put P c) := by
    rw [called, result, Option.map_some]
  simp only [reached, Option.get_some] at statusIs dataIs ⊢
  subst statusIs dataIs
  exact ⟨.zeroed, 0, c, result, rfl⟩

/-- A call within the range of registers that the code defines is a step of the runs below. -/
theorem memoryStep_of_called {call : MemoryCall} {status : Int} {data : Byte}
    (inRange : call.InRange) (defined : (s.called P call).isSome = true)
    (statusIs : ((s.called P call).get defined).1 = status)
    (dataIs : ((s.called P call).get defined).2.1 = data) :
    MemoryStep s (P, call, status, data) ((s.called P call).get defined).2.2 :=
  ⟨inRange, ran_of_called defined statusIs dataIs⟩

/-- A process that got 700 bytes on two RAM frames and a swap frame. -/
def spilled : Sys Unit :=
  (((boot Unit 512 1024).called () (.pgalloc 700 0)).get (by decide +kernel)).2.2

/-- A byte of the page in swap was written. -/
def spilledWritten : Sys Unit :=
  ((spilled.called () (.pgwrite 7 0 600)).get (by decide +kernel)).2.2

/-- And then one of a page in RAM. -/
def spilledWrittenTwice : Sys Unit :=
  ((spilledWritten.called () (.pgwrite 9 0 0)).get (by decide +kernel)).2.2

/-- A byte written to a page before another page takes its frame is read back behind the fault. -/
theorem memory_faithful_after_fault :
    ((spilledWrittenTwice.called () (.pgread 0 600)).get (by decide +kernel)).2.1 = 7 := by
  have allocated : MemoryStep (boot Unit 512 1024) ((), .pgalloc 700 0, 0, 0) spilled :=
    memoryStep_of_called (by decide) _ (by decide +kernel)
      (by decide +kernel)
  have written : MemoryStep spilled ((), .pgwrite 7 0 600, 0, 0) spilledWritten :=
    memoryStep_of_called (by decide) _ (by decide +kernel)
      (by decide +kernel)
  have elsewhere : MemoryStep spilledWritten ((), .pgwrite 9 0 0, 0, 0) spilledWrittenTwice :=
    memoryStep_of_called (by decide) _ (by decide +kernel)
      (by decide +kernel)
  have quiet : ∀ label ∈ [((), MemoryCall.pgwrite 9 0 0, (0 : Int), (0 : Byte))], label.1 = () →
      ¬ label.2.1.Disturbs 0 600 := by
    intro label member _ disturbs
    rw [List.mem_singleton.mp member] at disturbs
    rcases disturbs with replaced | ⟨data, same⟩
    · exact replaced
    · cases same
  exact memory_faithful (fun _ => rfl) (Memphy.initMemphy_formatted ..)
    (Memphy.initMemphy_formatted ..) rfl rfl (.single ⟨by decide +kernel, allocated⟩)
    ⟨by decide +kernel, written⟩ (by decide +kernel) (.single ⟨by decide +kernel, elsewhere⟩) quiet
    ⟨by decide +kernel, memoryStep_of_called (by decide) _
      (by decide +kernel) rfl⟩

/-- A process that got 8960 bytes on the 33 frames of the RAM and two swap frames. -/
def crowded : Sys Unit :=
  (((boot Unit 8448 1024).called () (.pgalloc 8960 0)).get (by decide +kernel)).2.2

/-- A byte of its 34th page was written. -/
def crowdedWritten : Sys Unit :=
  ((crowded.called () (.pgwrite 7 0 8448)).get (by decide +kernel)).2.2

/-- After a fault `pg_getpage` returns the frame number of the old entry, here 32, while the
page is in frame 0. The byte written is not read back. -/
theorem stale_frame_unfaithful :
    ¬ Faithful (MemoryStep : Sys Unit → _ → Sys Unit → Prop) := by
  intro claim
  have allocated : MemoryStep (boot Unit 8448 1024) ((), .pgalloc 8960 0, 0, 0) crowded :=
    memoryStep_of_called (by decide) _ (by decide +kernel)
      (by decide +kernel)
  have written : MemoryStep crowded ((), .pgwrite 7 0 8448, 0, 0) crowdedWritten :=
    memoryStep_of_called (by decide) _ (by decide +kernel)
      (by decide +kernel)
  have read : MemoryStep crowdedWritten ((), .pgread 0 8448, 0, 0)
      ((crowdedWritten.called () (.pgread 0 8448)).get (by decide +kernel)).2.2 :=
    memoryStep_of_called (by decide) _ (by decide +kernel)
      (by decide +kernel)
  have wrong : (0 : Byte) = 7 := claim (fun _ => rfl) (Memphy.initMemphy_formatted ..)
    (Memphy.initMemphy_formatted ..) rfl rfl (.single allocated) written (by decide +kernel)
    (.nil _) (fun _ member => absurd member List.not_mem_nil) read
  exact absurd wrong (by decide)

end Sys

end PagedOs
