import PagedOs.Library.Transition
import PagedOs.Memory.Interface

/-! # The address space of a process

What `pgalloc` and `pgfree_data` do to the regions of a process, in terms of how
often each address is covered by the variables and by the free list. An allocation
moves addresses from the free list or from behind the break to a variable, and
freeing moves them back.
-/

namespace PagedOs

open LinkedHeap Spans Transition

/-! ## One call -/

/-- The regions in the symbol table, one for each of the 30 registers. -/
def MmStruct.tableRegions (mm : MmStruct) : List VmRg :=
  (List.range 30).map fun r : Nat => mm.symrgtbl r

/-- Writing an entry of the symbol table exchanges what it covers. -/
theorem MmStruct.covers_setSymrg (mm : MmStruct) {r : Nat} (inside : r < 30) (rg : VmRg) (x : Nat) :
    covers (spans (mm.setSymrg r rg).tableRegions) x + covers [(mm.symrgtbl r).span] x =
      covers (spans mm.tableRegions) x + covers [rg.span] x := by
  have family : ∀ table : Int → VmRg, spans ((List.range 30).map fun i : Nat => table i) =
      (List.range 30).map fun i : Nat => (table i).span := fun table => List.map_map ..
  have entry : (fun i : Nat => (Function.update mm.symrgtbl (r : Int) rg (i : Int)).span) =
      Function.update (fun i : Nat => (mm.symrgtbl (i : Int)).span) r rg.span := by
    funext i
    by_cases same : i = r
    · subst same
      rw [Function.update_self, Function.update_self]
    · rw [Function.update_of_ne same, Function.update_of_ne (by exact_mod_cast same)]
  rw [tableRegions, tableRegions, setSymrg, family, family, entry]
  exact covers_update _ List.nodup_range (List.mem_range.mpr inside) rg.span x

/-- How often an address is covered by a variable or a free region. -/
def MmStruct.cover (mm : MmStruct) (regions : List VmRg) (x : Nat) : Nat :=
  covers (spans mm.tableRegions) x + covers (spans regions) x

/-- Replacing an entry of the table exchanges its span in the cover of every address. -/
theorem MmStruct.cover_setSymrg (mm : MmStruct) (regions : List VmRg) {r : Nat} (inside : r < 30)
    (rg : VmRg) (x : Nat) :
    (mm.setSymrg r rg).cover regions x + covers [(mm.symrgtbl r).span] x =
      mm.cover regions x + covers [rg.span] x := by
  have exchanged := mm.covers_setSymrg inside rg x
  simp only [cover]
  omega

/-- Only the symbol table matters for what the variables cover. -/
theorem MmStruct.cover_congr {mm mm' : MmStruct} (same : mm'.symrgtbl = mm.symrgtbl)
    (regions : List VmRg) (x : Nat) : mm'.cover regions x = mm.cover regions x := by
  simp only [cover, tableRegions, same]

/-- Two variables share no byte if no address is covered twice. -/
theorem MmStruct.variables_apart {mm : MmStruct} {regions : List VmRg}
    (packed : ∀ x, mm.cover regions x ≤ if x < mm.mmap.sbrk.toNat then 1 else 0)
    {left right : Nat} (leftInside : left < 30) (rightInside : right < 30)
    (different : left ≠ right) : Apart (mm.symrgtbl left).span (mm.symrgtbl right).span := by
  have once : ∀ x, covers (spans mm.tableRegions) x ≤ 1 := by
    intro x
    have total := packed x
    rw [cover] at total
    split at total <;> omega
  rw [spans, tableRegions, List.map_map] at once
  exact family_apart once (List.mem_range.mpr leftInside) (List.mem_range.mpr rightInside) different

/-- The nodes of the free list are found from the heap and the head alone. -/
theorem FreeList_congr {mm mm' : MmStruct} {regions : List VmRg} (list : FreeList mm regions)
    (heap : mm'.rgHeap = mm.rgHeap) (head : mm'.mmap.vmFreergList = mm.mmap.vmFreergList) :
    FreeList mm' regions := by
  obtain ⟨nodes, chain⟩ := list
  exact ⟨nodes, by rw [heap, head]; exact chain⟩

namespace Caller

/-- The process with room at its break, as `__alloc` makes it. -/
def atBreak (c : Caller) (size : Int) : Caller :=
  if c.exceedsPage size then (c.incVmaLimit size).2 else c.moveSbrk size

/-- The break that is moved by `__alloc` has moved by the size that was asked for, up to the wrap.
-/
theorem atBreak_breakMoved (c : Caller) (size : Int) : c.BreakMoved size (c.atBreak size) := by
  unfold atBreak
  split
  · exact c.incVmaLimit_breakMoved size
  · exact c.moveSbrk_breakMoved size

/-- The region behind the break: what an allocation gets that finds nothing on the free list. -/
def breakRegion (c : Caller) (size : Int) : VmRg :=
  ⟨c.mm.mmap.sbrk, c.mm.mmap.sbrk + toULong size⟩

/-- The process with an entry of its symbol table written. -/
def withSymrg (c : Caller) (rgid : Int) (rg : VmRg) : Caller :=
  { c with mm := c.mm.setSymrg rgid rg }

/-- `__alloc` in terms of the two places a region comes from. -/
theorem alloc_eq (c : Caller) (rgid size : Int) :
    c.alloc rgid size = (c.mm.getFreeVmrgArea size).map fun found =>
      match found with
      | (some rgnode, mm) =>
          (0, toInt rgnode.rgStart.toNat, ({ c with mm := mm } : Caller).withSymrg rgid rgnode)
      | (none, mm) =>
          let rg : VmRg := ⟨toULong (toInt mm.mmap.sbrk.toNat),
            toULong (toInt (toInt mm.mmap.sbrk.toNat + size))⟩
          (0, toInt rg.rgStart.toNat,
            (({ c with mm := mm } : Caller).atBreak size).withSymrg rgid rg) := rfl

/-- **Everything `__alloc` can do.** It returns: the first free region of enough size is
cut, or there is none and the region lies behind the break. -/
theorem alloc_cases {c : Caller} {regions : List VmRg} (list : FreeList c.mm regions)
    (low : ∀ rg ∈ regions, rg.rgEnd.toNat < 2 ^ 32) (size : Int) (nonneg : 0 ≤ size)
    (small : size < 2 ^ 31) (rgid : Int) :
    (∃ addr found mm' regions', c.alloc rgid size =
          some (0, addr, ({ c with mm := mm' } : Caller).withSymrg rgid found) ∧
        MmStruct.SameSpace c.mm mm' ∧ FreeList mm' regions' ∧
        found.rgEnd.toNat = found.rgStart.toNat + size.toNat ∧
        ∀ x, covers (spans regions) x = covers [found.span] x + covers (spans regions') x) ∨
      ((∀ rg ∈ regions, ¬ rg.rgStart.toNat + size.toNat ≤ rg.rgEnd.toNat) ∧
        ∃ addr rg, c.alloc rgid size = some (0, addr, (c.atBreak size).withSymrg rgid rg) ∧
          (c.mm.mmap.sbrk.toNat + size < 2 ^ 31 → rg = c.breakRegion size)) := by
  rcases MmStruct.getFreeVmrgArea_spec list nonneg small low with
    ⟨nothing, none_fits⟩ | ⟨found, mm', regions', cut, same, list', sized, covered⟩
  · right
    have result : ∃ addr, c.alloc rgid size = some (0, addr, (c.atBreak size).withSymrg rgid
        ⟨toULong (toInt c.mm.mmap.sbrk.toNat),
          toULong (toInt (toInt c.mm.mmap.sbrk.toNat + size))⟩) :=
      ⟨_, by simp only [alloc, nothing, Option.map_some, atBreak, withSymrg]; rfl⟩
    obtain ⟨addr, result⟩ := result
    refine ⟨none_fits, addr, _, result, fun fits => ?_⟩
    have start : toULong (toInt c.mm.mmap.sbrk.toNat) = c.mm.mmap.sbrk := by
      rw [toInt_eq_self (by omega) (by omega), toULong, BitVec.ofInt_natCast, BitVec.ofNat_toNat,
        BitVec.setWidth_eq]
    have stop : toULong (toInt (toInt c.mm.mmap.sbrk.toNat + size)) =
        c.mm.mmap.sbrk + toULong size := by
      have break_ : toInt c.mm.mmap.sbrk.toNat = c.mm.mmap.sbrk.toNat :=
        toInt_eq_self (by omega) (by omega)
      rw [break_, toInt_eq_self (by omega) (by omega), toULong, BitVec.ofInt_add,
        BitVec.ofInt_natCast, BitVec.ofNat_toNat, BitVec.setWidth_eq, toULong]
    rw [start, stop, breakRegion]
  · exact .inl ⟨toInt found.rgStart.toNat, found, mm', regions',
      by simp only [alloc, cut, Option.map_some, withSymrg], same, list', sized, covered⟩

/-- Two processes with the same pages and devices. -/
structure SamePages (c c' : Caller) : Prop where
  pgd : c'.mm.pgd = c.mm.pgd
  fifoPgn : c'.mm.fifoPgn = c.mm.fifoPgn
  vmEnd : c'.mm.mmap.vmEnd = c.mm.mmap.vmEnd
  mram : c'.mram = c.mram
  activeMswp : c'.activeMswp = c.activeMswp

/-- The number of a register below 30 is not changed by the conversion to an `int`. -/
theorem register_eq {r : BitVec 32} (inside : r.toNat < 30) : toInt r.toNat = (r.toNat : Int) :=
  toInt_eq_self (by omega) (by omega)

/-- The register that is set has the new region. -/
@[simp] theorem withSymrg_self (c : Caller) (r : Nat) (rg : VmRg) :
    (c.withSymrg r rg).mm.symrgtbl r = rg := Function.update_self ..

/-- The other registers have the regions that they had. -/
theorem withSymrg_other (c : Caller) {r other : Nat} (different : other ≠ r) (rg : VmRg) :
    (c.withSymrg r rg).mm.symrgtbl other = c.mm.symrgtbl other :=
  Function.update_of_ne (by exact_mod_cast different) ..

/-- **Allocating moves addresses** from the free list or from behind the break to the
variable; what the variable held before is no longer covered by it. -/
theorem pgalloc_cover {c : Caller} {regions : List VmRg} (list : FreeList c.mm regions)
    (low : ∀ rg ∈ regions, rg.rgEnd.toNat < 2 ^ 32) (sbrkLow : c.mm.mmap.sbrk.toNat < 2 ^ 31)
    {size r : BitVec 32} (small : size.toNat < 2 ^ 31) (inside : r.toNat < 30) :
    ∃ c', c.pgalloc size r = some (0, c') ∧
      (c.SamePages c' ∧ c'.mm.mmap.sbrk = c.mm.mmap.sbrk ∨
        (∀ rg ∈ regions, ¬ rg.rgStart.toNat + size.toNat ≤ rg.rgEnd.toNat) ∧
          (c.atBreak size.toNat).SamePages c' ∧
            c'.mm.mmap.sbrk = c.mm.mmap.sbrk + toULong size.toNat) ∧
      (∀ other : Nat, other ≠ r.toNat → c'.mm.symrgtbl other = c.mm.symrgtbl other) ∧
      (c'.mm.mmap.sbrk.toNat < 2 ^ 31 →
        ∃ regions', FreeList c'.mm regions' ∧ c.mm.mmap.sbrk.toNat ≤ c'.mm.mmap.sbrk.toNat ∧
          ∀ x, c'.mm.cover regions' x + covers [(c.mm.symrgtbl r.toNat).span] x =
            c.mm.cover regions x +
              covers [(c.mm.mmap.sbrk.toNat, c'.mm.mmap.sbrk.toNat)] x) := by
  have amount : toInt size.toNat = (size.toNat : Int) := toInt_eq_self (by omega) (by omega)
  simp only [pgalloc, amount, register_eq inside]
  rcases alloc_cases list low size.toNat (by omega) (by omega) r.toNat with
    ⟨addr, found, mm', regions', result, same, list', -, covered⟩ |
      ⟨none_fits, addr, rg, result, behind⟩
  · refine ⟨({ c with mm := mm' } : Caller).withSymrg r.toNat found,
      by simp only [result, Option.map_some],
      .inl ⟨⟨same.pgd, same.fifoPgn, same.vmEnd, rfl, rfl⟩, same.sbrk⟩, fun other different => ?_,
      fun _ => ⟨regions', ?_, ?_, fun x => ?_⟩⟩
    · rw [withSymrg_other _ different, same.symrgtbl]
    · exact FreeList_congr list' rfl rfl
    · exact (congrArg BitVec.toNat same.sbrk).ge
    · have entry := mm'.cover_setSymrg regions' inside found x
      rw [same.symrgtbl, MmStruct.cover_congr same.symrgtbl] at entry
      have unmoved : covers [(c.mm.mmap.sbrk.toNat, mm'.mmap.sbrk.toNat)] x = 0 :=
        covers_empty (congrArg BitVec.toNat same.sbrk).le x
      have taken := covered x
      simp only [MmStruct.cover] at entry ⊢
      simp only [withSymrg, MmStruct.setSymrg] at entry ⊢
      omega
  · have moved := c.atBreak_breakMoved size.toNat
    refine ⟨(c.atBreak size.toNat).withSymrg r.toNat rg, by simp only [result, Option.map_some],
      .inr ⟨none_fits, ⟨rfl, rfl, rfl, rfl, rfl⟩, moved.sbrk⟩, fun other different => ?_,
      fun high => ?_⟩
    · rw [withSymrg_other _ different, moved.symrgtbl]
    have broken : ((c.atBreak size.toNat).withSymrg r.toNat rg).mm.mmap.sbrk =
        c.mm.mmap.sbrk + toULong size.toNat := moved.sbrk
    have sum : (c.mm.mmap.sbrk + toULong size.toNat).toNat = c.mm.mmap.sbrk.toNat + size.toNat :=
      add_toULong_natCast (by omega) (by omega)
    rw [broken] at high ⊢
    have region := behind (by omega)
    refine ⟨regions, FreeList_congr list moved.rgHeap moved.vmFreergList, by omega, fun x => ?_⟩
    have entry := (c.atBreak size.toNat).mm.cover_setSymrg regions inside rg x
    rw [moved.symrgtbl, MmStruct.cover_congr moved.symrgtbl] at entry
    rw [withSymrg, entry, region]
    rfl

theorem pgfreeData_register (c : Caller) {r : BitVec 32} (inside : r.toNat < 30) :
    c.pgfreeData r = (c.mm.enlistVmFreergList (c.mm.symrgtbl r.toNat)).map fun (_, mm) =>
      (0, ({ c with mm := mm } : Caller).withSymrg r.toNat ⟨0, 0⟩) := by
  rw [pgfreeData, free, if_neg (mt (register_refused_iff r).mp (by omega)), register_eq inside]
  rfl

/-- **Freeing moves addresses** from the variable to the free list. -/
theorem pgfreeData_cover {c : Caller} {regions : List VmRg} (list : FreeList c.mm regions)
    {r : BitVec 32} (inside : r.toNat < 30)
    (safe : MmStruct.wedged (c.mm.symrgtbl r.toNat) c.mm.freeRegions = false) :
    ∃ c' regions', c.pgfreeData r = some (0, c') ∧ c.SamePages c' ∧
      c'.mm.mmap.sbrk = c.mm.mmap.sbrk ∧
      (∀ other : Nat, other ≠ r.toNat → c'.mm.symrgtbl other = c.mm.symrgtbl other) ∧
      FreeList c'.mm regions' ∧ ∀ x, c'.mm.cover regions' x = c.mm.cover regions x := by
  obtain ⟨status, mm', regions', enlisted, same, list', covered⟩ :=
    MmStruct.enlistVmFreergList_spec list (c.mm.symrgtbl r.toNat) safe
  refine ⟨({ c with mm := mm' } : Caller).withSymrg r.toNat ⟨0, 0⟩, regions', ?_,
    ⟨same.pgd, same.fifoPgn, same.vmEnd, rfl, rfl⟩, same.sbrk, fun other different => ?_, ?_,
    fun x => ?_⟩
  · rw [pgfreeData_register c inside, enlisted, Option.map_some]
  · rw [withSymrg_other _ different, same.symrgtbl]
  · exact FreeList_congr list' rfl rfl
  · have entry := mm'.cover_setSymrg regions' inside ⟨0, 0⟩ x
    have nothing : covers [(⟨0, 0⟩ : VmRg).span] x = 0 := covers_empty (by decide) x
    rw [same.symrgtbl, MmStruct.cover_congr same.symrgtbl, nothing] at entry
    have added := covered x
    simp only [MmStruct.cover] at entry ⊢
    simp only [withSymrg]
    omega

/-- A free region ends below what the free list covers. -/
theorem rgEnd_le {regions : List VmRg} (bound : Nat)
    (covered : ∀ x, covers (spans regions) x ≤ if x < bound then 1 else 0) {rg : VmRg}
    (member : rg ∈ regions) (proper : rg.rgStart < rg.rgEnd) : rg.rgEnd.toNat ≤ bound := by
  by_contra beyond
  have start := BitVec.lt_def.mp proper
  have last : 0 < covers (spans regions) (rg.rgEnd.toNat - 1) := by
    refine covers_pos.mpr ⟨rg.span, List.mem_map.mpr ⟨rg, member, rfl⟩, holds_iff.mpr ?_⟩
    simp only [VmRg.span]
    omega
  have := covered (rg.rgEnd.toNat - 1)
  rw [if_neg (by omega)] at this
  omega

/-- The free regions end below the break if no address is covered twice and none behind it. -/
theorem packed_low {mm : MmStruct} {regions : List VmRg} (list : FreeList mm regions)
    (packed : ∀ x, mm.cover regions x ≤ if x < mm.mmap.sbrk.toNat then 1 else 0)
    (sbrkLow : mm.mmap.sbrk.toNat < 2 ^ 31) : ∀ rg ∈ regions, rg.rgEnd.toNat < 2 ^ 32 := by
  intro rg member
  have bound := rgEnd_le mm.mmap.sbrk.toNat (fun x => by
    have := packed x
    simp only [MmStruct.cover] at this
    omega) member (list.proper rg member)
  omega

/-- **An allocation covers no address twice**, and none behind the break. -/
theorem pgalloc_packed {c c' : Caller} {regions : List VmRg} (list : FreeList c.mm regions)
    (packed : ∀ x, c.mm.cover regions x ≤ if x < c.mm.mmap.sbrk.toNat then 1 else 0)
    (sbrkLow : c.mm.mmap.sbrk.toNat < 2 ^ 31) {size r : BitVec 32} (small : size.toNat < 2 ^ 31)
    (inside : r.toNat < 30) {status : Int} (ran : c.pgalloc size r = some (status, c'))
    (low : c'.mm.mmap.sbrk.toNat < 2 ^ 31) :
    ∃ regions', FreeList c'.mm regions' ∧
      ∀ x, c'.mm.cover regions' x ≤ if x < c'.mm.mmap.sbrk.toNat then 1 else 0 := by
  obtain ⟨after, result, -, -, moved⟩ :=
    pgalloc_cover list (packed_low list packed sbrkLow) sbrkLow small inside
  obtain ⟨-, rfl⟩ := Prod.mk.inj (Option.some.inj (ran.symm.trans result))
  obtain ⟨regions', list', grows, covered⟩ := moved low
  refine ⟨regions', list', fun x => ?_⟩
  have total := covered x
  have before := packed x
  have broken : covers [(c.mm.mmap.sbrk.toNat, c'.mm.mmap.sbrk.toNat)] x =
      if c.mm.mmap.sbrk.toNat ≤ x ∧ x < c'.mm.mmap.sbrk.toNat then 1 else 0 := by
    simp only [covers_singleton, holds_iff]
  rw [broken] at total
  split at before <;> split at total <;> split <;> omega

end Caller

/-! ## Runs -/

/-- The non-empty regions of the variables and of the free list. -/
def MmStruct.regions (mm : MmStruct) : List VmRg :=
  (mm.tableRegions ++ mm.freeRegions).filter fun rg => rg.rgStart ≠ rg.rgEnd

/-- The regions of a process cut the addresses below its break into pieces. -/
structure MmStruct.Partition (mm : MmStruct) : Prop where
  apart : (spans mm.regions).Pairwise Apart
  union : ∀ x : Nat, x < mm.mmap.sbrk.toNat ↔
    ∃ rg ∈ mm.regions, rg.rgStart.toNat ≤ x ∧ x < rg.rgEnd.toNat

/-- The cover of an address adds up over the table and the free list. -/
theorem MmStruct.covers_regions (mm : MmStruct) (x : Nat) : covers (spans mm.regions) x =
    covers (spans mm.tableRegions) x + covers (spans mm.freeRegions) x := by
  have kept : spans mm.regions =
      (spans (mm.tableRegions ++ mm.freeRegions)).filter fun span => span.1 ≠ span.2 := by
    rw [regions, spans, spans, List.filter_map]
    congr 1
    apply List.filter_congr
    intro rg _
    simp only [Function.comp_apply, VmRg.span, ne_eq, BitVec.toNat_inj]
  rw [kept, covers_filter _ x fun span _ dropped => covers_empty ?_ x, spans_append, covers_append]
  have same : span.1 = span.2 := by simpa using dropped
  exact same.ge

/-- The free list that `init_mm` makes holds no region. -/
theorem MmStruct.freeList_initMm : FreeList MmStruct.zeroed.initMm [] := by
  refine ⟨[0], ⟨⟨rfl, rfl⟩, List.nodup_singleton 0, fun a member => ?_⟩, rfl,
    fun rg member => absurd member List.not_mem_nil⟩
  rw [List.mem_singleton.mp member]
  decide

/-- A call that changes the regions of a process. -/
inductive RegionCall where
  | pgalloc (size regIndex : BitVec 32)
  | pgfreeData (regIndex : BitVec 32)

namespace Caller

/-- The process after a call that returns. -/
def regionCall (c : Caller) : RegionCall → Option Caller
  | .pgalloc size regIndex => (c.pgalloc size regIndex).map Prod.snd
  | .pgfreeData regIndex => (c.pgfreeData regIndex).map Prod.snd

/-- A register names a variable, and an allocation has a positive `int` size and an
empty variable as its target. -/
def Admissible (c : Caller) : RegionCall → Prop
  | .pgalloc size regIndex => 1 ≤ size.toNat ∧ size.toNat < 2 ^ 31 ∧ regIndex.toNat < 30 ∧
      c.mm.symrgtbl regIndex.toNat = ⟨0, 0⟩
  | .pgfreeData regIndex => regIndex.toNat < 30

/-- The region to be freed does not have its lower neighbour right behind its upper
neighbour on the free list. -/
def Unwedged (c : Caller) : RegionCall → Prop
  | .pgalloc _ _ => True
  | .pgfreeData regIndex =>
      MmStruct.wedged (c.mm.symrgtbl regIndex.toNat) c.mm.freeRegions = false

/-- The size and the register of the call decide, so that the condition can be evaluated. -/
instance (c : Caller) (call : RegionCall) : Decidable (c.Admissible call) :=
  match call with
  | .pgalloc _ _ => inferInstanceAs (Decidable (_ ∧ _ ∧ _ ∧ _))
  | .pgfreeData _ => inferInstanceAs (Decidable (_ < _))

/-- The free list is searched for the two neighbours, so that the condition can be evaluated. -/
instance (c : Caller) (call : RegionCall) : Decidable (c.Unwedged call) :=
  match call with
  | .pgalloc _ _ => .isTrue trivial
  | .pgfreeData _ => inferInstanceAs (Decidable (_ = _))

/-- A call that returns and leaves the break below 2^31. -/
def RegionStep (c : Caller) (call : RegionCall) (c' : Caller) : Prop :=
  c.regionCall call = some c' ∧ c'.mm.mmap.sbrk.toNat < 2 ^ 31

/-- The process after such a call, whatever the call returned. -/
def regionNext (c : Caller) (call : RegionCall) : Option Caller :=
  (c.regionCall call).filter fun c' => c'.mm.mmap.sbrk.toNat < 2 ^ 31

/-- The executable call is a step of the relation. -/
theorem regionStep_of_regionNext (c : Caller) (call : RegionCall) (c' : Caller)
    (taken : c.regionNext call = some c') : c.RegionStep call c' := by
  obtain ⟨moved, low⟩ := Option.filter_eq_some_iff.mp taken
  exact ⟨moved, of_decide_eq_true low⟩

/-- Every address below the break is covered once, and no other is. -/
structure Tiled (c : Caller) (regions : List VmRg) : Prop where
  list : FreeList c.mm regions
  sbrkLow : c.mm.mmap.sbrk.toNat < 2 ^ 31
  covered : ∀ x, c.mm.cover regions x = if x < c.mm.mmap.sbrk.toNat then 1 else 0

namespace Tiled

variable {c : Caller} {regions : List VmRg}

/-- No region of a tiled address space ends beyond the range of 32 bits. -/
theorem low (tiled : Tiled c regions) : ∀ rg ∈ regions, rg.rgEnd.toNat < 2 ^ 32 :=
  packed_low tiled.list (fun x => (tiled.covered x).le) tiled.sbrkLow

/-- Every admissible call that is not wedged returns. -/
theorem returns (tiled : Tiled c regions) {call : RegionCall} (admissible : c.Admissible call)
    (unwedged : c.Unwedged call) : (c.regionCall call).isSome = true := by
  cases call with
  | pgalloc size r =>
      obtain ⟨-, small, inside, -⟩ := admissible
      obtain ⟨c', result, -⟩ :=
        pgalloc_cover tiled.list tiled.low tiled.sbrkLow small inside
      rw [regionCall, result, Option.map_some, Option.isSome_some]
  | pgfreeData r =>
      obtain ⟨c', regions', result, -⟩ := pgfreeData_cover tiled.list admissible unwedged
      rw [regionCall, result, Option.map_some, Option.isSome_some]

/-- One call moves addresses between the variables, the free list and the space behind
the break. -/
theorem step (tiled : Tiled c regions) {call : RegionCall} {c' : Caller}
    (admissible : c.Admissible call) (unwedged : c.Unwedged call) (taken : c.RegionStep call c') :
    ∃ regions', Tiled c' regions' := by
  obtain ⟨moved, sbrkLow⟩ := taken
  cases call with
  | pgalloc size r =>
      obtain ⟨-, small, inside, empty⟩ := admissible
      obtain ⟨after, result, -, -, spec⟩ :=
        pgalloc_cover tiled.list tiled.low tiled.sbrkLow small inside
      obtain rfl : after = c' := by simpa only [regionCall, result, Option.map_some,
        Option.some.injEq] using moved
      obtain ⟨regions', list, grows, covered⟩ := spec sbrkLow
      refine ⟨regions', list, sbrkLow, fun x => ?_⟩
      have nothing : covers [(c.mm.symrgtbl r.toNat).span] x = 0 := by
        rw [empty]
        exact covers_empty (by decide) x
      have total := covered x
      rw [nothing, tiled.covered x, Nat.add_zero] at total
      rw [total, covers_singleton]
      simp only [holds_iff]
      split <;> split <;> split <;> omega
  | pgfreeData r =>
      obtain ⟨after, regions', result, -, same, -, list, covered⟩ :=
        pgfreeData_cover tiled.list admissible unwedged
      obtain rfl : after = c' := by simpa only [regionCall, result, Option.map_some,
        Option.some.injEq] using moved
      exact ⟨regions', list, sbrkLow, fun x => by rw [covered x, tiled.covered x, same]⟩

/-- Covering every address below the break once is cutting it into pieces. -/
theorem partition (tiled : Tiled c regions) : c.mm.Partition := by
  have counted : ∀ x, covers (spans c.mm.regions) x =
      if x < c.mm.mmap.sbrk.toNat then 1 else 0 := by
    intro x
    have marker : covers [(⟨0, 0⟩ : VmRg).span] x = 0 := covers_empty (by decide) x
    have free : covers (spans c.mm.freeRegions) x = covers (spans regions) x := by
      rw [tiled.list.freeRegions_eq, spans_append, covers_append]
      exact Nat.add_eq_left.mpr marker
    rw [MmStruct.covers_regions, free]
    exact tiled.covered x
  refine ⟨pairwise_apart fun x => ?_, fun x => ?_⟩
  · rw [counted x]
    split <;> omega
  · have inRegion : (∃ rg ∈ c.mm.regions, rg.rgStart.toNat ≤ x ∧ x < rg.rgEnd.toNat) ↔
        0 < covers (spans c.mm.regions) x := by
      simp only [covers_pos, spans, List.mem_map, exists_exists_and_eq_and, holds_iff, VmRg.span]
    rw [inRegion, counted x]
    split <;> omega

/-- A process whose `init_mm` ran on zero-filled memory has an empty address space. -/
theorem start (fresh : c.mm = MmStruct.zeroed.initMm) : Tiled c [] where
  list := by
    rw [fresh]
    exact MmStruct.freeList_initMm
  sbrkLow := by
    rw [fresh]
    decide
  covered := fun x => by
    have empty : ∀ table : List VmRg, (∀ rg ∈ table, rg = ⟨0, 0⟩) → covers (spans table) x = 0 := by
      intro table zero
      apply Nat.eq_zero_of_not_pos
      intro positive
      obtain ⟨span, member, inside⟩ := covers_pos.mp positive
      obtain ⟨rg, listed, rfl⟩ := List.mem_map.mp member
      rw [zero rg listed] at inside
      exact absurd (holds_iff.mp inside) (by simp [VmRg.span])
    have sbrk : c.mm.mmap.sbrk.toNat = 0 := by
      rw [fresh]
      decide
    have table : ∀ rg ∈ c.mm.tableRegions, rg = ⟨0, 0⟩ := by
      intro rg member
      rw [fresh] at member
      obtain ⟨index, -, rfl⟩ := List.mem_map.mp member
      rfl
    rw [MmStruct.cover, empty _ table, sbrk, if_neg (Nat.not_lt_zero x)]
    rfl

end Tiled

end Caller

/-- **The regions of a process partition its address space** in every run whose frees
are not wedged: the non-empty regions are disjoint and make up `[0, sbrk)`, two variables
share no byte, and the next such call returns. -/
theorem address_space_partitioned {c c' : Caller} (fresh : c.mm = MmStruct.zeroed.initMm)
    {calls : List RegionCall} (run : Run (Guarded Caller.RegionStep fun before call =>
      before.Admissible call ∧ before.Unwedged call) c calls c') :
    c'.mm.Partition ∧
      (∀ left right : Nat, left < 30 → right < 30 → left ≠ right →
        Apart (c'.mm.symrgtbl left).span (c'.mm.symrgtbl right).span) ∧
      ∀ call, c'.Admissible call → c'.Unwedged call → (c'.regionCall call).isSome = true := by
  obtain ⟨regions, tiled⟩ := run.invariant (fun c => ∃ regions, Caller.Tiled c regions)
    (fun _ _ _ ⟨_, tiled⟩ ⟨⟨admissible, unwedged⟩, taken⟩ => tiled.step admissible unwedged taken)
    ⟨[], .start fresh⟩
  exact ⟨tiled.partition, fun _ _ leftInside rightInside different =>
    MmStruct.variables_apart (fun x => (tiled.covered x).le) leftInside rightInside different,
    fun _ admissible unwedged => tiled.returns admissible unwedged⟩

/-- A process with 1024 bytes of RAM and of swap. -/
def smallProcess : Caller := (Sys.boot Unit 1024 1024).caller ()

/-- Three variables of 100 bytes are allocated, and the middle one is freed after the
lower and the upper one. -/
def threeFreed : List RegionCall :=
  [.pgalloc 100 0, .pgalloc 100 1, .pgalloc 100 2, .pgfreeData 0, .pgfreeData 2, .pgfreeData 1]

/-- The process before the middle variable is freed. -/
def twoFreed : Caller :=
  (follow (admitted (fun c call => c.Admissible call ∧ c.Unwedged call) Caller.regionNext)
    smallProcess (threeFreed.take 5)).get (by decide +kernel)

/-- Two regions that were freed are on the list, and the third one is still allocated. -/
theorem address_space_partitioned_two_freed :
    spans twoFreed.mm.regions = [(100, 200), (200, 300), (0, 100)] ∧ twoFreed.mm.Partition := by
  refine ⟨by decide +kernel, ?_⟩
  have run : Run (Guarded Caller.RegionStep fun before call =>
      before.Admissible call ∧ before.Unwedged call) smallProcess (threeFreed.take 5) twoFreed :=
    Run.of_follow_admitted _ Caller.regionStep_of_regionNext _ _ _
  exact (address_space_partitioned rfl run).1

/-- The process after the middle variable is freed. -/
def middleFreed : Caller :=
  (follow (admitted Caller.Admissible Caller.regionNext) smallProcess threeFreed).get
    (by decide +kernel)

/-- When the middle variable is freed, the lower one stays on the list as well. -/
theorem wedged_free_overlaps : ¬ ∀ (c c' : Caller) (calls : List RegionCall),
    c.mm = MmStruct.zeroed.initMm → Run (Guarded Caller.RegionStep Caller.Admissible) c calls c' →
      c'.mm.Partition := by
  intro claim
  have run : Run (Guarded Caller.RegionStep Caller.Admissible) smallProcess threeFreed
      middleFreed := Run.of_follow_admitted _ Caller.regionStep_of_regionNext _ _ _
  have overlap : spans middleFreed.mm.regions = [(0, 300), (0, 100)] := by decide +kernel
  have apart := (claim _ _ _ rfl run).apart
  rw [overlap] at apart
  exact List.rel_of_pairwise_cons apart List.mem_cons_self 0 (by decide)

end PagedOs
