import PagedOs.Memory.Break
import PagedOs.Memory.Swapping

/-! # The bytes of a process

What a process reads back from its memory. The address of a byte is decoded twice,
into a page and into the frame that page is in at the time, so the bytes of a process
are those of its pages. They stay what they are while the area grows, while regions
come and go and while pages are swapped.
-/

namespace PagedOs

open Spans Transition

variable {ι : Type*}

/-! ## The layout of an address space -/

/-- Every address below the break is on a mapped page, and no two regions share one. -/
structure MmStruct.Laid (mm : MmStruct) : Prop where
  low : mm.mmap.vmEnd.toNat < 2 ^ 22
  aligned : mm.mmap.vmEnd.toNat = (mm.mmap.sbrk.toNat + 255) / 256 * 256
  mapped : ∀ pgn, pgn * 256 < mm.mmap.vmEnd.toNat → Mapped (mm.pgd pgn)
  packed : ∃ regions, FreeList mm regions ∧
    ∀ x, mm.cover regions x ≤ if x < mm.mmap.sbrk.toNat then 1 else 0

namespace MmStruct

/-- An address on one of the pages of the area. -/
def Within (mm : MmStruct) (x : Int) : Prop := 0 ≤ x ∧ x < mm.mmap.vmEnd.toNat

/-- Two comparisons decide whether an address is within the area. -/
instance (mm : MmStruct) (x : Int) : Decidable (mm.Within x) := inferInstanceAs (Decidable (_ ∧ _))

namespace Laid

variable {mm : MmStruct}

/-- The break never goes beyond the end of the area. -/
theorem sbrk_le (laid : mm.Laid) : mm.mmap.sbrk.toNat ≤ mm.mmap.vmEnd.toNat := by
  have := laid.aligned
  omega

/-- A laid out address space has its pages mapped up to the end of the area. -/
theorem backed (laid : mm.Laid) : mm.Backed := ⟨laid.low.le, laid.aligned, laid.mapped⟩

/-- A fresh address space is laid out: it has no page and no region. -/
theorem start : MmStruct.zeroed.initMm.Laid where
  low := by decide
  aligned := by decide
  mapped := fun pgn inside => absurd inside (Nat.not_lt_zero _)
  packed := by
    have tiled : Caller.Tiled ⟨MmStruct.zeroed.initMm, .zeroed, .zeroed⟩ [] := .start rfl
    exact ⟨[], tiled.list, fun x => (tiled.covered x).le⟩

/-- Addresses of the area with the same page and offset are the same. -/
theorem within_injective (laid : mm.Laid) {x y : Int} (xInside : mm.Within x)
    (yInside : mm.Within y) (page : pagingPgn x = pagingPgn y)
    (offset : pagingOffst x = pagingOffst y) : x = y := by
  have xPage := pagingPgn_eq x
  have yPage := pagingPgn_eq y
  have := laid.low
  rw [pagingOffst_eq, pagingOffst_eq] at offset
  obtain ⟨xNonneg, xBelow⟩ := xInside
  obtain ⟨yNonneg, yBelow⟩ := yInside
  omega

theorem variable_lt (laid : mm.Laid) {r : Nat} (inside : r < 30) {x : Nat}
    (held : holds (mm.symrgtbl r).span x = true) : x < mm.mmap.sbrk.toNat := by
  obtain ⟨regions, -, packed⟩ := laid.packed
  have covered : 0 < covers (spans mm.tableRegions) x :=
    covers_pos.mpr ⟨_, List.mem_map.mpr ⟨_, List.mem_map.mpr ⟨r, List.mem_range.mpr inside, rfl⟩,
      rfl⟩, held⟩
  have total := packed x
  rw [cover] at total
  by_contra beyond
  rw [if_neg beyond] at total
  omega

/-- The regions of two registers have no byte in common. -/
theorem variables_apart (laid : mm.Laid) {left right : Nat} (leftInside : left < 30)
    (rightInside : right < 30) (different : left ≠ right) :
    Apart (mm.symrgtbl left).span (mm.symrgtbl right).span := by
  obtain ⟨regions, -, packed⟩ := laid.packed
  exact MmStruct.variables_apart packed leftInside rightInside different

/-- The pages matter for the layout only by their entries, the area and the break. -/
theorem congr (laid : mm.Laid) {mm' : MmStruct} (mapped : ∀ pgn, pgn * 256 < mm.mmap.vmEnd.toNat →
    Mapped (mm.pgd pgn) → Mapped (mm'.pgd pgn)) (same : SameRegions mm mm') : mm'.Laid where
  low := by
    rw [same.mmap]
    exact laid.low
  aligned := by
    rw [same.mmap]
    exact laid.aligned
  mapped := fun pgn inside => by
    rw [same.mmap] at inside
    exact mapped pgn inside (laid.mapped pgn inside)
  packed := by
    obtain ⟨regions, list, packed⟩ := laid.packed
    refine ⟨regions, FreeList_congr list same.rgHeap (by rw [same.mmap]), fun x => ?_⟩
    rw [cover_congr same.symrgtbl, same.mmap]
    exact packed x

end Laid

end MmStruct

namespace Caller

variable {c : Caller}

/-- What a successful growth of the area does to its pages. -/
structure Grows (c : Caller) (size : Nat) (c' : Caller) : Prop where
  vmEnd : c'.mm.mmap.vmEnd.toNat = (c.mm.mmap.sbrk.toNat + size + 255) / 256 * 256
  kept : ∀ pgn, pgn * 256 < c.mm.mmap.vmEnd.toNat → c'.mm.pgd pgn = c.mm.pgd pgn
  mapped : ∀ pgn, pgn * 256 < c'.mm.mmap.vmEnd.toNat → Mapped (c'.mm.pgd pgn)
  ram : c'.mram.storage = c.mram.storage
  swap : c'.activeMswp.storage = c.activeMswp.storage

/-- The frames and the address range suffice for a growth of the area. -/
def CanGrow (c : Caller) (size : Int) : Prop :=
  c.areaFull = false ∧ c.framesLeft size = true ∧ c.framesFit size = true

/-- The free frames are counted, so that the condition can be evaluated. -/
instance (c : Caller) (size : Int) : Decidable (c.CanGrow size) :=
  inferInstanceAs (Decidable (_ ∧ _ ∧ _))

/-- A free region is large enough, or the area can grow as far as the allocation needs. -/
def HasRoom (c : Caller) (size : BitVec 32) : Prop :=
  (c.mm.freeRegions.any fun rg => rg.rgStart.toNat + size.toNat ≤ rg.rgEnd.toNat) = true ∨
    c.mm.mmap.sbrk.toNat + size.toNat ≤ 2 ^ 22 - 256 ∧
      (c.exceedsPage size.toNat = true → c.CanGrow size.toNat)

/-- The free regions are searched and the free frames counted, so that the condition can be
evaluated. -/
instance (c : Caller) (size : BitVec 32) : Decidable (c.HasRoom size) :=
  inferInstanceAs (Decidable (_ ∨ _ ∧ (_ → _)))

/-- The fault on a page finds a victim and a free swap frame, and the entry of the page
names the frame it will get: `pg_getpage` returns the frame number that it decoded before
the fault. -/
def FaultServed (c : Caller) (pgn : Nat) : Prop :=
  match c.mm.findVictimPage, c.activeMswp.freeFpList with
  | some vicpgn, swpfpn :: _ =>
      swpfpn < 2 ^ 21 ∧ pagingFpn (c.mm.pgd pgn) = pagingFpn (c.mm.pgd vicpgn)
  | _, _ => False

/-- The victim and the free list of the swap device are looked up, so that the condition can be
evaluated. -/
instance (c : Caller) (pgn : Nat) : Decidable (c.FaultServed pgn) := by
  unfold FaultServed
  split <;> infer_instance

/-- An address of the area whose page is in RAM or can be fetched. -/
def Served (c : Caller) (x : Int) : Prop :=
  c.mm.Within x ∧
    (pagingPagePresent (c.mm.pgd (pagingPgn x)) = true ∨ c.FaultServed (pagingPgn x))

/-- The entry of the page is looked up, so that the condition can be evaluated. -/
instance (c : Caller) (x : Int) : Decidable (c.Served x) :=
  inferInstanceAs (Decidable (_ ∧ (_ ∨ _)))

theorem Served.fault {x : Int} (served : c.Served x)
    (absent : pagingPagePresent (c.mm.pgd (pagingPgn x)) = false) :
    ∃ vicpgn swpfpn rest, c.mm.findVictimPage = some vicpgn ∧
      c.activeMswp.freeFpList = swpfpn :: rest ∧ swpfpn < 2 ^ 21 ∧
        pagingFpn (c.mm.pgd (pagingPgn x)) = pagingFpn (c.mm.pgd vicpgn) := by
  have fault := served.2.resolve_left (by simp [absent])
  unfold FaultServed at fault
  split at fault
  · rename_i vicpgn swpfpn rest victim free
    exact ⟨vicpgn, swpfpn, rest, victim, free, fault⟩
  · exact fault.elim

/-- The frame number returned is that of the frame the page is in afterwards. -/
theorem pgGetpage_served (c : Caller) (u : Uninit) {x : Int} (served : c.Served x) :
    (c.pgGetpage u (pagingPgn x)).1 =
        some (pagingFpn ((c.pgGetpage u (pagingPgn x)).2.mm.pgd (pagingPgn x))) ∧
      MmStruct.SameRegions c.mm (c.pgGetpage u (pagingPgn x)).2.mm := by
  rcases c.pgGetpage_cases u (pagingPgn x) with
    ⟨-, result⟩ | ⟨absent, nobody, -⟩ | ⟨vicpgn, absent, victim, -, result⟩
  · rw [result]
    exact ⟨rfl, .refl _⟩
  · obtain ⟨vicpgn, -, -, victim, -⟩ := served.fault absent
    rw [nobody] at victim
    cases victim
  · obtain ⟨found, -, -, sameVictim, -, -, frame⟩ := served.fault absent
    obtain rfl : vicpgn = found := Option.some_inj.mp (victim.symm.trans sameVictim)
    have entry : (c.faulted u (pagingPgn x) vicpgn).mm.pgd (pagingPgn x) =
        pteSetFpn (c.mm.pgd (pagingPgn x)) (pagingFpn (c.mm.pgd vicpgn)) :=
      MmStruct.exchanged_pgd_self ..
    rw [result]
    simp only [entry, pagingFpn_pteSetFpn _ (pagingFpn_nonneg _) (pagingFpn_lt _), frame, true_and]
    exact ⟨rfl, rfl, rfl⟩

/-- `pgread` and `pgwrite` reject the offset: it exceeds the length of the region. -/
def rejects (c : Caller) (r o : BitVec 32) : Bool := o > BitVec.ofInt 32 (c.sizeRg r)

/-- The address that `__read` and `__write` access. -/
def accessed (c : Caller) (r o : BitVec 32) : Int :=
  toInt ((c.mm.symrgtbl r.toNat).rgStart + toULong (toInt o.toNat)).toNat

/-- A register below 30 is found in the table. -/
theorem getSymrgById_register (mm : MmStruct) {r : BitVec 32} (inside : r.toNat < 30) :
    mm.getSymrgById (toInt r.toNat) = some (mm.symrgtbl r.toNat) := by
  rw [MmStruct.getSymrgById_passed mm (by omega), register_eq inside]

/-- A read that the bounds check rejects reports it and touches nothing. -/
theorem pgread_rejected {r o : BitVec 32} (rejected : c.rejects r o = true) (u : Uninit)
    (data : Byte) : c.pgread u r o data = (-1, data, c) := by
  have offset : o > BitVec.ofInt 32 (c.sizeRg r) := of_decide_eq_true rejected
  simp only [pgread, offset, ↓reduceIte]

/-- A write that the bounds check rejects reports it and touches nothing. -/
theorem pgwrite_rejected {r o : BitVec 32} (rejected : c.rejects r o = true) (u : Uninit)
    (value : Byte) : c.pgwrite u value r o = (-1, c) := by
  have offset : o > BitVec.ofInt 32 (c.sizeRg r) := of_decide_eq_true rejected
  simp only [pgwrite, offset, ↓reduceIte]

/-- A read that the bounds check lets through is the one of `__read`. -/
theorem pgread_not_rejected {r o : BitVec 32} (accepted : c.rejects r o = false) (u : Uninit)
    (data : Byte) : c.pgread u r o data = c.read u (toInt r.toNat) (toInt o.toNat) data := by
  have offset : ¬ o > BitVec.ofInt 32 (c.sizeRg r) := of_decide_eq_false accepted
  simp only [pgread, offset, ↓reduceIte]

/-- A write that the bounds check lets through is the one of `__write`. -/
theorem pgwrite_not_rejected {r o : BitVec 32} (accepted : c.rejects r o = false) (u : Uninit)
    (value : Byte) : c.pgwrite u value r o = c.write u (toInt r.toNat) (toInt o.toNat) value := by
  have offset : ¬ o > BitVec.ofInt 32 (c.sizeRg r) := of_decide_eq_false accepted
  simp only [pgwrite, offset, ↓reduceIte]

/-- A read that is let through reports success, whatever `pg_getval` returns. -/
theorem pgread_accepted {r o : BitVec 32} (inside : r.toNat < 30) (accepted : c.rejects r o = false)
    (u : Uninit) (data : Byte) :
    c.pgread u r o data = (0, (c.pgGetval u (c.accessed r o) data).2) := by
  simp only [pgread_not_rejected accepted, read, getSymrgById_register c.mm inside, accessed]

/-- A write that is let through reports success, whatever `pg_setval` returns. -/
theorem pgwrite_accepted {r o : BitVec 32} (inside : r.toNat < 30)
    (accepted : c.rejects r o = false) (u : Uninit) (value : Byte) :
    c.pgwrite u value r o = (0, (c.pgSetval u (c.accessed r o) value).2) := by
  simp only [pgwrite_not_rejected accepted, write, getSymrgById_register c.mm inside, accessed]

/-- A growth with frames for its pages adds pages behind the end of the area, and keeps the others.
-/
theorem incVmaLimit_grows (laid : c.mm.Laid) {size : Nat}
    (room : c.mm.mmap.sbrk.toNat + size ≤ 2 ^ 22 - 256) (can : c.CanGrow size) :
    c.Grows size (c.incVmaLimit size).2 := by
  obtain ⟨notFull, left, -⟩ := can
  have room : c.mm.mmap.sbrk.toNat + size ≤ 2 ^ 22 := by omega
  obtain ⟨-, grew⟩ := incVmaLimit_grew laid.backed room notFull left
  have vmEnd := laid.backed.vmEnd_eq
  exact ⟨grew.vmEnd, fun pgn inside => grew.kept pgn (.inl (by omega)),
    (grew.backed laid.backed room).mapped, grew.ramCells, grew.swapCells⟩

/-- A region that ends on the page the break is on needs no page. -/
theorem moveSbrk_grows (laid : c.mm.Laid) {size : Nat}
    (room : c.mm.mmap.sbrk.toNat + size ≤ 2 ^ 22 - 256) (fits : c.exceedsPage size = false) :
    c.Grows size (c.moveSbrk size) := by
  obtain ⟨backed, -, moved⟩ := moveSbrk_backed laid.backed (by omega) fits
  exact ⟨by rw [backed.aligned, moved], fun pgn _ => by rw [moveSbrk_pgd], backed.mapped, rfl, rfl⟩

/-- The end of `__alloc` adds pages behind the end of the area where it grows, and keeps the
others. -/
theorem atBreak_grows (laid : c.mm.Laid) {size : Nat}
    (room : c.mm.mmap.sbrk.toNat + size ≤ 2 ^ 22 - 256)
    (can : c.exceedsPage size = true → c.CanGrow size) : c.Grows size (c.atBreak size) := by
  unfold atBreak
  split
  · rename_i exceeds
    exact incVmaLimit_grows laid room (can exceeds)
  · rename_i fits
    exact moveSbrk_grows laid room (by simpa using fits)

end Caller

/-! ## The bytes -/

namespace Sys

/-- The byte at an address of a process, on whatever device its page is. -/
def byteAt (s : Sys ι) (P : ι) (x : Int) : Byte :=
  s.content (P, ⟨pagingPgn x, pagingPgn_lt x⟩)
    ⟨(pagingOffst x).toNat, by rw [pagingOffst_eq]; omega⟩

/-- Frames are exclusive and address spaces are laid out. -/
structure Sound (s : Sys ι) : Prop where
  coherent : s.Coherent
  laid : ∀ P, (s.mm P).Laid

/-- No process lost a page or a byte. -/
def Keeps (s t : Sys ι) : Prop :=
  ∀ P x, (s.mm P).Within x → (t.mm P).Within x ∧ t.byteAt P x = s.byteAt P x

variable {s : Sys ι}

theorem Keeps.refl (s : Sys ι) : Keeps s s := fun _ _ inside => ⟨inside, rfl⟩

/-- A byte on a page in RAM is in the cell that `pg_getval` and `pg_setval` access. -/
theorem byteAt_present {P : ι} {x : Int}
    (present : pagingPagePresent ((s.mm P).pgd (pagingPgn x)) = true) :
    s.byteAt P x = s.mram.storage (s.physical P x) := by
  have offset : ((pagingOffst x).toNat : Int) = pagingOffst x := by
    rw [pagingOffst_eq]
    omega
  simp only [byteAt, content, pte, present, ↓reduceIte, Memphy.page, physical, phyaddr_eq, offset]

variable [DecidableEq ι] {P : ι}

/-- The system is sound after a process has made a call that keeps the frames coherent and its own
regions laid out. -/
theorem Sound.put (sound : Sound s) {c : Caller} (coherent : (s.put P c).Coherent)
    (laid : c.mm.Laid) : Sound (s.put P c) where
  coherent := coherent
  laid := fun Q => by
    by_cases same : Q = P
    · subst same
      rw [put_mm_self]
      exact laid
    · rw [put_mm_of_ne s same]
      exact sound.laid Q

/-- The bytes of all processes after one has run, in terms of its pages. -/
theorem keeps_put {c : Caller} (laid : ∀ Q, (s.mm Q).Laid)
    (area : (s.mm P).mmap.vmEnd.toNat ≤ c.mm.mmap.vmEnd.toNat)
    (contents : ∀ page : PageId ι, (page.2 : Nat) * 256 < (s.mm page.1).mmap.vmEnd.toNat →
      (s.put P c).content page = s.content page) : Keeps s (s.put P c) := by
  intro Q x inside
  refine ⟨?_, congrFun (contents _ ?_) _⟩
  · by_cases same : Q = P
    · subst same
      rw [put_mm_self]
      exact ⟨inside.1, inside.2.trans_le (by exact_mod_cast area)⟩
    · rw [put_mm_of_ne s same]
      exact inside
  · have page := pagingPgn_eq x
    have := (laid Q).low
    obtain ⟨nonneg, below⟩ := inside
    simp only
    omega

section SamePages

variable {c c' : Caller}

/-- A call that leaves the page table and the devices leaves all entries. -/
theorem put_pte_samePages (same : c.SamePages c') (page : PageId ι) :
    (s.put P c').pte page = (s.put P c).pte page := by
  by_cases self : page.1 = P
  · rw [put_pte_self self, put_pte_self self, same.pgd]
  · rw [put_pte_of_ne self, put_pte_of_ne self]

/-- A call that leaves the page table and the devices keeps the frames coherent. -/
theorem Coherent.samePages (coherent : Coherent (s.put P c)) (same : c.SamePages c') :
    Coherent (s.put P c') where
  ram := by
    have ledger := coherent.ram
    simp only [Sys.put, owners_congr same.pgd, same.mram] at ledger ⊢
    exact ledger
  swap := by
    have ledger := coherent.swap
    simp only [Sys.put, owners_congr same.pgd, same.activeMswp] at ledger ⊢
    exact ledger
  ramRandom := (congrArg Memphy.rdmflg same.mram).trans coherent.ramRandom
  swapRandom := (congrArg Memphy.rdmflg same.activeMswp).trans coherent.swapRandom
  listed := fun Q => by
    have listed := coherent.listed Q
    by_cases self : Q = P
    · subst self
      rw [put_mm_self] at listed ⊢
      rw [same.fifoPgn]
      exact listed
    · rw [put_mm_of_ne s self] at listed ⊢
      exact listed

/-- A call that leaves the page table and the devices leaves the contents of all pages. -/
theorem content_samePages (same : c.SamePages c') (page : PageId ι) :
    (s.put P c').content page = (s.put P c).content page := by
  refine content_congr (put_pte_samePages same page) (fun _ => ?_) fun _ => ?_
  · rw [put_mram, same.mram, put_mram]
  · rw [put_activeMswp, same.activeMswp, put_activeMswp]

end SamePages

/-- A growth of the area keeps the bytes there are. -/
theorem content_grows {c : Caller} {size : Nat}
    (grows : (s.caller P).Grows size c) {page : PageId ι}
    (inside : (page.2 : Nat) * 256 < (s.mm page.1).mmap.vmEnd.toNat) :
    (s.put P c).content page = s.content page := by
  refine content_congr ?_ (fun _ => ?_) fun _ => ?_
  · by_cases self : page.1 = P
    · rw [put_pte_self self, pte, self]
      exact grows.kept _ (self ▸ inside)
    · exact put_pte_of_ne self c
  · funext offset
    rw [Memphy.page, put_mram, grows.ram, Memphy.page]
    rfl
  · funext offset
    rw [Memphy.page, put_activeMswp, grows.swap, Memphy.page]
    rfl

/-- Making room at the break, with frames and addresses enough for it. -/
theorem Coherent.atBreak (coherent : Coherent s) (laid : (s.mm P).Laid) {size : Nat}
    (room : (s.mm P).mmap.sbrk.toNat + size ≤ 2 ^ 22 - 256)
    (can : (s.caller P).exceedsPage size = true → (s.caller P).CanGrow size) :
    Coherent (s.put P ((s.caller P).atBreak size)) := by
  have grows := Caller.atBreak_grows (c := s.caller P) laid room can
  have high : ((s.caller P).atBreak size).mm.mmap.vmEnd.toNat < 2 ^ 22 := by
    rw [grows.vmEnd]
    simp only [caller]
    omega
  unfold Caller.atBreak at high ⊢
  split at high
  · rename_i exceeds
    rw [if_pos exceeds]
    exact coherent.incVmaLimit P size laid.low high (can exceeds).2.2
  · rename_i fits
    rw [if_neg fits]
    have same : (s.caller P).SamePages ((s.caller P).moveSbrk size) :=
      ⟨Caller.moveSbrk_pgd .., Caller.moveSbrk_fifoPgn .., Caller.moveSbrk_vmEnd .., rfl, rfl⟩
    have self : Coherent (s.put P (s.caller P)) := by rwa [put_caller]
    exact self.samePages same

/-- A call that neither touches a page nor moves the break keeps every byte. -/
theorem Sound.sameBreak (sound : Sound s) {c : Caller} (same : (s.caller P).SamePages c)
    (sbrk : c.mm.mmap.sbrk = (s.mm P).mmap.sbrk)
    (packed : ∃ regions, FreeList c.mm regions ∧
      ∀ x, c.mm.cover regions x ≤ if x < c.mm.mmap.sbrk.toNat then 1 else 0) :
    Sound (s.put P c) ∧ Keeps s (s.put P c) := by
  have laid := sound.laid P
  have self : Coherent (s.put P (s.caller P)) := by
    rw [put_caller]
    exact sound.coherent
  have area : c.mm.mmap.vmEnd = (s.mm P).mmap.vmEnd := same.vmEnd
  have table : c.mm.pgd = (s.mm P).pgd := same.pgd
  refine ⟨sound.put (self.samePages same) ⟨?_, ?_, fun pgn inside => ?_, packed⟩,
    keeps_put sound.laid (congrArg BitVec.toNat area).ge fun page _ => ?_⟩
  · rw [area]
    exact laid.low
  · rw [area, sbrk]
    exact laid.aligned
  · rw [area] at inside
    rw [table]
    exact laid.mapped pgn inside
  · rw [content_samePages same, put_caller]

/-- **An allocation that finds room** keeps every byte. -/
theorem Sound.pgalloc (sound : Sound s) {size r : BitVec 32} (positive : 1 ≤ size.toNat)
    (small : size.toNat < 2 ^ 31) (inside : r.toNat < 30)
    (room : (s.caller P).HasRoom size) :
    ∃ c, (s.caller P).pgalloc size r = some (0, c) ∧ Sound (s.put P c) ∧ Keeps s (s.put P c) ∧
      ∀ other : Nat, other ≠ r.toNat → c.mm.symrgtbl other = (s.mm P).symrgtbl other := by
  have laid := sound.laid P
  have low := laid.low
  have below := laid.sbrk_le
  obtain ⟨regions, list, packed⟩ := laid.packed
  have sbrkLow : (s.caller P).mm.mmap.sbrk.toNat < 2 ^ 31 := by
    simp only [caller]
    omega
  have ends := Caller.packed_low list packed sbrkLow
  obtain ⟨c, result, pages, others, -⟩ := Caller.pgalloc_cover (c := s.caller P) list ends sbrkLow
    small inside
  have packedAfter := Caller.pgalloc_packed list packed sbrkLow small inside result
  refine ⟨c, result, ?_⟩
  rcases pages with ⟨same, sbrk⟩ | ⟨none_fits, same, sbrk⟩
  · have sbrk : c.mm.mmap.sbrk = (s.mm P).mmap.sbrk := sbrk
    obtain ⟨sound', keeps⟩ := sound.sameBreak same sbrk <| packedAfter <| by
      rw [sbrk]
      omega
    exact ⟨sound', keeps, others⟩
  · obtain ⟨fits, can⟩ : (s.mm P).mmap.sbrk.toNat + size.toNat ≤ 2 ^ 22 - 256 ∧
        ((s.caller P).exceedsPage size.toNat = true → (s.caller P).CanGrow size.toNat) := by
      apply room.resolve_left
      intro found
      obtain ⟨rg, member, enough⟩ := List.any_eq_true.mp found
      have enough := of_decide_eq_true enough
      simp only [caller, list.freeRegions_eq, List.mem_append, List.mem_singleton] at member
      rcases member with member | rfl
      · exact none_fits rg member enough
      · exact absurd (show 0 + size.toNat ≤ 0 from enough) (by omega)
    have grows := Caller.atBreak_grows (c := s.caller P) laid fits can
    have area : c.mm.mmap.vmEnd.toNat = ((s.mm P).mmap.sbrk.toNat + size.toNat + 255) / 256 * 256 :=
      (congrArg BitVec.toNat same.vmEnd).trans grows.vmEnd
    have sbrk : c.mm.mmap.sbrk.toNat = (s.mm P).mmap.sbrk.toNat + size.toNat := by
      rw [sbrk]
      exact add_toULong_toNat (by simp only [caller]; omega) (by omega) (by omega)
    have old := laid.aligned
    refine ⟨sound.put ((sound.coherent.atBreak laid fits can).samePages same)
      ⟨?_, ?_, fun pgn inside => ?_, packedAfter ?_⟩,
      keeps_put sound.laid ?_ fun page inside => ?_, others⟩
    · omega
    · rw [area, sbrk]
    · rw [same.pgd]
      exact grows.mapped pgn ((inside.trans_eq area).trans_eq grows.vmEnd.symm)
    · omega
    · rw [area, old]
      exact Nat.mul_le_mul_right _ (Nat.div_le_div_right (by omega))
    · rw [content_samePages same, content_grows grows inside]

/-- **A free that is not wedged** keeps every byte. -/
theorem Sound.pgfreeData (sound : Sound s) {r : BitVec 32} (inside : r.toNat < 30)
    (safe : MmStruct.wedged ((s.mm P).symrgtbl r.toNat) (s.mm P).freeRegions = false) :
    ∃ c, (s.caller P).pgfreeData r = some (0, c) ∧ Sound (s.put P c) ∧ Keeps s (s.put P c) ∧
      ∀ other : Nat, other ≠ r.toNat → c.mm.symrgtbl other = (s.mm P).symrgtbl other := by
  obtain ⟨regions, list, packed⟩ := (sound.laid P).packed
  obtain ⟨c, regions', result, same, sbrk, others, list', covered⟩ :=
    Caller.pgfreeData_cover (c := s.caller P) list inside safe
  have sbrk : c.mm.mmap.sbrk = (s.mm P).mmap.sbrk := sbrk
  have packedAfter : ∀ x, c.mm.cover regions' x ≤ if x < c.mm.mmap.sbrk.toNat then 1 else 0 := by
    intro x
    rw [covered x, sbrk]
    exact packed x
  obtain ⟨sound', keeps⟩ := sound.sameBreak same sbrk ⟨regions', list', packedAfter⟩
  exact ⟨c, result, sound', keeps, others⟩

/-- **Fetching a page that is served** keeps every byte, and yields the frame the page is
in. -/
theorem Sound.getPage (sound : Sound s) (u : Uninit) {x : Int}
    (served : (s.caller P).Served x) :
    ∃ c, (s.caller P).pgGetpage u (pagingPgn x) = (some (pagingFpn (c.mm.pgd (pagingPgn x))), c) ∧
      pagingPagePresent (c.mm.pgd (pagingPgn x)) = true ∧ Sound (s.put P c) ∧
      Keeps s (s.put P c) ∧ MmStruct.SameRegions (s.mm P) c.mm := by
  have laid := sound.laid P
  have room : pagingPagePresent ((s.mm P).pgd (pagingPgn x)) = false →
      ∃ swpfpn rest, s.activeMswp.freeFpList = swpfpn :: rest ∧ swpfpn < 2 ^ 21 := by
    intro absent
    obtain ⟨-, swpfpn, rest, -, free, small, -⟩ := served.fault absent
    exact ⟨swpfpn, rest, free, small⟩
  obtain ⟨coherent, contents, present, -, -⟩ :=
    sound.coherent.getPage P u (pagingPgn_lt x) room
  obtain ⟨found, same⟩ := (s.caller P).pgGetpage_served u served
  refine ⟨((s.caller P).pgGetpage u (pagingPgn x)).2, Prod.ext found rfl,
    present (by rw [found, Option.isSome_some]), sound.put coherent (laid.congr ?_ same), ?_, same⟩
  · intro pgn below mapped
    have small : pgn < pagingMaxPgn := by
      have := laid.low
      have bound : pagingMaxPgn = 16384 := by decide
      omega
    have entry : (s.put P ((s.caller P).pgGetpage u (pagingPgn x)).2).pte (P, ⟨pgn, small⟩) =
        ((s.caller P).pgGetpage u (pagingPgn x)).2.mm.pgd pgn := put_pte_self rfl _
    rw [← entry]
    exact (contents (P, ⟨pgn, small⟩) mapped).1
  · refine keeps_put sound.laid (congrArg (fun area => area.vmEnd.toNat) same.mmap).ge
      fun page below => (contents page ((sound.laid page.1).mapped _ below)).2

/-- **Writing the cell of a byte** on a page in RAM changes that byte only. -/
theorem Sound.byteAt_store (sound : Sound s) {t : Sys ι} (tables : t.mm = s.mm)
    (swap : t.activeMswp = s.activeMswp) {x : Int} (inside : (s.mm P).Within x)
    (present : pagingPagePresent ((s.mm P).pgd (pagingPgn x)) = true) {value : Byte}
    (cells : t.mram.storage = Function.update s.mram.storage (s.physical P x) value)
    {Q : ι} {y : Int} (within : (s.mm Q).Within y) :
    t.byteAt Q y = if Q = P ∧ y = x then value else s.byteAt Q y := by
  cases inRam : pagingPagePresent ((s.mm Q).pgd (pagingPgn y)) with
  | false =>
      have different : ¬ (Q = P ∧ y = x) := by
        rintro ⟨rfl, rfl⟩
        rw [present] at inRam
        cases inRam
      rw [if_neg different]
      simp only [byteAt, content, pte, tables, inRam, swap, Bool.false_eq_true, ↓reduceIte]
  | true =>
      have sameCell : t.physical Q y = s.physical Q y := by rw [physical, physical, tables]
      rw [byteAt_present (by rwa [tables]), byteAt_present inRam, sameCell, cells]
      by_cases hit : Q = P ∧ y = x
      · obtain ⟨rfl, rfl⟩ := hit
        rw [if_pos ⟨rfl, rfl⟩, Function.update_self]
      · rw [if_neg hit, Function.update_of_ne]
        intro same
        -- a cell of the frame of `x` is one of its page, and then the offsets decide
        simp only [physical, phyaddr_eq, pagingOffst_eq] at same
        have frame : pagingFpn ((s.mm Q).pgd (pagingPgn y)) =
            pagingFpn ((s.mm P).pgd (pagingPgn x)) := by omega
        have yOwns : owners ramFrame s.mm (Q, ⟨pagingPgn y, pagingPgn_lt y⟩) =
            some (pagingFpn ((s.mm P).pgd (pagingPgn x))) := ramFrame_eq_some.mpr ⟨inRam, frame⟩
        have xOwns : owners ramFrame s.mm (P, ⟨pagingPgn x, pagingPgn_lt x⟩) =
            some (pagingFpn ((s.mm P).pgd (pagingPgn x))) := ramFrame_eq_some.mpr ⟨present, rfl⟩
        obtain ⟨rfl, pages⟩ := Prod.mk.inj (sound.coherent.ram.exclusive yOwns xOwns)
        refine hit ⟨rfl, (sound.laid Q).within_injective within inside (Fin.mk.inj pages) ?_⟩
        rw [pagingOffst_eq, pagingOffst_eq]
        omega

/-- **A read that is served** obtains the byte and keeps all. -/
theorem Sound.pgread (sound : Sound s) (u : Uninit) {r o : BitVec 32} (inside : r.toNat < 30)
    (accepted : (s.caller P).rejects r o = false) (before : Byte)
    (served : (s.caller P).Served ((s.caller P).accessed r o)) :
    ∃ c, (s.caller P).pgread u r o before =
        (0, s.byteAt P ((s.caller P).accessed r o), c) ∧
      Sound (s.put P c) ∧ Keeps s (s.put P c) ∧ c.mm.symrgtbl = (s.mm P).symrgtbl := by
  obtain ⟨c, fetched, present, sound', keeps, same⟩ := sound.getPage u served
  have random : c.mram.rdmflg = true := sound'.coherent.ramRandom
  refine ⟨c, ?_, sound', keeps, same.symrgtbl⟩
  rw [Caller.pgread_accepted inside accepted]
  simp only [Caller.pgGetval, fetched, Memphy.memphyRead_random random]
  rw [← (keeps P _ served.1).2, byteAt_present (by rwa [put_mm_self]), physical, put_mm_self,
    put_mram]

/-- **A write that is served** changes the byte at its address and keeps all others. -/
theorem Sound.pgwrite (sound : Sound s) (u : Uninit) {r o : BitVec 32} (inside : r.toNat < 30)
    (accepted : (s.caller P).rejects r o = false) (value : Byte)
    (served : (s.caller P).Served ((s.caller P).accessed r o)) :
    ∃ c, (s.caller P).pgwrite u value r o = (0, c) ∧ Sound (s.put P c) ∧
      (∀ Q y, (s.mm Q).Within y → ((s.put P c).mm Q).Within y ∧ (s.put P c).byteAt Q y =
        if Q = P ∧ y = (s.caller P).accessed r o then value else s.byteAt Q y) ∧
      c.mm.symrgtbl = (s.mm P).symrgtbl := by
  obtain ⟨c, fetched, present, sound', keeps, same⟩ := sound.getPage u served
  have random : c.mram.rdmflg = true := sound'.coherent.ramRandom
  have cell : Caller.phyaddr (pagingFpn (c.mm.pgd (pagingPgn ((s.caller P).accessed r o))))
      (pagingOffst ((s.caller P).accessed r o)) =
        (s.put P c).physical P ((s.caller P).accessed r o) := by
    rw [physical, put_mm_self]
  generalize (s.put P c).physical P ((s.caller P).accessed r o) = addr at cell
  have laid := sound'.laid P
  rw [put_mm_self] at laid
  refine ⟨{ c with mram := (c.mram.memphyWrite addr value).2 }, ?_,
    sound.put (sound'.coherent.touch (Memphy.memphyWrite_sameFrames c.mram addr value)) laid,
    fun Q y within => ?_, same.symrgtbl⟩
  · rw [Caller.pgwrite_accepted inside accepted]
    simp only [Caller.pgSetval, fetched, cell]
  · obtain ⟨stays, kept⟩ := keeps Q y within
    refine ⟨stays, ?_⟩
    rw [← kept]
    refine sound'.byteAt_store
      (t := s.put P { c with mram := (c.mram.memphyWrite addr value).2 }) rfl rfl
      (keeps P _ served.1).1 (by rwa [put_mm_self]) ?_ stays
    rw [physical, put_mm_self, cell, put_mram, Memphy.memphyWrite_random random, put_mram]

end Sys

end PagedOs
