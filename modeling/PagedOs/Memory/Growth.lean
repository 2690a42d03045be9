import PagedOs.Memory.Paging

/-! # Growing a memory area

`inc_vma_limit` of `mm-vm.c` and the functions of `mm.c` it calls. It moves the
break and the end of the area before it asks for frames, and both stay moved when
that fails.
-/

namespace PagedOs

namespace MmStruct

/-- A loop of `vmap_page_range`: the frames are entered one page after the other. The
page recorded with each is the next one, as the counter moves first. -/
def mapFrames (setEntry : Pte → Int → Pte) (mm : MmStruct) (pgn : Nat) : List Int → MmStruct
  | [] => mm
  | fpn :: frames =>
      mapFrames setEntry ((mm.setPte pgn (setEntry (mm.pgd pgn) fpn)).enlistPgnNode (pgn + 1))
        (pgn + 1) frames

/-- `vmap_page_range`: the entries of the pages for RAM frames, and behind them those for swap
frames. -/
def vmapPageRange (mm : MmStruct) (addr : Int) (frames frmLstSwap : List Int) : MmStruct :=
  let pgn := pagingPgn addr
  let mm := mm.mapFrames pteSetFpn pgn frames
  mm.mapFrames (fun pte swpoff => pteSetSwap pte 0 swpoff) (pgn + frames.length) frmLstSwap

end MmStruct

namespace Caller

/-- `alloc_pages_range`. RAM frames are taken first, then swap frames; when both
devices run out, the frames already taken are kept from them. -/
def allocPagesRange (c : Caller) :
    (reqPgnum : Nat) → (frmLst frmLstSwap : List Int) → Int × List Int × List Int × Caller
  | 0, frmLst, frmLstSwap => (0, frmLst, frmLstSwap, c)
  | reqPgnum + 1, frmLst, frmLstSwap =>
      let (status, fpn, mram) := c.mram.memphyGetFreefp 0
      if status = 0 then
        allocPagesRange { c with mram := mram.memphyPutUsedfp fpn } reqPgnum
          (fpn :: frmLst) frmLstSwap
      else
        let (status, fpn, mswp) := c.activeMswp.memphyGetFreefp 0
        if status = 0 then
          allocPagesRange { c with activeMswp := mswp.memphyPutUsedfp fpn } reqPgnum
            frmLst (fpn :: frmLstSwap)
        else (-3000, frmLst, frmLstSwap, c)

/-- `vm_map_ram`: frames for the pages, and their entries, or -1 when the frames run out. -/
def vmMapRam (c : Caller) (mapstart incpgnum : Int) : Int × Caller :=
  let (retAlloc, frmLst, frmLstSwap, c) := c.allocPagesRange incpgnum.toNat [] []
  if retAlloc < 0 then (-1, c)
  else (0, { c with mm := c.mm.vmapPageRange mapstart frmLst frmLstSwap })

/-- `cur_vma->sbrk += size`, in `__alloc` where the page suffices and in `get_vm_area_node_at_brk`.
-/
def moveSbrk (c : Caller) (size : Int) : Caller :=
  { c with mm := { c.mm with mmap := { c.mm.mmap with sbrk := c.mm.mmap.sbrk + toULong size } } }

/-- `get_vm_area_node_at_brk`. The node it returns is only passed on to functions that do
not read it. -/
def getVmAreaNodeAtBrk (c : Caller) (size : Int) : Caller := c.moveSbrk size

/-- `validate_overlap_vm_area`, which compares the area with the size of the RAM. -/
def validateOverlapVmArea (c : Caller) : Int :=
  if c.mm.mmap.vmEnd - c.mm.mmap.vmStart > toULong c.mram.maxsz then -1 else 0

/-- The amount by which `inc_vma_limit` moves the end of the area. -/
def incAmt (c : Caller) (originSize : Int) : Int :=
  toInt (pagingPageAlignsz (toULong originSize + c.mm.mmap.sbrk) -
    pagingPageAlignsz c.mm.mmap.sbrk).toNat

/-- The end of the area moves, by an amount that is added as an `unsigned long`. -/
def moveVmEnd (c : Caller) (incAmt : Int) : Caller :=
  { c with mm :=
      { c.mm with mmap := { c.mm.mmap with vmEnd := c.mm.mmap.vmEnd + toULong incAmt } } }

/-- `inc_vma_limit`: the break moves first, then the check is made, and then the pages are mapped.
-/
def incVmaLimit (c : Caller) (originSize : Int) : Int × Caller :=
  let incAmt := c.incAmt originSize
  let incnumpage := incAmt.tdiv pagingPagesz
  let c := c.getVmAreaNodeAtBrk originSize
  let oldEnd := toInt c.mm.mmap.vmEnd.toNat
  if c.validateOverlapVmArea < 0 then (-1, c)
  else
    let c := c.moveVmEnd incAmt
    let mapped := c.vmMapRam oldEnd incnumpage
    (if mapped.1 < 0 then -1 else 0, mapped.2)

end Caller

/-! ## What growing an area does -/

namespace MmStruct

/-- The regions and the area of a process are as they were. -/
structure SameRegions (mm other : MmStruct) : Prop where
  mmap : other.mmap = mm.mmap
  rgHeap : other.rgHeap = mm.rgHeap
  symrgtbl : other.symrgtbl = mm.symrgtbl

theorem SameRegions.refl (mm : MmStruct) : SameRegions mm mm := ⟨rfl, rfl, rfl⟩

theorem SameRegions.trans {first second third : MmStruct} (left : SameRegions first second)
    (right : SameRegions second third) : SameRegions first third :=
  ⟨right.mmap.trans left.mmap, right.rgHeap.trans left.rgHeap, right.symrgtbl.trans left.symrgtbl⟩

theorem SameRegions.symm {mm other : MmStruct} (same : SameRegions mm other) :
    SameRegions other mm := ⟨same.mmap.symm, same.rgHeap.symm, same.symrgtbl.symm⟩

/-- Entering frames into the table leaves the regions of the process as they are. -/
theorem mapFrames_sameRegions (setEntry : Pte → Int → Pte) (mm : MmStruct) (pgn : Nat)
    (frames : List Int) : SameRegions mm (mm.mapFrames setEntry pgn frames) := by
  induction frames generalizing mm pgn with
  | nil => exact .refl mm
  | cons fpn frames ih =>
      have rest :=
        ih ((mm.setPte pgn (setEntry (mm.pgd pgn) fpn)).enlistPgnNode (pgn + 1)) (pgn + 1)
      exact ⟨rest.mmap, rest.rgHeap, rest.symrgtbl⟩

/-- Only the pages of the range get new entries. -/
theorem mapFrames_outside (setEntry : Pte → Int → Pte) (mm : MmStruct) {pgn page : Nat}
    {frames : List Int} (outside : page < pgn ∨ pgn + frames.length ≤ page) :
    (mm.mapFrames setEntry pgn frames).pgd page = mm.pgd page := by
  induction frames generalizing mm pgn with
  | nil => rfl
  | cons fpn frames ih =>
      rw [List.length_cons] at outside
      have other : page ≠ pgn := by omega
      rw [mapFrames, ih _ (by omega), enlistPgnNode_pgd, setPte_pgd_of_ne other]

/-- Every page of the range gets an entry for the frame at its place. -/
theorem mapFrames_entry (setEntry : Pte → Int → Pte) (mm : MmStruct) {pgn i : Nat} {fpn : Int}
    {frames : List Int} (found : frames[i]? = some fpn) :
    (mm.mapFrames setEntry pgn frames).pgd (pgn + i) = setEntry (mm.pgd (pgn + i)) fpn := by
  induction frames generalizing mm pgn i with
  | nil => simp at found
  | cons first frames ih =>
      cases i with
      | zero =>
          simp only [List.getElem?_cons_zero, Option.some.injEq] at found
          have before : pgn + 0 < pgn + 1 := by omega
          rw [mapFrames, mapFrames_outside _ _ (.inl before), enlistPgnNode_pgd, Nat.add_zero,
            setPte_pgd_self, found]
      | succ i =>
          simp only [List.getElem?_cons_succ] at found
          have other : pgn + 1 + i ≠ pgn := by omega
          rw [mapFrames, show pgn + (i + 1) = pgn + 1 + i by omega, ih _ found, enlistPgnNode_pgd,
            setPte_pgd_of_ne other]

/-- The list of pages after the loop: the page after each page of the range was put in
front of it. -/
theorem mapFrames_listed (setEntry : Pte → Int → Pte) (mm : MmStruct) (pgn : Nat)
    (frames : List Int) : (mm.mapFrames setEntry pgn frames).fifoPgn =
      (List.range' (pgn + 1) frames.length).reverse ++ mm.fifoPgn := by
  induction frames generalizing mm pgn with
  | nil => rfl
  | cons fpn frames ih =>
      rw [mapFrames, ih, List.length_cons, List.range'_succ, List.reverse_cons, List.append_assoc]
      rfl

/-- The pages recorded are those after the pages of the range. -/
theorem mapFrames_fifoPgn (setEntry : Pte → Int → Pte) (mm : MmStruct) {pgn page : Nat}
    {frames : List Int} (member : page ∈ (mm.mapFrames setEntry pgn frames).fifoPgn) :
    page ∈ mm.fifoPgn ∨ page ≤ pgn + frames.length := by
  induction frames generalizing mm pgn with
  | nil => exact .inl member
  | cons fpn frames ih =>
      rw [List.length_cons]
      rcases ih _ member with earlier | late
      · rcases List.mem_cons.mp earlier with rfl | earlier
        · exact .inr (by omega)
        · exact .inl earlier
      · exact .inr (by omega)

/-- `vmap_page_range` writes entries and lists pages; the regions are not its business. -/
theorem vmapPageRange_sameRegions (mm : MmStruct) (addr : Int) (frames frmLstSwap : List Int) :
    SameRegions mm (mm.vmapPageRange addr frames frmLstSwap) :=
  (mapFrames_sameRegions ..).trans (mapFrames_sameRegions ..)

/-- The entries in front of the mapped range and behind it stay as they were. -/
theorem vmapPageRange_outside (mm : MmStruct) {addr : Int} {frames frmLstSwap : List Int}
    {page : Nat} (outside : page < pagingPgn addr ∨
      pagingPgn addr + (frames.length + frmLstSwap.length) ≤ page) :
    (mm.vmapPageRange addr frames frmLstSwap).pgd page = mm.pgd page := by
  rw [vmapPageRange, mapFrames_outside _ _ (by omega), mapFrames_outside _ _ (by omega)]

/-- What `vmap_page_range` adds to the list lies at most one page behind the mapped range. -/
theorem vmapPageRange_fifoPgn (mm : MmStruct) {addr : Int} {frames frmLstSwap : List Int}
    {page : Nat} (member : page ∈ (mm.vmapPageRange addr frames frmLstSwap).fifoPgn) :
    page ∈ mm.fifoPgn ∨ page ≤ pagingPgn addr + (frames.length + frmLstSwap.length) := by
  rcases mapFrames_fifoPgn _ _ member with earlier | late
  · rcases mapFrames_fifoPgn _ _ earlier with earlier | late
    · exact .inl earlier
    · exact .inr (by omega)
  · exact .inr (by omega)

/-- The frames are entered one page after the other, RAM frames first. -/
theorem vmapPageRange_entry (mm : MmStruct) {addr : Int} {frames frmLstSwap : List Int} {i : Nat}
    {fpn : Int} :
    (frames[i]? = some fpn → (mm.vmapPageRange addr frames frmLstSwap).pgd (pagingPgn addr + i) =
        pteSetFpn (mm.pgd (pagingPgn addr + i)) fpn) ∧
      (frmLstSwap[i]? = some fpn →
        (mm.vmapPageRange addr frames frmLstSwap).pgd (pagingPgn addr + frames.length + i) =
          pteSetSwap (mm.pgd (pagingPgn addr + frames.length + i)) 0 fpn) := by
  refine ⟨fun found => ?_, fun found => ?_⟩
  · have inside : i < frames.length := (List.getElem?_eq_some_iff.mp found).1
    rw [vmapPageRange, mapFrames_outside _ _ (.inl (Nat.add_lt_add_left inside _)),
      mapFrames_entry _ _ found]
  · rw [vmapPageRange, mapFrames_entry _ _ found,
      mapFrames_outside _ _ (.inr (Nat.le_add_right _ _))]

/-- It lists one page for each frame, in falling order, and counts from the page behind the first
one. -/
theorem vmapPageRange_listed (mm : MmStruct) (addr : Int) (frames frmLstSwap : List Int) :
    (mm.vmapPageRange addr frames frmLstSwap).fifoPgn =
      (List.range' (pagingPgn addr + 1) (frames.length + frmLstSwap.length)).reverse ++
        mm.fifoPgn := by
  rw [vmapPageRange, mapFrames_listed, mapFrames_listed, ← List.append_assoc, ← List.reverse_append,
    show pagingPgn addr + frames.length + 1 = pagingPgn addr + 1 + frames.length by omega,
    List.range'_append_1]

end MmStruct

/-- The device after its first free frames were handed out. -/
def Memphy.taken (mp : Memphy) (count : Nat) : Memphy :=
  { mp with
    freeFpList := mp.freeFpList.drop count
    usedFpList := (mp.freeFpList.take count).reverse ++ mp.usedFpList }

namespace Caller

/-- **What `alloc_pages_range` takes.** As many RAM frames as there are, then as many
swap frames as there are; it fails when the two together are too few. -/
theorem allocPagesRange_eq (c : Caller) (reqPgnum : Nat) (frmLst frmLstSwap : List Int) :
    c.allocPagesRange reqPgnum frmLst frmLstSwap =
      (if reqPgnum ≤ c.mram.freeFpList.length + c.activeMswp.freeFpList.length then 0 else -3000,
        (c.mram.freeFpList.take reqPgnum).reverse ++ frmLst,
        (c.activeMswp.freeFpList.take (reqPgnum - c.mram.freeFpList.length)).reverse ++ frmLstSwap,
        ⟨c.mm, c.mram.taken reqPgnum,
          c.activeMswp.taken (reqPgnum - c.mram.freeFpList.length)⟩) := by
  induction reqPgnum generalizing c frmLst frmLstSwap with
  | zero => simp [allocPagesRange, Memphy.taken]
  | succ reqPgnum ih =>
      obtain ⟨mm, mram, mswp⟩ := c
      obtain ⟨storage, maxsz, rdmflg, cursor, free, used⟩ := mram
      cases free with
      | cons fpn free =>
          simp only [allocPagesRange, Memphy.memphyGetFreefp, Memphy.memphyPutUsedfp, ↓reduceIte,
            ih]
          simp [Memphy.taken, Nat.add_right_comm]
      | nil =>
          obtain ⟨storage', maxsz', rdmflg', cursor', free', used'⟩ := mswp
          cases free' with
          | cons fpn free =>
              simp only [allocPagesRange, Memphy.memphyGetFreefp, Memphy.memphyPutUsedfp,
                ↓reduceIte, ih]
              simp [Memphy.taken]
          | nil =>
              simp [allocPagesRange, Memphy.memphyGetFreefp, Memphy.taken]

@[simp] theorem moveSbrk_vmEnd (c : Caller) (size : Int) :
    (c.moveSbrk size).mm.mmap.vmEnd = c.mm.mmap.vmEnd := rfl

/-- The process with its break and the end of its area moved. -/
def grown (c : Caller) (originSize : Int) : MmStruct :=
  ((c.moveSbrk originSize).moveVmEnd (c.incAmt originSize)).mm

@[simp] theorem moveSbrk_pgd (c : Caller) (size : Int) :
    (c.moveSbrk size).mm.pgd = c.mm.pgd := by
  simp only [moveSbrk]

@[simp] theorem moveSbrk_fifoPgn (c : Caller) (size : Int) :
    (c.moveSbrk size).mm.fifoPgn = c.mm.fifoPgn := by
  simp only [moveSbrk]

@[simp] theorem grown_pgd (c : Caller) (originSize : Int) :
    (c.grown originSize).pgd = c.mm.pgd := by
  simp only [grown, moveVmEnd, moveSbrk]

@[simp] theorem grown_fifoPgn (c : Caller) (originSize : Int) :
    (c.grown originSize).fifoPgn = c.mm.fifoPgn := by
  simp only [grown, moveVmEnd, moveSbrk]

/-- A growth puts the end of the area behind the pages that it asks for. -/
@[simp] theorem grown_vmEnd (c : Caller) (originSize : Int) :
    (c.grown originSize).mmap.vmEnd = c.mm.mmap.vmEnd + toULong (c.incAmt originSize) := by
  simp only [grown, moveVmEnd, moveSbrk]

/-- The number of pages `inc_vma_limit` asks for. -/
def incnumpage (c : Caller) (originSize : Int) : Nat :=
  ((c.incAmt originSize).tdiv pagingPagesz).toNat

/-- The number of pages that `inc_vma_limit` gets no RAM frame for. -/
def swappage (c : Caller) (originSize : Int) : Nat :=
  c.incnumpage originSize - c.mram.freeFpList.length

/-- The area is larger than the RAM, so that it cannot grow. -/
def areaFull (c : Caller) : Bool := c.mm.mmap.vmEnd - c.mm.mmap.vmStart > toULong c.mram.maxsz

/-- The two devices have frames for the pages `inc_vma_limit` asks for. -/
def framesLeft (c : Caller) (originSize : Int) : Bool :=
  c.incnumpage originSize ≤ c.mram.freeFpList.length + c.activeMswp.freeFpList.length

/-- The check that refuses a growth compares the length of the area with the size of the RAM, in
unsigned arithmetic. -/
theorem areaFull_iff {c : Caller} :
    c.areaFull = true ↔ toULong c.mram.maxsz < c.mm.mmap.vmEnd - c.mm.mmap.vmStart := by
  simp only [areaFull, decide_eq_true_eq, gt_iff_lt]

/-- A growth finds its frames exactly when the two free lists together hold one for each new page.
-/
theorem framesLeft_iff {c : Caller} {originSize : Int} :
    c.framesLeft originSize = true ↔ c.incnumpage originSize ≤
      c.mram.freeFpList.length + c.activeMswp.freeFpList.length := by
  simp only [framesLeft, decide_eq_true_eq]

/-- `validate_overlap_vm_area` returns -1 for a full area and 0 otherwise. -/
theorem validateOverlapVmArea_eq (c : Caller) :
    c.validateOverlapVmArea = if c.areaFull then -1 else 0 := by
  by_cases full : c.areaFull = true
  · rw [validateOverlapVmArea, if_pos (areaFull_iff.mp full), if_pos full]
  · rw [validateOverlapVmArea, if_neg (mt areaFull_iff.mpr full), if_neg full]

/-- With enough frames `vm_map_ram` maps every page: the first ones to frames of the RAM, the
others to frames of the swap device. -/
theorem vmMapRam_enough (c : Caller) (mapstart : Int) {incpgnum : Int} {count : Nat}
    (pages : incpgnum.toNat = count)
    (enough : count ≤ c.mram.freeFpList.length + c.activeMswp.freeFpList.length) :
    c.vmMapRam mapstart incpgnum =
      (0, ⟨c.mm.vmapPageRange mapstart (c.mram.freeFpList.take count).reverse
            (c.activeMswp.freeFpList.take (count - c.mram.freeFpList.length)).reverse,
        c.mram.taken count, c.activeMswp.taken (count - c.mram.freeFpList.length)⟩) := by
  rw [vmMapRam, pages, allocPagesRange_eq]
  simp only [enough, ↓reduceIte, Int.lt_irrefl, List.append_nil]

/-- With too few it takes all frames there are, maps none of them and returns -1. -/
theorem vmMapRam_short (c : Caller) (mapstart : Int) {incpgnum : Int} {count : Nat}
    (pages : incpgnum.toNat = count)
    (short : ¬ count ≤ c.mram.freeFpList.length + c.activeMswp.freeFpList.length) :
    c.vmMapRam mapstart incpgnum =
      (-1, ⟨c.mm, c.mram.taken count,
        c.activeMswp.taken (count - c.mram.freeFpList.length)⟩) := by
  have failed : (-3000 : Int) < 0 := by decide
  rw [vmMapRam, pages, allocPagesRange_eq]
  simp only [short, ↓reduceIte, failed]

/-- **Everything `inc_vma_limit` can do.** The area is larger than the RAM and only the
break moves; or the frames do not suffice and are lost; or the pages are mapped. -/
theorem incVmaLimit_cases (c : Caller) (originSize : Int) :
    (c.areaFull = true ∧ c.incVmaLimit originSize = (-1, c.moveSbrk originSize)) ∨
      (c.areaFull = false ∧ c.framesLeft originSize = false ∧
        c.incVmaLimit originSize = (-1, ⟨c.grown originSize,
          c.mram.taken (c.incnumpage originSize), c.activeMswp.taken (c.swappage originSize)⟩)) ∨
      (c.areaFull = false ∧ c.framesLeft originSize = true ∧
        c.incVmaLimit originSize = (0, ⟨(c.grown originSize).vmapPageRange
            (toInt c.mm.mmap.vmEnd.toNat)
            (c.mram.freeFpList.take (c.incnumpage originSize)).reverse
            (c.activeMswp.freeFpList.take (c.swappage originSize)).reverse,
          c.mram.taken (c.incnumpage originSize),
          c.activeMswp.taken (c.swappage originSize)⟩)) := by
  have checked : (c.getVmAreaNodeAtBrk originSize).validateOverlapVmArea =
      if c.areaFull then -1 else 0 := validateOverlapVmArea_eq _
  cases full : c.areaFull with
  | true =>
      have failed : (c.getVmAreaNodeAtBrk originSize).validateOverlapVmArea < 0 := by
        rw [checked, full, if_pos rfl]
        decide
      refine .inl ⟨rfl, ?_⟩
      unfold incVmaLimit
      exact if_pos failed
  | false =>
      right
      have passed : ¬ (c.getVmAreaNodeAtBrk originSize).validateOverlapVmArea < 0 := by
        rw [checked, full, if_neg (by decide)]
        decide
      have shape : (c.moveSbrk originSize).moveVmEnd (c.incAmt originSize) =
          ⟨c.grown originSize, c.mram, c.activeMswp⟩ := rfl
      have mapped : ∀ status after, status = 0 ∨ status = -1 →
          (⟨c.grown originSize, c.mram, c.activeMswp⟩ : Caller).vmMapRam
            (toInt c.mm.mmap.vmEnd.toNat) ((c.incAmt originSize).tdiv pagingPagesz) =
              (status, after) → c.incVmaLimit originSize = (status, after) := by
        intro status after either ran
        rw [incVmaLimit]
        apply (if_neg passed).trans
        simp only [getVmAreaNodeAtBrk, moveSbrk_vmEnd, shape, ran]
        rcases either with rfl | rfl <;> rfl
      have pages : ((c.incAmt originSize).tdiv pagingPagesz).toNat = c.incnumpage originSize := rfl
      by_cases left : c.framesLeft originSize = true
      · exact .inr ⟨rfl, left, mapped 0 _ (.inl rfl)
          (vmMapRam_enough _ _ pages (framesLeft_iff.mp left))⟩
      · exact .inl ⟨rfl, Bool.eq_false_iff.mpr left, mapped (-1) _ (.inr rfl)
          (vmMapRam_short _ _ pages (mt framesLeft_iff.mpr left))⟩

theorem incVmaLimit_eq (c : Caller) (originSize : Int) :
    c.incVmaLimit originSize =
      if c.areaFull then (-1, c.moveSbrk originSize)
      else if c.framesLeft originSize then
        (0, ⟨(c.grown originSize).vmapPageRange (toInt c.mm.mmap.vmEnd.toNat)
            (c.mram.freeFpList.take (c.incnumpage originSize)).reverse
            (c.activeMswp.freeFpList.take (c.swappage originSize)).reverse,
          c.mram.taken (c.incnumpage originSize), c.activeMswp.taken (c.swappage originSize)⟩)
      else (-1, ⟨c.grown originSize, c.mram.taken (c.incnumpage originSize),
        c.activeMswp.taken (c.swappage originSize)⟩) := by
  rcases c.incVmaLimit_cases originSize with
    ⟨full, result⟩ | ⟨room, short, result⟩ | ⟨room, left, result⟩
  · rw [result, full, if_pos rfl]
  · rw [result, room, short, if_neg Bool.false_ne_true, if_neg Bool.false_ne_true]
  · rw [result, room, left, if_neg Bool.false_ne_true, if_pos rfl]

/-- The break has moved, and the regions of the process are as they were. -/
structure BreakMoved (c : Caller) (size : Int) (c' : Caller) : Prop where
  sbrk : c'.mm.mmap.sbrk = c.mm.mmap.sbrk + toULong size
  vmStart : c'.mm.mmap.vmStart = c.mm.mmap.vmStart
  vmFreergList : c'.mm.mmap.vmFreergList = c.mm.mmap.vmFreergList
  rgHeap : c'.mm.rgHeap = c.mm.rgHeap
  symrgtbl : c'.mm.symrgtbl = c.mm.symrgtbl

/-- The move of `sbrk` in front of the growth is a break moved and nothing else. -/
theorem moveSbrk_breakMoved (c : Caller) (size : Int) : c.BreakMoved size (c.moveSbrk size) := by
  constructor <;> simp only [moveSbrk]

/-- Whether it succeeds or fails, `inc_vma_limit` moves the break. -/
theorem incVmaLimit_breakMoved (c : Caller) (originSize : Int) :
    c.BreakMoved originSize (c.incVmaLimit originSize).2 := by
  rcases c.incVmaLimit_cases originSize with ⟨-, result⟩ | ⟨-, -, result⟩ | ⟨-, -, result⟩
  · rw [result]
    exact c.moveSbrk_breakMoved originSize
  · rw [result]
    constructor <;> simp only [grown, moveVmEnd, moveSbrk]
  · rw [result]
    have same := MmStruct.vmapPageRange_sameRegions (c.grown originSize)
      (toInt c.mm.mmap.vmEnd.toNat) (c.mram.freeFpList.take (c.incnumpage originSize)).reverse
      (c.activeMswp.freeFpList.take (c.swappage originSize)).reverse
    constructor <;> simp only [same.mmap, same.rgHeap, same.symrgtbl] <;>
      simp only [grown, moveVmEnd, moveSbrk]

/-- The end of the area moves unless the area is larger than the RAM, whether or not there
are frames for the pages. -/
theorem incVmaLimit_vmEnd (c : Caller) (originSize : Int) :
    (c.incVmaLimit originSize).2.mm.mmap.vmEnd =
      if c.areaFull then c.mm.mmap.vmEnd
      else c.mm.mmap.vmEnd + toULong (c.incAmt originSize) := by
  rcases c.incVmaLimit_cases originSize with
    ⟨full, result⟩ | ⟨full, -, result⟩ | ⟨full, -, result⟩
  · rw [result, full, moveSbrk_vmEnd, if_pos rfl]
  · rw [result, full, grown_vmEnd, if_neg Bool.false_ne_true]
  · rw [result, full, (MmStruct.vmapPageRange_sameRegions ..).mmap, grown_vmEnd,
      if_neg Bool.false_ne_true]

/-- A growth asks for one page per 256 bytes, and for none when the amount is negative. -/
theorem incnumpage_eq (c : Caller) (originSize : Int) :
    (c.incnumpage originSize : Int) = max (c.incAmt originSize / 256) 0 := by
  have size : ((pagingPagesz : Nat) : Int) = 256 := rfl
  rw [incnumpage, size, Int.toNat_eq_max]
  generalize c.incAmt originSize = amount
  rcases Int.le_total 0 amount with nonneg | negative
  · rw [Int.tdiv_eq_ediv_of_nonneg nonneg]
  · have mirrored : (-amount).tdiv 256 = -amount.tdiv 256 := Int.neg_tdiv amount 256
    have := Int.tdiv_nonneg (Int.neg_nonneg.mpr negative) (by decide : (0 : Int) ≤ 256)
    omega

/-- The pages of a growth lie in the page table as long as the area stays in the
address range. -/
theorem pages_lt (c : Caller) (originSize : Int) (low : c.mm.mmap.vmEnd.toNat < 2 ^ 22)
    (high : (c.mm.mmap.vmEnd + toULong (c.incAmt originSize)).toNat < 2 ^ 22) :
    pagingPgn (toInt c.mm.mmap.vmEnd.toNat) + c.incnumpage originSize < pagingMaxPgn := by
  have first := pagingPgn_eq (toInt c.mm.mmap.vmEnd.toNat)
  rw [toInt_eq_self (by omega) (by omega)] at first ⊢
  have count := c.incnumpage_eq originSize
  have bound : pagingMaxPgn = 16384 := by decide
  have amount : c.incAmt originSize < 2 ^ 31 := toInt_lt _
  rcases Int.le_total 0 (c.incAmt originSize) with nonneg | negative
  · rw [add_toULong_toNat (by omega) nonneg (by omega)] at high
    omega
  · omega

/-- No more pages are mapped than asked for. -/
theorem taken_le (c : Caller) (originSize : Int) :
    (c.mram.freeFpList.take (c.incnumpage originSize)).reverse.length +
      (c.activeMswp.freeFpList.take (c.swappage originSize)).reverse.length ≤
        c.incnumpage originSize := by
  simp only [List.length_reverse, List.length_take, swappage]
  omega

end Caller

end PagedOs
