import PagedOs.Memory.Layout

/-! # Memory that was never written

`init_mm` leaves the symbol table, the head of the page list and the page table as
`malloc` returned them, and links its first node to what the area held for a list. From
then on every operation writes before it reads: two processes that `malloc` gave the same
in these places do the same, whatever the rest of their memory holds.
-/

namespace PagedOs

open LinkedHeap Transition

namespace MmStruct

variable {mm mm' area : MmStruct}

/-- The pages of two processes are in the same places, up to the numbers of their frames. -/
structure PagesAlike (mm mm' : MmStruct) : Prop where
  fifoPgn : mm'.fifoPgn = mm.fifoPgn
  present : ∀ pgn, pagingPagePresent (mm'.pgd pgn) = pagingPagePresent (mm.pgd pgn)
  swapped : ∀ pgn, pagingPageSwapped (mm'.pgd pgn) = pagingPageSwapped (mm.pgd pgn)

/-- Two processes hold the same in everything that their calls read, up to the numbers of
frames. The free list lies in the nodes allocated so far and is not empty. -/
structure Alike (mm mm' : MmStruct) : Prop extends PagesAlike mm mm' where
  mmap : mm'.mmap = mm.mmap
  nodes : Heap.Agree mm.rgHeap.top mm.rgHeap mm'.rgHeap
  listed : ∃ head < mm.rgHeap.top, mm.mmap.vmFreergList = some head
  symrgtbl : ∀ r : Nat, r < 30 → mm'.symrgtbl r = mm.symrgtbl r

/-! ## Pages -/

namespace PagesAlike

theorem symm (alike : PagesAlike mm mm') : PagesAlike mm' mm where
  fifoPgn := alike.fifoPgn.symm
  present := fun pgn => (alike.present pgn).symm
  swapped := fun pgn => (alike.swapped pgn).symm

/-- Entries that agree are entered at the same page. -/
theorem setPte (alike : PagesAlike mm mm') (pgn : Nat) {pte pte' : Pte}
    (present : pagingPagePresent pte' = pagingPagePresent pte)
    (swapped : pagingPageSwapped pte' = pagingPageSwapped pte) :
    PagesAlike (mm.setPte pgn pte) (mm'.setPte pgn pte') where
  fifoPgn := alike.fifoPgn
  present := fun other => by
    by_cases same : other = pgn
    · subst same
      rw [setPte_pgd_self, setPte_pgd_self, present]
    · rw [setPte_pgd_of_ne same, setPte_pgd_of_ne same, alike.present]
  swapped := fun other => by
    by_cases same : other = pgn
    · subst same
      rw [setPte_pgd_self, setPte_pgd_self, swapped]
    · rw [setPte_pgd_of_ne same, setPte_pgd_of_ne same, alike.swapped]

theorem setFpn (alike : PagesAlike mm mm') (pgn : Nat) (pte pte' : Pte) (fpn fpn' : Int) :
    PagesAlike (mm.setPte pgn (pteSetFpn pte fpn)) (mm'.setPte pgn (pteSetFpn pte' fpn')) := by
  apply alike.setPte pgn
  · rw [pagingPagePresent_pteSetFpn, pagingPagePresent_pteSetFpn]
  · rw [pagingPageSwapped_pteSetFpn, pagingPageSwapped_pteSetFpn]

theorem setSwap (alike : PagesAlike mm mm') (pgn : Nat) (pte pte' : Pte) (swpoff swpoff' : Int) :
    PagesAlike (mm.setPte pgn (pteSetSwap pte 0 swpoff))
      (mm'.setPte pgn (pteSetSwap pte' 0 swpoff')) := by
  apply alike.setPte pgn
  · rw [pagingPagePresent_pteSetSwap, pagingPagePresent_pteSetSwap]
  · rw [pagingPageSwapped_pteSetSwap, pagingPageSwapped_pteSetSwap]

/-- The same page listed on both keeps the lists equal. -/
theorem enlistPgnNode (alike : PagesAlike mm mm') (pgn : Nat) :
    PagesAlike (mm.enlistPgnNode pgn) (mm'.enlistPgnNode pgn) where
  fifoPgn := congrArg (pgn :: ·) alike.fifoPgn
  present := alike.present
  swapped := alike.swapped

/-- The same page is the victim of a fault. -/
theorem findVictimPage (alike : PagesAlike mm mm') : mm'.findVictimPage = mm.findVictimPage := by
  have tests : (fun pgn => pagingPagePresent (mm'.pgd pgn)) =
      fun pgn => pagingPagePresent (mm.pgd pgn) := funext alike.present
  rw [MmStruct.findVictimPage, MmStruct.findVictimPage, alike.fifoPgn, tests]

/-- Exchanging the same two pages leaves the pages in the same places. -/
theorem exchanged (alike : PagesAlike mm mm') (pgn vicpgn : Nat) (swpfpn swpfpn' : Int) :
    PagesAlike (mm.exchanged pgn vicpgn swpfpn) (mm'.exchanged pgn vicpgn swpfpn') :=
  ((alike.setSwap vicpgn _ _ _ _).setFpn pgn _ _ _ _).enlistPgnNode pgn

/-- A loop that enters an entry of one kind for each frame. -/
theorem mapFrames {setEntry : Pte → Int → Pte}
    (enters : ∀ {mm mm' : MmStruct}, PagesAlike mm mm' → ∀ pgn pte pte' fpn,
      PagesAlike (mm.setPte pgn (setEntry pte fpn)) (mm'.setPte pgn (setEntry pte' fpn)))
    (alike : PagesAlike mm mm') (pgn : Nat) (frames : List Int) :
    PagesAlike (mm.mapFrames setEntry pgn frames) (mm'.mapFrames setEntry pgn frames) := by
  induction frames generalizing mm mm' pgn with
  | nil => exact alike
  | cons fpn frames ih =>
      apply ih
      exact (enters alike pgn _ _ fpn).enlistPgnNode (pgn + 1)

/-- Mapping the same range to as many frames does, too. -/
theorem vmapPageRange (alike : PagesAlike mm mm') (addr : Int) (frames frmLstSwap : List Int) :
    PagesAlike (mm.vmapPageRange addr frames frmLstSwap)
      (mm'.vmapPageRange addr frames frmLstSwap) := by
  apply mapFrames
  · intro mm mm' alike pgn pte pte' fpn
    exact alike.setSwap pgn pte pte' fpn fpn
  · apply mapFrames _ alike
    intro mm mm' alike pgn pte pte' fpn
    exact alike.setFpn pgn pte pte' fpn fpn

end PagesAlike

/-! ## Regions -/

/-- A search of the free list reads nodes that can be reached, and finds one of them. -/
theorem findFit_agree {n : Nat} {h h' : Heap VmRg} (agree : Heap.Agree n h h') (size : Int)
    (fuel : Nat) {link : Option Nat} (inside : ∀ a, link = some a → a < n) :
    findFit h' size fuel link = findFit h size fuel link ∧
      ∀ rgit, findFit h size fuel link = some (some rgit) → rgit < n := by
  induction fuel generalizing link with
  | zero => cases link <;> exact ⟨rfl, fun _ found => by cases found⟩
  | succ fuel ih =>
      cases link with
      | none => exact ⟨rfl, fun _ found => by cases found⟩
      | some a =>
          have here := inside a rfl
          obtain ⟨same, bounded⟩ := ih (agree.closed a here)
          simp only [findFit, agree.node a here, same, true_and]
          intro rgit found
          split at found
          · cases found
            exact here
          · exact bounded rgit found

/-- The pointers of the search for neighbours name nodes that can be reached. -/
def MergeScan.Inside (scan : MergeScan) (n : Nat) : Prop :=
  (∀ up, scan.nodeNeedDecBase = some up → up < n) ∧
    ∀ down, scan.nodeNeedIncLimit = some down → down < n

namespace MergeScan.Inside

variable {scan : MergeScan} {n a : Nat}

theorem decBase (bounded : scan.Inside n) (here : a < n) (test : Prop) [Decidable test] :
    MergeScan.Inside (if test then { scan with nodeNeedDecBase := some a } else scan) n := by
  split
  · exact ⟨fun up named => Option.some.inj named ▸ here, bounded.2⟩
  · exact bounded

theorem incLimit (bounded : scan.Inside n) (here : a < n) (test : Prop) [Decidable test] :
    MergeScan.Inside (if test then { scan with nodeNeedIncLimit := some a } else scan) n := by
  split
  · exact ⟨bounded.1, fun down named => Option.some.inj named ▸ here⟩
  · exact bounded

end MergeScan.Inside

theorem mergeScan_agree {n : Nat} {h h' : Heap VmRg} (agree : Heap.Agree n h h') (rg : VmRg)
    (fuel : Nat) {link : Option Nat} (inside : ∀ a, link = some a → a < n) {scan : MergeScan}
    (bounded : scan.Inside n) :
    mergeScan h' rg fuel link scan = mergeScan h rg fuel link scan ∧
      ∀ found, mergeScan h rg fuel link scan = some found → found.Inside n := by
  induction fuel generalizing link scan with
  | zero =>
      cases link with
      | none => exact ⟨rfl, fun found ended => by cases ended; exact bounded⟩
      | some a => exact ⟨rfl, fun found ended => by cases ended⟩
  | succ fuel ih =>
      cases link with
      | none => exact ⟨rfl, fun found ended => by cases ended; exact bounded⟩
      | some a =>
          have here := inside a rfl
          simp only [mergeScan, agree.node a here]
          split
          · exact ⟨rfl, fun found ended => by cases ended; exact bounded⟩
          · apply ih (agree.closed a here)
            exact (bounded.decBase here _).incLimit here _

/-- Deleting a node does the same to two heaps that agree on the nodes allocated so far. -/
theorem deleteVmRgNode_agree {n : Nat} {h h' : Heap VmRg} (agree : Heap.Agree n h h') {a : Nat}
    (inside : a < n) : Heap.Agree n (deleteVmRgNode h a) (deleteVmRgNode h' a) := by
  unfold deleteVmRgNode
  rw [agree.node a inside]
  split
  · rename_i b follows
    exact agree.absorb (agree.closed a inside b follows)
  · exact agree.set a fun b follows => by cases follows

theorem deleteVmRgNode_top (h : Heap VmRg) (a : Nat) : (deleteVmRgNode h a).top = h.top := by
  unfold deleteVmRgNode
  split <;> rfl

/-- Cutting a piece off a node does the same to two heaps that agree. -/
theorem carve_agree {n : Nat} {h h' : Heap VmRg} (agree : Heap.Agree n h h') (size : Int)
    {rgit : Nat} (inside : rgit < n) : Heap.Agree n (carve h size rgit) (carve h' size rgit) := by
  simp only [carve, agree.node rgit inside]
  split
  · exact agree.setVal inside _
  · exact deleteVmRgNode_agree agree inside

theorem carve_top (h : Heap VmRg) (size : Int) (rgit : Nat) : (carve h size rgit).top = h.top := by
  simp only [carve]
  split
  · rfl
  · exact deleteVmRgNode_top h rgit

namespace Alike

theorem symm (alike : Alike mm mm') : Alike mm' mm where
  toPagesAlike := alike.toPagesAlike.symm
  mmap := alike.mmap.symm
  nodes := alike.nodes.top ▸ alike.nodes.symm
  listed := by
    rw [alike.mmap, alike.nodes.top]
    exact alike.listed
  symrgtbl := fun r inside => (alike.symrgtbl r inside).symm

/-- The head of the free list is a node that was allocated. -/
theorem head_lt (alike : Alike mm mm') :
    ∀ a, mm.mmap.vmFreergList = some a → a < mm.rgHeap.top := by
  obtain ⟨head, inside, first⟩ := alike.listed
  intro a same
  rw [first] at same
  exact Option.some.inj same ▸ inside

/-- Two processes whose nodes changed in the same way. -/
theorem withHeap (alike : Alike mm mm') {h h' : Heap VmRg} (top : h.top = mm.rgHeap.top)
    (agree : Heap.Agree mm.rgHeap.top h h') :
    Alike { mm with rgHeap := h } { mm' with rgHeap := h' } where
  toPagesAlike := ⟨alike.fifoPgn, alike.present, alike.swapped⟩
  mmap := alike.mmap
  nodes := top.symm ▸ agree
  listed := by
    obtain ⟨head, inside, first⟩ := alike.listed
    exact ⟨head, top.symm ▸ inside, first⟩
  symrgtbl := alike.symrgtbl

/-- A new node is linked in front of the list in both processes, which writes its link: the
list is not empty. -/
theorem pushNode (alike : Alike mm mm') {h h' : Heap VmRg} (top : h.top = mm.rgHeap.top + 1)
    (agree : Heap.Agree mm.rgHeap.top h h')
    (val : (h'.node mm.rgHeap.top).val = (h.node mm.rgHeap.top).val) :
    Alike (mm.pushNode h mm.rgHeap.top) (mm'.pushNode h' mm'.rgHeap.top) := by
  obtain ⟨head, inside, first⟩ := alike.listed
  have written := agree.setBeyond le_rfl ⟨(h.node mm.rgHeap.top).val, some head⟩
    ⟨(h.node mm.rgHeap.top).val, some head⟩
  simp only [MmStruct.pushNode, alike.mmap, alike.nodes.top, first, Option.isSome_some,
    ↓reduceIte, val]
  refine ⟨⟨alike.fifoPgn, alike.present, alike.swapped⟩, rfl, ?_,
    ⟨mm.rgHeap.top, top ▸ Nat.lt_succ_self _, rfl⟩, alike.symrgtbl⟩
  rw [show (h.set _ _).top = mm.rgHeap.top + 1 from top]
  apply written.extend
  · simp only [Heap.set, Function.update_self]
  · simp only [Heap.set, Function.update_self, Option.some.injEq, forall_eq']
    exact inside.le

/-- A new node with a region, before it is linked. -/
theorem newNode (alike : Alike mm mm') (rg : VmRg) :
    Heap.Agree mm.rgHeap.top (mm.rgHeap.malloc.2.setVal mm.rgHeap.top rg)
        (mm'.rgHeap.malloc.2.setVal mm'.rgHeap.top rg) ∧
      ((mm'.rgHeap.malloc.2.setVal mm'.rgHeap.top rg).node mm.rgHeap.top).val =
        ((mm.rgHeap.malloc.2.setVal mm.rgHeap.top rg).node mm.rgHeap.top).val := by
  rw [alike.nodes.top]
  refine ⟨alike.nodes.malloc.setBeyond le_rfl _ _, ?_⟩
  simp only [Heap.setVal, Heap.set, Function.update_self]

/-- The list is searched for a fit with the same result. -/
theorem fitFound (alike : Alike mm mm') {size : Int} {node : Option Nat}
    (searched : findFit mm.rgHeap size mm.rgHeap.top mm.mmap.vmFreergList = some node) :
    findFit mm'.rgHeap size mm'.rgHeap.top mm'.mmap.vmFreergList = some node ∧
      ∀ rgit, node = some rgit → rgit < mm.rgHeap.top := by
  obtain ⟨same, bounded⟩ := findFit_agree alike.nodes size mm.rgHeap.top alike.head_lt
  constructor
  · rw [alike.nodes.top, alike.mmap, same, searched]
  · intro rgit named
    apply bounded rgit
    rw [searched, named]

/-- The list is searched for neighbours with the same result. -/
theorem neighboursFound (alike : Alike mm mm') {rg : VmRg} {scan : MergeScan}
    (searched : mergeScan mm.rgHeap rg mm.rgHeap.top mm.mmap.vmFreergList ⟨none, none⟩ =
      some scan) :
    mergeScan mm'.rgHeap rg mm'.rgHeap.top mm'.mmap.vmFreergList ⟨none, none⟩ = some scan ∧
      scan.Inside mm.rgHeap.top := by
  have nobody : MergeScan.Inside ⟨none, none⟩ mm.rgHeap.top := by
    constructor <;> intro a named <;> cases named
  obtain ⟨same, bounded⟩ := mergeScan_agree alike.nodes rg mm.rgHeap.top alike.head_lt nobody
  constructor
  · rw [alike.nodes.top, alike.mmap, same, searched]
  · exact bounded scan searched

/-- The first fit is the same one in both processes, and it leaves them alike. -/
theorem getFreeVmrgArea (alike : Alike mm mm') {size : Int} {found : Option VmRg}
    (cut : mm.getFreeVmrgArea size = some (found, area)) :
    ∃ area', mm'.getFreeVmrgArea size = some (found, area') ∧ Alike area area' := by
  rw [MmStruct.getFreeVmrgArea, Option.map_eq_some_iff] at cut
  obtain ⟨node, searched, outcome⟩ := cut
  obtain ⟨searched', bounded⟩ := alike.fitFound searched
  rw [MmStruct.getFreeVmrgArea, searched', Option.map_some]
  cases node with
  | none =>
      obtain ⟨rfl, rfl⟩ := Prod.mk.inj outcome
      exact ⟨mm', rfl, alike⟩
  | some rgit =>
      have inside := bounded rgit rfl
      obtain ⟨rfl, rfl⟩ := Prod.mk.inj outcome
      simp only [alike.nodes.node rgit inside]
      exact ⟨_, rfl, alike.withHeap (carve_top _ size rgit) (carve_agree alike.nodes size inside)⟩

/-- The same region entered in a register keeps the processes alike. -/
theorem setSymrg (alike : Alike mm mm') (rgid : Int) (rg : VmRg) :
    Alike (mm.setSymrg rgid rg) (mm'.setSymrg rgid rg) where
  toPagesAlike := ⟨alike.fifoPgn, alike.present, alike.swapped⟩
  mmap := alike.mmap
  nodes := alike.nodes
  listed := alike.listed
  symrgtbl := fun r inside => by
    by_cases same : (r : Int) = rgid
    · subst same
      simp only [MmStruct.setSymrg, Function.update_self]
    · simp only [MmStruct.setSymrg, Function.update_of_ne same]
      exact alike.symrgtbl r inside

/-- A region is enlisted in the same way in both: a neighbour grows, or a new node is
written. -/
theorem enlistVmFreergList (alike : Alike mm mm') {rg : VmRg} {status : Int}
    (enlisted : mm.enlistVmFreergList rg = some (status, area)) :
    ∃ area', mm'.enlistVmFreergList rg = some (status, area') ∧ Alike area area' := by
  unfold MmStruct.enlistVmFreergList at enlisted ⊢
  split at enlisted
  · rename_i empty
    obtain ⟨rfl, rfl⟩ := Prod.mk.inj (Option.some.inj enlisted)
    exact ⟨mm', if_pos empty, alike⟩
  · rename_i proper
    obtain ⟨scan, searched, outcome⟩ := Option.map_eq_some_iff.mp enlisted
    obtain ⟨searched', upInside, downInside⟩ := alike.neighboursFound searched
    simp only [proper, ↓reduceIte, searched', Option.map_some, Option.some.injEq]
    cases upper : scan.nodeNeedDecBase with
    | none =>
        cases lower : scan.nodeNeedIncLimit with
        | none =>
            simp only [upper, lower] at outcome
            obtain ⟨rfl, rfl⟩ := Prod.mk.inj outcome
            obtain ⟨agree, val⟩ := alike.newNode rg
            exact ⟨_, rfl, alike.pushNode rfl agree val⟩
        | some down =>
            have inside := downInside down lower
            simp only [upper, lower] at outcome
            obtain ⟨rfl, rfl⟩ := Prod.mk.inj outcome
            simp only [alike.nodes.node down inside]
            exact ⟨_, rfl, alike.withHeap rfl (alike.nodes.setVal inside _)⟩
    | some up =>
        have above := upInside up upper
        cases lower : scan.nodeNeedIncLimit with
        | none =>
            simp only [upper, lower] at outcome
            obtain ⟨rfl, rfl⟩ := Prod.mk.inj outcome
            simp only [alike.nodes.node up above]
            exact ⟨_, rfl, alike.withHeap rfl (alike.nodes.setVal above _)⟩
        | some down =>
            have below := downInside down lower
            simp only [upper, lower] at outcome
            obtain ⟨rfl, rfl⟩ := Prod.mk.inj outcome
            simp only [alike.nodes.node up above, alike.nodes.node down below]
            obtain ⟨agree, val⟩ := alike.newNode
              ⟨(mm.rgHeap.node down).val.rgStart, (mm.rgHeap.node up).val.rgEnd⟩
            refine ⟨_, rfl, alike.pushNode ?_ ?_ ?_⟩
            · rw [deleteVmRgNode_top, deleteVmRgNode_top]
              rfl
            · exact deleteVmRgNode_agree (deleteVmRgNode_agree agree above) below
            · -- the nodes deleted are not the new one
              rw [FreeChain.deleteVmRgNode_node_of_ne _ below.ne',
                FreeChain.deleteVmRgNode_node_of_ne _ above.ne',
                FreeChain.deleteVmRgNode_node_of_ne _ below.ne',
                FreeChain.deleteVmRgNode_node_of_ne _ above.ne']
              exact val

end Alike

end MmStruct

/-! ## One call -/

namespace Caller

variable {c c' after : Caller}

/-- Two processes hold the same in what their calls read, and their devices have the same
free frames. The bytes on the devices may differ. -/
structure Alike (c c' : Caller) : Prop where
  mm : c.mm.Alike c'.mm
  ramSize : c'.mram.maxsz = c.mram.maxsz
  ramFree : c'.mram.freeFpList = c.mram.freeFpList
  swapFree : c'.activeMswp.freeFpList = c.activeMswp.freeFpList

namespace Alike

theorem symm (alike : Alike c c') : Alike c' c where
  mm := alike.mm.symm
  ramSize := alike.ramSize.symm
  ramFree := alike.ramFree.symm
  swapFree := alike.swapFree.symm

/-- The same pages get the same frames in a growth. -/
theorem incVmaLimit (alike : Alike c c') (originSize : Int) :
    MmStruct.PagesAlike (c.incVmaLimit originSize).2.mm (c'.incVmaLimit originSize).2.mm ∧
      (c'.incVmaLimit originSize).2.mram.maxsz = (c.incVmaLimit originSize).2.mram.maxsz ∧
      (c'.incVmaLimit originSize).2.mram.freeFpList =
        (c.incVmaLimit originSize).2.mram.freeFpList ∧
      (c'.incVmaLimit originSize).2.activeMswp.freeFpList =
        (c.incVmaLimit originSize).2.activeMswp.freeFpList := by
  have full : c'.areaFull = c.areaFull := by rw [areaFull, areaFull, alike.mm.mmap, alike.ramSize]
  have pages : c'.incnumpage originSize = c.incnumpage originSize := by
    rw [incnumpage, incnumpage, incAmt, incAmt, alike.mm.mmap]
  have swapped : c'.swappage originSize = c.swappage originSize := by
    rw [swappage, swappage, pages, alike.ramFree]
  have left : c'.framesLeft originSize = c.framesLeft originSize := by
    rw [framesLeft, framesLeft, pages, alike.ramFree, alike.swapFree]
  have tables : MmStruct.PagesAlike (c.grown originSize) (c'.grown originSize) :=
    ⟨alike.mm.fifoPgn, alike.mm.present, alike.mm.swapped⟩
  rw [incVmaLimit_eq, incVmaLimit_eq, full, left, pages, swapped, alike.mm.mmap, alike.ramFree,
    alike.swapFree]
  split
  · exact ⟨⟨alike.mm.fifoPgn, alike.mm.present, alike.mm.swapped⟩, alike.ramSize, alike.ramFree,
      alike.swapFree⟩
  · split
    · exact ⟨tables.vmapPageRange _ _ _, alike.ramSize, congrArg (List.drop _) alike.ramFree,
        congrArg (List.drop _) alike.swapFree⟩
    · exact ⟨tables, alike.ramSize, congrArg (List.drop _) alike.ramFree,
        congrArg (List.drop _) alike.swapFree⟩

/-- Room is made at the break in both. -/
theorem atBreak (alike : Alike c c') (size : Int) : Alike (c.atBreak size) (c'.atBreak size) := by
  have left := c.atBreak_breakMoved size
  have right := c'.atBreak_breakMoved size
  obtain ⟨pages, ramSize, ramFree, swapFree⟩ :
      MmStruct.PagesAlike (c.atBreak size).mm (c'.atBreak size).mm ∧
        (c'.atBreak size).mram.maxsz = (c.atBreak size).mram.maxsz ∧
        (c'.atBreak size).mram.freeFpList = (c.atBreak size).mram.freeFpList ∧
        (c'.atBreak size).activeMswp.freeFpList = (c.atBreak size).activeMswp.freeFpList := by
    unfold Caller.atBreak
    rw [exceedsPage_congr alike.mm.mmap]
    split
    · exact alike.incVmaLimit size
    · exact ⟨⟨alike.mm.fifoPgn, alike.mm.present, alike.mm.swapped⟩, alike.ramSize,
        alike.ramFree, alike.swapFree⟩
  refine ⟨⟨pages, atBreak_mmap alike.mm.mmap alike.ramSize size, ?_, ?_, fun r inside => ?_⟩,
    ramSize, ramFree, swapFree⟩
  · rw [left.rgHeap, right.rgHeap]
    exact alike.mm.nodes
  · rw [left.rgHeap, left.vmFreergList]
    exact alike.mm.listed
  · rw [left.symrgtbl, right.symrgtbl]
    exact alike.mm.symrgtbl r inside

theorem withMm (alike : Alike c c') {area area' : MmStruct} (areas : area.Alike area') :
    Alike { c with mm := area } { c' with mm := area' } where
  mm := areas
  ramSize := alike.ramSize
  ramFree := alike.ramFree
  swapFree := alike.swapFree

/-- The same register set in both keeps them alike. -/
theorem withSymrg (alike : Alike c c') (rgid : Int) (rg : VmRg) :
    Alike (c.withSymrg rgid rg) (c'.withSymrg rgid rg) :=
  alike.withMm (alike.mm.setSymrg rgid rg)

/-- An allocation that runs in one runs in the other, returns the same address and leaves them
alike. -/
theorem alloc (alike : Alike c c') {rgid size status addr : Int}
    (ran : c.alloc rgid size = some (status, addr, after)) :
    ∃ after', c'.alloc rgid size = some (status, addr, after') ∧ Alike after after' := by
  rw [alloc_eq, Option.map_eq_some_iff] at ran
  obtain ⟨⟨found, area⟩, cut, outcome⟩ := ran
  obtain ⟨area', cut', areas⟩ := alike.mm.getFreeVmrgArea cut
  have here := alike.withMm areas
  rw [alloc_eq, cut', Option.map_some]
  cases found with
  | some rgnode =>
      simp only [Prod.mk.injEq] at outcome
      obtain ⟨rfl, rfl, rfl⟩ := outcome
      exact ⟨_, rfl, here.withSymrg _ rgnode⟩
  | none =>
      simp only [Prod.mk.injEq] at outcome
      obtain ⟨rfl, rfl, rfl⟩ := outcome
      simp only [areas.mmap]
      exact ⟨_, rfl, (here.atBreak size).withSymrg _ _⟩

/-- And so does a free of one of the 30 registers. -/
theorem pgfreeData (alike : Alike c c') {r : BitVec 32} (inside : r.toNat < 30) {status : Int}
    (ran : c.pgfreeData r = some (status, after)) :
    ∃ after', c'.pgfreeData r = some (status, after') ∧ Alike after after' := by
  rw [pgfreeData_register c inside, Option.map_eq_some_iff] at ran
  obtain ⟨⟨ignored, area⟩, enlisted, outcome⟩ := ran
  obtain ⟨area', enlisted', areas⟩ := alike.mm.enlistVmFreergList enlisted
  obtain ⟨rfl, rfl⟩ := Prod.mk.inj outcome
  rw [pgfreeData_register c' inside, alike.mm.symrgtbl r.toNat inside, enlisted', Option.map_some]
  exact ⟨_, rfl, (alike.withMm areas).withSymrg _ _⟩

/-- A fault has the same victim in both, whichever frames are exchanged. -/
theorem pgGetpage (alike : Alike c c') (u u' : Uninit) (pgn : Nat) :
    Alike (c.pgGetpage u pgn).2 (c'.pgGetpage u' pgn).2 := by
  have present := alike.mm.present pgn
  have victims := alike.mm.findVictimPage
  rcases c.pgGetpage_cases u pgn with
    ⟨hit, result⟩ | ⟨miss, nobody, result⟩ | ⟨vicpgn, miss, victim, -, result⟩
  · rw [result, pgGetpage_hit (present.trans hit)]
    exact alike
  · rw [result, pgGetpage_nobody (present.trans miss) (victims.trans nobody)]
    exact alike
  · rw [result, (pgGetpage_miss (present.trans miss) (victims.trans victim) u').2]
    have ram := c.faulted_mram u pgn vicpgn
    have ram' := c'.faulted_mram u' pgn vicpgn
    have swap := c.faulted_activeMswp u pgn vicpgn
    have swap' := c'.faulted_activeMswp u' pgn vicpgn
    refine ⟨⟨alike.mm.exchanged pgn vicpgn _ _, alike.mm.mmap, alike.mm.nodes, alike.mm.listed,
      alike.mm.symrgtbl⟩, ?_, ?_, ?_⟩
    · rw [ram.maxsz, ram'.maxsz, alike.ramSize]
    · rw [ram.free, ram'.free, alike.ramFree]
    · rw [swap.free, swap'.free, Memphy.memphyGetFreefp_free, Memphy.memphyGetFreefp_free,
        alike.swapFree]

variable {r o : BitVec 32}

theorem rejects (alike : Alike c c') (inside : r.toNat < 30) : c'.rejects r o = c.rejects r o := by
  rw [Caller.rejects, Caller.rejects, sizeRg, sizeRg, alike.mm.symrgtbl r.toNat inside]

theorem accessed (alike : Alike c c') (inside : r.toNat < 30) :
    c'.accessed r o = c.accessed r o := by
  rw [Caller.accessed, Caller.accessed, alike.mm.symrgtbl r.toNat inside]

/-- A read has the same status and leaves them alike; the byte that it returns may differ. -/
theorem pgread (alike : Alike c c') (inside : r.toNat < 30) (u u' : Uninit) (data data' : Byte) :
    (c'.pgread u' r o data').1 = (c.pgread u r o data).1 ∧
      Alike (c.pgread u r o data).2.2 (c'.pgread u' r o data').2.2 := by
  cases rejected : c.rejects r o with
  | true =>
      rw [pgread_rejected rejected, pgread_rejected ((alike.rejects inside).trans rejected)]
      exact ⟨rfl, alike⟩
  | false =>
      rw [pgread_accepted inside rejected,
        pgread_accepted inside ((alike.rejects inside).trans rejected), pgGetval_caller,
        pgGetval_caller, alike.accessed inside]
      exact ⟨rfl, alike.pgGetpage u u' _⟩

theorem pgwrite (alike : Alike c c') (inside : r.toNat < 30) (u u' : Uninit) (value : Byte) :
    (c'.pgwrite u' value r o).1 = (c.pgwrite u value r o).1 ∧
      Alike (c.pgwrite u value r o).2 (c'.pgwrite u' value r o).2 := by
  cases rejected : c.rejects r o with
  | true =>
      rw [pgwrite_rejected rejected, pgwrite_rejected ((alike.rejects inside).trans rejected)]
      exact ⟨rfl, alike⟩
  | false =>
      have fetched := alike.pgGetpage u u' (pagingPgn (c.accessed r o))
      obtain ⟨mram, frames, written⟩ := c.pgSetval_caller u (c.accessed r o) value
      obtain ⟨mram', frames', written'⟩ := c'.pgSetval_caller u' (c.accessed r o) value
      rw [pgwrite_accepted inside rejected,
        pgwrite_accepted inside ((alike.rejects inside).trans rejected), alike.accessed inside,
        written, written']
      refine ⟨rfl, fetched.mm, ?_, ?_, fetched.swapFree⟩
      · exact frames'.maxsz.trans (fetched.ramSize.trans frames.maxsz.symm)
      · exact frames'.free.trans (fetched.ramFree.trans frames.free.symm)

/-- **One call in two processes that are alike** has the same status and leaves them alike. -/
theorem memoryCall (alike : Alike c c') {call : MemoryCall} (inRange : call.InRange)
    {u : Uninit} {data byte : Byte} {status : Int}
    (ran : c.memoryCall u data call = some (status, byte, after)) (u' : Uninit) (data' : Byte) :
    ∃ byte' after', c'.memoryCall u' data' call = some (status, byte', after') ∧
      Alike after after' := by
  cases call with
  | pgalloc size regIndex =>
      obtain ⟨addr, done⟩ := pgalloc_eq_some.mp (memoryCall_pgalloc ran)
      obtain ⟨after', done', same⟩ := alike.alloc done
      have again := pgalloc_eq_some.mpr ⟨addr, done'⟩
      exact ⟨data', after', by rw [Caller.memoryCall, again, Option.map_some], same⟩
  | pgfreeData regIndex =>
      obtain ⟨after', done', same⟩ := alike.pgfreeData inRange (memoryCall_pgfreeData ran)
      exact ⟨data', after', by rw [Caller.memoryCall, done', Option.map_some], same⟩
  | pgread source offset =>
      obtain ⟨status', same⟩ := alike.pgread (o := offset) inRange u u' data data'
      simp only [Caller.memoryCall, Option.some.injEq] at ran ⊢
      rw [ran] at status' same
      generalize c'.pgread u' source offset data' = reached at status' same
      exact ⟨reached.2.1, reached.2.2, Prod.ext status' rfl, same⟩
  | pgwrite value destination offset =>
      obtain ⟨status', same⟩ := alike.pgwrite (o := offset) inRange u u' value
      simp only [Caller.memoryCall, Option.some.injEq, Prod.mk.injEq] at ran
      obtain ⟨rfl, -, rfl⟩ := ran
      exact ⟨data', _, congrArg some (Prod.ext status' rfl), same⟩

end Alike

end Caller

/-! ## Runs -/

/-- What can be seen of the memory of a process: its variables, its free regions, and
which of its pages are in RAM or in swap. -/
structure View where
  symrgtbl : List VmRg
  freeRegions : List VmRg
  present : List Nat
  swapped : List Nat

namespace MmStruct

variable {mm mm' raw raw' : MmStruct}

/-- The regions and the pages of a process. -/
def view (mm : MmStruct) : View where
  symrgtbl := mm.tableRegions
  freeRegions := mm.freeRegions
  present := (List.range pagingMaxPgn).filter fun pgn => pagingPagePresent (mm.pgd pgn)
  swapped := (List.range pagingMaxPgn).filter fun pgn => pagingPageSwapped (mm.pgd pgn)

/-- Processes that are alike look the same from outside. -/
theorem Alike.view_eq (alike : Alike mm mm') : mm'.view = mm.view := by
  have table : mm'.tableRegions = mm.tableRegions :=
    List.map_congr_left fun r member => alike.symrgtbl r (List.mem_range.mp member)
  have free : mm'.freeRegions = mm.freeRegions := by
    rw [freeRegions, freeRegions, alike.mmap]
    exact alike.nodes.values alike.head_lt
  simp only [view, table, free, alike.present, alike.swapped]

/-- What `malloc` returned for two processes is the same where `init_mm` leaves it and the
calls read it, and the area has no list yet. An entry of the page table is read as a whole: a fault
on a page that was never mapped copies from the swap frame that its bits happen to name. -/
structure MallocAlike (raw raw' : MmStruct) : Prop where
  fifoPgn : raw'.fifoPgn = raw.fifoPgn
  pgd : raw'.pgd = raw.pgd
  unlinked : raw.mmap.vmFreergList = none
  unlinked' : raw'.mmap.vmFreergList = none
  symrgtbl : ∀ r : Nat, r < 30 → raw'.symrgtbl r = raw.symrgtbl r

/-- The node that `init_mm` puts on the list is written and ends it. -/
theorem MallocAlike.initMm (alike : MallocAlike raw raw') (fresh : raw.rgHeap.top = 0)
    (fresh' : raw'.rgHeap.top = 0) : Alike raw.initMm raw'.initMm := by
  simp only [MmStruct.initMm, Heap.malloc, alike.unlinked, alike.unlinked', fresh, fresh']
  refine ⟨⟨alike.fifoPgn, fun pgn => by rw [alike.pgd], fun pgn => by rw [alike.pgd]⟩, rfl, ?_,
    ⟨0, Nat.one_pos, rfl⟩, alike.symrgtbl⟩
  refine ⟨rfl, fun a inside => ?_, fun a inside b follows => ?_⟩
  · obtain rfl := Nat.lt_one_iff.mp inside
    simp only [Heap.set, Function.update_self]
  · obtain rfl := Nat.lt_one_iff.mp inside
    simp [Heap.set] at follows

end MmStruct

namespace Sys

variable {ι : Type*}

/-- Processes whose `init_mm` ran on the given memory, and two devices. -/
def loaded (raw : ι → MmStruct) (mram activeMswp : Memphy) : Sys ι where
  mram := mram
  activeMswp := activeMswp
  mm := fun P => (raw P).initMm

/-- Every process is alike in the two systems. -/
def Alike (s s' : Sys ι) : Prop := ∀ P, (s.caller P).Alike (s'.caller P)

/-- What can be seen of two systems that are alike is the same. -/
theorem Alike.views {s s' : Sys ι} (alike : s.Alike s') :
    (fun P => (s'.mm P).view) = fun P => (s.mm P).view :=
  funext fun P => (alike P).mm.view_eq

theorem Alike.symm {s s' : Sys ι} (alike : s.Alike s') : s'.Alike s := fun P => (alike P).symm

/-- Who made which call, with its status and what can be seen of every process afterwards. -/
structure Shown (ι : Type*) where
  caller : ι
  call : MemoryCall
  status : Int
  views : ι → View

/-- The call without its results, with the process that made it. -/
def Shown.made (shown : Shown ι) : ι × MemoryCall := (shown.caller, shown.call)

variable [DecidableEq ι]

/-- A process makes a call, and the label tells its status and what can be seen behind it. -/
def ShownStep (s : Sys ι) (shown : Shown ι) (t : Sys ι) : Prop :=
  (∃ data, MemoryStep s (shown.caller, shown.call, shown.status, data) t) ∧
    shown.views = fun P => (t.mm P).view

/-- Two systems can make the same calls with the same results, and the results of the same
calls are the same. -/
structure SameBehaviour (s s' : Sys ι) : Prop where
  possible : ∀ history, (∃ t, Run ShownStep s history t) ↔ ∃ t, Run ShownStep s' history t
  agree : ∀ {history history' t t'}, Run ShownStep s history t → Run ShownStep s' history' t' →
    history.map Shown.made = history'.map Shown.made → history = history'

variable {s s' t t' : Sys ι} {shown shown' : Shown ι}

/-- A process of each system makes a call and is alike afterwards. -/
theorem Alike.put (alike : s.Alike s') (P : ι) {c c' : Caller} (same : c.Alike c') :
    (s.put P c).Alike (s'.put P c') := by
  intro Q
  refine ⟨?_, same.ramSize, same.ramFree, same.swapFree⟩
  by_cases self : Q = P
  · subst self
    simpa only [caller_put] using same.mm
  · simp only [caller, put_mm_of_ne _ self]
    exact (alike Q).mm

/-- A step of one system is a step of the other. -/
theorem Alike.step (alike : s.Alike s') (taken : ShownStep s shown t) :
    ∃ t', ShownStep s' shown t' ∧ t.Alike t' := by
  obtain ⟨⟨data, inRange, u, before, c, ran, rfl⟩, views⟩ := taken
  obtain ⟨byte, c', ran', same⟩ := (alike shown.caller).memoryCall inRange ran u before
  have after := alike.put shown.caller same
  refine ⟨s'.put shown.caller c', ⟨⟨byte, inRange, u, before, c', ran', rfl⟩, ?_⟩, after⟩
  rw [views, after.views]

/-- Steps of the two systems with the same call show the same. -/
theorem Alike.steps (alike : s.Alike s') (taken : ShownStep s shown t)
    (taken' : ShownStep s' shown' t') (made : shown.made = shown'.made) :
    shown = shown' ∧ t.Alike t' := by
  obtain ⟨P, call, status, views⟩ := shown
  obtain ⟨Q, call', status', views'⟩ := shown'
  obtain ⟨rfl, rfl⟩ := Prod.mk.inj made
  obtain ⟨⟨data, inRange, u, before, c, ran, rfl⟩, seen⟩ := taken
  obtain ⟨⟨data', -, u', before', c', ran', rfl⟩, seen'⟩ := taken'
  obtain ⟨byte, reached, expected, same⟩ := (alike P).memoryCall inRange ran u' before'
  simp only at ran' seen seen'
  rw [expected, Option.some.injEq, Prod.mk.injEq, Prod.mk.injEq] at ran'
  obtain ⟨rfl, rfl, rfl⟩ := ran'
  have after := alike.put P same
  exact ⟨by rw [seen, seen', after.views], after⟩

/-- Two systems that are alike behave the same. -/
theorem Alike.sameBehaviour (alike : s.Alike s') : SameBehaviour s s' where
  possible := by
    have follows : ∀ {s s' : Sys ι}, s.Alike s' → ∀ history,
        (∃ t, Run ShownStep s history t) → ∃ t, Run ShownStep s' history t := by
      rintro s s' alike history ⟨t, run⟩
      have matched : ∀ (source : Sys ι) shown target mirror, source.Alike mirror →
          ShownStep source shown target → ∃ reached, ShownStep mirror shown reached ∧
            target.Alike reached := fun _ _ _ _ related taken => related.step taken
      obtain ⟨t', run', -⟩ := Run.simulate Alike some matched run alike
      exact ⟨t', by rwa [List.filterMap_some] at run'⟩
    exact fun history => ⟨follows alike history, follows alike.symm history⟩
  agree := by
    intro history history' t t' run run' calls
    have agrees : history.filterMap some = history'.filterMap some ∧ t.Alike t' := by
      refine Run.agree Alike some some Shown.made ?_ ?_ ?_ run run' ?_ alike
      · intro _ _ _ _ _ _ hides
        cases hides
      · intro _ _ _ _ _ _ hides
        cases hides
      · rintro _ _ _ _ _ _ seen seen' alike taken taken' ⟨⟩ ⟨⟩ made
        exact alike.steps taken taken' made
      · simpa only [List.filterMap_some] using calls
    simpa only [List.filterMap_some] using agrees.1

/-- **Memory that was never written does not matter** in any run, if what the calls read
of it was the same: the calls have the same statuses, and the same regions and pages can
be seen after each. -/
theorem unwritten_memory_unseen {raw raw' : ι → MmStruct} (mram activeMswp : Memphy)
    (fresh : ∀ P, (raw P).rgHeap.top = 0) (fresh' : ∀ P, (raw' P).rgHeap.top = 0)
    (alike : ∀ P, (raw P).MallocAlike (raw' P)) :
    SameBehaviour (loaded raw mram activeMswp) (loaded raw' mram activeMswp) :=
  Alike.sameBehaviour fun P => ⟨(alike P).initMm (fresh P) (fresh' P), rfl, rfl, rfl⟩

/-- Memory that holds something in every place but those that the calls read. -/
def stained : MmStruct where
  pgd := fun _ => 0
  mmap := ⟨7, 7, 7, none⟩
  rgHeap := ⟨fun _ => ⟨⟨7, 7⟩, some 7⟩, 0, fun _ => true⟩
  symrgtbl := fun r => if r < 30 then ⟨0, 0⟩ else ⟨7, 7⟩
  fifoPgn := []

/-- A system whose memory held something behaves as one on zero-filled memory, as the stains are in
places that no call reads. -/
theorem unwritten_memory_unseen_stained :
    SameBehaviour
      (loaded (fun _ : Unit => MmStruct.zeroed) (boot Unit 512 512).mram
        (boot Unit 512 512).activeMswp)
      (loaded (fun _ : Unit => stained) (boot Unit 512 512).mram
        (boot Unit 512 512).activeMswp) := by
  refine unwritten_memory_unseen _ _ (fun _ => rfl) (fun _ => rfl) fun _ =>
    ⟨rfl, rfl, rfl, rfl, fun r inside => ?_⟩
  have listed : (r : Int) < 30 := by exact_mod_cast inside
  exact if_pos listed

/-- Memory with a region of 100 bytes in every entry of the symbol table. -/
def regionsLeft : MmStruct := { MmStruct.zeroed with symrgtbl := fun _ => ⟨0, 100⟩ }

/-- A process loaded into the memory reads the byte 50 of its variable 0. -/
def readUnwritten (raw : MmStruct) : Option (Int × Byte × Sys Unit) :=
  (loaded (fun _ : Unit => raw) (boot Unit 512 512).mram (boot Unit 512 512).activeMswp).called ()
    (.pgread 0 50)

/-- A variable that was never allocated is read in a region that `malloc` returned. -/
theorem unwritten_region_read : ¬ ∀ (raw raw' : Unit → MmStruct) (mram activeMswp : Memphy),
    (∀ P, (raw P).rgHeap.top = 0) → (∀ P, (raw' P).rgHeap.top = 0) →
      SameBehaviour (loaded raw mram activeMswp) (loaded raw' mram activeMswp) := by
  intro claim
  have same := claim (fun _ => MmStruct.zeroed) (fun _ => regionsLeft) (boot Unit 512 512).mram
    (boot Unit 512 512).activeMswp (fun _ => rfl) (fun _ => rfl)
  have refused : ShownStep _ ⟨(), .pgread 0 50, -1, _⟩
      ((readUnwritten MmStruct.zeroed).get (by decide +kernel)).2.2 :=
    ⟨⟨0, memoryStep_of_called (by decide) _ (by decide +kernel) (by decide +kernel)⟩, rfl⟩
  have accepted : ShownStep _ ⟨(), .pgread 0 50, 0, _⟩
      ((readUnwritten regionsLeft).get (by decide +kernel)).2.2 :=
    ⟨⟨0, memoryStep_of_called (by decide) _ (by decide +kernel) (by decide +kernel)⟩, rfl⟩
  have shown := same.agree (.single refused) (.single accepted) rfl
  have statuses : (-1 : Int) = 0 := congrArg Shown.status (List.cons.inj shown).1
  exact absurd statuses (by decide)

end Sys

end PagedOs
