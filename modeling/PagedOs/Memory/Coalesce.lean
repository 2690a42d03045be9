import PagedOs.Library.Traced
import PagedOs.Memory.FreeRegion

/-! # Joining free neighbours

Which nodes of the free list `enlist_vm_freerg_list` and `delete_vm_rg_node` read and
write, and whether they were freed before. Forgetting that gives back the functions.
A list of regions that neither overlap nor touch stays one, and no freed node is
touched, unless the two neighbours of the new region stand on the list the wrong way
round: the lower one, right behind the upper one, is then the node that leaves with it.
-/

namespace PagedOs

open LinkedHeap Spans

/-- A node that is read or written, and whether it was freed by then. -/
structure Visit where
  node : Nat
  afterFree : Bool
deriving DecidableEq

/-- Read or write a node, which is an event of its own. -/
def visit (h : Heap VmRg) (a : Nat) : Traced Visit Unit := .record ⟨a, h.freed a⟩

namespace MmStruct

/-- `delete_vm_rg_node`, with the nodes that it reads and writes. -/
def deleteVmRgNodeVisiting (h : Heap VmRg) (target : Nat) : Traced Visit (Heap VmRg) := do
  visit h target
  match (h.node target).next with
  | some nextRg => do
      visit h nextRg
      visit h target
      return h.absorb target nextRg
  | none => do
      visit h target
      return h.set target ⟨⟨(h.node target).val.rgEnd, (h.node target).val.rgEnd⟩, none⟩

/-- The loop of `enlist_vm_freerg_list`, with the nodes that it reads. -/
def mergeScanVisiting (h : Heap VmRg) (rgElmt : VmRg) :
    (fuel : Nat) → (rgNodeWalk : Option Nat) → MergeScan → Traced Visit MergeScan
  | _, none, scan => return scan
  | 0, some _, _ => .lift none
  | fuel + 1, some a, scan => do
      visit h a
      let walk := (h.node a).val
      if walk.rgStart = 0 ∧ walk.rgEnd = 0 then return scan
      else
        let scan := if rgElmt.rgEnd = walk.rgStart then
          { scan with nodeNeedDecBase := some a } else scan
        let scan := if rgElmt.rgStart = walk.rgEnd then
          { scan with nodeNeedIncLimit := some a } else scan
        mergeScanVisiting h rgElmt fuel (h.node a).next scan

/-- The new head of the list, written to a node from malloc. -/
def pushNodeVisiting (mm : MmStruct) (h : Heap VmRg) (newNode : Nat) : Traced Visit MmStruct := do
  if mm.mmap.vmFreergList.isSome then visit h newNode
  return mm.pushNode h newNode

/-- `enlist_vm_freerg_list`, with the nodes that it reads and writes. -/
def enlistVmFreergListVisiting (mm : MmStruct) (rgElmt : VmRg) : Traced Visit (Int × MmStruct) :=
  let h := mm.rgHeap
  if rgElmt.rgEnd ≤ rgElmt.rgStart then return (-1, mm)
  else do
    let scan ← mergeScanVisiting h rgElmt h.top mm.mmap.vmFreergList ⟨none, none⟩
    match scan.nodeNeedDecBase, scan.nodeNeedIncLimit with
    | some up, none => do
        visit h up
        return (1, { mm with rgHeap := h.setVal up ⟨rgElmt.rgStart, (h.node up).val.rgEnd⟩ })
    | none, some down => do
        visit h down
        return (1, { mm with rgHeap := h.setVal down ⟨(h.node down).val.rgStart, rgElmt.rgEnd⟩ })
    | some up, some down => do
        visit h up
        visit h down
        let merged := ⟨(h.node down).val.rgStart, (h.node up).val.rgEnd⟩
        let (newNode, h) := h.malloc
        visit h newNode
        let h := h.setVal newNode merged
        let h ← deleteVmRgNodeVisiting h up
        let h ← deleteVmRgNodeVisiting h down
        let area ← mm.pushNodeVisiting h newNode
        return (0, area)
    | none, none => do
        let (newNode, h) := h.malloc
        visit h newNode
        let area ← mm.pushNodeVisiting (h.setVal newNode rgElmt) newNode
        return (0, area)

@[simp] theorem visit_result (h : Heap VmRg) (a : Nat) : (visit h a).result = some () := rfl

/-- The traced deletion of a node computes what the deletion does. -/
@[simp] theorem deleteVmRgNodeVisiting_result (h : Heap VmRg) (target : Nat) :
    (deleteVmRgNodeVisiting h target).result = some (deleteVmRgNode h target) := by
  cases follows : (h.node target).next <;>
    simp only [deleteVmRgNodeVisiting, deleteVmRgNode, follows, Traced.result_bind, visit_result,
      Option.bind_some, Traced.result_pure]

/-- The traced push of a node computes what the push does. -/
@[simp] theorem pushNodeVisiting_result (mm : MmStruct) (h : Heap VmRg) (newNode : Nat) :
    (mm.pushNodeVisiting h newNode).result = some (mm.pushNode h newNode) := by
  unfold pushNodeVisiting
  split <;> rfl

/-- The traced scan for neighbours computes what the scan does, with the same fuel. -/
@[simp] theorem mergeScanVisiting_result (h : Heap VmRg) (rg : VmRg) (fuel : Nat)
    (link : Option Nat) (scan : MergeScan) :
    (mergeScanVisiting h rg fuel link scan).result = mergeScan h rg fuel link scan := by
  induction fuel generalizing link scan with
  | zero => cases link <;> rfl
  | succ fuel ih =>
      cases link with
      | none => rfl
      | some a =>
          simp only [mergeScanVisiting, mergeScan, Traced.result_bind, visit_result,
            Option.bind_some]
          by_cases marker : (h.node a).val.rgStart = 0 ∧ (h.node a).val.rgEnd = 0
          · simp only [marker, and_self, ↓reduceIte, Traced.result_pure]
          · simp only [marker, ↓reduceIte, ih]

theorem enlistVmFreergListVisiting_result (mm : MmStruct) (rg : VmRg) :
    (mm.enlistVmFreergListVisiting rg).result = mm.enlistVmFreergList rg := by
  unfold enlistVmFreergListVisiting enlistVmFreergList
  split
  · rfl
  · rw [Traced.result_bind, mergeScanVisiting_result, Option.map_eq_bind]
    apply Option.bind_congr
    rintro ⟨upper, lower⟩ -
    cases upper <;> cases lower <;>
      simp only [Traced.result_bind, visit_result, deleteVmRgNodeVisiting_result,
        pushNodeVisiting_result, Option.bind_some, Traced.result_pure, Function.comp_apply]

/-! ## Which nodes are touched -/

/-- The nodes touched were not freed before. -/
def Live (v : Visit) : Prop := v.afterFree = false

/-- Visiting a node that was not freed is no access after a free. -/
theorem visit_live {h : Heap VmRg} {a : Nat} (live : h.freed a = false) :
    Traced.Always Live (visit h a) := .record live

/-- Deleting a node of a list touches live nodes only. -/
theorem deleteVmRgNodeVisiting_live {h : Heap VmRg} {link : Option Nat} {nodes : List Nat}
    (linked : Linked h link nodes) {target : Nat} (member : target ∈ nodes) :
    Traced.Always Live (deleteVmRgNodeVisiting h target) := by
  have alive := (linked.live target member).2
  unfold deleteVmRgNodeVisiting
  refine .bind (visit_live alive) fun _ _ => ?_
  cases follows : (h.node target).next with
  | none => exact .bind (visit_live alive) fun _ _ => .pure _
  | some nextRg =>
      obtain ⟨front, back, rfl⟩ := linked.next_eq_some member follows
      have next : nextRg ∈ front ++ target :: nextRg :: back :=
        List.mem_append_right _ (List.mem_cons_of_mem _ List.mem_cons_self)
      refine .bind (visit_live (linked.live nextRg next).2) fun _ _ => ?_
      exact .bind (visit_live alive) fun _ _ => .pure _

/-- The search touches the nodes of the list. -/
theorem mergeScanVisiting_live {h : Heap VmRg} {rg : VmRg} {link : Option Nat} {nodes : List Nat}
    (reaches : Reaches h link nodes) (live : ∀ a ∈ nodes, h.freed a = false) (fuel : Nat)
    (scan : MergeScan) : Traced.Always Live (mergeScanVisiting h rg fuel link scan) := by
  induction nodes generalizing link fuel scan with
  | nil =>
      rw [show link = none from reaches]
      cases fuel <;> exact .pure scan
  | cons a nodes ih =>
      rw [reaches.1]
      cases fuel with
      | zero => exact .lift none
      | succ fuel =>
          refine .bind (visit_live (live a List.mem_cons_self)) fun _ _ => ?_
          by_cases marker : (h.node a).val.rgStart = 0 ∧ (h.node a).val.rgEnd = 0
          · simp only [marker, and_self, ↓reduceIte]
            exact .pure scan
          · simp only [marker, ↓reduceIte]
            exact ih reaches.2 (fun b member => live b (List.mem_cons_of_mem _ member)) _ _

/-- Pushing a node that was not freed is no access after a free. -/
theorem pushNodeVisiting_live {mm : MmStruct} {h : Heap VmRg} {newNode : Nat}
    (live : h.freed newNode = false) : Traced.Always Live (mm.pushNodeVisiting h newNode) := by
  unfold pushNodeVisiting
  split
  · exact .bind (visit_live live) fun _ _ => .pure _
  · exact .pure _

/-- **No freed node is touched** if the two neighbours do not stand the wrong way round. -/
theorem enlistVmFreergListVisiting_live {mm : MmStruct} {regions : List VmRg}
    (list : FreeList mm regions) {rg : VmRg} (safe : wedged rg mm.freeRegions = false) :
    Traced.Always Live (mm.enlistVmFreergListVisiting rg) := by
  obtain ⟨nodes, chain⟩ := list
  have live : ∀ a ∈ nodes, mm.rgHeap.freed a = false := fun a member =>
    (chain.linked.live a member).2
  unfold enlistVmFreergListVisiting
  by_cases empty : rg.rgEnd ≤ rg.rgStart
  · rw [if_pos empty]
    exact .pure _
  have proper : rg.rgStart < rg.rgEnd := BitVec.not_le.mp empty
  rw [if_neg empty]
  refine .bind (mergeScanVisiting_live chain.linked.reaches live _ _) fun scan searched => ?_
  obtain ⟨⟨upper, lower⟩, found, sound⟩ := mergeScan_found chain rg
  rw [mergeScanVisiting_result, found, Option.some.injEq] at searched
  subst searched
  cases upper with
  | none =>
      cases lower with
      | none =>
          obtain ⟨-, detached, -, -⟩ := chain.allocate rg
          refine .bind (visit_live ?_) fun _ _ =>
            .bind (pushNodeVisiting_live ?_) fun _ _ => .pure _
          · exact detached.live.2
          · exact detached.live.2
      | some down =>
          exact .bind (visit_live (live down (sound.down down rfl).1)) fun _ _ => .pure _
  | some up =>
      have above := sound.up up rfl
      cases lower with
      | none => exact .bind (visit_live (live up above.1)) fun _ _ => .pure _
      | some down =>
          have below := sound.down down rfl
          obtain ⟨chain₁, detached₁, same, -⟩ :=
            chain.allocate ⟨(mm.rgHeap.node down).val.rgStart, (mm.rgHeap.node up).val.rgEnd⟩
          obtain ⟨b, front, back, rest, follows, rfl, -, chain₂, downStays, downSame⟩ :=
            delete_upper chain chain₁ same proper safe above below
          obtain ⟨b₂, front₂, back₂, rest₂, follows₂, shape₂, -, -⟩ :=
            chain₂.delete downStays (by rw [downSame]; exact below.2.2)
          have detached₃ := (shape₂ ▸ detached₁.delete follows).delete follows₂
          refine .bind (visit_live (live up above.1)) fun _ _ => ?_
          refine .bind (visit_live (live down below.1)) fun _ _ => ?_
          refine .bind (visit_live detached₁.live.2) fun _ _ => ?_
          refine .bind (deleteVmRgNodeVisiting_live chain₁.linked above.1) fun h₂ deleted => ?_
          rw [deleteVmRgNodeVisiting_result, Option.some.injEq] at deleted
          subst deleted
          refine .bind (deleteVmRgNodeVisiting_live chain₂.linked downStays) fun h₃ deleted => ?_
          rw [deleteVmRgNodeVisiting_result, Option.some.injEq] at deleted
          subst deleted
          exact .bind (pushNodeVisiting_live detached₃.live.2) fun _ _ => .pure _

/-! ## Regions that neither overlap nor touch -/

/-- Two regions without a common byte, neither of which begins where the other ends. -/
def Separate (left right : VmRg) : Prop :=
  Apart left.span right.span ∧ left.rgEnd ≠ right.rgStart ∧ right.rgEnd ≠ left.rgStart

theorem Separate.symm {left right : VmRg} (separate : Separate left right) :
    Separate right left :=
  ⟨fun x both => separate.1 x both.symm, separate.2.2, separate.2.1⟩

/-- Two proper regions are apart when one of them ends before the other begins. -/
theorem apart_span_iff {left right : VmRg} (first : left.rgStart < left.rgEnd)
    (second : right.rgStart < right.rgEnd) : Apart left.span right.span ↔
      left.rgEnd.toNat ≤ right.rgStart.toNat ∨ right.rgEnd.toNat ≤ left.rgStart.toNat :=
  apart_iff (BitVec.lt_def.mp first) (BitVec.lt_def.mp second)

/-- Between two regions that are not empty there is at least one byte. -/
theorem separate_iff {left right : VmRg} (first : left.rgStart < left.rgEnd)
    (second : right.rgStart < right.rgEnd) : Separate left right ↔
      left.rgEnd.toNat < right.rgStart.toNat ∨ right.rgEnd.toNat < left.rgStart.toNat := by
  rw [Separate, apart_span_iff first second, ne_eq, ne_eq, ← BitVec.toNat_inj, ← BitVec.toNat_inj]
  have := BitVec.lt_def.mp first
  have := BitVec.lt_def.mp second
  omega

/-- The joint region does not touch the regions that are left. -/
theorem Joins.separate {rg joint other : VmRg} {regions merged : List VmRg}
    (joins : Joins rg regions merged joint) (proper : rg.rgStart < rg.rgEnd)
    (parts : ∀ part ∈ merged, part.rgStart < part.rgEnd) (member : other ∈ regions)
    (otherProper : other.rgStart < other.rgEnd) (apart : Apart rg.span other.span)
    (separate : ∀ part ∈ merged, Separate part other) : Separate joint other := by
  have whole := BitVec.lt_def.mp proper
  have away := (apart_span_iff proper otherProper).mp apart
  have extent := BitVec.lt_def.mp otherProper
  have jointProper := joins.proper proper parts
  cases joins with
  | alone noUpper noLower =>
      exact ⟨apart, noUpper other member, (noLower other member).symm⟩
  | upper up meets noLower =>
      have upProper := parts up List.mem_cons_self
      have between := (separate_iff upProper otherProper).mp (separate up List.mem_cons_self)
      have := BitVec.lt_def.mp upProper
      have below : rg.rgStart.toNat ≠ other.rgEnd.toNat :=
        mt BitVec.eq_of_toNat_eq (noLower other member)
      have meet := congrArg BitVec.toNat meets
      rw [separate_iff jointProper otherProper]
      simp only
      omega
  | lower down meets noUpper =>
      have downProper := parts down List.mem_cons_self
      have between := (separate_iff downProper otherProper).mp (separate down List.mem_cons_self)
      have := BitVec.lt_def.mp downProper
      have above : rg.rgEnd.toNat ≠ other.rgStart.toNat :=
        mt BitVec.eq_of_toNat_eq (noUpper other member)
      have meet := congrArg BitVec.toNat meets
      rw [separate_iff jointProper otherProper]
      simp only
      omega
  | both up down upMeets downMeets =>
      have upProper := parts up List.mem_cons_self
      have downProper := parts down (List.mem_cons_of_mem _ List.mem_cons_self)
      have above := (separate_iff upProper otherProper).mp (separate up List.mem_cons_self)
      have below := (separate_iff downProper otherProper).mp
        (separate down (List.mem_cons_of_mem _ List.mem_cons_self))
      have := BitVec.lt_def.mp upProper
      have := BitVec.lt_def.mp downProper
      have upMeet := congrArg BitVec.toNat upMeets
      have downMeet := congrArg BitVec.toNat downMeets
      rw [separate_iff jointProper otherProper]
      simp only
      omega

/-- After `rg` was enlisted on a list of these regions, the list is one of live nodes and ends
in the marker, its regions are not empty and neither overlap nor touch, they have the bytes
of the old ones and of `rg`, and no freed node was read or written. -/
def EnlistsExactly (mm : MmStruct) (regions : List VmRg) (rg : VmRg) : Prop :=
  (∃ status mm' regions', mm.enlistVmFreergList rg = some (status, mm') ∧ FreeList mm' regions' ∧
      regions'.Pairwise Separate ∧
      ∀ x, (∃ region ∈ regions', region.Holds x) ↔
        (∃ region ∈ regions, region.Holds x) ∨ rg.Holds x) ∧
    Traced.Always Live (mm.enlistVmFreergListVisiting rg)

/-- The list stays one of regions that neither overlap nor touch. -/
theorem enlistsExactly_of_unwedged {mm : MmStruct} {regions : List VmRg}
    (list : FreeList mm regions) (separate : regions.Pairwise Separate) {rg : VmRg}
    (proper : rg.rgStart < rg.rgEnd) (apart : ∀ other ∈ regions, Apart rg.span other.span)
    (safe : wedged rg mm.freeRegions = false) : mm.EnlistsExactly regions rg := by
  obtain ⟨status, mm', regions', merged, joint, rest, returned, -, list', joins, before, after⟩ :=
    enlistVmFreergList_joins list proper safe
  have parts : ∀ part ∈ merged, part ∈ regions := fun part member =>
    before.mem_iff.mpr (List.mem_append_left _ member)
  have others : ∀ other ∈ rest, other ∈ regions := fun other member =>
    before.mem_iff.mpr (List.mem_append_right _ member)
  obtain ⟨-, restSeparate, across⟩ :=
    List.pairwise_append.mp ((before.pairwise_iff Separate.symm).mp separate)
  refine ⟨⟨status, mm', regions', returned, list', ?_, fun x => ?_⟩,
    enlistVmFreergListVisiting_live list safe⟩
  · rw [after.pairwise_iff Separate.symm]
    refine .cons (fun other member => ?_) restSeparate
    apply joins.separate proper (fun part inside => list.proper part (parts part inside))
      (others other member) (list.proper other (others other member))
      (apart other (others other member))
    exact fun part inside => across part inside other member
  · rw [← covers_pos_iff, ← covers_pos_iff, ← VmRg.covers_span_pos_iff, covers_perm after,
      covers_perm before, spans_cons, covers_cons, spans_append, covers_append,
      joins.covers proper fun part inside => list.proper part (parts part inside)]
    omega

/-- Two nodes of a list of disjoint regions that hold the same byte are the same node. -/
theorem node_unique {h : Heap VmRg} {link : Option Nat} {nodes : List Nat} {regions : List VmRg}
    (chain : FreeChain h link nodes regions) (separate : regions.Pairwise Separate) {a b x : Nat}
    (first : a ∈ nodes) (second : b ∈ nodes) (inFirst : (h.node a).val.Holds x)
    (inSecond : (h.node b).val.Holds x) : a = b := by
  by_contra different
  have apart : (spans regions).Pairwise Apart := by
    rw [spans, List.pairwise_map]
    exact separate.imp fun both => both.1
  have once : ∀ x, covers (nodes.map fun a => (h.node a).val.span) x ≤ 1 := fun x => by
    have all : nodes.map (fun a => (h.node a).val.span) = spans (regions ++ [⟨0, 0⟩]) := by
      rw [← chain.values, spans, vals, List.map_map]
      rfl
    rw [all, covers_marker]
    exact covers_le_one apart x
  exact family_apart once first second different x ⟨holds_iff.mpr inFirst, holds_iff.mpr inSecond⟩

/-- The search finds the neighbours that are on the list. -/
theorem mergeScan_neighbours {h : Heap VmRg} {link : Option Nat} {nodes : List Nat}
    {regions : List VmRg} (chain : FreeChain h link nodes regions)
    (separate : regions.Pairwise Separate) {rg : VmRg} {up down : Nat}
    (above : Above h nodes rg up) (below : Below h nodes rg down) :
    mergeScan h rg h.top link ⟨none, none⟩ = some ⟨some up, some down⟩ := by
  obtain ⟨⟨upper, lower⟩, searched, sound⟩ := mergeScan_found chain rg
  obtain ⟨noUpper, noLower⟩ :=
    mergeScan_complete chain.linked.reaches chain.values chain.proper searched
  obtain ⟨upIn, upMeets, upProper⟩ := above
  obtain ⟨downIn, downMeets, downProper⟩ := below
  have upListed := chain.listed upIn (FreeChain.ne_marker upProper)
  have downListed := chain.listed downIn (FreeChain.ne_marker downProper)
  cases upper with
  | none => exact absurd upMeets ((noUpper rfl).2 _ upListed)
  | some u =>
      cases lower with
      | none => exact absurd downMeets ((noLower rfl).2 _ downListed)
      | some d =>
          obtain ⟨uIn, uMeets, uProper⟩ := sound.up u rfl
          obtain ⟨dIn, dMeets, dProper⟩ := sound.down d rfl
          have sameUp : u = up := by
            apply node_unique chain separate uIn upIn (x := rg.rgEnd.toNat)
            · exact ⟨(congrArg BitVec.toNat uMeets).ge, uMeets ▸ BitVec.lt_def.mp uProper⟩
            · exact ⟨(congrArg BitVec.toNat upMeets).ge, upMeets ▸ BitVec.lt_def.mp upProper⟩
          have sameDown : d = down := by
            have first := BitVec.lt_def.mp dProper
            have second := BitVec.lt_def.mp downProper
            have := congrArg BitVec.toNat dMeets
            have := congrArg BitVec.toNat downMeets
            apply node_unique chain separate dIn downIn (x := rg.rgStart.toNat - 1)
            · exact ⟨by omega, by omega⟩
            · exact ⟨by omega, by omega⟩
          rw [searched, sameUp, sameDown]

/-- The node that leaves with the region of another one is freed. -/
theorem deleteVmRgNode_frees {h : Heap VmRg} {a b : Nat} (follows : (h.node a).next = some b) :
    (deleteVmRgNode h a).freed b = true := by
  simp only [deleteVmRgNode, follows, Heap.absorb, Heap.free, Function.update_self]

/-- **The neighbours stand the wrong way round**: the lower one is freed with the upper one, and
read after that. -/
theorem wedged_touches_freed {mm : MmStruct} {regions : List VmRg} (list : FreeList mm regions)
    (separate : regions.Pairwise Separate) {rg : VmRg} (proper : rg.rgStart < rg.rgEnd)
    (stuck : wedged rg mm.freeRegions = true) :
    ¬ Traced.Always Live (mm.enlistVmFreergListVisiting rg) := by
  obtain ⟨nodes, chain⟩ := list
  rw [freeRegions, chain.linked.values_eq] at stuck
  obtain ⟨early, upper, lower, late, split, upMeets, downMeets, real⟩ := wedged_iff.mp stuck
  obtain ⟨front, fromUp, rfl, -, values⟩ := List.map_eq_append_iff.mp split
  obtain ⟨up, fromDown, rfl, rfl, later⟩ := List.map_eq_cons_iff.mp values
  obtain ⟨down, back, rfl, rfl, -⟩ := List.map_eq_cons_iff.mp later
  have upIn : up ∈ front ++ up :: down :: back := List.mem_append_right _ List.mem_cons_self
  have downIn : down ∈ front ++ up :: down :: back :=
    List.mem_append_right _ (List.mem_cons_of_mem _ List.mem_cons_self)
  have upReal : (mm.rgHeap.node up).val ≠ ⟨0, 0⟩ := fun zero => by
    rw [upMeets, zero] at proper
    exact absurd proper BitVec.not_lt_zero
  have upProper := chain.proper _ (chain.listed upIn upReal)
  have downProper := chain.proper _ (chain.listed downIn real)
  have follows : (mm.rgHeap.node up).next = some down := chain.linked.reaches.append_inv.1
  have searched := mergeScan_neighbours chain separate ⟨upIn, upMeets, upProper⟩
    ⟨downIn, downMeets, downProper⟩
  obtain ⟨-, -, same, -⟩ :=
    chain.allocate ⟨(mm.rgHeap.node down).val.rgStart, (mm.rgHeap.node up).val.rgEnd⟩
  intro live
  unfold enlistVmFreergListVisiting at live
  rw [if_neg (BitVec.not_le.mpr proper)] at live
  -- the lower neighbour is the node that the deletion of the upper one frees
  have again : (⟨down, true⟩ : Visit) ∈ (deleteVmRgNodeVisiting (deleteVmRgNode
      (mm.rgHeap.malloc.2.setVal mm.rgHeap.top
        ⟨(mm.rgHeap.node down).val.rgStart, (mm.rgHeap.node up).val.rgEnd⟩) up) down).events := by
    have freed := deleteVmRgNode_frees ((congrArg Node.next (same up upIn)).trans follows)
    exact Traced.mem_events_of_first (List.mem_singleton.mpr (by rw [freed]))
  have touched := live ⟨down, true⟩ (Traced.mem_events_bind.mpr (.inr
    ⟨⟨some up, some down⟩, (mergeScanVisiting_result ..).trans searched, ?_⟩))
  · cases touched
  iterate 3 refine Traced.mem_events_bind.mpr (.inr ⟨(), rfl, ?_⟩)
  refine Traced.mem_events_bind.mpr (.inr ⟨_, deleteVmRgNodeVisiting_result .., ?_⟩)
  exact Traced.mem_events_of_first again

/-- **Freeing a region extends the free list exactly** if and only if its lower neighbour does
not stand right behind its upper neighbour on the list. -/
theorem enlistVmFreergList_exact_iff {mm : MmStruct} {regions : List VmRg}
    (list : FreeList mm regions) (separate : regions.Pairwise Separate) {rg : VmRg}
    (proper : rg.rgStart < rg.rgEnd) (apart : ∀ other ∈ regions, Apart rg.span other.span) :
    mm.EnlistsExactly regions rg ↔ wedged rg mm.freeRegions = false := by
  refine ⟨fun exact_ => ?_, enlistsExactly_of_unwedged list separate proper apart⟩
  cases stuck : wedged rg mm.freeRegions with
  | false => rfl
  | true => exact absurd exact_.2 (wedged_touches_freed list separate proper stuck)

/-- A process with two free regions, one behind the other on its list. -/
def freeOf (first second : VmRg) : MmStruct :=
  { zeroed with
    mmap := ⟨0, 512, 300, some 2⟩
    rgHeap := ⟨fun a => if a = 2 then ⟨first, some 1⟩ else if a = 1 then ⟨second, some 0⟩
      else ⟨⟨0, 0⟩, none⟩, 3, fun _ => false⟩ }

/-- The heap with two nodes has a free list of these two regions. -/
theorem freeList_freeOf {first second : VmRg} (firstProper : first.rgStart < first.rgEnd)
    (secondProper : second.rgStart < second.rgEnd) :
    FreeList (freeOf first second) [first, second] := by
  have allocated : ∀ a ∈ [2, 1, 0], a < 3 := by decide
  refine ⟨[2, 1, 0], ⟨⟨rfl, rfl, rfl, rfl⟩, by decide, fun a member => ?_⟩, rfl, ?_⟩
  · exact ⟨allocated a member, rfl⟩
  · exact List.forall_mem_cons.mpr ⟨firstProper, List.forall_mem_singleton.mpr secondProper⟩

/-- Two variables of 100 bytes are free, and the one between them is freed: this joins all three
if the lower one stands first on the list. -/
theorem enlistVmFreergList_exact_lower_first :
    (freeOf ⟨0, 100⟩ ⟨200, 300⟩).EnlistsExactly [⟨0, 100⟩, ⟨200, 300⟩] ⟨100, 200⟩ := by
  have list : FreeList (freeOf ⟨0, 100⟩ ⟨200, 300⟩) [⟨0, 100⟩, ⟨200, 300⟩] :=
    freeList_freeOf (by decide) (by decide)
  refine (enlistVmFreergList_exact_iff list ?_ (show (100 : ULong) < 200 by decide) ?_).mpr
    (by decide +kernel)
  · refine List.pairwise_pair.mpr ((separate_iff ?_ ?_).mpr ?_) <;> decide
  · refine List.forall_mem_cons.mpr ⟨?_, List.forall_mem_singleton.mpr ?_⟩
    · exact (apart_span_iff (by decide) (by decide)).mpr (by decide)
    · exact (apart_span_iff (by decide) (by decide)).mpr (by decide)

/-- If the upper one stands first, a freed node is read. -/
theorem enlistVmFreergList_upper_first : ¬ ∀ (mm : MmStruct) (regions : List VmRg) (rg : VmRg),
    FreeList mm regions → regions.Pairwise Separate → rg.rgStart < rg.rgEnd →
      (∀ other ∈ regions, Apart rg.span other.span) → mm.EnlistsExactly regions rg := by
  intro claim
  have exact_ := claim (freeOf ⟨200, 300⟩ ⟨0, 100⟩) [⟨200, 300⟩, ⟨0, 100⟩] ⟨100, 200⟩
    (freeList_freeOf (by decide) (by decide)) ?_ (by decide) ?_
  · have touched : (⟨1, true⟩ : Visit) ∈
        ((freeOf ⟨200, 300⟩ ⟨0, 100⟩).enlistVmFreergListVisiting ⟨100, 200⟩).events := by
      decide +kernel
    cases exact_.2 _ touched
  · refine List.pairwise_pair.mpr ((separate_iff ?_ ?_).mpr ?_) <;> decide
  · refine List.forall_mem_cons.mpr ⟨?_, List.forall_mem_singleton.mpr ?_⟩
    · exact (apart_span_iff (by decide) (by decide)).mpr (by decide)
    · exact (apart_span_iff (by decide) (by decide)).mpr (by decide)

end MmStruct

end PagedOs
