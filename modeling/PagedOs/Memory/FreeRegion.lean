import PagedOs.Library.Spans
import PagedOs.Memory.Structs

/-! # The free region list

`enlist_vm_freerg_list`, `delete_vm_rg_node` and `get_free_vmrg_area` of `mm-vm.c`
on the nodes of the heap, and what they do to the regions on the list. The list
ends in the node of the region `(0, 0)` that `init_mm` puts there. A walk that
goes round in a circle makes the C function run forever; the result is then
`none`.
-/

namespace PagedOs

open LinkedHeap

/-- The addresses of a region, from its start to the byte in front of its end. -/
def VmRg.span (rg : VmRg) : Nat × Nat := (rg.rgStart.toNat, rg.rgEnd.toNat)

/-- The addresses of some regions, as spans in the order of the regions. -/
def spans (regions : List VmRg) : List (Nat × Nat) := regions.map VmRg.span

namespace MmStruct

/-- `delete_vm_rg_node`: the node behind is copied over this one and freed. -/
def deleteVmRgNode (h : Heap VmRg) (target : Nat) : Heap VmRg :=
  match (h.node target).next with
  | some nextRg => h.absorb target nextRg
  | none => h.set target ⟨⟨(h.node target).val.rgEnd, (h.node target).val.rgEnd⟩, none⟩

/-- The pointers the search of `enlist_vm_freerg_list` sets; a flag of the source
is set exactly when its pointer is. -/
structure MergeScan where
  nodeNeedDecBase : Option Nat
  nodeNeedIncLimit : Option Nat

/-- The loop of `enlist_vm_freerg_list`, which looks for the neighbours of a region. -/
def mergeScan (h : Heap VmRg) (rgElmt : VmRg) :
    (fuel : Nat) → (rgNodeWalk : Option Nat) → MergeScan → Option MergeScan
  | _, none, scan => some scan
  | 0, some _, _ => none
  | fuel + 1, some a, scan =>
      let walk := (h.node a).val
      if walk.rgStart = 0 ∧ walk.rgEnd = 0 then some scan
      else
        let scan := if rgElmt.rgEnd = walk.rgStart then
          { scan with nodeNeedDecBase := some a } else scan
        let scan := if rgElmt.rgStart = walk.rgEnd then
          { scan with nodeNeedIncLimit := some a } else scan
        mergeScan h rgElmt fuel (h.node a).next scan

/-- `new_node->rg_next = rg_node_head`, which is skipped for an empty list, and the
new head of the list. -/
def pushNode (mm : MmStruct) (h : Heap VmRg) (newNode : Nat) : MmStruct :=
  let head := mm.mmap.vmFreergList
  let h := if head.isSome then h.set newNode ⟨(h.node newNode).val, head⟩ else h
  { mm with rgHeap := h, mmap := { mm.mmap with vmFreergList := some newNode } }

/-- `enlist_vm_freerg_list`: a region joins its neighbours on the list, or is put in front. -/
def enlistVmFreergList (mm : MmStruct) (rgElmt : VmRg) : Option (Int × MmStruct) :=
  let h := mm.rgHeap
  if rgElmt.rgEnd ≤ rgElmt.rgStart then some (-1, mm)
  else
    (mergeScan h rgElmt h.top mm.mmap.vmFreergList ⟨none, none⟩).map fun scan =>
      match scan.nodeNeedDecBase, scan.nodeNeedIncLimit with
      | some up, none =>
          (1, { mm with rgHeap := h.setVal up ⟨rgElmt.rgStart, (h.node up).val.rgEnd⟩ })
      | none, some down =>
          (1, { mm with rgHeap := h.setVal down ⟨(h.node down).val.rgStart, rgElmt.rgEnd⟩ })
      | some up, some down =>
          let merged := ⟨(h.node down).val.rgStart, (h.node up).val.rgEnd⟩
          let (newNode, h) := h.malloc
          let h := h.setVal newNode merged
          let h := deleteVmRgNode h up
          let h := deleteVmRgNode h down
          (0, mm.pushNode h newNode)
      | none, none =>
          let (newNode, h) := h.malloc
          (0, mm.pushNode (h.setVal newNode rgElmt) newNode)

/-- The search of `get_free_vmrg_area` for the first region of enough size. -/
def findFit (h : Heap VmRg) (size : Int) : (fuel : Nat) → (rgit : Option Nat) → Option (Option Nat)
  | _, none => some none
  | 0, some _ => none
  | fuel + 1, some rgit =>
      if (h.node rgit).val.rgStart + toULong size ≤ (h.node rgit).val.rgEnd then some (some rgit)
      else findFit h size fuel (h.node rgit).next

/-- The region of a node after `size` bytes at its start were given away. -/
def carve (h : Heap VmRg) (size : Int) (rgit : Nat) : Heap VmRg :=
  let region := (h.node rgit).val
  if region.rgStart + toULong size < region.rgEnd then
    h.setVal rgit ⟨region.rgStart + toULong size, region.rgEnd⟩
  else deleteVmRgNode h rgit

/-- `get_free_vmrg_area`, with the region it returns when it succeeds. -/
def getFreeVmrgArea (mm : MmStruct) (size : Int) : Option (Option VmRg × MmStruct) :=
  let h := mm.rgHeap
  (findFit h size h.top mm.mmap.vmFreergList).map fun found =>
    match found with
    | none => (none, mm)
    | some rgit =>
        let start := (h.node rgit).val.rgStart
        (if start = -1 then none else some ⟨start, start + toULong size⟩,
          { mm with rgHeap := carve h size rgit })

/-- The regions on the free list, in its order. -/
def freeRegions (mm : MmStruct) : List VmRg := mm.rgHeap.values mm.mmap.vmFreergList

/-- Freeing `rg` finds both of its neighbours on the free list, and the lower one
right behind the upper one. -/
def wedged (rg : VmRg) : List VmRg → Bool
  | upper :: lower :: rest =>
      (rg.rgEnd = upper.rgStart ∧ rg.rgStart = lower.rgEnd ∧ lower ≠ ⟨0, 0⟩) ||
        wedged rg (lower :: rest)
  | _ => false

end MmStruct

/-! ## The regions on the list -/

/-- The nodes of a free list: non-empty regions and then the region `(0, 0)`. -/
structure FreeChain (h : Heap VmRg) (link : Option Nat) (nodes : List Nat)
    (regions : List VmRg) : Prop where
  linked : Linked h link nodes
  values : vals h nodes = regions ++ [⟨0, 0⟩]
  proper : ∀ rg ∈ regions, rg.rgStart < rg.rgEnd

/-- The regions on the free list of a process, the last one left out. -/
def FreeList (mm : MmStruct) (regions : List VmRg) : Prop :=
  ∃ nodes, FreeChain mm.rgHeap mm.mmap.vmFreergList nodes regions

/-- The regions of the list in memory end with the null marker that `init_mm` put there. -/
theorem FreeList.freeRegions_eq {mm : MmStruct} {regions : List VmRg}
    (list : FreeList mm regions) : mm.freeRegions = regions ++ [⟨0, 0⟩] := by
  obtain ⟨nodes, chain⟩ := list
  rw [MmStruct.freeRegions, chain.linked.values_eq, chain.values]

/-- Every region of a well-formed list but the marker holds at least one address. -/
theorem FreeList.proper {mm : MmStruct} {regions : List VmRg} (list : FreeList mm regions) :
    ∀ rg ∈ regions, rg.rgStart < rg.rgEnd := by
  obtain ⟨nodes, chain⟩ := list
  exact chain.proper

@[simp] theorem spans_cons (rg : VmRg) (regions : List VmRg) :
    spans (rg :: regions) = rg.span :: spans regions := rfl

@[simp] theorem spans_append (left right : List VmRg) :
    spans (left ++ right) = spans left ++ spans right := List.map_append ..

/-- The address is a byte of the region. -/
def VmRg.Holds (rg : VmRg) (x : Nat) : Prop := rg.rgStart.toNat ≤ x ∧ x < rg.rgEnd.toNat

/-- An address is covered by the spans exactly when some region of the list holds it. -/
theorem covers_pos_iff {regions : List VmRg} {x : Nat} :
    0 < Spans.covers (spans regions) x ↔ ∃ rg ∈ regions, rg.Holds x := by
  simp only [Spans.covers_pos, spans, List.mem_map, exists_exists_and_eq_and, Spans.holds_iff,
    VmRg.span, VmRg.Holds]

/-- The span of a region covers the addresses that the region holds. -/
theorem VmRg.covers_span_pos_iff {rg : VmRg} {x : Nat} :
    0 < Spans.covers [rg.span] x ↔ rg.Holds x := by
  have single : 0 < Spans.covers (spans [rg]) x ↔ ∃ other ∈ [rg], other.Holds x := covers_pos_iff
  exact single.trans (by simp only [List.mem_singleton, exists_eq_left])

/-- The order of the regions does not matter for the bytes they cover. -/
theorem covers_perm {left right : List VmRg} (same : left.Perm right) (x : Nat) :
    Spans.covers (spans left) x = Spans.covers (spans right) x :=
  (same.map VmRg.span).countP_eq _

/-- A list that ends in a marker, cut at another value. -/
private theorem cut_before_last {α : Type*} {front back regions : List α} {x marker : α}
    (same : front ++ x :: back = regions ++ [marker]) (other : x ≠ marker) :
    ∃ rest, back = rest ++ [marker] ∧ regions = front ++ x :: rest := by
  rcases List.eq_nil_or_concat back with rfl | ⟨rest, last, rfl⟩
  · exact absurd (List.append_inj' same rfl).2 (by simpa using other)
  · have shape : (front ++ x :: rest) ++ [last] = regions ++ [marker] := by
      simpa only [List.append_assoc, List.cons_append, List.concat_eq_append] using same
    obtain ⟨front_eq, last_eq⟩ := List.append_inj' shape rfl
    obtain rfl : last = marker := by simpa using last_eq
    exact ⟨rest, by simp, front_eq.symm⟩

namespace FreeChain

variable {h : Heap VmRg} {link : Option Nat} {nodes : List Nat} {regions : List VmRg}

/-- A region with an address in it is not the null marker. -/
theorem ne_marker {rg : VmRg} (proper : rg.rgStart < rg.rgEnd) : rg ≠ ⟨0, 0⟩ := by
  rintro rfl
  exact absurd proper (by decide)

/-- A node of the list with another region than the marker. -/
theorem listed (chain : FreeChain h link nodes regions) {a : Nat} (member : a ∈ nodes)
    (real : (h.node a).val ≠ ⟨0, 0⟩) : (h.node a).val ∈ regions := by
  have inside : (h.node a).val ∈ regions ++ [⟨0, 0⟩] :=
    chain.values ▸ List.mem_map.mpr ⟨a, member, rfl⟩
  exact (List.mem_append.mp inside).resolve_right (mt List.mem_singleton.mp real)

/-- Overwriting the region of a node that does not end the list. -/
theorem setVal (chain : FreeChain h link nodes regions) {a : Nat} (member : a ∈ nodes)
    (old : (h.node a).val.rgStart < (h.node a).val.rgEnd) (rg : VmRg)
    (proper : rg.rgStart < rg.rgEnd) :
    ∃ front back, regions = front ++ (h.node a).val :: back ∧
      FreeChain (h.setVal a rg) link nodes (front ++ rg :: back) := by
  obtain ⟨front, back, rfl⟩ := List.append_of_mem member
  have before := chain.values
  rw [vals_append, vals_cons] at before
  obtain ⟨rest, tail, rfl⟩ := cut_before_last before (ne_marker old)
  refine ⟨vals h front, rest, rfl, chain.linked.setVal a rg, ?_, ?_⟩
  · rw [Linked.vals_setVal chain.linked.nodup, tail, List.append_assoc, List.cons_append]
  · intro other inside
    rcases List.mem_append.mp inside with early | late
    · exact chain.proper other (List.mem_append_left _ early)
    · rcases List.mem_cons.mp late with rfl | late
      · exact proper
      · exact chain.proper other (List.mem_append_right _ (List.mem_cons_of_mem _ late))

/-- `delete_vm_rg_node` takes the region of its node off the list. The node that
leaves is the next one. -/
theorem delete (chain : FreeChain h link nodes regions) {a : Nat} (member : a ∈ nodes)
    (proper : (h.node a).val.rgStart < (h.node a).val.rgEnd) :
    ∃ b front back rest, (h.node a).next = some b ∧ nodes = front ++ a :: b :: back ∧
      regions = vals h front ++ (h.node a).val :: rest ∧
      FreeChain (MmStruct.deleteVmRgNode h a) link (front ++ a :: back) (vals h front ++ rest) := by
  cases follows : (h.node a).next with
  | none =>
      obtain ⟨front, rfl⟩ := chain.linked.next_eq_none member follows
      have last := chain.values
      rw [vals_append] at last
      have same := (List.append_inj' last rfl).2
      simp only [vals_cons, vals_nil, List.cons.injEq, and_true] at same
      exact absurd same (ne_marker proper)
  | some b =>
      obtain ⟨front, back, rfl⟩ := chain.linked.next_eq_some member follows
      obtain ⟨linked, after⟩ := chain.linked.absorb
      have before := chain.values
      rw [vals_append, vals_cons, vals_cons] at before
      obtain ⟨rest, tail, rfl⟩ := cut_before_last before (ne_marker proper)
      refine ⟨b, front, back, rest, rfl, rfl, rfl, ?_, ?_, ?_⟩
      · simpa only [MmStruct.deleteVmRgNode, follows] using linked
      · simp only [MmStruct.deleteVmRgNode, follows, after, List.append_assoc, tail]
      · intro other inside
        rcases List.mem_append.mp inside with early | late
        · exact chain.proper other (List.mem_append_left _ early)
        · exact chain.proper other (List.mem_append_right _ (List.mem_cons_of_mem _ late))

/-- A node that is live but not on the list. -/
structure Detached (h : Heap VmRg) (nodes : List Nat) (a : Nat) : Prop where
  away : a ∉ nodes
  live : a < h.top ∧ h.freed a = false

/-- Deleting a node changes that node and no other. -/
theorem deleteVmRgNode_node_of_ne (h : Heap VmRg) {a c : Nat} (other : c ≠ a) :
    (MmStruct.deleteVmRgNode h a).node c = h.node c := by
  unfold MmStruct.deleteVmRgNode
  split
  · simp only [Heap.absorb, Heap.set, Heap.free, Function.update_of_ne other]
  · simp only [Heap.set, Function.update_of_ne other]

/-- Deleting a node of the list leaves the nodes that are not on it. -/
theorem Detached.delete {a b c : Nat} {front back : List Nat}
    (detached : Detached h (front ++ a :: b :: back) c) (follows : (h.node a).next = some b) :
    Detached (MmStruct.deleteVmRgNode h a) (front ++ a :: back) c := by
  have shorter : front ++ a :: back ⊆ front ++ a :: b :: back :=
    ((List.Sublist.cons_cons a (List.sublist_cons_self b back)).append_left front).subset
  have other : c ≠ b := fun same => detached.away
    (same ▸ List.mem_append_right _ (List.mem_cons_of_mem _ List.mem_cons_self))
  refine ⟨fun member => detached.away (shorter member), ?_⟩
  simp only [MmStruct.deleteVmRgNode, follows, Heap.absorb, Heap.set, Heap.free,
    Function.update_of_ne other]
  exact detached.live

/-- A new node with a region, before it is linked. -/
theorem allocate (chain : FreeChain h link nodes regions) (rg : VmRg) :
    FreeChain (h.malloc.2.setVal h.top rg) link nodes regions ∧
      Detached (h.malloc.2.setVal h.top rg) nodes h.top ∧
      (∀ a ∈ nodes, (h.malloc.2.setVal h.top rg).node a = h.node a) ∧
      ((h.malloc.2.setVal h.top rg).node h.top).val = rg := by
  have away := chain.linked.fresh
  refine ⟨⟨chain.linked.malloc.set away _, ?_, chain.proper⟩, ⟨away, ?_⟩, ?_, ?_⟩
  · rw [Heap.setVal, Linked.vals_set away]
    exact chain.values
  · simp only [Heap.malloc, Heap.setVal, Heap.set, Function.update_self, Nat.lt_succ_self,
      and_self]
  · intro a member
    have other : a ≠ h.top := fun same => away (same ▸ member)
    simp only [Heap.malloc, Heap.setVal, Heap.set, Function.update_of_ne other]
  · simp only [Heap.setVal, Heap.set, Function.update_self]

/-- Linking a detached node in front of the list. -/
theorem pushNode {mm : MmStruct} (chain : FreeChain h mm.mmap.vmFreergList nodes regions) {a : Nat}
    (detached : Detached h nodes a) (proper : (h.node a).val.rgStart < (h.node a).val.rgEnd) :
    FreeList (mm.pushNode h a) ((h.node a).val :: regions) := by
  have linked : mm.mmap.vmFreergList.isSome = true := by
    have values := chain.values
    cases nodes with
    | nil => simp at values
    | cons b nodes => rw [chain.linked.reaches.1, Option.isSome_some]
  have entered : (mm.pushNode h a).rgHeap = h.set a ⟨(h.node a).val, mm.mmap.vmFreergList⟩ := by
    simp only [MmStruct.pushNode, linked, ↓reduceIte]
  refine ⟨a :: nodes, ?_, ?_, ?_⟩
  · rw [entered]
    exact chain.linked.attach detached.away detached.live _
  · rw [entered, Linked.vals_attach detached.away, chain.values, List.cons_append]
  · intro rg member
    rcases List.mem_cons.mp member with rfl | member
    · exact proper
    · exact chain.proper rg member

end FreeChain

namespace MmStruct

/-! ## What the operations do to the addresses -/

/-- A region with an address in it does not look like the marker to the loop of `free_vmrg_area`.
-/
theorem not_zero {rg : VmRg} (proper : rg.rgStart < rg.rgEnd) :
    ¬ (rg.rgStart = 0 ∧ rg.rgEnd = 0) := fun zero =>
  FreeChain.ne_marker proper (VmRg.mk.injEq .. ▸ zero)

/-- The node is on the list, with a region that begins where `rg` ends. -/
def Above (h : Heap VmRg) (nodes : List Nat) (rg : VmRg) (up : Nat) : Prop :=
  up ∈ nodes ∧ rg.rgEnd = (h.node up).val.rgStart ∧
    (h.node up).val.rgStart < (h.node up).val.rgEnd

/-- The node is on the list, with a region that ends where `rg` begins. -/
def Below (h : Heap VmRg) (nodes : List Nat) (rg : VmRg) (down : Nat) : Prop :=
  down ∈ nodes ∧ rg.rgStart = (h.node down).val.rgEnd ∧
    (h.node down).val.rgStart < (h.node down).val.rgEnd

/-- The pointers of a search name neighbours of the region. -/
structure MergeScan.Sound (h : Heap VmRg) (rg : VmRg) (nodes : List Nat) (scan : MergeScan) :
    Prop where
  up : ∀ u, scan.nodeNeedDecBase = some u → Above h nodes rg u
  down : ∀ d, scan.nodeNeedIncLimit = some d → Below h nodes rg d

theorem mergeScan_sound {h : Heap VmRg} {rg : VmRg} {all : List Nat} {link : Option Nat}
    {nodes : List Nat} {regions : List VmRg} (reaches : Reaches h link nodes)
    (values : vals h nodes = regions ++ [⟨0, 0⟩])
    (proper : ∀ region ∈ regions, region.rgStart < region.rgEnd) (among : nodes ⊆ all)
    {fuel : Nat} (enough : nodes.length ≤ fuel) {scan : MergeScan} (sound : scan.Sound h rg all) :
    ∃ result, mergeScan h rg fuel link scan = some result ∧ result.Sound h rg all := by
  induction nodes generalizing link regions fuel scan with
  | nil => simp at values
  | cons a nodes ih =>
      obtain ⟨found, rest⟩ := reaches
      cases fuel with
      | zero => simp at enough
      | succ fuel =>
          rw [found, mergeScan]
          cases regions with
          | nil =>
              have marker : (h.node a).val = ⟨0, 0⟩ := by
                simp only [vals_cons, List.nil_append, List.cons.injEq] at values
                exact values.1
              exact ⟨scan, by simp only [marker, and_self, ↓reduceIte], sound⟩
          | cons region regions =>
              simp only [vals_cons, List.cons_append, List.cons.injEq] at values
              have isProper := proper region List.mem_cons_self
              have stored := values.1 ▸ not_zero isProper
              simp only [stored, ↓reduceIte]
              have later : ∀ other ∈ regions, other.rgStart < other.rgEnd :=
                fun other member => proper other (List.mem_cons_of_mem _ member)
              apply ih rest values.2 later
                (fun other member => among (List.mem_cons_of_mem _ member)) (by simpa using enough)
              have here : a ∈ all := among List.mem_cons_self
              rw [← values.1] at isProper
              constructor
              · intro u found
                split at found <;> split at found <;> first
                  | exact sound.up u found
                  | (obtain rfl : a = u := by simpa using found
                     exact ⟨here, by assumption, isProper⟩)
              · intro d found
                split at found <;> split at found <;> first
                  | exact sound.down d found
                  | (obtain rfl : a = d := by simpa using found
                     exact ⟨here, by assumption, isProper⟩)

/-- The free list of a process may have changed, and nothing else. -/
structure SameSpace (mm other : MmStruct) : Prop where
  pgd : other.pgd = mm.pgd
  vmStart : other.mmap.vmStart = mm.mmap.vmStart
  vmEnd : other.mmap.vmEnd = mm.mmap.vmEnd
  sbrk : other.mmap.sbrk = mm.mmap.sbrk
  symrgtbl : other.symrgtbl = mm.symrgtbl
  fifoPgn : other.fifoPgn = mm.fifoPgn

theorem SameSpace.refl (mm : MmStruct) : SameSpace mm mm := ⟨rfl, rfl, rfl, rfl, rfl, rfl⟩

/-- Searching the free list changes nothing but the list. -/
theorem getFreeVmrgArea_sameSpace {mm area : MmStruct} {size : Int} {found : Option VmRg}
    (cut : mm.getFreeVmrgArea size = some (found, area)) : SameSpace mm area := by
  obtain ⟨node, -, outcome⟩ := Option.map_eq_some_iff.mp cut
  cases node with
  | none =>
      obtain ⟨-, rfl⟩ := Prod.mk.inj outcome
      exact .refl mm
  | some rgit =>
      obtain ⟨-, rfl⟩ := Prod.mk.inj outcome
      exact ⟨rfl, rfl, rfl, rfl, rfl, rfl⟩

/-- **Everything `enlist_vm_freerg_list` can do** to the area: nothing for an empty region, or
the region is put together with its upper neighbour, its lower one, both or none. -/
theorem enlistVmFreergList_cases {mm area : MmStruct} {rg : VmRg} {status : Int}
    (enlisted : mm.enlistVmFreergList rg = some (status, area)) :
    area = mm ∨
      (∃ up, area = { mm with
        rgHeap := mm.rgHeap.setVal up ⟨rg.rgStart, (mm.rgHeap.node up).val.rgEnd⟩ }) ∨
      (∃ down, area = { mm with
        rgHeap := mm.rgHeap.setVal down ⟨(mm.rgHeap.node down).val.rgStart, rg.rgEnd⟩ }) ∨
      (∃ up down, area = mm.pushNode
        (deleteVmRgNode (deleteVmRgNode (mm.rgHeap.malloc.2.setVal mm.rgHeap.malloc.1
          ⟨(mm.rgHeap.node down).val.rgStart, (mm.rgHeap.node up).val.rgEnd⟩) up) down)
        mm.rgHeap.malloc.1) ∨
      area = mm.pushNode (mm.rgHeap.malloc.2.setVal mm.rgHeap.malloc.1 rg) mm.rgHeap.malloc.1 := by
  unfold enlistVmFreergList at enlisted
  split at enlisted
  · simp only [Option.some.injEq, Prod.mk.injEq] at enlisted
    exact .inl enlisted.2.symm
  · obtain ⟨scan, -, outcome⟩ := Option.map_eq_some_iff.mp enlisted
    right
    cases upper : scan.nodeNeedDecBase <;> cases lower : scan.nodeNeedIncLimit <;>
      simp only [upper, lower, Prod.mk.injEq] at outcome <;> obtain ⟨-, rfl⟩ := outcome
    · exact .inr (.inr (.inr rfl))
    · exact .inr (.inl ⟨_, rfl⟩)
    · exact .inl ⟨_, rfl⟩
    · exact .inr (.inr (.inl ⟨_, _, rfl⟩))

theorem enlistVmFreergList_sameSpace {mm area : MmStruct} {rg : VmRg} {status : Int}
    (enlisted : mm.enlistVmFreergList rg = some (status, area)) : SameSpace mm area := by
  rcases enlistVmFreergList_cases enlisted with
    rfl | ⟨up, rfl⟩ | ⟨down, rfl⟩ | ⟨up, down, rfl⟩ | rfl
  · exact .refl _
  all_goals exact ⟨rfl, rfl, rfl, rfl, rfl, rfl⟩

/-- The condition of the bad free as a statement about the list: the region fills the gap between
two neighbours, the upper of which stands first. -/
theorem wedged_iff {rg : VmRg} {list : List VmRg} : wedged rg list = true ↔
    ∃ front upper lower back, list = front ++ upper :: lower :: back ∧
      rg.rgEnd = upper.rgStart ∧ rg.rgStart = lower.rgEnd ∧ lower ≠ ⟨0, 0⟩ := by
  induction list with
  | nil => simp [wedged]
  | cons first list ih =>
      cases list with
      | nil => simp [wedged, List.cons_eq_append_iff]
      | cons second rest =>
          rw [wedged, Bool.or_eq_true, decide_eq_true_iff, ih]
          constructor
          · rintro (here | ⟨front, upper, lower, back, split, meets⟩)
            · exact ⟨[], first, second, rest, rfl, here⟩
            · exact ⟨first :: front, upper, lower, back, by rw [split, List.cons_append], meets⟩
          · rintro ⟨front, upper, lower, back, split, meets⟩
            cases front with
            | nil =>
                obtain ⟨rfl, rfl, rfl⟩ : first = upper ∧ second = lower ∧ rest = back := by
                  simpa using split
                exact .inl meets
            | cons head front =>
                exact .inr ⟨front, upper, lower, back, (List.cons.inj split).2, meets⟩

open Spans

/-- A region and its upper neighbour cover what the region from the start of the one
to the end of the other covers. -/
private theorem covers_meet (lower upper : VmRg) (meets : lower.rgEnd = upper.rgStart)
    (proper : lower.rgStart < lower.rgEnd) (upperProper : upper.rgStart < upper.rgEnd) (x : Nat) :
    covers [(⟨lower.rgStart, upper.rgEnd⟩ : VmRg).span] x =
      covers [lower.span] x + covers [upper.span] x := by
  simp only [VmRg.span, meets]
  exact covers_join (meets ▸ (BitVec.lt_def.mp proper).le) (BitVec.lt_def.mp upperProper).le x

/-- The place of a region in the list has no influence on what the list covers. -/
private theorem covers_middle (front back : List VmRg) (rg : VmRg) (x : Nat) :
    covers (spans (front ++ rg :: back)) x =
      covers [rg.span] x + covers (spans (front ++ back)) x := by
  rw [spans_append, covers_append, spans_cons, covers_cons, spans_append, covers_append]
  exact Nat.add_left_comm _ _ _

/-- The search that starts at the head of a free list. -/
theorem mergeScan_found {h : Heap VmRg} {link : Option Nat} {nodes : List Nat}
    {regions : List VmRg} (chain : FreeChain h link nodes regions) (rg : VmRg) :
    ∃ scan, mergeScan h rg h.top link ⟨none, none⟩ = some scan ∧ scan.Sound h rg nodes := by
  apply mergeScan_sound chain.linked.reaches chain.values chain.proper (List.Subset.refl nodes)
    chain.linked.length_le
  exact ⟨fun _ found => by simp at found, fun _ found => by simp at found⟩

/-- A search that sets no pointer has passed no neighbour. -/
theorem mergeScan_complete {h : Heap VmRg} {rg : VmRg} {link : Option Nat} {nodes : List Nat}
    {regions : List VmRg} (reaches : Reaches h link nodes)
    (values : vals h nodes = regions ++ [⟨0, 0⟩])
    (proper : ∀ region ∈ regions, region.rgStart < region.rgEnd) {fuel : Nat}
    {scan result : MergeScan} (searched : mergeScan h rg fuel link scan = some result) :
    (result.nodeNeedDecBase = none →
        scan.nodeNeedDecBase = none ∧ ∀ other ∈ regions, rg.rgEnd ≠ other.rgStart) ∧
      (result.nodeNeedIncLimit = none →
        scan.nodeNeedIncLimit = none ∧ ∀ other ∈ regions, rg.rgStart ≠ other.rgEnd) := by
  induction regions generalizing link nodes fuel scan with
  | nil =>
      cases nodes with
      | nil => simp at values
      | cons a nodes =>
          have marker : (h.node a).val = ⟨0, 0⟩ := (List.cons.inj values).1
          rw [reaches.1] at searched
          cases fuel with
          | zero => simp [mergeScan] at searched
          | succ fuel =>
              simp only [mergeScan, marker, and_self, ↓reduceIte, Option.some.injEq] at searched
              subst searched
              exact ⟨fun unset => ⟨unset, by simp⟩, fun unset => ⟨unset, by simp⟩⟩
  | cons region regions ih =>
      cases nodes with
      | nil => simp at values
      | cons a nodes =>
          simp only [vals_cons, List.cons_append, List.cons.injEq] at values
          obtain ⟨here, later⟩ := values
          have stored := here ▸ not_zero (proper region List.mem_cons_self)
          rw [reaches.1] at searched
          cases fuel with
          | zero => simp [mergeScan] at searched
          | succ fuel =>
              simp only [mergeScan, stored, ↓reduceIte] at searched
              have rest := ih reaches.2 later
                (fun other member => proper other (List.mem_cons_of_mem _ member)) searched
              rw [here] at rest
              constructor
              · intro unset
                obtain ⟨before, others⟩ := rest.1 unset
                by_cases meets : rg.rgEnd = region.rgStart <;>
                  by_cases below : rg.rgStart = region.rgEnd <;>
                  simp only [meets, below, ↓reduceIte, reduceCtorEq] at before
                all_goals exact ⟨before, List.forall_mem_cons.mpr ⟨meets, others⟩⟩
              · intro unset
                obtain ⟨before, others⟩ := rest.2 unset
                by_cases meets : rg.rgEnd = region.rgStart <;>
                  by_cases below : rg.rgStart = region.rgEnd <;>
                  simp only [meets, below, ↓reduceIte, reduceCtorEq] at before
                all_goals exact ⟨before, List.forall_mem_cons.mpr ⟨below, others⟩⟩

/-- A region is put together with those of the regions that are its neighbours. -/
inductive Joins (rg : VmRg) (regions : List VmRg) : (merged : List VmRg) → (joint : VmRg) → Prop
  | alone (noUpper : ∀ other ∈ regions, rg.rgEnd ≠ other.rgStart)
      (noLower : ∀ other ∈ regions, rg.rgStart ≠ other.rgEnd) : Joins rg regions [] rg
  | upper (up : VmRg) (meets : rg.rgEnd = up.rgStart)
      (noLower : ∀ other ∈ regions, rg.rgStart ≠ other.rgEnd) :
      Joins rg regions [up] ⟨rg.rgStart, up.rgEnd⟩
  | lower (down : VmRg) (meets : rg.rgStart = down.rgEnd)
      (noUpper : ∀ other ∈ regions, rg.rgEnd ≠ other.rgStart) :
      Joins rg regions [down] ⟨down.rgStart, rg.rgEnd⟩
  | both (up down : VmRg) (upMeets : rg.rgEnd = up.rgStart) (downMeets : rg.rgStart = down.rgEnd) :
      Joins rg regions [up, down] ⟨down.rgStart, up.rgEnd⟩

theorem Joins.proper {rg joint : VmRg} {regions merged : List VmRg}
    (joins : Joins rg regions merged joint) (proper : rg.rgStart < rg.rgEnd)
    (parts : ∀ part ∈ merged, part.rgStart < part.rgEnd) : joint.rgStart < joint.rgEnd := by
  cases joins with
  | alone => exact proper
  | upper up meets =>
      exact BitVec.lt_trans proper (meets ▸ parts up List.mem_cons_self)
  | lower down meets =>
      exact BitVec.lt_trans (meets ▸ parts down List.mem_cons_self) proper
  | both up down upMeets downMeets =>
      have above : rg.rgStart < up.rgEnd :=
        BitVec.lt_trans proper (upMeets ▸ parts up List.mem_cons_self)
      have below := parts down (List.mem_cons_of_mem _ List.mem_cons_self)
      exact BitVec.lt_trans (downMeets ▸ below) above

/-- The joint region has the bytes of its parts. -/
theorem Joins.covers {rg joint : VmRg} {regions merged : List VmRg}
    (joins : Joins rg regions merged joint) (proper : rg.rgStart < rg.rgEnd)
    (parts : ∀ part ∈ merged, part.rgStart < part.rgEnd) (x : Nat) :
    covers [joint.span] x = covers [rg.span] x + covers (spans merged) x := by
  cases joins with
  | alone => rfl
  | upper up meets => exact covers_meet rg up meets proper (parts up List.mem_cons_self) x
  | lower down meets =>
      rw [Nat.add_comm]
      exact covers_meet down rg meets.symm (parts down List.mem_cons_self) proper x
  | both up down upMeets downMeets =>
      have upProper := parts up List.mem_cons_self
      have downProper := parts down (List.mem_cons_of_mem _ List.mem_cons_self)
      have joint : rg.rgStart < up.rgEnd := BitVec.lt_trans proper (upMeets ▸ upProper)
      have first := covers_meet rg up upMeets proper upProper x
      have second := covers_meet down ⟨rg.rgStart, up.rgEnd⟩ downMeets.symm downProper joint x
      simp only at second
      rw [second, first, spans_cons, covers_cons _ (spans [down]), Nat.add_comm, Nat.add_assoc]
      rfl

/-- Both neighbours are free, and the lower one does not follow the upper one: it is
still on the list when the upper one has left it. -/
theorem delete_upper {mm : MmStruct} {h₁ : Heap VmRg} {nodes : List Nat} {regions : List VmRg}
    {rg : VmRg} (chain : FreeChain mm.rgHeap mm.mmap.vmFreergList nodes regions)
    (chain₁ : FreeChain h₁ mm.mmap.vmFreergList nodes regions)
    (same : ∀ a ∈ nodes, h₁.node a = mm.rgHeap.node a) (proper : rg.rgStart < rg.rgEnd)
    (safe : wedged rg mm.freeRegions = false) {up down : Nat}
    (upper : Above mm.rgHeap nodes rg up) (lower : Below mm.rgHeap nodes rg down) :
    ∃ b front back rest, (h₁.node up).next = some b ∧ nodes = front ++ up :: b :: back ∧
      regions.Perm ((mm.rgHeap.node up).val :: rest) ∧
      FreeChain (deleteVmRgNode h₁ up) mm.mmap.vmFreergList (front ++ up :: back) rest ∧
      down ∈ front ++ up :: back ∧
      (deleteVmRgNode h₁ up).node down = mm.rgHeap.node down := by
  obtain ⟨upIn, upMeets, upProper⟩ := upper
  obtain ⟨downIn, downMeets, downProper⟩ := lower
  have distinct : down ≠ up := by
    rintro rfl
    rw [upMeets, downMeets] at proper
    exact BitVec.lt_irrefl _ (BitVec.lt_trans proper upProper)
  obtain ⟨b, front, back, rest, follows, rfl, cut, chain₂⟩ :=
    chain₁.delete upIn (by rw [same up upIn]; exact upProper)
  -- the node that leaves with the upper neighbour is not the lower one
  have apart : down ≠ b := by
    rintro rfl
    have found : wedged rg mm.freeRegions = true := by
      rw [freeRegions, chain.linked.values_eq, vals_append, vals_cons, vals_cons]
      exact wedged_iff.mpr ⟨_, _, _, _, rfl, upMeets, downMeets, FreeChain.ne_marker downProper⟩
    exact absurd (found.symm.trans safe) (by decide)
  refine ⟨b, front, back, vals h₁ front ++ rest, follows, rfl, ?_, chain₂, ?_, ?_⟩
  · rw [cut, same up upIn]
    exact List.perm_middle
  · simp only [List.mem_append, List.mem_cons, distinct, apart, false_or] at downIn ⊢
    exact downIn
  · rw [FreeChain.deleteVmRgNode_node_of_ne h₁ distinct, same down downIn]

/-- Both neighbours leave the list and the joint region comes in. -/
private theorem enlist_both {mm : MmStruct} {nodes : List Nat} {regions : List VmRg} {rg : VmRg}
    (chain : FreeChain mm.rgHeap mm.mmap.vmFreergList nodes regions)
    (proper : rg.rgStart < rg.rgEnd) (safe : wedged rg mm.freeRegions = false) {up down : Nat}
    (upper : Above mm.rgHeap nodes rg up) (lower : Below mm.rgHeap nodes rg down) :
    ∃ rest, FreeList (mm.pushNode (deleteVmRgNode (deleteVmRgNode
        (mm.rgHeap.malloc.2.setVal mm.rgHeap.top
          ⟨(mm.rgHeap.node down).val.rgStart, (mm.rgHeap.node up).val.rgEnd⟩) up) down)
        mm.rgHeap.top)
        (⟨(mm.rgHeap.node down).val.rgStart, (mm.rgHeap.node up).val.rgEnd⟩ :: rest) ∧
      regions.Perm ((mm.rgHeap.node up).val :: (mm.rgHeap.node down).val :: rest) := by
  obtain ⟨chain₁, detached₁, same, value⟩ :=
    chain.allocate ⟨(mm.rgHeap.node down).val.rgStart, (mm.rgHeap.node up).val.rgEnd⟩
  obtain ⟨b, front, back, rest, follows, rfl, cut, chain₂, downStays, downSame⟩ :=
    delete_upper chain chain₁ same proper safe upper lower
  obtain ⟨upIn, upMeets, upProper⟩ := upper
  obtain ⟨downIn, downMeets, downProper⟩ := lower
  obtain ⟨b₂, front₂, back₂, rest₂, follows₂, shape₂, cut₂, chain₃⟩ :=
    chain₂.delete downStays (by rw [downSame]; exact downProper)
  have detached₃ := (shape₂ ▸ detached₁.delete follows).delete follows₂
  have notUp : mm.rgHeap.top ≠ up := fun hit => detached₁.away (hit ▸ upIn)
  have notDown : mm.rgHeap.top ≠ down := fun hit => detached₁.away (hit ▸ downIn)
  rw [← FreeChain.deleteVmRgNode_node_of_ne _ notUp,
    ← FreeChain.deleteVmRgNode_node_of_ne _ notDown] at value
  have linked := chain₃.pushNode detached₃ (by
    rw [value]
    exact BitVec.lt_trans downProper (downMeets ▸ BitVec.lt_trans proper (upMeets ▸ upProper)))
  rw [value] at linked
  refine ⟨_, linked, cut.trans (List.Perm.cons _ ?_)⟩
  rw [cut₂, downSame]
  exact List.perm_middle

/-- **Everything `enlist_vm_freerg_list` does** to a free list on which the two neighbours of
the region do not stand the wrong way round: it returns, and the region that joins its
neighbours on the list stands there in their place. -/
theorem enlistVmFreergList_joins {mm : MmStruct} {regions : List VmRg} (list : FreeList mm regions)
    {rg : VmRg} (proper : rg.rgStart < rg.rgEnd) (safe : wedged rg mm.freeRegions = false) :
    ∃ status mm' regions' merged joint rest, mm.enlistVmFreergList rg = some (status, mm') ∧
      SameSpace mm mm' ∧ FreeList mm' regions' ∧ Joins rg regions merged joint ∧
      regions.Perm (merged ++ rest) ∧ regions'.Perm (joint :: rest) := by
  obtain ⟨nodes, chain⟩ := list
  have nonEmpty : ¬ rg.rgEnd ≤ rg.rgStart := BitVec.not_le.mpr proper
  obtain ⟨scan, searched, sound⟩ := mergeScan_found chain rg
  obtain ⟨noUpper, noLower⟩ :=
    mergeScan_complete chain.linked.reaches chain.values chain.proper searched
  unfold enlistVmFreergList
  simp only [nonEmpty, ↓reduceIte, searched, Option.map_some]
  cases upper : scan.nodeNeedDecBase with
  | none =>
      cases lower : scan.nodeNeedIncLimit with
      | none =>
          obtain ⟨chain₁, detached, -, value⟩ := chain.allocate rg
          have linked := chain₁.pushNode detached (by rw [value]; exact proper)
          rw [value] at linked
          exact ⟨_, _, _, _, _, _, rfl, ⟨rfl, rfl, rfl, rfl, rfl, rfl⟩, linked,
            .alone (noUpper upper).2 (noLower lower).2, .refl _, .refl _⟩
      | some down =>
          obtain ⟨member, meets, downProper⟩ := sound.down down lower
          have joint : (mm.rgHeap.node down).val.rgStart < rg.rgEnd :=
            BitVec.lt_trans downProper (meets ▸ proper)
          obtain ⟨front, back, cut, chain₁⟩ :=
            chain.setVal member downProper ⟨(mm.rgHeap.node down).val.rgStart, rg.rgEnd⟩ joint
          exact ⟨_, _, _, _, _, _, rfl, ⟨rfl, rfl, rfl, rfl, rfl, rfl⟩, ⟨nodes, chain₁⟩,
            .lower _ meets (noUpper upper).2, cut ▸ List.perm_middle, List.perm_middle⟩
  | some up =>
      obtain ⟨member, meets, upProper⟩ := sound.up up upper
      cases lower : scan.nodeNeedIncLimit with
      | none =>
          have joint : rg.rgStart < (mm.rgHeap.node up).val.rgEnd :=
            BitVec.lt_trans proper (meets ▸ upProper)
          obtain ⟨front, back, cut, chain₁⟩ :=
            chain.setVal member upProper ⟨rg.rgStart, (mm.rgHeap.node up).val.rgEnd⟩ joint
          exact ⟨_, _, _, _, _, _, rfl, ⟨rfl, rfl, rfl, rfl, rfl, rfl⟩, ⟨nodes, chain₁⟩,
            .upper _ meets (noLower lower).2, cut ▸ List.perm_middle, List.perm_middle⟩
      | some down =>
          have both := sound.down down lower
          obtain ⟨rest, linked, cut⟩ := enlist_both chain proper safe ⟨member, meets, upProper⟩ both
          exact ⟨_, _, _, _, _, _, rfl, ⟨rfl, rfl, rfl, rfl, rfl, rfl⟩, linked,
            .both _ _ meets both.2.1, cut, .refl _⟩

/-- **Freeing a region.** `enlist_vm_freerg_list` returns, and the free list covers
the addresses of the region on top of those it covered, unless the two neighbours
of the region stand on the list the wrong way round. -/
theorem enlistVmFreergList_spec {mm : MmStruct} {regions : List VmRg} (list : FreeList mm regions)
    (rg : VmRg) (safe : wedged rg mm.freeRegions = false) :
    ∃ status mm' regions', mm.enlistVmFreergList rg = some (status, mm') ∧ SameSpace mm mm' ∧
      FreeList mm' regions' ∧
      ∀ x, covers (spans regions') x = covers [rg.span] x + covers (spans regions) x := by
  by_cases empty : rg.rgEnd ≤ rg.rgStart
  · refine ⟨-1, mm, regions, if_pos empty, .refl mm, list, fun x => ?_⟩
    rw [covers_empty (BitVec.le_def.mp empty), Nat.zero_add]
  have proper : rg.rgStart < rg.rgEnd := BitVec.not_le.mp empty
  obtain ⟨status, mm', regions', merged, joint, rest, returned, same, list', joins, before,
    after⟩ := enlistVmFreergList_joins list proper safe
  refine ⟨status, mm', regions', returned, same, list', fun x => ?_⟩
  have parts : ∀ part ∈ merged, part.rgStart < part.rgEnd := fun part member =>
    list.proper part (before.mem_iff.mpr (List.mem_append_left _ member))
  rw [covers_perm before, covers_perm after, spans_cons, covers_cons, joins.covers proper parts,
    spans_append, covers_append, Nat.add_assoc]

/-- A free region is large enough for an allocation. -/
def Fits (size : Int) (rg : VmRg) : Prop := rg.rgStart + toULong size ≤ rg.rgEnd

/-- Whether a region is large enough is one comparison. -/
instance (size : Int) (rg : VmRg) : Decidable (Fits size rg) :=
  inferInstanceAs (Decidable (_ ≤ _))

/-- The search ends, at the first region of enough size if there is one. -/
theorem findFit_spec {h : Heap VmRg} (size : Int) {link : Option Nat} {nodes : List Nat}
    (reaches : Reaches h link nodes) {fuel : Nat} (enough : nodes.length ≤ fuel) :
    (findFit h size fuel link = some none ∧ ∀ rg ∈ vals h nodes, ¬ Fits size rg) ∨
      ∃ front rgit back, nodes = front ++ rgit :: back ∧
        findFit h size fuel link = some (some rgit) ∧ (∀ rg ∈ vals h front, ¬ Fits size rg) ∧
        Fits size (h.node rgit).val := by
  induction nodes generalizing link fuel with
  | nil =>
      rw [show link = none from reaches]
      exact .inl ⟨by cases fuel <;> rfl, by simp⟩
  | cons a nodes ih =>
      obtain ⟨found, rest⟩ := reaches
      cases fuel with
      | zero => simp at enough
      | succ fuel =>
          rw [found]
          by_cases fits : Fits size (h.node a).val
          · refine .inr ⟨[], a, nodes, rfl, ?_, fun rg member => ?_, fits⟩
            · exact if_pos fits
            · exact absurd member List.not_mem_nil
          · have skipped : findFit h size (fuel + 1) (some a) =
                findFit h size fuel (h.node a).next := if_neg fits
            rw [skipped]
            rcases ih rest (by simpa using enough) with
              ⟨nothing, none_fits⟩ | ⟨front, rgit, back, rfl, hit, early, fits'⟩
            · refine .inl ⟨nothing, fun rg member => ?_⟩
              rcases List.mem_cons.mp member with rfl | member
              · exact fits
              · exact none_fits rg member
            · refine .inr ⟨a :: front, rgit, back, rfl, hit, fun rg member => ?_, fits'⟩
              rcases List.mem_cons.mp member with rfl | member
              · exact fits
              · exact early rg member

/-- What stands on the list in the place of a region and those behind it, after `size`
bytes at the start of the region were given away: the region that is left over, if
any, or an empty one if nothing else would be on the list from there on. -/
def leftOver (size : Int) (rg : VmRg) (back : List VmRg) : List VmRg :=
  if rg.rgStart + toULong size < rg.rgEnd then ⟨rg.rgStart + toULong size, rg.rgEnd⟩ :: back
  else if back.isEmpty then [⟨rg.rgEnd, rg.rgEnd⟩] else back

/-- Giving away the start of a region, on any list of live nodes. -/
theorem carve_linked {h : Heap VmRg} {link : Option Nat} {front back : List Nat} {rgit : Nat}
    (linked : Linked h link (front ++ rgit :: back)) (size : Int) :
    ∃ nodes', Linked (carve h size rgit) link nodes' ∧
      vals (carve h size rgit) nodes' =
        vals h front ++ leftOver size (h.node rgit).val (vals h back) := by
  unfold carve leftOver
  by_cases left : (h.node rgit).val.rgStart + toULong size < (h.node rgit).val.rgEnd
  · simp only [left, ↓reduceIte]
    exact ⟨_, linked.setVal _ _, Linked.vals_setVal linked.nodup _⟩
  · simp only [left, ↓reduceIte, deleteVmRgNode]
    have follows := linked.reaches.append_inv
    cases back with
    | nil =>
        have last : (h.node rgit).next = none := follows
        -- the end of the list stays as an empty region
        have same : h.set rgit ⟨⟨(h.node rgit).val.rgEnd, (h.node rgit).val.rgEnd⟩, none⟩ =
            h.setVal rgit ⟨(h.node rgit).val.rgEnd, (h.node rgit).val.rgEnd⟩ := by
          rw [Heap.setVal, last]
        simp only [last, same]
        exact ⟨_, linked.setVal _ _, Linked.vals_setVal linked.nodup _⟩
    | cons b back =>
        simp only [follows.1]
        exact ⟨_, linked.absorb⟩

/-- **Everything `get_free_vmrg_area` can do** on a list of live nodes: nothing if no
region is large enough, and otherwise the first that is gives away its start. -/
theorem getFreeVmrgArea_linked {mm : MmStruct} {nodes : List Nat}
    (linked : Linked mm.rgHeap mm.mmap.vmFreergList nodes) (size : Int) :
    (mm.getFreeVmrgArea size = some (none, mm) ∧ ∀ rg ∈ mm.freeRegions, ¬ Fits size rg) ∨
      ∃ front rg back mm' nodes', mm.freeRegions = front ++ rg :: back ∧
        (∀ earlier ∈ front, ¬ Fits size earlier) ∧ Fits size rg ∧
        mm.getFreeVmrgArea size = some
          (if rg.rgStart = -1 then none else some ⟨rg.rgStart, rg.rgStart + toULong size⟩, mm') ∧
        SameSpace mm mm' ∧ Linked mm'.rgHeap mm'.mmap.vmFreergList nodes' ∧
        vals mm'.rgHeap nodes' = front ++ leftOver size rg back := by
  rw [freeRegions, linked.values_eq]
  simp only [getFreeVmrgArea]
  rcases findFit_spec size linked.reaches linked.length_le with
    ⟨nothing, none_fits⟩ | ⟨front, rgit, back, rfl, found, early, fits⟩
  · exact .inl ⟨by simp only [nothing, Option.map_some], none_fits⟩
  · obtain ⟨nodes', linked', left⟩ := carve_linked linked size
    refine .inr ⟨vals mm.rgHeap front, (mm.rgHeap.node rgit).val, vals mm.rgHeap back,
      { mm with rgHeap := carve mm.rgHeap size rgit }, nodes', ?_, early, fits, ?_,
      ⟨rfl, rfl, rfl, rfl, rfl, rfl⟩, linked', left⟩
    · rw [vals_append, vals_cons]
    · simp only [found, Option.map_some]

/-- The start and the size of a region on the list add up without wrapping. -/
theorem start_add_toNat {rg : VmRg} (ordered : rg.rgStart ≤ rg.rgEnd)
    (bounded : rg.rgEnd.toNat < 2 ^ 63) {size : Int} (nonneg : 0 ≤ size) (small : size < 2 ^ 31) :
    (rg.rgStart + toULong size).toNat = rg.rgStart.toNat + size.toNat := by
  have below := BitVec.le_def.mp ordered
  have amount : (toULong size).toNat = size.toNat := toULong_toNat nonneg (by omega)
  rw [BitVec.toNat_add, amount]
  exact Nat.mod_eq_of_lt (by omega)

/-- A region of the list does not start where the source puts its marker. -/
theorem start_ne_marker {rg : VmRg} (ordered : rg.rgStart ≤ rg.rgEnd)
    (bounded : rg.rgEnd.toNat < 2 ^ 63) : rg.rgStart ≠ -1 := by
  intro marked
  have below := BitVec.le_def.mp ordered
  rw [marked, show (-1 : ULong).toNat = 2 ^ 64 - 1 by decide] at below
  omega

/-- A region that is not larger than the allocation is used up. -/
theorem start_add_eq {rg : VmRg} {size : Int} (fits : Fits size rg)
    (used : ¬ rg.rgStart + toULong size < rg.rgEnd) : rg.rgStart + toULong size = rg.rgEnd :=
  BitVec.le_antisymm fits (BitVec.not_lt.mp used)

/-- The bytes given away and the bytes left over are the bytes there were. -/
theorem covers_leftOver {rg : VmRg} {size : Int}
    (total : (rg.rgStart + toULong size).toNat = rg.rgStart.toNat + size.toNat)
    (fits : Fits size rg) (front back : List VmRg) (x : Nat) :
    covers (spans (front ++ rg :: back)) x =
      covers [(⟨rg.rgStart, rg.rgStart + toULong size⟩ : VmRg).span] x +
        covers (spans (front ++ leftOver size rg back)) x := by
  have grows : rg.rgStart.toNat ≤ (rg.rgStart + toULong size).toNat := total ▸ Nat.le_add_right _ _
  have kept : covers [rg.span] x + covers (spans back) x =
      covers [(⟨rg.rgStart, rg.rgStart + toULong size⟩ : VmRg).span] x +
        covers (spans (leftOver size rg back)) x := by
    unfold leftOver
    by_cases more : rg.rgStart + toULong size < rg.rgEnd
    · have parts := covers_join grows (BitVec.le_def.mp fits) x
      rw [if_pos more, spans_cons, covers_cons _ (spans back), ← Nat.add_assoc]
      exact congrArg (· + covers (spans back) x) parts
    · rw [if_neg more, start_add_eq fits more]
      cases back with
      | nil => exact congrArg _ (covers_empty (Nat.le_refl rg.rgEnd.toNat) x).symm
      | cons b back => rfl
  rw [covers_middle, spans_append, covers_append, spans_append, covers_append]
  omega

/-- The region that ends the free list holds no byte. -/
theorem covers_marker (regions : List VmRg) (x : Nat) :
    covers (spans (regions ++ [⟨0, 0⟩])) x = covers (spans regions) x := by
  rw [spans_append, covers_append]
  exact Nat.add_eq_left.mpr (covers_empty (by decide) x)

/-- A region that fits is taken off a free list, or only its start. Nothing is taken if the
region is the one that ends the list, since the size is then 0. -/
theorem leftOver_freeList {front back regions : List VmRg} {rg : VmRg} {size : Int}
    (split : regions ++ [⟨0, 0⟩] = front ++ rg :: back)
    (proper : ∀ region ∈ regions, region.rgStart < region.rgEnd) (fits : Fits size rg) :
    ∃ regions', front ++ leftOver size rg back = regions' ++ [⟨0, 0⟩] ∧
      ∀ region ∈ regions', region.rgStart < region.rgEnd := by
  rcases List.eq_nil_or_concat back with rfl | ⟨rest, last, rfl⟩
  · -- the node that ends the list stays as it is
    obtain ⟨rfl, marker⟩ := List.append_inj' split rfl
    obtain rfl : rg = ⟨0, 0⟩ := (List.cons.inj marker).1.symm
    have used : ¬ (0 : ULong) + toULong size < 0 := BitVec.not_lt_zero
    exact ⟨regions, congrArg (regions ++ ·) ((if_neg used).trans (if_pos rfl)), proper⟩
  · have shape : regions ++ [⟨0, 0⟩] = (front ++ rg :: rest) ++ [last] := by
      rw [split, List.concat_eq_append, List.append_assoc, List.cons_append]
    obtain ⟨rfl, marker⟩ := List.append_inj' shape rfl
    obtain rfl : last = ⟨0, 0⟩ := (List.cons.inj marker).1.symm
    obtain ⟨left, kept, short⟩ : ∃ left, leftOver size rg (rest.concat ⟨0, 0⟩) =
        left ++ rest.concat ⟨0, 0⟩ ∧ ∀ region ∈ left, region.rgStart < region.rgEnd := by
      unfold leftOver
      by_cases more : rg.rgStart + toULong size < rg.rgEnd
      · exact ⟨[⟨rg.rgStart + toULong size, rg.rgEnd⟩], if_pos more,
          List.forall_mem_singleton.mpr more⟩
      · exact ⟨[], (if_neg more).trans (if_neg (by simp)), fun _ none => by simp at none⟩
    refine ⟨front ++ left ++ rest, by rw [kept, List.concat_eq_append, List.append_assoc,
      List.append_assoc], fun region member => ?_⟩
    simp only [List.mem_append] at member
    rcases member with (early | chosen) | late
    · exact proper region (List.mem_append_left _ early)
    · exact short region chosen
    · exact proper region (List.mem_append_right _ (List.mem_cons_of_mem _ late))

/-- **Allocating from the free list.** Either no region is large enough, or the
region returned has the size asked for and its addresses have left the list. -/
theorem getFreeVmrgArea_spec {mm : MmStruct} {regions : List VmRg} (list : FreeList mm regions)
    {size : Int} (nonneg : 0 ≤ size) (small : size < 2 ^ 31)
    (low : ∀ rg ∈ regions, rg.rgEnd.toNat < 2 ^ 32) :
    (mm.getFreeVmrgArea size = some (none, mm) ∧
        ∀ rg ∈ regions, ¬ rg.rgStart.toNat + size.toNat ≤ rg.rgEnd.toNat) ∨
      ∃ found mm' regions', mm.getFreeVmrgArea size = some (some found, mm') ∧
        SameSpace mm mm' ∧ FreeList mm' regions' ∧
        found.rgEnd.toNat = found.rgStart.toNat + size.toNat ∧
        ∀ x, covers (spans regions) x = covers [found.span] x + covers (spans regions') x := by
  have listed := list.freeRegions_eq
  obtain ⟨nodes, chain⟩ := list
  have bounds : ∀ rg ∈ regions ++ [⟨0, 0⟩], rg.rgStart ≤ rg.rgEnd ∧ rg.rgEnd.toNat < 2 ^ 63 := by
    intro rg member
    rcases List.mem_append.mp member with member | member
    · exact ⟨BitVec.le_of_lt (chain.proper rg member), (low rg member).trans (by decide)⟩
    · rw [List.mem_singleton.mp member]
      decide
  rcases getFreeVmrgArea_linked chain.linked size with
    ⟨nothing, none_fits⟩ |
      ⟨front, rg, back, mm', nodes', split, -, fits, result, same, linked', left⟩
  · refine .inl ⟨nothing, fun rg member fits => ?_⟩
    have inside : rg ∈ regions ++ [⟨0, 0⟩] := List.mem_append_left _ member
    apply none_fits rg (listed ▸ inside)
    rw [Fits, BitVec.le_def, start_add_toNat (bounds rg inside).1 (bounds rg inside).2 nonneg small]
    exact fits
  · right
    rw [listed] at split
    obtain ⟨ordered, bounded⟩ := bounds rg (split ▸ List.mem_append_right _ List.mem_cons_self)
    have total := start_add_toNat ordered bounded nonneg small
    rw [if_neg (start_ne_marker ordered bounded)] at result
    obtain ⟨regions', kept, proper⟩ := leftOver_freeList split chain.proper fits
    refine ⟨_, mm', regions', result, same, ⟨nodes', linked', left.trans kept, proper⟩, total,
      fun x => ?_⟩
    have balance := covers_leftOver total fits front back x
    rwa [← split, kept, covers_marker, covers_marker] at balance

end MmStruct

end PagedOs
