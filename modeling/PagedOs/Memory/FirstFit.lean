import PagedOs.Memory.FreeRegion

/-! # First fit

`get_free_vmrg_area` on a free list of any shape: regions may be empty, in any order
of addresses, and the list need not end in the node that `init_mm` made.
-/

namespace PagedOs

open LinkedHeap Spans

/-- The number of bytes of a region. -/
def VmRg.bytes (rg : VmRg) : Nat := rg.rgEnd.toNat - rg.rgStart.toNat

/-- The first of the regions with `size` bytes gave them away at its start. What is left
of it, at most one region, stands in its place. -/
structure FirstFit (size : Nat) (before after : List VmRg) (newrg : VmRg) : Prop where
  chosen : ∃ front rg left back, before = front ++ rg :: back ∧ after = front ++ (left ++ back) ∧
    (∀ earlier ∈ front, earlier.bytes < size) ∧ size ≤ rg.bytes ∧
    newrg.rgStart = rg.rgStart ∧ left.Sublist [⟨newrg.rgEnd, rg.rgEnd⟩]
  sized : newrg.rgEnd.toNat = newrg.rgStart.toNat + size
  covered : ∀ x, (∃ rg ∈ after, rg.Holds x) ↔ (∃ rg ∈ before, rg.Holds x) ∧ ¬ newrg.Holds x
  apart : (spans after).Pairwise Apart

namespace MmStruct

/-- The comparison of the source is one of the number of bytes. -/
theorem fits_iff {rg : VmRg} (ordered : rg.rgStart ≤ rg.rgEnd) (bounded : rg.rgEnd.toNat < 2 ^ 63)
    {size : Int} (positive : 1 ≤ size) (small : size < 2 ^ 31) :
    Fits size rg ↔ size.toNat ≤ rg.bytes := by
  have below := BitVec.le_def.mp ordered
  rw [Fits, BitVec.le_def, start_add_toNat ordered bounded (by omega) small, VmRg.bytes]
  omega

/-- At most one region is left of the one that was chosen. -/
theorem leftOver_sublist {rg : VmRg} {size : Int} (fits : Fits size rg) (back : List VmRg) :
    ∃ left, leftOver size rg back = left ++ back ∧
      left.Sublist [⟨rg.rgStart + toULong size, rg.rgEnd⟩] := by
  unfold leftOver
  by_cases more : rg.rgStart + toULong size < rg.rgEnd
  · exact ⟨_, if_pos more, List.Sublist.refl _⟩
  · rw [if_neg more, start_add_eq fits more]
    cases back with
    | nil => exact ⟨_, (List.append_nil _).symm, List.Sublist.refl _⟩
    | cons b back => exact ⟨[], rfl, List.nil_sublist _⟩

/-- **First-fit carving is exact.** On a list of live nodes with disjoint regions, the search
fails and changes nothing exactly if no region has enough bytes. Otherwise the first one that
has gives them away at its start, and the other regions keep their bounds and their order. -/
theorem getFreeVmrgArea_first_fit {mm : MmStruct} {nodes : List Nat}
    (linked : Linked mm.rgHeap mm.mmap.vmFreergList nodes)
    (ordered : ∀ rg ∈ mm.freeRegions, rg.rgStart ≤ rg.rgEnd)
    (bounded : ∀ rg ∈ mm.freeRegions, rg.rgEnd.toNat < 2 ^ 63)
    (apart : (spans mm.freeRegions).Pairwise Apart) {size : Int} (positive : 1 ≤ size)
    (small : size < 2 ^ 31) :
    (mm.getFreeVmrgArea size = some (none, mm) ↔
        ∀ rg ∈ mm.freeRegions, rg.bytes < size.toNat) ∧
      ((∃ rg ∈ mm.freeRegions, size.toNat ≤ rg.bytes) →
        ∃ newrg mm' nodes', mm.getFreeVmrgArea size = some (some newrg, mm') ∧
          SameSpace mm mm' ∧ Linked mm'.rgHeap mm'.mmap.vmFreergList nodes' ∧
          FirstFit size.toNat mm.freeRegions mm'.freeRegions newrg) := by
  have enough : ∀ rg ∈ mm.freeRegions, Fits size rg ↔ size.toNat ≤ rg.bytes := fun rg member =>
    fits_iff (ordered rg member) (bounded rg member) positive small
  rcases getFreeVmrgArea_linked linked size with
    ⟨nothing, none_fits⟩ | ⟨front, rg, back, mm', nodes', split, early, fits, result, same, linked',
      values⟩
  · have short : ∀ rg ∈ mm.freeRegions, rg.bytes < size.toNat := fun rg member =>
      not_le.mp (mt (enough rg member).mpr (none_fits rg member))
    refine ⟨iff_of_true nothing short, ?_⟩
    rintro ⟨rg, member, long⟩
    exact absurd long (short rg member).not_ge
  · have member : rg ∈ mm.freeRegions := split ▸ List.mem_append_right _ List.mem_cons_self
    have long := (enough rg member).mp fits
    rw [if_neg (start_ne_marker (ordered rg member) (bounded rg member))] at result
    refine ⟨iff_of_false (fun failed => ?_) fun short => absurd long (short rg member).not_ge,
      fun _ => ⟨_, mm', nodes', result, same, linked', ?_⟩⟩
    · rw [result] at failed
      cases failed
    have total := start_add_toNat (ordered rg member) (bounded rg member) (by omega) small
    have after : mm'.freeRegions = front ++ leftOver size rg back := by
      rw [freeRegions, linked'.values_eq, values]
    -- the bytes given away and those still on the list were all on it, and only once
    have balance : ∀ x, covers (spans mm.freeRegions) x =
        covers [(⟨rg.rgStart, rg.rgStart + toULong size⟩ : VmRg).span] x +
          covers (spans mm'.freeRegions) x := fun x => by
      rw [split, after]
      exact covers_leftOver total fits front back x
    have once := covers_le_one apart
    constructor
    case chosen =>
      obtain ⟨left, joined, short⟩ := leftOver_sublist fits back
      refine ⟨front, rg, left, back, split, by rw [after, joined], fun earlier inside => ?_, long,
        rfl, short⟩
      have listed : earlier ∈ mm.freeRegions := split ▸ List.mem_append_left _ inside
      exact not_le.mp (mt (enough earlier listed).mpr (early earlier inside))
    case sized => exact total
    case covered =>
      intro x
      rw [← covers_pos_iff, ← covers_pos_iff, ← VmRg.covers_span_pos_iff]
      have := balance x
      have := once x
      omega
    case apart =>
      apply pairwise_apart
      intro x
      have := balance x
      have := once x
      omega

/-- A free list of a region of 10 bytes and one of 50. -/
def twoFree : MmStruct :=
  { zeroed with
    mmap := ⟨0, 256, 200, some 0⟩
    rgHeap := ⟨fun a => if a = 0 then ⟨⟨100, 110⟩, some 1⟩ else ⟨⟨0, 50⟩, none⟩, 2,
      fun _ => false⟩ }

/-- The second region is used up, and an empty one ends the list. -/
theorem getFreeVmrgArea_first_fit_used_up :
    ∃ newrg mm', twoFree.getFreeVmrgArea 50 = some (some newrg, mm') ∧
      newrg.span = (0, 50) ∧ spans mm'.freeRegions = [(100, 110), (50, 50)] ∧
      FirstFit 50 twoFree.freeRegions mm'.freeRegions newrg := by
  have linked : Linked twoFree.rgHeap twoFree.mmap.vmFreergList [0, 1] :=
    ⟨⟨rfl, rfl, rfl⟩, by decide, by decide⟩
  have regions : twoFree.freeRegions = [⟨100, 110⟩, ⟨0, 50⟩] := by decide +kernel
  have apart : (spans twoFree.freeRegions).Pairwise Apart := by
    rw [regions]
    refine .cons (fun span member x both => ?_) (List.pairwise_singleton _ _)
    rw [List.mem_singleton.mp member] at both
    simp only [VmRg.span, holds_iff] at both
    exact absurd (both.1.1.trans_lt both.2.2) (by decide)
  obtain ⟨newrg, mm', _, result, -, -, carved⟩ :=
    (getFreeVmrgArea_first_fit linked (by rw [regions]; decide) (by rw [regions]; decide) apart
      (show (1 : Int) ≤ 50 by decide) (by decide)).2 (by rw [regions]; decide)
  have sizes : twoFree.getFreeVmrgArea 50 = some (some newrg, mm') ∧
      ((twoFree.getFreeVmrgArea 50).get (by decide +kernel)).1.map VmRg.span = some (0, 50) ∧
      spans ((twoFree.getFreeVmrgArea 50).get (by decide +kernel)).2.freeRegions =
        [(100, 110), (50, 50)] := ⟨result, by decide +kernel, by decide +kernel⟩
  simp only [result, Option.get_some, Option.map_some, Option.some.injEq, true_and] at sizes
  exact ⟨newrg, mm', result, sizes.1, sizes.2, carved⟩

end MmStruct

end PagedOs
