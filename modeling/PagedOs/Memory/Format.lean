import PagedOs.Library.LinkedHeap
import PagedOs.Memory.Memphy

/-! # Formatting a device

`init_memphy` down to the nodes of its free list. `MEMPHY_format` builds the first node before
its loop and leaves its link to the loop, and with no frame at all it leaves the list head
alone: for devices of less than two frames the list is whatever the memory held.
-/

namespace PagedOs

open LinkedHeap Memphy

/-- `struct memphy_struct` with its frame lists as links to nodes of `struct framephy_struct`,
and the heap these nodes lie in. -/
structure RawMemphy where
  storage : Int → Byte
  maxsz : Int
  rdmflg : Bool
  cursor : Int
  freeFpList : Option Nat
  usedFpList : Option Nat
  heap : Heap Int

namespace RawMemphy

/-- The loop of `MEMPHY_format`, for the frames from `iter` on. -/
def formatLoop (heap : Heap Int) (fst : Nat) (iter : Int) : (count : Nat) → Heap Int
  | 0 => heap
  | count + 1 =>
      let (newfst, heap) := heap.malloc
      let heap := heap.set newfst ⟨iter, none⟩
      let heap := heap.set fst ⟨(heap.node fst).val, some newfst⟩
      formatLoop heap newfst (iter + 1) count

/-- `MEMPHY_format`: a node for each frame, linked in increasing order. -/
def memphyFormat (mp : RawMemphy) (pagesz : Int) : Int × RawMemphy :=
  let numfp := mp.maxsz.tdiv pagesz
  if numfp ≤ 0 then (-1, mp)
  else
    let (fst, heap) := mp.heap.malloc
    let heap := heap.setVal fst 0
    (0, { mp with freeFpList := some fst, heap := formatLoop heap fst 1 (numfp - 1).toNat })

/-- `init_memphy`, `storage` being the memory allocated for the cells. -/
def initMemphy (mp : RawMemphy) (storage : Int → Byte) (maxSize : Int) (randomflg : Bool) :
    RawMemphy :=
  let mp := { mp with storage := storage, maxsz := maxSize, usedFpList := none }
  let mp := (mp.memphyFormat pagingPagesz).2
  { mp with rdmflg := randomflg, cursor := if randomflg then mp.cursor else 0 }

/-- `MEMPHY_get_freefp`; `retfpn` is what the caller's variable holds on entry. -/
def memphyGetFreefp (mp : RawMemphy) (retfpn : Int) : Int × Int × RawMemphy :=
  match mp.freeFpList with
  | none => (-1, retfpn, mp)
  | some fp =>
      (0, (mp.heap.node fp).val,
        { mp with freeFpList := (mp.heap.node fp).next, heap := mp.heap.free fp })

/-- The statuses and the frames of some successive calls of `MEMPHY_get_freefp`. -/
def getFreefps (mp : RawMemphy) (retfpn : Int) : (calls : Nat) → List (Int × Int)
  | 0 => []
  | calls + 1 =>
      let (status, fpn, mp) := mp.memphyGetFreefp retfpn
      (status, fpn) :: mp.getFreefps retfpn calls

/-- The free list of the device holds these frames, in this order. -/
def Lists (mp : RawMemphy) (free : List Int) : Prop :=
  ∃ nodes, Linked mp.heap mp.freeFpList nodes ∧ vals mp.heap nodes = free

/-- The free list is a list of exactly the frames of the device, and they are handed out in
order until none is left. -/
structure FormattedExactly (mp : RawMemphy) : Prop where
  lists : mp.Lists (frames mp.maxsz)
  inside : ∀ fpn ∈ frames mp.maxsz, 0 ≤ fpn * 256 ∧ fpn * 256 + 256 ≤ mp.maxsz
  obtained : ∀ retfpn, mp.getFreefps retfpn ((frames mp.maxsz).length + 1) =
    (frames mp.maxsz).map (fun fpn => (0, fpn)) ++ [(-1, retfpn)]

/-! ## The loop -/

/-- The heap after the first round of the loop. -/
private def firstRound (heap : Heap Int) (fst : Nat) (iter : Int) : Heap Int :=
  let appended := heap.malloc.2.set heap.top ⟨iter, none⟩
  appended.set fst ⟨(appended.node fst).val, some heap.top⟩

section Loop

variable {heap : Heap Int} {fst : Nat}

/-- The loop of `MEMPHY_format` does one round and goes on behind it. -/
theorem formatLoop_succ (iter : Int) (count : Nat) :
    formatLoop heap fst iter (count + 1) =
      formatLoop (firstRound heap fst iter) heap.top (iter + 1) count := rfl

/-- The loop leaves the nodes before it alone, but for the link of the one it starts from. -/
theorem formatLoop_below (heap : Heap Int) (fst : Nat) (iter : Int) (count : Nat) {a : Nat}
    (allocated : a < heap.top) :
    (formatLoop heap fst iter count).freed a = heap.freed a ∧
      (a ≠ fst → (formatLoop heap fst iter count).node a = heap.node a) := by
  induction count generalizing heap fst iter with
  | zero => exact ⟨rfl, fun _ => rfl⟩
  | succ count ih =>
      have old : a ≠ heap.top := allocated.ne
      obtain ⟨freed, kept⟩ := ih (firstRound heap fst iter) heap.top (iter + 1)
        (Nat.lt_succ_of_lt allocated)
      rw [formatLoop_succ]
      constructor
      · exact freed.trans (Function.update_of_ne old ..)
      · intro other
        rw [kept old]
        simp only [firstRound, Heap.set, Function.update_of_ne other, Function.update_of_ne old,
          Heap.malloc]

/-- Every round of the loop takes one node from malloc. -/
theorem formatLoop_top (iter : Int) (count : Nat) :
    (formatLoop heap fst iter count).top = heap.top + count := by
  induction count generalizing heap fst iter with
  | zero => rfl
  | succ count ih =>
      rw [formatLoop_succ, ih]
      exact Nat.add_right_comm heap.top 1 count

/-- **What the loop does**: it links new nodes with the frames from `iter` on behind `fst`. -/
theorem formatLoop_linked (heap : Heap Int) (fst : Nat) (iter : Int) (count : Nat)
    (allocated : fst < heap.top) (alive : heap.freed fst = false)
    (ends : 0 < count ∨ (heap.node fst).next = none) :
    Linked (formatLoop heap fst iter count) (some fst) (fst :: List.range' heap.top count) ∧
      vals (formatLoop heap fst iter count) (fst :: List.range' heap.top count) =
        (heap.node fst).val :: (List.range count).map fun i => iter + Int.ofNat i := by
  induction count generalizing heap fst iter with
  | zero =>
      have last := ends.resolve_left (Nat.lt_irrefl 0)
      refine ⟨⟨⟨rfl, last⟩, List.nodup_singleton fst, fun a member => ?_⟩, rfl⟩
      rw [List.mem_singleton.mp member]
      exact ⟨allocated, alive⟩
  | succ count ih =>
      have other : heap.top ≠ fst := allocated.ne'
      have appended : (firstRound heap fst iter).node heap.top = ⟨iter, none⟩ := by
        simp only [firstRound, Heap.set, Function.update_of_ne other, Function.update_self]
      have linkedTo : (firstRound heap fst iter).node fst =
          ⟨(heap.node fst).val, some heap.top⟩ := by
        simp only [firstRound, Heap.set, Function.update_self, Function.update_of_ne other.symm,
          Heap.malloc]
      obtain ⟨rest, values⟩ := ih (firstRound heap fst iter) heap.top (iter + 1)
        (Nat.lt_succ_self _) (Function.update_self ..) (.inr (by rw [appended]))
      obtain ⟨freed, kept⟩ := formatLoop_below (firstRound heap fst iter) heap.top (iter + 1)
        count (Nat.lt_succ_of_lt allocated)
      rw [formatLoop_succ, List.range'_succ]
      have first := (kept other.symm).trans linkedTo
      refine ⟨⟨⟨rfl, ?_⟩, ?_, ?_⟩, ?_⟩
      · rw [first]
        exact rest.reaches
      · refine List.nodup_cons.mpr ⟨fun member => ?_, rest.nodup⟩
        rcases List.mem_cons.mp member with same | later
        · exact other same.symm
        · have := (List.mem_range'_1.mp later).1
          omega
      · intro a member
        rcases List.mem_cons.mp member with rfl | later
        · rw [formatLoop_top, freed]
          exact ⟨Nat.lt_add_right count (Nat.lt_succ_of_lt allocated),
            (Function.update_of_ne other.symm ..).trans alive⟩
        · exact rest.live a later
      · have shifted : ((List.range (count + 1)).map fun i => iter + Int.ofNat i) =
            iter :: (List.range count).map fun i => iter + 1 + Int.ofNat i := by
          rw [List.range_succ_eq_map, List.map_cons, List.map_map]
          refine congrArg₂ _ (Int.add_zero iter) (List.map_congr_left fun i _ => ?_)
          simp only [Function.comp_apply, Int.ofNat_eq_natCast]
          omega
        rw [vals_cons, first, shifted]
        rw [appended] at values
        exact congrArg _ values

end Loop

/-! ## init_memphy -/

variable {mp : RawMemphy}

/-- Whether the list ends where `MEMPHY_format` does not write its end: the list head without
a frame, and the link of the node of a single frame. -/
def UnsetIsNull (mp : RawMemphy) (maxSize : Int) : Prop :=
  if maxSize < 256 then mp.freeFpList = none
  else if maxSize < 512 then (mp.heap.node mp.heap.top).next = none
  else True

/-- A device smaller than one frame is left as it is, with status -1. -/
theorem memphyFormat_none (none : mp.maxsz < 256) : mp.memphyFormat 256 = (-1, mp) := by
  unfold memphyFormat
  rw [if_pos (numfp_le_zero_iff.mpr none)]

/-- A device of one frame or more starts its list at a new node for frame 0, and the loop appends
the others. -/
theorem memphyFormat_some (some : ¬ mp.maxsz < 256) :
    mp.memphyFormat 256 = (0, { mp with
      freeFpList := .some mp.heap.top
      heap := formatLoop (mp.heap.malloc.2.setVal mp.heap.top 0) mp.heap.top 1
        (mp.maxsz / 256 - 1).toNat }) := by
  unfold memphyFormat
  rw [if_neg (fun zero => some (numfp_le_zero_iff.mp zero)), ← numfp_eq (Int.not_lt.mp some)]
  rfl

/-- The node that is allocated before the loop. -/
private theorem firstNode (heap : Heap Int) :
    (heap.malloc.2.setVal heap.top 0).node heap.top = ⟨0, (heap.node heap.top).next⟩ := by
  simp only [Heap.setVal, Heap.set, Heap.malloc, Function.update_self]

/-- The frames of a device are frame 0 and those behind it. -/
private theorem frames_cons {maxSize : Int} (some : 256 ≤ maxSize) :
    frames maxSize =
      0 :: (List.range (maxSize / 256 - 1).toNat).map fun i => 1 + Int.ofNat i := by
  have count : (maxSize / 256).toNat = (maxSize / 256 - 1).toNat + 1 := by omega
  rw [frames, count, List.range_succ_eq_map, List.map_cons, List.map_map]
  refine congrArg _ (List.map_congr_left fun i _ => ?_)
  simp only [Function.comp_apply, Int.ofNat_eq_natCast]
  omega

/-- The list that `MEMPHY_format` leaves holds the frames of the device in increasing order,
provided that the next pointer of the only node is null where there is one frame. -/
theorem memphyFormat_lists (mp : RawMemphy) (linked : mp.UnsetIsNull mp.maxsz) :
    (mp.memphyFormat 256).2.Lists (frames mp.maxsz) := by
  unfold UnsetIsNull at linked
  by_cases none : mp.maxsz < 256
  · rw [if_pos none] at linked
    rw [memphyFormat_none none, frames_small none]
    exact ⟨[], linked ▸ Linked.nil mp.heap, rfl⟩
  · rw [if_neg none] at linked
    have ends : 0 < (mp.maxsz / 256 - 1).toNat ∨
        ((mp.heap.malloc.2.setVal mp.heap.top 0).node mp.heap.top).next = .none := by
      by_cases single : mp.maxsz < 512
      · rw [if_pos single] at linked
        exact .inr ((congrArg Node.next (firstNode mp.heap)).trans linked)
      · exact .inl (by omega)
    obtain ⟨rest, values⟩ := formatLoop_linked _ mp.heap.top 1 _ (Nat.lt_succ_self mp.heap.top)
      (Function.update_self ..) ends
    rw [memphyFormat_some none, frames_cons (Int.not_lt.mp none)]
    refine ⟨_, rest, ?_⟩
    rw [values, firstNode]

/-- If the list is as it should be, the memory that was not written held `NULL`. -/
theorem unsetIsNull_of_lists (mp : RawMemphy)
    (lists : (mp.memphyFormat 256).2.Lists (frames mp.maxsz)) :
    mp.UnsetIsNull mp.maxsz := by
  obtain ⟨nodes, linked, values⟩ := lists
  unfold UnsetIsNull
  split_ifs with none single
  · rw [memphyFormat_none none, frames_small none] at values
    rw [memphyFormat_none none] at linked
    rw [List.map_eq_nil_iff.mp values] at linked
    exact linked.reaches
  · have count : (mp.maxsz / 256 - 1).toNat = 0 := by omega
    rw [memphyFormat_some none, count, frames_cons (Int.not_lt.mp none), count, List.range_zero,
      List.map_nil] at values
    rw [memphyFormat_some none, count] at linked
    obtain ⟨a, rfl⟩ : ∃ a, nodes = [a] := by
      apply List.length_eq_one_iff.mp
      simpa only [vals, List.length_map, List.length_singleton] using congrArg List.length values
    obtain ⟨first, last⟩ := linked.reaches
    rw [← Option.some.inj first] at last
    exact (congrArg Node.next (firstNode mp.heap)).symm.trans last

/-- A list hands out its frames in order, and then none. -/
theorem Lists.obtained {free : List Int} (lists : mp.Lists free) (retfpn : Int) :
    mp.getFreefps retfpn (free.length + 1) =
      free.map (fun fpn => (0, fpn)) ++ [(-1, retfpn)] := by
  obtain ⟨nodes, linked, rfl⟩ := lists
  induction nodes generalizing mp with
  | nil => simp only [getFreefps, memphyGetFreefp, show mp.freeFpList = none from linked.reaches,
      vals_nil, List.length_nil, List.map_nil, List.nil_append]
  | cons a nodes ih =>
      have first : mp.freeFpList = some a := linked.reaches.1
      have later := @ih { mp with
        freeFpList := (mp.heap.node a).next, heap := mp.heap.free a } linked.pop
      rw [getFreefps, memphyGetFreefp]
      simp only [first]
      exact congrArg _ later

theorem initMemphy_maxsz (mp : RawMemphy) (storage : Int → Byte) (maxSize : Int)
    (randomflg : Bool) : (mp.initMemphy storage maxSize randomflg).maxsz = maxSize := by
  simp only [initMemphy, memphyFormat]
  split_ifs <;> rfl

/-- **Formatting yields exactly the device's frames** if and only if the device has two frames
or more, or the list ended by chance where `MEMPHY_format` does not write its end. -/
theorem initMemphy_formatted_iff (mp : RawMemphy) (storage : Int → Byte) (maxSize : Int)
    (randomflg : Bool) :
    (mp.initMemphy storage maxSize randomflg).FormattedExactly ↔ mp.UnsetIsNull maxSize := by
  have size := initMemphy_maxsz mp storage maxSize randomflg
  constructor
  · intro formatted
    have lists := formatted.lists
    rw [size] at lists
    exact unsetIsNull_of_lists { mp with
      storage := storage, maxsz := maxSize, usedFpList := none } lists
  · intro linked
    have lists : (mp.initMemphy storage maxSize randomflg).Lists (frames maxSize) :=
      memphyFormat_lists { mp with
        storage := storage, maxsz := maxSize, usedFpList := none } linked
    refine ⟨by rwa [size], ?_, ?_⟩
    · intro fpn member
      rw [size] at member ⊢
      obtain ⟨nonneg, below⟩ := mem_frames.mp member
      omega
    · rw [size]
      exact lists.obtained

/-- A device of one frame whose node was allocated where a link of 7 stood. -/
def oneFrame : RawMemphy where
  storage := fun _ => 0
  maxsz := 0
  rdmflg := false
  cursor := 0
  freeFpList := none
  usedFpList := none
  heap := ⟨fun _ => ⟨0, some 7⟩, 0, fun _ => false⟩

/-- Not every device of one frame is formatted exactly: the link of its only node is what malloc
left there. -/
theorem initMemphy_single_frame : ¬ ∀ (mp : RawMemphy) (storage : Int → Byte) (maxSize : Int)
    (randomflg : Bool), 0 ≤ maxSize →
      (mp.initMemphy storage maxSize randomflg).FormattedExactly := by
  intro claim
  have formatted := claim oneFrame (fun _ => 0) 256 true (by decide)
  exact absurd (formatted.obtained 0) (by decide +kernel)

/-! ## Devices with lists of numbers -/

/-- The device is the one that `Memphy` describes, its list of used frames aside. -/
structure Shows (mp : RawMemphy) (shown : Memphy) : Prop where
  storage : mp.storage = shown.storage
  maxsz : mp.maxsz = shown.maxsz
  rdmflg : mp.rdmflg = shown.rdmflg
  cursor : mp.cursor = shown.cursor
  free : mp.Lists shown.freeFpList

variable {shown : Memphy}

/-- What the link of the first node that is allocated leads to. -/
def LeadsTo (mp : RawMemphy) (uninit : List Int) : Prop :=
  ∃ nodes, Linked mp.heap (mp.heap.node mp.heap.top).next nodes ∧ vals mp.heap nodes = uninit

/-- The list of nodes and the list of frames that stands for it in the other modules agree behind
`MEMPHY_format`. -/
theorem memphyFormat_shows (mp : RawMemphy) (shown : Memphy)
    (free : mp.Lists shown.freeFpList) (size : mp.maxsz = shown.maxsz) {uninit : List Int}
    (leads : mp.LeadsTo uninit) :
    (mp.memphyFormat 256).2.Lists (shown.memphyFormat 256 uninit).2.freeFpList := by
  rw [memphyFormat_freeFpList, ← size]
  unfold Memphy.unset
  by_cases none : mp.maxsz < 256
  · rwa [if_pos none, frames_small none, List.nil_append, memphyFormat_none none]
  · rw [if_neg none]
    by_cases single : mp.maxsz < 512
    · -- the first node stands in front of what its link leads to
      obtain ⟨nodes, linked, rfl⟩ := leads
      have count : (mp.maxsz / 256 - 1).toNat = 0 := by omega
      rw [if_pos single, frames_cons (Int.not_lt.mp none), memphyFormat_some none, count]
      obtain ⟨pushed, shown⟩ := linked.push 0
      exact ⟨mp.heap.top :: nodes, pushed, shown⟩
    · rw [if_neg single, List.append_nil]
      apply memphyFormat_lists
      rw [UnsetIsNull, if_neg none, if_neg single]
      trivial

/-- **Refinement of `init_memphy`.** -/
theorem initMemphy_shows (shows : mp.Shows shown) {uninit : List Int} (leads : mp.LeadsTo uninit)
    (storage : Int → Byte) (maxSize : Int) (randomflg : Bool) :
    (mp.initMemphy storage maxSize randomflg).Shows
      (shown.initMemphy storage maxSize randomflg uninit) := by
  have free : (mp.initMemphy storage maxSize randomflg).Lists
      (shown.initMemphy storage maxSize randomflg uninit).freeFpList :=
    memphyFormat_shows { mp with storage := storage, maxsz := maxSize, usedFpList := none }
      { shown with storage := storage, maxsz := maxSize, usedFpList := [] } shows.free rfl leads
  have cursor := shows.cursor
  constructor
  · simp only [initMemphy, Memphy.initMemphy, memphyFormat, Memphy.memphyFormat]
    split_ifs <;> rfl
  · simp only [initMemphy, Memphy.initMemphy, memphyFormat, Memphy.memphyFormat]
    split_ifs <;> rfl
  · rfl
  · simp only [initMemphy, Memphy.initMemphy, memphyFormat, Memphy.memphyFormat]
    split_ifs <;> first | rfl | exact cursor
  · exact free

/-- **Refinement of `MEMPHY_get_freefp`.** -/
theorem memphyGetFreefp_shows (shows : mp.Shows shown) (retfpn : Int) :
    (mp.memphyGetFreefp retfpn).1 = (shown.memphyGetFreefp retfpn).1 ∧
      (mp.memphyGetFreefp retfpn).2.1 = (shown.memphyGetFreefp retfpn).2.1 ∧
      (mp.memphyGetFreefp retfpn).2.2.Shows (shown.memphyGetFreefp retfpn).2.2 := by
  obtain ⟨nodes, linked, values⟩ := shows.free
  cases nodes with
  | nil =>
      have empty : mp.freeFpList = none := linked.reaches
      have none : shown.freeFpList = [] := values.symm
      simp only [memphyGetFreefp, Memphy.memphyGetFreefp, empty, none, true_and]
      exact shows
  | cons a nodes =>
      have first : mp.freeFpList = some a := linked.reaches.1
      have listed : shown.freeFpList = (mp.heap.node a).val :: vals mp.heap nodes := values.symm
      simp only [memphyGetFreefp, Memphy.memphyGetFreefp, first, listed, true_and]
      exact ⟨shows.storage, shows.maxsz, shows.rdmflg, shows.cursor, nodes, linked.pop, rfl⟩

end RawMemphy

end PagedOs
