import Mathlib.Data.List.Induction
import PagedOs.Library.LinkedHeap
import PagedOs.Library.Transition
import PagedOs.Memory.Paging

/-! # The page list, node by node

`enlist_pgn_node` puts a new node at the head of a list. `delist_pgn_node` walks to the last
node, which holds the page that was enlisted first, returns this page and frees the node, but
the link that leads to the node stays as it is. The list is a queue as long as the second
function has no page to take (`isQueue_iff`).

The memory manager only ever enlists pages, so that its list is the list of page numbers of
`MmStruct` (`Shows`).
-/

namespace PagedOs

open LinkedHeap Transition

/-- A list of `struct pgn_t`: its head, and the heap its nodes lie in. -/
structure PgnList where
  pgnlist : Option Nat
  heap : Heap Int

namespace PgnList

/-- `enlist_pgn_node`: a new node in front of the list. -/
def enlistPgnNode (l : PgnList) (pgn : Int) : Int × PgnList :=
  let (pnode, heap) := l.heap.malloc
  (0, ⟨some pnode, heap.set pnode ⟨pgn, l.pgnlist⟩⟩)

/-- The loop of `delist_pgn_node`: the first node that has no successor. -/
def lastNode (heap : Heap Int) : (fuel : Nat) → Nat → Option Nat
  | 0, _ => none
  | fuel + 1, pnode =>
      match (heap.node pnode).next with
      | none => some pnode
      | some next => lastNode heap fuel next

/-- `delist_pgn_node`, or nothing when its loop never ends: a walk that does not end within the
number of nodes that were ever allocated goes round in a circle. -/
def delistPgnNode (l : PgnList) : Option (Int × PgnList) :=
  match l.pgnlist with
  | none => some (-1, l)
  | some pnode =>
      (lastNode l.heap l.heap.top pnode).map fun last =>
        ((l.heap.node last).val, { l with heap := l.heap.free last })

/-- A call of `enlist_pgn_node` or of `delist_pgn_node`. -/
inductive Call where
  | enlist (pgn : Int)
  | delist

/-- A call, with what it returns and the list after it. -/
def serve (l : PgnList) : Call → Option (Int × PgnList)
  | .enlist pgn => some (l.enlistPgnNode pgn)
  | .delist => l.delistPgnNode

/-- The list after some calls, if none of them touches freed memory. -/
def served (l : PgnList) (calls : List Call) : Option PgnList :=
  follow (fun l call => (l.serve call).map Prod.snd) l calls

/-- The pages enlisted and not yet delisted, the earliest first. -/
def waiting (calls : List Call) : List Int :=
  calls.foldl (fun pages call =>
    match call with
    | .enlist pgn => pages ++ [pgn]
    | .delist => pages.tail) []

/-- What a call returns on a queue of these pages. -/
def Call.owed (pages : List Int) : Call → Int
  | .enlist _ => 0
  | .delist => pages.headD (-1)

/-- The list holds exactly these pages, the latest at its head, and no node that was freed can
be reached from it. -/
structure Queues (l : PgnList) (pages : List Int) : Prop where
  entries : ∃ nodes, Reaches l.heap l.pgnlist nodes ∧ vals l.heap nodes = pages.reverse
  live : ∀ a, Reachable l.heap l.pgnlist a → l.heap.freed a = false

/-- Every call of a sequence returns what it would return on a queue and leaves the list a
queue. -/
def IsQueue (l : PgnList) (calls : List Call) : Prop :=
  ∀ past call later, calls = past ++ call :: later →
    ∃ before returned after, l.served past = some before ∧
      before.serve call = some (returned, after) ∧ returned = call.owed (waiting past) ∧
      after.Queues (waiting (past ++ [call]))

/-- Pages are delisted only before the first one is enlisted. -/
def NeverDelists (calls : List Call) : Prop :=
  ∀ past later, calls = past ++ .delist :: later → ∀ pgn, Call.enlist pgn ∉ past

/-! ## The list and its calls -/

/-- The list holds these pages in nodes that are live. -/
def Holds (l : PgnList) (pages : List Int) : Prop :=
  ∃ nodes, Linked l.heap l.pgnlist nodes ∧ vals l.heap nodes = pages.reverse

section Calls

variable {l : PgnList} {pages : List Int}

theorem holds_nil (heap : Heap Int) : (⟨none, heap⟩ : PgnList).Holds [] := ⟨[], .nil heap, rfl⟩

/-- A list that holds pages serves its calls without touching freed memory. -/
theorem Holds.queues (holds : l.Holds pages) : l.Queues pages := by
  obtain ⟨nodes, linked, values⟩ := holds
  exact ⟨⟨nodes, linked.reaches, values⟩,
    fun a met => (linked.live a (linked.reaches.reachable_iff.mp met)).2⟩

/-- `enlist_pgn_node` puts a page behind those that wait. -/
theorem Holds.enlist (holds : l.Holds pages) (pgn : Int) :
    (l.enlistPgnNode pgn).2.Holds (pages ++ [pgn]) := by
  obtain ⟨nodes, linked, values⟩ := holds
  obtain ⟨pushed, shown⟩ := linked.push pgn
  refine ⟨l.heap.top :: nodes, pushed, ?_⟩
  rw [List.reverse_append, List.reverse_singleton, List.singleton_append, ← values]
  exact shown

/-- On an empty list `delist_pgn_node` returns -1 and changes nothing. -/
theorem Holds.delist_empty (holds : l.Holds []) : l.delistPgnNode = some (-1, l) := by
  obtain ⟨nodes, linked, values⟩ := holds
  rw [List.map_eq_nil_iff.mp values] at linked
  rw [delistPgnNode, show l.pgnlist = none from linked.reaches]

/-- The loop of `delist_pgn_node` stops at the last node of the list. -/
theorem lastNode_eq {heap : Heap Int} {front : List Nat} {pnode last fuel : Nat}
    (reaches : Reaches heap (some pnode) (front ++ [last])) (enough : front.length < fuel) :
    lastNode heap fuel pnode = some last := by
  induction front generalizing pnode fuel with
  | nil =>
      obtain ⟨found, ends⟩ := reaches
      obtain rfl := Option.some.inj found
      cases fuel with
      | zero => exact absurd enough (Nat.not_lt_zero _)
      | succ fuel => simp only [lastNode, show (heap.node pnode).next = none from ends]
  | cons a front ih =>
      obtain ⟨found, rest⟩ := reaches
      obtain rfl := Option.some.inj found
      cases fuel with
      | zero => exact absurd enough (Nat.not_lt_zero _)
      | succ fuel =>
          obtain ⟨next, follows⟩ := rest.exists_head
          simp only [lastNode, follows]
          exact ih (follows ▸ rest) (Nat.lt_of_succ_lt_succ enough)

theorem delistPgnNode_eq {front : List Nat} {last : Nat}
    (linked : Linked l.heap l.pgnlist (front ++ [last])) :
    l.delistPgnNode = some ((l.heap.node last).val, { l with heap := l.heap.free last }) := by
  obtain ⟨pnode, head⟩ := linked.reaches.exists_head
  have inside := linked.length_le
  rw [List.length_append, List.length_singleton] at inside
  simp only [delistPgnNode, head, lastNode_eq (head ▸ linked.reaches) inside, Option.map_some]

/-- **What `delist_pgn_node` does to a list with pages**: it returns the earliest page and frees
its node, which can still be reached. -/
theorem Holds.delist (holds : l.Holds pages) (nonempty : pages ≠ []) :
    ∃ last, l.delistPgnNode = some (pages.headD (-1), { l with heap := l.heap.free last }) ∧
      Reachable (l.heap.free last) l.pgnlist last := by
  obtain ⟨nodes, linked, values⟩ := holds
  rcases List.eq_nil_or_concat nodes with rfl | ⟨front, last, rfl⟩
  · exact absurd (List.reverse_eq_nil_iff.mp values.symm) nonempty
  rw [List.concat_eq_append] at linked values
  have earliest : pages = (l.heap.node last).val :: (vals l.heap front).reverse := by
    rw [← List.reverse_reverse pages, ← values, vals_append, List.reverse_append]
    rfl
  refine ⟨last, ?_, ?_⟩
  · rw [delistPgnNode_eq linked, earliest, List.headD_cons]
  · -- nothing was written to the link that leads to it
    have kept : Reaches (l.heap.free last) l.pgnlist (front ++ [last]) :=
      linked.reaches.congr fun _ _ => rfl
    exact kept.reachable_iff.mpr (List.mem_append_right front List.mem_cons_self)

end Calls

/-! ## Sequences of calls -/

theorem served_snoc (l : PgnList) (calls : List Call) (call : Call) :
    l.served (calls ++ [call]) =
      (l.served calls).bind fun before => (before.serve call).map Prod.snd := by
  simp only [served, follow_append, follow, Option.bind_fun_some]

theorem waiting_enlist (calls : List Call) (pgn : Int) :
    waiting (calls ++ [.enlist pgn]) = waiting calls ++ [pgn] := List.foldl_concat ..

theorem waiting_delist (calls : List Call) :
    waiting (calls ++ [.delist]) = (waiting calls).tail := List.foldl_concat ..

/-- As long as nothing is enlisted no page waits. -/
theorem waiting_eq_nil {calls : List Call} (none : ∀ pgn, .enlist pgn ∉ calls) :
    waiting calls = [] := by
  induction calls using List.reverseRecOn with
  | nil => rfl
  | append_singleton calls call ih =>
      have early := ih fun pgn member => none pgn (List.mem_append_left _ member)
      cases call with
      | enlist pgn => exact absurd (List.mem_append_right calls List.mem_cons_self) (none pgn)
      | delist => rw [waiting_delist, early, List.tail_nil]

namespace NeverDelists

variable {calls past later : List Call}

/-- What holds of a sequence of calls holds of its beginning. -/
theorem of_append (never : NeverDelists (past ++ later)) : NeverDelists past := by
  intro front back shape
  exact never front (back ++ later) (by rw [shape, List.append_assoc, List.cons_append])

theorem waiting_ne_nil (never : NeverDelists calls) {pgn : Int} (member : .enlist pgn ∈ calls) :
    waiting calls ≠ [] := by
  induction calls using List.reverseRecOn with
  | nil => exact absurd member List.not_mem_nil
  | append_singleton calls call ih =>
      cases call with
      | enlist other =>
          rw [waiting_enlist]
          exact List.append_ne_nil_of_right_ne_nil _ (List.cons_ne_nil _ _)
      | delist =>
          have early : .enlist pgn ∈ calls := by simpa using member
          exact absurd early (never calls [] rfl pgn)

theorem exists_first (delists : ¬ NeverDelists calls) : ∃ past later pgn,
    calls = past ++ .delist :: later ∧ NeverDelists past ∧ .enlist pgn ∈ past := by
  induction calls using List.reverseRecOn with
  | nil => exact absurd (fun _ _ shape => by simp at shape) delists
  | append_singleton calls call ih =>
      by_cases never : NeverDelists calls
      · -- the last call is the one
        obtain ⟨past, later, shape, pgn, member⟩ : ∃ past later,
            calls ++ [call] = past ++ .delist :: later ∧ ∃ pgn, Call.enlist pgn ∈ past := by
          simpa only [NeverDelists, not_forall, not_not, exists_prop] using delists
        rcases List.eq_nil_or_concat later with rfl | ⟨later, last, rfl⟩
        · obtain ⟨rfl, same⟩ := List.append_inj' shape rfl
          exact ⟨calls, [], pgn, shape, never, member⟩
        · rw [List.concat_eq_append, ← List.cons_append, ← List.append_assoc] at shape
          exact absurd member (never past later (List.append_inj' shape rfl).1 pgn)
      · obtain ⟨past, later, pgn, rfl, rest⟩ := ih never
        exact ⟨past, later ++ [call], pgn, by simp, rest⟩

/-- The list holds the pages that were enlisted. -/
theorem served_holds (never : NeverDelists calls) (heap : Heap Int) :
    ∃ reached, (⟨none, heap⟩ : PgnList).served calls = some reached ∧
      reached.Holds (waiting calls) := by
  induction calls using List.reverseRecOn with
  | nil => exact ⟨_, rfl, holds_nil heap⟩
  | append_singleton calls call ih =>
      obtain ⟨before, reached, holds⟩ := ih never.of_append
      rw [served_snoc, reached]
      cases call with
      | enlist pgn =>
          rw [waiting_enlist]
          exact ⟨_, rfl, holds.enlist pgn⟩
      | delist =>
          have empty := waiting_eq_nil (never calls [] rfl)
          rw [waiting_delist, empty, List.tail_nil]
          rw [empty] at holds
          refine ⟨before, ?_, holds⟩
          rw [Option.bind_some, serve, holds.delist_empty, Option.map_some]

end NeverDelists

/-- **The page list is a queue** exactly as long as no page is delisted: the first call that
takes a page leaves the node it freed on the list. -/
theorem isQueue_iff (heap : Heap Int) (calls : List Call) :
    (⟨none, heap⟩ : PgnList).IsQueue calls ↔ NeverDelists calls := by
  constructor
  · intro queue
    by_contra delists
    obtain ⟨past, later, pgn, shape, never, member⟩ := NeverDelists.exists_first delists
    obtain ⟨before, returned, after, reached, result, _, queues⟩ := queue past _ later shape
    obtain ⟨_, reached', holds⟩ := never.served_holds heap
    obtain rfl := Option.some.inj (reached.symm.trans reached')
    obtain ⟨last, delisted, met⟩ := holds.delist (never.waiting_ne_nil member)
    obtain ⟨_, rfl⟩ := Prod.mk.inj (Option.some.inj (result.symm.trans delisted))
    have freed : (before.heap.free last).freed last = true := Function.update_self ..
    exact absurd (freed.symm.trans (queues.live last met)) (by decide)
  · rintro never past call later rfl
    have early := never.of_append
    obtain ⟨before, reached, holds⟩ := early.served_holds heap
    cases call with
    | enlist pgn =>
        refine ⟨before, 0, (before.enlistPgnNode pgn).2, reached, rfl, rfl, ?_⟩
        rw [waiting_enlist]
        exact (holds.enlist pgn).queues
    | delist =>
        have empty := waiting_eq_nil (never past later rfl)
        rw [waiting_delist, empty, List.tail_nil]
        rw [empty] at holds
        exact ⟨before, -1, before, reached, holds.delist_empty, rfl, holds.queues⟩

/-- After one page was enlisted and delisted the list leads to the node that was freed. -/
theorem delisted_page_stays : ¬ ∀ (heap : Heap Int) (calls : List Call),
    (⟨none, heap⟩ : PgnList).IsQueue calls := by
  intro claim
  obtain ⟨before, returned, after, reached, result, _, queues⟩ :=
    claim ⟨fun _ => ⟨0, none⟩, 0, fun _ => false⟩ [.enlist 5, .delist] [.enlist 5] .delist [] rfl
  obtain rfl := Option.some.inj reached
  obtain ⟨_, rfl⟩ := Prod.mk.inj (Option.some.inj result)
  exact absurd (queues.live 0 (.head 0)) (by decide)

/-! ## The list of a process -/

/-- The nodes hold the page numbers of the process. -/
def Shows (l : PgnList) (mm : MmStruct) : Prop := l.Holds (mm.fifoPgn.map Int.ofNat).reverse

/-- The walk of `find_victim_page` along the list. -/
def findVictimPage (l : PgnList) (pgd : Nat → Pte) : Option Int :=
  (l.heap.values l.pgnlist).find? fun pgn => pagingPagePresent (pgd pgn.toNat)

variable {l : PgnList} {mm : MmStruct}

/-- Behind `init_mm` the null pointer stands for the page list of a process, if malloc left none.
-/
theorem shows_initMm (mm : MmStruct) (heap : Heap Int) (empty : mm.fifoPgn = []) :
    (⟨none, heap⟩ : PgnList).Shows mm.initMm := by
  have unlisted : mm.initMm.fifoPgn = [] := empty
  rw [Shows, unlisted]
  exact holds_nil heap

/-- **Refinement of `enlist_pgn_node`.** -/
theorem enlistPgnNode_shows (shows : l.Shows mm) (pgn : Nat) :
    (l.enlistPgnNode pgn).2.Shows (mm.enlistPgnNode pgn) := by
  have held := Holds.enlist shows (Int.ofNat pgn)
  rwa [← List.reverse_cons] at held

/-- **Refinement of `find_victim_page`.** -/
theorem findVictimPage_shows (shows : l.Shows mm) :
    l.findVictimPage mm.pgd = mm.findVictimPage.map Int.ofNat := by
  obtain ⟨nodes, linked, values⟩ := shows
  rw [findVictimPage, linked.values_eq, values, List.reverse_reverse, List.find?_map]
  rfl

end PgnList

end PagedOs
