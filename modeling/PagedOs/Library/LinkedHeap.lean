import Mathlib.Data.Fintype.Card
import Mathlib.Data.List.Nodup
import Mathlib.Logic.Function.Basic

/-! # Linked lists in a heap

Nodes with a value and a link, allocated and freed one by one. `Linked` says that
the nodes reached from a link are a given list, all of them distinct and live;
its rules say what allocating a head node, overwriting a value and removing a
node by copying its successor over it do to the list. `Heap.Agree` compares two heaps on
the nodes that can be reached.

Allocation hands out an address never used before, and freeing a node leaves its
contents where they are.
-/

namespace LinkedHeap

/-- A list node: a value and the address of the next node, if there is one. -/
structure Node (α : Type*) where
  val : α
  next : Option Nat

/-- The nodes, the first address never allocated, and which nodes were freed. -/
structure Heap (α : Type*) where
  node : Nat → Node α
  top : Nat
  freed : Nat → Bool

variable {α : Type*}

namespace Heap

/-- Overwrite a node, and leave all others. -/
def set (h : Heap α) (a : Nat) (n : Node α) : Heap α :=
  { h with node := Function.update h.node a n }

/-- Overwrite the value of a node, which keeps its link. -/
def setVal (h : Heap α) (a : Nat) (v : α) : Heap α := h.set a ⟨v, (h.node a).next⟩

/-- A fresh node, with whatever the memory holds. -/
def malloc (h : Heap α) : Nat × Heap α :=
  (h.top, { h with top := h.top + 1, freed := Function.update h.freed h.top false })

/-- Free a node. Its contents stay, so that a use after the free can be seen. -/
def free (h : Heap α) (a : Nat) : Heap α := { h with freed := Function.update h.freed a true }

/-- Copy the node `b` over the node `a` and free `b`. -/
def absorb (h : Heap α) (a b : Nat) : Heap α := (h.set a (h.node b)).free b

/-- The values met on a walk of at most `fuel` nodes. -/
def walk (h : Heap α) : (fuel : Nat) → Option Nat → List α
  | 0, _ => []
  | _, none => []
  | fuel + 1, some a => (h.node a).val :: h.walk fuel (h.node a).next

/-- The values of a list. Only so many nodes were ever allocated, so a walk that
does not end within their number goes round in a circle. -/
def values (h : Heap α) (link : Option Nat) : List α := h.walk h.top link

end Heap

/-- Every value in the heap, on a list or not, has a property. -/
def Heap.All (p : α → Prop) (h : Heap α) : Prop := ∀ a, p (h.node a).val

namespace Heap.All

variable {p : α → Prop} {h : Heap α}

/-- Writing a node whose value has the property keeps it of every node. -/
theorem set (all : h.All p) {n : Node α} (holds : p n.val) (a : Nat) : (h.set a n).All p := by
  intro b
  by_cases same : b = a
  · subst same
    simpa only [Heap.set, Function.update_self] using holds
  · simpa only [Heap.set, Function.update_of_ne same] using all b

/-- Overwriting the value of a node with one that has the property keeps it of every node. -/
theorem setVal (all : h.All p) {v : α} (holds : p v) (a : Nat) : (h.setVal a v).All p :=
  all.set holds a

/-- A node that `malloc` returns holds what the memory held before, so the property is kept. -/
theorem malloc (all : h.All p) : h.malloc.2.All p := all

/-- A node that takes over the value and the link of another one has the property with it. -/
theorem absorb (all : h.All p) (a b : Nat) : (h.absorb a b).All p := all.set (all b) a

/-- What implies the property holds of every node whenever the property does. -/
theorem weaken (all : h.All p) {q : α → Prop} (implied : ∀ v, p v → q v) : h.All q :=
  fun a => implied _ (all a)

end Heap.All

/-- The nodes reached from a link are exactly these. -/
def Reaches (h : Heap α) : Option Nat → List Nat → Prop
  | link, [] => link = none
  | link, a :: nodes => link = some a ∧ Reaches h (h.node a).next nodes

/-- A node met on the way along the links, whether or not they end. -/
inductive Reachable (h : Heap α) : Option Nat → Nat → Prop where
  | head (a : Nat) : Reachable h (some a) a
  | tail {a b : Nat} : Reachable h (h.node a).next b → Reachable h (some a) b

/-- The nodes of a null-terminated list of distinct live nodes. -/
structure Linked (h : Heap α) (link : Option Nat) (nodes : List Nat) : Prop where
  reaches : Reaches h link nodes
  nodup : nodes.Nodup
  live : ∀ a ∈ nodes, a < h.top ∧ h.freed a = false

/-- The values of some nodes, in the order of the nodes. -/
def vals (h : Heap α) (nodes : List Nat) : List α := nodes.map fun a => (h.node a).val

@[simp] theorem vals_nil (h : Heap α) : vals h [] = [] := rfl

@[simp] theorem vals_cons (h : Heap α) (a : Nat) (nodes : List Nat) :
    vals h (a :: nodes) = (h.node a).val :: vals h nodes := rfl

/-- The values of two stretches of a list are those of the stretches one behind the other. -/
@[simp] theorem vals_append (h : Heap α) (left right : List Nat) :
    vals h (left ++ right) = vals h left ++ vals h right := List.map_append ..

/-- Two heaps that agree on the values of the nodes agree on the values of the list. -/
theorem vals_congr {h h' : Heap α} {nodes : List Nat}
    (same : ∀ a ∈ nodes, (h'.node a).val = (h.node a).val) : vals h' nodes = vals h nodes :=
  List.map_congr_left same

/-- The path from a link is the same in a heap that agrees on the links of its nodes. -/
theorem Reaches.congr {h h' : Heap α} {link : Option Nat} {nodes : List Nat}
    (reaches : Reaches h link nodes) (same : ∀ a ∈ nodes, (h'.node a).next = (h.node a).next) :
    Reaches h' link nodes := by
  induction nodes generalizing link with
  | nil => exact reaches
  | cons a nodes ih =>
      refine ⟨reaches.1, ?_⟩
      rw [same a List.mem_cons_self]
      exact ih reaches.2 fun b member => same b (List.mem_cons_of_mem _ member)

/-- A list with a node has a first one. -/
theorem Reaches.exists_head {h : Heap α} {link : Option Nat} {front : List Nat} {a : Nat}
    {back : List Nat} (reaches : Reaches h link (front ++ a :: back)) :
    ∃ first, link = some first := by
  cases front with
  | nil => exact ⟨a, reaches.1⟩
  | cons b front => exact ⟨b, reaches.1⟩

/-- The nodes before and after one of the list. -/
theorem Reaches.append_inv {h : Heap α} {link : Option Nat} {front : List Nat} {a : Nat}
    {back : List Nat} (reaches : Reaches h link (front ++ a :: back)) :
    Reaches h (h.node a).next back := by
  induction front generalizing link with
  | nil => exact reaches.2
  | cons b front ih => exact ih reaches.2

/-- Replacing what follows a node of the list. -/
theorem Reaches.splice {h h' : Heap α} {link : Option Nat} {front : List Nat} {a : Nat}
    {back other : List Nat} (reaches : Reaches h link (front ++ a :: back))
    (same : ∀ b ∈ front, (h'.node b).next = (h.node b).next)
    (follows : Reaches h' (h'.node a).next other) : Reaches h' link (front ++ a :: other) := by
  induction front generalizing link with
  | nil => exact ⟨reaches.1, follows⟩
  | cons b front ih =>
      refine ⟨reaches.1, ?_⟩
      rw [same b List.mem_cons_self]
      exact ih reaches.2 fun c member => same c (List.mem_cons_of_mem _ member)

/-- On a path that ends, the nodes reached from the link are those of the path and no others. -/
theorem Reaches.reachable_iff {h : Heap α} {link : Option Nat} {nodes : List Nat}
    (reaches : Reaches h link nodes) {a : Nat} : Reachable h link a ↔ a ∈ nodes := by
  induction nodes generalizing link with
  | nil =>
      obtain rfl : link = none := reaches
      constructor
      · intro met
        cases met
      · exact fun member => absurd member List.not_mem_nil
  | cons b nodes ih =>
      obtain ⟨rfl, rest⟩ := reaches
      constructor
      · intro met
        cases met with
        | head _ => exact List.mem_cons_self
        | tail later => exact List.mem_cons_of_mem b ((ih rest).mp later)
      · intro member
        rcases List.mem_cons.mp member with rfl | later
        · exact .head a
        · exact .tail ((ih rest).mpr later)

namespace Linked

variable {h : Heap α} {link : Option Nat} {nodes : List Nat}

/-- The empty list, whatever else the heap holds. -/
theorem nil (h : Heap α) : Linked h none [] :=
  ⟨rfl, .nil, fun _ member => absurd member List.not_mem_nil⟩

/-- A list is no longer than the number of nodes ever allocated. -/
theorem length_le (linked : Linked h link nodes) : nodes.length ≤ h.top := by
  have inside : nodes ⊆ List.range h.top := fun a member =>
    List.mem_range.mpr (linked.live a member).1
  simpa only [List.length_range] using (linked.nodup.subperm inside).length_le

/-- The bounded walk visits the values of the whole list when it has enough steps for its nodes. -/
theorem walk_eq (reaches : Reaches h link nodes) {fuel : Nat} (enough : nodes.length ≤ fuel) :
    h.walk fuel link = vals h nodes := by
  induction nodes generalizing link fuel with
  | nil =>
      rw [show link = none from reaches]
      cases fuel <;> rfl
  | cons a nodes ih =>
      obtain ⟨found, rest⟩ := reaches
      cases fuel with
      | zero => simp only [List.length_cons, Nat.le_zero_eq, Nat.add_eq_zero_iff, one_ne_zero,
          and_false] at enough
      | succ fuel =>
          rw [found, Heap.walk, vals_cons, ih rest (by simpa using enough)]

/-- On a linked list the values that are read off the heap are those of its nodes. -/
theorem values_eq (linked : Linked h link nodes) : h.values link = vals h nodes :=
  walk_eq linked.reaches linked.length_le

/-- A node of the list that has no successor is the last one. -/
theorem next_eq_none (linked : Linked h link nodes) {a : Nat} (member : a ∈ nodes)
    (last : (h.node a).next = none) : ∃ front, nodes = front ++ [a] := by
  obtain ⟨front, back, rfl⟩ := List.append_of_mem member
  have rest := linked.reaches.append_inv
  cases back with
  | nil => exact ⟨front, rfl⟩
  | cons b back => simp [Reaches, last] at rest

/-- The successor of a node of the list follows it there. -/
theorem next_eq_some (linked : Linked h link nodes) {a b : Nat} (member : a ∈ nodes)
    (follows : (h.node a).next = some b) : ∃ front back, nodes = front ++ a :: b :: back := by
  obtain ⟨front, back, rfl⟩ := List.append_of_mem member
  have rest := linked.reaches.append_inv
  cases back with
  | nil => simp [Reaches, follows] at rest
  | cons c back =>
      obtain rfl : b = c := by simpa [follows] using rest.1
      exact ⟨front, back, rfl⟩

/-- Allocating a node does not touch the list. -/
theorem malloc (linked : Linked h link nodes) : Linked h.malloc.2 link nodes where
  reaches := linked.reaches.congr fun _ _ => rfl
  nodup := linked.nodup
  live := fun a member => by
    obtain ⟨allocated, alive⟩ := linked.live a member
    simp only [Heap.malloc, Function.update_of_ne allocated.ne, alive, and_true]
    exact Nat.lt_succ_of_lt allocated

/-- A node just allocated is on no list. -/
theorem fresh (linked : Linked h link nodes) : h.top ∉ nodes := fun member =>
  (linked.live _ member).1.ne rfl

theorem pop {a : Nat} (linked : Linked h link (a :: nodes)) :
    Linked (h.free a) (h.node a).next nodes where
  reaches := linked.reaches.2.congr fun _ _ => rfl
  nodup := (List.nodup_cons.mp linked.nodup).2
  live := fun b member => by
    obtain ⟨allocated, alive⟩ := linked.live b (List.mem_cons_of_mem a member)
    have other : b ≠ a := fun same => (List.nodup_cons.mp linked.nodup).1 (same ▸ member)
    exact ⟨allocated, (Function.update_of_ne other ..).trans alive⟩

/-- Overwriting a node that is not on the list. -/
theorem set (linked : Linked h link nodes) {a : Nat} (detached : a ∉ nodes) (n : Node α) :
    Linked (h.set a n) link nodes where
  reaches := linked.reaches.congr fun b member => by
    have other : b ≠ a := fun same => detached (same ▸ member)
    simp only [Heap.set, Function.update_of_ne other]
  nodup := linked.nodup
  live := linked.live

/-- Writing a node that is not on the list leaves the values of the list. -/
theorem vals_set {a : Nat} (detached : a ∉ nodes) (n : Node α) :
    vals (h.set a n) nodes = vals h nodes := by
  apply vals_congr
  intro b member
  have other : b ≠ a := fun same => detached (same ▸ member)
  simp only [Heap.set, Function.update_of_ne other]

/-- Putting a live node that is not on the list in front of it. -/
theorem attach (linked : Linked h link nodes) {a : Nat} (detached : a ∉ nodes)
    (live : a < h.top ∧ h.freed a = false) (v : α) :
    Linked (h.set a ⟨v, link⟩) (some a) (a :: nodes) where
  reaches := by
    refine ⟨rfl, ?_⟩
    simp only [Heap.set, Function.update_self]
    exact (linked.set detached ⟨v, link⟩).reaches
  nodup := List.nodup_cons.mpr ⟨detached, linked.nodup⟩
  live := fun b member => by
    rcases List.mem_cons.mp member with rfl | member
    · exact live
    · exact linked.live b member

/-- A node that is written in front of the list contributes its value in front of the others. -/
theorem vals_attach {a : Nat} (detached : a ∉ nodes) (n : Node α) :
    vals (h.set a n) (a :: nodes) = n.val :: vals h nodes := by
  rw [vals_cons, vals_set detached]
  simp only [Heap.set, Function.update_self]

/-- Putting a node just allocated in front of the list. -/
theorem push (linked : Linked h link nodes) (v : α) :
    Linked (h.malloc.2.set h.top ⟨v, link⟩) (some h.top) (h.top :: nodes) ∧
      vals (h.malloc.2.set h.top ⟨v, link⟩) (h.top :: nodes) = v :: vals h nodes :=
  ⟨linked.malloc.attach linked.fresh ⟨Nat.lt_succ_self _, Function.update_self ..⟩ v,
    vals_attach linked.fresh ⟨v, link⟩⟩

/-- Overwriting a value leaves the list as it is. -/
theorem setVal (linked : Linked h link nodes) (a : Nat) (v : α) :
    Linked (h.setVal a v) link nodes where
  reaches := linked.reaches.congr fun b _ => by
    by_cases same : b = a
    · subst same
      simp only [Heap.setVal, Heap.set, Function.update_self]
    · simp only [Heap.setVal, Heap.set, Function.update_of_ne same]
  nodup := linked.nodup
  live := linked.live

/-- The value that is overwritten gives way to the new one. -/
theorem vals_setVal {front back : List Nat} {a : Nat} (nodup : (front ++ a :: back).Nodup) (v : α) :
    vals (h.setVal a v) (front ++ a :: back) = vals h front ++ v :: vals h back := by
  have distinct := List.nodup_middle.mp nodup
  have away : ∀ b ∈ front ++ back, ((h.setVal a v).node b).val = (h.node b).val := by
    intro b inside
    have other : b ≠ a := fun same => (List.nodup_cons.mp distinct).1 (same ▸ inside)
    simp only [Heap.setVal, Heap.set, Function.update_of_ne other]
  rw [vals_append, vals_cons, vals_congr fun b inside => away b (List.mem_append_left _ inside),
    vals_congr fun b inside => away b (List.mem_append_right _ inside)]
  simp only [Heap.setVal, Heap.set, Function.update_self]

/-- **Removing a node by copying its successor over it.** The list loses the value
of the node and keeps the node; the successor is the node that leaves. -/
theorem absorb {front back : List Nat} {a b : Nat}
    (linked : Linked h link (front ++ a :: b :: back)) :
    Linked (h.absorb a b) link (front ++ a :: back) ∧
      vals (h.absorb a b) (front ++ a :: back) =
        vals h front ++ (h.node b).val :: vals h back := by
  have distinct : (a :: b :: (front ++ back)).Nodup := by
    have shape : (front ++ a :: b :: back).Perm (a :: b :: (front ++ back)) :=
      List.perm_middle.trans (List.Perm.cons a List.perm_middle)
    exact shape.nodup_iff.mp linked.nodup
  obtain ⟨notA, rest⟩ := List.nodup_cons.mp distinct
  obtain ⟨notB, _⟩ := List.nodup_cons.mp rest
  have away : ∀ c ∈ front ++ back, c ≠ a ∧ c ≠ b := fun c inside =>
    ⟨fun same => notA (List.mem_cons_of_mem _ (same ▸ inside)), fun same => notB (same ▸ inside)⟩
  have kept : ∀ c ∈ front ++ back, (h.absorb a b).node c = h.node c := by
    intro c inside
    simp only [Heap.absorb, Heap.set, Heap.free, Function.update_of_ne (away c inside).1]
  have copied : (h.absorb a b).node a = h.node b := by
    simp only [Heap.absorb, Heap.set, Heap.free, Function.update_self]
  have afterA : Reaches h (h.node a).next (b :: back) := linked.reaches.append_inv
  refine ⟨⟨?_, ?_, ?_⟩, ?_⟩
  · refine linked.reaches.splice (fun c inside => ?_) ?_
    · rw [kept c (List.mem_append_left _ inside)]
    · rw [copied]
      apply afterA.2.congr
      intro c inside
      rw [kept c (List.mem_append_right _ inside)]
  · refine linked.nodup.sublist ?_
    exact (List.Sublist.cons_cons a (List.sublist_cons_self b back)).append_left front
  · intro c inside
    have other : c ≠ b := by
      rcases List.mem_append.mp inside with early | late
      · exact (away c (List.mem_append_left _ early)).2
      · rcases List.mem_cons.mp late with rfl | late
        · exact fun same => notA (same ▸ List.mem_cons_self)
        · exact (away c (List.mem_append_right _ late)).2
    have present : c ∈ front ++ a :: b :: back := by
      rcases List.mem_append.mp inside with early | late
      · exact List.mem_append_left _ early
      · apply List.mem_append_right
        rcases List.mem_cons.mp late with rfl | late
        · exact List.mem_cons_self
        · exact List.mem_cons_of_mem _ (List.mem_cons_of_mem _ late)
    obtain ⟨allocated, alive⟩ := linked.live c present
    refine ⟨allocated, ?_⟩
    simp only [Heap.absorb, Heap.set, Heap.free, Function.update_of_ne other, alive]
  · have early : vals (h.absorb a b) front = vals h front :=
      vals_congr fun c inside => by rw [kept c (List.mem_append_left _ inside)]
    have late : vals (h.absorb a b) back = vals h back :=
      vals_congr fun c inside => by rw [kept c (List.mem_append_right _ inside)]
    rw [vals_append, vals_cons, copied, early, late]

end Linked

/-! ## Two heaps -/

namespace Heap

/-- Two heaps hold the same in the first `n` nodes, which link to each other only. What the
other nodes hold cannot be reached from them. -/
structure Agree (n : Nat) (h h' : Heap α) : Prop where
  top : h'.top = h.top
  node : ∀ a < n, h'.node a = h.node a
  closed : ∀ a < n, ∀ b, (h.node a).next = some b → b < n

namespace Agree

variable {n : Nat} {h h' : Heap α}

theorem symm (agree : Agree n h h') : Agree n h' h where
  top := agree.top.symm
  node := fun a inside => (agree.node a inside).symm
  closed := fun a inside b follows => agree.closed a inside b (agree.node a inside ▸ follows)

theorem set (agree : Agree n h h') (a : Nat) {cell : Node α}
    (links : ∀ b, cell.next = some b → b < n) : Agree n (h.set a cell) (h'.set a cell) where
  top := agree.top
  node := fun b inside => by
    by_cases same : b = a
    · subst same
      simp only [Heap.set, Function.update_self]
    · simp only [Heap.set, Function.update_of_ne same]
      exact agree.node b inside
  closed := fun b inside => by
    by_cases same : b = a
    · subst same
      simpa only [Heap.set, Function.update_self] using links
    · simpa only [Heap.set, Function.update_of_ne same] using agree.closed b inside

/-- Overwriting the value of a node below the bound in both heaps keeps them in agreement. -/
theorem setVal (agree : Agree n h h') {a : Nat} (inside : a < n) (v : α) :
    Agree n (h.setVal a v) (h'.setVal a v) := by
  rw [Heap.setVal, Heap.setVal, agree.node a inside]
  exact agree.set a (agree.closed a inside)

/-- Writing anything into a node that cannot be reached. -/
theorem setBeyond (agree : Agree n h h') {a : Nat} (beyond : n ≤ a) (cell cell' : Node α) :
    Agree n (h.set a cell) (h'.set a cell') where
  top := agree.top
  node := fun b inside => by
    have other : b ≠ a := (inside.trans_le beyond).ne
    simp only [Heap.set, Function.update_of_ne other]
    exact agree.node b inside
  closed := fun b inside => by
    have other : b ≠ a := (inside.trans_le beyond).ne
    simpa only [Heap.set, Function.update_of_ne other] using agree.closed b inside

/-- An allocation in both heaps returns the same node and keeps them in agreement. -/
theorem malloc (agree : Agree n h h') : Agree n h.malloc.2 h'.malloc.2 where
  top := congrArg (· + 1) agree.top
  node := agree.node
  closed := agree.closed

/-- Absorbing a node below the bound in both heaps keeps them in agreement. -/
theorem absorb (agree : Agree n h h') {a b : Nat} (inside : b < n) :
    Agree n (h.absorb a b) (h'.absorb a b) := by
  have copied := agree.set a (agree.closed b inside)
  rw [Heap.absorb, Heap.absorb, agree.node b inside]
  exact ⟨copied.top, copied.node, copied.closed⟩

/-- One more node can be reached once it was written in both. -/
theorem extend (agree : Agree n h h') (same : h'.node n = h.node n)
    (links : ∀ b, (h.node n).next = some b → b ≤ n) : Agree (n + 1) h h' where
  top := agree.top
  node := fun a inside => by
    rcases Nat.lt_succ_iff_lt_or_eq.mp inside with early | rfl
    · exact agree.node a early
    · exact same
  closed := fun a inside b follows => by
    rcases Nat.lt_succ_iff_lt_or_eq.mp inside with early | rfl
    · exact Nat.lt_succ_of_lt (agree.closed a early b follows)
    · exact Nat.lt_succ_of_le (links b follows)

/-- A walk from a node that can be reached meets the same values. -/
theorem walk (agree : Agree n h h') (fuel : Nat) {link : Option Nat}
    (inside : ∀ a, link = some a → a < n) : h'.walk fuel link = h.walk fuel link := by
  induction fuel generalizing link with
  | zero => cases link <;> rfl
  | succ fuel ih =>
      cases link with
      | none => rfl
      | some a =>
          have here := inside a rfl
          simp only [Heap.walk, agree.node a here]
          rw [ih (agree.closed a here)]

/-- A list whose first node is below the bound has the same values in both heaps. -/
theorem values (agree : Agree n h h') {link : Option Nat} (inside : ∀ a, link = some a → a < n) :
    h'.values link = h.values link := by
  rw [Heap.values, Heap.values, agree.top, agree.walk h.top inside]

end Agree

end Heap

end LinkedHeap
