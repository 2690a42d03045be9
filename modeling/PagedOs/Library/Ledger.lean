import Mathlib.Data.List.Nodup
import Mathlib.Data.List.Perm.Basic
import Mathlib.Logic.Function.Basic
import Mathlib.SetTheory.Cardinal.Finite

/-! # Exclusive ownership

A ledger says who owns which resource and which resources are free. It is sound
when no resource has two owners or is both owned and free, and every resource it
names is a valid one. The lemmas say which changes of the two sides keep it so:
a free resource is granted, dropped or reordered, an owned one is given up or
changes hands.

A resource is placed when it is free or owned. A sound ledger says that it is in one
place then, and counts the owners when all resources are placed.
-/

variable {κ ρ : Type*}

/-- Owners are exclusive and the free list is sound. -/
structure Ledger (valid : ρ → Prop) (owns : κ → Option ρ) (free : List ρ) : Prop where
  exclusive : ∀ {left right : κ} {resource : ρ}, owns left = some resource →
    owns right = some resource → left = right
  taken : ∀ {owner : κ} {resource : ρ}, owns owner = some resource → resource ∉ free
  nodup : free.Nodup
  ownedValid : ∀ {owner : κ} {resource : ρ}, owns owner = some resource → valid resource
  freeValid : ∀ {resource : ρ}, resource ∈ free → valid resource

namespace Ledger

/-- The resource is free or has an owner. -/
def Placed (owns : κ → Option ρ) (free : List ρ) (resource : ρ) : Prop :=
  resource ∈ free ∨ ∃ owner, owns owner = some resource

variable {valid : ρ → Prop} {owns : κ → Option ρ} {free : List ρ}

theorem empty (nodup : free.Nodup) (inside : ∀ resource ∈ free, valid resource)
    (unowned : ∀ owner, owns owner = none) : Ledger valid owns free where
  exclusive := fun {left} _ _ held _ => by simp [unowned left] at held
  taken := fun {owner} _ held => by simp [unowned owner] at held
  nodup := nodup
  ownedValid := fun {owner} _ held => by simp [unowned owner] at held
  freeValid := fun member => inside _ member

/-- The order in which the free resources are listed does not matter to the ledger. -/
theorem perm (ledger : Ledger valid owns free) {other : List ρ} (same : free.Perm other) :
    Ledger valid owns other where
  exclusive := ledger.exclusive
  taken := fun held member => ledger.taken held (same.mem_iff.mpr member)
  nodup := same.nodup_iff.mp ledger.nodup
  ownedValid := ledger.ownedValid
  freeValid := fun member => ledger.freeValid (same.mem_iff.mpr member)

theorem drop (ledger : Ledger valid owns free) {other : List ρ} (fewer : other.Sublist free) :
    Ledger valid owns other where
  exclusive := ledger.exclusive
  taken := fun held member => ledger.taken held (fewer.subset member)
  nodup := ledger.nodup.sublist fewer
  ownedValid := ledger.ownedValid
  freeValid := fun member => ledger.freeValid (fewer.subset member)

/-- A ledger of valid resources is one of resources that meet any weaker condition. -/
theorem weaken (ledger : Ledger valid owns free) {weaker : ρ → Prop}
    (implied : ∀ resource, valid resource → weaker resource) : Ledger weaker owns free where
  exclusive := ledger.exclusive
  taken := ledger.taken
  nodup := ledger.nodup
  ownedValid := fun held => implied _ (ledger.ownedValid held)
  freeValid := fun member => implied _ (ledger.freeValid member)

theorem one_place (ledger : Ledger valid owns free) {resource : ρ}
    (placed : Placed owns free resource) :
    (resource ∈ free ∧ ∀ owner, owns owner ≠ some resource) ∨
      (resource ∉ free ∧ ∃! owner, owns owner = some resource) := by
  rcases placed with member | ⟨owner, held⟩
  · exact .inl ⟨member, fun owner held => ledger.taken held member⟩
  · exact .inr ⟨ledger.taken held, owner, held, fun other otherHeld =>
      ledger.exclusive otherHeld held⟩

/-- When every resource is placed, those that are free and those that are owned add up. -/
theorem length_add_card (ledger : Ledger valid owns free) {all : List ρ} (nodup : all.Nodup)
    (exactly : ∀ resource, resource ∈ all ↔ valid resource)
    (placed : ∀ resource, valid resource → Placed owns free resource) :
    free.length + Nat.card {owner // (owns owner).isSome} = all.length := by
  classical
  -- the owners are as many as the resources that are not free
  have owned : ∀ owner : {owner // (owns owner).isSome},
      (owns owner.1).get owner.2 ∈ all.filter (· ∉ free) := fun ⟨owner, held⟩ => by
    have same : owns owner = some ((owns owner).get held) := (Option.some_get held).symm
    rw [List.mem_filter, exactly, decide_eq_true_eq]
    exact ⟨ledger.ownedValid same, ledger.taken same⟩
  have bijective : Function.Bijective fun owner : {owner // (owns owner).isSome} =>
      (⟨(owns owner.1).get owner.2, owned owner⟩ : {found // found ∈ all.filter (· ∉ free)}) := by
    refine ⟨fun ⟨left, leftHeld⟩ ⟨right, rightHeld⟩ same => Subtype.ext ?_,
      fun ⟨found, member⟩ => ?_⟩
    · have same : (owns left).get leftHeld = (owns right).get rightHeld := congrArg Subtype.val same
      apply ledger.exclusive (Option.some_get leftHeld).symm
      rw [same, Option.some_get]
    · rw [List.mem_filter, exactly, decide_eq_true_eq] at member
      obtain ⟨owner, held⟩ := (placed found member.1).resolve_left member.2
      exact ⟨⟨owner, by rw [held]; rfl⟩, Subtype.ext (by simp only [held, Option.get_some])⟩
  have split : free.Perm (all.filter (· ∈ free)) := by
    apply (List.perm_ext_iff_of_nodup ledger.nodup (nodup.filter _)).mpr
    intro resource
    rw [List.mem_filter, decide_eq_true_eq, exactly]
    exact ⟨fun member => ⟨ledger.freeValid member, member⟩, And.right⟩
  have count : Nat.card {found // found ∈ all.filter (· ∉ free)} =
      (all.filter (· ∉ free)).length := by
    rw [← List.toFinset_card_of_nodup (nodup.filter _)]
    exact Nat.subtype_card _ fun _ => List.mem_toFinset
  rw [Nat.card_eq_of_bijective _ bijective, count, split.length_eq, ← List.countP_eq_length_filter,
    ← List.countP_eq_length_filter, List.length_eq_countP_add_countP (· ∈ free)]
  simp only [decide_eq_true_eq]

variable [DecidableEq κ]

/-- Whatever is placed after an owner has lost its resource was placed before, unless it is that
one. -/
theorem Placed.of_revoke {owner : κ} {resource : ρ}
    (placed : Placed (Function.update owns owner none) free resource) :
    Placed owns free resource := by
  refine placed.imp_right fun ⟨other, held⟩ => ⟨other, ?_⟩
  by_cases same : other = owner
  · subst same
    simp only [Function.update_self, reduceCtorEq] at held
  · rwa [Function.update_of_ne same] at held

/-- Whatever is placed after a grant was placed before it, the granted resource being free then. -/
theorem Placed.of_grant {owner : κ} {resource granted : ρ}
    (placed : Placed (Function.update owns owner (some granted)) free resource) :
    Placed owns (granted :: free) resource := by
  rcases placed with member | ⟨other, held⟩
  · exact .inl (List.mem_cons_of_mem _ member)
  · by_cases same : other = owner
    · subst same
      rw [Function.update_self] at held
      exact .inl (Option.some_inj.mp held ▸ List.mem_cons_self)
    · rw [Function.update_of_ne same] at held
      exact .inr ⟨other, held⟩

/-- An owner may give up what it has; nobody gets it. -/
theorem revoke (ledger : Ledger valid owns free) (owner : κ) :
    Ledger valid (Function.update owns owner none) free := by
  have kept : ∀ {other : κ} {resource : ρ},
      Function.update owns owner none other = some resource → owns other = some resource := by
    intro other resource held
    by_cases same : other = owner
    · subst same
      simp only [Function.update_self, reduceCtorEq] at held
    · simpa only [Function.update_of_ne same] using held
  exact
    { exclusive := fun held also => ledger.exclusive (kept held) (kept also)
      taken := fun held => ledger.taken (kept held)
      nodup := ledger.nodup
      ownedValid := fun held => ledger.ownedValid (kept held)
      freeValid := ledger.freeValid }

/-- A grant to somebody who had nothing moves a resource and loses none. -/
theorem Placed.grant {owner : κ} {resource granted : ρ} (unowned : owns owner = none)
    (placed : Placed owns (granted :: free) resource) :
    Placed (Function.update owns owner (some granted)) free resource := by
  rcases placed with member | ⟨other, held⟩
  · rcases List.mem_cons.mp member with rfl | member
    · exact .inr ⟨owner, Function.update_self ..⟩
    · exact .inl member
  · refine .inr ⟨other, ?_⟩
    rw [Function.update_of_ne fun same => by rw [same, unowned] at held; cases held]
    exact held

/-- What an owner gives up, without its being freed, is nowhere. -/
theorem revoke_unplaced (ledger : Ledger valid owns free) {owner : κ} {resource : ρ}
    (held : owns owner = some resource) :
    ¬ Placed (Function.update owns owner none) free resource := by
  rintro (member | ⟨other, otherHeld⟩)
  · exact ledger.taken held member
  · by_cases same : other = owner
    · subst same
      simp only [Function.update_self, reduceCtorEq] at otherHeld
    · rw [Function.update_of_ne same] at otherHeld
      exact same (ledger.exclusive otherHeld held)

/-- A free resource may be granted to anybody, in place of what it had. -/
theorem grant {resource : ρ} (ledger : Ledger valid owns (resource :: free)) (owner : κ) :
    Ledger valid (Function.update owns owner (some resource)) free := by
  have fresh : ∀ {other : κ} {found : ρ}, other ≠ owner →
      Function.update owns owner (some resource) other = some found →
      owns other = some found ∧ found ≠ resource ∧ found ∉ free := by
    intro other found distinct held
    rw [Function.update_of_ne distinct] at held
    obtain ⟨notHead, notTail⟩ :=
      not_or.mp fun member => ledger.taken held (List.mem_cons.mpr member)
    exact ⟨held, notHead, notTail⟩
  have atOwner : ∀ {found : ρ},
      Function.update owns owner (some resource) owner = some found → found = resource := by
    intro found held
    rw [Function.update_self] at held
    exact (Option.some_inj.mp held).symm
  have granted := List.nodup_cons.mp ledger.nodup
  refine ⟨?_, ?_, granted.2, ?_, fun member => ledger.freeValid (List.mem_cons_of_mem _ member)⟩
  · intro left right found held also
    by_cases leftOwner : left = owner
    · by_cases rightOwner : right = owner
      · rw [leftOwner, rightOwner]
      · subst leftOwner
        exact absurd (atOwner held) (fresh rightOwner also).2.1
    · by_cases rightOwner : right = owner
      · subst rightOwner
        exact absurd (atOwner also) (fresh leftOwner held).2.1
      · exact ledger.exclusive (fresh leftOwner held).1 (fresh rightOwner also).1
  · intro other found held
    by_cases same : other = owner
    · subst same
      rw [atOwner held]
      exact granted.1
    · exact (fresh same held).2.2
  · intro other found held
    by_cases same : other = owner
    · subst same
      rw [atOwner held]
      exact ledger.freeValid List.mem_cons_self
    · exact ledger.ownedValid (fresh same held).1

theorem release {resource : ρ} {owner : κ} (ledger : Ledger valid owns free)
    (held : owns owner = some resource) :
    Ledger valid (Function.update owns owner none) (resource :: free) := by
  have given := ledger.revoke owner
  refine ⟨given.exclusive, ?_, List.nodup_cons.mpr ⟨ledger.taken held, ledger.nodup⟩,
    given.ownedValid, ?_⟩
  · intro other found found_held member
    rcases List.mem_cons.mp member with rfl | member
    · by_cases same : other = owner
      · subst same
        simp only [Function.update_self, reduceCtorEq] at found_held
      · rw [Function.update_of_ne same] at found_held
        exact same (ledger.exclusive found_held held)
    · exact given.taken found_held member
  · intro found member
    rcases List.mem_cons.mp member with rfl | member
    · exact ledger.ownedValid held
    · exact ledger.freeValid member

/-- What an owner gives up may be granted to another. -/
theorem transfer {resource : ρ} {giver : κ} (ledger : Ledger valid owns free)
    (held : owns giver = some resource) (taker : κ) :
    Ledger valid (Function.update (Function.update owns giver none) taker (some resource))
      free :=
  (ledger.release held).grant taker

end Ledger

/-! ## Lists as owners

When everybody keeps a list, each place of each list is an owner. -/

namespace Ledger

variable {valid : ρ → Prop} {free : List ρ} {lists : κ → List ρ}

/-- The resource at a place of a list. -/
def slots (lists : κ → List ρ) : κ × Nat → Option ρ := fun place => (lists place.1)[place.2]?

/-- There is no item in the slot behind the end of a list. -/
theorem slots_length (key : κ) : slots lists (key, (lists key).length) = none :=
  List.getElem?_eq_none (Nat.le_refl _)

/-- The items of a list are those in the slots of its key. -/
theorem mem_iff_slots {key : κ} {item : ρ} :
    item ∈ lists key ↔ ∃ index, slots lists (key, index) = some item := List.mem_iff_getElem?

/-- An item at the end of a list is a grant to the place behind it. -/
theorem slots_append [DecidableEq κ] (key : κ) (item : ρ) :
    slots (Function.update lists key (lists key ++ [item])) =
      Function.update (slots lists) (key, (lists key).length) (some item) := by
  funext ⟨other, index⟩
  by_cases same : other = key
  · subst same
    simp only [slots, Function.update_self]
    by_cases last : index = (lists other).length
    · rw [last, Function.update_self, List.getElem?_concat_length]
    · rw [Function.update_of_ne fun hit => last (Prod.mk.inj hit).2, slots]
      by_cases inside : index < (lists other).length
      · rw [List.getElem?_append_left inside]
      · have outside : (lists other ++ [item]).length ≤ index := by
          rw [List.length_append, List.length_singleton]
          omega
        rw [List.getElem?_eq_none outside]
        exact (List.getElem?_eq_none (Nat.le_of_not_lt inside)).symm
  · rw [Function.update_of_ne fun hit => same (Prod.mk.inj hit).1, slots,
      Function.update_of_ne same, slots]

theorem slots_nodup (ledger : Ledger valid (slots lists) free) (key : κ) :
    (lists key).Nodup := by
  refine List.nodup_iff_injective_getElem.mpr fun left right same => Fin.ext ?_
  have held : ∀ index : Fin (lists key).length,
      slots lists (key, index) = some (lists key)[index] :=
    fun index => List.getElem?_eq_getElem index.isLt
  have also : slots lists (key, left) = some (lists key)[right] :=
    (held left).trans (congrArg some same)
  exact (Prod.mk.inj (ledger.exclusive also (held right))).2

/-- A placed item is free or on one list. -/
theorem one_list (ledger : Ledger valid (slots lists) free) {item : ρ}
    (placed : Placed (slots lists) free item) :
    (item ∈ free ∧ ∀ key, item ∉ lists key) ∨ (item ∉ free ∧ ∃! key, item ∈ lists key) := by
  rcases ledger.one_place placed with ⟨member, unowned⟩ | ⟨notFree, ⟨key, index⟩, held, only⟩
  · refine .inl ⟨member, fun key listed => ?_⟩
    obtain ⟨index, held⟩ := mem_iff_slots.mp listed
    exact unowned _ held
  · refine .inr ⟨notFree, key, mem_iff_slots.mpr ⟨index, held⟩, fun other listed => ?_⟩
    obtain ⟨otherIndex, otherHeld⟩ := mem_iff_slots.mp listed
    exact (Prod.mk.inj (only _ otherHeld)).1

end Ledger
