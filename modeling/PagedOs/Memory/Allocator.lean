import PagedOs.Library.Ledger
import PagedOs.Library.Transition
import PagedOs.Memory.Growth

/-! # Concurrent allocation of frames

Any number of calls of `alloc_pages_range` on one RAM and one swap device. The calls are
atomic where they hold `lock_mem`, in `MEMPHY_get_freefp` and `MEMPHY_put_usedfp`, and
interleave everywhere else.
-/

namespace PagedOs

open Transition

variable {κ : Type*}

/-- The two devices of a caller, `mram` and `active_mswp`. -/
inductive Device where
  | mram
  | activeMswp
deriving DecidableEq

/-- Where a call of `alloc_pages_range` is: about to ask a device for a frame, with a frame
of a device in hand, or back. -/
inductive AllocPc where
  | ask (device : Device)
  | got (device : Device) (fpn : Int)
  | returned (status : Int)
deriving DecidableEq

/-- The variables of a call. The two lists `frm_lst` and `frm_lst_swap` hold frames of the
two devices. -/
structure AllocCall where
  pc : AllocPc
  reqPgnum : Nat
  pgit : Nat
  frmLst : Device → List Int

/-- The two devices, and what each process is about to do in its call. -/
structure AllocSys (κ : Type*) where
  device : Device → Memphy
  call : κ → AllocCall

/-- What a call does in one step. A frame asked for is there or not. -/
inductive AllocEvent where
  | getFreefp (device : Device) (found : Option Int)
  | putUsedfp (device : Device) (fpn : Int)
  | ret (status : Int)
deriving DecidableEq

/-- A call that has just begun: nothing was obtained, and every frame is still asked for. -/
def AllocCall.start (reqPgnum : Nat) : AllocCall := ⟨.ask .mram, reqPgnum, 0, fun _ => []⟩

/-- The frame in hand, if it is of the device. -/
def AllocPc.hand (pc : AllocPc) (device : Device) : List Int :=
  match pc with
  | .got other fpn => if other = device then [fpn] else []
  | _ => []

/-- The frames of a device that a call has obtained, the latest one last. -/
def AllocCall.obtained (call : AllocCall) (device : Device) : List Int :=
  (call.frmLst device).reverse ++ call.pc.hand device

namespace AllocSys

variable [DecidableEq κ]

/-- The system after a call has done a step on a device. -/
def put (s : AllocSys κ) (k : κ) (device : Device) (mp : Memphy) (call : AllocCall) : AllocSys κ :=
  ⟨Function.update s.device device mp, Function.update s.call k call⟩

/-- The next step of a call of `alloc_pages_range`. -/
def next (s : AllocSys κ) (k : κ) : Option (AllocEvent × AllocSys κ) :=
  let call := s.call k
  match call.pc with
  | .ask .mram =>
      if call.pgit < call.reqPgnum then
        let (status, fpn, mram) := (s.device .mram).memphyGetFreefp 0
        if status = 0 then
          some (.getFreefp .mram (some fpn), s.put k .mram mram { call with pc := .got .mram fpn })
        else some (.getFreefp .mram none, s.put k .mram mram { call with pc := .ask .activeMswp })
      else some (.ret 0, s.put k .mram (s.device .mram) { call with pc := .returned 0 })
  | .ask .activeMswp =>
      let (status, fpn, mswp) := (s.device .activeMswp).memphyGetFreefp 0
      if status = 0 then
        some (.getFreefp .activeMswp (some fpn),
          s.put k .activeMswp mswp { call with pc := .got .activeMswp fpn })
      else
        some (.getFreefp .activeMswp none,
          s.put k .activeMswp mswp { call with pc := .returned (-3000) })
  | .got device fpn =>
      let frmLst := Function.update call.frmLst device (fpn :: call.frmLst device)
      some (.putUsedfp device fpn, s.put k device ((s.device device).memphyPutUsedfp fpn)
        { call with pc := .ask .mram, pgit := call.pgit + 1, frmLst := frmLst })
  | .returned _ => none

/-- A call does a step: it takes one frame, or gives one back. -/
def Step (s : AllocSys κ) (label : κ × AllocEvent) (t : AllocSys κ) : Prop :=
  s.next label.1 = some (label.2, t)

/-- A call does a step that moves no frame. -/
def setPc (s : AllocSys κ) (k : κ) (pc : AllocPc) : AllocSys κ :=
  { s with call := Function.update s.call k { s.call k with pc := pc } }

/-- Putting a device back as it is leaves a step of the program counter only. -/
theorem put_self (s : AllocSys κ) (k : κ) (device : Device) (pc : AllocPc) :
    s.put k device (s.device device) { s.call k with pc := pc } = s.setPc k pc := by
  rw [put, Function.update_eq_self, setPc]

/-- The system after a call got a frame. -/
def take (s : AllocSys κ) (k : κ) (device : Device) (fpn : Int) (rest : List Int) : AllocSys κ :=
  s.put k device { s.device device with freeFpList := rest }
    { s.call k with pc := .got device fpn }

/-- The system after a call entered the frame it had in hand. -/
def enter (s : AllocSys κ) (k : κ) (device : Device) (fpn : Int) : AllocSys κ :=
  s.put k device ((s.device device).memphyPutUsedfp fpn)
    { s.call k with
      pc := .ask .mram
      pgit := (s.call k).pgit + 1
      frmLst := Function.update (s.call k).frmLst device (fpn :: (s.call k).frmLst device) }

variable {start s t : AllocSys κ} {k : κ} {event : AllocEvent}

/-- The three steps that move no frame: all pages have one, RAM has none, neither device has
one. -/
inductive Idle (s : AllocSys κ) (k : κ) : AllocEvent → AllocPc → Prop where
  | done : (s.call k).pc = .ask .mram → ¬ (s.call k).pgit < (s.call k).reqPgnum →
      Idle s k (.ret 0) (.returned 0)
  | ramEmpty : (s.call k).pc = .ask .mram → (s.call k).pgit < (s.call k).reqPgnum →
      (s.device .mram).freeFpList = [] → Idle s k (.getFreefp .mram none) (.ask .activeMswp)
  | swapEmpty : (s.call k).pc = .ask .activeMswp → (s.device .activeMswp).freeFpList = [] →
      Idle s k (.getFreefp .activeMswp none) (.returned (-3000))

/-- **Everything a call can do in a step.** -/
theorem Step.cases (taken : s.Step (k, event) t) :
    (∃ device fpn rest, (s.call k).pc = .ask device ∧
        (device = .mram → (s.call k).pgit < (s.call k).reqPgnum) ∧
        (s.device device).freeFpList = fpn :: rest ∧ event = .getFreefp device (some fpn) ∧
        t = s.take k device fpn rest) ∨
      (∃ device fpn, (s.call k).pc = .got device fpn ∧ event = .putUsedfp device fpn ∧
        t = s.enter k device fpn) ∨
      ∃ pc, s.Idle k event pc ∧ t = s.setPc k pc := by
  simp only [Step, next] at taken
  split at taken
  · rename_i here
    split at taken
    · rename_i more
      cases free : (s.device .mram).freeFpList with
      | nil =>
          simp only [Memphy.memphyGetFreefp, free, put_self, Option.some.injEq, Prod.mk.injEq,
            show ¬ (-1 : Int) = 0 by decide, ↓reduceIte] at taken
          obtain ⟨rfl, rfl⟩ := taken
          exact .inr (.inr ⟨_, .ramEmpty here more free, rfl⟩)
      | cons fpn rest =>
          simp only [Memphy.memphyGetFreefp, free, Option.some.injEq, Prod.mk.injEq,
            ↓reduceIte] at taken
          obtain ⟨rfl, rfl⟩ := taken
          exact .inl ⟨.mram, fpn, rest, here, fun _ => more, free, rfl, rfl⟩
    · rename_i full
      simp only [put_self, Option.some.injEq, Prod.mk.injEq] at taken
      obtain ⟨rfl, rfl⟩ := taken
      exact .inr (.inr ⟨_, .done here full, rfl⟩)
  · rename_i here
    cases free : (s.device .activeMswp).freeFpList with
    | nil =>
        simp only [Memphy.memphyGetFreefp, free, put_self, Option.some.injEq, Prod.mk.injEq,
          show ¬ (-1 : Int) = 0 by decide, ↓reduceIte] at taken
        obtain ⟨rfl, rfl⟩ := taken
        exact .inr (.inr ⟨_, .swapEmpty here free, rfl⟩)
    | cons fpn rest =>
        simp only [Memphy.memphyGetFreefp, free, Option.some.injEq, Prod.mk.injEq,
          ↓reduceIte] at taken
        obtain ⟨rfl, rfl⟩ := taken
        exact .inl ⟨.activeMswp, fpn, rest, here, (fun other => by cases other), free, rfl, rfl⟩
  · rename_i device fpn here
    simp only [Option.some.injEq, Prod.mk.injEq] at taken
    obtain ⟨rfl, rfl⟩ := taken
    exact .inr (.inl ⟨device, fpn, here, rfl, rfl⟩)
  · cases taken

/-! ## Where the frames are -/

/-- The frames of the device that were free are on the free list or were obtained, and
those entered on the lists of the calls are entered on the used list. -/
structure Issued (start s : AllocSys κ) (device : Device) : Prop where
  ledger : Ledger (· ∈ (start.device device).freeFpList)
    (Ledger.slots fun k => (s.call k).obtained device) (s.device device).freeFpList
  placed : ∀ fpn ∈ (start.device device).freeFpList,
    Ledger.Placed (Ledger.slots fun k => (s.call k).obtained device)
      (s.device device).freeFpList fpn
  used : ∃ entered : List Int, entered.Nodup ∧
    (∀ fpn, fpn ∈ entered ↔ ∃ k, fpn ∈ (s.call k).frmLst device) ∧
    (s.device device).usedFpList = entered ++ (start.device device).usedFpList

omit [DecidableEq κ] in
/-- Only what the calls have obtained of the device matters, and its lists. -/
theorem Issued.congr {device : Device} (issued : Issued start s device)
    (obtained : ∀ k, (t.call k).obtained device = (s.call k).obtained device)
    (frmLst : ∀ k, (t.call k).frmLst device = (s.call k).frmLst device)
    (same : t.device device = s.device device) : Issued start t device := by
  obtain ⟨ledger, placed, used⟩ := issued
  simp only [← obtained, ← frmLst, ← same] at ledger placed used
  exact ⟨ledger, placed, used⟩

/-- A call that moves on keeps its list of frames, and what it has obtained as long as its hand is
the same. -/
theorem setPc_call (s : AllocSys κ) (k other : κ) (pc : AllocPc) :
    ((s.setPc k pc).call other).frmLst = (s.call other).frmLst ∧
      (pc.hand = (s.call k).pc.hand →
        ((s.setPc k pc).call other).obtained = (s.call other).obtained) := by
  by_cases self : other = k
  · subst self
    simp only [setPc, Function.update_self]
    exact ⟨trivial, fun same => funext fun device => by simp only [AllocCall.obtained, same]⟩
  · simp only [setPc, Function.update_of_ne self]
    exact ⟨trivial, fun _ => trivial⟩

omit [DecidableEq κ] in
/-- A step that touches no device leaves the frame in the hand of its call. -/
theorem Idle.hand {pc : AllocPc} (idle : s.Idle k event pc) : pc.hand = (s.call k).pc.hand := by
  cases idle with
  | done here _ => rw [here]; rfl
  | ramEmpty here _ _ => rw [here]; rfl
  | swapEmpty here _ => rw [here]; rfl

/-- A frame that was taken is the last one that the call obtained. -/
theorem take_obtained {device : Device} (asks : (s.call k).pc = .ask device) (fpn : Int)
    (rest : List Int) (other : Device) :
    (fun caller => ((s.take k device fpn rest).call caller).obtained other) =
      if other = device then
        Function.update (fun caller => (s.call caller).obtained other) k
          ((s.call k).obtained other ++ [fpn])
      else fun caller => (s.call caller).obtained other := by
  funext caller
  by_cases self : caller = k
  · subst self
    by_cases same : other = device
    · subst same
      simp [take, put, AllocCall.obtained, AllocPc.hand, asks]
    · simp [take, put, AllocCall.obtained, AllocPc.hand, asks, same, Ne.symm same]
  · by_cases same : other = device
    · simp [take, put, Function.update_of_ne self, same]
    · simp [take, put, Function.update_of_ne self, same]

theorem enter_obtained {device : Device} {fpn : Int} (holds : (s.call k).pc = .got device fpn)
    (caller : κ) : ((s.enter k device fpn).call caller).obtained = (s.call caller).obtained := by
  funext other
  by_cases self : caller = k
  · subst self
    by_cases same : other = device
    · subst same
      simp [enter, put, AllocCall.obtained, AllocPc.hand, holds]
    · simp [enter, put, AllocCall.obtained, AllocPc.hand, holds, same, Ne.symm same]
  · simp [enter, put, Function.update_of_ne self]

namespace Issued

variable {device other : Device} {fpn : Int}

/-- A frame goes from the free list to the call that asked for it. -/
theorem take (issued : Issued start s other) (asks : (s.call k).pc = .ask device)
    {rest : List Int} (free : (s.device device).freeFpList = fpn :: rest) :
    Issued start (s.take k device fpn rest) other := by
  have obtained := take_obtained asks fpn rest other
  have lists : ∀ caller, ((s.take k device fpn rest).call caller).frmLst =
      (s.call caller).frmLst := by
    intro caller
    by_cases self : caller = k
    · subst self
      simp [AllocSys.take, put]
    · simp [AllocSys.take, put, Function.update_of_ne self]
  by_cases same : other = device
  · subst same
    rw [if_pos rfl] at obtained
    have device : (s.take k other fpn rest).device other =
        { s.device other with freeFpList := rest } := Function.update_self ..
    obtain ⟨ledger, placed, entered, nodup, exactly, used⟩ := issued
    rw [free] at ledger placed
    refine ⟨?_, fun found member => ?_, entered, nodup, ?_, ?_⟩
    · rw [obtained, device, Ledger.slots_append]
      exact ledger.grant _
    · rw [obtained, device, Ledger.slots_append]
      exact (placed found member).grant (Ledger.slots_length k)
    · simpa only [lists] using exactly
    · rw [device]
      exact used
  · rw [if_neg same] at obtained
    exact issued.congr (fun caller => congrFun obtained caller) (fun caller => by rw [lists])
      (Function.update_of_ne same ..)

omit [DecidableEq κ] in
/-- A frame in hand is on no list yet. -/
theorem hand_not_listed (issued : Issued start s device) (holds : (s.call k).pc = .got device fpn)
    (caller : κ) : fpn ∉ (s.call caller).frmLst device := by
  intro listed
  have inHand : Ledger.slots (fun k => (s.call k).obtained device)
      (k, ((s.call k).frmLst device).length) = some fpn := by
    simp [Ledger.slots, AllocCall.obtained, AllocPc.hand, holds]
  obtain ⟨index, found⟩ := List.mem_iff_getElem?.mp (List.mem_reverse.mpr listed)
  have inside := (List.getElem?_eq_some_iff.mp found).1
  have onList : Ledger.slots (fun k => (s.call k).obtained device) (caller, index) = some fpn := by
    simp only [Ledger.slots, AllocCall.obtained]
    rw [List.getElem?_append_left inside, found]
  obtain ⟨rfl, rfl⟩ := Prod.mk.inj (issued.ledger.exclusive onList inHand)
  rw [List.length_reverse] at inside
  exact Nat.lt_irrefl _ inside

/-- It is entered on the list of the call and on the used list. -/
theorem enter (issued : Issued start s other) (holds : (s.call k).pc = .got device fpn) :
    Issued start (s.enter k device fpn) other := by
  have obtained := enter_obtained holds
  by_cases same : other = device
  · subst same
    have fresh := issued.hand_not_listed holds
    have device : (s.enter k other fpn).device other = (s.device other).memphyPutUsedfp fpn :=
      Function.update_self ..
    have lists : ∀ caller found, found ∈ ((s.enter k other fpn).call caller).frmLst other ↔
        (caller = k ∧ found = fpn) ∨ found ∈ (s.call caller).frmLst other := by
      intro caller found
      by_cases self : caller = k
      · subst self
        simp [AllocSys.enter, put]
      · simp [AllocSys.enter, put, self]
    obtain ⟨ledger, placed, entered, nodup, exactly, used⟩ := issued
    refine ⟨?_, ?_, fpn :: entered, List.nodup_cons.mpr ⟨fun member => ?_, nodup⟩,
      fun found => ?_, ?_⟩
    · simp only [obtained, device]
      exact ledger
    · simp only [obtained, device]
      exact placed
    · obtain ⟨caller, listed⟩ := (exactly fpn).mp member
      exact fresh caller listed
    · simp only [lists, List.mem_cons, exactly]
      refine ⟨fun member => ?_, fun ⟨caller, listed⟩ => ?_⟩
      · rcases member with rfl | ⟨caller, listed⟩
        · exact ⟨k, .inl ⟨rfl, rfl⟩⟩
        · exact ⟨caller, .inr listed⟩
      · exact listed.imp And.right fun listed => ⟨caller, listed⟩
    · rw [device, Memphy.memphyPutUsedfp, used, List.cons_append]
  · refine issued.congr (fun caller => congrFun (obtained caller) other) (fun caller => ?_)
      (Function.update_of_ne same ..)
    by_cases self : caller = k
    · subst self
      simp [AllocSys.enter, put, Function.update_of_ne same]
    · simp [AllocSys.enter, put, Function.update_of_ne self]

/-- **Every step** leaves each frame where it can be accounted for. -/
theorem step (issued : Issued start s other) {label : κ × AllocEvent} (taken : s.Step label t) :
    Issued start t other := by
  obtain ⟨k, event⟩ := label
  rcases taken.cases with
    ⟨device, fpn, rest, asks, -, free, -, rfl⟩ | ⟨device, fpn, holds, -, rfl⟩ | ⟨pc, idle, rfl⟩
  · exact issued.take asks free
  · exact issued.enter holds
  · have kept := fun caller => setPc_call s k caller pc
    exact issued.congr (fun caller => congrFun ((kept caller).2 idle.hand) other)
      (fun caller => congrFun (kept caller).1 other) rfl

omit [DecidableEq κ] in
theorem of_fresh (fresh : ∀ k, ∃ reqPgnum, s.call k = .start reqPgnum)
    (nodup : (s.device device).freeFpList.Nodup) : Issued s s device := by
  have none : ∀ k, (s.call k).obtained device = [] ∧ (s.call k).frmLst device = [] := fun k => by
    obtain ⟨reqPgnum, call⟩ := fresh k
    rw [call]
    exact ⟨rfl, rfl⟩
  refine ⟨.empty nodup (fun _ member => member) fun place => ?_, fun fpn member => .inl member,
    [], List.nodup_nil, fun fpn => ?_, rfl⟩
  · rw [Ledger.slots, (none place.1).1]
    rfl
  · apply iff_of_false List.not_mem_nil
    rintro ⟨k, listed⟩
    rw [(none k).2] at listed
    cases listed

omit [DecidableEq κ] in
/-- When all calls have returned, the used list has grown by what they obtained. -/
theorem all_returned (issued : Issued start s device)
    (nodup : (start.device device).freeFpList.Nodup)
    (returned : ∀ k, ∃ status, (s.call k).pc = .returned status) :
    ∃ handed : List Int, handed.Nodup ∧
      (∀ fpn, fpn ∈ handed ↔ ∃ k, fpn ∈ (s.call k).frmLst device) ∧
      (s.device device).usedFpList = handed ++ (start.device device).usedFpList ∧
      ((s.device device).freeFpList ++ (s.device device).usedFpList).Perm
        ((start.device device).freeFpList ++ (start.device device).usedFpList) := by
  obtain ⟨ledger, placed, handed, once, exactly, used⟩ := issued
  refine ⟨handed, once, exactly, used, ?_⟩
  have handed_iff : ∀ fpn, fpn ∈ handed ↔
      ∃ owner, Ledger.slots (fun k => (s.call k).obtained device) owner = some fpn := by
    intro fpn
    rw [exactly, Prod.exists]
    apply exists_congr
    intro k
    obtain ⟨status, back⟩ := returned k
    have empty : (s.call k).pc.hand device = [] := by
      rw [back]
      rfl
    rw [← Ledger.mem_iff_slots, AllocCall.obtained, empty, List.append_nil, List.mem_reverse]
  have apart : (handed ++ (s.device device).freeFpList).Nodup := by
    refine List.nodup_append.mpr ⟨once, ledger.nodup, fun fpn member other free same => ?_⟩
    obtain ⟨owner, held⟩ := (handed_iff fpn).mp member
    exact ledger.taken held (same ▸ free)
  have split : (start.device device).freeFpList.Perm (handed ++ (s.device device).freeFpList) := by
    apply (List.perm_ext_iff_of_nodup nodup apart).mpr
    intro fpn
    rw [List.mem_append]
    refine ⟨fun member => ?_, fun member => ?_⟩
    · exact (placed fpn member).symm.imp_left (handed_iff fpn).mpr
    · rcases member with member | free
      · obtain ⟨owner, held⟩ := (handed_iff fpn).mp member
        exact ledger.ownedValid held
      · exact ledger.freeValid free
  rw [used, ← List.append_assoc]
  exact (List.perm_append_comm.trans split.symm).append_right _

end Issued

/-! ## What a call returns -/

/-- The last step that a call has done. -/
def lastEvent (k : κ) (history : List (κ × AllocEvent)) : Option AllocEvent :=
  (history.filter (·.1 = k)).getLast?.map Prod.snd

/-- The last event of a call is the last of the whole history, if that is its own. -/
theorem lastEvent_append (k : κ) (past : List (κ × AllocEvent)) (label : κ × AllocEvent) :
    lastEvent k (past ++ [label]) = if label.1 = k then some label.2 else lastEvent k past := by
  by_cases self : label.1 = k
  · rw [lastEvent, List.filter_append, List.filter_singleton, decide_eq_true self, cond_true,
      List.getLast?_concat, if_pos self]
    rfl
  · rw [lastEvent, List.filter_append, List.filter_singleton, decide_eq_false self, cond_false,
      List.append_nil, if_neg self, lastEvent]

/-- How far a call has got, and what it saw last. -/
def Reached (s : AllocSys κ) (last : Option AllocEvent) (call : AllocCall) : Prop :=
  match call.pc with
  | .ask .mram => call.pgit ≤ call.reqPgnum
  | .ask .activeMswp => call.pgit < call.reqPgnum ∧ (s.device .mram).freeFpList = [] ∧
      last = some (.getFreefp .mram none)
  | .got _ _ => call.pgit < call.reqPgnum
  | .returned status => status = 0 ∧ call.pgit = call.reqPgnum ∨
      status = -3000 ∧ (∀ device, (s.device device).freeFpList = []) ∧
        last = some (.getFreefp .activeMswp none)

/-- A call counts the frames it has entered on its lists. -/
structure Counted (req : Nat) (s : AllocSys κ) (last : Option AllocEvent) (call : AllocCall) :
    Prop where
  request : call.reqPgnum = req
  count : (call.frmLst .mram).length + (call.frmLst .activeMswp).length = call.pgit
  reached : s.Reached last call

theorem Step.empty {label : κ × AllocEvent} (taken : s.Step label t) {device : Device}
    (empty : (s.device device).freeFpList = []) : (t.device device).freeFpList = [] := by
  obtain ⟨k, event⟩ := label
  rcases taken.cases with
    ⟨other, fpn, rest, -, -, free, -, rfl⟩ | ⟨other, fpn, -, -, rfl⟩ | ⟨pc, -, rfl⟩
  · have distinct : device ≠ other := by
      rintro rfl
      rw [free] at empty
      cases empty
    simpa only [take, put, Function.update_of_ne distinct] using empty
  · by_cases same : device = other
    · subst same
      simpa only [enter, put, Function.update_self, Memphy.memphyPutUsedfp] using empty
    · simpa only [enter, put, Function.update_of_ne same] using empty
  · exact empty

/-- The call that did not step sees the devices only get emptier. -/
theorem Counted.other {req : Nat} {last : Option AllocEvent} {call : AllocCall}
    (counted : Counted req s last call) {label : κ × AllocEvent} (taken : s.Step label t) :
    Counted req t last call := by
  obtain ⟨request, count, reached⟩ := counted
  refine ⟨request, count, ?_⟩
  unfold Reached at reached ⊢
  split at reached
  · exact reached
  · exact ⟨reached.1, taken.empty reached.2.1, reached.2.2⟩
  · exact reached
  · exact reached.imp_right fun ⟨failed, empty, last⟩ =>
      ⟨failed, fun device => taken.empty (empty device), last⟩

/-- **Every step** of the call itself. -/
theorem Counted.self {req : Nat} {last : Option AllocEvent}
    (counted : Counted req s last (s.call k)) (taken : s.Step (k, event) t) :
    Counted req t (some event) (t.call k) := by
  obtain ⟨request, count, reached⟩ := counted
  rcases taken.cases with
    ⟨device, fpn, rest, asks, more, -, -, rfl⟩ | ⟨device, fpn, holds, -, rfl⟩ | ⟨pc, idle, rfl⟩
  · have call : (s.take k device fpn rest).call k = { s.call k with pc := .got device fpn } :=
      Function.update_self ..
    rw [call]
    refine ⟨request, count, ?_⟩
    have below : (s.call k).pgit < (s.call k).reqPgnum := by
      cases device with
      | mram => exact more rfl
      | activeMswp =>
          rw [Reached, asks] at reached
          exact reached.1
    exact below
  · have call : (s.enter k device fpn).call k = { s.call k with
        pc := .ask .mram
        pgit := (s.call k).pgit + 1
        frmLst := Function.update (s.call k).frmLst device
          (fpn :: (s.call k).frmLst device) } := Function.update_self ..
    rw [Reached, holds] at reached
    rw [call]
    refine ⟨request, ?_, reached⟩
    cases device <;> simp <;> omega
  · have call : (s.setPc k pc).call k = { s.call k with pc := pc } := Function.update_self ..
    rw [call]
    refine ⟨request, count, ?_⟩
    cases idle with
    | done here full =>
        rw [Reached, here] at reached
        have all : (s.call k).pgit = (s.call k).reqPgnum := by omega
        exact .inl ⟨rfl, all⟩
    | ramEmpty _ more empty => exact ⟨more, empty, rfl⟩
    | swapEmpty here empty =>
        rw [Reached, here] at reached
        exact .inr ⟨rfl, fun device => by cases device; exacts [reached.2.1, empty], rfl⟩

/-- The state of the whole system after a history. -/
structure Accounted (start : AllocSys κ) (past : List (κ × AllocEvent)) (s : AllocSys κ) :
    Prop where
  issued : ∀ device, Issued start s device
  counted : ∀ k, Counted (start.call k).reqPgnum s (lastEvent k past) (s.call k)

/-- **The step lemma.** A step of any call keeps the account of what each of them has taken, holds
and has entered. -/
theorem Accounted.step {past : List (κ × AllocEvent)} {label : κ × AllocEvent}
    (accounted : Accounted start past s) (taken : s.Step label t) :
    Accounted start (past ++ [label]) t where
  issued := fun device => (accounted.issued device).step taken
  counted := fun k => by
    rw [lastEvent_append]
    by_cases self : label.1 = k
    · subst self
      rw [if_pos rfl]
      exact (accounted.counted label.1).self taken
    · have kept : t.call k = s.call k := by
        rcases taken.cases with
          ⟨device, fpn, rest, -, -, -, -, rfl⟩ | ⟨device, fpn, -, -, rfl⟩ | ⟨pc, -, rfl⟩
        · exact Function.update_of_ne (Ne.symm self) ..
        · exact Function.update_of_ne (Ne.symm self) ..
        · exact Function.update_of_ne (Ne.symm self) ..
      rw [if_neg self, kept]
      exact (accounted.counted k).other taken

/-- Calls that have not started yet hold nothing, and the free lists are those of the start. -/
theorem Accounted.of_fresh (fresh : ∀ k, ∃ reqPgnum, start.call k = .start reqPgnum)
    (nodup : ∀ device, (start.device device).freeFpList.Nodup) : Accounted start [] start where
  issued := fun device => .of_fresh fresh (nodup device)
  counted := fun k => by
    obtain ⟨reqPgnum, call⟩ := fresh k
    rw [call]
    exact ⟨rfl, rfl, Nat.zero_le _⟩

/-- Follow a schedule; a call that has returned does nothing. -/
def schedule (s : AllocSys κ) : List κ → List (κ × AllocEvent) × AllocSys κ
  | [] => ([], s)
  | k :: ks =>
      match s.next k with
      | none => s.schedule ks
      | some (event, t) => ((k, event) :: (t.schedule ks).1, (t.schedule ks).2)

theorem schedule_run (s : AllocSys κ) (ks : List κ) :
    Run Step s (s.schedule ks).1 (s.schedule ks).2 := by
  induction ks generalizing s with
  | nil => exact .nil s
  | cons k ks ih =>
      rw [schedule]
      split
      · exact ih s
      · rename_i event t moved
        exact .cons moved (ih t)

/-- **The frame allocator is exact**, however the calls interleave. Each frame that was free is
free or was obtained by one call; a call asks swap only right after it found RAM empty; it
returns 0 with as many frames as it was asked for, and -3000 after it found both devices
empty; and once all have returned the used lists have grown by what they obtained. -/
theorem alloc_exact {history : List (κ × AllocEvent)}
    (fresh : ∀ k, ∃ reqPgnum, start.call k = .start reqPgnum)
    (nodup : ∀ device, (start.device device).freeFpList.Nodup)
    (run : Run Step start history t) :
    (∀ device, (t.device device).freeFpList.Nodup ∧ (∀ k, ((t.call k).obtained device).Nodup) ∧
        ∀ fpn ∈ (start.device device).freeFpList,
          (fpn ∈ (t.device device).freeFpList ∧ ∀ k, fpn ∉ (t.call k).obtained device) ∨
            (fpn ∉ (t.device device).freeFpList ∧ ∃! k, fpn ∈ (t.call k).obtained device)) ∧
      (∀ k found next, t.Step (k, .getFreefp .activeMswp found) next →
        lastEvent k history = some (.getFreefp .mram none) ∧
          (t.device .mram).freeFpList = []) ∧
      (∀ k device next, t.Step (k, .getFreefp device none) next →
        (t.device device).freeFpList = []) ∧
      (∀ k status, (t.call k).pc = .returned status →
        (status = 0 ∧ ((t.call k).frmLst .mram).length +
            ((t.call k).frmLst .activeMswp).length = (start.call k).reqPgnum) ∨
          (status = -3000 ∧ lastEvent k history = some (.getFreefp .activeMswp none) ∧
            ∀ device, (t.device device).freeFpList = [])) ∧
      ((∀ k, ∃ status, (t.call k).pc = .returned status) → ∀ device, ∃ handed : List Int,
        handed.Nodup ∧ (∀ fpn, fpn ∈ handed ↔ ∃ k, fpn ∈ (t.call k).frmLst device) ∧
          (t.device device).usedFpList = handed ++ (start.device device).usedFpList ∧
          ((t.device device).freeFpList ++ (t.device device).usedFpList).Perm
            ((start.device device).freeFpList ++ (start.device device).usedFpList)) := by
  have accounted : Accounted start history t := run.history_invariant (Accounted start)
    (fun _ _ _ _ accounted taken => accounted.step taken) (.of_fresh fresh nodup)
  refine ⟨fun device => ?_, fun k found next taken => ?_, fun k device next taken => ?_,
    fun k status back => ?_, fun returned device => ?_⟩
  · have issued := accounted.issued device
    exact ⟨issued.ledger.nodup, fun k => issued.ledger.slots_nodup k, fun fpn member =>
      issued.ledger.one_list (issued.placed fpn member)⟩
  · have reached := (accounted.counted k).reached
    have asks : (t.call k).pc = .ask .activeMswp := by
      rcases taken.cases with
        ⟨device, fpn, rest, asks, -, -, same, -⟩ | ⟨device, fpn, -, other, -⟩ | ⟨pc, idle, -⟩
      · obtain ⟨rfl, -⟩ := AllocEvent.getFreefp.inj same
        exact asks
      · cases other
      · cases idle with
        | swapEmpty asks _ => exact asks
    rw [Reached, asks] at reached
    exact ⟨reached.2.2, reached.2.1⟩
  · rcases taken.cases with ⟨_, _, _, -, -, -, same, -⟩ | ⟨_, _, -, other, -⟩ | ⟨pc, idle, -⟩
    · cases (AllocEvent.getFreefp.inj same).2
    · cases other
    · cases idle with
      | ramEmpty _ _ empty => exact empty
      | swapEmpty _ empty => exact empty
  · obtain ⟨request, count, reached⟩ := accounted.counted k
    rw [Reached, back] at reached
    rcases reached with ⟨ok, all⟩ | ⟨failed, empty, last⟩
    · exact .inl ⟨ok, by rw [count, all, request]⟩
    · exact .inr ⟨failed, last, empty⟩
  · exact (accounted.issued device).all_returned (nodup device) returned

/-- Two calls for two pages each, on two frames of RAM and three of swap. -/
def twoCalls : AllocSys (Fin 2) where
  device
    | .mram => Memphy.zeroed.initMemphy (fun _ => 0) 512 true []
    | .activeMswp => Memphy.zeroed.initMemphy (fun _ => 0) 768 true []
  call := fun _ => .start 2

/-- Both calls have returned the frames that they had taken. -/
def bothBack : List (Fin 2 × AllocEvent) × AllocSys (Fin 2) :=
  twoCalls.schedule [0, 1, 1, 0, 0, 1, 1, 0, 0, 1, 0, 1, 0, 1]

/-- Of the call that failed in between nothing is left: all frames are on one of the two lists. -/
theorem alloc_exact_both_back :
    ((bothBack.2.device .activeMswp).freeFpList ++
      (bothBack.2.device .activeMswp).usedFpList).Perm
        ((twoCalls.device .activeMswp).freeFpList ++ (twoCalls.device .activeMswp).usedFpList) := by
  have nodup : ∀ device, (twoCalls.device device).freeFpList.Nodup := fun device => by
    cases device
    · decide
    · decide
  obtain ⟨-, -, -, -, back⟩ := alloc_exact (fun _ => ⟨2, rfl⟩) nodup
    (twoCalls.schedule_run [0, 1, 1, 0, 0, 1, 1, 0, 0, 1, 0, 1, 0, 1])
  obtain ⟨handed, -, -, -, same⟩ := back
    (Fin.forall_fin_two.mpr ⟨⟨0, by decide⟩, ⟨0, by decide⟩⟩) .activeMswp
  exact same

/-! ## One call alone -/

/-- A call that asks for a frame takes the first free one. -/
theorem step_take {device : Device} {fpn : Int} {rest : List Int}
    (asks : (s.call k).pc = .ask device)
    (more : device = .mram → (s.call k).pgit < (s.call k).reqPgnum)
    (free : (s.device device).freeFpList = fpn :: rest) :
    s.Step (k, .getFreefp device (some fpn)) (s.take k device fpn rest) := by
  cases device with
  | mram => simp only [Step, next, asks, more rfl, Memphy.memphyGetFreefp, free, ↓reduceIte, take]
  | activeMswp => simp only [Step, next, asks, Memphy.memphyGetFreefp, free, ↓reduceIte, take]

/-- A call that has got a frame enters it in the used list. -/
theorem step_enter {device : Device} {fpn : Int} (holds : (s.call k).pc = .got device fpn) :
    s.Step (k, .putUsedfp device fpn) (s.enter k device fpn) := by
  simp only [Step, next, holds, enter]

/-- A step that touches no device moves the call on and nothing else. -/
theorem step_idle {pc : AllocPc} (idle : s.Idle k event pc) : s.Step (k, event) (s.setPc k pc) := by
  have failed : ¬ (-1 : Int) = 0 := by decide
  cases idle with
  | done here full => simp only [Step, next, here, full, ↓reduceIte, put_self]
  | ramEmpty here more empty =>
      simp only [Step, next, here, more, Memphy.memphyGetFreefp, empty, failed, ↓reduceIte,
        put_self]
  | swapEmpty here empty =>
      simp only [Step, next, here, Memphy.memphyGetFreefp, empty, failed, ↓reduceIte, put_self]

/-- The system after a call got a frame and entered it. -/
def granted (s : AllocSys κ) (k : κ) (device : Device) (fpn : Int) (rest : List Int) :
    AllocSys κ :=
  (s.take k device fpn rest).enter k device fpn

/-- After a grant the call asks the RAM again, with the frame in its list. -/
theorem granted_call (s : AllocSys κ) (k : κ) (device : Device) (fpn : Int) (rest : List Int) :
    (s.granted k device fpn rest).call k = { s.call k with
      pc := .ask .mram
      pgit := (s.call k).pgit + 1
      frmLst := Function.update (s.call k).frmLst device (fpn :: (s.call k).frmLst device) } := by
  simp [granted, take, enter, put]

/-- After a grant the frame has gone from the free list of the device to the used one. -/
theorem granted_device (s : AllocSys κ) (k : κ) (device : Device) (fpn : Int) (rest : List Int) :
    (s.granted k device fpn rest).device = Function.update s.device device
      (({ s.device device with freeFpList := rest } : Memphy).memphyPutUsedfp fpn) := by
  simp [granted, take, enter, put]

/-- A grant is two steps of the call: it takes the frame, and enters it. -/
theorem run_granted {device : Device} {fpn : Int} {rest : List Int}
    (asks : (s.call k).pc = .ask device)
    (more : device = .mram → (s.call k).pgit < (s.call k).reqPgnum)
    (free : (s.device device).freeFpList = fpn :: rest) :
    Run Step s [(k, .getFreefp device (some fpn)), (k, .putUsedfp device fpn)]
      (s.granted k device fpn rest) := by
  have holds : ((s.take k device fpn rest).call k).pc = .got device fpn := by simp [take, put]
  exact .cons (step_take asks more free) (.single (step_enter holds))

/-- The devices as the call of a process sees them. -/
def caller (s : AllocSys κ) (mm : MmStruct) : Caller := ⟨mm, s.device .mram, s.device .activeMswp⟩

/-- Steps of the call alone end with its lists, its status and the devices as given. -/
def Ends (s : AllocSys κ) (k : κ) (mm : MmStruct)
    (result : Int × List Int × List Int × Caller) : Prop :=
  ∃ history t, Run Step s history t ∧ (∀ label ∈ history, label.1 = k) ∧
    (t.call k).pc = .returned result.1 ∧
    ((t.call k).frmLst .mram, (t.call k).frmLst .activeMswp, t.caller mm) = result.2

/-- A call that ends after some steps of its own ends from the state before them. -/
theorem Ends.after {mm : MmStruct} {result : Int × List Int × List Int × Caller}
    {first : List (κ × AllocEvent)} (ends : t.Ends k mm result) (moved : Run Step s first t)
    (own : ∀ label ∈ first, label.1 = k) : s.Ends k mm result := by
  obtain ⟨history, last, run, only, outcome⟩ := ends
  refine ⟨first ++ history, last, moved.append run, fun label member => ?_, outcome⟩
  exact (List.mem_append.mp member).elim (own label) (only label)

/-- **Alone**, a call does what `alloc_pages_range` does. -/
theorem ends_allocPagesRange (mm : MmStruct) {count : Nat} (asks : (s.call k).pc = .ask .mram)
    (left : (s.call k).pgit + count = (s.call k).reqPgnum) :
    s.Ends k mm ((s.caller mm).allocPagesRange count ((s.call k).frmLst .mram)
      ((s.call k).frmLst .activeMswp)) := by
  induction count generalizing s with
  | zero =>
      refine ⟨_, _, .single (step_idle (.done asks (by omega))), by simp, ?_, ?_⟩
      · simp [setPc, Caller.allocPagesRange]
      · simp [setPc, Caller.allocPagesRange, caller]
  | succ count ih =>
      have more : (s.call k).pgit < (s.call k).reqPgnum := by omega
      -- a page that gets a frame of the device leaves `count` pages
      have page := fun device fpn rest => @ih (s.granted k device fpn rest)
        (by rw [granted_call]) (by simp only [granted_call]; omega)
      cases ram : (s.device .mram).freeFpList with
      | cons fpn rest =>
          have ends := (page .mram fpn rest).after (run_granted asks (fun _ => more) ram) (by simp)
          simpa [granted_call, granted_device, caller, Caller.allocPagesRange,
            Memphy.memphyGetFreefp, ram] using ends
      | nil =>
          have asked := step_idle (.ramEmpty asks more ram)
          have next : ((s.setPc k (.ask .activeMswp)).call k).pc = .ask .activeMswp := by
            simp [setPc]
          cases swap : (s.device .activeMswp).freeFpList with
          | cons fpn rest =>
              have moved : (s.setPc k (.ask .activeMswp)).granted k .activeMswp fpn rest =
                  s.granted k .activeMswp fpn rest := by simp [setPc, granted, take, enter, put]
              have ends := (page .activeMswp fpn rest).after
                (.cons asked (moved ▸ run_granted next (by simp) swap)) (by simp)
              simpa [granted_call, granted_device, caller, Caller.allocPagesRange,
                Memphy.memphyGetFreefp, ram, swap] using ends
          | nil =>
              refine ⟨_, _, .cons asked (.single (step_idle (.swapEmpty next swap))), by simp, ?_,
                ?_⟩
              · simp [setPc, caller, Caller.allocPagesRange, Memphy.memphyGetFreefp, ram, swap]
              · simp [setPc, caller, Caller.allocPagesRange, Memphy.memphyGetFreefp, ram, swap]

end AllocSys

end PagedOs
