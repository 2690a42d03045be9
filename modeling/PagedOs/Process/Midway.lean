import PagedOs.Process.Overlapped

/-! # Instructions that overlap compute

In every interleaving of the calls of checked programs the memory shows the variables that each
process has computed, and a read obtains what its process has written. While a process is in
`alloc_pages_range` the frames that it has taken are settled: put back in front of the free list.
Every step leaves the settled system as it is, or executes an instruction there.
-/

namespace PagedOs

open Transition

/-! ## Where a process is -/

/-- The instruction of a process grows its area by some pages, behind the call that looks at the
size of the RAM. -/
structure Growing (text : List Inst) (maxsz : Int) (own : Process) (n : Nat)
    (k : Int × List Int × List Int → Process) : Prop where
  begun : ∃ u data next, runCalls u data text own = some (.call (.maxsz .mram) next) ∧
    next maxsz = (Calls.allocPagesRange n [] [] >>= fun allocated => .ret (k allocated))
  pages : own.mm.endPgn + n ≤ demandedPages text

/-- Where a process is, with the frames that it has taken and the number that it is to take: in no
instruction, before its first call, about to ask for a frame, or with one to enter. -/
inductive Midway (text : List Inst) (maxsz : Int) (own : Process) :
    Option (DeviceM Process) → List Int → Nat → Prop where
  | idle : Midway text maxsz own none [] 0
  | fresh {u : Uninit} {data : Byte} {m : DeviceM Process}
      (begun : runCalls u data text own = some m) : Midway text maxsz own (some m) [] 0
  | ask {n left : Nat} {frmLst : List Int} {k : Int × List Int × List Int → Process}
      (growing : Growing text maxsz own n k) (count : frmLst.length + (left + 1) = n) :
      Midway text maxsz own (some (Calls.allocPagesRange (left + 1) frmLst [] >>=
        fun allocated => .ret (k allocated))) frmLst.reverse n
  | enter {n left : Nat} {frmLst : List Int} {fpn : Int}
      {k : Int × List Int × List Int → Process} (growing : Growing text maxsz own n k)
      (count : frmLst.length + (left + 1) = n) :
      Midway text maxsz own (some (.call (.putUsedfp .mram fpn) fun _ =>
        Calls.allocPagesRange left (fpn :: frmLst) [] >>= fun allocated => .ret (k allocated)))
          (fpn :: frmLst).reverse n

section Midway

variable {text : List Inst} {maxsz : Int} {own : Process} {within : Option (DeviceM Process)}
  {hand : List Int} {wanted : Nat}

/-- A process has never taken more frames than it wants. -/
theorem Midway.length_le (midway : Midway text maxsz own within hand wanted) :
    hand.length ≤ wanted := by
  cases midway with
  | idle => exact Nat.le_refl 0
  | fresh => exact Nat.le_refl 0
  | ask growing count =>
      rw [List.length_reverse]
      omega
  | enter growing count =>
      rw [List.length_reverse, List.length_cons]
      omega

/-- The pages of a process and the frames that it wants are within what its program asks for. -/
theorem Midway.pages (midway : Midway text maxsz own within hand wanted)
    (small : own.mm.endPgn ≤ demandedPages text) : own.mm.endPgn + wanted ≤ demandedPages text := by
  cases midway with
  | idle => exact small
  | fresh => exact small
  | ask growing count => exact growing.pages
  | enter growing count => exact growing.pages

end Midway

/-! ## The settled system -/

variable {ι : Type*}

/-- What the next call of a process in an instruction is: its first one, or one that takes a frame
or enters it. -/
inductive NextCall (text : List Inst) (s : Overlapped ι) (P : ι) (hand : List Int) (wanted : Nat)
    (c : DeviceCall) (next : c.Result → DeviceM Process) (result : c.Result)
    (shared : Device → Memphy) : Prop where
  | first {u : Uninit} {data : Byte}
      (begun : runCalls u data text (s.own P) = some (.call c next)) (empty : hand = [])
  | ask {left : Nat} {frmLst rest : List Int} {fpn : Int}
      {k : Int × List Int × List Int → Process}
      {later : Int × Int → DeviceM Process}
      (growing : Growing text (s.shared .mram).maxsz (s.own P) wanted k)
      (count : frmLst.length + (left + 1) = wanted) (hands : hand = frmLst.reverse)
      (asks : s.within P = some (.call (.getFreefp .mram 0) later))
      (free : (s.shared .mram).freeFpList = fpn :: rest)
      (gone : shared = Function.update s.shared .mram { s.shared .mram with freeFpList := rest })
      (entering : next result = .call (.putUsedfp .mram fpn) fun _ =>
        Calls.allocPagesRange left (fpn :: frmLst) [] >>= fun allocated => .ret (k allocated))
  | enter {left : Nat} {frmLst : List Int} {fpn : Int}
      {k : Int × List Int × List Int → Process} {later : Unit → DeviceM Process}
      (growing : Growing text (s.shared .mram).maxsz (s.own P) wanted k)
      (count : frmLst.length + (left + 1) = wanted) (hands : hand = (fpn :: frmLst).reverse)
      (enters : s.within P = some (.call (.putUsedfp .mram fpn) later))
      (entered : shared =
        Function.update s.shared .mram ((s.shared .mram).memphyPutUsedfp fpn))
      (asking : next result =
        Calls.allocPagesRange left (fpn :: frmLst) [] >>= fun allocated => .ret (k allocated))

variable [Fintype ι]

/-- The frames of the others stay when one process has others. -/
theorem sum_update_hand [DecidableEq ι] (hand : ι → List Int) (P : ι) (taken : List Int) :
    ∑ Q, (Function.update hand P taken Q : Multiset Int) =
      (taken : Multiset Int) + ∑ Q ∈ Finset.univ.erase P, (hand Q : Multiset Int) := by
  rw [← Finset.add_sum_erase _ _ (Finset.mem_univ P), Function.update_self]
  refine congrArg _ (Finset.sum_congr rfl fun Q other => ?_)
  rw [Function.update_of_ne (Finset.ne_of_mem_erase other)]

/-- The settled system, with the frames that each process has taken and the number that it is to
take: the process has executed the instructions before its program counter there. -/
structure Overlap (text : ι → List Inst) (total : Nat) (swap : Memphy) (s : Overlapped ι)
    (hand : ι → List Int) (wanted : ι → Nat) (settled : Sys ι) : Prop where
  underway : settled.Underway Finset.univ total swap text fun P => (s.own P).pc
  mm : settled.mm = fun P => (s.own P).mm
  activeMswp : settled.activeMswp = s.shared .activeMswp
  mram : Memphy.SameCells settled.mram (s.shared .mram)
  frames : (settled.mram.freeFpList : Multiset Int) =
    ∑ P, (hand P : Multiset Int) + ((s.shared .mram).freeFpList : Multiset Int)
  midway : ∀ P, Midway (text P) (s.shared .mram).maxsz (s.own P) (s.within P) (hand P) (wanted P)

namespace Overlap

variable {text : ι → List Inst} {total : Nat} {swap : Memphy} {s : Overlapped ι}
  {hand : ι → List Int} {wanted : ι → Nat} {settled : Sys ι} {P : ι}

/-- What an instruction of a process calls first. -/
theorem begun (overlap : Overlap text total swap s hand wanted settled)
    (passed : ∀ Q, checked (text Q) = true) {u : Uninit} {data : Byte} {m : DeviceM Process}
    (begun : runCalls u data (text P) (s.own P) = some m) :
    Begun settled P (text P) (s.own P).pc m := by
  have own : (⟨settled.mm P, (s.own P).pc⟩ : Process) = s.own P := by rw [overlap.mm]
  exact begun_of_runCalls overlap.underway (passed P) (own ▸ begun)

/-- The pages of the processes, the frames that they have taken and the free ones are the frames
that were free at first. -/
theorem taken_add_free (overlap : Overlap text total swap s hand wanted settled) :
    ∑ Q, (s.own Q).mm.endPgn + ∑ Q, (hand Q).length + (s.shared .mram).freeFpList.length =
      total := by
  have frames := congrArg Multiset.card overlap.frames
  have whole := overlap.underway.housing.frames
  simp only [Multiset.card_add, Multiset.card_sum, Multiset.coe_card] at frames
  simp only [overlap.mm] at whole
  omega

/-- The processes take no more pages than their programs ask for. -/
theorem pages_le (overlap : Overlap text total swap s hand wanted settled) :
    ∑ Q, (s.own Q).mm.endPgn + ∑ Q, wanted Q ≤ ∑ Q, demandedPages (text Q) := by
  have small (Q : ι) : (s.own Q).mm.endPgn ≤ demandedPages (text Q) := by
    have sbrk := overlap.underway.housing.sbrk Q
    have part := demand_take_le (text Q) (s.own Q).pc
    have pages := Sys.endPgn_eq (overlap.underway.sound.laid Q)
    simp only [overlap.mm] at pages sbrk
    rw [pages, demandedPages]
    omega
  rw [← Finset.sum_add_distrib]
  exact Finset.sum_le_sum fun Q _ => (overlap.midway Q).pages (small Q)

/-- **There is a frame** for every page that a process is to take. -/
theorem free_ne_nil (overlap : Overlap text total swap s hand wanted settled)
    (enough : ∑ Q, demandedPages (text Q) ≤ total) (short : (hand P).length < wanted P) :
    (s.shared .mram).freeFpList ≠ [] := by
  have whole := overlap.taken_add_free
  have pages := overlap.pages_le
  have taken : ∑ Q, (hand Q).length < ∑ Q, wanted Q :=
    Finset.sum_lt_sum (fun Q _ => (overlap.midway Q).length_le) ⟨P, Finset.mem_univ P, short⟩
  intro none
  rw [none, List.length_nil] at whole
  omega

/-- **The next call of a process** in an instruction. -/
theorem nextCall (overlap : Overlap text total swap s hand wanted settled)
    (enough : ∑ Q, demandedPages (text Q) ≤ total) {c : DeviceCall}
    {next : c.Result → DeviceM Process} (here : s.within P = some (.call c next))
    {result : c.Result} {shared : Device → Memphy}
    (returns : c.handle s.shared = (result, shared)) :
    NextCall (text P) s P (hand P) (wanted P) c next result shared := by
  have midway := overlap.midway P
  rw [here] at midway
  generalize whole : some (Calling.call c next) = within at midway
  generalize hands : hand P = taken at midway
  generalize wants : wanted P = number at midway
  cases midway with
  | idle => cases whole
  | fresh begun =>
      obtain rfl := Option.some.inj whole
      exact .first begun rfl
  | @ask _ left frmLst k growing count =>
      obtain ⟨later, call, entering⟩ := Calls.allocPagesRange_succ left frmLst fun allocated =>
        (.ret (k allocated) : DeviceM Process)
      rw [call] at whole
      cases whole
      have short : (hand P).length < wanted P := by
        rw [hands, wants, List.length_reverse]
        omega
      obtain ⟨fpn, rest, free⟩ := List.exists_cons_of_ne_nil (overlap.free_ne_nil enough short)
      obtain ⟨rfl, rfl⟩ := Prod.mk.inj ((DeviceCall.handle_getFreefp free 0).symm.trans returns)
      exact .ask growing count rfl here free rfl (entering fpn)
  | enter growing count =>
      cases whole
      obtain ⟨rfl, rfl⟩ := Prod.mk.inj (show ((), Function.update s.shared .mram
        ((s.shared .mram).memphyPutUsedfp _)) = _ from returns)
      exact .enter growing count rfl here rfl rfl

variable [DecidableEq ι]

/-- The frames of the settled free list are those in the hand of one process, those in the hands of
the others and those that are still free. -/
theorem frames_erase (overlap : Overlap text total swap s hand wanted settled) (P : ι) :
    (settled.mram.freeFpList : Multiset Int) = (hand P : Multiset Int) +
      ∑ Q ∈ Finset.univ.erase P, (hand Q : Multiset Int) +
        ((s.shared .mram).freeFpList : Multiset Int) := by
  rw [overlap.frames, Finset.add_sum_erase _ (fun Q => (hand Q : Multiset Int)) (Finset.mem_univ P)]

/-- **A call within an instruction** leaves the settled system. -/
theorem move (overlap : Overlap text total swap s hand wanted settled)
    {shared : Device → Memphy} (mswp : shared .activeMswp = s.shared .activeMswp)
    (mram : Memphy.SameCells (s.shared .mram) (shared .mram)) {taken : List Int} {count : Nat}
    (exchanged : (taken : Multiset Int) + ((shared .mram).freeFpList : Multiset Int) =
      (hand P : Multiset Int) + ((s.shared .mram).freeFpList : Multiset Int))
    {c : DeviceCall} {next : c.Result → DeviceM Process}
    (midway : Midway (text P) (s.shared .mram).maxsz (s.own P) (some (.call c next)) taken count) :
    Overlap text total swap (Interleaved.proceed { s with shared := shared } P (.call c next))
      (Function.update hand P taken) (Function.update wanted P count) settled where
  underway := overlap.underway
  mm := overlap.mm
  activeMswp := overlap.activeMswp.trans mswp.symm
  mram := overlap.mram.trans mram
  frames := by
    rw [overlap.frames_erase P, sum_update_hand, Interleaved.proceed_shared, add_right_comm,
      ← exchanged]
    exact add_right_comm ..
  midway := fun Q => by
    simp only [Interleaved.proceed_call, mram.maxsz]
    by_cases same : Q = P
    · subst same
      simpa only [Function.update_self] using midway
    · simpa only [Function.update_of_ne same] using overlap.midway Q

/-- **The last call of an instruction** executes it in the settled system, whose free frames may be
in another order. -/
theorem commit (overlap : Overlap text total swap s hand wanted settled)
    (passed : ∀ Q, checked (text Q) = true) (enough : ∑ Q, demandedPages (text Q) ≤ total)
    {u : Uninit} {data : Byte} {m : DeviceM Process}
    (begun : runCalls u data (text P) (s.own P) = some m)
    (unwedged : ∀ ins ∈ (text P)[(s.own P).pc]?, s.sys.UnwedgedInst P ins) {ram : Memphy}
    (same : Memphy.SameCells settled.mram ram)
    (free : settled.mram.freeFpList.Perm ram.freeFpList) {after : Process} {d : Device → Memphy}
    (performed : m.perform DeviceCall.handle (Sys.device { settled with mram := ram }) = (after, d))
    {shared : Device → Memphy} (mswp : d .activeMswp = shared .activeMswp)
    (mram : Memphy.SameCells (d .mram) (shared .mram))
    (maxsz : (shared .mram).maxsz = (s.shared .mram).maxsz)
    (frames : ((d .mram).freeFpList : Multiset Int) =
      ∑ Q ∈ Finset.univ.erase P, (hand Q : Multiset Int) +
        ((shared .mram).freeFpList : Multiset Int)) :
    Overlap text total swap (Interleaved.proceed { s with shared := shared } P (.ret after))
      (Function.update hand P []) (Function.update wanted P 0)
        ⟨d .mram, d .activeMswp, Function.update settled.mm P after.mm⟩ := by
  have own : (⟨settled.mm P, (s.own P).pc⟩ : Process) = s.own P := by rw [overlap.mm]
  have quiet : ∀ ins ∈ (text P)[(s.own P).pc]?,
      Sys.UnwedgedInst { settled with mram := ram } P ins := by
    intro ins found
    have quiet := unwedged ins found
    rwa [Sys.UnwedgedInst, show s.sys.mm = settled.mm from overlap.mm.symm] at quiet
  obtain ⟨moved, underway⟩ := (overlap.underway.reorder same free).commit (fun Q _ => passed Q)
    enough (Finset.mem_univ P) (own ▸ begun) quiet performed
  have pcs : Function.update (fun Q => (s.own Q).pc) P ((s.own P).pc + 1) =
      fun Q => (Function.update s.own P after Q).pc := by
    funext Q
    by_cases same : Q = P
    · subst same
      rw [Function.update_self, Function.update_self, moved]
    · rw [Function.update_of_ne same, Function.update_of_ne same]
  exact {
    underway := pcs ▸ underway
    mm := by
      funext Q
      by_cases same : Q = P
      · subst same
        simp only [Interleaved.proceed_ret, Function.update_self]
      · simp only [Interleaved.proceed_ret, Function.update_of_ne same, overlap.mm]
    activeMswp := mswp
    mram := mram
    frames := by
      rw [frames, sum_update_hand, Multiset.coe_nil, zero_add]
      rfl
    midway := fun Q => by
      simp only [Interleaved.proceed_ret, maxsz]
      by_cases same : Q = P
      · subst same
        simpa only [Function.update_self] using Midway.idle
      · simpa only [Function.update_of_ne same] using overlap.midway Q }

/-- **The last frame is entered**: the settled system executes the allocation with the frames that
the process has taken. -/
theorem entered (overlap : Overlap text total swap s hand wanted settled)
    (passed : ∀ Q, checked (text Q) = true) (enough : ∑ Q, demandedPages (text Q) ≤ total)
    (unwedged : ∀ ins ∈ (text P)[(s.own P).pc]?, s.sys.UnwedgedInst P ins) {n : Nat}
    {frmLst : List Int} {k : Int × List Int × List Int → Process}
    (growing : Growing (text P) (s.shared .mram).maxsz (s.own P) n k) (count : frmLst.length = n)
    (hands : hand P = frmLst.reverse) {shared : Device → Memphy}
    (mswp : shared .activeMswp = s.shared .activeMswp)
    (mram : Memphy.SameCells (s.shared .mram) (shared .mram))
    (left : (shared .mram).freeFpList = (s.shared .mram).freeFpList) :
    ∃ settled, Overlap text total swap
      (Interleaved.proceed { s with shared := shared } P (.ret (k (0, frmLst, []))))
      (Function.update hand P []) (Function.update wanted P 0) settled := by
  obtain ⟨u, data, next, begun, grows⟩ := growing.begun
  have rest := (∑ Q ∈ Finset.univ.erase P, (hand Q : Multiset Int)).coe_toList
  set others := (∑ Q ∈ Finset.univ.erase P, (hand Q : Multiset Int)).toList
  -- the frames in the order in which the process has taken them
  set ram : Memphy := { settled.mram with
    freeFpList := frmLst.reverse ++ (others ++ (s.shared .mram).freeFpList) } with order
  have free : settled.mram.freeFpList.Perm ram.freeFpList := by
    rw [← Multiset.coe_eq_coe, overlap.frames_erase P, hands, ← Multiset.coe_add,
      ← Multiset.coe_add, rest, add_assoc]
  have performed : (Calling.call (.maxsz .mram) next).perform DeviceCall.handle
      (Sys.device { settled with mram := ram }) = (k (0, frmLst, []), Function.update
        (Sys.device { settled with mram := ram }) .mram (ram.taken frmLst.reverse.length)) := by
    have size : ram.maxsz = (s.shared .mram).maxsz := overlap.mram.maxsz.symm
    have allocated := Calls.perform_allocPagesRange_ram
      (show (Sys.device { settled with mram := ram } .mram).freeFpList = _ from rfl)
    rw [List.length_reverse, count, List.reverse_reverse] at allocated
    have step : (Calling.call (.maxsz .mram) next).perform DeviceCall.handle
        (Sys.device { settled with mram := ram }) = (next ram.maxsz).perform DeviceCall.handle
          (Sys.device { settled with mram := ram }) := rfl
    rw [step, size, grows, Calling.perform_bind, allocated, List.length_reverse, count]
    rfl
  have same : Memphy.SameCells settled.mram ram := ⟨rfl, rfl, rfl⟩
  have cells := overlap.mram.trans mram
  refine ⟨_, overlap.commit passed enough begun unwedged same free performed
    (overlap.activeMswp.trans mswp.symm) ⟨cells.storage, cells.maxsz, cells.rdmflg⟩ mram.maxsz ?_⟩
  have taken : (ram.taken frmLst.reverse.length).freeFpList =
      others ++ (s.shared .mram).freeFpList := List.drop_left
  rw [Function.update_self, taken, left, ← Multiset.coe_add, rest]

/-- **The first call of an instruction**: an access is executed with it, and an allocation looks at
the size of the RAM. -/
theorem first (overlap : Overlap text total swap s hand wanted settled)
    (passed : ∀ Q, checked (text Q) = true) (enough : ∑ Q, demandedPages (text Q) ≤ total)
    (unwedged : ∀ ins ∈ (text P)[(s.own P).pc]?, s.sys.UnwedgedInst P ins) {u : Uninit}
    {data : Byte} {c : DeviceCall} {next : c.Result → DeviceM Process}
    (begun : runCalls u data (text P) (s.own P) = some (.call c next)) (none : hand P = [])
    {result : c.Result} {shared : Device → Memphy}
    (returns : c.handle s.shared = (result, shared)) : ∃ hand wanted settled,
      Overlap text total swap (Interleaved.proceed { s with shared := shared } P (next result))
        hand wanted settled := by
  have random := overlap.underway.sound.coherent.ramRandom
  have frames := overlap.frames_erase P
  rw [none, Multiset.coe_nil, zero_add] at frames
  have shape := overlap.begun passed begun
  have ram : (s.shared .mram).rdmflg = true := overlap.mram.rdmflg.trans random
  generalize whole : Calling.call c next = m at shape
  cases shape with
  | done after => cases whole
  | read value after found reads present =>
      cases whole
      obtain ⟨rfl, rfl⟩ := Prod.mk.inj ((DeviceCall.handle_read ram _ value).symm.trans returns)
      exact ⟨_, _, _, overlap.commit passed enough begun unwedged (.refl _) (.refl _)
        (Calling.perform_last _ (DeviceCall.handle_read random _ value) rfl) overlap.activeMswp
          overlap.mram rfl frames⟩
  | write addr value after present =>
      cases whole
      obtain ⟨rfl, rfl⟩ := Prod.mk.inj ((DeviceCall.handle_write ram _ value).symm.trans returns)
      have stored : Function.update (s.shared .mram).storage (settled.physical P addr) value =
          Function.update settled.mram.storage (settled.physical P addr) value := by
        rw [overlap.mram.storage]
      exact ⟨_, _, _, overlap.commit passed enough begun unwedged (.refl _) (.refl _)
        (Calling.perform_last _ (DeviceCall.handle_write random _ value) rfl) overlap.activeMswp
          ⟨stored, overlap.mram.maxsz, overlap.mram.rdmflg⟩ rfl frames⟩
  | grow next asks =>
      cases whole
      obtain ⟨rfl, rfl⟩ := Prod.mk.inj (show ((s.shared .mram).maxsz, s.shared) = _ from returns)
      have looks : DeviceCall.handle (.maxsz .mram) settled.device =
          ((s.shared .mram).maxsz, settled.device) :=
        Prod.ext overlap.mram.maxsz.symm rfl
      rcases asks (s.shared .mram).maxsz with ⟨after, last⟩ | ⟨_ | n, k, grows, pages⟩
      · rw [last]
        exact ⟨_, _, _, overlap.commit passed enough begun unwedged (.refl _) (.refl _)
          (Calling.perform_last _ looks last) overlap.activeMswp overlap.mram rfl frames⟩
      · -- no page is missing
        have last : next (s.shared .mram).maxsz = .ret (k (0, [], [])) := grows
        rw [last]
        exact ⟨_, _, _, overlap.commit passed enough begun unwedged (.refl _) (.refl _)
          (Calling.perform_last _ looks last) overlap.activeMswp overlap.mram rfl frames⟩
      · have growing : Growing (text P) (s.shared .mram).maxsz (s.own P) (n + 1) k :=
          ⟨⟨u, data, next, begun, grows⟩, by
            rw [overlap.mm] at pages
            exact pages⟩
        obtain ⟨later, call, -⟩ := Calls.allocPagesRange_succ n [] fun allocated =>
          (.ret (k allocated) : DeviceM Process)
        have midway : Midway _ _ _ (some (Calls.allocPagesRange (n + 1) [] [] >>=
            fun allocated => .ret (k allocated))) [] (n + 1) :=
          .ask growing (Nat.zero_add (n + 1))
        rw [grows, call]
        rw [call] at midway
        exact ⟨_, _, _, overlap.move rfl (.refl _) (by rw [none]) midway⟩

/-- **A step of a process** leaves the settled system as it is or executes an instruction there. -/
theorem step (overlap : Overlap text total swap s hand wanted settled)
    (passed : ∀ Q, checked (text Q) = true) (enough : ∑ Q, demandedPages (text Q) ≤ total)
    {label : ι × Option (Sigma DeviceCall.Result)} {t : Overlapped ι}
    (unwedged : s.Unwedged text label) (taken : Overlapped.Step text s label t) :
    ∃ hand wanted settled, Overlap text total swap t hand wanted settled := by
  cases taken with
  | @start P m idle may =>
      obtain ⟨u, data, begun⟩ := may
      have midway := overlap.midway P
      rw [idle] at midway
      generalize whole : hand P = taken at midway
      generalize wanted P = count at midway
      cases midway
      have frames := overlap.frames_erase P
      rw [whole, Multiset.coe_nil, zero_add] at frames
      cases m with
      | ret after =>
          exact ⟨_, _, _, overlap.commit passed enough begun unwedged (.refl _) (.refl _)
            (Calling.perform_ret _ after settled.device) overlap.activeMswp overlap.mram rfl frames⟩
      | call c next =>
          exact ⟨_, _, _, overlap.move rfl (.refl _) (by rw [whole]) (.fresh begun)⟩
  | @call P c next result shared here returns =>
      cases overlap.nextCall enough here returns with
      | first begun empty => exact overlap.first passed enough unwedged begun empty returns
      | ask growing count hands asks free gone entering =>
          subst gone
          rw [entering]
          refine ⟨_, _, _, overlap.move ?_ ?_ ?_ (.enter growing count)⟩
          · rfl
          · exact ⟨rfl, rfl, rfl⟩
          · rw [Function.update_self, free, hands, List.reverse_cons, Multiset.coe_add,
              List.append_assoc, List.singleton_append]
            rfl
      | @enter left frmLst fpn k _ growing count hands enters entered asking =>
          subst entered
          rw [asking]
          cases left with
          | zero =>
              have mswp : Function.update s.shared .mram ((s.shared .mram).memphyPutUsedfp fpn)
                .activeMswp = s.shared .activeMswp := rfl
              obtain ⟨settled, after⟩ := overlap.entered passed enough unwedged growing
                (show (fpn :: frmLst).length = wanted P from count) hands mswp ⟨rfl, rfl, rfl⟩ rfl
              exact ⟨_, _, settled, after⟩
          | succ left =>
              obtain ⟨later, call, -⟩ := Calls.allocPagesRange_succ left (fpn :: frmLst)
                fun allocated => (.ret (k allocated) : DeviceM Process)
              have midway : Midway _ _ _ (some (Calls.allocPagesRange (left + 1) (fpn :: frmLst) []
                  >>= fun allocated => .ret (k allocated))) (fpn :: frmLst).reverse (wanted P) :=
                .ask growing (by rw [List.length_cons]; omega)
              rw [call] at midway ⊢
              refine ⟨_, _, _, overlap.move ?_ ?_ ?_ midway⟩
              · rfl
              · exact ⟨rfl, rfl, rfl⟩
              · rw [hands]
                rfl

omit [DecidableEq ι] in
/-- **A read obtains what the variable holds**: only a read instruction reads the RAM. -/
theorem reads (overlap : Overlap text total swap s hand wanted settled)
    (passed : ∀ Q, checked (text Q) = true) (enough : ∑ Q, demandedPages (text Q) ≤ total)
    {device : Device} {addr : Int} {value : Byte}
    {next : (DeviceCall.read device addr value).Result → DeviceM Process}
    (here : s.within P = some (.call (.read device addr value) next)) {result : Int × Byte}
    {shared : Device → Memphy}
    (returns : (DeviceCall.read device addr value).handle s.shared = (result, shared)) :
    ∃ ins v, (text P)[(s.own P).pc]? = some ins ∧ ins.opcode = .readOp ∧
      computed ((text P).take (s.own P).pc) ins.arg0 = some v ∧ ins.arg1 < v.size ∧
        ∀ byte, v.bytes ins.arg1 = some byte → result.2 = byte := by
  cases overlap.nextCall enough here returns with
  | ask growing count hands asks => cases here.symm.trans asks
  | enter growing count hands enters => cases here.symm.trans enters
  | first begun =>
      have random := overlap.underway.sound.coherent.ramRandom
      have ram : (s.shared .mram).rdmflg = true := overlap.mram.rdmflg.trans random
      have shape := overlap.begun passed begun
      generalize call : Calling.call (DeviceCall.read device addr value) next = m at shape
      cases shape with
      | done after => cases call
      | write addr value after present => cases call
      | grow next asks => cases call
      | @read ins value after found reads present =>
          cases call
          obtain ⟨rfl, -⟩ := Prod.mk.inj ((DeviceCall.handle_read ram _ value).symm.trans returns)
          obtain ⟨allValid, -⟩ := Bool.and_eq_true_iff.mp (passed P)
          have valid := valid_of_validFrom allValid found
          simp only [Inst.valid, reads] at valid
          obtain ⟨inside, v, held, within⟩ := Inst.names_iff.mp valid
          have shows := overlap.underway.shows P
          refine ⟨ins, v, found, reads, held, within, fun byte written => ?_⟩
          have stored := (shows.shown _ v inside held).2 _ byte within written
          rw [Sys.byteAt_present present] at stored
          rw [← stored]
          exact congrFun overlap.mram.storage _

end Overlap

/-! ## Checked programs -/

namespace Overlapped

/-- Programs that pass the check, and processes without pages on a RAM that has the frames that they
ask for. -/
structure Suited (text : ι → List Inst) (memory : Sys ι) : Prop where
  checked : ∀ P, checked (text P) = true
  fresh : ∀ P, memory.mm P = MmStruct.zeroed.initMm
  ramFormatted : memory.mram.Formatted
  swapFormatted : memory.activeMswp.Formatted
  ramRandom : memory.mram.rdmflg = true
  swapRandom : memory.activeMswp.rdmflg = true
  frames : ∑ P, demandedPages (text P) ≤ memory.mram.freeFpList.length
  ramSize : 0 ≤ memory.mram.maxsz ∧ memory.mram.maxsz ≤ 2 ^ 21

variable {text : ι → List Inst} {memory : Sys ι}

/-- Before the first step the settled state is the one of the devices, and nobody is within an
instruction. -/
theorem start_overlap (suited : Suited text memory) :
    Overlap text memory.mram.freeFpList.length memory.activeMswp (start memory) (fun _ => [])
      (fun _ => 0) memory where
  underway := {
    sound := .start suited.fresh suited.ramFormatted suited.swapFormatted suited.ramRandom
      suited.swapRandom
    shows := fun P => Sys.represents_nothing (suited.fresh P)
    housing := {
      housed := fun P pgn inside => by
        rw [suited.fresh] at inside
        exact absurd inside (Nat.not_lt_zero pgn)
      vmStart := fun P => by
        rw [suited.fresh]
        rfl
      sbrk := fun P => by
        rw [suited.fresh]
        exact Nat.zero_le _
      frames := by
        simp only [suited.fresh, show MmStruct.zeroed.initMm.endPgn = 0 from rfl,
          Finset.sum_const_zero, Nat.zero_add]
      fits := suited.ramFormatted.length_le suited.ramSize.1
      ramSize := suited.ramSize.2
      swap := rfl } }
  mm := rfl
  activeMswp := rfl
  mram := .refl _
  frames := by
    simp only [Multiset.coe_nil, Finset.sum_const_zero, zero_add]
    rfl
  midway := fun _ => .idle

variable [DecidableEq ι] {history : List (ι × Option (Sigma DeviceCall.Result))} {s : Overlapped ι}

/-- **The overlap in every reachable state.** Some settled state and some frames in the hands of
the processes explain what the devices and the processes hold. -/
theorem reached_overlap (suited : Suited text memory)
    (run : Run (Guarded (Step text) (Unwedged text)) (start memory) history s) :
    ∃ hand wanted settled, Overlap text memory.mram.freeFpList.length memory.activeMswp s hand
      wanted settled :=
  run.invariant (fun s => ∃ hand wanted settled, Overlap text memory.mram.freeFpList.length
      memory.activeMswp s hand wanted settled)
    (fun _ _ _ ⟨_, _, _, overlap⟩ taken =>
      overlap.step suited.checked suited.frames taken.1 taken.2)
    ⟨_, _, _, start_overlap suited⟩

/-- **Checked programs whose instructions overlap** compute in every interleaving of their calls.
Swap is never used, every page is in RAM, the memory of a process shows the variables that its
program has computed, and a read obtains what the variable holds. -/
theorem overlapped_programs_computed (suited : Suited text memory)
    (run : Run (Guarded (Step text) (Unwedged text)) (start memory) history s) :
    s.shared .activeMswp = memory.activeMswp ∧
      (∀ P, (s.own P).mm.Housed ∧
        s.sys.Represents P (computed ((text P).take (s.own P).pc))) ∧
      ∀ P device addr value result t,
        Step text s (P, some ⟨.read device addr value, result⟩) t →
          ∃ ins v, (text P)[(s.own P).pc]? = some ins ∧ ins.opcode = .readOp ∧
            computed ((text P).take (s.own P).pc) ins.arg0 = some v ∧ ins.arg1 < v.size ∧
              ∀ byte, v.bytes ins.arg1 = some byte → result.2 = byte := by
  obtain ⟨hand, wanted, settled, overlap⟩ := reached_overlap suited run
  refine ⟨?_, fun P => ⟨?_, ?_⟩, fun P device addr value result t taken => ?_⟩
  · rw [← overlap.activeMswp]
    exact overlap.underway.housing.swap
  · have housed := overlap.underway.housing.housed P
    rwa [overlap.mm] at housed
  · have sys : s.sys = { settled with mram := s.shared .mram } := by
      rw [sys, overlap.mm, overlap.activeMswp]
    rw [sys]
    exact (overlap.underway.shows P).sameCells overlap.mram
  · cases taken with
    | call here returns => exact overlap.reads suited.checked suited.frames here returns

/-! ## Two processes that allocate at the same time -/

/-- Each of the two programs allocates some pages and stores a byte there; one reads it again. -/
def allocating : Bool → List Inst
  | false => [⟨.allocOp, 300, 0, 0⟩, ⟨.writeOp, 7, 0, 280⟩, ⟨.readOp, 0, 280, 1⟩]
  | true => [⟨.allocOp, 200, 0, 0⟩, ⟨.writeOp, 9, 0, 100⟩]

/-- The two are in `alloc_pages_range` at the same time, and then write and read. -/
def allocatedPlay : Option (List (Bool × Option (Sigma DeviceCall.Result)) × Overlapped Bool) :=
  (start (Sys.boot Bool 1024 1024)).play DeviceCall.handle
    (fun P own => runCalls ⟨0, fun _ => 0, fun _ => 0⟩ 0 (allocating P) own) (Unwedged allocating)
    [false, true, false, true, false, true, false, true, false, true, false, true, false, false,
      false, false]

/-- What happens in these turns, and the state that they lead to. -/
def allocated : List (Bool × Option (Sigma DeviceCall.Result)) × Overlapped Bool :=
  allocatedPlay.get (by decide +kernel)

/-- The turns are a run in which no free is wedged. -/
theorem run_allocated : Run (Guarded (Step allocating) (Unwedged allocating))
    (start (Sys.boot Bool 1024 1024)) allocated.1 allocated.2 := by
  have played : allocatedPlay = some allocated := (Option.some_get _).symm
  exact Interleaved.run_play (fun _ _ _ begun => ⟨_, _, begun⟩) played

/-- The two programs pass the check, and the RAM has a frame for each of their pages. -/
theorem allocating_suited : Suited allocating (Sys.boot Bool 1024 1024) where
  checked := by decide +kernel
  fresh := fun _ => rfl
  ramFormatted := Memphy.initMemphy_formatted ..
  swapFormatted := Memphy.initMemphy_formatted ..
  ramRandom := rfl
  swapRandom := rfl
  frames := by decide +kernel
  ramSize := by decide +kernel

/-- Both bytes are where the programs stored them, although the allocations overlapped. -/
theorem overlapped_programs_computed_allocated :
    Run (Guarded (Step allocating) (Unwedged allocating)) (start (Sys.boot Bool 1024 1024))
        allocated.1 allocated.2 ∧
      allocated.2.sys.byteAt false ((allocated.2.sys.caller false).accessed 0 280) = 7 ∧
        allocated.2.sys.byteAt true ((allocated.2.sys.caller true).accessed 0 100) = 9 := by
  obtain ⟨-, shows, -⟩ := overlapped_programs_computed allocating_suited run_allocated
  have whole : (allocated.2.own false).pc = 3 ∧ (allocated.2.own true).pc = 2 := by decide +kernel
  have first := (shows false).2
  have second := (shows true).2
  rw [whole.1] at first
  rw [whole.2] at second
  exact ⟨run_allocated, (first.shown 0 _ (by decide) rfl).2 280 7 (by decide) (by decide),
    (second.shown 0 _ (by decide) rfl).2 100 9 (by decide) (by decide)⟩

end Overlapped

end PagedOs
