import PagedOs.Library.Calling
import PagedOs.Memory.Allocator
import PagedOs.Memory.Contents
import PagedOs.Process.Run

/-! # Instructions a call at a time

What `run` does when other processes run on other CPUs. The tables of a process are its own, so all
that matters is how its instruction accesses the two devices: the functions of `mm-vm.c` and `mm.c`
are computations that call the functions of `mm-memphy.c`. On its own such a computation is the
function of the same name on a `Caller`.
-/

namespace PagedOs

/-- A call of a function of `mm-memphy.c` on one of the two devices of a process, with what the
variable for its result holds, and the field `maxsz`, which is read without a call. A call is one
step: the sections that hold `lock_mem` are inside of it, so that nobody is seen to wait for the
mutex. `MEMPHY_dump`, which prints every cell of the RAM at each read and write and changes none, is
left out. -/
inductive DeviceCall where
  | getFreefp (device : Device) (retfpn : Int)
  | putUsedfp (device : Device) (fpn : Int)
  | read (device : Device) (addr : Int) (value : Byte)
  | write (device : Device) (addr : Int) (data : Byte)
  | maxsz (device : Device)
deriving DecidableEq

/-- What a call returns, and what it leaves in the variable for its result. -/
def DeviceCall.Result : DeviceCall → Type
  | .getFreefp .. => Int × Int
  | .putUsedfp .. => Unit
  | .read .. => Int × Byte
  | .write .. => Int
  | .maxsz .. => Int

/-- What a call does to the two devices, and what it returns. -/
def DeviceCall.handle (c : DeviceCall) (d : Device → Memphy) : c.Result × (Device → Memphy) :=
  match c with
  | .getFreefp device retfpn =>
      let (status, fpn, mp) := (d device).memphyGetFreefp retfpn
      ((status, fpn), Function.update d device mp)
  | .putUsedfp device fpn => ((), Function.update d device ((d device).memphyPutUsedfp fpn))
  | .read device addr value =>
      let (status, value, mp) := (d device).memphyRead addr value
      ((status, value), Function.update d device mp)
  | .write device addr data =>
      let (status, mp) := (d device).memphyWrite addr data
      (status, Function.update d device mp)
  | .maxsz device => ((d device).maxsz, d)

/-- A read of a random-access device returns the cell and changes nothing. -/
theorem DeviceCall.handle_read {d : Device → Memphy} {device : Device}
    (random : (d device).rdmflg = true) (addr : Int) (value : Byte) :
    (DeviceCall.read device addr value).handle d = (((0 : Int), (d device).storage addr), d) := by
  simp only [handle, Memphy.memphyRead_random random, Function.update_eq_self]
  rfl

/-- A write to a random-access device changes the one cell. -/
theorem DeviceCall.handle_write {d : Device → Memphy} {device : Device}
    (random : (d device).rdmflg = true) (addr : Int) (data : Byte) :
    (DeviceCall.write device addr data).handle d = ((0 : Int), Function.update d device
      { d device with storage := Function.update (d device).storage addr data }) := by
  simp only [handle, Memphy.memphyWrite_random random]
  rfl

/-- The first free frame is returned and leaves the free list. -/
theorem DeviceCall.handle_getFreefp {d : Device → Memphy} {device : Device} {fpn : Int}
    {rest : List Int} (free : (d device).freeFpList = fpn :: rest) (retfpn : Int) :
    (DeviceCall.getFreefp device retfpn).handle d =
      (((0 : Int), fpn), Function.update d device { d device with freeFpList := rest }) := by
  simp only [handle, Memphy.memphyGetFreefp, free]
  rfl

/-- The device has the cell that a call reads or writes. The functions of `mm-memphy.c` do not look:
with another address they are outside of the memory that `init_memphy` allocated, where C leaves the
behaviour open. A sequential device is not accessed at all. -/
def DeviceCall.HasCell (c : DeviceCall) (d : Device → Memphy) : Prop :=
  match c with
  | .read device addr _ | .write device addr _ =>
      (d device).rdmflg = true → 0 ≤ addr ∧ addr < (d device).maxsz
  | _ => True

/-- Computations that call the devices, with a fixed set of calls and their results. -/
abbrev DeviceM := Calling DeviceCall DeviceCall.Result

namespace DeviceM

/-- `MEMPHY_get_freefp` as a call, with what the variable for the frame number holds. -/
def getFreefp (device : Device) (retfpn : Int) : DeviceM (Int × Int) :=
  Calling.ask (DeviceCall.getFreefp device retfpn)

/-- `MEMPHY_put_usedfp` as a call of the device. -/
def putUsedfp (device : Device) (fpn : Int) : DeviceM Unit :=
  Calling.ask (DeviceCall.putUsedfp device fpn)

/-- `MEMPHY_read` as a call, with what the variable for the byte holds. -/
def read (device : Device) (addr : Int) (value : Byte) : DeviceM (Int × Byte) :=
  Calling.ask (DeviceCall.read device addr value)

/-- `MEMPHY_write` as a call, for one cell. -/
def write (device : Device) (addr : Int) (data : Byte) : DeviceM Int :=
  Calling.ask (DeviceCall.write device addr data)

/-- The size of a device, as the code reads it off the structure. -/
def maxsz (device : Device) : DeviceM Int := Calling.ask (DeviceCall.maxsz device)

/-- On its own, a computation accesses only cells that the devices have. -/
def InBounds {β : Type} (m : DeviceM β) (d : Device → Memphy) : Prop :=
  m.Admitted DeviceCall.handle DeviceCall.HasCell d

end DeviceM

namespace MmStruct

/-- `cur_vma->sbrk += size`, in `__alloc` where the page suffices and in `inc_vma_limit`. -/
def moveSbrk (mm : MmStruct) (size : Int) : MmStruct :=
  { mm with mmap := { mm.mmap with sbrk := mm.mmap.sbrk + toULong size } }

/-- `cur_vma->vm_end += inc_amt`, behind the check of `inc_vma_limit`. -/
def moveVmEnd (mm : MmStruct) (incAmt : Int) : MmStruct :=
  { mm with mmap := { mm.mmap with vmEnd := mm.mmap.vmEnd + toULong incAmt } }

/-- The amount by which `inc_vma_limit` moves the end of the area. -/
def incAmt (mm : MmStruct) (originSize : Int) : Int :=
  toInt (pagingPageAlignsz (toULong originSize + mm.mmap.sbrk) -
    pagingPageAlignsz mm.mmap.sbrk).toNat

/-- The number of pages that `inc_vma_limit` asks for. -/
def incnumpage (mm : MmStruct) (originSize : Int) : Nat :=
  ((mm.incAmt originSize).tdiv pagingPagesz).toNat

/-- The region asked for does not fit behind the break on the page it is on. -/
def exceedsPage (mm : MmStruct) (size : Int) : Bool :=
  toULong size + mm.mmap.sbrk > pagingPageAlignsz mm.mmap.sbrk ∨ mm.mmap.sbrk = mm.mmap.vmEnd

/-- The size that `pgread` and `pgwrite` compare the offset with. -/
def sizeRg (mm : MmStruct) (rgid : BitVec 32) : Int :=
  let rg := mm.symrgtbl rgid.toNat
  toInt (rg.rgEnd - rg.rgStart).toNat

end MmStruct

namespace Calls

variable (mm : MmStruct) (u : Uninit)

/-- The loop of `__swap_cp_page` over some cells. -/
def copyCells (data : Nat → Byte) (mpsrc : Device) (srcfpn : Int) (mpdst : Device) (dstfpn : Int) :
    List Nat → DeviceM Unit
  | [] => return ()
  | cellidx :: rest => do
      let addrsrc := srcfpn * pagingPagesz + cellidx
      let addrdst := dstfpn * pagingPagesz + cellidx
      let (_, value) ← DeviceM.read mpsrc addrsrc (data cellidx)
      let _ ← DeviceM.write mpdst addrdst value
      copyCells data mpsrc srcfpn mpdst dstfpn rest

/-- `__swap_cp_page`: a read and a write for each cell of the page. -/
def swapCpPage (data : Nat → Byte) (mpsrc : Device) (srcfpn : Int) (mpdst : Device) (dstfpn : Int) :
    DeviceM Unit := copyCells data mpsrc srcfpn mpdst dstfpn (List.range pagingPagesz)

/-- `pg_getpage`: the frame of a page, behind a fault if the page is not PRESENT. -/
def pgGetpage (pgn : Nat) : DeviceM (Option Int × MmStruct) :=
  let pte := mm.pgd pgn
  if pagingPagePresent pte then return (some (pagingFpn pte), mm)
  else
    let tgtfpn := pagingSwp pte
    match mm.findVictimPage with
    | none => return (none, mm)
    | some vicpgn => do
        let vicfpn := pagingFpn (mm.pgd vicpgn)
        let (_, swpfpn) ← DeviceM.getFreefp .activeMswp u.swpfpn
        swapCpPage u.swapOut .mram vicfpn .activeMswp swpfpn
        swapCpPage u.swapIn .activeMswp tgtfpn .mram vicfpn
        let mm := mm.setPte vicpgn (pteSetSwap (mm.pgd vicpgn) 0 swpfpn)
        let mm := mm.setPte pgn (pteSetFpn (mm.pgd pgn) vicfpn)
        return (some (pagingFpn pte), mm.enlistPgnNode pgn)

/-- `pg_getval`: the page of the address, and one read in its frame. -/
def pgGetval (addr : Int) (data : Byte) : DeviceM ((Int × Byte) × MmStruct) := do
  match ← pgGetpage mm u (pagingPgn addr) with
  | (none, mm) => return ((-1, data), mm)
  | (some fpn, mm) =>
      let (_, data) ← DeviceM.read .mram (Caller.phyaddr fpn (pagingOffst addr)) data
      return ((0, data), mm)

/-- `pg_setval`: the page of the address, and one write in its frame. -/
def pgSetval (addr : Int) (value : Byte) : DeviceM (Int × MmStruct) := do
  match ← pgGetpage mm u (pagingPgn addr) with
  | (none, mm) => return (-1, mm)
  | (some fpn, mm) =>
      let _ ← DeviceM.write .mram (Caller.phyaddr fpn (pagingOffst addr)) value
      return (0, mm)

/-- `alloc_pages_range`: a frame of the RAM for each page, and of the swap device for the rest. -/
def allocPagesRange : (reqPgnum : Nat) → (frmLst frmLstSwap : List Int) →
    DeviceM (Int × List Int × List Int)
  | 0, frmLst, frmLstSwap => return (0, frmLst, frmLstSwap)
  | reqPgnum + 1, frmLst, frmLstSwap => do
      let (status, fpn) ← DeviceM.getFreefp .mram 0
      if status = 0 then
        DeviceM.putUsedfp .mram fpn
        allocPagesRange reqPgnum (fpn :: frmLst) frmLstSwap
      else
        let (status, fpn) ← DeviceM.getFreefp .activeMswp 0
        if status = 0 then
          DeviceM.putUsedfp .activeMswp fpn
          allocPagesRange reqPgnum frmLst (fpn :: frmLstSwap)
        else return (-3000, frmLst, frmLstSwap)

/-- What `vm_map_ram` does behind `alloc_pages_range`, by its three statuses. -/
def mapAllocated (mapstart : Int) : Int × List Int × List Int → Int × MmStruct
  | (retAlloc, frmLst, frmLstSwap) =>
      if retAlloc < 0 then (-1, mm) else (0, mm.vmapPageRange mapstart frmLst frmLstSwap)

/-- `vm_map_ram`: the frames for the new pages, and their entries. -/
def vmMapRam (mapstart incpgnum : Int) : DeviceM (Int × MmStruct) := do
  let allocated ← allocPagesRange incpgnum.toNat [] []
  return mapAllocated mm mapstart allocated

/-- `inc_vma_limit`, with `get_vm_area_node_at_brk` and `validate_overlap_vm_area` in place. -/
def incVmaLimit (originSize : Int) : DeviceM (Int × MmStruct) := do
  let incAmt := mm.incAmt originSize
  let incnumpage := incAmt.tdiv pagingPagesz
  let mm := mm.moveSbrk originSize
  let oldEnd := toInt mm.mmap.vmEnd.toNat
  let maxsz ← DeviceM.maxsz .mram
  if mm.mmap.vmEnd - mm.mmap.vmStart > toULong maxsz then return (-1, mm)
  else
    let mm := mm.moveVmEnd incAmt
    let (mapped, mm) ← vmMapRam mm oldEnd incnumpage
    return (if mapped < 0 then -1 else 0, mm)

/-- The end of `__alloc` where the area grows or its break moves. -/
def setNewRg (rgid size oldSbrk : Int) : (Int × Int) × MmStruct :=
  let rg := ⟨toULong oldSbrk, toULong (toInt (oldSbrk + size))⟩
  ((0, toInt rg.rgStart.toNat), mm.setSymrg rgid rg)

/-- `__alloc`: a region of the free list, or a new one at the break. -/
def alloc (rgid size : Int) : Option (DeviceM ((Int × Int) × MmStruct)) :=
  (mm.getFreeVmrgArea size).map fun found =>
    match found with
    | (some rgnode, mm) => return ((0, toInt rgnode.rgStart.toNat), mm.setSymrg rgid rgnode)
    | (none, mm) => do
        let oldSbrk := toInt mm.mmap.sbrk.toNat
        if mm.exceedsPage size then
          let (_, mm) ← incVmaLimit mm size
          return setNewRg mm rgid size oldSbrk
        else return setNewRg (mm.moveSbrk size) rgid size oldSbrk

/-- `__free`: the region of the register goes to the free list; no device is called. -/
def free (rgid : Int) : Option (DeviceM (Int × MmStruct)) :=
  if rgid < 0 ∨ rgid > pagingMaxSymtblSz then some (return (-1, mm))
  else
    (mm.enlistVmFreergList (mm.symrgtbl rgid)).map fun (_, mm) =>
      return (0, mm.setSymrg rgid ⟨0, 0⟩)

/-- `__read`: the byte at an offset in the region of a register. -/
def read (rgid offset : Int) (data : Byte) : DeviceM ((Int × Byte) × MmStruct) :=
  match mm.getSymrgById rgid with
  | none => return ((-1, data), mm)
  | some currg => do
      let ((_, data), mm) ←
        pgGetval mm u (toInt (currg.rgStart + toULong offset).toNat) data
      return ((0, data), mm)

/-- `__write`: a byte goes to an offset in the region of a register. -/
def write (rgid offset : Int) (value : Byte) : DeviceM (Int × MmStruct) :=
  match mm.getSymrgById rgid with
  | none => return (-1, mm)
  | some currg => do
      let (_, mm) ← pgSetval mm u (toInt (currg.rgStart + toULong offset).toNat) value
      return (0, mm)

/-- `pgalloc`, which passes its operands to `__alloc`. -/
def pgalloc (size regIndex : BitVec 32) : Option (DeviceM (Int × MmStruct)) :=
  (alloc mm (toInt regIndex.toNat) (toInt size.toNat)).map fun calls => do
    let ((status, _), mm) ← calls
    return (status, mm)

/-- `pgfree_data`, which passes its operand to `__free`. -/
def pgfreeData (regIndex : BitVec 32) : Option (DeviceM (Int × MmStruct)) :=
  free mm (toInt regIndex.toNat)

/-- `pgread`: the check of the offset, and then `__read`. -/
def pgread (source offset : BitVec 32) (data : Byte) : DeviceM ((Int × Byte) × MmStruct) :=
  if offset > BitVec.ofInt 32 (mm.sizeRg source) then return ((-1, data), mm)
  else read mm u (toInt source.toNat) (toInt offset.toNat) data

/-- `pgwrite`: the check of the offset, and then `__write`. -/
def pgwrite (data : Byte) (destination offset : BitVec 32) : DeviceM (Int × MmStruct) :=
  if offset > BitVec.ofInt 32 (mm.sizeRg destination) then return (-1, mm)
  else write mm u (toInt destination.toNat) (toInt offset.toNat) data

/-- The switch of `run`, which leads each opcode to its call. -/
def execute (data : Byte) (ins : Inst) : Option (DeviceM (Int × MmStruct)) :=
  match ins.opcode with
  | .calcOp => some (return (calcProc, mm))
  | .allocOp => pgalloc mm ins.arg0 ins.arg1
  | .freeOp => pgfreeData mm ins.arg0
  | .readOp => some do
      let ((stat, _), mm) ← pgread mm u ins.arg0 ins.arg1 data
      return (stat, mm)
  | .writeOp => some (pgwrite mm u (ins.arg0.setWidth 8) ins.arg1 ins.arg2)

end Calls

/-! ## Computations on their own -/

namespace Caller

/-- The devices of a process, put together for the calls. -/
def device (c : Caller) : Device → Memphy
  | .mram => c.mram
  | .activeMswp => c.activeMswp

/-- A computation on its own, from the first of its calls to the last. -/
def perform {β : Type} (c : Caller) (m : DeviceM (β × MmStruct)) : β × Caller :=
  let ((value, mm), d) := m.perform DeviceCall.handle c.device
  (value, ⟨mm, d .mram, d .activeMswp⟩)

variable {β γ : Type} (c : Caller)

/-- A caller that is put together of an address space and two devices has these devices. -/
theorem device_mk (mm : MmStruct) (d : Device → Memphy) :
    (Caller.mk mm (d .mram) (d .activeMswp)).device = d := by
  funext device
  cases device <;> rfl

/-- Returning without a call leaves the devices and hands the address space over. -/
theorem perform_return (value : β) (mm : MmStruct) :
    c.perform (return (value, mm)) = (value, { c with mm := mm }) := rfl

/-- Two computations one after the other are performed on the caller one after the other. -/
theorem perform_bind (m : DeviceM (β × MmStruct)) (f : β × MmStruct → DeviceM (γ × MmStruct)) :
    c.perform (m >>= f) =
      (c.perform m).2.perform (f ((c.perform m).1, (c.perform m).2.mm)) := by
  simp only [perform, Calling.perform_bind, device_mk]

end Caller

/-- A device that has no free frame is left as it is. -/
theorem Memphy.memphyGetFreefp_refused {mp : Memphy} {retfpn : Int}
    (refused : (mp.memphyGetFreefp retfpn).1 ≠ 0) : (mp.memphyGetFreefp retfpn).2.2 = mp := by
  unfold memphyGetFreefp at refused ⊢
  split
  · rfl
  · rename_i free
    simp only [free, ne_eq, not_true_eq_false] at refused

namespace DeviceM

variable (device : Device) (d : Device → Memphy)

@[simp] theorem perform_getFreefp (retfpn : Int) :
    (getFreefp device retfpn).perform DeviceCall.handle d =
      ((((d device).memphyGetFreefp retfpn).1, ((d device).memphyGetFreefp retfpn).2.1),
        Function.update d device ((d device).memphyGetFreefp retfpn).2.2) := rfl

@[simp] theorem perform_putUsedfp (fpn : Int) :
    (putUsedfp device fpn).perform DeviceCall.handle d =
      ((), Function.update d device ((d device).memphyPutUsedfp fpn)) := rfl

/-- Performing the call is calling `MEMPHY_read`, which leaves the device. -/
@[simp] theorem perform_read (addr : Int) (value : Byte) :
    (read device addr value).perform DeviceCall.handle d =
      ((((d device).memphyRead addr value).1, ((d device).memphyRead addr value).2.1), d) := by
  refine Prod.ext rfl ?_
  exact (congrArg (Function.update d device) (Memphy.memphyRead_device ..)).trans
    (Function.update_eq_self device d)

@[simp] theorem perform_write (addr : Int) (data : Byte) :
    (write device addr data).perform DeviceCall.handle d =
      (((d device).memphyWrite addr data).1,
        Function.update d device ((d device).memphyWrite addr data).2) := rfl

variable {device d}

/-- Two computations one after the other stay inside when the first does, and the second from where
it leaves the devices. -/
@[simp] theorem bind_inBounds {β γ : Type} (m : DeviceM β) (f : β → DeviceM γ) :
    (m >>= f).InBounds d ↔ m.InBounds d ∧
      (f (m.perform DeviceCall.handle d).1).InBounds (m.perform DeviceCall.handle d).2 :=
  Calling.admitted_bind ..

/-- A computation that makes no call stays inside the devices. -/
@[simp] theorem return_inBounds {β : Type} (value : β) : (return value : DeviceM β).InBounds d :=
  trivial

/-- Taking a free frame accesses no cell of a device. -/
@[simp] theorem getFreefp_inBounds (retfpn : Int) : (getFreefp device retfpn).InBounds d :=
  ⟨trivial, trivial⟩

/-- A read stays inside when its address is one of the `maxsz` cells. -/
theorem read_inBounds (random : (d device).rdmflg = true) {addr : Int} (value : Byte) :
    (read device addr value).InBounds d ↔ 0 ≤ addr ∧ addr < (d device).maxsz :=
  (Calling.admitted_ask ..).trans (forall_prop_of_true random)

/-- A write stays inside when its address is one of the `maxsz` cells. -/
theorem write_inBounds (random : (d device).rdmflg = true) {addr : Int} (data : Byte) :
    (write device addr data).InBounds d ↔ 0 ≤ addr ∧ addr < (d device).maxsz :=
  (Calling.admitted_ask ..).trans (forall_prop_of_true random)

variable (device d)

/-- What follows the size of a device is what the call is answered with. -/
theorem maxsz_bind {β : Type} (f : Int → DeviceM β) :
    maxsz device >>= f = .call (.maxsz device) f := rfl

@[simp] theorem perform_maxsz :
    (maxsz device).perform DeviceCall.handle d = ((d device).maxsz, d) := rfl

end DeviceM

namespace Calls

/-- Copying the cells call by call does to the two devices what the loop of the direct model does,
over any list of cells. -/
theorem perform_copyCells (data : Nat → Byte) {mpsrc mpdst : Device} (different : mpsrc ≠ mpdst)
    (srcfpn dstfpn : Int) (cells : List Nat) (d : Device → Memphy) :
    ((copyCells data mpsrc srcfpn mpdst dstfpn cells).perform DeviceCall.handle d).2 =
      let copied := cells.foldl (fun (devices : Memphy × Memphy) (cellidx : Nat) =>
        let addrsrc := srcfpn * pagingPagesz + cellidx
        let addrdst := dstfpn * pagingPagesz + cellidx
        let (_, value, mpsrc) := devices.1.memphyRead addrsrc (data cellidx)
        let (_, mpdst) := devices.2.memphyWrite addrdst value
        (mpsrc, mpdst)) (d mpsrc, d mpdst)
      Function.update (Function.update d mpsrc copied.1) mpdst copied.2 := by
  induction cells generalizing d with
  | nil => simp [copyCells]
  | cons cellidx rest ih =>
      simp only [copyCells, Calling.perform_bind, ih, DeviceM.perform_read, DeviceM.perform_write,
        List.foldl_cons, Memphy.memphyRead_device, Function.update_self,
        Function.update_of_ne different]
      rw [Function.update_comm different.symm, Function.update_idem]

/-- The copy of a page call by call is the direct one. -/
theorem perform_swapCpPage (data : Nat → Byte) {mpsrc mpdst : Device} (different : mpsrc ≠ mpdst)
    (srcfpn dstfpn : Int) (d : Device → Memphy) :
    ((swapCpPage data mpsrc srcfpn mpdst dstfpn).perform DeviceCall.handle d).2 =
      let copied := (d mpsrc).swapCpPage data srcfpn (d mpdst) dstfpn
      Function.update (Function.update d mpsrc copied.1) mpdst copied.2 :=
  perform_copyCells data different srcfpn dstfpn _ d

variable (c : Caller) (u : Uninit)

/-- **`pg_getpage` call by call** is the direct one: the same status, page table and devices. -/
theorem perform_pgGetpage (pgn : Nat) : c.perform (pgGetpage c.mm u pgn) = c.pgGetpage u pgn := by
  cases present : pagingPagePresent (c.mm.pgd pgn) with
  | true => simp only [pgGetpage, Caller.pgGetpage, present, ↓reduceIte, Caller.perform_return]
  | false =>
      cases victim : c.mm.findVictimPage with
      | none =>
          simp only [pgGetpage, Caller.pgGetpage, present, Bool.false_eq_true, ↓reduceIte, victim,
            Caller.perform_return]
      | some vicpgn =>
          simp only [pgGetpage, Caller.pgGetpage, present, Bool.false_eq_true, ↓reduceIte, victim,
            Caller.perform, Calling.perform_bind, DeviceM.perform_getFreefp,
            perform_swapCpPage _ (show Device.mram ≠ .activeMswp by decide),
            perform_swapCpPage _ (show Device.activeMswp ≠ .mram by decide), Calling.pure_eq,
            Calling.perform_ret, Function.update_self, ne_eq, reduceCtorEq, not_false_eq_true,
            Function.update_of_ne, Caller.device]

/-- `pg_getval` call by call is the direct one. -/
theorem perform_pgGetval (addr : Int) (data : Byte) :
    c.perform (pgGetval c.mm u addr data) =
      (((c.pgGetval u addr data).1, (c.pgGetval u addr data).2.1),
        (c.pgGetval u addr data).2.2) := by
  rw [pgGetval, Caller.perform_bind, perform_pgGetpage, Caller.pgGetval]
  rcases c.pgGetpage u (pagingPgn addr) with ⟨_ | fpn, c⟩
  · rfl
  · simp only [Caller.perform, Calling.perform_bind, DeviceM.perform_read, Memphy.memphyRead_device]
    rfl

/-- `pg_setval` call by call is the direct one. -/
theorem perform_pgSetval (addr : Int) (value : Byte) :
    c.perform (pgSetval c.mm u addr value) = c.pgSetval u addr value := by
  rw [pgSetval, Caller.perform_bind, perform_pgGetpage, Caller.pgSetval]
  rcases c.pgGetpage u (pagingPgn addr) with ⟨_ | fpn, c⟩
  · rfl
  · rfl

/-- `alloc_pages_range` call by call is the direct one, with its lists of frames and its status. -/
theorem perform_allocPagesRange (mm : MmStruct) (d : Device → Memphy) (reqPgnum : Nat)
    (frmLst frmLstSwap : List Int) :
    (allocPagesRange reqPgnum frmLst frmLstSwap).perform DeviceCall.handle d =
      let (status, frmLst, frmLstSwap, c) :=
        (Caller.mk mm (d .mram) (d .activeMswp)).allocPagesRange reqPgnum frmLst frmLstSwap
      ((status, frmLst, frmLstSwap), c.device) := by
  induction reqPgnum generalizing d frmLst frmLstSwap with
  | zero => exact Prod.ext rfl (Caller.device_mk mm d).symm
  | succ reqPgnum ih =>
      simp only [allocPagesRange, Caller.allocPagesRange, Calling.perform_bind,
        DeviceM.perform_getFreefp]
      by_cases ram : ((d .mram).memphyGetFreefp 0).1 = 0
      · simp only [ram, ↓reduceIte, Calling.perform_bind, DeviceM.perform_putUsedfp, ih]
        rfl
      · -- a call that fails leaves the device
        have same : Function.update d .mram ((d .mram).memphyGetFreefp 0).2.2 = d := by
          rw [Memphy.memphyGetFreefp_refused ram, Function.update_eq_self]
        simp only [ram, ↓reduceIte, Calling.perform_bind, DeviceM.perform_getFreefp, same]
        by_cases swap : ((d .activeMswp).memphyGetFreefp 0).1 = 0
        · simp only [swap, ↓reduceIte, Calling.perform_bind, DeviceM.perform_putUsedfp, ih]
          rfl
        · simp only [swap, ↓reduceIte, Memphy.memphyGetFreefp_refused swap,
            Function.update_eq_self]
          exact Prod.ext rfl (Caller.device_mk mm d).symm

/-- With RAM frames for all pages these are taken from the front. -/
theorem perform_allocPagesRange_ram {d : Device → Memphy} {front rest : List Int}
    (free : (d .mram).freeFpList = front ++ rest) :
    (allocPagesRange front.length [] []).perform DeviceCall.handle d =
      ((0, front.reverse, []), Function.update d .mram ((d .mram).taken front.length)) := by
  have enough : front.length ≤ (front ++ rest).length + (d .activeMswp).freeFpList.length := by
    rw [List.length_append]
    omega
  have noSwap : front.length - (front ++ rest).length = 0 := by
    rw [List.length_append]
    omega
  rw [perform_allocPagesRange MmStruct.zeroed, Caller.allocPagesRange_eq]
  simp only [free, enough, noSwap, ↓reduceIte, List.take_left, List.take_zero, List.reverse_nil,
    List.append_nil]
  refine congrArg _ (funext fun device => ?_)
  cases device with
  | mram => rfl
  | activeMswp => rfl

/-- `vm_map_ram` call by call is the direct one. -/
theorem perform_vmMapRam (mapstart incpgnum : Int) :
    c.perform (vmMapRam c.mm mapstart incpgnum) = c.vmMapRam mapstart incpgnum := by
  simp only [vmMapRam, Caller.perform, Calling.perform_bind, perform_allocPagesRange c.mm,
    Caller.vmMapRam, Caller.device, Caller.allocPagesRange_eq, Calling.pure_eq,
    Calling.perform_ret, mapAllocated]
  split <;> rfl

/-- `inc_vma_limit` call by call is the direct one. -/
theorem perform_incVmaLimit (originSize : Int) :
    c.perform (incVmaLimit c.mm originSize) = c.incVmaLimit originSize := by
  have maxsz (f : Int → DeviceM (Int × MmStruct)) :
      c.perform (DeviceM.maxsz .mram >>= f) = c.perform (f c.mram.maxsz) := rfl
  unfold incVmaLimit Caller.incVmaLimit Caller.validateOverlapVmArea
  simp only [maxsz]
  by_cases full : (c.mm.moveSbrk originSize).mmap.vmEnd - (c.mm.moveSbrk originSize).mmap.vmStart >
      toULong c.mram.maxsz
  · rw [if_pos full, if_pos (by rw [if_pos (by exact full)]; decide)]
    rfl
  · rw [if_neg full, if_neg (by rw [if_neg (by exact full)]; decide)]
    have mapped : c.perform (vmMapRam
        ((c.mm.moveSbrk originSize).moveVmEnd (c.mm.incAmt originSize))
        (toInt (c.mm.moveSbrk originSize).mmap.vmEnd.toNat)
        ((c.mm.incAmt originSize).tdiv pagingPagesz)) = _ :=
      perform_vmMapRam ((c.getVmAreaNodeAtBrk originSize).moveVmEnd (c.incAmt originSize)) _ _
    rw [Caller.perform_bind, mapped]
    rfl

/-- `__alloc` call by call is the direct one, and returns when it does. -/
theorem perform_alloc (rgid size : Int) :
    (alloc c.mm rgid size).map c.perform =
      (c.alloc rgid size).map fun (status, addr, c) => ((status, addr), c) := by
  unfold alloc Caller.alloc
  rw [Option.map_map, Option.map_map]
  refine congrArg (Option.map · (c.mm.getFreeVmrgArea size)) (funext fun found => ?_)
  rcases found with ⟨_ | rgnode, mm⟩
  · simp only [Function.comp_apply]
    by_cases exceeds : mm.exceedsPage size = true
    · have coarse : ({ c with mm := mm } : Caller).exceedsPage size = true := exceeds
      have grown : c.perform (incVmaLimit mm size) = _ :=
        perform_incVmaLimit { c with mm := mm } size
      simp only [exceeds, coarse, ↓reduceIte, Caller.perform_bind, grown]
      rfl
    · have coarse : ¬ ({ c with mm := mm } : Caller).exceedsPage size = true := exceeds
      simp only [exceeds, coarse]
      rfl
  · rfl

/-- `__free` call by call is the direct one, and returns when it does. -/
theorem perform_free (rgid : Int) : (free c.mm rgid).map c.perform = c.free rgid := by
  unfold free Caller.free
  split
  · rfl
  · rw [Option.map_map]
    rfl

/-- `__read` call by call is the direct one. -/
theorem perform_read (rgid offset : Int) (data : Byte) :
    c.perform (read c.mm u rgid offset data) =
      (((c.read u rgid offset data).1, (c.read u rgid offset data).2.1),
        (c.read u rgid offset data).2.2) := by
  unfold read Caller.read
  cases c.mm.getSymrgById rgid with
  | none => rfl
  | some currg => 
      simp only [Caller.perform_bind, perform_pgGetval]
      rfl

theorem perform_write (rgid offset : Int) (value : Byte) :
    c.perform (write c.mm u rgid offset value) = c.write u rgid offset value := by
  unfold write Caller.write
  cases c.mm.getSymrgById rgid with
  | none => rfl
  | some currg =>
      simp only [Caller.perform_bind, perform_pgSetval]
      rfl

/-- **An instruction on its own** is the instruction as one step. -/
theorem perform_execute (data : Byte) (ins : Inst) :
    (execute c.mm u data ins).map c.perform = c.execute u data ins := by
  unfold execute Caller.execute
  cases ins.opcode with
  | calcOp => rfl
  | allocOp =>
      have allocated := congrArg (Option.map fun ((status, _), c) => (status, c))
        (perform_alloc c (toInt ins.arg1.toNat) (toInt ins.arg0.toNat))
      simp only [Option.map_map] at allocated
      simp only [pgalloc, Caller.pgalloc, Option.map_map, Function.comp_def, Caller.perform_bind]
      exact allocated
  | freeOp => exact perform_free c _
  | readOp =>
      unfold pgread Caller.pgread
      by_cases rejected : ins.arg1 > BitVec.ofInt 32 (c.mm.sizeRg ins.arg0)
      · have coarse : ins.arg1 > BitVec.ofInt 32 (c.sizeRg ins.arg0) := rejected
        simp only [rejected, coarse, ↓reduceIte]
        rfl
      · have coarse : ¬ ins.arg1 > BitVec.ofInt 32 (c.sizeRg ins.arg0) := rejected
        simp only [rejected, coarse, ↓reduceIte, Option.map_some, Caller.perform_bind, perform_read]
        rfl
  | writeOp =>
      unfold pgwrite Caller.pgwrite
      by_cases rejected : ins.arg2 > BitVec.ofInt 32 (c.mm.sizeRg ins.arg1)
      · have coarse : ins.arg2 > BitVec.ofInt 32 (c.sizeRg ins.arg1) := rejected
        simp only [rejected, coarse, ↓reduceIte]
        rfl
      · have coarse : ¬ ins.arg2 > BitVec.ofInt 32 (c.sizeRg ins.arg1) := rejected
        simp only [rejected, coarse, ↓reduceIte, Option.map_some, perform_write]

/-! ## Calls of a computation -/

/-- A page in RAM is found without a call of a device. -/
theorem pgGetpage_hit {mm : MmStruct} {pgn : Nat}
    (present : pagingPagePresent (mm.pgd pgn) = true) :
    pgGetpage mm u pgn = return (some (pagingFpn (mm.pgd pgn)), mm) := by
  simp only [pgGetpage, present, ↓reduceIte]

/-- A read of a byte on a page in RAM is a call. -/
theorem pgread_hit {c : Caller} {r o : BitVec 32} (inside : r.toNat < 30)
    (accepted : c.rejects r o = false)
    (present : pagingPagePresent (c.mm.pgd (pagingPgn (c.accessed r o))) = true) (data : Byte) :
    pgread c.mm u r o data = .call (.read .mram (Caller.phyaddr
      (pagingFpn (c.mm.pgd (pagingPgn (c.accessed r o)))) (pagingOffst (c.accessed r o))) data)
        fun result => .ret ((0, result.2), c.mm) := by
  have taken : ¬ o > BitVec.ofInt 32 (c.mm.sizeRg r) := of_decide_eq_false accepted
  have getpage := pgGetpage_hit u present
  unfold Caller.accessed at getpage present ⊢
  simp only [pgread, if_neg taken, read, Caller.getSymrgById_register c.mm inside, pgGetval,
    getpage]
  rfl

theorem pgwrite_hit {c : Caller} {r o : BitVec 32} (inside : r.toNat < 30)
    (accepted : c.rejects r o = false)
    (present : pagingPagePresent (c.mm.pgd (pagingPgn (c.accessed r o))) = true) (value : Byte) :
    pgwrite c.mm u value r o = .call (.write .mram (Caller.phyaddr
      (pagingFpn (c.mm.pgd (pagingPgn (c.accessed r o)))) (pagingOffst (c.accessed r o))) value)
        fun _ => .ret (0, c.mm) := by
  have taken : ¬ o > BitVec.ofInt 32 (c.mm.sizeRg r) := of_decide_eq_false accepted
  have getpage := pgGetpage_hit u present
  unfold Caller.accessed at getpage present ⊢
  simp only [pgwrite, if_neg taken, write, Caller.getSymrgById_register c.mm inside, pgSetval,
    getpage]
  rfl

/-- A page that `alloc_pages_range` has to find asks for a RAM frame first. -/
theorem allocPagesRange_succ {β : Type} (reqPgnum : Nat) (frmLst : List Int)
    (f : Int × List Int × List Int → DeviceM β) :
    ∃ next, allocPagesRange (reqPgnum + 1) frmLst [] >>= f = .call (.getFreefp .mram 0) next ∧
      ∀ fpn, next ((0 : Int), (fpn : Int)) = .call (.putUsedfp .mram fpn) fun _ =>
        allocPagesRange reqPgnum (fpn :: frmLst) [] >>= f :=
  ⟨_, rfl, fun _ => rfl⟩

/-- `inc_vma_limit` looks at the size of the RAM and returns or asks for its pages. -/
theorem incVmaLimit_calls (mm : MmStruct) (originSize : Int) :
    ∃ next, incVmaLimit mm originSize = .call (.maxsz .mram) next ∧
      ∀ maxsz, (∃ result, next maxsz = .ret result) ∨
        ∃ k : Int × List Int × List Int → Int × MmStruct,
          next maxsz = allocPagesRange (mm.incnumpage originSize) [] [] >>=
            fun allocated => .ret (k allocated) := by
  refine ⟨_, DeviceM.maxsz_bind .mram _, fun maxsz => ?_⟩
  dsimp only
  split
  · exact .inl ⟨_, rfl⟩
  · simp only [vmMapRam, bind_assoc]
    exact .inr ⟨_, rfl⟩

/-- **Everything an allocation calls**: nothing, or it looks at the size of the RAM and returns or
asks for the pages that it needs. -/
theorem pgalloc_calls {mm : MmStruct} {size r : BitVec 32} {calls : DeviceM (Int × MmStruct)}
    (ran : pgalloc mm size r = some calls) : (∃ result, calls = .ret result) ∨
      ∃ next, calls = .call (.maxsz .mram) next ∧ ∀ maxsz, (∃ result, next maxsz = .ret result) ∨
        ∃ k : Int × List Int × List Int → Int × MmStruct,
          next maxsz = allocPagesRange (mm.incnumpage (toInt size.toNat)) [] [] >>=
            fun allocated => .ret (k allocated) := by
  obtain ⟨calls, allocated, rfl⟩ := Option.map_eq_some_iff.mp ran
  obtain ⟨⟨found, area⟩, cut, rfl⟩ := Option.map_eq_some_iff.mp allocated
  have same := MmStruct.getFreeVmrgArea_sameSpace cut
  have pages : area.incnumpage (toInt size.toNat) = mm.incnumpage (toInt size.toNat) := by
    rw [MmStruct.incnumpage, MmStruct.incAmt, same.sbrk]
    rfl
  cases found with
  | some rgnode => exact .inl ⟨_, rfl⟩
  | none =>
      by_cases exceeds : area.exceedsPage (toInt size.toNat) = true
      · obtain ⟨next, grows, later⟩ := incVmaLimit_calls area (toInt size.toNat)
        refine .inr ?_
        simp only [exceeds, ↓reduceIte, grows, Calling.call_bind, ← pages]
        refine ⟨_, rfl, fun maxsz => ?_⟩
        rcases later maxsz with ⟨result, returns⟩ | ⟨k, asks⟩
        · rw [returns]
          exact .inl ⟨_, rfl⟩
        · rw [asks]
          simp only [bind_assoc]
          exact .inr ⟨_, rfl⟩
      · refine .inl ?_
        simp only [exceeds]
        exact ⟨_, rfl⟩

end Calls

end PagedOs
