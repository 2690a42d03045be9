import PagedOs.Library.LinkedHeap
import PagedOs.Memory.Memphy

/-! # Memory descriptors

The structures of `os-mm.h`. The memory area is the only one a process has, so its
link to a next area is left out. The nodes of the free region list live in a heap
of their own, since the manager edits them through pointers that may alias. The
list of mapped pages is only ever pushed and read, and is a list.
-/

namespace PagedOs

open LinkedHeap

/-- `struct vm_rg_struct`, without its link, which is in the node. -/
structure VmRg where
  rgStart : ULong
  rgEnd : ULong
deriving DecidableEq

/-- `struct vm_area_struct`, with the link to its free list. -/
structure VmArea where
  vmStart : ULong
  vmEnd : ULong
  sbrk : ULong
  vmFreergList : Option Nat

/-- `struct mm_struct`. An index of `pgd` from `PAGING_MAX_PGN` on and an index of
`symrgtbl` from `PAGING_MAX_SYMTBL_SZ` on stand for the memory past the array, which is
memory of its own here: in C the place of `symrgtbl[30]` is the one of `fifo_pgn`. -/
structure MmStruct where
  pgd : Nat → Pte
  mmap : VmArea
  rgHeap : Heap VmRg
  symrgtbl : Int → VmRg
  fifoPgn : List Nat

namespace MmStruct

/-- Zero-filled memory, as a fresh process may have got from malloc. -/
def zeroed : MmStruct where
  pgd := fun _ => 0
  mmap := ⟨0, 0, 0, none⟩
  rgHeap := ⟨fun _ => ⟨⟨0, 0⟩, none⟩, 0, fun _ => false⟩
  symrgtbl := fun _ => ⟨0, 0⟩
  fifoPgn := []

/-- `init_mm`. The page table and the list head of the area are memory just
allocated, which holds what the argument says. -/
def initMm (mm : MmStruct) : MmStruct :=
  let (firstRg, rgHeap) := mm.rgHeap.malloc
  let rgHeap := rgHeap.set firstRg ⟨⟨0, 0⟩, mm.mmap.vmFreergList⟩
  { mm with mmap := ⟨0, 0, 0, some firstRg⟩, rgHeap := rgHeap }

end MmStruct

/-- What the memory manager reaches through a `struct pcb_t`. -/
structure Caller where
  mm : MmStruct
  mram : Memphy
  activeMswp : Memphy

/-- Any number of processes that share a RAM and a swap device. -/
structure Sys (ι : Type*) where
  mram : Memphy
  activeMswp : Memphy
  mm : ι → MmStruct

/-- The local variables that C leaves uninitialised: the frame number and the data
byte of a fault, and the byte of each round of its two page copies. -/
structure Uninit where
  swpfpn : Int
  swapOut : Nat → Byte
  swapIn : Nat → Byte

/-- Local variables of which every one happens to be 0. -/
def Uninit.zeroed : Uninit := ⟨0, fun _ => 0, fun _ => 0⟩

namespace Sys

/-- Processes whose `init_mm` ran on zero-filled memory, and two random-access devices
of the given sizes. -/
def boot (ι : Type*) (ramSize swapSize : Int) : Sys ι where
  mram := Memphy.zeroed.initMemphy (fun _ => 0) ramSize true []
  activeMswp := Memphy.zeroed.initMemphy (fun _ => 0) swapSize true []
  mm := fun _ => MmStruct.zeroed.initMm

variable {ι : Type*} [DecidableEq ι]

/-- The system as the process `P` sees it. -/
def caller (s : Sys ι) (P : ι) : Caller := ⟨s.mm P, s.mram, s.activeMswp⟩

/-- The system after the process `P` has run on it. -/
def put (s : Sys ι) (P : ι) (c : Caller) : Sys ι :=
  { mram := c.mram, activeMswp := c.activeMswp, mm := Function.update s.mm P c.mm }

@[simp] theorem put_mram (s : Sys ι) (P : ι) (c : Caller) : (s.put P c).mram = c.mram := rfl

@[simp] theorem put_activeMswp (s : Sys ι) (P : ι) (c : Caller) :
    (s.put P c).activeMswp = c.activeMswp := rfl

@[simp] theorem put_mm_self (s : Sys ι) (P : ι) (c : Caller) : (s.put P c).mm P = c.mm :=
  Function.update_self ..

@[simp] theorem put_caller (s : Sys ι) (P : ι) : s.put P (s.caller P) = s := by
  simp only [put, caller, Function.update_eq_self]

@[simp] theorem caller_put (s : Sys ι) (P : ι) (c : Caller) : (s.put P c).caller P = c := by
  simp only [caller, put, Function.update_self]

/-- The call of one process leaves the address spaces of the others. -/
theorem put_mm_of_ne (s : Sys ι) {P Q : ι} (other : Q ≠ P) (c : Caller) :
    (s.put P c).mm Q = s.mm Q := Function.update_of_ne other ..

end Sys

end PagedOs
