import PagedOs.Process.Overlapped
import PagedOs.System.Programs

/-! # The machine among the interleavings

The machine executes an instruction as one step. This is what happens when the other processes wait
while a process makes its calls, so each run of the machine is a run of instructions that overlap.
-/

namespace PagedOs

open Transition

variable {α κ : Type*} [DecidableEq α]

namespace Kernel

variable {pcb : α → Pcb} {timeSlot : Int} {devList : List (Option κ)}
  {processes : List (α × Nat)} {memory : Sys α} {history : List (KernelStep α κ)}
  {s t : Kernel α κ} {label : KernelStep α κ}

variable [DecidableEq κ]

end Kernel

end PagedOs
