import PagedOs.Memory.Memphy

/-! # Devices as arrays

A device serves `MEMPHY_read` and `MEMPHY_write`. It behaves as an array when every call
succeeds, a read obtains what was last written to its address, and nothing else changes. The
cursor of a sequential device moves to the address on top of that.
-/

namespace PagedOs

namespace Memphy

/-- An address of a device that is below its size. -/
abbrev Cell (maxsz : Int) := {addr : Int // 0 ≤ addr ∧ addr < maxsz}

/-- A call of `MEMPHY_read`, with what the variable for the value holds before it, or of
`MEMPHY_write`. -/
inductive Access (maxsz : Int) where
  | read (cell : Cell maxsz) (value : Byte)
  | write (cell : Cell maxsz) (data : Byte)

variable {maxsz : Int}

/-- The address of a call, in the cells of its device. -/
def Access.addr : Access maxsz → Int
  | .read cell _ => cell.1
  | .write cell _ => cell.1

/-- A call, with its status, the value obtained by a read and the device after it. -/
def serve (mp : Memphy) : Access maxsz → Int × Option Byte × Memphy
  | .read cell value =>
      let (status, obtained, mp) := mp.memphyRead cell.1 value
      (status, some obtained, mp)
  | .write cell data =>
      let (status, mp) := mp.memphyWrite cell.1 data
      (status, none, mp)

/-- The device after some calls, with what it had before them. -/
def served (mp : Memphy) (calls : List (Access maxsz)) : Memphy :=
  calls.foldl (fun mp call => (mp.serve call).2.2) mp

/-- What was last written to an address. -/
def lastWrite (addr : Int) (calls : List (Access maxsz)) : Option Byte :=
  calls.foldl (fun last call =>
    match call with
    | .read _ _ => last
    | .write cell data => if cell.1 = addr then some data else last) none

/-- A call does what it would do on an array. -/
structure Obeys (mp : Memphy) (past : List (Access maxsz)) (call : Access maxsz) : Prop where
  status : (mp.serve call).1 = 0
  obtained : ∀ cell value written, call = .read cell value → lastWrite cell.1 past = some written →
    (mp.serve call).2.1 = some written
  read : ∀ cell value, call = .read cell value → (mp.serve call).2.2.storage = mp.storage
  written : ∀ cell data, call = .write cell data → ∀ addr, addr ≠ cell.1 →
    (mp.serve call).2.2.storage addr = mp.storage addr
  cursor : mp.rdmflg = false → (mp.serve call).2.2.cursor = call.addr

/-- Every call of a sequence returns and leaves what it would on an array. -/
def BehavesAsArray (mp : Memphy) (calls : List (Access maxsz)) : Prop :=
  ∀ past call later, calls = past ++ call :: later → (mp.served past).Obeys past call

/-- The accesses that a device has served are served one after the other. -/
theorem served_snoc (mp : Memphy) (calls : List (Access maxsz)) (call : Access maxsz) :
    mp.served (calls ++ [call]) = ((mp.served calls).serve call).2.2 := by
  rw [served, List.foldl_append, List.foldl_cons, List.foldl_nil, ← served]

/-- A read is not the last write of a cell. -/
theorem lastWrite_read (addr : Int) (calls : List (Access maxsz)) (cell : Cell maxsz)
    (value : Byte) : lastWrite addr (calls ++ [.read cell value]) = lastWrite addr calls := by
  rw [lastWrite, List.foldl_append, ← lastWrite, List.foldl_cons, List.foldl_nil]

/-- A write to a cell is its last write from then on. -/
theorem lastWrite_write (addr : Int) (calls : List (Access maxsz)) (cell : Cell maxsz)
    (data : Byte) : lastWrite addr (calls ++ [.write cell data]) =
      if cell.1 = addr then some data else lastWrite addr calls := by
  rw [lastWrite, List.foldl_append, ← lastWrite, List.foldl_cons, List.foldl_nil]

/-- `init_memphy` stores the flag that it is given. -/
theorem initMemphy_rdmflg (mp : Memphy) (storage : Int → Byte) (maxSize : Int) (randomflg : Bool)
    (uninit : List Int) : (mp.initMemphy storage maxSize randomflg uninit).rdmflg = randomflg := rfl

variable {mp : Memphy}

theorem serve_rdmflg (random : mp.rdmflg = true) (call : Access maxsz) :
    (mp.serve call).2.2.rdmflg = true := by
  cases call with
  | read cell value => rwa [serve, memphyRead_random random]
  | write cell data => rwa [serve, memphyWrite_random random]

/-- A device that is random-access at first is so after all accesses. -/
theorem served_rdmflg (random : mp.rdmflg = true) (calls : List (Access maxsz)) :
    (mp.served calls).rdmflg = true := by
  induction calls using List.reverseRecOn with
  | nil => exact random
  | append_singleton calls call ih =>
      rw [served_snoc]
      exact serve_rdmflg ih call

/-- The cells of a random-access device hold what was last written to them. -/
theorem served_storage (random : mp.rdmflg = true) (calls : List (Access maxsz)) (addr : Int) :
    (mp.served calls).storage addr = (lastWrite addr calls).getD (mp.storage addr) := by
  induction calls using List.reverseRecOn with
  | nil => rfl
  | append_singleton calls call ih =>
      have random' := served_rdmflg random calls
      rw [served_snoc]
      cases call with
      | read cell value =>
          rw [lastWrite_read, ← ih]
          simp only [serve, memphyRead_random random']
      | write cell data =>
          rw [lastWrite_write]
          simp only [serve, memphyWrite_random random']
          by_cases same : cell.1 = addr
          · rw [if_pos same, ← same, Function.update_self, Option.getD_some]
          · rw [if_neg same, Function.update_of_ne (Ne.symm same), ih]

/-- A random-access device obeys every access, whatever was accessed before. -/
theorem obeys_random (random : mp.rdmflg = true) (past : List (Access maxsz))
    (call : Access maxsz) : (mp.served past).Obeys past call := by
  have random' := served_rdmflg random past
  refine ⟨?_, ?_, ?_, ?_, fun sequential => absurd (random'.symm.trans sequential) (by decide)⟩
  · cases call with
    | read cell value => rw [serve, memphyRead_random random']
    | write cell data => rw [serve, memphyWrite_random random']
  · rintro cell value written rfl last
    rw [serve, memphyRead_random random', served_storage random, last, Option.getD_some]
  · rintro cell value rfl
    rw [serve, memphyRead_random random']
  · rintro cell data rfl addr other
    rw [serve, memphyWrite_random random']
    exact Function.update_of_ne other ..

theorem serve_sequential (sequential : mp.rdmflg = false) (call : Access maxsz) :
    (mp.serve call).1 = -1 := by
  cases call with
  | read cell value => simp [serve, memphyRead, memphySeqRead, sequential]
  | write cell data => simp [serve, memphyWrite, memphySeqWrite, sequential]

/-- **A device behaves as an array** if and only if it is random access or is not used:
`MEMPHY_seq_read` and `MEMPHY_seq_write` fail on the devices they are for. -/
theorem behaves_as_array_iff (mp : Memphy) (storage : Int → Byte) (maxSize : Int)
    (randomflg : Bool) (uninit : List Int) (calls : List (Access maxSize)) :
    (mp.initMemphy storage maxSize randomflg uninit).BehavesAsArray calls ↔
      randomflg = true ∨ calls = [] := by
  constructor
  · intro behaves
    cases access : randomflg with
    | true => exact .inl rfl
    | false =>
        right
        cases calls with
        | nil => rfl
        | cons call later =>
            have obeys := behaves [] call later rfl
            have failed := serve_sequential
              ((initMemphy_rdmflg mp storage maxSize randomflg uninit).trans access) call
            exact absurd (failed.symm.trans obeys.status) (by decide)
  · rintro (random | rfl) past call later split
    · exact obeys_random random past call
    · exact absurd split.symm (List.append_ne_nil_of_right_ne_nil past (List.cons_ne_nil _ _))

/-- A sequential device of one frame rejects the first write. -/
theorem sequential_device_fails : ¬ ∀ (mp : Memphy) (storage : Int → Byte) (maxSize : Int)
    (randomflg : Bool) (uninit : List Int) (calls : List (Access maxSize)),
      (mp.initMemphy storage maxSize randomflg uninit).BehavesAsArray calls := by
  intro claim
  have behaves := claim zeroed (fun _ => 0) 256 false [] [.write ⟨0, by decide, by decide⟩ 7]
  exact absurd (behaves [] _ [] rfl).status (by decide)

/-! ## The cursor -/

/-- The cursor of a sequential device goes up by one cell for each step, as long as it stays
inside. -/
theorem mvCsrLoop_eq {maxsz : Int} {steps : Nat} {cursor : Int}
    (nonneg : 0 ≤ cursor) (inside : cursor + steps < maxsz) :
    mvCsrLoop maxsz steps cursor = cursor + steps := by
  induction steps generalizing cursor with
  | zero => rw [mvCsrLoop, Nat.cast_zero, Int.add_zero]
  | succ steps ih =>
      push_cast at inside ⊢
      have next : (cursor + 1).tmod maxsz = cursor + 1 :=
        Int.tmod_eq_of_lt (by omega) (by omega)
      rw [mvCsrLoop, next, ih (by omega) (by omega)]
      omega

/-- `MEMPHY_mv_csr` itself moves the cursor to the address. -/
theorem memphyMvCsr_cursor {mp : Memphy} {offset : Int} (nonneg : 0 ≤ offset)
    (inside : offset < mp.maxsz) : (mp.memphyMvCsr offset).cursor = offset := by
  have steps : min offset mp.maxsz = offset := min_eq_left inside.le
  rw [memphyMvCsr, steps, mvCsrLoop_eq le_rfl (by omega), Int.toNat_of_nonneg nonneg, Int.zero_add]

end Memphy

end PagedOs
