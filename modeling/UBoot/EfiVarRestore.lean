import UBoot.EfiVarCommon
import UBoot.EnvRedund
import UBoot.Buffers

/-!
`efi_var_restore` of `lib/efi_loader/efi_var_common.c` on the bytes of a file. The
file stands in memory at `buf`, and the loop reads wherever its pointer is; what it
reads is recorded. Pointers have 64 bits and do not wrap, since the length of an
entry has 32. On a file that is a sequence of entries the loop does what it does
on the list of them.
-/
namespace UBoot.EfiVarRestore
open UBoot.Memory UBoot.Buffers UBoot.Words UBoot.EfiVar List Option

structure Access where
  addr : Nat
  len : Nat
deriving DecidableEq, Repr

section
variable (m : Nat → UInt8)

def char_at (a : Nat) : UInt16 := .ofNat (field m a 2)

/-- `u16_strlen`, as far as so many characters. -/
def u16_strlen : Nat → Nat → Option Nat
  | 0, _ => none
  | fuel+1, a => if char_at m a = 0 then some 0 else (u16_strlen fuel (a+2)).map (· + 1)

/-- Where the data of an entry begins whose name has `n` characters. -/
def data_at (var n : Nat) : Nat := var+SIZEOF_VAR_ENTRY+2*(n+1)

def entry_at (var n : Nat) : Var :=
  { guid := .ofNat 128 (field m (var+16) 16)
    name := string_at ((List.range n).map fun i => char_at m (var+SIZEOF_VAR_ENTRY+2*i)) n
    attr := .ofNat 32 (field m (var+4) 4)
    time := field m (var+8) 8
    data := load m (data_at var n) (field m var 4) }

def next_var (var n : Nat) : Nat := roundUp (data_at var n+field m var 4) 8

variable (layout : Layout) (safe : Bool)

/-- What is done with an entry: whether `efi_var_mem_ins` is called, and the
    store. -/
def restore_entry (var : Var) (s : Store) : Bool × Store :=
  if safe = false ∧ (efi_auth_var_get_type var.name var.guid ≠ .EFI_AUTH_VAR_NONE ∨ var.guid = shim_lock_guid ∨
      var.attr &&& EFI_VARIABLE_NON_VOLATILE = 0) then (false,s)
  else if var.data = [] then (false,s)
  else
    let (found,_,s) := efi_var_mem_find s var.guid var.name
    if found ≠ none then (false,s)
    else
      let (_,_,s) := efi_var_mem_ins layout.EFI_VAR_BUF_SIZE s var.name var.guid var.attr var.data [] var.time false
      (true,s)

/-- The loop, with what it reads. A round reads the header of an entry, its name
    and, if it inserts the variable, its data. -/
def restore_loop (last_var : Nat) : Nat → Nat → Store → Option (List Access × Store)
  | 0, _, _ => none
  | fuel+1, var, s =>
    if var < last_var then
      match u16_strlen m fuel (var+SIZEOF_VAR_ENTRY) with
      | none => none
      | some n =>
        let (inserts,s) := restore_entry layout safe (entry_at m var n) s
        (restore_loop last_var fuel (next_var m var n) s).map fun (trace,s) =>
          (⟨var,SIZEOF_VAR_ENTRY⟩ :: ⟨var+SIZEOF_VAR_ENTRY,2*(n+1)⟩ ::
            ((if inserts then [⟨data_at var n,field m var 4⟩] else []) ++ trace),s)
    else some ([],s)

def passes (buf : Nat) : Prop :=
  let reserved := field m buf 8
  let magic := field m (buf+8) 8
  let length := field m (buf+16) 4
  ¬ (reserved ≠ 0 ∨ magic ≠ EFI_VAR_FILE_MAGIC ∨ length > layout.EFI_VAR_BUF_SIZE ∨ length < SIZEOF_VAR_FILE ∨
    field m (buf+20) 4 ≠ (Env.crc32 (load m (buf+SIZEOF_VAR_FILE) (length-SIZEOF_VAR_FILE))).toNat)

instance (buf : Nat) : Decidable (passes m layout buf) := by
  unfold passes
  infer_instance

/-- The status, what the loop reads, and the store, unless the loop is still
    running after so many rounds. -/
def efi_var_restore (buf fuel : Nat) (s : Store) : Option (Status × List Access × Store) :=
  if ¬ passes m layout buf then some (.EFI_INVALID_PARAMETER,[],s)
  else
    let last_var := buf+field m (buf+16) 4
    (restore_loop m layout safe last_var fuel (buf+SIZEOF_VAR_FILE) s).map fun (trace,s) => (.EFI_SUCCESS,trace,s)

end

section
variable (m : Nat → UInt8)

/-- A string of `n` characters and its terminator. -/
def Ends (a n : Nat) : Prop := char_at m (a+2*n) = 0 ∧ ∀ i < n, char_at m (a+2*i) ≠ 0

/-- Entries one behind another from `var` to `stop`, each up to the end of its data
    below `last_var`. -/
inductive Entries (last_var : Nat) : Nat → List Var → Nat → Prop
  | nil {var : Nat} : Entries last_var var [] var
  | cons {var n stop : Nat} {vars : List Var} : Ends m (var+SIZEOF_VAR_ENTRY) n →
      data_at var n+field m var 4 ≤ last_var → Entries last_var (next_var m var n) vars stop →
      Entries last_var var (entry_at m var n :: vars) stop

variable (layout : Layout) (safe : Bool)

/-- The data of the last entry runs past the end, but the variable is not
    inserted. -/
def PassedOver (last_var stop : Nat) (s : Store) : Prop :=
  ∃ n, Ends m (stop+SIZEOF_VAR_ENTRY) n ∧ data_at stop n ≤ last_var ∧ last_var < data_at stop n+field m stop 4 ∧
    (restore_entry layout safe (entry_at m stop n) s).1 = false

def Sequence (last_var var : Nat) (s : Store) : Prop :=
  ∃ vars stop, Entries m last_var var vars stop ∧
    (last_var ≤ stop ∨ PassedOver m layout safe last_var stop (EfiVar.restore_loop layout safe vars s))

def Confined (buf last_var : Nat) (result : Nat → Option (List Access × Store)) : Prop :=
  ∃ fuel trace after, result fuel = some (trace,after) ∧
    ∀ access ∈ trace, buf ≤ access.addr ∧ access.addr+access.len ≤ last_var

end

section
variable {m : Nat → UInt8}

variable {buf fuel last_var n var : Nat}

theorem u16_strlen_spec : ∀ {fuel a : Nat}, u16_strlen m fuel a = some n → Ends m a n ∧ n < fuel := by
  induction n with
  | zero =>
    intro fuel a length
    cases fuel with
    | zero => cases length
    | succ fuel =>
      rw [u16_strlen] at length
      by_cases zero : char_at m a = 0
      · exact ⟨⟨zero,fun i low => absurd low (Nat.not_lt_zero i)⟩,Nat.succ_pos fuel⟩
      · rw [if_neg zero] at length
        simp at length
  | succ n ih =>
    intro fuel a length
    cases fuel with
    | zero => cases length
    | succ fuel =>
      rw [u16_strlen] at length
      by_cases zero : char_at m a = 0
      · rw [if_pos zero] at length
        cases length
      rw [if_neg zero] at length
      obtain ⟨k,rest,more⟩ := map_eq_some_iff.mp length
      obtain rfl := Nat.succ.inj more
      obtain ⟨⟨ends,before⟩,enough⟩ := ih rest
      refine ⟨⟨?_,?_⟩,Nat.succ_lt_succ enough⟩
      · rw [show a+2*(k+1) = a+2+2*k by omega]
        exact ends
      · intro i low
        cases i with
        | zero => exact zero
        | succ i =>
          rw [show a+2*(i+1) = a+2+2*i by omega]
          exact before i (by omega)

theorem u16_strlen_ends : ∀ {fuel a : Nat}, Ends m a n → n < fuel → u16_strlen m fuel a = some n := by
  induction n with
  | zero =>
    intro fuel a ends enough
    have zero : char_at m a = 0 := ends.1
    cases fuel with
    | zero => omega
    | succ fuel =>
      rw [u16_strlen,if_pos zero]
  | succ n ih =>
    intro fuel a ends enough
    obtain ⟨zero,before⟩ := ends
    have first : char_at m a ≠ 0 := before 0 (Nat.succ_pos n)
    cases fuel with
    | zero => omega
    | succ fuel =>
      have rest : Ends m (a+2) n := by
        constructor
        · rw [show a+2+2*n = a+2*(n+1) by omega]
          exact zero
        · intro i low
          rw [show a+2+2*i = a+2*(i+1) by omega]
          exact before (i+1) (by omega)
      rw [u16_strlen,if_neg first,ih rest (by omega)]
      rfl

theorem next_var_ge (var n : Nat) : data_at var n+field m var 4 ≤ next_var m var n := le_roundUp _ (by decide)

variable {layout : Layout} {safe : Bool}

theorem restore_list_cons (var : Var) (vars : List Var) (s : Store) :
    EfiVar.restore_loop layout safe (var :: vars) s =
      EfiVar.restore_loop layout safe vars (restore_entry layout safe var s).2 := by
  rw [EfiVar.restore_loop,restore_entry]
  split
  · rfl
  · split
    · rfl
    · dsimp only
      split
      · rfl
      · rfl

def round_reads (m : Nat → UInt8) (var n : Nat) (inserts : Bool) : List Access :=
  ⟨var,SIZEOF_VAR_ENTRY⟩ :: ⟨var+SIZEOF_VAR_ENTRY,2*(n+1)⟩ :: (if inserts then [⟨data_at var n,field m var 4⟩] else [])

theorem restore_loop_round (below : var < last_var)
    (length : u16_strlen m fuel (var+SIZEOF_VAR_ENTRY) = some n) (s : Store) :
    restore_loop m layout safe last_var (fuel+1) var s =
      (restore_loop m layout safe last_var fuel (next_var m var n) (restore_entry layout safe (entry_at m var n) s).2).map
        fun (trace,s') => (round_reads m var n (restore_entry layout safe (entry_at m var n) s).1 ++ trace,s') := by
  rw [restore_loop,if_pos below,length]
  rfl

theorem restore_loop_end (past : ¬ var < last_var) (fuel : Nat) (s : Store) :
    restore_loop m layout safe last_var (fuel+1) var s = some ([],s) := by
  rw [restore_loop,if_neg past]

theorem restore_loop_more : ∀ {var : Nat} {s : Store} {r : List Access × Store} {fuel' : Nat},
    restore_loop m layout safe last_var fuel var s = some r → fuel ≤ fuel' →
      restore_loop m layout safe last_var fuel' var s = some r := by
  induction fuel with
  | zero =>
    intro var s r fuel' ends enough
    cases ends
  | succ fuel ih =>
    intro var s r fuel' ends enough
    cases fuel' with
    | zero => omega
    | succ fuel' =>
      by_cases below : var < last_var
      · cases length : u16_strlen m fuel (var+SIZEOF_VAR_ENTRY) with
        | none =>
          rw [restore_loop,if_pos below,length] at ends
          cases ends
        | some n =>
          obtain ⟨terminated,short⟩ := u16_strlen_spec length
          rw [restore_loop_round below length] at ends
          obtain ⟨rest,goes,same⟩ := map_eq_some_iff.mp ends
          rw [restore_loop_round below (u16_strlen_ends terminated (by omega)),ih goes (by omega),← same]
          rfl
      · rw [restore_loop_end below] at ends ⊢
        exact ends

theorem sequence_of_inside : ∀ {var : Nat} {s after : Store} {trace : List Access},
    restore_loop m layout safe last_var fuel var s = some (trace,after) →
      (∀ access ∈ trace, access.addr+access.len ≤ last_var) → Sequence m layout safe last_var var s := by
  induction fuel with
  | zero =>
    intro var s after trace ends inside
    cases ends
  | succ fuel ih =>
    intro var s after trace ends inside
    by_cases below : var < last_var
    · cases length : u16_strlen m fuel (var+SIZEOF_VAR_ENTRY) with
      | none =>
        rw [restore_loop,if_pos below,length] at ends
        cases ends
      | some n =>
        obtain ⟨terminated,-⟩ := u16_strlen_spec length
        rw [restore_loop_round below length] at ends
        obtain ⟨⟨rest,after'⟩,goes,same⟩ := map_eq_some_iff.mp ends
        obtain ⟨rfl,rfl⟩ := Prod.mk.inj same
        have name := inside ⟨var+SIZEOF_VAR_ENTRY,2*(n+1)⟩ (by simp [round_reads])
        have later := ih goes (fun access member => inside access (mem_append_right _ member))
        by_cases fits : data_at var n+field m var 4 ≤ last_var
        · obtain ⟨vars,stop,entries,last⟩ := later
          refine ⟨entry_at m var n :: vars,stop,.cons terminated fits entries,?_⟩
          rw [restore_list_cons]
          exact last
        -- The data is not read, and what follows lies past the end.
        refine ⟨[],var,.nil,.inr ⟨n,terminated,name,Nat.lt_of_not_le fits,?_⟩⟩
        rw [EfiVar.restore_loop]
        cases inserts : (restore_entry layout safe (entry_at m var n) s).1 with
        | false => rfl
        | true =>
          have data := inside ⟨data_at var n,field m var 4⟩ (by simp [round_reads,inserts])
          exact absurd data fits
    · exact ⟨[],var,.nil,.inl (Nat.le_of_not_lt below)⟩

theorem round_inside (from_ : buf ≤ var) {inserts : Bool} (name : data_at var n ≤ last_var)
    (data : inserts = true → data_at var n+field m var 4 ≤ last_var) :
    ∀ access ∈ round_reads m var n inserts, buf ≤ access.addr ∧ access.addr+access.len ≤ last_var := by
  intro access member
  rw [data_at] at name
  rw [round_reads] at member
  rcases mem_cons.mp member with rfl | member
  · exact ⟨from_,by dsimp only; omega⟩
  rcases mem_cons.mp member with rfl | member
  · exact ⟨by dsimp only; omega,name⟩
  cases inserts with
  | false => cases member
  | true =>
    obtain rfl := mem_singleton.mp member
    refine ⟨?_,data rfl⟩
    dsimp only
    rw [data_at]
    omega

theorem inside_of_entries {buf last_var var stop : Nat} {vars : List Var} (entries : Entries m last_var var vars stop)
    (from_ : buf ≤ var) : ∀ s : Store,
      last_var ≤ stop ∨ PassedOver m layout safe last_var stop (EfiVar.restore_loop layout safe vars s) →
      Confined buf last_var (fun fuel => restore_loop m layout safe last_var fuel var s) := by
  induction entries with
  | @nil var =>
    intro s last
    rcases last with past | ⟨n,terminated,name,long,skipped⟩
    · exact ⟨1,[],s,restore_loop_end (by omega) 0 s,by simp⟩
    rw [EfiVar.restore_loop] at skipped
    have beyond := @next_var_ge m var n
    have below : var < last_var := by
      rw [data_at] at name
      omega
    refine ⟨n+2,round_reads m var n false ++ [],(restore_entry layout safe (entry_at m var n) s).2,?_,?_⟩
    · dsimp only
      rw [restore_loop_round below (u16_strlen_ends terminated (Nat.lt_succ_self n)),skipped,
        restore_loop_end (by omega)]
      rfl
    · rw [append_nil]
      exact round_inside from_ name (fun inserts => by cases inserts)
  | @cons var n stop vars terminated fits rest ih =>
    intro s last
    rw [restore_list_cons] at last
    have beyond := @next_var_ge m var n
    have below : var < last_var ∧ var ≤ data_at var n := by
      rw [data_at] at fits ⊢
      exact ⟨by rw [SIZEOF_VAR_ENTRY] at fits; omega,by omega⟩
    obtain ⟨fuel,trace,after,goes,inside⟩ := ih (by omega) (restore_entry layout safe (entry_at m var n) s).2 last
    refine ⟨fuel+n+2,round_reads m var n (restore_entry layout safe (entry_at m var n) s).1 ++ trace,after,?_,?_⟩
    · have more : restore_loop m layout safe last_var (fuel+n+1) (next_var m var n)
          (restore_entry layout safe (entry_at m var n) s).2 = some (trace,after) := restore_loop_more goes (by omega)
      dsimp only
      rw [restore_loop_round below.1 (u16_strlen_ends terminated (by omega)),more]
      rfl
    · intro access member
      rcases mem_append.mp member with here | later
      · exact round_inside from_ (by omega) (fun _ => fits) access here
      · exact inside access later

/-- Restoring the file ends, and the loop reads nothing but the file. -/
def Contained (m : Nat → UInt8) (layout : Layout) (safe : Bool) (buf : Nat) (s : Store) : Prop :=
  ∃ fuel trace after, efi_var_restore m layout safe buf fuel s = some (.EFI_SUCCESS,trace,after) ∧
    ∀ access ∈ trace, buf ≤ access.addr ∧ access.addr+access.len ≤ buf+field m (buf+16) 4

theorem restore_passes (passed : passes m layout buf) (fuel : Nat) (s : Store) :
    efi_var_restore m layout safe buf fuel s =
      (restore_loop m layout safe (buf+field m (buf+16) 4) fuel (buf+SIZEOF_VAR_FILE) s).map
        fun (trace,s) => (.EFI_SUCCESS,trace,s) := by
  rw [efi_var_restore,if_neg (not_not.mpr passed)]

theorem contained_sequence {s : Store} (passed : passes m layout buf) (contained : Contained m layout safe buf s) :
    Sequence m layout safe (buf+field m (buf+16) 4) (buf+SIZEOF_VAR_FILE) s := by
  obtain ⟨fuel,trace,after,ends,inside⟩ := contained
  rw [restore_passes passed] at ends
  obtain ⟨⟨trace',after'⟩,goes,same⟩ := map_eq_some_iff.mp ends
  obtain ⟨-,same⟩ := Prod.mk.inj same
  obtain ⟨rfl,rfl⟩ := Prod.mk.inj same
  exact sequence_of_inside goes (fun access member => (inside access member).2)

/-- A file that passes the checks is read within its bounds exactly if it is a
    sequence of entries, but for the data of a last entry that is not inserted. -/
theorem restore_contained_iff {m : Nat → UInt8} {layout : Layout} {buf : Nat} (passed : passes m layout buf) (safe : Bool)
    (s : Store) : Contained m layout safe buf s ↔
      Sequence m layout safe (buf+field m (buf+16) 4) (buf+SIZEOF_VAR_FILE) s := by
  constructor
  · exact contained_sequence passed
  · rintro ⟨vars,stop,entries,last⟩
    obtain ⟨fuel,trace,after,goes,inside⟩ := inside_of_entries entries (Nat.le_add_right buf _) s last
    dsimp only at goes
    refine ⟨fuel,trace,after,?_,inside⟩
    rw [restore_passes passed,goes]
    rfl

end

def one_entry : List UInt8 :=
  [0,0,0,0,0,0,0,0, 0x55,0x62,0x45,0x66,0x69,0x56,0x61,0x01, 61,0,0,0] ++ little 4 570719042 ++
    [1,0,0,0,7,0,0,0] ++ List.replicate 24 0 ++ [0x76,0,0,0,5]

def open_name : List UInt8 :=
  [0,0,0,0,0,0,0,0, 0x55,0x62,0x45,0x66,0x69,0x56,0x61,0x01, 58,0,0,0] ++ little 4 2847165012 ++
    [1,0,0,0,7,0,0,0] ++ List.replicate 24 0 ++ [0x76,0]

def sample_layout : Layout := ⟨131072,fun _ => [],fun _ => 0⟩

def in_memory (file : List UInt8) : Nat → UInt8 := store (fun _ => 0) 4096 file

theorem restore_contained_one : Contained (in_memory one_entry) sample_layout false 4096 ⟨[],none⟩ ↔
    Sequence (in_memory one_entry) sample_layout false (4096+field (in_memory one_entry) (4096+16) 4)
      (4096+SIZEOF_VAR_FILE) ⟨[],none⟩ :=
  restore_contained_iff (by decide +kernel) false ⟨[],none⟩

example : (efi_var_restore (in_memory one_entry) sample_layout false 4096 3 ⟨[],none⟩).map (·.2.1) =
    some [⟨4120,32⟩,⟨4152,4⟩,⟨4156,1⟩] := by decide +kernel

/-- The name runs on into what follows the file. -/
theorem open_name_escapes : passes (in_memory open_name) sample_layout 4096 ∧
    ¬ Contained (in_memory open_name) sample_layout false 4096 ⟨[],none⟩ := by
  have passed : passes (in_memory open_name) sample_layout 4096 := by decide +kernel
  have length : field (in_memory open_name) (4096+16) 4 = 58 := by decide +kernel
  have letter : char_at (in_memory open_name) (4096+SIZEOF_VAR_FILE+SIZEOF_VAR_ENTRY) ≠ 0 := by decide +kernel
  -- Any name within the file would be empty.
  have name : ∀ n, Ends (in_memory open_name) (4096+SIZEOF_VAR_FILE+SIZEOF_VAR_ENTRY) n →
      ¬ data_at (4096+SIZEOF_VAR_FILE) n ≤ 4096+58 := by
    intro n ends fits
    rw [data_at,SIZEOF_VAR_FILE,SIZEOF_VAR_ENTRY] at fits
    obtain rfl : n = 0 := by omega
    exact letter ends.1
  refine ⟨passed,?_⟩
  intro contained
  obtain ⟨vars,stop,entries,last⟩ := contained_sequence passed contained
  rw [length] at entries last
  cases entries with
  | nil =>
    rcases last with past | ⟨n,ends,fits,-⟩
    · exact absurd past (by decide)
    · exact name n ends fits
  | cons ends fits rest => exact name _ ends (by omega)

end UBoot.EfiVarRestore
