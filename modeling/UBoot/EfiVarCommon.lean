import UBoot.EfiVarMem

/-!
The file of EFI variables, `lib/efi_loader/efi_var_common.c`: the variables that need
authentication, collecting the variables of a store into a file and restoring a store from one. The
collector has the names of the store written into the file that it is building, one behind what it
has kept so far, and asks for room before it knows whether another variable is there.
-/
namespace UBoot.EfiVar
open UBoot.Words UBoot.KeyedLists List

def efi_global_variable_guid : Guid := 0x8c2b0398e0000daa11d293ca8be4df61
def efi_guid_image_security_database : Guid := 0x6f65670ed0dabca345963d3ad719b2cb
def shim_lock_guid : Guid := 0x238bdd10d83db6ab4300e046605dab50

inductive AuthVarType where
  | EFI_AUTH_VAR_NONE
  | EFI_AUTH_MODE
  | EFI_AUTH_VAR_PK
  | EFI_AUTH_VAR_KEK
  | EFI_AUTH_VAR_DB
  | EFI_AUTH_VAR_DBX
  | EFI_AUTH_VAR_DBT
  | EFI_AUTH_VAR_DBR
deriving DecidableEq, Repr

def AuthVarType.from_pk (type : AuthVarType) : Bool := type ≠ .EFI_AUTH_VAR_NONE ∧ type ≠ .EFI_AUTH_MODE

def PK : Str := u ['P','K']
def KEK : Str := u ['K','E','K']
def AuditMode : Str := u ['A','u','d','i','t','M','o','d','e']
def DeployedMode : Str := u ['D','e','p','l','o','y','e','d','M','o','d','e']

def name_type : List (Str × Guid × AuthVarType) :=
  [(PK,efi_global_variable_guid,.EFI_AUTH_VAR_PK),
    (KEK,efi_global_variable_guid,.EFI_AUTH_VAR_KEK),
    (u ['d','b'],efi_guid_image_security_database,.EFI_AUTH_VAR_DB),
    (u ['d','b','x'],efi_guid_image_security_database,.EFI_AUTH_VAR_DBX),
    (u ['d','b','t'],efi_guid_image_security_database,.EFI_AUTH_VAR_DBT),
    (u ['d','b','r'],efi_guid_image_security_database,.EFI_AUTH_VAR_DBR),
    (AuditMode,efi_global_variable_guid,.EFI_AUTH_MODE),
    (DeployedMode,efi_global_variable_guid,.EFI_AUTH_MODE)]

def efi_auth_var_get_type (name : Str) (guid : Guid) : AuthVarType :=
  match name_type.find? fun row => name = row.1 ∧ guid = row.2.1 with
  | some row => row.2.2
  | none => .EFI_AUTH_VAR_NONE

def efi_auth_var_get_guid (name : Str) : Guid :=
  match name_type.find? fun row => name = row.1 with
  | some row => row.2.1
  | none => efi_global_variable_guid

/-- How U-Boot is configured: the size of the buffer; and the bytes of a file
    with some entries, and their checksum, which depend on what older entries
    have left in the gaps. -/
structure Layout where
  EFI_VAR_BUF_SIZE : Nat
  image : List Var → List UInt8
  crc32 : List Var → Nat

def EFI_VAR_FILE_MAGIC : Nat := 0x0161566966456255

structure VarFile where
  reserved : Nat
  magic : Nat
  length : Nat
  crc32 : Nat
  vars : List Var

section file
variable (layout : Layout)

/-- The loop of `efi_var_collect` for so many rounds: where the next entry goes,
    the name that was seen last with its size and GUID, and what is kept so
    far. It gives the end of the entries and the entries. -/
def collect_loop (check_attr_mask : Attributes) : Nat → Nat → Nat → Str → Guid → List Var → Store →
    Option (Except Status (Nat × List Var) × Store)
  | 0, _, _, _, _, _, _ => none
  | rounds+1, var, old_var_name_length, old_name, old_guid, kept, s =>
    let len := layout.EFI_VAR_BUF_SIZE
    if len ≤ var+SIZEOF_VAR_ENTRY+old_var_name_length then some (.error .EFI_BUFFER_TOO_SMALL,s)
    else
      let var_name_length := len-(var+SIZEOF_VAR_ENTRY)
      let buffer := copy_name old_name (List.replicate (var_name_length/2) 0)
      match efi_get_next_variable_name_mem s var_name_length buffer old_guid 0 1 with
      | none => none
      | some (⟨.EFI_NOT_FOUND,_,_,_⟩,s) => some (.ok (var,kept),s)
      | some (⟨.EFI_SUCCESS,var_name_length,buffer,guid⟩,s) =>
        let name := string_at buffer (var_name_length/2)
        let data := var+SIZEOF_VAR_ENTRY+var_name_length
        let (got,s) := efi_get_variable_mem layout.image s name guid (len-data) true 0
        match got with
        | ⟨.EFI_SUCCESS,some attr,some time,data_length,some bytes⟩ =>
          if attr &&& check_attr_mask = check_attr_mask then
            collect_loop check_attr_mask rounds (roundUp (data+data_length) 8) var_name_length name guid
              (kept ++ [⟨guid,name,attr,time,bytes⟩]) s
          else collect_loop check_attr_mask rounds var var_name_length name guid kept s
        | got => some (.error got.status,s)
      | some (next,s) => some (.error next.status,s)

def file_of (len : Nat) (kept : List Var) : VarFile := ⟨0,EFI_VAR_FILE_MAGIC,len,layout.crc32 kept,kept⟩

/-- The file, or an error, and the store with its cache. The buffer is zero at
    first, so the first name is empty. -/
def efi_var_collect (s : Store) (check_attr_mask : Attributes) (calloc : Bool) : Option (Except Status VarFile × Store) :=
  if calloc = false then some (.error .EFI_OUT_OF_RESOURCES,s)
  else
    (collect_loop layout check_attr_mask (s.vars.length+1) SIZEOF_VAR_FILE 2 (u []) 0 [] s).map fun (result,s) =>
      (result.map fun (len,kept) => file_of layout len kept,s)

def restore_loop (safe : Bool) : List Var → Store → Store
  | [], s => s
  | var :: rest, s =>
    if safe = false ∧ (efi_auth_var_get_type var.name var.guid ≠ .EFI_AUTH_VAR_NONE ∨ var.guid = shim_lock_guid ∨
        var.attr &&& EFI_VARIABLE_NON_VOLATILE = 0) then restore_loop safe rest s
    else if var.data = [] then restore_loop safe rest s
    else
      let (found,_,s) := efi_var_mem_find s var.guid var.name
      if found ≠ none then restore_loop safe rest s
      else
        let (_,_,s) := efi_var_mem_ins layout.EFI_VAR_BUF_SIZE s var.name var.guid var.attr var.data [] var.time false
        restore_loop safe rest s

def efi_var_restore (s : Store) (buf : VarFile) (safe : Bool) : Status × Store :=
  if buf.reserved ≠ 0 ∨ buf.magic ≠ EFI_VAR_FILE_MAGIC ∨ buf.length > layout.EFI_VAR_BUF_SIZE ∨
      buf.length < SIZEOF_VAR_FILE ∨ buf.crc32 ≠ layout.crc32 buf.vars then (.EFI_INVALID_PARAMETER,s)
  else (.EFI_SUCCESS,restore_loop layout safe buf.vars s)

end file

section collecting
variable (layout : Layout) (mask : Attributes) (all : List Var)

/-- The bytes that reading a variable gives: VarToFile reads as a file of its
    own. -/
def read_len (var : Var) : Nat :=
  if var.name = VarToFile then buf_length (masked EFI_VARIABLE_NON_VOLATILE all) else var.data.length

def as_read (var : Var) : Var :=
  if var.name = VarToFile then { var with data := layout.image (masked EFI_VARIABLE_NON_VOLATILE all) } else var

/-- Where the entry after a variable goes, if the variable goes to `offset`. -/
def after_var (offset : Nat) (var : Var) : Nat :=
  if var.attr &&& mask = mask then roundUp (offset+used_len var.name (read_len all var)) 8 else offset

/-- There is room for the name that was seen last before each variable and at
    the end, and for what is read of each variable. -/
def Roomy : Nat → Nat → List Var → Prop
  | offset, old_var_name_length, [] => offset+SIZEOF_VAR_ENTRY+old_var_name_length < layout.EFI_VAR_BUF_SIZE
  | offset, old_var_name_length, var :: rest =>
    offset+SIZEOF_VAR_ENTRY+old_var_name_length < layout.EFI_VAR_BUF_SIZE ∧
      offset+used_len var.name (read_len all var) ≤ layout.EFI_VAR_BUF_SIZE ∧
      Roomy (after_var mask all offset var) (name_size var.name) rest

def end_of (offset : Nat) (vars : List Var) : Nat := vars.foldl (after_var mask all) offset

structure Collected (offset old_var_name_length : Nat) (todo kept : List Var) (s : Store)
    (result : Except Status (Nat × List Var)) (current : Option Nat) : Prop where
  tidy : Tidy (with_current s current)
  roomy : Roomy layout mask all offset old_var_name_length todo →
    result = .ok (end_of mask all offset todo,kept ++ (masked mask todo).map (as_read layout all))
  stuck : ¬ Roomy layout mask all offset old_var_name_length todo → ∃ status, result = .error status

theorem masked_cons (var : Var) (rest : List Var) :
    masked mask (var :: rest) = if var.attr &&& mask = mask then var :: masked mask rest else masked mask rest := by
  by_cases keep : var.attr &&& mask = mask <;> simp [masked,keep]

theorem reading_collected {var : Var} (size : Nat) :
    reading layout.image all var.name size true 0 (some var) =
      if size < read_len all var then ⟨.EFI_BUFFER_TOO_SMALL,some var.attr,some var.time,read_len all var,none⟩
      else ⟨.EFI_SUCCESS,some var.attr,some var.time,read_len all var,some (as_read layout all var).data⟩ := by
  simp only [reading,read_len,as_read,ne_eq,not_true_eq_false,false_and,if_false]
  by_cases to_file : var.name = VarToFile
  · simp only [if_pos to_file,efi_var_collect_mem]
    by_cases small : size < buf_length (masked EFI_VARIABLE_NON_VOLATILE all)
    · simp [small]
    · simp [small,not_lt.mp small]
  · simp only [if_neg to_file]
    simp

theorem name_size_half (name : Str) : name_size name/2 = name.chars.length+1 := by
  rw [name_size]
  omega

theorem next_collected {name : Str} {guid : Guid} {s : Store} (tidy : Tidy s) (vars : s.vars = all)
    (known : name.chars = [] ∨ place Var.key all (guid,name) ≠ none) {size : Nat} (room : name_size name < size) :
    ∃ current, Tidy (with_current s current) ∧
      efi_get_next_variable_name_mem s size (copy_name name (replicate (size/2) 0)) guid 0 1 =
        match (upcoming all guid name).bind (all[·]?) with
        | none => some (⟨.EFI_NOT_FOUND,size,copy_name name (replicate (size/2) 0),guid⟩,with_current s current)
        | some var =>
          if size < name_size var.name then some (⟨.EFI_BUFFER_TOO_SMALL,name_size var.name,
            copy_name name (replicate (size/2) 0),guid⟩,with_current s current)
          else some (⟨.EFI_SUCCESS,name_size var.name,
            copy_name var.name (copy_name name (replicate (size/2) 0)),var.guid⟩,with_current s current) := by
  rw [name_size] at room
  have terminated : name.chars.length < size/2 := by omega
  obtain ⟨current,still,rounds_on⟩ := @next_round s tidy size (copy_name name (replicate (size/2) 0)) guid 0 name
    (string_at_name terminated) terminated (by rw [vars]; exact known) 0
  refine ⟨current,still,?_⟩
  rw [rounds_on,vars]
  cases (upcoming all guid name).bind (all[·]?) with
  | none => rfl
  | some var => simp

/-- The loop from the point where `todo` is still to come. -/
theorem collect_loop_collected {todo : List Var} {name : Str} {guid : Guid} {s : Store} (tidy : Tidy s) (vars : s.vars = all)
    (known : name.chars = [] ∨ place Var.key all (guid,name) ≠ none)
    (here : ∃ done, all = done ++ todo ∧ (upcoming all guid name).bind (all[·]?) = todo.head?)
    {rounds : Nat} (enough : todo.length < rounds) (offset : Nat) (kept : List Var) :
    ∃ result current, collect_loop layout mask rounds offset (name_size name) name guid kept s =
        some (result,with_current s current) ∧
      Collected layout mask all offset (name_size name) todo kept s result current := by
  induction rounds generalizing todo name guid s offset kept with
  | zero => exact absurd enough (Nat.not_lt_zero _)
  | succ rounds ih =>
    have closed : layout.EFI_VAR_BUF_SIZE ≤ offset+SIZEOF_VAR_ENTRY+name_size name →
        ¬ Roomy layout mask all offset (name_size name) todo := by
      intro small roomy
      cases todo with
      | nil => exact absurd roomy (not_lt.mpr small)
      | cons var rest => exact absurd roomy.1 (not_lt.mpr small)
    rw [collect_loop]
    by_cases small : layout.EFI_VAR_BUF_SIZE ≤ offset+SIZEOF_VAR_ENTRY+name_size name
    · simp only [if_pos small]
      exact ⟨_,s.current,rfl,tidy,fun roomy => absurd roomy (closed small),fun _ => ⟨_,rfl⟩⟩
    obtain ⟨current,still,rounds_on⟩ := @next_collected _ name guid s tidy vars known
      (layout.EFI_VAR_BUF_SIZE-(offset+SIZEOF_VAR_ENTRY)) (by omega)
    obtain ⟨done,split,something⟩ := here
    rw [something] at rounds_on
    cases todo with
    | nil =>
      simp only [if_neg small,rounds_on,head?_nil]
      refine ⟨_,current,rfl,still,fun _ => ?_,fun stuck => ?_⟩
      · simp [end_of,masked]
      · rw [Roomy] at stuck
        omega
    | cons var rest =>
      rw [length_cons] at enough
      simp only [if_neg small,rounds_on,head?_cons]
      have member : var ∈ s.vars := by rw [vars,split]; simp
      by_cases long : layout.EFI_VAR_BUF_SIZE-(offset+SIZEOF_VAR_ENTRY) < name_size var.name
      · simp only [if_pos long]
        refine ⟨_,current,rfl,still,fun roomy => ?_,fun _ => ⟨_,rfl⟩⟩
        obtain ⟨_,room,_⟩ := roomy
        rw [used_len] at room
        omega
      rw [if_neg long]
      have named : string_at (copy_name var.name (copy_name name (replicate
          ((layout.EFI_VAR_BUF_SIZE-(offset+SIZEOF_VAR_ENTRY))/2) 0))) (name_size var.name/2) = var.name :=
        string_at_name (by rw [name_size_half]; omega)
      obtain ⟨current',reads,again⟩ := get_variable_eq still layout.image var.name var.guid
        (layout.EFI_VAR_BUF_SIZE-(offset+SIZEOF_VAR_ENTRY+name_size var.name)) true 0
      have found : lookup Var.key s.vars (var.guid,var.name) = some var :=
        (lookup_eq_some tidy.distinct).mpr ⟨member,rfl⟩
      have same : (with_current s current).vars = all := vars
      rw [vars] at found
      simp only [named,reads,same,found,reading_collected]
      by_cases large : layout.EFI_VAR_BUF_SIZE-(offset+SIZEOF_VAR_ENTRY+name_size var.name) < read_len all var
      · simp only [if_pos large]
        refine ⟨_,current',rfl,again,fun roomy => ?_,fun _ => ⟨_,rfl⟩⟩
        obtain ⟨_,room,_⟩ := roomy
        rw [used_len] at room
        omega
      simp only [if_neg large]
      have next : (upcoming all var.guid var.name).bind (all[·]?) = rest.head? :=
        upcoming_next (by rw [← vars]; exact tidy.distinct) (tidy.named var member) split
      have known' : var.name.chars = [] ∨ place Var.key all (var.guid,var.name) ≠ none := by
        refine .inr (fun missing => ?_)
        rw [place_eq_none,found] at missing
        cases missing
      have fits : offset+SIZEOF_VAR_ENTRY+name_size name < layout.EFI_VAR_BUF_SIZE ∧
          offset+used_len var.name (read_len all var) ≤ layout.EFI_VAR_BUF_SIZE := by
        rw [used_len]
        omega
      by_cases keep : var.attr &&& mask = mask
      · simp only [if_pos keep]
        obtain ⟨result,current'',loops,collected⟩ := @ih rest var.name var.guid (with_current s current') again vars known'
          ⟨done ++ [var],by simp [split],next⟩ (by omega)
          (roundUp (offset+SIZEOF_VAR_ENTRY+name_size var.name+read_len all var) 8)
          (kept ++ [⟨var.guid,var.name,var.attr,var.time,(as_read layout all var).data⟩])
        have offsets : roundUp (offset+SIZEOF_VAR_ENTRY+name_size var.name+read_len all var) 8 =
            after_var mask all offset var := by
          rw [after_var,if_pos keep,used_len]
          congr 1
          omega
        have entry : (⟨var.guid,var.name,var.attr,var.time,(as_read layout all var).data⟩ : Var) = as_read layout all var := by
          rw [as_read]
          split <;> rfl
        refine ⟨result,current'',loops,collected.tidy,fun roomy => ?_,fun stuck => ?_⟩
        · rw [collected.roomy (by rw [offsets]; exact roomy.2.2),masked_cons,if_pos keep,offsets,entry]
          simp [end_of]
        · refine collected.stuck (fun roomy => stuck ⟨fits.1,fits.2,?_⟩)
          rwa [← offsets]
      · simp only [if_neg keep]
        obtain ⟨result,current'',loops,collected⟩ := @ih rest var.name var.guid (with_current s current') again vars known'
          ⟨done ++ [var],by simp [split],next⟩ (by omega) offset kept
        have offsets : after_var mask all offset var = offset := by
          rw [after_var,if_neg keep]
        refine ⟨result,current'',loops,collected.tidy,fun roomy => ?_,fun stuck => ?_⟩
        · have later := roomy.2.2
          rw [offsets] at later
          rw [collected.roomy later,masked_cons,if_neg keep]
          simp [end_of,offsets]
        · refine collected.stuck (fun roomy => stuck ⟨fits.1,fits.2,?_⟩)
          rwa [offsets]

/-- The collector returns; of the store it changes the cache at most. -/
theorem collect_collected {s : Store} (tidy : Tidy s) :
    ∃ result current, efi_var_collect layout s mask true = some (result,with_current s current) ∧
      Tidy (with_current s current) ∧
      (Roomy layout mask s.vars SIZEOF_VAR_FILE 2 s.vars →
        result = .ok (file_of layout (end_of mask s.vars SIZEOF_VAR_FILE s.vars)
          ((masked mask s.vars).map (as_read layout s.vars)))) ∧
      (¬ Roomy layout mask s.vars SIZEOF_VAR_FILE 2 s.vars → ∃ status, result = .error status) := by
  obtain ⟨result,current,loops,collected⟩ := collect_loop_collected layout mask s.vars tidy rfl
    (.inl (rfl : (u []).chars = [])) ⟨[],rfl,upcoming_first s.vars 0 rfl⟩ (Nat.lt_succ_self _) SIZEOF_VAR_FILE []
  have initial : name_size (u []) = 2 := rfl
  rw [initial] at loops collected
  refine ⟨result.map fun (len,kept) => file_of layout len kept,current,?_,collected.tidy,fun roomy => ?_,fun stuck => ?_⟩
  · rw [efi_var_collect,if_neg (by simp),loops]
    rfl
  · rw [collected.roomy roomy]
    rfl
  · obtain ⟨status,failed⟩ := collected.stuck stuck
    rw [failed]
    exact ⟨status,rfl⟩

theorem collect_returns {s : Store} (tidy : Tidy s) (calloc : Bool) :
    ∃ result current, efi_var_collect layout s mask calloc = some (result,with_current s current) ∧
      Tidy (with_current s current) := by
  cases calloc with
  | false => exact ⟨_,s.current,rfl,tidy⟩
  | true =>
    obtain ⟨result,current,returns,still,_⟩ := collect_collected layout mask tidy
    exact ⟨result,current,returns,still⟩

end collecting

def Filled (vars : List Var) : Prop := ∀ var ∈ vars, var.data ≠ []

/-- A variable at the end that was not there. -/
theorem Tidy.append_one {s : Store} {current : Option Nat} (still : Tidy (with_current s current)) {var : Var}
    (some_name : var.name.chars ≠ []) (missing : lookup Var.key s.vars var.key = none) : Tidy ⟨s.vars ++ [var],current⟩ := by
  refine ⟨distinct_append_one.mpr ⟨still.distinct,lookup_eq_none.mp missing⟩,?_,?_⟩
  · intro other member
    rcases mem_append.mp member with kept | added
    · exact still.named other kept
    · rw [mem_singleton.mp added]
      exact some_name
  · intro i cached
    have inside : i < s.vars.length := still.inside i cached
    simp only [length_append]
    omega

section restoring
variable (layout : Layout) (safe : Bool)

theorem restore_loop_tidy {vars : List Var} (named : ∀ var ∈ vars, var.name.chars ≠ []) {s : Store} (tidy : Tidy s)
    (filled : Filled s.vars) : Tidy (restore_loop layout safe vars s) ∧ Filled (restore_loop layout safe vars s).vars := by
  induction vars generalizing s with
  | nil => exact ⟨tidy,filled⟩
  | cons var rest ih =>
    have rest_named : ∀ var ∈ rest, var.name.chars ≠ [] := fun other member => named other (mem_cons_of_mem _ member)
    have some_name : var.name.chars ≠ [] := named var mem_cons_self
    rw [restore_loop]
    split
    · exact ih rest_named tidy filled
    split
    · exact ih rest_named tidy filled
    next some_data =>
      obtain ⟨current,finds,still⟩ := find_eq_scan tidy var.guid var.name
      simp only [finds]
      split
      · exact ih rest_named still filled
      next missing =>
        have inserted := ins_inserted still layout.EFI_VAR_BUF_SIZE var.name var.guid var.attr var.data [] var.time false
        rw [append_nil] at inserted
        generalize efi_var_mem_ins layout.EFI_VAR_BUF_SIZE (with_current s current) var.name var.guid var.attr var.data []
          var.time false = result at inserted
        have nowhere : place Var.key s.vars (var.guid,var.name) = none := by simpa using missing
        have unknown : lookup Var.key s.vars var.key = none := place_eq_none.mp nowhere
        cases inserted with
        | same current' still' plain found | full current' still' large differs => exact ih rest_named still' filled
        | added current' still' fits differs =>
          refine ih rest_named (still'.append_one some_name unknown) ?_
          intro other member
          rcases mem_append.mp member with kept | added
          · exact filled other kept
          · rw [mem_singleton.mp added]
            exact some_data

theorem restore_tidy {buf : VarFile} (named : ∀ var ∈ buf.vars, var.name.chars ≠ []) {s : Store} (tidy : Tidy s)
    (filled : Filled s.vars) : Tidy (efi_var_restore layout s buf safe).2 ∧ Filled (efi_var_restore layout s buf safe).2.vars := by
  rw [efi_var_restore]
  split
  · exact ⟨tidy,filled⟩
  · exact restore_loop_tidy layout safe named tidy filled

end restoring

end UBoot.EfiVar
