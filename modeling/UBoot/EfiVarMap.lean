import UBoot.EfiVariable
import UBoot.Runs

/-!
The variable services without secure boot, against a map from names to attributes
and data. The map is kept beside the store: a call that succeeds changes it as the
call says, any other call leaves it. Along every run that creates no variable by
appending to it the services answer from the map.
-/
namespace UBoot.EfiVar
open UBoot.Words UBoot.KeyedLists UBoot.Runs Option Function

abbrev Contents := Guid × Str → Option (Attributes × List UInt8)

def requested (r : Request) (old : Option (Attributes × List UInt8)) : Option (Attributes × List UInt8) :=
  if r.delete then none
  else
    match old with
    | some (attributes,data) => some (attributes,if r.append then data ++ r.data else r.data)
    | none => if r.append ∧ r.data = [] then none else some (r.attributes &&& ~~~EFI_VARIABLE_APPEND_WRITE,r.data)

/-- The status, the attributes, the size and the data with which a variable is
    read. -/
def answer (data_size : Nat) (data : Bool) : Option (Attributes × List UInt8) → Status × Option Attributes × Nat × Option (List UInt8)
  | none => (.EFI_NOT_FOUND,none,data_size,none)
  | some (attributes,bytes) =>
    if data_size < bytes.length then (.EFI_BUFFER_TOO_SMALL,some attributes,bytes.length,none)
    else if data = false then (.EFI_INVALID_PARAMETER,some attributes,bytes.length,none)
    else (.EFI_SUCCESS,some attributes,bytes.length,some bytes)

inductive Call where
  | set (r : Request)
  | get (variable_name : Str) (vendor : Guid) (data_size : Nat) (data : Bool)

structure Tracked where
  state : State
  contents : Contents

section tracking
variable (build : Build) (crypto : Crypto)

def track (t : Tracked) : Call → Tracked
  | .set r =>
    match efi_set_variable build crypto t.state r with
    | .value done =>
      ⟨done.state,if done.status = .EFI_SUCCESS then Function.update t.contents r.key (requested r (t.contents r.key)) else t.contents⟩
    | _ => t
  | .get variable_name vendor data_size data => ⟨(efi_get_variable build t.state variable_name vendor data_size data).2,t.contents⟩

/-- A lookup through the cache finds what a scan of the buffer finds. -/
def CacheAgrees (s : Store) : Prop :=
  ∀ guid name, (efi_var_mem_find s guid name).1 = (efi_var_mem_find (with_current s none) guid name).1 ∧
    (efi_var_mem_find s guid name).2.1 = (efi_var_mem_find (with_current s none) guid name).2.1

/-- How a call is to be answered. A request with the attributes of the variable is
    refused for want of room at most. -/
def Answers (t : Tracked) : Call → Prop
  | .set r => ∃ done, efi_set_variable build crypto t.state r = .value done ∧
    (done.status ≠ .EFI_SUCCESS → done.state.store.vars = t.state.store.vars) ∧
    ∀ attributes data, t.contents r.key = some (attributes,data) → r.attributes &&& ~~~EFI_VARIABLE_APPEND_WRITE = attributes →
      done.status = .EFI_SUCCESS ∨ done.status = .EFI_OUT_OF_RESOURCES
  | .get variable_name vendor data_size data =>
    let got := (efi_get_variable build t.state variable_name vendor data_size data).1
    (got.status,got.attributes,got.data_size,got.data) = answer data_size data (t.contents (vendor,variable_name))

end tracking

/-- A request is let through and creates a variable by appending to it. -/
def AppendCreates (build : Build) (s : State) (r : Request) : Prop :=
  r.attributes &&& ~~~EFI_VARIABLE_MASK = 0 ∧ setvariable_allowed r.variable_name r.attributes = none ∧
    r.append = true ∧ r.data ≠ [] ∧ stored s r = none ∧ r.signed = false ∧ r.var_type.from_pk = false ∧
    buf_length s.store.vars+used_len r.variable_name r.data.length ≤ build.EFI_VAR_BUF_SIZE

def Mapped (build : Build) (t : Tracked) : Call → Prop
  | .set r => r.variable_name ≠ VarToFile ∧ ¬ AppendCreates build t.state r
  | .get variable_name _ _ _ => variable_name ≠ VarToFile

instance (build : Build) (s : State) (r : Request) : Decidable (AppendCreates build s r) := by
  unfold AppendCreates
  exact inferInstance

instance (build : Build) (t : Tracked) (call : Call) : Decidable (Mapped build t call) :=
  match call with
  | .set r => inferInstanceAs (Decidable (r.variable_name ≠ VarToFile ∧ ¬ AppendCreates build t.state r))
  | .get variable_name _ _ _ => inferInstanceAs (Decidable (variable_name ≠ VarToFile))

structure Settled (var : Var) : Prop where
  allowed : setvariable_allowed var.name var.attr = none
  mask : var.attr &&& ~~~EFI_VARIABLE_MASK = 0
  no_append : var.attr &&& EFI_VARIABLE_APPEND_WRITE = 0
  unsigned : var.attr &&& EFI_VARIABLE_TIME_BASED_AUTHENTICATED_WRITE_ACCESS = 0
  type : (efi_auth_var_get_type var.name var.guid).from_pk = false

theorem and_kept {attributes attr m : Attributes} (same : attributes &&& ~~~EFI_VARIABLE_APPEND_WRITE = attr)
    (kept : ~~~EFI_VARIABLE_APPEND_WRITE &&& m = m) : attributes &&& m = attr &&& m := by
  rw [← same,BitVec.and_assoc,kept]

theorem without_append {attributes : Attributes} (no_append : attributes &&& EFI_VARIABLE_APPEND_WRITE = 0) :
    attributes &&& ~~~EFI_VARIABLE_APPEND_WRITE = attributes := by
  refine and_eq_self ?_
  rw [BitVec.not_not]
  exact no_append

theorem allowed_again {name : Str} {attributes attr : Attributes} (same : attributes &&& ~~~EFI_VARIABLE_APPEND_WRITE = attr)
    (allowed : setvariable_allowed name attr = none) : setvariable_allowed name attributes = none := by
  have forbidden := and_kept same (m := EFI_VARIABLE_AUTHENTICATED_WRITE_ACCESS ||| EFI_VARIABLE_ENHANCED_AUTHENTICATED_ACCESS)
    (by decide)
  have access := and_kept same (m := EFI_VARIABLE_RUNTIME_ACCESS ||| EFI_VARIABLE_BOOTSERVICE_ACCESS) (by decide)
  have record := and_kept same (m := EFI_VARIABLE_HARDWARE_ERROR_RECORD) (by decide)
  have non_volatile := and_kept same (m := EFI_VARIABLE_NON_VOLATILE) (by decide)
  have runtime := and_kept same (m := EFI_VARIABLE_RUNTIME_ACCESS) (by decide)
  have boot := and_kept same (m := EFI_VARIABLE_BOOTSERVICE_ACCESS) (by decide)
  rw [setvariable_allowed] at allowed ⊢
  rw [forbidden,access,record,non_volatile,runtime,boot]
  have only : attributes &&& EFI_VARIABLE_MASK = EFI_VARIABLE_NON_VOLATILE →
      attr &&& EFI_VARIABLE_MASK = EFI_VARIABLE_NON_VOLATILE := by
    intro only
    rw [← same,BitVec.and_assoc,BitVec.and_comm (~~~EFI_VARIABLE_APPEND_WRITE),← BitVec.and_assoc,only]
    decide
  split_ifs at allowed ⊢ with empty bits runs is_only is_only'
  · exact absurd (only is_only) is_only'
  · rfl

structure Represents (t : Tracked) : Prop where
  tidy : Tidy t.state.store
  contents : ∀ key, (lookup Var.key t.state.store.vars key).map (fun var => (var.attr,var.data)) = t.contents key
  settled : ∀ var ∈ t.state.store.vars, Settled var

section calls
variable {build : Build} {crypto : Crypto} {s : State} {r : Request}

variable {authenticated : Option Nat} {data : List UInt8} {time : Nat}

theorem passes_unsigned (off : build.EFI_SECURE_BOOT = false)
    (passes : Passes build crypto s r true data time authenticated) :
    r.signed = false ∧ data = r.data ∧ authenticated = none := by
  have authentic := passes.authentic
  rw [authentication,if_neg (by simp [off])] at authentic
  split at authentic
  · cases authentic
  next unsigned =>
    cases authentic
    exact ⟨by simpa using unsigned,rfl,rfl⟩

theorem passes_type (off : build.EFI_SECURE_BOOT = false)
    (passes : Passes build crypto s r true data time authenticated) : r.var_type.from_pk = false := by
  by_contra from_pk
  exact unsigned_refused (by simpa using from_pk) (passes_unsigned off passes).1 passes.checked

theorem not_pk (type : r.var_type.from_pk = false) : r.var_type ≠ .EFI_AUTH_VAR_PK := by
  intro is_pk
  rw [is_pk] at type
  cases type

theorem new_var_of_some {var : Var} (found : stored s r = some var) (checked : attribute_check build r true (some var) = none)
    (keeps : r.delete = false) (data : List UInt8) (time : Nat) :
    new_var r (some var) data time = ⟨var.guid,var.name,var.attr,time,if r.append then var.data ++ data else data⟩ := by
  have key : var.key = r.key := (lookup_some found).2
  obtain ⟨guid,name⟩ : var.guid = r.vendor ∧ var.name = r.variable_name := Prod.mk_inj.mp key
  obtain ⟨_,deletes | same⟩ := check_agrees checked
  · rw [keeps] at deletes
    cases deletes
  · rw [new_var]
    by_cases append : r.append = true
    · rw [if_pos append,if_pos append,guid,name,same]
    · have no_append : r.attributes &&& EFI_VARIABLE_APPEND_WRITE = 0 := by simpa [Request.append] using append
      rw [without_append no_append] at same
      rw [if_neg append,if_neg append,guid,name,same]

theorem check_missing (checked : attribute_check build r true none = none) : r.delete = false ∧ (r.append = true → r.data ≠ []) := by
  rw [attribute_check.eq_def] at checked
  simp only at checked
  split at checked
  · cases checked
  next appends =>
    split at checked
    · cases checked
    next keeps => exact ⟨by simpa using keeps,fun append empty => appends ⟨append,empty⟩⟩

theorem new_var_requested {var : Option Var} (found : stored s r = var) (checked : attribute_check build r true var = none)
    (keeps : r.delete = false) (creates : var = none → r.append = false) (time : Nat) :
    requested r (var.map fun var => (var.attr,var.data)) =
      some ((new_var r var r.data time).attr,(new_var r var r.data time).data) := by
  rw [requested.eq_def,if_neg (by simp [keeps])]
  cases var with
  | some var => rw [new_var_of_some found checked keeps,map_some]
  | none =>
    have no_append := creates rfl
    rw [map_none,new_var]
    simp only [no_append]
    rw [if_neg (by simp),without_append (by simpa [Request.append] using no_append)]

theorem new_var_settled (represents : ∀ var ∈ s.store.vars, Settled var) (off : build.EFI_SECURE_BOOT = false) (mask : r.attributes &&& ~~~EFI_VARIABLE_MASK = 0)
    (passes : Passes build crypto s r true data time authenticated) (keeps : r.delete = false)
    (creates : stored s r = none → r.append = false) : Settled (new_var r (stored s r) data time) := by
  cases found : stored s r with
  | some var =>
    have checked := passes.checked
    rw [found] at checked
    obtain ⟨allowed,mask,no_append,unsigned,type⟩ := represents var (lookup_some found).1
    rw [new_var_of_some found checked keeps]
    exact ⟨allowed,mask,no_append,unsigned,type⟩
  | none =>
    have no_append := creates found
    have unsigned := (passes_unsigned off passes).1
    rw [new_var]
    exact ⟨passes.allowed,mask,by simpa [Request.append] using no_append,by simpa [Request.signed] using unsigned,
      passes_type off passes⟩

theorem passed_status (tidy : Tidy s.store) (mask : r.attributes &&& ~~~EFI_VARIABLE_MASK = 0) (passes : Passes build crypto s r true data time authenticated)
    (type : r.var_type ≠ .EFI_AUTH_VAR_PK) {done : Done} (returns : efi_set_variable build crypto s r = .value done) :
    done.status = .EFI_SUCCESS ∨ done.status = .EFI_OUT_OF_RESOURCES := by
  have sets := efi_set_variable_sets build crypto tidy mask
  rw [returns] at sets
  generalize value : Ret.value done = ret at sets
  cases sets with
  | refused status current still reason => exact absurd reason (not_refused passes)
  | null => cases value
  | full => cases value; exact .inr rfl
  | same => cases value; exact .inl rfl
  | deleted old data time authenticated again deletes found current still _ follows =>
    obtain ⟨_,changes,_⟩ := @changed_returns build (with_store s _) still
      (efi_init_secure_state build (efi_set_variable_int build crypto 0)) r type old.attr authenticated
    rw [follows,changes] at value
    cases value
    exact .inl rfl
  | stored data time authenticated again keep fits current still _ follows =>
    obtain ⟨_,changes,_⟩ := @changed_returns build (with_store s _) still
      (efi_init_secure_state build (efi_set_variable_int build crypto 0)) r type r.attributes authenticated
    rw [follows,changes] at value
    cases value
    exact .inl rfl

end calls

section tracked
variable {build : Build} {crypto : Crypto} {t : Tracked} (represents : Represents t)
include represents

theorem represents_cache {current : Option Nat} (still : Tidy (with_current t.state.store current)) :
    Represents ⟨with_store t.state (with_current t.state.store current),t.contents⟩ :=
  ⟨still,represents.contents,represents.settled⟩

theorem represents_update {key : Guid × Str} (new : Option Var) (same : ∀ var ∈ new, var.key = key)
    (settled : ∀ var ∈ new, Settled var) {current : Option Nat}
    (tidy : Tidy ⟨updated t.state.store.vars (place Var.key t.state.store.vars key) new,current⟩) :
    Represents ⟨with_store t.state ⟨updated t.state.store.vars (place Var.key t.state.store.vars key) new,current⟩,
      update t.contents key (new.map fun var => (var.attr,var.data))⟩ := by
  refine ⟨tidy,fun other => ?_,fun var member => ?_⟩
  · show (lookup Var.key (updated _ _ _) other).map _ = update t.contents key _ other
    rw [updated_lookup represents.tidy new same other]
    by_cases is_key : key = other
    · subst is_key
      rw [if_pos rfl,update_self]
    · rw [if_neg is_key,update_of_ne (Ne.symm is_key)]
      exact represents.contents other
  · rcases List.mem_append.mp member with kept | added
    · cases found : place Var.key t.state.store.vars key with
      | none =>
        rw [found] at kept
        exact represents.settled var kept
      | some i =>
        rw [found] at kept
        exact represents.settled var ((List.eraseIdx_sublist _ i).mem kept)
    · exact settled var (by simpa using added)

theorem same_attributes_pass {r : Request} {attributes : Attributes} {data : List UInt8}
    (known : t.contents r.key = some (attributes,data)) (same : r.attributes &&& ~~~EFI_VARIABLE_APPEND_WRITE = attributes) :
    r.attributes &&& ~~~EFI_VARIABLE_MASK = 0 ∧ ∃ time, Passes build crypto t.state r true r.data time none := by
  have contents := represents.contents r.key
  rw [known] at contents
  cases found : lookup Var.key t.state.store.vars r.key with
  | none =>
    rw [found] at contents
    cases contents
  | some var =>
    rw [found,map_some,Option.some.injEq,Prod.mk.injEq] at contents
    obtain ⟨member,key⟩ := lookup_some found
    obtain ⟨guid,name⟩ : var.guid = r.vendor ∧ var.name = r.variable_name := Prod.mk_inj.mp key
    obtain ⟨allowed,mask,no_append,unsigned,type⟩ := represents.settled var member
    rw [contents.1] at allowed mask unsigned
    rw [name] at allowed
    have is_unsigned : r.signed = false := by
      have bits := and_kept same (m := EFI_VARIABLE_TIME_BASED_AUTHENTICATED_WRITE_ACCESS) (by decide)
      rw [unsigned] at bits
      simp [Request.signed,bits]
    have not_pk : r.var_type.from_pk = false := by
      rw [Request.var_type,← guid,← name]
      exact type
    have read_write : var.attr &&& EFI_VARIABLE_READ_ONLY = 0 := by
      have inside : EFI_VARIABLE_READ_ONLY = ~~~EFI_VARIABLE_MASK &&& EFI_VARIABLE_READ_ONLY := by decide
      rw [contents.1,inside,← BitVec.and_assoc,mask]
      decide
    refine ⟨?_,(stored t.state r).elim 0 Var.time,allowed_again same allowed,?_,?_⟩
    · rw [and_kept same (m := ~~~EFI_VARIABLE_MASK) (by decide)]
      exact mask
    · rw [contents.1] at read_write
      rw [stored,found,attribute_check.eq_def]
      simp [read_write,not_pk,contents.1,same]
    · rw [unsigned_authentic build crypto is_unsigned]

/-- What a request comes to: the map and the variables stay, or both change as
    requested. -/
theorem set_represents (off : build.EFI_SECURE_BOOT = false) {r : Request} (kept : ¬ AppendCreates build t.state r) :
    ∃ done, efi_set_variable build crypto t.state r = .value done ∧
      (done.status ≠ .EFI_SUCCESS → done.state.store.vars = t.state.store.vars) ∧
      Represents ⟨done.state,if done.status = .EFI_SUCCESS then update t.contents r.key (requested r (t.contents r.key))
        else t.contents⟩ := by
  have contents : (stored t.state r).map (fun var => (var.attr,var.data)) = t.contents r.key := represents.contents r.key
  -- Nothing changes; a success stands for a request that changes nothing.
  have stays (status : Status) {current : Option Nat} (still : Tidy (with_current t.state.store current))
      (idle : status = .EFI_SUCCESS → requested r (t.contents r.key) = t.contents r.key) :
      Represents ⟨with_store t.state (with_current t.state.store current),
        if status = .EFI_SUCCESS then update t.contents r.key (requested r (t.contents r.key)) else t.contents⟩ := by
    split
    next success =>
      rw [idle success,update_eq_self]
      exact represents_cache represents still
    next => exact represents_cache represents still
  by_cases outside : r.attributes &&& ~~~EFI_VARIABLE_MASK ≠ 0
  · refine ⟨⟨.EFI_INVALID_PARAMETER,t.state,none⟩,?_,fun _ => rfl,?_⟩
    · rw [efi_set_variable,if_pos outside]
    · exact stays .EFI_INVALID_PARAMETER represents.tidy (fun success => by cases success)
  have mask : r.attributes &&& ~~~EFI_VARIABLE_MASK = 0 := by simpa using outside
  have sets := efi_set_variable_sets build crypto represents.tidy mask
  generalize efi_set_variable build crypto t.state r = ret at sets
  -- What is let through has no signature, and is deleted on request only.
  have deletes_only {data : List UInt8} {time : Nat} {authenticated : Option Nat}
      (passes : Passes build crypto t.state r true data time authenticated) (deletes : Deletes r data authenticated) :
      r.delete = true := by
    rcases deletes with deletes | ⟨signed,_⟩
    · exact deletes
    · exact absurd (passes_unsigned off passes).2.2 signed
  have keeps_only {data : List UInt8} {authenticated : Option Nat} (keep : ¬ Deletes r data authenticated) : r.delete = false := by
    by_contra deletes
    exact keep (.inl (by simpa using deletes))
  cases sets with
  | refused status current still reason =>
    refine ⟨_,rfl,fun _ => rfl,stays status still (fun success => ?_)⟩
    subst success
    rcases reason with forbidden | ⟨_,checked | ⟨_,failed⟩⟩
    · exact absurd forbidden (allowed_not_success _ _)
    · -- Appending nothing to nothing changes nothing.
      obtain ⟨missing,append,empty⟩ := check_success checked
      rw [missing,map_none] at contents
      have keeps : r.delete = false := by simp [Request.delete,append]
      rw [← contents,requested.eq_def,if_neg (by simp [keeps])]
      simp [append,empty]
    · rw [authentication,if_neg (by simp [off])] at failed
      split at failed
      · cases failed
      · cases failed
  | null data time authenticated passes deletes missing =>
    have checked := passes.checked
    rw [missing] at checked
    rw [(check_missing checked).1] at deletes_only
    cases deletes_only passes deletes
  | full data time authenticated passes keep large differs current still =>
    exact ⟨_,rfl,fun _ => rfl,stays .EFI_OUT_OF_RESOURCES still (fun success => by cases success)⟩
  | same data time authenticated passes keep found current still =>
    obtain ⟨_,rfl,_⟩ := passes_unsigned off passes
    have unchanged := new_var_requested rfl passes.checked (keeps_only keep) (fun missing => by rw [missing] at found; cases found) time
    refine ⟨_,rfl,fun _ => rfl,stays .EFI_SUCCESS still (fun _ => ?_)⟩
    rw [contents] at unchanged
    rw [unchanged,← contents]
    nth_rewrite 3 [found]
    rfl
  | deleted old data time authenticated passes deletes found current still _ follows =>
    obtain ⟨current',changes,still'⟩ := @changed_returns build (with_store t.state ⟨updated t.state.store.vars
      (place Var.key t.state.store.vars r.key) none,current⟩) still (efi_init_secure_state build (efi_set_variable_int build crypto 0))
      r (not_pk (passes_type off passes)) old.attr authenticated
    refine ⟨_,follows.trans changes,fun failed => absurd rfl failed,?_⟩
    have gone : requested r (t.contents r.key) = none := by rw [requested.eq_def,if_pos (deletes_only passes deletes)]
    rw [if_pos rfl,gone]
    exact represents_update represents none (by simp) (by simp) still'
  | stored data time authenticated passes keep fits current still _ follows =>
    obtain ⟨unsigned,rfl,_⟩ := passes_unsigned off passes
    obtain ⟨current',changes,still'⟩ := @changed_returns build (with_store t.state ⟨updated t.state.store.vars
      (place Var.key t.state.store.vars r.key) (some (new_var r (stored t.state r) r.data time)),current⟩) still
      (efi_init_secure_state build (efi_set_variable_int build crypto 0)) r (not_pk (passes_type off passes)) r.attributes
      authenticated
    have creates : stored t.state r = none → r.append = false := by
      intro missing
      by_contra append
      have appends : r.append = true := by simpa using append
      have checked := passes.checked
      rw [missing] at checked fits
      exact kept ⟨mask,passes.allowed,appends,(check_missing checked).2 appends,missing,unsigned,passes_type off passes,fits⟩
    have new := new_var_requested rfl passes.checked (keeps_only keep) creates time
    refine ⟨_,follows.trans changes,fun failed => absurd rfl failed,?_⟩
    rw [contents] at new
    rw [if_pos rfl,new]
    exact represents_update represents (some (new_var r (stored t.state r) r.data time)) (by simpa using new_var_key r _ _ _)
      (by simpa using new_var_settled represents.settled off mask passes (keeps_only keep) creates) still'

theorem get_answers {variable_name : Str} (other : variable_name ≠ VarToFile) (vendor : Guid) (data_size : Nat) (data : Bool) :
    Answers build crypto t (.get variable_name vendor data_size data) ∧
      Represents ⟨(efi_get_variable build t.state variable_name vendor data_size data).2,t.contents⟩ := by
  obtain ⟨current,gets,still⟩ := get_variable_eq represents.tidy build.image variable_name vendor data_size data 0
  constructor
  · rw [Answers,← represents.contents,efi_get_variable,gets]
    cases found : lookup Var.key t.state.store.vars (vendor,variable_name) with
    | none => rfl
    | some var =>
      have inside : var.attr &&& EFI_VARIABLE_MASK = var.attr :=
        and_eq_self (represents.settled var (lookup_some found).1).mask
      simp only [reading,if_neg other,map_some,answer,ne_eq,not_true_eq_false,false_and,if_false]
      split
      · simp [inside]
      split
      · simp [inside]
      · simp [inside]
  · rw [efi_get_variable,gets]
    exact represents_cache represents still

theorem represents_cache_agrees : CacheAgrees t.state.store := by
  intro guid name
  have plain : Tidy (with_current t.state.store none) := ⟨represents.tidy.distinct,represents.tidy.named,by simp [with_current]⟩
  obtain ⟨current,finds,_⟩ := find_eq_scan represents.tidy guid name
  obtain ⟨current',scans,_⟩ := find_eq_scan plain guid name
  rw [finds,scans]
  exact ⟨rfl,rfl⟩

/-- One call is answered from the map and leaves it that of the store. -/
theorem call_answers (off : build.EFI_SECURE_BOOT = false) {call : Call} (mapped : Mapped build t call) :
    Answers build crypto t call ∧ Represents (track build crypto t call) := by
  cases call with
  | get variable_name vendor data_size data => exact get_answers represents mapped vendor data_size data
  | set r =>
    obtain ⟨done,returns,failed,after⟩ := @set_represents build crypto t represents off r mapped.2
    refine ⟨⟨done,returns,failed,fun attributes data known same => ?_⟩,?_⟩
    · obtain ⟨mask,time,passes⟩ := @same_attributes_pass build crypto t represents r attributes data known same
      exact passed_status represents.tidy mask passes (not_pk (passes_type off passes)) returns
    · rw [track,returns]
      exact after

end tracked

def no_variables (efi_secure_boot : Bool) (efi_secure_mode : SecureMode) : Tracked :=
  ⟨⟨⟨[],none⟩,efi_secure_boot,efi_secure_mode⟩,fun _ => none⟩

theorem no_variables_represent (efi_secure_boot : Bool) (efi_secure_mode : SecureMode) :
    Represents (no_variables efi_secure_boot efi_secure_mode) := by
  constructor
  · exact ⟨List.Pairwise.nil,by simp [no_variables],by simp [no_variables]⟩
  · intro key
    rfl
  · intro var member
    cases member

/-- The services answer from the map, call after call; there is never more than
    one entry of a name, and the cache never misleads a lookup. -/
theorem services_refine_map {build : Build} {crypto : Crypto} (off : build.EFI_SECURE_BOOT = false) (efi_secure_boot : Bool)
    (efi_secure_mode : SecureMode) (calls : List Call)
    (mapped : Along (track build crypto) (Mapped build) (no_variables efi_secure_boot efi_secure_mode) calls) :
    Along (track build crypto) (Answers build crypto) (no_variables efi_secure_boot efi_secure_mode) calls ∧
      ∀ n, Distinct Var.key (run (track build crypto) (no_variables efi_secure_boot efi_secure_mode) (calls.take n)).state.store.vars ∧
        CacheAgrees (run (track build crypto) (no_variables efi_secure_boot efi_secure_mode) (calls.take n)).state.store := by
  have start := no_variables_represent efi_secure_boot efi_secure_mode
  have keeps : ∀ t call, Represents t → Mapped build t call → Represents (track build crypto t call) :=
    fun t call represents mapped => (call_answers represents off mapped).2
  refine ⟨along_of_invariant keeps (fun t call represents mapped => (call_answers represents off mapped).1) start mapped,?_⟩
  intro n
  rw [← List.take_append_drop n calls,along_append] at mapped
  have represents := invariant keeps start mapped.1
  exact ⟨represents.tidy.distinct,represents_cache_agrees represents⟩

/-- A build without secure boot, and a variable of one letter. -/
def plain_build : Build := ⟨⟨131072,fun _ => [],fun _ => 0⟩,false,false,false⟩
def no_crypto : Crypto := ⟨Unit,Unit,fun _ => none,fun _ => none,(),fun _ _ _ => false⟩
def set_v (attributes : Attributes) (data : List UInt8) : Call := .set ⟨u ['v'],1,attributes,data⟩
def get_v : Call := .get (u ['v']) 1 16 true

theorem services_refine_map_append : Along (track plain_build no_crypto) (Answers plain_build no_crypto)
    (no_variables false .EFI_MODE_SETUP) [set_v 7 [1],set_v 0x47 [2],get_v,set_v 0 [],get_v] := by
  have mapped : Along (track plain_build no_crypto) (Mapped plain_build) (no_variables false .EFI_MODE_SETUP)
      [set_v 7 [1],set_v 0x47 [2],get_v,set_v 0 [],get_v] := by decide +kernel
  exact (services_refine_map rfl false .EFI_MODE_SETUP _ mapped).1

/-- A variable that is created by appending keeps the attribute of appending: it is
    read with it, and a request with its other attributes is refused. -/
theorem append_creates_misread :
    ¬ Along (track plain_build no_crypto) (Answers plain_build no_crypto) (no_variables false .EFI_MODE_SETUP)
      [set_v 0x47 [1],get_v] ∧
    ¬ Along (track plain_build no_crypto) (Answers plain_build no_crypto) (no_variables false .EFI_MODE_SETUP)
      [set_v 0x47 [1],set_v 7 [1]] := by
  constructor
  · rintro ⟨_,misread,_⟩
    rw [get_v,Answers] at misread
    revert misread
    decide +kernel
  · rintro ⟨_,⟨done,returns,_,accepted⟩,_⟩
    have status := accepted 7 [1] (by decide +kernel) (by decide +kernel)
    have refused : (match efi_set_variable plain_build no_crypto (track plain_build no_crypto
        (no_variables false .EFI_MODE_SETUP) (set_v 0x47 [1])).state ⟨u ['v'],1,7,[1]⟩ with
      | .value done => decide (done.status = .EFI_INVALID_PARAMETER)
      | _ => false) = true := by decide +kernel
    rw [returns] at refused
    rw [of_decide_eq_true refused] at status
    rcases status with success | full
    · cases success
    · cases full

end UBoot.EfiVar
