import UBoot.EfiSecureState

/-!
Variables that need authentication, while secure boot is enabled. A request is
authenticated if it is signed itself; whether the variable that it deletes was
signed is not asked. And a request without data may create a variable, or fail to
find one, only after its signature has been checked, and by then the check for a
variable that does not exist has passed.
-/
namespace UBoot.EfiVar
open UBoot.Words UBoot.KeyedLists UBoot.Runs

def time_based (attributes : Attributes) : Bool :=
  attributes &&& EFI_VARIABLE_TIME_BASED_AUTHENTICATED_WRITE_ACCESS ≠ 0

/-- A variable that needs authentication, as it is stored or as it is requested. -/
def NeedsAuthentication (s : State) (r : Request) (key : Guid × Str) : Prop :=
  (∃ var, lookup Var.key s.store.vars key = some var ∧ time_based var.attr = true) ∨ key = r.key ∧ time_based r.attributes = true

/-- The call has authenticated its request, with a time stamp later than the one
    stored. -/
def Authenticated (build : Build) (crypto : Crypto) (s : State) (r : Request) (done : Done) : Prop :=
  ∃ payload time, done.authenticated = some time ∧
    (efi_variable_authenticate build crypto (looked_up s r) r.variable_name r.vendor r.data r.attributes
      ((stored s r).elim 0 Var.time)).1 = .ok (payload,time) ∧
    (stored s r).elim 0 Var.time < time

/-- The call returns, and what it changes of the variables that need
    authentication was authenticated. -/
def Authentic (build : Build) (crypto : Crypto) (s : State) (r : Request) : Prop :=
  ∃ done, efi_set_variable build crypto s r = .value done ∧
    ∀ key, NeedsAuthentication s r key → lookup Var.key done.state.store.vars key ≠ lookup Var.key s.store.vars key →
      key = r.key ∧ Authenticated build crypto s r done

def Allowed (r : Request) : Prop :=
  r.attributes &&& ~~~EFI_VARIABLE_MASK = 0 ∧ setvariable_allowed r.variable_name r.attributes = none

/-- A request that is not signed deletes a variable that was, and that is none
    of the key databases. -/
def DeletesUnsigned (s : State) (r : Request) : Prop :=
  Allowed r ∧ r.delete = true ∧ time_based r.attributes = false ∧ r.var_type.from_pk = false ∧
    ∃ var ∈ stored s r, time_based var.attr = true ∧ var.attr &&& EFI_VARIABLE_READ_ONLY = 0

instance (s : State) (r : Request) : Decidable (DeletesUnsigned s r) := by
  unfold DeletesUnsigned Allowed
  exact inferInstance

/-- A request with a right signature and nothing else is made for a variable that
    does not exist. -/
def SignsNothing (build : Build) (crypto : Crypto) (s : State) (r : Request) : Prop :=
  Allowed r ∧ stored s r = none ∧ time_based r.attributes = true ∧
    ∃ time, (efi_variable_authenticate build crypto (looked_up s r) r.variable_name r.vendor r.data r.attributes 0).1 =
      .ok ([],time)

section authentic
variable {build : Build} {crypto : Crypto} {s : State} {r : Request}

theorem authenticate_some_data {time : Nat} {answer : List UInt8 × Nat}
    (authentic : (efi_variable_authenticate build crypto (looked_up s r) r.variable_name r.vendor r.data r.attributes time).1 =
      .ok answer) : r.data ≠ [] := by
  intro empty
  rw [empty] at authentic
  exact absurd authentic (by simp [efi_variable_authenticate,SIZEOF_TIME])

theorem signed_not_zero (signed : time_based r.attributes = true) : r.attributes ≠ 0 := by
  intro zero
  rw [zero] at signed
  exact absurd signed (by decide)

theorem passes_same {data data' : List UInt8} {time time' : Nat} {authenticated authenticated' : Option Nat}
    (passes : Passes build crypto s r true data time authenticated) (again : Passes build crypto s r true data' time' authenticated') :
    data' = data ∧ time' = time ∧ authenticated' = authenticated := by
  have same := passes.authentic.symm.trans again.authentic
  cases same
  exact ⟨rfl,rfl,rfl⟩

theorem unsigned_passes (unsigned : DeletesUnsigned s r) :
    Passes build crypto s r true r.data ((stored s r).elim 0 Var.time) none := by
  obtain ⟨⟨_,allowed⟩,deletes,not_signed,type,var,found,_,writable⟩ := unsigned
  refine ⟨allowed,?_,?_⟩
  · rw [found,attribute_check.eq_def]
    simp [writable,type,deletes]
  · rw [unsigned_authentic build crypto not_signed]

theorem signs_nothing_passes (secure : build.EFI_SECURE_BOOT = true) (nothing : SignsNothing build crypto s r) :
    ∃ time, Passes build crypto s r true [] time (some time) := by
  obtain ⟨⟨_,allowed⟩,missing,signed,time,authentic⟩ := nothing
  have some_data := authenticate_some_data authentic
  refine ⟨time,allowed,?_,?_⟩
  · have keeps : r.delete = false := Request.keeps some_data (signed_not_zero signed)
    have is_signed : r.signed = true := signed
    rw [missing,attribute_check.eq_def]
    simp [some_data,keeps,is_signed]
  · rw [missing,Option.elim_none,authentication,if_pos secure,if_pos (show r.signed = true from signed)]
    generalize efi_variable_authenticate build crypto (looked_up s r) r.variable_name r.vendor r.data r.attributes 0 = result
      at authentic
    obtain ⟨answer,store⟩ := result
    subst authentic
    rfl

theorem unsigned_not_authentic (tidy : Tidy s.store) (unsigned : DeletesUnsigned s r) : ¬ Authentic build crypto s r := by
  rintro ⟨done,returns,authentic⟩
  have passes := @unsigned_passes build crypto s r unsigned
  obtain ⟨⟨mask,_⟩,deletes,_,type,var,found,signed,_⟩ := unsigned
  have other : r.var_type ≠ .EFI_AUTH_VAR_PK := by
    intro is_pk
    rw [is_pk] at type
    cases type
  have sets := efi_set_variable_sets build crypto tidy mask
  rw [returns] at sets
  generalize value : Ret.value done = ret at sets
  cases sets with
  | refused status current still reason => exact not_refused passes reason
  | null data time authenticated again _ missing =>
    rw [found] at missing
    cases missing
  | full data time authenticated again keep large differs current still => exact keep (.inl deletes)
  | same data time authenticated again keep found current still => exact keep (.inl deletes)
  | stored data time authenticated again keep fits current still _ follows => exact keep (.inl deletes)
  | deleted old data time authenticated again _ _ current still _ follows =>
    obtain ⟨_,_,rfl⟩ := passes_same passes again
    obtain ⟨current',changes,_⟩ := @changed_returns build (with_store s ⟨updated s.store.vars
      (place Var.key s.store.vars r.key) none,current⟩) still (efi_init_secure_state build (efi_set_variable_int build crypto 0))
      r other old.attr none
    rw [changes] at follows
    rw [follows] at value
    cases value
    obtain ⟨_,_,_,stamped,_⟩ := authentic r.key (.inl ⟨var,found,signed⟩) (by
      rw [show lookup Var.key s.store.vars r.key = some var from found]
      refine ne_of_eq_of_ne ((updated_lookup tidy none (by simp) r.key).trans (if_pos rfl)) (by simp))
    cases stamped

theorem signs_nothing_null (secure : build.EFI_SECURE_BOOT = true) (tidy : Tidy s.store) (nothing : SignsNothing build crypto s r) :
    efi_set_variable build crypto s r = .null_dereference := by
  obtain ⟨time,passes⟩ := signs_nothing_passes secure nothing
  obtain ⟨⟨mask,_⟩,missing,_⟩ := nothing
  have sets := efi_set_variable_sets build crypto tidy mask
  have deletes {data : List UInt8} {time' : Nat} {authenticated : Option Nat}
      (again : Passes build crypto s r true data time' authenticated) : Deletes r data authenticated := by
    obtain ⟨rfl,_,rfl⟩ := passes_same passes again
    exact .inr ⟨by simp,rfl⟩
  generalize efi_set_variable build crypto s r = ret at sets
  cases sets with
  | refused status current still reason => exact (not_refused passes reason).elim
  | null data time authenticated again _ _ => rfl
  | full data time authenticated again keep large differs current still => exact absurd (deletes again) keep
  | same data time authenticated again keep found current still => exact absurd (deletes again) keep
  | stored data time authenticated again keep fits current still _ follows => exact absurd (deletes again) keep
  | deleted old data time authenticated again _ found current still _ follows =>
    rw [missing] at found
    cases found

theorem change_signed (mask : r.attributes &&& ~~~EFI_VARIABLE_MASK = 0) {data : List UInt8} {time : Nat}
    {authenticated : Option Nat} (passes : Passes build crypto s r true data time authenticated)
    (no_delete : ¬ DeletesUnsigned s r) (needs : NeedsAuthentication s r r.key) : time_based r.attributes = true := by
  by_contra not_signed
  have unsigned : time_based r.attributes = false := by simpa using not_signed
  rcases needs with ⟨var,found,signed⟩ | ⟨_,signed⟩
  · have is_stored : stored s r = some var := found
    have type : r.var_type.from_pk = false := by
      by_contra from_pk
      exact unsigned_refused (by simpa using from_pk) unsigned passes.checked
    have checked := passes.checked
    rw [is_stored] at checked
    obtain ⟨writable,deletes | same⟩ := check_agrees checked
    · exact no_delete ⟨⟨mask,passes.allowed⟩,deletes,unsigned,type,var,is_stored,signed,writable⟩
    · -- The attributes are those of the request, which is not signed.
      have kept : ~~~EFI_VARIABLE_APPEND_WRITE &&& EFI_VARIABLE_TIME_BASED_AUTHENTICATED_WRITE_ACCESS =
          EFI_VARIABLE_TIME_BASED_AUTHENTICATED_WRITE_ACCESS := by decide
      rw [same,time_based,BitVec.and_assoc,kept] at signed
      exact not_signed signed
  · exact not_signed signed

theorem passes_authenticated (tidy : Tidy s.store) (enabled : s.efi_secure_boot = true)
    (mask : r.attributes &&& ~~~EFI_VARIABLE_MASK = 0) {data : List UInt8} {time : Nat} {authenticated : Option Nat}
    (passes : Passes build crypto s r true data time authenticated) (no_delete : ¬ DeletesUnsigned s r)
    (needs : NeedsAuthentication s r r.key) {done : Done} (stamped : done.authenticated = authenticated) :
    Authenticated build crypto s r done := by
  have signed := change_signed mask passes no_delete needs
  rcases passes_authentic build crypto tidy passes with ⟨unsigned,_⟩ | ⟨_,later,authentic,increases⟩
  · exact absurd ((show r.signed = true from signed).symm.trans unsigned) (by simp)
  · exact ⟨data,time,stamped.trans later,authentic,increases enabled⟩

theorem changed_frame (secure : build.EFI_SECURE_BOOT = true) {init : State → Ret} (tidy : Tidy s.store) (r : Request)
    (attributes : Attributes) (authenticated : Option Nat) :
    ∃ done, efi_variable_changed build (efi_init_secure_state build (set_variable build crypto init)) s r attributes authenticated =
        .value done ∧ done.authenticated = authenticated ∧ Tidy done.state.store ∧
      ∀ key var, lookup Var.key s.store.vars key = some var → time_based var.attr = true →
        lookup Var.key done.state.store.vars key = some var := by
  by_cases is_pk : r.var_type = .EFI_AUTH_VAR_PK
  · obtain ⟨done,current,initialized,still,changes⟩ := changed_initialized build crypto init secure tidy is_pk attributes
      authenticated
    refine ⟨_,changes,rfl,still,fun key var found signed => ?_⟩
    have needs : var.attr &&& EFI_VARIABLE_TIME_BASED_AUTHENTICATED_WRITE_ACCESS ≠ 0 := by simpa [time_based] using signed
    by_cases audit : mode_of s.store.vars = .EFI_MODE_AUDIT
    · exact (initialized.audit audit).2.signed key var found needs
    · exact (initialized.follows audit).frame.signed key var found needs
  · obtain ⟨current,changes,still⟩ := changed_returns build tidy is_pk attributes authenticated
    exact ⟨_,changes,rfl,still,fun _ _ found _ => found⟩

theorem update_authentic (secure : build.EFI_SECURE_BOOT = true) (enabled : s.efi_secure_boot = true) (tidy : Tidy s.store)
    (mask : r.attributes &&& ~~~EFI_VARIABLE_MASK = 0) {data : List UInt8} {time : Nat} {authenticated : Option Nat}
    (passes : Passes build crypto s r true data time authenticated) (no_delete : ¬ DeletesUnsigned s r) (new : Option Var)
    (same : ∀ var ∈ new, var.key = r.key) {current : Option Nat}
    (still : Tidy ⟨updated s.store.vars (place Var.key s.store.vars r.key) new,current⟩) {attributes : Attributes}
    (returns : efi_set_variable build crypto s r = efi_variable_changed build
      (efi_init_secure_state build (efi_set_variable_int build crypto 0))
      (with_store s ⟨updated s.store.vars (place Var.key s.store.vars r.key) new,current⟩) r attributes authenticated) :
    Authentic build crypto s r := by
  obtain ⟨done,changes,stamped,_,frame⟩ := @changed_frame build crypto (with_store s
    ⟨updated s.store.vars (place Var.key s.store.vars r.key) new,current⟩) secure (fun _ => .deeper) still r attributes authenticated
  refine ⟨done,returns.trans changes,fun key needs changed => ?_⟩
  by_cases is_key : key = r.key
  · subst is_key
    exact ⟨rfl,passes_authenticated tidy enabled mask passes no_delete needs stamped⟩
  · rcases needs with ⟨var,found,signed⟩ | ⟨is_key',_⟩
    · have kept : lookup Var.key (updated s.store.vars (place Var.key s.store.vars r.key) new) key = some var := by
        rw [updated_lookup tidy new same,if_neg (Ne.symm is_key)]
        exact found
      exact absurd ((frame key var kept signed).trans found.symm) changed
    · exact absurd is_key' is_key

theorem step_tidy (secure : build.EFI_SECURE_BOOT = true) (tidy : Tidy s.store) (r : Request) :
    Tidy (step build crypto s r).store := by
  rw [step]
  by_cases outside : r.attributes &&& ~~~EFI_VARIABLE_MASK ≠ 0
  · rw [efi_set_variable,if_pos outside]
    exact tidy
  have sets := efi_set_variable_sets build crypto tidy (not_not.mp outside)
  generalize efi_set_variable build crypto s r = ret at sets ⊢
  cases sets with
  | refused status current still reason => exact still
  | full data time authenticated passes keep large differs current still => exact still
  | same data time authenticated passes keep found current still => exact still
  | null data time authenticated passes deletes missing => exact tidy
  | deleted old data time authenticated passes deletes found current still _ follows =>
    obtain ⟨done,changes,_,still',_⟩ := @changed_frame build crypto (with_store s _) secure (fun _ => .deeper) still r old.attr
      authenticated
    rw [follows,efi_set_variable_int,changes]
    exact still'
  | stored data time authenticated passes keep fits current still _ follows =>
    obtain ⟨done,changes,_,still',_⟩ := @changed_frame build crypto (with_store s _) secure (fun _ => .deeper) still r
      r.attributes authenticated
    rw [follows,efi_set_variable_int,changes]
    exact still'

theorem run_tidy (secure : build.EFI_SECURE_BOOT = true) (started : Started build crypto s) (requests : List Request) :
    Tidy (run (step build crypto) s requests).store :=
  @invariant _ _ (step build crypto) (fun s => Tidy s.store) (fun _ _ => True) (fun _ r tidy _ => step_tidy secure tidy r) _ _
    (started_following secure started).tidy (along_of_forall (fun _ _ => trivial) s requests)

end authentic

/-- Variables that need authentication change through it alone, and a call
    returns, except where a request that is not signed deletes a variable that
    was, or where nothing is signed for a variable that does not exist. -/
theorem authentic_iff {build : Build} {crypto : Crypto} {s : State} (secure : build.EFI_SECURE_BOOT = true)
    (enabled : s.efi_secure_boot = true) (tidy : Tidy s.store) (r : Request) :
    Authentic build crypto s r ↔ ¬ DeletesUnsigned s r ∧ ¬ SignsNothing build crypto s r := by
  constructor
  · intro authentic
    refine ⟨fun unsigned => unsigned_not_authentic tidy unsigned authentic,fun nothing => ?_⟩
    obtain ⟨done,returns,_⟩ := authentic
    rw [signs_nothing_null secure tidy nothing] at returns
    cases returns
  · rintro ⟨no_delete,something⟩
    have unchanged {done : Done} (value : efi_set_variable build crypto s r = .value done)
        (vars : done.state.store.vars = s.store.vars) : Authentic build crypto s r :=
      ⟨done,value,fun _ _ changed => absurd (by rw [vars]) changed⟩
    by_cases outside : r.attributes &&& ~~~EFI_VARIABLE_MASK ≠ 0
    · refine @unchanged ⟨.EFI_INVALID_PARAMETER,s,none⟩ ?_ rfl
      rw [efi_set_variable,if_pos outside]
    have mask : r.attributes &&& ~~~EFI_VARIABLE_MASK = 0 := by simpa using outside
    have sets := efi_set_variable_sets build crypto tidy mask
    generalize returns : efi_set_variable build crypto s r = ret at sets
    cases sets with
    | refused status current still reason => exact unchanged returns rfl
    | full data time authenticated passes keep large differs current still => exact unchanged returns rfl
    | same data time authenticated passes keep found current still => exact unchanged returns rfl
    | null data time authenticated passes deletes missing =>
      exfalso
      rcases passes_authentic build crypto tidy passes with ⟨_,unstamped,_⟩ | ⟨signed,_,authentic,_⟩
      · -- To delete a variable that does not exist is refused earlier.
        rcases deletes with deletes | ⟨stamped,_⟩
        · have checked := passes.checked
          rw [missing,attribute_check.eq_def] at checked
          simp only [deletes] at checked
          split at checked
          · cases checked
          · cases checked
        · exact stamped unstamped
      · rcases deletes with deletes | ⟨_,empty⟩
        · rw [Request.keeps (authenticate_some_data authentic) (signed_not_zero signed)] at deletes
          cases deletes
        · rw [missing,Option.elim_none,empty] at authentic
          exact something ⟨⟨mask,passes.allowed⟩,missing,signed,time,authentic⟩
    | deleted old data time authenticated passes deletes found current still _ follows =>
      exact update_authentic secure enabled tidy mask passes no_delete none (by simp) still (returns.trans follows)
    | stored data time authenticated passes keep fits current still _ follows =>
      exact update_authentic secure enabled tidy mask passes no_delete _
        (by simpa using new_var_key r (stored s r) data time) still (returns.trans follows)

def Ret.returns : Ret → Bool
  | .value _ => true
  | _ => false

/-- A variable of the user that needs authentication, and a request to delete it
    without any. -/
def own_request (second : UInt8) (payload : List UInt8) : Request := ⟨u ['o','w','n'],1,key_attributes,signed_data second payload⟩
def own_delete : Request := ⟨u ['o','w','n'],1,0,[]⟩

theorem authentic_iff_key_update : ∃ s, Started secure_build trusting s ∧
    (run (step secure_build trusting) s [pk_request 1 [7]]).efi_secure_boot = true ∧
    Authentic secure_build trusting (run (step secure_build trusting) s [pk_request 1 [7]]) (pk_request 2 [8]) := by
  obtain ⟨s,started,holds⟩ := @started_of_after secure_build trusting (fun s =>
    (run (step secure_build trusting) s [pk_request 1 [7]]).efi_secure_boot ∧
      stored (run (step secure_build trusting) s [pk_request 1 [7]]) (pk_request 2 [8]) ≠ none ∧
      ¬ DeletesUnsigned (run (step secure_build trusting) s [pk_request 1 [7]]) (pk_request 2 [8])) (by decide +kernel)
  obtain ⟨enabled,there,no_delete⟩ := of_decide_eq_true holds
  exact ⟨s,started,enabled,(authentic_iff rfl enabled (run_tidy rfl started _) _).mpr
    ⟨no_delete,fun nothing => there nothing.2.1⟩⟩

/-- A variable that was made before a platform key was there is deleted by anyone;
    and a signature alone for a key database that does not exist ends the system. -/
theorem unsigned_delete_unauthentic : ∃ s, Started secure_build trusting s ∧
    (run (step secure_build trusting) s [own_request 1 [9],pk_request 2 [7]]).efi_secure_boot = true ∧
    ¬ Authentic secure_build trusting (run (step secure_build trusting) s [own_request 1 [9],pk_request 2 [7]]) own_delete ∧
    ¬ Authentic secure_build trusting (run (step secure_build trusting) s [own_request 1 [9],pk_request 2 [7]])
      ⟨KEK,efi_global_variable_guid,key_attributes,signed_data 3 []⟩ := by
  obtain ⟨s,started,holds⟩ := @started_of_after secure_build trusting (fun s =>
    (run (step secure_build trusting) s [own_request 1 [9],pk_request 2 [7]]).efi_secure_boot ∧
      DeletesUnsigned (run (step secure_build trusting) s [own_request 1 [9],pk_request 2 [7]]) own_delete ∧
      (efi_set_variable secure_build trusting (run (step secure_build trusting) s [own_request 1 [9],pk_request 2 [7]])
        ⟨KEK,efi_global_variable_guid,key_attributes,signed_data 3 []⟩).returns = false) (by decide +kernel)
  obtain ⟨enabled,unsigned,null⟩ := of_decide_eq_true holds
  refine ⟨s,started,enabled,unsigned_not_authentic (run_tidy rfl started _) unsigned,?_⟩
  rintro ⟨done,returns,_⟩
  rw [returns] at null
  cases null

end UBoot.EfiVar
