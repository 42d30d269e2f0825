import UBoot.EfiVariable
import UBoot.Runs

/-!
The secure boot state, `lib/efi_loader/efi_var_common.c`. The mode follows from
the platform key and two further variables whenever the platform key is set; a
transition sets the variables of the state one after another, and each of these
calls can be refused or find no room.
-/
namespace UBoot.EfiVar
open UBoot.Words UBoot.KeyedLists UBoot.Runs List Option

/-- A request as the transitions make it: it needs no authentication, and it
    neither appends nor deletes. -/
structure Plain (r : Request) : Prop where
  allowed : setvariable_allowed r.variable_name r.attributes = none
  type : r.var_type.from_pk = false
  unsigned : r.signed = false
  no_append : r.append = false
  no_delete : r.delete = false

inductive ModeSet (build : Build) (s : State) (r : Request) : Ret → Prop
  | differs (status : Status) (failed : status ≠ .EFI_SUCCESS) (var : Var) (found : stored s r = some var)
      (other : var.attr &&& ~~~EFI_VARIABLE_READ_ONLY ≠ r.attributes &&& ~~~EFI_VARIABLE_READ_ONLY) (current : Option Nat)
      (tidy : Tidy (with_current s.store current)) :
      ModeSet build s r (.value ⟨status,with_store s (with_current s.store current),none⟩)
  | full (large : buf_length s.store.vars+used_len r.variable_name r.data.length > build.EFI_VAR_BUF_SIZE)
      (differs : ∀ var, stored s r = some var → var.attr = r.attributes → var.data ≠ r.data) (current : Option Nat) (tidy : Tidy (with_current s.store current)) :
      ModeSet build s r (.value ⟨.EFI_OUT_OF_RESOURCES,with_store s (with_current s.store current),none⟩)
  | same (var : Var) (found : stored s r = some var) (attr : var.attr = r.attributes) (data : var.data = r.data)
      (current : Option Nat) (tidy : Tidy (with_current s.store current)) :
      ModeSet build s r (.value ⟨.EFI_SUCCESS,with_store s (with_current s.store current),none⟩)
  | set (agrees : ∀ var, stored s r = some var →
        var.attr &&& ~~~EFI_VARIABLE_READ_ONLY = r.attributes &&& ~~~EFI_VARIABLE_READ_ONLY)
      (new : Var) (key : new.key = r.key) (attr : new.attr = r.attributes) (data : new.data = r.data) (current : Option Nat)
      (tidy : Tidy ⟨updated s.store.vars (place Var.key s.store.vars r.key) (some new),current⟩) :
      ModeSet build s r (.value ⟨.EFI_SUCCESS,
        with_store s ⟨updated s.store.vars (place Var.key s.store.vars r.key) (some new),current⟩,none⟩)

section modes
variable (build : Build) (crypto : Crypto) (init : State → Ret)

theorem plain_check {r : Request} (plain : Plain r) (var : Option Var) :
    attribute_check build r false var =
      if ∃ old, var = some old ∧ old.attr &&& ~~~EFI_VARIABLE_READ_ONLY ≠ r.attributes &&& ~~~EFI_VARIABLE_READ_ONLY then
        some .EFI_INVALID_PARAMETER
      else none := by
  rw [attribute_check.eq_def]
  cases var with
  | none => simp [plain.type,plain.no_append,plain.no_delete]
  | some old => simp [plain.type,plain.no_delete]

theorem plain_data {r : Request} (plain : Plain r) (var : Option Var) (time : Nat) :
    (new_var r var r.data time).attr = r.attributes ∧ (new_var r var r.data time).data = r.data := by
  rw [new_var.eq_def]
  cases var <;> simp [plain.no_append]

theorem plain_same {s : State} {r : Request} (plain : Plain r) {var : Var} (found : stored s r = some var)
    (attr : var.attr = r.attributes) (data : var.data = r.data) : new_var r (some var) r.data var.time = var := by
  have key : var.key = r.key := (lookup_some found).2
  obtain ⟨guid,name⟩ : var.guid = r.vendor ∧ var.name = r.variable_name := Prod.mk_inj.mp key
  simp only [new_var,plain.no_append,← guid,← name,← attr,← data]
  rfl

theorem mode_set {s : State} (tidy : Tidy s.store) {r : Request} (plain : Plain r) :
    ModeSet build s r (set_variable build crypto init s r false) := by
  have unsigned (time : Nat) := @unsigned_authentic build crypto (looked_up s r) r plain.unsigned time
  have sets := set_variable_sets build crypto tidy init r false
  have keeps {data : List UInt8} {time : Nat} {authenticated : Option Nat}
      (passes : Passes build crypto s r false data time authenticated) :
      data = r.data ∧ authenticated = none ∧ time = (stored s r).elim 0 Var.time := by
    have authentic := passes.authentic
    rw [unsigned] at authentic
    cases authentic
    exact ⟨rfl,rfl,rfl⟩
  have not_deleted {data : List UInt8} {time : Nat} {authenticated : Option Nat}
      (passes : Passes build crypto s r false data time authenticated) (deletes : Deletes r data authenticated) : False := by
    rcases deletes with deletes | ⟨signed,_⟩
    · rw [plain.no_delete] at deletes
      cases deletes
    · exact signed (keeps passes).2.1
  generalize result : set_variable build crypto init s r false = ret at sets
  cases sets with
  | refused status current still reason =>
    rcases reason with forbidden | ⟨_,checked | ⟨_,failed⟩⟩
    · rw [plain.allowed] at forbidden
      cases forbidden
    · rw [plain_check build plain] at checked
      split at checked
      next differs =>
        obtain ⟨old,found,other⟩ := differs
        cases checked
        exact .differs _ (by decide) old found other current still
      next => cases checked
    · rw [unsigned] at failed
      cases failed
  | null data time authenticated passes deletes missing => exact (not_deleted passes deletes).elim
  | full data time authenticated passes keep large differs current still =>
    obtain ⟨rfl,rfl,rfl⟩ := keeps passes
    rw [(plain_data plain _ _).2] at large
    refine .full large (fun var found attr data => differs plain.no_append ?_) current still
    rw [found,elim_some,plain_same plain found attr data]
  | same data time authenticated passes keep found current still =>
    obtain ⟨rfl,rfl,_⟩ := keeps passes
    obtain ⟨attr,data⟩ := plain_data plain (stored s r) time
    exact .same _ found attr data current still
  | deleted old data time authenticated passes deletes found current still _ follows => exact (not_deleted passes deletes).elim
  | stored data time authenticated passes keep fits current still _ follows =>
    obtain ⟨rfl,rfl,_⟩ := keeps passes
    have agrees : ∀ var, stored s r = some var →
        var.attr &&& ~~~EFI_VARIABLE_READ_ONLY = r.attributes &&& ~~~EFI_VARIABLE_READ_ONLY := by
      intro var found
      by_contra other
      have checked := passes.checked
      rw [plain_check build plain,if_pos ⟨var,found,other⟩] at checked
      cases checked
    have other : r.var_type ≠ .EFI_AUTH_VAR_PK := by
      intro is_pk
      have type := plain.type
      rw [is_pk] at type
      cases type
    obtain ⟨attr,data⟩ := plain_data plain (stored s r) time
    obtain ⟨current',returns,still'⟩ := @changed_returns build (with_store s ⟨updated s.store.vars
      (place Var.key s.store.vars r.key) (some (new_var r (stored s r) r.data time)),current⟩) still init r other r.attributes none
    rw [follows,returns]
    exact .set agrees _ (new_var_key r _ _ _) attr data current' still'

end modes

def Ret.Ends (ret : Ret) (P : Done → Prop) : Prop := ∃ done, ret = .value done ∧ P done

variable {attributes : Attributes} {current : Option Nat} {data : List UInt8} {name : Str}
    {names : List Str} {ret : Ret}

theorem next_ends {rest : State → Ret} {P Q : Done → Prop} (ends : ret.Ends P)
    (goes_on : ∀ done, P done → done.status = .EFI_SUCCESS → (rest done.state).Ends Q)
    (stops : ∀ done, P done → done.status ≠ .EFI_SUCCESS → Q done) : (ret.next rest).Ends Q := by
  obtain ⟨⟨status,s,authenticated⟩,rfl,holds⟩ := ends
  by_cases success : status = .EFI_SUCCESS
  · subst success
    exact goes_on _ holds rfl
  · refine ⟨_,?_,stops _ holds success⟩
    cases status with
    | EFI_SUCCESS => exact absurd rfl success
    | _ => rfl

def mode_key (name : Str) : Guid × Str := (efi_global_variable_guid,name)

def mode_names : List Str := [SecureBoot,SetupMode,AuditMode,DeployedMode,VendorKeys]

theorem mode_plain (member : name ∈ mode_names)
    (is_mode : attributes = attributes_ro ∨ attributes = attributes_rw) (value : UInt8) :
    Plain ⟨name,efi_global_variable_guid,attributes,[value]⟩ := by
  have names : ∀ name ∈ mode_names, name.chars ≠ [] ∧
      (efi_auth_var_get_type name efi_global_variable_guid).from_pk = false := by decide +kernel
  obtain ⟨some_name,type⟩ := names name member
  have allowed : setvariable_allowed (u ['n']) attributes = none ∧
      attributes &&& EFI_VARIABLE_TIME_BASED_AUTHENTICATED_WRITE_ACCESS = 0 ∧
      attributes &&& EFI_VARIABLE_APPEND_WRITE = 0 ∧ attributes ≠ 0 := by
    rcases is_mode with rfl | rfl
    · decide +kernel
    · decide +kernel
  obtain ⟨allowed,unsigned,no_append,not_zero⟩ := allowed
  constructor
  · rw [setvariable_allowed,if_neg (by decide +kernel)] at allowed
    rw [setvariable_allowed,if_neg some_name]
    exact allowed
  · exact type
  · simp [Request.signed,unsigned]
  · simp [Request.append,no_append]
  · exact Request.keeps (by simp) not_zero

/-- What setting some variables of the state leaves alone: all others, and every
    variable that needs authentication. -/
structure Frame (names : List Str) (s s' : State) : Prop where
  tidy : Tidy s'.store
  boot : s'.efi_secure_boot = s.efi_secure_boot
  others : ∀ key, (∀ name ∈ names, key ≠ mode_key name) →
    lookup Var.key s'.store.vars key = lookup Var.key s.store.vars key
  signed : ∀ key var, lookup Var.key s.store.vars key = some var →
    var.attr &&& EFI_VARIABLE_TIME_BASED_AUTHENTICATED_WRITE_ACCESS ≠ 0 → lookup Var.key s'.store.vars key = some var

theorem Frame.refl {s : State} (current : Option Nat) (tidy : Tidy (with_current s.store current)) :
    Frame names s (with_store s (with_current s.store current)) :=
  ⟨tidy,rfl,fun _ _ => rfl,fun _ _ found _ => found⟩

theorem Frame.trans {names : List Str} {s s' s'' : State} (first : Frame names s s') (second : Frame names s' s'') :
    Frame names s s'' := by
  refine ⟨second.tidy,second.boot.trans first.boot,fun key other => ?_,fun key var found signed => ?_⟩
  · rw [second.others key other,first.others key other]
  · exact second.signed key var (first.signed key var found signed) signed

theorem Frame.mono {names more : List Str} {s s' : State} (frame : Frame names s s') (subset : names ⊆ more) :
    Frame more s s' :=
  ⟨frame.tidy,frame.boot,fun key other => frame.others key fun name member => other name (subset member),frame.signed⟩

theorem mode_unsigned {attributes attr : Attributes} (is_mode : attributes = attributes_ro ∨ attributes = attributes_rw)
    (agrees : attr &&& ~~~EFI_VARIABLE_READ_ONLY = attributes &&& ~~~EFI_VARIABLE_READ_ONLY) :
    attr &&& EFI_VARIABLE_TIME_BASED_AUTHENTICATED_WRITE_ACCESS = 0 := by
  have inside : EFI_VARIABLE_TIME_BASED_AUTHENTICATED_WRITE_ACCESS =
      ~~~EFI_VARIABLE_READ_ONLY &&& EFI_VARIABLE_TIME_BASED_AUTHENTICATED_WRITE_ACCESS := by decide
  rw [inside,← BitVec.and_assoc,agrees]
  rcases is_mode with rfl | rfl
  · decide
  · decide

theorem mode_attributes (read_only : Prop) [Decidable read_only] :
    (if read_only then attributes_ro else attributes_rw) = attributes_ro ∨
      (if read_only then attributes_ro else attributes_rw) = attributes_rw := by
  split
  · exact .inl rfl
  · exact .inr rfl

section transitions
variable (build : Build) (crypto : Crypto) (init : State → Ret)

theorem mode_frame {s : State} (tidy : Tidy s.store) (member : name ∈ mode_names)
    (is_mode : attributes = attributes_ro ∨ attributes = attributes_rw) (value : UInt8) :
    (set_mode (set_variable build crypto init) s name attributes value).Ends fun done => Frame [name] s done.state := by
  have sets := mode_set build crypto init tidy (mode_plain member is_mode value)
  rw [set_mode]
  generalize set_variable build crypto init s ⟨name,efi_global_variable_guid,attributes,[value]⟩ false = ret at sets
  cases sets with
  | differs status failed var found other current still => exact ⟨_,rfl,.refl current still⟩
  | full large differs current still | same var found attr data current still => exact ⟨_,rfl,.refl current still⟩
  | set agrees new key attr data current still =>
    refine ⟨_,rfl,still,rfl,fun other differs => ?_,fun other var found signed => ?_⟩
    · refine (updated_lookup tidy (some new) (by simpa using key) other).trans (if_neg ?_)
      rintro rfl
      exact differs name (mem_singleton_self name) rfl
    · refine (updated_lookup tidy (some new) (by simpa using key) other).trans ?_
      split
      next same =>
        exact absurd (mode_unsigned is_mode (agrees var (by rw [stored,same]; exact found))) signed
      next => exact found

theorem frame_next {s : State} {rest : State → Ret}
    (ends : ret.Ends fun done => Frame names s done.state)
    (goes_on : ∀ s', Tidy s'.store → (rest s').Ends fun done => Frame names s' done.state) :
    (ret.next rest).Ends fun done => Frame names s done.state := by
  refine next_ends ends (fun done first _ => ?_) (fun done first _ => first)
  obtain ⟨done',sets,second⟩ := goes_on done.state first.tidy
  exact ⟨done',sets,first.trans second⟩

theorem set_mode_frame (subset : names ⊆ mode_names) (member : name ∈ names) (is_mode : attributes = attributes_ro ∨ attributes = attributes_rw) (value : UInt8) {s : State}
    (tidy : Tidy s.store) :
    (set_mode (set_variable build crypto init) s name attributes value).Ends fun done => Frame names s done.state := by
  obtain ⟨done,sets,frame⟩ := mode_frame build crypto init tidy (subset member) is_mode value
  exact ⟨done,sets,frame.mono (by simpa using member)⟩

/-- A variable of the state that users cannot write has this value. -/
def Holds (s : State) (name : Str) (value : UInt8) : Prop :=
  ∃ var, lookup Var.key s.store.vars (mode_key name) = some var ∧ var.attr = attributes_ro ∧ var.data = [value]

theorem Holds.of_frame {s s' : State} (frame : Frame names s s') (other : name ∉ names)
    {value : UInt8} (holds : Holds s name value) : Holds s' name value := by
  obtain ⟨var,found,attr,data⟩ := holds
  refine ⟨var,?_,attr,data⟩
  rw [frame.others (mode_key name),found]
  intro changed member same
  obtain rfl : name = changed := congrArg Prod.snd same
  exact other member

/-- Setting a variable that users cannot write: it succeeds where the variable
    is there and has the value, or there is room for one more. -/
structure ModeHolds (s : State) (name : Str) (value : UInt8) (done : Done) : Prop where
  frame : Frame [name] s done.state
  holds : done.status = .EFI_SUCCESS → Holds done.state name value
  succeeds : ∀ old, Holds s name old → old = value ∨ buf_length s.store.vars+used_len name 1 ≤ build.EFI_VAR_BUF_SIZE →
    done.status = .EFI_SUCCESS
  length : ∀ old, Holds s name old → buf_length done.state.store.vars = buf_length s.store.vars

theorem mode_holds {s : State} (tidy : Tidy s.store) (member : name ∈ mode_names) (value : UInt8) :
    (set_mode (set_variable build crypto init) s name attributes_ro value).Ends (ModeHolds build s name value) := by
  obtain ⟨done,is_set,frame⟩ := mode_frame build crypto init tidy member (.inl rfl) value
  refine ⟨done,is_set,?_⟩
  have sets := mode_set build crypto init tidy (mode_plain member (.inl rfl) value)
  rw [set_mode] at is_set
  rw [is_set] at sets
  cases sets with
  | differs status failed var found other current still =>
    refine ⟨frame,fun success => absurd success failed,fun old holds _ => ?_,fun _ _ => rfl⟩
    obtain ⟨var',found',attr,_⟩ := holds
    obtain rfl : var' = var := Option.some.inj (found'.symm.trans found)
    rw [attr] at other
    exact absurd rfl other
  | full large differs current still =>
    refine ⟨frame,(by intro success; cases success),fun old holds room => ?_,fun _ _ => rfl⟩
    obtain ⟨var,found,attr,data⟩ := holds
    rcases room with rfl | room
    · exact absurd data (differs var found attr)
    · exact absurd room (not_le.mpr large)
  | same var found attr data current still =>
    exact ⟨frame,fun _ => ⟨var,found,attr,data⟩,fun _ _ _ => rfl,fun _ _ => rfl⟩
  | set agrees new key attr data current still =>
    have is_key : new.key = mode_key name := key
    refine ⟨frame,fun _ => ⟨new,?_,attr,data⟩,fun _ _ _ => rfl,fun old holds => ?_⟩
    · exact (updated_lookup tidy (some new) (by simpa using key) (mode_key name)).trans (if_pos rfl)
    · obtain ⟨var,found,_,old_data⟩ := holds
      have length := @updated_length _ tidy (mode_key name) (some new)
      have names : var.name = new.name := congrArg Prod.snd ((lookup_some found).2.trans is_key.symm)
      have entry : efi_var_entry_len var = efi_var_entry_len new := by
        rw [efi_var_entry_len,efi_var_entry_len,names,old_data,data]
        rfl
      rw [found,elim_some,elim_some,entry] at length
      exact Nat.add_right_cancel length

/-- The two variables of the state can be set to these values: they have them
    already, or there is room for one more entry. -/
def Ready (s : State) (secure_boot setup_mode : UInt8) : Prop :=
  ∃ old_boot old_setup, Holds s SecureBoot old_boot ∧ Holds s SetupMode old_setup ∧
    (old_boot = secure_boot ∧ old_setup = setup_mode ∨
      buf_length s.store.vars+used_len SecureBoot 1 ≤ build.EFI_VAR_BUF_SIZE)

def with_boot (s : State) (efi_secure_boot : Bool) : State := { s with efi_secure_boot := efi_secure_boot }

structure Reset (s : State) (secure_boot setup_mode : UInt8) (done : Done) : Prop where
  frame : Frame mode_names (with_boot s (secure_boot ≠ 0)) done.state
  values : done.status = .EFI_SUCCESS ∨ Ready build s secure_boot setup_mode →
    Holds done.state SecureBoot secure_boot ∧ Holds done.state SetupMode setup_mode

theorem set_secure_state_reset {s : State} (tidy : Tidy s.store) (secure_boot setup_mode audit_mode deployed_mode : UInt8) :
    (efi_set_secure_state (set_variable build crypto init) s secure_boot setup_mode audit_mode deployed_mode).Ends
      (Reset build s secure_boot setup_mode) := by
  have subset : [AuditMode,DeployedMode] ⊆ mode_names := by decide +kernel
  have boot_first : [SecureBoot] ⊆ mode_names := by decide +kernel
  have setup_second : [SetupMode] ⊆ mode_names := by decide +kernel
  have still : Tidy (with_boot s (secure_boot ≠ 0)).store := tidy
  rw [efi_set_secure_state]
  refine next_ends (mode_holds build crypto init still (boot_first (mem_singleton_self _)) secure_boot)
    (fun first boot success => ?_) (fun first boot failed => ?_)
  · have other : SetupMode ∉ [SecureBoot] := by decide +kernel
    refine next_ends (mode_holds build crypto init boot.frame.tidy (setup_second (mem_singleton_self _)) setup_mode)
      (fun second setup success' => ?_) (fun second setup failed => ?_)
    · -- The other two variables are set after these and leave them alone.
      have audit : AuditMode ∈ [AuditMode,DeployedMode] := mem_cons_self
      have deployed : DeployedMode ∈ [AuditMode,DeployedMode] := mem_cons_of_mem _ (mem_singleton_self _)
      obtain ⟨done,sets,rest⟩ := frame_next
        (set_mode_frame build crypto init subset audit (mode_attributes (audit_mode ≠ 0 ∨ setup_mode ≠ 0)) audit_mode
          setup.frame.tidy)
        (fun s' tidy' => set_mode_frame build crypto init subset deployed
          (mode_attributes (audit_mode ≠ 0 ∨ deployed_mode ≠ 0 ∨ setup_mode ≠ 0)) deployed_mode tidy')
      refine ⟨done,sets,((boot.frame.mono boot_first).trans (setup.frame.mono setup_second)).trans (rest.mono subset),?_⟩
      intro _
      have apart : SecureBoot ∉ [SetupMode] ∧ SecureBoot ∉ [AuditMode,DeployedMode] ∧ SetupMode ∉ [AuditMode,DeployedMode] := by
        decide +kernel
      exact ⟨((boot.holds success).of_frame setup.frame apart.1).of_frame rest apart.2.1,
        (setup.holds success').of_frame rest apart.2.2⟩
    · refine ⟨(boot.frame.mono boot_first).trans (setup.frame.mono setup_second),?_⟩
      rintro (success' | ⟨old_boot,old_setup,holds_boot,holds_setup,room⟩)
      · exact absurd success' failed
      · have holds : Holds first.state SetupMode old_setup := Holds.of_frame boot.frame other holds_setup
        have length : buf_length first.state.store.vars = buf_length s.store.vars := boot.length old_boot holds_boot
        have shorter : used_len SetupMode 1 ≤ used_len SecureBoot 1 := by decide +kernel
        refine absurd (setup.succeeds old_setup holds ?_) failed
        rcases room with ⟨_,same⟩ | room
        · exact .inl same
        · exact .inr (by omega)
  · refine ⟨boot.frame.mono boot_first,?_⟩
    rintro (success | ⟨old_boot,old_setup,holds,_,room⟩)
    · exact absurd success failed
    · refine absurd (boot.succeeds old_boot holds ?_) failed
      rcases room with ⟨same,_⟩ | room
      · exact .inl same
      · exact .inr room

theorem audit_refused {s : State} (tidy : Tidy s.store) :
    (set_variable build crypto init s ⟨PK,efi_global_variable_guid,attributes_rw,[]⟩ false).Ends fun done =>
      done.status ≠ .EFI_SUCCESS ∧ Frame mode_names s done.state := by
  have type : Request.var_type ⟨PK,efi_global_variable_guid,attributes_rw,[]⟩ = .EFI_AUTH_VAR_PK := by decide +kernel
  have unsigned : Request.signed ⟨PK,efi_global_variable_guid,attributes_rw,[]⟩ = false := by decide +kernel
  have no_append : Request.append ⟨PK,efi_global_variable_guid,attributes_rw,[]⟩ = false := by decide +kernel
  have allowed : setvariable_allowed PK attributes_rw = none := by decide +kernel
  have sets := set_variable_sets build crypto tidy init ⟨PK,efi_global_variable_guid,attributes_rw,[]⟩ false
  have refuses {var : Option Var} : attribute_check build ⟨PK,efi_global_variable_guid,attributes_rw,[]⟩ false var ≠ none :=
    unsigned_refused (by rw [type]; rfl) unsigned
  generalize set_variable build crypto init s ⟨PK,efi_global_variable_guid,attributes_rw,[]⟩ false = ret at sets
  cases sets with
  | refused status current still reason =>
    refine ⟨_,rfl,?_,.refl current still⟩
    rcases reason with forbidden | ⟨_,checked | ⟨passed,_⟩⟩
    · rw [allowed] at forbidden
      cases forbidden
    · rintro rfl
      have appends := (check_success checked).2.1
      rw [no_append] at appends
      cases appends
    · exact absurd passed refuses
  | null data time authenticated passes deletes missing => exact absurd passes.checked refuses
  | full data time authenticated passes keep large differs current still => exact absurd passes.checked refuses
  | same data time authenticated passes keep found current still => exact absurd passes.checked refuses
  | deleted old data time authenticated passes deletes found current still _ follows => exact absurd passes.checked refuses
  | stored data time authenticated passes keep fits current still _ follows => exact absurd passes.checked refuses

end transitions

def enrolled (vars : List Var) : Bool := (lookup Var.key vars (mode_key PK)).any fun var => var.data ≠ []

def reads (vars : List Var) (name : Str) : UInt8 :=
  match lookup Var.key vars (mode_key name) with
  | some ⟨_,_,_,_,[value]⟩ => value
  | _ => 0

def mode_of (vars : List Var) : SecureMode :=
  if enrolled vars then if reads vars DeployedMode ≠ 0 then .EFI_MODE_DEPLOYED else .EFI_MODE_USER
  else if reads vars AuditMode ≠ 0 then .EFI_MODE_AUDIT
  else .EFI_MODE_SETUP

section mode
variable {build : Build} {s : Store} (tidy : Tidy s)
include tidy

theorem read_mode_eq {name : Str} (other : name ≠ VarToFile) :
    ∃ current, read_mode build s name = (reads s.vars name,with_current s current) ∧ Tidy (with_current s current) := by
  obtain ⟨current,gets,still⟩ := get_variable_eq tidy build.image name efi_global_variable_guid 1 true 0
  refine ⟨current,?_,still⟩
  rw [read_mode,gets,reads,mode_key]
  cases lookup Var.key s.vars (efi_global_variable_guid,name) with
  | none => rfl
  | some var =>
    obtain ⟨guid,name',attr,time,data⟩ := var
    match data with
    | [] | [value] | first :: second :: rest => simp [reading,other]

theorem read_pk_eq :
    ∃ got current, efi_get_variable_mem build.image s PK efi_global_variable_guid 0 false 0 = (got,with_current s current) ∧
      (got.status = .EFI_BUFFER_TOO_SMALL ↔ enrolled s.vars = true) ∧ Tidy (with_current s current) := by
  have other : PK ≠ VarToFile := by decide +kernel
  obtain ⟨current,gets,still⟩ := get_variable_eq tidy build.image PK efi_global_variable_guid 0 false 0
  refine ⟨_,current,gets,?_,still⟩
  rw [enrolled,mode_key]
  cases lookup Var.key s.vars (efi_global_variable_guid,PK) with
  | none => simp [reading]
  | some var =>
    cases data : var.data with
    | nil | cons first rest => simp [reading,other,data]

theorem secure_mode_eq (secure : build.EFI_SECURE_BOOT = true) :
    ∃ current, secure_mode build s = (mode_of s.vars,with_current s current) ∧ Tidy (with_current s current) := by
  have names : DeployedMode ≠ VarToFile ∧ AuditMode ≠ VarToFile := by decide +kernel
  obtain ⟨current,deployed,still⟩ := @read_mode_eq build s tidy DeployedMode names.1
  obtain ⟨current',audit,still'⟩ : ∃ current', read_mode build (with_current s current) AuditMode =
      (reads s.vars AuditMode,with_current s current') ∧ Tidy (with_current s current') := read_mode_eq still names.2
  obtain ⟨got,current'',gets,found,still''⟩ : ∃ got current'', efi_get_variable_mem build.image (with_current s current') PK
      efi_global_variable_guid 0 false 0 = (got,with_current s current'') ∧
      (got.status = .EFI_BUFFER_TOO_SMALL ↔ enrolled s.vars = true) ∧ Tidy (with_current s current'') := read_pk_eq still'
  refine ⟨current'',?_,still''⟩
  rw [secure_mode,if_pos secure,deployed]
  simp only [audit,gets,mode_of]
  by_cases pk : enrolled s.vars = true
  · rw [if_pos (found.mpr pk),if_pos pk]
    by_cases is_deployed : reads s.vars DeployedMode = 0
    · simp [is_deployed]
    · simp [is_deployed]
  · rw [if_neg (fun small => pk (found.mp small)),if_neg pk]
    by_cases is_audit : reads s.vars AuditMode = 0
    · simp [is_audit]
    · simp [is_audit]

end mode

def bit (b : Bool) : UInt8 := if b then 1 else 0

/-- What the initialization leaves: in audit mode it fails, in every other mode
    the state follows from the platform key. -/
structure Initialized (build : Build) (s : State) (done : Done) : Prop where
  audit : mode_of s.store.vars = .EFI_MODE_AUDIT → done.status ≠ .EFI_SUCCESS ∧ Frame mode_names s done.state
  follows : mode_of s.store.vars ≠ .EFI_MODE_AUDIT →
    Reset build s (bit (enrolled s.store.vars)) (bit (!enrolled s.store.vars)) done

theorem Frame.of_cache {s s' : State}
    (frame : Frame names (with_store s (with_current s.store current)) s') : Frame names s s' :=
  ⟨frame.tidy,frame.boot,frame.others,frame.signed⟩

theorem Reset.of_cache {build : Build} {s : State} {secure_boot setup_mode : UInt8} {done : Done}
    (reset : Reset build (with_store s (with_current s.store current)) secure_boot setup_mode done) :
    Reset build s secure_boot setup_mode done :=
  ⟨⟨reset.frame.tidy,reset.frame.boot,reset.frame.others,reset.frame.signed⟩,reset.values⟩

section initialization
variable (build : Build) (crypto : Crypto) (init : State → Ret)

theorem transfer_reset {s : State} {secure_boot setup_mode : UInt8} (ends : ret.Ends (Reset build s secure_boot setup_mode))
    (mode : SecureMode) :
    (ret.next fun s => .value ⟨.EFI_SUCCESS,{ s with efi_secure_mode := mode },none⟩).Ends
      (Reset build s secure_boot setup_mode) := by
  refine next_ends ends (fun done reset success => ?_) (fun done reset _ => reset)
  refine ⟨_,rfl,⟨reset.frame.tidy,reset.frame.boot,reset.frame.others,reset.frame.signed⟩,fun _ => ?_⟩
  exact reset.values (.inl success)

theorem transfer_secure_state {s : State} (tidy : Tidy s.store) :
    (efi_transfer_secure_state (set_variable build crypto init) s (mode_of s.store.vars)).Ends (Initialized build s) := by
  have settles {secure_boot setup_mode audit_mode deployed_mode : UInt8} {mode : SecureMode}
      (is_mode : mode_of s.store.vars = mode) (not_audit : mode ≠ .EFI_MODE_AUDIT)
      (boot : bit (enrolled s.store.vars) = secure_boot) (setup : bit (!enrolled s.store.vars) = setup_mode) :
      ((efi_set_secure_state (set_variable build crypto init) s secure_boot setup_mode audit_mode deployed_mode).next
        fun s => .value ⟨.EFI_SUCCESS,{ s with efi_secure_mode := mode },none⟩).Ends (Initialized build s) := by
    obtain ⟨done,transfers,reset⟩ := transfer_reset build
      (set_secure_state_reset build crypto init tidy secure_boot setup_mode audit_mode deployed_mode) mode
    refine ⟨done,transfers,fun audit => absurd (is_mode.symm.trans audit) not_audit,fun _ => ?_⟩
    rw [boot,setup]
    exact reset
  have is_enrolled : enrolled s.store.vars = decide (mode_of s.store.vars = .EFI_MODE_DEPLOYED ∨
      mode_of s.store.vars = .EFI_MODE_USER) := by
    rw [mode_of]
    split_ifs with pk
    · simp [pk]
    · simp [pk]
    · simp [pk]
    · simp [pk]
  rw [efi_transfer_secure_state.eq_def]
  cases mode : mode_of s.store.vars with
  | EFI_MODE_DEPLOYED => exact settles mode (by decide) (by rw [is_enrolled,mode]; rfl) (by rw [is_enrolled,mode]; rfl)
  | EFI_MODE_USER => exact settles mode (by decide) (by rw [is_enrolled,mode]; rfl) (by rw [is_enrolled,mode]; rfl)
  | EFI_MODE_SETUP => exact settles mode (by decide) (by rw [is_enrolled,mode]; rfl) (by rw [is_enrolled,mode]; rfl)
  | EFI_MODE_AUDIT =>
    obtain ⟨⟨status,state,authenticated⟩,refused,failed,frame⟩ := audit_refused build crypto init tidy
    refine ⟨⟨status,state,authenticated⟩,?_,fun _ => ⟨failed,frame⟩,fun other => absurd mode other⟩
    simp only [refused]
    cases status with
    | EFI_SUCCESS => exact absurd rfl failed
    | _ => rfl

theorem init_initialized (secure : build.EFI_SECURE_BOOT = true) {s : State} (tidy : Tidy s.store) :
    (efi_init_secure_state build (set_variable build crypto init) s).Ends (Initialized build s) := by
  obtain ⟨current,mode,still⟩ := secure_mode_eq tidy secure
  have subset : [VendorKeys] ⊆ mode_names := by decide +kernel
  have apart : SecureBoot ∉ [VendorKeys] ∧ SetupMode ∉ [VendorKeys] := by decide +kernel
  have transfers : (efi_transfer_secure_state (set_variable build crypto init) (with_store s (with_current s.store current))
      (mode_of s.store.vars)).Ends (Initialized build (with_store s (with_current s.store current))) :=
    @transfer_secure_state build crypto init (with_store s (with_current s.store current)) still
  rw [efi_init_secure_state,mode]
  refine next_ends transfers (fun done first success => ?_) (fun done first failed => ?_)
  · have not_audit : mode_of s.store.vars ≠ .EFI_MODE_AUDIT := fun audit => (first.audit audit).1 success
    have reset := (first.follows not_audit).of_cache
    obtain ⟨done',sets,frame⟩ := set_mode_frame build crypto init subset (mem_singleton_self _) (.inl rfl) 0 reset.frame.tidy
    refine ⟨done',sets,fun audit => absurd audit not_audit,fun _ => ⟨reset.frame.trans (frame.mono subset),fun _ => ?_⟩⟩
    obtain ⟨boot,setup⟩ := reset.values (.inl success)
    exact ⟨boot.of_frame frame apart.1,setup.of_frame frame apart.2⟩
  · exact ⟨fun audit => ⟨failed,(first.audit audit).2.of_cache⟩,fun other => (first.follows other).of_cache⟩

/-- After a change of the platform key the state is initialized again, and the
    cache is what else may change. -/
theorem changed_initialized (secure : build.EFI_SECURE_BOOT = true) {s : State} (tidy : Tidy s.store) {r : Request}
    (is_pk : r.var_type = .EFI_AUTH_VAR_PK) (attributes : Attributes) (authenticated : Option Nat) :
    ∃ done current, Initialized build s done ∧ Tidy (with_current done.state.store current) ∧
      efi_variable_changed build (efi_init_secure_state build (set_variable build crypto init)) s r attributes authenticated =
        .value ⟨.EFI_SUCCESS,with_store done.state (with_current done.state.store current),authenticated⟩ := by
  obtain ⟨done,initializes,initialized⟩ := init_initialized build crypto init secure tidy
  have still : Tidy done.state.store := by
    by_cases audit : mode_of s.store.vars = .EFI_MODE_AUDIT
    · exact (initialized.audit audit).2.tidy
    · exact (initialized.follows audit).frame.tidy
  refine ⟨done,?_⟩
  rw [efi_variable_changed,if_pos is_pk,initializes]
  simp only
  split
  · obtain ⟨current,stores,still'⟩ := to_storage_returns build still
    rw [stores]
    exact ⟨current,initialized,still',rfl⟩
  · exact ⟨done.state.store.current,initialized,still,rfl⟩

end initialization

theorem type_pk_iff (name : Str) (guid : Guid) :
    efi_auth_var_get_type name guid = .EFI_AUTH_VAR_PK ↔ (guid,name) = mode_key PK := by
  constructor
  · intro type
    rw [efi_auth_var_get_type] at type
    split at type
    next row found =>
      have rows : ∀ row ∈ name_type, row.2.2 = .EFI_AUTH_VAR_PK → (row.2.1,row.1) = mode_key PK := by decide +kernel
      obtain ⟨rfl,rfl⟩ : name = row.1 ∧ guid = row.2.1 := by simpa using find?_some found
      exact rows row (mem_of_find?_eq_some found) type
    next => cases type
  · intro same
    obtain ⟨rfl,rfl⟩ := Prod.mk.inj same
    decide +kernel

/-- The state follows from the platform key: secure boot is enabled exactly if
    there is one, and the variables say so. -/
structure Follows (s : State) : Prop where
  enabled : s.efi_secure_boot = true ↔ lookup Var.key s.store.vars (mode_key PK) ≠ none
  secure_boot : (lookup Var.key s.store.vars (mode_key SecureBoot)).map Var.data = some [bit s.efi_secure_boot]
  setup_mode : (lookup Var.key s.store.vars (mode_key SetupMode)).map Var.data = some [bit (!s.efi_secure_boot)]

structure Following (s : State) : Prop where
  tidy : Tidy s.store
  filled : ∀ var, lookup Var.key s.store.vars (mode_key PK) = some var → var.data ≠ []
  enabled : s.efi_secure_boot = enrolled s.store.vars
  secure_boot : Holds s SecureBoot (bit s.efi_secure_boot)
  setup_mode : Holds s SetupMode (bit (!s.efi_secure_boot))

theorem enrolled_iff {vars : List Var} (filled : ∀ var, lookup Var.key vars (mode_key PK) = some var → var.data ≠ []) :
    enrolled vars = true ↔ lookup Var.key vars (mode_key PK) ≠ none := by
  rw [enrolled]
  cases found : lookup Var.key vars (mode_key PK) with
  | none => simp
  | some var => simpa using filled var found

theorem Following.follows {s : State} (following : Following s) : Follows s := by
  constructor
  · rw [following.enabled]
    exact enrolled_iff following.filled
  · obtain ⟨var,found,_,data⟩ := following.secure_boot
    rw [found,map_some,data]
  · obtain ⟨var,found,_,data⟩ := following.setup_mode
    rw [found,map_some,data]

theorem Following.of_lookups {s s' : State} (following : Following s) (tidy : Tidy s'.store)
    (boot : s'.efi_secure_boot = s.efi_secure_boot)
    (same : ∀ name ∈ [PK,SecureBoot,SetupMode], lookup Var.key s'.store.vars (mode_key name) =
      lookup Var.key s.store.vars (mode_key name)) : Following s' := by
  have pk : lookup Var.key s'.store.vars (mode_key PK) = lookup Var.key s.store.vars (mode_key PK) := same PK (by simp)
  have first : lookup Var.key s'.store.vars (mode_key SecureBoot) = _ := same SecureBoot (by simp)
  have second : lookup Var.key s'.store.vars (mode_key SetupMode) = _ := same SetupMode (by simp)
  constructor
  · exact tidy
  · rw [pk]
    exact following.filled
  · rw [boot,enrolled,pk]
    exact following.enabled
  · rw [boot,Holds,first]
    exact following.secure_boot
  · rw [boot,Holds,second]
    exact following.setup_mode

theorem Following.of_reset {build : Build} {s : State} {done : Done}
    (filled : ∀ var, lookup Var.key s.store.vars (mode_key PK) = some var → var.data ≠ [])
    (reset : Reset build s (bit (enrolled s.store.vars)) (bit (!enrolled s.store.vars)) done)
    (could : done.status = .EFI_SUCCESS ∨ Ready build s (bit (enrolled s.store.vars)) (bit (!enrolled s.store.vars))) :
    Following done.state := by
  have apart : ∀ name ∈ mode_names, mode_key PK ≠ mode_key name := by decide +kernel
  have pk : lookup Var.key done.state.store.vars (mode_key PK) = lookup Var.key s.store.vars (mode_key PK) :=
    reset.frame.others (mode_key PK) apart
  have boot : done.state.efi_secure_boot = enrolled s.store.vars := by
    refine reset.frame.boot.trans ?_
    show decide (bit (enrolled s.store.vars) ≠ 0) = enrolled s.store.vars
    cases enrolled s.store.vars with
    | false => decide
    | true => decide
  obtain ⟨first,second⟩ := reset.values could
  constructor
  · exact reset.frame.tidy
  · rw [pk]
    exact filled
  · rw [boot,enrolled.eq_1 done.state.store.vars,pk,enrolled]
  · rw [boot]
    exact first
  · rw [boot]
    exact second

/-- The state after a call; a call that does not return leaves none. -/
def step (build : Build) (crypto : Crypto) (s : State) (r : Request) : State :=
  match efi_set_variable build crypto s r with
  | .value done => done.state
  | _ => s

/-- The data that a request brings, without its signature, if it is let through. -/
def accepted (build : Build) (crypto : Crypto) (s : State) (r : Request) : Option (List UInt8) :=
  if r.attributes &&& ~~~EFI_VARIABLE_MASK = 0 ∧ setvariable_allowed r.variable_name r.attributes = none ∧
      attribute_check build r true (stored s r) = none then
    match (authentication build crypto (looked_up s r) r ((stored s r).elim 0 Var.time)).1 with
    | .ok (data,_,_) => some data
    | .error _ => none
  else none

/-- The platform key is enrolled only where there is room for the variables of
    the state, and deleted only where there is room for them and AuditMode is not
    set. -/
def Kept (build : Build) (crypto : Crypto) (s : State) (r : Request) : Prop :=
  r.key = mode_key PK →
    (stored s r = none → ∀ data ∈ accepted build crypto s r, data ≠ [] →
      buf_length s.store.vars+roundUp (used_len PK data.length) 8+used_len SecureBoot 1 ≤ build.EFI_VAR_BUF_SIZE) ∧
    (∀ old ∈ stored s r, accepted build crypto s r = some [] → reads s.store.vars AuditMode = 0 ∧
      buf_length s.store.vars+used_len SecureBoot 1 ≤ build.EFI_VAR_BUF_SIZE+efi_var_entry_len old)

section calls
variable {build : Build} {crypto : Crypto} {s : State} {r : Request}

theorem passes_accepted (mask : r.attributes &&& ~~~EFI_VARIABLE_MASK = 0) {time : Nat}
    {authenticated : Option Nat} (passes : Passes build crypto s r true data time authenticated) :
    accepted build crypto s r = some data := by
  rw [accepted,if_pos ⟨mask,passes.allowed,passes.checked⟩,passes.authentic]

theorem protected_key {value : UInt8} (holds : Holds s name value)
    (checked : attribute_check build r true (stored s r) = none) : r.key ≠ mode_key name := by
  intro same
  obtain ⟨var,found,attr,_⟩ := holds
  rw [← same] at found
  rw [stored,found] at checked
  have writable := (check_agrees checked).1
  rw [attr] at writable
  exact absurd writable (by decide)

/-- An update of another variable. -/
theorem Following.other (following : Following s) (checked : attribute_check build r true (stored s r) = none)
    (type : r.var_type ≠ .EFI_AUTH_VAR_PK) (new : Option Var) (same : ∀ var ∈ new, var.key = r.key)
    (tidy : Tidy ⟨updated s.store.vars (place Var.key s.store.vars r.key) new,current⟩) :
    Following (with_store s ⟨updated s.store.vars (place Var.key s.store.vars r.key) new,current⟩) := by
  refine following.of_lookups tidy rfl (fun name member => ?_)
  refine (updated_lookup following.tidy new same (mode_key name)).trans (if_neg ?_)
  simp only [mem_cons,not_mem_nil,or_false] at member
  rcases member with rfl | rfl | rfl
  · exact fun is_pk => type ((type_pk_iff _ _).mpr is_pk)
  · exact protected_key following.secure_boot checked
  · exact protected_key following.setup_mode checked

variable (crypto) in
theorem Following.platform_key (secure : build.EFI_SECURE_BOOT = true) (following : Following s)
    (is_pk : r.key = mode_key PK) (new : Option Var) (same : ∀ var ∈ new, var.key = r.key) (filled : ∀ var ∈ new, var.data ≠ [])
    (audit : new = none → reads s.store.vars AuditMode = 0)
    (room : new.isSome ≠ enrolled s.store.vars →
      buf_length (updated s.store.vars (place Var.key s.store.vars r.key) new)+used_len SecureBoot 1 ≤ build.EFI_VAR_BUF_SIZE) (tidy : Tidy ⟨updated s.store.vars (place Var.key s.store.vars r.key) new,current⟩)
    (init : State → Ret) (attributes : Attributes) (authenticated : Option Nat) :
    (efi_variable_changed build (efi_init_secure_state build (set_variable build crypto init))
      (with_store s ⟨updated s.store.vars (place Var.key s.store.vars r.key) new,current⟩) r attributes authenticated).Ends
      fun done => Following done.state := by
  have lookups (key : Guid × Str) := updated_lookup following.tidy new same key
  have apart : mode_key PK ≠ mode_key SecureBoot ∧ mode_key PK ≠ mode_key SetupMode ∧ mode_key PK ≠ mode_key AuditMode := by
    decide +kernel
  rw [is_pk] at room tidy lookups ⊢
  generalize store_eq : (⟨updated s.store.vars (place Var.key s.store.vars (mode_key PK)) new,current⟩ : Store) = store at tidy ⊢
  have vars : updated s.store.vars (place Var.key s.store.vars (mode_key PK)) new = store.vars := congrArg Store.vars store_eq
  rw [vars] at lookups room
  have pk : lookup Var.key store.vars (mode_key PK) = new := (lookups _).trans (if_pos rfl)
  have has : enrolled store.vars = new.isSome := by
    rw [enrolled,pk]
    cases new with
    | none => rfl
    | some var => simpa using filled var rfl
  have boot : Holds (with_store s store) SecureBoot (bit s.efi_secure_boot) := by
    obtain ⟨var,found,rest⟩ := following.secure_boot
    exact ⟨var,((lookups _).trans (if_neg apart.1)).trans found,rest⟩
  have setup : Holds (with_store s store) SetupMode (bit (!s.efi_secure_boot)) := by
    obtain ⟨var,found,rest⟩ := following.setup_mode
    exact ⟨var,((lookups _).trans (if_neg apart.2.1)).trans found,rest⟩
  have ready : Ready build (with_store s store) (bit new.isSome) (bit (!new.isSome)) := by
    refine ⟨_,_,boot,setup,?_⟩
    by_cases stays : new.isSome = enrolled s.store.vars
    · rw [stays,following.enabled]
      exact .inl ⟨rfl,rfl⟩
    · exact .inr (room stays)
  have not_audit : mode_of store.vars ≠ .EFI_MODE_AUDIT := by
    rw [mode_of,has]
    cases new with
    | some var =>
      simp only [isSome_some,if_true]
      split <;> decide
    | none =>
      have quiet : reads store.vars AuditMode = 0 := by
        rw [reads,lookups,if_neg apart.2.2]
        exact audit rfl
      simp [quiet]
  obtain ⟨done,current',initialized,still,changes⟩ := @changed_initialized build crypto init secure (with_store s store) tidy r
    ((type_pk_iff _ _).mpr is_pk) attributes authenticated
  have reset := initialized.follows not_audit
  have next : Following done.state := by
    refine .of_reset (by rw [show (with_store s store).store = store from rfl,pk]; exact filled) reset (.inr ?_)
    rw [show (with_store s store).store = store from rfl,has]
    exact ready
  exact ⟨_,changes,next.of_lookups still rfl fun _ _ => rfl⟩

theorem passes_signed (tidy : Tidy s.store) (type : r.var_type.from_pk = true) {time : Nat}
    {authenticated : Option Nat} (passes : Passes build crypto s r true data time authenticated) :
    authenticated ≠ none ∧ (Deletes r data authenticated → data = []) := by
  have signed : r.signed = true := by
    by_contra unsigned
    exact unsigned_refused type (by simpa using unsigned) passes.checked
  rcases passes_authentic build crypto tidy passes with ⟨unsigned,_⟩ | ⟨_,stamped,payload,_⟩
  · rw [signed] at unsigned
    cases unsigned
  refine ⟨by simp [stamped],?_⟩
  rintro (deletes | ⟨_,empty⟩)
  · simp only [Request.delete,decide_eq_true_eq] at deletes
    rcases deletes.2 with empty | zero
    · rw [empty] at payload
      exact absurd payload (by simp [efi_variable_authenticate,SIZEOF_TIME])
    · rw [Request.signed,zero] at signed
      exact absurd signed (by decide)
  · exact empty

theorem new_var_filled {var : Option Var} (some_data : data ≠ []) (time : Nat) :
    (new_var r var data time).data ≠ [] := by
  rw [new_var.eq_def]
  cases var with
  | none => exact some_data
  | some var =>
    simp only
    split
    · simp [some_data]
    · exact some_data

/-- One call keeps the state. -/
theorem step_following (secure : build.EFI_SECURE_BOOT = true) (following : Following s) (kept : Kept build crypto s r) :
    Following (step build crypto s r) := by
  rw [step]
  by_cases mask : r.attributes &&& ~~~EFI_VARIABLE_MASK ≠ 0
  · rw [efi_set_variable,if_pos mask]
    exact following
  have in_mask : r.attributes &&& ~~~EFI_VARIABLE_MASK = 0 := by simpa using mask
  have cached (current : Option Nat) (still : Tidy (with_current s.store current)) :
      Following (with_store s (with_current s.store current)) := following.of_lookups still rfl fun _ _ => rfl
  have sets := efi_set_variable_sets build crypto following.tidy in_mask
  generalize efi_set_variable build crypto s r = ret at sets ⊢
  cases sets with
  | refused status current still reason => exact cached current still
  | null data time authenticated passes deletes missing => exact following
  | full data time authenticated passes keep large differs current still => exact cached current still
  | same data time authenticated passes keep found current still => exact cached current still
  | deleted old data time authenticated passes deletes found current still _ follows =>
    by_cases is_pk : r.key = mode_key PK
    · have type : r.var_type.from_pk = true := by
        rw [show r.var_type = .EFI_AUTH_VAR_PK from (type_pk_iff _ _).mpr is_pk]
        rfl
      have empty := (passes_signed following.tidy type passes).2 deletes
      rw [empty] at passes
      obtain ⟨quiet,room⟩ := (kept is_pk).2 old found (passes_accepted in_mask passes)
      have length := @updated_length _ following.tidy r.key none
      rw [show lookup Var.key s.store.vars r.key = some old from found,elim_some,elim_none] at length
      obtain ⟨done,changes,next⟩ := following.platform_key crypto secure is_pk none (by simp) (by simp) (fun _ => quiet)
        (fun _ => by omega) still (fun _ => .deeper) old.attr authenticated
      rw [follows,efi_set_variable_int,changes]
      exact next
    · have type : r.var_type ≠ .EFI_AUTH_VAR_PK := fun type => is_pk ((type_pk_iff _ _).mp type)
      have next := following.other passes.checked type none (by simp) still
      obtain ⟨current',changes,still'⟩ := @changed_returns build _ next.tidy _ r type old.attr authenticated
      rw [follows,changes]
      exact next.of_lookups still' rfl fun _ _ => rfl
  | stored data time authenticated passes keep fits current still _ follows =>
    have key : ∀ var ∈ some (new_var r (stored s r) data time), var.key = r.key := by
      simpa using new_var_key r (stored s r) data time
    by_cases is_pk : r.key = mode_key PK
    · have type : r.var_type.from_pk = true := by
        rw [show r.var_type = .EFI_AUTH_VAR_PK from (type_pk_iff _ _).mpr is_pk]
        rfl
      have some_data : data ≠ [] :=
        fun empty => keep (.inr ⟨(passes_signed following.tidy type passes).1,empty⟩)
      have room : (some (new_var r (stored s r) data time)).isSome ≠ enrolled s.store.vars →
          buf_length (updated s.store.vars (place Var.key s.store.vars r.key) (some (new_var r (stored s r) data time)))+
            used_len SecureBoot 1 ≤ build.EFI_VAR_BUF_SIZE := by
        intro enrolls
        have missing : stored s r = none := by
          by_contra there
          refine enrolls ?_
          rw [(enrolled_iff following.filled).mpr (by rw [← is_pk]; exact there)]
          rfl
        have room := (kept is_pk).1 missing data (passes_accepted in_mask passes) some_data
        have length := @updated_length _ following.tidy r.key (some (new_var r (stored s r) data time))
        have entry : efi_var_entry_len (new_var r none data time) = roundUp (used_len PK data.length) 8 := by
          rw [efi_var_entry_len,new_var,show r.variable_name = PK from congrArg Prod.snd is_pk]
        rw [show lookup Var.key s.store.vars r.key = none from missing,elim_none,elim_some,missing,entry] at length
        rw [missing]
        omega
      obtain ⟨done,changes,next⟩ := following.platform_key crypto secure is_pk (some (new_var r (stored s r) data time))
        key (by simpa using new_var_filled some_data time) (by simp) room still (fun _ => .deeper) r.attributes authenticated
      rw [follows,efi_set_variable_int,changes]
      exact next
    · have type : r.var_type ≠ .EFI_AUTH_VAR_PK := fun type => is_pk ((type_pk_iff _ _).mp type)
      have next := following.other passes.checked type _ key still
      obtain ⟨current',changes,still'⟩ := @changed_returns build _ next.tidy _ r type r.attributes authenticated
      rw [follows,changes]
      exact next.of_lookups still' rfl fun _ _ => rfl

end calls

/-- A state in which `efi_init_variables` has succeeded, with any file in storage
    and any variables built in, as long as these have names. -/
def Started (build : Build) (crypto : Crypto) (s : State) : Prop :=
  ∃ storage efi_var_file authenticated, (∀ file ∈ storage, ∀ var ∈ file.1.vars, var.name.chars ≠ []) ∧
    (∀ var ∈ efi_var_file.vars, var.name.chars ≠ []) ∧
    efi_init_variables build crypto storage efi_var_file = .value ⟨.EFI_SUCCESS,s,authenticated⟩

section runs
variable {build : Build} {crypto : Crypto}

theorem from_storage_tidy {storage : Option (VarFile × Nat)} (named : ∀ file ∈ storage, ∀ var ∈ file.1.vars, var.name.chars ≠ [])
    {s : Store} (tidy : Tidy s) (filled : Filled s.vars) :
    Tidy (efi_var_from_storage build s storage) ∧ Filled (efi_var_from_storage build s storage).vars := by
  rw [efi_var_from_storage.eq_def]
  cases storage with
  | none => exact ⟨tidy,filled⟩
  | some file =>
    simp only
    split
    · exact ⟨tidy,filled⟩
    split
    · exact ⟨tidy,filled⟩
    · exact restore_tidy build.toLayout false (named file rfl) tidy filled

theorem empty_tidy : Tidy ⟨[],none⟩ := ⟨List.Pairwise.nil,by simp,by simp⟩

/-- The variables that are loaded before the state is initialized. -/
theorem loaded_tidy {storage : Option (VarFile × Nat)} {efi_var_file : VarFile}
    (storage_named : ∀ file ∈ storage, ∀ var ∈ file.1.vars, var.name.chars ≠ [])
    (file_named : ∀ var ∈ efi_var_file.vars, var.name.chars ≠ []) :
    Tidy (loaded build storage efi_var_file) ∧ Filled (loaded build storage efi_var_file).vars := by
  have stored : Tidy (if build.EFI_VARIABLE_NO_STORE = false then efi_var_from_storage build ⟨[],none⟩ storage else ⟨[],none⟩) ∧
      Filled (if build.EFI_VARIABLE_NO_STORE = false then efi_var_from_storage build ⟨[],none⟩ storage else ⟨[],none⟩).vars := by
    split
    · exact from_storage_tidy storage_named empty_tidy (by simp [Filled])
    · exact ⟨empty_tidy,by simp [Filled]⟩
  rw [loaded]
  split
  · exact restore_tidy build.toLayout true file_named stored.1 stored.2
  · exact stored

theorem started_following (secure : build.EFI_SECURE_BOOT = true) {s : State} (started : Started build crypto s) : Following s := by
  obtain ⟨storage,efi_var_file,authenticated,storage_named,file_named,starts⟩ := started
  obtain ⟨tidy,filled⟩ := @loaded_tidy build storage efi_var_file storage_named file_named
  obtain ⟨done,initializes,initialized⟩ := @init_initialized build crypto
    (efi_init_secure_state build (efi_set_variable_int build crypto 0)) secure
    ⟨loaded build storage efi_var_file,false,.EFI_MODE_SETUP⟩ tidy
  rw [efi_init_variables,efi_set_variable_int,initializes] at starts
  obtain rfl : done = ⟨.EFI_SUCCESS,s,authenticated⟩ := by cases starts; rfl
  refine .of_reset (fun var found => filled var (lookup_some found).1) (initialized.follows ?_) (.inl rfl)
  exact fun audit => (initialized.audit audit).1 rfl

end runs

def secure_build : Build := ⟨⟨131072,fun _ => [],fun _ => 0⟩,true,false,false⟩

def trusting : Crypto := ⟨Unit,Unit,fun _ => some (),fun _ => some (),(),fun _ _ _ => true⟩

/-- Data with a time stamp and a signature of one byte in front. -/
def signed_data (second : UInt8) (payload : List UInt8) : List UInt8 :=
  [232,7,1,1,0,0,second,0] ++ List.replicate 8 0 ++ [25,0,0,0,0,2,241,14] ++ to_bytes efi_guid_cert_type_pkcs7.toNat 16 ++
    [48] ++ payload

def key_attributes : Attributes := attributes_rw ||| EFI_VARIABLE_NON_VOLATILE |||
  EFI_VARIABLE_TIME_BASED_AUTHENTICATED_WRITE_ACCESS

def pk_request (second : UInt8) (payload : List UInt8) : Request :=
  ⟨PK,efi_global_variable_guid,key_attributes,signed_data second payload⟩

def audit_request : Request := ⟨AuditMode,efi_global_variable_guid,attributes_rw,[1]⟩

/-- What holds of the state after the initialization of an empty store. -/
def after_start (build : Build) (crypto : Crypto) (P : State → Bool) : Bool :=
  match efi_init_variables build crypto none ⟨0,0,0,0,[]⟩ with
  | .value ⟨.EFI_SUCCESS,s,_⟩ => P s
  | _ => false

theorem started_of_after {build : Build} {crypto : Crypto} {P : State → Bool} (holds : after_start build crypto P = true) :
    ∃ s, Started build crypto s ∧ P s = true := by
  rw [after_start] at holds
  split at holds
  next s authenticated starts => exact ⟨s,⟨none,_,authenticated,by simp,by simp,starts⟩,holds⟩
  next => cases holds

instance (build : Build) (crypto : Crypto) (s : State) (r : Request) : Decidable (Kept build crypto s r) := by
  unfold Kept
  exact inferInstance

/-- Secure boot follows the platform key in every state that calls reach. -/
theorem secure_state_follows {build : Build} {crypto : Crypto} (secure : build.EFI_SECURE_BOOT = true) {s : State} (started : Started build crypto s)
    (requests : List Request) (kept : Along (step build crypto) (Kept build crypto) s requests) (n : Nat) :
    Follows (run (step build crypto) s (requests.take n)) := by
  rw [← List.take_append_drop n requests,along_append] at kept
  exact (invariant (fun _ _ following kept => step_following secure following kept) (started_following secure started)
    kept.1).follows

theorem secure_state_follows_enrolled : ∃ s, Started secure_build trusting s ∧
    Along (step secure_build trusting) (Kept secure_build trusting) s [pk_request 1 [7],pk_request 2 [5],pk_request 3 []] ∧
    Follows (run (step secure_build trusting) s [pk_request 1 [7],pk_request 2 [5],pk_request 3 []]) := by
  obtain ⟨s,started,holds⟩ := @started_of_after secure_build trusting (fun s => decide (Along (step secure_build trusting)
    (Kept secure_build trusting) s [pk_request 1 [7],pk_request 2 [5],pk_request 3 []])) (by decide +kernel)
  have kept := of_decide_eq_true holds
  exact ⟨s,started,kept,secure_state_follows rfl started _ kept 3⟩

/-- Once AuditMode is set, deleting the platform key leaves secure boot enabled
    without one. -/
theorem audit_mode_keeps_secure_boot : ∃ s, Started secure_build trusting s ∧
    (run (step secure_build trusting) s [pk_request 1 [7],audit_request,pk_request 2 []]).efi_secure_boot = true ∧
    lookup Var.key (run (step secure_build trusting) s [pk_request 1 [7],audit_request,pk_request 2 []]).store.vars
      (mode_key PK) = none ∧
    ¬ Follows (run (step secure_build trusting) s [pk_request 1 [7],audit_request,pk_request 2 []]) := by
  obtain ⟨s,started,holds⟩ := @started_of_after secure_build trusting (fun s =>
    (run (step secure_build trusting) s [pk_request 1 [7],audit_request,pk_request 2 []]).efi_secure_boot ∧
      lookup Var.key (run (step secure_build trusting) s [pk_request 1 [7],audit_request,pk_request 2 []]).store.vars
        (mode_key PK) = none) (by decide +kernel)
  obtain ⟨enabled,missing⟩ := of_decide_eq_true holds
  exact ⟨s,started,enabled,missing,fun follows => follows.enabled.mp enabled missing⟩

end UBoot.EfiVar
