import UBoot.EfiVarCommon

/-!
Setting EFI variables, `lib/efi_loader/efi_variable.c`, and the secure boot state
that follows from the platform key, `lib/efi_loader/efi_var_common.c`. Setting
the platform key sets further variables in turn, so the functions are followed
to a depth.

What a call can do is said once, by `Sets`: it is refused, it finds nothing to
change, or it updates one variable and then, for the platform key, the state.
-/
namespace UBoot.EfiVar
open UBoot.Words UBoot.KeyedLists List

structure Build extends Layout where
  EFI_SECURE_BOOT : Bool
  EFI_VARIABLES_PRESEED : Bool
  EFI_VARIABLE_NO_STORE : Bool

/-- The cryptographic functions: the signature of a message, the certificates of
    a database, those of none, and the verification of regions of memory. -/
structure Crypto where
  Message : Type
  SignatureStore : Type
  efi_parse_pkcs7_header : List UInt8 → Option Message
  efi_build_signature_store : List UInt8 → Option SignatureStore
  no_signatures : SignatureStore
  efi_signature_verify : List (List UInt8) → Message → SignatureStore → Bool

inductive SecureMode where
  | EFI_MODE_SETUP
  | EFI_MODE_USER
  | EFI_MODE_AUDIT
  | EFI_MODE_DEPLOYED
deriving DecidableEq, Repr

/-- The variables, `efi_secure_boot` and `efi_secure_mode`. -/
structure State where
  store : Store
  efi_secure_boot : Bool
  efi_secure_mode : SecureMode

def with_store (s : State) (store : Store) : State := { s with store := store }

/-- A call that returns: the status, the state, and the time stamp of the
    authentication, if the call had one that succeeded. -/
structure Done where
  status : Status
  state : State
  authenticated : Option Nat

/-- How a call ends. `deeper` stands for a call that goes deeper than it is
    followed. -/
inductive Ret where
  | value (done : Done)
  | null_dereference
  | deeper

def Ret.next (ret : Ret) (rest : State → Ret) : Ret :=
  match ret with
  | .value ⟨.EFI_SUCCESS,s,_⟩ => rest s
  | ret => ret

def from_bytes (bytes : List UInt8) : Nat := bytes.foldr (fun b rest => b.toNat+256*rest) 0
def to_bytes (n : Nat) : Nat → List UInt8
  | 0 => []
  | count+1 => UInt8.ofNat (n%256) :: to_bytes (n/256) count

def efi_guid_cert_type_pkcs7 : Guid := 0xa76556377d34a98a49ee68df4aafd29d

def SIZEOF_TIME : Nat := 16
def SIZEOF_AUTH_INFO : Nat := 24

/-- `rtc_mktime`, for a time of the calendar as `struct efi_time` has it; 64 bits
    wide. -/
def rtc_mktime (year mon mday hour min sec : Nat) : Nat :=
  let m : Int := (mon : Int)-2
  let y : Int := if m ≤ 0 then (year : Int)-1 else year
  let m : Int := if m ≤ 0 then m+12 else m
  let days : Int := y.tdiv 4-y.tdiv 100+y.tdiv 400+(367*m).tdiv 12+mday+y*365-719499
  ((((days*24+hour)*60+min)*60+sec)%2^64).toNat

def efi_get_var (build : Build) (s : Store) (name : Str) (vendor : Guid) : Option (List UInt8) × Store :=
  let (got,s) := efi_get_variable_mem build.image s name vendor 0 false 0
  if got.status = .EFI_BUFFER_TOO_SMALL then
    let (got,s) := efi_get_variable_mem build.image s name vendor got.data_size true 0
    if got.status = .EFI_SUCCESS then (got.data,s) else (none,s)
  else (none,s)

section authenticating
variable (build : Build) (crypto : Crypto)

def efi_sigstore_parse_sigdb (s : Store) (name : Str) : Option crypto.SignatureStore × Store :=
  let (db,s) := efi_get_var build s name (efi_auth_var_get_guid name)
  match db with
  | none => (some crypto.no_signatures,s)
  | some db => (crypto.efi_build_signature_store db,s)

/-- The certificates for a variable: those to try first, and those to try then. -/
def truststores (s : Store) (var_type : AuthVarType) :
    Except Status (crypto.SignatureStore × Option crypto.SignatureStore) × Store :=
  match var_type with
  | .EFI_AUTH_VAR_PK | .EFI_AUTH_VAR_KEK =>
    match efi_sigstore_parse_sigdb build crypto s PK with
    | (none,s) => (.error .EFI_SECURITY_VIOLATION,s)
    | (some truststore,s) => (.ok (truststore,none),s)
  | .EFI_AUTH_VAR_DB | .EFI_AUTH_VAR_DBX =>
    let (truststore,s) := efi_sigstore_parse_sigdb build crypto s KEK
    let (truststore2,s) := efi_sigstore_parse_sigdb build crypto s PK
    match truststore, truststore2 with
    | none, none => (.error .EFI_SECURITY_VIOLATION,s)
    | none, some truststore2 => (.ok (truststore2,none),s)
    | some truststore, truststore2 => (.ok (truststore,truststore2),s)
  | _ => (.error .EFI_UNSUPPORTED,s)

/-- The data that is left and its time stamp, and the store with its cache.
    Memory for the verification is there. -/
def efi_variable_authenticate (s : State) (variable_name : Str) (vendor : Guid) (data : List UInt8) (given_attr : Attributes)
    (time : Nat) : Except Status (List UInt8 × Nat) × Store :=
  let dwLength := from_bytes ((data.drop SIZEOF_TIME).take 4)
  let cert_type : Guid := BitVec.ofNat 128 (from_bytes ((data.drop (SIZEOF_TIME+8)).take 16))
  let field (at_ count : Nat) : Nat := from_bytes ((data.drop at_).take count)
  if data.length < SIZEOF_TIME+SIZEOF_AUTH_INFO then (.error .EFI_SECURITY_VIOLATION,s.store)
  else if data.length < SIZEOF_TIME+dwLength then (.error .EFI_SECURITY_VIOLATION,s.store)
  else if cert_type ≠ efi_guid_cert_type_pkcs7 then (.error .EFI_SECURITY_VIOLATION,s.store)
  else if field 7 1 ≠ 0 ∨ field 8 4 ≠ 0 ∨ field 12 2 ≠ 0 ∨ field 14 1 ≠ 0 ∨ field 15 1 ≠ 0 then
    (.error .EFI_SECURITY_VIOLATION,s.store)
  else
    let payload := data.drop (SIZEOF_TIME+dwLength)
    let new_time := rtc_mktime (field 0 2) (field 2 1) (field 3 1) (field 4 1) (field 5 1) (field 6 1)
    if s.efi_secure_boot = false then (.ok (payload,new_time),s.store)
    else if new_time ≤ time then (.error .EFI_SECURITY_VIOLATION,s.store)
    else if dwLength < SIZEOF_AUTH_INFO then (.error .EFI_SECURITY_VIOLATION,s.store)
    else
      let regs := [variable_name.chars.flatMap fun c => to_bytes c.toNat 2,to_bytes vendor.toNat 16,to_bytes given_attr.toNat 4,
        data.take SIZEOF_TIME,payload]
      match crypto.efi_parse_pkcs7_header
          ((data.drop (SIZEOF_TIME+SIZEOF_AUTH_INFO)).take (dwLength-SIZEOF_AUTH_INFO)) with
      | none => (.error .EFI_SECURITY_VIOLATION,s.store)
      | some var_sig =>
        match truststores build crypto s.store (efi_auth_var_get_type variable_name vendor) with
        | (.error status,store) => (.error status,store)
        | (.ok (truststore,truststore2),store) =>
          if crypto.efi_signature_verify regs var_sig truststore ∨
              truststore2.any (crypto.efi_signature_verify regs var_sig) then (.ok (payload,new_time),store)
          else (.error .EFI_SECURITY_VIOLATION,store)

end authenticating

def setvariable_allowed (variable_name : Str) (attributes : Attributes) : Option Status :=
  if variable_name.chars = [] then some .EFI_INVALID_PARAMETER
  else if attributes &&& (EFI_VARIABLE_AUTHENTICATED_WRITE_ACCESS ||| EFI_VARIABLE_ENHANCED_AUTHENTICATED_ACCESS) ≠ 0 then
    some .EFI_UNSUPPORTED
  else if attributes &&& (EFI_VARIABLE_RUNTIME_ACCESS ||| EFI_VARIABLE_BOOTSERVICE_ACCESS) = EFI_VARIABLE_RUNTIME_ACCESS then
    some .EFI_INVALID_PARAMETER
  else if attributes &&& EFI_VARIABLE_MASK = EFI_VARIABLE_NON_VOLATILE then some .EFI_INVALID_PARAMETER
  else if attributes &&& EFI_VARIABLE_HARDWARE_ERROR_RECORD ≠ 0 ∧ (attributes &&& EFI_VARIABLE_NON_VOLATILE = 0 ∨
      attributes &&& EFI_VARIABLE_RUNTIME_ACCESS = 0 ∨ attributes &&& EFI_VARIABLE_BOOTSERVICE_ACCESS = 0) then
    some .EFI_INVALID_PARAMETER
  else none

structure Request where
  variable_name : Str
  vendor : Guid
  attributes : Attributes
  data : List UInt8

def Request.key (r : Request) : Guid × Str := (r.vendor,r.variable_name)
def Request.append (r : Request) : Bool := r.attributes &&& EFI_VARIABLE_APPEND_WRITE ≠ 0
def Request.delete (r : Request) : Bool := r.append = false ∧ (r.data = [] ∨ r.attributes = 0)
def Request.var_type (r : Request) : AuthVarType := efi_auth_var_get_type r.variable_name r.vendor
def Request.signed (r : Request) : Bool := r.attributes &&& EFI_VARIABLE_TIME_BASED_AUTHENTICATED_WRITE_ACCESS ≠ 0

variable {r : Request} {ro_check : Bool}

theorem Request.keeps (some_data : r.data ≠ []) (some_attributes : r.attributes ≠ 0) : r.delete = false := by
  refine decide_eq_false ?_
  rintro ⟨_,empty | zero⟩
  · exact some_data empty
  · exact some_attributes zero

/-- The checks against the variable that exists: the status with which the call
    returns, if it returns there. -/
def attribute_check (build : Build) (r : Request) (ro_check : Bool) (var : Option Var) : Option Status :=
  let mandatory : Option Status :=
    if r.var_type.from_pk ∧ r.signed = false then some .EFI_INVALID_PARAMETER else none
  match var with
  | some var =>
    if ro_check ∧ var.attr &&& EFI_VARIABLE_READ_ONLY ≠ 0 then some .EFI_WRITE_PROTECTED
    else if build.EFI_VARIABLES_PRESEED ∧ r.var_type.from_pk then some .EFI_WRITE_PROTECTED
    else if r.delete = false ∧ ((ro_check ∧ var.attr ≠ r.attributes &&& ~~~EFI_VARIABLE_APPEND_WRITE) ∨
        (ro_check = false ∧ var.attr &&& ~~~EFI_VARIABLE_READ_ONLY ≠ r.attributes &&& ~~~EFI_VARIABLE_READ_ONLY)) then
      some .EFI_INVALID_PARAMETER
    else mandatory
  | none =>
    if r.append ∧ r.data = [] then some .EFI_SUCCESS
    else if r.delete then some .EFI_NOT_FOUND
    else mandatory

/-- The data to store, its time, and the time stamp that was found. -/
def authentication (build : Build) (crypto : Crypto) (s : State) (r : Request) (time : Nat) :
    Except Status (List UInt8 × Nat × Option Nat) × Store :=
  if build.EFI_SECURE_BOOT then
    if r.signed then
      match efi_variable_authenticate build crypto s r.variable_name r.vendor r.data r.attributes time with
      | (.error status,store) => (.error status,store)
      | (.ok (data,time),store) => (.ok (data,time,some time),store)
    else (.ok (r.data,time,none),s.store)
  else if r.signed then (.error .EFI_INVALID_PARAMETER,s.store)
  else (.ok (r.data,time,none),s.store)

/-- The status, the attributes, `changed` and the store; nothing where the
    variable is to be deleted and there is none. -/
def store_data (build : Build) (s : Store) (r : Request) (delete : Bool) (var : Option Var) (data : List UInt8) (time : Nat) :
    Option (Status × Attributes × Bool × Store) :=
  if delete then var.map fun var => (.EFI_SUCCESS,var.attr,true,s)
  else
    match var with
    | some var =>
      if r.append then
        let (status,changed,s) := efi_var_mem_ins build.EFI_VAR_BUF_SIZE s r.variable_name r.vendor
          (r.attributes &&& ~~~EFI_VARIABLE_APPEND_WRITE) var.data data time true
        some (status,r.attributes,changed,s)
      else
        let (status,changed,s) := efi_var_mem_ins build.EFI_VAR_BUF_SIZE s r.variable_name r.vendor r.attributes data [] time true
        some (status,r.attributes,changed,s)
    | none =>
      let (status,changed,s) := efi_var_mem_ins build.EFI_VAR_BUF_SIZE s r.variable_name r.vendor r.attributes data [] time true
      some (status,r.attributes,changed,s)

/-- The variables are collected; where the file goes is not followed. -/
def efi_var_to_storage (build : Build) (s : Store) : Option Store :=
  (efi_var_collect build.toLayout s EFI_VARIABLE_NON_VOLATILE true).map fun (_,s) => s

def SecureBoot : Str := u ['S','e','c','u','r','e','B','o','o','t']
def SetupMode : Str := u ['S','e','t','u','p','M','o','d','e']
def VendorKeys : Str := u ['V','e','n','d','o','r','K','e','y','s']

def attributes_rw : Attributes := EFI_VARIABLE_BOOTSERVICE_ACCESS ||| EFI_VARIABLE_RUNTIME_ACCESS
def attributes_ro : Attributes := attributes_rw ||| EFI_VARIABLE_READ_ONLY

/-- A call that sets a variable, with or without the check for `READ_ONLY`. -/
abbrev Setter := State → Request → Bool → Ret

section secure
variable (build : Build) (set : Setter)

def set_mode (s : State) (name : Str) (attributes : Attributes) (value : UInt8) : Ret :=
  set s ⟨name,efi_global_variable_guid,attributes,[value]⟩ false

def efi_set_secure_state (s : State) (secure_boot setup_mode audit_mode deployed_mode : UInt8) : Ret :=
  let s := { s with efi_secure_boot := secure_boot ≠ 0 }
  (set_mode set s SecureBoot attributes_ro secure_boot).next fun s =>
    (set_mode set s SetupMode attributes_ro setup_mode).next fun s =>
      (set_mode set s AuditMode (if audit_mode ≠ 0 ∨ setup_mode ≠ 0 then attributes_ro else attributes_rw) audit_mode).next
        fun s => set_mode set s DeployedMode
          (if audit_mode ≠ 0 ∨ deployed_mode ≠ 0 ∨ setup_mode ≠ 0 then attributes_ro else attributes_rw) deployed_mode

def efi_transfer_secure_state (s : State) (mode : SecureMode) : Ret :=
  let states : Ret :=
    match mode with
    | .EFI_MODE_DEPLOYED => efi_set_secure_state set s 1 0 0 1
    | .EFI_MODE_AUDIT =>
      (set s ⟨PK,efi_global_variable_guid,attributes_rw,[]⟩ false).next fun s => efi_set_secure_state set s 0 1 1 0
    | .EFI_MODE_USER => efi_set_secure_state set s 1 0 0 0
    | .EFI_MODE_SETUP => efi_set_secure_state set s 0 1 0 0
  states.next fun s => .value ⟨.EFI_SUCCESS,{ s with efi_secure_mode := mode },none⟩

def read_mode (s : Store) (name : Str) : UInt8 × Store :=
  let (got,s) := efi_get_variable_mem build.image s name efi_global_variable_guid 1 true 0
  match got with
  | ⟨.EFI_SUCCESS,_,_,_,some (value :: _)⟩ => (value,s)
  | _ => (0,s)

def secure_mode (s : Store) : SecureMode × Store :=
  let (deployed_mode,audit_mode,setup_mode,s) : UInt8 × UInt8 × UInt8 × Store :=
    if build.EFI_SECURE_BOOT then
      let (deployed_mode,s) := read_mode build s DeployedMode
      let (audit_mode,s) := read_mode build s AuditMode
      let (got,s) := efi_get_variable_mem build.image s PK efi_global_variable_guid 0 false 0
      if got.status = .EFI_BUFFER_TOO_SMALL then (deployed_mode,0,0,s) else (0,audit_mode,1,s)
    else (0,0,1,s)
  if deployed_mode ≠ 0 then (.EFI_MODE_DEPLOYED,s)
  else if audit_mode ≠ 0 then (.EFI_MODE_AUDIT,s)
  else if setup_mode ≠ 0 then (.EFI_MODE_SETUP,s)
  else (.EFI_MODE_USER,s)

def efi_init_secure_state (s : State) : Ret :=
  let (mode,store) := secure_mode build s.store
  (efi_transfer_secure_state set (with_store s store) mode).next fun s => set_mode set s VendorKeys attributes_ro 0

end secure

/-- What follows once a variable has changed: the state that depends on the
    platform key, and the storage. -/
def efi_variable_changed (build : Build) (init : State → Ret) (s : State) (r : Request) (attributes : Attributes)
    (authenticated : Option Nat) : Ret :=
  let stores (s : State) : Ret :=
    if attributes &&& EFI_VARIABLE_NON_VOLATILE ≠ 0 ∧ build.EFI_VARIABLE_NO_STORE = false then
      match efi_var_to_storage build s.store with
      | none => .deeper
      | some store => .value ⟨.EFI_SUCCESS,with_store s store,authenticated⟩
    else .value ⟨.EFI_SUCCESS,s,authenticated⟩
  if r.var_type = .EFI_AUTH_VAR_PK then
    match init s with
    | .value done => stores done.state
    | ret => ret
  else stores s

def set_variable (build : Build) (crypto : Crypto) (init : State → Ret) (s : State) (r : Request) (ro_check : Bool) : Ret :=
  match setvariable_allowed r.variable_name r.attributes with
  | some status => .value ⟨status,s,none⟩
  | none =>
    let (found,_,store) := efi_var_mem_find s.store r.vendor r.variable_name
    let s := with_store s store
    let var := found.bind fun i => store.vars[i]?
    match attribute_check build r ro_check var with
    | some status => .value ⟨status,s,none⟩
    | none =>
      match authentication build crypto s r (var.elim 0 Var.time) with
      | (.error status,store) => .value ⟨status,with_store s store,none⟩
      | (.ok (data,time,authenticated),store) =>
        -- An authenticated request without data is one to delete as well.
        let delete : Bool := r.delete ∨ authenticated ≠ none ∧ data = []
        match store_data build store r delete var data time with
        | none => .null_dereference
        | some (status,attributes,changed,store) =>
          if status ≠ .EFI_SUCCESS then .value ⟨status,with_store s store,authenticated⟩
          else if changed = false then .value ⟨.EFI_SUCCESS,with_store s store,authenticated⟩
          else efi_variable_changed build init (with_store s (efi_var_mem_del store found)) r attributes authenticated

/-- `efi_set_variable_int`, followed to a depth. -/
def efi_set_variable_int (build : Build) (crypto : Crypto) : Nat → Setter
  | 0 => set_variable build crypto fun _ => .deeper
  | depth+1 => set_variable build crypto (efi_init_secure_state build (efi_set_variable_int build crypto depth))

def efi_set_variable (build : Build) (crypto : Crypto) (s : State) (r : Request) : Ret :=
  if r.attributes &&& ~~~EFI_VARIABLE_MASK ≠ 0 then .value ⟨.EFI_INVALID_PARAMETER,s,none⟩
  else efi_set_variable_int build crypto 1 s r true

/-- Variables are read from a file of some length, if there is one that is
    valid. -/
def efi_var_from_storage (build : Build) (s : Store) (storage : Option (VarFile × Nat)) : Store :=
  match storage with
  | none => s
  | some (buf,len) =>
    if len < SIZEOF_VAR_FILE then s
    else if buf.length ≠ len then s
    else (efi_var_restore build.toLayout s buf false).2

/-- The variables of the file in storage, and those that are built in. -/
def loaded (build : Build) (storage : Option (VarFile × Nat)) (efi_var_file : VarFile) : Store :=
  let store : Store := if build.EFI_VARIABLE_NO_STORE = false then efi_var_from_storage build ⟨[],none⟩ storage else ⟨[],none⟩
  if build.EFI_VARIABLES_PRESEED then (efi_var_restore build.toLayout store efi_var_file true).2 else store

def efi_init_variables (build : Build) (crypto : Crypto) (storage : Option (VarFile × Nat)) (efi_var_file : VarFile) : Ret :=
  efi_init_secure_state build (efi_set_variable_int build crypto 1) ⟨loaded build storage efi_var_file,false,.EFI_MODE_SETUP⟩

/-- The service reads the attributes without `READ_ONLY`. -/
def efi_get_variable (build : Build) (s : State) (variable_name : Str) (vendor : Guid) (data_size : Nat) (data : Bool) :
    Got × State :=
  let (got,store) := efi_get_variable_mem build.image s.store variable_name vendor data_size data 0
  ({ got with attributes := got.attributes.map (· &&& EFI_VARIABLE_MASK) },with_store s store)

section reading
variable (build : Build) (crypto : Crypto) {s : Store} (tidy : Tidy s)
include tidy

theorem get_var_store (name : Str) (vendor : Guid) :
    ∃ result current, efi_get_var build s name vendor = (result,with_current s current) ∧ Tidy (with_current s current) := by
  obtain ⟨current,reads,still⟩ := get_variable_eq tidy build.image name vendor 0 false 0
  obtain ⟨current',again,still'⟩ := get_variable_eq still build.image name vendor
    (reading build.image s.vars name 0 false 0 (lookup Var.key s.vars (vendor,name))).data_size true 0
  rw [efi_get_var,reads]
  simp only
  split
  · rw [again]
    simp only
    split
    · exact ⟨_,current',rfl,still'⟩
    · exact ⟨_,current',rfl,still'⟩
  · exact ⟨_,current,rfl,still⟩

theorem parse_sigdb_store (name : Str) :
    ∃ result current, efi_sigstore_parse_sigdb build crypto s name = (result,with_current s current) ∧
      Tidy (with_current s current) := by
  obtain ⟨result,current,gets,still⟩ := get_var_store build tidy name (efi_auth_var_get_guid name)
  rw [efi_sigstore_parse_sigdb,gets]
  cases result with
  | none | some db => exact ⟨_,current,rfl,still⟩

theorem truststores_store (var_type : AuthVarType) :
    ∃ result current, truststores build crypto s var_type = (result,with_current s current) ∧
      Tidy (with_current s current) := by
  have with_pk : ∃ result current, (match efi_sigstore_parse_sigdb build crypto s PK with
      | (none,s) => (.error .EFI_SECURITY_VIOLATION,s)
      | (some truststore,s) => (.ok (truststore,none),s) :
        Except Status (crypto.SignatureStore × Option crypto.SignatureStore) × Store) = (result,with_current s current) ∧
      Tidy (with_current s current) := by
    obtain ⟨result,current,parses,still⟩ := parse_sigdb_store build crypto tidy PK
    rw [parses]
    cases result with
    | none | some truststore => exact ⟨_,current,rfl,still⟩
  have with_kek : ∃ result current, truststores build crypto s .EFI_AUTH_VAR_DB = (result,with_current s current) ∧
      Tidy (with_current s current) := by
    obtain ⟨first,current,parses,still⟩ := parse_sigdb_store build crypto tidy KEK
    obtain ⟨second,current',again,still'⟩ := parse_sigdb_store build crypto still PK
    rw [truststores,parses]
    simp only [again]
    cases first with
    | none =>
      cases second with
      | none | some truststore2 => exact ⟨_,current',rfl,still'⟩
    | some truststore => exact ⟨_,current',rfl,still'⟩
  cases var_type with
  | EFI_AUTH_VAR_PK | EFI_AUTH_VAR_KEK => exact with_pk
  | EFI_AUTH_VAR_DB | EFI_AUTH_VAR_DBX => exact with_kek
  | EFI_AUTH_VAR_NONE | EFI_AUTH_MODE | EFI_AUTH_VAR_DBT | EFI_AUTH_VAR_DBR => exact ⟨_,s.current,rfl,tidy⟩

end reading

section authentic
variable (build : Build) (crypto : Crypto) {s : State} (tidy : Tidy s.store)
include tidy

theorem authenticate_spec (name : Str) (vendor : Guid) (data : List UInt8) (attributes : Attributes) (time : Nat) :
    ∃ result current, efi_variable_authenticate build crypto s name vendor data attributes time =
        (result,with_current s.store current) ∧ Tidy (with_current s.store current) ∧
      ∀ payload new_time, result = .ok (payload,new_time) → s.efi_secure_boot = true → time < new_time := by
  rw [efi_variable_authenticate]
  simp only
  split
  · exact ⟨.error _,s.store.current,rfl,tidy,by simp⟩
  split
  · exact ⟨.error _,s.store.current,rfl,tidy,by simp⟩
  split
  · exact ⟨.error _,s.store.current,rfl,tidy,by simp⟩
  split
  · exact ⟨.error _,s.store.current,rfl,tidy,by simp⟩
  split
  next off =>
    exact ⟨_,s.store.current,rfl,tidy,by simp [off]⟩
  split
  · exact ⟨.error _,s.store.current,rfl,tidy,by simp⟩
  next later =>
    split
    · exact ⟨.error _,s.store.current,rfl,tidy,by simp⟩
    split
    · exact ⟨.error _,s.store.current,rfl,tidy,by simp⟩
    next var_sig parsed =>
      obtain ⟨result,current,trusts,still⟩ := truststores_store build crypto tidy (efi_auth_var_get_type name vendor)
      rw [trusts]
      cases result with
      | error status => exact ⟨.error status,current,rfl,still,by simp⟩
      | ok trusted =>
        obtain ⟨truststore,truststore2⟩ := trusted
        simp only
        split
        · refine ⟨_,current,rfl,still,?_⟩
          intro payload new_time same _
          cases same
          omega
        · exact ⟨.error _,current,rfl,still,by simp⟩

theorem authentication_spec (r : Request) (time : Nat) :
    ∃ result current, authentication build crypto s r time = (result,with_current s.store current) ∧
      Tidy (with_current s.store current) ∧
      ∀ data time' authenticated, result = .ok (data,time',authenticated) →
        (r.signed = false ∧ authenticated = none ∧ data = r.data ∧ time' = time) ∨
        (r.signed = true ∧ build.EFI_SECURE_BOOT = true ∧ authenticated = some time' ∧
          (efi_variable_authenticate build crypto s r.variable_name r.vendor r.data r.attributes time).1 = .ok (data,time') ∧
          (s.efi_secure_boot = true → time < time')) := by
  obtain ⟨result,current,authenticates,still,later⟩ :=
    authenticate_spec build crypto tidy r.variable_name r.vendor r.data r.attributes time
  rw [authentication]
  by_cases signed : r.signed = true
  · by_cases secure : build.EFI_SECURE_BOOT = true
    · rw [if_pos secure,if_pos signed,authenticates]
      cases result with
      | error status => exact ⟨.error status,current,rfl,still,by simp⟩
      | ok stored =>
        obtain ⟨payload,new_time⟩ := stored
        refine ⟨_,current,rfl,still,?_⟩
        intro data time' authenticated same
        cases same
        exact .inr ⟨signed,secure,rfl,rfl,later payload new_time rfl⟩
    · rw [if_neg secure,if_pos signed]
      exact ⟨.error _,s.store.current,rfl,tidy,by simp⟩
  · simp only [if_neg signed,ite_self]
    refine ⟨_,s.store.current,rfl,tidy,?_⟩
    intro data time' authenticated same
    cases same
    exact .inl ⟨by simpa using signed,rfl,rfl,rfl⟩

end authentic

def looked_up (s : State) (r : Request) : State :=
  with_store s (efi_var_mem_find s.store r.vendor r.variable_name).2.2

def stored (s : State) (r : Request) : Option Var := lookup Var.key s.store.vars r.key

def new_var (r : Request) (var : Option Var) (data : List UInt8) (time : Nat) : Var :=
  match var with
  | some var =>
    if r.append then ⟨r.vendor,r.variable_name,r.attributes &&& ~~~EFI_VARIABLE_APPEND_WRITE,time,var.data ++ data⟩
    else ⟨r.vendor,r.variable_name,r.attributes,time,data⟩
  | none => ⟨r.vendor,r.variable_name,r.attributes,time,data⟩

/-- A request that is let through: it is allowed, agrees with the variable that
    exists, and is authenticated where it has to be. -/
structure Passes (build : Build) (crypto : Crypto) (s : State) (r : Request) (ro_check : Bool) (data : List UInt8) (time : Nat)
    (authenticated : Option Nat) : Prop where
  allowed : setvariable_allowed r.variable_name r.attributes = none
  checked : attribute_check build r ro_check (stored s r) = none
  authentic : (authentication build crypto (looked_up s r) r ((stored s r).elim 0 Var.time)).1 = .ok (data,time,authenticated)

/-- What an authenticated request without data, or one to delete, does. -/
def Deletes (r : Request) (data : List UInt8) (authenticated : Option Nat) : Prop :=
  r.delete = true ∨ authenticated ≠ none ∧ data = []

inductive Sets (build : Build) (crypto : Crypto) (init : State → Ret) (s : State) (r : Request) (ro_check : Bool) : Ret → Prop
  /-- Nothing changes but the cache; the status is that of a check. -/
  | refused (status : Status) (current : Option Nat) (tidy : Tidy (with_current s.store current))
      (reason : setvariable_allowed r.variable_name r.attributes = some status ∨
        setvariable_allowed r.variable_name r.attributes = none ∧ (attribute_check build r ro_check (stored s r) = some status ∨
          attribute_check build r ro_check (stored s r) = none ∧
            (authentication build crypto (looked_up s r) r ((stored s r).elim 0 Var.time)).1 = .error status)) :
      Sets build crypto init s r ro_check (.value ⟨status,with_store s (with_current s.store current),none⟩)
  | null (data : List UInt8) (time : Nat) (authenticated : Option Nat)
      (passes : Passes build crypto s r ro_check data time authenticated) (deletes : Deletes r data authenticated)
      (missing : stored s r = none) :
      Sets build crypto init s r ro_check .null_dereference
  | full (data : List UInt8) (time : Nat) (authenticated : Option Nat)
      (passes : Passes build crypto s r ro_check data time authenticated) (keeps : ¬ Deletes r data authenticated)
      (large : buf_length s.store.vars+used_len r.variable_name (new_var r (stored s r) data time).data.length >
        build.EFI_VAR_BUF_SIZE)
      (differs : r.append = false → stored s r ≠ some (new_var r (stored s r) data time))
      (current : Option Nat) (tidy : Tidy (with_current s.store current)) :
      Sets build crypto init s r ro_check
        (.value ⟨.EFI_OUT_OF_RESOURCES,with_store s (with_current s.store current),authenticated⟩)
  | same (data : List UInt8) (time : Nat) (authenticated : Option Nat)
      (passes : Passes build crypto s r ro_check data time authenticated) (keeps : ¬ Deletes r data authenticated)
      (found : stored s r = some (new_var r (stored s r) data time))
      (current : Option Nat) (tidy : Tidy (with_current s.store current)) :
      Sets build crypto init s r ro_check (.value ⟨.EFI_SUCCESS,with_store s (with_current s.store current),authenticated⟩)
  | deleted (old : Var) (data : List UInt8) (time : Nat) (authenticated : Option Nat)
      (passes : Passes build crypto s r ro_check data time authenticated) (deletes : Deletes r data authenticated)
      (found : stored s r = some old) (current : Option Nat)
      (tidy : Tidy ⟨updated s.store.vars (place Var.key s.store.vars r.key) none,current⟩) (ret : Ret)
      (follows : ret = efi_variable_changed build init
        (with_store s ⟨updated s.store.vars (place Var.key s.store.vars r.key) none,current⟩) r old.attr authenticated) :
      Sets build crypto init s r ro_check ret
  | stored (data : List UInt8) (time : Nat) (authenticated : Option Nat)
      (passes : Passes build crypto s r ro_check data time authenticated) (keeps : ¬ Deletes r data authenticated)
      (fits : buf_length s.store.vars+used_len r.variable_name (new_var r (stored s r) data time).data.length ≤
        build.EFI_VAR_BUF_SIZE)
      (current : Option Nat)
      (tidy : Tidy ⟨updated s.store.vars (place Var.key s.store.vars r.key) (some (new_var r (stored s r) data time)),current⟩)
      (ret : Ret)
      (follows : ret = efi_variable_changed build init (with_store s ⟨updated s.store.vars (place Var.key s.store.vars r.key)
        (some (new_var r (stored s r) data time)),current⟩) r r.attributes authenticated) :
      Sets build crypto init s r ro_check ret

theorem new_var_key (r : Request) (var : Option Var) (data : List UInt8) (time : Nat) : (new_var r var data time).key = r.key := by
  rw [new_var.eq_def]
  cases var with
  | none => rfl
  | some var =>
    simp only
    split <;> rfl

theorem allowed_named {name : Str} {attributes : Attributes} (allowed : setvariable_allowed name attributes = none) :
    name.chars ≠ [] := by
  intro empty
  rw [setvariable_allowed,if_pos empty] at allowed
  cases allowed

theorem unsigned_authentic (build : Build) (crypto : Crypto) {s : State} {r : Request} (unsigned : r.signed = false) (time : Nat) :
    authentication build crypto s r time = (.ok (r.data,time,none),s.store) := by
  rw [authentication,unsigned]
  split <;> rfl

section calls
variable (build : Build) (crypto : Crypto) {s : State} (tidy : Tidy s.store)
include tidy

/-- What a request that is let through was authenticated with. -/
theorem passes_authentic {data : List UInt8} {time : Nat} {authenticated : Option Nat}
    (passes : Passes build crypto s r ro_check data time authenticated) :
    (r.signed = false ∧ authenticated = none ∧ data = r.data ∧ time = (stored s r).elim 0 Var.time) ∨
    (r.signed = true ∧ authenticated = some time ∧
      (efi_variable_authenticate build crypto (looked_up s r) r.variable_name r.vendor r.data r.attributes
        ((stored s r).elim 0 Var.time)).1 = .ok (data,time) ∧
      (s.efi_secure_boot = true → (stored s r).elim 0 Var.time < time)) := by
  obtain ⟨current,finds,still⟩ := find_eq_scan tidy r.vendor r.variable_name
  have tidy_up : Tidy (looked_up s r).store := by
    rw [looked_up,finds]
    exact still
  obtain ⟨result,_,authenticates,_,spec⟩ := authentication_spec build crypto tidy_up r ((stored s r).elim 0 Var.time)
  have outcome := passes.authentic
  rw [authenticates] at outcome
  rcases spec data time authenticated outcome with unsigned | ⟨signed,_,stamped,payload,later⟩
  · exact .inl unsigned
  · exact .inr ⟨signed,stamped,payload,later⟩

theorem store_data_inserted (r : Request) {var : Option Var} (data : List UInt8) (time : Nat) :
    ∃ data2 status changed store, Inserted build.EFI_VAR_BUF_SIZE s.store (new_var r var data time) data2 true
        (status,changed,store) ∧ (r.append = false → data2 = []) ∧
      store_data build s.store r false var data time = some (status,r.attributes,changed,store) := by
  rw [store_data.eq_def,if_neg (by simp),new_var.eq_def]
  cases var with
  | none =>
    have inserted := ins_inserted tidy build.EFI_VAR_BUF_SIZE r.variable_name r.vendor r.attributes data [] time true
    rw [append_nil] at inserted
    exact ⟨[],_,_,_,inserted,fun _ => rfl,rfl⟩
  | some var =>
    simp only
    split
    next append =>
      have inserted := ins_inserted tidy build.EFI_VAR_BUF_SIZE r.variable_name r.vendor
        (r.attributes &&& ~~~EFI_VARIABLE_APPEND_WRITE) var.data data time true
      refine ⟨data,_,_,_,inserted,fun no_append => ?_,rfl⟩
      rw [no_append] at append
      cases append
    next =>
      have inserted := ins_inserted tidy build.EFI_VAR_BUF_SIZE r.variable_name r.vendor r.attributes data [] time true
      rw [append_nil] at inserted
      exact ⟨[],_,_,_,inserted,fun _ => rfl,rfl⟩

theorem set_variable_sets (init : State → Ret) (r : Request) (ro_check : Bool) :
    Sets build crypto init s r ro_check (set_variable build crypto init s r ro_check) := by
  rw [set_variable.eq_def]
  cases allowed : setvariable_allowed r.variable_name r.attributes with
  | some status => exact .refused status s.store.current tidy (.inl allowed)
  | none =>
    obtain ⟨current,finds,still⟩ := find_eq_scan tidy r.vendor r.variable_name
    have up : looked_up s r = with_store s (with_current s.store current) := by rw [looked_up,finds]
    have vars : (with_current s.store current).vars = s.store.vars := rfl
    have var : ((place Var.key s.store.vars (r.vendor,r.variable_name)).bind fun i => s.store.vars[i]?) = stored s r :=
      place_lookup tidy.distinct r.key
    simp only [finds,vars,var]
    cases checked : attribute_check build r ro_check (stored s r) with
    | some status => exact .refused status current still (.inr ⟨allowed,.inl checked⟩)
    | none =>
      have still_up : Tidy (looked_up s r).store := by rw [up]; exact still
      obtain ⟨result,current',authenticates,still',_⟩ :=
        authentication_spec build crypto still_up r ((stored s r).elim 0 Var.time)
      have outcome : (authentication build crypto (looked_up s r) r ((stored s r).elim 0 Var.time)).1 = result := by
        rw [authenticates]
      rw [up] at authenticates still'
      have store : with_current (with_store s (with_current s.store current)).store current' = with_current s.store current' := rfl
      rw [store] at authenticates still'
      simp only [authenticates]
      cases result with
      | error status => exact .refused status current' still' (.inr ⟨allowed,.inr ⟨checked,outcome⟩⟩)
      | ok answer =>
        obtain ⟨data,time,authenticated⟩ := answer
        have passes : Passes build crypto s r ro_check data time authenticated := ⟨allowed,checked,outcome⟩
        simp only
        by_cases deletes : Deletes r data authenticated
        · rw [show decide (r.delete = true ∨ authenticated ≠ none ∧ data = []) = true from decide_eq_true deletes]
          cases found : stored s r with
          | none => exact .null data time authenticated passes deletes found
          | some old =>
            obtain ⟨current'',erases,tidied⟩ := del_updated tidy still' none (by simp) (by simp)
            refine .deleted old data time authenticated passes deletes found current'' tidied _ ?_
            rw [Option.toList_none,append_nil] at erases
            show efi_variable_changed build init (with_store s (efi_var_mem_del (with_current s.store current')
              (place Var.key s.store.vars r.key))) r old.attr authenticated = _
            rw [show with_current s.store current' = ⟨s.store.vars,current'⟩ from rfl,erases]
        rw [show decide (r.delete = true ∨ authenticated ≠ none ∧ data = []) = false from decide_eq_false deletes]
        have tidy' : Tidy (with_store s (with_current s.store current')).store := still'
        obtain ⟨data2,status,changed,store,inserted,whole,stores⟩ := @store_data_inserted build _ tidy' r (stored s r) data time
        have key := new_var_key r (stored s r) data time
        have some_name : (new_var r (stored s r) data time).name.chars ≠ [] := by
          rw [show (new_var r (stored s r) data time).name = r.variable_name from congrArg Prod.snd key]
          exact allowed_named allowed
        rw [show (with_store s (with_current s.store current')).store = with_current s.store current' from rfl] at stores inserted
        simp only [stores]
        cases inserted with
        | same current'' still'' plain found =>
          refine .same data time authenticated passes deletes ?_ current'' still''
          rw [key] at found
          exact found
        | full current'' still'' large differs =>
          rw [show (new_var r (stored s r) data time).name = r.variable_name from congrArg Prod.snd key] at large
          rw [key] at differs
          exact .full data time authenticated passes deletes large (fun no_append => differs (whole no_append) rfl) current'' still''
        | added current'' still'' fits differs =>
          have its_key : ∀ var ∈ some (new_var r (stored s r) data time), var.key = r.key := by
            simpa using key
          obtain ⟨current3,erases,tidied⟩ := del_updated tidy still'' (some (new_var r (stored s r) data time)) its_key
            (by simpa using some_name)
          rw [show (new_var r (stored s r) data time).name = r.variable_name from congrArg Prod.snd key] at fits
          refine .stored data time authenticated passes deletes fits current3 tidied _ ?_
          show efi_variable_changed build init (with_store s (efi_var_mem_del ⟨s.store.vars ++
            (some (new_var r (stored s r) data time)).toList,current''⟩ (place Var.key s.store.vars r.key))) r r.attributes
            authenticated = _
          rw [erases]

/-- The storage changes the cache at most. -/
theorem to_storage_returns : ∃ current, efi_var_to_storage build s.store = some (with_current s.store current) ∧
    Tidy (with_current s.store current) := by
  obtain ⟨result,current,returns,still⟩ := collect_returns build.toLayout EFI_VARIABLE_NON_VOLATILE tidy true
  refine ⟨current,?_,still⟩
  rw [efi_var_to_storage,returns]
  rfl

/-- After a change the variables stay as they are, unless the platform key has
    changed. -/
theorem changed_returns {init : State → Ret} {r : Request} (other : r.var_type ≠ .EFI_AUTH_VAR_PK) (attributes : Attributes)
    (authenticated : Option Nat) :
    ∃ current, efi_variable_changed build init s r attributes authenticated =
        .value ⟨.EFI_SUCCESS,with_store s (with_current s.store current),authenticated⟩ ∧
      Tidy (with_current s.store current) := by
  rw [efi_variable_changed,if_neg other]
  simp only
  split
  · obtain ⟨current,stores,still⟩ := to_storage_returns build tidy
    rw [stores]
    exact ⟨current,rfl,still⟩
  · exact ⟨s.store.current,rfl,tidy⟩

/-- A call with attributes that are known. -/
theorem efi_set_variable_sets (mask : r.attributes &&& ~~~EFI_VARIABLE_MASK = 0) :
    Sets build crypto (efi_init_secure_state build (efi_set_variable_int build crypto 0)) s r true
      (efi_set_variable build crypto s r) := by
  rw [efi_set_variable,if_neg (by simpa using mask)]
  exact set_variable_sets build crypto tidy (efi_init_secure_state build (efi_set_variable_int build crypto 0)) r true

end calls

/-- The call goes on to the second half, once the request is let through. -/
theorem not_refused {build : Build} {crypto : Crypto} {s : State} {status : Status}
    {data : List UInt8} {time : Nat} {authenticated : Option Nat}
    (passes : Passes build crypto s r true data time authenticated) :
    ¬ (setvariable_allowed r.variable_name r.attributes = some status ∨
      setvariable_allowed r.variable_name r.attributes = none ∧ (attribute_check build r true (stored s r) = some status ∨
        attribute_check build r true (stored s r) = none ∧
          (authentication build crypto (looked_up s r) r ((stored s r).elim 0 Var.time)).1 = .error status)) := by
  rintro (forbidden | ⟨_,checked | ⟨_,failed⟩⟩)
  · rw [passes.allowed] at forbidden
    cases forbidden
  · rw [passes.checked] at checked
    cases checked
  · rw [passes.authentic] at failed
    cases failed

/-- A variable that a request may change can be written, and has the attributes
    of the request unless it is to be deleted. -/
theorem check_agrees {build : Build} {var : Var} (checked : attribute_check build r true (some var) = none) :
    var.attr &&& EFI_VARIABLE_READ_ONLY = 0 ∧
      (r.delete = true ∨ var.attr = r.attributes &&& ~~~EFI_VARIABLE_APPEND_WRITE) := by
  rw [attribute_check.eq_def] at checked
  simp only at checked
  split at checked
  · cases checked
  next writable =>
    split at checked
    · cases checked
    split at checked
    · cases checked
    next agrees =>
      constructor
      · by_contra read_only
        exact writable ⟨trivial,read_only⟩
      · by_contra differs
        rw [not_or] at differs
        exact agrees ⟨by simpa using differs.1,.inl ⟨trivial,differs.2⟩⟩

/-- A check succeeds at once only for a request that appends nothing to nothing. -/
theorem check_success {build : Build} {var : Option Var}
    (success : attribute_check build r ro_check var = some .EFI_SUCCESS) : var = none ∧ r.append = true ∧ r.data = [] := by
  rw [attribute_check.eq_def] at success
  cases var with
  | none =>
    simp only at success
    split at success
    next appends => exact ⟨rfl,appends⟩
    next => split_ifs at success <;> simp at success
  | some var =>
    simp only at success
    split_ifs at success <;> simp at success

theorem allowed_not_success (name : Str) (attributes : Attributes) : setvariable_allowed name attributes ≠ some .EFI_SUCCESS := by
  rw [setvariable_allowed]
  split_ifs <;> simp

/-- Without a signature no authenticated variable is set. -/
theorem unsigned_refused {build : Build} {var : Option Var} (type : r.var_type.from_pk = true)
    (unsigned : r.signed = false) : attribute_check build r ro_check var ≠ none := by
  intro passes
  rw [attribute_check.eq_def] at passes
  have mandatory : (if r.var_type.from_pk = true ∧ r.signed = false then some Status.EFI_INVALID_PARAMETER else none) =
      some .EFI_INVALID_PARAMETER := if_pos ⟨type,unsigned⟩
  cases var with
  | none | some var =>
    simp only [mandatory] at passes
    split_ifs at passes

end UBoot.EfiVar
