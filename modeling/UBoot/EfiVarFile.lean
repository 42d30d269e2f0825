import UBoot.EfiSecureState

/-!
Variables across a reboot: what `efi_var_collect` writes and `efi_var_restore`
reads back. A file comes about exactly if the names of the store fit into the room
that the collector has for them (`Roomy`); the collector wants room for the name of
the last variable behind the last entry, so a store that is nearly full has none.
-/
namespace UBoot.EfiVar
open UBoot.Words UBoot.KeyedLists UBoot.Runs List

def survivors (vars : List Var) : List Var :=
  vars.filter fun var => var.attr &&& EFI_VARIABLE_NON_VOLATILE = EFI_VARIABLE_NON_VOLATILE ∧
    efi_auth_var_get_type var.name var.guid = .EFI_AUTH_VAR_NONE ∧ var.guid ≠ shim_lock_guid

/-- The variables are collected, and restoring the file into an empty store gives
    those that are to survive. -/
def Survives (layout : Layout) (s : Store) : Prop :=
  ∃ file after restored, efi_var_collect layout s EFI_VARIABLE_NON_VOLATILE true = some (.ok file,after) ∧
    efi_var_restore layout ⟨[],none⟩ file false = (.EFI_SUCCESS,restored) ∧ restored.vars = survivors s.vars

def FitsFrom (size : Nat) : Nat → List Var → Prop
  | _, [] => True
  | offset, var :: rest => offset+used_len var.name var.data.length ≤ size ∧ FitsFrom size (offset+efi_var_entry_len var) rest

theorem FitsFrom.lower {size : Nat} {vars : List Var} {offset lower : Nat} (fits : FitsFrom size offset vars)
    (less : lower ≤ offset) : FitsFrom size lower vars := by
  induction vars generalizing offset lower with
  | nil => trivial
  | cons var rest ih =>
    obtain ⟨here,there⟩ := fits
    exact ⟨by omega,ih there (by omega)⟩

section restoring
variable (layout : Layout)

theorem survivors_cons (var : Var) (rest : List Var) : survivors (var :: rest) =
    if var.attr &&& EFI_VARIABLE_NON_VOLATILE = EFI_VARIABLE_NON_VOLATILE ∧
        efi_auth_var_get_type var.name var.guid = .EFI_AUTH_VAR_NONE ∧ var.guid ≠ shim_lock_guid then var :: survivors rest
    else survivors rest := by
  rw [survivors,filter_cons]
  simp only [decide_eq_true_eq]
  rfl

theorem non_volatile_iff (attr : Attributes) :
    attr &&& EFI_VARIABLE_NON_VOLATILE = EFI_VARIABLE_NON_VOLATILE ↔ attr &&& EFI_VARIABLE_NON_VOLATILE ≠ 0 := by
  have one : EFI_VARIABLE_NON_VOLATILE = 1#32 := rfl
  rw [one,BitVec.and_one_eq_setWidth_ofBool_getLsbD]
  cases attr.getLsbD 0 with
  | false => decide
  | true => decide

/-- Restoring entries that fit and are not there yet. -/
theorem restore_loop_survivors {vars : List Var} (named : ∀ var ∈ vars, var.name.chars ≠ []) (filled : Filled vars)
    (distinct : Distinct Var.key vars) {s : Store} (tidy : Tidy s)
    (fresh : ∀ var ∈ vars, lookup Var.key s.vars var.key = none)
    (fits : FitsFrom layout.EFI_VAR_BUF_SIZE (buf_length s.vars) vars) :
    (restore_loop layout false vars s).vars = s.vars ++ survivors vars := by
  induction vars generalizing s with
  | nil => simp [restore_loop,survivors]
  | cons var rest ih =>
    have rest_named : ∀ var ∈ rest, var.name.chars ≠ [] := fun other member => named other (mem_cons_of_mem _ member)
    have rest_filled : Filled rest := fun other member => filled other (mem_cons_of_mem _ member)
    have rest_fresh : ∀ var ∈ rest, lookup Var.key s.vars var.key = none :=
      fun other member => fresh other (mem_cons_of_mem _ member)
    obtain ⟨apart,rest_distinct⟩ := distinct_cons.mp distinct
    obtain ⟨here,there⟩ := fits
    rw [restore_loop,survivors_cons]
    split
    next skips =>
      have gone : ¬ (var.attr &&& EFI_VARIABLE_NON_VOLATILE = EFI_VARIABLE_NON_VOLATILE ∧
          efi_auth_var_get_type var.name var.guid = .EFI_AUTH_VAR_NONE ∧ var.guid ≠ shim_lock_guid) := by
        rw [non_volatile_iff]
        rintro ⟨non_volatile,type,guid⟩
        rcases skips.2 with typed | shim | is_volatile
        · exact typed type
        · exact guid shim
        · exact non_volatile is_volatile
      rw [if_neg gone]
      exact ih rest_named rest_filled rest_distinct tidy rest_fresh (there.lower (by omega))
    next keeps =>
      have stays : var.attr &&& EFI_VARIABLE_NON_VOLATILE = EFI_VARIABLE_NON_VOLATILE ∧
          efi_auth_var_get_type var.name var.guid = .EFI_AUTH_VAR_NONE ∧ var.guid ≠ shim_lock_guid := by
        rw [non_volatile_iff]
        by_contra lost
        refine keeps ⟨rfl,?_⟩
        by_contra none_of_them
        rw [not_or,not_or,not_not] at none_of_them
        exact lost ⟨none_of_them.2.2,none_of_them.1,none_of_them.2.1⟩
      rw [if_pos stays,if_neg (filled var mem_cons_self)]
      obtain ⟨current,finds,still⟩ := find_eq_scan tidy var.guid var.name
      have nowhere : place Var.key s.vars (var.guid,var.name) = none := place_eq_none.mpr (fresh var mem_cons_self)
      rw [nowhere] at finds
      simp only [finds,ne_eq,not_true_eq_false,if_false]
      have inserted := ins_inserted still layout.EFI_VAR_BUF_SIZE var.name var.guid var.attr var.data [] var.time false
      rw [append_nil] at inserted
      generalize efi_var_mem_ins layout.EFI_VAR_BUF_SIZE (with_current s current) var.name var.guid var.attr var.data []
        var.time false = result at inserted
      cases inserted with
      | same current' still' plain found => exact absurd plain.2 (by simp)
      | full current' still' large differs => exact absurd here (not_le.mpr large)
      | added current' still' fits' differs =>
        have tidied : Tidy ⟨s.vars ++ [var],current'⟩ := still'.append_one (named var mem_cons_self) (fresh var mem_cons_self)
        have fresh' : ∀ other ∈ rest, lookup Var.key (s.vars ++ [var]) other.key = none := by
          intro other member
          rw [lookup_eq_none]
          intro known is_known
          rcases mem_append.mp is_known with old | new
          · exact lookup_eq_none.mp (rest_fresh other member) known old
          · rw [mem_singleton.mp new]
            exact fun same => apart other member same.symm
        have length : buf_length (s.vars ++ [var]) = buf_length s.vars+efi_var_entry_len var := by
          simp [buf_length]
          omega
        have done := ih rest_named rest_filled rest_distinct tidied fresh' (length ▸ there)
        refine done.trans ?_
        simp

section room
variable (all : List Var)

def NoFile (vars : List Var) : Prop := ∀ var ∈ masked EFI_VARIABLE_NON_VOLATILE vars, var.name ≠ VarToFile

theorem after_var_eq {offset : Nat} (aligned : offset%8 = 0) {var : Var} (other : var.name ≠ VarToFile)
    (keep : var.attr &&& EFI_VARIABLE_NON_VOLATILE = EFI_VARIABLE_NON_VOLATILE) :
    after_var EFI_VARIABLE_NON_VOLATILE all offset var = offset+efi_var_entry_len var := by
  rw [after_var,if_pos keep,read_len,if_neg other,efi_var_entry_len,roundUp,roundUp]
  omega

theorem roomy_fits {todo : List Var} (no_file : NoFile todo) {offset old_var_name_length : Nat} (aligned : offset%8 = 0)
    (roomy : Roomy layout EFI_VARIABLE_NON_VOLATILE all offset old_var_name_length todo) :
    FitsFrom layout.EFI_VAR_BUF_SIZE offset (masked EFI_VARIABLE_NON_VOLATILE todo) ∧
      offset ≤ end_of EFI_VARIABLE_NON_VOLATILE all offset todo ∧
      end_of EFI_VARIABLE_NON_VOLATILE all offset todo ≤ layout.EFI_VAR_BUF_SIZE := by
  set nv := EFI_VARIABLE_NON_VOLATILE
  induction todo generalizing offset old_var_name_length with
  | nil =>
    rw [Roomy] at roomy
    exact ⟨trivial,le_rfl,by rw [end_of,foldl_nil]; omega⟩
  | cons var rest ih =>
    obtain ⟨_,room,later⟩ := roomy
    have rest_no_file : NoFile rest := by
      intro other member
      refine no_file other ?_
      rw [masked_cons]
      split
      · exact mem_cons_of_mem _ member
      · exact member
    have ends : end_of nv all offset (var :: rest) =
        end_of nv all (after_var nv all offset var) rest := rfl
    rw [masked_cons,ends]
    by_cases keep : var.attr &&& nv = nv
    · have other : var.name ≠ VarToFile := no_file var (by rw [masked_cons,if_pos keep]; exact mem_cons_self)
      have next := after_var_eq all aligned other keep
      rw [read_len,if_neg other] at room
      rw [next] at later ⊢
      have aligned' : (offset+efi_var_entry_len var)%8 = 0 := by
        rw [efi_var_entry_len,roundUp]
        omega
      obtain ⟨fits,above,below⟩ := ih rest_no_file aligned' later
      rw [if_pos keep]
      exact ⟨⟨room,fits⟩,by omega,below⟩
    · have next : after_var nv all offset var = offset := by rw [after_var,if_neg keep]
      rw [next] at later ⊢
      rw [if_neg keep]
      exact ih rest_no_file aligned later

end room

theorem survivors_masked (vars : List Var) : survivors (masked EFI_VARIABLE_NON_VOLATILE vars) = survivors vars := by
  rw [survivors,survivors,masked,filter_filter]
  congr 1
  funext var
  by_cases keep : var.attr &&& EFI_VARIABLE_NON_VOLATILE = EFI_VARIABLE_NON_VOLATILE
  · simp [keep]
  · simp [keep]

theorem survives_iff_roomy {s : Store} (tidy : Tidy s) (filled : Filled s.vars) (no_file : NoFile s.vars) :
    Survives layout s ↔ Roomy layout EFI_VARIABLE_NON_VOLATILE s.vars SIZEOF_VAR_FILE 2 s.vars := by
  obtain ⟨result,current,collects,_,room,stuck⟩ := collect_collected layout EFI_VARIABLE_NON_VOLATILE tidy
  constructor
  · rintro ⟨file,after,restored,collects',_⟩
    by_contra no_room
    obtain ⟨status,failed⟩ := stuck no_room
    rw [collects,failed] at collects'
    cases collects'
  intro roomy
  obtain ⟨fits,above,below⟩ := roomy_fits layout s.vars no_file (by decide) roomy
  have unread : (masked EFI_VARIABLE_NON_VOLATILE s.vars).map (as_read layout s.vars) =
      masked EFI_VARIABLE_NON_VOLATILE s.vars := by
    refine (map_congr_left (fun var member => ?_)).trans (map_id _)
    rw [as_read,if_neg (no_file var member)]
    rfl
  have part : (masked EFI_VARIABLE_NON_VOLATILE s.vars).Sublist s.vars := filter_sublist
  rw [room roomy,unread] at collects
  refine ⟨_,_,restore_loop layout false (masked EFI_VARIABLE_NON_VOLATILE s.vars) ⟨[],none⟩,collects,?_,?_⟩
  · rw [efi_var_restore,if_neg]
    · rfl
    · simp only [file_of]
      omega
  · rw [restore_loop_survivors layout (fun var member => tidy.named var (part.mem member))
      (fun var member => filled var (part.mem member)) (tidy.distinct.sublist part) empty_tidy (fun _ _ => rfl) fits]
    exact survivors_masked s.vars

end restoring

structure Valid (s : Store) : Prop where
  tidy : Tidy s
  filled : Filled s.vars

def Ret.Keeps (ret : Ret) : Prop := ∀ done, ret = .value done → Valid done.state.store

section keeping
variable {build : Build} {crypto : Crypto}

theorem keeps_value {status : Status} {s : State} {authenticated : Option Nat} (valid : Valid s.store) :
    (Ret.value ⟨status,s,authenticated⟩).Keeps := by
  intro done same
  cases same
  exact valid

theorem keeps_next {ret : Ret} {rest : State → Ret} (keeps : ret.Keeps) (later : ∀ s, Valid s.store → (rest s).Keeps) :
    (ret.next rest).Keeps := by
  rw [Ret.next.eq_def]
  split
  next s authenticated => exact later s (keeps _ rfl)
  next => exact keeps

theorem new_var_some_data {s : State} (valid : Valid s.store) {r : Request} {ro_check : Bool} {data : List UInt8} {time : Nat}
    {authenticated : Option Nat} (passes : Passes build crypto s r ro_check data time authenticated)
    (keep : ¬ Deletes r data authenticated) : (new_var r (stored s r) data time).data ≠ [] := by
  by_cases empty : data = []
  · rcases passes_authentic build crypto valid.tidy passes with ⟨_,_,same,_⟩ | ⟨_,stamped,_⟩
    · -- Without data of its own the request appends to a variable that exists.
      have no_data : r.data = [] := same.symm.trans empty
      have append : r.append = true := by
        by_contra no_append
        exact keep (.inl (by simp [Request.delete,no_data,no_append]))
      cases found : stored s r with
      | none =>
        have checked := passes.checked
        rw [found,attribute_check.eq_def] at checked
        simp only at checked
        rw [if_pos ⟨append,no_data⟩] at checked
        cases checked
      | some var =>
        rw [new_var,if_pos append,empty,append_nil]
        exact valid.filled var (lookup_some found).1
    · exact absurd (.inr ⟨by simp [stamped],empty⟩) keep
  · exact new_var_filled empty time

theorem updated_filled {vars : List Var} (filled : Filled vars) {new : Option Var} (some_data : ∀ var ∈ new, var.data ≠ [])
    (old : Option Nat) : Filled (updated vars old new) := by
  intro var member
  rcases mem_append.mp member with kept | added
  · cases old with
    | none => exact filled var kept
    | some i => exact filled var ((eraseIdx_sublist vars i).mem kept)
  · exact some_data var (by simpa using added)

theorem changed_keeps {init : State → Ret} (init_keeps : ∀ s, Valid s.store → (init s).Keeps) {s : State} (valid : Valid s.store)
    (r : Request) (attributes : Attributes) (authenticated : Option Nat) :
    (efi_variable_changed build init s r attributes authenticated).Keeps := by
  unfold efi_variable_changed
  extract_lets stored
  have stores (s : State) (valid : Valid s.store) : (stored s).Keeps := by
    simp only [stored]
    split
    · obtain ⟨current,collects,still⟩ := to_storage_returns build valid.tidy
      rw [collects]
      exact @keeps_value _ (with_store s (with_current s.store current)) _ ⟨still,valid.filled⟩
    · exact keeps_value valid
  split
  · have initialized := init_keeps s valid
    split
    next done returns => exact stores done.state (initialized done returns)
    next other => exact initialized
  · exact stores s valid

theorem set_keeps {init : State → Ret} (init_keeps : ∀ s, Valid s.store → (init s).Keeps) {s : State} (valid : Valid s.store)
    (r : Request) (ro_check : Bool) : (set_variable build crypto init s r ro_check).Keeps := by
  have sets := set_variable_sets build crypto valid.tidy init r ro_check
  generalize set_variable build crypto init s r ro_check = ret at sets
  cases sets with
  | refused status current still reason => exact @keeps_value _ (with_store s _) _ ⟨still,valid.filled⟩
  | null => exact fun done same => by cases same
  | full data time authenticated passes keep large differs current still =>
    exact @keeps_value _ (with_store s _) _ ⟨still,valid.filled⟩
  | same data time authenticated passes keep found current still => exact @keeps_value _ (with_store s _) _ ⟨still,valid.filled⟩
  | deleted old data time authenticated passes deletes found current still _ follows =>
    rw [follows]
    exact changed_keeps init_keeps (s := with_store s _) ⟨still,updated_filled valid.filled (by simp) _⟩ r old.attr authenticated
  | stored data time authenticated passes keep fits current still _ follows =>
    rw [follows]
    exact changed_keeps init_keeps (s := with_store s _)
      ⟨still,updated_filled valid.filled (by simpa using new_var_some_data valid passes keep) _⟩ r r.attributes authenticated

theorem secure_mode_cache {s : Store} (tidy : Tidy s) :
    ∃ mode current, secure_mode build s = (mode,with_current s current) ∧ Tidy (with_current s current) := by
  by_cases secure : build.EFI_SECURE_BOOT = true
  · obtain ⟨current,mode,still⟩ := secure_mode_eq tidy secure
    exact ⟨_,current,mode,still⟩
  · refine ⟨.EFI_MODE_SETUP,s.current,?_,tidy⟩
    rw [secure_mode,if_neg secure]
    rfl

section setter
variable {set : Setter} (set_keeps : ∀ s r ro_check, Valid s.store → (set s r ro_check).Keeps)
include set_keeps

theorem set_secure_state_keeps {s : State} (valid : Valid s.store) (secure_boot setup_mode audit_mode deployed_mode : UInt8) :
    (efi_set_secure_state set s secure_boot setup_mode audit_mode deployed_mode).Keeps := by
  rw [efi_set_secure_state]
  refine keeps_next (set_keeps _ _ _ valid) (fun s valid => ?_)
  refine keeps_next (set_keeps _ _ _ valid) (fun s valid => ?_)
  refine keeps_next (set_keeps _ _ _ valid) (fun s valid => ?_)
  exact set_keeps _ _ _ valid

theorem init_keeps {s : State} (valid : Valid s.store) : (efi_init_secure_state build set s).Keeps := by
  obtain ⟨mode,current,is_mode,still⟩ := @secure_mode_cache build _ valid.tidy
  have cached : Valid (with_store s (with_current s.store current)).store := ⟨still,valid.filled⟩
  rw [efi_init_secure_state,is_mode]
  refine keeps_next ?_ (fun s valid => set_keeps _ _ _ valid)
  rw [efi_transfer_secure_state.eq_def]
  refine keeps_next ?_ (fun s valid => @keeps_value _ { s with efi_secure_mode := mode } _ valid)
  cases mode with
  | EFI_MODE_DEPLOYED => exact set_secure_state_keeps set_keeps cached 1 0 0 1
  | EFI_MODE_USER => exact set_secure_state_keeps set_keeps cached 1 0 0 0
  | EFI_MODE_SETUP => exact set_secure_state_keeps set_keeps cached 0 1 0 0
  | EFI_MODE_AUDIT =>
    exact keeps_next (set_keeps _ _ _ cached) (fun s valid => set_secure_state_keeps set_keeps valid 0 1 1 0)

end setter

theorem set_int_keeps (depth : Nat) {s : State} (valid : Valid s.store) (r : Request) (ro_check : Bool) :
    (efi_set_variable_int build crypto depth s r ro_check).Keeps := by
  induction depth generalizing s r ro_check with
  | zero => exact set_keeps (fun _ _ _ same => by cases same) valid r ro_check
  | succ depth ih => exact set_keeps (fun s valid => init_keeps (fun s r ro_check valid => ih valid r ro_check) valid) valid r ro_check

theorem step_valid {s : State} (valid : Valid s.store) (r : Request) : Valid (step build crypto s r).store := by
  have keeps : (efi_set_variable build crypto s r).Keeps := by
    rw [efi_set_variable]
    split
    · exact keeps_value valid
    · exact set_int_keeps 1 valid r true
  rw [step]
  split
  next done returns => exact keeps done returns
  next => exact valid

/-- Where the calls may start: without variables, or with those that were loaded. -/
def Boots (build : Build) (crypto : Crypto) (s : State) : Prop := s.store = ⟨[],none⟩ ∨ Started build crypto s

theorem boots_valid {s : State} (boots : Boots build crypto s) : Valid s.store := by
  rcases boots with empty | ⟨storage,efi_var_file,authenticated,storage_named,file_named,starts⟩
  · rw [empty]
    exact ⟨empty_tidy,by simp [Filled]⟩
  · obtain ⟨tidy,filled⟩ := @loaded_tidy build storage efi_var_file storage_named file_named
    exact @init_keeps build _ (fun s r ro_check valid => set_int_keeps 1 valid r ro_check) ⟨_,false,.EFI_MODE_SETUP⟩
      ⟨tidy,filled⟩ _ starts

end keeping

/-- In every state that calls reach the variables survive a reboot exactly if there
    is room to collect them; a variable named VarToFile, whose data is never read,
    is not kept. -/
theorem variables_survive {build : Build} {crypto : Crypto} {s : State} (boots : Boots build crypto s) (requests : List Request)
    (no_file : NoFile (run (step build crypto) s requests).store.vars) :
    Survives build.toLayout (run (step build crypto) s requests).store ↔
      Roomy build.toLayout EFI_VARIABLE_NON_VOLATILE (run (step build crypto) s requests).store.vars SIZEOF_VAR_FILE 2
        (run (step build crypto) s requests).store.vars := by
  have valid : Valid (run (step build crypto) s requests).store :=
    @invariant _ _ (step build crypto) (fun s => Valid s.store) (fun _ _ => True) (fun _ r valid _ => step_valid valid r) _ _
      (boots_valid boots) (along_of_forall (fun _ _ => trivial) s requests)
  exact survives_iff_roomy build.toLayout valid.tidy valid.filled no_file

def decideRoomy (layout : Layout) (mask : Attributes) (all : List Var) :
    ∀ offset old_var_name_length todo, Decidable (Roomy layout mask all offset old_var_name_length todo)
  | offset, old_var_name_length, [] => inferInstanceAs (Decidable (offset+SIZEOF_VAR_ENTRY+old_var_name_length < layout.EFI_VAR_BUF_SIZE))
  | offset, _, var :: rest =>
    @instDecidableAnd _ _ inferInstance (@instDecidableAnd _ _ inferInstance
      (decideRoomy layout mask all (after_var mask all offset var) (name_size var.name) rest))

instance (layout : Layout) (mask : Attributes) (all : List Var) (offset old_var_name_length : Nat) (todo : List Var) :
    Decidable (Roomy layout mask all offset old_var_name_length todo) := decideRoomy layout mask all offset old_var_name_length todo

def small_build : Build := ⟨⟨4096,fun _ => [],fun _ => 0⟩,false,false,false⟩
def no_keys : Crypto := ⟨Unit,Unit,fun _ => none,fun _ => none,(),fun _ _ _ => false⟩
def small_start : State := ⟨⟨[],none⟩,false,.EFI_MODE_SETUP⟩
def large_request (length : Nat) : Request := ⟨u ['v'],1,7,List.replicate length 0⟩

theorem variables_survive_small :
    Survives small_build.toLayout (run (step small_build no_keys) small_start [large_request 5]).store := by
  have room : Roomy small_build.toLayout EFI_VARIABLE_NON_VOLATILE (run (step small_build no_keys) small_start
      [large_request 5]).store.vars SIZEOF_VAR_FILE 2 (run (step small_build no_keys) small_start [large_request 5]).store.vars := by
    decide +kernel
  have no_file : NoFile (run (step small_build no_keys) small_start [large_request 5]).store.vars := by
    rw [NoFile]
    decide +kernel
  exact (variables_survive (.inl rfl) [large_request 5] no_file).mpr room

/-- A variable that fills the buffer to its end is not collected. -/
theorem full_buffer_lost : (run (step small_build no_keys) small_start [large_request 4036]).store.vars.length = 1 ∧
    ¬ Survives small_build.toLayout (run (step small_build no_keys) small_start [large_request 4036]).store := by
  refine ⟨by decide +kernel,?_⟩
  rintro ⟨file,after,restored,collects,_⟩
  have fails : ((efi_var_collect small_build.toLayout (run (step small_build no_keys) small_start
      [large_request 4036]).store EFI_VARIABLE_NON_VOLATILE true).map fun outcome => outcome.1.toOption.isNone) = some true := by
    decide +kernel
  rw [collects] at fails
  cases fails

end UBoot.EfiVar
