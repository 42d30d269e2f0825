import UBoot.KeyedLists
import UBoot.Words
import Mathlib.Tactic

/-!
The EFI variables in memory, `lib/efi_loader/efi_var_mem.c`. The entries stand one behind another in
`efi_var_buf`, and an entry is known here by its index; a pointer into the buffer is an index, and
pointers compare as indices do. The last entry that a lookup found is cached (`efi_current_var`):
as long as no two entries have one name and GUID a lookup is a scan (`find_eq_scan`).
-/
namespace UBoot.EfiVar
open UBoot.Words UBoot.KeyedLists List Option

inductive Status where
  | EFI_SUCCESS
  | EFI_INVALID_PARAMETER
  | EFI_UNSUPPORTED
  | EFI_BUFFER_TOO_SMALL
  | EFI_WRITE_PROTECTED
  | EFI_OUT_OF_RESOURCES
  | EFI_NOT_FOUND
  | EFI_SECURITY_VIOLATION
deriving DecidableEq, Repr

/-- A zero-terminated string of 16 bit characters, without the terminator. -/
structure Str where
  chars : List UInt16
  zero_free : 0 ∉ chars
deriving DecidableEq

abbrev Guid := BitVec 128
abbrev Attributes := BitVec 32

def EFI_VARIABLE_NON_VOLATILE : Attributes := 0x00000001
def EFI_VARIABLE_BOOTSERVICE_ACCESS : Attributes := 0x00000002
def EFI_VARIABLE_RUNTIME_ACCESS : Attributes := 0x00000004
def EFI_VARIABLE_HARDWARE_ERROR_RECORD : Attributes := 0x00000008
def EFI_VARIABLE_AUTHENTICATED_WRITE_ACCESS : Attributes := 0x00000010
def EFI_VARIABLE_TIME_BASED_AUTHENTICATED_WRITE_ACCESS : Attributes := 0x00000020
def EFI_VARIABLE_APPEND_WRITE : Attributes := 0x00000040
def EFI_VARIABLE_ENHANCED_AUTHENTICATED_ACCESS : Attributes := 0x00000080
def EFI_VARIABLE_MASK : Attributes := 0x000000ff
def EFI_VARIABLE_READ_ONLY : Attributes := 0x80000000

/-- `struct efi_var_entry`; its `length` is that of the data. -/
structure Var where
  guid : Guid
  name : Str
  attr : Attributes
  time : Nat
  data : List UInt8
deriving DecidableEq

/-- The entries of `efi_var_buf` and `efi_current_var`. -/
structure Store where
  vars : List Var
  current : Option Nat

def SIZEOF_VAR_FILE : Nat := 24
def SIZEOF_VAR_ENTRY : Nat := 32

def name_size (name : Str) : Nat := 2*(name.chars.length+1)

def used_len (name : Str) (length : Nat) : Nat := SIZEOF_VAR_ENTRY+name_size name+length

def efi_var_entry_len (var : Var) : Nat := roundUp (used_len var.name var.data.length) 8

def buf_length (vars : List Var) : Nat := SIZEOF_VAR_FILE+(vars.map efi_var_entry_len).sum

/-- `efi_var_mem_compare`, as far as it compares. -/
def efi_var_mem_compare (guid : Guid) (name : Str) (var : Var) : Bool := var.guid = guid ∧ var.name = name

def next_of (vars : List Var) (i : Nat) : Option Nat := if i+1 < vars.length then some (i+1) else none

/-- The entry that is found, the one behind it, and the store with its cache. For
    the empty name nothing is found and the first entry is next. -/
def efi_var_mem_find (s : Store) (guid : Guid) (name : Str) : Option Nat × Option Nat × Store :=
  if name.chars = [] then (none,if s.vars = [] then none else some 0,s)
  else
    let cached := s.current.filter fun i => (s.vars[i]?).any (efi_var_mem_compare guid name)
    match cached with
    | some i => (some i,next_of s.vars i,s)
    | none =>
      match s.vars.findIdx? (efi_var_mem_compare guid name) with
      | some i => (some i,next_of s.vars i,{ s with current := some i })
      | none => (none,none,s)

def efi_var_mem_del (s : Store) (var : Option Nat) : Store :=
  match var with
  | none => s
  | some i => ⟨s.vars.eraseIdx i,s.current.filter fun current => ¬ i ≤ current⟩

/-- The status, `*changep` and the store. Without `changep` an entry is added
    also where the old one is the same. -/
def efi_var_mem_ins (EFI_VAR_BUF_SIZE : Nat) (s : Store) (variable_name : Str) (vendor : Guid) (attributes : Attributes)
    (data1 data2 : List UInt8) (time : Nat) (changep : Bool) : Status × Bool × Store :=
  let add (s : Store) : Status × Bool × Store :=
    if buf_length s.vars+used_len variable_name (data1.length+data2.length) > EFI_VAR_BUF_SIZE then
      (.EFI_OUT_OF_RESOURCES,true,s)
    else (.EFI_SUCCESS,true,{ s with vars := s.vars ++ [⟨vendor,variable_name,attributes,time,data1 ++ data2⟩] })
  if data2 = [] ∧ changep then
    let (old,_,s) := efi_var_mem_find s vendor variable_name
    match old.bind fun i => s.vars[i]? with
    | none => add s
    | some old =>
      if old.attr = attributes ∧ old.time = time ∧ old.data = data1 then (.EFI_SUCCESS,false,s) else add s
  else add s

def u (text : List Char) : Str := ⟨(text.map fun c => UInt16.ofNat c.toNat).filter (· ≠ 0),by simp⟩

def VarToFile : Str := u ['V','a','r','T','o','F','i','l','e']

/-- What a caller of `efi_get_variable_mem` gets: what was not written stays as
    it was. -/
structure Got where
  status : Status
  attributes : Option Attributes
  time : Option Nat
  data_size : Nat
  data : Option (List UInt8)
deriving DecidableEq

def masked (mask : Attributes) (vars : List Var) : List Var := vars.filter fun var => var.attr &&& mask = mask

/-- The status, `*lenp` and the bytes that were copied; `buf` says whether there
    is a buffer. The bytes of a file depend on what older entries left between
    the new ones, so they are a parameter. -/
def efi_var_collect_mem (image : List Var → List UInt8) (vars : List Var) (buf : Bool) (len : Nat) (mask : Attributes) :
    Status × Nat × Option (List UInt8) :=
  let length := buf_length (masked mask vars)
  if buf = false ∧ length ≤ len then (.EFI_INVALID_PARAMETER,length,none)
  else if buf = false ∨ length > len then (.EFI_BUFFER_TOO_SMALL,length,none)
  else (.EFI_SUCCESS,length,some (image (masked mask vars)))

/-- `data` says whether there is a buffer for the data. -/
def efi_get_variable_mem (image : List Var → List UInt8) (s : Store) (variable_name : Str) (vendor : Guid)
    (data_size : Nat) (data : Bool) (mask : Attributes) : Got × Store :=
  let (found,_,s) := efi_var_mem_find s vendor variable_name
  match found.bind fun i => s.vars[i]? with
  | none => (⟨.EFI_NOT_FOUND,none,none,data_size,none⟩,s)
  | some var =>
    if mask ≠ 0 ∧ var.attr &&& mask ≠ mask then (⟨.EFI_NOT_FOUND,none,none,data_size,none⟩,s)
    else if variable_name = VarToFile then
      let (status,length,bytes) := efi_var_collect_mem image s.vars data data_size EFI_VARIABLE_NON_VOLATILE
      (⟨status,some var.attr,some var.time,length,bytes⟩,s)
    else if data_size < var.data.length then
      (⟨.EFI_BUFFER_TOO_SMALL,some var.attr,some var.time,var.data.length,none⟩,s)
    else if data = false then (⟨.EFI_INVALID_PARAMETER,some var.attr,some var.time,var.data.length,none⟩,s)
    else (⟨.EFI_SUCCESS,some var.attr,some var.time,var.data.length,some var.data⟩,s)

/-- The string at the start of a buffer, as far as the first `len` characters
    go. -/
def string_at (buffer : List UInt16) (len : Nat) : Str :=
  ⟨(buffer.take len).takeWhile (· ≠ 0),by
    intro member
    simpa using List.mem_takeWhile_imp member⟩

def u16_strnlen (buffer : List UInt16) (len : Nat) : Nat := (string_at buffer len).chars.length

def copy_name (name : Str) (buffer : List UInt16) : List UInt16 :=
  name.chars ++ 0 :: buffer.drop (name.chars.length+1)

/-- What a caller of `efi_get_next_variable_name_mem` gets. -/
structure Next where
  status : Status
  variable_name_size : Nat
  variable_name : List UInt16
  vendor : Guid
deriving DecidableEq

/-- The loop over the hidden entries for so many rounds. The buffer holds at
    least the characters that its size promises. -/
def efi_get_next_variable_name_mem (s : Store) (variable_name_size : Nat) (variable_name : List UInt16) (vendor : Guid)
    (mask : Attributes) : Nat → Option (Next × Store)
  | 0 => none
  | rounds+1 =>
    let len := variable_name_size/2
    if u16_strnlen variable_name len = len then
      some (⟨.EFI_INVALID_PARAMETER,variable_name_size,variable_name,vendor⟩,s)
    else
      let name := string_at variable_name len
      let (found,next,s) := efi_var_mem_find s vendor name
      if found = none ∧ name.chars ≠ [] then
        some (⟨.EFI_INVALID_PARAMETER,variable_name_size,variable_name,vendor⟩,s)
      else
        match next.bind fun i => s.vars[i]? with
        | none => some (⟨.EFI_NOT_FOUND,variable_name_size,variable_name,vendor⟩,s)
        | some var =>
          if variable_name_size < name_size var.name then
            some (⟨.EFI_BUFFER_TOO_SMALL,name_size var.name,variable_name,vendor⟩,s)
          else if mask ≠ 0 ∧ var.attr &&& mask ≠ mask then
            efi_get_next_variable_name_mem s variable_name_size (copy_name var.name variable_name) var.guid mask rounds
          else some (⟨.EFI_SUCCESS,name_size var.name,copy_name var.name variable_name,var.guid⟩,s)

def Var.key (var : Var) : Guid × Str := (var.guid,var.name)

/-- No two entries with one key, every entry has a name, and the cache points to
    an entry. -/
structure Tidy (s : Store) : Prop where
  distinct : Distinct Var.key s.vars
  named : ∀ var ∈ s.vars, var.name.chars ≠ []
  inside : ∀ i, s.current = some i → i < s.vars.length

def with_current (s : Store) (current : Option Nat) : Store := { s with current := current }

theorem compare_eq (guid : Guid) (name : Str) : efi_var_mem_compare guid name = fun var => decide (var.key = (guid,name)) := by
  funext var
  simp [efi_var_mem_compare,Var.key]

/-- The entry that comes after a name; the first one after the empty name. -/
def upcoming (vars : List Var) (guid : Guid) (name : Str) : Option Nat :=
  if name.chars = [] then if vars = [] then none else some 0
  else (place Var.key vars (guid,name)).bind (next_of vars)

/-- A lookup finds what a scan of the buffer finds, with any cache. -/
theorem find_eq_scan {s : Store} (tidy : Tidy s) (guid : Guid) (name : Str) :
    ∃ current, efi_var_mem_find s guid name =
        (place Var.key s.vars (guid,name),upcoming s.vars guid name,with_current s current) ∧
      Tidy (with_current s current) := by
  rw [efi_var_mem_find,upcoming]
  by_cases empty : name.chars = []
  · have nowhere : place Var.key s.vars (guid,name) = none := by
      rw [place_eq_none,lookup_eq_none]
      rintro var member same
      refine tidy.named var member ?_
      rw [show var.name = name from congrArg Prod.snd same]
      exact empty
    rw [if_pos empty,if_pos empty,nowhere]
    exact ⟨s.current,rfl,tidy⟩
  rw [if_neg empty,if_neg empty,compare_eq]
  simp only
  cases cached : s.current.filter fun i => (s.vars[i]?).any fun var => decide (var.key = (guid,name)) with
  | some i =>
    obtain ⟨_,holds⟩ := filter_eq_some_iff.mp cached
    have found : place Var.key s.vars (guid,name) = some i := by
      cases at_i : s.vars[i]? with
      | none => simp [at_i] at holds
      | some var => exact (place_eq_some tidy.distinct).mpr ⟨var,at_i,by simpa [at_i] using holds⟩
    rw [found]
    exact ⟨s.current,rfl,tidy⟩
  | none =>
    simp only
    cases found : place Var.key s.vars (guid,name) with
    | some i =>
      have scanned : s.vars.findIdx? (fun var => decide (var.key = (guid,name))) = some i := found
      rw [scanned]
      refine ⟨some i,rfl,tidy.distinct,tidy.named,?_⟩
      rintro j same
      cases same
      obtain ⟨var,at_i,_⟩ := place_some found
      exact (List.getElem?_eq_some_iff.mp at_i).1
    | none =>
      have scanned : s.vars.findIdx? (fun var => decide (var.key = (guid,name))) = none := found
      rw [scanned]
      exact ⟨s.current,rfl,tidy⟩

theorem upcoming_first (vars : List Var) (guid : Guid) {name : Str} (empty : name.chars = []) :
    (upcoming vars guid name).bind (vars[·]?) = vars.head? := by
  rw [upcoming,if_pos empty]
  cases vars <;> rfl

/-- The entry behind one that is not the last. -/
theorem upcoming_next {vars before after : List Var} {var : Var} (distinct : Distinct Var.key vars)
    (some_name : var.name.chars ≠ []) (split : vars = before ++ var :: after) :
    (upcoming vars var.guid var.name).bind (vars[·]?) = after.head? := by
  have found : place Var.key vars (var.guid,var.name) = some before.length :=
    (place_eq_some distinct).mpr ⟨var,by rw [split]; simp,rfl⟩
  rw [upcoming,if_neg some_name,found,bind_some,next_of,split]
  cases after with
  | nil => simp
  | cons next after =>
    rw [if_pos (by simp),bind_some,getElem?_append_right (by omega)]
    simp

section reading
variable {s : Store} (tidy : Tidy s)
include tidy

def reading (image : List Var → List UInt8) (vars : List Var) (variable_name : Str) (data_size : Nat) (data : Bool)
    (mask : Attributes) : Option Var → Got
  | none => ⟨.EFI_NOT_FOUND,none,none,data_size,none⟩
  | some var =>
    if mask ≠ 0 ∧ var.attr &&& mask ≠ mask then ⟨.EFI_NOT_FOUND,none,none,data_size,none⟩
    else if variable_name = VarToFile then
      let (status,length,bytes) := efi_var_collect_mem image vars data data_size EFI_VARIABLE_NON_VOLATILE
      ⟨status,some var.attr,some var.time,length,bytes⟩
    else if data_size < var.data.length then
      ⟨.EFI_BUFFER_TOO_SMALL,some var.attr,some var.time,var.data.length,none⟩
    else if data = false then ⟨.EFI_INVALID_PARAMETER,some var.attr,some var.time,var.data.length,none⟩
    else ⟨.EFI_SUCCESS,some var.attr,some var.time,var.data.length,some var.data⟩

theorem get_variable_eq (image : List Var → List UInt8) (variable_name : Str) (vendor : Guid) (data_size : Nat)
    (data : Bool) (mask : Attributes) :
    ∃ current, efi_get_variable_mem image s variable_name vendor data_size data mask =
        (reading image s.vars variable_name data_size data mask (lookup Var.key s.vars (vendor,variable_name)),
          with_current s current) ∧ Tidy (with_current s current) := by
  obtain ⟨current,finds,after⟩ := find_eq_scan tidy vendor variable_name
  refine ⟨current,?_,after⟩
  have same : (with_current s current).vars = s.vars := rfl
  rw [efi_get_variable_mem,finds]
  simp only [same,place_lookup tidy.distinct]
  cases lookup Var.key s.vars (vendor,variable_name) with
  | none => rfl
  | some var =>
    simp only [reading]
    split_ifs <;> rfl

end reading

/-- What an insertion comes to: the entry stands there already, there is no room
    for it, or it is added at the end. -/
inductive Inserted (EFI_VAR_BUF_SIZE : Nat) (s : Store) (new : Var) (data2 : List UInt8) (changep : Bool) :
    Status × Bool × Store → Prop
  | same (current : Option Nat) (tidy : Tidy (with_current s current)) (plain : data2 = [] ∧ changep = true)
      (found : lookup Var.key s.vars new.key = some new) :
      Inserted EFI_VAR_BUF_SIZE s new data2 changep (.EFI_SUCCESS,false,with_current s current)
  | full (current : Option Nat) (tidy : Tidy (with_current s current))
      (large : buf_length s.vars+used_len new.name new.data.length > EFI_VAR_BUF_SIZE)
      (differs : data2 = [] → changep = true → lookup Var.key s.vars new.key ≠ some new) :
      Inserted EFI_VAR_BUF_SIZE s new data2 changep (.EFI_OUT_OF_RESOURCES,true,with_current s current)
  | added (current : Option Nat) (tidy : Tidy (with_current s current))
      (fits : buf_length s.vars+used_len new.name new.data.length ≤ EFI_VAR_BUF_SIZE)
      (differs : data2 = [] → changep = true → lookup Var.key s.vars new.key ≠ some new) :
      Inserted EFI_VAR_BUF_SIZE s new data2 changep (.EFI_SUCCESS,true,⟨s.vars ++ [new],current⟩)

theorem ins_inserted {s : Store} (tidy : Tidy s) (EFI_VAR_BUF_SIZE : Nat) (name : Str) (vendor : Guid)
    (attributes : Attributes) (data1 data2 : List UInt8) (time : Nat) (changep : Bool) :
    Inserted EFI_VAR_BUF_SIZE s ⟨vendor,name,attributes,time,data1 ++ data2⟩ data2 changep
      (efi_var_mem_ins EFI_VAR_BUF_SIZE s name vendor attributes data1 data2 time changep) := by
  -- The entry is added, or there is no room, with any cache.
  have add (current : Option Nat) (still : Tidy (with_current s current))
      (differs : data2 = [] → changep = true → lookup Var.key s.vars (vendor,name) ≠
        some ⟨vendor,name,attributes,time,data1 ++ data2⟩) :
      Inserted EFI_VAR_BUF_SIZE s ⟨vendor,name,attributes,time,data1 ++ data2⟩ data2 changep
        (if buf_length s.vars+used_len name (data1.length+data2.length) > EFI_VAR_BUF_SIZE then
          (.EFI_OUT_OF_RESOURCES,true,with_current s current)
        else (.EFI_SUCCESS,true,⟨s.vars ++ [⟨vendor,name,attributes,time,data1 ++ data2⟩],current⟩)) := by
    split
    next large => exact .full current still (by simpa using large) differs
    next fits => exact .added current still (by simpa using fits) differs
  rw [efi_var_mem_ins]
  by_cases plain : data2 = [] ∧ changep = true
  · obtain ⟨current,finds,still⟩ := find_eq_scan tidy vendor name
    have same : (with_current s current).vars = s.vars := rfl
    rw [if_pos plain,finds]
    simp only [same,place_lookup tidy.distinct]
    cases found : lookup Var.key s.vars (vendor,name) with
    | none => exact add current still (by simp [found])
    | some old =>
      obtain ⟨_,key⟩ := lookup_some found
      obtain ⟨rfl,rfl⟩ : old.guid = vendor ∧ old.name = name := Prod.mk_inj.mp key
      simp only
      split
      next unchanged =>
        refine .same current still plain ?_
        rw [show Var.key ⟨old.guid,old.name,attributes,time,data1 ++ data2⟩ = (old.guid,old.name) from rfl,found,plain.1,
          append_nil,← unchanged.1,← unchanged.2.1,← unchanged.2.2]
      next changed =>
        refine add current still (fun _ _ same => changed ?_)
        rw [found,Option.some.injEq,plain.1,append_nil] at same
        rw [same]
        exact ⟨rfl,rfl,rfl⟩
  · rw [if_neg plain]
    exact add s.current tidy (fun none_ checked => absurd ⟨none_,checked⟩ plain)

def without (vars : List Var) : Option Nat → List Var
  | none => vars
  | some i => vars.eraseIdx i

/-- The entries after an insertion and the release of the old entry. -/
def updated (vars : List Var) (old : Option Nat) (new : Option Var) : List Var := without vars old ++ new.toList

theorem cache_inside {s : Store} {current : Option Nat} (still : Tidy (with_current s current)) {i j : Nat}
    (kept : (current.filter fun c => ¬ i ≤ c) = some j) : j < i ∧ j < s.vars.length := by
  obtain ⟨cached,below⟩ := filter_eq_some_iff.mp kept
  have inside : j < s.vars.length := still.inside j cached
  simp only [decide_not,Bool.not_eq_true',decide_eq_false_iff_not] at below
  exact ⟨by omega,inside⟩

section updates
variable {s : Store} (tidy : Tidy s) {key : Guid × Str}
include tidy

theorem updated_distinct (new : Option Var) (same : ∀ var ∈ new, var.key = key) :
    Distinct Var.key (updated s.vars (place Var.key s.vars key) new) := by
  rw [updated]
  cases found : place Var.key s.vars key with
  | none =>
    cases new with
    | none => simpa [without] using tidy.distinct
    | some var =>
      refine distinct_append_one.mpr ⟨tidy.distinct,?_⟩
      rw [same var rfl]
      exact lookup_eq_none.mp (place_eq_none.mp found)
  | some i =>
    obtain ⟨old,at_i,old_key⟩ := place_some found
    cases new with
    | none => simpa [without] using tidy.distinct.eraseIdx i
    | some var =>
      refine distinct_append_one.mpr ⟨tidy.distinct.eraseIdx i,?_⟩
      rw [same var rfl,← old_key]
      exact mem_eraseIdx_key tidy.distinct at_i

/-- An update changes the map at its key and nowhere else. -/
theorem updated_lookup (new : Option Var) (same : ∀ var ∈ new, var.key = key) (k : Guid × Str) :
    lookup Var.key (updated s.vars (place Var.key s.vars key) new) k =
      if key = k then new else lookup Var.key s.vars k := by
  have rest : ∀ k, lookup Var.key (updated s.vars (place Var.key s.vars key) none) k =
      if key = k then none else lookup Var.key s.vars k := by
    intro k
    rw [updated]
    cases found : place Var.key s.vars key with
    | none =>
      rw [toList_none,append_nil]
      split
      next is_key =>
        rw [← is_key]
        exact place_eq_none.mp found
      next => rfl
    | some i =>
      obtain ⟨old,at_i,old_key⟩ := place_some found
      rw [toList_none,append_nil,without,lookup_eraseIdx tidy.distinct at_i,old_key]
  cases new with
  | none => exact rest k
  | some var =>
    have split : updated s.vars (place Var.key s.vars key) (some var) =
        updated s.vars (place Var.key s.vars key) none ++ [var] := by
      simp [updated]
    have is_key := same var rfl
    have fresh : ∀ b ∈ updated s.vars (place Var.key s.vars key) none, b.key ≠ var.key := by
      refine lookup_eq_none.mp ?_
      rw [rest,if_pos is_key.symm]
    rw [split,lookup_append_one fresh,is_key,rest]
    split <;> rfl

/-- The length after an update, with the old entry on the other side. -/
theorem updated_length (new : Option Var) :
    buf_length (updated s.vars (place Var.key s.vars key) new)+(lookup Var.key s.vars key).elim 0 efi_var_entry_len =
      buf_length s.vars+new.elim 0 efi_var_entry_len := by
  have added : (new.toList.map efi_var_entry_len).sum = new.elim 0 efi_var_entry_len := by
    cases new <;> simp
  simp only [buf_length,updated,map_append,sum_append,added]
  cases found : place Var.key s.vars key with
  | none =>
    rw [place_eq_none.mp found]
    simp only [without,elim_none]
    omega
  | some i =>
    obtain ⟨old,at_i,old_key⟩ := place_some found
    obtain ⟨inside,at_place⟩ := List.getElem?_eq_some_iff.mp at_i
    have known : lookup Var.key s.vars key = some old :=
      (lookup_eq_some tidy.distinct).mpr ⟨mem_of_getElem? at_i,old_key⟩
    have split : s.vars = s.vars.take i ++ old :: s.vars.drop (i+1) := by
      rw [← at_place,← drop_eq_getElem_cons inside,take_append_drop]
    have whole : (s.vars.map efi_var_entry_len).sum =
        ((s.vars.take i).map efi_var_entry_len).sum+(efi_var_entry_len old+((s.vars.drop (i+1)).map efi_var_entry_len).sum) := by
      nth_rewrite 1 [split]
      simp
    rw [known,without,eraseIdx_eq_take_drop_succ,whole]
    simp only [map_append,sum_append,elim_some]
    omega

theorem updated_named (new : Option Var) (some_name : ∀ var ∈ new, var.name.chars ≠ []) (old : Option Nat) :
    ∀ var ∈ updated s.vars old new, var.name.chars ≠ [] := by
  intro var member
  rcases mem_append.mp member with kept | added
  · cases old with
    | none => exact tidy.named var kept
    | some i => exact tidy.named var ((eraseIdx_sublist s.vars i).mem kept)
  · exact some_name var (by simpa using added)

/-- After the release of the old entry the store is tidy again. -/
theorem del_updated {current : Option Nat} (still : Tidy (with_current s current)) (new : Option Var)
    (same : ∀ var ∈ new, var.key = key) (some_name : ∀ var ∈ new, var.name.chars ≠ []) :
    ∃ current', efi_var_mem_del ⟨s.vars ++ new.toList,current⟩ (place Var.key s.vars key) =
        ⟨updated s.vars (place Var.key s.vars key) new,current'⟩ ∧
      Tidy ⟨updated s.vars (place Var.key s.vars key) new,current'⟩ := by
  have distinct := updated_distinct tidy new same
  have named := updated_named tidy new some_name (place Var.key s.vars key)
  cases found : place Var.key s.vars key with
  | none =>
    rw [found] at distinct named
    refine ⟨current,rfl,distinct,named,?_⟩
    intro j cached
    have inside : j < s.vars.length := still.inside j cached
    simp only [updated,without,length_append]
    omega
  | some i =>
    rw [found] at distinct named
    obtain ⟨old,at_i,_⟩ := place_some found
    have inside : i < s.vars.length := (List.getElem?_eq_some_iff.mp at_i).1
    refine ⟨current.filter fun c => ¬ i ≤ c,?_,distinct,named,?_⟩
    · rw [efi_var_mem_del,updated,without,eraseIdx_append_of_lt_length inside]
    · intro j kept
      have below := cache_inside still kept
      simp only [updated,without,length_append,length_eraseIdx_of_lt inside]
      omega

end updates

theorem string_at_name {name : Str} {rest : List UInt16} {len : Nat} (fits : name.chars.length < len) :
    string_at (name.chars ++ 0 :: rest) len = name := by
  obtain ⟨more,rfl⟩ := Nat.exists_eq_add_of_lt fits
  have prefix_ : (name.chars ++ 0 :: rest).take (name.chars.length+more+1) = name.chars ++ 0 :: rest.take more := by
    rw [add_assoc,take_length_add_append,take_succ_cons]
  have all : ∀ c ∈ name.chars, decide (c ≠ 0) = true := by
    intro c member
    simp only [decide_eq_true_eq]
    rintro rfl
    exact name.zero_free member
  have same : (string_at (name.chars ++ 0 :: rest) (name.chars.length+more+1)).chars = name.chars := by
    show List.takeWhile _ (List.take _ _) = _
    rw [prefix_,takeWhile_append_of_pos all,takeWhile_cons_of_neg (by simp),append_nil]
  obtain ⟨chars,zero_free⟩ := name
  exact Str.mk.injEq _ _ _ _ ▸ same

/-- One round of the enumeration from a name that is terminated and known. -/
theorem next_round {s : Store} (tidy : Tidy s) {size : Nat} {buffer : List UInt16} {vendor : Guid} {mask : Attributes}
    {name : Str} (is_name : string_at buffer (size/2) = name) (terminated : name.chars.length < size/2)
    (known : name.chars = [] ∨ place Var.key s.vars (vendor,name) ≠ none) (rounds : Nat) :
    ∃ current, Tidy (with_current s current) ∧
      efi_get_next_variable_name_mem s size buffer vendor mask (rounds+1) =
        match (upcoming s.vars vendor name).bind (s.vars[·]?) with
        | none => some (⟨.EFI_NOT_FOUND,size,buffer,vendor⟩,with_current s current)
        | some var =>
          if size < name_size var.name then
            some (⟨.EFI_BUFFER_TOO_SMALL,name_size var.name,buffer,vendor⟩,with_current s current)
          else if mask ≠ 0 ∧ var.attr &&& mask ≠ mask then
            efi_get_next_variable_name_mem (with_current s current) size (copy_name var.name buffer) var.guid mask rounds
          else some (⟨.EFI_SUCCESS,name_size var.name,copy_name var.name buffer,var.guid⟩,with_current s current) := by
  obtain ⟨current,finds,still⟩ := find_eq_scan tidy vendor name
  refine ⟨current,still,?_⟩
  have short : ¬ u16_strnlen buffer (size/2) = size/2 := by
    rw [u16_strnlen,is_name]
    omega
  have accepted : ¬ (place Var.key s.vars (vendor,name) = none ∧ name.chars ≠ []) := by
    rintro ⟨missing,some_name⟩
    rcases known with empty | found
    · exact some_name empty
    · exact found missing
  rw [efi_get_next_variable_name_mem]
  simp only [if_neg short,is_name,finds,if_neg accepted]
  rfl

end UBoot.EfiVar
