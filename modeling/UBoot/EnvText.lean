import UBoot.Hashtable

/-!
The linear form of the environment: `hexport_r` and `himport_r` of
`lib/hashtable.c`. The exported block is a list of bytes as long as the buffer,
and a write past the end of the buffer gives no block. The parser reads a
duplicate of the block with a terminator behind it; what it writes there lies
before what it has still to read, so it is modelled on the part not yet read.
-/
namespace UBoot.EnvText
open UBoot.OpenAddressing UBoot.Hashtable List Function

def CONFIG_ENV_MIN_ENTRIES : Nat := 64
def CONFIG_ENV_MAX_ENTRIES : Nat := 512

def NUL : UInt8 := 0
def NEWLINE : UInt8 := 10
def BACKSLASH : UInt8 := 92
def EQUALS : UInt8 := 61
def HASH : UInt8 := 35
def CR : UInt8 := 13

def isblank (c : UInt8) : Bool := c = 32 ∨ c = 9

def strcmp : Str → Str → Int
  | [], [] => 0
  | [], _ :: _ => -1
  | _ :: _, [] => 1
  | c :: s, d :: t => if c = d then strcmp s t else if c < d then -1 else 1

/-- Pass 1 collects the slots in use; with `H_HIDE_DOT` those with a dot in
    front are left out. -/
def exported (htab : Htab) (hide_dot : Bool) : List Slot :=
  ((List.range' 1 htab.size).map htab.at).filter fun slot => 0 < slot.used ∧ ¬ (hide_dot ∧ slot.key.head? = some 46)

/-- The bytes that pass 1 counts for the data of an entry. -/
def data_len (sep : UInt8) (data : Str) : Nat :=
  if sep = NUL then data.length else data.length+data.countP fun c => c = sep ∨ c = BACKSLASH

def totlen (htab : Htab) (sep : UInt8) (hide_dot : Bool) : Nat :=
  ((exported htab hide_dot).map fun slot => slot.key.length+data_len sep slot.data+2).sum

def cmpkey (e1 e2 : Slot) : Bool := strcmp e1.key e2.key ≤ 0

/-- Pass 2 puts a backslash before separators and backslashes. -/
def escape (sep : UInt8) : Str → Str
  | [] => []
  | c :: data => if c = sep ∨ c = BACKSLASH then BACKSLASH :: c :: escape sep data else c :: escape sep data

def entry_text (sep : UInt8) (slot : Slot) : Str := slot.key ++ EQUALS :: (escape sep slot.data ++ [sep])

inductive Export where
  /-- The buffer is smaller than the length that pass 1 computes. -/
  | refused
  /-- Pass 2 writes past the end of the buffer. -/
  | overrun
  | block (bytes : List UInt8)
  deriving DecidableEq, Repr

/-- The size of the buffer; for size zero one of the computed length is
    allocated. -/
def buffer_size (htab : Htab) (sep : UInt8) (hide_dot : Bool) (size : Nat) : Nat :=
  if size ≠ 0 then size else totlen htab sep hide_dot+1

def hexport_r (htab : Htab) (sep : UInt8) (hide_dot : Bool) (size : Nat) : Export :=
  if size ≠ 0 ∧ size < totlen htab sep hide_dot+1 then .refused
  else
    let size := buffer_size htab sep hide_dot size
    let text := (((exported htab hide_dot).mergeSort cmpkey).map (entry_text sep)).flatten ++ [NUL]
    if size < text.length then .overrun else .block (text ++ List.replicate (size-text.length) NUL)

def first (rest : List UInt8) : UInt8 := rest.headD NUL

/-- Whether a name is to be processed, and the list without it. -/
def drop_var_from_set (name : Str) (vars : List (Option Str)) : Bool × List (Option Str) :=
  if vars = [] then (true,vars)
  else (vars.contains (some name),vars.map fun var => if var = some name then none else var)

/-- The loop over a value: what it copies, and what is left when it stops. -/
def parse_value (sep : UInt8) : List UInt8 → Str × List UInt8
  | [] => ([],[])
  | [c] => if c = NUL ∨ c = sep then ([],[c]) else ([c],[])
  | c :: d :: rest =>
    if c = NUL ∨ c = sep then ([],c :: d :: rest)
    else if c = BACKSLASH ∧ d ≠ NUL then (d :: (parse_value sep rest).1,(parse_value sep rest).2)
    else (c :: (parse_value sep (d :: rest)).1,(parse_value sep (d :: rest)).2)

/-- The replies of `change_ok` and the callbacks to new data for a key, or to
    its deletion. -/
abbrev Policy := Str → Option Str → Replies

inductive Parsed where
  | failed (htab : Htab)
  | next (rest : List UInt8) (htab : Htab) (vars : List (Option Str))

/-- One round of the parser; `none` stands for a search that does not end. -/
def import_entry (sep : UInt8) (policy : Policy) (rest : List UInt8) (htab : Htab) (vars : List (Option Str)) :
    Option Parsed :=
  let dp := rest.dropWhile isblank
  if first dp = HASH then some (.next ((dp.dropWhile fun c => c ≠ NUL ∧ c ≠ sep).drop 1) htab vars)
  else
    let name := dp.takeWhile fun c => c ≠ EQUALS ∧ c ≠ NUL ∧ c ≠ sep
    let dp := dp.dropWhile fun c => c ≠ EQUALS ∧ c ≠ NUL ∧ c ≠ sep
    if first dp = NUL ∨ first (dp.drop 1) = NUL ∨ first dp = sep ∨ first (dp.drop 1) = sep then
      let dp := if first dp = EQUALS then dp.drop 2 else dp.drop 1
      let (wanted,vars) := drop_var_from_set name vars
      if wanted then (hdelete_r htab name (policy name none)).map fun r => .next dp r.2 vars else some (.next dp htab vars)
    else
      let value := (parse_value sep (dp.drop 1)).1
      let dp := (parse_value sep (dp.drop 1)).2.drop 1
      if name = [] then some (.failed htab)
      else
        let (wanted,vars) := drop_var_from_set name vars
        if wanted then
          (hsearch_r htab name value .ENV_ENTER (policy name (some value))).map fun r => .next dp r.htab vars
        else some (.next dp htab vars)

/-- The loop over the entries, for so many rounds; `behind` bytes of the
    duplicate lie behind the block. -/
def import_loop (sep : UInt8) (policy : Policy) (behind : Nat) :
    Nat → List UInt8 → Htab → List (Option Str) → Option (Bool × Htab × List (Option Str))
  | 0, _, _, _ => none
  | rounds+1, rest, htab, vars =>
    match import_entry sep policy rest htab vars with
    | none => none
    | some (.failed htab) => some (false,htab,vars)
    | some (.next rest htab vars) =>
      if behind < rest.length ∧ first rest ≠ NUL then import_loop sep policy behind rounds rest htab vars
      else some (true,htab,vars)

def remove_crs : List UInt8 → List UInt8
  | [] => []
  | [c] => [c]
  | c :: d :: rest => if c = CR ∧ d = NEWLINE then remove_crs (d :: rest) else c :: remove_crs (d :: rest)

/-- The variables of the list that the block did not name are deleted. -/
def delete_others (policy : Policy) (htab : Htab) : List (Option Str) → Option Htab
  | [] => some htab
  | none :: vars => delete_others policy htab vars
  | some name :: vars =>
    match hdelete_r htab name (policy name none) with
    | none => none
    | some (_,htab) => delete_others policy htab vars

def table_entries (size : Nat) : Nat := min (CONFIG_ENV_MIN_ENTRIES+size/8) CONFIG_ENV_MAX_ENTRIES

def himport_r (old : Option Htab) (env : List UInt8) (sep : UInt8) (noclear crlf_is_lf : Bool) (vars : List Str)
    (policy : Policy) : Option (Nat × Htab) :=
  let kept := if noclear = false ∧ vars = [] then none else old
  match kept.or (hcreate_r (table_entries env.length)) with
  | none => none
  | some htab =>
    if env = [] then some (1,htab)
    else
      let data := env ++ [NUL]
      let text := env.takeWhile (· ≠ NUL)
      let stripped := if crlf_is_lf then remove_crs text else text
      let data := stripped ++ data.drop stripped.length
      match import_loop sep policy (1+(text.length-stripped.length)) data.length data htab (vars.map some) with
      | none => none
      | some (false,htab,_) => some (0,htab)
      | some (true,htab,vars) =>
        if noclear then some (1,htab) else (delete_others policy htab vars).map fun htab => (1,htab)

def Separator (sep : UInt8) : Prop := sep = NUL ∨ sep = NEWLINE

structure GoodKey (sep : UInt8) (key : Str) : Prop where
  named : key ≠ []
  plain : ∀ c ∈ key, c ≠ EQUALS ∧ c ≠ NUL ∧ c ≠ sep
  starts : ∀ c ∈ key.head?, isblank c = false ∧ c ≠ HASH

structure GoodData (data : Str) : Prop where
  some_data : data ≠ []
  plain : ∀ c ∈ data, c ≠ NUL

def backslashes (htab : Htab) : Nat := ((exported htab false).map fun slot => slot.data.count BACKSLASH).sum

theorem escape_length (sep : UInt8) (data : Str) :
    (escape sep data).length = data.length+data.countP fun c => c = sep ∨ c = BACKSLASH := by
  induction data with
  | nil => rfl
  | cons c data ih =>
    rw [escape]
    by_cases special : c = sep ∨ c = BACKSLASH
    · simp only [special,if_true,length_cons,ih,countP_cons,decide_true]
      omega
    · simp only [special,if_false,length_cons,ih,countP_cons,decide_false]
      simp
      omega

theorem entry_text_length (sep : UInt8) {slot : Slot} (plain : ∀ c ∈ slot.data, c ≠ NUL) :
    (entry_text sep slot).length =
      slot.key.length+data_len sep slot.data+2+(if sep = NUL then slot.data.count BACKSLASH else 0) := by
  have whole : (entry_text sep slot).length = slot.key.length+(escape sep slot.data).length+2 := by
    simp only [entry_text,length_append,length_cons,length_nil]
    omega
  rw [whole,escape_length,data_len]
  by_cases nul : sep = NUL
  · have counted : (slot.data.countP fun c => c = sep ∨ c = BACKSLASH) = slot.data.count BACKSLASH := by
      refine countP_congr (fun c member => ?_)
      have := plain c member
      simp [nul,this]
    rw [if_pos nul,if_pos nul,counted]
    omega
  · rw [if_neg nul,if_neg nul]

variable {new : Htab} {rounds : Nat} {slots : List Slot}

theorem text_length {sep : UInt8} (plain : ∀ slot ∈ slots, ∀ c ∈ slot.data, c ≠ NUL) :
    ((slots.map (entry_text sep)).flatten).length =
      (slots.map fun slot => slot.key.length+data_len sep slot.data+2).sum+
        (if sep = NUL then (slots.map fun slot => slot.data.count BACKSLASH).sum else 0) := by
  induction slots with
  | nil => simp
  | cons slot slots ih =>
    have here := entry_text_length sep (plain slot mem_cons_self)
    have later := ih (fun other member => plain other (mem_cons_of_mem _ member))
    simp only [map_cons,flatten_cons,length_append,sum_cons,here,later]
    split_ifs <;> omega

theorem text_rounds (sep : UInt8) (slots : List Slot) : slots.length ≤ ((slots.map (entry_text sep)).flatten).length := by
  induction slots with
  | nil => exact le_rfl
  | cons slot slots ih =>
    simp only [map_cons,flatten_cons,length_append,length_cons,entry_text]
    omega

/-- The value loop undoes the escapes and stops at the separator. -/
theorem parse_value_escape {sep : UInt8} (separator : Separator sep) {data : Str} (plain : ∀ c ∈ data, c ≠ NUL)
    (rest : List UInt8) : parse_value sep (escape sep data ++ sep :: rest) = (data,sep :: rest) := by
  have different : BACKSLASH ≠ NUL ∧ BACKSLASH ≠ sep := by
    rcases separator with rfl | rfl <;> decide
  induction data with
  | nil =>
    cases rest with
    | nil | cons d rest => simp [escape,parse_value]
  | cons c data ih =>
    have here := plain c mem_cons_self
    have later := ih (fun d member => plain d (mem_cons_of_mem _ member))
    rw [escape]
    by_cases special : c = sep ∨ c = BACKSLASH
    · rw [if_pos special,cons_append,cons_append,parse_value,later]
      simp [different,here]
    rw [if_neg special,cons_append]
    -- Behind an ordinary character comes at least the separator.
    obtain ⟨d,tail,next⟩ : ∃ d tail, escape sep data ++ sep :: rest = d :: tail := by
      cases escape sep data with
      | nil => exact ⟨sep,rest,rfl⟩
      | cons d tail => exact ⟨d,tail ++ sep :: rest,rfl⟩
    rw [next] at later ⊢
    rw [parse_value,later]
    simp only [not_or] at special
    simp [special,here]

section entry
variable {sep : UInt8} (separator : Separator sep) {slot : Slot} (goodKey : GoodKey sep slot.key)
  (goodData : GoodData slot.data)
include separator goodKey goodData

theorem import_entry_text (policy : Policy) (rest : List UInt8) (htab : Htab) :
    import_entry sep policy (entry_text sep slot ++ rest) htab [] =
      (hsearch_r htab slot.key slot.data .ENV_ENTER (policy slot.key (some slot.data))).map fun r =>
        .next rest r.htab [] := by
  obtain ⟨named,plainKey,starts⟩ := goodKey
  obtain ⟨some_data,plainData⟩ := goodData
  have equals : EQUALS ≠ NUL ∧ EQUALS ≠ sep := by
    rcases separator with rfl | rfl <;> decide
  have whole : entry_text sep slot ++ rest = slot.key ++ EQUALS :: (escape sep slot.data ++ sep :: rest) := by
    simp [entry_text]
  have unblank : (slot.key ++ EQUALS :: (escape sep slot.data ++ sep :: rest)).dropWhile isblank =
      slot.key ++ EQUALS :: (escape sep slot.data ++ sep :: rest) := by
    cases keyIs : slot.key with
    | nil => exact absurd keyIs named
    | cons c key =>
      have := (starts c (by rw [keyIs]; rfl)).1
      simp [this]
  have uncommented : first (slot.key ++ EQUALS :: (escape sep slot.data ++ sep :: rest)) ≠ HASH := by
    cases keyIs : slot.key with
    | nil => exact absurd keyIs named
    | cons c key =>
      have := (starts c (by rw [keyIs]; rfl)).2
      simpa [first] using this
  have name : (slot.key ++ EQUALS :: (escape sep slot.data ++ sep :: rest)).takeWhile
      (fun c => c ≠ EQUALS ∧ c ≠ NUL ∧ c ≠ sep) = slot.key := by
    rw [takeWhile_append_of_pos (by simpa using plainKey),takeWhile_cons_of_neg (by simp)]
    simp
  have after : (slot.key ++ EQUALS :: (escape sep slot.data ++ sep :: rest)).dropWhile
      (fun c => c ≠ EQUALS ∧ c ≠ NUL ∧ c ≠ sep) = EQUALS :: (escape sep slot.data ++ sep :: rest) := by
    rw [dropWhile_append_of_pos (by simpa using plainKey),dropWhile_cons_of_neg (by simp)]
  -- The data begins with a character that ends neither the entry nor the block.
  have begins : first (escape sep slot.data ++ sep :: rest) ≠ NUL ∧ first (escape sep slot.data ++ sep :: rest) ≠ sep := by
    cases dataIs : slot.data with
    | nil => exact absurd dataIs some_data
    | cons c data =>
      have here := plainData c (by rw [dataIs]; exact mem_cons_self)
      rw [escape]
      by_cases special : c = sep ∨ c = BACKSLASH
      · rw [if_pos special]
        rcases separator with rfl | rfl <;> simp [first,BACKSLASH,NUL,NEWLINE]
      · rw [if_neg special]
        simp only [not_or] at special
        exact ⟨by simpa [first] using here,by simpa [first] using special.1⟩
  have parsed := parse_value_escape separator plainData rest
  rw [whole,import_entry]
  simp only [unblank,uncommented,if_false,name,after,drop_succ_cons,drop_zero,parsed,named]
  rw [if_neg (by simp only [first,headD_cons] at *; tauto)]
  simp [drop_var_from_set]

end entry

def entered (map : Str → Option Str) (slots : List Slot) : Str → Option Str :=
  slots.foldl (fun map slot => Function.update map slot.key (some slot.data)) map

def Accepts (policy : Policy) : Prop := ∀ key data, (policy key data).change_ok = 0 ∧ (policy key data).callback = 0

theorem import_loop_text {sep : UInt8} (separator : Separator sep) {policy : Policy} (accepts : Accepts policy) (some_slots : slots ≠ []) (good : ∀ slot ∈ slots, GoodKey sep slot.key ∧ GoodData slot.data)
    {tail : List UInt8} (ends : first tail = NUL) {htab : Htab} {map : Str → Option Str} (valid : Valid htab)
    (represents : Represents (cells htab) map) (room : htab.filled+slots.length ≤ htab.size)
    (enough : slots.length ≤ rounds) :
    ∃ after, import_loop sep policy 1 rounds ((slots.map (entry_text sep)).flatten ++ tail) htab [] =
      some (true,after,[]) ∧ Valid after ∧ Represents (cells after) (entered map slots) := by
  induction slots generalizing htab map rounds with
  | nil => exact absurd rfl some_slots
  | cons slot slots ih =>
    obtain ⟨goodKey,goodData⟩ := good slot mem_cons_self
    rw [length_cons] at room enough
    obtain ⟨rounds,rfl⟩ : ∃ k, rounds = k+1 := ⟨rounds-1,by omega⟩
    obtain ⟨result,searched,spec⟩ := hsearch_enter valid slot.key represents slot.data (policy slot.key (some slot.data))
    obtain ⟨change,callback⟩ := accepts slot.key (some slot.data)
    obtain ⟨holds,more⟩ := spec.accepted (spec.accepts change callback (by omega))
    have size := spec.size
    have parsed : import_entry sep policy ((List.map (entry_text sep) (slot :: slots)).flatten ++ tail) htab [] =
        some (.next ((slots.map (entry_text sep)).flatten ++ tail) result.htab []) := by
      rw [map_cons,flatten_cons,append_assoc,import_entry_text separator goodKey goodData,searched]
      rfl
    rw [import_loop,parsed]
    simp only
    cases slots with
    | nil =>
      rw [if_neg (by simp [ends])]
      exact ⟨result.htab,rfl,spec.valid,holds⟩
    | cons other slots =>
      obtain ⟨named,plain,_⟩ := (good other (by simp)).1
      have continues : 1 < (((other :: slots).map (entry_text sep)).flatten ++ tail).length ∧
          first (((other :: slots).map (entry_text sep)).flatten ++ tail) ≠ NUL := by
        cases keyIs : other.key with
        | nil => exact absurd keyIs named
        | cons c key =>
          have here := (plain c (by rw [keyIs]; exact mem_cons_self)).2.1
          constructor
          · simp only [map_cons,flatten_cons,entry_text,keyIs,length_append,length_cons]
            omega
          · simpa [entry_text,keyIs,first] using here
      rw [if_pos continues]
      exact ih (by simp) (fun s member => good s (mem_cons_of_mem _ member)) spec.valid holds
        (by simp only [length_cons] at room ⊢; omega) (by simp only [length_cons] at enough ⊢; omega)

/-- Entries with different keys, and no others, are what is left. -/
theorem entered_eq (different : (slots.map Slot.key).Nodup) {map : Str → Option Str} (key data : Str) :
    entered map slots key = some data ↔ (∃ slot ∈ slots, slot.key = key ∧ slot.data = data) ∨
      (∀ slot ∈ slots, slot.key ≠ key) ∧ map key = some data := by
  induction slots generalizing map with
  | nil => simp [entered]
  | cons slot slots ih =>
    obtain ⟨fresh,rest⟩ := nodup_cons.mp different
    have next : entered map (slot :: slots) = entered (Function.update map slot.key (some slot.data)) slots := rfl
    rw [next,ih rest]
    by_cases same : key = slot.key
    · subst same
      have others : ∀ s ∈ slots, s.key ≠ slot.key := fun s member equal =>
        fresh (by rw [← equal]; exact mem_map_of_mem member)
      rw [update_self]
      constructor
      · rintro (⟨s,member,equal,_⟩ | ⟨_,value⟩)
        · exact absurd equal (others s member)
        · exact .inl ⟨slot,mem_cons_self,rfl,Option.some_inj.mp value⟩
      · rintro (⟨s,member,equal,value⟩ | ⟨none_,_⟩)
        · rcases mem_cons.mp member with rfl | member
          · exact .inr ⟨others,by rw [value]⟩
          · exact absurd equal (others s member)
        · exact absurd rfl (none_ slot mem_cons_self)
    · rw [update_of_ne same]
      simp only [mem_cons,exists_eq_or_imp,forall_eq_or_imp,Ne.symm same,ne_eq,not_false_eq_true,true_and,
        false_and,false_or]

theorem exported_mem {htab : Htab} {slot : Slot} :
    slot ∈ exported htab false ↔ ∃ i, 1 ≤ i ∧ i ≤ htab.size ∧ 0 < slot.used ∧ htab.at i = slot := by
  rw [exported,mem_filter,mem_map]
  constructor
  · rintro ⟨⟨i,member,rfl⟩,used⟩
    obtain ⟨low,high⟩ := mem_range'_1.mp member
    exact ⟨i,low,by omega,by simpa using used,rfl⟩
  · rintro ⟨i,low,high,used,rfl⟩
    exact ⟨⟨i,mem_range'_1.mpr ⟨low,by omega⟩,rfl⟩,by simpa using used⟩

theorem exported_stores {htab : Htab} {key data : Str} :
    Stores htab key data ↔ ∃ slot ∈ exported htab false, slot.key = key ∧ slot.data = data := by
  constructor
  · rintro ⟨i,low,high,used,rfl,rfl⟩
    exact ⟨htab.at i,exported_mem.mpr ⟨i,low,high,used,rfl⟩,rfl,rfl⟩
  · rintro ⟨slot,member,rfl,rfl⟩
    obtain ⟨i,low,high,used,rfl⟩ := exported_mem.mp member
    exact ⟨i,low,high,used,rfl,rfl⟩

theorem exported_keys {htab : Htab} (valid : Valid htab) : ((exported htab false).map Slot.key).Nodup := by
  rw [exported,filter_map,map_map]
  refine List.Nodup.map_on ?_ (List.Nodup.filter _ nodup_range')
  intro i one j two same
  have first := (mem_filter.mp one).2
  have second := (mem_filter.mp two).2
  exact used_unique valid (by simpa using first) (by simpa using second) same

/-- The block that is exported is imported with success, and the table then
    holds the same keys and data. -/
def RoundTrip (htab : Htab) (old : Option Htab) (sep : UInt8) (size : Nat) (policy : Policy) : Prop :=
  ∃ bytes after, hexport_r htab sep false size = .block bytes ∧
    himport_r old bytes sep false false [] policy = some (1,after) ∧
    ∀ key data, Stores after key data ↔ Stores htab key data

def table_text (htab : Htab) (sep : UInt8) : Str :=
  (((exported htab false).mergeSort cmpkey).map (entry_text sep)).flatten ++ [NUL]

section roundtrip
variable {htab : Htab} {sep : UInt8} (good : ∀ key data, Stores htab key data → GoodKey sep key ∧ GoodData data)
include good

theorem sorted_good : ∀ slot ∈ (exported htab false).mergeSort cmpkey, GoodKey sep slot.key ∧ GoodData slot.data := by
  intro slot member
  have inside := (mergeSort_perm _ _).mem_iff.mp member
  exact good slot.key slot.data (exported_stores.mpr ⟨slot,inside,rfl,rfl⟩)

theorem table_text_length :
    (table_text htab sep).length = totlen htab sep false+(if sep = NUL then backslashes htab else 0)+1 := by
  have perm : ((exported htab false).mergeSort cmpkey).Perm (exported htab false) := mergeSort_perm _ _
  rw [table_text,length_append,text_length (fun slot member => (sorted_good good slot member).2.plain),
    (perm.map fun slot => slot.key.length+data_len sep slot.data+2).sum_eq,
    (perm.map fun slot => slot.data.count BACKSLASH).sum_eq]
  rfl

theorem hexport_text (size : Nat) : hexport_r htab sep false size =
    if size ≠ 0 ∧ size < totlen htab sep false+1 then .refused
    else if buffer_size htab sep false size < totlen htab sep false+(if sep = NUL then backslashes htab else 0)+1 then .overrun
    else .block (table_text htab sep ++
      replicate (buffer_size htab sep false size-(table_text htab sep).length) NUL) := by
  rw [← table_text_length good]
  rfl

variable (valid : Valid htab) (separator : Separator sep) {policy : Policy} (accepts : Accepts policy)
include separator accepts

omit good separator accepts in
/-- In a block without entries the first round reads an empty name and finds nothing
    to delete. -/
theorem import_loop_empty (policy : Policy) (newValid : Valid new) (empty : Represents (cells new) fun _ => none)
    (pad : Nat) (some_round : 0 < rounds) :
    import_loop sep policy 1 rounds (NUL :: replicate pad NUL) new [] = some (true,new,[]) := by
  obtain ⟨rounds,rfl⟩ : ∃ k, rounds = k+1 := ⟨rounds-1,by omega⟩
  have missing := hsearch_find newValid [] empty [] (policy [] none)
  have deleted : hdelete_r new [] (policy [] none) = some (-(ENOENT : Int),new) := by
    rw [hdelete_r,missing]
    rfl
  have stops : first (replicate pad NUL) = NUL := by
    cases pad <;> rfl
  rw [import_loop,import_entry]
  simp [first,isblank,NUL,HASH,EQUALS,drop_var_from_set] at stops deleted ⊢
  simp [deleted,stops]

omit good in
theorem import_loop_new (good : ∀ slot ∈ slots, GoodKey sep slot.key ∧ GoodData slot.data) (newValid : Valid new) (empty : Represents (cells new) fun _ => none) (unfilled : new.filled = 0)
    (room : slots.length ≤ new.size) (pad : Nat) (enough : slots.length < rounds) :
    ∃ after, import_loop sep policy 1 rounds ((slots.map (entry_text sep)).flatten ++ NUL :: replicate pad NUL) new [] =
      some (true,after,[]) ∧ Valid after ∧ Represents (cells after) (entered (fun _ => none) slots) := by
  by_cases none_ : slots = []
  · subst none_
    exact ⟨new,import_loop_empty policy newValid empty pad (by omega),newValid,empty⟩
  · exact import_loop_text separator accepts none_ good rfl newValid empty (by omega) (by omega)

omit good separator accepts in
/-- The import into a new table without a list of variables, from its loop on. -/
theorem himport_new (old : Option Htab) {env : List UInt8} (some_text : env ≠ [])
    (created : hcreate_r (table_entries env.length) = some new) {ok : Bool} {htab : Htab}
    (looped : import_loop sep policy 1 (env.length+1) (env ++ [NUL]) new [] = some (ok,htab,[])) :
    himport_r old env sep false false [] policy = some (if ok then 1 else 0,htab) := by
  have prefixed : env.takeWhile (· ≠ NUL) ++ (env ++ [NUL]).drop (env.takeWhile (· ≠ NUL)).length = env ++ [NUL] :=
    prefix_iff_eq_append.mp ((env.takeWhile_prefix (p := (· ≠ NUL))).trans (prefix_append env [NUL]))
  have length : (env ++ [NUL]).length = env.length+1 := by simp
  rw [himport_r]
  simp only [map_nil,Bool.false_eq_true,if_false,and_self,if_true,Option.none_or,created,some_text,prefixed,
    Nat.sub_self,Nat.add_zero,length,looped]
  cases ok with
  | false => rfl
  | true => rfl

include good valid

theorem himport_text (old : Option Htab) (pad : Nat)
    (room : ∀ new, hcreate_r (table_entries ((table_text htab sep).length+pad)) = some new →
      (exported htab false).length ≤ new.size) :
    ∃ after, himport_r old (table_text htab sep ++ replicate pad NUL) sep false false [] policy = some (1,after) ∧
      ∀ key data, Stores after key data ↔ Stores htab key data := by
  set slots := (exported htab false).mergeSort cmpkey with slotsAre
  have perm : slots.Perm (exported htab false) := mergeSort_perm _ _
  set env := table_text htab sep ++ replicate pad NUL with envIs
  have length : env.length = (table_text htab sep).length+pad := by rw [envIs,length_append,length_replicate]
  have entries : table_entries env.length < 2^31 := by
    have := Nat.min_le_right (CONFIG_ENV_MIN_ENTRIES+env.length/8) CONFIG_ENV_MAX_ENTRIES
    simp only [table_entries,CONFIG_ENV_MAX_ENTRIES] at *
    omega
  obtain ⟨new,created,newValid,empty,unfilled,_⟩ := hcreate_spec entries
  have fits : slots.length ≤ new.size := by
    rw [perm.length_eq]
    rw [length] at created
    exact room new created
  have data : env ++ [NUL] = (slots.map (entry_text sep)).flatten ++ NUL :: replicate (pad+1) NUL := by
    rw [envIs,table_text,replicate_succ']
    simp [slotsAre]
  have rounds : slots.length < env.length+1 := by
    have := text_rounds sep slots
    have whole := congrArg List.length data
    simp only [length_append,length_cons,length_nil] at whole
    omega
  obtain ⟨after,looped,afterValid,holds⟩ := import_loop_new separator accepts (sorted_good good) newValid empty unfilled fits
    (pad+1) rounds
  rw [← slotsAre] at looped holds
  refine ⟨after,?_,?_⟩
  · have some_text : env ≠ [] := by
      rw [envIs,table_text]
      simp
    rw [← data] at looped
    exact himport_new old some_text created looped
  · intro key value
    rw [stores_iff afterValid,holds key value,entered_eq (by rw [(perm.map Slot.key).nodup_iff]; exact exported_keys valid),
      exported_stores]
    simp only [reduceCtorEq,and_false,or_false,perm.mem_iff]

end roundtrip

/-- The environment survives an export and an import exactly when the escapes
    fit: the separator is not the terminator, or the buffer has room for a
    backslash before every backslash of the data. -/
theorem env_round_trip_iff {htab : Htab} (valid : Valid htab) {sep : UInt8} (separator : Separator sep)
    (good : ∀ key data, Stores htab key data → GoodKey sep key ∧ GoodData data) {size : Nat}
    (produced : hexport_r htab sep false size ≠ .refused) {policy : Policy} (accepts : Accepts policy)
    (room : ∀ new, hcreate_r (table_entries (buffer_size htab sep false size)) = some new →
      (exported htab false).length ≤ new.size) (old : Option Htab) :
    RoundTrip htab old sep size policy ↔
      sep ≠ NUL ∨ totlen htab sep false+backslashes htab+1 ≤ buffer_size htab sep false size := by
  have exports := hexport_text good size
  have enough : ¬ (size ≠ 0 ∧ size < totlen htab sep false+1) := fun small => produced (by rw [exports,if_pos small])
  rw [if_neg enough] at exports
  have large : totlen htab sep false+1 ≤ buffer_size htab sep false size := by
    rw [buffer_size]
    split_ifs <;> omega
  have length := table_text_length good
  have condition : (sep ≠ NUL ∨ totlen htab sep false+backslashes htab+1 ≤ buffer_size htab sep false size) ↔
      totlen htab sep false+(if sep = NUL then backslashes htab else 0)+1 ≤ buffer_size htab sep false size := by
    by_cases nul : sep = NUL
    · simp [nul]
    · simp only [nul,if_false,ne_eq,not_false_eq_true,true_or,true_iff]
      omega
  rw [condition]
  constructor
  · rintro ⟨bytes,after,block,_⟩
    by_contra long
    rw [exports,if_pos (by omega)] at block
    cases block
  · intro fits
    rw [if_neg (by omega)] at exports
    obtain ⟨after,imported,same⟩ := himport_text good valid separator accepts old
      (buffer_size htab sep false size-(table_text htab sep).length) (by
        rw [show (table_text htab sep).length+(buffer_size htab sep false size-(table_text htab sep).length) =
          buffer_size htab sep false size by omega]
        exact room)
    exact ⟨_,after,exports,imported,same⟩

def backslash_table : Htab :=
  ⟨[⟨0,[],[]⟩,⟨0,[],[]⟩,⟨0,[],[]⟩,⟨3,[97],[92,92,92]⟩,⟨4,[98],[120]⟩,⟨0,[],[]⟩],5,2⟩

theorem backslash_table_valid : Valid backslash_table := by
  have created : hcreate_r 4 = some ⟨replicate 6 ⟨USED_FREE,[],[]⟩,5,0⟩ := by decide +kernel
  have made : (Runs.run step ⟨⟨replicate 6 ⟨USED_FREE,[],[]⟩,5,0⟩,[]⟩
      [.enter [97] [92,92,92] ⟨0,0⟩,.enter [98] [120] ⟨0,0⟩]).htab = backslash_table := by decide +kernel
  rw [← made]
  exact valid_run (by decide) created _

theorem backslash_table_good {sep : UInt8} (separator : Separator sep) (key data : Str)
    (stored : Stores backslash_table key data) : GoodKey sep key ∧ GoodData data := by
  obtain ⟨slot,member,rfl,rfl⟩ := exported_stores.mp stored
  have entries : exported backslash_table false = [⟨3,[97],[92,92,92]⟩,⟨4,[98],[120]⟩] := by decide
  rw [entries] at member
  simp only [mem_cons,not_mem_nil,or_false] at member
  rcases separator with rfl | rfl <;> rcases member with rfl | rfl
  all_goals
    refine ⟨⟨by simp,?_,?_⟩,by simp,?_⟩ <;> intro c member <;>
      simp only [mem_cons,not_mem_nil,or_false,or_self,head?_cons,Option.mem_def,
        Option.some.injEq] at member <;>
      subst member <;> decide

theorem backslash_table_room {size : Nat} (created : hcreate_r (table_entries size) = some new) :
    (exported backslash_table false).length ≤ new.size := by
  have entries : 2 ≤ table_entries size ∧ table_entries size < 2^31 := by
    simp only [table_entries,CONFIG_ENV_MIN_ENTRIES,CONFIG_ENV_MAX_ENTRIES]
    omega
  obtain ⟨made,same,_,_,_,large⟩ := hcreate_spec entries.2
  rw [created,Option.some_inj] at same
  subst same
  have two : (exported backslash_table false).length = 2 := by decide
  omega

/-- With line feeds between the entries the table comes back. -/
theorem backslash_table_round_trip : RoundTrip backslash_table none NEWLINE 0 (fun _ _ => ⟨0,0⟩) :=
  (env_round_trip_iff backslash_table_valid (.inr rfl) (backslash_table_good (.inr rfl))
    (by rw [hexport_text (backslash_table_good (.inr rfl))]; decide) (fun _ _ => ⟨rfl,rfl⟩)
    (fun _ => backslash_table_room) none).mpr (.inl (by decide))

/-- With terminators between them the escapes of the backslashes run over the
    end of the buffer that is allocated for the text. -/
theorem backslash_table_overrun :
    ¬ ∀ htab, Valid htab → (∀ key data, Stores htab key data → GoodKey NUL key ∧ GoodData data) →
      ∀ size, hexport_r htab NUL false size ≠ .refused → ∀ policy, Accepts policy →
      (∀ new, hcreate_r (table_entries (buffer_size htab NUL false size)) = some new →
        (exported htab false).length ≤ new.size) → RoundTrip htab none NUL size policy := by
  intro claim
  have exports : hexport_r backslash_table NUL false 0 = .overrun := by
    rw [hexport_text (backslash_table_good (.inl rfl)),if_neg (by decide),if_pos (by decide)]
  obtain ⟨bytes,after,block,_⟩ := claim backslash_table backslash_table_valid (backslash_table_good (.inl rfl)) 0
    (by rw [exports]; decide) (fun _ _ => ⟨0,0⟩) (fun _ _ => ⟨rfl,rfl⟩) (fun _ => backslash_table_room)
  rw [exports] at block
  cases block

end UBoot.EnvText
