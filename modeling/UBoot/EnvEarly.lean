import UBoot.EnvEntries
import UBoot.EnvComplete
import UBoot.EnvRedund

/-!
Variables before and after the relocation: `env_get_f` of `env/common.c` looks
for a name in the exported block itself, `env_get` in the table that
`env_import` makes of the block. The device tree is not taken from a bloblist,
so that `env_import` adds no variable of its own.
-/
namespace UBoot.EnvEarly
open UBoot.OpenAddressing UBoot.Runs UBoot.Hashtable UBoot.EnvText UBoot.EnvComplete Function Option
open List hiding count

/-- The loop that looks for the end of an entry, so many bytes behind `env`: the
    length of the entry, nothing from the limit on. No value where memory outside the
    block is read. -/
def entry_end (limit : Nat) : Nat → List UInt8 → Option (Option Nat)
  | _, [] => none
  | off, c :: rest =>
    if c = NUL then some (some 0)
    else if limit ≤ off then some none
    else (entry_end limit (off+1) rest).map fun len => len.map (· + 1)

/-- The loop over the entries, for so many rounds: the bytes from the value of the
    name on and its length, if it is found. -/
def linear_loop (limit : Nat) (name : Str) : Nat → Nat → List UInt8 → Option (Option (List UInt8 × Nat))
  | 0, _, _ => none
  | rounds+1, off, p =>
    if p = [] then none
    else if first p = NUL then some none
    else
      (entry_end limit off p).bind fun found =>
      found.elim (some none) fun len =>
      if (name ++ [EQUALS]).isPrefixOf p then some (some (p.drop (name.length+1),len-(name.length+1)))
      else linear_loop limit name rounds (off+len+1) (p.drop (len+1))

/-- The length of the value or -1, and the buffer. -/
def env_get_from_linear (CONFIG_ENV_SIZE : Nat) (env : List UInt8) (name : Str) (buf : List UInt8) : Option (Int × List UInt8) :=
  let len := buf.length
  if name = [] then some (-1,buf)
  else
    (linear_loop CONFIG_ENV_SIZE name env.length 0 env).bind fun found =>
    found.elim (some (-1,buf)) fun (value,res) =>
      (store buf 0 (value.take (min len (res+1)))).bind fun buf =>
      if len ≤ res then (store buf ((len+2^32-1)%2^32) [NUL]).map fun buf => ((res : Int),buf) else some ((res : Int),buf)

structure Gd where
  env_valid : Env.EnvValid
  env_addr : List UInt8

def env_get_f (CONFIG_ENV_SIZE : Nat) (default_environment : List UInt8) (gd : Gd) (name : Str) (buf : List UInt8) :
    Option (Int × List UInt8) :=
  let env := if gd.env_valid = .ENV_INVALID then default_environment else gd.env_addr
  env_get_from_linear CONFIG_ENV_SIZE env name buf

/-- The checksum and the data, where the table can be stored. -/
def env_export (htab : Htab) (size : Nat) : Option (UInt32 × List UInt8) :=
  match hexport_r htab NUL false size with
  | .block data => some (Env.crc32 data,data)
  | _ => none

def env_set_default (htab : Htab) (default_environment : List UInt8) (policy : Policy) : Option Htab :=
  (himport_r (some htab) default_environment NUL false false [] policy).map fun r => r.2

def env_import (htab : Htab) (default_environment : List UInt8) (policy : Policy) (crc : UInt32) (data : List UInt8)
    (check : Bool) : Option (Int × Htab) :=
  if check = true ∧ Env.crc32 data ≠ crc then
    (env_set_default htab default_environment policy).map fun htab => (-Env.ENOMSG,htab)
  else
    (himport_r (some htab) data NUL false false [] policy).bind fun r =>
    if r.1 ≠ 0 then some (0,r.2)
    else (env_set_default r.2 default_environment policy).map fun htab => (-Env.EIO,htab)

def env_get (htab : Htab) (name : Str) : Option (Option Str) :=
  (hsearch_r htab name [] .ENV_FIND ⟨0,0⟩).map fun r => r.retval.map fun idx => (htab.at idx).data

/-- The early lookup and the late one find the same string, as far as the buffer
    holds it, or both find none. -/
def SameLookup (early : Option (Int × List UInt8)) (late : Option (Option Str)) (buf : List UInt8) : Prop :=
  (early = some (-1,buf) ∧ late = some none) ∨
    ∃ res after value, early = some (res,after) ∧ 0 ≤ res ∧ late = some (some value) ∧
      0 < buf.length ∧ after.takeWhile (· ≠ NUL) = value.take (buf.length-1)

/-- The block is imported, and both lookups of a name agree. -/
def Agree (htab : Htab) (CONFIG_ENV_SIZE : Nat) (default_environment : List UInt8) (policy : Policy) (crc : UInt32)
    (data : List UInt8) (check : Bool) (env_valid : Env.EnvValid) (name : Str) (buf : List UInt8) : Prop :=
  ∃ after, env_import htab default_environment policy crc data check = some (0,after) ∧
    SameLookup (env_get_f CONFIG_ENV_SIZE default_environment ⟨env_valid,data⟩ name buf) (env_get after name) buf

def read_name (key : Str) : Str := key.dropWhile isblank

def entry_of (slot : Slot) : Entry :=
  if (read_name slot.key).head? = some HASH then .comment
  else if slot.data = [] then .delete (read_name slot.key)
  else if read_name slot.key = [] then .unnamed
  else .assign (read_name slot.key) slot.data

/-- A key that ends at the equals sign of its entry, and data without a terminator. -/
structure Line (slot : Slot) : Prop where
  key : ∀ c ∈ slot.key, c ≠ NUL ∧ c ≠ EQUALS
  data : ∀ c ∈ slot.data, c ≠ NUL

variable {crc : UInt32} {data name value : Str} {htab : Htab} {keys : List Str} {policy : Policy}
    {size : Nat} {slot : Slot} {slots : List Slot}

theorem escape_nil : escape NUL data = [] ↔ data = [] := by
  cases data with
  | nil => simp [escape]
  | cons c data =>
    rw [escape]
    split_ifs <;> simp

theorem escape_plain (plain : ∀ c ∈ data, c ≠ NUL) : ∀ c ∈ escape NUL data, c ≠ NUL := by
  induction data with
  | nil => simp [escape]
  | cons c data ih =>
    have here := plain c mem_cons_self
    have later := ih fun d member => plain d (mem_cons_of_mem _ member)
    rw [escape]
    split_ifs
    · simpa [BACKSLASH,NUL,here] using ⟨here,later⟩
    · simpa using ⟨here,later⟩

theorem blanks_before_equals (key : Str) (rest : List UInt8) :
    (key ++ EQUALS :: rest).dropWhile isblank = read_name key ++ EQUALS :: rest := by
  induction key with
  | nil => simp [read_name,isblank,EQUALS]
  | cons c key ih =>
    rw [cons_append,dropWhile_cons,read_name,dropWhile_cons]
    split_ifs
    · exact ih
    · rfl

theorem read_name_plain (line : Line slot) : ∀ c ∈ read_name slot.key, c ≠ NUL ∧ c ≠ EQUALS :=
  fun c member => line.key c ((dropWhile_suffix isblank).subset member)

theorem read_entry_line (line : Line slot) (rest : List UInt8) :
    read_entry NUL (entry_text NUL slot ++ rest) = (entry_of slot,rest) := by
  have plain := read_name_plain line
  have whole : entry_text NUL slot ++ rest = slot.key ++ EQUALS :: (escape NUL slot.data ++ NUL :: rest) := by
    simp [entry_text]
  rw [whole,read_entry,entry_of]
  simp only [blanks_before_equals]
  generalize read_name slot.key = name at plain ⊢
  have begins : first (name ++ EQUALS :: (escape NUL slot.data ++ NUL :: rest)) = HASH ↔ name.head? = some HASH := by
    cases name with
    | nil => simp [first,EQUALS,HASH]
    | cons c name => simp [first]
  by_cases comment : name.head? = some HASH
  · rw [if_pos (begins.mpr comment),if_pos comment]
    have all : ∀ c ∈ name ++ EQUALS :: escape NUL slot.data, decide (c ≠ NUL ∧ c ≠ NUL) = true := by
      intro c member
      have : c ≠ NUL := by
        rcases mem_append.mp member with inside | inside
        · exact (plain c inside).1
        · rcases mem_cons.mp inside with rfl | inside
          · simp [EQUALS,NUL]
          · exact escape_plain line.data c inside
      simpa using this
    have split : name ++ EQUALS :: (escape NUL slot.data ++ NUL :: rest) = (name ++ EQUALS :: escape NUL slot.data) ++ NUL :: rest := by
      simp
    rw [split,dropWhile_append_of_pos all,dropWhile_cons_of_neg (by simp)]
    rfl
  · rw [if_neg (mt begins.mp comment),if_neg comment]
    have all : ∀ c ∈ name, decide (c ≠ EQUALS ∧ c ≠ NUL ∧ c ≠ NUL) = true := by
      intro c member
      simpa using (plain c member).symm
    rw [takeWhile_append_of_pos all,takeWhile_cons_of_neg (by simp),dropWhile_append_of_pos all,
      dropWhile_cons_of_neg (by simp),append_nil,read_behind]
    by_cases empty : slot.data = []
    · rw [if_pos empty]
      simp [empty,escape,first,EQUALS,NUL]
    · have some_value : first (escape NUL slot.data ++ NUL :: rest) ≠ NUL := by
        obtain ⟨c,data,is⟩ := exists_cons_of_ne_nil (mt escape_nil.mp empty)
        have := escape_plain line.data c (by rw [is]; exact mem_cons_self)
        simpa [is,first] using this
      rw [if_neg empty,if_neg (by simpa [first,EQUALS,NUL] using some_value)]
      simp only [drop_succ_cons,drop_zero,parse_value_escape (.inl rfl) line.data]

/-- Whether `change_ok` and the callback accept. -/
def Accepted (replies : Replies) : Prop := replies.change_ok = 0 ∧ replies.callback = 0

instance (replies : Replies) : Decidable (Accepted replies) := inferInstanceAs (Decidable (_ ∧ _))

def effect (policy : Policy) (map : Str → Option Str) : Entry → Str → Option Str
  | .comment => map
  | .delete name => if Accepted (policy name none) then Function.update map name none else map
  | .assign name value => if Accepted (policy name (some value)) then Function.update map name (some value) else map
  | .unnamed => map

theorem enter_refused {key data : Str} {replies : Replies} {result : Result}
    (searched : hsearch_r htab key data .ENV_ENTER replies = some result) (refused : ¬Accepted replies) : result.ret = 0 := by
  have either : replies.change_ok ≠ 0 ∨ replies.callback ≠ 0 := by
    simpa only [Accepted,not_and_or] using refused
  rw [hsearch_r] at searched
  cases p : probe htab key with
  | none => simp [p] at searched
  | some found =>
    cases found with
    | found idx =>
      simp only [p,overwrite_entry,if_true,Option.some.injEq] at searched
      subst searched
      by_cases change : replies.change_ok ≠ 0
      · rw [if_pos change]
      · rw [if_neg change,if_pos (either.resolve_left change)]
    | missing idx first_deleted =>
      simp only [p,create_entry,if_true,Option.some.injEq] at searched
      subst searched
      by_cases full : htab.filled = htab.size
      · rw [if_pos full]
      · rw [if_neg full]
        by_cases change : replies.change_ok ≠ 0
        · rw [if_pos change]
        · rw [if_neg change,if_pos (either.resolve_left change)]

theorem hdelete_effect (valid : Valid htab) (key : Str) {map : Str → Option Str}
    (represents : Represents (cells htab) map) (replies : Replies) :
    ∃ ret after, hdelete_r htab key replies = some (ret,after) ∧ Valid after ∧ after.size = htab.size ∧
      Represents (cells after) (if Accepted replies then update map key none else map) := by
  obtain ⟨ret,after,deletes,afterValid,size,accepted,refused⟩ := hdelete_spec valid key represents replies
  refine ⟨ret,after,deletes,afterValid,size,?_⟩
  have found := hsearch_find valid key represents [] replies
  cases mapped : map key with
  | none =>
    rw [mapped] at found
    have fails : ret ≠ 0 := by
      simp only [hdelete_r,found,if_true,Option.some.injEq,Prod.mk.injEq] at deletes
      simp [← deletes.1,ENOENT]
    have absent : update map key none = map := update_eq_self_iff.mpr mapped.symm
    rw [refused fails,absent,ite_self]
    exact represents
  | some d =>
    rw [mapped] at found
    obtain ⟨i,inside,-,searched⟩ := found
    have nonzero : i ≠ 0 := by omega
    simp only [hdelete_r,searched,if_neg nonzero] at deletes
    by_cases accepts : Accepted replies
    · rw [if_neg (not_not.mpr accepts.1),if_neg (not_not.mpr accepts.2),Option.some.injEq,Prod.mk.injEq] at deletes
      rw [if_pos accepts]
      exact accepted deletes.1.symm
    have fails : ret ≠ 0 := by
      split_ifs at deletes with change callback
      · simp only [Option.some.injEq,Prod.mk.injEq] at deletes
        simp [← deletes.1,EPERM]
      · simp only [Option.some.injEq,Prod.mk.injEq] at deletes
        simp [← deletes.1,EINVAL]
      · exact absurd ⟨not_not.mp change,not_not.mp callback⟩ accepts
    rw [if_neg accepts,refused fails]
    exact represents

theorem filled_le (valid : Valid htab) {map : Str → Option Str} (represents : Represents (cells htab) map) (among : ∀ key data, map key = some data → key ∈ keys) : htab.filled ≤ keys.length := by
  rw [valid.filled,count]
  refine le_trans (Finset.card_le_card_of_injOn (fun i => (htab.at i).key) ?_ ?_) (toFinset_card_le keys)
  · intro i member
    have live := (Finset.mem_filter.mp member).2
    obtain ⟨free,deleted⟩ := cell_isLive.mp live
    have held : cells htab i = .live (htab.at i).key (htab.at i).data := cell_live.mpr ⟨free,deleted,rfl,rfl⟩
    simpa using among _ _ ((represents _ _).mp ⟨i,held⟩)
  · intro i one j two same
    exact used_unique valid ((live_iff_used valid i).mp (Finset.mem_filter.mp one).2)
      ((live_iff_used valid j).mp (Finset.mem_filter.mp two).2) same

theorem enter_effect (valid : Valid htab) (key data : Str) {map : Str → Option Str}
    (represents : Represents (cells htab) map) (replies : Replies) (room : htab.filled < htab.size) :
    ∃ result, hsearch_r htab key data .ENV_ENTER replies = some result ∧ Valid result.htab ∧ result.htab.size = htab.size ∧
      Represents (cells result.htab) (if Accepted replies then update map key (some data) else map) := by
  obtain ⟨result,searched,entered⟩ := hsearch_enter valid key represents data replies
  refine ⟨result,searched,entered.valid,entered.size,?_⟩
  by_cases accepts : Accepted replies
  · rw [if_pos accepts]
    exact (entered.accepted (entered.accepts accepts.1 accepts.2 (by omega))).1
  · rw [if_neg accepts]
    exact entered.rejected (enter_refused searched accepts)

def effects (policy : Policy) (slots : List Slot) (map : Str → Option Str) : Str → Option Str :=
  slots.foldl (fun map slot => effect policy map (entry_of slot)) map

def Unnamed (slots : List Slot) : Prop := ∃ slot ∈ slots, entry_of slot = .unnamed

theorem act_effect (valid : Valid htab) {map : Str → Option Str} (represents : Represents (cells htab) map)
    (policy : Policy) {entry : Entry} (named : entry ≠ .unnamed) (room : htab.filled < htab.size) :
    ∃ after, act policy htab [] entry = some (some (after,[])) ∧ Valid after ∧ after.size = htab.size ∧
      Represents (cells after) (effect policy map entry) := by
  cases entry with
  | comment => exact ⟨htab,rfl,valid,rfl,represents⟩
  | delete name =>
    obtain ⟨ret,after,deletes,afterValid,size,holds⟩ := hdelete_effect valid name represents (policy name none)
    exact ⟨after,by simp [act,drop_var_from_set,deletes],afterValid,size,holds⟩
  | assign name value =>
    obtain ⟨result,searched,afterValid,size,holds⟩ := enter_effect valid name value represents (policy name (some value)) room
    exact ⟨result.htab,by simp [act,drop_var_from_set,searched],afterValid,size,holds⟩
  | unnamed => exact absurd rfl named

theorem effect_among {map : Str → Option Str}
    (among : ∀ key data, map key = some data → key ∈ keys) (slot : Slot) :
    ∀ key data, effect policy map (entry_of slot) key = some data → key ∈ read_name slot.key :: keys := by
  intro key data held
  by_cases here : key = read_name slot.key
  · rw [here]
    exact mem_cons_self
  have same : effect policy map (entry_of slot) key = map key := by
    unfold entry_of
    split_ifs
    · rfl
    · simp only [effect]
      split_ifs
      · exact update_of_ne here _ _
      · rfl
    · rfl
    · simp only [effect]
      split_ifs
      · exact update_of_ne here _ _
      · rfl
  exact mem_cons_of_mem _ (among key data (same ▸ held))

theorem line_begins (line : Line slot) (rest : List UInt8) : first (entry_text NUL slot ++ rest) ≠ NUL := by
  cases keyIs : slot.key with
  | nil => simp [entry_text,keyIs,first,EQUALS,NUL]
  | cons c key =>
    have := (line.key c (by rw [keyIs]; exact mem_cons_self)).1
    simpa [entry_text,keyIs,first] using this

theorem import_lines (policy : Policy) (some_slots : slots ≠ []) (lines : ∀ slot ∈ slots, Line slot)
    {tail : List UInt8} (ends : first tail = NUL) {map : Str → Option Str} (valid : Valid htab)
    (represents : Represents (cells htab) map) (among : ∀ key data, map key = some data → key ∈ keys)
    (room : keys.length+slots.length ≤ htab.size) {rounds : Nat} (enough : slots.length ≤ rounds) :
    (Unnamed slots ∧ ∃ after, import_loop NUL policy 1 rounds ((slots.map (entry_text NUL)).flatten ++ tail) htab [] =
        some (false,after,[])) ∨
      (¬Unnamed slots ∧ ∃ after, import_loop NUL policy 1 rounds ((slots.map (entry_text NUL)).flatten ++ tail) htab [] =
        some (true,after,[]) ∧ Valid after ∧ Represents (cells after) (effects policy slots map)) := by
  induction slots generalizing htab map rounds keys with
  | nil => exact absurd rfl some_slots
  | cons slot slots ih =>
    have line := lines slot mem_cons_self
    have others : ∀ slot ∈ slots, Line slot := fun other member => lines other (mem_cons_of_mem _ member)
    rw [length_cons] at room enough
    obtain ⟨rounds,rfl⟩ : ∃ k, rounds = k+1 := ⟨rounds-1,by omega⟩
    rw [map_cons,flatten_cons,append_assoc,import_loop,import_entry_eq,read_entry_line line]
    have fewer := filled_le valid represents among
    by_cases unnamed : entry_of slot = .unnamed
    · exact .inl ⟨⟨slot,mem_cons_self,unnamed⟩,htab,by simp [unnamed,act,parsed]⟩
    obtain ⟨after,acted,afterValid,size,holds⟩ := act_effect valid represents policy unnamed (by omega)
    have unnamedIff : Unnamed (slot :: slots) ↔ Unnamed slots := by
      simp only [Unnamed,mem_cons,exists_eq_or_imp,unnamed,false_or]
    rw [unnamedIff]
    simp only [acted,map_some,parsed]
    cases slots with
    | nil =>
      refine .inr ⟨by simp [Unnamed],after,?_,afterValid,holds⟩
      simp [ends]
    | cons other slots =>
      have continues : 1 < (((other :: slots).map (entry_text NUL)).flatten ++ tail).length ∧
          first (((other :: slots).map (entry_text NUL)).flatten ++ tail) ≠ NUL := by
        constructor
        · simp only [map_cons,flatten_cons,entry_text,length_append,length_cons,length_nil]
          omega
        · rw [map_cons,flatten_cons,append_assoc]
          exact line_begins (others other mem_cons_self) _
      rw [if_pos continues]
      exact ih (by simp) others afterValid holds (effect_among among slot)
        (by simp only [length_cons] at room ⊢; omega) (by simp only [length_cons] at enough ⊢; omega)

def Touches (policy : Policy) (name : Str) (slot : Slot) : Prop :=
  (entry_of slot = .delete name ∧ Accepted (policy name none)) ∨
    ∃ value, entry_of slot = .assign name value ∧ Accepted (policy name (some value))

/-- The last entry of the name that is accepted gives it the value. -/
def Kept (policy : Policy) (slots : List Slot) (name value : Str) : Prop :=
  ∃ before slot after, slots = before ++ slot :: after ∧ entry_of slot = .assign name value ∧
    Accepted (policy name (some value)) ∧ ∀ later ∈ after, ¬Touches policy name later

theorem effect_untouched (untouched : ¬Touches policy name slot)
    (map : Str → Option Str) : effect policy map (entry_of slot) name = map name := by
  simp only [Touches,not_or,not_and,not_exists] at untouched
  cases is : entry_of slot with
  | comment => rfl
  | delete n =>
    simp only [effect]
    split_ifs with accepts
    · refine update_of_ne ?_ _ _
      rintro rfl
      exact untouched.1 is accepts
    · rfl
  | assign n value =>
    simp only [effect]
    split_ifs with accepts
    · refine update_of_ne ?_ _ _
      rintro rfl
      exact untouched.2 value is accepts
    · rfl
  | unnamed => rfl

theorem kept_snoc :
    Kept policy (slots ++ [slot]) name value ↔
      (entry_of slot = .assign name value ∧ Accepted (policy name (some value))) ∨
        (¬Touches policy name slot ∧ Kept policy slots name value) := by
  constructor
  · rintro ⟨before,held,after,split,assigns,accepts,untouched⟩
    rcases eq_nil_or_concat after with rfl | ⟨front,last,rfl⟩
    · obtain ⟨-,ends⟩ := append_inj' split rfl
      obtain rfl : slot = held := singleton_inj.mp ends
      exact .inl ⟨assigns,accepts⟩
    · rw [concat_eq_append] at split untouched
      have whole : slots ++ [slot] = (before ++ held :: front) ++ [last] := by simpa using split
      obtain ⟨rfl,ends⟩ := append_inj' whole rfl
      obtain rfl : slot = last := singleton_inj.mp ends
      exact .inr ⟨untouched slot (by simp),before,held,front,rfl,assigns,accepts,
        fun later member => untouched later (mem_append_left _ member)⟩
  · rintro (⟨assigns,accepts⟩ | ⟨untouched,before,held,after,rfl,assigns,accepts,others⟩)
    · exact ⟨slots,slot,[],rfl,assigns,accepts,by simp⟩
    · refine ⟨before,held,after ++ [slot],by simp,assigns,accepts,fun later member => ?_⟩
      rcases mem_append.mp member with inside | last
      · exact others later inside
      · rwa [mem_singleton.mp last]

theorem effects_kept :
    effects policy slots (fun _ => none) name = some value ↔ Kept policy slots name value := by
  induction slots using reverseRecOn with
  | nil => simp [effects,Kept]
  | append_singleton slots slot ih =>
    have next : effects policy (slots ++ [slot]) (fun _ => none) = effect policy (effects policy slots fun _ => none) (entry_of slot) :=
      foldl_append
    rw [kept_snoc,← ih,next]
    by_cases touches : Touches policy name slot
    · rcases touches with ⟨deletes,accepts⟩ | ⟨v,assigns,accepts⟩
      · simp [deletes,effect,accepts,Touches]
      have held : Touches policy name slot := .inr ⟨v,assigns,accepts⟩
      rw [assigns]
      simp only [effect,if_pos accepts,update_self,held,not_true_eq_false,false_and,or_false,Entry.assign.injEq,
        true_and,Option.some.injEq]
      constructor
      · rintro rfl
        exact ⟨rfl,accepts⟩
      · exact fun same => same.1
    · rw [effect_untouched touches]
      have not_here : ¬(entry_of slot = .assign name value ∧ Accepted (policy name (some value))) :=
        fun here => touches (.inr ⟨value,here⟩)
      simp [touches,not_here]

theorem kept_named : ¬Kept policy slots [] value := by
  rintro ⟨before,slot,after,-,assigns,-⟩
  unfold entry_of at assigns
  split_ifs at assigns with _ _ unnamed
  simp only [Entry.assign.injEq] at assigns
  exact unnamed assigns.1

def line_text (slot : Slot) : Str := slot.key ++ EQUALS :: escape NUL slot.data

theorem entry_text_line (slot : Slot) : entry_text NUL slot = line_text slot ++ [NUL] := by
  simp [entry_text,line_text]

theorem line_text_plain (line : Line slot) : NUL ∉ line_text slot := by
  intro member
  rcases mem_append.mp member with inside | inside
  · exact (line.key NUL inside).1 rfl
  · rcases mem_cons.mp inside with same | inside
    · simp [NUL,EQUALS] at same
    · exact escape_plain line.data NUL inside rfl

theorem entry_end_line {limit off : Nat} {text : Str} (plain : NUL ∉ text) (within : off+text.length ≤ limit) (rest : List UInt8) :
    entry_end limit off (text ++ NUL :: rest) = some (some text.length) := by
  induction text generalizing off with
  | nil => simp [entry_end]
  | cons c text ih =>
    simp only [mem_cons,not_or] at plain
    simp only [length_cons] at within
    rw [cons_append,entry_end,if_neg (Ne.symm plain.1),if_neg (by omega),ih plain.2 (by omega)]
    rfl

theorem prefix_line {name text : Str} (plain : NUL ∉ name) (rest : List UInt8) :
    (name ++ [EQUALS]).isPrefixOf (text ++ NUL :: rest) = true ↔ ∃ raw, text = name ++ EQUALS :: raw := by
  rw [List.isPrefixOf_iff_prefix]
  constructor
  · intro begins
    have ended : text ++ [NUL] <+: text ++ NUL :: rest := ⟨rest,by simp⟩
    rcases prefix_or_prefix_of_prefix begins ended with inside | longer
    · rcases prefix_concat_iff.mp inside with same | ⟨raw,is⟩
      · have ends := congrArg List.getLast? same
        simp [EQUALS,NUL] at ends
      · exact ⟨raw,by simpa using is.symm⟩
    · have member : NUL ∈ name ++ [EQUALS] := longer.subset (by simp)
      rcases mem_append.mp member with inside | last
      · exact absurd inside plain
      · simp [EQUALS,NUL] at last
  · rintro ⟨raw,rfl⟩
    exact ⟨raw ++ NUL :: rest,by simp⟩

theorem drop_behind (front : List UInt8) (c : UInt8) (rest : List UInt8) : (front ++ c :: rest).drop (front.length+1) = rest := by
  rw [← drop_drop,drop_left]
  rfl

theorem linear_loop_lines {limit : Nat} (plain : NUL ∉ name) (lines : ∀ slot ∈ slots, Line slot)
    (pad : List UInt8) {off rounds : Nat} (within : off+((slots.map (entry_text NUL)).flatten).length ≤ limit)
    (enough : slots.length < rounds) :
    ((∀ slot ∈ slots, ∀ raw, line_text slot ≠ name ++ EQUALS :: raw) ∧
        linear_loop limit name rounds off ((slots.map (entry_text NUL)).flatten ++ NUL :: pad) = some none) ∨
      ∃ slot ∈ slots, ∃ raw more, line_text slot = name ++ EQUALS :: raw ∧
        linear_loop limit name rounds off ((slots.map (entry_text NUL)).flatten ++ NUL :: pad) =
          some (some (raw ++ NUL :: more,raw.length)) := by
  induction slots generalizing off rounds with
  | nil =>
    obtain ⟨rounds,rfl⟩ : ∃ k, rounds = k+1 := ⟨rounds-1,by omega⟩
    exact .inl ⟨by simp,by simp [linear_loop,first]⟩
  | cons slot slots ih =>
    rw [length_cons] at enough
    obtain ⟨rounds,rfl⟩ : ∃ k, rounds = k+1 := ⟨rounds-1,by omega⟩
    have line := lines slot mem_cons_self
    have inside := line_text_plain line
    rw [map_cons,flatten_cons,entry_text_line,length_append,length_append,length_singleton] at within
    replace ih := @ih (fun other member => lines other (mem_cons_of_mem _ member)) (off+(line_text slot).length+1) rounds
      (by omega) (by omega)
    have whole : ((slot :: slots).map (entry_text NUL)).flatten ++ NUL :: pad =
        line_text slot ++ NUL :: ((slots.map (entry_text NUL)).flatten ++ NUL :: pad) := by
      simp [entry_text_line]
    generalize (slots.map (entry_text NUL)).flatten ++ NUL :: pad = rest at ih whole
    have begins := line_begins line rest
    rw [entry_text_line,append_assoc,singleton_append] at begins
    have found := entry_end_line inside (show off+(line_text slot).length ≤ limit by omega) rest
    rw [whole,linear_loop,if_neg (by simp),if_neg begins,found,bind_some,elim_some]
    by_cases here : ∃ raw, line_text slot = name ++ EQUALS :: raw
    · rw [if_pos ((prefix_line plain _).mpr here)]
      obtain ⟨raw,is⟩ := here
      refine .inr ⟨slot,mem_cons_self,raw,rest,is,?_⟩
      have dropped : (line_text slot ++ NUL :: rest).drop (name.length+1) = raw ++ NUL :: rest := by
        rw [is,append_assoc,cons_append,drop_behind]
      have counted : (line_text slot).length-(name.length+1) = raw.length := by
        rw [is,length_append,length_cons]
        omega
      rw [dropped,counted]
    · rw [if_neg (mt (prefix_line plain _).mp here)]
      have dropped : (line_text slot ++ NUL :: rest).drop ((line_text slot).length+1) = rest := drop_behind _ _ _
      rw [dropped]
      rcases ih with ⟨none,missing⟩ | ⟨other,member,raw,more,is,finds⟩
      · refine .inl ⟨fun other member raw is => ?_,missing⟩
        rcases mem_cons.mp member with rfl | later
        · exact here ⟨raw,is⟩
        · exact none other later raw is
      · exact .inr ⟨other,mem_cons_of_mem _ member,raw,more,is,finds⟩

theorem value_copied {raw : Str} (plain : NUL ∉ raw) (more : List UInt8) {buf : List UInt8} (positive : 0 < buf.length)
    (small : buf.length < 2^32) :
    ∃ after, ((store buf 0 ((raw ++ NUL :: more).take (min buf.length (raw.length+1)))).bind fun after =>
      if buf.length ≤ raw.length then (store after ((buf.length+2^32-1)%2^32) [NUL]).map fun after => ((raw.length : Int),after)
      else some ((raw.length : Int),after)) = some ((raw.length : Int),after) ∧
      after.takeWhile (· ≠ NUL) = raw.take (buf.length-1) := by
  have all (k : Nat) : ∀ c ∈ raw.take k, decide (c ≠ NUL) = true := by
    intro c member
    have : c ≠ NUL := by
      rintro rfl
      exact plain (mem_of_mem_take member)
    simpa using this
  by_cases long : buf.length ≤ raw.length
  · have copied : store buf 0 ((raw ++ NUL :: more).take (min buf.length (raw.length+1))) = some (raw.take buf.length) := by
      rw [min_eq_left (by omega),take_append_of_le_length long,store,if_pos (by simp)]
      simp [long]
    have index : (buf.length+2^32-1)%2^32 = buf.length-1 := by omega
    have closed : store (raw.take buf.length) (buf.length-1) [NUL] = some (raw.take (buf.length-1) ++ [NUL]) := by
      rw [store,if_pos (by simp; omega),take_take,min_eq_left (by omega),drop_of_length_le (by simp; omega),append_nil]
    rw [copied,bind_some,if_pos long,index,closed]
    refine ⟨_,rfl,?_⟩
    rw [takeWhile_append_of_pos (all _)]
    simp
  · have copied : store buf 0 ((raw ++ NUL :: more).take (min buf.length (raw.length+1))) =
        some (raw ++ NUL :: buf.drop (raw.length+1)) := by
      have taken : (raw ++ NUL :: more).take (raw.length+1) = raw ++ [NUL] := by
        rw [take_append]
        simp
      rw [Nat.min_eq_right (by omega),taken,store,if_pos (by simp; omega)]
      simp
    rw [copied,bind_some,if_neg long]
    refine ⟨_,rfl,?_⟩
    have whole := all raw.length
    rw [take_length] at whole
    rw [takeWhile_append_of_pos whole,take_of_length_le (by omega)]
    simp

theorem next_prime_stops {rounds nel size : Nat} (found : next_prime rounds nel = some size) :
    isprime size = true ∧ nel ≤ size ∧ size%2 = nel%2 ∧ ∀ m, nel ≤ m → m%2 = nel%2 → isprime m = true → size ≤ m := by
  induction rounds generalizing nel with
  | zero => simp [next_prime] at found
  | succ rounds ih =>
    rw [next_prime] at found
    by_cases prime : isprime nel = true
    · rw [if_pos prime,some_inj] at found
      subst found
      exact ⟨prime,le_rfl,rfl,fun m above _ _ => above⟩
    · rw [if_neg prime] at found
      obtain ⟨stops,above,parity,first⟩ := ih found
      refine ⟨stops,by omega,by omega,fun m low same accepted => first m ?_ (by omega) accepted⟩
      have : m ≠ nel := by
        rintro rfl
        exact prime accepted
      omega

theorem hcreate_mono {few many : Nat} (less : few ≤ many) {small large : Htab} (one : hcreate_r few = some small)
    (two : hcreate_r many = some large) : small.size ≤ large.size := by
  obtain ⟨size,found,rfl⟩ := map_eq_some_iff.mp one
  obtain ⟨size',found',rfl⟩ := map_eq_some_iff.mp two
  obtain ⟨prime,above,parity,-⟩ := next_prime_stops found'
  obtain ⟨-,-,-,first⟩ := next_prime_stops found
  obtain ⟨odd,half⟩ := or_one few
  obtain ⟨odd',half'⟩ := or_one many
  exact first size' (by omega) (by omega) prime

theorem table_entries_mono {small large : Nat} (less : small ≤ large) :
    table_entries small ≤ table_entries large ∧ table_entries large < 2^31 := by
  simp only [table_entries,CONFIG_ENV_MIN_ENTRIES,CONFIG_ENV_MAX_ENTRIES]
  omega

theorem size_step {s : Session} (refines : Refines s) (op : Op) : (step s op).htab.size = s.htab.size := by
  obtain ⟨valid,represents⟩ := refines
  cases op with
  | find key =>
    have found := hsearch_find valid key represents [] ⟨0,0⟩
    cases held : last_entered s.history key with
    | none =>
      rw [held] at found
      simp [step,perform,found]
    | some d =>
      rw [held] at found
      obtain ⟨i,-,-,searched⟩ := found
      simp [step,perform,searched]
  | enter key data replies =>
    obtain ⟨result,searched,entered⟩ := hsearch_enter valid key represents data replies
    simpa [step,perform,searched] using entered.size
  | delete key replies =>
    obtain ⟨ret,after,deleted,-,size,-⟩ := hdelete_spec valid key represents replies
    simpa [step,perform,deleted] using size

theorem size_run {s : Session} (refines : Refines s) (ops : List Op) : (run step s ops).htab.size = s.htab.size := by
  induction ops generalizing s with
  | nil => rfl
  | cons op ops ih => rw [run_cons,ih (refines_step refines op).1,size_step refines op]

theorem exported_length (htab : Htab) : (exported htab false).length ≤ htab.size := by
  refine (length_filter_le _ _).trans ?_
  simp

def ordered (htab : Htab) : List Slot := (exported htab false).mergeSort cmpkey

/-- The block has an entry that begins with the name and an equals sign, with the
    bytes behind them. -/
def Listed (htab : Htab) (name raw : Str) : Prop :=
  ∃ key data, Stores htab key data ∧ key ++ EQUALS :: escape NUL data = name ++ EQUALS :: raw

theorem ordered_mem : slot ∈ ordered htab ↔ slot ∈ exported htab false :=
  (mergeSort_perm _ _).mem_iff

theorem listed_iff {name raw : Str} :
    Listed htab name raw ↔ ∃ slot ∈ ordered htab, line_text slot = name ++ EQUALS :: raw := by
  constructor
  · rintro ⟨key,data,stored,is⟩
    obtain ⟨slot,member,rfl,rfl⟩ := exported_stores.mp stored
    exact ⟨slot,ordered_mem.mpr member,is⟩
  · rintro ⟨slot,member,is⟩
    exact ⟨slot.key,slot.data,exported_stores.mpr ⟨slot,ordered_mem.mp member,rfl,rfl⟩,is⟩

theorem line_key (line : Line slot) : (line_text slot).takeWhile (· ≠ EQUALS) = slot.key := by
  have all : ∀ c ∈ slot.key, decide (c ≠ EQUALS) = true := by
    intro c member
    simpa using (line.key c member).2
  rw [line_text,takeWhile_append_of_pos all]
  simp

theorem takeWhile_equals (name rest : Str) : (name ++ EQUALS :: rest).takeWhile (· ≠ EQUALS) = name.takeWhile (· ≠ EQUALS) := by
  induction name with
  | nil => simp
  | cons c name ih =>
    rw [cons_append,takeWhile_cons,takeWhile_cons,ih]

theorem listed_unique (valid : Valid htab) (lines : ∀ slot ∈ ordered htab, Line slot) {name raw raw' : Str}
    (one : Listed htab name raw) (two : Listed htab name raw') : raw = raw' := by
  obtain ⟨slot,member,is⟩ := listed_iff.mp one
  obtain ⟨slot',member',is'⟩ := listed_iff.mp two
  have same : slot.key = slot'.key := by
    rw [← line_key (lines slot member),← line_key (lines slot' member'),is,is',takeWhile_equals,takeWhile_equals]
  obtain ⟨i,-,-,used,rfl⟩ := exported_mem.mp (ordered_mem.mp member)
  obtain ⟨j,-,-,used',rfl⟩ := exported_mem.mp (ordered_mem.mp member')
  obtain rfl := used_unique valid used used' same
  simpa using is.symm.trans is'

theorem env_get_eq (valid : Valid htab) {map : Str → Option Str} (represents : Represents (cells htab) map)
    (name : Str) : env_get htab name = some (map name) := by
  have found := hsearch_find valid name represents [] ⟨0,0⟩
  cases held : map name with
  | none =>
    rw [held] at found
    simp [env_get,found]
  | some d =>
    rw [held] at found
    obtain ⟨i,-,live,searched⟩ := found
    simp [env_get,searched,(cell_live.mp live).2.2.2]

theorem env_export_block (positive : 0 < size) {data : List UInt8}
    (exported : env_export htab size = some (crc,data)) :
    crc = Env.crc32 data ∧ data.length = size ∧
      ∃ pad, data = ((ordered htab).map (entry_text NUL)).flatten ++ NUL :: replicate pad NUL := by
  have opened : hexport_r htab NUL false size =
      if size < totlen htab NUL false+1 then .refused
      else if size < (((ordered htab).map (entry_text NUL)).flatten ++ [NUL]).length then .overrun
      else .block (((ordered htab).map (entry_text NUL)).flatten ++ [NUL] ++
        replicate (size-(((ordered htab).map (entry_text NUL)).flatten ++ [NUL]).length) NUL) := by
    simp [hexport_r,buffer_size,Nat.pos_iff_ne_zero.mp positive,ordered]
  generalize ((ordered htab).map (entry_text NUL)).flatten = text at opened ⊢
  rw [env_export,opened] at exported
  by_cases refused : size < totlen htab NUL false+1
  · simp [refused] at exported
  rw [if_neg refused] at exported
  by_cases long : size < (text ++ [NUL]).length
  · rw [if_pos long] at exported
    cases exported
  · rw [if_neg long] at exported
    simp only [Option.some.injEq,Prod.mk.injEq] at exported
    obtain ⟨rfl,rfl⟩ := exported
    refine ⟨rfl,?_,size-(text ++ [NUL]).length,by simp⟩
    rw [length_append,length_replicate]
    omega

theorem import_block (lines : ∀ slot ∈ ordered htab, Line slot) (positive : 0 < size)
    {data : List UInt8} (exported : env_export htab size = some (crc,data))
    (room : ∀ new, hcreate_r (table_entries size) = some new → htab.size ≤ new.size) (old : Option Htab) (policy : Policy) :
    (Unnamed (ordered htab) ∧ ∃ after, himport_r old data NUL false false [] policy = some (0,after)) ∨
      (¬Unnamed (ordered htab) ∧ ∃ after, himport_r old data NUL false false [] policy = some (1,after) ∧ Valid after ∧
        Represents (cells after) (effects policy (ordered htab) fun _ => none)) := by
  obtain ⟨-,length,pad,block⟩ := env_export_block positive exported
  obtain ⟨new,created,newValid,empty,-,-⟩ := hcreate_spec (table_entries_mono (le_refl size)).2
  have large := room new created
  have created' : hcreate_r (table_entries data.length) = some new := by rw [length,created]
  have some_data : data ≠ [] := by
    rw [block]
    simp
  have fits : (ordered htab).length ≤ new.size := by
    rw [ordered,length_mergeSort]
    exact (exported_length htab).trans large
  have whole : data ++ [NUL] = ((ordered htab).map (entry_text NUL)).flatten ++ NUL :: replicate (pad+1) NUL := by
    rw [block,replicate_succ']
    simp
  have rounds : (ordered htab).length < data.length+1 := by
    have counted := text_rounds NUL (ordered htab)
    have total := congrArg List.length block
    simp only [length_append,length_cons] at total
    omega
  by_cases none_ : ordered htab = []
  · have looped : import_loop NUL policy 1 (data.length+1) (data ++ [NUL]) new [] = some (true,new,[]) := by
      rw [whole,none_]
      exact import_loop_empty policy newValid empty (pad+1) (by omega)
    refine .inr ⟨by simp [none_,Unnamed],new,himport_new old some_data created' looped,newValid,?_⟩
    rw [none_]
    exact empty
  · rcases import_lines policy none_ lines (show first (NUL :: replicate (pad+1) NUL) = NUL from rfl) newValid empty
      (show ∀ key data, (fun _ => none : Str → Option Str) key = some data → key ∈ [] by simp) (by simpa using fits)
      (le_of_lt rounds) with ⟨unnamed,after,looped⟩ | ⟨named,after,looped,afterValid,holds⟩
    · rw [← whole] at looped
      exact .inl ⟨unnamed,after,himport_new old some_data created' looped⟩
    · rw [← whole] at looped
      exact .inr ⟨named,after,himport_new old some_data created' looped,afterValid,holds⟩

theorem early_listed (lines : ∀ slot ∈ ordered htab, Line slot) (positive : 0 < size)
    {data : List UInt8} (exported : env_export htab size = some (crc,data)) (header : Nat) (named : name ≠ [])
    (plain : NUL ∉ name) {buf : List UInt8} (small : buf.length < 2^32) :
    ((∀ raw, ¬Listed htab name raw) ∧ env_get_from_linear (size+header) data name buf = some (-1,buf)) ∨
      ∃ raw, Listed htab name raw ∧
        (buf = [] → env_get_from_linear (size+header) data name buf = none) ∧
        (0 < buf.length → ∃ after, env_get_from_linear (size+header) data name buf = some ((raw.length : Int),after) ∧
          after.takeWhile (· ≠ NUL) = raw.take (buf.length-1)) := by
  obtain ⟨-,length,pad,block⟩ := env_export_block positive exported
  have within : 0+(((ordered htab).map (entry_text NUL)).flatten).length ≤ size+header := by
    have total := congrArg List.length block
    simp only [length_append,length_cons] at total
    omega
  have rounds : (ordered htab).length < data.length := by
    have counted := text_rounds NUL (ordered htab)
    have total := congrArg List.length block
    simp only [length_append,length_cons] at total
    omega
  unfold env_get_from_linear
  dsimp only
  rw [if_neg named]
  rcases linear_loop_lines plain lines (replicate pad NUL) within rounds with ⟨none,missing⟩ | ⟨slot,member,raw,more,is,found⟩
  · rw [← block] at missing
    refine .inl ⟨fun raw listed => ?_,by rw [missing]; rfl⟩
    obtain ⟨slot,member,is⟩ := listed_iff.mp listed
    exact none slot member raw is
  rw [← block] at found
  have inside : NUL ∉ raw := by
    intro here
    refine line_text_plain (lines slot member) ?_
    rw [is]
    simp [here]
  refine .inr ⟨raw,listed_iff.mpr ⟨slot,member,is⟩,?_,fun room => ?_⟩
  · rintro rfl
    rw [found]
    simp [store]
  · rw [found]
    exact value_copied inside more room small

/-- Nothing is listed for a name and nothing kept, or what is listed, with its escapes,
    begins like what is kept, as far as a buffer goes. -/
def Alike (policy : Policy) (htab : Htab) (name : Str) (len : Nat) : Prop :=
  ((∀ raw, ¬Listed htab name raw) ∧ ∀ value, ¬Kept policy (ordered htab) name value) ∨
    ∃ raw value, Listed htab name raw ∧ Kept policy (ordered htab) name value ∧ 0 < len ∧ raw.take (len-1) = value.take (len-1)

/-- The length of data up to the end of its first backslashes. -/
def unescaped_length (data : Str) : Nat :=
  (data.takeWhile (· ≠ BACKSLASH)).length+((data.dropWhile (· ≠ BACKSLASH)).takeWhile (· = BACKSLASH)).length

theorem run_take (count : Nat) (data : Str) (k : Nat) :
    (replicate (count+1) BACKSLASH ++ escape NUL data).take k = data.take k ↔ k ≤ (data.takeWhile (· = BACKSLASH)).length := by
  induction data generalizing count k with
  | nil => cases k <;> simp [escape,replicate_succ]
  | cons c data ih =>
    cases k with
    | zero => simp
    | succ k =>
      rw [replicate_succ,cons_append,take_succ_cons,take_succ_cons,List.cons.injEq]
      by_cases run : c = BACKSLASH
      · have shifted : replicate count BACKSLASH ++ escape NUL (c :: data) = replicate (count+1+1) BACKSLASH ++ escape NUL data := by
          rw [escape,if_pos (.inr run),run,replicate_succ',replicate_succ']
          simp
        rw [shifted,ih,takeWhile_cons_of_pos (by simpa using run)]
        simp [run]
      · simp [run,Ne.symm run]

theorem escape_take (plain : ∀ c ∈ data, c ≠ NUL) (k : Nat) :
    (escape NUL data).take k = data.take k ↔ BACKSLASH ∉ data ∨ k ≤ unescaped_length data := by
  unfold unescaped_length
  induction data generalizing k with
  | nil => simp [escape]
  | cons c data ih =>
    cases k with
    | zero => simp
    | succ k =>
      by_cases first : c = BACKSLASH
      · have rest := run_take 0 data k
        rw [replicate_one] at rest
        rw [escape,if_pos (.inr first),first,take_succ_cons,take_succ_cons,cons_inj_right]
        exact rest.trans (by simp)
      · have here := plain c mem_cons_self
        rw [escape,if_neg (by simp [here,first]),take_succ_cons,take_succ_cons,cons_inj_right,
          ih fun d member => plain d (mem_cons_of_mem _ member)]
        simp [first,Ne.symm first,add_right_comm _ 1]

theorem alike_ordinary (valid : Valid htab) (lines : ∀ slot ∈ ordered htab, Line slot) (stored : Stores htab name value) (named : name ≠ [])
    (starts : ∀ c ∈ name.head?, isblank c = false ∧ c ≠ HASH) (some_value : value ≠ []) (accepts : Accepted (policy name (some value)))
    (alone : ∀ key data, Stores htab key data → read_name key = name → key = name) (len : Nat) :
    Alike policy htab name len ↔ 0 < len ∧ (BACKSLASH ∉ value ∨ len-1 ≤ unescaped_length value) := by
  obtain ⟨slot,member,rfl,rfl⟩ := exported_stores.mp stored
  have inside := ordered_mem.mpr member
  have listed : Listed htab slot.key (escape NUL slot.data) := ⟨_,_,stored,rfl⟩
  have unread (key : Str) (starts : ∀ c ∈ key.head?, isblank c = false ∧ c ≠ HASH) : read_name key = key := by
    cases key with
    | nil => rfl
    | cons c key => simp [read_name,(starts c rfl).1]
  have assigns : entry_of slot = .assign slot.key slot.data := by
    have uncommented : slot.key.head? ≠ some HASH := fun is => (starts HASH is).2 rfl
    rw [entry_of,unread slot.key starts,if_neg uncommented,if_neg some_value,if_neg named]
  have keeps : Kept policy (ordered htab) slot.key slot.data := by
    obtain ⟨before,after,split⟩ := append_of_mem inside
    refine ⟨before,slot,after,split,assigns,accepts,fun later member touches => ?_⟩
    have reads : read_name later.key = slot.key := by
      rcases touches with ⟨is,-⟩ | ⟨value,is,-⟩
      · unfold entry_of at is
        split_ifs at is
        simpa using is
      · unfold entry_of at is
        split_ifs at is
        exact (Entry.assign.injEq _ _ _ _ ▸ is).1
    have stored_later : Stores htab later.key later.data :=
      exported_stores.mpr ⟨later,ordered_mem.mp (by rw [split]; simp [member]),rfl,rfl⟩
    have same := alone _ _ stored_later reads
    have distinct : ((ordered htab).map Slot.key).Nodup :=
      ((mergeSort_perm _ _).map Slot.key).nodup_iff.mpr (exported_keys valid)
    rw [split,map_append,map_cons,nodup_append] at distinct
    exact (nodup_cons.mp distinct.2.1).1 (same ▸ List.mem_map_of_mem member)
  have unique (value : Str) (other : Kept policy (ordered htab) slot.key value) : value = slot.data :=
    Option.some.inj ((effects_kept.mpr other).symm.trans (effects_kept.mpr keeps))
  rw [← escape_take (lines slot inside).data]
  constructor
  · rintro (⟨none,-⟩ | ⟨raw,value,also,held,room,agrees⟩)
    · exact absurd listed (none _)
    · obtain rfl := unique value held
      rw [listed_unique valid lines also listed] at agrees
      exact ⟨room,agrees⟩
  · rintro ⟨room,agrees⟩
    exact .inr ⟨_,_,listed,keeps,room,agrees⟩

/-- The import succeeds exactly where every entry has a name, and both lookups agree
    on nothing for a name and on the names for which the block and the table are alike. -/
theorem early_late_iff {ENV_SIZE n : Nat} (positive : 0 < ENV_SIZE) (header : Nat) {start : Htab}
    (created : hcreate_r (table_entries n) = some start) (fits : n ≤ ENV_SIZE) {ops : List Op}
    (strings : ∀ key data replies, .enter key data replies ∈ ops → NUL ∉ key ∧ EQUALS ∉ key ∧ NUL ∉ data) {crc : UInt32}
    {data : List UInt8} (exported : env_export (run step ⟨start,[]⟩ ops).htab ENV_SIZE = some (crc,data)) (old : Htab)
    (default_environment : List UInt8) (policy : Policy) (check : Bool) {env_valid : Env.EnvValid}
    (valid : env_valid ≠ .ENV_INVALID) {name : Str} (plain : NUL ∉ name) {buf : List UInt8} (small : buf.length < 2^32) :
    let htab := (run step ⟨start,[]⟩ ops).htab
    Agree old (ENV_SIZE+header) default_environment policy crc data check env_valid name buf ↔
      ¬Unnamed (ordered htab) ∧
        (name = [] ∨ Alike policy htab name buf.length) := by
  intro htab
  obtain ⟨below,less⟩ := table_entries_mono fits
  have tableValid : Valid htab := valid_run (by omega) created ops
  have lines : ∀ slot ∈ ordered htab, Line slot := by
    intro slot member
    obtain ⟨replies,entered⟩ := stored_entered (by omega) created
      (exported_stores.mpr ⟨slot,ordered_mem.mp member,rfl,rfl⟩)
    obtain ⟨key,equals,data⟩ := strings _ _ _ entered
    refine ⟨fun c member => ⟨?_,?_⟩,fun c member => ?_⟩
    · rintro rfl
      exact key member
    · rintro rfl
      exact equals member
    · rintro rfl
      exact data member
  have room : ∀ new, hcreate_r (table_entries ENV_SIZE) = some new → htab.size ≤ new.size := by
    intro new is
    obtain ⟨made,same,startValid,empty,_⟩ := hcreate_spec (show table_entries n < 2^31 by omega)
    rw [created,Option.some_inj] at same
    subst same
    have refines : Refines ⟨start,[]⟩ := ⟨startValid,empty⟩
    rw [show htab.size = start.size from size_run refines ops]
    exact hcreate_mono below created is
  obtain ⟨rfl,-⟩ := env_export_block positive exported
  unfold Agree env_import env_get_f
  simp only [ne_eq,not_true_eq_false,and_false,if_false,valid]
  rcases import_block lines positive exported room (some old) policy with ⟨unnamed,after,imported⟩ | ⟨named,after,imported,afterValid,holds⟩
  · constructor
    · rintro ⟨result,is,-⟩
      simp [imported,Env.EIO] at is
    · exact fun cond => absurd unnamed cond.1
  · have late : env_get after name = some (effects policy (ordered htab) (fun _ => none) name) := env_get_eq afterValid holds name
    have found : ∀ value, effects policy (ordered htab) (fun _ => none) name = some value ↔ Kept policy (ordered htab) name value :=
      fun value => effects_kept
    generalize effects policy (ordered htab) (fun _ => none) name = held at late found
    simp only [imported,Option.bind_some,one_ne_zero,not_false_eq_true,if_true,Option.some.injEq,Prod.mk.injEq,true_and,
      exists_eq_left',late,named]
    by_cases nameless : name = []
    · subst nameless
      have none_held : held = none := Option.eq_none_iff_forall_ne_some.mpr fun value is => kept_named ((found value).mp is)
      simp [SameLookup,env_get_from_linear,none_held]
    · simp only [nameless,false_or]
      rcases early_listed lines positive exported header nameless plain small with ⟨unlisted,missing⟩ | ⟨raw,listed,outside,inside⟩
      · rw [missing]
        have kept_none : (∀ value, ¬Kept policy (ordered htab) name value) ↔ held = none := by
          rw [Option.eq_none_iff_forall_ne_some]
          exact forall_congr' fun value => not_congr (found value).symm
        rw [Alike,kept_none]
        simp [SameLookup,unlisted]
      · have same : ∀ other, Listed htab name other ↔ other = raw := fun other =>
          ⟨fun also => listed_unique tableValid lines also listed,fun is => is ▸ listed⟩
        simp only [Alike,same,← found]
        by_cases empty : buf = []
        · have none_found := outside empty
          subst empty
          simp [SameLookup,none_found]
        · obtain ⟨after,finds,text⟩ := inside (List.length_pos_of_ne_nil empty)
          simp only [SameLookup,finds]
          constructor
          · rintro (⟨absent,-⟩ | ⟨res,written,value,is,-,keeps,room,agrees⟩)
            · simp only [Option.some.injEq,Prod.mk.injEq] at absent
              omega
            · simp only [Option.some.injEq,Prod.mk.injEq] at is keeps
              obtain ⟨rfl,rfl⟩ := is
              exact .inr ⟨raw,value,rfl,keeps,room,text ▸ agrees⟩
          · rintro (⟨none,-⟩ | ⟨other,value,rfl,keeps,room,agrees⟩)
            · exact absurd rfl (none raw)
            · exact .inr ⟨_,after,value,rfl,Int.natCast_nonneg _,by rw [keeps],room,text ▸ agrees⟩

def small_table : Htab := ⟨List.replicate 68 ⟨USED_FREE,[],[]⟩,67,0⟩

def letter_data : List UInt8 := [97,61,49,0,0,0,0,0]
def escaped_data : List UInt8 := [97,61,92,92,0,0,0,0]

/-- `a=1` -/
theorem early_late_letter : hcreate_r (table_entries 8) = some small_table ∧
    env_export (run step ⟨small_table,[]⟩ [.enter [97] [49] ⟨0,0⟩]).htab 8 = some (Env.crc32 letter_data,letter_data) ∧
    Agree small_table (8+4) [] (fun _ _ => ⟨0,0⟩) (Env.crc32 letter_data) letter_data true .ENV_VALID [97] (List.replicate 8 0) := by
  have created : hcreate_r (table_entries 8) = some small_table := by decide +kernel
  have exported : env_export (run step ⟨small_table,[]⟩ [.enter [97] [49] ⟨0,0⟩]).htab 8 = some (Env.crc32 letter_data,letter_data) := by
    decide +kernel
  have only : ordered (run step ⟨small_table,[]⟩ [.enter [97] [49] ⟨0,0⟩]).htab = [⟨46,[97],[49]⟩] := by decide +kernel
  refine ⟨created,exported,(early_late_iff (by simp) 4 created (Nat.le_refl 8) ?_ exported small_table [] (fun _ _ => ⟨0,0⟩) true
    (by simp) (by simp [NUL]) (by simp)).mpr ⟨?_,.inr (.inr ⟨[49],[49],?_,?_,by simp,rfl⟩)⟩⟩
  · intro key data replies member
    simp only [List.mem_singleton,Op.enter.injEq] at member
    obtain ⟨rfl,rfl,-⟩ := member
    simp [NUL,EQUALS]
  · rw [only]
    simp [Unnamed,entry_of,read_name,isblank,HASH]
  · rw [listed_iff,only]
    exact ⟨_,List.mem_singleton_self _,rfl⟩
  · rw [only]
    exact ⟨[],_,[],rfl,by decide,⟨rfl,rfl⟩,by simp⟩

/-- The early lookup of a backslash finds its escape before it. -/
theorem early_late_backslash :
    env_export (run step ⟨small_table,[]⟩ [.enter [97] [92] ⟨0,0⟩]).htab 8 = some (Env.crc32 escaped_data,escaped_data) ∧
      env_get_f (8+4) [] ⟨.ENV_VALID,escaped_data⟩ [97] (List.replicate 8 0) = some (2,[92,92,0,0,0,0,0,0]) ∧
      ¬Agree small_table (8+4) [] (fun _ _ => ⟨0,0⟩) (Env.crc32 escaped_data) escaped_data true .ENV_VALID [97] (List.replicate 8 0) := by
  have early : env_get_f (8+4) [] ⟨.ENV_VALID,escaped_data⟩ [97] (List.replicate 8 0) = some (2,[92,92,0,0,0,0,0,0]) := by
    decide +kernel
  have late : (env_import small_table [] (fun _ _ => ⟨0,0⟩) (Env.crc32 escaped_data) escaped_data true).bind (fun r => env_get r.2 [97]) =
      some (some [92]) := by
    decide +kernel
  refine ⟨by decide +kernel,early,?_⟩
  rintro ⟨after,imported,⟨missing,-⟩ | ⟨res,written,value,finds,-,held,-,same⟩⟩
  · rw [early] at missing
    simp at missing
  · rw [imported,Option.bind_some,held] at late
    rw [early] at finds
    simp only [Option.some.injEq,Prod.mk.injEq] at late finds
    obtain ⟨-,rfl⟩ := finds
    subst late
    revert same
    decide

end UBoot.EnvEarly
