import UBoot.EnvEntries

/-!
`himport_r` with `crlf_is_lf`: it takes carriage returns out in place and goes on
with the shorter text, but what was behind it stays in the duplicate, and the
parser stops only at a line feed or at the terminator. So the last line, when no
line feed ends it, is read together with as many old bytes as were taken out. What
the entries do to the table is followed on the map that it stands for.
-/
namespace UBoot.EnvText
open UBoot.OpenAddressing UBoot.Hashtable List Option Function

def accepted (replies : Replies) : Bool := replies.change_ok = 0 ∧ replies.callback = 0

/-- The name that an entry is about, and the data that the name gets. -/
def change : Entry → Option (Str × Option Str)
  | .comment => none
  | .delete name => some (name,none)
  | .assign name value => some (name,some value)
  | .unnamed => none

/-- What is done with an entry, for the map that the table stands for and the
    variables still to come. -/
def act_map (policy : Policy) (s : (Str → Option Str) × List (Option Str)) (entry : Entry) :
    (Str → Option Str) × List (Option Str) :=
  (change entry).elim s fun c =>
    (if (drop_var_from_set c.1 s.2).1 ∧ accepted (policy c.1 c.2) then Function.update s.1 c.1 c.2 else s.1,
      (drop_var_from_set c.1 s.2).2)

def entered_names (policy : Policy) (entries : List Entry) : List Str :=
  ((entries.filterMap change).filter fun c => c.2 ≠ none ∧ accepted (policy c.1 c.2)).map Prod.fst

/-- The table stands for the map, and has a slot to spare for all names that it
    may come to hold. -/
structure Models (names : Str → Prop) (htab : Htab) (map : Str → Option Str) : Prop where
  valid : Valid htab
  represents : Represents (cells htab) map
  among : ∀ name, map name ≠ none → names name
  spare : ∀ keys : Finset Str, (∀ key ∈ keys, names key) → keys.card < htab.size

section models
variable {names : Str → Prop} {htab : Htab} {map : Str → Option Str} (models : Models names htab map)
include models

theorem Models.not_full : htab.filled ≠ htab.size := by
  have valid := models.valid
  have live_key : ∀ i, (cells htab i).IsLive → names (htab.at i).key := by
    intro i live
    have live' := cell_isLive.mp live
    refine models.among _ ?_
    rw [(models.represents (htab.at i).key (htab.at i).data).mp ⟨i,cell_live.mpr ⟨live'.1,live'.2,rfl,rfl⟩⟩]
    exact some_ne_none _
  have few := models.spare (((Finset.Icc 1 htab.size).filter fun i => (cells htab i).IsLive).image fun i => (htab.at i).key)
    (by
      intro key member
      obtain ⟨i,inside,rfl⟩ := Finset.mem_image.mp member
      exact live_key i (Finset.mem_filter.mp inside).2)
  rw [Finset.card_image_of_injOn] at few
  · have counted : htab.filled = ((Finset.Icc 1 htab.size).filter fun i => (cells htab i).IsLive).card := valid.filled
    omega
  · intro i one j two same
    have first := (live_iff_used valid i).mp (Finset.mem_filter.mp one).2
    have second := (live_iff_used valid j).mp (Finset.mem_filter.mp two).2
    exact used_unique valid first second same

/-- A table after an operation that keeps its size and leaves only names that it
    may hold. -/
theorem Models.next {after : Htab} {map' : Str → Option Str} (valid : Valid after) (size : after.size = htab.size)
    (represents : Represents (cells after) map') (among : ∀ name, map' name ≠ none → names name) :
    Models names after map' :=
  ⟨valid,represents,among,by rw [size]; exact models.spare⟩

theorem Models.delete (key : Str) (replies : Replies) : ∃ ret after, hdelete_r htab key replies = some (ret,after) ∧
    Models names after (if accepted replies then update map key none else map) ∧ after.size = htab.size := by
  obtain ⟨ret,after,deleted,valid,size,success,failure⟩ := hdelete_spec models.valid key models.represents replies
  have found := hsearch_find models.valid key models.represents [] replies
  have fewer : ∀ name, update map key none name ≠ none → names name := by
    intro name mapped
    by_cases same : name = key
    · rw [same,update_self] at mapped
      exact absurd rfl mapped
    · rw [update_of_ne same] at mapped
      exact models.among name mapped
  refine ⟨ret,after,deleted,?_,size⟩
  by_cases ok : accepted replies = true
  · rw [if_pos ok]
    by_cases zero : ret = 0
    · exact models.next valid size (success zero) fewer
    -- Nothing was there.
    have missing : map key = none := by
      cases mapped : map key with
      | none => rfl
      | some d =>
        rw [mapped] at found
        obtain ⟨i,inside,-,searched⟩ := found
        simp only [accepted,decide_eq_true_eq] at ok
        rw [hdelete_r,searched] at deleted
        simp only [ok.1,ok.2,ne_eq,not_true_eq_false,if_false,show ¬ i = 0 by omega,Option.some.injEq,
          Prod.mk.injEq] at deleted
        exact absurd deleted.1.symm zero
    have same : update map key none = map := by
      rw [← missing]
      exact update_eq_self key map
    rw [failure zero,same]
    exact models
  · rw [if_neg ok]
    have refused : ret ≠ 0 := by
      rintro rfl
      rw [hdelete_r] at deleted
      simp only [accepted,decide_eq_true_eq,not_and_or] at ok
      cases searched : hsearch_r htab key [] .ENV_FIND replies with
      | none =>
        rw [searched] at deleted
        cases deleted
      | some result =>
        rw [searched] at deleted
        dsimp only at deleted
        split_ifs at deleted with absent denied vetoed
        · simp [ENOENT] at deleted
        · simp [EPERM] at deleted
        · simp [EINVAL] at deleted
        · exact ok.elim (fun no => absurd (not_not.mp denied) no) (fun no => absurd (not_not.mp vetoed) no)
    rw [failure refused]
    exact models

theorem Models.enter (key data : Str) (replies : Replies) (room : accepted replies = true → names key) :
    ∃ result, hsearch_r htab key data .ENV_ENTER replies = some result ∧
      Models names result.htab (if accepted replies then update map key (some data) else map) ∧
      result.htab.size = htab.size := by
  obtain ⟨result,searched,spec⟩ := hsearch_enter models.valid key models.represents data replies
  refine ⟨result,searched,?_,spec.size⟩
  by_cases ok : accepted replies = true
  · rw [if_pos ok]
    have both : replies.change_ok = 0 ∧ replies.callback = 0 := by simpa [accepted] using ok
    refine models.next spec.valid spec.size (spec.accepted (spec.accepts both.1 both.2 models.not_full)).1 ?_
    intro name mapped
    by_cases same : name = key
    · rw [same]
      exact room ok
    · rw [update_of_ne same] at mapped
      exact models.among name mapped
  rw [if_neg ok]
  have refused : result.ret = 0 := by
    simp only [accepted,decide_eq_true_eq,not_and_or] at ok
    rw [hsearch_r] at searched
    cases probed : probe htab key with
    | none =>
      rw [probed] at searched
      cases searched
    | some p =>
      rw [probed] at searched
      cases p with
      | found idx =>
        obtain rfl := Option.some.inj searched
        simp only [overwrite_entry,if_true]
        split_ifs with denied vetoed
        · rfl
        · rfl
        · exact absurd ok (by simp [not_not.mp denied,not_not.mp vetoed])
      | missing idx first_deleted =>
        simp only [if_true,Option.some.injEq] at searched
        subst searched
        simp only [create_entry]
        by_cases full : htab.filled = htab.size
        · rw [if_pos full]
        · by_cases denied : replies.change_ok ≠ 0
          · rw [if_neg full,if_pos denied]
          · rw [if_neg full,if_neg denied,if_pos (ok.resolve_left denied)]
  exact models.next spec.valid spec.size (spec.rejected refused) models.among

variable {c : Str × Option Str} {entry : Entry} {name : Str} {policy : Policy}

theorem act_models (policy : Policy) (vars : List (Option Str)) (named : entry ≠ .unnamed)
    (room : ∀ name ∈ entered_names policy [entry], names name) :
    ∃ after, act policy htab vars entry = some (some (after,(act_map policy (map,vars) entry).2)) ∧
      Models names after (act_map policy (map,vars) entry).1 ∧ after.size = htab.size := by
  cases entry with
  | comment => exact ⟨htab,rfl,models,rfl⟩
  | delete name =>
    simp only [act,act_map,change,elim_some]
    by_cases wanted : (drop_var_from_set name vars).1 = true
    · obtain ⟨ret,after,deleted,follows,size⟩ := models.delete name (policy name none)
      refine ⟨after,by rw [if_pos wanted,deleted]; rfl,?_,size⟩
      simpa only [wanted,true_and] using follows
    · refine ⟨htab,by rw [if_neg wanted],?_,rfl⟩
      simpa only [wanted,false_and,if_false,Bool.false_eq_true] using models
  | assign name value =>
    simp only [act,act_map,change,elim_some]
    by_cases wanted : (drop_var_from_set name vars).1 = true
    · have may_hold : accepted (policy name (some value)) = true → names name := by
        intro ok
        exact room name (by simp [entered_names,change,ok])
      obtain ⟨result,entered,follows,size⟩ := models.enter name value (policy name (some value)) may_hold
      refine ⟨result.htab,by rw [if_pos wanted,entered]; rfl,?_,size⟩
      simpa only [wanted,true_and] using follows
    · refine ⟨htab,by rw [if_neg wanted],?_,rfl⟩
      simpa only [wanted,false_and,if_false,Bool.false_eq_true] using models
  | unnamed => exact absurd rfl named

end models

theorem entered_mem {entries : List Entry} (member : entry ∈ entries)
    (enters : name ∈ entered_names policy [entry]) : name ∈ entered_names policy entries := by
  simp only [entered_names,List.mem_map,mem_filter,mem_filterMap,mem_singleton] at enters ⊢
  obtain ⟨c,⟨⟨e,rfl,changes⟩,ok⟩,rfl⟩ := enters
  exact ⟨c,⟨⟨e,member,changes⟩,ok⟩,rfl⟩

/-- The deletion of the variables that are left over, for the map. -/
def delete_map (policy : Policy) : List (Option Str) → (Str → Option Str) → Str → Option Str
  | [], map => map
  | none :: vars, map => delete_map policy vars map
  | some name :: vars, map =>
    delete_map policy vars (if accepted (policy name none) then Function.update map name none else map)

/-- The whole import of entries, the last of which may fail. -/
def import_map (policy : Policy) (noclear : Bool) (entries : List Entry) (last : Entry)
    (s : (Str → Option Str) × List (Option Str)) : Str → Option Str :=
  let before := entries.foldl (act_map policy) s
  let after := act_map policy before last
  if last = .unnamed then before.1 else if noclear then after.1 else delete_map policy after.2 after.1

section import_models
variable {names : Str → Prop} {htab : Htab} {map : Str → Option Str} (models : Models names htab map)
include models

theorem act_all_models (policy : Policy) (vars : List (Option Str)) {entries : List Entry}
    (named : ∀ entry ∈ entries, entry ≠ .unnamed) (more : List Entry)
    (room : ∀ name ∈ entered_names policy entries, names name) :
    ∃ after, act_all policy (entries ++ more) htab vars =
        act_all policy more after (entries.foldl (act_map policy) (map,vars)).2 ∧
      Models names after (entries.foldl (act_map policy) (map,vars)).1 := by
  induction entries generalizing htab map vars with
  | nil => exact ⟨htab,rfl,models⟩
  | cons entry entries ih =>
    obtain ⟨mid,acted,follows,-⟩ := act_models models policy vars (named entry mem_cons_self)
      (fun name enters => room name (entered_mem mem_cons_self enters))
    obtain ⟨after,later,ends⟩ := ih follows (act_map policy (map,vars) entry).2
      (fun e member => named e (mem_cons_of_mem _ member)) (fun name enters => room name (by
        simp only [entered_names,filterMap_cons]
        cases change entry with
        | none => exact enters
        | some c =>
          simp only [filter_cons]
          split
          · exact mem_cons_of_mem _ enters
          · exact enters))
    refine ⟨after,?_,ends⟩
    rw [cons_append,act_all,acted]
    exact later

theorem delete_others_models (policy : Policy) (vars : List (Option Str)) :
    ∃ after, delete_others policy htab vars = some after ∧ Models names after (delete_map policy vars map) := by
  induction vars generalizing htab map with
  | nil => exact ⟨htab,rfl,models⟩
  | cons var vars ih =>
    cases var with
    | none => exact ih models
    | some name =>
      obtain ⟨ret,mid,deleted,follows,-⟩ := models.delete name (policy name none)
      obtain ⟨after,later,ends⟩ := ih follows
      exact ⟨after,by rw [delete_others,deleted]; exact later,ends⟩

theorem import_entries_models (policy : Policy) (noclear : Bool) (vars : List (Option Str)) {entries : List Entry}
    (named : ∀ entry ∈ entries, entry ≠ .unnamed) (last : Entry)
    (room : ∀ name ∈ entered_names policy (entries ++ [last]), names name) :
    ∃ ok mid left, act_all policy (entries ++ [last]) htab vars = some (ok,mid,left) ∧
      ∃ after, (if ok = true ∧ noclear = false then delete_others policy mid left else some mid) = some after ∧
        Models names after (import_map policy noclear entries last (map,vars)) := by
  obtain ⟨mid,run,follows⟩ := act_all_models models policy vars named [last] (fun name enters => room name (by
    simp only [entered_names,filterMap_append,filter_append,map_append]
    exact mem_append_left _ enters))
  have last_room : ∀ name ∈ entered_names policy [last], names name :=
    fun name enters => room name (entered_mem (mem_append_right _ mem_cons_self) enters)
  by_cases unnamed : last = .unnamed
  · subst unnamed
    refine ⟨false,mid,_,run,mid,rfl,?_⟩
    rw [import_map]
    simpa only [if_true] using follows
  · obtain ⟨after,acted,ends,-⟩ := act_models follows policy (entries.foldl (act_map policy) (map,vars)).2 unnamed last_room
    refine ⟨true,after,_,run.trans (by rw [act_all,acted]; rfl),?_⟩
    simp only [import_map,unnamed,if_false,true_and]
    cases noclear with
    | true => exact ⟨after,rfl,ends⟩
    | false => exact delete_others_models ends policy _

end import_models

/-- The table that the import starts from: the old one, unless it is cleared. -/
def start_table (old : Option Htab) (noclear : Bool) (vars : List Str) (size : Nat) : Option Htab :=
  (if noclear = false ∧ vars = [] then none else old).or (hcreate_r (table_entries size))

def text (crlf_is_lf : Bool) (env : List UInt8) : List UInt8 := if crlf_is_lf then remove_crs env else env

/-- What lies behind the text: the bytes that stay there when others are taken
    out, and the terminator. -/
def left_behind (crlf_is_lf : Bool) (env : List UInt8) : List UInt8 :=
  (env ++ [NUL]).drop (text crlf_is_lf env).length

def entries_before (crlf_is_lf : Bool) (env : List UInt8) : List Entry :=
  (lines (text crlf_is_lf env).length (text crlf_is_lf env)).1

def last_line (crlf_is_lf : Bool) (env : List UInt8) : List UInt8 :=
  (lines (text crlf_is_lf env).length (text crlf_is_lf env)).2

/-- The last line is read together with what lies behind it. -/
def last_entry (crlf_is_lf : Bool) (env : List UInt8) : Entry :=
  (read_entry NEWLINE (last_line crlf_is_lf env ++ left_behind crlf_is_lf env)).1

theorem remove_crs_sub (env : List UInt8) : ∀ c ∈ remove_crs env, c ∈ env := by
  induction env using remove_crs.induct with
  | case1 | case2 c => simp [remove_crs]
  | case3 c d rest pair ih =>
    rw [remove_crs,if_pos pair]
    exact fun e member => mem_cons_of_mem _ (ih e member)
  | case4 c d rest single ih =>
    rw [remove_crs,if_neg single]
    intro e member
    rcases mem_cons.mp member with rfl | later
    · exact mem_cons_self
    · exact mem_cons_of_mem _ (ih e later)

theorem remove_crs_length (env : List UInt8) : (remove_crs env).length ≤ env.length := by
  induction env using remove_crs.induct with
  | case1 | case2 c => simp [remove_crs]
  | case3 c d rest pair ih =>
    rw [remove_crs,if_pos pair]
    simp only [length_cons] at ih ⊢
    omega
  | case4 c d rest single ih =>
    rw [remove_crs,if_neg single]
    simp only [length_cons] at ih ⊢
    omega

theorem remove_crs_some {env : List UInt8} (some_env : env ≠ []) : remove_crs env ≠ [] := by
  induction env using remove_crs.induct with
  | case1 => exact absurd rfl some_env
  | case2 c => simp [remove_crs]
  | case3 c d rest pair ih =>
    rw [remove_crs,if_pos pair]
    exact ih (cons_ne_nil _ _)
  | case4 c d rest single ih =>
    rw [remove_crs,if_neg single]
    exact cons_ne_nil _ _

section text_facts
variable (crlf_is_lf : Bool) {env : List UInt8}

theorem text_length_le : (text crlf_is_lf env).length ≤ env.length := by
  cases crlf_is_lf with
  | true => exact remove_crs_length env
  | false => exact le_rfl

theorem text_some (some_env : env ≠ []) : text crlf_is_lf env ≠ [] := by
  cases crlf_is_lf with
  | true => exact remove_crs_some some_env
  | false => exact some_env

theorem text_plain (plain : ∀ c ∈ env, c ≠ NUL) : ∀ c ∈ text crlf_is_lf env, c ≠ NUL := by
  cases crlf_is_lf with
  | true => exact fun c member => plain c (remove_crs_sub env c member)
  | false => exact plain

theorem left_behind_ends : NUL ∈ left_behind crlf_is_lf env := by
  rw [left_behind,drop_append_of_le_length (text_length_le crlf_is_lf)]
  exact mem_append_right _ (mem_singleton.mpr rfl)

theorem himport_models {old : Option Htab} {noclear : Bool} {vars : List Str} {htab : Htab}
    (some_env : env ≠ []) (plain : ∀ c ∈ env, c ≠ NUL)
    (start : start_table old noclear vars env.length = some htab) {names : Str → Prop} {map : Str → Option Str}
    (models : Models names htab map)
    (room : ∀ name ∈ entered_names policy (entries_before crlf_is_lf env ++ [last_entry crlf_is_lf env]), names name) :
    ∃ ret after, himport_r old env NEWLINE noclear crlf_is_lf vars policy = some (ret,after) ∧
      Models names after (import_map policy noclear (entries_before crlf_is_lf env) (last_entry crlf_is_lf env)
        (map,vars.map some)) := by
  have whole : env.takeWhile (· ≠ NUL) = env := takeWhile_eq_self_iff.mpr (by simpa using plain)
  have short := @text_length_le crlf_is_lf env
  have behind : 1+(env.length-(text crlf_is_lf env).length) = (left_behind crlf_is_lf env).length := by
    rw [left_behind,length_drop,length_append,length_singleton]
    omega
  have read := read_entries_lines (text_some crlf_is_lf some_env) (text_plain crlf_is_lf plain) le_rfl
    (@left_behind_ends crlf_is_lf env)
    (show (text crlf_is_lf env).length ≤ (text crlf_is_lf env ++ left_behind crlf_is_lf env).length by
      rw [length_append]; omega)
  obtain ⟨ok,mid,left,run,after,ends,follows⟩ := import_entries_models models policy noclear (vars.map some)
    (@lines_named (text crlf_is_lf env).length (text crlf_is_lf env)) (last_entry crlf_is_lf env) room
  have looped := (import_loop_eq read htab (vars.map some)).trans run
  refine ⟨if ok then 1 else 0,after,?_,follows⟩
  rw [start_table] at start
  rw [himport_r]
  simp only [start,some_env,if_false,whole]
  rw [show (if crlf_is_lf = true then remove_crs env else env) = text crlf_is_lf env from rfl,behind]
  rw [show text crlf_is_lf env ++ (env ++ [NUL]).drop (text crlf_is_lf env).length =
    text crlf_is_lf env ++ left_behind crlf_is_lf env from rfl,looped]
  cases ok with
  | false =>
    obtain rfl := Option.some.inj ends
    rfl
  | true =>
    cases noclear with
    | true =>
      obtain rfl := Option.some.inj ends
      rfl
    | false =>
      simp only [true_and,if_true] at ends
      simp only [ends]
      rfl

end text_facts

/-- The entry does again what the last entry about the same name has done. -/
def Repeats (entries : List Entry) (entry : Entry) : Prop :=
  entry = .comment ∨
    ∃ c, change entry = some c ∧ ((entries.filterMap change).filter fun d => d.1 = c.1).getLast? = some c

/-- The last line reads with the old bytes behind it as it reads alone, or neither
    reading does anything that was not done before. -/
def LastLineReads (env : List UInt8) : Prop :=
  last_entry true env = last_entry false (remove_crs env) ∨
    (Repeats (entries_before true env) (last_entry true env) ∧
      Repeats (entries_before true env) (last_entry false (remove_crs env)))

structure Setting where
  old : Option Htab
  noclear : Bool
  vars : List Str
  policy : Policy

def Setting.run (s : Setting) (crlf_is_lf : Bool) (env : List UInt8) : Option (Nat × Htab) :=
  himport_r s.old env NEWLINE s.noclear crlf_is_lf s.vars s.policy

/-- The table that the import starts from has a slot more than there are names
    that it holds or that the text may enter. -/
def Setting.Roomy (s : Setting) (crlf_is_lf : Bool) (env : List UInt8) : Prop :=
  ∀ htab, start_table s.old s.noclear s.vars env.length = some htab →
    ∀ keys : Finset Str,
      (∀ key ∈ keys, (∃ data, Stores htab key data) ∨
        key ∈ entered_names s.policy (entries_before crlf_is_lf env ++ [last_entry crlf_is_lf env])) →
      keys.card < htab.size

/-- The old table is a table, and both imports have a slot to spare. -/
structure Setting.Ready (s : Setting) (env : List UInt8) : Prop where
  valid : ∀ htab, s.old = some htab → Valid htab
  crlf : s.Roomy true env
  lf : s.Roomy false (remove_crs env)

def SameMap (one other : Option (Nat × Htab)) : Prop :=
  ∃ r s, one = some r ∧ other = some s ∧ ∀ key data, Stores r.2 key data ↔ Stores s.2 key data

def Settled (policy : Policy) (s : (Str → Option Str) × List (Option Str)) (c : Str × Option Str) : Prop :=
  (s.2 = [] → accepted (policy c.1 c.2) = true → s.1 c.1 = c.2) ∧ some c.1 ∉ s.2

theorem drop_var_others (name : Str) {other : Str} {vars : List (Option Str)} (left_out : some other ∉ vars) :
    some other ∉ (drop_var_from_set name vars).2 := by
  rw [drop_var_from_set]
  by_cases none_left : vars = []
  · rwa [if_pos none_left]
  rw [if_neg none_left]
  intro member
  obtain ⟨var,inside,same⟩ := List.mem_map.mp member
  by_cases named : var = some name
  · rw [if_pos named] at same
    cases same
  · rw [if_neg named] at same
    exact left_out (same ▸ inside)

theorem drop_var_itself (name : Str) (vars : List (Option Str)) : some name ∉ (drop_var_from_set name vars).2 := by
  rw [drop_var_from_set]
  by_cases none_left : vars = []
  · simp [none_left]
  rw [if_neg none_left]
  intro member
  obtain ⟨var,-,same⟩ := List.mem_map.mp member
  by_cases named : var = some name
  · rw [if_pos named] at same
    cases same
  · rw [if_neg named] at same
    exact named same

theorem drop_var_nil (name : Str) (vars : List (Option Str)) : (drop_var_from_set name vars).2 = [] ↔ vars = [] := by
  rw [drop_var_from_set]
  by_cases none_left : vars = []
  · rw [if_pos none_left]
  · rw [if_neg none_left,map_eq_nil_iff]

theorem drop_var_absent {vars : List (Option Str)} (some_vars : vars ≠ []) (left_out : some name ∉ vars) :
    drop_var_from_set name vars = (false,vars) := by
  have unchanged : vars.map (fun var => if var = some name then none else var) = vars := by
    refine (map_congr_left fun var member => ?_).trans (List.map_id vars)
    have other : var ≠ some name := fun same => left_out (same ▸ member)
    rw [if_neg other]
    rfl
  rw [drop_var_from_set,if_neg some_vars,unchanged]
  simpa using left_out

theorem settled_act (policy : Policy) (s : (Str → Option Str) × List (Option Str)) (changes : change entry = some c) : Settled policy (act_map policy s entry) c := by
  rw [act_map,changes,elim_some]
  refine ⟨fun none_left ok => ?_,drop_var_itself c.1 s.2⟩
  have wanted : (drop_var_from_set c.1 s.2).1 = true := by
    rw [drop_var_from_set,if_pos ((drop_var_nil c.1 s.2).mp none_left)]
  dsimp only
  rw [if_pos ⟨wanted,ok⟩,update_self]

theorem settled_other {s : (Str → Option Str) × List (Option Str)}
    (settled : Settled policy s c) (other : ∀ d, change entry = some d → d.1 ≠ c.1) :
    Settled policy (act_map policy s entry) c := by
  cases changes : change entry with
  | none =>
    rw [act_map,changes]
    exact settled
  | some d =>
    rw [act_map,changes,elim_some]
    refine ⟨fun none_left ok => ?_,drop_var_others d.1 settled.2⟩
    have before := settled.1 ((drop_var_nil d.1 s.2).mp none_left) ok
    dsimp only
    split_ifs
    · rw [update_of_ne (Ne.symm (other d changes)),before]
    · exact before

theorem settled_repeat {s : (Str → Option Str) × List (Option Str)}
    (settled : Settled policy s c) (changes : change entry = some c) : act_map policy s entry = s := by
  rw [act_map,changes,elim_some]
  by_cases none_left : s.2 = []
  · have same : drop_var_from_set c.1 s.2 = (true,s.2) := by rw [drop_var_from_set,if_pos none_left]
    rw [same]
    by_cases ok : accepted (policy c.1 c.2) = true
    · rw [if_pos ⟨rfl,ok⟩,← settled.1 none_left ok,update_eq_self]
    · rw [if_neg fun both => ok both.2]
  · rw [drop_var_absent none_left settled.2]
    simp

theorem settled_last (policy : Policy) (s : (Str → Option Str) × List (Option Str)) {entries : List Entry} (last : ((entries.filterMap change).filter fun d => d.1 = c.1).getLast? = some c) :
    Settled policy (entries.foldl (act_map policy) s) c := by
  induction entries using reverseRecOn with
  | nil => simp at last
  | append_singleton entries entry ih =>
    rw [foldl_concat]
    rw [filterMap_append,filter_append] at last
    cases changes : change entry with
    | none =>
      simp only [filterMap_cons,changes,filterMap_nil,filter_nil,append_nil] at last
      exact settled_other (ih last) (fun d same => by rw [changes] at same; cases same)
    | some d =>
      by_cases about : d.1 = c.1
      · simp only [filterMap_cons,changes,filterMap_nil,filter_cons,about,decide_true,if_true,
          filter_nil,getLast?_concat,Option.some.injEq] at last
        exact settled_act policy _ (changes.trans (congrArg some last))
      · simp only [filterMap_cons,changes,filterMap_nil,filter_cons,about,decide_false,
          Bool.false_eq_true,if_false,filter_nil,append_nil] at last
        exact settled_other (ih last) (fun d' same => by rw [changes] at same; cases same; exact about)

theorem repeats_act {entries : List Entry} (repeated : Repeats entries entry) (policy : Policy)
    (s : (Str → Option Str) × List (Option Str)) :
    act_map policy (entries.foldl (act_map policy) s) entry = entries.foldl (act_map policy) s := by
  rcases repeated with rfl | ⟨c,changes,last⟩
  · rfl
  · exact settled_repeat (settled_last policy s last) changes

theorem repeats_named {entries : List Entry} (repeated : Repeats entries entry) : entry ≠ .unnamed := by
  rintro rfl
  rcases repeated with no | ⟨c,changes,-⟩
  · cases no
  · cases changes

theorem import_map_reads {env : List UInt8} (reads : LastLineReads env) (policy : Policy) (noclear : Bool)
    (s : (Str → Option Str) × List (Option Str)) :
    import_map policy noclear (entries_before true env) (last_entry true env) s =
      import_map policy noclear (entries_before true env) (last_entry false (remove_crs env)) s := by
  rcases reads with same | ⟨one,other⟩
  · rw [same]
  · simp only [import_map,repeats_act one policy s,repeats_act other policy s,repeats_named one,repeats_named other,
      if_false]

theorem entries_value (accepts : ∀ data, accepted (policy name data) = true)
    (map : Str → Option Str) (entries : List Entry) :
    (entries.foldl (act_map policy) (map,[])).2 = [] ∧
    (entries.foldl (act_map policy) (map,[])).1 name =
      (((entries.filterMap change).filter fun d => d.1 = name).getLast?).elim (map name) Prod.snd := by
  induction entries using reverseRecOn with
  | nil => exact ⟨rfl,rfl⟩
  | append_singleton entries entry ih =>
    rw [foldl_concat,filterMap_append,filter_append]
    generalize entries.foldl (act_map policy) (map,[]) = s at ih
    obtain ⟨none_left,value⟩ := ih
    cases changes : change entry with
    | none =>
      rw [act_map,changes]
      simp only [filterMap_cons,changes,filterMap_nil,filter_nil,append_nil]
      exact ⟨none_left,value⟩
    | some d =>
      have same : drop_var_from_set d.1 s.2 = (true,[]) := by rw [drop_var_from_set,if_pos none_left,none_left]
      rw [act_map,changes,elim_some,same]
      by_cases about : d.1 = name
      · subst about
        simp only [filterMap_cons,changes,filterMap_nil,filter_cons,decide_true,if_true,
          filter_nil,getLast?_concat,elim_some,accepts,and_self,update_self]
      · simp only [filterMap_cons,changes,filterMap_nil,filter_cons,about,decide_false,
          Bool.false_eq_true,if_false,filter_nil,append_nil]
        refine ⟨trivial,?_⟩
        split_ifs
        · rw [update_of_ne (Ne.symm about),value]
        · exact value

theorem table_entries_small (size : Nat) : table_entries size < 2^31 := by
  have small := min_le_right (CONFIG_ENV_MIN_ENTRIES+size/8) CONFIG_ENV_MAX_ENTRIES
  simp only [table_entries,CONFIG_ENV_MAX_ENTRIES] at *
  omega

theorem start_represents {old : Option Htab} (valid : ∀ htab, old = some htab → Valid htab) (noclear : Bool) (vars : List Str) :
    ∃ map, ∀ size, ∃ htab, start_table old noclear vars size = some htab ∧ Valid htab ∧ Represents (cells htab) map := by
  have kept : ∀ htab, (if noclear = false ∧ vars = [] then none else old) = some htab → Valid htab := by
    intro htab same
    split_ifs at same
    exact valid htab same
  simp only [start_table]
  cases start : if noclear = false ∧ vars = [] then none else old with
  | none =>
    refine ⟨fun _ => none,fun size => ?_⟩
    obtain ⟨htab,created,good,empty,-,-⟩ := hcreate_spec (table_entries_small size)
    exact ⟨htab,created,good,empty⟩
  | some htab =>
    obtain ⟨map,represents⟩ := represents_some (kept htab start).probed
    exact ⟨map,fun size => ⟨htab,rfl,kept htab start,represents⟩⟩

theorem Setting.run_represents (s : Setting) (crlf_is_lf : Bool) {env : List UInt8} (some_env : env ≠ [])
    (plain : ∀ c ∈ env, c ≠ NUL) (roomy : s.Roomy crlf_is_lf env) {htab : Htab}
    (start : start_table s.old s.noclear s.vars env.length = some htab) (valid : Valid htab) {map : Str → Option Str}
    (represents : Represents (cells htab) map) :
    ∃ ret after, s.run crlf_is_lf env = some (ret,after) ∧ Valid after ∧
      Represents (cells after) (import_map s.policy s.noclear (entries_before crlf_is_lf env) (last_entry crlf_is_lf env)
        (map,s.vars.map some)) := by
  have among : ∀ name, map name ≠ none → (∃ data, Stores htab name data) ∨
      name ∈ entered_names s.policy (entries_before crlf_is_lf env ++ [last_entry crlf_is_lf env]) := by
    intro name mapped
    obtain ⟨data,holds⟩ := ne_none_iff_exists'.mp mapped
    exact .inl ⟨data,(stores_iff valid).mpr ((represents name data).mpr holds)⟩
  obtain ⟨ret,after,imported,follows⟩ := himport_models crlf_is_lf some_env plain start
    (Models.mk valid represents among (roomy htab start)) (fun name enters => .inr enters)
  exact ⟨ret,after,imported,follows.valid,follows.represents⟩

theorem stores_same {one other : Htab} (valid : Valid one) (valid' : Valid other) {map map' : Str → Option Str}
    (represents : Represents (cells one) map) (represents' : Represents (cells other) map') :
    (∀ key data, Stores one key data ↔ Stores other key data) ↔ map = map' := by
  have pairs : ∀ key data, (Stores one key data ↔ Stores other key data) ↔ (map key = some data ↔ map' key = some data) := by
    intro key data
    rw [stores_iff valid,stores_iff valid',represents key data,represents' key data]
  simp only [pairs]
  constructor
  · intro same
    funext key
    exact Option.ext fun data => same key data
  · rintro rfl key data
    exact Iff.rfl

/-- The imports agree exactly when the maps do. -/
theorem Setting.same_iff (s : Setting) {env : List UInt8} (some_env : env ≠ []) (plain : ∀ c ∈ env, c ≠ NUL)
    (ready : s.Ready env) {map : Str → Option Str}
    (starts : ∀ size, ∃ htab, start_table s.old s.noclear s.vars size = some htab ∧ Valid htab ∧ Represents (cells htab) map) :
    SameMap (s.run true env) (s.run false (remove_crs env)) ↔
      import_map s.policy s.noclear (entries_before true env) (last_entry true env) (map,s.vars.map some) =
        import_map s.policy s.noclear (entries_before true env) (last_entry false (remove_crs env)) (map,s.vars.map some) := by
  have stripped_plain : ∀ c ∈ remove_crs env, c ≠ NUL := fun c member => plain c (remove_crs_sub env c member)
  obtain ⟨htab,start,valid,represents⟩ := starts env.length
  obtain ⟨htab',start',valid',represents'⟩ := starts (remove_crs env).length
  obtain ⟨ret,after,imported,good,holds⟩ := s.run_represents true some_env plain ready.crlf start valid represents
  obtain ⟨ret',after',imported',good',holds'⟩ := s.run_represents false (remove_crs_some some_env) stripped_plain
    ready.lf start' valid' represents'
  have same := stores_same good good' holds holds'
  rw [SameMap,imported,imported']
  constructor
  · rintro ⟨r,r',one,other,stored⟩
    obtain rfl := Option.some.inj one
    obtain rfl := Option.some.inj other
    exact same.mp stored
  · intro maps
    exact ⟨_,_,rfl,rfl,same.mpr maps⟩

def only (name : Str) : Policy := fun key _ => if key = name then ⟨0,0⟩ else ⟨1,0⟩

theorem only_accepts (name key : Str) (data : Option Str) : accepted (only name key data) = decide (key = name) := by
  rw [only]
  by_cases same : key = name
  · simp [same,accepted]
  · simp [same,accepted]

theorem table_of_one (name : Str) (data : Option Str) :
    ∃ htab, Models (· = name) htab (update (fun _ => none) name data) := by
  obtain ⟨htab,-,valid,empty,-,large⟩ := hcreate_spec (show 4 < 2^31 by omega)
  have spare : ∀ keys : Finset Str, (∀ key ∈ keys, key = name) → keys.card < htab.size := by
    intro keys same
    have few : keys.card ≤ 1 := Finset.card_le_one.mpr (fun a one b other => (same a one).trans (same b other).symm)
    omega
  have start : Models (· = name) htab (fun _ => none) := ⟨valid,empty,fun _ no => absurd rfl no,spare⟩
  cases data with
  | none =>
    rw [update_eq_self_iff.mpr rfl]
    exact ⟨htab,start⟩
  | some data =>
    obtain ⟨result,-,entered,-⟩ := start.enter name data ⟨0,0⟩ (fun _ => rfl)
    exact ⟨result.htab,entered⟩

theorem ready_of_one {htab : Htab} {map : Str → Option Str} (models : Models (· = name) htab map)
    {noclear : Bool} {vars : List Str} (kept : ¬ (noclear = false ∧ vars = [])) (env : List UInt8) :
    (Setting.mk (some htab) noclear vars (only name)).Ready env ∧
      ∀ size, ∃ start, start_table (some htab) noclear vars size = some start ∧ Valid start ∧
        Represents (cells start) map := by
  have start : ∀ size, start_table (some htab) noclear vars size = some htab := by
    intro size
    rw [start_table,if_neg kept]
    rfl
  have roomy : ∀ crlf_is_lf text, (Setting.mk (some htab) noclear vars (only name)).Roomy crlf_is_lf text := by
    intro crlf_is_lf text htab' started keys inside
    rw [start text.length] at started
    obtain rfl := Option.some.inj started
    refine models.spare keys (fun key member => ?_)
    rcases inside key member with ⟨data,stored⟩ | enters
    · refine models.among key ?_
      rw [(models.represents key data).mp ((stores_iff models.valid).mp stored)]
      exact some_ne_none _
    · simp only [entered_names,List.mem_map,mem_filter] at enters
      obtain ⟨c,⟨-,ok⟩,rfl⟩ := enters
      simp only [only_accepts,decide_eq_true_eq] at ok
      exact ok.2
  refine ⟨⟨fun htab' same => ?_,roomy true env,roomy false _⟩,fun size => ⟨htab,start size,models.valid,models.represents⟩⟩
  obtain rfl := Option.some.inj same
  exact models.valid

theorem change_entry (changes : change entry = some c) :
    entry = c.2.elim (.delete c.1) (.assign c.1) := by
  cases entry with
  | comment => cases changes
  | delete name | assign name value =>
    obtain rfl := Option.some.inj changes
    rfl
  | unnamed => cases changes

theorem others_act (policy : Policy) (map : Str → Option Str) {entries : List Entry}
    (others : ∀ entry ∈ entries, ∀ c, change entry = some c → c.1 ≠ name) :
    entries.foldl (act_map policy) (map,[some name]) = (map,[some name]) := by
  induction entries with
  | nil => rfl
  | cons entry entries ih =>
    have same : act_map policy (map,[some name]) entry = (map,[some name]) := by
      rw [act_map]
      cases changes : change entry with
      | none => rfl
      | some c =>
        have other := others entry mem_cons_self c changes
        rw [elim_some,drop_var_absent (cons_ne_nil _ _) (by simpa using other)]
        simp
    rw [foldl_cons,same]
    exact ih (fun e member => others e (mem_cons_of_mem _ member))

theorem name_fresh (entries : List Entry) :
    ∃ name, ∀ entry ∈ entries, ∀ c, change entry = some c → c.1 ≠ name := by
  obtain ⟨name,fresh⟩ := Infinite.exists_notMem_finset ((entries.filterMap change).map Prod.fst).toFinset
  refine ⟨name,fun entry member c changes same => fresh ?_⟩
  rw [List.mem_toFinset,List.mem_map]
  exact ⟨c,mem_filterMap.mpr ⟨entry,member,changes⟩,same⟩

section tells
variable {env : List UInt8} {map : Str → Option Str}

theorem tells_failure (entries : List Entry) {named : Entry} (succeeds : named ≠ .unnamed) :
    ∃ name, import_map (only name) false entries .unnamed (update (fun _ => none) name (some []),[some name]) ≠
      import_map (only name) false entries named (update (fun _ => none) name (some []),[some name]) := by
  obtain ⟨name,fresh⟩ := name_fresh (entries ++ [named])
  refine ⟨name,fun same => ?_⟩
  have before := others_act (only name) (update (fun _ => none) name (some []))
    (fun e member => fresh e (mem_append_left _ member))
  have after := others_act (only name) (update (fun _ => none) name (some []))
    (fun e member => fresh e (mem_append_right entries member))
  rw [foldl_cons,foldl_nil] at after
  have value := congrFun same name
  simp only [import_map,before,after,succeeds,if_true,if_false,Bool.false_eq_true,delete_map,only_accepts,decide_true,
    update_self] at value
  cases value

/-- The data that a table is to have before, for the last entry to show. -/
def before_data : Option Str → Option Str
  | none => some []
  | some _ => none

theorem tells_change (entries : List Entry) {entry other : Entry} (named : entry ≠ .unnamed) (named' : other ≠ .unnamed)
    (differ : entry ≠ other) (news : ¬ Repeats entries entry) :
    ∃ name data, import_map (only name) true entries entry (update (fun _ => none) name data,[]) ≠
      import_map (only name) true entries other (update (fun _ => none) name data,[]) := by
  obtain ⟨uncommented,unrepeated⟩ := not_or.mp news
  obtain ⟨c,changes⟩ : ∃ c, change entry = some c := by
    cases entry with
    | comment => exact absurd rfl uncommented
    | delete name | assign name value => exact ⟨_,rfl⟩
    | unnamed => exact absurd rfl named
  refine ⟨c.1,before_data c.2,fun same => ?_⟩
  set map : Str → Option Str := update (fun _ => none) c.1 (before_data c.2)
  have accepts : ∀ data, accepted (only c.1 c.1 data) = true := fun data => by simp [only_accepts]
  have value (last : Entry) := (entries_value accepts map (entries ++ [last])).2
  simp only [foldl_concat,filterMap_append,filter_append] at value
  have here := congrFun same c.1
  simp only [import_map,named,named',if_false,if_true,value] at here
  simp only [filterMap_cons,changes,filterMap_nil,filter_cons,decide_true,if_true,filter_nil,
    getLast?_concat,elim_some] at here
  -- What the other entry leaves with the name.
  have older (none_new : (([other].filterMap change).filter fun d => d.1 = c.1) = []) : False := by
    simp only [filterMap_cons,filterMap_nil] at none_new
    rw [none_new,append_nil] at here
    cases last : ((entries.filterMap change).filter fun d => d.1 = c.1).getLast? with
    | none =>
      rw [last,elim_none] at here
      have start : map c.1 = before_data c.2 := update_self ..
      rw [start] at here
      cases data : c.2 with
      | none | some d =>
        rw [data] at here
        cases here
    | some d =>
      rw [last,elim_some] at here
      have about : d.1 = c.1 := by
        simpa using (mem_filter.mp (mem_of_getLast? last)).2
      exact unrepeated ⟨c,changes,by rw [last,Prod.ext about here.symm]⟩
  cases changes' : change other with
  | none => exact older (by simp [changes'])
  | some d =>
    by_cases about : d.1 = c.1
    · simp only [changes',filter_cons,about,decide_true,if_true,filter_nil,getLast?_concat,
        elim_some] at here
      obtain rfl : c = d := Prod.ext about.symm here
      exact differ ((change_entry changes).trans (change_entry changes').symm)
    · exact older (by simp [changes',about])

end tells

/-- The lines `a=1` and `b=2`, the second without an end. -/
def two_lines : List UInt8 := [97,61,49,13,10,98,61,50]

def new_environment : Setting := ⟨none,false,[],fun _ _ => ⟨0,0⟩⟩

end UBoot.EnvText
