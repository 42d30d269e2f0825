import UBoot.EfiVarCommon

/-!
Enumerating the variables at runtime, `efi_get_next_variable_name_runtime`. The
variables without `EFI_VARIABLE_RUNTIME_ACCESS` are skipped by going through them
in the buffer of the client. Where no variable is skipped, or those that are leave
no trace in the buffer (`Quiet`), the client sees the runtime variables and nothing
else, each once.
-/
namespace UBoot.EfiVar
open UBoot.Words UBoot.KeyedLists List

def efi_get_next_variable_name_runtime (s : Store) (variable_name_size : Nat) (variable_name : List UInt16) (vendor : Guid) :
    Option (Next × Store) :=
  efi_get_next_variable_name_mem s variable_name_size variable_name vendor EFI_VARIABLE_RUNTIME_ACCESS (s.vars.length+1)

def visible (var : Var) : Bool := var.attr &&& EFI_VARIABLE_RUNTIME_ACCESS = EFI_VARIABLE_RUNTIME_ACCESS

abbrev runtime (vars : List Var) : List Var := masked EFI_VARIABLE_RUNTIME_ACCESS vars

/-- The entries behind a name; all of them for the empty name. -/
def ahead (vars : List Var) (guid : Guid) (name : Str) : List Var :=
  if name.chars = [] then vars else (vars.dropWhile fun var => var.key ≠ (guid,name)).tail

/-- How a client calls: the size that it gives, and what its buffer holds behind
    the name. -/
structure Move where
  size : Nat
  rest : List UInt16

def Move.buffer (move : Move) (name : Str) : List UInt16 := name.chars ++ 0 :: move.rest

def name_in (buffer : List UInt16) : Str := string_at buffer buffer.length

/-- What a client sees that asks for the name after the one that it has. -/
def enumerate : Store → Str → Guid → List Move → List Next
  | _, _, _, [] => []
  | s, name, vendor, move :: moves =>
    match efi_get_next_variable_name_runtime s move.size (move.buffer name) vendor with
    | none => []
    | some (next,s) => next :: enumerate s (name_in next.variable_name) next.vendor moves

def returned (seen : List Next) : List (Guid × Str) :=
  (seen.filter fun next => next.status = .EFI_SUCCESS).map fun next => (next.vendor,name_in next.variable_name)

def walk (size : Nat) : List UInt16 → Guid → List Var → Next
  | buffer, vendor, [] => ⟨.EFI_NOT_FOUND,size,buffer,vendor⟩
  | buffer, vendor, var :: rest =>
    if size < name_size var.name then ⟨.EFI_BUFFER_TOO_SMALL,name_size var.name,buffer,vendor⟩
    else if visible var then ⟨.EFI_SUCCESS,name_size var.name,copy_name var.name buffer,var.guid⟩
    else walk size (copy_name var.name buffer) var.guid rest

/-- The entries ahead leave no trace of those that are skipped: none is, or they
    are followed by a variable of the runtime whose name is at least as long and
    fits; or the first does not fit and has the size of that variable. -/
def Quiet (size : Nat) (todo : List Var) : Prop :=
  todo.takeWhile (fun var => ¬ visible var) = [] ∨
    ∃ var ∈ (todo.dropWhile fun var => ¬ visible var).head?,
      (∃ hidden ∈ todo.head?, size < name_size hidden.name ∧ name_size hidden.name = name_size var.name) ∨
      (name_size var.name ≤ size ∧ ∀ hidden ∈ todo.takeWhile (fun var => ¬ visible var), name_size hidden.name ≤ name_size var.name)

theorem copy_name_copy_name {short long : Str} (shorter : short.chars.length ≤ long.chars.length) (buffer : List UInt16) :
    copy_name long (copy_name short buffer) = copy_name long buffer := by
  rw [copy_name,copy_name,copy_name,drop_append]
  have gone : short.chars.drop (long.chars.length+1) = [] := drop_eq_nil_of_le (by omega)
  obtain ⟨more,longer⟩ := Nat.exists_eq_add_of_le shorter
  have left : long.chars.length+1-short.chars.length = more+1 := by omega
  rw [gone,nil_append,left,drop_succ_cons,drop_drop]
  congr 3
  omega

variable {size : Nat} {todo : List Var} (name : Str)

theorem walk_hidden {hidden : List Var} {var : Var} (skipped : ∀ h ∈ hidden, visible h = false)
    (shorter : ∀ h ∈ hidden, name_size h.name ≤ name_size var.name) (fits : name_size var.name ≤ size) (shown : visible var = true)
    (rest : List Var) (buffer : List UInt16) (vendor : Guid) :
    walk size buffer vendor (hidden ++ var :: rest) = ⟨.EFI_SUCCESS,name_size var.name,copy_name var.name buffer,var.guid⟩ := by
  induction hidden generalizing buffer vendor with
  | nil => rw [nil_append,walk,if_neg (by omega),if_pos shown]
  | cons h hidden ih =>
    have short := shorter h mem_cons_self
    rw [cons_append,walk,if_neg (by omega),if_neg (by simp [skipped h mem_cons_self]),
      ih (fun other member => skipped other (mem_cons_of_mem _ member))
        (fun other member => shorter other (mem_cons_of_mem _ member)),
      copy_name_copy_name]
    rw [name_size,name_size] at short
    omega

theorem runtime_eq (vars : List Var) : runtime vars = vars.filter visible := rfl

theorem runtime_cons (var : Var) (rest : List Var) :
    runtime (var :: rest) = if visible var then var :: runtime rest else runtime rest := by
  rw [runtime_eq,filter_cons,runtime_eq]

theorem runtime_hidden {hidden : List Var} (skipped : ∀ h ∈ hidden, visible h = false) {var : Var} (shown : visible var = true)
    (rest : List Var) : runtime (hidden ++ var :: rest) = var :: runtime rest := by
  have none_of_them : hidden.filter visible = [] := by
    rw [filter_eq_nil_iff]
    intro h member
    simp [skipped h member]
  rw [runtime_eq,filter_append,none_of_them,nil_append,filter_cons,if_pos shown,runtime_eq]

theorem walk_shown (shown : ∀ var ∈ todo.head?, visible var = true) (buffer : List UInt16)
    (vendor : Guid) : walk size buffer vendor todo = walk size buffer vendor (runtime todo) := by
  cases todo with
  | nil => rfl
  | cons var rest =>
    have is_shown : visible var = true := shown var rfl
    rw [runtime_cons,if_pos is_shown,walk,walk,if_pos is_shown,if_pos is_shown]

theorem walk_quiet (quiet : Quiet size todo) (buffer : List UInt16) (vendor : Guid) :
    walk size buffer vendor todo = walk size buffer vendor (runtime todo) := by
  rcases quiet with nothing | ⟨var,first,skips⟩
  · refine walk_shown (fun var is_first => ?_) buffer vendor
    cases todo with
    | nil => cases is_first
    | cons head rest =>
      cases is_first
      rw [takeWhile_cons] at nothing
      split at nothing
      · cases nothing
      next shown => simpa using shown
  have split := @List.takeWhile_append_dropWhile Var (fun var => decide ¬ visible var = true) todo
  cases after : todo.dropWhile fun var => decide ¬ visible var = true with
  | nil =>
    rw [after] at first
    cases first
  | cons head rest =>
    rw [after] at first split
    cases first
    have shown : visible var = true := by
      have stops := head?_dropWhile_not (fun var => decide ¬ visible var = true) todo
      rw [after] at stops
      simpa using stops
    have skipped : ∀ h ∈ todo.takeWhile (fun var => decide ¬ visible var = true), visible h = false := by
      intro h member
      simpa using mem_takeWhile_imp member
    rcases skips with ⟨h,is_first,long,same⟩ | ⟨fits,shorter⟩
    · rw [← split,runtime_hidden skipped shown,split]
      cases todo with
      | nil => cases is_first
      | cons head' rest' =>
        cases is_first
        rw [walk,if_pos long,walk,if_pos (same ▸ long),same]
    · rw [← split,walk_hidden skipped shorter fits shown,runtime_hidden skipped shown,walk,if_neg (by omega),if_pos shown]

theorem ahead_split {before after : List Var} {var : Var} (distinct : Distinct Var.key (before ++ var :: after))
    (some_name : var.name.chars ≠ []) : ahead (before ++ var :: after) var.guid var.name = after := by
  have others : ∀ b ∈ before, decide (b.key ≠ (var.guid,var.name)) = true := by
    intro b member
    rw [Distinct,map_append,map_cons,nodup_append] at distinct
    exact decide_eq_true (distinct.2.2 b.key (mem_map_of_mem member) var.key mem_cons_self)
  rw [ahead,if_neg some_name,dropWhile_append_of_pos others,dropWhile_cons_of_neg (by simp [Var.key]),tail_cons]

theorem next_walk {name : Str} {vendor : Guid} {s : Store} (tidy : Tidy s)
    (known : name.chars = [] ∨ place Var.key s.vars (vendor,name) ≠ none)
    (here : ∃ done, s.vars = done ++ todo ∧ (upcoming s.vars vendor name).bind (s.vars[·]?) = todo.head?) {buffer : List UInt16} (is_name : string_at buffer (size/2) = name) (terminated : name.chars.length < size/2)
    {rounds : Nat} (enough : todo.length < rounds) :
    ∃ current, Tidy (with_current s current) ∧
      efi_get_next_variable_name_mem s size buffer vendor EFI_VARIABLE_RUNTIME_ACCESS rounds =
        some (walk size buffer vendor todo,with_current s current) := by
  set mask := EFI_VARIABLE_RUNTIME_ACCESS
  induction todo generalizing name vendor s buffer rounds with
  | nil =>
    obtain ⟨rounds,rfl⟩ : ∃ n, rounds = n+1 := ⟨rounds-1,by simp at enough; omega⟩
    obtain ⟨current,still,calls⟩ := @next_round s tidy size buffer vendor mask name is_name terminated
      known rounds
    obtain ⟨_,_,nothing⟩ := here
    rw [nothing] at calls
    exact ⟨current,still,calls⟩
  | cons var rest ih =>
    obtain ⟨rounds,rfl⟩ : ∃ n, rounds = n+1 := ⟨rounds-1,by simp at enough; omega⟩
    obtain ⟨current,still,calls⟩ := @next_round s tidy size buffer vendor mask name is_name terminated
      known rounds
    obtain ⟨done,split,something⟩ := here
    rw [something] at calls
    simp only [head?_cons] at calls
    rw [calls,walk]
    by_cases long : size < name_size var.name
    · exact ⟨current,still,by rw [if_pos long,if_pos long]⟩
    rw [if_neg long,if_neg long]
    by_cases shown : visible var = true
    · have seen : ¬ (mask ≠ 0 ∧
          var.attr &&& mask ≠ mask) := by
        rintro ⟨_,hidden⟩
        exact hidden (by simpa [visible] using shown)
      exact ⟨current,still,by rw [if_neg seen,if_pos shown]⟩
    have skips : mask ≠ 0 ∧
        var.attr &&& mask ≠ mask :=
      ⟨by decide,by simpa [visible] using shown⟩
    rw [if_pos skips,if_neg shown]
    have member : var ∈ s.vars := by rw [split]; simp
    have fits : var.name.chars.length < size/2 := by
      rw [name_size] at long
      omega
    have found : place Var.key s.vars (var.guid,var.name) ≠ none := by
      intro missing
      rw [place_eq_none,lookup_eq_none] at missing
      exact missing var member rfl
    obtain ⟨current',still',walks⟩ := @ih var.name var.guid (with_current s current) still (.inr found)
      ⟨done ++ [var],by simpa [with_current] using split,upcoming_next tidy.distinct (tidy.named var member) split⟩
      (copy_name var.name buffer) (string_at_name fits) fits rounds (by simpa using enough)
    exact ⟨current',still',walks⟩

/-- What a client is to see of a call that has these variables ahead. -/
def sees (vars : List Var) (move : Move) (name : Str) (vendor : Guid) : Next :=
  if name.chars.length < move.size/2 then walk move.size (move.buffer name) vendor (ahead vars vendor name)
  else ⟨.EFI_INVALID_PARAMETER,move.size,move.buffer name,vendor⟩

def ideal (vars : List Var) : Str → Guid → List Move → List Next
  | _, _, [] => []
  | name, vendor, move :: moves =>
    sees vars move name vendor :: ideal vars (name_in (sees vars move name vendor).variable_name) (sees vars move name vendor).vendor moves

def QuietRun : Store → Str → Guid → List Move → Prop
  | _, _, _, [] => True
  | s, name, vendor, move :: moves =>
    (name.chars.length < move.size/2 → Quiet move.size (ahead s.vars vendor name)) ∧
      match efi_get_next_variable_name_runtime s move.size (move.buffer name) vendor with
      | none => True
      | some (next,s) => QuietRun s (name_in next.variable_name) next.vendor moves

/-- A name from which a client can go on: none, or that of a runtime variable. -/
def Held (vars : List Var) (name : Str) (vendor : Guid) : Prop :=
  name.chars = [] ∨ ∃ var ∈ runtime vars, var.key = (vendor,name)

theorem name_in_name (rest : List UInt16) : name_in (name.chars ++ 0 :: rest) = name :=
  string_at_name (by simp)

theorem name_in_copy (buffer : List UInt16) : name_in (copy_name name buffer) = name :=
  name_in_name name _

theorem cut_off {name : Str} {rest : List UInt16} {len : Nat} (short : len ≤ name.chars.length) :
    u16_strnlen (name.chars ++ 0 :: rest) len = len := by
  have part : (name.chars ++ 0 :: rest).take len = name.chars.take len := take_append_of_le_length short
  have all : ∀ c ∈ name.chars.take len, decide (c ≠ 0) = true := by
    intro c member
    simp only [decide_eq_true_eq]
    rintro rfl
    exact name.zero_free (mem_of_mem_take member)
  have same : (string_at (name.chars ++ 0 :: rest) len).chars = name.chars.take len := by
    show List.takeWhile _ (List.take _ _) = _
    rw [part,takeWhile_eq_self_iff.mpr all]
  rw [u16_strnlen,same,length_take]
  omega

section seeing
variable {s : Store} (tidy : Tidy s)
include tidy

theorem held_ahead {name : Str} {vendor : Guid} (held : Held s.vars name vendor) :
    (name.chars = [] ∨ place Var.key s.vars (vendor,name) ≠ none) ∧
      (∃ done, s.vars = done ++ ahead s.vars vendor name ∧
        (upcoming s.vars vendor name).bind (s.vars[·]?) = (ahead s.vars vendor name).head?) ∧
      runtime (ahead s.vars vendor name) = ahead (runtime s.vars) vendor name := by
  by_cases empty : name.chars = []
  · have all (vars : List Var) : ahead vars vendor name = vars := by rw [ahead,if_pos empty]
    rw [all,all]
    exact ⟨.inl empty,⟨[],rfl,upcoming_first s.vars vendor empty⟩,rfl⟩
  rcases held with is_empty | ⟨var,member,key⟩
  · exact absurd is_empty empty
  obtain ⟨rfl,rfl⟩ : var.guid = vendor ∧ var.name = name := Prod.mk_inj.mp key
  rw [runtime_eq,mem_filter] at member
  obtain ⟨before,after,split⟩ := append_of_mem member.1
  have distinct := tidy.distinct
  have next := upcoming_next distinct empty split
  have part : (runtime s.vars).Sublist s.vars := filter_sublist
  have masked_split : runtime s.vars = runtime before ++ var :: runtime after := by
    rw [split,runtime_eq,filter_append,filter_cons,if_pos member.2,runtime_eq,runtime_eq]
  have shown : ahead (runtime s.vars) var.guid var.name = runtime after := by
    rw [masked_split]
    exact ahead_split (masked_split ▸ distinct.sublist part) empty
  have here : ahead s.vars var.guid var.name = after := by
    rw [split]
    exact ahead_split (split ▸ distinct) empty
  have found : place Var.key s.vars (var.guid,var.name) ≠ none := by
    intro missing
    rw [place_eq_none,lookup_eq_none] at missing
    exact missing var member.1 rfl
  rw [here,shown]
  exact ⟨.inr found,⟨before ++ [var],by simpa using split,next⟩,rfl⟩

theorem call_sees {name : Str} {vendor : Guid} (held : Held s.vars name vendor) {move : Move}
    (quiet : name.chars.length < move.size/2 → Quiet move.size (ahead s.vars vendor name)) :
    ∃ current, Tidy (with_current s current) ∧
      efi_get_next_variable_name_runtime s move.size (move.buffer name) vendor =
        some (sees (runtime s.vars) move name vendor,with_current s current) := by
  rw [efi_get_next_variable_name_runtime,sees]
  by_cases terminated : name.chars.length < move.size/2
  · obtain ⟨known,⟨done,split,here⟩,shown⟩ := held_ahead tidy held
    have enough : (ahead s.vars vendor name).length < s.vars.length+1 := by
      have length := congrArg List.length split
      rw [length_append] at length
      omega
    obtain ⟨current,still,walks⟩ := next_walk tidy known ⟨done,split,here⟩ (string_at_name terminated) terminated enough
    refine ⟨current,still,?_⟩
    rw [if_pos terminated,← shown,← walk_quiet (quiet terminated)]
    exact walks
  · refine ⟨s.current,tidy,?_⟩
    rw [if_neg terminated,efi_get_next_variable_name_mem]
    simp only [Move.buffer,cut_off (not_lt.mp terminated),if_true]
    rfl

end seeing

theorem ahead_suffix (vars : List Var) (vendor : Guid) (name : Str) : ∃ done, vars = done ++ ahead vars vendor name := by
  rw [ahead]
  split
  · exact ⟨[],rfl⟩
  · obtain ⟨first,drop⟩ := dropWhile_suffix (l := vars) fun var => decide (var.key ≠ (vendor,name))
    cases after : vars.dropWhile fun var => decide (var.key ≠ (vendor,name)) with
    | nil => exact ⟨vars,by simp⟩
    | cons var rest =>
      rw [after] at drop
      refine ⟨first ++ [var],?_⟩
      rw [tail_cons,append_assoc,singleton_append,drop]

section ideal
variable {vars : List Var} (shown : ∀ var ∈ vars, visible var = true)
include shown

theorem sees_next (move : Move) (name : Str) (vendor : Guid) :
    ((sees vars move name vendor).status ≠ .EFI_SUCCESS ∧ name_in (sees vars move name vendor).variable_name = name ∧
      (sees vars move name vendor).vendor = vendor ∧
      ((sees vars move name vendor).status = .EFI_NOT_FOUND → ahead vars vendor name = [])) ∨
    ∃ var rest, ahead vars vendor name = var :: rest ∧ (sees vars move name vendor).status = .EFI_SUCCESS ∧
      name_in (sees vars move name vendor).variable_name = var.name ∧ (sees vars move name vendor).vendor = var.guid := by
  have same : name_in (move.buffer name) = name := name_in_name name move.rest
  rw [sees]
  split
  · cases todo : ahead vars vendor name with
    | nil => exact .inl ⟨by simp [walk],by simpa [walk] using same,rfl,fun _ => rfl⟩
    | cons var rest =>
      obtain ⟨done,split⟩ := ahead_suffix vars vendor name
      have member : var ∈ vars := by rw [split,todo]; simp
      rw [walk]
      split
      · exact .inl ⟨by simp,same,rfl,by simp⟩
      · rw [if_pos (shown var member)]
        exact .inr ⟨var,rest,rfl,rfl,name_in_copy var.name _,rfl⟩
  · exact .inl ⟨by simp,same,rfl,by simp⟩

theorem ideal_returned (distinct : Distinct Var.key vars) (named : ∀ var ∈ vars, var.name.chars ≠ []) (name : Str) (vendor : Guid)
    (moves : List Move) :
    returned (ideal vars name vendor moves) <+: (ahead vars vendor name).map Var.key ∧
      ((∃ next ∈ ideal vars name vendor moves, next.status = .EFI_NOT_FOUND) →
        returned (ideal vars name vendor moves) = (ahead vars vendor name).map Var.key) := by
  induction moves generalizing name vendor with
  | nil => exact ⟨List.nil_prefix,by simp [ideal]⟩
  | cons move moves ih =>
    rw [ideal]
    rcases sees_next shown move name vendor with ⟨failed,same_name,same_vendor,at_end⟩ | ⟨var,rest,todo,success,new_name,new_vendor⟩
    · rw [same_name,same_vendor]
      obtain ⟨order,all⟩ := ih name vendor
      have skips : returned (sees vars move name vendor :: ideal vars name vendor moves) = returned (ideal vars name vendor moves) := by
        rw [returned,filter_cons,if_neg (by simpa using failed)]
        rfl
      rw [skips]
      refine ⟨order,?_⟩
      rintro ⟨next,member,not_found⟩
      rcases mem_cons.mp member with rfl | later
      · rw [at_end not_found,map_nil] at order ⊢
        exact prefix_nil.mp order
      · exact all ⟨next,later,not_found⟩
    · rw [new_name,new_vendor]
      obtain ⟨done,split⟩ := ahead_suffix vars vendor name
      rw [todo] at split
      have some_name : var.name.chars ≠ [] := named var (by rw [split]; simp)
      have next_ahead : ahead vars var.guid var.name = rest := by
        rw [split]
        exact ahead_split (split ▸ distinct) some_name
      obtain ⟨order,all⟩ := ih var.name var.guid
      rw [next_ahead] at order all
      have gives : returned (sees vars move name vendor :: ideal vars var.name var.guid moves) =
          var.key :: returned (ideal vars var.name var.guid moves) := by
        rw [returned,filter_cons,if_pos (by simpa using success),map_cons,new_name,new_vendor]
        rfl
      rw [gives,todo,map_cons]
      refine ⟨(prefix_cons_inj _).mpr order,?_⟩
      rintro ⟨next,member,not_found⟩
      rcases mem_cons.mp member with rfl | later
      · rw [success] at not_found
        cases not_found
      · rw [all ⟨next,later,not_found⟩]

end ideal

theorem enumerate_ideal {s : Store} (tidy : Tidy s) {name : Str} {vendor : Guid} (held : Held s.vars name vendor)
    {moves : List Move} (quiet : QuietRun s name vendor moves) :
    enumerate s name vendor moves = ideal (runtime s.vars) name vendor moves := by
  induction moves generalizing s name vendor with
  | nil => rfl
  | cons move moves ih =>
    obtain ⟨quiet_here,quiet_later⟩ := quiet
    obtain ⟨current,still,calls⟩ := call_sees tidy held quiet_here
    have shown : ∀ var ∈ runtime s.vars, visible var = true := by
      intro var member
      rw [runtime_eq] at member
      exact (mem_filter.mp member).2
    rw [calls] at quiet_later
    have goes_on : Held s.vars (name_in (sees (runtime s.vars) move name vendor).variable_name)
        (sees (runtime s.vars) move name vendor).vendor := by
      rcases sees_next shown move name vendor with ⟨_,same_name,same_vendor,_⟩ | ⟨var,rest,todo,_,new_name,new_vendor⟩
      · rw [same_name,same_vendor]
        exact held
      · rw [new_name,new_vendor]
        obtain ⟨done,split⟩ := ahead_suffix (runtime s.vars) vendor name
        exact .inr ⟨var,by rw [split,todo]; simp,rfl⟩
    rw [enumerate,calls,ideal]
    exact congrArg (_ :: ·) (ih still goes_on quiet_later)

theorem ideal_length (vars : List Var) (name : Str) (vendor : Guid) (moves : List Move) :
    (ideal vars name vendor moves).length = moves.length := by
  induction moves generalizing name vendor with
  | nil => rfl
  | cons move moves ih => rw [ideal,length_cons,ih,length_cons]

/-- Two stores with the same runtime variables look the same to a client whose
    calls are quiet, and it is given each of these variables once. -/
theorem enumeration_hides {first second : Store} (tidy : Tidy first) (tidy' : Tidy second)
    (same : runtime first.vars = runtime second.vars) (vendor : Guid) (moves : List Move)
    (quiet : QuietRun first (u []) vendor moves) (quiet' : QuietRun second (u []) vendor moves) :
    enumerate first (u []) vendor moves = enumerate second (u []) vendor moves ∧
      (enumerate first (u []) vendor moves).length = moves.length ∧
      Distinct Var.key (runtime first.vars) ∧
      returned (enumerate first (u []) vendor moves) <+: (runtime first.vars).map Var.key ∧
      ((∃ next ∈ enumerate first (u []) vendor moves, next.status = .EFI_NOT_FOUND) →
        returned (enumerate first (u []) vendor moves) = (runtime first.vars).map Var.key) := by
  have part : (runtime first.vars).Sublist first.vars := List.filter_sublist
  have distinct := tidy.distinct.sublist part
  have start (vars : List Var) : Held vars (u []) vendor := .inl rfl
  rw [enumerate_ideal tidy (start _) quiet,enumerate_ideal tidy' (start _) quiet',same]
  rw [same] at distinct part
  have shown : ∀ var ∈ runtime second.vars, visible var = true := by
    intro var member
    rw [runtime_eq] at member
    exact (List.mem_filter.mp member).2
  obtain ⟨order,all⟩ := ideal_returned shown distinct (fun var member => tidy.named var (part.mem member)) (u []) vendor moves
  exact ⟨rfl,ideal_length _ _ _ _,distinct,order,all⟩

instance (size : Nat) (todo : List Var) : Decidable (Quiet size todo) := by
  unfold Quiet
  exact inferInstance

def decideQuietRun : ∀ (s : Store) (name : Str) (vendor : Guid) (moves : List Move), Decidable (QuietRun s name vendor moves)
  | _, _, _, [] => .isTrue trivial
  | s, name, vendor, move :: moves =>
    @instDecidableAnd _ _ inferInstance
      (match efi_get_next_variable_name_runtime s move.size (move.buffer name) vendor with
      | none => .isTrue trivial
      | some (next,s) => decideQuietRun s (name_in next.variable_name) next.vendor moves)

instance (s : Store) (name : Str) (vendor : Guid) (moves : List Move) : Decidable (QuietRun s name vendor moves) :=
  decideQuietRun s name vendor moves

/-- A variable of the boot services, one of the runtime, and stores with both and
    with the second alone. -/
def boot_var (name : List Char) : Var := ⟨1,u name,3,0,[1]⟩
def runtime_var (name : List Char) : Var := ⟨1,u name,7,0,[1]⟩
def two_vars (name : List Char) : Store := ⟨[boot_var name,runtime_var ['r','t']],none⟩
def one_var : Store := ⟨[runtime_var ['r','t']],none⟩

theorem enumeration_hides_short :
    enumerate (two_vars ['h']) (u []) 0 [⟨20,[]⟩,⟨20,[5]⟩] = enumerate one_var (u []) 0 [⟨20,[]⟩,⟨20,[5]⟩] := by
  have distinct : ((two_vars ['h']).vars.map Var.key).Nodup ∧ (one_var.vars.map Var.key).Nodup := by decide +kernel
  have two : Tidy (two_vars ['h']) := ⟨distinct.1,by decide +kernel,by simp [two_vars]⟩
  have one : Tidy one_var := ⟨distinct.2,by decide +kernel,by simp [one_var]⟩
  exact (enumeration_hides two one (by decide +kernel) 0 [⟨20,[]⟩,⟨20,[5]⟩] (by decide +kernel) (by decide +kernel)).1

/-- The length of a hidden name is reported to the client, its text is left in the
    buffer, and a buffer that holds every runtime name is too small. -/
theorem hidden_name_leaks :
    runtime (two_vars ['s','e','c','r','e','t']).vars = runtime one_var.vars ∧
    enumerate (two_vars ['s','e','c','r','e','t']) (u []) 0 [⟨6,[]⟩] =
      [⟨.EFI_BUFFER_TOO_SMALL,14,[0],0⟩] ∧
    enumerate one_var (u []) 0 [⟨6,[]⟩] = [⟨.EFI_SUCCESS,6,[114,116,0],1⟩] ∧
    enumerate (two_vars ['s','e','c','r','e','t']) (u []) 0 [⟨14,[]⟩] =
      [⟨.EFI_SUCCESS,6,[114,116,0,114,101,116,0],1⟩] := by
  decide +kernel

end UBoot.EfiVar
