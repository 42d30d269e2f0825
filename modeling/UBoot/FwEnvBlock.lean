import UBoot.FwEnv
import UBoot.Words

/-!
The block that `fw_env_write` edits, byte by byte: pointers are places in the block, and a read or a
write at a place that is not inside it has no outcome, nor has a read behind the terminator of a
caller's string. A definition is put behind the first two terminators that the second search finds
(`append_fits`), so it needs the second terminator (`Ended`).
-/
namespace UBoot.FwEnvBlock
open UBoot.Hashtable UBoot.EnvText UBoot.FwEnv UBoot.Words Option
open List hiding lookup

def put (data : List UInt8) (place : ℕ) (c : UInt8) : Option (List UInt8) :=
  if place < data.length then some (data.set place c) else none

/-- `while ((*place++ = *s++) != '\0')`, with the terminator among the bytes. -/
def put_all : List UInt8 → ℕ → List UInt8 → Option (List UInt8)
  | data, _, [] => some data
  | data, place, c :: s => do
    let data ← put data place c
    put_all data (place+1) s

/-- The inner loop of the search. The comparison with the end of the block stands behind the
    read of the same place, so that it holds for no place that can be read. -/
def terminator (data : List UInt8) : ℕ → ℕ → Option ℕ
  | 0, _ => none
  | rounds+1, nxt => do
    let c ← data[nxt]?
    if c = NUL then some nxt else terminator data rounds (nxt+1)

/-- `envmatch`, for a name with its terminator: the place of the value. -/
def envmatch (data : List UInt8) : List UInt8 → ℕ → Option (Option ℕ)
  | [], _ => none
  | c :: s1, s2 => do
    let d ← data[s2]?
    if c = d then
      if c = EQUALS then some (some (s2+1)) else envmatch data s1 (s2+1)
    else if c = NUL ∧ d = EQUALS then some (some (s2+1))
    else some none

/-- `strcmp` of a string in the block with one that has its terminator: whether they differ. -/
def strcmp (data : List UInt8) : ℕ → List UInt8 → Option Bool
  | _, [] => none
  | place, c :: s => do
    let d ← data[place]?
    if d ≠ c then some true else if c = NUL then some false else strcmp data (place+1) s

/-- `env`, `nxt` and `oldval` behind the search. -/
structure Found where
  env : ℕ
  nxt : ℕ
  oldval : Option ℕ
deriving DecidableEq

def search (data : List UInt8) (name : Str) : ℕ → ℕ → ℕ → Option Found
  | 0, _, _ => none
  | rounds+1, env, nxt => do
    let c ← data[env]?
    if c = NUL then some ⟨env,nxt,none⟩
    else
      let nxt ← terminator data (data.length+1) env
      let oldval ← envmatch data (name ++ [NUL]) env
      if oldval.isSome then some ⟨env,nxt,oldval⟩ else search data name rounds (nxt+1) nxt

inductive Plan where
  | deleting
  | overwriting (oldval : ℕ)
  | creating
  | nothing
deriving DecidableEq

def plan (data : List UInt8) (value : Str) : Option ℕ → Option Plan
  | none => some (if value = [] then .nothing else .creating)
  | some oldval =>
    if value = [] then some .deleting
    else do
      let differs ← strcmp data oldval (value ++ [NUL])
      some (if differs then .overwriting oldval else .nothing)

inductive Access where
  | delete
  | create
  | overwr
  | nondef_overwr
deriving DecidableEq

/-- What is known of a name: the accesses that its flags prevent, and its default. -/
structure Policy where
  prevents : Access → Bool
  defval : Option Str
  string : NUL ∉ defval.getD []

def refused (policy : Policy) (data : List UInt8) : Plan → Option Bool
  | .deleting => some (policy.prevents .delete)
  | .overwriting oldval =>
    if policy.prevents .overwr then some true
    else if policy.prevents .nondef_overwr then strcmp data oldval (policy.defval.getD [] ++ [NUL])
    else some false
  | .creating => some (policy.prevents .create)
  | .nothing => some false

/-- The loop that moves what follows over the entry: it ends behind the first of two
    terminators, and gives the place of that one. -/
def compact : ℕ → List UInt8 → ℕ → ℕ → Option (List UInt8 × ℕ)
  | 0, _, _, _ => none
  | rounds+1, data, env, nxt => do
    let c ← data[nxt]?
    let data ← put data env c
    if c = NUL then
      let d ← data[nxt+1]?
      if d = NUL then some (data,env) else compact rounds data (env+1) (nxt+1)
    else compact rounds data (env+1) (nxt+1)

/-- An entry at `env`, with its terminator at `nxt`, is removed. -/
def remove (data : List UInt8) (env nxt : ℕ) : Option (List UInt8) := do
  let c ← data[nxt+1]?
  let moved ← if c = NUL then (put data env NUL).map fun data => (data,env) else compact (data.length+1) data env (nxt+1)
  put moved.1 (moved.2+1) NUL

def double_at (data : List UInt8) : ℕ → ℕ → Option ℕ
  | 0, _ => none
  | rounds+1, env => do
    let c ← data[env]?
    if c ≠ NUL then double_at data rounds (env+1)
    else
      let d ← data[env+1]?
      if d ≠ NUL then double_at data rounds (env+1) else some env

/-- The new definition at the end, or -1. The length that is needed is an `int`. -/
def append (data : List UInt8) (name value : Str) : Option (List UInt8 × Int) := do
  let env ← double_at data (data.length+1) 0
  let env := if env > 0 then env+1 else env
  let len := wrap (wrap (name.length+2)+value.length+1)
  if len > (data.length : Int)-env then some (data,-1)
  else
    let data ← put_all data env (name ++ [NUL])
    let env := env+name.length
    let data ← put data env EQUALS
    let data ← put_all data (env+1) (value ++ [NUL])
    let data ← put data (env+1+value.length+1) NUL
    some (data,0)

def fw_env_write (policy : Policy) (env : Environment) (name : Str) (value : Option Str) : Option (Environment × Int) := do
  let value := value.getD []
  let found ← search env.data name (env.data.length+1) 0 0
  let todo ← plan env.data value found.oldval
  if todo = .nothing then some (env,0)
  else
    let denied ← refused policy env.data todo
    if denied then some (env,-1)
    else
      let data ← if todo = .creating then some env.data else remove env.data found.env found.nxt
      if value = [] then some (⟨data,true⟩,0)
      else
        let appended ← append data name value
        some (⟨appended.1,true⟩,appended.2)

def BLANK : UInt8 := 32

/-- The value that the loop over the arguments puts together. -/
def joined : Option Str → List Str → Option Str
  | value, [] => value
  | none, val :: valv => joined (some val) valv
  | some value, val :: valv => joined (some (value ++ BLANK :: val)) valv

/-- What a call of `fw_env_set` meets: the environment that is opened, if it can be, whether
    the parameters are valid, and whether the bytes can be written back. -/
structure Call where
  opened : Option Environment
  valid : Bool
  policy : Policy
  flash_io : List UInt8 → Bool

def fw_env_flush (call : Call) (env : Environment) : Int :=
  if !env.dirty then 0 else if call.flash_io env.data then 0 else -1

def fw_env_set (call : Call) : List Str → Option (Option Environment × Int)
  | [] => some (call.opened,-1)
  | name :: valv =>
    match call.opened with
    | none => some (none,-1)
    | some env =>
      if !call.valid then some (some env,-1)
      else do
        -- the result of `fw_env_write` is not looked at
        let written ← fw_env_write call.policy env name (joined none valv)
        some (some written.1,fw_env_flush call written.1)

/-! ## Blocks of entries -/

structure Entry (pair : Str × Str) : Prop where
  no_equals : EQUALS ∉ pair.1
  name_ends : NUL ∉ pair.1
  value_ends : NUL ∉ pair.2

/-- The block holds the entries, with an empty one behind them. -/
def Holds (data : List UInt8) (es : List (Str × Str)) : Prop :=
  (∀ e ∈ es, Entry e) ∧ ∃ pad, data = pairs_text es ++ NUL :: pad

/-- Two terminators end the entries, also when there is none. -/
def Ended (data : List UInt8) (es : List (Str × Str)) : Prop :=
  (∀ e ∈ es, Entry e) ∧ ∃ pad, data = pairs_text es ++ NUL :: pad ∧ (es = [] → pad.head? = some NUL)

section places
variable (front : List UInt8) (c : UInt8) (rest : List UInt8)

theorem get_place : (front ++ c :: rest)[front.length]? = some c := by simp

theorem put_place (d : UInt8) : put (front ++ c :: rest) front.length d = some (front ++ d :: rest) := by
  rw [put,if_pos (by simp)]
  simp

end places

theorem put_all_place {old s : List UInt8} (fits : old.length = s.length) (front rest : List UInt8) :
    put_all (front ++ (old ++ rest)) front.length s = some (front ++ (s ++ rest)) := by
  induction s generalizing old front with
  | nil =>
    rw [length_eq_zero_iff.mp fits,put_all]
  | cons c s ih =>
    obtain ⟨d,old,rfl⟩ := exists_cons_of_length_eq_add_one fits
    have later := @ih old (by simpa using fits) (front ++ [c])
    rw [put_all,cons_append,put_place,bind_eq_bind,bind_some]
    simpa using later

variable {data w : List UInt8}

theorem terminator_place (free : NUL ∉ w) (front rest : List UInt8) {rounds : ℕ} (enough : w.length < rounds) :
    terminator (front ++ (w ++ NUL :: rest)) rounds front.length = some (front.length+w.length) := by
  induction w generalizing front rounds with
  | nil =>
    obtain ⟨more,rfl⟩ : ∃ more, rounds = more+1 := ⟨rounds-1,by simp at enough; omega⟩
    rw [terminator,nil_append,get_place]
    simp
  | cons c w ih =>
    obtain ⟨more,rfl⟩ : ∃ more, rounds = more+1 := ⟨rounds-1,by simp at enough; omega⟩
    have here : c ≠ NUL := fun same => free (same ▸ mem_cons_self)
    have later := @ih (fun member => free (mem_cons_of_mem _ member)) (front ++ [c]) more (by simp at enough; omega)
    rw [terminator,cons_append,get_place,bind_eq_bind,bind_some,if_neg here]
    simp only [length_append,length_cons,length_nil,append_assoc,cons_append,nil_append] at later ⊢
    rw [later]
    congr 1
    omega

theorem envmatch_place {name key : Str} (no_pair : EQUALS ∉ name) (ends : NUL ∉ name) (plain : EQUALS ∉ key) (key_ends : NUL ∉ key)
    (front rest : List UInt8) :
    envmatch (front ++ (key ++ EQUALS :: rest)) (name ++ [NUL]) front.length =
      some (if name = key then some (front.length+key.length+1) else none) := by
  induction name generalizing key front with
  | nil =>
    cases key with
    | nil => simp [envmatch,show NUL ≠ EQUALS by decide]
    | cons d key =>
      have differ : d ≠ EQUALS := fun same => plain (same ▸ mem_cons_self)
      have ended : ¬NUL = d := fun same => key_ends (same ▸ mem_cons_self)
      simp [envmatch,differ,ended]
  | cons c name ih =>
    have here : c ≠ EQUALS := fun same => no_pair (same ▸ mem_cons_self)
    have going : c ≠ NUL := fun same => ends (same ▸ mem_cons_self)
    cases key with
    | nil => simp [envmatch,here,going]
    | cons d key =>
      by_cases same : c = d
      · subst same
        have later := @ih key (fun member => no_pair (mem_cons_of_mem c member))
          (fun member => ends (mem_cons_of_mem c member)) (fun member => plain (mem_cons_of_mem c member))
          (fun member => key_ends (mem_cons_of_mem c member)) (front ++ [c])
        rw [cons_append,cons_append,envmatch,get_place,bind_eq_bind,bind_some,if_pos rfl,if_neg here]
        simp only [length_append,length_cons,length_nil,append_assoc,cons_append,nil_append,
          List.cons.injEq,true_and] at later ⊢
        rw [later,show front.length+(0+1)+key.length+1 = front.length+(key.length+1)+1 by omega]
      · simp [envmatch,same,going]

theorem strcmp_place {w s : List UInt8} (free : NUL ∉ w) (plain : NUL ∉ s) (front rest : List UInt8) :
    strcmp (front ++ (w ++ NUL :: rest)) front.length (s ++ [NUL]) = some (decide (w ≠ s)) := by
  induction s generalizing w front with
  | nil =>
    cases w with
    | nil => simp [strcmp]
    | cons d w =>
      have differ : d ≠ NUL := fun same => free (same ▸ mem_cons_self)
      simp [strcmp,differ]
  | cons c s ih =>
    have here : c ≠ NUL := fun same => plain (same ▸ mem_cons_self)
    cases w with
    | nil => simp [strcmp,Ne.symm here]
    | cons d w =>
      by_cases same : d = c
      · subst same
        have later := @ih w (fun member => free (mem_cons_of_mem d member))
          (fun member => plain (mem_cons_of_mem d member)) (front ++ [d])
        rw [cons_append,cons_append,strcmp,get_place,bind_eq_bind,bind_some,if_neg (by simp),if_neg here]
        simpa using later
      · simp [strcmp,same]

section pair
variable {pair : Str × Str} (entry : Entry pair)
include entry

theorem Entry.text_free : NUL ∉ pair.1 ++ EQUALS :: pair.2 := by
  intro member
  rcases mem_append.mp member with inside | inside
  · exact entry.name_ends inside
  · rcases mem_cons.mp inside with equals | later
    · exact absurd equals (by decide)
    · exact entry.value_ends later

theorem Entry.text_first (rest : List UInt8) : ∃ c more, pair_text pair ++ rest = c :: more ∧ c ≠ NUL := by
  have free := entry.text_free
  cases keyIs : pair.1 with
  | nil => exact ⟨EQUALS,pair.2 ++ NUL :: rest,by simp [pair_text,keyIs],by decide⟩
  | cons c key =>
    refine ⟨c,key ++ EQUALS :: (pair.2 ++ NUL :: rest),by simp [pair_text,keyIs],?_⟩
    intro same
    rw [keyIs,same] at free
    exact free (by simp)

end pair

/-- Where the search in a block of entries ends: behind all of them, or at the first one of
    the name, between what stands before it and what stands behind its terminator. -/
theorem search_place {name : Str} (no_pair : EQUALS ∉ name) (ends : NUL ∉ name) {es : List (Str × Str)} (entries : ∀ e ∈ es, Entry e)
    (front pad : List UInt8) (nxt : ℕ) {rounds : ℕ} (enough : es.length < rounds) :
    (∀ e ∈ es, e.1 ≠ name) ∧
        (∃ last, search (front ++ (pairs_text es ++ NUL :: pad)) name rounds front.length nxt =
          some ⟨front.length+(pairs_text es).length,last,none⟩) ∨
      ∃ before value behind, es = before ++ (name,value) :: behind ∧ (∀ e ∈ before, e.1 ≠ name) ∧
        search (front ++ (pairs_text es ++ NUL :: pad)) name rounds front.length nxt =
          some ⟨front.length+(pairs_text before).length,
            front.length+(pairs_text before).length+name.length+1+value.length,
            some (front.length+(pairs_text before).length+name.length+1)⟩ := by
  induction es generalizing front nxt rounds with
  | nil =>
    obtain ⟨more,rfl⟩ : ∃ more, rounds = more+1 := ⟨rounds-1,by simp at enough; omega⟩
    refine .inl ⟨by simp,nxt,?_⟩
    simp [pairs_text,search]
  | cons pair es ih =>
    obtain ⟨more,rfl⟩ : ∃ more, rounds = more+1 := ⟨rounds-1,by simp at enough; omega⟩
    have here := entries pair mem_cons_self
    obtain ⟨c,tail,startsIs,going⟩ := here.text_first (pairs_text es ++ NUL :: pad)
    obtain ⟨block,blockIs⟩ : ∃ block, block = front ++ (pairs_text (pair :: es) ++ NUL :: pad) := ⟨_,rfl⟩
    have first_text : block = front ++ c :: tail := by
      rw [blockIs,← startsIs]
      simp [pairs_text]
    have line : block =
        front ++ ((pair.1 ++ EQUALS :: pair.2) ++ NUL :: (pairs_text es ++ NUL :: pad)) := by
      simp [blockIs,pairs_text,pair_text]
    have key : block =
        front ++ (pair.1 ++ EQUALS :: (pair.2 ++ NUL :: (pairs_text es ++ NUL :: pad))) := by
      simp [blockIs,pairs_text,pair_text]
    have next : block =
        (front ++ pair_text pair) ++ (pairs_text es ++ NUL :: pad) := by
      simp [blockIs,pairs_text]
    have size : (pair_text pair).length = pair.1.length+1+pair.2.length+1 := by simp [pair_text]; omega
    have opened : block[front.length]? = some c := by
      rw [first_text]
      exact get_place front c tail
    have ended : terminator block
        (block.length+1) front.length =
        some (front.length+(pair.1 ++ EQUALS :: pair.2).length) := by
      rw [line]
      apply terminator_place here.text_free
      simp only [length_append,length_cons]
      omega
    have matched : envmatch block (name ++ [NUL]) front.length =
        some (if name = pair.1 then some (front.length+pair.1.length+1) else none) := by
      rw [key]
      exact envmatch_place no_pair ends here.no_equals here.name_ends _ _
    rw [← blockIs,search,opened]
    simp only [bind_eq_bind,bind_some,if_neg going,ended,matched]
    by_cases same : name = pair.1
    · refine .inr ⟨[],pair.2,es,by rw [same,nil_append],by simp,?_⟩
      simp only [if_pos same,isSome_some,if_true]
      simp only [pairs_text,flatMap_nil,length_nil,add_zero,length_append,length_cons,same]
      congr 2
      omega
    rw [if_neg same,if_neg (by simp)]
    have place : front.length+(pair.1 ++ EQUALS :: pair.2).length+1 = (front ++ pair_text pair).length := by
      simp only [length_append,length_cons,size]
      omega
    rw [place,next]
    have longer : ∀ before : List (Str × Str), (pairs_text (pair :: before)).length = (pair_text pair).length+(pairs_text before).length := by
      intro before
      simp [pairs_text]
    rcases ih (fun e member => entries e (mem_cons_of_mem _ member)) (front ++ pair_text pair)
      (front.length+(pair.1 ++ EQUALS :: pair.2).length) (show es.length < more by simp at enough; omega)
      with ⟨missing,last,found⟩ | ⟨before,value,behind,rfl,missing,found⟩
    · refine .inl ⟨?_,last,?_⟩
      · intro e member
        rcases mem_cons.mp member with rfl | later
        · exact Ne.symm same
        · exact missing e later
      · rw [found,longer,length_append,add_assoc]
    · refine .inr ⟨pair :: before,value,behind,rfl,?_,?_⟩
      · intro e member
        rcases mem_cons.mp member with rfl | later
        · exact Ne.symm same
        · exact missing e later
      · rw [found,longer,length_append,add_assoc front.length]

def Single (w : List UInt8) : Prop := w.IsChain fun c d => ¬(c = NUL ∧ d = NUL)

theorem Single.tail {c : UInt8} (single : Single (c :: w)) : Single w := by
  cases w with
  | nil => exact IsChain.nil
  | cons d w => exact (isChain_cons_cons.mp single).2

/-- The byte behind a terminator, when another one is still to come. -/
theorem Single.next (single : Single (NUL :: (w ++ [NUL]))) (rest : List UInt8) :
    ∃ d more, w ++ NUL :: rest = d :: more ∧ d ≠ NUL := by
  cases w with
  | nil => exact absurd ⟨rfl,rfl⟩ (isChain_cons_cons.mp single).1
  | cons d w => exact ⟨d,w ++ NUL :: rest,rfl,fun same => (isChain_cons_cons.mp single).1 ⟨rfl,same⟩⟩

theorem single_append {w rest : List UInt8} (free : NUL ∉ w) (single : Single rest) : Single (w ++ rest) := by
  induction w with
  | nil => exact single
  | cons c w ih =>
    have here : c ≠ NUL := fun same => free (same ▸ mem_cons_self)
    refine isChain_cons.mpr ⟨?_,ih fun member => free (mem_cons_of_mem c member)⟩
    intro d _ both
    exact here both.1

theorem text_single {es : List (Str × Str)} (entries : ∀ e ∈ es, Entry e) : Single (pairs_text es) := by
  induction es with
  | nil => exact IsChain.nil
  | cons pair es ih =>
    have split : pairs_text (pair :: es) = (pair.1 ++ EQUALS :: pair.2) ++ NUL :: pairs_text es := by
      simp [pairs_text,pair_text]
    rw [split]
    apply single_append (entries pair mem_cons_self).text_free
    refine isChain_cons.mpr ⟨?_,ih fun e member => entries e (mem_cons_of_mem _ member)⟩
    intro d head both
    cases es with
    | nil => simp [pairs_text] at head
    | cons other es =>
      obtain ⟨c,more,starts,going⟩ := (entries other (by simp)).text_first (pairs_text es)
      have whole : pairs_text (other :: es) = c :: more := by
        rw [← starts]
        simp [pairs_text]
      rw [whole] at head
      exact going ((Option.some.inj head).trans both.2)

theorem text_ends {es : List (Str × Str)} (entries : ∀ e ∈ es, Entry e) (some_entries : es ≠ []) :
    ∃ w, pairs_text es = w ++ [NUL] ∧ Single (w ++ [NUL]) := by
  obtain ⟨init,last,rfl⟩ : ∃ init last, es = init ++ [last] :=
    ⟨es.dropLast,es.getLast some_entries,(dropLast_append_getLast some_entries).symm⟩
  have split : pairs_text (init ++ [last]) = (pairs_text init ++ (last.1 ++ EQUALS :: last.2)) ++ [NUL] := by
    simp [pairs_text,pair_text]
  exact ⟨_,split,split ▸ text_single entries⟩

theorem double_at_place (single : Single (w ++ [NUL])) (front tail : List UInt8) {rounds : ℕ} (enough : w.length < rounds) :
    double_at (front ++ (w ++ NUL :: NUL :: tail)) rounds front.length = some (front.length+w.length) := by
  induction w generalizing front rounds with
  | nil =>
    obtain ⟨more,rfl⟩ : ∃ more, rounds = more+1 := ⟨rounds-1,by simp at enough; omega⟩
    simp [double_at]
  | cons c w ih =>
    obtain ⟨more,rfl⟩ : ∃ more, rounds = more+1 := ⟨rounds-1,by simp at enough; omega⟩
    have shifted : front ++ ((c :: w) ++ NUL :: NUL :: tail) = (front ++ [c]) ++ (w ++ NUL :: NUL :: tail) := by simp
    have later := ih single.tail (front ++ [c]) (show w.length < more by simp at enough; omega)
    have place : (front ++ [c]).length = front.length+1 := by simp
    rw [place,← shifted] at later
    have here : (front ++ ((c :: w) ++ NUL :: NUL :: tail))[front.length]? = some c := by simp
    rw [double_at,here]
    simp only [bind_eq_bind,bind_some,later]
    have total : front.length+1+w.length = front.length+(c :: w).length := by simp; omega
    by_cases ending : c = NUL
    · subst ending
      obtain ⟨d,rest,starts,going⟩ := single.next (NUL :: tail)
      have next : (front ++ ((NUL :: w) ++ NUL :: NUL :: tail))[front.length+1]? = some d := by
        rw [shifted,← place,starts]
        exact get_place _ d rest
      rw [next,if_neg (by simp),bind_some,if_pos going,total]
    · rw [if_pos ending,total]

theorem compact_place (single : Single (w ++ [NUL])) (front : List UInt8) {gap : List UInt8} (some_gap : gap ≠ [])
    (tail : List UInt8) {rounds : ℕ} (enough : w.length < rounds) :
    ∃ left, compact rounds (front ++ (gap ++ (w ++ NUL :: NUL :: tail))) front.length (front.length+gap.length) =
        some (front ++ (w ++ NUL :: left),front.length+w.length) ∧ left.length = gap.length+tail.length+1 := by
  induction w generalizing front gap rounds with
  | nil =>
    obtain ⟨more,rfl⟩ : ∃ more, rounds = more+1 := ⟨rounds-1,by simp at enough; omega⟩
    obtain ⟨g,gap,rfl⟩ := exists_cons_of_ne_nil some_gap
    refine ⟨gap ++ NUL :: NUL :: tail,?_,by simp; omega⟩
    have here : (front ++ ((g :: gap) ++ ([] ++ NUL :: NUL :: tail)))[front.length+(g :: gap).length]? = some NUL := by
      simp
    have moved : put (front ++ ((g :: gap) ++ ([] ++ NUL :: NUL :: tail))) front.length NUL =
        some (front ++ NUL :: (gap ++ NUL :: NUL :: tail)) := by
      rw [cons_append,put_place,nil_append]
    have next : (front ++ NUL :: (gap ++ NUL :: NUL :: tail))[front.length+(g :: gap).length+1]? = some NUL := by
      have place : (front ++ NUL :: (gap ++ [NUL])).length = front.length+(g :: gap).length+1 := by simp; omega
      have split : front ++ NUL :: (gap ++ NUL :: NUL :: tail) = (front ++ NUL :: (gap ++ [NUL])) ++ NUL :: tail := by simp
      rw [split,← place]
      exact get_place _ NUL tail
    rw [compact,here]
    simp only [bind_eq_bind,bind_some,moved,next,if_true]
    simp
  | cons c w ih =>
    obtain ⟨more,rfl⟩ : ∃ more, rounds = more+1 := ⟨rounds-1,by simp at enough; omega⟩
    obtain ⟨g,gap,rfl⟩ := exists_cons_of_ne_nil some_gap
    obtain ⟨left,later,length⟩ := ih single.tail (front ++ [c]) (show gap ++ [c] ≠ [] by simp) (show w.length < more by simp at enough; omega)
    refine ⟨left,?_,by rw [length]; simp⟩
    have here : (front ++ ((g :: gap) ++ ((c :: w) ++ NUL :: NUL :: tail)))[front.length+(g :: gap).length]? = some c := by simp
    have moved : put (front ++ ((g :: gap) ++ ((c :: w) ++ NUL :: NUL :: tail))) front.length c =
        some ((front ++ [c]) ++ ((gap ++ [c]) ++ (w ++ NUL :: NUL :: tail))) := by
      rw [cons_append,put_place]
      simp
    have place : (front ++ [c]).length+(gap ++ [c]).length = front.length+(g :: gap).length+1 := by simp; omega
    have start : (front ++ [c]).length = front.length+1 := by simp
    have total : (front ++ [c]).length+w.length = front.length+(c :: w).length := by simp; omega
    rw [place,start] at later
    rw [compact,here]
    simp only [bind_eq_bind,bind_some,moved,later]
    have result : (front ++ [c]) ++ (w ++ NUL :: left) = front ++ ((c :: w) ++ NUL :: left) := by simp
    rw [result,← start,total]
    by_cases ending : c = NUL
    · subst ending
      obtain ⟨d,rest,starts,going⟩ := single.next (NUL :: tail)
      have next : ((front ++ [NUL]) ++ ((gap ++ [NUL]) ++ (w ++ NUL :: NUL :: tail)))[front.length+(g :: gap).length+1]? = some d := by
        rw [← append_assoc,starts,← place,← length_append]
        exact get_place _ d rest
      rw [if_pos rfl,next,bind_some,if_neg going]
    · rw [if_neg ending]

theorem pairs_text_cons (pair : Str × Str) (es : List (Str × Str)) : pairs_text (pair :: es) = pair_text pair ++ pairs_text es := by
  simp [pairs_text]

/-- An entry is removed from a block. -/
theorem remove_entry {before behind : List (Str × Str)} {pair : Str × Str} (entries : ∀ e ∈ before ++ pair :: behind, Entry e)
    (pad : List UInt8) :
    ∃ data, remove (pairs_text (before ++ pair :: behind) ++ NUL :: pad) (pairs_text before).length
        ((pairs_text before).length+pair.1.length+1+pair.2.length) = some data ∧ Ended data (before ++ behind) ∧
      data.length = (pairs_text (before ++ pair :: behind) ++ NUL :: pad).length := by
  have kept : ∀ e ∈ before ++ behind, Entry e := by
    intro e member
    apply entries
    simp only [mem_append,mem_cons] at member ⊢
    tauto
  have size : (pair_text pair).length = pair.1.length+1+pair.2.length+1 := by simp [pair_text]; omega
  obtain ⟨c,gap,gapIs,-⟩ := (entries pair (by simp)).text_first []
  rw [append_nil] at gapIs
  have whole : pairs_text (before ++ pair :: behind) ++ NUL :: pad =
      pairs_text before ++ (pair_text pair ++ (pairs_text behind ++ NUL :: pad)) := by
    rw [pairs_text_append,pairs_text_cons]
    simp
  have place : (pairs_text before).length+pair.1.length+1+pair.2.length+1 = (pairs_text before ++ pair_text pair).length := by
    rw [length_append,size]
    omega
  unfold remove
  rw [place]
  cases behind with
  | nil =>
    have ended : (pairs_text (before ++ [pair]) ++ NUL :: pad)[(pairs_text before ++ pair_text pair).length]? = some NUL := by
      rw [whole,← append_assoc]
      exact get_place _ NUL pad
    obtain ⟨d,rest,restIs⟩ : ∃ d rest, gap ++ NUL :: pad = d :: rest := by
      cases gap with
      | nil => exact ⟨NUL,pad,rfl⟩
      | cons d gap => exact ⟨d,gap ++ NUL :: pad,rfl⟩
    have line : pairs_text (before ++ [pair]) ++ NUL :: pad = pairs_text before ++ c :: d :: rest := by
      rw [whole,gapIs,← restIs]
      simp [pairs_text]
    have first_put : put (pairs_text before ++ c :: d :: rest) (pairs_text before).length NUL =
        some (pairs_text before ++ NUL :: d :: rest) := put_place _ _ _ _
    have second_put : put (pairs_text before ++ NUL :: d :: rest) ((pairs_text before).length+1) NUL =
        some (pairs_text before ++ NUL :: NUL :: rest) := by
      have later := put_place (pairs_text before ++ [NUL]) d rest NUL
      simpa using later
    refine ⟨pairs_text before ++ NUL :: NUL :: rest,?_,⟨kept,NUL :: rest,by simp,fun _ => rfl⟩,?_⟩
    · rw [ended]
      simp only [bind_eq_bind,bind_some,if_true,line,first_put,map_some,second_put]
    · rw [line]
      simp
  | cons other behind =>
    obtain ⟨d,rest,starts,going⟩ := (entries other (by simp)).text_first (pairs_text behind ++ NUL :: pad)
    have more : (pairs_text (before ++ pair :: other :: behind) ++ NUL :: pad)[(pairs_text before ++ pair_text pair).length]? = some d := by
      rw [whole,← append_assoc (pairs_text before),pairs_text_cons,append_assoc (pair_text other),starts]
      exact get_place _ d rest
    obtain ⟨w,textIs,single⟩ := text_ends (fun e member => entries e (mem_append_right _ (mem_cons_of_mem _ member)))
      (show other :: behind ≠ [] by simp)
    have line : pairs_text (before ++ pair :: other :: behind) ++ NUL :: pad =
        pairs_text before ++ (pair_text pair ++ (w ++ NUL :: NUL :: pad)) := by
      rw [whole,textIs]
      simp
    obtain ⟨left,moved,length⟩ := compact_place single (pairs_text before) (show pair_text pair ≠ [] by rw [gapIs]; simp) pad
      (show w.length < (pairs_text before ++ (pair_text pair ++ (w ++ NUL :: NUL :: pad))).length+1 by simp; omega)
    obtain ⟨x,left,rfl⟩ : ∃ x more, left = x :: more := exists_cons_of_length_eq_add_one length
    have last_put : put (pairs_text before ++ (w ++ NUL :: x :: left)) ((pairs_text before).length+w.length+1) NUL =
        some (pairs_text before ++ (w ++ NUL :: NUL :: left)) := by
      have later := put_place (pairs_text before ++ (w ++ [NUL])) x left NUL
      simpa [add_assoc] using later
    refine ⟨pairs_text before ++ (w ++ NUL :: NUL :: left),?_,⟨kept,left,?_,by simp⟩,?_⟩
    · rw [more]
      rw [← line,← length_append] at moved
      simp only [bind_eq_bind,bind_some,if_neg going,moved,last_put]
    · rw [pairs_text_append,textIs]
      simp
    · rw [line]
      simp only [length_append,length_cons] at length ⊢
      omega

theorem end_place {es : List (Str × Str)} (ended : Ended data es) :
    ∃ env, double_at data (data.length+1) 0 = some env ∧ (if env > 0 then env+1 else env) = (pairs_text es).length := by
  obtain ⟨entries,pad,rfl,last⟩ := ended
  cases es with
  | nil =>
    obtain ⟨rest,rfl⟩ : ∃ rest, pad = NUL :: rest := by
      cases pad with
      | nil => exact absurd (last rfl) (by simp)
      | cons d rest => exact ⟨rest,by rw [Option.some.inj (last rfl)]⟩
    exact ⟨0,by simp [pairs_text,double_at],rfl⟩
  | cons pair es =>
    obtain ⟨w,textIs,single⟩ := text_ends entries (show pair :: es ≠ [] by simp)
    have line : pairs_text (pair :: es) ++ NUL :: pad = w ++ NUL :: NUL :: pad := by
      rw [textIs]
      simp
    have found := double_at_place single [] pad (show w.length < (w ++ NUL :: NUL :: pad).length+1 by simp)
    have large : 0 < w.length := by
      have size := congrArg List.length textIs
      rw [pairs_text_cons] at size
      simp only [pair_text,length_append,length_cons,length_nil] at size
      omega
    refine ⟨w.length,?_,?_⟩
    · rw [line]
      simpa using found
    · rw [if_pos large,textIs]
      simp

/-- A definition is added at the end of a block, if there is room for it. -/
theorem append_entry {es : List (Str × Str)} (ended : Ended data es) {name value : Str} (entry : Entry (name,value))
    (short : name.length+value.length+3 ≤ intMax) :
    Full data.length es name value ∧ append data name value = some (data,-1) ∨
      ¬Full data.length es name value ∧ ∃ after, append data name value = some (after,0) ∧ Ended after (es ++ [(name,value)]) ∧
        after.length = data.length := by
  obtain ⟨env,found,place⟩ := end_place ended
  obtain ⟨entries,pad,dataIs,-⟩ := ended
  have len : wrap (wrap (name.length+2)+value.length+1) = (name.length+value.length+3 : ℕ) := by
    have first_len : wrap ((name.length : ℤ)+2) = (name.length+2 : ℕ) := by
      rw [show (name.length : ℤ)+2 = (name.length+2 : ℕ) by push_cast; rfl]
      exact wrap_of_int (by omega)
    rw [first_len,show ((name.length+2 : ℕ) : ℤ)+value.length+1 = (name.length+value.length+3 : ℕ) by push_cast; ring]
    exact wrap_of_int short
  have inside : (pairs_text es).length < data.length := by
    rw [dataIs,length_append,length_cons]
    omega
  unfold append
  rw [found]
  simp only [bind_eq_bind,bind_some,place,len]
  by_cases full : Full data.length es name value
  · refine .inl ⟨full,?_⟩
    unfold Full at full
    rw [if_pos (by omega)]
  refine .inr ⟨full,?_⟩
  unfold Full at full
  rw [if_neg (by omega)]
  -- the bytes that are overwritten, one part for each of the four writes
  obtain ⟨room,dataIs⟩ : ∃ room, data = pairs_text es ++ room := ⟨_,dataIs⟩
  have large : name.length+value.length+3 ≤ room.length := by
    rw [dataIs,length_append] at full
    omega
  obtain ⟨a,room,rfl,a_length⟩ : ∃ a rest, room = a ++ rest ∧ a.length = name.length :=
    ⟨room.take name.length,room.drop name.length,(take_append_drop _ _).symm,by rw [length_take]; omega⟩
  rw [length_append] at large
  obtain ⟨x,room,rfl⟩ : ∃ x rest, room = x :: rest := exists_cons_of_length_pos (by omega)
  rw [length_cons] at large
  obtain ⟨b,room,rfl,b_length⟩ : ∃ b rest, room = b ++ rest ∧ b.length = value.length :=
    ⟨room.take value.length,room.drop value.length,(take_append_drop _ _).symm,by rw [length_take]; omega⟩
  rw [length_append] at large
  obtain ⟨y,room,rfl⟩ : ∃ y rest, room = y :: rest := exists_cons_of_length_pos (by omega)
  rw [length_cons] at large
  obtain ⟨z,room,rfl⟩ : ∃ z rest, room = z :: rest := exists_cons_of_length_pos (by omega)
  have named : put_all data (pairs_text es).length (name ++ [NUL]) =
      some ((pairs_text es ++ name) ++ NUL :: (b ++ y :: z :: room)) := by
    have written := @put_all_place (a ++ [x]) (name ++ [NUL]) (by simp [a_length]) (pairs_text es) (b ++ y :: z :: room)
    rw [dataIs]
    simpa using written
  have equals : put ((pairs_text es ++ name) ++ NUL :: (b ++ y :: z :: room)) ((pairs_text es).length+name.length) EQUALS =
      some ((pairs_text es ++ name) ++ EQUALS :: (b ++ y :: z :: room)) := by
    rw [← length_append]
    exact put_place _ _ _ _
  have valued : put_all ((pairs_text es ++ name) ++ EQUALS :: (b ++ y :: z :: room)) ((pairs_text es).length+name.length+1)
      (value ++ [NUL]) = some ((pairs_text es ++ name ++ EQUALS :: (value ++ [NUL])) ++ z :: room) := by
    have written := @put_all_place (b ++ [y]) (value ++ [NUL]) (by simp [b_length]) (pairs_text es ++ name ++ [EQUALS]) (z :: room)
    simpa [add_assoc] using written
  have closed : put ((pairs_text es ++ name ++ EQUALS :: (value ++ [NUL])) ++ z :: room)
      ((pairs_text es).length+name.length+1+value.length+1) NUL =
      some ((pairs_text es ++ name ++ EQUALS :: (value ++ [NUL])) ++ NUL :: room) := by
    have size : (pairs_text es).length+name.length+1+value.length+1 = (pairs_text es ++ name ++ EQUALS :: (value ++ [NUL])).length := by
      simp only [length_append,length_cons,length_nil]
      omega
    rw [size]
    exact put_place _ _ _ _
  refine ⟨(pairs_text es ++ name ++ EQUALS :: (value ++ [NUL])) ++ NUL :: room,?_,⟨?_,room,?_,by simp⟩,?_⟩
  · rw [named]
    simp only [bind_some,equals,valued,closed]
  · intro e member
    rcases mem_append.mp member with old | new
    · exact entries e old
    · rw [mem_singleton.mp new]
      exact entry
  · simp [pairs_text,pair_text]
  · rw [dataIs]
    simp only [length_append,length_cons,length_nil,a_length,b_length]
    omega

/-! ## What a call leaves -/

def dropped (es : List (Str × Str)) (name : Str) : List (Str × Str) := es.eraseP fun e => e.1 = name

/-- The entries that a request asks for. An empty value only removes. -/
def edited (es : List (Str × Str)) (name value : Str) : List (Str × Str) :=
  dropped es name ++ if value = [] then [] else [(name,value)]

/-- What `fw_env_write` may leave with its result: nothing is changed for a value that is set
    already, and an entry that is to be overwritten is gone when the new one has no room. -/
def Outcome (size : ℕ) (es : List (Str × Str)) (name value : Str) (after : List (Str × Str)) (result : Int) : Prop :=
  result = 0 ∧ after = (if value ≠ [] ∧ lookup es name = some value then es else edited es name value) ∨
  result = -1 ∧ after = es ∨
  result = -1 ∧ lookup es name ≠ none ∧ value ≠ [] ∧ Full size (dropped es name) name value ∧ after = dropped es name

theorem dropped_first {before behind : List (Str × Str)} {name value : Str} (missing : ∀ e ∈ before, e.1 ≠ name) :
    dropped (before ++ (name,value) :: behind) name = before ++ behind ∧
      lookup (before ++ (name,value) :: behind) name = some value := by
  constructor
  · rw [dropped,eraseP_append_right _ (by simpa using missing)]
    simp
  · have none_ : before.find? (fun e => decide (e.1 = name)) = none := by
      rw [find?_eq_none]
      simpa using missing
    rw [lookup,find?_append,none_]
    simp

theorem dropped_missing {es : List (Str × Str)} {name : Str} (missing : ∀ e ∈ es, e.1 ≠ name) :
    dropped es name = es ∧ lookup es name = none := by
  constructor
  · rw [dropped,eraseP_of_forall_not (by simpa using missing)]
  · rw [lookup,find?_eq_none.mpr (by simpa using missing)]
    rfl

theorem Ended.holds {es : List (Str × Str)} (ended : Ended data es) : Holds data es := by
  obtain ⟨entries,pad,dataIs,-⟩ := ended
  exact ⟨entries,pad,dataIs⟩

theorem Holds.ended {es : List (Str × Str)} (holds : Holds data es) (some_entries : es ≠ []) : Ended data es := by
  obtain ⟨entries,pad,dataIs⟩ := holds
  exact ⟨entries,pad,dataIs,fun empty => absurd empty some_entries⟩

theorem refused_some (policy : Policy) {data front rest : List UInt8} {old : Str} (dataIs : data = front ++ (old ++ NUL :: rest))
    (free : NUL ∉ old) : ∃ denied, refused policy data (.overwriting front.length) = some denied := by
  simp only [refused]
  by_cases overwr : policy.prevents .overwr
  · exact ⟨true,by rw [if_pos overwr]⟩
  rw [if_neg overwr]
  by_cases nondef : policy.prevents .nondef_overwr
  · rw [if_pos nondef,dataIs]
    exact ⟨_,strcmp_place free policy.string front rest⟩
  · exact ⟨false,by rw [if_neg nondef]⟩

/-- What a call leaves: its result, the environment, and the entries in that. -/
def Leaves (env : Environment) (es : List (Str × Str)) (name value : Str) (after : Environment) (result : Int) : Prop :=
  ∃ es', Outcome env.data.length es name value es' result ∧ after.data.length = env.data.length ∧
    Holds after.data es' ∧ (after = env ∧ es' = es ∨ after.dirty ∧ Ended after.data es')

section write
variable {env : Environment} {es : List (Str × Str)} {name value : Str} (policy : Policy)

theorem define_leaves {data : List UInt8} {rest : List (Str × Str)} (ended : Ended data rest) (length : data.length = env.data.length)
    (entry : Entry (name,value)) (short : name.length+value.length+3 ≤ intMax) (some_value : value ≠ [])
    (differs : lookup es name ≠ some value) (restIs : rest = dropped es name) (known : lookup es name ≠ none ∨ rest = es) :
    ∃ appended, append data name value = some appended ∧ Leaves env es name value ⟨appended.1,true⟩ appended.2 := by
  subst restIs
  rcases append_entry ended entry short with ⟨full,left⟩ | ⟨-,after,added,there,size⟩
  · refine ⟨_,left,dropped es name,?_,length,ended.holds,.inr ⟨rfl,ended⟩⟩
    rw [length] at full
    rcases known with found | same
    · exact .inr (.inr ⟨rfl,found,some_value,full,rfl⟩)
    · exact .inr (.inl ⟨rfl,same⟩)
  · refine ⟨_,added,_,.inl ⟨rfl,?_⟩,size.trans length,there.holds,.inr ⟨rfl,there⟩⟩
    rw [if_neg (fun both => differs both.2),edited,if_neg some_value]

/-- A call stays inside a block of entries, and leaves one. -/
theorem fw_env_write_leaves (holds : Holds env.data es) (entry : Entry (name,value)) (given : Option Str) (valueIs : given.getD [] = value)
    (short : name.length+value.length+3 ≤ intMax)
    (second : es = [] → value ≠ [] → policy.prevents .create = false → Ended env.data es) :
    ∃ after result, fw_env_write policy env name given = some (after,result) ∧ Leaves env es name value after result := by
  obtain ⟨entries,pad,dataIs⟩ := id holds
  have few : es.length < env.data.length+1 := by
    have := pairs_text_length es
    rw [dataIs,length_append]
    omega
  unfold fw_env_write
  simp only [valueIs]
  have searched := search_place entry.no_equals entry.name_ends entries [] pad 0 few
  simp only [nil_append,length_nil,zero_add,← dataIs] at searched
  rcases searched with ⟨missing,last,found⟩ | ⟨before,old,behind,rfl,missing,found⟩
  · obtain ⟨same,none_⟩ := dropped_missing missing
    rw [found]
    simp only [bind_eq_bind,bind_some,plan]
    by_cases empty : value = []
    · refine ⟨env,0,by simp [empty],es,.inl ⟨rfl,?_⟩,rfl,holds,.inl ⟨rfl,rfl⟩⟩
      simp [empty,edited,same]
    simp only [if_neg empty,reduceCtorEq,if_false,refused,bind_some]
    by_cases prevented : policy.prevents .create
    · exact ⟨env,-1,by rw [if_pos prevented],es,.inr (.inl ⟨rfl,rfl⟩),rfl,holds,.inl ⟨rfl,rfl⟩⟩
    have ended : Ended env.data es := by
      by_cases nothing : es = []
      · exact second nothing empty (by simpa using prevented)
      · exact holds.ended nothing
    obtain ⟨appended,run,leaves⟩ := @define_leaves env es name value env.data es ended rfl entry short empty
      (by rw [none_]; simp) same.symm (.inr rfl)
    refine ⟨_,_,?_,leaves⟩
    rw [if_neg prevented]
    simp only [if_true,bind_some,run]
  obtain ⟨rest,known⟩ := @dropped_first before behind name old missing
  have here : Entry (name,old) := entries (name,old) (by simp)
  obtain ⟨data,removed,ended,length⟩ := remove_entry entries pad
  rw [← dataIs] at removed length
  rw [found]
  simp only [bind_eq_bind,bind_some,plan]
  by_cases empty : value = []
  · simp only [if_pos empty,bind_some,reduceCtorEq,if_false,refused]
    by_cases prevented : policy.prevents .delete
    · exact ⟨env,-1,by rw [if_pos prevented],_,.inr (.inl ⟨rfl,rfl⟩),rfl,holds,.inl ⟨rfl,rfl⟩⟩
    · refine ⟨⟨data,true⟩,0,?_,before ++ behind,.inl ⟨rfl,?_⟩,length,ended.holds,.inr ⟨rfl,ended⟩⟩
      · rw [if_neg prevented,removed,bind_some]
      · simp [empty,edited,rest]
  have place : env.data = (pairs_text before ++ (name ++ [EQUALS])) ++ (old ++ NUL :: (pairs_text behind ++ NUL :: pad)) := by
    rw [dataIs,pairs_text_append,pairs_text_cons]
    simp [pair_text]
  have start : (pairs_text before).length+name.length+1 = (pairs_text before ++ (name ++ [EQUALS])).length := by
    simp only [length_append,length_cons,length_nil]
    omega
  have compared : strcmp env.data ((pairs_text before).length+name.length+1) (value ++ [NUL]) = some (decide (old ≠ value)) := by
    rw [place,start]
    exact strcmp_place here.value_ends entry.value_ends _ _
  simp only [if_neg empty,compared,bind_some]
  by_cases same : old = value
  · refine ⟨env,0,by simp [same],_,.inl ⟨rfl,?_⟩,rfl,holds,.inl ⟨rfl,rfl⟩⟩
    rw [if_pos ⟨empty,known.trans (congrArg some same)⟩]
  obtain ⟨denied,checked⟩ := refused_some policy place here.value_ends
  rw [← start] at checked
  simp only [same,ne_eq,not_false_eq_true,decide_true,if_true,reduceCtorEq,if_false,checked,bind_some]
  by_cases no : denied
  · exact ⟨env,-1,by rw [if_pos no],_,.inr (.inl ⟨rfl,rfl⟩),rfl,holds,.inl ⟨rfl,rfl⟩⟩
  · obtain ⟨appended,run,leaves⟩ := @define_leaves env (before ++ (name,old) :: behind) name value data (before ++ behind)
      ended length entry short empty (by rw [known]; simpa using same) rest.symm (.inl (by rw [known]; simp))
    refine ⟨_,_,?_,leaves⟩
    rw [if_neg no,removed]
    simp only [bind_some,run]

end write

/-! ## `fw_env_set` -/

theorem joined_ends {value : Option Str} {valv : List Str} (start : NUL ∉ value.getD []) (args : ∀ val ∈ valv, NUL ∉ val) :
    NUL ∉ (joined value valv).getD [] := by
  induction valv generalizing value with
  | nil =>
    cases value with
    | none | some value => exact start
  | cons val valv ih =>
    have here := args val mem_cons_self
    have others : ∀ v ∈ valv, NUL ∉ v := fun v member => args v (mem_cons_of_mem _ member)
    cases value with
    | none => exact @ih (some val) here others
    | some value =>
      apply @ih (some (value ++ BLANK :: val)) _ others
      intro member
      rcases mem_append.mp member with inside | inside
      · exact start inside
      · rcases mem_cons.mp inside with blank | later
        · exact absurd blank (by decide)
        · exact here later

def Once (es : List (Str × Str)) (name : Str) : Prop := (es.filter fun e => e.1 = name).length ≤ 1

theorem lookup_dropped {es : List (Str × Str)} {name : Str} (once : Once es name) : lookup (dropped es name) name = none := by
  rw [lookup,map_eq_none_iff,find?_eq_none]
  intro e member same
  by_cases known : ∃ a ∈ es, a.1 = name
  · obtain ⟨a,inside,named⟩ := known
    obtain ⟨b,before,behind,others,bIs,whole,left⟩ := exists_of_eraseP (p := fun e : Str × Str => decide (e.1 = name)) inside (by simpa using named)
    have left_in : e ∈ (dropped es name).filter fun e => decide (e.1 = name) := mem_filter.mpr ⟨member,same⟩
    unfold Once at once
    rw [dropped,left] at left_in
    rw [whole,filter_append,filter_cons,if_pos bIs,length_append,length_cons] at once
    have none_left := length_pos_of_mem left_in
    rw [filter_append,length_append] at none_left
    omega
  · have missing : ∀ a ∈ es, a.1 ≠ name := fun a inside named => known ⟨a,inside,named⟩
    rw [(dropped_missing missing).1] at member
    exact missing e member (by simpa using same)

theorem lookup_edited {es : List (Str × Str)} {name value : Str} (once : Once es name) :
    lookup (edited es name value) name = if value = [] then none else some value := by
  have gone := lookup_dropped once
  rw [lookup,map_eq_none_iff] at gone
  rw [lookup,edited,find?_append,gone]
  by_cases empty : value = []
  · simp [empty]
  · simp [empty]

/-- The environment has the value, none for an empty one, and is what is written back. -/
def Requested (call : Call) (env : Environment) (name value : Str) : Prop :=
  (∃ es, Holds env.data es ∧ lookup es name = if value = [] then none else some value) ∧
    (env.dirty → call.flash_io env.data = true)

theorem fw_env_set_requested {env : Environment} {es : List (Str × Str)} {name value : Str} {call : Call} {valv : List Str}
    {written : Environment} {final : Option Environment}
    (opened : call.opened = some env) (once : Once es name) (leaves : Leaves env es name value written 0)
    (wrote : fw_env_write call.policy env name (joined none valv) = some (written,0))
    (set : fw_env_set call (name :: valv) = some (final,0)) : final = some written ∧ Requested call written name value := by
  simp only [fw_env_set,opened] at set
  by_cases valid : call.valid
  · simp only [valid,Bool.not_true,Bool.false_eq_true,if_false,wrote,bind_eq_bind,bind_some,Option.some.injEq,
      Prod.mk.injEq] at set
    obtain ⟨finalIs,flushed⟩ := set
    obtain ⟨es',outcome,-,holds,-⟩ := leaves
    refine ⟨finalIs.symm,⟨es',holds,?_⟩,?_⟩
    · rcases outcome with ⟨-,afterIs⟩ | ⟨failed,-⟩ | ⟨failed,-⟩
      · rw [afterIs]
        by_cases same : value ≠ [] ∧ lookup es name = some value
        · rw [if_pos same,if_neg same.1,same.2]
        · rw [if_neg same,lookup_edited once]
      · exact absurd failed (by decide)
      · exact absurd failed (by decide)
    · intro dirty
      unfold fw_env_flush at flushed
      rw [dirty] at flushed
      by_cases stored : call.flash_io written.data
      · exact stored
      · simp [stored] at flushed
  · simp [valid] at set

/-- A call of `fw_env_write` on a block of entries stays inside it and leaves what its result
    says; a call of `fw_env_set` in which it returns 0 returns 0 only if the environment has
    the value. -/
theorem setenv_edits {env : Environment} {es : List (Str × Str)} {name : Str} (holds : Holds env.data es)
    (no_equals : EQUALS ∉ name) (name_ends : NUL ∉ name) :
    (∀ policy given, NUL ∉ given.getD [] → name.length+(given.getD []).length+3 ≤ intMax →
      (es = [] → given.getD [] ≠ [] → policy.prevents .create = false → Ended env.data es) →
      ∃ after result, fw_env_write policy env name given = some (after,result) ∧ Leaves env es name (given.getD []) after result) ∧
    ∀ call valv, call.opened = some env → (∀ val ∈ valv, NUL ∉ val) →
      name.length+((joined none valv).getD []).length+3 ≤ intMax →
      (es = [] → (joined none valv).getD [] ≠ [] → call.policy.prevents .create = false → Ended env.data es) → Once es name →
      ∀ written final, fw_env_write call.policy env name (joined none valv) = some (written,0) →
        fw_env_set call (name :: valv) = some (final,0) →
        final = some written ∧ Requested call written name ((joined none valv).getD []) := by
  constructor
  · intro policy given value_ends short second
    exact fw_env_write_leaves policy holds ⟨no_equals,name_ends,value_ends⟩ given rfl short second
  · intro call valv opened args short second once written final wrote set
    have value_ends : NUL ∉ (joined none valv).getD [] := joined_ends (by simp) args
    obtain ⟨after,result,run,leaves⟩ :=
      fw_env_write_leaves call.policy holds ⟨no_equals,name_ends,value_ends⟩ (joined none valv) rfl short second
    rw [wrote] at run
    obtain ⟨rfl,rfl⟩ : written = after ∧ (0 : ℤ) = result := by simpa using run
    exact fw_env_set_requested opened once leaves wrote set

/-- The entries `a=1` and `b=2` in a block of ten bytes. -/
def small : Environment := ⟨[97,61,49,0,98,61,50,0,0,0],false⟩

theorem small_holds : Holds small.data [([97],[49]),([98],[50])] := by
  refine ⟨?_,[0],rfl⟩
  intro e member
  simp only [mem_cons,not_mem_nil,or_false] at member
  rcases member with rfl | rfl
  all_goals exact ⟨by decide,by decide,by decide⟩

def open_policy : Policy := ⟨fun _ => false,none,by simp⟩

def small_call : Call := ⟨some small,true,open_policy,fun _ => true⟩

theorem small_edits :
    (∃ after result, fw_env_write open_policy small [98] (some [51]) = some (after,result) ∧
      Leaves small [([97],[49]),([98],[50])] [98] [51] after result) ∧
    Requested small_call ⟨[97,61,49,0,98,61,51,0,0,0],true⟩ [98] [51] := by
  constructor
  · exact (@setenv_edits small _ [98] small_holds (by decide) (by decide)).1 open_policy (some [51]) (by decide)
      (by decide) (by simp)
  · exact ((@setenv_edits small _ [98] small_holds (by decide) (by decide)).2 small_call [[51]] rfl (by decide)
      (by decide) (by simp) (by simp [Once]) ⟨[97,61,49,0,98,61,51,0,0,0],true⟩ (some ⟨[97,61,49,0,98,61,51,0,0,0],true⟩)
      (by decide) (by decide)).2

/-- A value that is set already is not moved to the end, and a definition that has no room
    takes the old one with it. -/
theorem same_value_stays :
    fw_env_write open_policy small [97] (some [49]) = some (small,0) ∧ ¬Holds small.data [([98],[50]),([97],[49])] ∧
    fw_env_write open_policy small [97] (some [49,50,51,52]) = some (⟨[98,61,50,0,0,61,50,0,0,0],true⟩,-1) ∧
    ¬Holds [98,61,50,0,0,61,50,0,0,0] [([97],[49]),([98],[50])] := by
  refine ⟨by decide,?_,by decide,?_⟩
  · rintro ⟨-,pad,dataIs⟩
    simp [small,pairs_text,pair_text] at dataIs
  · rintro ⟨-,pad,dataIs⟩
    simp [pairs_text,pair_text] at dataIs

end UBoot.FwEnvBlock
