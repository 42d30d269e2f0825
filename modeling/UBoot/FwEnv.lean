import UBoot.EnvText

/-!
The environment as the tools see it, `tools/env/fw_env.c`: the text is searched and changed in
place, without a table. On a text of pairs whose names can be read back and whose values have no
backslash a search finds what U-Boot finds after the import, and a change leaves such a text.
-/
namespace UBoot.FwEnv
open UBoot.OpenAddressing UBoot.Hashtable UBoot.EnvText List Option

/-- `envmatch`: the value of the string `s2` if the names match. A name that is itself a pair
    matches up to its equals sign. Two strings that are equal have no value. -/
def envmatch : Str → Str → Option Str
  | [], d :: s2 => if d = EQUALS then some s2 else none
  | c :: s1, d :: s2 => if c = d then if c = EQUALS then some s2 else envmatch s1 s2 else none
  | _, [] => none

/-- The loop of `fw_getenv`, for so many rounds. -/
def getenv_from (name : Str) : ℕ → List UInt8 → Option Str
  | 0, _ => none
  | rounds+1, env =>
    if first env = NUL then none
    else
      let nxt := env.dropWhile (· ≠ NUL)
      -- the environment is not terminated
      if nxt = [] then none
      else
        match envmatch name (env.takeWhile (· ≠ NUL)) with
        | some val => some val
        | none => getenv_from name rounds (nxt.drop 1)

def fw_getenv (data : List UInt8) (name : Str) : Option Str := getenv_from name (data.length+1) data

/-- Where the search of `fw_env_write` ends: what stands before the string, the value in it,
    and what stands behind its terminator. -/
inductive Search where
  | unterminated
  | missing
  | found (before : List UInt8) (oldval : Str) (after : List UInt8)

def search_from (name : Str) : ℕ → List UInt8 → List UInt8 → Search
  | 0, _, _ => .unterminated
  | rounds+1, before, env =>
    if first env = NUL then .missing
    else
      let nxt := env.dropWhile (· ≠ NUL)
      if nxt = [] then .unterminated
      else
        match envmatch name (env.takeWhile (· ≠ NUL)) with
        | some oldval => .found before oldval (nxt.drop 1)
        | none => search_from name rounds (before ++ (env.takeWhile (· ≠ NUL) ++ [NUL])) (nxt.drop 1)

/-- The bytes up to the first terminator that is followed by another one. -/
def upto_double : List UInt8 → List UInt8
  | [] => []
  | c :: rest => if c = NUL ∧ first rest = NUL then [c] else c :: upto_double rest

def moved (after : List UInt8) : List UInt8 := if first after = NUL then [NUL] else upto_double after

/-- The text without the string between `before` and `after`; the bytes behind its new end
    stay as they are. -/
def removed (data before after : List UInt8) : List UInt8 :=
  before ++ moved after ++ NUL :: data.drop (before.length+(moved after).length+1)

def double_at : List UInt8 → ℕ
  | [] => 0
  | c :: rest => if c = NUL ∧ first rest = NUL then 0 else double_at rest+1

/-- The end of `fw_env_write`: a new definition, unless there is no room for it. -/
def appended (data : List UInt8) (name value : Str) : List UInt8 :=
  let env := if double_at data > 0 then double_at data+1 else 0
  let len := name.length+2+(value.length+1)
  if len > data.length-env then data
  else data.take env ++ (name ++ EQUALS :: (value ++ [NUL,NUL])) ++ data.drop (env+len)

/-- A call of `fw_env_write`, with the answer of the checks for permission. -/
structure Request where
  name : Str
  value : Option Str
  denied : Bool

/-- The environment in memory: its text and whether it differs from what is stored. -/
structure Environment where
  data : List UInt8
  dirty : Bool
deriving DecidableEq

def fw_env_write (env : Environment) (req : Request) : Environment :=
  let value := req.value.getD []
  match search_from req.name (env.data.length+1) [] env.data with
  | .unterminated => env
  | .missing =>
    if value = [] then env
    else if req.denied then env
    else ⟨appended env.data req.name value,true⟩
  | .found before oldval after =>
    if value = [] then
      if req.denied then env else ⟨removed env.data before after,true⟩
    else if oldval = value then env
    else if req.denied then env
    else ⟨appended (removed env.data before after) req.name value,true⟩

/-! ## Texts -/

structure PlainPair (pair : Str × Str) : Prop where
  key : GoodKey NUL pair.1
  data : GoodData pair.2
  unescaped : BACKSLASH ∉ pair.2

def pair_text (pair : Str × Str) : List UInt8 := pair.1 ++ EQUALS :: (pair.2 ++ [NUL])

def pairs_text (pairs : List (Str × Str)) : List UInt8 := pairs.flatMap pair_text

/-- The text of pairs, each name once, with a terminator behind it. -/
structure PlainText (data : List UInt8) (pairs : List (Str × Str)) : Prop where
  plain : ∀ pair ∈ pairs, PlainPair pair
  once : (pairs.map Prod.fst).Nodup
  text : ∃ pad, data = pairs_text pairs ++ NUL :: pad ∧ (pairs = [] → pad.head? = some NUL)

def lookup (pairs : List (Str × Str)) (name : Str) : Option Str := (pairs.find? (·.1 = name)).map (·.2)

theorem envmatch_pair {name key : Str} (value : Str) (no_pair : EQUALS ∉ name) (plain : EQUALS ∉ key) :
    envmatch name (key ++ EQUALS :: value) = if name = key then some value else none := by
  induction name generalizing key with
  | nil =>
    cases key with
    | nil => simp [envmatch]
    | cons d key =>
      have differ : d ≠ EQUALS := fun same => plain (same ▸ mem_cons_self)
      simp [envmatch,differ]
  | cons c name ih =>
    have here : c ≠ EQUALS := fun same => no_pair (same ▸ mem_cons_self)
    cases key with
    | nil => simp [envmatch,here]
    | cons d key =>
      have later : envmatch name (key ++ EQUALS :: value) = if name = key then some value else none :=
        ih (fun member => no_pair (mem_cons_of_mem c member)) (fun member => plain (mem_cons_of_mem d member))
      rw [cons_append,envmatch,later]
      by_cases same : c = d
      · subst same
        simp [here]
      · simp [same]

section pair
variable {pair : Str × Str} (plain : PlainPair pair) (rest : List UInt8)
include plain

theorem pair_plain : ∀ c ∈ pair.1 ++ EQUALS :: pair.2, c ≠ NUL := by
  intro c member
  rcases mem_append.mp member with inside | inside
  · exact (plain.key.plain c inside).2.1
  · rcases mem_cons.mp inside with rfl | later
    · decide
    · exact plain.data.plain c later

theorem no_equals : EQUALS ∉ pair.1 := fun member => (plain.key.plain _ member).1 rfl

theorem pair_first : first (pair_text pair ++ rest) ≠ NUL := by
  cases keyIs : pair.1 with
  | nil => exact absurd keyIs plain.key.named
  | cons c key =>
    have := (plain.key.plain c (by rw [keyIs]; exact mem_cons_self)).2.1
    simpa [pair_text,keyIs,first] using this

theorem pair_take : (pair_text pair ++ rest).takeWhile (· ≠ NUL) = pair.1 ++ EQUALS :: pair.2 := by
  have split : pair_text pair ++ rest = (pair.1 ++ EQUALS :: pair.2) ++ NUL :: rest := by simp [pair_text]
  rw [split,takeWhile_append_of_pos (by simpa using pair_plain plain)]
  simp

theorem pair_drop : (pair_text pair ++ rest).dropWhile (· ≠ NUL) = NUL :: rest := by
  have split : pair_text pair ++ rest = (pair.1 ++ EQUALS :: pair.2) ++ NUL :: rest := by simp [pair_text]
  rw [split,dropWhile_append_of_pos (by simpa using pair_plain plain)]
  simp

end pair

theorem pairs_text_length (pairs : List (Str × Str)) : pairs.length ≤ (pairs_text pairs).length := by
  unfold pairs_text
  induction pairs with
  | nil => simp
  | cons pair pairs ih =>
    rw [flatMap_cons,length_append,length_cons]
    have : 0 < (pair_text pair).length := by simp [pair_text]
    omega

theorem getenv_pairs {name : Str} (no_pair : EQUALS ∉ name) {pairs : List (Str × Str)} (plain : ∀ pair ∈ pairs, PlainPair pair)
    (pad : List UInt8) {rounds : ℕ} (enough : pairs.length < rounds) :
    getenv_from name rounds (pairs_text pairs ++ NUL :: pad) = lookup pairs name := by
  induction pairs generalizing rounds with
  | nil =>
    obtain ⟨more,rfl⟩ : ∃ more, rounds = more+1 := ⟨rounds-1,by simp at enough; omega⟩
    simp [pairs_text,getenv_from,first,lookup]
  | cons pair pairs ih =>
    obtain ⟨more,rfl⟩ : ∃ more, rounds = more+1 := ⟨rounds-1,by simp at enough; omega⟩
    have here := plain pair mem_cons_self
    have split : pairs_text (pair :: pairs) ++ NUL :: pad = pair_text pair ++ (pairs_text pairs ++ NUL :: pad) := by
      simp [pairs_text]
    have later : getenv_from name more (pairs_text pairs ++ NUL :: pad) = lookup pairs name :=
      ih (fun p member => plain p (mem_cons_of_mem _ member)) (by simp at enough; omega)
    rw [split,getenv_from,if_neg (pair_first here _)]
    simp only [pair_drop here,pair_take here,envmatch_pair _ no_pair (no_equals here),drop_succ_cons,drop_zero,later]
    by_cases same : name = pair.1
    · simp [same,lookup]
    · simp [same,lookup,Ne.symm same]

/-- A name that is no pair is looked up in the text. -/
theorem fw_getenv_text {data : List UInt8} {pairs : List (Str × Str)} (text : PlainText data pairs) {name : Str}
    (no_pair : EQUALS ∉ name) : fw_getenv data name = lookup pairs name := by
  obtain ⟨pad,rfl,-⟩ := text.text
  have short := pairs_text_length pairs
  exact getenv_pairs no_pair text.plain pad (by rw [length_append]; omega)

/-! ## Changes -/

def without (pairs : List (Str × Str)) (name : Str) : List (Str × Str) := pairs.filter (·.1 ≠ name)

theorem pairs_text_append (front back : List (Str × Str)) : pairs_text (front ++ back) = pairs_text front ++ pairs_text back := by
  simp [pairs_text]

theorem search_pairs {name : Str} (no_pair : EQUALS ∉ name) {pairs : List (Str × Str)} (plain : ∀ pair ∈ pairs, PlainPair pair)
    (pad before : List UInt8) {rounds : ℕ} (enough : pairs.length < rounds) :
    search_from name rounds before (pairs_text pairs ++ NUL :: pad) = .missing ∧ (∀ pair ∈ pairs, pair.1 ≠ name) ∨
    ∃ front value back, pairs = front ++ (name,value) :: back ∧ (∀ pair ∈ front, pair.1 ≠ name) ∧
      search_from name rounds before (pairs_text pairs ++ NUL :: pad) =
        .found (before ++ pairs_text front) value (pairs_text back ++ NUL :: pad) := by
  induction pairs generalizing rounds before with
  | nil =>
    obtain ⟨more,rfl⟩ : ∃ more, rounds = more+1 := ⟨rounds-1,by simp at enough; omega⟩
    left
    simp [pairs_text,search_from,first]
  | cons pair pairs ih =>
    obtain ⟨more,rfl⟩ : ∃ more, rounds = more+1 := ⟨rounds-1,by simp at enough; omega⟩
    have here := plain pair mem_cons_self
    have split : pairs_text (pair :: pairs) ++ NUL :: pad = pair_text pair ++ (pairs_text pairs ++ NUL :: pad) := by
      simp [pairs_text]
    have whole : pair.1 ++ EQUALS :: pair.2 ++ [NUL] = pair_text pair := by simp [pair_text]
    rw [split,search_from,if_neg (pair_first here _)]
    simp only [pair_drop here,pair_take here,envmatch_pair _ no_pair (no_equals here),drop_succ_cons,drop_zero,
      reduceCtorEq,if_false,whole]
    by_cases same : name = pair.1
    · right
      refine ⟨[],pair.2,pairs,by simp [same],by simp,?_⟩
      simp [same,pairs_text]
    simp only [same,if_false]
    rcases ih (fun p member => plain p (mem_cons_of_mem _ member)) (before ++ pair_text pair)
      (show pairs.length < more by simp at enough; omega) with ⟨missing,none_⟩ | ⟨front,value,back,rfl,none_,found⟩
    · left
      refine ⟨missing,?_⟩
      rintro p member
      rcases mem_cons.mp member with rfl | later
      · exact Ne.symm same
      · exact none_ p later
    · right
      refine ⟨pair :: front,value,back,rfl,?_,?_⟩
      · rintro p member
        rcases mem_cons.mp member with rfl | later
        · exact Ne.symm same
        · exact none_ p later
      · rw [found]
        simp [pairs_text]

theorem upto_double_pairs {pairs : List (Str × Str)} (plain : ∀ pair ∈ pairs, PlainPair pair) (some_pairs : pairs ≠ [])
    (pad : List UInt8) : upto_double (pairs_text pairs ++ NUL :: pad) = pairs_text pairs ∧
      double_at (pairs_text pairs ++ NUL :: pad)+1 = (pairs_text pairs).length := by
  have line : ∀ (front rest : List UInt8), (∀ c ∈ front, c ≠ NUL) →
      upto_double (front ++ rest) = front ++ upto_double rest ∧ double_at (front ++ rest) = front.length+double_at rest := by
    intro front rest free
    induction front with
    | nil => simp
    | cons c front ih =>
      have here := free c mem_cons_self
      obtain ⟨upto,place⟩ := ih fun d member => free d (mem_cons_of_mem _ member)
      simp only [cons_append,upto_double,double_at,here,false_and,if_false,upto,place,length_cons,true_and]
      omega
  induction pairs with
  | nil => exact absurd rfl some_pairs
  | cons pair pairs ih =>
    have here := plain pair mem_cons_self
    have split : pairs_text (pair :: pairs) ++ NUL :: pad =
        (pair.1 ++ EQUALS :: pair.2) ++ NUL :: (pairs_text pairs ++ NUL :: pad) := by simp [pairs_text,pair_text]
    have text : pairs_text (pair :: pairs) = (pair.1 ++ EQUALS :: pair.2) ++ NUL :: pairs_text pairs := by
      simp [pairs_text,pair_text]
    obtain ⟨upto,place⟩ := line (pair.1 ++ EQUALS :: pair.2) (NUL :: (pairs_text pairs ++ NUL :: pad)) (pair_plain here)
    rw [split,upto,place,text]
    cases pairs with
    | nil =>
      simp [pairs_text,upto_double,double_at,first]
      omega
    | cons other pairs =>
      have next := plain other (by simp)
      have more : first (pairs_text (other :: pairs) ++ NUL :: pad) ≠ NUL := by
        have := pair_first next (pairs_text pairs ++ NUL :: pad)
        simpa [pairs_text] using this
      obtain ⟨upto_rest,place_rest⟩ := ih (fun p member => plain p (mem_cons_of_mem _ member)) (by simp)
      rw [upto_double,double_at,if_neg (by simp [more]),if_neg (by simp [more]),upto_rest]
      refine ⟨rfl,?_⟩
      simp only [length_append,length_cons] at place_rest ⊢
      omega

theorem removed_pairs {front back : List (Str × Str)} {pair : Str × Str} (plain : ∀ p ∈ front ++ pair :: back, PlainPair p)
    (pad : List UInt8) :
    ∃ left, removed (pairs_text (front ++ pair :: back) ++ NUL :: pad) (pairs_text front) (pairs_text back ++ NUL :: pad) =
      pairs_text (front ++ back) ++ NUL :: left ∧ (front ++ back = [] → left.head? = some NUL) ∧
      (pairs_text (front ++ back) ++ NUL :: left).length = (pairs_text (front ++ pair :: back) ++ NUL :: pad).length := by
  have large : 3 ≤ (pair_text pair).length := by
    have named := length_pos_iff.mpr (plain pair (by simp)).key.named
    simp only [pair_text,length_append,length_cons]
    omega
  have whole : pairs_text (front ++ pair :: back) = pairs_text front ++ (pair_text pair ++ pairs_text back) := by
    simp [pairs_text]
  unfold removed moved
  cases back with
  | nil =>
    rw [if_pos (by simp [pairs_text,first])]
    refine ⟨NUL :: (pairs_text (front ++ [pair]) ++ NUL :: pad).drop ((pairs_text front).length+1+1),by simp,fun _ => rfl,?_⟩
    rw [whole]
    simp only [append_nil,length_append,length_cons,length_drop]
    omega
  | cons other back =>
    have next := plain other (by simp)
    have more : first (pairs_text (other :: back) ++ NUL :: pad) ≠ NUL := by
      have := pair_first next (pairs_text back ++ NUL :: pad)
      simpa [pairs_text] using this
    obtain ⟨upto,-⟩ := @upto_double_pairs (other :: back) (fun p member => plain p (by simp at member ⊢; tauto)) (by simp) pad
    rw [if_neg more,upto]
    refine ⟨(pairs_text (front ++ pair :: other :: back) ++ NUL :: pad).drop
      ((pairs_text front).length+(pairs_text (other :: back)).length+1),by rw [pairs_text_append front (other :: back)],?_,?_⟩
    · intro empty
      simp at empty
    · rw [whole,pairs_text_append front (other :: back)]
      simp only [length_append,length_cons,length_drop]
      omega

def Full (size : ℕ) (pairs : List (Str × Str)) (name value : Str) : Prop :=
  name.length+value.length+3 > size-(pairs_text pairs).length

instance (size : ℕ) (pairs : List (Str × Str)) (name value : Str) : Decidable (Full size pairs name value) :=
  inferInstanceAs (Decidable (_ > _))

theorem appended_pairs {pairs : List (Str × Str)} (plain : ∀ pair ∈ pairs, PlainPair pair) {pad : List UInt8}
    (ends : pairs = [] → pad.head? = some NUL) (name value : Str) :
    ∃ left, appended (pairs_text pairs ++ NUL :: pad) name value =
        pairs_text (if Full (pairs_text pairs ++ NUL :: pad).length pairs name value then pairs else pairs ++ [(name,value)]) ++
          NUL :: left ∧
      (pairs = [] → Full (pairs_text pairs ++ NUL :: pad).length pairs name value → left.head? = some NUL) ∧
      (appended (pairs_text pairs ++ NUL :: pad) name value).length = (pairs_text pairs ++ NUL :: pad).length := by
  have place : (if double_at (pairs_text pairs ++ NUL :: pad) > 0 then double_at (pairs_text pairs ++ NUL :: pad)+1 else 0) =
      (pairs_text pairs).length := by
    cases pairs with
    | nil =>
      obtain ⟨d,pad,rfl⟩ : ∃ d rest, pad = d :: rest := by
        cases pad with
        | nil => simp at ends
        | cons d rest => exact ⟨d,rest,rfl⟩
      have zero : d = NUL := by simpa using ends
      simp [pairs_text,double_at,first,zero]
    | cons pair pairs =>
      obtain ⟨-,place⟩ := upto_double_pairs plain (by simp) pad
      have large : 3 ≤ (pairs_text (pair :: pairs)).length := by
        have named := length_pos_iff.mpr (plain pair mem_cons_self).key.named
        simp only [pairs_text,flatMap_cons,pair_text,length_append,length_cons]
        omega
      rw [if_pos (by omega),place]
  have len : name.length+2+(value.length+1) = name.length+value.length+3 := by omega
  unfold appended
  simp only [place,len]
  by_cases full : Full (pairs_text pairs ++ NUL :: pad).length pairs name value
  · have long := full
    unfold Full at long
    simp only [if_pos full,if_pos long]
    exact ⟨pad,rfl,fun empty _ => ends empty,trivial⟩
  have fits := full
  unfold Full at fits
  simp only [if_neg full,if_neg fits]
  refine ⟨(pairs_text pairs ++ NUL :: pad).drop ((pairs_text pairs).length+(name.length+value.length+3)),?_,?_,?_⟩
  · rw [take_left]
    simp [pairs_text,pair_text]
  · intro _ impossible
    exact absurd impossible full
  · rw [take_left]
    simp only [length_append,length_cons,length_nil,length_drop] at fits ⊢
    omega

/-- The pairs with one more at the end, if there is room for it. -/
def added (size : ℕ) (pairs : List (Str × Str)) (name value : Str) : List (Str × Str) :=
  if Full size pairs name value then pairs else pairs ++ [(name,value)]

def changed (size : ℕ) (pairs : List (Str × Str)) (req : Request) : List (Str × Str) :=
  match lookup pairs req.name, req.value.getD [] with
  | none, [] => pairs
  | none, value => if req.denied then pairs else added size pairs req.name value
  | some _, [] => if req.denied then pairs else without pairs req.name
  | some oldval, value =>
    if oldval = value ∨ req.denied then pairs else added size (without pairs req.name) req.name value

/-- A request for a name that is no pair. A value that it sets can be read back. -/
structure PlainRequest (req : Request) : Prop where
  no_pair : EQUALS ∉ req.name
  plain : req.value.getD [] ≠ [] → PlainPair (req.name,req.value.getD [])

theorem without_split {front back : List (Str × Str)} {name value : Str}
    (once : ((front ++ (name,value) :: back).map Prod.fst).Nodup) :
    without (front ++ (name,value) :: back) name = front ++ back ∧ lookup (front ++ (name,value) :: back) name = some value := by
  rw [map_append,map_cons,nodup_append] at once
  obtain ⟨-,second,apart⟩ := once
  have before : ∀ pair ∈ front, pair.1 ≠ name := by
    intro pair member same
    exact apart pair.1 (List.mem_map_of_mem member) name mem_cons_self same
  have behind : ∀ pair ∈ back, pair.1 ≠ name := by
    intro pair member same
    exact (nodup_cons.mp second).1 (List.mem_map.mpr ⟨pair,member,same⟩)
  have missing : front.find? (fun pair => decide (pair.1 = name)) = none := by
    rw [find?_eq_none]
    intro pair member
    simpa using before pair member
  constructor
  · rw [without,filter_append,filter_cons,filter_eq_self.mpr (by simpa using before),
      filter_eq_self.mpr (by simpa using behind)]
    simp
  · rw [lookup,find?_append,missing]
    simp

section changes
variable {data : List UInt8} {pairs : List (Str × Str)}

theorem PlainText.added_text (text : PlainText data pairs) {name value : Str} (plain : PlainPair (name,value))
    (fresh : ∀ pair ∈ pairs, pair.1 ≠ name) :
    PlainText (appended data name value) (added data.length pairs name value) ∧ (appended data name value).length = data.length := by
  obtain ⟨pad,rfl,ends⟩ := text.text
  obtain ⟨left,textIs,last,length⟩ := appended_pairs text.plain ends name value
  refine ⟨?_,length⟩
  rw [textIs]
  unfold added
  by_cases full : Full (pairs_text pairs ++ NUL :: pad).length pairs name value
  · rw [if_pos full]
    exact ⟨text.plain,text.once,left,rfl,fun empty => last empty full⟩
  rw [if_neg full]
  refine ⟨?_,?_,left,rfl,by simp⟩
  · intro pair member
    rcases mem_append.mp member with inside | new
    · exact text.plain pair inside
    · rw [mem_singleton.mp new]
      exact plain
  · rw [map_append,nodup_append]
    refine ⟨text.once,by simp,?_⟩
    intro key member other new same
    obtain ⟨pair,inside,rfl⟩ := List.mem_map.mp member
    simp only [map_cons,map_nil,mem_singleton] at new
    exact fresh pair inside (same.trans new)

/-- The two outcomes of the search in a text. -/
theorem PlainText.searched (text : PlainText data pairs) {name : Str} (no_pair : EQUALS ∉ name) :
    search_from name (data.length+1) [] data = .missing ∧ lookup pairs name = none ∧ (∀ pair ∈ pairs, pair.1 ≠ name) ∨
    ∃ before value after, search_from name (data.length+1) [] data = .found before value after ∧ lookup pairs name = some value ∧
      PlainText (removed data before after) (without pairs name) ∧ (removed data before after).length = data.length := by
  obtain ⟨pad,rfl,-⟩ := text.text
  have short := pairs_text_length pairs
  rcases search_pairs no_pair text.plain pad [] (show pairs.length < (pairs_text pairs ++ NUL :: pad).length+1 by
      rw [length_append]
      omega) with ⟨missing,none_⟩ | ⟨front,value,back,rfl,-,found⟩
  · refine .inl ⟨missing,?_,none_⟩
    rw [lookup,find?_eq_none.mpr (by simpa using none_)]
    rfl
  obtain ⟨others,known⟩ := without_split text.once
  obtain ⟨left,textIs,last,length⟩ := removed_pairs text.plain pad
  refine .inr ⟨_,_,_,found,known,?_,?_⟩
  · rw [others,nil_append,textIs]
    refine ⟨fun pair member => text.plain pair (by simp at member ⊢; tauto),?_,left,rfl,last⟩
    have once := text.once
    rw [map_append,map_cons,nodup_middle] at once
    rw [map_append]
    exact (nodup_cons.mp once).2
  · rw [nil_append,textIs,length]

theorem without_fresh (name : Str) : ∀ pair ∈ without pairs name, pair.1 ≠ name := by
  intro pair member
  simpa using (mem_filter.mp member).2

theorem fw_env_write_text {dirty : Bool} (text : PlainText data pairs) {req : Request} (plain : PlainRequest req) :
    PlainText (fw_env_write ⟨data,dirty⟩ req).data (changed data.length pairs req) ∧
      (fw_env_write ⟨data,dirty⟩ req).data.length = data.length := by
  unfold fw_env_write changed
  have setting := plain.plain
  rcases text.searched plain.no_pair with ⟨missing,none_,fresh⟩ | ⟨before,oldval,after,found,known,rest,length⟩
  · simp only [missing,none_]
    cases valueIs : req.value.getD [] with
    | nil => exact ⟨text,rfl⟩
    | cons c value =>
      rw [valueIs] at setting
      cases req.denied with
      | true => exact ⟨text,rfl⟩
      | false => exact text.added_text (setting (by simp)) fresh
  simp only [found,known]
  cases valueIs : req.value.getD [] with
  | nil =>
    cases req.denied with
    | true => exact ⟨text,rfl⟩
    | false => exact ⟨rest,length⟩
  | cons c value =>
    rw [valueIs] at setting
    by_cases same : oldval = c :: value
    · simpa [same] using text
    · cases req.denied with
      | true => simpa [same] using text
      | false =>
        obtain ⟨new,newLength⟩ := rest.added_text (setting (by simp)) (without_fresh req.name)
        rw [length] at new newLength
        simpa [same] using ⟨new,newLength⟩

end changes

def all_changed (size : ℕ) (pairs : List (Str × Str)) (reqs : List Request) : List (Str × Str) :=
  reqs.foldl (changed size) pairs

theorem fw_env_writes_text {reqs : List Request} (plain : ∀ req ∈ reqs, PlainRequest req) {env : Environment}
    {pairs : List (Str × Str)} (text : PlainText env.data pairs) :
    PlainText (reqs.foldl fw_env_write env).data (all_changed env.data.length pairs reqs) ∧
      (reqs.foldl fw_env_write env).data.length = env.data.length := by
  induction reqs generalizing env pairs with
  | nil => exact ⟨text,rfl⟩
  | cons req reqs ih =>
    obtain ⟨here,length⟩ := @fw_env_write_text env.data pairs env.dirty text req (plain req mem_cons_self)
    obtain ⟨later,lengths⟩ := ih (fun r member => plain r (mem_cons_of_mem _ member)) here
    rw [length] at later lengths
    exact ⟨later,lengths⟩

/-! ## The table of U-Boot -/

def env_get (htab : Htab) (name : Str) : Option Str :=
  (hsearch_r htab name [] .ENV_FIND ⟨0,0⟩).bind fun found => found.retval.map fun i => (htab.at i).data

def pair_slot (pair : Str × Str) : Slot := ⟨0,pair.1,pair.2⟩

theorem escape_plain {data : Str} (plain : GoodData data) (unescaped : BACKSLASH ∉ data) : escape NUL data = data := by
  have free := plain.plain
  clear plain
  induction data with
  | nil => rfl
  | cons c data ih =>
    have here := free c mem_cons_self
    have other : c ≠ BACKSLASH := fun same => unescaped (same ▸ mem_cons_self)
    have later := ih (fun member => unescaped (mem_cons_of_mem c member)) fun d member => free d (mem_cons_of_mem c member)
    rw [escape,if_neg (by simp [here,other]),later]

theorem entry_text_plain {slot : Slot} (plain : PlainPair (slot.key,slot.data)) : entry_text NUL slot = pair_text (slot.key,slot.data) := by
  rw [entry_text,escape_plain plain.data plain.unescaped]
  rfl

theorem entries_text {slots : List Slot} (plain : ∀ slot ∈ slots, PlainPair (slot.key,slot.data)) :
    (slots.map (entry_text NUL)).flatten = pairs_text (slots.map fun slot => (slot.key,slot.data)) := by
  induction slots with
  | nil => rfl
  | cons slot slots ih =>
    have later := ih fun s member => plain s (mem_cons_of_mem _ member)
    rw [map_cons,flatten_cons,later,entry_text_plain (plain slot mem_cons_self)]
    simp [pairs_text]

/-- The table that an import makes has room for the entries. -/
def Fits (size entries : ℕ) : Prop := ∀ new, hcreate_r (table_entries size) = some new → entries ≤ new.size

/-- The table has at least as many places as it is made for. -/
theorem fits_of_le {size entries : ℕ} (few : entries ≤ table_entries size) : Fits size entries := by
  intro new created
  have small : table_entries size < 2^31 := by
    simp only [table_entries,CONFIG_ENV_MIN_ENTRIES,CONFIG_ENV_MAX_ENTRIES]
    omega
  obtain ⟨made,same,-,-,-,large⟩ := hcreate_spec small
  rw [created,some_inj] at same
  subst same
  omega

theorem hsearch_get {htab : Htab} (valid : Valid htab) {map : Str → Option Str} (represents : Represents (cells htab) map)
    (name : Str) : env_get htab name = map name := by
  have searched := hsearch_find valid name represents [] ⟨0,0⟩
  unfold env_get
  cases found : map name with
  | none =>
    rw [found] at searched
    rw [searched]
    rfl
  | some value =>
    rw [found] at searched
    obtain ⟨i,-,live,result⟩ := searched
    rw [result]
    have dataIs : (htab.at i).data = value := (cell_live.mp live).2.2.2
    simp [dataIs]

theorem lookup_entered {pairs : List (Str × Str)} (once : (pairs.map Prod.fst).Nodup) (name : Str) :
    entered (fun _ => none) (pairs.map pair_slot) name = lookup pairs name := by
  have keys : (pairs.map pair_slot).map Slot.key = pairs.map Prod.fst := by
    rw [List.map_map]
    rfl
  apply Option.ext
  intro value
  rw [entered_eq (by rw [keys]; exact once)]
  constructor
  · rintro (⟨slot,member,rfl,rfl⟩ | ⟨-,impossible⟩)
    · obtain ⟨pair,inside,rfl⟩ := List.mem_map.mp member
      obtain ⟨front,back,rfl⟩ := append_of_mem inside
      exact (without_split once).2
    · cases impossible
  · intro found
    left
    obtain ⟨pair,here,rfl⟩ := map_eq_some_iff.mp found
    have named := find?_some here
    exact ⟨pair_slot pair,List.mem_map_of_mem (mem_of_find?_eq_some here),by simpa [pair_slot] using named,rfl⟩

/-- A text is imported, and U-Boot then finds the value of every name. -/
theorem env_get_text {data : List UInt8} {pairs : List (Str × Str)} (text : PlainText data pairs) (fits : Fits data.length pairs.length)
    {policy : Policy} (accepts : Accepts policy) (old : Option Htab) :
    ∃ htab, himport_r old data NUL false false [] policy = some (1,htab) ∧ ∀ name, env_get htab name = lookup pairs name := by
  have entries : table_entries data.length < 2^31 := by
    have := Nat.min_le_right (CONFIG_ENV_MIN_ENTRIES+data.length/8) CONFIG_ENV_MAX_ENTRIES
    simp only [table_entries,CONFIG_ENV_MAX_ENTRIES] at *
    omega
  obtain ⟨new,created,newValid,empty,unfilled,-⟩ := hcreate_spec entries
  have room := fits new created
  obtain ⟨pad,dataIs,ends⟩ := text.text
  have slots : pairs_text pairs = ((pairs.map pair_slot).map (entry_text NUL)).flatten := by
    rw [entries_text]
    · rw [List.map_map]
      exact congrArg pairs_text (List.map_id pairs).symm
    · intro slot member
      obtain ⟨pair,inside,rfl⟩ := List.mem_map.mp member
      exact text.plain pair inside
  have whole : data ++ [NUL] = ((pairs.map pair_slot).map (entry_text NUL)).flatten ++ NUL :: (pad ++ [NUL]) := by
    rw [dataIs,slots]
    simp
  have prefixed : data.takeWhile (· ≠ NUL) ++ (data ++ [NUL]).drop (data.takeWhile (· ≠ NUL)).length = data ++ [NUL] := by
    have before := (data.takeWhile_prefix (p := (· ≠ NUL))).trans (prefix_append data [NUL])
    exact prefix_iff_eq_append.mp before
  have some_text : data ≠ [] := by
    rw [dataIs]
    simp
  have looped : ∃ after, import_loop NUL policy 1 (data ++ [NUL]).length (data ++ [NUL]) new [] = some (true,after,[]) ∧ Valid after ∧
      Represents (cells after) (entered (fun _ => none) (pairs.map pair_slot)) := by
    by_cases none_ : pairs = []
    · -- The first round reads an empty name and finds nothing to delete.
      subst none_
      have missing := hsearch_find newValid [] empty [] (policy [] none)
      have deleted : hdelete_r new [] (policy [] none) = some (-(ENOENT : Int),new) := by
        rw [hdelete_r,missing]
        rfl
      obtain ⟨more,rfl⟩ : ∃ more, pad = NUL :: more := by
        cases pad with
        | nil => simp at ends
        | cons d more => exact ⟨more,by simpa using ends⟩
      refine ⟨new,?_,newValid,empty⟩
      rw [whole,length_append,length_cons,← Nat.add_assoc,import_loop,import_entry]
      simp [first,isblank,NUL,HASH,EQUALS,drop_var_from_set] at deleted ⊢
      simp [deleted]
    · have short := pairs_text_length pairs
      rw [whole]
      refine import_loop_text (.inl rfl) accepts (by simpa using none_) ?_ rfl newValid empty (by simp; omega) ?_
      · intro slot member
        obtain ⟨pair,inside,rfl⟩ := List.mem_map.mp member
        exact ⟨(text.plain pair inside).key,(text.plain pair inside).data⟩
      · rw [← slots,length_append,length_map]
        omega
  obtain ⟨after,looped,afterValid,holds⟩ := looped
  refine ⟨after,?_,fun name => ?_⟩
  · rw [himport_r]
    simp only [map_nil,Bool.false_eq_true,if_false,and_self,if_true,none_or,created,some_text,prefixed,
      Nat.sub_self,Nat.add_zero]
    rw [looped]
    rfl
  · rw [hsearch_get afterValid holds name,lookup_entered text.once]

/-- A table that both sides read the same way once it is exported. -/
structure PlainTable (htab : Htab) (size : ℕ) : Prop where
  valid : Valid htab
  plain : ∀ key data, Stores htab key data → PlainPair (key,data)
  fits : Fits size (exported htab false).length

/-- The export of such a table is a text. -/
theorem hexport_plain {htab : Htab} {size : ℕ} (table : PlainTable htab size) (large : 2 ≤ size) {bytes : List UInt8}
    (block : hexport_r htab NUL false size = .block bytes) :
    bytes.length = size ∧ ∃ pairs, PlainText bytes pairs ∧ Fits size pairs.length := by
  obtain ⟨valid,plain,fits⟩ := table
  have perm : ((exported htab false).mergeSort cmpkey).Perm (exported htab false) := mergeSort_perm _ _
  have slots : ∀ slot ∈ (exported htab false).mergeSort cmpkey, PlainPair (slot.key,slot.data) := by
    intro slot member
    exact plain slot.key slot.data (exported_stores.mpr ⟨slot,perm.mem_iff.mp member,rfl,rfl⟩)
  rw [hexport_r] at block
  have sized : buffer_size htab NUL false size = size := by
    rw [buffer_size,if_pos (by omega)]
  simp only [sized,entries_text slots] at block
  by_cases small : size ≠ 0 ∧ size < totlen htab NUL false+1
  · rw [if_pos small] at block
    cases block
  rw [if_neg small] at block
  set pairs := ((exported htab false).mergeSort cmpkey).map fun slot => (slot.key,slot.data) with pairsAre
  by_cases long : size < (pairs_text pairs ++ [NUL]).length
  · rw [if_pos long] at block
    cases block
  rw [if_neg long] at block
  simp only [Export.block.injEq] at block
  subst block
  refine ⟨?_,pairs,⟨?_,?_,replicate (size-(pairs_text pairs ++ [NUL]).length) NUL,by simp,?_⟩,?_⟩
  · rw [length_append,length_replicate]
    omega
  · intro pair member
    obtain ⟨slot,inside,rfl⟩ := List.mem_map.mp member
    exact slots slot inside
  · have keys : pairs.map Prod.fst = ((exported htab false).mergeSort cmpkey).map Slot.key := by
      rw [pairsAre,List.map_map]
      rfl
    rw [keys,(perm.map Slot.key).nodup_iff]
    exact exported_keys valid
  · intro empty
    obtain ⟨more,moreIs⟩ : ∃ more, size = more+2 := ⟨size-2,by omega⟩
    simp [empty,pairs_text,moreIs,replicate_succ]
  · have same : pairs.length = (exported htab false).length := by
      rw [pairsAre,length_map,perm.length_eq]
    rw [same]
    exact fits

end UBoot.FwEnv
