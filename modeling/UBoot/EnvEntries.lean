import Mathlib.Data.List.TakeWhile
import UBoot.EnvText

/-!
The parser of `himport_r` split in two: the reading of entries, which depends on
the bytes alone, and what is done with them. An entry that ends in the text is
read the same whatever lies behind the text, so that only the last line looks
there.
-/
namespace UBoot.EnvText
open UBoot.OpenAddressing UBoot.Hashtable List Option

inductive Entry where
  | comment
  | delete (name : Str)
  | assign (name value : Str)
  /-- A value without a name, at which the import fails. -/
  | unnamed
  deriving DecidableEq, Repr

def read_behind (sep : UInt8) (name : Str) (dp : List UInt8) : Entry × List UInt8 :=
  if first dp = NUL ∨ first (dp.drop 1) = NUL ∨ first dp = sep ∨ first (dp.drop 1) = sep then
    (.delete name,if first dp = EQUALS then dp.drop 2 else dp.drop 1)
  else
    (if name = [] then .unnamed else .assign name (parse_value sep (dp.drop 1)).1,
      (parse_value sep (dp.drop 1)).2.drop 1)

/-- The entry that a block begins with, and the rest of the block. -/
def read_entry (sep : UInt8) (rest : List UInt8) : Entry × List UInt8 :=
  let dp := rest.dropWhile isblank
  if first dp = HASH then (.comment,(dp.dropWhile fun c => c ≠ NUL ∧ c ≠ sep).drop 1)
  else read_behind sep (dp.takeWhile fun c => c ≠ EQUALS ∧ c ≠ NUL ∧ c ≠ sep)
    (dp.dropWhile fun c => c ≠ EQUALS ∧ c ≠ NUL ∧ c ≠ sep)

/-- What is done with an entry: the table and the variables still to come, if
    the import goes on. No value stands for a search that does not end. -/
def act (policy : Policy) (htab : Htab) (vars : List (Option Str)) : Entry → Option (Option (Htab × List (Option Str)))
  | .comment => some (some (htab,vars))
  | .delete name =>
    if (drop_var_from_set name vars).1 then
      (hdelete_r htab name (policy name none)).map fun r => some (r.2,(drop_var_from_set name vars).2)
    else some (some (htab,(drop_var_from_set name vars).2))
  | .assign name value =>
    if (drop_var_from_set name vars).1 then
      (hsearch_r htab name value .ENV_ENTER (policy name (some value))).map fun r =>
        some (r.htab,(drop_var_from_set name vars).2)
    else some (some (htab,(drop_var_from_set name vars).2))
  | .unnamed => some none

def parsed (rest : List UInt8) (htab : Htab) : Option (Htab × List (Option Str)) → Parsed
  | none => .failed htab
  | some s => .next rest s.1 s.2

variable {rest text : List UInt8} (sep : UInt8)

/-- A round of the parser is the reading of an entry and what is done with it. -/
theorem import_entry_eq (policy : Policy) (rest : List UInt8) (htab : Htab) (vars : List (Option Str)) :
    import_entry sep policy rest htab vars =
      (act policy htab vars (read_entry sep rest).1).map (parsed (read_entry sep rest).2 htab) := by
  simp only [import_entry,read_entry,read_behind]
  generalize rest.dropWhile isblank = dp
  by_cases comment : first dp = HASH
  · rw [if_pos comment,if_pos comment]
    rfl
  rw [if_neg comment,if_neg comment]
  generalize (dp.takeWhile fun c => c ≠ EQUALS ∧ c ≠ NUL ∧ c ≠ sep) = name
  generalize (dp.dropWhile fun c => c ≠ EQUALS ∧ c ≠ NUL ∧ c ≠ sep) = dp'
  by_cases deletes : first dp' = NUL ∨ first (dp'.drop 1) = NUL ∨ first dp' = sep ∨ first (dp'.drop 1) = sep
  · simp only [if_pos deletes,act]
    by_cases wanted : (drop_var_from_set name vars).1 = true
    · simp only [if_pos wanted,Option.map_map]
      rfl
    · simp only [if_neg wanted]
      rfl
  · simp only [if_neg deletes]
    by_cases named : name = []
    · simp only [if_pos named]
      rfl
    · simp only [if_neg named,act]
      by_cases wanted : (drop_var_from_set name vars).1 = true
      · simp only [if_pos wanted,Option.map_map]
        rfl
      · simp only [if_neg wanted]
        rfl

/-- The entries that the loop reads, where `behind` bytes lie behind the block. -/
def read_entries (sep : UInt8) (behind : Nat) : Nat → List UInt8 → Option (List Entry)
  | 0, _ => none
  | rounds+1, rest =>
    if (read_entry sep rest).1 = .unnamed then some [.unnamed]
    else if behind < (read_entry sep rest).2.length ∧ first (read_entry sep rest).2 ≠ NUL then
      (read_entries sep behind rounds (read_entry sep rest).2).map fun entries => (read_entry sep rest).1 :: entries
    else some [(read_entry sep rest).1]

def act_all (policy : Policy) : List Entry → Htab → List (Option Str) → Option (Bool × Htab × List (Option Str))
  | [], htab, vars => some (true,htab,vars)
  | entry :: entries, htab, vars =>
    (act policy htab vars entry).bind fun s =>
      s.elim (some (false,htab,vars)) fun s => act_all policy entries s.1 s.2

theorem act_some (policy : Policy) (htab : Htab) (vars : List (Option Str)) {entry : Entry} (named : entry ≠ .unnamed)
    {s : Option (Htab × List (Option Str))} (acted : act policy htab vars entry = some s) : ∃ s', s = some s' := by
  have either {wanted : Prop} [Decidable wanted] {α : Type} {made : Option α} {f : α → Htab × List (Option Str)}
      {kept : Htab × List (Option Str)} (acted : (if wanted then made.map fun r => some (f r) else some (some kept)) = some s) :
      ∃ s', s = some s' := by
    by_cases yes : wanted
    · rw [if_pos yes] at acted
      obtain ⟨r,-,same⟩ := map_eq_some_iff.mp acted
      exact ⟨_,same.symm⟩
    · rw [if_neg yes] at acted
      exact ⟨_,(Option.some.inj acted).symm⟩
  cases entry with
  | comment => exact ⟨_,(Option.some.inj acted).symm⟩
  | delete name | assign name value => exact either acted
  | unnamed => exact absurd rfl named

theorem import_loop_eq {sep : UInt8} {policy : Policy} {behind rounds : Nat} {entries : List Entry}
    (read : read_entries sep behind rounds rest = some entries) (htab : Htab) (vars : List (Option Str)) :
    import_loop sep policy behind rounds rest htab vars = act_all policy entries htab vars := by
  induction rounds generalizing rest entries htab vars with
  | zero => cases read
  | succ rounds ih =>
    rw [import_loop,import_entry_eq]
    rw [read_entries] at read
    by_cases unnamed : (read_entry sep rest).1 = .unnamed
    · rw [if_pos unnamed] at read
      cases read
      rw [unnamed]
      rfl
    rw [if_neg unnamed] at read
    cases acted : act policy htab vars (read_entry sep rest).1 with
    | none =>
      by_cases more : behind < (read_entry sep rest).2.length ∧ first (read_entry sep rest).2 ≠ NUL
      · rw [if_pos more] at read
        obtain ⟨later,-,rfl⟩ := map_eq_some_iff.mp read
        rw [act_all,acted]
        rfl
      · rw [if_neg more] at read
        cases read
        rw [act_all,acted]
        rfl
    | some s =>
      obtain ⟨s',rfl⟩ := act_some policy htab vars unnamed acted
      simp only [map_some,parsed]
      by_cases more : behind < (read_entry sep rest).2.length ∧ first (read_entry sep rest).2 ≠ NUL
      · rw [if_pos more] at read
        obtain ⟨later,reads,rfl⟩ := map_eq_some_iff.mp read
        rw [if_pos more,ih reads,act_all,acted]
        rfl
      · rw [if_neg more] at read
        cases read
        rw [if_neg more,act_all,acted]
        rfl

theorem parse_value_length (rest : List UInt8) : (parse_value sep rest).2.length ≤ rest.length := by
  induction rest using parse_value.induct sep with
  | case1 => simp [parse_value]
  | case2 c stops => simp [parse_value,stops]
  | case3 c goes => simp [parse_value,goes]
  | case4 c d rest stops => simp [parse_value,stops]
  | case5 c d rest goes escaped ih =>
    rw [parse_value,if_neg goes,if_pos escaped]
    simp only [length_cons]
    omega
  | case6 c d rest goes plain ih =>
    rw [parse_value,if_neg goes,if_neg plain]
    simp only [length_cons] at ih ⊢
    omega

theorem parse_value_cases (plain : ∀ c ∈ text, c ≠ NUL) :
    (∃ value rest, rest.length < text.length ∧ (∀ c ∈ rest, c ∈ text) ∧
      ∀ tail, parse_value NEWLINE (text ++ tail) = (value,NEWLINE :: (rest ++ tail))) ∨
    ∀ tail, tail ≠ [] → (parse_value NEWLINE (text ++ tail)).2.length ≤ tail.length := by
  induction text using parse_value.induct NEWLINE with
  | case1 => exact .inr (fun tail _ => parse_value_length NEWLINE tail)
  | case2 c stops =>
    obtain rfl : c = NEWLINE := stops.resolve_left (plain c mem_cons_self)
    refine .inl ⟨[],[],by simp,by simp,fun tail => ?_⟩
    cases tail with
    | nil | cons d tail => simp [parse_value]
  | case3 c goes =>
    refine .inr (fun tail some_tail => ?_)
    obtain ⟨d,tail,rfl⟩ := exists_cons_of_ne_nil some_tail
    have short := parse_value_length NEWLINE tail
    have longer := parse_value_length NEWLINE (d :: tail)
    rw [singleton_append,parse_value,if_neg goes]
    by_cases escaped : c = BACKSLASH ∧ d ≠ NUL
    · rw [if_pos escaped]
      simp only [length_cons]
      omega
    · rw [if_neg escaped]
      exact longer
  | case4 c d text stops =>
    obtain rfl : c = NEWLINE := stops.resolve_left (plain c mem_cons_self)
    exact .inl ⟨[],d :: text,by simp,fun e member => mem_cons_of_mem _ member,fun tail => by simp [parse_value]⟩
  | case5 c d text goes escaped ih =>
    rcases ih (fun e member => plain e (by simp [member])) with ⟨value,rest,shorter,inside,read⟩ | read
    · refine .inl ⟨d :: value,rest,by simp only [length_cons]; omega,fun e member => by simp [inside e member],?_⟩
      intro tail
      rw [cons_append,cons_append,parse_value,if_neg goes,if_pos escaped,read]
    · refine .inr (fun tail some_tail => ?_)
      rw [cons_append,cons_append,parse_value,if_neg goes,if_pos escaped]
      exact read tail some_tail
  | case6 c d text goes ordinary ih =>
    rcases ih (fun e member => plain e (mem_cons_of_mem _ member)) with ⟨value,rest,shorter,inside,read⟩ | read
    · refine .inl ⟨c :: value,rest,by simp only [length_cons] at shorter ⊢; omega,
        fun e member => mem_cons_of_mem _ (inside e member),?_⟩
      intro tail
      have here := read tail
      rw [cons_append] at here
      rw [cons_append,cons_append,parse_value,if_neg goes,if_neg ordinary,here]
    · refine .inr (fun tail some_tail => ?_)
      have here := read tail some_tail
      rw [cons_append] at here
      rw [cons_append,cons_append,parse_value,if_neg goes,if_neg ordinary]
      exact here

theorem dropWhile_length (p : UInt8 → Bool) (rest : List UInt8) : (rest.dropWhile p).length ≤ rest.length :=
  (dropWhile_suffix p).length_le

theorem dropWhile_some {p : UInt8 → Bool} (stops : p NUL = false) (ends : NUL ∈ rest) :
    0 < (rest.dropWhile p).length := by
  apply length_pos_of_ne_nil
  intro none_left
  have all := dropWhile_eq_nil_iff.mp none_left NUL ends
  rw [stops] at all
  cases all

theorem read_behind_length (name : Str) {dp : List UInt8} (some_left : 0 < dp.length) :
    (read_behind sep name dp).2.length < dp.length := by
  have value := parse_value_length sep (dp.drop 1)
  rw [length_drop] at value
  rw [read_behind]
  by_cases deletes : first dp = NUL ∨ first (dp.drop 1) = NUL ∨ first dp = sep ∨ first (dp.drop 1) = sep
  · rw [if_pos deletes]
    dsimp only
    split_ifs
    · rw [length_drop]; omega
    · rw [length_drop]; omega
  · rw [if_neg deletes]
    dsimp only
    rw [length_drop]
    omega

theorem read_behind_cases (name : Str) {d : UInt8} (plain : ∀ c ∈ d :: text, c ≠ NUL)
    (ends_name : d = EQUALS ∨ d = NEWLINE) :
    (∃ entry rest, rest.length < (d :: text).length ∧ (∀ c ∈ rest, c ∈ d :: text) ∧
      ∀ tail, read_behind NEWLINE name (d :: text ++ tail) = (entry,rest ++ tail)) ∨
    ∀ tail, tail ≠ [] → (read_behind NEWLINE name (d :: text ++ tail)).2.length < tail.length := by
  rcases ends_name with rfl | rfl
  · have no_end : EQUALS ≠ NUL ∧ EQUALS ≠ NEWLINE := by decide
    cases text with
    | nil =>
      refine .inr (fun tail some_tail => ?_)
      have value := parse_value_length NEWLINE tail
      have positive := length_pos_of_ne_nil some_tail
      simp only [read_behind,singleton_append,drop_succ_cons,drop_zero,first,headD_cons,if_true]
      split_ifs
      · rw [length_drop]; omega
      · rw [length_drop]; omega
      · rw [length_drop]; omega
    | cons c text =>
      have here := plain c (by simp)
      by_cases deletes : c = NEWLINE
      · refine .inl ⟨.delete name,text,by simp only [length_cons]; omega,fun e member => by simp [member],fun tail => ?_⟩
        simp [read_behind,first,deletes]
      have goes : ∀ tail, read_behind NEWLINE name (EQUALS :: c :: text ++ tail) =
          (if name = [] then .unnamed else .assign name (parse_value NEWLINE (c :: text ++ tail)).1,
            (parse_value NEWLINE (c :: text ++ tail)).2.drop 1) := by
        intro tail
        rw [read_behind,if_neg (by simp [first,no_end,here,deletes])]
        rfl
      rcases parse_value_cases (fun e member => plain e (mem_cons_of_mem _ member)) with
        ⟨value,rest,shorter,inside,read⟩ | read
      · refine .inl ⟨if name = [] then .unnamed else .assign name value,rest,
          by simp only [length_cons] at shorter ⊢; omega,
          fun e member => mem_cons_of_mem _ (inside e member),fun tail => ?_⟩
        rw [goes tail,read tail]
        rfl
      · refine .inr (fun tail some_tail => ?_)
        have value := read tail some_tail
        have positive := length_pos_of_ne_nil some_tail
        rw [goes tail]
        dsimp only
        rw [length_drop]
        omega
  · refine .inl ⟨.delete name,text,by simp,fun c member => mem_cons_of_mem _ member,fun tail => ?_⟩
    have no_equals : NEWLINE ≠ EQUALS := by decide
    simp [read_behind,first,no_equals]

theorem read_entry_length (ends : NUL ∈ rest) :
    (read_entry sep rest).2.length < rest.length := by
  have blank := dropWhile_length isblank rest
  have there : NUL ∈ rest.dropWhile isblank := by
    have kept := takeWhile_append_dropWhile (p := isblank) (l := rest)
    rw [← kept] at ends
    rcases mem_append.mp ends with early | late
    · exact absurd (mem_takeWhile_imp early) (by decide)
    · exact late
  rw [read_entry]
  generalize rest.dropWhile isblank = dp at blank there ⊢
  by_cases comment : first dp = HASH
  · have some_left := dropWhile_some (p := fun c => c ≠ NUL ∧ c ≠ sep) (by simp) there
    have short := dropWhile_length (fun c => c ≠ NUL ∧ c ≠ sep) dp
    rw [if_pos comment]
    simp only [length_drop]
    omega
  · have some_left := dropWhile_some (p := fun c => c ≠ EQUALS ∧ c ≠ NUL ∧ c ≠ sep) (by simp) there
    have short := dropWhile_length (fun c => c ≠ EQUALS ∧ c ≠ NUL ∧ c ≠ sep) dp
    have read := read_behind_length sep (dp.takeWhile fun c => c ≠ EQUALS ∧ c ≠ NUL ∧ c ≠ sep) some_left
    rw [if_neg comment]
    omega

/-- A scan ends in the text, whatever lies behind it, or goes on behind the text. -/
theorem scan_cases (p : UInt8 → Bool) (text : List UInt8) :
    (∃ front c rest, text = front ++ c :: rest ∧ p c = false ∧
      ∀ tail, (text ++ tail).takeWhile p = front ∧ (text ++ tail).dropWhile p = c :: (rest ++ tail)) ∨
    ∀ tail, (text ++ tail).dropWhile p = tail.dropWhile p := by
  induction text with
  | nil => exact .inr fun _ => rfl
  | cons d text ih =>
    cases holds : p d with
    | false => exact .inl ⟨[],d,text,rfl,holds,fun tail => by simp [holds]⟩
    | true =>
      rcases ih with ⟨front,c,rest,split,stops,scan⟩ | scan
      · exact .inl ⟨d :: front,c,rest,by rw [split]; rfl,stops,fun tail => by simp [holds,scan tail]⟩
      · exact .inr fun tail => by simp [holds,scan tail]

/-- An entry that a text begins with ends in the text, whatever lies behind it, or
    the reading goes beyond the text. -/
theorem read_entry_cases (plain : ∀ c ∈ text, c ≠ NUL) :
    (∃ entry rest, rest.length < text.length ∧ (∀ c ∈ rest, c ∈ text) ∧
      ∀ tail, NUL ∈ tail → read_entry NEWLINE (text ++ tail) = (entry,rest ++ tail)) ∨
    ∀ tail, NUL ∈ tail → (read_entry NEWLINE (text ++ tail)).2.length < tail.length := by
  rcases scan_cases isblank text with ⟨front,c,dp,rfl,-,start⟩ | blank
  swap
  · -- Nothing but blanks: the entry is one of what lies behind.
    refine .inr (fun tail ends => ?_)
    have same : read_entry NEWLINE (text ++ tail) = read_entry NEWLINE tail := by
      rw [read_entry,read_entry,blank tail]
    rw [same]
    exact read_entry_length NEWLINE ends
  have among : ∀ d ∈ c :: dp, d ∈ front ++ c :: dp := fun d member => mem_append_right _ member
  by_cases comment : c = HASH
  · have read : ∀ tail, read_entry NEWLINE (front ++ c :: dp ++ tail) =
        (.comment,((c :: dp ++ tail).dropWhile fun c => c ≠ NUL ∧ c ≠ NEWLINE).drop 1) := by
      intro tail
      rw [read_entry,(start tail).2]
      exact if_pos comment
    rcases scan_cases (fun c => c ≠ NUL ∧ c ≠ NEWLINE) (c :: dp) with ⟨text,d,rest,split,-,scan⟩ | scan
    · refine .inl ⟨.comment,rest,by rw [split]; simp; omega,fun e member => among e (by rw [split]; simp [member]),fun tail _ => ?_⟩
      rw [read tail,(scan tail).2]
      rfl
    · refine .inr (fun tail ends => ?_)
      have some_left := dropWhile_some (p := fun c => c ≠ NUL ∧ c ≠ NEWLINE) (by simp) ends
      have short := dropWhile_length (fun c => c ≠ NUL ∧ c ≠ NEWLINE) tail
      rw [read tail,scan tail]
      simp only [length_drop]
      omega
  have read : ∀ tail, read_entry NEWLINE (front ++ c :: dp ++ tail) =
      read_behind NEWLINE ((c :: dp ++ tail).takeWhile fun c => c ≠ EQUALS ∧ c ≠ NUL ∧ c ≠ NEWLINE)
        ((c :: dp ++ tail).dropWhile fun c => c ≠ EQUALS ∧ c ≠ NUL ∧ c ≠ NEWLINE) := by
    intro tail
    rw [read_entry,(start tail).2]
    exact if_neg comment
  rcases scan_cases (fun c => c ≠ EQUALS ∧ c ≠ NUL ∧ c ≠ NEWLINE) (c :: dp) with ⟨name,d,left,split,stop,scan⟩ | scan
  · have inside : ∀ e ∈ d :: left, e ∈ front ++ c :: dp := fun e member => among e (by rw [split]; exact mem_append_right _ member)
    have stops : d = EQUALS ∨ d = NEWLINE := by
      have not_nul := plain d (inside d mem_cons_self)
      simp only [decide_eq_false_iff_not,not_and_or,not_not] at stop
      tauto
    have read_name : ∀ tail, read_entry NEWLINE (front ++ c :: dp ++ tail) = read_behind NEWLINE name (d :: left ++ tail) := by
      intro tail
      rw [read tail,(scan tail).1,(scan tail).2]
      rfl
    rcases read_behind_cases name (fun e member => plain e (inside e member)) stops with ⟨entry,rest,less,in_left,same⟩ | beyond
    · refine .inl ⟨entry,rest,by rw [split]; simp only [length_append]; omega,fun e member => inside e (in_left e member),fun tail _ => ?_⟩
      rw [read_name tail,same tail]
    · refine .inr (fun tail ends => ?_)
      rw [read_name tail]
      exact beyond tail (ne_nil_of_mem ends)
  · refine .inr (fun tail ends => ?_)
    have some_left := dropWhile_some (p := fun c => c ≠ EQUALS ∧ c ≠ NUL ∧ c ≠ NEWLINE) (by simp) ends
    have short := dropWhile_length (fun c => c ≠ EQUALS ∧ c ≠ NUL ∧ c ≠ NEWLINE) tail
    rw [read tail,scan tail]
    exact lt_of_lt_of_le (read_behind_length NEWLINE _ some_left) short

/-- The entries before the last line of a text, and the last line: the one that
    is read to the end of the text, or at which the import fails. -/
def lines : Nat → List UInt8 → List Entry × List UInt8
  | 0, text => ([],text)
  | rounds+1, text =>
    let read := read_entry NEWLINE (text ++ [NUL])
    if read.1 ≠ .unnamed ∧ 1 < read.2.length then
      (read.1 :: (lines rounds read.2.dropLast).1,(lines rounds read.2.dropLast).2)
    else ([],text)

/-- With bytes behind a text its entries are read as they are, the last line
    together with the bytes behind. -/
theorem read_entries_lines {rounds : Nat} (some_text : text ≠ []) (plain : ∀ c ∈ text, c ≠ NUL)
    (enough : text.length ≤ rounds) {tail : List UInt8} (ends : NUL ∈ tail) {more : Nat} (fuel : rounds ≤ more) :
    read_entries NEWLINE tail.length more (text ++ tail) =
      some ((lines rounds text).1 ++ [(read_entry NEWLINE ((lines rounds text).2 ++ tail)).1]) := by
  induction rounds generalizing text more with
  | zero =>
    have positive := length_pos_of_ne_nil some_text
    omega
  | succ rounds ih =>
    obtain ⟨left,rfl⟩ : ∃ left, more = left+1 := ⟨more-1,by omega⟩
    have terminated : NUL ∈ [NUL] := mem_singleton.mpr rfl
    rw [lines,read_entries]
    -- A line at which the loop stops is the last one.
    have last {result : Entry × List UInt8} {others : Option (List Entry)} (stops : ¬ result.1 = .unnamed →
        ¬ (tail.length < result.2.length ∧ first result.2 ≠ NUL)) :
        (if result.1 = .unnamed then some [.unnamed]
          else if tail.length < result.2.length ∧ first result.2 ≠ NUL then others
          else some [result.1]) = some ([] ++ [result.1]) := by
      by_cases unnamed : result.1 = .unnamed
      · rw [if_pos unnamed,unnamed]
        rfl
      · rw [if_neg unnamed,if_neg (stops unnamed)]
        rfl
    rcases read_entry_cases plain with ⟨entry,rest,shorter,inside,read⟩ | beyond
    · have here := read tail ends
      have alone := read [NUL] terminated
      by_cases goes_on : entry ≠ .unnamed ∧ rest ≠ []
      · have rest_plain : ∀ c ∈ rest, c ≠ NUL := fun c member => plain c (inside c member)
        have positive := length_pos_of_ne_nil goes_on.2
        have continues : tail.length < (rest ++ tail).length ∧ first (rest ++ tail) ≠ NUL := by
          obtain ⟨c,rest,rfl⟩ := exists_cons_of_ne_nil goes_on.2
          refine ⟨by simp only [length_append,length_cons]; omega,?_⟩
          exact rest_plain c mem_cons_self
        have later := ih goes_on.2 rest_plain (by omega) (show rounds ≤ left by omega)
        have long : entry ≠ .unnamed ∧ 1 < (rest ++ [NUL]).length := by
          refine ⟨goes_on.1,?_⟩
          rw [length_append,length_singleton]
          omega
        rw [alone,here]
        dsimp only
        rw [if_neg goes_on.1,if_pos continues,later,if_pos long,dropLast_concat]
        rfl
      · rw [alone]
        have stops : ¬ ((entry,rest ++ [NUL]).1 ≠ .unnamed ∧ 1 < (entry,rest ++ [NUL]).2.length) := by
          rintro ⟨named,long⟩
          refine goes_on ⟨named,?_⟩
          rintro rfl
          simp at long
        rw [if_neg stops]
        refine last (fun named continues => ?_)
        rw [here] at named continues
        refine goes_on ⟨named,?_⟩
        rintro rfl
        simp at continues
    · have alone := beyond [NUL] terminated
      have here := beyond tail ends
      have stops : ¬ ((read_entry NEWLINE (text ++ [NUL])).1 ≠ .unnamed ∧
          1 < (read_entry NEWLINE (text ++ [NUL])).2.length) := by
        rw [length_singleton] at alone
        omega
      rw [if_neg stops]
      exact last (fun _ continues => by omega)

theorem lines_named {rounds : Nat} {text : List UInt8} : ∀ entry ∈ (lines rounds text).1, entry ≠ .unnamed := by
  induction rounds generalizing text with
  | zero => simp [lines]
  | succ rounds ih =>
    rw [lines]
    by_cases goes_on : (read_entry NEWLINE (text ++ [NUL])).1 ≠ .unnamed ∧ 1 < (read_entry NEWLINE (text ++ [NUL])).2.length
    · simp only [if_pos goes_on]
      intro entry member
      rcases mem_cons.mp member with rfl | later
      · exact goes_on.1
      · exact ih entry later
    · simp only [if_neg goes_on]
      simp

end UBoot.EnvText
