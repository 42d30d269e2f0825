import Mathlib.Data.List.TakeWhile
import UBoot.Membuf

/-!
`membuf_readline` of `lib/membuf.c`: a line is taken out of the buffer byte by
byte. The loop goes on at the start of the buffer when it reaches the end, and
its test for that holds again when it reaches the head of a wrapped buffer, so
it reads the bytes before the head another time. `first_line` is what the queue
asks for; the two agree unless the loop gets that far.
-/
namespace UBoot.Membuf
open UBoot.Memory UBoot.Ring UBoot.Runs UBoot.Words List

/-- `*str == '\n' || *str < minch`, where a `char` has no sign. -/
def ends_line (minch : Int) (ch : UInt8) : Bool := ch = 10 || decide ((ch.toNat : Int) < minch)

/-- The loop with `rounds` bytes of the line to go: whether it met the end of
    the line, the bytes before that, and the pointer. -/
def readline_from (mb : Membuf) (minch : Int) : Nat → Nat → Nat → List UInt8 → Bool × List UInt8 × Nat
  | 0, s, _, str => (false,str,s)
  | rounds+1, s, end_, str =>
    if s < end_ then
      let ch := mb.data s
      let s := s+1
      if ends_line minch ch then (true,str,s)
      else if s = end_ ∧ mb.tail > mb.head then readline_from mb minch rounds 0 mb.head (str ++ [ch])
      else readline_from mb minch rounds s end_ (str ++ [ch])
    else (false,str,s)

/-- The number of bytes read, the line and the buffer after the call. -/
def membuf_readline (mb : Membuf) (maxlen : Nat) (minch : Int) (must_fit : Bool) : Nat × List UInt8 × Membuf :=
  let end_ := if mb.head ≥ mb.tail then mb.head else mb.size
  let (ok,str,s) := readline_from mb minch (maxlen-1) mb.tail end_ []
  if !ok && must_fit then (0,[],mb)
  else (str.length+ok.toNat,str,{ mb with tail := if s = mb.size then 0 else s })

/-- The line that a queue begins with, and how many bytes of the queue go with
    it. -/
def first_line (minch : Int) (maxlen : Nat) (must_fit : Bool) (q : List UInt8) : List UInt8 × Nat :=
  let line := q.takeWhile (fun ch => !ends_line minch ch)
  if line.length < q.length ∧ line.length < maxlen-1 then (line,line.length+1)
  else if must_fit then ([],0)
  else (q.take (maxlen-1),min (maxlen-1) q.length)

/-- The call delivers the first line of the queue and leaves the rest. -/
def ReadsLine (mb : Membuf) (maxlen : Nat) (minch : Int) (must_fit : Bool) : Prop :=
  (membuf_readline mb maxlen minch must_fit).2.1 = (first_line minch maxlen must_fit (contents mb)).1 ∧
  contents (membuf_readline mb maxlen minch must_fit).2.2 =
    (contents mb).drop (first_line minch maxlen must_fit (contents mb)).2

/-- The loop comes to the head of a wrapped buffer and may keep what it reads
    behind it: no byte of the queue ends the line, and there is room for all. -/
def PassesHead (mb : Membuf) (maxlen : Nat) (minch : Int) : Prop :=
  0 < mb.head ∧ mb.head < mb.tail ∧ (∀ ch ∈ contents mb, ends_line minch ch = false) ∧ count mb ≤ maxlen-1

/-- The loop over a queue: whether the line ended, and the bytes before that. -/
def scan (minch : Int) : Nat → List UInt8 → Bool × List UInt8
  | 0, _ => (false,[])
  | _+1, [] => (false,[])
  | rounds+1, ch :: rest =>
    if ends_line minch ch then (true,[]) else ((scan minch rounds rest).1,ch :: (scan minch rounds rest).2)

theorem scan_eq (minch : Int) (rounds : Nat) (q : List UInt8) :
    scan minch rounds q =
      if (q.takeWhile (fun ch => !ends_line minch ch)).length < q.length ∧
          (q.takeWhile (fun ch => !ends_line minch ch)).length < rounds then
        (true,q.takeWhile (fun ch => !ends_line minch ch))
      else (false,q.take rounds) := by
  induction rounds generalizing q with
  | zero => simp [scan]
  | succ rounds ih =>
    cases q with
    | nil => simp [scan]
    | cons ch rest =>
      by_cases last : ends_line minch ch = true
      · simp [scan,last]
      · have more : ends_line minch ch = false := by simpa using last
        rw [scan,if_neg last,ih rest]
        simp only [more,Bool.not_false,takeWhile_cons,if_true,length_cons,Nat.add_lt_add_iff_right,
          take_succ_cons]
        split <;> rfl

/-- `s` and `end_` are the pointer and its bound when `i` bytes of the queue are
    read. -/
def Cursor (mb : Membuf) (i s end_ : Nat) : Prop :=
  i ≤ count mb ∧ ((mb.tail ≤ mb.head ∧ s = mb.tail+i ∧ end_ = mb.head) ∨
    (mb.head < mb.tail ∧ mb.tail+i < mb.size ∧ s = mb.tail+i ∧ end_ = mb.size) ∨
    (mb.head < mb.tail ∧ mb.size ≤ mb.tail+i ∧ s = mb.tail+i-mb.size ∧ end_ = mb.head))

variable {maxlen : Nat} {mb : Membuf} {minch : Int}

theorem cursor_start (inside : Inside mb) :
    Cursor mb 0 mb.tail (if mb.head ≥ mb.tail then mb.head else mb.size) := by
  have tail_in := inside.tail
  refine ⟨Nat.zero_le _,?_⟩
  by_cases straight : mb.tail ≤ mb.head
  · exact .inl ⟨straight,rfl,if_pos straight⟩
  · exact .inr (.inl ⟨by omega,by omega,rfl,if_neg straight⟩)

theorem Cursor.lt_iff {i s end_ : Nat} (inside : Inside mb) (cursor : Cursor mb i s end_) :
    s < end_ ↔ i < count mb := by
  have tail_in := inside.tail
  obtain ⟨-,⟨straight,rfl,rfl⟩ | ⟨wrapped,before,rfl,rfl⟩ | ⟨wrapped,behind,rfl,rfl⟩⟩ := cursor
  · rw [count,if_pos straight]; omega
  · rw [count,if_neg (by omega)]; omega
  · rw [count,if_neg (by omega)]; omega

theorem Cursor.slot_eq {i s end_ : Nat} (inside : Inside mb) (cursor : Cursor mb i s end_) :
    s = slot mb.size (mb.tail+i) ∧ s < mb.size := by
  have head_in := inside.head
  have tail_in := inside.tail
  obtain ⟨le,⟨straight,rfl,rfl⟩ | ⟨wrapped,before,rfl,rfl⟩ | ⟨wrapped,behind,rfl,rfl⟩⟩ := cursor
  · rw [count,if_pos straight] at le
    rw [slot,if_pos (by omega)]; omega
  · rw [slot,if_pos before]; omega
  · rw [count,if_neg (by omega)] at le
    rw [slot,if_neg (by omega)]; omega

theorem Cursor.after_eq {i s end_ : Nat} (inside : Inside mb) (cursor : Cursor mb i s end_) :
    (if s+1 = mb.size then 0 else s+1) = slot mb.size (mb.tail+(i+1)) := by
  have tail_in := inside.tail
  have less := count_lt inside
  have le := cursor.1
  obtain ⟨same,below⟩ := cursor.slot_eq inside
  simp only [slot] at same ⊢
  split_ifs at * <;> omega

theorem Cursor.drop_eq {i s end_ : Nat} (inside : Inside mb) (cursor : Cursor mb i s end_)
    (more : i < count mb) : (contents mb).drop i = mb.data s :: (contents mb).drop (i+1) := by
  have in_range : i < (contents mb).length := by rw [contents_length]; exact more
  have here : (contents mb).get ⟨i,in_range⟩ = mb.data s := by
    rw [(cursor.slot_eq inside).1]
    simp [contents,window]
  rw [drop_eq_getElem_cons in_range,← here]
  rfl

/-- The next byte is where the loop looks for it, unless the queue of a wrapped
    buffer is read to its end. -/
theorem Cursor.next {i s end_ : Nat} (inside : Inside mb) (cursor : Cursor mb i s end_)
    (more : i < count mb) (goes_on : i+1 < count mb ∨ mb.tail ≤ mb.head ∨ mb.head = 0) :
    (s+1 = end_ ∧ mb.tail > mb.head ∧ Cursor mb (i+1) 0 mb.head) ∨
    (¬ (s+1 = end_ ∧ mb.tail > mb.head) ∧ Cursor mb (i+1) (s+1) end_) := by
  have tail_in := inside.tail
  obtain ⟨-,⟨straight,rfl,rfl⟩ | ⟨wrapped,before,rfl,rfl⟩ | ⟨wrapped,behind,rfl,rfl⟩⟩ := cursor
  · exact .inr ⟨by omega,more,.inl ⟨straight,by omega,rfl⟩⟩
  · by_cases last : mb.tail+i+1 = mb.size
    · exact .inl ⟨last,wrapped,more,.inr (.inr ⟨wrapped,by omega,by omega,rfl⟩)⟩
    · exact .inr ⟨fun at_end => last at_end.1,more,.inr (.inl ⟨wrapped,by omega,by omega,rfl⟩)⟩
  · have counted : count mb = mb.size-mb.tail+mb.head := if_neg (by omega)
    exact .inr ⟨by omega,more,.inr (.inr ⟨wrapped,by omega,by omega,rfl⟩)⟩

/-- The loop stays in the queue for `rounds` bytes from the byte `i` on. -/
def Stays (mb : Membuf) (minch : Int) (rounds i : Nat) : Prop :=
  (∃ ch ∈ (contents mb).drop i, ends_line minch ch = true) ∨ rounds < count mb-i ∨ mb.tail ≤ mb.head ∨ mb.head = 0

theorem readline_from_scan (inside : Inside mb) (minch : Int) (rounds : Nat) {i s end_ : Nat}
    (str : List UInt8) (cursor : Cursor mb i s end_) (stays : Stays mb minch rounds i) :
    ∃ s', readline_from mb minch rounds s end_ str =
        ((scan minch rounds ((contents mb).drop i)).1,str ++ (scan minch rounds ((contents mb).drop i)).2,s') ∧
      (if s' = mb.size then 0 else s') = slot mb.size (mb.tail+(i+
        (scan minch rounds ((contents mb).drop i)).2.length+(scan minch rounds ((contents mb).drop i)).1.toNat)) := by
  -- Where the loop ends without a terminator it has not moved.
  have halts : ∀ {i s end_ : Nat} (_ : Cursor mb i s end_), (if s = mb.size then 0 else s) =
      slot mb.size (mb.tail+(i+([] : List UInt8).length+false.toNat)) := by
    intro i s end_ cursor
    obtain ⟨same,below⟩ := cursor.slot_eq inside
    rw [if_neg (by omega),same]
    rfl
  induction rounds generalizing i s end_ str with
  | zero => exact ⟨s,by simp [readline_from,scan],halts cursor⟩
  | succ rounds ih =>
    by_cases more : i < count mb
    · have split := cursor.drop_eq inside more
      rw [readline_from,if_pos ((cursor.lt_iff inside).mpr more),split,scan]
      by_cases last : ends_line minch (mb.data s) = true
      · rw [if_pos last,if_pos last]
        exact ⟨s+1,by simp,cursor.after_eq inside⟩
      rw [if_neg last,if_neg last]
      have later : Stays mb minch rounds (i+1) := by
        rcases stays with ⟨ch,member,found⟩ | rest
        · rw [split] at member
          rcases mem_cons.mp member with rfl | behind
          · exact absurd found last
          · exact .inl ⟨ch,behind,found⟩
        · exact .inr (by omega)
      have goes_on : i+1 < count mb ∨ mb.tail ≤ mb.head ∨ mb.head = 0 := by
        rcases later with ⟨ch,member,-⟩ | rest
        · have some_left := length_pos_of_mem member
          rw [length_drop,contents_length] at some_left
          exact .inl (by omega)
        · omega
      -- One byte more is read; the rest is the induction hypothesis.
      have assemble : ∀ {s₁ end₁ : Nat}, Cursor mb (i+1) s₁ end₁ → ∃ s',
          readline_from mb minch rounds s₁ end₁ (str ++ [mb.data s]) =
            ((scan minch rounds ((contents mb).drop (i+1))).1,
              str ++ mb.data s :: (scan minch rounds ((contents mb).drop (i+1))).2,s') ∧
          (if s' = mb.size then 0 else s') = slot mb.size (mb.tail+(i+
            (mb.data s :: (scan minch rounds ((contents mb).drop (i+1))).2).length+
              (scan minch rounds ((contents mb).drop (i+1))).1.toNat)) := by
        intro s₁ end₁ cursor₁
        obtain ⟨s',result,place⟩ := ih (str ++ [mb.data s]) cursor₁ later
        refine ⟨s',by rw [result,append_assoc]; rfl,?_⟩
        rw [place,length_cons]
        congr 2
        omega
      rcases cursor.next inside more goes_on with ⟨at_end,wrapped,cursor₁⟩ | ⟨elsewhere,cursor₁⟩
      · rw [if_pos ⟨at_end,wrapped⟩]
        exact assemble cursor₁
      · rw [if_neg elsewhere]
        exact assemble cursor₁
    · have nothing : (contents mb).drop i = [] := drop_eq_nil_of_le (by rw [contents_length]; omega)
      rw [readline_from,if_neg (fun before => more ((cursor.lt_iff inside).mp before)),nothing]
      exact ⟨s,by simp [scan],halts cursor⟩

theorem readline_from_round (wrapped : mb.head < mb.tail)
    (plain : ∀ s, s < mb.head → ends_line minch (mb.data s) = false) (rounds : Nat) {s : Nat} (str : List UInt8)
    (before : s < mb.head) :
    ∃ more s', more.length = rounds ∧ readline_from mb minch rounds s mb.head str = (false,str ++ more,s') := by
  induction rounds generalizing s str with
  | zero => exact ⟨[],s,rfl,by simp [readline_from]⟩
  | succ rounds ih =>
    have no_end : ¬ (ends_line minch (mb.data s) = true) := by rw [plain s before]; decide
    rw [readline_from,if_pos before,if_neg no_end]
    by_cases at_head : s+1 = mb.head
    · obtain ⟨more,s',length,result⟩ := ih (str ++ [mb.data s]) (show 0 < mb.head by omega)
      rw [if_pos ⟨at_head,wrapped⟩,result]
      exact ⟨mb.data s :: more,s',by simp [length],by simp⟩
    · obtain ⟨more,s',length,result⟩ := ih (str ++ [mb.data s]) (show s+1 < mb.head by omega)
      rw [if_neg (fun both => at_head both.1),result]
      exact ⟨mb.data s :: more,s',by simp [length],by simp⟩

theorem readline_from_head (inside : Inside mb) (wrapped : mb.head < mb.tail)
    (filled : 0 < mb.head) (plain : ∀ ch ∈ contents mb, ends_line minch ch = false) (rounds left : Nat) {i s end_ : Nat}
    (str : List UInt8) (cursor : Cursor mb i s end_) (up_to : i+left+1 = count mb) :
    readline_from mb minch (rounds+(left+1)) s end_ str =
      readline_from mb minch rounds 0 mb.head (str ++ (contents mb).drop i) := by
  have tail_in := inside.tail
  have counted : count mb = mb.size-mb.tail+mb.head := if_neg (by omega)
  induction left generalizing i s end_ str with
  | zero =>
    have split := cursor.drop_eq inside (by omega)
    have no_end : ¬ (ends_line minch (mb.data s) = true) := by
      rw [plain _ (mem_of_mem_drop (by rw [split]; exact mem_cons_self))]; decide
    have at_head : s+1 = end_ := by
      obtain ⟨-,⟨straight,-,-⟩ | ⟨-,early,-,-⟩ | ⟨-,behind,rfl,rfl⟩⟩ := cursor
      · omega
      · omega
      · omega
    have nothing : (contents mb).drop (i+1) = [] := drop_eq_nil_of_le (by rw [contents_length]; omega)
    rw [zero_add,readline_from,if_pos ((cursor.lt_iff inside).mpr (by omega)),if_neg no_end,
      if_pos ⟨at_head,wrapped⟩,split,nothing]
  | succ left ih =>
    have split := cursor.drop_eq inside (by omega)
    have no_end : ¬ (ends_line minch (mb.data s) = true) := by
      rw [plain _ (mem_of_mem_drop (by rw [split]; exact mem_cons_self))]; decide
    rw [← add_assoc rounds,readline_from,if_pos ((cursor.lt_iff inside).mpr (by omega)),if_neg no_end,split]
    rcases cursor.next inside (by omega) (.inl (by omega)) with ⟨at_end,_,cursor₁⟩ | ⟨elsewhere,cursor₁⟩
    · rw [if_pos ⟨at_end,wrapped⟩,ih (str ++ [mb.data s]) cursor₁ (by omega),append_assoc]
      rfl
    · rw [if_neg elsewhere,ih (str ++ [mb.data s]) cursor₁ (by omega),append_assoc]
      rfl

theorem plain_below_head (inside : Inside mb) (wrapped : mb.head < mb.tail)
    (plain : ∀ ch ∈ contents mb, ends_line minch ch = false) (s : Nat) (before : s < mb.head) :
    ends_line minch (mb.data s) = false := by
  have tail_in := inside.tail
  have counted : count mb = mb.size-mb.tail+mb.head := if_neg (by omega)
  have cursor : Cursor mb (mb.size-mb.tail+s) s mb.head := ⟨by omega,.inr (.inr ⟨wrapped,by omega,by omega,rfl⟩)⟩
  have split := cursor.drop_eq inside (by omega)
  exact plain _ (mem_of_mem_drop (by rw [split]; exact mem_cons_self))

theorem readline_passes_head (inside : Inside mb)
    (passes : PassesHead mb maxlen minch) :
    ∃ more s', more.length = maxlen-1-count mb ∧ (more = [] → s' = 0) ∧
      readline_from mb minch (maxlen-1) mb.tail (if mb.head ≥ mb.tail then mb.head else mb.size) [] =
        (false,contents mb ++ more,s') := by
  obtain ⟨filled,wrapped,plain,enough⟩ := passes
  have counted : count mb = mb.size-mb.tail+mb.head := if_neg (by omega)
  have whole := readline_from_head inside wrapped filled plain (maxlen-1-count mb) (count mb-1) [] (cursor_start inside)
    (by omega)
  rw [show maxlen-1-count mb+(count mb-1+1) = maxlen-1 by omega] at whole
  rw [whole,nil_append,drop_zero]
  obtain ⟨more,s',length,result⟩ := readline_from_round wrapped (plain_below_head inside wrapped plain)
    (maxlen-1-count mb) (contents mb) filled
  refine ⟨more,s',length,?_,result⟩
  intro none_more
  have no_rounds : maxlen-1-count mb = 0 := by rw [← length,none_more]; rfl
  rw [no_rounds,readline_from] at result
  exact (Prod.mk.inj (Prod.mk.inj result).2).2.symm

theorem readline_stays (no_pass : ¬ PassesHead mb maxlen minch) :
    Stays mb minch (maxlen-1) 0 := by
  by_contra leaves
  simp only [Stays,drop_zero,not_or,not_exists,not_and,Bool.not_eq_true,not_lt,not_le,Nat.sub_zero]
    at leaves
  exact no_pass ⟨by omega,leaves.2.2.1,leaves.1,leaves.2.1⟩

theorem readline_first_line (inside : Inside mb) (must_fit : Bool)
    (no_pass : ¬ PassesHead mb maxlen minch) : ReadsLine mb maxlen minch must_fit := by
  obtain ⟨s',result,place⟩ := readline_from_scan inside minch (maxlen-1) [] (cursor_start inside)
    (readline_stays no_pass)
  rw [drop_zero,nil_append] at result
  rw [drop_zero,zero_add] at place
  have scanned := scan_eq minch (maxlen-1) (contents mb)
  have after : ∀ k, k ≤ count mb → (if s' = mb.size then 0 else s') = slot mb.size (mb.tail+k) →
      contents { mb with tail := if s' = mb.size then 0 else s' } = (contents mb).drop k := by
    intro k le same
    rw [same]
    exact taken_contents inside le
  rw [ReadsLine,membuf_readline,first_line,result]
  by_cases ends : ((contents mb).takeWhile (fun ch => !ends_line minch ch)).length < (contents mb).length ∧
      ((contents mb).takeWhile (fun ch => !ends_line minch ch)).length < maxlen-1
  · rw [if_pos ends] at scanned
    rw [scanned] at place ⊢
    rw [if_pos ends]
    refine ⟨rfl,after _ ?_ place⟩
    have shorter := ends.1
    rw [contents_length] at shorter
    omega
  · rw [if_neg ends] at scanned
    rw [scanned] at place ⊢
    rw [if_neg ends]
    cases must_fit with
    | true => exact ⟨rfl,rfl⟩
    | false =>
      refine ⟨rfl,after (min (maxlen-1) (contents mb).length) ?_ ?_⟩
      · rw [contents_length]; omega
      · rw [length_take] at place
        exact place

theorem PassesHead.line_eq (passes : PassesHead mb maxlen minch) :
    (contents mb).takeWhile (fun ch => !ends_line minch ch) = contents mb :=
  takeWhile_eq_self_iff.mpr (fun ch member => by simp [passes.2.2.1 ch member])

theorem readline_must_fit (inside : Inside mb)
    (passes : PassesHead mb maxlen minch) : ReadsLine mb maxlen minch true := by
  obtain ⟨more,s',-,-,result⟩ := readline_passes_head inside passes
  have no_end : ¬ (((contents mb).takeWhile (fun ch => !ends_line minch ch)).length < (contents mb).length ∧
      ((contents mb).takeWhile (fun ch => !ends_line minch ch)).length < maxlen-1) := by
    rw [passes.line_eq]
    omega
  rw [ReadsLine,membuf_readline,first_line,result,if_neg no_end]
  exact ⟨rfl,rfl⟩

theorem readline_repeats (inside : Inside mb)
    (passes : PassesHead mb maxlen minch) : ¬ ReadsLine mb maxlen minch false := by
  obtain ⟨more,s',length,still,result⟩ := readline_passes_head inside passes
  have enough := passes.2.2.2
  have asked : first_line minch maxlen false (contents mb) = (contents mb,count mb) := by
    rw [first_line,passes.line_eq,if_neg (by omega),if_neg (by decide),
      take_of_length_le (by rw [contents_length]; exact enough),contents_length,min_eq_right enough]
  rw [ReadsLine,membuf_readline,asked,result]
  rintro ⟨line,rest⟩
  have none_more : more = [] := append_right_eq_self.mp line
  -- The line is right, but the tail is at the start and not at the head.
  have at_start := still none_more
  have filled := passes.1
  have emptied : (contents mb).drop (count mb) = [] := drop_eq_nil_of_le (by rw [contents_length])
  have left := congrArg List.length rest
  rw [emptied,contents_length,at_start] at left
  simp [count] at left
  omega

/-- A buffer that stands for a queue, with memory or without. -/
def Usable (mb : Membuf) : Prop := Inside mb ∨ mb.size = 0 ∧ mb.head = 0 ∧ mb.tail = 0

/-- For every length of the line, the first line of the queue is read unless the loop passes the head of a
    wrapped buffer and the line need not fit. -/
theorem membuf_readline_iff (mb : Membuf) (maxlen : Nat) (minch : Int) (must_fit : Bool) (usable : Usable mb) :
    ReadsLine mb maxlen minch must_fit ↔ ¬ (PassesHead mb maxlen minch ∧ must_fit = false) := by
  rcases usable with inside | ⟨no_memory,no_head,no_tail⟩
  · by_cases passes : PassesHead mb maxlen minch
    · cases must_fit with
      | true => exact iff_of_true (readline_must_fit inside passes) (fun both => Bool.noConfusion both.2)
      | false => exact iff_of_false (readline_repeats inside passes) (fun never => never ⟨passes,rfl⟩)
    · exact iff_of_true (readline_first_line inside must_fit passes) (fun both => passes both.1)
  · have nothing : contents mb = [] := by simp [contents,count,no_head,no_tail,window]
    refine iff_of_true ?_ (fun both => by have := both.1.1; omega)
    rw [ReadsLine,membuf_readline,first_line,nothing,no_head,no_tail]
    have loop : readline_from mb minch (maxlen-1) 0 (if 0 ≥ 0 then 0 else mb.size) [] = (false,[],0) := by
      cases maxlen-1 with
      | zero => rfl
      | succ rounds => rfl
    rw [loop]
    cases must_fit <;> simp [contents,count,no_head,no_tail,window]

/-- A buffer of four bytes that holds "ab", the "b" behind the wrap. -/
def wrapped_ab : Membuf := ⟨4,fun i => if i = 0 then 98 else 97,1,3⟩

theorem readline_wrapped_ab :
    ReadsLine wrapped_ab 2 0 false ↔ ¬ (PassesHead wrapped_ab 2 0 ∧ false = false) :=
  membuf_readline_iff wrapped_ab 2 0 false (.inl ⟨by decide,by decide,by decide⟩)

/-- The last byte is delivered twice. -/
theorem readline_delivers_twice :
    (membuf_readline wrapped_ab 4 0 false).2.1 = [97,98,98] ∧ contents wrapped_ab = [97,98] ∧
    ¬ ReadsLine wrapped_ab 4 0 false := by
  refine ⟨by decide,by decide,fun reads => ?_⟩
  exact absurd reads.1 (by decide)

end UBoot.Membuf
