import UBoot.Buffers
import UBoot.EnvText

/-!
The command-line editor of `common/cli_readline.c`: a key changes the cursor, the end and the bytes
of a buffer of its caller, within a limit that the caller gives. A read or a write that is not inside
the buffer has no outcome. The limit counts characters and not the terminator behind them.
-/
namespace UBoot.CliReadline
open UBoot.Buffers UBoot.EnvText List Option

abbrev Stored (size : ℕ) := { line : List UInt8 // NUL ∉ line ∧ line.length ≤ size }

/-- The lines that were entered, in a ring of which the entry at `add_idx` is the next one
    to be filled. `cur` is -1 before the first line was read. -/
structure Hist (CBSIZE : ℕ) where
  list : ℕ → Stored CBSIZE
  max : ℕ
  add_idx : ℕ
  cur : ℤ

/-- What the completion has to add to a line with the cursor at its end. It answers nothing
    where it does not apply, and adds nothing where it lists the possible commands. -/
abbrev Complete := List UInt8 → Option (Option { s : List UInt8 // NUL ∉ s })

/-- `struct cli_line_state`, with the history beside it. -/
structure State (CBSIZE : ℕ) where
  buf : List UInt8
  num : ℕ
  eol_num : ℕ
  len : ℕ
  insert : Bool
  history : Bool
  cmd_complete : Bool
  hist : Hist CBSIZE

inductive Key where
  | home
  | right
  | left
  | delete
  | kill
  | last
  | mode
  | word
  | line
  | backspace
  | prev
  | next
  | tab
  | other
deriving DecidableEq

def key_of (ichar : UInt8) : Key :=
  if ichar = 1 then .home
  else if ichar = 6 then .right
  else if ichar = 2 then .left
  else if ichar = 4 then .delete
  else if ichar = 11 then .kill
  else if ichar = 5 then .last
  else if ichar = 15 then .mode
  else if ichar = 23 then .word
  else if ichar = 24 ∨ ichar = 21 then .line
  else if ichar = 255 ∨ ichar = 127 ∨ ichar = 8 then .backspace
  else if ichar = 16 then .prev
  else if ichar = 14 then .next
  else if ichar = 9 then .tab
  else .other

/-- What a key is answered with: more is read, or the line is entered or broken off. -/
inductive Answer where
  | again
  | entered
  | interrupted
deriving DecidableEq

def memmove (buf : List UInt8) (dst src n : ℕ) : Option (List UInt8) :=
  if src+n ≤ buf.length then write buf dst ((buf.drop src).take n) else none

def string (buf : List UInt8) : List UInt8 := buf.takeWhile (· ≠ NUL)

/-- The text without the blanks at its end and the word before them. -/
def without_word (text : List UInt8) : List UInt8 := ((text.reverse.dropWhile (· = 32)).dropWhile (· ≠ 32)).reverse

/-- The end of `cmd_auto_complete`: what is added has to leave two bytes of the console buffer. -/
def cmd_auto_complete (CBSIZE : ℕ) (complete : Complete) (buf : List UInt8) (n : ℕ) : Option (List UInt8 × ℕ) :=
  match complete (string buf) with
  | some (some s) =>
    if n+s.1.length+2 ≥ CBSIZE then some (buf,n)
    else do
      let buf ← write buf (string buf).length (s.1 ++ [NUL])
      some (buf,n+s.1.length)
  | _ => some (buf,n)

section source
variable {CBSIZE : ℕ}

def hist_prev (hist : Hist CBSIZE) : Option (Stored CBSIZE) × Hist CBSIZE :=
  if hist.cur < 0 then (none,hist)
  else
    let cur := if hist.cur-1 < 0 then (hist.max : ℤ) else hist.cur-1
    if cur = hist.add_idx then (none,hist) else (some (hist.list cur.toNat),{ hist with cur := cur })

def hist_next (hist : Hist CBSIZE) : Option (Stored CBSIZE) × Hist CBSIZE :=
  if hist.cur < 0 then (none,hist)
  else if hist.cur = hist.add_idx then (none,hist)
  else
    let cur := if hist.cur+1 > hist.max then 0 else hist.cur+1
    (some (if cur = hist.add_idx then ⟨[],by simp⟩ else hist.list cur.toNat),{ hist with cur := cur })

variable (complete : Complete) (cls : State CBSIZE)

def BEGINNING_OF_LINE : State CBSIZE := { cls with num := 0 }

def ERASE_TO_EOL : State CBSIZE := if cls.num < cls.eol_num then { cls with eol_num := cls.num } else cls

def REFRESH_TO_EOL : State CBSIZE := if cls.num < cls.eol_num then { cls with num := cls.eol_num } else cls

def cread_add_char (ichar : UInt8) (insert : Bool) : Option (State CBSIZE) :=
  let grows := insert ∨ cls.num = cls.eol_num
  if grows ∧ cls.eol_num > (cls.len+(2^32-1))%2^32 then some cls
  else do
    let eol_num := if grows then cls.eol_num+1 else cls.eol_num
    let wlen := eol_num-cls.num
    let moved := if insert ∧ wlen > 1 then memmove cls.buf (cls.num+1) cls.num (wlen-1) else some cls.buf
    let buf ← moved
    let buf ← write buf cls.num [ichar]
    some { cls with buf := buf, num := cls.num+1, eol_num := eol_num }

/-- `strcpy` of a line from the history, which becomes the whole line. -/
def recalled (found : Option (Stored CBSIZE) × Hist CBSIZE) : Option (State CBSIZE) :=
  match found.1 with
  | none => some { cls with hist := found.2 }
  | some hline => do
    let cls := ERASE_TO_EOL (BEGINNING_OF_LINE { cls with hist := found.2 })
    let buf ← write cls.buf 0 (hline.1 ++ [NUL])
    some (REFRESH_TO_EOL { cls with buf := buf, eol_num := (string buf).length })

/-- The `switch`, without the keys that end the line. -/
def process_key (ichar : UInt8) : Option (State CBSIZE) :=
  match key_of ichar with
  | .home => some (BEGINNING_OF_LINE cls)
  | .right => some (if cls.num < cls.eol_num then { cls with num := cls.num+1 } else cls)
  | .left => some (if cls.num ≠ 0 then { cls with num := cls.num-1 } else cls)
  | .delete =>
    if cls.num < cls.eol_num then do
      let wlen := cls.eol_num-cls.num-1
      let moved := if wlen ≠ 0 then memmove cls.buf cls.num (cls.num+1) wlen else some cls.buf
      let buf ← moved
      some { cls with buf := buf, eol_num := cls.eol_num-1 }
    else some cls
  | .kill => some (ERASE_TO_EOL cls)
  | .last => some (REFRESH_TO_EOL cls)
  | .mode => some { cls with insert := !cls.insert }
  | .word =>
    if cls.num ≠ 0 then do
      let base := (without_word (cls.buf.take cls.num)).length
      let eol_num := cls.eol_num-(cls.num-base)
      let buf ← memmove cls.buf base cls.num (eol_num-base+1)
      some { cls with buf := buf, num := base, eol_num := eol_num }
    else some cls
  | .line => some (ERASE_TO_EOL (BEGINNING_OF_LINE cls))
  | .backspace =>
    if cls.num ≠ 0 then do
      let buf ← memmove cls.buf (cls.num-1) cls.num (cls.eol_num-cls.num)
      some { cls with buf := buf, num := cls.num-1, eol_num := cls.eol_num-1 }
    else some cls
  | .prev => if cls.history then recalled cls (hist_prev cls.hist) else some cls
  | .next => if cls.history then recalled cls (hist_next cls.hist) else some cls
  | .tab =>
    if cls.cmd_complete then
      if cls.num < cls.eol_num then some cls
      else do
        let buf ← write cls.buf cls.num [NUL]
        let done ← cmd_auto_complete CBSIZE complete buf cls.num
        some { cls with buf := done.1, num := done.2, eol_num := cls.eol_num+(done.2-cls.num) }
    else cread_add_char cls ichar cls.insert
  | .other => cread_add_char cls ichar cls.insert

def cread_line_process_ch (ichar : UInt8) : Option (State CBSIZE × Answer) :=
  if ichar = 0 then some (cls,.again)
  else if ichar = 10 then do
    let buf ← write cls.buf cls.eol_num [NUL]
    some ({ cls with buf := buf },.entered)
  else if ichar = 3 then do
    let buf ← write cls.buf 0 [NUL]
    some ({ cls with buf := buf },.interrupted)
  else do
    let cls ← process_key complete cls ichar
    let buf ← write cls.buf cls.eol_num [NUL]
    some ({ cls with buf := buf },.again)

end source

section runs
variable {CBSIZE : ℕ} (complete : Complete)

def cread_add_str (insert : Bool) : State CBSIZE → List UInt8 → Option (State CBSIZE)
  | cls, [] => some cls
  | cls, c :: str => do
    let cls ← cread_add_char cls c insert
    cread_add_str insert cls str

def cli_cread_init (buf : List UInt8) (buf_size : ℕ) (hist : Hist CBSIZE) : Option (State CBSIZE) :=
  cread_add_str false ⟨buf,0,0,buf_size,true,false,false,hist⟩ (string buf)

def feed : State CBSIZE → List UInt8 → Option (State CBSIZE × Answer)
  | cls, [] => some (cls,.again)
  | cls, c :: keys => do
    let stepped ← cread_line_process_ch complete cls c
    if stepped.2 = .again then feed stepped.1 keys else some stepped

/-- A line on the buffer of a caller, who may ask for the history and for completion. -/
def edited (buf : List UInt8) (buf_size : ℕ) (history cmd_complete : Bool) (hist : Hist CBSIZE) (keys : List UInt8) :
    Option (State CBSIZE × Answer) := do
  let cls ← cli_cread_init buf buf_size hist
  feed complete { cls with history := history, cmd_complete := cmd_complete } keys

/-- `cli_readline_into_buffer`, where the command line can be edited. -/
def cli_readline_into_buffer (buffer : List UInt8) (hist : Hist CBSIZE) (keys : List UInt8) : Option (State CBSIZE × Answer) :=
  edited complete buffer CBSIZE true true hist keys

end runs

/-! ## A line with a cursor -/

structure Line (CBSIZE : ℕ) where
  before : List UInt8
  after : List UInt8
  insert : Bool
  hist : Hist CBSIZE

section line
variable {CBSIZE : ℕ}

def Line.text (line : Line CBSIZE) : List UInt8 := line.before ++ line.after

/-- A character beyond the limit is refused, unless it overwrites one. -/
def Line.typed (limit : ℕ) (insert : Bool) (line : Line CBSIZE) (c : UInt8) : Line CBSIZE :=
  if (insert ∨ line.after = []) ∧ limit ≤ line.text.length then line
  else { line with before := line.before ++ [c], after := if insert then line.after else line.after.drop 1 }

/-- A line from the history takes the place of the whole line. -/
def Line.replaced (line : Line CBSIZE) (found : Option (Stored CBSIZE) × Hist CBSIZE) : Line CBSIZE :=
  match found.1 with
  | none => { line with hist := found.2 }
  | some hline => ⟨hline.1,[],line.insert,found.2⟩

def Line.completed (complete : Complete) (line : Line CBSIZE) : Line CBSIZE :=
  match complete line.before with
  | some (some s) => if line.before.length+s.1.length+2 ≥ CBSIZE then line else { line with before := line.before ++ s.1 }
  | _ => line

def Line.key (complete : Complete) (limit : ℕ) (history cmd_complete : Bool) (line : Line CBSIZE) (c : UInt8) : Line CBSIZE :=
  match key_of c with
  | .home => { line with before := [], after := line.text }
  | .right => { line with before := line.before ++ line.after.take 1, after := line.after.drop 1 }
  | .left =>
    let k := line.before.length-1
    { line with before := line.before.take k, after := line.before.drop k ++ line.after }
  | .delete => { line with after := line.after.drop 1 }
  | .kill => { line with after := [] }
  | .last => { line with before := line.text, after := [] }
  | .mode => { line with insert := !line.insert }
  | .word => { line with before := without_word line.before }
  | .line => { line with before := [], after := [] }
  | .backspace => { line with before := line.before.take (line.before.length-1) }
  | .prev => if history then line.replaced (hist_prev line.hist) else line
  | .next => if history then line.replaced (hist_next line.hist) else line
  | .tab => if cmd_complete then if line.after = [] then line.completed complete else line else line.typed limit line.insert c
  | .other => line.typed limit line.insert c

/-- The line behind some keys, and how the last one was answered. -/
def Line.keys (complete : Complete) (limit : ℕ) (history cmd_complete : Bool) : Line CBSIZE → List UInt8 → Line CBSIZE × Answer
  | line, [] => (line,.again)
  | line, c :: keys =>
    if c = 0 then Line.keys complete limit history cmd_complete line keys
    else if c = 10 then (line,.entered)
    else if c = 3 then ({ line with before := [], after := [] },.interrupted)
    else Line.keys complete limit history cmd_complete (line.key complete limit history cmd_complete c) keys

/-- The buffer holds the text, with the cursor where it stands. -/
structure Shows (cls : State CBSIZE) (line : Line CBSIZE) : Prop where
  bytes : ∃ rest, cls.buf = line.text ++ rest
  num : cls.num = line.before.length
  eol : cls.eol_num = line.text.length
  insert : cls.insert = line.insert
  hist : cls.hist = line.hist
  plain : NUL ∉ line.text

structure Same (cls cls' : State CBSIZE) : Prop where
  size : cls'.buf.length = cls.buf.length
  len : cls'.len = cls.len
  history : cls'.history = cls.history
  cmd_complete : cls'.cmd_complete = cls.cmd_complete

/-- The line is shown in a buffer that is otherwise the same. -/
def Becomes (cls : State CBSIZE) (line : Line CBSIZE) (cls' : State CBSIZE) : Prop := Shows cls' line ∧ Same cls cls'

end line

/-! ## One key -/

theorem string_front {text : List UInt8} (plain : NUL ∉ text) (rest : List UInt8) : string (text ++ NUL :: rest) = text := by
  rw [string,takeWhile_append_of_pos]
  · simp
  · intro c member
    simpa using fun same : c = NUL => plain (same ▸ member)

theorem memmove_front {front more bytes tail : List UInt8} {src : ℕ} (inside : src ≤ (front ++ more).length)
    (here : (front ++ more).drop src = bytes ++ tail) (fits : bytes.length ≤ more.length) :
    memmove (front ++ more) front.length src bytes.length = some (front ++ bytes ++ more.drop bytes.length) := by
  have total := congrArg List.length here
  rw [length_drop,@List.length_append _ bytes] at total
  rw [memmove,if_pos (by omega),here,take_left]
  exact write_behind front.length front more bytes rfl fits

theorem without_word_prefix (text : List UInt8) : ∃ cut, text = without_word text ++ cut := by
  obtain ⟨blanks,first⟩ := dropWhile_suffix (p := fun c : UInt8 => decide (c = 32)) (l := text.reverse)
  obtain ⟨word,second⟩ := dropWhile_suffix (p := fun c : UInt8 => decide (c ≠ 32)) (l := text.reverse.dropWhile (· = 32))
  refine ⟨word.reverse ++ blanks.reverse,?_⟩
  rw [without_word,← append_assoc,← reverse_append,second,← reverse_append,first,reverse_reverse]

theorem erase_eq {CBSIZE : ℕ} {cls : State CBSIZE} (inside : cls.num ≤ cls.eol_num) :
    ERASE_TO_EOL cls = { cls with eol_num := cls.num } := by
  obtain ⟨buf,num,eol_num,_,_,_,_,_⟩ := cls
  rcases Nat.lt_or_eq_of_le inside with more | same
  · exact if_pos more
  · simp only at same
    rw [same]
    exact if_neg (lt_irrefl eol_num)

theorem refresh_eq {CBSIZE : ℕ} {cls : State CBSIZE} (inside : cls.num ≤ cls.eol_num) :
    REFRESH_TO_EOL cls = { cls with num := cls.eol_num } := by
  obtain ⟨buf,num,eol_num,_,_,_,_,_⟩ := cls
  rcases Nat.lt_or_eq_of_le inside with more | same
  · exact if_pos more
  · simp only at same
    rw [same]
    exact if_neg (lt_irrefl eol_num)

theorem Line.same {CBSIZE : ℕ} {line : Line CBSIZE} {before after : List UInt8} (front : before = line.before) (back : after = line.after) :
    (⟨before,after,line.insert,line.hist⟩ : Line CBSIZE) = line := by
  rw [front,back]

section step
variable {CBSIZE : ℕ} {cls : State CBSIZE} {line : Line CBSIZE} (shows : Shows cls line)
include shows

theorem Shows.num_le : cls.num ≤ cls.eol_num := by
  rw [shows.num,shows.eol,Line.text,length_append]
  omega

theorem Shows.at_end : cls.num = cls.eol_num ↔ line.after = [] := by
  rw [shows.num,shows.eol,Line.text,length_append]
  constructor
  · intro same
    exact length_eq_zero_iff.mp (by omega)
  · intro empty
    rw [empty,length_nil,Nat.add_zero]

/-- A key that leaves the bytes alone. -/
theorem Shows.moves {before after : List UInt8} (same : before ++ after = line.text) {num : ℕ} (numIs : num = before.length)
    {insert insert' : Bool} (insertIs : insert' = insert) :
    Becomes cls ⟨before,after,insert,line.hist⟩ { cls with num := num, insert := insert' } :=
  ⟨⟨by rw [Line.text,same]; exact shows.bytes,numIs,by rw [shows.eol,← same]; rfl,insertIs,shows.hist,
    by rw [Line.text,same]; exact shows.plain⟩,rfl,rfl,rfl,rfl⟩

/-- A key that takes characters from the text. -/
theorem Shows.shrinks {before after : List UInt8} {buf : List UInt8} (size : buf.length = cls.buf.length)
    (bytes : ∃ rest, buf = before ++ after ++ rest) (part : ∀ c ∈ before ++ after, c ∈ line.text) {num eol_num : ℕ}
    (numIs : num = before.length) (eolIs : eol_num = (before ++ after).length) :
    Becomes cls ⟨before,after,line.insert,line.hist⟩ { cls with buf := buf, num := num, eol_num := eol_num } :=
  ⟨⟨bytes,numIs,eolIs,shows.insert,shows.hist,fun member => shows.plain (part NUL member)⟩,size,rfl,rfl,rfl⟩

/-- A typed character, in a buffer with room for it. -/
theorem add_char_shows {c : UInt8} (some_char : c ≠ NUL) (some_limit : 0 < cls.len) (uint : cls.len < 2^32) (insert : Bool)
    (room : line.text.length < cls.buf.length) :
    ∃ cls', cread_add_char cls c insert = some cls' ∧ Becomes cls (line.typed cls.len insert c) cls' := by
  obtain ⟨rest,bytes⟩ := shows.bytes
  have limit : (cls.len+(2^32-1))%2^32 = cls.len-1 := by omega
  have grows : (insert = true ∨ cls.num = cls.eol_num) ↔ (insert = true ∨ line.after = []) := by rw [shows.at_end]
  have full : cls.eol_num > cls.len-1 ↔ cls.len ≤ line.text.length := by
    rw [shows.eol]
    omega
  unfold cread_add_char Line.typed
  simp only [limit,grows,full]
  by_cases refused : (insert = true ∨ line.after = []) ∧ cls.len ≤ line.text.length
  · rw [if_pos refused,if_pos refused]
    exact ⟨cls,rfl,shows,rfl,rfl,rfl,rfl⟩
  rw [if_neg refused,if_neg refused]
  have numIs := shows.num
  have eolIs := shows.eol
  rw [Line.text,length_append] at eolIs
  have textIs : line.text = line.before ++ line.after := rfl
  obtain ⟨x,rest,rfl⟩ : ∃ x more, rest = x :: more := by
    apply exists_cons_of_length_pos
    rw [bytes,length_append] at room
    omega
  have shape : cls.buf = line.before ++ (line.after ++ x :: rest) := by rw [bytes,textIs,append_assoc]
  have plain := shows.plain
  let kept := if insert = true then line.after else line.after.drop 1
  let wlen := (if insert = true ∨ line.after = [] then cls.eol_num+1 else cls.eol_num)-cls.num
  -- the place for the character, with what stands behind it already where it belongs
  have moved : ∃ y more, (if insert = true ∧ wlen > 1 then memmove cls.buf (cls.num+1) cls.num (wlen-1) else some cls.buf) =
      some (line.before ++ y :: (kept ++ more)) ∧ kept.length+more.length = line.after.length+rest.length := by
    cases afterIs : line.after with
    | nil =>
      refine ⟨x,rest,?_,by simp [kept,afterIs]⟩
      have single : wlen = 1 := by simp [wlen,afterIs,numIs,eolIs]
      rw [if_neg (by omega),shape,afterIs]
      simp [kept,afterIs]
    | cons d after =>
      rw [afterIs,length_cons] at eolIs
      by_cases inserts : insert = true
      · have keptIs : kept = d :: after := by simp [kept,inserts,afterIs]
        have wide : wlen-1 = (d :: after).length := by simp only [wlen,inserts,true_or,if_true,length_cons]; omega
        have front : cls.buf = (line.before ++ [d]) ++ (after ++ x :: rest) := by rw [shape,afterIs]; simp
        have place : cls.num+1 = (line.before ++ [d]).length := by rw [numIs]; simp
        have run := @memmove_front (line.before ++ [d]) (after ++ x :: rest) (d :: after) (x :: rest) cls.num
          (by rw [numIs]; simp) (by rw [numIs]; simp) (by simp)
        refine ⟨d,(after ++ x :: rest).drop (d :: after).length,?_,?_⟩
        · rw [if_pos ⟨inserts,by rw [length_cons] at wide; omega⟩,wide,place,front,run,keptIs]
          simp
        · rw [keptIs,length_drop]
          simp only [length_append,length_cons]
          omega
      · refine ⟨d,x :: rest,?_,by simp [kept,inserts,afterIs]; omega⟩
        rw [if_neg fun both => inserts both.1,shape,afterIs]
        simp [kept,inserts,afterIs]
  obtain ⟨y,more,run,length⟩ := moved
  simp only [wlen] at run
  have written := write_behind cls.num line.before (y :: (kept ++ more)) [c] numIs.symm (by simp)
  let eol_num := if insert = true ∨ line.after = [] then cls.eol_num+1 else cls.eol_num
  refine ⟨{ cls with buf := line.before ++ [c] ++ (kept ++ more), num := cls.num+1, eol_num := eol_num },?_,
    ⟨⟨more,?_⟩,?_,?_,shows.insert,shows.hist,?_⟩,?_,rfl,rfl,rfl⟩
  · simp only [run,bind_eq_bind,bind_some,written]
    rfl
  · simp [Line.text,kept]
  · simp [numIs]
  · by_cases inserts : insert = true
    · simp [eol_num,inserts,Line.text,eolIs]
      omega
    · cases afterIs : line.after with
      | nil | cons d after =>
        rw [afterIs] at eolIs
        simp [eol_num,inserts,Line.text,eolIs,afterIs]
  · have part : ∀ d ∈ kept, d ∈ line.after := by
      intro d member
      by_cases inserts : insert = true
      · simpa [kept,inserts] using member
      · simp only [kept,inserts] at member
        exact mem_of_mem_drop member
    intro member
    simp only [Line.text,mem_append,mem_singleton] at member
    rcases member with (old | new) | behind
    · exact plain (mem_append_left _ old)
    · exact some_char new.symm
    · exact plain (mem_append_right _ (part NUL behind))
  · rw [shape]
    simp only [length_append,length_cons,length_nil]
    omega

theorem Shows.cuts {kept cut : List UInt8} (beforeIs : line.before = kept ++ cut) {more : List UInt8}
    (behind : ∃ tail, cls.buf = line.text ++ tail ∧ line.after ++ tail = more) {n : ℕ} (least : line.after.length ≤ n) (inside : n ≤ more.length) :
    ∃ buf, memmove cls.buf kept.length cls.num n = some buf ∧ buf.length = cls.buf.length ∧ ∃ rest, buf = kept ++ line.after ++ rest := by
  obtain ⟨tail,bytes,moreIs⟩ := behind
  have shape : cls.buf = kept ++ (cut ++ more) := by
    rw [bytes,Line.text,beforeIs,← moreIs]
    simp
  have numIs : cls.num = (kept ++ cut).length := by rw [shows.num,beforeIs]
  have taken : (more.take n).length = n := by rw [length_take]; omega
  have run := @memmove_front kept (cut ++ more) (more.take n) (more.drop n) cls.num (by rw [numIs]; simp) (by
    rw [numIs,← append_assoc,drop_left,take_append_drop]) (by rw [taken]; simp; omega)
  rw [taken,← shape] at run
  refine ⟨_,run,?_,?_⟩
  · rw [shape]
    simp only [length_append,length_drop,taken]
    omega
  · obtain ⟨rest,restIs⟩ : ∃ rest, more.take n = line.after ++ rest :=
      ⟨tail.take (n-line.after.length),by rw [← moreIs,take_append,take_of_length_le least]⟩
    exact ⟨rest ++ (cut ++ more).drop n,by rw [restIs]; simp⟩

theorem recalled_shows (found : Option (Stored CBSIZE) × Hist CBSIZE) :
    (∃ cls', recalled cls found = some cls' ∧ Becomes cls (line.replaced found) cls') ∨
      recalled cls found = none ∧ cls.buf.length ≤ (line.replaced found).text.length := by
  obtain ⟨found,hist⟩ := found
  cases found with
  | none =>
    exact .inl ⟨{ cls with hist := hist },rfl,⟨shows.bytes,shows.num,shows.eol,shows.insert,rfl,shows.plain⟩,rfl,rfl,rfl,rfl⟩
  | some hline =>
    have textIs : (line.replaced (some hline,hist)).text = hline.1 := by simp [Line.replaced,Line.text]
    have start : ∀ cls : State CBSIZE, ERASE_TO_EOL (BEGINNING_OF_LINE cls) = { cls with num := 0, eol_num := 0 } :=
      fun cls => erase_eq (Nat.zero_le _)
    simp only [recalled,start]
    by_cases fits : hline.1.length < cls.buf.length
    · left
      have written := write_behind 0 [] cls.buf (hline.1 ++ [NUL]) rfl (by simp; omega)
      have bufIs : [] ++ (hline.1 ++ [NUL]) ++ cls.buf.drop (hline.1 ++ [NUL]).length =
          hline.1 ++ NUL :: cls.buf.drop (hline.1.length+1) := by simp
      rw [nil_append cls.buf,bufIs] at written
      refine ⟨_,by simp only [written,bind_eq_bind,bind_some]; rfl,?_,?_⟩
      · rw [refresh_eq (Nat.zero_le _)]
        have long : string (hline.1 ++ NUL :: cls.buf.drop (hline.1.length+1)) = hline.1 := string_front hline.2.1 _
        exact ⟨⟨NUL :: cls.buf.drop (hline.1.length+1),by rw [textIs]⟩,congrArg List.length long,
          by rw [textIs]; exact congrArg List.length long,shows.insert,rfl,by rw [textIs]; exact hline.2.1⟩
      · rw [refresh_eq (Nat.zero_le _)]
        refine ⟨?_,rfl,rfl,rfl⟩
        simp only [length_append,length_cons,length_drop]
        omega
    · right
      rw [write_outside (by simp; omega),textIs]
      exact ⟨rfl,by omega⟩

theorem completed_shows (complete : Complete) (last : line.after = []) (room : line.text.length < cls.buf.length) :
    let completes := (write cls.buf cls.num [NUL]).bind fun buf => (cmd_auto_complete CBSIZE complete buf cls.num).bind fun done =>
      some { cls with buf := done.1, num := done.2, eol_num := cls.eol_num+(done.2-cls.num) }
    (∃ cls', completes = some cls' ∧ Becomes cls (line.completed complete) cls') ∨
      completes = none ∧ cls.buf.length ≤ (line.completed complete).text.length := by
  intro completes
  obtain ⟨rest,bytes⟩ := shows.bytes
  have textIs : line.text = line.before := by rw [Line.text,last,append_nil]
  have plain := shows.plain
  have numIs := shows.num
  have eolIs := shows.eol
  rw [textIs] at bytes room plain eolIs
  have ended := write_behind cls.num line.before rest [NUL] numIs.symm (by
    rw [bytes,length_append] at room
    simp
    omega)
  have size : (line.before ++ NUL :: rest.drop 1).length = cls.buf.length := by
    rw [bytes,length_append] at room
    rw [bytes]
    simp only [length_append,length_cons,length_drop]
    omega
  have same : ∀ buf : List UInt8, buf.length = cls.buf.length → (∃ rest, buf = line.before ++ rest) →
      Becomes cls line { cls with buf := buf, num := cls.num, eol_num := cls.eol_num+(cls.num-cls.num) } := by
    intro buf length shape
    refine ⟨⟨by rw [textIs]; exact shape,numIs,?_,shows.insert,shows.hist,shows.plain⟩,length,rfl,rfl,rfl⟩
    rw [Nat.sub_self,Nat.add_zero]
    exact shows.eol
  have opened : completes = (cmd_auto_complete CBSIZE complete (line.before ++ NUL :: rest.drop 1) cls.num).bind fun done =>
      some { cls with buf := done.1, num := done.2, eol_num := cls.eol_num+(done.2-cls.num) } := by
    simp only [completes]
    rw [bytes,ended,bind_some]
    simp
  rw [opened,cmd_auto_complete,string_front plain]
  unfold Line.completed
  cases complete line.before with
  | none => exact .inl ⟨_,rfl,same _ size ⟨_,rfl⟩⟩
  | some added =>
    cases added with
    | none => exact .inl ⟨_,rfl,same _ size ⟨_,rfl⟩⟩
    | some s =>
      simp only [numIs]
      by_cases long : line.before.length+s.1.length+2 ≥ CBSIZE
      · rw [if_pos long,if_pos long,← numIs]
        exact .inl ⟨_,rfl,same _ size ⟨_,rfl⟩⟩
      rw [if_neg long,if_neg long]
      by_cases fits : line.before.length+s.1.length < cls.buf.length
      · have written := write_behind line.before.length line.before (NUL :: rest.drop 1) (s.1 ++ [NUL]) rfl (by
          rw [length_append] at size
          simp only [length_append,length_cons,length_nil] at size ⊢
          omega)
        have bufIs : line.before ++ (s.1 ++ [NUL]) ++ (NUL :: rest.drop 1).drop (s.1 ++ [NUL]).length =
            (line.before ++ s.1) ++ NUL :: (rest.drop 1).drop s.1.length := by simp
        rw [bufIs] at written
        have newText : ({ line with before := line.before ++ s.1 } : Line CBSIZE).text = line.before ++ s.1 := by simp [Line.text,last]
        refine .inl ⟨{ cls with
            buf := (line.before ++ s.1) ++ NUL :: (rest.drop 1).drop s.1.length
            num := line.before.length+s.1.length
            eol_num := cls.eol_num+(line.before.length+s.1.length-line.before.length) },by rw [written]; rfl,
          ⟨⟨_,by rw [newText]⟩,by simp,?_,shows.insert,shows.hist,?_⟩,?_,rfl,rfl,rfl⟩
        · rw [newText,length_append,eolIs]
          simp
        · rw [newText]
          intro member
          rcases mem_append.mp member with old | new
          · exact plain old
          · exact s.2 new
        · rw [← size]
          simp only [length_append,length_cons,length_drop] at size ⊢
          omega
      · refine .inr ⟨?_,by simp [Line.text,last]; omega⟩
        rw [write_outside (by rw [size]; simp; omega)]
        rfl

/-- A key of the `switch` has no outcome only for a line that does not leave room for the
    terminator. -/
theorem process_key_shows (complete : Complete) {c : UInt8} (some_char : c ≠ NUL) (some_limit : 0 < cls.len) (uint : cls.len < 2^32)
    (room : line.text.length < cls.buf.length) :
    (∃ cls', process_key complete cls c = some cls' ∧
        Becomes cls (line.key complete cls.len cls.history cls.cmd_complete c) cls') ∨
      process_key complete cls c = none ∧
        cls.buf.length ≤ (line.key complete cls.len cls.history cls.cmd_complete c).text.length := by
  have numIs := shows.num
  have eolIs := shows.eol
  obtain ⟨rest,bytes⟩ := shows.bytes
  have stays : Becomes cls line cls := ⟨shows,rfl,rfl,rfl,rfl⟩
  have insertIs := shows.insert
  have typed : ∃ cls', cread_add_char cls c cls.insert = some cls' ∧ Becomes cls (line.typed cls.len line.insert c) cls' := by
    rw [← insertIs]
    exact add_char_shows shows some_char some_limit uint cls.insert room
  have lengths : line.text.length = line.before.length+line.after.length := length_append
  obtain ⟨x,rest,rfl⟩ : ∃ x more, rest = x :: more := by
    apply exists_cons_of_length_pos
    rw [bytes,length_append] at room
    omega
  have start : cls.num = 0 ↔ line.before = [] := by rw [numIs,length_eq_zero_iff]
  have inside : cls.num < cls.eol_num ↔ line.after ≠ [] := shows.num_le.lt_iff_ne.trans (not_congr shows.at_end)
  unfold process_key Line.key
  cases key_of c with
  | home =>
    left
    dsimp only
    exact ⟨_,rfl,shows.moves (show [] ++ line.text = line.text from rfl) rfl shows.insert⟩
  | right =>
    left
    dsimp only
    cases afterIs : line.after with
    | nil =>
      rw [if_neg (mt inside.mp (not_not_intro afterIs)),Line.same (by simp) (by simp [afterIs])]
      exact ⟨cls,rfl,stays⟩
    | cons d after =>
      rw [if_pos (inside.mpr (by simp [afterIs]))]
      exact ⟨_,rfl,shows.moves (by rw [Line.text,afterIs]; simp) (by rw [numIs]; simp) shows.insert⟩
  | left =>
    left
    dsimp only
    by_cases first : line.before = []
    · rw [if_neg (not_not_intro (start.mpr first)),Line.same (by simp [first]) (by simp [first])]
      exact ⟨cls,rfl,stays⟩
    · rw [if_pos (mt start.mp first)]
      exact ⟨_,rfl,shows.moves (by rw [← append_assoc,take_append_drop]; rfl) (by rw [length_take,← numIs]; omega)
        shows.insert⟩
  | delete =>
    left
    dsimp only
    cases afterIs : line.after with
    | nil =>
      rw [if_neg (mt inside.mp (not_not_intro afterIs)),Line.same rfl (by simp [afterIs])]
      exact ⟨cls,rfl,stays⟩
    | cons d after =>
      rw [if_pos (inside.mpr (by simp [afterIs]))]
      rw [afterIs,length_cons] at lengths
      have shape : cls.buf = line.before ++ d :: (after ++ x :: rest) := by
        rw [bytes,Line.text,afterIs]
        simp
      have wlen : cls.eol_num-cls.num-1 = after.length := by omega
      obtain ⟨buf,run,size,more⟩ : ∃ buf, (if cls.eol_num-cls.num-1 ≠ 0 then memmove cls.buf cls.num (cls.num+1) (cls.eol_num-cls.num-1)
          else some cls.buf) = some buf ∧ buf.length = cls.buf.length ∧ ∃ more, buf = line.before ++ after ++ more := by
        by_cases none_ : after = []
        · rw [if_neg (by rw [wlen,none_]; simp)]
          exact ⟨_,rfl,rfl,d :: ([] ++ x :: rest),by rw [shape,none_,append_nil]⟩
        · have run := @memmove_front line.before (d :: (after ++ x :: rest)) after (x :: rest) (cls.num+1) (by rw [numIs]; simp)
            (by rw [numIs]; simp) (by simp; omega)
          rw [if_pos (by rw [wlen]; simpa using none_),wlen,shape,numIs]
          rw [numIs] at run
          refine ⟨_,run,?_,_,rfl⟩
          simp only [length_append,length_cons,length_drop]
          omega
      refine ⟨_,by rw [run]; rfl,shows.shrinks size more ?_ numIs (by rw [length_append]; omega)⟩
      intro e member
      rw [Line.text,afterIs]
      simp only [mem_append,mem_cons] at member ⊢
      tauto
  | kill =>
    left
    dsimp only
    rw [erase_eq shows.num_le]
    exact ⟨_,rfl,shows.shrinks rfl ⟨line.after ++ x :: rest,by rw [append_nil,bytes,Line.text,append_assoc]⟩
      (by intro e member; exact mem_append_left _ (by simpa using member)) numIs (by rw [append_nil]; exact numIs)⟩
  | last =>
    left
    dsimp only
    rw [refresh_eq shows.num_le]
    exact ⟨_,rfl,shows.moves (append_nil _) shows.eol shows.insert⟩
  | mode =>
    left
    dsimp only
    exact ⟨_,rfl,shows.moves rfl numIs (congrArg not shows.insert)⟩
  | word =>
    left
    dsimp only
    have taken : cls.buf.take cls.num = line.before := by
      rw [bytes,Line.text,append_assoc,numIs,take_left]
    rw [taken]
    by_cases first : line.before = []
    · rw [if_neg (not_not_intro (start.mpr first)),Line.same (by simp [first,without_word]) rfl]
      exact ⟨cls,rfl,stays⟩
    rw [if_pos (mt start.mp first)]
    obtain ⟨cut,beforeIs⟩ := without_word_prefix line.before
    have wide := congrArg List.length beforeIs
    rw [length_append] at wide
    obtain ⟨buf,run,size,more⟩ := shows.cuts beforeIs ⟨_,bytes,rfl⟩ (Nat.le_succ _) (by simp)
    have n : cls.eol_num-(cls.num-(without_word line.before).length)-(without_word line.before).length+1 = line.after.length+1 := by omega
    refine ⟨_,by rw [n,run]; rfl,shows.shrinks size more ?_ rfl (by rw [length_append]; omega)⟩
    intro e member
    rw [Line.text,beforeIs]
    simp only [mem_append] at member ⊢
    tauto
  | line =>
    left
    dsimp only
    rw [erase_eq (Nat.zero_le _)]
    exact ⟨_,rfl,shows.shrinks rfl ⟨cls.buf,rfl⟩ (by simp) rfl rfl⟩
  | backspace =>
    left
    dsimp only
    by_cases first : line.before = []
    · rw [if_neg (not_not_intro (start.mpr first)),Line.same (by simp [first]) rfl]
      exact ⟨cls,rfl,stays⟩
    rw [if_pos (mt start.mp first)]
    have kept : (line.before.take (line.before.length-1)).length = cls.num-1 := by
      rw [length_take]
      omega
    obtain ⟨buf,run,size,more⟩ := shows.cuts (take_append_drop (line.before.length-1) _).symm ⟨_,bytes,rfl⟩ le_rfl (by simp)
    have some_before := mt start.mp first
    have n : cls.eol_num-cls.num = line.after.length := by omega
    rw [kept] at run
    refine ⟨_,by rw [n,run]; rfl,shows.shrinks size more ?_ kept.symm (by rw [length_append,kept]; omega)⟩
    intro e member
    rcases mem_append.mp member with old | behind
    · exact mem_append_left _ (mem_of_mem_take old)
    · exact mem_append_right _ behind
  | prev =>
    dsimp only
    by_cases asked : cls.history = true
    · rw [if_pos asked,if_pos asked,shows.hist]
      exact recalled_shows shows (hist_prev line.hist)
    · rw [if_neg asked,if_neg asked]
      exact .inl ⟨cls,rfl,stays⟩
  | next =>
    dsimp only
    by_cases asked : cls.history = true
    · rw [if_pos asked,if_pos asked,shows.hist]
      exact recalled_shows shows (hist_next line.hist)
    · rw [if_neg asked,if_neg asked]
      exact .inl ⟨cls,rfl,stays⟩
  | tab =>
    dsimp only
    by_cases asked : cls.cmd_complete = true
    · rw [if_pos asked,if_pos asked]
      by_cases last : line.after = []
      · rw [if_pos last,if_neg (mt inside.mp (not_not_intro last))]
        exact completed_shows shows complete last room
      · rw [if_neg last,if_pos (inside.mpr last)]
        exact .inl ⟨cls,rfl,stays⟩
    · rw [if_neg asked,if_neg asked]
      exact .inl typed
  | other => exact .inl typed

end step

section limit
variable {CBSIZE : ℕ} (complete : Complete) {line : Line CBSIZE} {limit : ℕ} (within : line.text.length ≤ limit)
include within

theorem typed_within (insert : Bool) (c : UInt8) : (line.typed limit insert c).text.length ≤ limit := by
  unfold Line.typed
  by_cases refused : (insert = true ∨ line.after = []) ∧ limit ≤ line.text.length
  · rw [if_pos refused]
    exact within
  rw [if_neg refused]
  have lengths : line.text.length = line.before.length+line.after.length := length_append
  by_cases inserts : insert = true
  · have small : ¬limit ≤ line.text.length := fun full => refused ⟨.inl inserts,full⟩
    simp [Line.text,inserts]
    omega
  cases afterIs : line.after with
  | nil =>
    have small : ¬limit ≤ line.text.length := fun full => refused ⟨.inr afterIs,full⟩
    rw [afterIs] at lengths
    simp [Line.text,inserts]
    simp at lengths
    omega
  | cons d after =>
    rw [afterIs] at lengths
    simp [Line.text,inserts]
    simp at lengths
    omega

theorem key_within {history cmd_complete : Bool} (asked : history ∨ cmd_complete → limit = CBSIZE) (c : UInt8) :
    (line.key complete limit history cmd_complete c).text.length ≤ limit := by
  have lengths : line.text.length = line.before.length+line.after.length := length_append
  have replaced : history = true → ∀ found : Option (Stored CBSIZE) × Hist CBSIZE, (line.replaced found).text.length ≤ limit := by
    rintro listed ⟨found,hist⟩
    cases found with
    | none => exact within
    | some hline =>
      rw [asked (.inl listed)]
      simpa [Line.replaced,Line.text] using hline.2.2
  unfold Line.key
  cases key_of c with
  | home => exact within
  | right => simp [Line.text]; omega
  | left =>
    simp only [Line.text,← append_assoc,take_append_drop]
    exact within
  | delete | kill => simp [Line.text]; omega
  | last => simpa [Line.text] using within
  | mode => exact within
  | word =>
    obtain ⟨cut,beforeIs⟩ := without_word_prefix line.before
    have wide := congrArg List.length beforeIs
    rw [length_append] at wide
    simp [Line.text]
    omega
  | line => simp [Line.text]
  | backspace => simp [Line.text]; omega
  | prev | next =>
    by_cases listed : history = true
    · simpa only [if_pos listed] using replaced listed _
    · simpa only [if_neg listed] using within
  | tab =>
    by_cases completes : cmd_complete = true
    · simp only [if_pos completes]
      by_cases last : line.after = []
      · rw [if_pos last]
        unfold Line.completed
        cases complete line.before with
        | none => exact within
        | some added =>
          cases added with
          | none => exact within
          | some s =>
            by_cases long : line.before.length+s.1.length+2 ≥ CBSIZE
            · simpa only [if_pos long] using within
            · have whole := asked (.inr completes)
              simp only [if_neg long,Line.text,last]
              simp
              omega
      · rw [if_neg last]
        exact within
    · simp only [if_neg completes]
      exact typed_within within line.insert c
  | other => exact typed_within within line.insert c

end limit

/-! ## All keys -/

section keys
variable {CBSIZE : ℕ} {cls : State CBSIZE} {line : Line CBSIZE} (complete : Complete)

/-- The terminator behind the line is inside the buffer if the line is shorter than that. -/
theorem Shows.ends (shows : Shows cls line) :
    (line.text.length < cls.buf.length ∧ ∃ buf, write cls.buf cls.eol_num [NUL] = some buf ∧ string buf = line.text ∧
        Becomes cls line { cls with buf := buf }) ∨
      cls.buf.length ≤ line.text.length ∧ write cls.buf cls.eol_num [NUL] = none := by
  obtain ⟨rest,bytes⟩ := shows.bytes
  have eolIs := shows.eol
  by_cases room : line.text.length < cls.buf.length
  · left
    have fits : 1 ≤ rest.length := by
      rw [bytes,length_append] at room
      omega
    have written := write_behind cls.eol_num line.text rest [NUL] eolIs.symm fits
    rw [append_assoc,← bytes] at written
    refine ⟨room,_,written,string_front shows.plain _,⟨⟨_,rfl⟩,shows.num,eolIs,shows.insert,shows.hist,shows.plain⟩,?_,rfl,rfl,rfl⟩
    rw [bytes]
    simp only [length_append,length_cons,length_nil,length_drop]
    omega
  · exact .inr ⟨by omega,write_outside (by rw [length_singleton]; omega)⟩

structure Asked (cls : State CBSIZE) : Prop where
  some_limit : 0 < cls.len
  uint : cls.len < 2^32
  whole : cls.history ∨ cls.cmd_complete → cls.len = CBSIZE

theorem Asked.same {cls' : State CBSIZE} (asked : Asked cls) (same : Same cls cls') : Asked cls' := by
  obtain ⟨-,len,history,cmd_complete⟩ := same
  exact ⟨by rw [len]; exact asked.some_limit,by rw [len]; exact asked.uint,by rw [len,history,cmd_complete]; exact asked.whole⟩

abbrev State.ideal (cls : State CBSIZE) (line : Line CBSIZE) (keys : List UInt8) : Line CBSIZE × Answer :=
  line.keys complete cls.len cls.history cls.cmd_complete keys

/-- The editor stands where it should: the cursor and the end are in order, the line is shown,
    and a line that is done with is the string in the buffer. -/
structure Agrees (cls : State CBSIZE) (ideal : Line CBSIZE × Answer) : Prop where
  ordered : cls.num ≤ cls.eol_num ∧ cls.eol_num ≤ cls.len
  shown : ideal.2 ≠ .interrupted → Shows cls ideal.1
  ended : ideal.2 ≠ .again → string cls.buf = ideal.1.text

/-- The keys are processed inside the buffer just where every line on the way leaves room for
    its terminator. -/
theorem feed_agrees (shows : Shows cls line) (asked : Asked cls) (within : line.text.length ≤ cls.len)
    (room : line.text.length < cls.buf.length) (keys : List UInt8) :
    ((∃ result, feed complete cls keys = some result) ↔
      ∀ front, front <+: keys → (cls.ideal complete line front).1.text.length < cls.buf.length) ∧
    ∀ result, feed complete cls keys = some result →
      result.2 = (cls.ideal complete line keys).2 ∧ Agrees result.1 (cls.ideal complete line keys) ∧ result.1.len = cls.len := by
  induction keys generalizing cls line with
  | nil =>
    refine ⟨⟨?_,fun _ => ⟨_,rfl⟩⟩,?_⟩
    · intro _ front begins
      rw [prefix_nil.mp begins]
      exact room
    · intro result run
      obtain rfl := Option.some.inj run
      exact ⟨rfl,⟨⟨shows.num_le,by rw [shows.eol]; exact within⟩,fun _ => shows,fun more => absurd rfl more⟩,rfl⟩
  | cons c keys ih =>
    have first : (∀ front, front <+: c :: keys → (cls.ideal complete line front).1.text.length < cls.buf.length) ↔
        ∀ front, front <+: keys → (cls.ideal complete line (c :: front)).1.text.length < cls.buf.length := by
      constructor
      · intro all front begins
        exact all (c :: front) (cons_prefix_cons.mpr ⟨rfl,begins⟩)
      · intro all front begins
        rcases prefix_cons_iff.mp begins with rfl | ⟨more,rfl,later⟩
        · exact room
        · exact all more later
    rw [first]
    by_cases silent : c = 0
    · have idle : ∀ front, cls.ideal complete line (c :: front) = cls.ideal complete line front := fun front => by
        rw [State.ideal,Line.keys,if_pos silent]
      have run : feed complete cls (c :: keys) = feed complete cls keys := by
        rw [feed,cread_line_process_ch,if_pos silent]
        rfl
      simp only [idle,run]
      exact ih shows asked within room
    obtain ⟨-,buf,written,string_is,shown,same⟩ | ⟨full,-⟩ := shows.ends
    swap
    · omega
    by_cases enter : c = 10
    · have done : ∀ front, cls.ideal complete line (c :: front) = (line,.entered) := fun front => by
        rw [State.ideal,Line.keys,if_neg silent,if_pos enter]
      have run : feed complete cls (c :: keys) = some ({ cls with buf := buf },.entered) := by
        rw [feed,cread_line_process_ch,if_neg silent,if_pos enter,written]
        rfl
      simp only [done,run]
      refine ⟨⟨fun _ _ _ => room,fun _ => ⟨_,rfl⟩⟩,?_⟩
      rintro result result_is
      obtain rfl := Option.some.inj result_is
      exact ⟨rfl,⟨⟨shows.num_le,by rw [shows.eol]; exact within⟩,fun _ => shown,fun _ => string_is⟩,rfl⟩
    by_cases breaks : c = 3
    · have done : ∀ front, cls.ideal complete line (c :: front) = (⟨[],[],line.insert,line.hist⟩,.interrupted) := fun front => by
        rw [State.ideal,Line.keys,if_neg silent,if_neg enter,if_pos breaks]
      have cleared := write_behind 0 [] cls.buf [NUL] rfl (by rw [length_singleton]; omega)
      have run : feed complete cls (c :: keys) = some ({ cls with buf := [] ++ [NUL] ++ cls.buf.drop [NUL].length },.interrupted) := by
        rw [feed,cread_line_process_ch,if_neg silent,if_neg enter,if_pos breaks]
        rw [nil_append cls.buf] at cleared
        rw [cleared]
        rfl
      simp only [done,run]
      refine ⟨⟨fun _ _ _ => by simp [Line.text]; omega,fun _ => ⟨_,rfl⟩⟩,?_⟩
      rintro result result_is
      obtain rfl := Option.some.inj result_is
      exact ⟨rfl,⟨⟨shows.num_le,by rw [shows.eol]; exact within⟩,fun none_ => absurd rfl none_,fun _ => by simp [string,Line.text]⟩,rfl⟩
    have goes : ∀ front, cls.ideal complete line (c :: front) =
        cls.ideal complete (line.key complete cls.len cls.history cls.cmd_complete c) front := fun front => by
      rw [State.ideal,Line.keys,if_neg silent,if_neg enter,if_neg breaks]
    have outside : cls.buf.length ≤ (line.key complete cls.len cls.history cls.cmd_complete c).text.length →
        ¬∀ front, front <+: keys → (cls.ideal complete (line.key complete cls.len cls.history cls.cmd_complete c) front).1.text.length <
          cls.buf.length := by
      intro long all
      have here := all [] List.nil_prefix
      simp only [State.ideal,Line.keys] at here
      omega
    simp only [goes]
    obtain ⟨cls',processed,shows',same'⟩ | ⟨none_,long⟩ :=
      process_key_shows shows complete silent asked.some_limit asked.uint room
    · rcases shows'.ends with ⟨room',buf',written',-,shown',same''⟩ | ⟨long,none_⟩
      · have run : feed complete cls (c :: keys) = feed complete { cls' with buf := buf' } keys := by
          rw [feed,cread_line_process_ch,if_neg silent,if_neg enter,if_neg breaks,processed]
          simp only [bind_eq_bind,bind_some,written',if_true]
        have size : buf'.length = cls.buf.length := same''.size.trans same'.size
        have later := ih shown' ((asked.same same').same same'') (by
          show _ ≤ cls'.len
          rw [same'.len]
          exact key_within complete within asked.whole c) (by
          show _ < buf'.length
          rw [size,← same'.size]
          exact room')
        have idealIs : ∀ line front, ({ cls' with buf := buf' } : State CBSIZE).ideal complete line front = cls.ideal complete line front := by
          intro line front
          rw [State.ideal,State.ideal,same'.len,same'.history,same'.cmd_complete]
        simp only [idealIs,size] at later
        rw [run]
        refine ⟨later.1,fun result found => ?_⟩
        obtain ⟨answer,agrees,len⟩ := later.2 result found
        exact ⟨answer,agrees,len.trans same'.len⟩
      · have run : feed complete cls (c :: keys) = none := by
          rw [feed,cread_line_process_ch,if_neg silent,if_neg enter,if_neg breaks,processed]
          simp only [bind_eq_bind,bind_some,none_,bind_none]
        rw [same'.size] at long
        simp only [run]
        exact ⟨⟨fun found => by simp at found,fun all => absurd all (outside long)⟩,fun _ impossible => by simp at impossible⟩
    · have run : feed complete cls (c :: keys) = none := by
        rw [feed,cread_line_process_ch,if_neg silent,if_neg enter,if_neg breaks,none_]
        rfl
      simp only [run]
      exact ⟨⟨fun found => by simp at found,fun all => absurd all (outside long)⟩,fun _ impossible => by simp at impossible⟩

end keys

/-! ## A whole line -/

section whole
variable {CBSIZE : ℕ} (complete : Complete)

theorem add_str_shows {cls : State CBSIZE} {line : Line CBSIZE} (shows : Shows cls line) (last : line.after = []) (asked : Asked cls)
    {str : List UInt8} (plain : NUL ∉ str) (room : line.before.length+str.length < cls.buf.length) :
    ∃ cls', cread_add_str false cls str = some cls' ∧
      Becomes cls { line with before := line.before ++ str.take (cls.len-line.before.length) } cls' := by
  induction str generalizing cls line with
  | nil =>
    refine ⟨cls,rfl,?_,rfl,rfl,rfl,rfl⟩
    simpa using shows
  | cons c str ih =>
    have some_char : c ≠ NUL := fun same => plain (same ▸ mem_cons_self)
    have rest_plain : NUL ∉ str := fun member => plain (mem_cons_of_mem _ member)
    have textIs : line.text = line.before := by rw [Line.text,last,append_nil]
    rw [length_cons] at room
    obtain ⟨cls',added,shows',same⟩ := add_char_shows shows some_char asked.some_limit asked.uint false (by rw [textIs]; omega)
    rw [cread_add_str,added,bind_eq_bind,bind_some]
    unfold Line.typed at shows'
    rw [textIs,last] at shows'
    by_cases full : cls.len ≤ line.before.length
    · rw [if_pos ⟨.inr rfl,full⟩] at shows'
      obtain ⟨cls'',run,shown,same'⟩ := ih shows' last (asked.same same) rest_plain (by rw [same.size]; omega)
      refine ⟨cls'',run,?_,?_⟩
      · rw [same.len,Nat.sub_eq_zero_of_le full] at shown
        rw [Nat.sub_eq_zero_of_le full]
        exact shown
      · exact ⟨same'.size.trans same.size,same'.len.trans same.len,same'.history.trans same.history,same'.cmd_complete.trans same.cmd_complete⟩
    · rw [if_neg fun both => full both.2] at shows'
      obtain ⟨cls'',run,shown,same'⟩ := ih shows' rfl (asked.same same) rest_plain (by rw [same.size]; simp; omega)
      refine ⟨cls'',run,?_,?_⟩
      · obtain ⟨k,more⟩ : ∃ k, cls.len-line.before.length = k+1 := ⟨cls.len-line.before.length-1,by omega⟩
        have fewer : cls.len-(line.before ++ [c]).length = k := by
          rw [length_append,length_singleton]
          omega
        rw [same.len,fewer,append_assoc,singleton_append] at shown
        rw [more,take_succ_cons,last]
        exact shown
      · exact ⟨same'.size.trans same.size,same'.len.trans same.len,same'.history.trans same.history,same'.cmd_complete.trans same.cmd_complete⟩

/-- Behind every one of the keys the editor stands where it should. -/
def Exact (buf : List UInt8) (buf_size : ℕ) (history cmd_complete : Bool) (hist : Hist CBSIZE) (keys : List UInt8) : Prop :=
  ∀ front, front <+: keys → ∃ result, edited complete buf buf_size history cmd_complete hist front = some result ∧
    let ideal := Line.keys complete buf_size history cmd_complete ⟨(string buf).take buf_size,[],true,hist⟩ front
    result.2 = ideal.2 ∧ Agrees result.1 ideal ∧ result.1.len = buf_size

/-- The editor is the ideal one, in its buffer, just for the keys behind which the ideal line
    is always shorter than the buffer. -/
theorem edited_exact_iff {buf : List UInt8} (terminated : NUL ∈ buf) {buf_size : ℕ} (some_limit : 0 < buf_size) (uint : buf_size < 2^32)
    {history cmd_complete : Bool} (whole : history ∨ cmd_complete → buf_size = CBSIZE) (hist : Hist CBSIZE) (keys : List UInt8) :
    Exact complete buf buf_size history cmd_complete hist keys ↔
      ∀ front, front <+: keys →
        (Line.keys complete buf_size history cmd_complete ⟨(string buf).take buf_size,[],true,hist⟩ front).1.text.length < buf.length := by
  obtain ⟨text,rest,bufIs,free⟩ := List.eq_append_cons_of_mem terminated
  have textIs : string buf = text := by rw [bufIs,string_front free]
  have plain : NUL ∉ string buf := textIs ▸ free
  have short : (string buf).length < buf.length := by
    rw [textIs,bufIs,List.length_append,List.length_cons]
    omega
  have empty : Shows (⟨buf,0,0,buf_size,true,false,false,hist⟩ : State CBSIZE) ⟨[],[],true,hist⟩ :=
    ⟨⟨buf,rfl⟩,rfl,rfl,rfl,rfl,by simp [Line.text]⟩
  obtain ⟨cls,init,shows,size,len,-,-⟩ := add_str_shows empty rfl ⟨some_limit,uint,by simp⟩ plain (by simpa using short)
  simp only [List.nil_append,List.length_nil,Nat.sub_zero] at shows
  have asked : Asked { cls with history := history, cmd_complete := cmd_complete } := ⟨by rw [len]; exact some_limit,by rw [len]; exact uint,by rw [len]; exact whole⟩
  have shown : Shows { cls with history := history, cmd_complete := cmd_complete } ⟨(string buf).take buf_size,[],true,hist⟩ :=
    ⟨shows.bytes,shows.num,shows.eol,shows.insert,shows.hist,shows.plain⟩
  have idealIs : ∀ line front, ({ cls with history := history, cmd_complete := cmd_complete } : State CBSIZE).ideal complete line front =
      Line.keys complete buf_size history cmd_complete line front := by
    intro line front
    rw [State.ideal,len]
  have runs : ∀ front, edited complete buf buf_size history cmd_complete hist front =
      feed complete { cls with history := history, cmd_complete := cmd_complete } front := by
    intro front
    rw [edited,cli_cread_init,init]
    rfl
  have agrees := fun front => feed_agrees complete shown asked (by simp [Line.text,len]) (by
    show _ < cls.buf.length
    rw [size]
    simp [Line.text]
    omega) front
  simp only [idealIs,size] at agrees
  constructor
  · intro exact_ front begins
    obtain ⟨result,run,-⟩ := exact_ front begins
    rw [runs] at run
    exact (agrees front).1.mp ⟨result,run⟩ front List.prefix_rfl
  · intro all front begins
    obtain ⟨result,run⟩ := (agrees front).1.mpr fun more later => all more (later.trans begins)
    obtain ⟨answer,stands,same⟩ := (agrees front).2 result run
    exact ⟨result,by rw [runs]; exact run,answer,stands,same.trans len⟩

end whole

def no_hist {CBSIZE : ℕ} : Hist CBSIZE := ⟨fun _ => ⟨[],by simp⟩,0,0,-1⟩

theorem short_line_exact : Exact (fun _ => none) [97,0,0,0] 4 true true (@no_hist 4) [98,2,4,10] := by
  refine (@edited_exact_iff 4 (fun _ => none) [97,0,0,0] (by decide) 4 (by decide) (by decide) true true (fun _ => rfl)
    no_hist [98,2,4,10]).mpr ?_
  intro front begins
  have fronts := (List.mem_inits _ _).mpr begins
  clear begins
  revert front
  decide

/-- Four characters in an array of four bytes, which is as long as the limit. -/
theorem full_line_outside :
    cli_readline_into_buffer (fun _ => none) [0,0,0,0] (@no_hist 4) [97,98,99,100] = none ∧
      ¬Exact (fun _ => none) [0,0,0,0] 4 true true (@no_hist 4) [97,98,99,100] := by
  refine ⟨rfl,?_⟩
  intro stands
  obtain ⟨result,run,-⟩ := stands _ List.prefix_rfl
  cases run

end UBoot.CliReadline
