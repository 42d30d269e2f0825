import Mathlib.Tactic

/-!
Conversion between UTF-8 and UTF-16, `lib/charset.c`. A string is the list of its units from the
pointer on, and reads behind the end of the list find the terminator. The characters of a
well-formed string are Lean's `Char`.

The readers undo the writers, but `utf16_get` does not take the first and the last low surrogate
(`Misread`).
-/
namespace UBoot.Charset
open List

/-- The end of `get_code`: `ch` is the last byte but one, and `code` has the bits in
    front of it. -/
def get_code_last {σ : Type} (read_u8 : σ → UInt8 × σ) (code ch : ℕ) (data : σ) : ℤ × σ :=
  -- 0xc0 - 0xdf or continuation byte (0x80 - 0xbf)
  let code := code + (ch &&& 0x3f) <<< 6
  let (ch,data) := read_u8 data
  if ch.toNat < 0x80 ∨ ch.toNat > 0xbf then (-1,data)
  else (((ch.toNat &&& 0x3f) + code : ℕ),data)

/-- The middle of `get_code`, for a sequence of three or four bytes; `ch` has the bits
    twelve to seventeen. -/
def get_code_middle {σ : Type} (read_u8 : σ → UInt8 × σ) (code ch : ℕ) (data : σ) : ℤ × σ :=
  let code := code + ch <<< 12
  if (0xD800 ≤ code ∧ code ≤ 0xDFFF) ∨ 0x110000 ≤ code then (-1,data)
  else
    let (ch,data) := read_u8 data
    if ch.toNat < 0x80 ∨ ch.toNat > 0xbf then (-1,data)
    else get_code_last read_u8 code ch.toNat data

/-- `get_code`: one code point from the stream that `read_u8` reads. -/
def get_code {σ : Type} (read_u8 : σ → UInt8 × σ) (data : σ) : ℤ × σ :=
  let (c,data) := read_u8 data
  let ch := c.toNat
  if ch = 0 then (0,data)
  else if 0xc2 ≤ ch ∧ ch ≤ 0xf4 then
    if 0xe0 ≤ ch then
      if 0xf0 ≤ ch then
        -- 0xf0 - 0xf4
        let code := (ch &&& 0x07) <<< 18
        let (ch,data) := read_u8 data
        if ch.toNat < 0x80 ∨ ch.toNat > 0xbf then (-1,data)
        else get_code_middle read_u8 code (ch.toNat &&& 0x3f) data
      else
        -- 0xe0 - 0xef
        get_code_middle read_u8 0 (ch &&& 0x0f) data
    else get_code_last read_u8 0 ch data
  else if 0x80 ≤ ch then (-1,data)
  else (ch,data)

/-- `read_string`: the pointer stays on the terminator. -/
def read_string : List UInt8 → UInt8 × List UInt8
  | [] => (0,[])
  | c :: src => if c = 0 then (0,c::src) else (c,src)

def utf8_get (src : List UInt8) : ℤ × List UInt8 := get_code read_string src

/-- `utf8_put`: the return code and what stands in front of the new `*dst`. -/
def utf8_put (code : ℤ) (dst : List UInt8) : ℤ × List UInt8 :=
  if (0xD800 ≤ code ∧ code ≤ 0xDFFF) ∨ 0x110000 ≤ code then (-1,dst)
  else if code ≤ 0x007F then (0,dst ++ [.ofInt code])
  else
    let bits := code.toNat
    let front : List UInt8 :=
      if code ≤ 0x07FF then [.ofNat (bits >>> 6 ||| 0xC0)]
      else
        (if code < 0x10000 then [.ofNat (bits >>> 12 ||| 0xE0)]
          else [.ofNat (bits >>> 18 ||| 0xF0),.ofNat ((bits >>> 12 &&& 0x3F) ||| 0x80)]) ++
        [.ofNat ((bits >>> 6 &&& 0x3F) ||| 0x80)]
    (0,dst ++ front ++ [.ofNat ((bits &&& 0x3F) ||| 0x80)])

/-- `utf16_get`: one code point and the units behind it. -/
def utf16_get (src : List UInt16) : ℤ × List UInt16 :=
  match src with
  | [] => (0,[])
  | unit :: src =>
    let code := unit.toNat
    if code = 0 then (0,unit::src)
    else if 0xDC00 ≤ code ∧ code ≤ 0xDFFF then (-1,src)
    else if 0xD800 ≤ code ∧ code ≤ 0xDBFF then
      match src with
      | [] => (-1,[])
      | low :: behind =>
        if low = 0 then (-1,src)
        else
          let code := (code &&& 0x3ff) <<< 10 + 0x10000
          let code2 := low.toNat
          if code2 ≤ 0xDC00 ∨ 0xDFFF ≤ code2 then (-1,behind)
          else ((code + (code2 &&& 0x3ff) : ℕ),behind)
    else (code,src)

/-- `utf16_put`: the return code and what stands in front of the new `*dst`. -/
def utf16_put (code : ℤ) (dst : List UInt16) : ℤ × List UInt16 :=
  if (0xD800 ≤ code ∧ code ≤ 0xDFFF) ∨ 0x110000 ≤ code then (-1,dst)
  else if code < 0x10000 then (0,dst ++ [.ofInt code])
  else
    let bits := (code - 0x10000).toNat
    (0,dst ++ [.ofNat (bits >>> 10 ||| 0xD800),.ofNat ((bits &&& 0x3ff) ||| 0xDC00)])

/-- A code point as the copies write it: a question mark for a sequence that is no
    code point. -/
def printable (code : ℤ) : ℤ := if code < 0 then ('?'.toNat : ℤ) else code

/-- The loop of `utf8_utf16_strncpy`. -/
def utf8_utf16_loop : ℕ → List UInt8 → List UInt16 → List UInt16
  | 0, _, dst => dst
  | count+1, src, dst =>
    if src.headD 0 = 0 then dst
    else
      let (code,src) := utf8_get src
      utf8_utf16_loop count src (utf16_put (printable code) dst).2

/-- `utf8_utf16_strncpy`: the units at `*dst`, with the terminator. -/
def utf8_utf16_strncpy (dst : List UInt16) (src : List UInt8) (count : ℕ) : ℤ × List UInt16 :=
  (0,utf8_utf16_loop count src dst ++ [0])

/-- The loop of `utf16_utf8_strncpy`. -/
def utf16_utf8_loop : ℕ → List UInt16 → List UInt8 → List UInt8
  | 0, _, dst => dst
  | count+1, src, dst =>
    if src.headD 0 = 0 then dst
    else
      let (code,src) := utf16_get src
      utf16_utf8_loop count src (utf8_put (printable code) dst).2

/-- `utf16_utf8_strncpy`: the bytes at `*dst`, with the terminator. -/
def utf16_utf8_strncpy (dst : List UInt8) (src : List UInt16) (count : ℕ) : ℤ × List UInt8 :=
  (0,utf16_utf8_loop count src dst ++ [0])

/-- The UTF-8 form of a string. -/
def bytes (chars : List Char) : List UInt8 := chars.flatMap String.utf8EncodeChar

/-- The UTF-16 form of a character: one unit, or a high and a low surrogate. -/
def utf16_units (c : Char) : List UInt16 :=
  if c.toNat < 0x10000 then [.ofNat c.toNat]
  else [.ofNat (0xD800 + (c.toNat - 0x10000) / 0x400),.ofNat (0xDC00 + (c.toNat - 0x10000) % 0x400)]

/-- The UTF-16 form of a string. -/
def units (chars : List Char) : List UInt16 := chars.flatMap utf16_units

/-- The low surrogate of the character is 0xDC00 or 0xDFFF. -/
def Misread (c : Char) : Prop := 0x10000 ≤ c.toNat ∧ (c.toNat % 0x400 = 0 ∨ c.toNat % 0x400 = 0x3ff)

instance (c : Char) : Decidable (Misread c) := inferInstanceAs (Decidable (_ ∧ _))

/-- What `utf16_utf8_strncpy` makes of a character. -/
def shown (c : Char) : Char := if Misread c then '?' else c

/-! ## Reading and writing one character -/

theorem low_bits (n : ℕ) : n &&& 0x3f = n%64 := Nat.and_two_pow_sub_one_eq_mod n 6

theorem or_lead {b i a m : ℕ} (low : b < 2^i) (bits : m = 2^i*a) : b ||| m = b+m := by
  rw [bits,Nat.or_comm,← Nat.two_pow_add_eq_or_of_lt low,add_comm]

theorem continuation (n : ℕ) : (n &&& 0x3f) ||| 0x80 = n%64+0x80 := by
  rw [low_bits]
  exact or_lead (i := 6) (a := 2) (Nat.mod_lt _ (by decide)) rfl

variable {chars : List Char} {count n : ℕ} (c : Char) (src : List UInt8)

theorem char_ranges : c.toNat < 0xD800 ∨ 0xDFFF < c.toNat ∧ c.toNat < 0x110000 := c.valid

theorem char_pos {c : Char} (char : c ≠ '\x00') : 0 < c.toNat := by
  rcases Nat.eq_zero_or_pos c.toNat with zero | pos
  · exact absurd (Char.toNat_inj.mp zero) char
  · exact pos

theorem byte_value (byte : n < 256) : (UInt8.ofNat n).toNat = n := UInt8.toNat_ofNat_of_lt' byte

theorem read_byte (pos : 0 < n) (byte : n < 256) (src : List UInt8) :
    read_string (.ofNat n::src) = (.ofNat n,src) := by
  have value := byte_value byte
  have some_byte : UInt8.ofNat n ≠ 0 := by
    intro zero
    rw [zero] at value
    exact absurd value.symm (by simpa using pos.ne')
  rw [read_string,if_neg some_byte]

theorem get_code_last_reads {code ch n : ℕ} :
    get_code_last read_string code ch (.ofNat (n%64+0x80)::src) =
      (((n%64 + (code + ch%64*64) : ℕ) : ℤ),src) := by
  rw [get_code_last,read_byte (by omega) (by omega)]
  dsimp only
  rw [byte_value (by omega),if_neg (by omega),low_bits,low_bits,Nat.shiftLeft_eq]
  exact Prod.ext (by dsimp only; omega) rfl

theorem get_code_middle_reads {code ch m n : ℕ}
    (legal : ¬ ((0xD800 ≤ code + ch*4096 ∧ code + ch*4096 ≤ 0xDFFF) ∨ 0x110000 ≤ code + ch*4096)) :
    get_code_middle read_string code ch (.ofNat (m%64+0x80)::.ofNat (n%64+0x80)::src) =
      (((n%64 + (code + ch*4096 + m%64*64) : ℕ) : ℤ),src) := by
  rw [get_code_middle,Nat.shiftLeft_eq]
  dsimp only
  rw [if_neg (by simpa using legal),read_byte (by omega) (by omega)]
  dsimp only
  rw [byte_value (by omega),if_neg (by omega),get_code_last_reads]
  exact Prod.ext (by dsimp only; omega) rfl

theorem utf8_get_reads {c : Char} (char : c ≠ '\x00') (src : List UInt8) :
    utf8_get (String.utf8EncodeChar c ++ src) = ((c.toNat : ℤ),src) := by
  have pos := char_pos char
  have ranges := char_ranges c
  rw [utf8_get,get_code.eq_def,String.utf8EncodeChar]
  change 0 < c.val.toNat at pos
  change c.val.toNat < 0xD800 ∨ 0xDFFF < c.val.toNat ∧ c.val.toNat < 0x110000 at ranges
  change _ = ((c.val.toNat : ℤ),src)
  generalize c.val.toNat = v at pos ranges
  dsimp only
  by_cases one : v ≤ 0x7f
  · rw [if_pos one,singleton_append,read_byte pos (by omega)]
    dsimp only
    rw [byte_value (by omega),if_neg (by omega),if_neg (by omega),if_neg (by omega)]
  rw [if_neg one]
  by_cases two : v ≤ 0x7ff
  · rw [if_pos two,cons_append,read_byte (by omega) (by omega)]
    dsimp only
    rw [byte_value (by omega),if_neg (by omega),if_pos (by omega),if_neg (by omega),cons_append,nil_append,
      get_code_last_reads]
    exact Prod.ext (by dsimp only; omega) rfl
  rw [if_neg two]
  by_cases three : v ≤ 0xffff
  · rw [if_pos three,cons_append,read_byte (by omega) (by omega)]
    dsimp only
    have low : (v/4096%16+0xe0) &&& 0x0f = v/4096 := by
      rw [show (0x0f : ℕ) = 2^4-1 from rfl,Nat.and_two_pow_sub_one_eq_mod]
      omega
    rw [byte_value (by omega),if_neg (by omega),if_pos (by omega),if_pos (by omega),if_neg (by omega),low,cons_append,
      cons_append,nil_append,get_code_middle_reads _ (by omega)]
    exact Prod.ext (by dsimp only; omega) rfl
  · rw [if_neg three,cons_append,read_byte (by omega) (by omega)]
    dsimp only
    have low : ((v/262144%8+0xf0) &&& 0x07) = v/262144 := by
      rw [show (0x07 : ℕ) = 2^3-1 from rfl,Nat.and_two_pow_sub_one_eq_mod]
      omega
    rw [byte_value (by omega),if_neg (by omega),if_pos (by omega),if_pos (by omega),if_pos (by omega),low,cons_append,
      read_byte (by omega) (by omega)]
    dsimp only
    rw [byte_value (by omega),if_neg (by omega),cons_append,cons_append,nil_append,low_bits,Nat.shiftLeft_eq,
      get_code_middle_reads _ (by omega)]
    exact Prod.ext (by dsimp only; omega) rfl

theorem utf8_put_writes (dst : List UInt8) :
    utf8_put c.toNat dst = (0,dst ++ String.utf8EncodeChar c) := by
  have ranges := char_ranges c
  rw [utf8_put,if_neg (by omega),String.utf8EncodeChar]
  change _ = (0,dst ++ if c.toNat ≤ 0x7f then _ else _)
  change c.toNat < 0xD800 ∨ 0xDFFF < c.toNat ∧ c.toNat < 0x110000 at ranges
  rw [show c.val.toNat = c.toNat from rfl]
  generalize c.toNat = v at ranges
  dsimp only
  by_cases one : v ≤ 0x7f
  · rw [if_pos one,if_pos (by omega),UInt8.ofInt,show Int.toNat ((v : ℤ)%2^8) = v from by omega]
  rw [if_neg one,if_neg (by omega),Int.toNat_natCast,continuation,continuation,continuation]
  simp only [Nat.shiftRight_eq_div_pow,Nat.reducePow]
  by_cases two : v ≤ 0x7ff
  · have lead : v/64 ||| 0xC0 = v/64%32+0xC0 := by
      rw [or_lead (b := v/64) (i := 6) (a := 3) (m := 0xC0) (by omega) rfl]
      omega
    rw [if_pos two,if_pos (by omega),lead,append_assoc,singleton_append]
  rw [if_neg two,if_neg (by omega)]
  by_cases three : v ≤ 0xffff
  · have lead : v/4096 ||| 0xE0 = v/4096%16+0xE0 := by
      rw [or_lead (b := v/4096) (i := 5) (a := 7) (m := 0xE0) (by omega) rfl]
      omega
    rw [if_pos three,if_pos (by omega),lead]
    simp only [append_assoc,cons_append,nil_append]
  · have lead : v/262144 ||| 0xF0 = v/262144%8+0xF0 := by
      rw [or_lead (b := v/262144) (i := 4) (a := 15) (m := 0xF0) (by omega) rfl]
      omega
    rw [if_neg three,if_neg (by omega),lead]
    simp only [append_assoc,cons_append,nil_append]

theorem unit_value (unit : n < 2^16) : (UInt16.ofNat n).toNat = n := UInt16.toNat_ofNat_of_lt' unit

theorem utf16_put_writes (dst : List UInt16) :
    utf16_put c.toNat dst = (0,dst ++ utf16_units c) := by
  have ranges := char_ranges c
  rw [utf16_put,if_neg (by omega),utf16_units]
  by_cases single : c.toNat < 0x10000
  · rw [if_pos single,if_pos (by omega),UInt16.ofInt,show Int.toNat ((c.toNat : ℤ)%2^16) = c.toNat from by omega]
  have bits : ((c.toNat : ℤ)-0x10000).toNat = c.toNat-0x10000 := by omega
  have high : (c.toNat-0x10000) >>> 10 ||| 0xD800 = 0xD800+(c.toNat-0x10000)/0x400 := by
    rw [Nat.shiftRight_eq_div_pow,or_lead (b := (c.toNat-0x10000)/2^10) (i := 11) (a := 27) (m := 0xD800) (by omega) rfl]
    omega
  have low : ((c.toNat-0x10000) &&& 0x3ff) ||| 0xDC00 = 0xDC00+(c.toNat-0x10000)%0x400 := by
    rw [show (0x3ff : ℕ) = 2^10-1 from rfl,Nat.and_two_pow_sub_one_eq_mod,
      or_lead (b := (c.toNat-0x10000)%2^10) (i := 10) (a := 55) (m := 0xDC00) (by omega) rfl]
    omega
  rw [if_neg single,if_neg (by omega)]
  dsimp only
  rw [bits,high,low]

theorem printable_char : printable c.toNat = c.toNat := if_neg (by omega)

theorem utf16_get_reads {c : Char} (char : c ≠ '\x00') (src : List UInt16) :
    (utf16_get (utf16_units c ++ src)).2 = src ∧
      printable (utf16_get (utf16_units c ++ src)).1 = (shown c).toNat := by
  set tail := (c.toNat-0x10000)%0x400
  have pos := char_pos char
  have ranges := char_ranges c
  by_cases single : c.toNat < 0x10000
  · have read : ¬ Misread c := fun wide => absurd wide.1 (by omega)
    have value : utf16_get (utf16_units c ++ src) = ((c.toNat : ℤ),src) := by
      rw [utf16_units,if_pos single,singleton_append,utf16_get.eq_def]
      dsimp only
      rw [unit_value (by omega),if_neg (by omega),if_neg (by omega),if_neg (by omega)]
    rw [value,shown,if_neg read]
    exact ⟨rfl,printable_char c⟩
  have lead : utf16_get (utf16_units c ++ src) =
      if tail = 0 ∨ tail = 0x3ff then (-1,src) else ((c.toNat : ℤ),src) := by
    have some_unit : UInt16.ofNat (0xDC00+tail) ≠ 0 := by
      intro zero
      have value := unit_value (n := 0xDC00+tail) (by omega)
      rw [zero] at value
      exact absurd value (by rw [UInt16.toNat_zero]; omega)
    have high : (0xD800+(c.toNat-0x10000)/0x400) &&& 0x3ff = (c.toNat-0x10000)/0x400 := by
      rw [show (0x3ff : ℕ) = 2^10-1 from rfl,Nat.and_two_pow_sub_one_eq_mod]
      omega
    have low : (0xDC00+tail) &&& 0x3ff = tail := by
      rw [show (0x3ff : ℕ) = 2^10-1 from rfl,Nat.and_two_pow_sub_one_eq_mod]
      omega
    rw [utf16_units,if_neg single,cons_append,singleton_append,utf16_get.eq_def]
    dsimp only
    rw [unit_value (by omega),if_neg (by omega),if_neg (by omega),if_pos (by omega),if_neg some_unit,unit_value (by omega),
      high,low,Nat.shiftLeft_eq]
    refine if_congr (by omega) rfl (Prod.ext ?_ rfl)
    dsimp only
    omega
  by_cases misread : tail = 0 ∨ tail = 0x3ff
  · rw [lead,if_pos misread,shown,if_pos ⟨by omega,by omega⟩]
    exact ⟨rfl,rfl⟩
  · have read : ¬ Misread c := fun wide => misread (by have := wide.2; omega)
    rw [lead,if_neg misread,shown,if_neg read]
    exact ⟨rfl,printable_char c⟩

/-! ## Copying a string -/

theorem bytes_cons (chars : List Char) : bytes (c::chars) = String.utf8EncodeChar c ++ bytes chars := rfl

theorem units_cons (chars : List Char) : units (c::chars) = utf16_units c ++ units chars := rfl

theorem utf16_head {c : Char} (char : c ≠ '\x00') (src : List UInt16) : (utf16_units c ++ src).headD 0 ≠ 0 := by
  have pos := char_pos char
  have ranges := char_ranges c
  have some_unit {n : ℕ} (positive : 0 < n) (small : n < 2^16) : UInt16.ofNat n ≠ 0 := by
    intro zero
    have value := unit_value small
    rw [zero,UInt16.toNat_zero] at value
    omega
  rw [utf16_units]
  split
  · exact some_unit pos (by omega)
  · exact some_unit (by omega) (by omega)

theorem utf8_head {c : Char} (char : c ≠ '\x00') (src : List UInt8) :
    (String.utf8EncodeChar c ++ src).headD 0 ≠ 0 := by
  have pos := char_pos char
  have some_byte {n : ℕ} (positive : 0 < n) (small : n < 2^8) : UInt8.ofNat n ≠ 0 := by
    intro zero
    have value := byte_value small
    rw [zero,UInt8.toNat_zero] at value
    omega
  rw [String.utf8EncodeChar]
  change 0 < c.val.toNat at pos
  split
  · exact some_byte pos (by omega)
  · split
    · exact some_byte (by omega) (by omega)
    · split
      · exact some_byte (by omega) (by omega)
      · exact some_byte (by omega) (by omega)

theorem utf8_utf16_loop_copies (whole : '\x00' ∉ chars) (room : chars.length ≤ count)
    (rest : List UInt8) (dst : List UInt16) :
    utf8_utf16_loop count (bytes chars ++ 0 :: rest) dst = dst ++ units chars := by
  induction chars generalizing count dst with
  | nil =>
    rw [show units [] = [] from rfl,append_nil]
    cases count with
    | zero => rfl
    | succ count => rfl
  | cons c chars ih =>
    simp only [mem_cons,not_or] at whole
    obtain ⟨count,rfl⟩ : ∃ fewer, count = fewer+1 := ⟨count-1,by simp only [length_cons] at room; omega⟩
    simp only [length_cons,Nat.add_le_add_iff_right] at room
    have char := Ne.symm whole.1
    rw [bytes_cons,append_assoc,utf8_utf16_loop,if_neg (utf8_head char _),utf8_get_reads char]
    dsimp only
    rw [printable_char,utf16_put_writes,ih whole.2 room,units_cons,append_assoc]

theorem utf16_utf8_loop_copies (whole : '\x00' ∉ chars) (room : chars.length ≤ count)
    (rest : List UInt16) (dst : List UInt8) :
    utf16_utf8_loop count (units chars ++ 0 :: rest) dst = dst ++ bytes (chars.map shown) := by
  induction chars generalizing count dst with
  | nil =>
    rw [show bytes (List.map shown []) = [] from rfl,append_nil]
    cases count with
    | zero => rfl
    | succ count => rfl
  | cons c chars ih =>
    simp only [mem_cons,not_or] at whole
    obtain ⟨count,rfl⟩ : ∃ fewer, count = fewer+1 := ⟨count-1,by simp only [length_cons] at room; omega⟩
    simp only [length_cons,Nat.add_le_add_iff_right] at room
    have char := Ne.symm whole.1
    obtain ⟨behind,code⟩ := utf16_get_reads char (units chars ++ 0 :: rest)
    rw [units_cons,append_assoc,utf16_utf8_loop,if_neg (utf16_head char _)]
    dsimp only
    rw [behind,code,utf8_put_writes,ih whole.2 room,map_cons,bytes_cons,append_assoc]

/-! ## Round trips -/

def Readable (chars : List Char) : Prop := ∀ c ∈ chars, ¬ Misread c

/-- From UTF-16 to UTF-8 and back. -/
def utf16_round_trip (s : List UInt16) (count : ℕ) : List UInt16 :=
  (utf8_utf16_strncpy [] (utf16_utf8_strncpy [] s count).2 count).2

/-- From UTF-8 to UTF-16 and back. -/
def utf8_round_trip (t : List UInt8) (count : ℕ) : List UInt8 :=
  (utf16_utf8_strncpy [] (utf8_utf16_strncpy [] t count).2 count).2

theorem shown_readable (readable : Readable chars) : chars.map shown = chars := by
  have same : ∀ c ∈ chars, shown c = c := fun c member => if_neg (readable c member)
  rw [map_congr_left same,map_id']

theorem shown_whole (whole : '\x00' ∉ chars) : '\x00' ∉ chars.map shown := by
  intro member
  obtain ⟨c,inside,zero⟩ := mem_map.mp member
  by_cases misread : Misread c
  · rw [shown,if_pos misread] at zero
    exact absurd zero (by decide)
  · rw [shown,if_neg misread] at zero
    exact whole (zero ▸ inside)

theorem shown_flatMap {α : Type} {form : Char → List α}
    (shorter : ∀ c, Misread c → (form '?').length < (form c).length) (chars : List Char) :
    ((chars.map shown).flatMap form).length ≤ (chars.flatMap form).length ∧
      (((chars.map shown).flatMap form).length = (chars.flatMap form).length → Readable chars) := by
  induction chars with
  | nil => exact ⟨le_rfl,fun _ c member => absurd member not_mem_nil⟩
  | cons c chars ih =>
    obtain ⟨less,readable⟩ := ih
    simp only [map_cons,flatMap_cons,length_append]
    by_cases misread : Misread c
    · have gap := shorter c misread
      rw [shown,if_pos misread]
      constructor
      · omega
      · intro same
        omega
    · rw [shown,if_neg misread]
      constructor
      · omega
      · intro same d member
        rcases mem_cons.mp member with rfl | behind
        · exact misread
        · exact readable (by omega) d behind

theorem shown_same_iff {α : Type} {form : Char → List α}
    (shorter : ∀ c, Misread c → (form '?').length < (form c).length) (chars : List Char) :
    (chars.map shown).flatMap form = chars.flatMap form ↔ Readable chars := by
  constructor
  · intro same
    exact (shown_flatMap shorter chars).2 (congrArg List.length same)
  · intro readable
    rw [shown_readable readable]

theorem utf16_shorter (misread : Misread c) : (utf16_units '?').length < (utf16_units c).length := by
  have wide := misread.1
  rw [utf16_units,utf16_units,if_pos (by decide),if_neg (by omega)]
  exact Nat.lt_succ_self 1

theorem utf8_shorter (misread : Misread c) :
    (String.utf8EncodeChar '?').length < (String.utf8EncodeChar c).length := by
  have wide : 0x10000 ≤ c.val.toNat := misread.1
  rw [String.utf8EncodeChar.eq_def c,if_neg (by omega),if_neg (by omega),if_neg (by omega)]
  exact (by decide : 1 < 4)

theorem utf16_round_trip_eq (whole : '\x00' ∉ chars) (room : chars.length ≤ count) :
    utf16_round_trip (units chars ++ [0]) count = units (chars.map shown) ++ [0] := by
  rw [utf16_round_trip,utf16_utf8_strncpy,utf8_utf16_strncpy,utf16_utf8_loop_copies whole room,nil_append,
    utf8_utf16_loop_copies (shown_whole whole) (by rw [length_map]; exact room),nil_append]

theorem utf8_round_trip_eq (whole : '\x00' ∉ chars) (room : chars.length ≤ count) :
    utf8_round_trip (bytes chars ++ [0]) count = bytes (chars.map shown) ++ [0] := by
  rw [utf8_round_trip,utf16_utf8_strncpy,utf8_utf16_strncpy,utf8_utf16_loop_copies whole room,nil_append,
    utf16_utf8_loop_copies whole room,nil_append]

/-- Both round trips give the string back for exactly the strings without a
    character whose low surrogate is 0xDC00 or 0xDFFF. -/
theorem round_trips_iff (chars : List Char) (whole : '\x00' ∉ chars) (count : ℕ) (room : chars.length ≤ count) :
    (utf16_round_trip (units chars ++ [0]) count = units chars ++ [0] ↔ Readable chars) ∧
      (utf8_round_trip (bytes chars ++ [0]) count = bytes chars ++ [0] ↔ Readable chars) := by
  constructor
  · rw [utf16_round_trip_eq whole room,List.append_left_inj]
    exact shown_same_iff utf16_shorter chars
  · rw [utf8_round_trip_eq whole room,List.append_left_inj]
    exact shown_same_iff utf8_shorter chars

/-- A string with a character of each length. -/
theorem round_trips_iff_four_lengths :
    (utf16_round_trip (units ['a','ß','€','😀'] ++ [0]) 4 = units ['a','ß','€','😀'] ++ [0] ↔
        Readable ['a','ß','€','😀']) ∧
      (utf8_round_trip (bytes ['a','ß','€','😀'] ++ [0]) 4 = bytes ['a','ß','€','😀'] ++ [0] ↔
        Readable ['a','ß','€','😀']) ∧ Readable ['a','ß','€','😀'] := by
  obtain ⟨wide,narrow⟩ := round_trips_iff ['a','ß','€','😀'] (by decide) 4 (by decide)
  refine ⟨wide,narrow,?_⟩
  intro c member
  simp only [List.mem_cons,List.not_mem_nil,or_false] at member
  rcases member with rfl | rfl | rfl | rfl <;> decide

/-- The rat, U+1F400, has the low surrogate 0xDC00 and comes back as a question mark. -/
theorem rat_not_read_back :
    ¬ ∀ chars : List Char, '\x00' ∉ chars → ∀ count, chars.length ≤ count →
      utf16_round_trip (units chars ++ [0]) count = units chars ++ [0] ∧
      utf8_round_trip (bytes chars ++ [0]) count = bytes chars ++ [0] := by
  intro back
  have rat := (back ['🐀'] (by decide) 1 le_rfl).2
  exact absurd rat (by decide +kernel)

/-! ## Any bytes -/

/-- The loop of `utf8_utf16_strnlen`. -/
def utf8_utf16_strnlen_loop : ℕ → List UInt8 → ℕ → ℕ
  | 0, _, len => len
  | count+1, src, len =>
    if src.headD 0 = 0 then len
    else
      let (code,src) := utf8_get src
      if code = 0 then len
      else if code < 0 then utf8_utf16_strnlen_loop count src (len+1)
      else if code < 0x10000 then utf8_utf16_strnlen_loop count src (len+1)
      else utf8_utf16_strnlen_loop count src (len+2)

/-- `utf8_utf16_strnlen`: the units that the string will need. -/
def utf8_utf16_strnlen (src : List UInt8) (count : ℕ) : ℕ := utf8_utf16_strnlen_loop count src 0

def codes : ℕ → List UInt8 → List ℤ
  | 0, _ => []
  | count+1, src => if src.headD 0 = 0 then [] else (utf8_get src).1 :: codes count (utf8_get src).2

/-- The UTF-16 form of a code point, a question mark for a sequence that is none. -/
def code_units (code : ℤ) : List UInt16 :=
  if code < 0 then [.ofNat '?'.toNat]
  else if code < 0x10000 then [.ofInt code]
  else [.ofNat (0xD800 + (code - 0x10000).toNat / 0x400),.ofNat (0xDC00 + (code - 0x10000).toNat % 0x400)]

def Surrogate (code : ℤ) : Prop := 0xD800 ≤ code ∧ code ≤ 0xDFFF

/-- What `utf8_utf16_strncpy` writes for a code point. -/
def copied_units (code : ℤ) : List UInt16 := (utf16_put (printable code) []).2

theorem get_code_last_lt {code ch : ℕ} {data : List UInt8} {limit : ℤ} (below : code + 4096 ≤ limit) (some_ : 0 < limit) :
    (get_code_last read_string code ch data).1 < limit := by
  rw [get_code_last]
  dsimp only
  rw [low_bits,low_bits,Nat.shiftLeft_eq]
  split
  · dsimp only
    omega
  · dsimp only
    omega

theorem get_code_middle_lt {code ch : ℕ} {data : List UInt8} (whole : 4096 ∣ code) :
    (get_code_middle read_string code ch data).1 < 0x110000 := by
  obtain ⟨k,rfl⟩ := whole
  rw [get_code_middle,Nat.shiftLeft_eq]
  dsimp only
  split
  · dsimp only
    omega
  · split
    · dsimp only
      omega
    · exact get_code_last_lt (by push_cast; omega) (by omega)

theorem utf8_get_lt : (utf8_get src).1 < 0x110000 := by
  have byte : (read_string src).1.toNat < 256 := UInt8.toNat_lt _
  rw [utf8_get,get_code.eq_def]
  dsimp only
  split
  · dsimp only
    omega
  split
  · split
    · split
      · split
        · dsimp only
          omega
        · refine get_code_middle_lt ?_
          rw [Nat.shiftLeft_eq]
          exact Dvd.intro_left _ (by rw [show 2^18 = 64*4096 from rfl,← mul_assoc])
      · exact get_code_middle_lt (dvd_zero _)
    · exact get_code_last_lt (by norm_num) (by norm_num)
  · split
    · dsimp only
      omega
    · dsimp only
      omega

theorem codes_lt {src : List UInt8} {code : ℤ} (member : code ∈ codes count src) : code < 0x110000 := by
  induction count generalizing src with
  | zero => exact absurd member not_mem_nil
  | succ count ih =>
    rw [codes] at member
    split at member
    · exact absurd member not_mem_nil
    · rcases mem_cons.mp member with rfl | behind
      · exact utf8_get_lt src
      · exact ih behind

theorem utf16_put_append (code : ℤ) (dst : List UInt16) : (utf16_put code dst).2 = dst ++ (utf16_put code []).2 := by
  rw [utf16_put,utf16_put]
  split
  · rw [append_nil]
  · split
    · rfl
    · rfl

theorem utf8_utf16_loop_eq (count : ℕ) (src : List UInt8) (dst : List UInt16) :
    utf8_utf16_loop count src dst = dst ++ (codes count src).flatMap copied_units := by
  induction count generalizing src dst with
  | zero => rw [utf8_utf16_loop,codes,flatMap_nil,append_nil]
  | succ count ih =>
    rw [utf8_utf16_loop,codes]
    split
    · rw [flatMap_nil,append_nil]
    · dsimp only
      rw [ih,utf16_put_append,flatMap_cons,append_assoc,copied_units]

/-- The units are counted up to the first code point zero. -/
theorem utf8_utf16_strnlen_loop_eq (count : ℕ) (src : List UInt8) (len : ℕ) :
    utf8_utf16_strnlen_loop count src len =
      len + (((codes count src).takeWhile (· ≠ 0)).flatMap code_units).length := by
  induction count generalizing src len with
  | zero => rfl
  | succ count ih =>
    rw [utf8_utf16_strnlen_loop,codes]
    split
    · rfl
    dsimp only
    by_cases zero : (utf8_get src).1 = 0
    · rw [if_pos zero,zero,takeWhile_cons_of_neg (by simp)]
      rfl
    rw [if_neg zero,takeWhile_cons_of_pos (by simpa using zero),flatMap_cons,length_append,ih,ih,
      code_units]
    split
    · rw [length_singleton]
      omega
    · split
      · rw [length_singleton]
        omega
      · rw [length_cons,length_singleton]
        omega

theorem copied_surrogate {code : ℤ} (surrogate : Surrogate code) : copied_units code = [] := by
  rw [Surrogate] at surrogate
  rw [copied_units,printable,if_neg (by omega),utf16_put,if_pos (Or.inl surrogate)]

theorem copied_eq {code : ℤ} (below : code < 0x110000) (plain : ¬ Surrogate code) :
    copied_units code = code_units code := by
  rw [copied_units,printable,code_units]
  by_cases invalid : code < 0
  · rw [if_pos invalid,if_pos invalid]
    rfl
  rw [if_neg invalid,if_neg invalid,utf16_put,if_neg (by rw [Surrogate] at plain; omega)]
  by_cases single : code < 0x10000
  · rw [if_pos single,if_pos single]
    rfl
  have bound : (code-0x10000).toNat < 0x100000 := by omega
  rw [if_neg single,if_neg single]
  dsimp only
  generalize (code-0x10000).toNat = v at bound
  have high : v >>> 10 ||| 0xD800 = 0xD800+v/0x400 := by
    rw [Nat.shiftRight_eq_div_pow,or_lead (b := v/2^10) (i := 11) (a := 27) (m := 0xD800) (by omega) rfl]
    omega
  have low : (v &&& 0x3ff) ||| 0xDC00 = 0xDC00+v%0x400 := by
    rw [show (0x3ff : ℕ) = 2^10-1 from rfl,Nat.and_two_pow_sub_one_eq_mod,
      or_lead (b := v%2^10) (i := 10) (a := 55) (m := 0xDC00) (by omega) rfl]
    omega
  rw [high,low]
  rfl

theorem code_units_pos (code : ℤ) : 0 < (code_units code).length := by
  rw [code_units]
  split
  · exact Nat.one_pos
  · split
    · exact Nat.one_pos
    · exact Nat.two_pos

theorem zero_not_unit {code : ℤ} (below : code < 0x110000) (some_ : code ≠ 0) : 0 ∉ code_units code := by
  have some_unit {n : ℕ} (positive : 0 < n) (small : n < 2^16) : (0 : UInt16) ≠ UInt16.ofNat n := by
    intro zero
    have value := unit_value small
    rw [← zero,UInt16.toNat_zero] at value
    omega
  rw [code_units]
  split
  · decide
  · split
    · rw [mem_singleton,UInt16.ofInt]
      exact some_unit (by omega) (by omega)
    · simp only [mem_cons,not_mem_nil,or_false,not_or]
      exact ⟨some_unit (by omega) (by omega),some_unit (by omega) (by omega)⟩

end UBoot.Charset
