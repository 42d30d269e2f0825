import UBoot.Buffers
import UBoot.Charset

/-!
The stream decoders `utf8_to_utf32_stream` and `utf8_to_cp437_stream` of `lib/charset.c`. The
caller's buffer of five bytes is the only state; it holds a string, and an access outside the buffer
is a fault.

The buffer holds nothing between two calls, the beginning of a sequence (`Incomplete`), or a
sequence that was rejected with its last byte (`Stuck`), which the next byte drops.
-/
namespace UBoot.Utf8Stream
open UBoot.Buffers UBoot.Charset List Option

def ENOENT : ℤ := 2

/-- `codepage_437`: the code points of the characters 0x00 to 0x1f and 0x80 to 0xff. -/
def codepage_437 : List ℤ :=
  [0x0000,0x263a,0x263b,0x2665,0x2666,0x2663,0x2660,0x2022,
    0x25d8,0x25cb,0x25d9,0x2642,0x2640,0x266a,0x266b,0x263c,
    0x25ba,0x25c4,0x2195,0x203c,0x00b6,0x00a7,0x25ac,0x21a8,
    0x2191,0x2193,0x2192,0x2190,0x221f,0x2194,0x25b2,0x25bc,
    0x00c7,0x00fc,0x00e9,0x00e2,0x00e4,0x00e0,0x00e5,0x00e7,
    0x00ea,0x00eb,0x00e8,0x00ef,0x00ee,0x00ec,0x00c4,0x00c5,
    0x00c9,0x00e6,0x00c6,0x00f4,0x00f6,0x00f2,0x00fb,0x00f9,
    0x00ff,0x00d6,0x00dc,0x00a2,0x00a3,0x00a5,0x20a7,0x0192,
    0x00e1,0x00ed,0x00f3,0x00fa,0x00f1,0x00d1,0x00aa,0x00ba,
    0x00bf,0x2310,0x00ac,0x00bd,0x00bc,0x00a1,0x00ab,0x00bb,
    0x2591,0x2592,0x2593,0x2502,0x2524,0x2561,0x2562,0x2556,
    0x2555,0x2563,0x2551,0x2557,0x255d,0x255c,0x255b,0x2510,
    0x2514,0x2534,0x252c,0x251c,0x2500,0x253c,0x255e,0x255f,
    0x255a,0x2554,0x2569,0x2566,0x2560,0x2550,0x256c,0x2567,
    0x2568,0x2564,0x2565,0x2559,0x2558,0x2552,0x2553,0x256b,
    0x256a,0x2518,0x250c,0x2588,0x2584,0x258c,0x2590,0x2580,
    0x03b1,0x00df,0x0393,0x03c0,0x03a3,0x03c3,0x00b5,0x03c4,
    0x03a6,0x0398,0x03a9,0x03b4,0x221e,0x03c6,0x03b5,0x2229,
    0x2261,0x00b1,0x2265,0x2264,0x2320,0x2321,0x00f7,0x2248,
    0x00b0,0x2219,0x00b7,0x221a,0x207f,0x00b2,0x25a0,0x00a0]

/-- `utf_to_cp`: the return code and the new `*c`. -/
def utf_to_cp (c : ℤ) (codepage : List ℤ) : ℤ × ℤ :=
  if 0x80 ≤ c then
    match codepage.findIdx? (c = ·) with
    | some j => (0,if j < 0x20 then (j : ℤ) else ((j+0x60 : ℕ) : ℤ))
    | none => (-ENOENT,'?'.toNat)
  else (0,c)

/-- What one call of a decoder does: it returns, accesses memory outside the buffer, or
    is still in its loop. -/
inductive Call where
  | returns (s : ℤ) (buffer : List UInt8)
  | faults
  | loops
deriving DecidableEq

def strlen (buffer : List UInt8) : Option ℕ := buffer.findIdx? (· = 0)

/-- The byte and a terminator behind it at the end of the string; `end` and the buffer. -/
def append_byte (c : UInt8) (buffer : List UInt8) : Option (ℕ × List UInt8) := do
  let len ← strlen buffer
  let buffer ← write buffer len [c]
  let buffer ← write buffer (len+1) [0]
  some (len+1,buffer)

/-- The loop of both decoders, for as many rounds; they differ in what they return for
    a code point. -/
def utf8_stream (code_point : ℤ → ℤ) : ℕ → UInt8 → List UInt8 → Call
  | 0, _, _ => .loops
  | rounds+1, c, buffer =>
    match append_byte c buffer with
    | none => .faults
    | some (end_,buffer) =>
      let (s,pos) := utf8_get buffer
      if 0 < s then .returns (code_point s) (buffer.set 0 0)
      -- the pointer is as far behind the buffer's start as bytes are gone
      else if buffer.length-pos.length = end_ then .returns 0 buffer
      else utf8_stream code_point rounds c (buffer.set 0 0)

def utf8_to_utf32_stream (rounds : ℕ) (c : UInt8) (buffer : List UInt8) : Call := utf8_stream id rounds c buffer

def utf8_to_cp437_stream (rounds : ℕ) (c : UInt8) (buffer : List UInt8) : Call :=
  utf8_stream (fun s => (utf_to_cp s codepage_437).2) rounds c buffer

/-- The results of the calls for a sequence of bytes, and the buffer behind the last;
    nothing if a call does not return. -/
def feed (stream : UInt8 → List UInt8 → Call) : List UInt8 → List UInt8 → Option (List ℤ × List UInt8)
  | [], buffer => some ([],buffer)
  | c :: behind, buffer =>
    match stream c buffer with
    | .returns s buffer => (feed stream behind buffer).map fun (results,buffer) => (s::results,buffer)
    | _ => none

structure Holding (buffer held : List UInt8) : Prop where
  size : buffer.length = 5
  whole : 0 ∉ held
  string : held ++ [0] <+: buffer

def Trail (b : UInt8) : Prop := 0x80 ≤ b.toNat ∧ b.toNat ≤ 0xbf

/-- The second byte does not take the sequence out of the range of code points. -/
def Legal (a b : UInt8) : Prop := a.toNat = 0xf4 → b.toNat ≤ 0x8f

/-- The beginning of a sequence that the next byte is read with. -/
inductive Incomplete : List UInt8 → Prop
  | one {a : UInt8} : 0xc2 ≤ a.toNat → a.toNat ≤ 0xf4 → Incomplete [a]
  | two {a b : UInt8} : 0xe0 ≤ a.toNat → a.toNat ≤ 0xf4 → Trail b → Legal a b → Incomplete [a,b]
  | three {a b c : UInt8} : 0xf0 ≤ a.toNat → a.toNat ≤ 0xf4 → Trail b → Legal a b → Trail c → Incomplete [a,b,c]

/-- A sequence that is read to its end and gives no code point, whatever follows. -/
def Stuck (held : List UInt8) : Prop := held ≠ [] ∧ ∃ s ≤ 0, ∀ rest, utf8_get (held ++ rest) = (s,rest)

/-! ## Reading a sequence byte by byte -/

theorem read_some {c : UInt8} (some_byte : c ≠ 0) (rest : List UInt8) : read_string (c::rest) = (c,rest) := by
  rw [read_string,if_neg some_byte]

theorem trail_some {c : UInt8} (trail : Trail c) : c ≠ 0 := by
  rintro rfl
  exact absurd trail.1 (by decide)

theorem zero_not_trail : ¬ Trail 0 := fun trail => trail_some trail rfl

theorem not_trail {c : UInt8} (other : ¬ Trail c) : c.toNat < 0x80 ∨ 0xbf < c.toNat := by
  rw [Trail] at other
  omega

theorem last_trail {c : UInt8} (trail : Trail c) (code ch : ℕ) (rest : List UInt8) :
    get_code_last read_string code ch (c::rest) =
      ((((c.toNat &&& 0x3f)+(code+(ch &&& 0x3f) <<< 6) : ℕ) : ℤ),rest) := by
  rw [get_code_last,read_some (trail_some trail)]
  dsimp only
  rw [if_neg (by rw [Trail] at trail; omega)]

theorem last_other {c : UInt8} (other : ¬ Trail c) (code ch : ℕ) (rest : List UInt8) :
    get_code_last read_string code ch (c::rest) = (-1,(read_string (c::rest)).2) := by
  rw [get_code_last]
  by_cases zero : c = 0
  · rw [zero]
    rfl
  · rw [read_some zero]
    dsimp only
    rw [if_pos (not_trail other)]

variable {a x : UInt8} {ch code : ℕ} {results : List ℤ}

theorem middle_legal (whole : 4096 ∣ code) (below : code+ch <<< 12 < 0x110000) :
    ¬ ((0xD800 ≤ code+ch <<< 12 ∧ code+ch <<< 12 ≤ 0xDFFF) ∨ 0x110000 ≤ code+ch <<< 12) := by
  obtain ⟨k,rfl⟩ := whole
  rw [Nat.shiftLeft_eq] at below ⊢
  omega

theorem middle_trail {c : UInt8} (trail : Trail c) (whole : 4096 ∣ code) (below : code+ch <<< 12 < 0x110000)
    (rest : List UInt8) :
    get_code_middle read_string code ch (c::rest) = get_code_last read_string (code+ch <<< 12) c.toNat rest := by
  rw [get_code_middle]
  dsimp only
  rw [if_neg (middle_legal whole below),read_some (trail_some trail)]
  dsimp only
  rw [if_neg (by rw [Trail] at trail; omega)]

theorem middle_other {c : UInt8} (other : ¬ Trail c) (whole : 4096 ∣ code) (below : code+ch <<< 12 < 0x110000)
    (rest : List UInt8) :
    get_code_middle read_string code ch (c::rest) = (-1,(read_string (c::rest)).2) := by
  rw [get_code_middle]
  dsimp only
  rw [if_neg (middle_legal whole below)]
  by_cases zero : c = 0
  · rw [zero]
    rfl
  · rw [read_some zero]
    dsimp only
    rw [if_pos (not_trail other)]

theorem three_bits (a : ℕ) : a &&& 0x07 = a%8 := Nat.and_two_pow_sub_one_eq_mod a 3

theorem four_bits (a : ℕ) : a &&& 0x0f = a%16 := Nat.and_two_pow_sub_one_eq_mod a 4

theorem three_below (a : ℕ) : 0+(a &&& 0x0f) <<< 12 < 0x110000 := by
  rw [four_bits,Nat.shiftLeft_eq]
  omega

theorem four_whole (a : ℕ) : 4096 ∣ (a &&& 0x07) <<< 18 := by
  rw [Nat.shiftLeft_eq,show 2^18 = 64*4096 from rfl,← mul_assoc]
  exact Nat.dvd_mul_left _ _

theorem four_below {a b : UInt8} (lead : 0xf0 ≤ a.toNat ∧ a.toNat ≤ 0xf4) (trail : Trail b) :
    (a.toNat &&& 0x07) <<< 18+(b.toNat &&& 0x3f) <<< 12 < 0x110000 ↔ Legal a b := by
  rw [Trail] at trail
  rw [three_bits,low_bits,Nat.shiftLeft_eq,Nat.shiftLeft_eq,Legal]
  omega

theorem get_plain (some_byte : a ≠ 0) (plain : a.toNat < 0x80) (rest : List UInt8) :
    utf8_get (a::rest) = ((a.toNat : ℤ),rest) := by
  have positive : a.toNat ≠ 0 := fun zero => some_byte (UInt8.toNat_inj.mp zero)
  rw [utf8_get,get_code.eq_def,read_some some_byte]
  dsimp only
  rw [if_neg positive,if_neg (by omega),if_neg (by omega)]

theorem get_no_lead (no_lead : 0x80 ≤ a.toNat ∧ a.toNat < 0xc2 ∨ 0xf4 < a.toNat) (rest : List UInt8) :
    utf8_get (a::rest) = (-1,rest) := by
  have some_byte : a ≠ 0 := by
    rintro rfl
    exact absurd no_lead (by decide)
  rw [utf8_get,get_code.eq_def,read_some some_byte]
  dsimp only
  rw [if_neg (by omega),if_neg (by omega),if_pos (by omega)]

theorem lead_some (lead : 0xc2 ≤ a.toNat) : a ≠ 0 := by
  rintro rfl
  exact absurd lead (by decide)

theorem get_two (lead : 0xc2 ≤ a.toNat ∧ a.toNat < 0xe0) (rest : List UInt8) :
    utf8_get (a::rest) = get_code_last read_string 0 a.toNat rest := by
  rw [utf8_get,get_code.eq_def,read_some (lead_some lead.1)]
  dsimp only
  rw [if_neg (by omega),if_pos (by omega),if_neg (by omega)]

theorem get_three (lead : 0xe0 ≤ a.toNat ∧ a.toNat < 0xf0) (rest : List UInt8) :
    utf8_get (a::rest) = get_code_middle read_string 0 (a.toNat &&& 0x0f) rest := by
  rw [utf8_get,get_code.eq_def,read_some (lead_some (by omega))]
  dsimp only
  rw [if_neg (by omega),if_pos (by omega),if_pos (by omega),if_neg (by omega)]

theorem get_four {a b : UInt8} (lead : 0xf0 ≤ a.toNat ∧ a.toNat ≤ 0xf4) (trail : Trail b) (rest : List UInt8) :
    utf8_get (a::b::rest) =
      get_code_middle read_string ((a.toNat &&& 0x07) <<< 18) (b.toNat &&& 0x3f) rest := by
  rw [utf8_get,get_code.eq_def,read_some (lead_some (by omega))]
  dsimp only
  rw [if_neg (by omega),if_pos (by omega),if_pos (by omega),if_pos (by omega),read_some (trail_some trail)]
  dsimp only
  rw [if_neg (by rw [Trail] at trail; omega)]

theorem get_four_other {a b : UInt8} (lead : 0xf0 ≤ a.toNat ∧ a.toNat ≤ 0xf4) (other : ¬ Trail b) (rest : List UInt8) :
    utf8_get (a::b::rest) = (-1,(read_string (b::rest)).2) := by
  rw [utf8_get,get_code.eq_def,read_some (lead_some (by omega))]
  dsimp only
  rw [if_neg (by omega),if_pos (by omega),if_pos (by omega),if_pos (by omega)]
  by_cases zero : b = 0
  · rw [zero]
    rfl
  · rw [read_some zero]
    dsimp only
    rw [if_pos (not_trail other)]

/-! ## One more byte -/

theorem incomplete_other {held : List UInt8} (incomplete : Incomplete held) (other : ¬ Trail x)
    (rest : List UInt8) : utf8_get (held ++ x::rest) = (-1,(read_string (x::rest)).2) := by
  cases incomplete with
  | @one a low high =>
    rw [singleton_append]
    by_cases two : a.toNat < 0xe0
    · rw [get_two ⟨low,two⟩,last_other other]
    · by_cases three : a.toNat < 0xf0
      · rw [get_three ⟨by omega,three⟩,middle_other other (dvd_zero _) (three_below _)]
      · exact get_four_other ⟨by omega,high⟩ other rest
  | @two a b low high trail legal =>
    rw [cons_append,singleton_append]
    by_cases three : a.toNat < 0xf0
    · rw [get_three ⟨low,three⟩,middle_trail trail (dvd_zero _) (three_below _),last_other other]
    · rw [get_four ⟨by omega,high⟩ trail,middle_other other (four_whole _) ((four_below ⟨by omega,high⟩ trail).mpr legal)]
  | three low high trail legal last =>
    rw [cons_append,cons_append,singleton_append,get_four ⟨low,high⟩ trail,
      middle_trail last (four_whole _) ((four_below ⟨low,high⟩ trail).mpr legal),last_other other]

theorem incomplete_ends {held : List UInt8} (incomplete : Incomplete held) (rest : List UInt8) :
    utf8_get (held ++ 0::rest) = (-1,0::rest) := incomplete_other incomplete zero_not_trail rest

theorem incomplete_stuck {held : List UInt8} (incomplete : Incomplete held) (other : ¬ Trail x)
    (some_byte : x ≠ 0) : Stuck (held ++ [x]) := by
  refine ⟨by simp,-1,by decide,?_⟩
  intro rest
  rw [append_assoc,singleton_append,incomplete_other incomplete other,read_some some_byte]

/-- The string is a code point, is rejected, or needs another byte. -/
def Taken (held : List UInt8) : Prop :=
  (∃ s > 0, ∀ rest, utf8_get (held ++ rest) = (s,rest)) ∨ Stuck held ∨ Incomplete held

theorem taken_whole {held : List UInt8} (some_held : held ≠ []) {n : ℕ}
    (reads : ∀ rest, utf8_get (held ++ rest) = ((n : ℤ),rest)) : Taken held := by
  rcases Nat.eq_zero_or_pos n with zero | positive
  · exact Or.inr (Or.inl ⟨some_held,n,by omega,reads⟩)
  · exact Or.inl ⟨n,by omega,reads⟩

theorem incomplete_trail {held : List UInt8} (incomplete : Incomplete held) (trail : Trail x) :
    Taken (held ++ [x]) := by
  cases incomplete with
  | @one a low high =>
    by_cases two : a.toNat < 0xe0
    · apply taken_whole (by simp)
      intro rest
      rw [append_assoc,singleton_append,singleton_append,get_two ⟨low,two⟩,last_trail trail]
    by_cases legal : Legal a x
    · exact Or.inr (Or.inr (.two (by omega) high trail legal))
    have lead : 0xf0 ≤ a.toNat ∧ a.toNat ≤ 0xf4 := by
      rw [Legal] at legal
      omega
    refine Or.inr (Or.inl ⟨by simp,-1,by decide,fun rest => ?_⟩)
    have beyond := (four_below lead trail).not.mpr legal
    rw [append_assoc,singleton_append,singleton_append,get_four lead trail,get_code_middle]
    dsimp only
    rw [if_pos (Or.inr (by omega))]
  | @two a b low high second legal =>
    by_cases three : a.toNat < 0xf0
    · apply taken_whole (by simp)
      intro rest
      rw [append_assoc,cons_append,singleton_append,singleton_append,get_three ⟨low,three⟩,
        middle_trail second (dvd_zero _) (three_below _),last_trail trail]
    · exact Or.inr (Or.inr (.three (by omega) high second legal trail))
  | @three a b c low high second legal third =>
    apply taken_whole (by simp)
    intro rest
    rw [append_assoc,cons_append,cons_append,singleton_append,singleton_append,
      get_four ⟨low,high⟩ second,middle_trail third (four_whole _) ((four_below ⟨low,high⟩ second).mpr legal),
      last_trail trail]

theorem first_taken (some_byte : x ≠ 0) : Taken [x] := by
  have positive : x.toNat ≠ 0 := fun zero => some_byte (UInt8.toNat_inj.mp zero)
  by_cases plain : x.toNat < 0x80
  · exact Or.inl ⟨x.toNat,by omega,get_plain some_byte plain⟩
  by_cases lead : 0xc2 ≤ x.toNat ∧ x.toNat ≤ 0xf4
  · exact Or.inr (Or.inr (.one lead.1 lead.2))
  · exact Or.inr (Or.inl ⟨by simp,-1,by decide,get_no_lead (by omega)⟩)

def Pending (held : List UInt8) : Prop := held = [] ∨ Incomplete held

theorem pending_taken {held : List UInt8} (pending : Pending held) (some_byte : x ≠ 0) : Taken (held ++ [x]) := by
  rcases pending with rfl | incomplete
  · exact first_taken some_byte
  · by_cases trail : Trail x
    · exact incomplete_trail incomplete trail
    · exact Or.inr (Or.inl (incomplete_stuck incomplete trail some_byte))

theorem incomplete_length {held : List UInt8} (incomplete : Incomplete held) : held ≠ [] ∧ held.length < 4 := by
  cases incomplete with
  | one | two | three => exact ⟨cons_ne_nil _ _,by simp⟩

/-! ## One call -/

theorem holding_split {buffer held : List UInt8} (holding : Holding buffer held) :
    ∃ rest, buffer = held ++ 0::rest ∧ held.length+rest.length = 4 := by
  obtain ⟨rest,rfl⟩ := holding.string
  have size := holding.size
  simp only [length_append,length_singleton] at size
  exact ⟨rest,by rw [append_assoc,singleton_append],by omega⟩

theorem holding_short {buffer held : List UInt8} (holding : Holding buffer held) : held.length ≤ 4 := by
  obtain ⟨rest,_,size⟩ := holding_split holding
  omega

theorem holding_strlen {buffer held : List UInt8} (holding : Holding buffer held) : strlen buffer = some held.length := by
  obtain ⟨rest,rfl,_⟩ := holding_split holding
  have no_end : held.findIdx? (· = 0) = none := by
    rw [findIdx?_eq_none_iff]
    intro b member
    have other : b ≠ 0 := by
      rintro rfl
      exact holding.whole member
    simpa using other
  rw [strlen,findIdx?_append,no_end,findIdx?_cons]
  simp

theorem append_byte_eq {buffer held : List UInt8} (holding : Holding buffer held) (c : UInt8) :
    (held.length = 4 → append_byte c buffer = none) ∧
      (held.length < 4 → ∃ rest, append_byte c buffer = some (held.length+1,held ++ c::0::rest) ∧
        (held ++ c::0::rest).length = 5) := by
  have strlen_eq := holding_strlen holding
  obtain ⟨rest,rfl,size⟩ := holding_split holding
  rw [append_byte,strlen_eq]
  dsimp only [bind_eq_bind,bind_some]
  rw [write_behind held.length held (0::rest) [c] rfl (by simp)]
  dsimp only [bind_some]
  rw [length_singleton,drop_one,tail_cons]
  constructor
  · intro full
    rw [write_outside (by simp only [length_append,length_singleton]; omega)]
    rfl
  · intro room
    obtain ⟨b,rest,rfl⟩ := exists_cons_of_length_pos (show 0 < rest.length by omega)
    rw [write_behind (held.length+1) (held ++ [c]) (b::rest) [0] length_append (by simp)]
    rw [length_cons] at size
    refine ⟨rest,?_,by simp only [length_append,length_cons]; omega⟩
    simp only [bind_some,length_singleton,drop_one,tail_cons,append_assoc,cons_append,
      nil_append]

theorem holding_nothing {buffer : List UInt8} (size : buffer.length = 5) : Holding (buffer.set 0 0) [] := by
  obtain ⟨b,rest,rfl⟩ := exists_cons_of_length_pos (show 0 < buffer.length by omega)
  exact ⟨by rw [length_set,size],not_mem_nil,⟨rest,rfl⟩⟩

theorem holding_taken {held rest : List UInt8} {c : UInt8} (whole : 0 ∉ held) (some_byte : c ≠ 0)
    (size : (held ++ c::0::rest).length = 5) : Holding (held ++ c::0::rest) (held ++ [c]) := by
  refine ⟨size,?_,⟨rest,by simp⟩⟩
  rw [mem_append,mem_singleton]
  rintro (member | zero)
  · exact whole member
  · exact some_byte zero.symm

theorem stream_round {buffer held : List UInt8} (holding : Holding buffer held) (room : held.length < 4) (c : UInt8) :
    ∃ rest, (held ++ c::0::rest).length = 5 ∧ ∀ code_point rounds,
      utf8_stream code_point (rounds+1) c buffer =
        if 0 < (utf8_get (held ++ c::0::rest)).1 then
          .returns (code_point (utf8_get (held ++ c::0::rest)).1) ((held ++ c::0::rest).set 0 0)
        else if 5-(utf8_get (held ++ c::0::rest)).2.length = held.length+1 then .returns 0 (held ++ c::0::rest)
        else utf8_stream code_point rounds c ((held ++ c::0::rest).set 0 0) := by
  obtain ⟨rest,appended,size⟩ := (append_byte_eq holding c).2 room
  refine ⟨rest,size,?_⟩
  intro code_point rounds
  rw [utf8_stream,appended]
  dsimp only
  rw [size]

theorem stream_full {buffer held : List UInt8} (holding : Holding buffer held) (full : held.length = 4) (c : UInt8)
    (code_point : ℤ → ℤ) (rounds : ℕ) : utf8_stream code_point (rounds+1) c buffer = .faults := by
  rw [utf8_stream,(append_byte_eq holding c).1 full]

section
variable {buffer held : List UInt8} {c : UInt8} {code_point : ℤ → ℤ}

/-- What a call that takes the byte behind `front` returns and leaves in the buffer. -/
def Answers (code_point : ℤ → ℤ) (front : List UInt8) (c : UInt8) (call : Call) : Prop :=
  (∃ s > 0, (∀ rest, utf8_get (front ++ [c] ++ rest) = (s,rest)) ∧
    ∃ buffer, call = .returns (code_point s) buffer ∧ Holding buffer []) ∨
  ((Stuck (front ++ [c]) ∨ Incomplete (front ++ [c])) ∧
    ∃ buffer, call = .returns 0 buffer ∧ Holding buffer (front ++ [c]))

theorem pending_call (holding : Holding buffer held) (pending : Pending held) (room : held.length < 4) (some_byte : c ≠ 0)
    (rounds : ℕ) : Answers code_point held c (utf8_stream code_point (rounds+1) c buffer) := by
  obtain ⟨rest,size,round⟩ := stream_round holding room c
  have split : held ++ c::0::rest = held ++ [c] ++ 0::rest := by simp
  have length : held.length+2+rest.length = 5 := by
    simp only [length_append,length_cons] at size
    omega
  rw [round]
  rcases pending_taken pending some_byte with ⟨s,positive,reads⟩ | stuck | incomplete
  · refine Or.inl ⟨s,positive,reads,_,?_,holding_nothing size⟩
    rw [split,reads,if_pos positive]
  · obtain ⟨_,s,error,reads⟩ := id stuck
    refine Or.inr ⟨Or.inl stuck,_,?_,holding_taken holding.whole some_byte size⟩
    rw [split,reads,if_neg (by omega),if_pos (by rw [length_cons]; omega)]
  · refine Or.inr ⟨Or.inr incomplete,_,?_,holding_taken holding.whole some_byte size⟩
    rw [split,incomplete_ends incomplete,if_neg (by norm_num),if_pos (by rw [length_cons]; omega)]

theorem stuck_call (holding : Holding buffer held) (stuck : Stuck held) (room : held.length < 4) :
    ∃ emptied, Holding emptied [] ∧ ∀ code_point rounds,
      utf8_stream code_point (rounds+1) c buffer = utf8_stream code_point rounds c emptied := by
  obtain ⟨rest,size,round⟩ := stream_round holding room c
  obtain ⟨_,s,error,reads⟩ := stuck
  refine ⟨_,holding_nothing size,?_⟩
  intro code_point rounds
  simp only [length_append,length_cons] at size
  rw [round,reads,if_neg (by omega),if_neg (by simp only [length_cons]; omega)]

theorem zero_loops (holding : Holding buffer held) (reached : Pending held ∨ Stuck held) (room : held.length < 4)
    (rounds : ℕ) : utf8_stream code_point rounds 0 buffer = .loops := by
  induction rounds generalizing buffer held with
  | zero => rfl
  | succ rounds ih =>
    obtain ⟨rest,size,round⟩ := stream_round holding room 0
    have stays : (utf8_get (held ++ 0::0::rest)).1 ≤ 0 ∧ (utf8_get (held ++ 0::0::rest)).2 = 0::0::rest := by
      rcases reached with (rfl | incomplete) | ⟨_,s,error,reads⟩
      · exact ⟨le_rfl,rfl⟩
      · rw [incomplete_ends incomplete]
        exact ⟨by norm_num,rfl⟩
      · rw [reads]
        exact ⟨error,rfl⟩
    have emptied := holding_nothing size
    simp only [length_append,length_cons] at size
    rw [round,if_neg (by omega),stays.2,if_neg (by simp only [length_cons]; omega)]
    exact ih emptied (Or.inl (Or.inl rfl)) (by decide)

/-- The byte is taken behind the string `front`: what the buffer holds, or nothing if
    that was rejected. -/
def Front (held front : List UInt8) : Prop := Pending held ∧ front = held ∨ Stuck held ∧ front = []

theorem reached_front (reached : Pending held ∨ Stuck held) : ∃ front, Front held front := by
  rcases reached with pending | stuck
  · exact ⟨held,Or.inl ⟨pending,rfl⟩⟩
  · exact ⟨[],Or.inr ⟨stuck,rfl⟩⟩

theorem call_answers {front : List UInt8} (holding : Holding buffer held) (start : Front held front)
    (room : held.length < 4) (some_byte : c ≠ 0) (rounds : ℕ) :
    Answers code_point front c (utf8_stream code_point (rounds+2) c buffer) := by
  rcases start with ⟨pending,rfl⟩ | ⟨stuck,rfl⟩
  · exact pending_call holding pending room some_byte _
  · obtain ⟨emptied,empty,same⟩ := stuck_call (c := c) holding stuck room
    rw [same]
    exact pending_call empty (Or.inl rfl) (by decide) some_byte _

theorem call_returns_iff (holding : Holding buffer held) (reached : Pending held ∨ Stuck held) (rounds : ℕ) :
    (∃ s after, utf8_stream code_point (rounds+2) c buffer = .returns s after) ↔ c ≠ 0 ∧ held.length < 4 := by
  constructor
  · rintro ⟨s,after,call⟩
    have room : held.length < 4 := by
      have short := holding_short holding
      by_contra full
      rw [stream_full holding (by omega)] at call
      cases call
    refine ⟨?_,room⟩
    rintro rfl
    rw [zero_loops holding reached room] at call
    cases call
  · rintro ⟨some_byte,room⟩
    obtain ⟨front,start⟩ := reached_front reached
    rcases @call_answers buffer held c code_point front holding start room some_byte rounds with
      ⟨s,_,_,after,call,_⟩ | ⟨_,after,call,_⟩
    · exact ⟨_,after,call⟩
    · exact ⟨_,after,call⟩

theorem call_reached (holding : Holding buffer held) (reached : Pending held ∨ Stuck held) {rounds : ℕ} {s : ℤ}
    {after : List UInt8} (call : utf8_stream code_point (rounds+2) c buffer = .returns s after) :
    ∃ held', Holding after held' ∧ (Pending held' ∨ Stuck held') := by
  obtain ⟨some_byte,room⟩ := (call_returns_iff holding reached rounds).mp ⟨s,after,call⟩
  obtain ⟨front,start⟩ := reached_front reached
  rcases @call_answers buffer held c code_point front holding start room some_byte rounds with
    ⟨_,_,_,after',call',empty⟩ | ⟨kept,after',call',holding'⟩
  · rw [call] at call'
    cases call'
    exact ⟨[],empty,Or.inl (Or.inl rfl)⟩
  · rw [call] at call'
    cases call'
    exact ⟨front ++ [c],holding',kept.symm.imp_left Or.inr⟩
end

/-! ## All calls -/

section
variable {stream : UInt8 → List UInt8 → Call}

theorem feed_cons {c : UInt8} {behind buffer after : List UInt8} {s : ℤ} (call : stream c buffer = .returns s after) :
    feed stream (c::behind) buffer = (feed stream behind after).map fun (results,buffer) => (s::results,buffer) := by
  rw [feed,call]

theorem feed_append (front behind buffer : List UInt8) :
    feed stream (front ++ behind) buffer = (feed stream front buffer).bind fun (results,buffer) =>
      (feed stream behind buffer).map fun (more,buffer) => (results ++ more,buffer) := by
  induction front generalizing buffer with
  | nil =>
    rw [nil_append,feed.eq_1,bind_some]
    dsimp only
    cases feed stream behind buffer with
    | none => rfl
    | some rest => rfl
  | cons c front ih =>
    rw [cons_append,feed,feed]
    cases stream c buffer with
    | returns s after =>
      dsimp only
      rw [ih]
      cases feed stream front after with
      | none => rfl
      | some results =>
        dsimp only [bind_some,map_some]
        cases feed stream behind results.2 with
        | none => rfl
        | some more => rfl
    | faults => rfl
    | loops => rfl
end

def string (buffer : List UInt8) : List UInt8 := buffer.takeWhile (· ≠ 0)

theorem holding_string {buffer held : List UInt8} (holding : Holding buffer held) : string buffer = held := by
  obtain ⟨rest,rfl,_⟩ := holding_split holding
  have all : ∀ b ∈ held, decide (b ≠ 0) = true := by
    intro b member
    have other : b ≠ 0 := by
      rintro rfl
      exact holding.whole member
    simpa using other
  rw [string,takeWhile_append_of_pos all,takeWhile_cons_of_neg (by simp),append_nil]

theorem feed_length {stream : UInt8 → List UInt8 → Call} {bytes buffer after : List UInt8}
    (fed : feed stream bytes buffer = some (results,after)) : results.length = bytes.length := by
  induction bytes generalizing buffer results with
  | nil =>
    cases fed
    rfl
  | cons c bytes ih =>
    rw [feed] at fed
    split at fed
    · rename_i s next call
      cases rest : feed stream bytes next with
      | none =>
        rw [rest] at fed
        cases fed
      | some more =>
        rw [rest] at fed
        cases fed
        rw [length_cons,length_cons,ih rest]
    · cases fed

def Roomy (stream : UInt8 → List UInt8 → Call) (bytes buffer : List UInt8) : Prop :=
  ∀ front c behind results after, bytes = front ++ c::behind → feed stream front buffer = some (results,after) →
    (string after).length < 4

section
variable {code_point : ℤ → ℤ} {rounds : ℕ}

/-- The buffer holds nothing, the beginning of a sequence, or a rejected one. -/
def Ready (buffer : List UInt8) : Prop := ∃ held, Holding buffer held ∧ (Pending held ∨ Stuck held)

theorem feed_ready {bytes buffer after : List UInt8} (ready : Ready buffer)
    (fed : feed (utf8_stream code_point (rounds+2)) bytes buffer = some (results,after)) : Ready after := by
  induction bytes generalizing buffer results with
  | nil =>
    cases fed
    exact ready
  | cons c bytes ih =>
    obtain ⟨held,holding,reached⟩ := ready
    rw [feed] at fed
    split at fed
    · rename_i s next call
      cases rest : feed (utf8_stream code_point (rounds+2)) bytes next with
      | none =>
        rw [rest] at fed
        cases fed
      | some more =>
        rw [rest] at fed
        cases fed
        exact ih (call_reached holding reached call) rest
    · cases fed

theorem feed_isSome_iff {bytes buffer : List UInt8} (ready : Ready buffer) :
    (feed (utf8_stream code_point (rounds+2)) bytes buffer).isSome ↔
      0 ∉ bytes ∧ Roomy (utf8_stream code_point (rounds+2)) bytes buffer := by
  induction bytes generalizing buffer with
  | nil =>
    constructor
    · intro _
      refine ⟨not_mem_nil,?_⟩
      intro front c behind results after split
      exact absurd split.symm (by simp)
    · exact fun _ => rfl
  | cons c bytes ih =>
    obtain ⟨held,holding,reached⟩ := ready
    constructor
    · intro fed
      rw [feed] at fed
      split at fed
      · rename_i s next call
        obtain ⟨some_byte,room⟩ := (call_returns_iff holding reached rounds).mp ⟨s,next,call⟩
        rw [isSome_map] at fed
        obtain ⟨whole,roomy⟩ := (ih (call_reached holding reached call)).mp fed
        refine ⟨?_,?_⟩
        · rw [mem_cons]
          rintro (zero | member)
          · exact some_byte zero.symm
          · exact whole member
        intro front x behind results after split_ fed_front
        cases front with
        | nil =>
          cases fed_front
          rw [holding_string holding]
          exact room
        | cons y front =>
          rw [cons_append] at split_
          obtain ⟨rfl,rfl⟩ := List.cons.inj split_
          rw [feed_cons call] at fed_front
          cases rest : feed (utf8_stream code_point (rounds+2)) front next with
          | none =>
            rw [rest] at fed_front
            cases fed_front
          | some more =>
            rw [rest] at fed_front
            cases fed_front
            exact roomy front x behind more.1 more.2 rfl rest
      · exact absurd fed (by decide)
    · rintro ⟨whole,roomy⟩
      have some_byte : c ≠ 0 := fun zero => whole (zero ▸ mem_cons_self)
      have room : held.length < 4 := by
        have room := roomy [] c bytes [] buffer rfl rfl
        rw [holding_string holding] at room
        exact room
      obtain ⟨s,next,call⟩ := (call_returns_iff holding reached rounds).mpr ⟨some_byte,room⟩
      rw [feed_cons call,isSome_map]
      refine (ih (call_reached holding reached call)).mpr ⟨fun member => whole (mem_cons_of_mem _ member),?_⟩
      intro front x behind results after split_ fed_front
      refine roomy (c::front) x behind (s::results) after (by rw [split_,cons_append]) ?_
      rw [feed_cons call,fed_front]
      rfl

/-! ## Characters -/

theorem encode_bytes {c : Char} (char : c ≠ '\x00') :
    ∃ x ys, String.utf8EncodeChar c = x::ys ∧ x ≠ 0 ∧ ¬ Trail x ∧ ∀ y ∈ ys, Trail y := by
  have pos := char_pos char
  have ranges := char_ranges c
  have trail (n : ℕ) : Trail (.ofNat (n%64+0x80)) := by
    rw [Trail,byte_value (by omega)]
    omega
  have lead {n : ℕ} (positive : 0 < n) (byte : n < 256) (other : ¬ (0x80 ≤ n ∧ n ≤ 0xbf)) :
      UInt8.ofNat n ≠ 0 ∧ ¬ Trail (.ofNat n) := by
    have value := byte_value byte
    refine ⟨?_,by rw [Trail,value]; exact other⟩
    intro zero
    rw [zero,UInt8.toNat_zero] at value
    omega
  rw [String.utf8EncodeChar]
  change 0 < c.val.toNat at pos
  change c.val.toNat < 0xD800 ∨ 0xDFFF < c.val.toNat ∧ c.val.toNat < 0x110000 at ranges
  generalize c.val.toNat = v at pos ranges
  split
  · obtain ⟨some_byte,other⟩ := lead pos (by omega) (by omega)
    exact ⟨_,_,rfl,some_byte,other,by simp⟩
  split
  · obtain ⟨some_byte,other⟩ := lead (n := v/64%32+0xc0) (by omega) (by omega) (by omega)
    refine ⟨_,_,rfl,some_byte,other,?_⟩
    simp only [mem_cons,not_mem_nil,or_false,forall_eq]
    exact trail _
  split
  · obtain ⟨some_byte,other⟩ := lead (n := v/4096%16+0xe0) (by omega) (by omega) (by omega)
    refine ⟨_,_,rfl,some_byte,other,?_⟩
    simp only [mem_cons,not_mem_nil,or_false,forall_eq_or_imp,forall_eq]
    exact ⟨trail _,trail _⟩
  · obtain ⟨some_byte,other⟩ := lead (n := v/262144%8+0xf0) (by omega) (by omega) (by omega)
    refine ⟨_,_,rfl,some_byte,other,?_⟩
    simp only [mem_cons,not_mem_nil,or_false,forall_eq_or_imp,forall_eq]
    exact ⟨trail _,trail _,trail _⟩

theorem char_fed {c : Char} (char : c ≠ '\x00') {front behind held buffer : List UInt8}
    (reads : ∀ src, utf8_get (front ++ (behind ++ src)) = ((c.toNat : ℤ),src))
    (some_byte : behind ≠ []) (whole : 0 ∉ behind) (holding : Holding buffer held) (start : Front held front)
    (room : held.length < 4) :
    ∃ zeros after, feed (utf8_stream code_point (rounds+2)) behind buffer = some (zeros ++ [code_point c.toNat],after) ∧
      (∀ z ∈ zeros, z = 0) ∧ Holding after [] := by
  have pos := char_pos char
  induction behind generalizing front held buffer with
  | nil => exact absurd rfl some_byte
  | cons x behind ih =>
    have byte : x ≠ 0 := fun zero => whole (zero ▸ mem_cons_self)
    have reads' : ∀ src, utf8_get (front ++ [x] ++ (behind ++ src)) = ((c.toNat : ℤ),src) := by
      intro src
      rw [← reads src,append_assoc]
      rfl
    rcases @call_answers buffer held x code_point front holding start room byte rounds with
      ⟨s,_,value,after,call,empty⟩ | ⟨stuck | incomplete,after,call,holding'⟩
    · -- the character is complete, and nothing is left of it
      obtain ⟨rfl,left⟩ := Prod.mk.inj ((reads' []).symm.trans (value (behind ++ [])))
      rw [append_nil] at left
      rw [← left]
      refine ⟨[],after,?_,fun z member => absurd member not_mem_nil,empty⟩
      rw [feed_cons call]
      rfl
    · obtain ⟨_,s,error,value⟩ := stuck
      have same := congrArg Prod.fst ((reads' []).symm.trans (value (behind ++ [])))
      dsimp only at same
      omega
    · have more : behind ≠ [] := by
        rintro rfl
        have ends := congrArg Prod.fst ((reads' [0]).symm.trans (incomplete_ends incomplete []))
        dsimp only at ends
        omega
      obtain ⟨zeros,last,fed,none_else,empty⟩ := ih reads' more (fun member => whole (mem_cons_of_mem _ member))
        holding' (Or.inl ⟨Or.inr incomplete,rfl⟩) (incomplete_length incomplete).2
      refine ⟨0::zeros,last,?_,?_,empty⟩
      · rw [feed_cons call,fed]
        rfl
      · simpa using none_else

theorem encode_whole {c : Char} (char : c ≠ '\x00') : String.utf8EncodeChar c ≠ [] ∧ 0 ∉ String.utf8EncodeChar c := by
  obtain ⟨x,ys,bytes,some_byte,_,trail⟩ := encode_bytes char
  rw [bytes]
  refine ⟨cons_ne_nil _ _,?_⟩
  rw [mem_cons]
  rintro (zero | member)
  · exact some_byte zero.symm
  · exact zero_not_trail (trail 0 member)

theorem text_fed {chars : List Char} (whole : '\x00' ∉ chars) {buffer : List UInt8} (holding : Holding buffer [])
    (positive : ∀ s > 0, 0 < code_point s) :
    ∃ results after, feed (utf8_stream code_point (rounds+2)) (bytes chars) buffer = some (results,after) ∧
      results.filter (· ≠ 0) = chars.map fun c => code_point c.toNat := by
  induction chars generalizing buffer with
  | nil => exact ⟨[],buffer,rfl,rfl⟩
  | cons c chars ih =>
    simp only [mem_cons,not_or] at whole
    have char := Ne.symm whole.1
    obtain ⟨some_byte,no_zero⟩ := encode_whole char
    obtain ⟨zeros,after,fed,none_else,empty⟩ := @char_fed code_point rounds c char [] _ _ _
      (fun src => utf8_get_reads char src) some_byte no_zero holding (Or.inl ⟨Or.inl rfl,rfl⟩) (by decide)
    obtain ⟨results,last,fed',text⟩ := ih whole.2 empty
    have some_point : code_point c.toNat ≠ 0 := (positive c.toNat (by have pos := char_pos char; omega)).ne'
    have no_zeros : zeros.filter (· ≠ 0) = [] := by
      rw [filter_eq_nil_iff]
      intro z member
      simpa using none_else z member
    refine ⟨zeros ++ [code_point c.toNat] ++ results,last,?_,?_⟩
    · rw [bytes_cons,feed_append,fed]
      dsimp only [bind_some]
      rw [fed']
      rfl
    · rw [filter_append,filter_append,no_zeros,text,filter_cons_of_pos (by simpa using some_point)]
      rfl

theorem trail_lost {held ys buffer after : List UInt8} (holding : Holding buffer held)
    (stuck : Stuck held) (trail : ∀ y ∈ ys, Trail y)
    (fed : feed (utf8_stream code_point (rounds+2)) ys buffer = some (results,after)) : ∀ z ∈ results, z = 0 := by
  induction ys generalizing held buffer results with
  | nil =>
    cases fed
    exact fun z member => absurd member not_mem_nil
  | cons y ys ih =>
    rw [feed] at fed
    split at fed
    · rename_i s next call
      have bits := trail y mem_cons_self
      rw [Trail] at bits
      obtain ⟨some_byte,room⟩ := (call_returns_iff holding (Or.inr stuck) rounds).mp ⟨s,next,call⟩
      have rejected := get_no_lead (a := y) (by omega)
      rcases @call_answers buffer held y code_point [] holding (Or.inr ⟨stuck,rfl⟩) room some_byte rounds with
        ⟨s,positive,value,_⟩ | ⟨_,next',call',holding'⟩
      · have same := congrArg Prod.fst ((value []).symm.trans (rejected []))
        dsimp only at same
        omega
      rw [call] at call'
      cases call'
      cases rest : feed (utf8_stream code_point (rounds+2)) ys next with
      | none =>
        rw [rest] at fed
        cases fed
      | some more =>
        rw [rest] at fed
        cases fed
        have lost := ih holding' ⟨cons_ne_nil _ _,-1,by decide,rejected⟩
          (fun y member => trail y (mem_cons_of_mem _ member)) rest
        simpa using lost
    · cases fed

theorem char_lost {c : Char} (char : c ≠ '\x00') {held buffer after : List UInt8}
    (holding : Holding buffer held) (incomplete : Incomplete held)
    (fed : feed (utf8_stream code_point (rounds+2)) (String.utf8EncodeChar c) buffer = some (results,after)) :
    ∀ z ∈ results, z = 0 := by
  obtain ⟨x,ys,encoded,some_byte,other,trail⟩ := encode_bytes char
  have room := (incomplete_length incomplete).2
  have stuck := incomplete_stuck incomplete other some_byte
  rw [encoded] at fed
  rcases @call_answers buffer held x code_point held holding (Or.inl ⟨Or.inr incomplete,rfl⟩) room some_byte rounds with
    ⟨s,positive,value,_⟩ | ⟨_,next,call,holding'⟩
  · obtain ⟨_,s',error,value'⟩ := stuck
    have same := congrArg Prod.fst ((value []).symm.trans (value' []))
    dsimp only at same
    omega
  rw [feed_cons call] at fed
  cases rest : feed (utf8_stream code_point (rounds+2)) ys next with
  | none =>
    rw [rest] at fed
    cases fed
  | some more =>
    rw [rest] at fed
    cases fed
    have lost := trail_lost holding' stuck trail rest
    simpa using lost

theorem char_returned_iff {c : Char} (char : c ≠ '\x00') {buffer : List UInt8} (ready : Ready buffer)
    (positive : ∀ s > 0, 0 < code_point s) :
    (∃ results after, feed (utf8_stream code_point (rounds+2)) (String.utf8EncodeChar c) buffer = some (results,after) ∧
        results.getLast? = some (code_point c.toNat)) ↔
      ¬ Incomplete (string buffer) ∧ (string buffer).length < 4 := by
  obtain ⟨held,holding,reached⟩ := ready
  obtain ⟨some_byte,whole⟩ := encode_whole char
  have point : 0 < code_point c.toNat := positive c.toNat (by have pos := char_pos char; omega)
  rw [holding_string holding]
  constructor
  · rintro ⟨results,after,fed,last⟩
    refine ⟨?_,?_⟩
    · intro incomplete
      have lost := char_lost char holding incomplete fed _ (mem_of_getLast? last)
      omega
    · obtain ⟨x,ys,encoded,_⟩ := encode_bytes char
      rw [encoded,feed] at fed
      split at fed
      · rename_i s next call
        exact ((call_returns_iff holding reached rounds).mp ⟨s,next,call⟩).2
      · cases fed
  · rintro ⟨complete,room⟩
    have start : Front held [] := by
      rcases reached with (rfl | incomplete) | stuck
      · exact Or.inl ⟨Or.inl rfl,rfl⟩
      · exact absurd incomplete complete
      · exact Or.inr ⟨stuck,rfl⟩
    obtain ⟨zeros,after,fed,_⟩ := @char_fed code_point rounds c char [] _ _ _
      (fun src => utf8_get_reads char src) some_byte whole holding start room
    exact ⟨_,_,fed,getLast?_concat⟩
end

/-- What a decoder does from an empty buffer: when all calls return and stay in the
    buffer, what becomes of text, and when a character behind any bytes is returned. -/
structure Decodes (code_point : ℤ → ℤ) (stream : UInt8 → List UInt8 → Call) (buffer : List UInt8) : Prop where
  calls : ∀ bytes, (feed stream bytes buffer).isSome ↔ 0 ∉ bytes ∧ Roomy stream bytes buffer
  text : ∀ chars : List Char, '\x00' ∉ chars →
    ∃ results after, feed stream (bytes chars) buffer = some (results,after) ∧
      results.filter (· ≠ 0) = chars.map fun c => code_point c.toNat
  behind : ∀ front results after, feed stream front buffer = some (results,after) → ∀ c : Char, c ≠ '\x00' →
    ((∃ more last, feed stream (front ++ String.utf8EncodeChar c) buffer = some (more,last) ∧
        more.getLast? = some (code_point c.toNat)) ↔
      ¬ Incomplete (string after) ∧ (string after).length < 4)

theorem stream_decodes {code_point : ℤ → ℤ} (positive : ∀ s > 0, 0 < code_point s) (rounds : ℕ) {buffer : List UInt8}
    (holding : Holding buffer []) : Decodes code_point (utf8_stream code_point (rounds+2)) buffer := by
  have ready : Ready buffer := ⟨[],holding,Or.inl (Or.inl rfl)⟩
  refine ⟨fun _ => feed_isSome_iff ready,fun _ whole => text_fed whole holding positive,?_⟩
  intro front results after fed c char
  rw [← @char_returned_iff code_point rounds c char after (feed_ready ready fed) positive,feed_append,fed]
  dsimp only [bind_some]
  constructor
  · rintro ⟨more,last,both,returned⟩
    cases rest : feed (utf8_stream code_point (rounds+2)) (String.utf8EncodeChar c) after with
    | none =>
      rw [rest] at both
      cases both
    | some behind =>
      rw [rest] at both
      cases both
      refine ⟨behind.1,behind.2,rfl,?_⟩
      have some_result : behind.1 ≠ [] := by
        intro nothing
        have length := feed_length rest
        rw [nothing,length_nil] at length
        exact (encode_whole char).1 (length_eq_zero_iff.mp length.symm)
      rw [getLast?_append_of_ne_nil _ some_result] at returned
      exact returned
  · rintro ⟨more,last,rest,returned⟩
    rw [rest]
    refine ⟨results ++ more,last,rfl,?_⟩
    rw [getLast?_append,returned]
    rfl

theorem utf_to_cp_positive (s : ℤ) (positive : s > 0) : 0 < (utf_to_cp s codepage_437).2 := by
  rw [utf_to_cp]
  split
  · split
    · rename_i j found
      obtain ⟨inside,same,_⟩ := findIdx?_eq_some_iff_getElem.mp found
      have later : j ≠ 0 := by
        rintro rfl
        rw [decide_eq_true_iff] at same
        exact positive.ne' same
      dsimp only
      split
      · omega
      · omega
    · decide
  · exact positive

/-- Both decoders, from an empty buffer of five bytes and with two rounds of the loop or
    more in a call. -/
theorem both_streams_decode (rounds : ℕ) (b₁ b₂ b₃ b₄ : UInt8) :
    Decodes id (utf8_to_utf32_stream (rounds+2)) [0,b₁,b₂,b₃,b₄] ∧
      Decodes (fun s => (utf_to_cp s codepage_437).2) (utf8_to_cp437_stream (rounds+2)) [0,b₁,b₂,b₃,b₄] := by
  have holding : Holding [0,b₁,b₂,b₃,b₄] [] := ⟨rfl,List.not_mem_nil,⟨_,rfl⟩⟩
  constructor
  · exact stream_decodes (fun s positive => positive) rounds holding
  · exact stream_decodes utf_to_cp_positive rounds holding

/-- A letter behind the first byte of a longer sequence is lost. -/
theorem letter_lost :
    ¬ ∀ (rounds : ℕ) (b₁ b₂ b₃ b₄ : UInt8),
      (∀ bytes, (feed (utf8_to_utf32_stream (rounds+2)) bytes [0,b₁,b₂,b₃,b₄]).isSome) ∧
      (∀ chars : List Char, '\x00' ∉ chars → ∃ results after,
        feed (utf8_to_utf32_stream (rounds+2)) (bytes chars) [0,b₁,b₂,b₃,b₄] = some (results,after) ∧
          results.filter (· ≠ 0) = chars.map fun c => (c.toNat : ℤ)) ∧
      (∀ front, ∀ c : Char, c ≠ '\x00' → ∃ more last,
        feed (utf8_to_utf32_stream (rounds+2)) (front ++ String.utf8EncodeChar c) [0,b₁,b₂,b₃,b₄] = some (more,last) ∧
          more.getLast? = some (c.toNat : ℤ)) := by
  intro decodes
  obtain ⟨more,last,fed,returned⟩ := (decodes 0 0 0 0 0).2.2 [0xe2] 'A' (by decide)
  have lost : feed (utf8_to_utf32_stream 2) ([0xe2] ++ String.utf8EncodeChar 'A') [0,0,0,0,0] =
      some ([0,0],[0xe2,0x41,0,0,0]) := by decide +kernel
  rw [lost] at fed
  cases fed
  exact absurd returned (by decide)

end UBoot.Utf8Stream
