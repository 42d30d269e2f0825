import UBoot.EfiLoadOptions

/-!
The length functions of `lib/charset.c` against the copies, for any bytes and any units. From UTF-8
to UTF-16 a surrogate is counted and not written, and from the first decoded zero on nothing is
counted while the copy goes on.
-/
namespace UBoot.CharsetLengths
open UBoot.Charset UBoot.EfiLoadOptions List

/-- The loop of `utf16_utf8_strnlen`. -/
def utf16_utf8_strnlen_loop : ℕ → List UInt16 → ℕ → ℕ
  | 0, _, len => len
  | count+1, src, len =>
    if src.headD 0 = 0 then len
    else
      let (code,src) := utf16_get src
      if code = 0 then len
      else if code < 0 then
        -- Reserve space for a replacement character
        utf16_utf8_strnlen_loop count src (len+1)
      else if code < 0x80 then utf16_utf8_strnlen_loop count src (len+1)
      else if code < 0x800 then utf16_utf8_strnlen_loop count src (len+2)
      else if code < 0x10000 then utf16_utf8_strnlen_loop count src (len+3)
      else utf16_utf8_strnlen_loop count src (len+4)

/-- `utf16_utf8_strnlen`: the bytes that the string will need. -/
def utf16_utf8_strnlen (src : List UInt16) (count : ℕ) : ℕ := utf16_utf8_strnlen_loop count src 0

/-! ## From UTF-16 to UTF-8 -/

def byte_count (code : ℤ) : ℕ :=
  if code < 0x80 then 1 else if code < 0x800 then 2 else if code < 0x10000 then 3 else 4

/-- The code points that the loops read from a string of units. -/
def points : ℕ → List UInt16 → List ℤ
  | 0, _ => []
  | count+1, src => if src.headD 0 = 0 then [] else (utf16_get src).1 :: points count (utf16_get src).2

/-- A code point that `utf8_put` takes, or no code point at all. -/
def Encodable (code : ℤ) : Prop := code ≠ 0 ∧ ¬ Surrogate code ∧ code < 0x110000

theorem error_encodable : Encodable (-1) := by
  refine ⟨by decide,?_,by decide⟩
  rw [Surrogate]
  decide

theorem pair_encodable (high low : ℕ) :
    Encodable (((high &&& 0x3ff) <<< 10 + 0x10000 + (low &&& 0x3ff) : ℕ) : ℤ) := by
  rw [show (0x3ff : ℕ) = 2^10-1 from rfl,Nat.and_two_pow_sub_one_eq_mod,Nat.and_two_pow_sub_one_eq_mod,Nat.shiftLeft_eq]
  refine ⟨by omega,?_,by omega⟩
  rw [Surrogate]
  omega

theorem utf16_get_encodable {src : List UInt16} (some_unit : src.headD 0 ≠ 0) : Encodable (utf16_get src).1 := by
  cases src with
  | nil => exact absurd rfl some_unit
  | cons unit src =>
    rw [headD_cons] at some_unit
    have positive : unit.toNat ≠ 0 := fun zero => some_unit (UInt16.toNat_inj.mp zero)
    have small : unit.toNat < 2^16 := unit.toNat_lt
    rw [utf16_get.eq_def]
    dsimp only
    rw [if_neg positive]
    by_cases second : 0xDC00 ≤ unit.toNat ∧ unit.toNat ≤ 0xDFFF
    · rw [if_pos second]
      exact error_encodable
    rw [if_neg second]
    by_cases first : 0xD800 ≤ unit.toNat ∧ unit.toNat ≤ 0xDBFF
    · rw [if_pos first]
      cases src with
      | nil => exact error_encodable
      | cons low behind =>
        dsimp only
        split
        · exact error_encodable
        · split
          · exact error_encodable
          · exact pair_encodable _ _
    · rw [if_neg first]
      refine ⟨by dsimp only; omega,?_,by dsimp only; omega⟩
      rw [Surrogate]
      omega

theorem utf8_put_length {code : ℤ} (encodable : Encodable code) (dst : List UInt8) :
    (utf8_put (printable code) dst).2.length = dst.length+byte_count code := by
  obtain ⟨_,plain,below⟩ := encodable
  rw [Surrogate] at plain
  rw [printable,byte_count]
  by_cases invalid : code < 0
  · rw [if_pos invalid,if_pos (by omega)]
    exact length_append
  rw [if_neg invalid,utf8_put,if_neg (by omega)]
  by_cases one : code ≤ 0x007F
  · rw [if_pos one,if_pos (by omega)]
    exact length_append
  rw [if_neg one,if_neg (show ¬ code < 0x80 by omega)]
  dsimp only
  by_cases two : code ≤ 0x07FF
  · rw [if_pos two,if_pos (show code < 0x800 by omega)]
    simp only [length_append,length_singleton]
  rw [if_neg two,if_neg (show ¬ code < 0x800 by omega)]
  by_cases three : code < 0x10000
  · rw [if_pos three,if_pos three]
    simp only [length_append,length_singleton]
  · rw [if_neg three,if_neg three]
    simp only [length_append,length_cons,length_nil]

theorem utf16_utf8_strnlen_loop_eq (count : ℕ) (src : List UInt16) (len : ℕ) :
    utf16_utf8_strnlen_loop count src len = len+((points count src).map byte_count).sum := by
  induction count generalizing src len with
  | zero => rfl
  | succ count ih =>
    rw [utf16_utf8_strnlen_loop,points]
    by_cases ends : src.headD 0 = 0
    · rw [if_pos ends,if_pos ends]
      rfl
    · obtain ⟨some_,_⟩ := utf16_get_encodable ends
      rw [if_neg ends,if_neg ends,map_cons,sum_cons]
      dsimp only
      rw [if_neg some_,ih,ih,ih,ih,byte_count]
      split_ifs <;> omega

theorem utf16_utf8_loop_length (count : ℕ) (src : List UInt16) (dst : List UInt8) :
    (utf16_utf8_loop count src dst).length = dst.length+((points count src).map byte_count).sum := by
  induction count generalizing src dst with
  | zero => rfl
  | succ count ih =>
    rw [utf16_utf8_loop,points]
    by_cases ends : src.headD 0 = 0
    · rw [if_pos ends,if_pos ends]
      rfl
    · rw [if_neg ends,if_neg ends,map_cons,sum_cons]
      rw [ih,utf8_put_length (utf16_get_encodable ends)]
      omega

theorem utf16_utf8_strncpy_length (dst : List UInt8) (src : List UInt16) (count : ℕ) :
    (utf16_utf8_strncpy dst src count).2.length = dst.length+utf16_utf8_strnlen src count+1 := by
  rw [utf16_utf8_strncpy,length_append,length_singleton,utf16_utf8_loop_length,utf16_utf8_strnlen,
    utf16_utf8_strnlen_loop_eq,zero_add]

/-! ## From UTF-8 to UTF-16 -/

instance (code : ℤ) : Decidable (Surrogate code) := inferInstanceAs (Decidable (_ ∧ _))

/-- The surrogates in front of the first zero, each counted as one unit and not
    written. -/
def left_out (l : List ℤ) : ℕ := ((l.takeWhile (· ≠ 0)).filter Surrogate).length

/-- The units that `utf16_put` writes for a code point. -/
def unit_count (code : ℤ) : ℕ := if Surrogate code then 0 else if code < 0x10000 then 1 else 2

/-- The units from the first zero on, written and not counted. -/
def uncounted (l : List ℤ) : ℕ := ((l.dropWhile (· ≠ 0)).map unit_count).sum

theorem copied_length {code : ℤ} (below : code < 0x110000) : (copied_units code).length = unit_count code := by
  rw [unit_count]
  by_cases surrogate : Surrogate code
  · rw [if_pos surrogate,copied_surrogate surrogate]
    rfl
  · rw [if_neg surrogate,copied_eq below surrogate,code_units]
    split_ifs <;> first | rfl | omega

theorem copied_sum {l : List ℤ} (bounded : ∀ code ∈ l, code < 0x110000) :
    (l.flatMap copied_units).length = (l.map unit_count).sum := by
  rw [length_flatMap]
  exact congrArg List.sum (map_congr_left fun code member => copied_length (bounded code member))

theorem copied_counted {l : List ℤ} (bounded : ∀ code ∈ l, code < 0x110000) :
    (l.flatMap copied_units).length+left_out l = ((l.takeWhile (· ≠ 0)).flatMap code_units).length+uncounted l := by
  induction l with
  | nil => rfl
  | cons code l ih =>
    have below := bounded code mem_cons_self
    by_cases zero : code = 0
    · rw [copied_sum bounded,left_out,uncounted,takeWhile_cons_of_neg (by simpa using zero),
        dropWhile_cons_of_neg (by simpa using zero),filter_nil,flatMap_nil,length_nil,length_nil]
      omega
    have rest := ih fun c member => bounded c (mem_cons_of_mem _ member)
    rw [left_out,uncounted] at rest ⊢
    rw [takeWhile_cons_of_pos (by simpa using zero),dropWhile_cons_of_pos (by simpa using zero),
      flatMap_cons,flatMap_cons,length_append,length_append]
    by_cases surrogate : Surrogate code
    · rw [filter_cons_of_pos (by simpa using surrogate),copied_surrogate surrogate,length_cons]
      rw [Surrogate] at surrogate
      rw [code_units,if_neg (by omega),if_pos (by omega)]
      simp only [length_nil,length_singleton]
      omega
    · rw [filter_cons_of_neg (by simpa using surrogate),copied_eq below surrogate]
      omega

theorem utf8_utf16_strncpy_length (dst : List UInt16) (src : List UInt8) (count : ℕ) :
    (utf8_utf16_strncpy dst src count).2.length+left_out (codes count src) =
      dst.length+utf8_utf16_strnlen src count+1+uncounted (codes count src) := by
  have balance := copied_counted (l := codes count src) fun code member => codes_lt member
  rw [utf8_utf16_strncpy,utf8_utf16_strnlen,utf8_utf16_strnlen_loop_eq,utf8_utf16_loop_eq]
  simp only [length_append,length_singleton]
  omega

theorem serialize_isSome_iff {lo : LoadOption} {label : List UInt16} {paths : List DevicePath} {bytes : List UInt8}
    (formed : WellFormed lo label paths (some bytes)) {malloc : ℕ → Option (List UInt8)} (allocates : Allocates malloc) :
    (efi_serialize_load_option malloc lo).isSome ↔
      uncounted (codes SIZE_MAX (bytes ++ [0])) ≤ left_out (codes SIZE_MAX (bytes ++ [0])) := by
  have length := utf8_utf16_strncpy_length [] (bytes ++ [0]) SIZE_MAX
  obtain ⟨overrun,fits⟩ := serialize_some formed allocates
  rw [counted,written] at overrun fits
  rw [length_nil,zero_add] at length
  constructor
  · intro serialized
    by_contra more
    rw [overrun (by omega)] at serialized
    exact absurd serialized (by decide)
  · intro covered
    obtain ⟨tail,_,serialized⟩ := fits (by omega)
    rw [serialized]
    rfl

/-- From UTF-8 the copy fills what was counted exactly if as much is left out of the
    code points in front of the first zero as is written for those behind it, and it
    stays inside a buffer of that size exactly if no more is written for them; from
    UTF-16 it always fills what was counted. -/
theorem copies_fill_counted_iff (count : ℕ) :
    (∀ (dst : List UInt16) (src : List UInt8),
      ((utf8_utf16_strncpy dst src count).2.length = dst.length+utf8_utf16_strnlen src count+1 ↔
        uncounted (codes count src) = left_out (codes count src)) ∧
      ((utf8_utf16_strncpy dst src count).2.length ≤ dst.length+utf8_utf16_strnlen src count+1 ↔
        uncounted (codes count src) ≤ left_out (codes count src))) ∧
    (∀ (dst : List UInt8) (src : List UInt16),
      (utf16_utf8_strncpy dst src count).2.length = dst.length+utf16_utf8_strnlen src count+1) := by
  refine ⟨?_,fun dst src => utf16_utf8_strncpy_length dst src count⟩
  intro dst src
  have length := utf8_utf16_strncpy_length dst src count
  constructor
  · omega
  · omega

/-- An overlong U+0000 in front of a letter: nothing is counted, and two units are
    written in front of the terminator. -/
theorem overlong_zero_overruns :
    ¬ ((∀ (dst : List UInt16) (src : List UInt8) (count : ℕ),
        (utf8_utf16_strncpy dst src count).2.length = dst.length+utf8_utf16_strnlen src count+1) ∧
      (∀ (dst : List UInt8) (src : List UInt16) (count : ℕ),
        (utf16_utf8_strncpy dst src count).2.length = dst.length+utf16_utf8_strnlen src count+1)) := by
  rintro ⟨same,_⟩
  exact absurd (same [] [0xe0,0x80,0x80,0x41,0] 4) (by decide +kernel)

end UBoot.CharsetLengths
