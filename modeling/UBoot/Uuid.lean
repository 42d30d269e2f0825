import Mathlib.Data.List.TakeWhile
import UBoot.Buffers

/-!
UUIDs and their texts, `lib/uuid.c`, in the order that GUIDs have: the first three groups
of the text are numbers whose lowest byte comes first. Other texts are looked up among
names, which depend on the build and are an argument. A text that is a UUID comes back
from its bytes in lower case (`text_read_back`).
-/
namespace UBoot.Uuid
open UBoot.Buffers List

def UUID_STR_LEN : ℕ := 36

structure EfiGuid where
  b : List UInt8
  size : b.length = 16
deriving DecidableEq

def isxdigit (c : Char) : Bool := '0' ≤ c ∧ c ≤ '9' ∨ 'a' ≤ c ∧ c ≤ 'f' ∨ 'A' ≤ c ∧ c ≤ 'F'

def tolower (c : Char) : Char := if 'A' ≤ c ∧ c ≤ 'Z' then .ofNat (c.toNat+32) else c

def decode_digit (ch : Char) : ℕ :=
  if ¬ isxdigit ch then 256
  else if tolower ch ≤ '9' then (tolower ch).toNat - '0'.toNat else (tolower ch).toNat - 'a'.toNat+0xa

/-- `_parse_integer_fixup_radix` for the base 16 -/
def parse_integer_fixup_radix : List Char → List Char
  | '0' :: ch :: s => if tolower ch = 'x' then s else '0' :: ch :: s
  | s => s

def hextoul (cp : List Char) : ℕ :=
  ((parse_integer_fixup_radix cp).takeWhile (decode_digit · < 16)).foldl (fun result c => (result*16+decode_digit c)%2^64) 0

def uuid_str_valid (uuid : List Char) : Bool :=
  uuid.length = UUID_STR_LEN ∧
    uuid.zipIdx.all fun (c,i) => if i = 8 ∨ i = 13 ∨ i = 18 ∨ i = 23 then c = '-' else isxdigit c

/-- The lowest `n` bytes of a number, the highest first. -/
def big (n v : ℕ) : List UInt8 := (little n v).reverse

/-- The bytes that `uuid_str_to_bin` stores for a valid text. -/
def uuid_bin (uuid_str : List Char) : EfiGuid where
  b := little 4 (hextoul uuid_str) ++ little 2 (hextoul (uuid_str.drop 9)) ++ little 2 (hextoul (uuid_str.drop 14)) ++
    big 2 (hextoul (uuid_str.drop 19)) ++ big 6 (hextoul (uuid_str.drop 24))
  size := by simp [big]

/-- `uuid_str_to_bin` with `UUID_STR_FORMAT_GUID`, where names stand for GUIDs. -/
def uuid_str_to_bin (uuid_guid_get_bin : List Char → Option EfiGuid) (uuid_str : List Char) : Option EfiGuid :=
  if uuid_str_valid uuid_str then some (uuid_bin uuid_str) else uuid_guid_get_bin uuid_str

def guid_char_order : List ℕ := [3,2,1,0,5,4,7,6,8,9,10,11,12,13,14,15]

def hex_digit (value : ℕ) : Char := if value < 10 then .ofNat (0x30+value) else .ofNat (0x61+(value-10))

/-- A byte through the format `%02x`. -/
def hex_byte (byte : UInt8) : List Char := [hex_digit (byte.toNat/16),hex_digit (byte.toNat%16)]

/-- `uuid_bin_to_str` with `UUID_STR_FORMAT_GUID` -/
def uuid_bin_to_str (uuid_bin : EfiGuid) : List Char :=
  guid_char_order.zipIdx.flatMap fun (place,i) =>
    hex_byte (uuid_bin.b.getD place 0) ++ if i = 3 ∨ i = 5 ∨ i = 7 ∨ i = 9 then ['-'] else []

/-! ## Digits -/

theorem isxdigit_cases {p : Char → Bool} (all : ∀ n : Fin 103, isxdigit (.ofNat n) → p (.ofNat n) = true) {c : Char}
    (digit : isxdigit c) : p c = true := by
  have bound : c.toNat < 103 := by
    simp only [isxdigit,decide_eq_true_eq,Char.le_def,UInt32.le_iff_toNat_le] at digit
    simp at digit
    omega
  have here := all ⟨c.toNat,bound⟩
  rw [Char.ofNat_toNat] at here
  exact here digit

theorem digit_printed {c : Char} (digit : isxdigit c) : decode_digit c < 16 ∧ hex_digit (decode_digit c) = tolower c := by
  have known := @isxdigit_cases (fun c => decode_digit c < 16 ∧ hex_digit (decode_digit c) = tolower c) (by decide) c digit
  exact of_decide_eq_true known

def hex_value (digits : List Char) : ℕ := digits.foldl (fun result c => result*16+decode_digit c) 0

theorem hex_value_concat (digits : List Char) (c : Char) : hex_value (digits ++ [c]) = hex_value digits*16+decode_digit c := by
  rw [hex_value,foldl_append]
  rfl

theorem hex_value_lt {digits : List Char} (all : ∀ c ∈ digits, isxdigit c) : hex_value digits < 16^digits.length := by
  induction digits using reverseRecOn with
  | nil => decide
  | append_singleton digits c ih =>
    have before := ih (fun d member => all d (mem_append_left _ member))
    have digit := (digit_printed (all c (by simp))).1
    rw [hex_value_concat,length_append,length_singleton,pow_succ]
    omega

theorem hextoul_group {digits rest : List Char} (all : ∀ c ∈ digits, isxdigit c) (short : digits.length ≤ 16)
    (ends : ∀ c ∈ rest.head?, c = '-') (two : 2 ≤ digits.length) : hextoul (digits ++ rest) = hex_value digits := by
  have fixed : parse_integer_fixup_radix (digits ++ rest) = digits ++ rest := by
    match digits,two with
    | a :: c :: digits,_ =>
      have digit := all c (by simp)
      simp only [cons_append]
      unfold parse_integer_fixup_radix
      split
      · next ch s same =>
        obtain ⟨rfl,rfl,rfl⟩ : a = '0' ∧ c = ch ∧ digits ++ rest = s := by simpa using same
        have known := @isxdigit_cases (fun c => tolower c ≠ 'x') (by decide) c digit
        rw [if_neg (of_decide_eq_true known)]
      · rfl
  have taken : (digits ++ rest).takeWhile (decode_digit · < 16) = digits := by
    rw [takeWhile_append_of_pos]
    · cases rest with
      | nil => simp
      | cons c rest =>
        rw [ends c rfl,takeWhile_cons_of_neg (by decide),append_nil]
    · intro c member
      simpa using (digit_printed (all c member)).1
  rw [hextoul,fixed,taken]
  clear fixed taken two
  induction digits using reverseRecOn with
  | nil => rfl
  | append_singleton digits c ih =>
    have before : ∀ d ∈ digits, isxdigit d := fun d member => all d (mem_append_left _ member)
    rw [length_append,length_singleton] at short
    have small := hex_value_lt all
    rw [hex_value_concat] at small
    rw [foldl_append,ih before (by omega),hex_value_concat]
    refine Nat.mod_eq_of_lt (small.trans_le ?_)
    calc 16^(digits ++ [c]).length ≤ 16^16 := Nat.pow_le_pow_right (by decide) (by simpa using short)
      _ = 2^64 := by decide

theorem group_printed {n : ℕ} {digits : List Char} (all : ∀ c ∈ digits, isxdigit c) (size : digits.length = 2*n) :
    (big n (hex_value digits)).flatMap hex_byte = digits.map tolower := by
  induction n generalizing digits with
  | zero =>
    rw [length_eq_zero_iff.mp size]
    rfl
  | succ n ih =>
    obtain ⟨front,high,low,rfl⟩ : ∃ front high low, digits = front ++ [high] ++ [low] := by
      refine ⟨digits.dropLast.dropLast,digits.dropLast.getLast ?_,digits.getLast ?_,?_⟩
      · intro empty
        have := congrArg List.length empty
        rw [length_dropLast,length_nil] at this
        omega
      · intro empty
        rw [empty] at size
        simp at size
      · rw [dropLast_append_getLast,dropLast_append_getLast]
    have front_all : ∀ c ∈ front, isxdigit c := fun c member => all c (by simp [member])
    have high_printed := digit_printed (all high (by simp))
    have low_printed := digit_printed (all low (by simp))
    have front_size : front.length = 2*n := by
      simp only [length_append,length_singleton] at size
      omega
    have value : hex_value (front ++ [high] ++ [low]) = 256*hex_value front+(decode_digit high*16+decode_digit low) := by
      rw [hex_value_concat,hex_value_concat]
      ring
    have byte : hex_byte (.ofNat (hex_value (front ++ [high] ++ [low]))) = [tolower high,tolower low] := by
      rw [hex_byte,UInt8.toNat_ofNat',value]
      rw [show (256*hex_value front+(decode_digit high*16+decode_digit low))%2^8/16 = decode_digit high by omega,
        show (256*hex_value front+(decode_digit high*16+decode_digit low))%2^8%16 = decode_digit low by omega,
        high_printed.2,low_printed.2]
    have shifted : hex_value (front ++ [high] ++ [low])/256 = hex_value front := by
      rw [value]
      omega
    have earlier := ih front_all front_size
    rw [big,little,reverse_cons,flatMap_append,shifted]
    rw [big] at earlier
    rw [earlier,flatMap_singleton,byte]
    simp

/-! ## Texts -/

variable {uuid_str : List Char}

theorem valid_length (valid : uuid_str_valid uuid_str) : uuid_str.length = UUID_STR_LEN := by
  simp only [uuid_str_valid,decide_eq_true_eq] at valid
  exact valid.1

theorem valid_char (valid : uuid_str_valid uuid_str) {i : ℕ} {c : Char} (at_i : uuid_str[i]? = some c) :
    if i = 8 ∨ i = 13 ∨ i = 18 ∨ i = 23 then c = '-' else isxdigit c := by
  simp only [uuid_str_valid,decide_eq_true_eq,all_eq_true] at valid
  have here := valid.2 (c,i) (mem_zipIdx_iff_getElem?.mpr at_i)
  split at here
  · next dash =>
    rw [if_pos dash]
    exact of_decide_eq_true here
  · next digit => rwa [if_neg digit]

/-- The digits of a group: `length` of them from `start` on, up to a dash or the end. -/
def group (uuid_str : List Char) (start length : ℕ) : List Char := (uuid_str.drop start).take length

def IsGroup (start length : ℕ) : Prop := (start,length) ∈ [(0,8),(9,4),(14,4),(19,4),(24,12)]

instance (start length : ℕ) : Decidable (IsGroup start length) := inferInstanceAs (Decidable (_ ∈ _))

theorem IsGroup.cases {start length : ℕ} (place : IsGroup start length) :
    start = 0 ∧ length = 8 ∨ start = 9 ∧ length = 4 ∨ start = 14 ∧ length = 4 ∨ start = 19 ∧ length = 4 ∨ start = 24 ∧ length = 12 := by
  simpa [IsGroup] using place

theorem group_length (valid : uuid_str_valid uuid_str) {start length : ℕ} (place : IsGroup start length) :
    (group uuid_str start length).length = length := by
  have whole := valid_length valid
  simp only [UUID_STR_LEN] at whole
  have places := place.cases
  rw [group,length_take,length_drop]
  omega

theorem group_digits (valid : uuid_str_valid uuid_str) {start length : ℕ} (place : IsGroup start length) :
    ∀ c ∈ group uuid_str start length, isxdigit c := by
  intro c member
  obtain ⟨k,inside,rfl⟩ := mem_iff_getElem.mp member
  rw [group_length valid place] at inside
  have at_k : uuid_str[start+k]? = some (group uuid_str start length)[k] := by
    rw [← getElem?_drop]
    simp only [group]
    rw [getElem_take,getElem?_eq_getElem]
  have digit := valid_char valid at_k
  have places := place.cases
  rwa [if_neg (by omega)] at digit

theorem group_read (valid : uuid_str_valid uuid_str) {start length : ℕ} (place : IsGroup start length) :
    hextoul (uuid_str.drop start) = hex_value (group uuid_str start length) := by
  have size := group_length valid place
  have places := place.cases
  rw [← take_append_drop length (uuid_str.drop start)]
  refine hextoul_group (group_digits valid place) ?_ ?_ ?_
  · change (group uuid_str start length).length ≤ 16
    rw [size]
    omega
  · intro c ends
    have whole := valid_length valid
    simp only [UUID_STR_LEN] at whole
    rw [drop_drop,Option.mem_def,head?_drop] at ends
    have dash := valid_char valid ends
    have inside := (List.getElem?_eq_some_iff.mp ends).1
    rwa [if_pos (by omega)] at dash
  · change 2 ≤ (group uuid_str start length).length
    rw [size]
    omega

theorem group_followed (valid : uuid_str_valid uuid_str) {start length : ℕ} (place : IsGroup start length) (more : start < 24) :
    uuid_str.drop start = group uuid_str start length ++ '-' :: uuid_str.drop (start+length+1) := by
  have whole := valid_length valid
  simp only [UUID_STR_LEN] at whole
  have places := place.cases
  have inside : start+length < uuid_str.length := by omega
  have dash := valid_char valid (getElem?_eq_getElem inside)
  rw [if_pos (by omega)] at dash
  rw [← take_append_drop length (uuid_str.drop start),drop_drop,drop_eq_getElem_cons inside,dash]
  simp [group]

/-- A text that is a UUID comes back in lower case. -/
theorem text_read_back (valid : uuid_str_valid uuid_str) : uuid_bin_to_str (uuid_bin uuid_str) = uuid_str.map tolower := by
  have grouped (first second third fourth fifth : ℕ) (size) :
      uuid_bin_to_str ⟨little 4 first ++ little 2 second ++ little 2 third ++ big 2 fourth ++ big 6 fifth,size⟩ =
        (big 4 first).flatMap hex_byte ++ '-' :: ((big 2 second).flatMap hex_byte ++ '-' :: ((big 2 third).flatMap hex_byte ++
          '-' :: ((big 2 fourth).flatMap hex_byte ++ '-' :: (big 6 fifth).flatMap hex_byte))) := rfl
  have last : uuid_str.drop 24 = group uuid_str 24 12 := by
    have whole := valid_length valid
    simp only [UUID_STR_LEN] at whole
    rw [group,take_of_length_le (by rw [length_drop]; omega)]
  have printed {n start : ℕ} (place : IsGroup start (2*n)) :
      (big n (hex_value (group uuid_str start (2*n)))).flatMap hex_byte = (group uuid_str start (2*n)).map tolower :=
    group_printed (group_digits valid place) (group_length valid place)
  have text : uuid_str = group uuid_str 0 8 ++ '-' :: (group uuid_str 9 4 ++ '-' :: (group uuid_str 14 4 ++
      '-' :: (group uuid_str 19 4 ++ '-' :: group uuid_str 24 12))) := by
    rw [← last]
    have fourth := group_followed valid (show IsGroup 19 4 by decide) (by decide)
    have third := group_followed valid (show IsGroup 14 4 by decide) (by decide)
    have second := group_followed valid (show IsGroup 9 4 by decide) (by decide)
    have first := group_followed valid (show IsGroup 0 8 by decide) (by decide)
    rw [← fourth,← third,← second,← first,drop_zero]
  have first := group_read valid (show IsGroup 0 8 by decide)
  rw [drop_zero] at first
  conv_rhs => rw [text]
  rw [uuid_bin,grouped,first,group_read valid (show IsGroup 9 4 by decide),group_read valid (show IsGroup 14 4 by decide),
    group_read valid (show IsGroup 19 4 by decide),group_read valid (show IsGroup 24 12 by decide),
    @printed 4 0 (by decide),@printed 2 9 (by decide),@printed 2 14 (by decide),@printed 2 19 (by decide),
    @printed 6 24 (by decide)]
  have dash : tolower '-' = '-' := by decide
  simp only [map_append,map_cons,dash]
end UBoot.Uuid
