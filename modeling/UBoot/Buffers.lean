import UBoot.Memory

/-!
Buffers of bytes that are read and written within their bounds: a little-endian
number is read at an offset, and a read or a write that is not inside the buffer
gives nothing. Numbers are also read from memory, which has no bounds of its own.
-/
namespace UBoot.Buffers
open UBoot.Memory List

/-- The number that the bytes stand for, the first byte the lowest. -/
def number : List UInt8 → ℕ
  | [] => 0
  | b :: bs => b.toNat+256*number bs

def little : ℕ → ℕ → List UInt8
  | 0, _ => []
  | n+1, v => .ofNat v :: little n (v/256)

def read (n : ℕ) (data : List UInt8) (offset : ℕ) : Option ℕ :=
  if offset+n ≤ data.length then some (number ((data.drop offset).take n)) else none

def write (data : List UInt8) (offset : ℕ) (bytes : List UInt8) : Option (List UInt8) :=
  if offset+bytes.length ≤ data.length then
    some (data.take offset ++ (bytes ++ data.drop (offset+bytes.length)))
  else none

@[simp] theorem little_length (n v : ℕ) : (little n v).length = n := by
  induction n generalizing v with
  | zero => rfl
  | succ n ih => rw [little,length_cons,ih]

theorem number_little (n v : ℕ) : number (little n v) = v%256^n := by
  induction n generalizing v with
  | zero => rw [little,number,pow_zero,Nat.mod_one]
  | succ n ih =>
    have byte : (UInt8.ofNat v).toNat = v%256 := UInt8.toNat_ofNat'
    rw [little,number,ih,byte,pow_succ,mul_comm (256^n),Nat.mod_mul]

theorem little_number (bytes : List UInt8) : little bytes.length (number bytes) = bytes := by
  induction bytes with
  | nil => rfl
  | cons b bytes ih =>
    have low : b.toNat < 256 := b.toNat_lt
    have byte : UInt8.ofNat (b.toNat+256*number bytes) = b := by
      apply UInt8.toNat_inj.mp
      rw [UInt8.toNat_ofNat']
      omega
    have rest : (b.toNat+256*number bytes)/256 = number bytes := by omega
    rw [length_cons,number,little,byte,rest,ih]

theorem number_lt (bytes : List UInt8) : number bytes < 256^bytes.length := by
  induction bytes with
  | nil => exact Nat.one_pos
  | cons b bytes ih =>
    have byte : b.toNat < 256 := b.toNat_lt
    rw [number,length_cons,pow_succ]
    omega

theorem read_isSome {n offset : ℕ} {data : List UInt8} : (read n data offset).isSome ↔ offset+n ≤ data.length := by
  rw [read]
  split
  · next inside => exact ⟨fun _ => inside,fun _ => rfl⟩
  · next outside => exact ⟨fun absent => absurd absent (by simp),fun inside => absurd inside outside⟩

theorem read_inside (n : ℕ) (data : List UInt8) (offset : ℕ) (inside : offset+n ≤ data.length) :
    ∃ v, read n data offset = some v := Option.isSome_iff_exists.mp (read_isSome.mpr inside)

theorem read_outside {n offset : ℕ} {data : List UInt8} (outside : ¬ offset+n ≤ data.length) :
    read n data offset = none := if_neg outside

/-- What stands behind `front` is read at its length. -/
theorem read_behind {n offset : ℕ} (front bytes rest : List UInt8) (size : bytes.length = n)
    (at_ : front.length = offset) : read n (front ++ (bytes ++ rest)) offset = some (number bytes) := by
  subst size at_
  rw [read,if_pos (by simp only [length_append]; omega),drop_left,take_left]

/-- A write that goes on where the last one ended. -/
theorem write_behind (offset : ℕ) (front rest bytes : List UInt8) (at_ : front.length = offset)
    (fits : bytes.length ≤ rest.length) :
    write (front ++ rest) offset bytes = some (front ++ bytes ++ rest.drop bytes.length) := by
  subst at_
  rw [write,if_pos (by simp only [length_append]; omega),take_left,← drop_drop,drop_left,
    append_assoc]

theorem write_outside {offset : ℕ} {data bytes : List UInt8} (outside : data.length < offset+bytes.length) :
    write data offset bytes = none := if_neg (by omega)

def field (image : ℕ → UInt8) (offset n : ℕ) : ℕ := number (load image offset n)

def Holds (image : ℕ → UInt8) (offset : ℕ) (bytes : List UInt8) : Prop := load image offset bytes.length = bytes

theorem holds_append {image : ℕ → UInt8} {offset : ℕ} {a b : List UInt8} :
    Holds image offset (a ++ b) ↔ Holds image offset a ∧ Holds image (offset+a.length) b := by
  rw [Holds,Holds,Holds,length_append,load_append]
  constructor
  · intro same
    exact append_inj same (load_length _ _ _)
  · rintro ⟨first,second⟩
    rw [first,second]

theorem field_little {image : ℕ → UInt8} {offset n v : ℕ} (holds : Holds image offset (little n v)) (small : v < 256^n) :
    field image offset n = v := by
  rw [Holds,little_length] at holds
  rw [field,holds,number_little,Nat.mod_eq_of_lt small]

theorem field_lt (image : ℕ → UInt8) (offset n : ℕ) : field image offset n < 256^n := by
  have bound := number_lt (load image offset n)
  rwa [load_length] at bound

/-- A part of what stands in memory. -/
theorem load_part (image : ℕ → UInt8) (data : ℕ) {offset n size : ℕ} (inside : offset+n ≤ size) :
    ((load image data size).drop offset).take n = load image (data+offset) n := by
  obtain ⟨rest,rfl⟩ := Nat.exists_eq_add_of_le inside
  rw [add_assoc,load_append,drop_left' (load_length _ _ _),load_append,take_left' (load_length _ _ _)]

end UBoot.Buffers
