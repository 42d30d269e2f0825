import UBoot.EfiSignature

/-!
The parser of signature databases, `efi_build_signature_store` of
`lib/efi_loader/efi_signature.c`, with what it reads: a read behind the end of the value is an
outcome of its own. The owner of a signature is copied before its size is looked at.
-/
namespace UBoot.EfiSigstore
open UBoot.Buffers List
open UBoot.EfiSignature (Guid SigData SigList signature_list_sizeof guid_sizeof)

/-- How a call goes on: it returns, with `none` for `NULL`, it reads behind the end of the
    value, or its rounds are used up. -/
inductive Parse (α : Type) where
  | returned (result : Option α)
  | outside
  | spent
deriving DecidableEq

/-- The number in a field of `struct efi_signature_list`. -/
def field (esl : List UInt8) (offset : ℕ) : ℕ := number ((esl.drop offset).take 4)

def signature_list_size (esl : List UInt8) : ℕ := field esl 16
def signature_header_size (esl : List UInt8) : ℕ := field esl 20
def signature_size (esl : List UInt8) : ℕ := field esl 24

/-- The size of the data of a signature, which wraps for one that is smaller than its owner. -/
def data_size (size : ℕ) : ℕ := (size+2^64-guid_sizeof)%2^64

section
variable (malloc : ℕ → Bool)

/-- The loop of `efi_sigstore_parse_siglist` over the signatures. -/
def sig_data_loop (size : ℕ) : ℕ → List UInt8 → ℕ → List SigData → Parse (List SigData)
  | 0, _, _, _ => .spent
  | rounds+1, esd, left, sig_data_list =>
    if left = 0 then .returned (some sig_data_list)
    else if left < size then .returned none
    else if esd.length < guid_sizeof then .outside
    else if ¬ malloc (data_size size) then .returned none
    else if esd.length < guid_sizeof+data_size size then .outside
    else
      sig_data_loop size rounds (esd.drop size) (left-size)
        (⟨esd.take guid_sizeof,(esd.drop guid_sizeof).take (data_size size)⟩ :: sig_data_list)

def efi_sigstore_parse_siglist (esl : List UInt8) : Parse SigList :=
  if esl.length < signature_list_sizeof then .outside
  else if signature_list_size esl ≤ signature_list_sizeof+signature_header_size esl then .returned none
  else
    let left := signature_list_size esl-(signature_list_sizeof+signature_header_size esl)
    let esd := esl.drop (signature_list_sizeof+signature_header_size esl)
    match sig_data_loop malloc (signature_size esl) (left+1) esd left [] with
    | .returned (some sig_data_list) => .returned (some ⟨esl.take guid_sizeof,sig_data_list⟩)
    | .returned none => .returned none
    | .outside => .outside
    | .spent => .spent

/-- The loop of `efi_build_signature_store`; the size that is left is that of the bytes. -/
def build_loop : ℕ → List UInt8 → List SigList → Parse (List SigList)
  | 0, _, _ => .spent
  | rounds+1, esl, sigstore =>
    if esl.length = 0 then .returned (some sigstore)
    else if esl.length < signature_list_sizeof then .returned none
    else if esl.length < signature_list_size esl then .returned none
    else
      match efi_sigstore_parse_siglist malloc esl with
      | .returned (some siglist) => build_loop rounds (esl.drop (signature_list_size esl)) (siglist :: sigstore)
      | .returned none => .returned none
      | .outside => .outside
      | .spent => .spent

/-- `efi_build_signature_store`; the empty store is `NULL`. -/
def efi_build_signature_store (sig_list : List UInt8) : Parse (List SigList) :=
  build_loop malloc (sig_list.length+1) sig_list []

end

/-- A signature list: its type, its header, and its signatures, all of one size. -/
structure Encoded where
  sig_type : Guid
  header : List UInt8
  size : ℕ
  entries : List SigData

def entry_bytes (sig_data : SigData) : List UInt8 := sig_data.owner ++ sig_data.data

def Encoded.list_size (e : Encoded) : ℕ := signature_list_sizeof+e.header.length+e.entries.length*e.size

def Encoded.bytes (e : Encoded) : List UInt8 :=
  e.sig_type ++ little 4 e.list_size ++ little 4 e.header.length ++ little 4 e.size ++ e.header ++ e.entries.flatMap entry_bytes

/-- The signatures have an owner and fill the body, and the sizes fit their fields. -/
structure Encoded.WellFormed (e : Encoded) : Prop where
  sig_type : e.sig_type.length = guid_sizeof
  some_entry : e.entries ≠ []
  owned : guid_sizeof ≤ e.size
  sized : ∀ sig_data ∈ e.entries, sig_data.owner.length = guid_sizeof ∧ guid_sizeof+sig_data.data.length = e.size
  fits : e.list_size < 2^32

/-- The list in a store, with its signatures in reverse order. -/
def Encoded.siglist (e : Encoded) : SigList := ⟨e.sig_type,e.entries.reverse⟩

/-- The value is a row of lists, and the store holds them in reverse order. -/
def Encodes (sig_list : List UInt8) (lists : List Encoded) (store : List SigList) : Prop :=
  (∀ e ∈ lists, e.WellFormed) ∧ sig_list = lists.flatMap Encoded.bytes ∧ store = (lists.map Encoded.siglist).reverse

/-- A list whose first signature is smaller than its owner, which is cut off by the end. -/
def Cut (esl : List UInt8) : Prop :=
  signature_list_sizeof ≤ esl.length ∧ signature_list_size esl ≤ esl.length ∧
    signature_list_sizeof+signature_header_size esl+signature_size esl ≤ signature_list_size esl ∧
    signature_list_sizeof+signature_header_size esl < signature_list_size esl ∧ signature_size esl < guid_sizeof ∧
    esl.length < signature_list_sizeof+signature_header_size esl+guid_sizeof

def Overread (sig_list : List UInt8) : Prop :=
  ∃ (lists : List Encoded) (rest : List UInt8),
    (∀ e ∈ lists, e.WellFormed) ∧ sig_list = lists.flatMap Encoded.bytes ++ rest ∧ Cut rest

def Allocates (malloc : ℕ → Bool) : Prop :=
  (∀ size < 2^32, malloc size = true) ∧ ∀ size, 2^64-guid_sizeof ≤ size → malloc size = false

/-! ## The signatures of a list -/

def entries_of (size : ℕ) : ℕ → List UInt8 → List SigData
  | 0, _ => []
  | n+1, esd => ⟨esd.take guid_sizeof,(esd.drop guid_sizeof).take (size-guid_sizeof)⟩ :: entries_of size n (esd.drop size)

section
variable {malloc : ℕ → Bool} (allocates : Allocates malloc)

variable {esl : List UInt8} {rounds size : ℕ}

theorem data_size_eq (owned : guid_sizeof ≤ size) (small : size < 2^32) : data_size size = size-guid_sizeof := by
  unfold data_size guid_sizeof at *
  omega

theorem entries_of_length (size n : ℕ) (esd : List UInt8) : (entries_of size n esd).length = n := by
  induction n generalizing esd with
  | zero => rfl
  | succ n ih => rw [entries_of,length_cons,ih]

theorem entries_of_sized {size n : ℕ} {esd : List UInt8} (owned : guid_sizeof ≤ size) (enough : n*size ≤ esd.length) :
    (∀ sig_data ∈ entries_of size n esd, sig_data.owner.length = guid_sizeof ∧ guid_sizeof+sig_data.data.length = size) ∧
      (entries_of size n esd).flatMap entry_bytes = esd.take (n*size) := by
  induction n generalizing esd with
  | zero => simp [entries_of]
  | succ n ih =>
    have one : (n+1)*size = size+n*size := by ring
    obtain ⟨sized,joined⟩ := @ih (esd.drop size) (by rw [length_drop]; omega)
    rw [entries_of]
    constructor
    · intro sig_data member
      rcases mem_cons.1 member with rfl | member
      · simp only [length_take,length_drop]
        omega
      · exact sized sig_data member
    · rw [flatMap_cons,joined,entry_bytes,one,take_add]
      dsimp only
      congr 1
      have split : size = guid_sizeof+(size-guid_sizeof) := by omega
      conv_rhs => rw [split,take_add]

include allocates

theorem sig_data_loop_spec {size rounds left : ℕ} {esd : List UInt8} (sig_data_list : List SigData)
    (owned : guid_sizeof ≤ size) (small : size < 2^32) (inside : left ≤ esd.length) (enough : left < rounds) :
    sig_data_loop malloc size rounds esd left sig_data_list =
      if left%size = 0 then .returned (some ((entries_of size (left/size) esd).reverse ++ sig_data_list))
      else .returned none := by
  have positive : 0 < size := lt_of_lt_of_le (by decide) owned
  induction rounds generalizing left esd sig_data_list with
  | zero => omega
  | succ rounds ih =>
    rw [sig_data_loop,data_size_eq owned small]
    by_cases done : left = 0
    · rw [if_pos done,done,Nat.zero_mod,Nat.zero_div,if_pos rfl]
      rfl
    rw [if_neg done]
    by_cases short : left < size
    · rw [if_pos short,Nat.mod_eq_of_lt short,if_neg done]
    have given : malloc (size-guid_sizeof) = true := allocates.1 _ (by omega)
    have next := @ih (left-size) (esd.drop size)
      (⟨esd.take guid_sizeof,(esd.drop guid_sizeof).take (size-guid_sizeof)⟩ :: sig_data_list)
      (by rw [length_drop]; omega) (by omega)
    obtain ⟨rest,rfl⟩ : ∃ rest, left = rest+size := ⟨left-size,by omega⟩
    rw [if_neg short,if_neg (by omega),if_neg (by simp [given]),if_neg (by omega),next,Nat.add_sub_cancel,Nat.add_mod_right,
      Nat.add_div_right _ positive,entries_of]
    simp only [reverse_cons,append_assoc,singleton_append]

theorem sig_data_loop_small {size rounds left : ℕ} {esd : List UInt8} (sig_data_list : List SigData)
    (unowned : size < guid_sizeof) (some_left : left ≠ 0) :
    sig_data_loop malloc size (rounds+1) esd left sig_data_list =
      if left < size then .returned none else if esd.length < guid_sizeof then .outside else .returned none := by
  have wrapped : malloc (data_size size) = false := allocates.2 _ (by unfold data_size guid_sizeof at *; omega)
  rw [sig_data_loop,if_neg some_left,wrapped]
  simp

theorem parse_siglist_spec (head : signature_list_sizeof ≤ esl.length)
    (inside : signature_list_size esl ≤ esl.length)
    (body : signature_list_sizeof+signature_header_size esl < signature_list_size esl) :
    efi_sigstore_parse_siglist malloc esl =
      let start := signature_list_sizeof+signature_header_size esl
      let left := signature_list_size esl-start
      let size := signature_size esl
      if size < guid_sizeof then
        if left < size then .returned none else if esl.length-start < guid_sizeof then .outside else .returned none
      else if left%size = 0 then
        .returned (some ⟨esl.take guid_sizeof,(entries_of size (left/size) (esl.drop start)).reverse⟩)
      else .returned none := by
  have small : signature_size esl < 2^32 := by
    have bound := number_lt ((esl.drop 24).take 4)
    have := Nat.pow_le_pow_right (show 0 < 256 by omega) (length_take_le 4 (esl.drop 24))
    unfold signature_size field
    omega
  unfold efi_sigstore_parse_siglist
  rw [if_neg (by omega),if_neg (by omega)]
  dsimp only
  by_cases unowned : signature_size esl < guid_sizeof
  · rw [sig_data_loop_small allocates [] unowned (by omega),if_pos unowned,length_drop]
    by_cases short : signature_list_size esl-(signature_list_sizeof+signature_header_size esl) < signature_size esl
    · rw [if_pos short,if_pos short]
    rw [if_neg short,if_neg short]
    by_cases cut : esl.length-(signature_list_sizeof+signature_header_size esl) < guid_sizeof
    · rw [if_pos cut,if_pos cut]
    · rw [if_neg cut,if_neg cut]
  · rw [sig_data_loop_spec allocates [] (not_lt.1 unowned) small (by rw [length_drop]; omega) (Nat.lt_succ_self _),
      if_neg unowned,append_nil]
    by_cases whole : (signature_list_size esl-(signature_list_sizeof+signature_header_size esl))%signature_size esl = 0
    · rw [if_pos whole,if_pos whole]
    · rw [if_neg whole,if_neg whole]

end

/-! ## Encoded lists -/

theorem field_at {front back : List UInt8} {offset v : ℕ} (at_ : front.length = offset) (small : v < 2^32) :
    field (front ++ (little 4 v ++ back)) offset = v := by
  unfold field
  rw [drop_left' at_,take_left' (little_length 4 v),number_little,Nat.mod_eq_of_lt (by norm_num; omega)]

theorem field_take {offset : ℕ} (inside : offset+4 ≤ esl.length) :
    little 4 (field esl offset) = (esl.drop offset).take 4 := by
  have length : ((esl.drop offset).take 4).length = 4 := by
    rw [length_take,length_drop]
    omega
  have same := little_number ((esl.drop offset).take 4)
  rwa [length] at same

theorem entry_bytes_length {e : Encoded} (formed : e.WellFormed) :
    (e.entries.flatMap entry_bytes).length = e.entries.length*e.size := by
  have sized := formed.sized
  generalize e.entries = entries at sized
  induction entries with
  | nil => simp
  | cons first entries ih =>
    obtain ⟨owner,data⟩ := sized first mem_cons_self
    rw [flatMap_cons,length_append,ih fun other member => sized other (mem_cons_of_mem first member),
      entry_bytes,length_append,length_cons,Nat.succ_mul]
    omega

theorem bytes_length {e : Encoded} (formed : e.WellFormed) : e.bytes.length = e.list_size := by
  have type_length := formed.sig_type
  have body := entry_bytes_length formed
  simp only [Encoded.bytes,length_append,little_length,type_length,body,Encoded.list_size,signature_list_sizeof,guid_sizeof]

theorem entry_parts {first : SigData} (owned : first.owner.length = guid_sizeof) (rest : List UInt8) :
    (entry_bytes first ++ rest).take guid_sizeof = first.owner ∧
      ((entry_bytes first ++ rest).drop guid_sizeof).take first.data.length = first.data := by
  unfold entry_bytes
  rw [append_assoc,take_left' owned,drop_left' owned,take_left]
  exact ⟨rfl,rfl⟩

theorem entries_of_encoded {entries : List SigData} (rest : List UInt8)
    (sized : ∀ sig_data ∈ entries, sig_data.owner.length = guid_sizeof ∧ guid_sizeof+sig_data.data.length = size) :
    entries_of size entries.length (entries.flatMap entry_bytes ++ rest) = entries := by
  induction entries with
  | nil => rfl
  | cons first entries ih =>
    obtain ⟨owner,data⟩ := sized first mem_cons_self
    have parts := entry_parts owner (entries.flatMap entry_bytes ++ rest)
    have length : (entry_bytes first).length = size := by
      rw [entry_bytes,length_append]
      omega
    have data_length : size-guid_sizeof = first.data.length := by omega
    rw [flatMap_cons,length_cons,entries_of,append_assoc,parts.1,data_length,parts.2,drop_left' length,
      ih fun other member => sized other (mem_cons_of_mem first member)]

theorem encoded_fields {e : Encoded} (formed : e.WellFormed) (rest : List UInt8) :
    signature_list_size (e.bytes ++ rest) = e.list_size ∧ signature_header_size (e.bytes ++ rest) = e.header.length ∧
      signature_size (e.bytes ++ rest) = e.size ∧ (e.bytes ++ rest).take guid_sizeof = e.sig_type ∧
      (e.bytes ++ rest).drop (signature_list_sizeof+e.header.length) = e.entries.flatMap entry_bytes ++ rest := by
  have type_length := formed.sig_type
  have fits := formed.fits
  have some_entry : 1 ≤ e.entries.length := length_pos_iff.2 formed.some_entry
  have size_small : e.size ≤ e.entries.length*e.size := Nat.le_mul_of_pos_left _ some_entry
  have bounds : e.header.length < 2^32 ∧ e.size < 2^32 := by
    unfold Encoded.list_size at fits
    omega
  unfold signature_list_size signature_header_size signature_size Encoded.bytes guid_sizeof at *
  simp only [append_assoc]
  refine ⟨field_at type_length fits,?_,?_,take_left' type_length,?_⟩
  · rw [← append_assoc]
    exact field_at (by simp [type_length]) bounds.1
  · rw [← append_assoc,← append_assoc]
    exact field_at (by simp [type_length]) bounds.2
  · rw [← append_assoc,← append_assoc,← append_assoc,← append_assoc]
    refine drop_left' ?_
    simp only [length_append,little_length,type_length,signature_list_sizeof]

theorem parse_encoded {malloc : ℕ → Bool} (allocates : Allocates malloc) {e : Encoded} (formed : e.WellFormed)
    (rest : List UInt8) : efi_sigstore_parse_siglist malloc (e.bytes ++ rest) = .returned (some e.siglist) := by
  obtain ⟨list_size,header_size,size,type_is,body⟩ := encoded_fields formed rest
  have length := bytes_length formed
  have positive : 0 < e.size := lt_of_lt_of_le (by decide) formed.owned
  have some_entry : 0 < e.entries.length*e.size := mul_pos (length_pos_iff.2 formed.some_entry) positive
  have left : e.list_size-(signature_list_sizeof+e.header.length) = e.entries.length*e.size := by
    unfold Encoded.list_size
    omega
  rw [parse_siglist_spec allocates (by rw [length_append,length]; unfold Encoded.list_size; omega)
    (by rw [list_size,length_append,length]; omega) (by rw [list_size,header_size]; unfold Encoded.list_size; omega)]
  dsimp only
  rw [list_size,header_size,size,if_neg (not_lt.2 formed.owned),left,Nat.mul_mod_left,if_pos rfl,type_is,body,
    Nat.mul_div_cancel _ positive,entries_of_encoded rest formed.sized]
  rfl

theorem list_bytes (esl : List UInt8) (head : signature_list_sizeof ≤ esl.length)
    (body : signature_list_sizeof+signature_header_size esl ≤ signature_list_size esl) :
    esl.take (signature_list_size esl) =
      esl.take guid_sizeof ++ little 4 (signature_list_size esl) ++ little 4 (signature_header_size esl) ++
        little 4 (signature_size esl) ++ (esl.drop signature_list_sizeof).take (signature_header_size esl) ++
        (esl.drop (signature_list_sizeof+signature_header_size esl)).take
          (signature_list_size esl-(signature_list_sizeof+signature_header_size esl)) := by
  have split : signature_list_size esl = 16+4+4+4+signature_header_size esl+
      (signature_list_size esl-(signature_list_sizeof+signature_header_size esl)) := by
    unfold signature_list_sizeof at *
    omega
  unfold signature_list_sizeof at head
  conv_lhs => rw [split,take_add,take_add,take_add,take_add,take_add]
  unfold signature_list_size signature_header_size signature_size guid_sizeof signature_list_sizeof
  rw [field_take (by omega),field_take (by omega),field_take (by omega)]

theorem parsed_encoded {malloc : ℕ → Bool} (allocates : Allocates malloc) {siglist : SigList}
    (head : signature_list_sizeof ≤ esl.length) (inside : signature_list_size esl ≤ esl.length)
    (parsed : efi_sigstore_parse_siglist malloc esl = .returned (some siglist)) :
    ∃ e : Encoded, e.WellFormed ∧ e.siglist = siglist ∧ esl = e.bytes ++ esl.drop (signature_list_size esl) := by
  by_cases body : signature_list_sizeof+signature_header_size esl < signature_list_size esl
  · rw [parse_siglist_spec allocates head inside body] at parsed
    dsimp only at parsed
    by_cases unowned : signature_size esl < guid_sizeof
    · rw [if_pos unowned] at parsed
      split at parsed
      · cases parsed
      · split at parsed <;> cases parsed
    rw [if_neg unowned] at parsed
    split at parsed
    next whole =>
      have siglist_is := Option.some.inj (Parse.returned.inj parsed)
      have rows := Nat.div_mul_cancel (Nat.dvd_of_mod_eq_zero whole)
      have small : signature_list_size esl < 2^32 := by
        have bound := number_lt ((esl.drop 16).take 4)
        have := Nat.pow_le_pow_right (show 0 < 256 by omega) (length_take_le 4 (esl.drop 16))
        unfold signature_list_size field
        omega
      obtain ⟨count,countIs⟩ : ∃ n, n = (signature_list_size esl-(signature_list_sizeof+signature_header_size esl))/signature_size esl :=
        ⟨_,rfl⟩
      rw [← countIs] at rows siglist_is
      obtain ⟨sized,joined⟩ := @entries_of_sized (signature_size esl) count
        (esl.drop (signature_list_sizeof+signature_header_size esl)) (not_lt.1 unowned)
        (by rw [rows,length_drop]; omega)
      let e : Encoded := ⟨esl.take guid_sizeof,(esl.drop signature_list_sizeof).take (signature_header_size esl),signature_size esl,
        entries_of (signature_size esl) count (esl.drop (signature_list_sizeof+signature_header_size esl))⟩
      have header_length : e.header.length = signature_header_size esl := by
        rw [length_take,length_drop]
        omega
      have list_size : e.list_size = signature_list_size esl := by
        rw [Encoded.list_size,header_length,entries_of_length,rows]
        omega
      refine ⟨e,⟨?_,?_,not_lt.1 unowned,sized,by rw [list_size]; exact small⟩,siglist_is,?_⟩
      · rw [length_take]
        unfold signature_list_sizeof guid_sizeof at *
        omega
      · intro empty
        have length : e.entries.length = count := entries_of_length _ _ _
        rw [empty,length_nil] at length
        rw [← length] at rows
        omega
      · have bytes_is : e.bytes = esl.take (signature_list_size esl) := by
          rw [list_bytes esl head body.le,Encoded.bytes,list_size,header_length,← rows,← joined]
        rw [bytes_is,take_append_drop]
    next => cases parsed
  · unfold efi_sigstore_parse_siglist at parsed
    rw [if_neg (by omega),if_pos (by omega)] at parsed
    cases parsed

/-! ## The whole value -/

section
variable {malloc : ℕ → Bool} (allocates : Allocates malloc)
include allocates

theorem build_encoded {lists : List Encoded} (formed : ∀ e ∈ lists, e.WellFormed) (rest : List UInt8)
    (sigstore : List SigList) (enough : (lists.flatMap Encoded.bytes ++ rest).length < rounds) :
    ∃ left, rest.length < left ∧ build_loop malloc rounds (lists.flatMap Encoded.bytes ++ rest) sigstore =
      build_loop malloc left rest ((lists.map Encoded.siglist).reverse ++ sigstore) := by
  induction lists generalizing rounds sigstore with
  | nil => exact ⟨rounds,by simpa using enough,rfl⟩
  | cons e lists ih =>
    obtain ⟨rounds,rfl⟩ : ∃ r, rounds = r+1 := ⟨rounds-1,by omega⟩
    have e_formed := formed e mem_cons_self
    have length := bytes_length e_formed
    have size : signature_list_sizeof ≤ e.list_size := by
      unfold Encoded.list_size
      omega
    rw [flatMap_cons,append_assoc,length_append,length] at enough
    obtain ⟨left,more,run⟩ := ih (fun other member => formed other (mem_cons_of_mem e member)) (e.siglist :: sigstore)
      (show (lists.flatMap Encoded.bytes ++ rest).length < rounds by unfold signature_list_sizeof at size; omega)
    refine ⟨left,more,?_⟩
    rw [flatMap_cons,append_assoc,build_loop,(encoded_fields e_formed _).1,parse_encoded allocates e_formed,
      length_append,length,if_neg (by unfold signature_list_sizeof at size; omega),if_neg (by omega),if_neg (by omega)]
    dsimp only
    rw [drop_left' length,run]
    simp

theorem build_cut {rest : List UInt8} (cut : Cut rest) (sigstore : List SigList) (rounds : ℕ) :
    build_loop malloc (rounds+1) rest sigstore = .outside := by
  obtain ⟨head,inside,room,body,unowned,short⟩ := cut
  have parsed := parse_siglist_spec allocates head inside body
  dsimp only at parsed
  rw [if_pos unowned,if_neg (by omega),if_pos (by omega)] at parsed
  rw [build_loop,if_neg (by unfold signature_list_sizeof at head; omega),if_neg (by omega),if_neg (by omega),parsed]

theorem parse_outcomes (head : signature_list_sizeof ≤ esl.length)
    (inside : signature_list_size esl ≤ esl.length) :
    efi_sigstore_parse_siglist malloc esl ≠ .spent ∧
      (efi_sigstore_parse_siglist malloc esl = .outside → Cut esl) := by
  by_cases body : signature_list_sizeof+signature_header_size esl < signature_list_size esl
  · rw [parse_siglist_spec allocates head inside body]
    dsimp only
    by_cases unowned : signature_size esl < guid_sizeof
    · rw [if_pos unowned]
      by_cases short : signature_list_size esl-(signature_list_sizeof+signature_header_size esl) < signature_size esl
      · rw [if_pos short]
        simp
      rw [if_neg short]
      by_cases cut : esl.length-(signature_list_sizeof+signature_header_size esl) < guid_sizeof
      · rw [if_pos cut]
        exact ⟨by simp,fun _ => ⟨head,inside,by omega,body,unowned,by omega⟩⟩
      · rw [if_neg cut]
        simp
    · rw [if_neg unowned]
      split <;> simp
  · unfold efi_sigstore_parse_siglist
    rw [if_neg (by omega),if_pos (by omega)]
    simp

theorem build_cases (esl : List UInt8) (sigstore : List SigList) (enough : esl.length < rounds) :
    (∃ lists store, Encodes esl lists store ∧ build_loop malloc rounds esl sigstore = .returned (some (store ++ sigstore))) ∨
      build_loop malloc rounds esl sigstore = .outside ∧ Overread esl ∨
      build_loop malloc rounds esl sigstore = .returned none := by
  induction rounds generalizing esl sigstore with
  | zero => omega
  | succ rounds ih =>
    rw [build_loop]
    by_cases done : esl.length = 0
    · rw [if_pos done]
      have empty : esl = [] := eq_nil_of_length_eq_zero done
      exact .inl ⟨[],[],⟨by simp,by simp [empty],rfl⟩,rfl⟩
    rw [if_neg done]
    by_cases short : esl.length < signature_list_sizeof
    · rw [if_pos short]
      exact .inr (.inr rfl)
    rw [if_neg short]
    by_cases long : esl.length < signature_list_size esl
    · rw [if_pos long]
      exact .inr (.inr rfl)
    rw [if_neg long]
    obtain ⟨unspent,read_behind⟩ := parse_outcomes allocates (not_lt.1 short) (not_lt.1 long)
    cases parsed : efi_sigstore_parse_siglist malloc esl with
    | spent => exact absurd parsed unspent
    | outside => exact .inr (.inl ⟨rfl,[],esl,by simp,rfl,read_behind parsed⟩)
    | returned result =>
      cases result with
      | none => exact .inr (.inr rfl)
      | some siglist =>
        obtain ⟨e,formed,siglist_is,split⟩ := parsed_encoded allocates (not_lt.1 short) (not_lt.1 long) parsed
        have length := bytes_length formed
        have left := congrArg List.length split
        have size : signature_list_sizeof ≤ e.list_size := by
          unfold Encoded.list_size
          omega
        rw [length_append,length] at left
        unfold signature_list_sizeof at size
        dsimp only
        rcases ih (esl.drop (signature_list_size esl)) (siglist :: sigstore) (by omega) with
          ⟨lists,store,⟨all_formed,bytes,store_is⟩,run⟩ | ⟨run,lists,rest,all_formed,bytes,cut⟩ | run
        · refine .inl ⟨e :: lists,store ++ [siglist],⟨forall_mem_cons.2 ⟨formed,all_formed⟩,?_,?_⟩,?_⟩
          · rw [flatMap_cons,← bytes]
            exact split
          · rw [store_is,map_cons,reverse_cons,siglist_is]
          · rw [run,append_assoc]
            rfl
        · refine .inr (.inl ⟨run,e :: lists,rest,forall_mem_cons.2 ⟨formed,all_formed⟩,?_,cut⟩)
          rw [flatMap_cons,append_assoc,← bytes]
          exact split
        · exact .inr (.inr run)

/-- The value is parsed as it is encoded: the call returns, reads inside the value, and gives
    a store just where the value is a row of one or more lists, with these lists. -/
def Exact (malloc : ℕ → Bool) (sig_list : List UInt8) : Prop :=
  efi_build_signature_store malloc sig_list ≠ .spent ∧ efi_build_signature_store malloc sig_list ≠ .outside ∧
    ∀ store, efi_build_signature_store malloc sig_list = .returned (some store) ∧ store ≠ [] ↔
      ∃ lists, lists ≠ [] ∧ Encodes sig_list lists store

theorem overread_outside {sig_list : List UInt8} (overread : Overread sig_list) :
    efi_build_signature_store malloc sig_list = .outside := by
  obtain ⟨lists,rest,formed,rfl,cut⟩ := overread
  obtain ⟨left,more,run⟩ := build_encoded allocates formed rest [] (Nat.lt_succ_self _)
  obtain ⟨left,rfl⟩ : ∃ l, left = l+1 := ⟨left-1,by omega⟩
  rw [efi_build_signature_store,run,build_cut allocates cut]

/-- A value is parsed exactly if it is not read behind its end. -/
theorem build_exact_iff (sig_list : List UInt8) : Exact malloc sig_list ↔ ¬ Overread sig_list := by
  constructor
  · rintro ⟨-,inside,-⟩ overread
    exact inside (overread_outside allocates overread)
  · intro inside
    have encoded {lists : List Encoded} {store : List SigList} (encodes : Encodes sig_list lists store) :
        efi_build_signature_store malloc sig_list = .returned (some store) := by
      obtain ⟨formed,bytes,store_is⟩ := encodes
      obtain ⟨left,more,run⟩ := build_encoded allocates formed [] [] (Nat.lt_succ_self _)
      obtain ⟨left,rfl⟩ : ∃ l, left = l+1 := ⟨left-1,by simp at more; omega⟩
      rw [List.append_nil,← bytes,List.append_nil,← store_is] at run
      rw [efi_build_signature_store,run,build_loop]
      rfl
    have nonempty {lists : List Encoded} {store : List SigList} (encodes : Encodes sig_list lists store) :
        store ≠ [] ↔ lists ≠ [] := by
      rw [encodes.2.2]
      simp
    rcases build_cases allocates sig_list [] (Nat.lt_succ_self _) with ⟨lists,store,encodes,-⟩ | ⟨-,overread⟩ | refused
    · have run := encoded encodes
      refine ⟨by rw [run]; simp,by rw [run]; simp,fun other => ⟨?_,?_⟩⟩
      · rintro ⟨found,some_lists⟩
        rw [run] at found
        obtain rfl := Option.some.inj (Parse.returned.inj found)
        exact ⟨lists,(nonempty encodes).1 some_lists,encodes⟩
      · rintro ⟨lists',some_lists,encodes'⟩
        exact ⟨encoded encodes',(nonempty encodes').2 some_lists⟩
    · exact absurd overread inside
    · have run : efi_build_signature_store malloc sig_list = .returned none := refused
      refine ⟨by rw [run]; simp,by rw [run]; simp,fun store => ⟨?_,?_⟩⟩
      · rintro ⟨found,-⟩
        rw [run] at found
        cases found
      · rintro ⟨lists,-,encodes⟩
        rw [encoded encodes] at run
        cases run

end

def plain_malloc (size : ℕ) : Bool := size < 2^63

theorem plain_allocates : Allocates plain_malloc :=
  ⟨fun size small => decide_eq_true (by omega),fun size wrapped => decide_eq_false (by unfold guid_sizeof at wrapped; omega)⟩

/-- Two lists, one of them with a header and two signatures. -/
def two_lists : List UInt8 :=
  EfiSignature.sample_value (List.replicate 32 1) ++
    (List.replicate 16 7 ++ little 4 65 ++ little 4 1 ++ little 4 18 ++ [9] ++ List.replicate 36 3)

theorem two_lists_exact : Exact plain_malloc two_lists := by
  refine (build_exact_iff plain_allocates two_lists).2 fun overread => ?_
  have run : efi_build_signature_store plain_malloc two_lists ≠ .outside := by decide +kernel
  exact run (overread_outside plain_allocates overread)

/-- One list with a body of one byte and signatures of one byte. -/
def byte_list : List UInt8 := List.replicate 16 7 ++ little 4 29 ++ little 4 0 ++ little 4 1 ++ [9]

/-- The owner of a signature is read behind the end. -/
theorem owner_read_outside :
    efi_build_signature_store plain_malloc byte_list = .outside ∧ ¬ Exact plain_malloc byte_list := by
  have run : efi_build_signature_store plain_malloc byte_list = .outside := by decide +kernel
  exact ⟨run,fun exact_ => exact_.2.1 run⟩

end UBoot.EfiSigstore
