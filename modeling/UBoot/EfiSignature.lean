import UBoot.Buffers

/-!
The signature stores of `lib/efi_loader/efi_signature.c`: how the value of a signature database is
parsed, and how the digest of an image is looked up. The digest is an argument, and `malloc` gives
memory or not by the size. The digest is freed behind the first list of SHA-256 hashes, and the
length that entries are compared with is zero from then on (`lookup_iff`).
-/
namespace UBoot.EfiSignature
open UBoot.Buffers
open List hiding Vector

abbrev Guid := List UInt8

def EFI_GUID (a b c : ℕ) (d : List UInt8) : Guid := little 4 a ++ little 2 b ++ little 2 c ++ d

def EFI_CERT_SHA1_GUID : Guid := EFI_GUID 0x826ca512 0xcf10 0x4ac9 [0xb1,0x87,0xbe,0x01,0x49,0x66,0x31,0xbd]
def EFI_CERT_SHA224_GUID : Guid := EFI_GUID 0xb6e5233 0xa65c 0x44c9 [0x94,0x07,0xd9,0xab,0x83,0xbf,0xc8,0xbd]
def EFI_CERT_SHA256_GUID : Guid := EFI_GUID 0xc1c41626 0x504c 0x4092 [0xac,0xa9,0x41,0xf9,0x36,0x93,0x43,0x28]
def EFI_CERT_SHA384_GUID : Guid := EFI_GUID 0xff3e5307 0x9fd0 0x48c9 [0x85,0xf1,0x8a,0xd5,0x6c,0x70,0x1e,0x01]
def EFI_CERT_SHA512_GUID : Guid := EFI_GUID 0x93e0fae 0xa6c4 0x4f50 [0x9f,0x1b,0xd4,0x1e,0x2b,0x89,0xc1,0x9a]

/-- `struct efi_sig_data`; its size is the length of the data. -/
structure SigData where
  owner : Guid
  data : List UInt8
deriving DecidableEq

/-- One list of a `struct efi_signature_store`; a store is the lists along `next`. -/
structure SigList where
  sig_type : Guid
  sig_data_list : List SigData
deriving DecidableEq

/-- `sizeof(struct efi_signature_list)` and `sizeof(efi_guid_t)` -/
def signature_list_sizeof : ℕ := 28
def guid_sizeof : ℕ := 16

/-- The loop of `efi_sigstore_parse_siglist` over the signatures, for as many rounds. The
    size of the data wraps where a signature is smaller than its owner. -/
def sig_data_loop (malloc : ℕ → Bool) (signature_size : ℕ) :
    ℕ → List UInt8 → ℕ → List SigData → Option (List SigData)
  | 0, _, _, _ => none
  | rounds+1, esd, left, sig_data_list =>
    if left = 0 then some sig_data_list
    else if left < signature_size then none
    else
      let size := (signature_size+2^64-guid_sizeof)%2^64
      if malloc size then
        let sig_data : SigData := ⟨esd.take guid_sizeof,(esd.drop guid_sizeof).take size⟩
        sig_data_loop malloc signature_size rounds (esd.drop signature_size) (left-signature_size) (sig_data::sig_data_list)
      else none

def efi_sigstore_parse_siglist (malloc : ℕ → Bool) (esl : List UInt8) : Option SigList := do
  let signature_list_size ← read 4 esl 16
  let signature_header_size ← read 4 esl 20
  let signature_size ← read 4 esl 24
  if signature_list_size ≤ signature_list_sizeof+signature_header_size then none
  else
    let left := signature_list_size-(signature_list_sizeof+signature_header_size)
    let esd := esl.drop (signature_list_sizeof+signature_header_size)
    let sig_data_list ← sig_data_loop malloc signature_size (left+1) esd left []
    some ⟨esl.take guid_sizeof,sig_data_list⟩

/-- The loop of `efi_build_signature_store`, for as many rounds. -/
def build_loop (malloc : ℕ → Bool) : ℕ → List UInt8 → ℕ → List SigList → Option (List SigList)
  | 0, _, _, _ => none
  | rounds+1, esl, size, sigstore =>
    if size = 0 then some sigstore
    else if size < signature_list_sizeof then none
    else do
      let signature_list_size ← read 4 esl 16
      if size < signature_list_size then none
      else
        let siglist ← efi_sigstore_parse_siglist malloc esl
        build_loop malloc rounds (esl.drop signature_list_size) (size-signature_list_size) (siglist::sigstore)

/-- `efi_build_signature_store` for the value of a variable. -/
def efi_build_signature_store (malloc : ℕ → Bool) (sig_list : List UInt8) : Option (List SigList) :=
  build_loop malloc (sig_list.length+1) sig_list sig_list.length []

def hash_algo_supported (guid : Guid) : Bool :=
  !([EFI_CERT_SHA1_GUID,EFI_CERT_SHA224_GUID,EFI_CERT_SHA384_GUID,EFI_CERT_SHA512_GUID].contains guid)

/-- An entry is compared with the first `len` bytes of the hash. -/
def same_digest (sig_data : SigData) (hash : Option (List UInt8)) (len : ℕ) : Bool :=
  sig_data.data.length = len && sig_data.data.take len = (hash.getD []).take len

/-- The loop of `efi_signature_lookup_digest` over the lists; `digest` is what
    `efi_hash_regions` computes. -/
def lookup_loop (digest : Vector UInt8 32) (dbx : Bool) : List SigList → Option (List UInt8) → Bool → Bool → Bool
  | [], _, found, _ => found
  | siglist :: next, hash, found, hash_done =>
    if dbx && !hash_algo_supported siglist.sig_type then lookup_loop digest dbx next hash true hash_done
    else if siglist.sig_type ≠ EFI_CERT_SHA256_GUID then lookup_loop digest dbx next hash found hash_done
    else
      let len := 0
      let (hash,len) := if hash_done then (hash,len) else (some digest.toList,32)
      if siglist.sig_data_list.any fun sig_data => same_digest sig_data hash len then true
      else lookup_loop digest dbx next none found true

/-- `efi_signature_lookup_digest`; the first list is the one that `db` points to. -/
def efi_signature_lookup_digest {Regions : Type} (hash_regions : Regions → Vector UInt8 32) (regs : Regions)
    (db : List SigList) (dbx : Bool) : Bool :=
  match db with
  | [] => false
  | siglist :: _ => if siglist.sig_data_list = [] then false else lookup_loop (hash_regions regs) dbx db none false false

/-- An entry of a list of SHA-256 hashes is the digest. -/
def Listed (digest : List UInt8) (store : List SigList) : Prop :=
  ∃ siglist ∈ store, siglist.sig_type = EFI_CERT_SHA256_GUID ∧ ∃ sig_data ∈ siglist.sig_data_list, sig_data.data = digest

/-- A list of hashes of a type that is not supported, which matters in dbx. -/
def Unsupported (dbx : Bool) (store : List SigList) : Prop :=
  dbx = true ∧ ∃ siglist ∈ store, hash_algo_supported siglist.sig_type = false

/-- The lists of SHA-256 hashes, in the order of the store. -/
def sha256_lists (store : List SigList) : List SigList := store.filter (·.sig_type = EFI_CERT_SHA256_GUID)

def Built (store : List SigList) : Prop :=
  ∃ malloc sig_list, efi_build_signature_store malloc sig_list = some store

/-- The lookup is exact: there is a list that is not supported, the digest is in the first
    list of SHA-256 hashes, or the other ones hold the digest just if they hold an entry
    without data. -/
def Exact (digest : List UInt8) (dbx : Bool) (store : List SigList) : Prop :=
  Unsupported dbx store ∨ Listed digest ((sha256_lists store).take 1) ∨
    (Listed digest ((sha256_lists store).drop 1) ↔ Listed [] ((sha256_lists store).drop 1))

/-! ## The loop -/

theorem same_digest_nothing (sig_data : SigData) : same_digest sig_data none 0 = true ↔ sig_data.data = [] := by
  rw [same_digest]
  simp

theorem same_digest_iff (sig_data : SigData) (digest : Vector UInt8 32) :
    same_digest sig_data (some digest.toList) 32 = true ↔ sig_data.data = digest.toList := by
  have length : digest.toList.length = 32 := Vector.length_toList
  rw [same_digest,Option.getD_some,take_of_length_le length.le,Bool.and_eq_true,decide_eq_true_iff,decide_eq_true_iff]
  constructor
  · rintro ⟨size,same⟩
    rwa [take_of_length_le size.le] at same
  · intro same
    rw [same,length]
    exact ⟨rfl,take_of_length_le length.le⟩

theorem listed_cons (digest : List UInt8) (siglist : SigList) (next : List SigList) :
    Listed digest (siglist::next) ↔
      (siglist.sig_type = EFI_CERT_SHA256_GUID ∧ ∃ sig_data ∈ siglist.sig_data_list, sig_data.data = digest) ∨
        Listed digest next := by
  rw [Listed,Listed]
  simp only [mem_cons,exists_eq_or_imp]

theorem unsupported_cons (dbx : Bool) (siglist : SigList) (next : List SigList) :
    Unsupported dbx (siglist::next) ↔
      (dbx && !hash_algo_supported siglist.sig_type) = true ∨ Unsupported dbx next := by
  rw [Unsupported,Unsupported]
  simp only [mem_cons,exists_eq_or_imp,Bool.and_eq_true,Bool.not_eq_true']
  tauto

theorem listed_append (digest : List UInt8) (store : List SigList) :
    Listed digest (store.take 1) ∨ Listed digest (store.drop 1) ↔ Listed digest store := by
  cases store with
  | nil => exact or_self_iff
  | cons siglist next => simp [Listed]

theorem lookup_loop_iff (digest : Vector UInt8 32) (dbx : Bool) (store : List SigList) (found hash_done : Bool) :
    lookup_loop digest dbx store none found hash_done = true ↔
      found = true ∨ Unsupported dbx store ∨ Listed (if hash_done then [] else digest.toList) ((sha256_lists store).take 1) ∨
        Listed [] ((sha256_lists store).drop 1) := by
  induction store generalizing found hash_done with
  | nil =>
    rw [lookup_loop]
    simp [Unsupported,Listed,sha256_lists]
  | cons siglist next ih =>
    rw [lookup_loop,unsupported_cons,sha256_lists]
    by_cases rejected : (dbx && !hash_algo_supported siglist.sig_type) = true
    · rw [if_pos rejected,ih]
      simp [rejected]
    rw [if_neg rejected,or_iff_right rejected]
    by_cases sha256 : siglist.sig_type = EFI_CERT_SHA256_GUID
    · rw [if_neg (not_not.mpr sha256),filter_cons_of_pos (by simpa using sha256),take_succ_cons,take_zero,
        drop_one,tail_cons,listed_cons]
      have compared : ∀ hash len bytes, ((siglist.sig_data_list.any fun sig_data => same_digest sig_data hash len) = true ↔
          ∃ sig_data ∈ siglist.sig_data_list, sig_data.data = bytes) →
          ((if (siglist.sig_data_list.any fun sig_data => same_digest sig_data hash len) = true then true
            else lookup_loop digest dbx next none found true) = true ↔ found = true ∨ Unsupported dbx next ∨
              ((siglist.sig_type = EFI_CERT_SHA256_GUID ∧ ∃ sig_data ∈ siglist.sig_data_list, sig_data.data = bytes) ∨ Listed bytes []) ∨
                Listed [] (sha256_lists next)) := by
        intro hash len bytes agrees
        by_cases same : ∃ sig_data ∈ siglist.sig_data_list, sig_data.data = bytes
        · rw [if_pos (agrees.mpr same)]
          exact ⟨fun _ => Or.inr (Or.inr (Or.inl (Or.inl ⟨sha256,same⟩))),fun _ => rfl⟩
        · have nothing : ¬ Listed bytes [] := fun ⟨_,member,_⟩ => not_mem_nil member
          rw [if_neg (mt agrees.mp same),ih]
          simp only [if_true,listed_append,same,nothing,and_false,false_or]
      cases hash_done with
      | true => exact compared none 0 [] (by simp [same_digest_nothing])
      | false => exact compared (some digest.toList) 32 _ (by simp [same_digest_iff])
    · rw [if_pos sha256,ih,filter_cons_of_neg (by simpa using sha256)]
      rfl

/-! ## Stores that are built -/

theorem sig_data_loop_some {malloc : ℕ → Bool} {signature_size rounds left : ℕ} {esd : List UInt8} {entries l : List SigData}
    (parsed : sig_data_loop malloc signature_size rounds esd left entries = some l)
    (some_entry : entries ≠ [] ∨ left ≠ 0) : l ≠ [] := by
  induction rounds generalizing esd left entries with
  | zero => cases parsed
  | succ rounds ih =>
    rw [sig_data_loop] at parsed
    split at parsed
    · next done =>
      cases parsed
      exact some_entry.resolve_right (not_not.mpr done)
    · split at parsed
      · cases parsed
      · dsimp only at parsed
        split at parsed
        · exact ih parsed (Or.inl (cons_ne_nil _ _))
        · cases parsed

theorem parse_siglist_some {malloc : ℕ → Bool} {esl : List UInt8} {siglist : SigList}
    (parsed : efi_sigstore_parse_siglist malloc esl = some siglist) : siglist.sig_data_list ≠ [] := by
  rw [efi_sigstore_parse_siglist] at parsed
  simp only [Option.bind_eq_bind,Option.bind_eq_some_iff] at parsed
  obtain ⟨signature_list_size,_,signature_header_size,_,signature_size,_,parsed⟩ := parsed
  split at parsed
  · cases parsed
  · next room =>
    obtain ⟨sig_data_list,looped,made⟩ := Option.bind_eq_some_iff.mp parsed
    cases made
    exact sig_data_loop_some looped (Or.inr (by omega))

theorem build_loop_some {malloc : ℕ → Bool} {rounds size : ℕ} {esl : List UInt8} {sigstore store : List SigList}
    (built : build_loop malloc rounds esl size sigstore = some store)
    (some_entries : ∀ siglist ∈ sigstore, siglist.sig_data_list ≠ []) : ∀ siglist ∈ store, siglist.sig_data_list ≠ [] := by
  induction rounds generalizing esl size sigstore with
  | zero => cases built
  | succ rounds ih =>
    rw [build_loop] at built
    split at built
    · cases built
      exact some_entries
    · split at built
      · cases built
      · obtain ⟨signature_list_size,_,built⟩ := Option.bind_eq_some_iff.mp built
        split at built
        · cases built
        · obtain ⟨siglist,parsed,built⟩ := Option.bind_eq_some_iff.mp built
          exact ih built (forall_mem_cons.mpr ⟨parse_siglist_some parsed,some_entries⟩)

theorem built_some {store : List SigList} (built : Built store) : ∀ siglist ∈ store, siglist.sig_data_list ≠ [] := by
  obtain ⟨malloc,sig_list,built⟩ := built
  exact build_loop_some built fun siglist member => absurd member not_mem_nil

/-! ## The lookup -/

section
variable {Regions : Type} (hash_regions : Regions → Vector UInt8 32) (regs : Regions) (dbx : Bool)

theorem lookup_iff {store : List SigList} (built : Built store) :
    efi_signature_lookup_digest hash_regions regs store dbx = true ↔
      Unsupported dbx store ∨ Listed (hash_regions regs).toList ((sha256_lists store).take 1) ∨
        Listed [] ((sha256_lists store).drop 1) := by
  have some_entries := built_some built
  cases store with
  | nil =>
    rw [efi_signature_lookup_digest]
    simp [Unsupported,Listed,sha256_lists]
  | cons siglist next =>
    rw [efi_signature_lookup_digest,if_neg (some_entries siglist mem_cons_self),lookup_loop_iff]
    simp only [Bool.false_eq_true,if_false,false_or]

theorem listed_split (digest : List UInt8) (store : List SigList) :
    Listed digest store ↔
      Listed digest ((sha256_lists store).take 1) ∨ Listed digest ((sha256_lists store).drop 1) := by
  have same : Listed digest store ↔ Listed digest (sha256_lists store) := by
    simp only [Listed,sha256_lists,mem_filter,decide_eq_true_eq]
    constructor
    · rintro ⟨siglist,member,sha256,entry⟩
      exact ⟨siglist,⟨member,sha256⟩,sha256,entry⟩
    · rintro ⟨siglist,⟨member,_⟩,sha256,entry⟩
      exact ⟨siglist,member,sha256,entry⟩
  rw [same,listed_append]

/-- The lookup is exact under its condition and only there. -/
theorem lookup_exact_iff {store : List SigList} (built : Built store) :
    ((efi_signature_lookup_digest hash_regions regs store dbx = true ↔
        Listed (hash_regions regs).toList store ∨ Unsupported dbx store) ↔
      Exact (hash_regions regs).toList dbx store) := by
  rw [lookup_iff hash_regions regs dbx built,listed_split (hash_regions regs).toList store,Exact]
  tauto

end

/-- A list of one SHA-256 hash, in a variable and in a store. -/
def sample_value (data : List UInt8) : List UInt8 :=
  EFI_CERT_SHA256_GUID ++ little 4 76 ++ little 4 0 ++ little 4 48 ++ List.replicate 16 0 ++ data

def sample_siglist (data : List UInt8) : SigList := ⟨EFI_CERT_SHA256_GUID,[⟨List.replicate 16 0,data⟩]⟩

theorem sample_built : Built [sample_siglist (replicate 32 2),sample_siglist (replicate 32 1)] :=
  ⟨fun size => size < 2^63,sample_value (replicate 32 1) ++ sample_value (replicate 32 2),by decide +kernel⟩

/-- The digest is in the first of two lists. -/
theorem lookup_exact_iff_first :
    efi_signature_lookup_digest (fun _ : Unit => Vector.replicate 32 2) ()
      [sample_siglist (List.replicate 32 2),sample_siglist (List.replicate 32 1)] true = true ↔
      Listed (Vector.replicate 32 2).toList [sample_siglist (List.replicate 32 2),sample_siglist (List.replicate 32 1)] ∨
        Unsupported true [sample_siglist (List.replicate 32 2),sample_siglist (List.replicate 32 1)] := by
  refine (lookup_exact_iff (fun _ : Unit => Vector.replicate 32 2) () true sample_built).mpr (Or.inr (Or.inl ?_))
  exact ⟨sample_siglist (List.replicate 32 2),List.mem_cons_self,rfl,_,List.mem_cons_self,by decide⟩

/-- A digest in the second of two lists is not found. -/
theorem second_list_missed :
    ¬ ∀ (hash_regions : Unit → Vector UInt8 32) (dbx : Bool) (store : List SigList), Built store →
      (efi_signature_lookup_digest hash_regions () store dbx = true ↔
        Listed (hash_regions ()).toList store ∨ Unsupported dbx store) := by
  intro exact_
  have found := (exact_ (fun _ => Vector.replicate 32 1) true _ sample_built).mpr
    (Or.inl ⟨sample_siglist (List.replicate 32 1),by simp,rfl,_,List.mem_cons_self,by decide⟩)
  have missed : efi_signature_lookup_digest (fun _ : Unit => Vector.replicate 32 1) ()
      [sample_siglist (List.replicate 32 2),sample_siglist (List.replicate 32 1)] true = false := by decide +kernel
  rw [missed] at found
  cases found

end UBoot.EfiSignature
