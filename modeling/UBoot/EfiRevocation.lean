import UBoot.EfiSignature

/-!
Signatures that are verified with the databases db and dbx, `efi_signature_verify` of
`lib/efi_loader/efi_signature.c`. Parsing certificates, verifying one signature and one chain of a
message, and the hash functions are arguments. A signer that is in db is checked against dbx itself,
and one that a certificate of db has signed is not: only that certificate is (`accepted`).
-/
namespace UBoot.EfiRevocation
open List
open UBoot.EfiSignature (Guid EFI_GUID EFI_CERT_SHA256_GUID SigData SigList)

def EFI_CERT_X509_GUID : Guid := EFI_GUID 0xa5c059a1 0x94e4 0x4aa7 [0x87,0xb5,0xab,0x15,0x5c,0x2b,0xf0,0x72]
def EFI_CERT_X509_SHA256_GUID : Guid := EFI_GUID 0x3bd2a492 0x96c0 0x4079 [0xb4,0x20,0xfc,0xf9,0x8e,0xf1,0x03,0xed]
def EFI_CERT_X509_SHA384_GUID : Guid := EFI_GUID 0x7076876e 0x80c2 0x4ee6 [0xaa,0xd2,0x28,0xb3,0x49,0xa6,0x86,0x5b]
def EFI_CERT_X509_SHA512_GUID : Guid := EFI_GUID 0x446dbf63 0x2502 0x4cda [0xbc,0xfa,0x24,0x65,0xd2,0xb0,0xfe,0x9d]

def ENOPKG : ℤ := 65

/-- `sizeof(time64_t)` -/
def time64_sizeof : ℕ := 8

inductive HashAlgo where
  | sha256
  | sha384
  | sha512
deriving DecidableEq

def algo_to_len : HashAlgo → ℕ
  | .sha256 => 32
  | .sha384 => 48
  | .sha512 => 64

def guid_to_sha_str (guid : Guid) : Option HashAlgo :=
  if guid = EFI_CERT_X509_SHA256_GUID then some .sha256
  else if guid = EFI_CERT_SHA256_GUID then some .sha256
  else if guid = EFI_CERT_X509_SHA384_GUID then some .sha384
  else if guid = EFI_CERT_X509_SHA512_GUID then some .sha512
  else none

/-- `struct x509_certificate` -/
structure X509Certificate (PublicKey Signature : Type) where
  tbs : List UInt8
  pub : PublicKey
  sig : Signature
  self_signed : Bool
deriving DecidableEq

/-- What the code takes from elsewhere. A hash that is not in the build cannot be computed;
    `public_key_verify_signature` says whether it returned zero. -/
structure Crypto (PublicKey Signature : Type) where
  built : HashAlgo → Bool
  digest : HashAlgo → List UInt8 → List UInt8
  digest_length : ∀ algo bytes, (digest algo bytes).length = algo_to_len algo
  x509_cert_parse : List UInt8 → Option (X509Certificate PublicKey Signature)
  public_key_verify_signature : PublicKey → Signature → Bool

/-- What `pkcs7_verify_one` returns for a signed info, the signer and the mark that it leaves. -/
structure Chain (PublicKey Signature : Type) where
  ret : ℤ
  signer : Option (X509Certificate PublicKey Signature)
  blacklisted : Bool

/-- A message with its signed infos, and what `pkcs7_verify_one` returns for each of them,
    by the digest of the regions where the message has no data of its own. -/
structure Pkcs7Message (PublicKey Signature Info : Type) where
  data : Bool
  signed_infos : List Info
  pkcs7_verify_one : Option (List UInt8) → Info → Chain PublicKey Signature

section
variable {PublicKey Signature Info : Type} (crypto : Crypto PublicKey Signature)

def efi_hash_regions (hash_algo : HashAlgo) (region : List UInt8) : Option (List UInt8) :=
  if crypto.built hash_algo then some (crypto.digest hash_algo region) else none

/-- A store that is there and whose first list has an entry. -/
def has_entries : List SigList → Bool
  | [] => false
  | siglist :: _ => siglist.sig_data_list ≠ []

def x509_entries (db : List SigList) : List SigData :=
  (db.filter (·.sig_type = EFI_CERT_X509_GUID)).flatMap (·.sig_data_list)

def efi_lookup_certificate (cert : X509Certificate PublicKey Signature) (db : List SigList) : Bool :=
  if ¬ has_entries db then false
  else
    match efi_hash_regions crypto .sha256 cert.tbs with
    | none => false
    | some hash => (x509_entries db).any fun sig_data =>
      match crypto.x509_cert_parse sig_data.data with
      | none => false
      | some cert_tmp => efi_hash_regions crypto .sha256 cert_tmp.tbs = some hash

/-- `efi_verify_certificate`, which gives the certificate of db that verifies. -/
def efi_verify_certificate (signer : X509Certificate PublicKey Signature) (db : List SigList) :
    Option (X509Certificate PublicKey Signature) :=
  if ¬ has_entries db then none
  else (x509_entries db).findSome? fun sig_data =>
    (crypto.x509_cert_parse sig_data.data).filter fun cert => crypto.public_key_verify_signature cert.pub signer.sig

/-- An entry of a list of hashes of certificates, with a hash of some length. -/
def matches_hash (hash : List UInt8) (len : ℕ) (sig_data : SigData) : Bool :=
  ¬ sig_data.data.length < len+time64_sizeof ∧ sig_data.data.take len = hash.take len

/-- The loop of `efi_signature_check_revocation`: whether the check is passed. -/
def revocation_loop (cert : X509Certificate PublicKey Signature) : List SigList → Bool
  | [] => true
  | siglist :: next =>
    match guid_to_sha_str siglist.sig_type with
    | none => revocation_loop cert next
    | some hash_algo =>
      match efi_hash_regions crypto hash_algo cert.tbs with
      | none => true
      | some hash =>
        if siglist.sig_data_list.any (matches_hash hash (algo_to_len hash_algo)) then false
        else revocation_loop cert next

def efi_signature_check_revocation (cert : X509Certificate PublicKey Signature) (dbx : List SigList) : Bool :=
  if ¬ has_entries dbx then true else revocation_loop crypto cert dbx

/-- The last certificate of a chain is found in db, or one in db verifies it. -/
def accepted (db dbx : List SigList) (signer : X509Certificate PublicKey Signature) : Bool :=
  (efi_lookup_certificate crypto signer db && efi_signature_check_revocation crypto signer dbx) ||
    !signer.self_signed &&
      match efi_verify_certificate crypto signer db with
      | none => false
      | some root => efi_signature_check_revocation crypto root dbx

/-- The loop of `efi_signature_verify` over the signed infos. -/
def verify_loop (regs : List UInt8) (msg : Pkcs7Message PublicKey Signature Info) (db dbx : List SigList) : List Info → Bool
  | [] => false
  | sinfo :: next =>
    let hash := efi_hash_regions crypto .sha256 regs
    if ¬ msg.data ∧ hash = none then false
    else
      let chain := msg.pkcs7_verify_one (if msg.data then none else hash) sinfo
      if chain.ret = - ENOPKG then verify_loop regs msg db dbx next
      else if chain.ret < 0 then false
      else
        match chain.signer with
        | none => false
        | some signer =>
          if chain.blacklisted then false
          else if accepted crypto db dbx signer then true
          else verify_loop regs msg db dbx next

/-- `efi_signature_verify`; the regions are given by their bytes. -/
def efi_signature_verify (regs : List UInt8) (msg : Pkcs7Message PublicKey Signature Info) (db dbx : List SigList) : Bool :=
  if ¬ has_entries db then false else verify_loop crypto regs msg db dbx msg.signed_infos

/-! ## Trust and revocation -/

/-- The type of the lists in dbx that hold hashes of certificates by an algorithm. -/
def cert_hash_guid : HashAlgo → Guid
  | .sha256 => EFI_CERT_X509_SHA256_GUID
  | .sha384 => EFI_CERT_X509_SHA384_GUID
  | .sha512 => EFI_CERT_X509_SHA512_GUID

/-- A certificate matches an entry for the hash of a certificate. -/
def Revoked (dbx : List SigList) (cert : X509Certificate PublicKey Signature) : Prop :=
  ∃ siglist ∈ dbx, ∃ algo, siglist.sig_type = cert_hash_guid algo ∧
    ∃ sig_data ∈ siglist.sig_data_list, matches_hash (crypto.digest algo cert.tbs) (algo_to_len algo) sig_data

/-- A certificate is in db, as it is identified by its hash. -/
def InDb (db : List SigList) (cert : X509Certificate PublicKey Signature) : Prop :=
  ∃ sig_data ∈ x509_entries db, ∃ cert_tmp, crypto.x509_cert_parse sig_data.data = some cert_tmp ∧
    crypto.digest .sha256 cert_tmp.tbs = crypto.digest .sha256 cert.tbs

def Vouches (db : List SigList) (voucher cert : X509Certificate PublicKey Signature) : Prop :=
  ∃ sig_data ∈ x509_entries db, crypto.x509_cert_parse sig_data.data = some voucher ∧
    crypto.public_key_verify_signature voucher.pub cert.sig = true

/-- A signer that db trusts, where neither it nor what vouches for it is revoked. -/
def Good (db dbx : List SigList) (signer : X509Certificate PublicKey Signature) : Prop :=
  ¬ Revoked crypto dbx signer ∧
    (InDb crypto db signer ∨ ∃ voucher, Vouches crypto db voucher signer ∧ ¬ Revoked crypto dbx voucher)

/-- The first certificate of db that verifies a signer passes the check against dbx. -/
def VouchedFor (db dbx : List SigList) (signer : X509Certificate PublicKey Signature) : Prop :=
  signer.self_signed = false ∧ ∃ root, efi_verify_certificate crypto signer db = some root ∧
    efi_signature_check_revocation crypto root dbx = true

/-- A signer that is accepted though it is revoked, or though all that vouch for it are. -/
def Slips (db dbx : List SigList) (signer : X509Certificate PublicKey Signature) : Prop :=
  Revoked crypto dbx signer ∧
      (VouchedFor crypto db dbx signer ∨
        efi_lookup_certificate crypto signer db = true ∧ efi_signature_check_revocation crypto signer dbx = true) ∨
    VouchedFor crypto db dbx signer ∧ ¬ InDb crypto db signer ∧
      ∀ voucher, Vouches crypto db voucher signer → Revoked crypto dbx voucher

def Filled (store : List SigList) : Prop := ∀ siglist ∈ store, siglist.sig_data_list ≠ []

def Extends (dbx dbx' : List SigList) : Prop :=
  Filled dbx' ∧ ∀ siglist ∈ dbx, ∀ sig_data ∈ siglist.sig_data_list,
    ∃ siglist' ∈ dbx', siglist'.sig_type = siglist.sig_type ∧ sig_data ∈ siglist'.sig_data_list

section
variable (regs : List UInt8) (msg : Pkcs7Message PublicKey Signature Info)

def Undigested : Prop := msg.data = false ∧ crypto.built .sha256 = false

def chain_of (sinfo : Info) : Chain PublicKey Signature :=
  msg.pkcs7_verify_one (if msg.data then none else efi_hash_regions crypto .sha256 regs) sinfo

/-- The chain of a signed info is verified and ends in a signer. -/
def EndsIn (sinfo : Info) (signer : X509Certificate PublicKey Signature) : Prop :=
  ¬ Undigested crypto msg ∧ 0 ≤ (chain_of crypto regs msg sinfo).ret ∧
    (chain_of crypto regs msg sinfo).signer = some signer ∧ (chain_of crypto regs msg sinfo).blacklisted = false

def Fatal (sinfo : Info) : Prop :=
  Undigested crypto msg ∨ (chain_of crypto regs msg sinfo).ret ≠ - ENOPKG ∧
    ∀ signer, ¬ EndsIn crypto regs msg sinfo signer

/-- A signer in front of each signed info at which the verification fails. -/
def Ahead (signed_infos : List Info) (signer : X509Certificate PublicKey Signature) : Prop :=
  ∃ front sinfo back, signed_infos = front ++ sinfo :: back ∧ (∀ other ∈ front, ¬ Fatal crypto regs msg other) ∧
    EndsIn crypto regs msg sinfo signer

/-! ## The loops -/

theorem info_cases (sinfo : Info) :
    Fatal crypto regs msg sinfo ∨
      ¬ Undigested crypto msg ∧ (chain_of crypto regs msg sinfo).ret = - ENOPKG ∨
      ∃ signer, EndsIn crypto regs msg sinfo signer := by
  by_cases undigested : Undigested crypto msg
  · exact .inl (.inl undigested)
  by_cases passed : (chain_of crypto regs msg sinfo).ret = - ENOPKG
  · exact .inr (.inl ⟨undigested,passed⟩)
  by_cases ends : ∃ signer, EndsIn crypto regs msg sinfo signer
  · exact .inr (.inr ends)
  · exact .inl (.inr ⟨passed,fun signer found => ends ⟨signer,found⟩⟩)

variable {next : List Info} {signer : X509Certificate PublicKey Signature} {sinfo : Info}

theorem ends_not_fatal
    (ends : EndsIn crypto regs msg sinfo signer) : ¬ Fatal crypto regs msg sinfo := by
  rintro (undigested | ⟨-,never⟩)
  · exact ends.1 undigested
  · exact never signer ends

theorem ahead_cons :
    Ahead crypto regs msg (sinfo :: next) signer ↔
      EndsIn crypto regs msg sinfo signer ∨ ¬ Fatal crypto regs msg sinfo ∧ Ahead crypto regs msg next signer := by
  constructor
  · rintro ⟨front,found,back,split,passed,ends⟩
    cases front with
    | nil =>
      obtain ⟨rfl,rfl⟩ := List.cons.inj split
      exact .inl ends
    | cons first front =>
      obtain ⟨rfl,rest⟩ := List.cons.inj split
      exact .inr ⟨passed _ mem_cons_self,front,found,back,rest,
        fun other member => passed other (mem_cons_of_mem _ member),ends⟩
  · rintro (ends | ⟨passes,front,found,back,split,passed,ends⟩)
    · exact ⟨[],sinfo,next,rfl,by simp,ends⟩
    · refine ⟨sinfo :: front,found,back,by simp [split],fun other member => ?_,ends⟩
      rcases mem_cons.1 member with rfl | member
      · exact passes
      · exact passed other member

section
variable (db dbx : List SigList)

theorem undigested_iff : (¬ msg.data = true ∧ efi_hash_regions crypto .sha256 regs = none) ↔ Undigested crypto msg := by
  unfold efi_hash_regions Undigested
  cases msg.data <;> cases crypto.built .sha256 <;> simp

theorem verify_passed (digested : ¬ Undigested crypto msg)
    (passed : (chain_of crypto regs msg sinfo).ret = - ENOPKG) :
    verify_loop crypto regs msg db dbx (sinfo :: next) = verify_loop crypto regs msg db dbx next := by
  have hashed := mt (undigested_iff crypto regs msg).1 digested
  rw [chain_of] at passed
  rw [verify_loop,if_neg hashed]
  dsimp only
  rw [if_pos passed]

theorem verify_ends
    (ends : EndsIn crypto regs msg sinfo signer) :
    verify_loop crypto regs msg db dbx (sinfo :: next) =
      (accepted crypto db dbx signer || verify_loop crypto regs msg db dbx next) := by
  obtain ⟨digested,ret,signer_is,unmarked⟩ := ends
  have hashed := mt (undigested_iff crypto regs msg).1 digested
  rw [chain_of] at ret signer_is unmarked
  rw [verify_loop,if_neg hashed]
  dsimp only
  have other : (msg.pkcs7_verify_one (if msg.data = true then none else efi_hash_regions crypto .sha256 regs) sinfo).ret ≠
      - ENOPKG := by
    intro same
    rw [same] at ret
    exact absurd ret (by decide)
  rw [if_neg other,if_neg (by omega),signer_is]
  dsimp only
  rw [unmarked,if_neg (by simp)]
  cases accepted crypto db dbx signer <;> simp

theorem verify_fatal (fatal : Fatal crypto regs msg sinfo) :
    verify_loop crypto regs msg db dbx (sinfo :: next) = false := by
  by_cases undigested : Undigested crypto msg
  · rw [verify_loop,if_pos ((undigested_iff crypto regs msg).2 undigested)]
  obtain ⟨failed,never⟩ := fatal.resolve_left undigested
  have hashed := mt (undigested_iff crypto regs msg).1 undigested
  unfold EndsIn at never
  rw [chain_of] at failed never
  rw [verify_loop,if_neg hashed]
  dsimp only
  rw [if_neg failed]
  by_cases negative : (chain_of crypto regs msg sinfo).ret < 0
  · rw [chain_of] at negative
    rw [if_pos negative]
  rw [chain_of] at negative
  rw [if_neg negative]
  cases found : (msg.pkcs7_verify_one (if msg.data = true then none else efi_hash_regions crypto .sha256 regs) sinfo).signer with
  | none => rfl
  | some signer =>
    have marked := never signer
    rw [found] at marked
    cases blacklisted : (msg.pkcs7_verify_one (if msg.data = true then none else efi_hash_regions crypto .sha256 regs)
        sinfo).blacklisted with
    | true => rfl
    | false => exact absurd ⟨undigested,by omega,rfl,blacklisted⟩ marked

theorem verify_loop_iff (signed_infos : List Info) :
    verify_loop crypto regs msg db dbx signed_infos = true ↔
      ∃ signer, Ahead crypto regs msg signed_infos signer ∧ accepted crypto db dbx signer = true := by
  induction signed_infos with
  | nil =>
    rw [verify_loop]
    constructor
    · intro found
      cases found
    · rintro ⟨signer,⟨front,sinfo,back,split,-⟩,-⟩
      simp at split
  | cons sinfo next ih =>
    simp only [ahead_cons]
    rcases info_cases crypto regs msg sinfo with fatal | ⟨digested,passed⟩ | ⟨signer,ends⟩
    · rw [verify_fatal crypto regs msg db dbx fatal]
      constructor
      · intro found
        cases found
      · rintro ⟨signer,ends | ⟨passes,-⟩,-⟩
        · exact absurd fatal (ends_not_fatal crypto regs msg ends)
        · exact absurd fatal passes
    · have passes : ¬ Fatal crypto regs msg sinfo := fun fatal => fatal.elim digested fun failed => failed.1 passed
      have endless (signer : X509Certificate PublicKey Signature) : ¬ EndsIn crypto regs msg sinfo signer := by
        rintro ⟨-,ret,-⟩
        rw [passed] at ret
        exact absurd ret (by decide)
      rw [verify_passed crypto regs msg db dbx digested passed,ih]
      simp only [endless,passes,false_or,not_false_eq_true,true_and]
    · have passes := ends_not_fatal crypto regs msg ends
      have only (other : X509Certificate PublicKey Signature) : EndsIn crypto regs msg sinfo other ↔ other = signer := by
        constructor
        · rintro ⟨-,-,found,-⟩
          exact Option.some.inj (found.symm.trans ends.2.2.1)
        · rintro rfl
          exact ends
      rw [verify_ends crypto regs msg db dbx ends,Bool.or_eq_true,ih]
      simp only [only,passes,not_false_eq_true,true_and,or_and_right,exists_or,exists_eq_left]

theorem lookup_entries
    (found : efi_lookup_certificate crypto signer db = true) : has_entries db = true ∧ InDb crypto db signer := by
  unfold efi_lookup_certificate at found
  split at found
  · cases found
  next filled =>
    refine ⟨not_not.1 filled,?_⟩
    cases built : crypto.built .sha256 with
    | false =>
      simp only [efi_hash_regions,built] at found
      cases found
    | true =>
      simp only [efi_hash_regions,built,if_true,any_eq_true] at found
      obtain ⟨sig_data,member,same⟩ := found
      cases parsed : crypto.x509_cert_parse sig_data.data with
      | none => simp [parsed] at same
      | some cert_tmp => exact ⟨sig_data,member,cert_tmp,parsed,by simpa [parsed] using same⟩

theorem verify_vouches {signer root : X509Certificate PublicKey Signature}
    (verified : efi_verify_certificate crypto signer db = some root) :
    has_entries db = true ∧ Vouches crypto db root signer := by
  unfold efi_verify_certificate at verified
  split at verified
  · cases verified
  next filled =>
    refine ⟨not_not.1 filled,?_⟩
    obtain ⟨sig_data,member,found⟩ := exists_of_findSome?_eq_some verified
    obtain ⟨parsed,verifies⟩ := Option.filter_eq_some_iff.1 found
    exact ⟨sig_data,member,parsed,verifies⟩

theorem accepted_iff (signer : X509Certificate PublicKey Signature) :
    accepted crypto db dbx signer = true ↔
      efi_lookup_certificate crypto signer db = true ∧ efi_signature_check_revocation crypto signer dbx = true ∨
        VouchedFor crypto db dbx signer := by
  unfold accepted VouchedFor
  rw [Bool.or_eq_true,Bool.and_eq_true,Bool.and_eq_true,Bool.not_eq_true']
  cases efi_verify_certificate crypto signer db with
  | none => simp
  | some root => simp

theorem verify_iff : efi_signature_verify crypto regs msg db dbx = true ↔
    ∃ signer, Ahead crypto regs msg msg.signed_infos signer ∧ accepted crypto db dbx signer = true := by
  unfold efi_signature_verify
  split
  next empty =>
    constructor
    · intro found
      cases found
    · rintro ⟨signer,-,accepts⟩
      rcases (accepted_iff crypto db dbx signer).1 accepts with ⟨found,-⟩ | ⟨-,root,verified,-⟩
      · exact absurd (lookup_entries crypto db found).1 empty
      · exact absurd (verify_vouches crypto db verified).1 empty
  next filled => exact verify_loop_iff crypto regs msg db dbx msg.signed_infos

end

end

/-! ## The check against dbx -/

section
variable (cert : X509Certificate PublicKey Signature)

theorem revocation_loop_unbuilt {algo : HashAlgo} (unbuilt : crypto.built algo = false) {siglist : SigList}
    (typed : siglist.sig_type = cert_hash_guid algo) (next : List SigList) :
    revocation_loop crypto cert (siglist :: next) = true := by
  have known : guid_to_sha_str (cert_hash_guid algo) = some algo := by
    cases algo <;> decide
  rw [revocation_loop,typed,known]
  simp only [efi_hash_regions,unbuilt]
  rfl

theorem revocation_loop_spec (built : ∀ algo, crypto.built algo = true) (dbx : List SigList) :
    revocation_loop crypto cert dbx = true ↔
      ∀ siglist ∈ dbx, ∀ algo, guid_to_sha_str siglist.sig_type = some algo → ∀ sig_data ∈ siglist.sig_data_list,
        matches_hash (crypto.digest algo cert.tbs) (algo_to_len algo) sig_data = false := by
  induction dbx with
  | nil => simp [revocation_loop]
  | cons siglist next ih =>
    rw [revocation_loop,forall_mem_cons]
    cases known : guid_to_sha_str siglist.sig_type with
    | none => simp [ih]
    | some algo =>
      simp only [efi_hash_regions,built,if_true,Option.some.injEq,forall_eq']
      by_cases found : siglist.sig_data_list.any (matches_hash (crypto.digest algo cert.tbs) (algo_to_len algo)) = true
      · rw [if_pos found]
        constructor
        · intro passed
          cases passed
        · rintro ⟨unmatched,-⟩
          obtain ⟨sig_data,member,matched⟩ := any_eq_true.1 found
          rw [unmatched sig_data member] at matched
          cases matched
      · have unmatched : ∀ sig_data ∈ siglist.sig_data_list,
            matches_hash (crypto.digest algo cert.tbs) (algo_to_len algo) sig_data = false := by
          intro sig_data member
          exact Bool.eq_false_iff.2 fun matched => found (any_eq_true.2 ⟨sig_data,member,matched⟩)
        rw [if_neg found,ih]
        exact ⟨fun later => ⟨unmatched,later⟩,fun both => both.2⟩

theorem check_antitone (built : ∀ algo, crypto.built algo = true) {dbx dbx' : List SigList} (more : Extends dbx dbx')
    (passed : efi_signature_check_revocation crypto cert dbx' = true) :
    efi_signature_check_revocation crypto cert dbx = true := by
  unfold efi_signature_check_revocation at passed ⊢
  by_cases empty : has_entries dbx = true
  · rw [if_neg (not_not.2 empty)]
    have first : has_entries dbx' = true := by
      cases dbx with
      | nil => cases empty
      | cons siglist next =>
        obtain ⟨sig_data,member⟩ := exists_mem_of_ne_nil _ (of_decide_eq_true empty)
        obtain ⟨siglist',member',-⟩ := more.2 siglist mem_cons_self sig_data member
        cases dbx' with
        | nil => cases member'
        | cons head tail => exact decide_eq_true (more.1 head mem_cons_self)
    rw [if_neg (not_not.2 first),revocation_loop_spec crypto cert built] at passed
    rw [revocation_loop_spec crypto cert built]
    intro siglist member algo known sig_data inside
    obtain ⟨siglist',member',typed,inside'⟩ := more.2 siglist member sig_data inside
    exact passed siglist' member' algo (by rw [typed,known]) sig_data inside'
  · rw [if_pos empty]

theorem check_revoked (built : ∀ algo, crypto.built algo = true) {dbx : List SigList} (filled : Filled dbx)
    (passed : efi_signature_check_revocation crypto cert dbx = true) : ¬ Revoked crypto dbx cert := by
  rintro ⟨siglist,member,algo,typed,sig_data,inside,matched⟩
  have first : has_entries dbx = true := by
    cases dbx with
    | nil => cases member
    | cons head tail => exact decide_eq_true (filled head mem_cons_self)
  have known : guid_to_sha_str (cert_hash_guid algo) = some algo := by
    cases algo <;> decide
  unfold efi_signature_check_revocation at passed
  rw [if_neg (not_not.2 first),revocation_loop_spec crypto cert built] at passed
  rw [passed siglist member algo (by rw [typed,known]) sig_data inside] at matched
  cases matched

end

theorem slips_iff (built : ∀ algo, crypto.built algo = true) (db : List SigList) {dbx : List SigList} (filled : Filled dbx)
    (signer : X509Certificate PublicKey Signature) :
    Slips crypto db dbx signer ↔ Revoked crypto dbx signer ∧ VouchedFor crypto db dbx signer := by
  constructor
  · rintro (⟨revoked,vouched | ⟨-,passed⟩⟩ | ⟨⟨-,root,verified,passed⟩,-,all_revoked⟩)
    · exact ⟨revoked,vouched⟩
    · exact absurd revoked (check_revoked crypto signer built filled passed)
    · exact absurd (all_revoked root (verify_vouches crypto db verified).2) (check_revoked crypto root built filled passed)
  · rintro ⟨revoked,vouched⟩
    exact .inl ⟨revoked,.inl vouched⟩

/-! ## Revocation is not bypassed -/

section
variable (regs : List UInt8) (msg : Pkcs7Message PublicKey Signature Info) (db dbx : List SigList)

/-- A message that is verified has a signer that is trusted and not revoked, and is also
    verified with fewer entries in dbx. -/
def Safe : Prop :=
  (efi_signature_verify crypto regs msg db dbx = true →
    ∃ sinfo ∈ msg.signed_infos, ∃ signer, EndsIn crypto regs msg sinfo signer ∧ Good crypto db dbx signer) ∧
  ∀ dbx', Extends dbx dbx' → efi_signature_verify crypto regs msg db dbx' = true →
    efi_signature_verify crypto regs msg db dbx = true

/-- No signer slips through, unless there is a good one, and the hashes are in the build,
    unless db and dbx accept a signer wherever db alone does. -/
def Guarded : Prop :=
  ((∃ sinfo ∈ msg.signed_infos, ∃ signer, EndsIn crypto regs msg sinfo signer ∧ Good crypto db dbx signer) ∨
    ∀ signer, Ahead crypto regs msg msg.signed_infos signer → ¬ Slips crypto db dbx signer) ∧
  ((∀ algo, crypto.built algo = true) ∨
    ((∃ signer, Ahead crypto regs msg msg.signed_infos signer ∧ accepted crypto db [] signer = true) →
      ∃ signer, Ahead crypto regs msg msg.signed_infos signer ∧ accepted crypto db dbx signer = true))

theorem slips_accepted (slips : Slips crypto db dbx signer) :
    accepted crypto db dbx signer = true := by
  rw [accepted_iff]
  rcases slips with ⟨-,vouched | found⟩ | ⟨vouched,-⟩
  · exact .inr vouched
  · exact .inl found
  · exact .inr vouched

theorem accepted_good (accepts : accepted crypto db dbx signer = true)
    (caught : ¬ Slips crypto db dbx signer) : Good crypto db dbx signer := by
  rcases (accepted_iff crypto db dbx signer).1 accepts with found | vouched
  · have unrevoked : ¬ Revoked crypto dbx signer := fun revoked => caught (.inl ⟨revoked,.inr found⟩)
    exact ⟨unrevoked,.inl (lookup_entries crypto db found.1).2⟩
  · have unrevoked : ¬ Revoked crypto dbx signer := fun revoked => caught (.inl ⟨revoked,.inl vouched⟩)
    refine ⟨unrevoked,or_iff_not_imp_left.2 fun outside => ?_⟩
    by_contra none_good
    refine caught (.inr ⟨vouched,outside,fun voucher vouches => ?_⟩)
    by_contra voucher_unrevoked
    exact none_good ⟨voucher,vouches,voucher_unrevoked⟩

theorem accepted_without {dbx : List SigList}
    (accepts : accepted crypto db dbx signer = true) : accepted crypto db [] signer = true := by
  rw [accepted_iff] at accepts ⊢
  rcases accepts with ⟨found,-⟩ | ⟨issued,root,verified,-⟩
  · exact .inl ⟨found,rfl⟩
  · exact .inr ⟨issued,root,verified,rfl⟩

theorem accepted_antitone (built : ∀ algo, crypto.built algo = true) {dbx' : List SigList} (more : Extends dbx dbx') (accepts : accepted crypto db dbx' signer = true) :
    accepted crypto db dbx signer = true := by
  rw [accepted_iff] at accepts ⊢
  rcases accepts with ⟨found,passed⟩ | ⟨issued,root,verified,passed⟩
  · exact .inl ⟨found,check_antitone crypto signer built more passed⟩
  · exact .inr ⟨issued,root,verified,check_antitone crypto root built more passed⟩

theorem blinded {algo : HashAlgo} (unbuilt : crypto.built algo = false) :
    ∃ dbx', Extends dbx dbx' ∧ ∀ signer, accepted crypto db [] signer = true → accepted crypto db dbx' signer = true := by
  let head : SigList := ⟨cert_hash_guid algo,[⟨[],[]⟩]⟩
  have passes (cert : X509Certificate PublicKey Signature) :
      efi_signature_check_revocation crypto cert (head :: dbx.filter fun siglist => siglist.sig_data_list ≠ []) = true := by
    unfold efi_signature_check_revocation
    rw [revocation_loop_unbuilt crypto cert unbuilt rfl,ite_self]
  refine ⟨head :: dbx.filter fun siglist => siglist.sig_data_list ≠ [],⟨?_,?_⟩,fun signer accepts => ?_⟩
  · intro siglist member
    rcases mem_cons.1 member with rfl | member
    · simp [head]
    · simpa using (mem_filter.1 member).2
  · intro siglist member sig_data inside
    refine ⟨siglist,mem_cons_of_mem _ (mem_filter.2 ⟨member,?_⟩),rfl,inside⟩
    exact decide_eq_true (ne_nil_of_mem inside)
  · rw [accepted_iff] at accepts ⊢
    rcases accepts with ⟨found,-⟩ | ⟨issued,root,verified,-⟩
    · exact .inl ⟨found,passes signer⟩
    · exact .inr ⟨issued,root,verified,passes root⟩

/-- Revocation is not bypassed if and only if no signer slips through and no hash is missed. -/
theorem verify_safe_iff : Safe crypto regs msg db dbx ↔ Guarded crypto regs msg db dbx := by
  unfold Safe Guarded
  simp only [verify_iff]
  constructor
  · rintro ⟨sound,antitone⟩
    constructor
    · refine or_iff_not_imp_left.2 fun none_good signer ahead slips => none_good ?_
      exact sound ⟨signer,ahead,slips_accepted crypto db dbx slips⟩
    · refine or_iff_not_imp_left.2 fun unbuilt trusted => ?_
      obtain ⟨algo,missing⟩ := not_forall.1 unbuilt
      obtain ⟨dbx',more,accepts_all⟩ := blinded crypto db dbx (Bool.eq_false_iff.2 missing)
      obtain ⟨signer,ahead,accepts⟩ := trusted
      exact antitone dbx' more ⟨signer,ahead,accepts_all signer accepts⟩
  · rintro ⟨caught,complete⟩
    refine ⟨?_,?_⟩
    · rintro ⟨signer,ahead,accepts⟩
      rcases caught with good | caught
      · exact good
      · have good := accepted_good crypto db dbx accepts (caught signer ahead)
        obtain ⟨front,sinfo,back,split,-,ends⟩ := ahead
        exact ⟨sinfo,by simp [split],signer,ends,good⟩
    · rintro dbx' more ⟨signer,ahead,accepts⟩
      rcases complete with built | complete
      · exact ⟨signer,ahead,accepted_antitone crypto db dbx built more accepts⟩
      · exact complete ⟨signer,ahead,accepted_without crypto db accepts⟩

end

end

/-- Keys and signatures are numbers; a signature is verified by the key with its number. -/
def sample_crypto : Crypto ℕ ℕ where
  built _ := true
  digest algo bytes := (bytes ++ List.replicate (algo_to_len algo) 0).take (algo_to_len algo)
  digest_length algo bytes := by simp
  x509_cert_parse data := if data = [1] then some ⟨[1],7,7,true⟩ else none
  public_key_verify_signature pub sig := pub = sig

/-- A signer that the certificate in `sample_db` has signed. -/
def sample_signer : X509Certificate ℕ ℕ := ⟨[2],8,7,false⟩

def sample_message : Pkcs7Message ℕ ℕ Unit where
  data := true
  signed_infos := [()]
  pkcs7_verify_one _ _ := ⟨0,some sample_signer,false⟩

def sample_db : List SigList := [⟨EFI_CERT_X509_GUID,[⟨List.replicate 16 0,[1]⟩]⟩]

/-- The hash of `sample_signer` with a revocation time. -/
def sample_dbx : List SigList :=
  [⟨EFI_CERT_X509_SHA256_GUID,[⟨List.replicate 16 0,2 :: List.replicate 39 0⟩]⟩]

/-- A signer in dbx is accepted since the certificate that signed it is in db. -/
theorem revoked_signer_accepted :
    efi_signature_verify sample_crypto [] sample_message sample_db sample_dbx = true ∧
      Revoked sample_crypto sample_dbx sample_signer ∧
      ¬ Safe sample_crypto [] sample_message sample_db sample_dbx := by
  have verified : efi_signature_verify sample_crypto [] sample_message sample_db sample_dbx = true := by decide +kernel
  have revoked : Revoked sample_crypto sample_dbx sample_signer :=
    ⟨_,List.mem_cons_self,.sha256,rfl,_,List.mem_cons_self,by decide +kernel⟩
  refine ⟨verified,revoked,?_⟩
  rintro ⟨sound,-⟩
  obtain ⟨sinfo,-,signer,⟨-,-,signer_is,-⟩,unrevoked,-⟩ := sound verified
  have same : sample_signer = signer := Option.some.inj signer_is
  exact unrevoked (same ▸ revoked)

end UBoot.EfiRevocation
