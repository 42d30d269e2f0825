import Mathlib.Tactic

/-!
The keys that a FIT has to be signed with: `fit_image_verify_required_sigs` and `fit_config_verify`
in `boot/image-fit-sig.c`, down to `rsa_verify_hash` in `lib/rsa/rsa-verify.c`. Nodes are records of
what is read of them, keys are known by their place below `/signature`. What is hashed of a
configuration is a parameter here, and so are the checksums; the RSA operation has any outcome.

An image is checked with any key of the blob (`image_sig_verified`).
-/
namespace UBoot.FitRequiredKeys
open List Option

def EPERM : ℤ := 1
def ENOENT : ℤ := 2
def EBADF : ℤ := 9
def EACCES : ℤ := 13
def EFAULT : ℤ := 14
def EINVAL : ℤ := 22

def FIT_SIG_NODENAME : String := "signature"
def RSA_DEFAULT_PADDING_NAME : String := "pkcs-1.5"

structure SubNode where
  name : String
  algo : Option String
  value : Option (List UInt8)
  padding : Option String
  key_name_hint : Option String
deriving DecidableEq

/-- `struct key_prop`, as the properties of a node give it. -/
structure KeyProp where
  num_bits : ℕ
  n0inv : ℕ
  public_exponent : Option (List UInt8)
  modulus : Option (List UInt8)
  rr : Option (List UInt8)
deriving DecidableEq

structure KeyNode where
  name : String
  required : Option String
  algo : Option String
  prop : KeyProp
deriving DecidableEq

/-- The key blob: the subnodes of `/signature`, if there is one, and the policy. -/
structure KeyBlob where
  signature : Option (List KeyNode)
  required_mode : Option String

/-- An image or a configuration with its subnodes. The tree may be corrupted behind
    them. -/
structure FitNode where
  name : String
  subnodes : List SubNode
  corrupted : Bool

/-- What `rsa_verify_key` is called with beside the key. -/
structure Request where
  algo : String
  padding : String
  hash : List UInt8
  sig : List UInt8
deriving DecidableEq

/-- The algorithms of the build and the limit for the size of a FIT. -/
structure Build where
  FIT_SIGNATURE_MAX_SIZE : ℕ
  checksum_len : String → Option ℕ
  key_len : String → Option ℕ
  calculate : String → List UInt8 → Option (List UInt8)

/-- `struct image_sign_info`, the fields that are used. -/
structure ImageSignInfo where
  name : String
  padding : String
  keyname : Option String
  checksum_len : ℕ
  key_len : ℕ
  required_keynode : Option ℕ

/-- A name matches that of a node, or that of a node with a unit address behind it. -/
def fdt_nodename_eq (node name : String) : Bool :=
  node = name || (name.toList.all (· ≠ '@') && (name ++ "@").toList.isPrefixOf node.toList)

def SubNode.is_signature (n : SubNode) : Bool := FIT_SIG_NODENAME.toList.isPrefixOf n.name.toList

def has_at (name : String) : Bool := name.toList.contains '@'

section
variable (build : Build) (blob : KeyBlob) (rsa_verify_key : KeyProp → Request → ℤ)

def KeyBlob.keys (blob : KeyBlob) : List KeyNode := blob.signature.getD []

def rsa_verify_with_keynode (r : Request) (node : Option ℕ) : ℤ :=
  match node.bind fun i => blob.keys[i]? with
  | none => -EBADF
  | some key =>
    match key.algo with
    | none => -EFAULT
    | some algo =>
      if r.algo ≠ algo then -EFAULT
      else if key.prop.num_bits = 0 ∨ key.prop.modulus = none ∨ key.prop.rr = none then -EFAULT
      else rsa_verify_key key.prop r

/-- The loop that tries each of the keys in turn, without the one that was tried. -/
def try_keys (r : Request) (node : Option ℕ) : List ℕ → ℤ → ℤ
  | [], ret => ret
  | i :: rest, ret =>
    if some i ≠ node then
      let ret := rsa_verify_with_keynode blob rsa_verify_key r (some i)
      if ret = 0 then ret else try_keys r node rest ret
    else try_keys r node rest ret

def rsa_verify_hash (info : ImageSignInfo) (r : Request) : ℤ :=
  if blob.signature = none then -ENOENT
  else
    match info.required_keynode with
    | some node => rsa_verify_with_keynode blob rsa_verify_key r (some node)
    | none =>
      -- the name of the key has room for 99 characters
      let name := String.ofList (("key-" ++ info.keyname.getD "<NULL>").toList.take 99)
      let node := blob.keys.findIdx? fun key => fdt_nodename_eq key.name name
      let ret := rsa_verify_with_keynode blob rsa_verify_key r node
      if ret = 0 then ret else try_keys blob rsa_verify_key r node (List.range blob.keys.length) ret

def rsa_verify (info : ImageSignInfo) (data sig : List UInt8) : ℤ :=
  if info.key_len < info.checksum_len then -EINVAL
  else
    match build.calculate info.name data with
    | none => -EINVAL
    | some hash => rsa_verify_hash blob rsa_verify_key info ⟨info.name,info.padding,hash,sig⟩

/-- `fit_image_setup_verify` for a FIT of some size. -/
def fit_image_setup_verify (totalsize : ℕ) (noffset : SubNode) (required_keynode : Option ℕ) : Option ImageSignInfo :=
  if build.FIT_SIGNATURE_MAX_SIZE < totalsize then none
  else
    match noffset.algo with
    | none => none
    | some algo_name =>
      match build.checksum_len algo_name, build.key_len algo_name with
      | some checksum_len, some key_len =>
        some ⟨algo_name,noffset.padding.getD RSA_DEFAULT_PADDING_NAME,noffset.key_name_hint,checksum_len,key_len,
          required_keynode⟩
      | _, _ => none

def fit_image_check_sig (totalsize : ℕ) (noffset : SubNode) (data : List UInt8) (required_keynode : Option ℕ) : ℤ :=
  match fit_image_setup_verify build totalsize noffset required_keynode with
  | none => -1
  | some info =>
    match noffset.value with
    | none => -1
    | some fit_value => if rsa_verify build blob rsa_verify_key info data fit_value ≠ 0 then -1 else 0

/-- The loop of `fit_image_verify_sig` over the subnodes. -/
def image_loop (totalsize : ℕ) (data : List UInt8) (corrupted : Bool) : List SubNode → ℤ
  | [] => if corrupted then -1 else -EPERM
  | noffset :: rest =>
    if has_at noffset.name then -1
    else if noffset.is_signature ∧ fit_image_check_sig build blob rsa_verify_key totalsize noffset data none = 0 then 0
    else image_loop totalsize data corrupted rest

/-- `fit_image_verify_sig`, which has no use for the key. -/
def fit_image_verify_sig (totalsize : ℕ) (image : FitNode) (data : List UInt8) (_key_offset : ℕ) : ℤ :=
  image_loop build blob rsa_verify_key totalsize data image.corrupted image.subnodes

/-- The loop of `fit_image_verify_required_sigs` over the keys. -/
def required_sigs_loop (totalsize : ℕ) (image : FitNode) (data : List UInt8) : List (KeyNode × ℕ) → ℤ
  | [] => 0
  | (key,noffset) :: rest =>
    if key.required ≠ some "image" then required_sigs_loop totalsize image data rest
    else
      let ret := fit_image_verify_sig build blob rsa_verify_key totalsize image data noffset
      if ret ≠ 0 then ret else required_sigs_loop totalsize image data rest

def fit_image_verify_required_sigs (totalsize : ℕ) (image : FitNode) (data : List UInt8) : ℤ :=
  match blob.signature with
  | none => 0
  | some keys => required_sigs_loop build blob rsa_verify_key totalsize image data keys.zipIdx

/-- `fit_config_check_sig`; the data are those that are hashed for the signature, if the
    list of nodes and their regions can be made. -/
def fit_config_check_sig (totalsize : ℕ) (hashed : SubNode → Option (List UInt8)) (noffset : SubNode)
    (required_keynode : Option ℕ) : ℤ :=
  match fit_image_setup_verify build totalsize noffset required_keynode with
  | none => -1
  | some info =>
    match noffset.value with
    | none => -1
    | some fit_value =>
      match hashed noffset with
      | none => -1
      | some data => if rsa_verify build blob rsa_verify_key info data fit_value ≠ 0 then -1 else 0

def fit_config_verify_key (totalsize : ℕ) (hashed : SubNode → Option (List UInt8)) (conf : FitNode) (key_offset : ℕ) : ℤ :=
  let verified := conf.subnodes.any fun noffset =>
    noffset.is_signature && fit_config_check_sig build blob rsa_verify_key totalsize hashed noffset (some key_offset) = 0
  -- the loop comes to the end of the tree only if nothing is verified
  if verified then 0 else -EPERM

/-- The loop of `fit_config_verify_required_keys` over the keys: a status where it
    returns, otherwise how many keys were required and how many verified. -/
def required_keys_loop (totalsize : ℕ) (hashed : SubNode → Option (List UInt8)) (conf : FitNode) (reqd_policy_all : Bool) :
    List (KeyNode × ℕ) → ℕ → ℕ → ℤ ⊕ (ℕ × ℕ)
  | [], reqd_sigs, verified => .inr (reqd_sigs,verified)
  | (key,noffset) :: rest, reqd_sigs, verified =>
    if key.required ≠ some "conf" then required_keys_loop totalsize hashed conf reqd_policy_all rest reqd_sigs verified
    else
      let ret := fit_config_verify_key build blob rsa_verify_key totalsize hashed conf noffset
      if ret ≠ 0 then
        if reqd_policy_all then .inl ret
        else required_keys_loop totalsize hashed conf reqd_policy_all rest (reqd_sigs+1) verified
      else if reqd_policy_all then
        required_keys_loop totalsize hashed conf reqd_policy_all rest (reqd_sigs+1) (verified+1)
      else .inr (reqd_sigs+1,verified+1)

def fit_config_verify (totalsize : ℕ) (hashed : SubNode → Option (List UInt8)) (conf : FitNode) : ℤ :=
  if has_at conf.name then -EPERM
  else
    match blob.signature with
    | none => 0
    | some keys =>
      match required_keys_loop build blob rsa_verify_key totalsize hashed conf (blob.required_mode ≠ some "any") keys.zipIdx 0 0 with
      | .inl ret => ret
      | .inr (reqd_sigs,verified) => if reqd_sigs ≠ 0 ∧ verified = 0 then -EPERM else 0
end

/-! ## Which key verifies -/

/-- The key has the algorithm and all that an RSA key needs. -/
def Usable (key : KeyNode) (algo : String) : Prop :=
  key.algo = some algo ∧ key.prop.num_bits ≠ 0 ∧ key.prop.modulus ≠ none ∧ key.prop.rr ≠ none

/-- What is asked of the RSA operation for a signature over the data, if it comes to that. -/
def request (build : Build) (totalsize : ℕ) (noffset : SubNode) (data : List UInt8) : Option Request :=
  match fit_image_setup_verify build totalsize noffset none, noffset.value with
  | some info, some fit_value =>
    if info.key_len < info.checksum_len then none
    else (build.calculate info.name data).map fun hash => ⟨info.name,info.padding,hash,fit_value⟩
  | _, _ => none

def VerifiedBy (build : Build) (rsa_verify_key : KeyProp → Request → ℤ) (totalsize : ℕ) (noffset : SubNode)
    (data : List UInt8) (key : KeyNode) : Prop :=
  ∃ r, request build totalsize noffset data = some r ∧ Usable key r.algo ∧ rsa_verify_key key.prop r = 0

section
variable {build : Build} {blob : KeyBlob} {rsa_verify_key : KeyProp → Request → ℤ}

variable {conf image : FitNode} {data : List UInt8} {keys : List (KeyNode × ℕ)} {noffset : SubNode}
    {r : Request} {reqd_sigs verified : ℕ}

theorem with_keynode_zero {node : Option ℕ} :
    rsa_verify_with_keynode blob rsa_verify_key r node = 0 ↔
      ∃ i key, node = some i ∧ blob.keys[i]? = some key ∧ Usable key r.algo ∧ rsa_verify_key key.prop r = 0 := by
  unfold rsa_verify_with_keynode
  cases found : node.bind fun i => blob.keys[i]? with
  | none =>
    simp only [EBADF]
    constructor
    · intro zero
      omega
    · rintro ⟨i,key,rfl,at_i,_⟩
      simp [at_i] at found
  | some key =>
    obtain ⟨i,rfl,at_i⟩ := bind_eq_some_iff.mp found
    simp only [Option.some.injEq,exists_and_left,exists_eq_left',at_i]
    cases algo : key.algo with
    | none => simp [EFAULT,Usable,algo]
    | some name =>
      dsimp only
      split
      · next other => simp [EFAULT,Usable,algo,Ne.symm other]
      next same =>
      have same := not_not.mp same
      split
      · next missing =>
        simp only [EFAULT,Usable]
        constructor
        · intro zero
          omega
        · rintro ⟨⟨_,bits,modulus,rr⟩,_⟩
          simp [bits,modulus,rr] at missing
      · next complete =>
        rw [not_or,not_or] at complete
        simp [Usable,algo,same,complete]

theorem try_keys_zero {node : Option ℕ} {keys : List ℕ} {ret : ℤ} (failed : ret ≠ 0) :
    try_keys blob rsa_verify_key r node keys ret = 0 ↔
      ∃ i ∈ keys, some i ≠ node ∧ rsa_verify_with_keynode blob rsa_verify_key r (some i) = 0 := by
  induction keys generalizing ret with
  | nil => simp [try_keys,failed]
  | cons i keys ih =>
    rw [try_keys]
    by_cases tried : some i ≠ node
    · rw [if_pos tried]
      dsimp only
      by_cases good : rsa_verify_with_keynode blob rsa_verify_key r (some i) = 0
      · simp [good,tried]
      · rw [if_neg good,ih good]
        simp [good]
    · rw [if_neg tried,ih failed]
      simp [not_not.mp tried]

theorem verify_hash_zero {info : ImageSignInfo} :
    rsa_verify_hash blob rsa_verify_key info r = 0 ↔
      ∃ i key, (info.required_keynode = some i ∨ info.required_keynode = none) ∧ blob.keys[i]? = some key ∧
        Usable key r.algo ∧ rsa_verify_key key.prop r = 0 := by
  unfold rsa_verify_hash
  by_cases absent : blob.signature = none
  · rw [if_pos absent]
    simp [ENOENT,KeyBlob.keys,absent]
  rw [if_neg absent]
  cases required : info.required_keynode with
  | some node =>
    dsimp only
    rw [with_keynode_zero]
    simp
  | none =>
    dsimp only
    generalize blob.keys.findIdx? _ = node
    by_cases hinted : rsa_verify_with_keynode blob rsa_verify_key r node = 0
    · rw [if_pos hinted]
      obtain ⟨i,key,_,verified⟩ := with_keynode_zero.mp hinted
      exact ⟨fun _ => ⟨i,key,.inr rfl,verified⟩,fun _ => hinted⟩
    rw [if_neg hinted,try_keys_zero hinted]
    constructor
    · rintro ⟨i,_,_,zero⟩
      obtain ⟨j,key,_,verified⟩ := with_keynode_zero.mp zero
      exact ⟨j,key,.inr rfl,verified⟩
    · rintro ⟨i,key,_,at_i,verified⟩
      have zero : rsa_verify_with_keynode blob rsa_verify_key r (some i) = 0 :=
        with_keynode_zero.mpr ⟨i,key,rfl,at_i,verified⟩
      have inside : i < blob.keys.length := (List.getElem?_eq_some_iff.mp at_i).1
      refine ⟨i,mem_range.mpr inside,?_,zero⟩
      rintro rfl
      exact hinted zero

theorem setup_verify_required (totalsize : ℕ) (noffset : SubNode) (required_keynode : Option ℕ) :
    fit_image_setup_verify build totalsize noffset required_keynode =
      (fit_image_setup_verify build totalsize noffset none).map fun info => { info with required_keynode } := by
  unfold fit_image_setup_verify
  split
  · rfl
  · split
    · rfl
    · split <;> rfl

theorem check_sig_zero {totalsize : ℕ} {required : Option ℕ} :
    fit_image_check_sig build blob rsa_verify_key totalsize noffset data required = 0 ↔
      ∃ i key, (required = some i ∨ required = none) ∧ blob.keys[i]? = some key ∧
        VerifiedBy build rsa_verify_key totalsize noffset data key := by
  unfold fit_image_check_sig VerifiedBy request
  rw [setup_verify_required]
  cases fit_image_setup_verify build totalsize noffset none with
  | none => simp
  | some info =>
    simp only [map_some]
    cases noffset.value with
    | none => simp
    | some fit_value =>
      unfold rsa_verify
      dsimp only
      by_cases long : info.key_len < info.checksum_len
      · simp [long,EINVAL]
      rw [if_neg long,if_neg long]
      cases build.calculate info.name data with
      | none => simp [EINVAL]
      | some hash =>
        simp only [map_some,Option.some.injEq]
        have code : ¬ (-1 : ℤ) = 0 := by decide
        rw [ite_eq_right_iff]
        simp only [code,imp_false,not_not,exists_eq_left']
        exact verify_hash_zero

theorem config_check_sig_zero {totalsize : ℕ} {hashed : SubNode → Option (List UInt8)}
    {required : Option ℕ} :
    fit_config_check_sig build blob rsa_verify_key totalsize hashed noffset required = 0 ↔
      ∃ data, hashed noffset = some data ∧
        fit_image_check_sig build blob rsa_verify_key totalsize noffset data required = 0 := by
  unfold fit_config_check_sig fit_image_check_sig
  cases fit_image_setup_verify build totalsize noffset required with
  | none => simp
  | some info =>
    cases noffset.value with
    | none => simp
    | some fit_value =>
      cases hashed noffset with
      | none => simp
      | some data => simp

/-! ## Images -/

/-- The signatures that `fit_image_verify_sig` comes to: it stops at a name with '@'. -/
def reached (image : FitNode) : List SubNode :=
  (image.subnodes.takeWhile fun n => !has_at n.name).filter fun n => n.is_signature

theorem image_loop_zero {totalsize : ℕ} {corrupted : Bool} {subnodes : List SubNode} :
    image_loop build blob rsa_verify_key totalsize data corrupted subnodes = 0 ↔
      ∃ noffset ∈ (subnodes.takeWhile fun n => !has_at n.name).filter fun n => n.is_signature,
        fit_image_check_sig build blob rsa_verify_key totalsize noffset data none = 0 := by
  induction subnodes with
  | nil => cases corrupted <;> simp [image_loop,EPERM]
  | cons noffset rest ih =>
    rw [image_loop]
    by_cases at_ : has_at noffset.name
    · simp [at_]
    rw [if_neg at_,takeWhile_cons_of_pos (by simp [at_])]
    by_cases signature : noffset.is_signature
    · rw [filter_cons_of_pos (by simpa using signature)]
      by_cases good : fit_image_check_sig build blob rsa_verify_key totalsize noffset data none = 0
      · simp [signature,good]
      · rw [if_neg (by simp [good]),ih]
        simp [good]
    · rw [filter_cons_of_neg (by simpa using signature),if_neg (by simp [signature]),ih]

theorem image_sig_verified {totalsize : ℕ} {key_offset : ℕ} :
    fit_image_verify_sig build blob rsa_verify_key totalsize image data key_offset = 0 ↔
      ∃ noffset ∈ reached image, ∃ key ∈ blob.keys, VerifiedBy build rsa_verify_key totalsize noffset data key := by
  unfold fit_image_verify_sig
  rw [image_loop_zero]
  refine exists_congr fun noffset => and_congr_right fun _ => ?_
  rw [check_sig_zero]
  constructor
  · rintro ⟨i,key,_,at_i,verified⟩
    exact ⟨key,mem_of_getElem? at_i,verified⟩
  · rintro ⟨key,member,verified⟩
    obtain ⟨i,at_i⟩ := getElem?_of_mem member
    exact ⟨i,key,.inr rfl,at_i,verified⟩

theorem required_sigs_loop_zero {totalsize : ℕ} :
    required_sigs_loop build blob rsa_verify_key totalsize image data keys = 0 ↔
      ∀ key ∈ keys, key.1.required = some "image" →
        fit_image_verify_sig build blob rsa_verify_key totalsize image data key.2 = 0 := by
  induction keys with
  | nil => simp [required_sigs_loop]
  | cons key keys ih =>
    obtain ⟨key,noffset⟩ := key
    rw [required_sigs_loop]
    by_cases required : key.required = some "image"
    · rw [if_neg (not_not.mpr required)]
      dsimp only
      by_cases good : fit_image_verify_sig build blob rsa_verify_key totalsize image data noffset = 0
      · rw [if_neg (not_not.mpr good),ih]
        simp [good]
      · rw [if_pos good]
        simp [good,required]
    · rw [if_pos required,ih]
      simp [required]

theorem required_sigs_zero {totalsize : ℕ} :
    fit_image_verify_required_sigs build blob rsa_verify_key totalsize image data = 0 ↔
      ((∃ key ∈ blob.keys, key.required = some "image") →
        ∃ noffset ∈ reached image, ∃ key ∈ blob.keys, VerifiedBy build rsa_verify_key totalsize noffset data key) := by
  unfold fit_image_verify_required_sigs
  cases keys_eq : blob.signature with
  | none => simp [KeyBlob.keys,keys_eq]
  | some keys =>
    have same : blob.keys = keys := by rw [KeyBlob.keys,keys_eq,getD_some]
    dsimp only
    rw [required_sigs_loop_zero]
    simp only [image_sig_verified,same]
    constructor
    · rintro all ⟨key,member,required⟩
      obtain ⟨i,at_i⟩ := getElem?_of_mem member
      exact all (key,i) (mem_zipIdx_iff_getElem?.mpr at_i) required
    · rintro all ⟨key,i⟩ member required
      exact all ⟨key,mem_of_getElem? (mem_zipIdx_iff_getElem?.mp member),required⟩

/-! ## Configurations -/

theorem config_key_verified {totalsize : ℕ} {hashed : SubNode → Option (List UInt8)} {key_offset : ℕ} :
    fit_config_verify_key build blob rsa_verify_key totalsize hashed conf key_offset = 0 ↔
      ∃ noffset ∈ conf.subnodes, noffset.is_signature ∧ ∃ data, hashed noffset = some data ∧
        ∃ key, blob.keys[key_offset]? = some key ∧ VerifiedBy build rsa_verify_key totalsize noffset data key := by
  unfold fit_config_verify_key
  have code : ¬ -EPERM = 0 := by decide
  dsimp only
  rw [ite_eq_left_iff]
  simp only [code,imp_false,not_not,List.any_eq_true,Bool.and_eq_true,decide_eq_true_eq,
    config_check_sig_zero,check_sig_zero]
  refine exists_congr fun noffset => and_congr_right fun _ => and_congr_right fun _ => exists_congr fun data =>
    and_congr_right fun _ => ?_
  simp

theorem required_keys_loop_failed {totalsize : ℕ} {hashed : SubNode → Option (List UInt8)} {all : Bool} {ret : ℤ}
    (ended : required_keys_loop build blob rsa_verify_key totalsize hashed conf all keys reqd_sigs verified = .inl ret) :
    ret ≠ 0 := by
  induction keys generalizing reqd_sigs verified with
  | nil => simp [required_keys_loop] at ended
  | cons key keys ih =>
    obtain ⟨key,noffset⟩ := key
    rw [required_keys_loop] at ended
    cases all with
    | true =>
      simp only [if_true] at ended
      split at ended
      · exact ih ended
      split at ended
      · next bad =>
        rw [← Sum.inl.inj ended]
        exact bad
      · exact ih ended
    | false =>
      simp only [Bool.false_eq_true,if_false] at ended
      split at ended
      · exact ih ended
      split at ended
      · exact ih ended
      · simp at ended

theorem required_keys_loop_all {totalsize : ℕ} {hashed : SubNode → Option (List UInt8)} {counts : ℕ × ℕ}
    (ended : required_keys_loop build blob rsa_verify_key totalsize hashed conf true keys reqd_sigs verified = .inr counts) :
    ∀ key ∈ keys, key.1.required = some "conf" →
      fit_config_verify_key build blob rsa_verify_key totalsize hashed conf key.2 = 0 := by
  induction keys generalizing reqd_sigs verified with
  | nil => simp
  | cons key keys ih =>
    obtain ⟨key,noffset⟩ := key
    rw [required_keys_loop] at ended
    simp only [if_true] at ended
    intro other member required
    split at ended
    · next skipped =>
      rcases mem_cons.mp member with rfl | later
      · exact absurd required skipped
      · exact ih ended other later required
    · split at ended
      · simp at ended
      · next good =>
        rcases mem_cons.mp member with rfl | later
        · exact not_not.mp good
        · exact ih ended other later required

theorem required_keys_loop_any {totalsize : ℕ} {hashed : SubNode → Option (List UInt8)} {result : ℤ ⊕ (ℕ × ℕ)}
    (ended : required_keys_loop build blob rsa_verify_key totalsize hashed conf false keys reqd_sigs verified = result) :
    (∃ key ∈ keys, key.1.required = some "conf" ∧
        fit_config_verify_key build blob rsa_verify_key totalsize hashed conf key.2 = 0) ∨
      ∃ counts, result = .inr counts ∧ counts.2 = verified ∧
        (reqd_sigs ≠ 0 ∨ (∃ key ∈ keys, key.1.required = some "conf") → counts.1 ≠ 0) := by
  induction keys generalizing reqd_sigs verified with
  | nil =>
    right
    exact ⟨(reqd_sigs,verified),ended.symm,rfl,by simp⟩
  | cons key keys ih =>
    obtain ⟨key,noffset⟩ := key
    rw [required_keys_loop] at ended
    simp only [Bool.false_eq_true,if_false] at ended
    split at ended
    · next skipped =>
      rcases ih ended with ⟨other,member,found⟩ | ⟨counts,same,still,some_required⟩
      · exact .inl ⟨other,mem_cons_of_mem _ member,found⟩
      · refine .inr ⟨counts,same,still,fun asked => some_required ?_⟩
        rcases asked with before | ⟨other,member,required⟩
        · exact .inl before
        · rcases mem_cons.mp member with rfl | later
          · exact absurd required skipped
          · exact .inr ⟨other,later,required⟩
    · next asked =>
      split at ended
      · rcases ih ended with ⟨other,member,found⟩ | ⟨counts,same,still,some_required⟩
        · exact .inl ⟨other,mem_cons_of_mem _ member,found⟩
        · exact .inr ⟨counts,same,still,fun _ => some_required (.inl (by omega))⟩
      · next good => exact .inl ⟨(key,noffset),mem_cons_self,not_not.mp asked,not_not.mp good⟩

/-! ## Required keys -/

section
variable (build : Build) (blob : KeyBlob) (rsa_verify_key : KeyProp → Request → ℤ) (totalsize : ℕ)

/-- An image that passes has for each key that is required for images a signature that
    verifies under it. -/
def ImageEnforced (image : FitNode) (data : List UInt8) : Prop :=
  fit_image_verify_required_sigs build blob rsa_verify_key totalsize image data = 0 →
    ∀ key ∈ blob.keys, key.required = some "image" →
      ∃ noffset ∈ image.subnodes, noffset.is_signature ∧ VerifiedBy build rsa_verify_key totalsize noffset data key

/-- A signature of the configuration verifies under the key. -/
def ConfigVerified (hashed : SubNode → Option (List UInt8)) (conf : FitNode) (key : KeyNode) : Prop :=
  ∃ noffset ∈ conf.subnodes, noffset.is_signature ∧ ∃ data, hashed noffset = some data ∧
    VerifiedBy build rsa_verify_key totalsize noffset data key

/-- A configuration that passes is verified under each key that is required for
    configurations, or under one of them if any will do. -/
def ConfigEnforced (hashed : SubNode → Option (List UInt8)) (conf : FitNode) : Prop :=
  fit_config_verify build blob rsa_verify_key totalsize hashed conf = 0 →
    if blob.required_mode = some "any" then
      (∃ key ∈ blob.keys, key.required = some "conf") →
        ∃ key ∈ blob.keys, key.required = some "conf" ∧ ConfigVerified build rsa_verify_key totalsize hashed conf key
    else
      ∀ key ∈ blob.keys, key.required = some "conf" → ConfigVerified build rsa_verify_key totalsize hashed conf key

/-- Every key that a signature of the image can verify under is the same RSA key as each
    key that is required for images. -/
def SameKeys (image : FitNode) (data : List UInt8) : Prop :=
  ∀ noffset ∈ reached image, ∀ r, request build totalsize noffset data = some r →
    ∀ key ∈ blob.keys, Usable key r.algo →
      ∀ other ∈ blob.keys, other.required = some "image" → other.algo = key.algo ∧ other.prop = key.prop
end

theorem mem_reached (member : noffset ∈ reached image) :
    noffset ∈ image.subnodes ∧ noffset.is_signature := by
  obtain ⟨taken,signature⟩ := mem_filter.mp member
  exact ⟨(List.takeWhile_prefix _).subset taken,signature⟩

theorem image_enforced_iff {totalsize : ℕ} :
    (∀ rsa_verify_key, ImageEnforced build blob rsa_verify_key totalsize image data) ↔
      SameKeys build blob totalsize image data := by
  constructor
  · intro enforced noffset member r asked key listed usable other required_listed required
    -- an RSA operation that accepts this key and this request only
    have passes := enforced (fun prop q => if prop = key.prop ∧ q = r then 0 else -1)
      (required_sigs_zero.mpr fun _ => ⟨noffset,member,key,listed,r,asked,usable,by simp⟩) other required_listed required
    obtain ⟨_,_,_,q,_,other_usable,zero⟩ := passes
    simp at zero
    rw [zero.2] at other_usable
    exact ⟨other_usable.1.trans usable.1.symm,zero.1⟩
  · intro same rsa_verify_key passed key listed required
    obtain ⟨noffset,member,other,other_listed,r,asked,usable,zero⟩ := required_sigs_zero.mp passed ⟨key,listed,required⟩
    obtain ⟨algo,prop⟩ := same noffset member r asked other other_listed usable key listed required
    obtain ⟨subnode,signature⟩ := mem_reached member
    refine ⟨noffset,subnode,signature,r,asked,?_,?_⟩
    · rw [Usable,algo,prop]
      exact usable
    · rw [prop]
      exact zero

theorem config_enforced (build : Build) (blob : KeyBlob) (rsa_verify_key : KeyProp → Request → ℤ) (totalsize : ℕ)
    (hashed : SubNode → Option (List UInt8)) (conf : FitNode) :
    ConfigEnforced build blob rsa_verify_key totalsize hashed conf := by
  intro passed
  unfold fit_config_verify at passed
  split at passed
  · exact absurd passed (by decide)
  cases keys_eq : blob.signature with
  | none =>
    have same : blob.keys = [] := by rw [KeyBlob.keys,keys_eq,getD_none]
    rw [same]
    simp
  | some keys =>
    have same : blob.keys = keys := by rw [KeyBlob.keys,keys_eq,getD_some]
    rw [keys_eq] at passed
    dsimp only at passed
    have verified {key : KeyNode} {i : ℕ} (member : (key,i) ∈ keys.zipIdx)
        (zero : fit_config_verify_key build blob rsa_verify_key totalsize hashed conf i = 0) :
        ConfigVerified build rsa_verify_key totalsize hashed conf key := by
      obtain ⟨noffset,listed,signature,data,taken,other,at_i,by_key⟩ := config_key_verified.mp zero
      rw [same,mem_zipIdx_iff_getElem?.mp member] at at_i
      rw [← Option.some.inj at_i] at by_key
      exact ⟨noffset,listed,signature,data,taken,by_key⟩
    by_cases any : blob.required_mode = some "any"
    · rw [if_pos any]
      simp only [any,ne_eq,not_true_eq_false,decide_false] at passed
      rintro ⟨key,listed,required⟩
      rw [same] at listed ⊢
      obtain ⟨i,at_i⟩ := getElem?_of_mem listed
      rcases required_keys_loop_any (rfl : required_keys_loop build blob rsa_verify_key totalsize hashed conf false
        keys.zipIdx 0 0 = _) with ⟨⟨other,j⟩,member,required,zero⟩ | ⟨counts,ended,none,some_required⟩
      · exact ⟨other,mem_of_getElem? (mem_zipIdx_iff_getElem?.mp member),required,verified member zero⟩
      · have asked := some_required (.inr ⟨(key,i),mem_zipIdx_iff_getElem?.mpr at_i,required⟩)
        rw [ended] at passed
        simp only [none,asked,not_false_eq_true,and_self,if_true] at passed
        exact absurd passed (by decide)
    · rw [if_neg any]
      simp only [any,ne_eq,not_false_eq_true,decide_true] at passed
      intro key listed required
      rw [same] at listed
      obtain ⟨i,at_i⟩ := getElem?_of_mem listed
      have member : (key,i) ∈ keys.zipIdx := mem_zipIdx_iff_getElem?.mpr at_i
      cases ended : required_keys_loop build blob rsa_verify_key totalsize hashed conf true keys.zipIdx 0 0 with
      | inl ret =>
        rw [ended] at passed
        exact absurd passed (required_keys_loop_failed ended)
      | inr counts => exact verified member (required_keys_loop_all ended (key,i) member required)
end

/-- Whatever RSA does, the keys required for configurations are enforced, and those for
    images exactly if every key that can verify a signature is the required one. -/
theorem required_keys_enforced (build : Build) (blob : KeyBlob) (totalsize : ℕ) :
    (∀ (image : FitNode) (data : List UInt8),
      (∀ rsa_verify_key, ImageEnforced build blob rsa_verify_key totalsize image data) ↔
        SameKeys build blob totalsize image data) ∧
    ∀ (rsa_verify_key : KeyProp → Request → ℤ) (hashed : SubNode → Option (List UInt8)) (conf : FitNode),
      ConfigEnforced build blob rsa_verify_key totalsize hashed conf := by
  constructor
  · intro image data
    exact image_enforced_iff
  · intro rsa_verify_key hashed conf
    exact config_enforced build blob rsa_verify_key totalsize hashed conf

def sha256_build : Build :=
  ⟨0x10000000,fun name => if name = "sha256,rsa2048" then some 32 else none,
    fun name => if name = "sha256,rsa2048" then some 256 else none,fun _ data => some data⟩

def rsa_key (modulus : UInt8) : KeyProp := ⟨2048,1,some [0,0,0,0,0,1,0,1],some [modulus],some [1]⟩

/-- A key that images must be signed with, and one for something else. -/
def two_keys : KeyBlob :=
  ⟨some [⟨"key-dev",some "image","sha256,rsa2048",rsa_key 5⟩,⟨"key-other",none,"sha256,rsa2048",rsa_key 7⟩],none⟩

def signed_image : FitNode :=
  ⟨"kernel",[⟨"hash-1","sha256",some [1],none,none⟩,⟨"signature-1","sha256,rsa2048",some [9],none,some "other"⟩],false⟩

def other_signature (prop : KeyProp) (r : Request) : ℤ := if prop = rsa_key 7 ∧ r.sig = [9] then 0 else -EACCES

theorem other_key_accepted : ¬ ImageEnforced sha256_build two_keys other_signature 4096 signed_image [] := by
  intro enforced
  obtain ⟨noffset,_,_,r,_,_,zero⟩ := enforced (by decide +kernel) ⟨"key-dev",some "image","sha256,rsa2048",rsa_key 5⟩
    (by decide +kernel) rfl
  have wrong : other_signature (rsa_key 5) r ≠ 0 := by
    rw [other_signature,if_neg (by simp [rsa_key])]
    decide
  exact wrong zero

end UBoot.FitRequiredKeys
