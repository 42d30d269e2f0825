import UBoot.Buffers

/-!
The walk over the certificate table in `efi_image_authenticate`,
`lib/efi_loader/efi_image_loader.c`. An address is a number that does not wrap; the certificate table
is the `wincerts_len` bytes at `wincerts`, and the PKCS#7 functions are arguments. An entry is left
by its own length, rounded up in 32 bits.
-/
namespace UBoot.EfiWincerts
open UBoot.Buffers UBoot.Memory List Option

def WIN_CERT_TYPE_PKCS_SIGNED_DATA : ℕ := 0x0002
def WIN_CERT_TYPE_EFI_GUID : ℕ := 0x0EF1

/-- `EFI_CERT_TYPE_PKCS7_GUID` -/
def efi_guid_cert_type_pkcs7 : List UInt8 :=
  little 4 0x4aafd29d ++ little 2 0x68df ++ little 2 0x49ee ++ [0x8a,0xa9,0x34,0x7d,0x37,0x56,0x65,0xa7]

/-- `sizeof(WIN_CERTIFICATE)` and `sizeof(efi_guid_t)` -/
def wincert_sizeof : ℕ := 8
def guid_sizeof : ℕ := 16

/-- `ALIGN(x, 8)` of a `u32` -/
def ALIGN (x : ℕ) : ℕ := (x+7)%2^32/8*8

/-- The functions that judge a signature, with the regions and the databases of the image:
    `pkcs7_parse_message` of an address and a size, `efi_signature_verify_one` and
    `efi_signature_check_signers` with dbx, and `efi_signature_verify` with both. -/
structure Pkcs7 (Msg : Type) where
  pkcs7_parse_message : ℕ → ℕ → Option Msg
  efi_signature_verify_one : Msg → Bool
  efi_signature_check_signers : Msg → Bool
  efi_signature_verify : Msg → Bool
  efi_image_verify_digest : Msg → Bool

/-- How a round of the loop ends: with `break`, with `goto out`, or with the next entry and
    the value of `ret`. -/
inductive Round where
  | breaks
  | out
  | continues (ret : Bool)
deriving DecidableEq

section
variable {Msg : Type} (pkcs7 : Pkcs7 Msg)

/-- The end of a round, where a signature is handed over and judged. -/
def judge (auth auth_size : ℕ) (ret : Bool) : Option (ℕ × ℕ) × Round :=
  (some (auth,auth_size),
    match pkcs7.pkcs7_parse_message auth auth_size with
    | none => .continues ret
    | some msg =>
      -- try black-list first
      if pkcs7.efi_signature_verify_one msg then .out
      else if !pkcs7.efi_signature_check_signers msg then .out
      -- try white-list
      else if !pkcs7.efi_signature_verify msg then .continues ret
      else if pkcs7.efi_image_verify_digest msg then .continues true
      else .continues ret)

variable (mem : ℕ → UInt8) (wincerts_end : ℕ)

/-- One round of the loop at the entry `wincert`: what is handed to `pkcs7_parse_message`,
    and how the round ends. -/
def wincert_round (wincert : ℕ) (ret : Bool) : Option (ℕ × ℕ) × Round :=
  if wincerts_end ≤ wincert+wincert_sizeof then (none,.breaks)
  else
    let dwLength := field mem wincert 4
    if dwLength ≤ wincert_sizeof then (none,.continues ret)
    else
      let wCertificateType := field mem (wincert+6) 2
      let auth := wincert+wincert_sizeof
      let auth_size := dwLength-wincert_sizeof
      if wCertificateType = WIN_CERT_TYPE_EFI_GUID then
        if wincerts_end ≤ auth+guid_sizeof then (none,.breaks)
        else if auth_size ≤ guid_sizeof then (none,.continues ret)
        else if load mem auth guid_sizeof ≠ efi_guid_cert_type_pkcs7 then (none,.out)
        else judge pkcs7 (auth+guid_sizeof) (auth_size-guid_sizeof) ret
      else if wCertificateType ≠ WIN_CERT_TYPE_PKCS_SIGNED_DATA then (none,.out)
      else judge pkcs7 auth auth_size ret

def next (wincert : ℕ) : ℕ := wincert+ALIGN (field mem wincert 4)

/-- The loop for as many rounds: what is handed over, and `ret` behind the loop if it ends;
    `listed` is what `efi_signature_lookup_digest` finds in db. -/
def walk (listed : Bool) : ℕ → ℕ → Bool → List (ℕ × ℕ) × Option Bool
  | 0, _, _ => ([],none)
  | rounds+1, wincert, ret =>
    if wincert < wincerts_end then
      let (handed,round) := wincert_round pkcs7 mem wincerts_end wincert ret
      match round with
      | .breaks => (handed.toList,some (ret || listed))
      | .out => (handed.toList,some false)
      | .continues ret =>
        let (more,result) := walk listed rounds (next mem wincert) ret
        (handed.toList ++ more,result)
    else ([],some (ret || listed))

inductive Reached (wincerts : ℕ) : ℕ → Bool → Prop
  | start : Reached wincerts wincerts false
  | step {wincert : ℕ} {ret ret' : Bool} {handed : Option (ℕ × ℕ)} : Reached wincerts wincert ret → wincert < wincerts_end →
      wincert_round pkcs7 mem wincerts_end wincert ret = (handed,.continues ret') → Reached wincerts (next mem wincert) ret'

def Ends (listed : Bool) (wincert : ℕ) (ret : Bool) : Prop :=
  ∃ rounds, (walk pkcs7 mem wincerts_end listed rounds wincert ret).2.isSome

def Inside (listed : Bool) (wincerts : ℕ) : Prop :=
  ∀ rounds, ∀ handed ∈ (walk pkcs7 mem wincerts_end listed rounds wincerts false).1,
    wincerts ≤ handed.1 ∧ handed.1+handed.2 ≤ wincerts_end

/-- Each entry at which the walk goes on has a length, and one that can be rounded up. -/
def Advances (wincerts : ℕ) : Prop :=
  ∀ wincert ret, Reached pkcs7 mem wincerts_end wincerts wincert ret → wincert < wincerts_end →
    (∃ handed ret', wincert_round pkcs7 mem wincerts_end wincert ret = (handed,.continues ret')) →
    0 < field mem wincert 4 ∧ field mem wincert 4 ≤ 2^32-8

def Fits (wincerts : ℕ) : Prop :=
  ∀ wincert ret, Reached pkcs7 mem wincerts_end wincerts wincert ret → wincert < wincerts_end →
    (wincert_round pkcs7 mem wincerts_end wincert ret).1.isSome → wincert+field mem wincert 4 ≤ wincerts_end
end

/-! ## One round -/

section
variable {Msg : Type} {pkcs7 : Pkcs7 Msg} {mem : ℕ → UInt8} {wincerts_end wincerts wincert : ℕ} {ret ret' listed : Bool}

theorem align_pos_iff {x : ℕ} (small : x < 2^32) : ALIGN x ≠ 0 ↔ 0 < x ∧ x ≤ 2^32-8 := by
  rw [ALIGN]
  omega

theorem next_iff : next mem wincert ≠ wincert ↔ 0 < field mem wincert 4 ∧ field mem wincert 4 ≤ 2^32-8 := by
  rw [← align_pos_iff (field_lt mem wincert 4),next]
  omega

theorem round_cases (pkcs7 : Pkcs7 Msg) (mem : ℕ → UInt8) (wincerts_end wincert : ℕ) :
    (∃ round, round ≠ .continues true ∧ round ≠ .continues false ∧
      ∀ ret, wincert_round pkcs7 mem wincerts_end wincert ret = (none,round)) ∨
    (∀ ret, wincert_round pkcs7 mem wincerts_end wincert ret = (none,.continues ret)) ∨
    ∃ auth auth_size, wincert ≤ auth ∧ auth+auth_size = wincert+field mem wincert 4 ∧
      ∀ ret, wincert_round pkcs7 mem wincerts_end wincert ret = judge pkcs7 auth auth_size ret := by
  simp only [wincert_round]
  by_cases header : wincerts_end ≤ wincert+wincert_sizeof
  · exact Or.inl ⟨.breaks,by simp,by simp,fun ret => if_pos header⟩
  simp only [if_neg header]
  by_cases short : field mem wincert 4 ≤ wincert_sizeof
  · exact Or.inr (Or.inl fun ret => if_pos short)
  simp only [if_neg short]
  by_cases guid : field mem (wincert+6) 2 = WIN_CERT_TYPE_EFI_GUID
  · simp only [if_pos guid]
    by_cases outside : wincerts_end ≤ wincert+wincert_sizeof+guid_sizeof
    · exact Or.inl ⟨.breaks,by simp,by simp,fun ret => if_pos outside⟩
    simp only [if_neg outside]
    by_cases small : field mem wincert 4-wincert_sizeof ≤ guid_sizeof
    · exact Or.inr (Or.inl fun ret => if_pos small)
    simp only [if_neg small]
    by_cases other : load mem (wincert+wincert_sizeof) guid_sizeof ≠ efi_guid_cert_type_pkcs7
    · exact Or.inl ⟨.out,by simp,by simp,fun ret => if_pos other⟩
    · exact Or.inr (Or.inr ⟨_,_,by omega,by omega,fun ret => if_neg other⟩)
  · simp only [if_neg guid]
    by_cases other : field mem (wincert+6) 2 ≠ WIN_CERT_TYPE_PKCS_SIGNED_DATA
    · exact Or.inl ⟨.out,by simp,by simp,fun ret => if_pos other⟩
    · exact Or.inr (Or.inr ⟨_,_,by omega,by omega,fun ret => if_neg other⟩)

variable {handed : Option (ℕ × ℕ)}

theorem judge_again {auth auth_size : ℕ}
    (goes_on : judge pkcs7 auth auth_size ret = (handed,.continues ret')) (other : Bool) :
    ∃ next, judge pkcs7 auth auth_size other = (handed,.continues next) := by
  rw [judge] at goes_on ⊢
  obtain ⟨rfl,goes_on⟩ := Prod.mk.inj goes_on
  cases parsed : pkcs7.pkcs7_parse_message auth auth_size with
  | none => exact ⟨other,rfl⟩
  | some msg =>
    rw [parsed] at goes_on
    dsimp only at goes_on ⊢
    by_cases black : pkcs7.efi_signature_verify_one msg = true
    · rw [if_pos black] at goes_on
      cases goes_on
    rw [if_neg black] at goes_on ⊢
    by_cases signers : (!pkcs7.efi_signature_check_signers msg) = true
    · rw [if_pos signers] at goes_on
      cases goes_on
    rw [if_neg signers]
    by_cases unverified : (!pkcs7.efi_signature_verify msg) = true
    · rw [if_pos unverified]
      exact ⟨other,rfl⟩
    rw [if_neg unverified]
    by_cases digest : pkcs7.efi_image_verify_digest msg = true
    · rw [if_pos digest]
      exact ⟨true,rfl⟩
    · rw [if_neg digest]
      exact ⟨other,rfl⟩

theorem round_again
    (goes_on : wincert_round pkcs7 mem wincerts_end wincert ret = (handed,.continues ret')) (other : Bool) :
    ∃ next, wincert_round pkcs7 mem wincerts_end wincert other = (handed,.continues next) := by
  rcases round_cases pkcs7 mem wincerts_end wincert with ⟨round,not_true,not_false_,same⟩ | same | ⟨auth,auth_size,_,_,same⟩
  · rw [same] at goes_on
    obtain ⟨_,goes_on⟩ := Prod.mk.inj goes_on
    cases ret' with
    | true => exact absurd goes_on not_true
    | false => exact absurd goes_on not_false_
  · rw [same] at goes_on
    obtain ⟨rfl,_⟩ := Prod.mk.inj goes_on
    exact ⟨other,same other⟩
  · rw [same] at goes_on ⊢
    exact judge_again goes_on other

theorem handed_entry {auth auth_size : ℕ}
    (handed : (wincert_round pkcs7 mem wincerts_end wincert ret).1 = some (auth,auth_size)) :
    wincert ≤ auth ∧ auth+auth_size = wincert+field mem wincert 4 := by
  rcases round_cases pkcs7 mem wincerts_end wincert with ⟨round,_,_,same⟩ | same | ⟨start,size,behind,ends,same⟩
  · rw [same] at handed
    cases handed
  · rw [same] at handed
    cases handed
  · rw [same,judge] at handed
    cases handed
    exact ⟨behind,ends⟩

/-! ## Where the walk ends -/

theorem walk_continues (before : wincert < wincerts_end)
    (goes_on : wincert_round pkcs7 mem wincerts_end wincert ret = (handed,.continues ret')) (rounds : ℕ) :
    walk pkcs7 mem wincerts_end listed (rounds+1) wincert ret =
      (handed.toList ++ (walk pkcs7 mem wincerts_end listed rounds (next mem wincert) ret').1,
        (walk pkcs7 mem wincerts_end listed rounds (next mem wincert) ret').2) := by
  rw [walk,if_pos before,goes_on]

theorem walk_stays (before : wincert < wincerts_end)
    (goes_on : wincert_round pkcs7 mem wincerts_end wincert ret = (handed,.continues ret'))
    (stays : next mem wincert = wincert) (rounds : ℕ) :
    (walk pkcs7 mem wincerts_end listed rounds wincert ret).2 = none := by
  induction rounds generalizing ret ret' with
  | zero => rfl
  | succ rounds ih =>
    obtain ⟨again,goes_on'⟩ := round_again goes_on ret'
    rw [walk_continues before goes_on,stays]
    exact ih goes_on'

theorem reached_ends (ends : Ends pkcs7 mem wincerts_end listed wincerts false)
    (reached : Reached pkcs7 mem wincerts_end wincerts wincert ret) : Ends pkcs7 mem wincerts_end listed wincert ret := by
  induction reached with
  | start => exact ends
  | step _ before goes_on ih =>
    obtain ⟨rounds,ended⟩ := ih
    cases rounds with
    | zero => cases ended
    | succ rounds =>
      rw [walk_continues before goes_on] at ended
      exact ⟨rounds,ended⟩

theorem reached_behind (reached : Reached pkcs7 mem wincerts_end wincerts wincert ret) : wincerts ≤ wincert := by
  induction reached with
  | start => exact le_rfl
  | step _ _ _ ih => exact ih.trans (Nat.le_add_right _ _)

theorem advances_ends (advances : Advances pkcs7 mem wincerts_end wincerts) (left : ℕ)
    (reached : Reached pkcs7 mem wincerts_end wincerts wincert ret) (rest : wincerts_end ≤ wincert+left) :
    Ends pkcs7 mem wincerts_end listed wincert ret := by
  induction left generalizing wincert ret with
  | zero => exact ⟨1,by rw [walk,if_neg (by omega)]; rfl⟩
  | succ left ih =>
    by_cases before : wincert < wincerts_end
    · cases round : wincert_round pkcs7 mem wincerts_end wincert ret with
      | mk handed outcome =>
        cases outcome with
        | breaks | out => exact ⟨1,by rw [walk,if_pos before,round]; rfl⟩
        | continues ret' =>
          have moves := next_iff.mpr (advances wincert ret reached before ⟨handed,ret',round⟩)
          have on : wincert ≤ next mem wincert := Nat.le_add_right _ _
          obtain ⟨rounds,ended⟩ := ih (.step reached before round) (by omega)
          refine ⟨rounds+1,?_⟩
          rw [walk_continues before round]
          exact ended
    · exact ⟨1,by rw [walk,if_neg before]; rfl⟩

theorem ends_iff : Ends pkcs7 mem wincerts_end listed wincerts false ↔ Advances pkcs7 mem wincerts_end wincerts := by
  constructor
  · intro ends wincert ret reached before goes_on
    obtain ⟨handed,ret',goes_on⟩ := goes_on
    rw [← next_iff]
    intro stays
    obtain ⟨rounds,ended⟩ := reached_ends ends reached
    rw [walk_stays before goes_on stays] at ended
    cases ended
  · intro advances
    exact advances_ends advances (wincerts_end-wincerts) .start (by omega)

/-! ## What is handed over -/

theorem walk_handed (rounds : ℕ) (reached : Reached pkcs7 mem wincerts_end wincerts wincert ret) {handed : ℕ × ℕ}
    (member : handed ∈ (walk pkcs7 mem wincerts_end listed rounds wincert ret).1) :
    ∃ entry ret, Reached pkcs7 mem wincerts_end wincerts entry ret ∧ entry < wincerts_end ∧
      (wincert_round pkcs7 mem wincerts_end entry ret).1 = some handed := by
  induction rounds generalizing wincert ret with
  | zero => exact absurd member not_mem_nil
  | succ rounds ih =>
    by_cases before : wincert < wincerts_end
    · rw [walk,if_pos before] at member
      cases round : wincert_round pkcs7 mem wincerts_end wincert ret with
      | mk given outcome =>
        have here (same : handed ∈ given.toList) : (wincert_round pkcs7 mem wincerts_end wincert ret).1 = some handed := by
          rw [round]
          exact mem_toList.mp same
        rw [round] at member
        cases outcome with
        | breaks | out => exact ⟨wincert,ret,reached,before,here member⟩
        | continues ret' =>
          rcases mem_append.mp member with first | later
          · exact ⟨wincert,ret,reached,before,here first⟩
          · exact ih (.step reached before round) later
    · rw [walk,if_neg before] at member
      exact absurd member not_mem_nil

theorem reached_handed (reached : Reached pkcs7 mem wincerts_end wincerts wincert ret) (more : ℕ) :
    ∃ rounds, ∀ handed ∈ (walk pkcs7 mem wincerts_end listed more wincert ret).1,
      handed ∈ (walk pkcs7 mem wincerts_end listed rounds wincerts false).1 := by
  induction reached generalizing more with
  | start => exact ⟨more,fun handed member => member⟩
  | step _ before goes_on ih =>
    obtain ⟨rounds,contained⟩ := ih (more+1)
    refine ⟨rounds,fun handed member => contained handed ?_⟩
    rw [walk_continues before goes_on]
    exact mem_append_right _ member

theorem inside_iff : Inside pkcs7 mem wincerts_end listed wincerts ↔ Fits pkcs7 mem wincerts_end wincerts := by
  constructor
  · intro inside wincert ret reached before some_handed
    obtain ⟨⟨auth,auth_size⟩,handed⟩ := isSome_iff_exists.mp some_handed
    obtain ⟨rounds,contained⟩ := @reached_handed _ pkcs7 mem wincerts_end wincerts wincert ret listed reached 1
    have member : (auth,auth_size) ∈ (walk pkcs7 mem wincerts_end listed 1 wincert ret).1 := by
      rw [walk,if_pos before]
      cases round : wincert_round pkcs7 mem wincerts_end wincert ret with
      | mk given outcome =>
        rw [round] at handed
        cases handed
        cases outcome <;> exact mem_cons_self
    have bound := (inside rounds _ (contained _ member)).2
    rw [(handed_entry handed).2] at bound
    exact bound
  · intro fits rounds handed member
    obtain ⟨entry,ret,reached,before,given⟩ := walk_handed rounds .start member
    obtain ⟨behind,ends⟩ := handed_entry given
    have bound := fits entry ret reached before (by rw [given]; rfl)
    exact ⟨(reached_behind reached).trans behind,by omega⟩
end

/-- The walk over any table ends exactly if each entry at which it goes on leads on, and
    hands over bytes of the table only exactly if each entry that it hands over fits. -/
theorem walk_ends_inside_iff {Msg : Type} (pkcs7 : Pkcs7 Msg) (mem : ℕ → UInt8) (wincerts wincerts_len : ℕ) (listed : Bool) :
    (Ends pkcs7 mem (wincerts+wincerts_len) listed wincerts false ↔ Advances pkcs7 mem (wincerts+wincerts_len) wincerts) ∧
      (Inside pkcs7 mem (wincerts+wincerts_len) listed wincerts ↔ Fits pkcs7 mem (wincerts+wincerts_len) wincerts) :=
  ⟨ends_iff,inside_iff⟩

/-- A table of sixteen zero bytes is never left. -/
theorem zero_length_stays :
    ¬ ∀ (pkcs7 : Pkcs7 Unit) (mem : ℕ → UInt8) (wincerts wincerts_len : ℕ) (listed : Bool),
      Ends pkcs7 mem (wincerts+wincerts_len) listed wincerts false ∧
        Inside pkcs7 mem (wincerts+wincerts_len) listed wincerts := by
  intro walks
  let nothing : Pkcs7 Unit := ⟨fun _ _ => none,fun _ => false,fun _ => true,fun _ => false,fun _ => false⟩
  have advances := ends_iff.mp (walks nothing (fun _ => 0) 0 16 false).1
  have round : wincert_round nothing (fun _ => 0) 16 0 false = (none,.continues false) := by decide +kernel
  have length := (advances 0 false .start (by decide) ⟨none,false,round⟩).1
  exact absurd length (by decide)

end UBoot.EfiWincerts
