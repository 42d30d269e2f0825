import UBoot.RecoveryHttpd

/-!
What holds in every run of the recovery server. The callbacks of one connection
do one of a few things to the shared variables (`Callback`), and from these
follows what every reachable state satisfies (`Inv`): an upload that is not
complete belongs to one connection, which still sends it, and no other request
is accepted meanwhile; while `flash_image` works nothing is under way.
-/
namespace UBoot.Recovery
open UBoot.Memory UBoot.Runs List Function

/-- A connection waits for a request, was answered, or sends the rest of the
    upload that the variables describe. -/
def Good (s : System) (c : Nat) (hs : Http) : Prop :=
  hs = http_state_init ∨ Answered hs ∨
    ∃ left, 0 < left ∧ hs = uploading left ∧ s.g.post_ok = true ∧ s.uploader = some c ∧
      s.g.recv_off+left = s.g.recv_total

def Holds (s : System) : Prop := load s.g.ram s.g.recv_base s.g.recv_off = s.body

/-- `flash_image` works on the body of the upload, and serves the network only
    when requests are refused. -/
structure Flashing (s : System) (f : Flash) : Prop where
  refuses : f.serves = true → 0 < s.g.prog_phase
  ended : s.g.post_ok = false
  taken : s.g.flash_request = false
  no_reboot : s.g.reboot_post_pending = false
  image : f.image = s.g.recv_base
  image_size : f.image_size = s.g.recv_off
  holds : Holds s

structure Inv (s : System) : Prop where
  good : ∀ c hs, s.conns c = some hs → Good s c hs
  exclusive : s.g.post_ok = true ∨ s.g.flash_request = true → s.g.reboot_post_pending = false
  requested : s.g.flash_request = true → s.g.recv_total ≤ s.g.recv_off
  bounded : s.g.post_ok = true → s.g.recv_off ≤ s.g.recv_total
  holds : s.g.post_ok = true ∨ s.g.flash_request = true → Holds s
  uploads : s.g.post_ok = true ∨ s.g.flash_request = true → ∃ c, s.uploader = some c
  reboots : s.g.reboot_post_pending = true → ∃ c, s.rebooter = some c
  flashing : ∀ f, s.flash = some f → Flashing s f

def System.rebooting (s : System) (c : Nat) : System :=
  { s with
    g := { s.g with reboot_post_pending := true }
    conns := Function.update s.conns c (some (answering false))
    rebooter := some c }

/-- A POST of an upload is refused because of what it asks for. -/
def System.refused (s : System) (c total : Nat) (target : Target) : System :=
  { s with
    g := { s.g with recv_off := 0, recv_total := total, current_target := target, post_ok := false, prog_phase := -1 }
    conns := Function.update s.conns c (some { http_state_init with handle := true })
    uploader := none
    body := [] }

def System.opened (s : System) (c base total : Nat) (target : Target) : System :=
  { s with
    g := { s.g with
      recv_base := base, recv_off := 0, recv_total := total, current_target := target, post_ok := true, prog_phase := 0 }
    conns := Function.update s.conns c (some (uploading total))
    uploader := some c
    body := [] }

def System.fed (s : System) (c left : Nat) (p : Pbuf) : System :=
  let (hs,g) := http_post_rxpbuf { uploading left with unrecved_bytes := tot_len p } s.g p
  { s with g := g, conns := Function.update s.conns c (some hs), body := s.body ++ p.flatten }

def System.abandoned (s : System) (c : Nat) : System :=
  { s with
    g := { s.g with post_ok := false, prog_phase := -1 }
    conns := Function.update s.conns c none }

def System.completed (s : System) (c : Nat) (result : Int) : System :=
  { s with
    g := httpd_post_response_complete s.g result
    conns := Function.update s.conns c none }

/-- All that an event of the connection `c` can do. -/
inductive Callback (s : System) (c : Nat) : Event → System → Prop
  | ignored {e : Event} : Callback s c e s
  | quiet {e : Event} (hs' : Option Http) (settled : ∀ hs, hs' = some hs → hs = http_state_init ∨ Answered hs) :
      Callback s c e { s with conns := Function.update s.conns c hs' }
  | rebooting {e : Event} (idle : busy s.g = false) (vacant : s.flash = none) : Callback s c e (s.rebooting c)
  | refused {e : Event} (idle : busy s.g = false) (vacant : s.flash = none) (total : Nat) (target : Target) :
      Callback s c e (s.refused c total target)
  | opened {e : Event} (idle : busy s.g = false) (vacant : s.flash = none) (base total : Nat) (target : Target)
      (pos : 0 < total) : Callback s c e (s.opened c base total target)
  | fed_first {e : Event} (idle : busy s.g = false) (vacant : s.flash = none) (base total : Nat) (target : Target)
      (pos : 0 < total) (p : Pbuf) : Callback s c e ((s.opened c base total target).fed c total p)
  | fed {e : Event} (left : Nat) (pos : 0 < left) (found : s.conns c = some (uploading left)) (p : Pbuf) :
      Callback s c e (s.fed c left p)
  | abandoned {e : Event} (left : Nat) (pos : 0 < left) (found : s.conns c = some (uploading left)) :
      Callback s c e (s.abandoned c)
  | completed (result : Int) (hs : Http) (served : s.served = true) (found : s.conns c = some hs)
      (pending : hs.post_response_pending = true) : Callback s c (.closed c result) (s.completed c result)

variable {c left : Nat} {e : Event} {hs : Http} {s s' t : System}

/-- Where requests are not refused, `flash_image` does not work. -/
theorem Inv.vacant (inv : Inv s) (served : s.served = true) (idle : busy s.g = false) : s.flash = none := by
  cases flash : s.flash with
  | none => rfl
  | some f =>
    have serves : f.serves = true := by simpa [System.served,flash] using served
    have phase := (inv.flashing f flash).refuses serves
    simp [busy] at idle
    omega

/-- An upload of which a part is still to come. -/
theorem Inv.uploading {s : System} (inv : Inv s) {c left : Nat} (pos : 0 < left)
    (found : s.conns c = some (uploading left)) :
    s.g.post_ok = true ∧ s.uploader = some c ∧ s.g.recv_off+left = s.g.recv_total ∧
      s.g.reboot_post_pending = false ∧ s.g.flash_request = false ∧ s.flash = none := by
  rcases inv.good c _ found with init | done | ⟨left',_,same,ok,owner,balance⟩
  · simp [Recovery.uploading,http_state_init] at init
  · simp [Answered,Recovery.uploading] at done
  · have equal : left = left' := by simpa [Recovery.uploading] using same
    subst equal
    refine ⟨ok,owner,balance,inv.exclusive (.inl ok),?_,?_⟩
    · by_contra requested
      have reached := inv.requested (by simpa using requested)
      omega
    · cases flash : s.flash with
      | none => rfl
      | some f => simpa [ok] using (inv.flashing f flash).ended

theorem step_recv (served : s.served = true) (found : s.conns c = some hs)
    (p : Pbuf) (parsed : Parsed) :
    step s (.recv c p parsed) =
      { s.recorded c hs p parsed with
        g := (http_recv hs s.g p parsed).2
        conns := Function.update s.conns c (http_recv hs s.g p parsed).1 } := by
  simp only [step,served,found]

theorem step_closed (served : s.served = true) (found : s.conns c = some hs)
    (result : Int) :
    step s (.closed c result) =
      { s with g := http_close_conn hs s.g result, conns := Function.update s.conns c none } := by
  simp only [step,served,found]

theorem step_recv_uploading (served : s.served = true)
    (found : s.conns c = some (uploading left)) (pos : 0 < left) (p : Pbuf) (parsed : Parsed) :
    step s (.recv c p parsed) = s.fed c left p := by
  rw [step_recv served found]
  simp [http_recv,System.recorded,uploading,pos,System.fed]

theorem step_recv_post (served : s.served = true)
    (found : s.conns c = some http_state_init) (p : Pbuf) (board : Board) (uri : List Char) (content_len : Nat)
    (q : Option Pbuf) :
    step s (.recv c p (.post board uri content_len q)) =
      { s.posted c board uri content_len q with
        g := (http_post_request http_state_init s.g board uri content_len q).2
        conns := Function.update s.conns c (some (http_post_request http_state_init s.g board uri content_len q).1) } := by
  rw [step_recv served found]
  simp [http_recv,System.recorded,http_state_init]

theorem step_recv_reboot (served : s.served = true)
    (found : s.conns c = some http_state_init) (p : Pbuf) (board : Board) (q : Option Pbuf) (idle : busy s.g = false) :
    step s (.recv c p (.post board "/reboot".toList 0 q)) = s.rebooting c := by
  have accepted : httpd_post_begin s.g board "/reboot".toList ((0 : Nat) : Int) = (ERR_OK,true,(s.rebooting c).g) := by
    rw [httpd_post_begin_reboot idle,if_neg (by simp),System.rebooting]
  have answered : http_post_request http_state_init s.g board "/reboot".toList 0 q =
      (answering false,(s.rebooting c).g) := by
    rw [http_post_request,accepted]
    cases q with
    | none => exact http_post_rxpbuf_reboot [[]] (show (s.rebooting c).g.reboot_post_pending = true from rfl)
    | some q => exact http_post_rxpbuf_reboot q (show (s.rebooting c).g.reboot_post_pending = true from rfl)
  rw [step_recv_post served found,answered,System.posted,accepted,if_pos rfl,if_pos (by simp)]
  rfl

theorem step_recv_upload (served : s.served = true)
    (found : s.conns c = some http_state_init) (p : Pbuf) {board : Board} {uri : List Char} {content_len : Nat}
    (q : Option Pbuf) (idle : busy s.g = false) (upload : uri ≠ "/reboot".toList) {base : Nat} {target : Target}
    (pos : 0 < content_len)
    (accepted : begin_upload s.g board uri content_len = (ERR_OK,(s.opened c base content_len target).g)) :
    step s (.recv c p (.post board uri content_len q)) =
      match q with
      | none => s.opened c base content_len target
      | some q => (s.opened c base content_len target).fed c content_len q := by
  have begun : httpd_post_begin s.g board uri content_len = (ERR_OK,false,(s.opened c base content_len target).g) := by
    rw [httpd_post_begin_upload idle board upload,accepted]
  have some_left : content_len ≠ 0 := by omega
  rw [step_recv_post served found,http_post_request,System.posted,begun,if_neg upload,if_neg (by rw [idle]; decide),
    if_pos (by simp)]
  cases q with
  | none =>
    simp only [if_true,some_left,if_false]
    rfl
  | some q =>
    simp only [if_true,System.fed,System.opened,update_idem,nil_append]
    rfl

theorem posted_callback (inv : Inv s) (served : s.served = true)
    (found : s.conns c = some http_state_init) (p : Pbuf) (board : Board) (uri : List Char) (content_len : Nat)
    (q : Option Pbuf) :
    Callback s c e (step s (.recv c p (.post board uri content_len q))) := by
  have other : ERR_ARG ≠ ERR_OK := by decide
  -- A POST that is refused at once leaves the page with the error to send.
  have denied : ∀ auto, httpd_post_begin s.g board uri content_len = (ERR_ARG,auto,s.g) →
      s.posted c board uri content_len q = s →
      Callback s c e (step s (.recv c p (.post board uri content_len q))) := by
    intro auto begun unrecorded
    rw [step_recv_post served found,unrecorded,http_post_request,begun]
    simp only [other,if_false]
    exact .quiet _ (by
      rintro hs same
      obtain rfl := Option.some.inj same
      exact .inr ⟨rfl,rfl,.inr ⟨rfl,rfl⟩⟩)
  cases under_way : busy s.g with
  | true =>
    have begun := httpd_post_begin_busy under_way board uri content_len
    refine denied _ begun ?_
    rw [System.posted,begun]
    simp only [other,decide_false,under_way,if_true,Bool.false_eq_true,if_false,ite_self]
  | false =>
    have vacant := inv.vacant served under_way
    by_cases reboot : uri = "/reboot".toList
    · subst reboot
      by_cases empty : content_len = 0
      · subst empty
        rw [step_recv_reboot served found p board q under_way]
        exact .rebooting under_way vacant
      · have begun : httpd_post_begin s.g board "/reboot".toList content_len = (ERR_ARG,true,s.g) := by
          rw [httpd_post_begin_reboot under_way,if_pos (by omega)]
        refine denied true begun ?_
        rw [System.posted,begun,if_pos rfl,if_neg (by simp [other])]
    · rcases begin_upload_cases s.g board uri content_len with ⟨base,target,pos,begun⟩ | ⟨err,total,target,failed,begun⟩
      · rw [step_recv_upload served found p q under_way reboot (by omega) begun]
        cases q with
        | none => exact .opened under_way vacant base content_len target (by omega)
        | some q => exact .fed_first under_way vacant base content_len target (by omega) q
      · have refused : httpd_post_begin s.g board uri content_len = (err,false,(s.refused c total target).g) := by
          rw [httpd_post_begin_upload under_way board reboot,begun,System.refused]
        rw [step_recv_post served found,http_post_request,System.posted,refused,if_neg reboot,
          if_neg (by rw [under_way]; decide)]
        simp only [failed,decide_false,if_false,Bool.false_eq_true]
        exact .refused under_way vacant total target

/-- The events of a connection do no more than the cases say. -/
theorem step_callback (inv : Inv s) (about : e.conn = some c) :
    Callback s c e (step s e) := by
  cases e with
  | accept d =>
    obtain rfl := Option.some.inj about
    simp only [step]
    split
    · exact .quiet _ (fun hs same => .inl (Option.some.inj same).symm)
    · exact .ignored
  | recv d p parsed =>
    obtain rfl := Option.some.inj about
    cases served : s.served with
    | false =>
      simp only [step,served]
      exact .ignored
    | true =>
      cases found : s.conns d with
      | none =>
        simp only [step,served,found]
        exact .ignored
      | some hs =>
        rcases inv.good d hs found with rfl | done | ⟨left,pos,rfl,_⟩
        · cases parsed with
          | in_progress =>
            rw [step_recv served found]
            exact .quiet (some http_state_init) (fun hs same => .inl (Option.some.inj same).symm)
          | failed =>
            rw [step_recv served found]
            exact .quiet none (by simp)
          | get =>
            rw [step_recv served found]
            exact .quiet (some { http_state_init with handle := true }) (by
              rintro hs same
              obtain rfl := Option.some.inj same
              exact .inr ⟨rfl,rfl,.inr ⟨rfl,rfl⟩⟩)
          | post board uri content_len q => exact posted_callback inv served found p board uri content_len q
        · obtain ⟨hs',same,done'⟩ := http_recv_answered s.g p parsed done
          have unrecorded : s.recorded d hs p parsed = s := by simp [System.recorded,done.1,done.2.1]
          rw [step_recv served found,same,unrecorded]
          exact .quiet (some hs') (fun hs same => .inr (Option.some.inj same ▸ done'))
        · rw [step_recv_uploading served found pos]
          exact .fed left pos found p
  | closed d result =>
    obtain rfl := Option.some.inj about
    cases served : s.served with
    | false =>
      simp only [step,served]
      exact .ignored
    | true =>
      cases found : s.conns d with
      | none =>
        simp only [step,served,found]
        exact .ignored
      | some hs =>
        rcases inv.good d hs found with rfl | done | ⟨left,pos,rfl,_⟩
        · rw [step_closed served found]
          exact .quiet none (by simp)
        · rw [step_closed served found,http_close_conn_answered s.g result done]
          by_cases pending : hs.post_response_pending = true
          · rw [if_pos pending]
            exact .completed result hs served found pending
          · rw [if_neg pending]
            exact .quiet none (by simp)
        · have facts := inv.uploading pos found
          rw [step_closed served found,http_close_conn_uploading result facts.2.2.2.1 pos facts.2.2.1]
          exact .abandoned left pos found
  | timer | flash | phase write | flashed success => simp [Event.conn] at about

theorem idle_flags {g : Shared} (idle : busy g = false) :
    g.post_ok = false ∧ g.flash_request = false ∧ g.reboot_post_pending = false ∧ g.reboot_request = false ∧
      g.prog_phase ≤ 0 := by
  simpa [busy,and_assoc] using idle

theorem Good.keep (good : Good s c hs)
    (kept : ∀ left, 0 < left → s.g.post_ok = true → s.uploader = some c → s.g.recv_off+left = s.g.recv_total →
      s'.g.post_ok = true ∧ s'.uploader = some c ∧ s'.g.recv_off+left = s'.g.recv_total) : Good s' c hs := by
  rcases good with init | done | ⟨left,pos,same,ok,owner,balance⟩
  · exact .inl init
  · exact .inr (.inl done)
  · exact .inr (.inr ⟨left,pos,same,kept left pos ok owner balance⟩)

theorem good_update {hs' : Option Http} (good : ∀ d hs, s.conns d = some hs → Good s d hs)
    (conns : s'.conns = Function.update s.conns c hs') (changed : ∀ hs, hs' = some hs → Good s' c hs)
    (kept : ∀ d, d ≠ c → ∀ left, 0 < left → s.g.post_ok = true → s.uploader = some d →
      s.g.recv_off+left = s.g.recv_total →
      s'.g.post_ok = true ∧ s'.uploader = some d ∧ s'.g.recv_off+left = s'.g.recv_total) :
    ∀ d hs, s'.conns d = some hs → Good s' d hs := by
  intro d hs found
  rw [conns] at found
  by_cases same : d = c
  · subst same
    exact changed hs (by simpa using found)
  · rw [update_of_ne same] at found
    exact (good d hs found).keep (kept d same)

theorem inv_quiet (inv : Inv s) (c : Nat) {hs' : Option Http}
    (settled : ∀ hs, hs' = some hs → hs = http_state_init ∨ Answered hs) :
    Inv { s with conns := Function.update s.conns c hs' } where
  good := good_update inv.good rfl (fun hs same => (settled hs same).imp_right .inl)
    (fun _ _ _ _ ok owner balance => ⟨ok,owner,balance⟩)
  exclusive := inv.exclusive
  requested := inv.requested
  bounded := inv.bounded
  holds := inv.holds
  uploads := inv.uploads
  reboots := inv.reboots
  flashing := fun f flash =>
    have old := inv.flashing f flash
    ⟨old.refuses,old.ended,old.taken,old.no_reboot,old.image,old.image_size,old.holds⟩

theorem inv_rebooting (inv : Inv s) (c : Nat) (idle : busy s.g = false) (vacant : s.flash = none) :
    Inv (s.rebooting c) := by
  obtain ⟨no_post,no_flash,-⟩ := idle_flags idle
  have none_ : ¬ (s.g.post_ok = true ∨ s.g.flash_request = true) := by simp [no_post,no_flash]
  refine ⟨?_,?_,inv.requested,inv.bounded,?_,?_,?_,?_⟩
  · refine good_update inv.good rfl ?_ (fun _ _ _ _ ok owner balance => ⟨ok,owner,balance⟩)
    rintro hs same
    obtain rfl := Option.some.inj same
    exact .inr (.inl (answered_answering false))
  · exact fun either => absurd either none_
  · exact fun either => absurd either none_
  · exact fun either => absurd either none_
  · exact fun _ => ⟨c,rfl⟩
  · intro f flash
    rw [System.rebooting,vacant] at flash
    cases flash

theorem inv_refused (inv : Inv s) (c total : Nat) (target : Target) (idle : busy s.g = false)
    (vacant : s.flash = none) : Inv (s.refused c total target) := by
  obtain ⟨no_post,no_flash,no_reboot,-⟩ := idle_flags idle
  have none_ : ¬ ((s.refused c total target).g.post_ok = true ∨ (s.refused c total target).g.flash_request = true) := by
    simp [System.refused,no_flash]
  refine ⟨?_,fun either => absurd either none_,?_,?_,?_,?_,?_,?_⟩
  · refine good_update inv.good rfl ?_ (fun _ _ _ _ ok => by simp [no_post] at ok)
    rintro hs same
    obtain rfl := Option.some.inj same
    exact .inr (.inl ⟨rfl,rfl,.inr ⟨rfl,rfl⟩⟩)
  · exact fun requested => absurd (.inr requested) none_
  · exact fun ok => absurd (.inl ok) none_
  · exact fun either => absurd either none_
  · exact fun either => absurd either none_
  · exact inv.reboots
  · intro f flash
    rw [System.refused,vacant] at flash
    cases flash

theorem inv_opened (inv : Inv s) (c base total : Nat) (target : Target) (pos : 0 < total)
    (idle : busy s.g = false) (vacant : s.flash = none) : Inv (s.opened c base total target) := by
  obtain ⟨no_post,no_flash,no_reboot,-⟩ := idle_flags idle
  refine ⟨?_,fun _ => no_reboot,?_,fun _ => Nat.zero_le total,fun _ => rfl,fun _ => ⟨c,rfl⟩,inv.reboots,?_⟩
  · refine good_update inv.good rfl ?_ (fun _ _ _ _ ok => by simp [no_post] at ok)
    rintro hs same
    obtain rfl := Option.some.inj same
    exact .inr (.inr ⟨total,pos,rfl,rfl,rfl,zero_add total⟩)
  · intro requested
    simp [System.opened,no_flash] at requested
  · intro f flash
    rw [System.opened,vacant] at flash
    cases flash

/-- Data is stored behind the rest of the body, or ends the upload. -/
theorem fed_cases (inv : Inv s) (pos : 0 < left)
    (found : s.conns c = some (uploading left)) (p : Pbuf) :
    (Fits p left ∧ s.fed c left p = { s with
      g := received s.g p
      conns := Function.update s.conns c (some (if tot_len p = left then answering true else uploading (left-tot_len p)))
      body := s.body ++ p.flatten }) ∨
    (¬ Fits p left ∧ ∃ ram off, off ≤ s.g.recv_total ∧ s.fed c left p = { s with
      g := { s.g with ram := ram, recv_off := off, post_ok := false, prog_phase := -1 }
      conns := Function.update s.conns c (some (answering true))
      body := s.body ++ p.flatten }) := by
  obtain ⟨ok,-,balance,apart,-⟩ := inv.uploading pos found
  rcases http_post_rxpbuf_upload p ok apart pos balance with ⟨fits,result⟩ | ⟨misfits,ram,off,low,result⟩
  · exact .inl ⟨fits,by rw [System.fed,result]⟩
  · exact .inr ⟨misfits,ram,off,low,by rw [System.fed,result]⟩

theorem holds_received (holds : Holds s) (p : Pbuf) :
    load (received s.g p).ram s.g.recv_base (received s.g p).recv_off = s.body ++ p.flatten := by
  rw [Holds] at holds
  simp only [received,tot_len_eq,load_append]
  rw [load_store_apart s.g.ram (.inl le_rfl),holds,load_store]

theorem inv_fed (inv : Inv s) (pos : 0 < left)
    (found : s.conns c = some (uploading left)) (p : Pbuf) : Inv (s.fed c left p) := by
  obtain ⟨ok,owner,balance,apart,unrequested,vacant⟩ := inv.uploading pos found
  have unowned : ∀ d, d ≠ c → s.uploader ≠ some d := by
    intro d other mine
    exact other (Option.some.inj (mine.symm.trans owner))
  rcases fed_cases inv pos found p with ⟨fits,result⟩ | ⟨-,ram,off,low,result⟩
  · rw [result]
    have short := fits.tot_len_le
    refine ⟨?_,fun _ => apart,?_,?_,fun _ => holds_received (inv.holds (.inl ok)) p,fun _ => ⟨c,owner⟩,inv.reboots,?_⟩
    · refine good_update inv.good rfl ?_ (fun d other _ _ _ mine => absurd mine (unowned d other))
      rintro hs same
      obtain rfl := Option.some.inj same
      by_cases last : tot_len p = left
      · rw [if_pos last]
        exact .inr (.inl (answered_answering true))
      · rw [if_neg last]
        exact .inr (.inr ⟨left-tot_len p,by omega,rfl,ok,owner,by simp only [received]; omega⟩)
    · intro requested
      simp [received,unrequested] at requested
    · intro _
      simp only [received]
      omega
    · intro f flash
      simp [vacant] at flash
  · rw [result]
    have none_ : ¬ (false = true ∨ s.g.flash_request = true) := by simp [unrequested]
    refine ⟨?_,fun either => absurd either none_,?_,?_,fun either => absurd either none_,?_,inv.reboots,?_⟩
    · refine good_update inv.good rfl ?_ (fun d other _ _ _ mine => absurd mine (unowned d other))
      rintro hs same
      obtain rfl := Option.some.inj same
      exact .inr (.inl (answered_answering true))
    · exact fun requested => absurd (.inr requested) none_
    · intro impossible
      cases impossible
    · exact fun either => absurd either none_
    · intro f flash
      simp [vacant] at flash

theorem inv_abandoned (inv : Inv s) (pos : 0 < left)
    (found : s.conns c = some (uploading left)) : Inv (s.abandoned c) := by
  obtain ⟨ok,owner,balance,apart,unrequested,vacant⟩ := inv.uploading pos found
  have none_ : ¬ (false = true ∨ s.g.flash_request = true) := by simp [unrequested]
  refine ⟨?_,fun either => absurd either none_,?_,?_,fun either => absurd either none_,?_,inv.reboots,?_⟩
  · refine good_update inv.good rfl (by simp) ?_
    intro d other _ _ _ mine
    exact absurd (Option.some.inj (mine.symm.trans owner)) other
  · exact fun requested => absurd (.inr requested) none_
  · intro impossible
    cases impossible
  · exact fun either => absurd either none_
  · intro f flash
    simp [System.abandoned,vacant] at flash

theorem inv_completed (inv : Inv s) (c : Nat) (result : Int) : Inv (s.completed c result) := by
  -- A complete upload has no bytes to come, so no connection sends any.
  have sent : Complete s.g → ∀ left, 0 < left → s.g.recv_off+left ≠ s.g.recv_total := by
    rintro ⟨_,_,reached⟩ left pos
    omega
  rcases httpd_post_response_complete_cases s.g result with
    ⟨pending,_,same⟩ | ⟨pending,_,same⟩ | ⟨apart,complete,_,same⟩ | ⟨apart,complete,_,same⟩ | ⟨_,_,same⟩
  · rw [System.completed,same]
    have idle : ¬ (s.g.post_ok = true ∨ s.g.flash_request = true) := by
      intro either
      simp [inv.exclusive either] at pending
    refine ⟨?_,fun either => absurd either idle,inv.requested,inv.bounded,inv.holds,inv.uploads,?_,?_⟩
    · exact good_update inv.good rfl (by simp) (fun _ _ _ _ ok owner balance => ⟨ok,owner,balance⟩)
    · intro impossible
      cases impossible
    · intro f flash
      simp [(inv.flashing f flash).no_reboot] at pending
  · rw [System.completed,same]
    refine ⟨?_,inv.exclusive,inv.requested,inv.bounded,inv.holds,inv.uploads,inv.reboots,?_⟩
    · exact good_update inv.good rfl (by simp) (fun _ _ _ _ ok owner balance => ⟨ok,owner,balance⟩)
    · intro f flash
      simp [(inv.flashing f flash).no_reboot] at pending
  · rw [System.completed,same]
    have vacant : ∀ f, s.flash = some f → False := by
      intro f flash
      simpa [complete.1] using (inv.flashing f flash).ended
    refine ⟨?_,fun _ => apart,inv.requested,?_,?_,?_,inv.reboots,fun f flash => (vacant f flash).elim⟩
    · exact good_update inv.good rfl (by simp) (fun _ _ left pos _ _ balance => absurd balance (sent complete left pos))
    · intro impossible
      cases impossible
    · exact fun _ => inv.holds (.inl complete.1)
    · exact fun _ => inv.uploads (.inl complete.1)
  · rw [System.completed,same]
    refine ⟨?_,fun _ => apart,fun _ => complete.2.2,inv.bounded,?_,?_,inv.reboots,?_⟩
    · exact good_update inv.good rfl (by simp) (fun _ _ _ _ ok owner balance => ⟨ok,owner,balance⟩)
    · exact fun _ => inv.holds (.inl complete.1)
    · exact fun _ => inv.uploads (.inl complete.1)
    · intro f flash
      simpa [complete.1] using (inv.flashing f flash).ended
  · rw [System.completed,same]
    exact inv_quiet inv c (by simp)

theorem inv_callback (inv : Inv s) (callback : Callback s c e s') : Inv s' := by
  cases callback with
  | ignored => exact inv
  | quiet hs' settled => exact inv_quiet inv c settled
  | rebooting idle vacant => exact inv_rebooting inv c idle vacant
  | refused idle vacant total target => exact inv_refused inv c total target idle vacant
  | opened idle vacant base total target pos => exact inv_opened inv c base total target pos idle vacant
  | fed_first idle vacant base total target pos p =>
    exact inv_fed (inv_opened inv c base total target pos idle vacant) pos (by simp [System.opened]) p
  | fed left pos found p => exact inv_fed inv pos found p
  | abandoned left pos found => exact inv_abandoned inv pos found
  | completed result hs served found pending => exact inv_completed inv c result

theorem inv_step (inv : Inv s) (e : Event) : Inv (step s e) := by
  cases about : e.conn with
  | some c => exact inv_callback inv (step_callback inv about)
  | none =>
    cases e with
    | accept c | recv c p parsed | closed c result => cases about
    | timer =>
      rw [step]
      split
      · refine ⟨inv.good,inv.exclusive,inv.requested,inv.bounded,inv.holds,inv.uploads,inv.reboots,?_⟩
        intro f flash
        have old := inv.flashing f flash
        exact ⟨old.refuses,old.ended,old.taken,old.no_reboot,old.image,old.image_size,old.holds⟩
      · exact inv
    | flash =>
      rw [step]
      split
      · rename_i enters
        have none_ : ¬ (false = true ∨ false = true) := by simp
        refine ⟨?_,fun either => absurd either none_,?_,?_,fun either => absurd either none_,
          fun either => absurd either none_,inv.reboots,?_⟩
        · intro c hs found
          refine (inv.good c hs found).keep ?_
          intro left pos _ _ balance
          have reached := inv.requested enters.2
          omega
        · intro impossible
          cases impossible
        · intro impossible
          cases impossible
        · rintro f flash
          obtain rfl := Option.some.inj flash
          exact ⟨by simp,rfl,rfl,inv.exclusive (.inr enters.2),rfl,rfl,inv.holds (.inr enters.2)⟩
      · exact inv
    | phase write =>
      rw [step]
      cases flash : s.flash with
      | none => exact inv
      | some f =>
        have old := inv.flashing f flash
        refine ⟨inv.good,inv.exclusive,inv.requested,inv.bounded,inv.holds,inv.uploads,inv.reboots,?_⟩
        rintro f' same
        obtain rfl := Option.some.inj same
        refine ⟨?_,old.ended,old.taken,old.no_reboot,old.image,old.image_size,old.holds⟩
        cases write <;> simp
    | flashed success =>
      rw [step]
      cases flash : s.flash with
      | none => exact inv
      | some f =>
        cases success with
        | true | false =>
          exact ⟨inv.good,inv.exclusive,inv.requested,inv.bounded,inv.holds,inv.uploads,inv.reboots,by simp⟩

theorem inv_start (recv_base : Nat) (target : Target) (ram : Nat → UInt8) : Inv (start recv_base target ram) := by
  constructor <;> simp [start]

theorem inv_from (inv : Inv s) (events : List Event) : Inv (run step s events) := by
  have keeps : ∀ s e, Inv s → True → Inv (step s e) := fun _ e inv _ => inv_step inv e
  exact invariant keeps inv (along_of_forall (fun _ _ => trivial) _ _)

/-- What every reachable state satisfies. -/
theorem inv_run (recv_base : Nat) (target : Target) (ram : Nat → UInt8) (events : List Event) :
    Inv (run step (start recv_base target ram) events) :=
  inv_from (inv_start recv_base target ram) events

/-- The end of a response on a connection with one. -/
theorem step_completed (inv : Inv s) (served : s.served = true)
    (found : s.conns c = some hs) (pending : hs.post_response_pending = true) (result : Int) :
    step s (.closed c result) = s.completed c result := by
  rcases inv.good c hs found with rfl | done | ⟨left,pos,rfl,_⟩
  · cases pending
  · rw [step_closed served found,http_close_conn_answered s.g result done,if_pos pending,System.completed]
  · cases pending

/-- The events of `c` since `s`, when nothing was under way, were its upload: it
    is now in state `hs`, and for the others nothing has changed. -/
structure Sends (s : System) (c : Nat) (hs : Http) (t : System) : Prop where
  inv : Inv t
  vacant : t.flash = none
  conns : t.conns = Function.update s.conns c (some hs)
  owner : t.uploader = some c
  unrequested : t.g.flash_request = false
  apart : t.g.reboot_post_pending = false
  stays : t.g.reboot_request = false
  timers : t.g.timers = s.g.timers

theorem Sends.found (sends : Sends s c hs t) : t.conns c = some hs := by
  rw [sends.conns,update_self]

theorem Sends.served {s t : System} {c : Nat} {hs : Http} (sends : Sends s c hs t) : t.served = true := by
  simp [System.served,sends.vacant]

/-- A piece that is not the last. -/
theorem Sends.piece (sends : Sends s c (uploading left) t) {q : List UInt8}
    (short : q.length < left) (parsed : Parsed) :
    Sends s c (uploading (left-q.length)) (step t (.recv c [q] parsed)) := by
  have pos : 0 < left := by omega
  have inv := inv_step sends.inv (.recv c [q] parsed)
  have total : tot_len [q] = q.length := by simp [tot_len]
  rw [step_recv_uploading sends.served sends.found pos] at inv ⊢
  rcases fed_cases sends.inv pos sends.found [q] with ⟨-,result⟩ | ⟨misfits,-⟩
  · rw [total,if_neg (by omega)] at result
    rw [result] at inv ⊢
    refine ⟨inv,sends.vacant,?_,sends.owner,sends.unrequested,sends.apart,sends.stays,sends.timers⟩
    simp only [sends.conns,update_idem]
  · exact absurd ⟨pos,by omega,trivial⟩ misfits

theorem Sends.pieces (sends : Sends s c (uploading left) t) (q : List UInt8)
    (parsed : Parsed) (n : Nat) (short : n*q.length < left) :
    Sends s c (uploading (left-n*q.length)) (run step t (replicate n (.recv c [q] parsed))) := by
  induction n generalizing t left with
  | zero => simpa using sends
  | succ n ih =>
    rw [replicate_succ,run_cons]
    have product : (n+1)*q.length = n*q.length+q.length := Nat.succ_mul n q.length
    have rest := ih (sends.piece (q := q) (by omega) parsed) (by omega)
    rwa [Nat.sub_sub,add_comm q.length,← product] at rest

/-- The last piece completes the upload. -/
theorem Sends.last (sends : Sends s c (uploading left) t) {q : List UInt8}
    (pos : 0 < left) (exact_ : q.length = left) (parsed : Parsed) :
    Sends s c (answering true) (step t (.recv c [q] parsed)) ∧ Complete (step t (.recv c [q] parsed)).g := by
  have inv := inv_step sends.inv (.recv c [q] parsed)
  have total : tot_len [q] = left := by simp [tot_len,exact_]
  obtain ⟨ok,-,balance,-⟩ := sends.inv.uploading pos sends.found
  rw [step_recv_uploading sends.served sends.found pos] at inv ⊢
  rcases fed_cases sends.inv pos sends.found [q] with ⟨-,result⟩ | ⟨misfits,-⟩
  · rw [if_pos total] at result
    rw [result] at inv ⊢
    refine ⟨⟨inv,sends.vacant,?_,sends.owner,sends.unrequested,sends.apart,sends.stays,sends.timers⟩,ok,?_⟩
    · simp only [sends.conns,update_idem]
    · simp only [received,total]
      omega
  · exact absurd ⟨pos,by omega,trivial⟩ misfits

/-- A last piece that is too long ends the upload, and then nothing is under
    way. -/
theorem Sends.overrun (sends : Sends s c (uploading left) t) {q : List UInt8}
    (pos : 0 < left) (long : left < q.length) (parsed : Parsed) :
    Sends s c (answering true) (step t (.recv c [q] parsed)) ∧ busy (step t (.recv c [q] parsed)).g = false := by
  have inv := inv_step sends.inv (.recv c [q] parsed)
  rw [step_recv_uploading sends.served sends.found pos] at inv ⊢
  rcases fed_cases sends.inv pos sends.found [q] with ⟨fits,-⟩ | ⟨-,ram,off,-,result⟩
  · exact absurd fits.2.1 (by omega)
  · rw [result] at inv ⊢
    refine ⟨⟨inv,sends.vacant,?_,sends.owner,sends.unrequested,sends.apart,sends.stays,sends.timers⟩,?_⟩
    · simp only [sends.conns,update_idem]
    · simp [busy,sends.unrequested,sends.apart,sends.stays]

/-- A board with 1 GiB of memory. -/
def sample_board : Board where
  active := false
  version := []
  target_max := fun _ => 0x10000000
  recovery_max := 0
  recovery_addr := 0
  loadaddr := 0x81800000
  sys_load_addr := 0x81800000
  ram_base := 0x80000000
  ram_size := 0x40000000

def upload_header (c : Nat) : Event := .recv c [] (.post sample_board "/upload/firmware".toList 0x100000 none)

def piece (c len : Nat) : Event := .recv c [List.replicate len 0] .in_progress

def pieces (c n len : Nat) : List Event := List.replicate n (piece c len)

/-- The upload of 1 MiB in pieces of 1 KiB, with a last piece of the given
    length. -/
def upload_events (c last : Nat) : List Event :=
  [.accept c,upload_header c] ++ pieces c 1023 1024 ++ [piece c last]

theorem begin_upload_sample (g : Shared) :
    begin_upload g sample_board "/upload/firmware".toList 0x100000 = (ERR_OK,{ g with
      recv_base := 0x81800000, recv_off := 0, recv_total := 0x100000, current_target := .TARGET_FIRMWARE,
      post_ok := true, prog_phase := 0 }) := by
  have target : upload_target "/upload/firmware".toList = some .TARGET_FIRMWARE := by decide
  have layout : recovery_parse_ubi_layout sample_board "/upload/firmware".toList = true := by decide
  have length : length_allowed sample_board .TARGET_FIRMWARE 0x100000 = true := by decide
  have base : upload_base sample_board 0x100000 = some 0x81800000 := by decide
  rw [begin_upload,target]
  dsimp only
  rw [layout,length,if_neg (by decide),if_neg (by decide)]
  rw [show (0x100000 : Int).toNat = 0x100000 from rfl,base]

theorem upload_but_last (inv : Inv s) (vacant : s.flash = none) (idle : busy s.g = false)
    (free : s.conns c = none) :
    Sends s c (uploading 1024) (run step s ([.accept c,upload_header c] ++ pieces c 1023 1024)) := by
  obtain ⟨-,unrequested,apart,stays,-⟩ := idle_flags idle
  have served : s.served = true := by simp [System.served,vacant]
  have accepted : step s (.accept c) = { s with conns := Function.update s.conns c (some http_state_init) } := by
    rw [step,if_pos ⟨served,free⟩]
  have opened : step (step s (.accept c)) (upload_header c) =
      (step s (.accept c)).opened c 0x81800000 0x100000 .TARGET_FIRMWARE := by
    rw [accepted]
    exact step_recv_upload (s := { s with conns := Function.update s.conns c (some http_state_init) }) served
      (update_self c _ _) [] none idle (by decide) (by decide) (begin_upload_sample s.g)
  have sends : Sends s c (uploading 0x100000) (step (step s (.accept c)) (upload_header c)) := by
    have inv' := inv_step (inv_step inv (.accept c)) (upload_header c)
    rw [opened,accepted] at inv' ⊢
    refine ⟨inv',vacant,?_,rfl,unrequested,apart,stays,rfl⟩
    simp only [System.opened,update_idem]
  have all := sends.pieces (replicate 1024 0) .in_progress 1023 (by rw [length_replicate]; decide)
  rw [length_replicate] at all
  rw [run_append]
  exact all

theorem upload_complete (inv : Inv s) (vacant : s.flash = none) (idle : busy s.g = false)
    (free : s.conns c = none) :
    Sends s c (answering true) (run step s (upload_events c 1024)) ∧ Complete (run step s (upload_events c 1024)).g := by
  rw [upload_events,run_append,run_cons,run_nil,piece]
  exact (upload_but_last inv vacant idle free).last (by decide) length_replicate .in_progress

theorem upload_overrun (inv : Inv s) (vacant : s.flash = none) (idle : busy s.g = false)
    (free : s.conns c = none) :
    Sends s c (answering true) (run step s (upload_events c 1025)) ∧
      busy (run step s (upload_events c 1025)).g = false := by
  rw [upload_events,run_append,run_cons,run_nil,piece]
  exact (upload_but_last inv vacant idle free).overrun (by decide) (by rw [length_replicate]; decide) .in_progress

def reboot_events (c : Nat) : List Event := [.accept c,.recv c [] (.post sample_board "/reboot".toList 0 none)]

theorem reboot_accepted (vacant : s.flash = none) (idle : busy s.g = false)
    (free : s.conns c = none) : run step s (reboot_events c) = s.rebooting c := by
  have served : s.served = true := by simp [System.served,vacant]
  have accepted : step s (.accept c) = { s with conns := Function.update s.conns c (some http_state_init) } := by
    rw [step,if_pos ⟨served,free⟩]
  rw [reboot_events,run_cons,run_cons,run_nil,accepted,
    step_recv_reboot (s := { s with conns := Function.update s.conns c (some http_state_init) }) served
      (update_self c _ _) [] sample_board none idle]
  simp only [System.rebooting,update_idem]

end UBoot.Recovery
