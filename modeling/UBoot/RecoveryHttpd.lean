import UBoot.RecoveryPosts
import UBoot.Runs

/-!
The recovery server as a whole: the connections of `lwip/src/apps/http/httpd.c`
with their POST state, the callbacks that they issue to the POST handlers, the
timers, and the loop of `run_http_recovery` with `flash_image`, which serves the
network while it works. The response pages exist, and a connection serves one
request. Who sent the request that is under way, and the bytes of its body, are
recorded beside the state of the program.
-/
namespace UBoot.Recovery
open UBoot.Memory UBoot.Runs

def ERR_ABRT : Int := -13
def ERR_CLSD : Int := -15

/-- The part of `struct http_state` that POST requests use. -/
structure Http where
  handle : Bool
  post_content_len_left : Nat
  unrecved_bytes : Nat
  no_auto_wnd : Bool
  post_finished : Bool
  post_response_pending : Bool
  deriving DecidableEq, Repr

def http_state_init : Http := ⟨false,0,0,false,false,false⟩

def http_handle_post_finished (hs : Http) (g : Shared) : Http × Shared :=
  if hs.post_finished then (hs,g)
  else ({ hs with post_finished := true, post_response_pending := true, handle := true },httpd_post_finished g)

def httpd_post_data_recved (hs : Http) (g : Shared) (recved_len : Nat) : Http × Shared :=
  if hs.no_auto_wnd then
    let hs := { hs with unrecved_bytes := hs.unrecved_bytes-recved_len }
    if hs.post_content_len_left = 0 ∧ hs.unrecved_bytes = 0 then http_handle_post_finished hs g else (hs,g)
  else (hs,g)

def http_post_rxpbuf (hs : Http) (g : Shared) (p : Pbuf) : Http × Shared :=
  let hs := { hs with
    post_content_len_left := hs.post_content_len_left-tot_len p, unrecved_bytes := hs.unrecved_bytes+1 }
  let (err,recved,g) := httpd_post_receive_data g p
  let (hs,g) := if recved ≠ 0 then httpd_post_data_recved hs g recved else (hs,g)
  let hs := { hs with unrecved_bytes := hs.unrecved_bytes-1 }
  let hs := if err ≠ ERR_OK then { hs with post_content_len_left := 0 } else hs
  if hs.post_content_len_left = 0 then
    if hs.unrecved_bytes ≠ 0 then (hs,g) else http_handle_post_finished hs g
  else (hs,g)

/-- A POST header is complete; the body that came with it, if any, is passed
    on. -/
def http_post_request (hs : Http) (g : Shared) (board : Board) (uri : List Char) (content_len : Nat) (q : Option Pbuf) :
    Http × Shared :=
  let (err,post_auto_wnd,g) := httpd_post_begin g board uri content_len
  if err = ERR_OK then
    let hs := { hs with no_auto_wnd := !post_auto_wnd, post_content_len_left := content_len }
    match q with
    | some q =>
      let hs := if post_auto_wnd then hs else { hs with unrecved_bytes := tot_len q }
      http_post_rxpbuf hs g q
    | none => if hs.post_content_len_left = 0 then http_post_rxpbuf hs g [[]] else (hs,g)
  else ({ hs with handle := true },g)

/-- What `http_parse_request` makes of the data of a connection. -/
inductive Parsed where
  | in_progress
  | failed
  | get
  | post (board : Board) (uri : List Char) (content_len : Nat) (q : Option Pbuf)

def http_post_response_notify (hs : Http) (g : Shared) (result : Int) : Http × Shared :=
  if hs.post_response_pending then
    ({ hs with post_response_pending := false },httpd_post_response_complete g result)
  else (hs,g)

def http_post_connection_closed (hs : Http) (g : Shared) : Shared :=
  if hs.post_finished then g
  else if hs.post_content_len_left ≠ 0 ∨ (hs.no_auto_wnd ∧ hs.unrecved_bytes ≠ 0) then httpd_post_finished g
  else g

/-- The end of a connection, after its response was acknowledged or for some
    other reason. -/
def http_close_conn (hs : Http) (g : Shared) (result : Int) : Shared :=
  let (hs,g) := http_post_response_notify hs g result
  http_post_connection_closed hs g

/-- Data arrives; the connection is gone when its request could not be
    parsed. -/
def http_recv (hs : Http) (g : Shared) (p : Pbuf) (parsed : Parsed) : Option Http × Shared :=
  let hs := if hs.no_auto_wnd then { hs with unrecved_bytes := hs.unrecved_bytes+tot_len p } else hs
  if hs.post_content_len_left > 0 then
    let (hs,g) := http_post_rxpbuf hs g p
    (some hs,g)
  else if hs.handle then (some hs,g)
  else
    match parsed with
    | .in_progress => (some hs,g)
    | .failed => (none,http_close_conn hs g ERR_CLSD)
    | .get => (some { hs with handle := true },g)
    | .post board uri content_len q =>
      let (hs,g) := http_post_request hs g board uri content_len q
      (some hs,g)

/-- The body of an upload is expected, with `left` bytes to come. -/
def uploading (left : Nat) : Http := ⟨false,left,0,true,false,false⟩

/-- The response to a POST that was accepted waits for its acknowledgement. -/
def answering (no_auto_wnd : Bool) : Http := ⟨true,0,0,no_auto_wnd,true,true⟩

/-- The request was served; of a POST that was accepted the end was reported. -/
def Answered (hs : Http) : Prop :=
  hs.handle = true ∧ hs.post_content_len_left = 0 ∧
    (hs.post_finished = true ∨ (hs.no_auto_wnd = false ∧ hs.post_response_pending = false))

theorem answered_answering (no_auto_wnd : Bool) : Answered (answering no_auto_wnd) := ⟨rfl,rfl,.inl rfl⟩

/-- Data of an upload: the bytes that the handler takes are no longer counted,
    and the end is reported at most once, after the handler returned. -/
theorem http_post_rxpbuf_upload {g : Shared} {left : Nat} (p : Pbuf) (ok : g.post_ok = true)
    (apart : g.reboot_post_pending = false) (open_ : 0 < left) (balance : g.recv_off+left = g.recv_total) :
    (Fits p left ∧ http_post_rxpbuf { uploading left with unrecved_bytes := tot_len p } g p =
      (if tot_len p = left then answering true else uploading (left-tot_len p),received g p)) ∨
    (¬ Fits p left ∧ ∃ ram off, off ≤ g.recv_total ∧
      http_post_rxpbuf { uploading left with unrecved_bytes := tot_len p } g p =
        (answering true,{ g with ram := ram, recv_off := off, post_ok := false, prog_phase := -1 })) := by
  have counted : ∀ g' : Shared,
      (if tot_len p ≠ 0 then
        httpd_post_data_recved ⟨false,left-tot_len p,tot_len p+1,true,false,false⟩ g' (tot_len p)
      else (⟨false,left-tot_len p,tot_len p+1,true,false,false⟩,g')) =
      (⟨false,left-tot_len p,1,true,false,false⟩,g') := by
    intro g'
    by_cases empty : tot_len p = 0
    · simp [empty]
    · simp [empty,httpd_post_data_recved]
  have room : g.recv_total-g.recv_off = left := by omega
  rcases httpd_post_receive_data_cases p ok apart (by omega) with ⟨fits,taken⟩ | ⟨misfits,ram,off,low,taken⟩
  · rw [room] at fits
    have short := fits.tot_len_le
    refine .inl ⟨fits,?_⟩
    simp only [http_post_rxpbuf,uploading,taken,counted]
    by_cases last : tot_len p = left
    · -- The announced length is reached, so the handler finds the upload complete.
      have complete : httpd_post_finished (received g p) = received g p := by
        rw [httpd_post_finished,if_neg (by simp [received,apart]),if_pos]
        simp only [received,ok,true_and]
        omega
      simp [last,http_handle_post_finished,answering,complete]
    · have more : left-tot_len p ≠ 0 := by omega
      simp [last,more]
  · rw [room] at misfits
    refine .inr ⟨misfits,ram,off,low,?_⟩
    have refused : ERR_ARG ≠ ERR_OK := by decide
    simp only [http_post_rxpbuf,uploading,taken,counted]
    simp [refused,http_handle_post_finished,httpd_post_finished,answering,apart]

/-- The empty body of a reboot. -/
theorem http_post_rxpbuf_reboot {g : Shared} (p : Pbuf) (pending : g.reboot_post_pending = true) :
    http_post_rxpbuf http_state_init g p = (answering false,g) := by
  simp [http_post_rxpbuf,http_state_init,httpd_post_receive_data,pending,http_handle_post_finished,
    httpd_post_finished,answering]

/-- Further data changes nothing once the request was served. -/
theorem http_recv_answered {hs : Http} (g : Shared) (p : Pbuf) (parsed : Parsed) (done : Answered hs) :
    ∃ hs', http_recv hs g p parsed = (some hs',g) ∧ Answered hs' := by
  obtain ⟨handle,left,ended⟩ := done
  by_cases manual : hs.no_auto_wnd = true
  · refine ⟨{ hs with unrecved_bytes := hs.unrecved_bytes+tot_len p },?_,handle,left,ended⟩
    simp [http_recv,manual,left,handle]
  · exact ⟨hs,by simp [http_recv,manual,left,handle],handle,left,ended⟩

/-- The end of a connection whose request was served reports at most the end of
    the response. -/
theorem http_close_conn_answered {hs : Http} (g : Shared) (result : Int) (done : Answered hs) :
    http_close_conn hs g result =
      if hs.post_response_pending then httpd_post_response_complete g result else g := by
  obtain ⟨-,left,ended⟩ := done
  rcases ended with finished | ⟨automatic,quiet⟩
  · by_cases pending : hs.post_response_pending = true
    · simp [http_close_conn,http_post_response_notify,http_post_connection_closed,finished,pending]
    · simp [http_close_conn,http_post_response_notify,http_post_connection_closed,finished,pending]
  · simp [http_close_conn,http_post_response_notify,http_post_connection_closed,left,automatic,quiet]

/-- The end of a connection in the middle of its upload ends the upload. -/
theorem http_close_conn_uploading {g : Shared} {left : Nat} (result : Int) (apart : g.reboot_post_pending = false)
    (open_ : 0 < left) (balance : g.recv_off+left = g.recv_total) :
    http_close_conn (uploading left) g result = { g with post_ok := false, prog_phase := -1 } := by
  have part : ¬ (g.post_ok = true ∧ g.recv_total ≠ 0 ∧ g.recv_off ≥ g.recv_total) := by omega
  have some_left : left ≠ 0 := by omega
  simp [http_close_conn,http_post_response_notify,http_post_connection_closed,uploading,some_left,
    httpd_post_finished,apart,part]

/-- `flash_image` at work: the image that it was entered with, and whether it
    has begun to erase, from when on it serves the network. -/
structure Flash where
  image : Nat
  image_size : Nat
  serves : Bool

/-- The variables and connections; then the connection whose upload they
    describe with the bytes of its body, and the one whose reboot was
    accepted. -/
structure System where
  g : Shared
  conns : Nat → Option Http
  flash : Option Flash
  uploader : Option Nat
  body : List UInt8
  rebooter : Option Nat

inductive Event where
  | accept (c : Nat)
  | recv (c : Nat) (p : Pbuf) (parsed : Parsed)
  | closed (c : Nat) (result : Int)
  | timer
  | flash
  | phase (write : Bool)
  | flashed (success : Bool)

def Event.conn : Event → Option Nat
  | .accept c => some c
  | .recv c _ _ => some c
  | .closed c _ => some c
  | _ => none

/-- The network is served by the loop, or by `flash_image`. -/
def System.served (s : System) : Bool := s.flash.all (·.serves)

def System.posted (s : System) (c : Nat) (board : Board) (uri : List Char) (content_len : Nat) (q : Option Pbuf) : System :=
  let accepted := decide ((httpd_post_begin s.g board uri content_len).1 = ERR_OK)
  if uri = "/reboot".toList then if accepted then { s with rebooter := some c } else s
  else if busy s.g then s
  else if accepted then { s with uploader := some c, body := (q.getD []).flatten }
  else { s with uploader := none, body := [] }

def System.recorded (s : System) (c : Nat) (hs : Http) (p : Pbuf) (parsed : Parsed) : System :=
  if hs.post_content_len_left > 0 then { s with body := s.body ++ p.flatten }
  else if hs.handle then s
  else
    match parsed with
    | .post board uri content_len q => s.posted c board uri content_len q
    | _ => s

def step (s : System) (e : Event) : System :=
  match e with
  | .accept c =>
    if s.served ∧ s.conns c = none then { s with conns := Function.update s.conns c (some http_state_init) } else s
  | .recv c p parsed =>
    match s.served, s.conns c with
    | true, some hs =>
      let (hs',g) := http_recv hs s.g p parsed
      { s.recorded c hs p parsed with g := g, conns := Function.update s.conns c hs' }
    | _, _ => s
  | .closed c result =>
    match s.served, s.conns c with
    | true, some hs => { s with g := http_close_conn hs s.g result, conns := Function.update s.conns c none }
    | _, _ => s
  | .timer =>
    if s.served ∧ 0 < s.g.timers then { s with g := reboot_delay_cb { s.g with timers := s.g.timers-1 } } else s
  | .flash =>
    if s.flash.isNone ∧ s.g.flash_request then
      { s with
        g := { s.g with flash_request := false, post_ok := false }
        flash := some ⟨s.g.recv_base,s.g.recv_off,false⟩ }
    else s
  | .phase write =>
    match s.flash with
    | some f =>
      { s with g := { s.g with prog_phase := if write then 2 else 1 }, flash := some { f with serves := true } }
    | none => s
  | .flashed success =>
    match s.flash with
    | some _ =>
      if success then
        { s with g := { s.g with prog_phase := 3, reboot_request := false, timers := s.g.timers+1 }, flash := none }
      else { s with g := { s.g with prog_phase := -1 }, flash := none }
    | none => s

def start (recv_base : Nat) (target : Target) (ram : Nat → UInt8) : System where
  g := ⟨recv_base,0,0,target,false,false,false,false,0,0,ram⟩
  conns := fun _ => none
  flash := none
  uploader := none
  body := []
  rebooter := none

end UBoot.Recovery
