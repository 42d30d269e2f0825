import UBoot.RecoveryRuns

/-!
Whose request the callbacks of a connection act on. The handlers do not look at
the connection that they are called for, so the end of a response is taken for
the end of the request that is under way. A run in which every such end is that
of the connection whose request it is treats every request as its owner's
alone, and no other run does (`requests_owned_iff`).
-/
namespace UBoot.Recovery
open UBoot.Memory UBoot.Runs

/-- An accepted request of the connection is not over: its upload is received,
    waits or is flashed, or its reboot is pending. -/
def Outstanding (s : System) (c : Nat) : Prop :=
  ((s.g.post_ok = true ∨ s.g.flash_request = true ∨ s.flash.isSome = true) ∧ s.uploader = some c) ∨
    (s.g.reboot_post_pending = true ∧ s.rebooter = some c)

/-- The event reports that the response of `c` was acknowledged. -/
def Acknowledges (s : System) (e : Event) (c : Nat) : Prop :=
  e = .closed c ERR_OK ∧ ∃ hs, s.conns c = some hs ∧ hs.post_response_pending = true

/-- The upload or the reboot is given up, or the page shows an error. -/
def Cancels (g g' : Shared) : Prop :=
  (g.post_ok = true ∧ g'.post_ok = false) ∨ (g.reboot_post_pending = true ∧ g'.reboot_post_pending = false) ∨
    (g.prog_phase ≠ -1 ∧ g'.prog_phase = -1)

/-- Flashing is requested by the acknowledgement of the upload, the timer of a
    reboot is armed by that of the reboot or after flashing, and a callback
    cancels no request of another connection. -/
structure Owned (s : System) (e : Event) : Prop where
  flash : s.g.flash_request = false → (step s e).g.flash_request = true →
    ∃ c, Acknowledges s e c ∧ s.uploader = some c
  reboot : s.g.timers < (step s e).g.timers →
    (∃ c, Acknowledges s e c ∧ s.rebooter = some c) ∨ e = .flashed true
  cancel : ∀ d, e.conn = some d → Cancels s.g (step s e).g → ∀ c, Outstanding s c → c = d

/-- The end of a response, if it is about a request that is under way, is
    reported for the connection of this request. -/
def Timely (s : System) (e : Event) : Prop :=
  ∀ d result hs, e = .closed d result → s.served = true → s.conns d = some hs → hs.post_response_pending = true →
    (s.g.reboot_post_pending = true → s.rebooter = some d) ∧
    (s.g.reboot_post_pending = false → Complete s.g → (result = ERR_OK → s.g.flash_request = false) →
      s.uploader = some d)

variable {e : Event} {s : System}

theorem owned_of_same (flash : (step s e).g.flash_request = s.g.flash_request)
    (timers : (step s e).g.timers ≤ s.g.timers) (cancel : ∀ d, e.conn = some d → Cancels s.g (step s e).g →
      ∀ c, Outstanding s c → c = d) : Owned s e where
  flash := fun before after => by simp [flash,before] at after
  reboot := fun more => absurd more (by omega)
  cancel := cancel

theorem not_cancels {g : Shared} : ¬ Cancels g g := by
  rintro (⟨on,off⟩ | ⟨on,off⟩ | ⟨on,off⟩)
  · simp [on] at off
  · simp [on] at off
  · exact on off

theorem not_outstanding (idle : busy s.g = false) (vacant : s.flash = none) (c : Nat) :
    ¬ Outstanding s c := by
  obtain ⟨no_post,no_flash,no_reboot,-⟩ := idle_flags idle
  simp [Outstanding,no_post,no_flash,no_reboot,vacant]

theorem outstanding_uploading (inv : Inv s) {c left : Nat} (pos : 0 < left)
    (found : s.conns c = some (uploading left)) {d : Nat} (outstanding : Outstanding s d) : d = c := by
  obtain ⟨-,owner,-,apart,-⟩ := inv.uploading pos found
  rcases outstanding with ⟨-,mine⟩ | ⟨pending,-⟩
  · exact Option.some.inj (mine.symm.trans owner)
  · simp [apart] at pending

theorem fed_same (inv : Inv s) {c left : Nat} (pos : 0 < left)
    (found : s.conns c = some (uploading left)) (p : Pbuf) :
    (s.fed c left p).g.flash_request = s.g.flash_request ∧ (s.fed c left p).g.timers = s.g.timers := by
  rcases fed_cases inv pos found p with ⟨-,result⟩ | ⟨-,ram,off,-,result⟩
  · rw [result]
    exact ⟨rfl,rfl⟩
  · rw [result]
    exact ⟨rfl,rfl⟩

theorem owned_completed (inv : Inv s) {c : Nat} {result : Int} {hs : Http} (served : s.served = true)
    (found : s.conns c = some hs) (pending : hs.post_response_pending = true)
    (same : step s (.closed c result) = s.completed c result) (timely : Timely s (.closed c result)) :
    Owned s (.closed c result) := by
  obtain ⟨reboot,upload⟩ := timely c result hs rfl served found pending
  -- Of all requests only the one that the response belongs to is outstanding.
  have owner : ∀ d, s.uploader = some c → s.g.reboot_post_pending = false → Outstanding s d → d = c := by
    rintro d mine apart (⟨-,his⟩ | ⟨on,-⟩)
    · exact Option.some.inj (his.symm.trans mine)
    · simp [apart] at on
  rcases httpd_post_response_complete_cases s.g result with
    ⟨on,failed,ends⟩ | ⟨on,rfl,ends⟩ | ⟨apart,complete,failed,ends⟩ | ⟨apart,complete,rfl,ends⟩ | ⟨_,_,ends⟩
  · refine owned_of_same ?_ ?_ ?_
    · rw [same,System.completed,ends]
    · rw [same,System.completed,ends]
    · rintro d about - d' (⟨either,-⟩ | ⟨-,his⟩)
      · exfalso
        rcases either with ok | requested | flashing
        · simp [inv.exclusive (.inl ok)] at on
        · simp [inv.exclusive (.inr requested)] at on
        · obtain ⟨f,flash⟩ := Option.isSome_iff_exists.mp flashing
          simp [(inv.flashing f flash).no_reboot] at on
      · obtain rfl := Option.some.inj about
        exact Option.some.inj (his.symm.trans (reboot on))
  · refine ⟨?_,?_,?_⟩
    · intro before after
      rw [same,System.completed,ends] at after
      simp [before] at after
    · intro _
      exact .inl ⟨c,⟨rfl,hs,found,pending⟩,reboot on⟩
    · intro d _ cancels
      rw [same,System.completed,ends] at cancels
      rcases cancels with ⟨yes,no⟩ | ⟨yes,no⟩ | ⟨yes,no⟩
      · simp [yes] at no
      · simp [yes] at no
      · exact absurd no yes
  · refine owned_of_same ?_ ?_ ?_
    · rw [same,System.completed,ends]
    · rw [same,System.completed,ends]
    · intro d about _ d' outstanding
      obtain rfl := Option.some.inj about
      exact owner d' (upload apart complete (fun ok => absurd ok failed)) apart outstanding
  · refine ⟨?_,?_,?_⟩
    · intro before _
      exact ⟨c,⟨rfl,hs,found,pending⟩,upload apart complete (fun _ => before)⟩
    · intro more
      rw [same,System.completed,ends] at more
      exact absurd more (lt_irrefl _)
    · intro d _ cancels
      rw [same,System.completed,ends] at cancels
      rcases cancels with ⟨yes,no⟩ | ⟨yes,no⟩ | ⟨yes,no⟩
      · simp [yes] at no
      · simp [yes] at no
      · exact absurd no yes
  · have unchanged : (step s (.closed c result)).g = s.g := by rw [same,System.completed,ends]
    exact owned_of_same (by rw [unchanged]) (by rw [unchanged])
      (fun d _ cancels => absurd (unchanged ▸ cancels) not_cancels)

theorem owned_callback {s s' : System} (inv : Inv s) {c : Nat} (about : e.conn = some c)
    (after : step s e = s') (callback : Callback s c e s') (timely : Timely s e) : Owned s e := by
  -- A callback that finds nothing under way has nobody's request to cancel.
  have alone : busy s.g = false → s.flash = none → ∀ d, e.conn = some d → Cancels s.g (step s e).g →
      ∀ d', Outstanding s d' → d' = d :=
    fun idle vacant _ _ _ d' outstanding => absurd outstanding (not_outstanding idle vacant d')
  have own : ∀ left, 0 < left → s.conns c = some (uploading left) → ∀ d, e.conn = some d →
      Cancels s.g (step s e).g → ∀ d', Outstanding s d' → d' = d := by
    intro left pos found d same _ d' outstanding
    obtain rfl := Option.some.inj (about.symm.trans same)
    exact outstanding_uploading inv pos found outstanding
  cases callback with
  | ignored =>
    exact owned_of_same (by rw [after]) (by rw [after]) (fun d _ cancels => absurd (after ▸ cancels) not_cancels)
  | quiet hs' settled =>
    exact owned_of_same (by rw [after]) (by rw [after])
      (fun d _ cancels => absurd (by rw [after] at cancels; exact cancels) not_cancels)
  | rebooting idle vacant => exact owned_of_same (by rw [after]; rfl) (by rw [after]; rfl) (alone idle vacant)
  | refused idle vacant total target | opened idle vacant base total target pos =>
    exact owned_of_same (by rw [after]; rfl) (by rw [after]; rfl) (alone idle vacant)
  | fed_first idle vacant base total target pos p =>
    have found : (s.opened c base total target).conns c = some (uploading total) := by simp [System.opened]
    have fed := fed_same (inv_opened inv c base total target pos idle vacant) pos found p
    exact owned_of_same (by rw [after]; exact fed.1) (by rw [after]; exact fed.2.le) (alone idle vacant)
  | fed left pos found p =>
    have fed := fed_same inv pos found p
    exact owned_of_same (by rw [after]; exact fed.1) (by rw [after]; exact fed.2.le) (own left pos found)
  | abandoned left pos found =>
    exact owned_of_same (by rw [after]; rfl) (by rw [after]; rfl) (own left pos found)
  | completed result hs served found pending => exact owned_completed inv served found pending after timely

theorem owned_of_timely (inv : Inv s) (timely : Timely s e) : Owned s e := by
  cases about : e.conn with
  | some c => exact owned_callback inv about rfl (step_callback inv about) timely
  | none =>
    have nobody : ∀ d, e.conn = some d → Cancels s.g (step s e).g → ∀ c, Outstanding s c → c = d := by
      intro d impossible
      rw [about] at impossible
      cases impossible
    cases e with
    | accept c | recv c p parsed | closed c result => cases about
    | timer =>
      refine owned_of_same ?_ ?_ nobody
      · rw [step]
        split <;> rfl
      · rw [step]
        split
        · exact Nat.sub_le _ 1
        · exact le_rfl
    | flash =>
      refine ⟨?_,?_,nobody⟩
      · intro before after
        rw [step] at after
        split at after
        · cases after
        · simp [before] at after
      · intro more
        rw [step] at more
        split at more <;> exact absurd more (lt_irrefl _)
    | phase write =>
      refine owned_of_same ?_ ?_ nobody
      · rw [step]
        split <;> rfl
      · rw [step]
        split <;> exact le_rfl
    | flashed success =>
      refine ⟨?_,?_,nobody⟩
      · intro before after
        rw [step] at after
        split at after
        · split at after <;> simp [before] at after
        · simp [before] at after
      · intro more
        cases success with
        | true => exact .inr rfl
        | false =>
          rw [step] at more
          split at more <;> exact absurd more (lt_irrefl _)

theorem timely_of_owned (inv : Inv s) (owned : Owned s e) : Timely s e := by
  rintro d result hs rfl served found pending
  have after := step_completed inv served found pending result
  rcases httpd_post_response_complete_cases s.g result with
    ⟨on,_,ends⟩ | ⟨on,rfl,ends⟩ | ⟨apart,complete,failed,ends⟩ | ⟨apart,complete,rfl,ends⟩ | ⟨apart,part,_⟩
  · obtain ⟨c,mine⟩ := inv.reboots on
    have cleared : (step s (.closed d result)).g.reboot_post_pending = false := by rw [after,System.completed,ends]
    obtain rfl := owned.cancel d rfl (.inr (.inl ⟨on,cleared⟩)) c (.inr ⟨on,mine⟩)
    exact ⟨fun _ => mine,fun off => by simp [on] at off⟩
  · have armed : (step s (.closed d ERR_OK)).g.timers = s.g.timers+1 := by rw [after,System.completed,ends]
    refine ⟨fun _ => ?_,fun off => by simp [on] at off⟩
    rcases owned.reboot (by omega) with ⟨c,⟨same,_⟩,owner⟩ | impossible
    · obtain ⟨rfl,-⟩ := Event.closed.inj same
      exact owner
    · cases impossible
  · obtain ⟨c,mine⟩ := inv.uploads (.inl complete.1)
    have cleared : (step s (.closed d result)).g.post_ok = false := by rw [after,System.completed,ends]
    obtain rfl := owned.cancel d rfl (.inl ⟨complete.1,cleared⟩) c (.inl ⟨.inl complete.1,mine⟩)
    exact ⟨fun on => by simp [apart] at on,fun _ _ _ => mine⟩
  · have requests : (step s (.closed d ERR_OK)).g.flash_request = true := by rw [after,System.completed,ends]
    refine ⟨fun on => by simp [apart] at on,fun _ _ unrequested => ?_⟩
    obtain ⟨c,⟨same,_⟩,owner⟩ := owned.flash (unrequested rfl) requests
    obtain ⟨rfl,-⟩ := Event.closed.inj same
    exact owner
  · exact ⟨fun on => by simp [apart] at on,fun _ complete => absurd complete part⟩

/-- In a run of the server every request is acted on for its owner only, exactly
    if every response whose end is reported while a request is under way is that
    of this request. -/
theorem requests_owned_iff (recv_base : Nat) (target : Target) (ram : Nat → UInt8) (events : List Event) :
    Along step Owned (start recv_base target ram) events ↔ Along step Timely (start recv_base target ram) events := by
  have keeps : ∀ s e, Inv s → Timely s e → Inv (step s e) := fun _ e inv _ => inv_step inv e
  have same : ∀ s e, Inv s → (Owned s e ↔ Timely s e) :=
    fun _ _ inv => ⟨timely_of_owned inv,owned_of_timely inv⟩
  exact along_iff keeps same (inv_start recv_base target ram)

theorem late_not_owned {s t : System} {c d : Nat} (sends : Sends s d (answering true) t) (idle : busy t.g = false)
    (other : d ≠ c) : ¬ Owned (t.rebooting c) (.closed d ERR_ABRT) := by
  intro owned
  have inv := inv_rebooting sends.inv c idle sends.vacant
  have found : (t.rebooting c).conns d = some (answering true) :=
    (Function.update_of_ne other _ _).trans sends.found
  have after := step_completed inv sends.served found rfl ERR_ABRT
  have cancels : Cancels (t.rebooting c).g (step (t.rebooting c) (.closed d ERR_ABRT)).g := by
    rw [after]
    exact .inr (.inl ⟨rfl,rfl⟩)
  exact other (owned.cancel d rfl cancels c (.inr ⟨rfl,rfl⟩)).symm

/-- An upload that is longer than announced is answered with an error, and the
    answer is lost after another connection has asked for a reboot. -/
def late_events : List Event := upload_events 0 1025 ++ reboot_events 1 ++ [.closed 0 ERR_ABRT]

/-- The late end of the response cancels the reboot of the other connection. -/
theorem late_response_not_owned :
    ¬ Along step Owned (start 0 .TARGET_FIRMWARE (fun _ => 0)) late_events := by
  intro along
  rw [late_events,along_append,run_append] at along
  obtain ⟨sends,idle⟩ := upload_overrun (inv_start 0 .TARGET_FIRMWARE (fun _ => 0)) rfl rfl (c := 0) rfl
  have free : (run step (start 0 .TARGET_FIRMWARE (fun _ => 0)) (upload_events 0 1025)).conns 1 = none := by
    rw [sends.conns,Function.update_of_ne (by decide)]
    rfl
  rw [reboot_accepted sends.vacant idle free] at along
  exact late_not_owned sends idle (by decide) along.2.1

end UBoot.Recovery
