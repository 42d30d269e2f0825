import UBoot.RecoveryRuns

/-!
`flash_image` serves the network while it erases and writes. Until it returns no
callback of any connection touches the image or the variables that it and the
loop around it go by; what can is a reboot timer that was armed before it was
entered (`flash_isolated_iff`).
-/
namespace UBoot.Recovery
open UBoot.Memory UBoot.Runs

def Event.returns : Event → Bool
  | .flashed _ => true
  | _ => false

structure Untouched (g g' : Shared) : Prop where
  recv_base : g'.recv_base = g.recv_base
  recv_off : g'.recv_off = g.recv_off
  recv_total : g'.recv_total = g.recv_total
  current_target : g'.current_target = g.current_target
  flash_request : g'.flash_request = g.flash_request
  reboot_request : g'.reboot_request = g.reboot_request
  bytes : load g'.ram g.recv_base g.recv_off = load g.ram g.recv_base g.recv_off

/-- From the state in which `flash_image` is entered until it returns, whatever
    happens: what it goes by stays, the buffer holds the body that was accepted,
    and no callback changes the phase. -/
def Isolated (s : System) : Prop :=
  ∀ during : List Event, (∀ e ∈ during, e.returns = false) →
    let entered := step s .flash
    let now := run step entered during
    Untouched entered.g now.g ∧ load now.g.ram s.g.recv_base s.g.recv_off = s.body ∧
      ∀ e, e.conn.isSome = true → (step now e).g.prog_phase = now.g.prog_phase

theorem Untouched.trans {g g' g'' : Shared} (first : Untouched g g') (second : Untouched g' g'') : Untouched g g'' where
  recv_base := second.recv_base.trans first.recv_base
  recv_off := second.recv_off.trans first.recv_off
  recv_total := second.recv_total.trans first.recv_total
  current_target := second.current_target.trans first.current_target
  flash_request := second.flash_request.trans first.flash_request
  reboot_request := second.reboot_request.trans first.reboot_request
  bytes := by
    have bytes := second.bytes
    rw [first.recv_base,first.recv_off] at bytes
    exact bytes.trans first.bytes

theorem Untouched.refl (g : Shared) : Untouched g g := ⟨rfl,rfl,rfl,rfl,rfl,rfl,rfl⟩

variable {c : Nat} {s : System}

theorem callback_flashing (inv : Inv s) {f : Flash} (flash : s.flash = some f) {e : Event}
    (about : e.conn = some c) :
    (step s e).g = s.g ∧ (step s e).flash = s.flash ∧ (step s e).body = s.body := by
  have flashing := inv.flashing f flash
  have occupied : s.flash ≠ none := by simp [flash]
  -- An upload under way would have to be one that `flash_image` has not ended.
  have sending : ∀ left, 0 < left → s.conns c ≠ some (uploading left) := by
    intro left pos found
    exact occupied (inv.uploading pos found).2.2.2.2.2
  generalize after : step s e = s'
  have callback := step_callback inv about
  rw [after] at callback
  cases callback with
  | ignored | quiet hs' settled => exact ⟨rfl,rfl,rfl⟩
  | rebooting idle vacant | refused idle vacant total target => exact absurd vacant occupied
  | opened idle vacant base total target pos => exact absurd vacant occupied
  | fed_first idle vacant base total target pos p => exact absurd vacant occupied
  | fed left pos found p | abandoned left pos found => exact absurd found (sending left pos)
  | completed result hs served found pending =>
    refine ⟨?_,rfl,rfl⟩
    rcases httpd_post_response_complete_cases s.g result with
      ⟨on,-⟩ | ⟨on,-⟩ | ⟨-,complete,-⟩ | ⟨-,complete,-⟩ | ⟨-,-,same⟩
    · simp [flashing.no_reboot] at on
    · simp [flashing.no_reboot] at on
    · exact absurd complete.1 (by simp [flashing.ended])
    · exact absurd complete.1 (by simp [flashing.ended])
    · exact same

/-- The state of the server while `flash_image` works, if no timer can still
    change what is requested. -/
structure Undisturbed (s : System) : Prop where
  inv : Inv s
  flashing : s.flash.isSome = true
  quiet : s.g.timers = 0 ∨ s.g.reboot_request = true

theorem undisturbed_step (calm : Undisturbed s) {e : Event} (stays : e.returns = false) :
    Undisturbed (step s e) ∧ Untouched s.g (step s e).g ∧ (step s e).body = s.body := by
  obtain ⟨f,flash⟩ := Option.isSome_iff_exists.mp calm.flashing
  have inv := inv_step calm.inv e
  cases about : e.conn with
  | some c =>
    obtain ⟨same,flash',body⟩ := callback_flashing calm.inv flash about
    refine ⟨⟨inv,by rw [flash']; exact calm.flashing,by rw [same]; exact calm.quiet⟩,?_,body⟩
    rw [same]
    exact .refl s.g
  | none =>
    cases e with
    | accept c | recv c p parsed | closed c result => cases about
    | timer =>
      by_cases fires : s.served = true ∧ 0 < s.g.timers
      · have requested : s.g.reboot_request = true := by
          rcases calm.quiet with none_ | requested
          · omega
          · exact requested
        have after : step s .timer = { s with g := reboot_delay_cb { s.g with timers := s.g.timers-1 } } := by
          rw [step,if_pos fires]
        rw [after] at inv ⊢
        exact ⟨⟨inv,calm.flashing,.inr rfl⟩,⟨rfl,rfl,rfl,rfl,rfl,requested.symm,rfl⟩,rfl⟩
      · have after : step s .timer = s := by rw [step,if_neg fires]
        rw [after]
        exact ⟨calm,.refl s.g,rfl⟩
    | flash =>
      have after : step s .flash = s := by simp [step,flash]
      rw [after]
      exact ⟨calm,.refl s.g,rfl⟩
    | phase write =>
      have after : step s (.phase write) = { s with
          g := { s.g with prog_phase := if write then 2 else 1 }, flash := some { f with serves := true } } := by
        simp only [step,flash]
      rw [after] at inv ⊢
      exact ⟨⟨inv,rfl,calm.quiet⟩,⟨rfl,rfl,rfl,rfl,rfl,rfl,rfl⟩,rfl⟩
    | flashed success => cases stays

theorem undisturbed_run (calm : Undisturbed s) {during : List Event}
    (stay : ∀ e ∈ during, e.returns = false) :
    Undisturbed (run step s during) ∧ Untouched s.g (run step s during).g ∧ (run step s during).body = s.body := by
  induction during generalizing s with
  | nil => exact ⟨calm,.refl s.g,rfl⟩
  | cons e rest ih =>
    obtain ⟨next,first,body⟩ := undisturbed_step calm (stay e List.mem_cons_self)
    obtain ⟨last,second,body'⟩ := ih next (fun e later => stay e (List.mem_cons_of_mem _ later))
    exact ⟨last,first.trans second,body'.trans body⟩

theorem step_flash (vacant : s.flash = none) (requested : s.g.flash_request = true) :
    step s .flash = { s with
      g := { s.g with flash_request := false, post_ok := false }
      flash := some ⟨s.g.recv_base,s.g.recv_off,false⟩ } := by
  rw [step,if_pos ⟨by simp [vacant],requested⟩]

theorem not_isolated (vacant : s.flash = none) (requested : s.g.flash_request = true)
    (armed : 0 < s.g.timers) (stays : s.g.reboot_request = false) : ¬ Isolated s := by
  intro isolated
  have reboot := (isolated [.phase false,.timer] (by simp [Event.returns])).1.reboot_request
  rw [run_cons,run_cons,run_nil,step_flash vacant requested] at reboot
  simp [step,System.served,armed,reboot_delay_cb,stays] at reboot

theorem isolated_iff (inv : Inv s) (vacant : s.flash = none) (requested : s.g.flash_request = true) :
    Isolated s ↔ s.g.timers = 0 ∨ s.g.reboot_request = true := by
  constructor
  · intro isolated
    by_contra neither
    simp only [not_or,Bool.not_eq_true] at neither
    exact not_isolated vacant requested (by omega) neither.2 isolated
  intro quiet during stay
  have entered := step_flash vacant requested
  have calm : Undisturbed (step s .flash) :=
    ⟨inv_step inv .flash,by rw [entered]; rfl,by rw [entered]; exact quiet⟩
  obtain ⟨last,untouched,body⟩ := undisturbed_run calm stay
  obtain ⟨f,flash⟩ := Option.isSome_iff_exists.mp last.flashing
  refine ⟨untouched,?_,?_⟩
  · have holds := (last.inv.flashing f flash).holds
    rw [Holds,untouched.recv_base,untouched.recv_off,body,entered] at holds
    rw [entered]
    exact holds
  · intro e callback
    obtain ⟨c,about⟩ := Option.isSome_iff_exists.mp callback
    rw [(callback_flashing last.inv flash about).1]

/-- In every run of the server, flashing is isolated from the network exactly if
    no reboot timer is armed when `flash_image` is entered, or the reboot is
    requested already. -/
theorem flash_isolated_iff (recv_base : Nat) (target : Target) (ram : Nat → UInt8) (events : List Event)
    (vacant : (run step (start recv_base target ram) events).flash = none)
    (requested : (run step (start recv_base target ram) events).g.flash_request = true) :
    Isolated (run step (start recv_base target ram) events) ↔
      (run step (start recv_base target ram) events).g.timers = 0 ∨
        (run step (start recv_base target ram) events).g.reboot_request = true :=
  isolated_iff (inv_run recv_base target ram events) vacant requested

theorem upload_acknowledged {s t : System} (sends : Sends s c (answering true) t) (complete : Complete t.g) :
    (step t (.closed c ERR_OK)).flash = none ∧ (step t (.closed c ERR_OK)).g.flash_request = true ∧
      (step t (.closed c ERR_OK)).g.timers = s.g.timers ∧ (step t (.closed c ERR_OK)).g.reboot_request = false := by
  rw [step_completed sends.inv sends.served sends.found rfl,System.completed]
  rcases httpd_post_response_complete_cases t.g ERR_OK with
    ⟨on,-⟩ | ⟨on,-⟩ | ⟨-,-,failed,-⟩ | ⟨-,-,-,same⟩ | ⟨-,part,-⟩
  · simp [sends.apart] at on
  · simp [sends.apart] at on
  · exact absurd rfl failed
  · rw [same]
    exact ⟨sends.vacant,rfl,sends.timers,sends.stays⟩
  · exact absurd complete part

theorem upload_run_acknowledged {events : List Event}
    (upload : Sends s c (answering true) (run step s events) ∧ Complete (run step s events).g) :
    (run step s (events ++ [.closed c ERR_OK])).flash = none ∧
      (run step s (events ++ [.closed c ERR_OK])).g.flash_request = true ∧
      (run step s (events ++ [.closed c ERR_OK])).g.timers = s.g.timers ∧
      (run step s (events ++ [.closed c ERR_OK])).g.reboot_request = false := by
  rw [run_append]
  exact upload_acknowledged upload.1 upload.2

/-- An upload and its acknowledgement, from the start of the server. -/
theorem upload_isolated :
    Isolated (run step (start 0 .TARGET_FIRMWARE (fun _ => 0)) (upload_events 0 1024 ++ [.closed 0 ERR_OK])) := by
  have upload := upload_complete (inv_start 0 .TARGET_FIRMWARE (fun _ => 0)) rfl rfl (c := 0) rfl
  obtain ⟨vacant,requested,timers,-⟩ := upload_run_acknowledged upload
  exact (flash_isolated_iff 0 .TARGET_FIRMWARE (fun _ => 0) _ vacant requested).mpr (.inl timers)

theorem cancelled_reboot_armed {s t : System} {c d : Nat} (sends : Sends s d (answering true) t)
    (idle : busy t.g = false) (other : d ≠ c) :
    run step (t.rebooting c) [.closed c ERR_OK,.closed d ERR_ABRT] = { t.rebooting c with
      g := { t.g with reboot_post_pending := false, reboot_request := false, timers := t.g.timers+1 }
      conns := Function.update (Function.update (t.rebooting c).conns c none) d none } := by
  have inv := inv_rebooting sends.inv c idle sends.vacant
  have answered : (t.rebooting c).conns c = some (answering false) := Function.update_self c _ _
  have first := step_completed inv sends.served answered rfl ERR_OK
  have late : ((t.rebooting c).completed c ERR_OK).conns d = some (answering true) :=
    (Function.update_of_ne other _ _).trans ((Function.update_of_ne other _ _).trans sends.found)
  have second := step_completed (inv_completed inv c ERR_OK) sends.served late rfl ERR_ABRT
  rw [run_cons,run_cons,run_nil,first,second]
  rfl

theorem armed_run {failing uploading : List Event} (empty : ∀ c, s.conns c = none)
    (failed : Sends s 0 (answering true) (run step s failing) ∧ busy (run step s failing).g = false)
    (uploads : ∀ t, Inv t → t.flash = none → busy t.g = false → t.conns 2 = none →
      Sends t 2 (answering true) (run step t uploading) ∧ Complete (run step t uploading).g) :
    let events := failing ++ reboot_events 1 ++ [.closed 1 ERR_OK,.closed 0 ERR_ABRT] ++ (uploading ++ [.closed 2 ERR_OK])
    (run step s events).flash = none ∧ (run step s events).g.flash_request = true ∧ ¬ Isolated (run step s events) := by
  obtain ⟨sends,idle⟩ := failed
  have free : ∀ c, c ≠ 0 → (run step s failing).conns c = none := by
    intro c other
    rw [sends.conns,Function.update_of_ne other]
    exact empty c
  obtain ⟨no_post,unrequested,-,-,phase⟩ := idle_flags idle
  have cancelled := cancelled_reboot_armed sends idle (c := 1) (by decide)
  have third := uploads (run step ((run step s failing).rebooting 1) [.closed 1 ERR_OK,.closed 0 ERR_ABRT])
    (inv_from (inv_rebooting sends.inv 1 idle sends.vacant) _)
    (by rw [cancelled]; exact sends.vacant)
    (by rw [cancelled]; simp [busy,no_post,unrequested,phase])
    (by rw [cancelled]; simp [System.rebooting,Function.update,free 2])
  obtain ⟨vacant,requested,timers,stays⟩ := upload_run_acknowledged third
  have armed : 0 < (run step ((run step s failing).rebooting 1) [.closed 1 ERR_OK,.closed 0 ERR_ABRT]).g.timers := by
    rw [cancelled]
    exact Nat.succ_pos _
  intro events
  have split : run step s events = run step (run step ((run step s failing).rebooting 1)
      [.closed 1 ERR_OK,.closed 0 ERR_ABRT]) (uploading ++ [.closed 2 ERR_OK]) := by
    rw [run_append step s (failing ++ reboot_events 1 ++ _),run_append step s (failing ++ _),run_append step s failing,
      reboot_accepted sends.vacant idle (free 1 (by decide))]
  rw [split]
  exact ⟨vacant,requested,not_isolated vacant requested (by rw [timers]; exact armed) stays⟩

/-- An upload fails with its response unacknowledged, a second connection has its
    reboot accepted and acknowledged, the first is lost, and a third uploads an
    image. -/
def armed_events : List Event :=
  upload_events 0 1025 ++ reboot_events 1 ++ [.closed 1 ERR_OK,.closed 0 ERR_ABRT] ++
    (upload_events 2 1024 ++ [.closed 2 ERR_OK])

/-- The third connection's image is flashed with the timer of the reboot armed. -/
theorem armed_not_isolated :
    (run step (start 0 .TARGET_FIRMWARE (fun _ => 0)) armed_events).flash = none ∧
      (run step (start 0 .TARGET_FIRMWARE (fun _ => 0)) armed_events).g.flash_request = true ∧
      ¬ Isolated (run step (start 0 .TARGET_FIRMWARE (fun _ => 0)) armed_events) := by
  have failed := upload_overrun (inv_start 0 .TARGET_FIRMWARE (fun _ => 0)) rfl rfl (c := 0) rfl
  have armed := armed_run (fun _ => rfl) failed (fun t inv vacant idle free => upload_complete inv vacant idle free)
  rw [armed_events]
  exact armed

end UBoot.Recovery
