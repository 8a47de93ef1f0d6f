import Evering.Handoff.Frame

/-!
# The hand-off on Unix

The frame is one datagram and the descriptors are attached to it by `SCM_RIGHTS`. The kernel installs them in the receiving
process before `recvmsg` returns; they become owned, and so are closed when an error drops them, only when the loop of `recv` over
the control messages has collected them.
-/

namespace Evering.Handoff.Unix

open Word

abbrev Fd := Nat

structure Datagram where
  bytes : List UInt8
  fds : List Fd
  deriving DecidableEq

inductive Control
  | scmRights (fds : List Fd)
  | other
  deriving DecidableEq

def Control.fds : Control → List Fd
  | .scmRights fds => fds
  | .other => []

/-- What `recvmsg` returns: the bytes it wrote to the buffer, the control messages that fit and the two truncation flags. -/
structure Message where
  bytes : List UInt8
  fits : bytes.length ≤ header + maxBootstrap
  controls : List Control
  trunc : Bool
  ctrunc : Bool

/-- The descriptors that the kernel installed in the process -/
def Message.installed (message : Message) : List Fd := message.controls.flatMap Control.fds

/-- `RecvMsg::cmsgs` -/
def Message.cmsgs (message : Message) : Except Errno (List Control) :=
  if message.ctrunc then .error .enobufs else .ok message.controls

/-- A datagram arrives whole, or a truncation flag is set. -/
def Arrives (datagram : Datagram) (message : Message) : Prop :=
  message.trunc = true ∨ message.ctrunc = true ∨ (message.bytes = datagram.bytes ∧ message.installed = datagram.fds)

structure Offer where
  bootstrap : Bootstrap
  resources : List Fd

/-- The datagram that `send` passes to `sendmsg` -/
def datagram (bootstrap : Bootstrap) (resources : List Fd) : Datagram where
  bytes := frame bootstrap resources.length
  fds := resources

/-- The result of `send`, with the datagrams it passed to `sendmsg`. -/
structure Sending where
  result : Except Error Unit
  passed : List Datagram

def send (sendmsg : Datagram → Except Errno Nat) (bootstrap : Bootstrap) (resources : List Fd) : Sending :=
  if resources.length > maxResources then
    { result := .error (.new .invalidInput "too many resources"), passed := [] }
  else
    let message := datagram bootstrap resources
    match sendmsg message with
    | .error errno => { result := .error (.os errno), passed := [message] }
    | .ok sent =>
      if sent ≠ message.bytes.length then
        { result := .error (.new .writeZero "partial control datagram"), passed := [message] }
      else { result := .ok (), passed := [message] }

/-- `fcntl` with `FD_CLOEXEC` on each descriptor, up to the first that fails -/
def closeOnExec (fcntl : Fd → Except Errno Unit) : List Fd → Except Error Unit
  | [] => .ok ()
  | fd :: fds =>
    match fcntl fd with
    | .error errno => .error (.os errno)
    | .ok () => closeOnExec fcntl fds

/-- What `recv` does once it owns the descriptors -/
def check (message : Message) (fcntl : Fd → Except Errno Unit) (resources : List Fd) (expected : Nat) : Except Error Offer :=
  let bytes := fill (header + maxBootstrap) message.bytes
  let count := message.bytes.length
  if message.trunc || message.ctrunc then .error (invalid "truncated control datagram")
  else if count < header ∨ bytes.take 4 ≠ handoffMagic then .error (invalid "malformed control header")
  else if lenOf bytes > maxBootstrap ∨ count ≠ header + lenOf bytes then .error (invalid "malformed bootstrap length")
  else if declaredOf bytes > maxResources ∨ declaredOf bytes ≠ expected ∨ resources.length ≠ expected then
    .error (invalid "resource count mismatch")
  else
    match closeOnExec fcntl resources with
    | .error error => .error error
    | .ok () =>
      match Bootstrap.new (field bytes header (count - header)) with
      | .error _ => .error (invalid "bootstrap too large")
      | .ok bootstrap => .ok { bootstrap, resources }

/-- The result of `recv`, with the descriptors installed by its `recvmsg` and those it closed. -/
structure Receipt where
  result : Except Error Offer
  installed : List Fd
  closed : List Fd

def recv (recvmsg : Except Errno Message) (fcntl : Fd → Except Errno Unit) (expected : Nat) : Receipt :=
  if expected > maxResources then
    { result := .error (.new .invalidInput "too many expected resources"), installed := [], closed := [] }
  else
    match recvmsg with
    | .error errno => { result := .error (.os errno), installed := [], closed := [] }
    | .ok message =>
      match message.cmsgs with
      -- `?` leaves before any descriptor is owned
      | .error errno => { result := .error (.os errno), installed := message.installed, closed := [] }
      | .ok controls =>
        let resources := controls.flatMap Control.fds
        match check message fcntl resources expected with
        | .error error => { result := .error error, installed := message.installed, closed := resources }
        | .ok offer => { result := .ok offer, installed := message.installed, closed := [] }

/-! ### Framing -/

section Framing

variable {message : Message} {fcntl : Fd → Except Errno Unit} {expected : Nat} {offer : Offer}

theorem closeOnExec_ok (works : ∀ fd, fcntl fd = .ok ()) (fds : List Fd) : closeOnExec fcntl fds = .ok () := by
  induction fds with
  | nil => rfl
  | cons fd fds ih => rw [closeOnExec, works fd, ih]

theorem check_framed {bootstrap : Bootstrap} {resources : List Fd} (works : ∀ fd, fcntl fd = .ok ())
    (few : resources.length ≤ maxResources)
    (bytes : message.bytes = frame bootstrap resources.length) (trunc : message.trunc = false) (ctrunc : message.ctrunc = false) :
    check message fcntl resources resources.length = .ok { bootstrap, resources } := by
  have ⟨magic, len, declared, body⟩ := frame_reads bootstrap few (List.replicate (header + maxBootstrap - message.bytes.length) 0)
  rw [← bytes, ← fill] at magic len declared body
  have count : message.bytes.length = header + bootstrap.bytes.length := by rw [bytes, length_frame]
  have small := bootstrap.length_le
  simp only [check, trunc, ctrunc, magic, len, declared, count, Nat.add_sub_cancel_left, body, closeOnExec_ok works,
    Bootstrap.new_bytes]
  rw [if_neg (by decide), if_neg (by simp), if_neg (by omega), if_neg (by omega)]

theorem check_eq_ok {resources : List Fd} (accepted : check message fcntl resources expected = .ok offer) :
    (message.trunc = false ∧ message.ctrunc = false) ∧ message.bytes = frame offer.bootstrap expected ∧
      offer.resources = resources ∧
      resources.length = expected := by
  simp only [check, ite_error_eq_ok] at accepted
  obtain ⟨whole, framed, length, counts, accepted⟩ := accepted
  simp only [not_or, not_not, Nat.not_lt] at framed length counts
  have ⟨len, declared, magic⟩ := header_fill (header + maxBootstrap) framed.1
  rw [len] at length
  rw [declared] at counts
  split at accepted
  case h_1 => cases accepted
  case h_2 =>
    split at accepted
    case h_1 => cases accepted
    case h_2 bootstrap built =>
      cases accepted
      rw [length.2, Nat.add_sub_cancel_left, field_fill _ (by omega)] at built
      have framing := eq_frame (magic.symm.trans framed.2) (Nat.le_of_eq length.2.symm) bootstrap (Bootstrap.bytes_of_new built)
      rw [List.drop_eq_nil_of_le (Nat.le_of_eq length.2), List.append_nil, counts.2.1] at framing
      exact ⟨by simpa using whole, framing, rfl, counts.2.2⟩

theorem recv_eq_ok {recvmsg : Except Errno Message} (accepted : (recv recvmsg fcntl expected).result = .ok offer) :
    ∃ message, recvmsg = .ok message ∧ check message fcntl message.installed expected = .ok offer := by
  unfold recv at accepted
  split at accepted
  · cases accepted
  · split at accepted
    · cases accepted
    · rename_i message
      refine ⟨message, rfl, ?_⟩
      split at accepted
      · cases accepted
      · rename_i controls opened
        have same : controls = message.controls := by
          unfold Message.cmsgs at opened
          split at opened <;> cases opened
          rfl
        subst same
        dsimp only at accepted
        split at accepted
        · cases accepted
        · rename_i passed
          cases accepted
          exact passed

variable {sendmsg : Datagram → Except Errno Nat} {bootstrap : Bootstrap} {resources : List Fd}

theorem send_passed (few : resources.length ≤ maxResources) :
    (send sendmsg bootstrap resources).passed = [datagram bootstrap resources] := by
  unfold send
  rw [if_neg (Nat.not_lt.mpr few)]
  dsimp only
  split
  · rfl
  · split <;> rfl

theorem send_eq_ok (few : resources.length ≤ maxResources) : (send sendmsg bootstrap resources).result = .ok () ↔
    sendmsg (datagram bootstrap resources) = .ok (datagram bootstrap resources).bytes.length := by
  unfold send
  rw [if_neg (Nat.not_lt.mpr few)]
  dsimp only
  cases sendmsg (datagram bootstrap resources) with
  | error errno => simp
  | ok sent => by_cases whole : sent = (datagram bootstrap resources).bytes.length <;> simp [whole]

theorem few_of_passed {sent : Datagram} (passed : sent ∈ (send sendmsg bootstrap resources).passed) :
    resources.length ≤ maxResources := by
  by_contra many
  rw [send, if_pos (Nat.not_le.mp many)] at passed
  cases passed

/-- `send` passes one datagram to `sendmsg`, which is received as it was given, and `recv` accepts no other one. -/
theorem handoff_round_trip :
    (∀ sendmsg bootstrap resources, resources.length ≤ maxResources →
      (send sendmsg bootstrap resources).passed = [datagram bootstrap resources] ∧
      (datagram bootstrap resources).bytes.length ≤ header + maxBootstrap ∧
      ((send sendmsg bootstrap resources).result = .ok () ↔
        sendmsg (datagram bootstrap resources) = .ok (datagram bootstrap resources).bytes.length)) ∧
    (∀ sendmsg bootstrap resources sent message fcntl, sent ∈ (send sendmsg bootstrap resources).passed →
      (∀ fd, fcntl fd = .ok ()) → message.trunc = false → message.ctrunc = false → Arrives sent message →
      (recv (.ok message) fcntl resources.length).result = .ok { bootstrap, resources }) ∧
    ∀ sent message fcntl expected offer, Arrives sent message →
      (recv (.ok message) fcntl expected).result = .ok offer →
      sent = datagram offer.bootstrap offer.resources ∧ offer.resources.length = expected ∧ sent.fds.length = expected := by
  refine ⟨?_, ?_, ?_⟩
  · intro sendmsg bootstrap resources few
    have small := bootstrap.length_le
    exact ⟨send_passed few, by simpa [datagram] using small, send_eq_ok few⟩
  · intro sendmsg bootstrap resources sent message fcntl passed works trunc ctrunc arrives
    have few := few_of_passed passed
    rw [send_passed few, List.mem_singleton] at passed
    subst passed
    simp only [Arrives, trunc, ctrunc, Bool.false_eq_true, false_or] at arrives
    have installed : message.controls.flatMap Control.fds = resources := arrives.2
    simp [recv, Nat.not_lt.mpr few, Message.cmsgs, ctrunc, installed, check_framed works few arrives.1 trunc ctrunc]
  · intro sent message fcntl expected offer arrives accepted
    obtain ⟨_, same, passed⟩ := recv_eq_ok accepted
    cases same
    have ⟨whole, framed, resources, count⟩ := check_eq_ok passed
    simp only [Arrives, whole, Bool.false_eq_true, false_or] at arrives
    rw [← arrives.2, count]
    refine ⟨?_, by rw [resources, count], rfl⟩
    obtain ⟨bytes, fds⟩ := sent
    rw [datagram, resources, count, Datagram.mk.injEq]
    exact ⟨arrives.1.symm.trans framed, arrives.2.symm⟩

/-- Three bytes and two descriptors, which the receiver gets in two control messages -/
theorem handoff_round_trip_two :
    let bootstrap : Bootstrap := ⟨[1, 2, 3], by decide⟩
    let message : Message := ⟨frame bootstrap 2, by decide, [.scmRights [5], .other, .scmRights [6]], false, false⟩
    (recv (.ok message) (fun _ => .ok ()) 2).result = .ok { bootstrap, resources := [5, 6] } := by
  intro bootstrap message
  exact handoff_round_trip.2.1 (fun sent => .ok sent.bytes.length) bootstrap [5, 6] (datagram bootstrap [5, 6]) message
    (fun _ => .ok ()) (by rw [send_passed (by decide)]; exact List.mem_singleton_self _) (fun _ => rfl) rfl rfl
    (.inr (.inr ⟨rfl, rfl⟩))

end Framing

/-! ### Receipt -/

section Receipt

variable {fcntl : Fd → Except Errno Unit} {expected : Nat}

theorem recv_truncated {message : Message} (few : expected ≤ maxResources) (ctrunc : message.ctrunc = true) :
    recv (.ok message) fcntl expected = { result := .error (.os .enobufs), installed := message.installed, closed := [] } := by
  simp [recv, Nat.not_lt.mpr few, Message.cmsgs, ctrunc]

theorem recv_whole {message : Message} (few : expected ≤ maxResources) (ctrunc : message.ctrunc = false) {error : Error}
    (failed : (recv (.ok message) fcntl expected).result = .error error) :
    (recv (.ok message) fcntl expected).closed = (recv (.ok message) fcntl expected).installed := by
  simp only [recv, Nat.not_lt.mpr few, if_false, Message.cmsgs, ctrunc, Bool.false_eq_true] at failed ⊢
  cases passed : check message fcntl (message.controls.flatMap Control.fds) expected with
  | error _ => rfl
  | ok offer => simp [passed] at failed

/-- All or nothing: `recv` closes what was installed whenever it fails, except exactly when descriptors were installed and
the control messages were truncated. -/
theorem recv_closes (recvmsg : Except Errno Message) (fcntl : Fd → Except Errno Unit) (expected : Nat) :
    (∀ error, (recv recvmsg fcntl expected).result = .error error →
      (recv recvmsg fcntl expected).closed = (recv recvmsg fcntl expected).installed) ↔
    (expected ≤ maxResources → ∀ message, recvmsg = .ok message → message.ctrunc = true → message.installed = []) := by
  constructor
  · rintro closes few message rfl ctrunc
    have closed := closes (.os .enobufs) (by rw [recv_truncated few ctrunc])
    rw [recv_truncated few ctrunc] at closed
    exact closed.symm
  · intro whole error failed
    by_cases few : expected ≤ maxResources
    · cases recvmsg with
      | error errno => simp [recv, Nat.not_lt.mpr few]
      | ok message =>
        cases ctrunc : message.ctrunc with
        | true => rw [recv_truncated few ctrunc, whole few message rfl ctrunc]
        | false => exact recv_whole few ctrunc failed
    · simp [recv, Nat.not_le.mp few]

end Receipt

/-- A datagram with a wrong header -/
theorem recv_closes_malformed :
    (recv (.ok ⟨[0], by decide, [.scmRights [7, 8]], false, false⟩) (fun _ => .ok ()) 2).closed = [7, 8] :=
  (recv_closes (.ok ⟨[0], by decide, [.scmRights [7, 8]], false, false⟩) (fun _ => .ok ()) 2).mpr (by rintro - _ ⟨⟩ ⟨⟩)
    (invalid "malformed control header") rfl

/-- Nine descriptors are attached to an otherwise well-formed datagram: eight fit and are installed, and `recv` closes none. -/
theorem recv_leaks_truncated :
    let empty : Bootstrap := ⟨[], by decide⟩
    let sent := datagram empty [3, 4, 5, 6, 7, 8, 9, 10, 11]
    let message : Message := ⟨sent.bytes, by decide, [.scmRights (sent.fds.take maxResources)], false, true⟩
    let receipt := recv (.ok message) (fun _ => .ok ()) 8
    receipt.result = .error (.os .enobufs) ∧ receipt.installed = [3, 4, 5, 6, 7, 8, 9, 10] ∧ receipt.closed = [] :=
  ⟨rfl, rfl, rfl⟩

end Evering.Handoff.Unix
