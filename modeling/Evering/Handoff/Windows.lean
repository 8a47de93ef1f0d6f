import Evering.Handoff.Frame
import Evering.Target

/-!
# The hand-off on Windows

Handles are duplicated into the child, and their values follow the bootstrap in the message. The receiver reads the message into a
zeroed buffer for the longest one and takes handles from all of the buffer that lies behind the bootstrap.
-/

namespace Evering.Handoff.Windows

open Word List

variable (T : Target)

abbrev Handle := BitVec T.bits

/-- `size_of::<usize>()` -/
def wordBytes : Nat := T.bits / 8

def maxMessage : Nat := header + maxBootstrap + maxResources * wordBytes T

variable {T}

structure Offer (T : Target) where
  bootstrap : Bootstrap
  resources : List (Handle T)

/-- What `send` did: the message it has written, and the handles it has closed again in the child -/
structure Sent (T : Target) where
  result : Except Error Unit
  written : Option (List UInt8)
  rolledBack : List (Handle T)

def message (bootstrap : Bootstrap) (remote : List (Handle T)) : List UInt8 :=
  frame bootstrap remote.length ++ (remote.map BitVec.toNat).flatMap (toLe (wordBytes T))

/-- The loop over the resources; on failure, what was duplicated before -/
def duplicateAll {ρ : Type} (duplicate : ρ → Except Errno (Handle T)) :
    List ρ → List (Handle T) → Except (Errno × List (Handle T)) (List (Handle T))
  | [], remote => .ok remote
  | resource :: resources, remote =>
    match duplicate resource with
    | .error errno => .error (errno, remote)
    | .ok duplicated => duplicateAll duplicate resources (remote ++ [duplicated])

def send {ρ : Type} (duplicate : ρ → Except Errno (Handle T)) (writeFile : List UInt8 → Except Errno Unit) (bootstrap : Bootstrap)
    (resources : List ρ) : Sent T :=
  if resources.length > maxResources then ⟨.error (.new .invalidInput "too many resources"), none, []⟩
  else
    match duplicateAll duplicate resources [] with
    | .error (errno, remote) => ⟨.error (.os errno), none, remote⟩
    | .ok remote =>
      match writeFile (message bootstrap remote) with
      | .error errno => ⟨.error (.os errno), none, remote⟩
      | .ok () => ⟨.ok (), some (message bootstrap remote), []⟩

/-- The handles that `recv` takes from its buffer -/
def handlesIn (buffer : List UInt8) : List (Handle T) :=
  (chunksExact (wordBytes T) (buffer.drop (header + lenOf buffer))).map fun bytes => BitVec.ofNat T.bits (ofLe bytes)

/-- The result of `recv` and the handles it came to own; they are closed if it fails. -/
structure Receipt (T : Target) where
  result : Except Error (Offer T)
  owned : List (Handle T)

/-- `recv` after `ReadFile` has returned `read` -/
def recv (read : List UInt8) (expected : Nat) : Receipt T :=
  let buffer := fill (maxMessage T) read
  if expected > maxResources then ⟨.error (.new .invalidInput "too many expected resources"), []⟩
  else if read.length < header ∨ buffer.take 4 ≠ handoffMagic then ⟨.error (invalid "malformed control header"), []⟩
  else if lenOf buffer > maxBootstrap ∨ declaredOf buffer > maxResources then ⟨.error (invalid "control bounds exceeded"), []⟩
  else if read.length ≠ header + lenOf buffer + declaredOf buffer * wordBytes T then
    ⟨.error (invalid "malformed control length"), []⟩
  else
    let resources := handlesIn buffer
    if declaredOf buffer ≠ expected then ⟨.error (invalid "resource count mismatch"), resources⟩
    else
      match Bootstrap.new (field buffer header (lenOf buffer)) with
      | .error _ => ⟨.error (invalid "bootstrap too large"), resources⟩
      | .ok bootstrap => ⟨.ok { bootstrap, resources }, resources⟩

/-- The words of the buffer behind the handles of a message -/
def surplus (T : Target) (len count : Nat) : Nat := (maxMessage T - header - len) / wordBytes T - count

/-! ### Framing -/

section Framing

variable {bootstrap : Bootstrap} {remote : List (Handle T)} {read : List UInt8} {expected : Nat}

theorem wordBytes_pos : 0 < wordBytes T := by
  have := T.supported
  unfold wordBytes
  omega

theorem two_pow_bits : 2 ^ T.bits = 256 ^ wordBytes T := by
  unfold wordBytes
  rcases T.supported with bits | bits <;> simp [bits]

theorem room_eq {len count : Nat} (small : len ≤ maxBootstrap) (few : count ≤ maxResources) :
    surplus T len count = (maxBootstrap - len) / wordBytes T + (maxResources - count) ∧
    maxMessage T - (header + len + count * wordBytes T) =
      surplus T len count * wordBytes T + (maxBootstrap - len) % wordBytes T := by
  obtain ⟨more, total⟩ := Nat.exists_eq_add_of_le few
  have split := Nat.div_add_mod (maxBootstrap - len) (wordBytes T)
  have room : maxMessage T - header - len = (maxBootstrap - len) + wordBytes T * maxResources := by
    rw [maxMessage, Nat.mul_comm]
    omega
  have eq : surplus T len count = (maxBootstrap - len) / wordBytes T + (maxResources - count) := by
    rw [surplus, room, Nat.add_mul_div_left _ _ wordBytes_pos, Nat.add_sub_assoc few]
  refine ⟨eq, ?_⟩
  rw [eq, maxMessage, total, Nat.add_sub_cancel_left, Nat.add_mul, Nat.add_mul]
  rw [Nat.mul_comm (wordBytes T)] at split
  omega

@[simp] theorem length_message : (message bootstrap remote).length =
    header + bootstrap.bytes.length + remote.length * wordBytes T := by
  rw [message, length_append, length_frame, length_words, length_map]

theorem handlesIn_message (few : remote.length ≤ maxResources) : handlesIn (fill (maxMessage T) (message bootstrap remote)) =
    remote ++ List.replicate (surplus T bootstrap.bytes.length remote.length) 0 := by
  have ⟨more, zeros⟩ := room_eq (T := T) bootstrap.length_le few
  have ⟨_, len, _⟩ := frame_reads bootstrap few ((remote.map BitVec.toNat).flatMap (toLe (wordBytes T)) ++
    List.replicate (maxMessage T - (message bootstrap remote).length) 0)
  have buffer : fill (maxMessage T) (message bootstrap remote) = frame bootstrap remote.length ++
      ((remote.map BitVec.toNat).flatMap (toLe (wordBytes T)) ++
        List.replicate (maxMessage T - (message bootstrap remote).length) 0) := by
    rw [fill, message, append_assoc]
  have words (handle : Handle T) : BitVec.ofNat T.bits (ofLe (toLe (wordBytes T) handle.toNat)) = handle := by
    rw [ofLe_toLe (two_pow_bits ▸ handle.isLt), BitVec.ofNat_toNat, BitVec.setWidth_eq]
  have count : ((remote.map BitVec.toNat).flatMap (toLe (wordBytes T)) ++
      List.replicate (maxMessage T - (message bootstrap remote).length) 0).length / wordBytes T =
      (remote.map BitVec.toNat).length + surplus T bootstrap.bytes.length remote.length := by
    rw [length_append, length_words, length_replicate, length_message, zeros, length_map, ← Nat.add_assoc,
      ← Nat.add_mul, Nat.mul_comm, Nat.mul_add_div wordBytes_pos, Nat.div_eq_of_lt (Nat.mod_lt _ wordBytes_pos), Nat.add_zero]
  rw [handlesIn, buffer, len, drop_left' (length_frame ..), chunksExact, count, chunks_words, length_message, zeros,
    chunks_replicate, map_append, map_map, map_map, map_replicate, ofLe_replicate]
  exact congrArg (· ++ _) ((map_congr_left fun handle _ => words handle).trans (map_id _))

theorem recv_message (few : remote.length ≤ maxResources) : recv (message bootstrap remote) remote.length =
    let resources := remote ++ List.replicate (surplus T bootstrap.bytes.length remote.length) 0
    ⟨.ok { bootstrap, resources }, resources⟩ := by
  have small := bootstrap.length_le
  have ⟨magic, len, declared, body⟩ := frame_reads bootstrap few ((remote.map BitVec.toNat).flatMap (toLe (wordBytes T)) ++
    List.replicate (maxMessage T - (message bootstrap remote).length) 0)
  rw [← append_assoc, ← message, ← fill] at magic len declared body
  simp only [recv, magic, len, declared, body, handlesIn_message few, length_message, Bootstrap.new_bytes]
  rw [if_neg (by omega), if_neg (by simp [header]; omega), if_neg (by omega), if_neg (by simp), if_neg (by simp)]

theorem recv_eq_ok {offer : Offer T} (accepted : (recv read expected).result = .ok offer) :
    ∃ remote : List (Handle T), remote.length = expected ∧ expected ≤ maxResources ∧ read = message offer.bootstrap remote := by
  simp only [recv, apply_ite Receipt.result, ite_error_eq_ok] at accepted
  obtain ⟨few, framed, bounds, length, count, accepted⟩ := accepted
  simp only [not_or, not_not, Nat.not_lt] at few framed bounds length count
  have ⟨len, declared, magic⟩ := header_fill (maxMessage T) framed.1
  rw [len, declared] at bounds length
  rw [declared] at count
  split at accepted
  case h_1 => cases accepted
  case h_2 bootstrap built =>
    cases accepted
    rw [len, field_fill _ (by omega)] at built
    have framing := eq_frame (magic.symm.trans framed.2) (by omega) bootstrap (Bootstrap.bytes_of_new built)
    have rest : (read.drop (header + lenOf read)).length = declaredOf read * wordBytes T := by
      rw [length_drop]
      omega
    obtain ⟨words, counted, same, small⟩ := exists_words rest
    have back : (words.map (BitVec.ofNat T.bits)).map BitVec.toNat = words := by
      rw [map_map]
      refine (map_congr_left fun word mem => ?_).trans (map_id _)
      exact Nat.mod_eq_of_lt (two_pow_bits ▸ small word mem)
    refine ⟨words.map (BitVec.ofNat T.bits), by rw [length_map, counted, count], few, ?_⟩
    rw [message, length_map, counted, back, same]
    exact framing

theorem duplicateAll_ok {ρ : Type} (handle : ρ → Handle T) (resources : List ρ) (remote : List (Handle T)) :
    duplicateAll (fun resource => .ok (handle resource)) resources remote = .ok (remote ++ resources.map handle) := by
  induction resources generalizing remote with
  | nil => simp [duplicateAll]
  | cons resource resources ih => simp [duplicateAll, ih]

theorem send_written {ρ : Type} (handle : ρ → Handle T) {resources : List ρ} (few : resources.length ≤ maxResources) :
    (send (fun resource => .ok (handle resource)) (fun _ => .ok ()) bootstrap resources).written =
      some (message bootstrap (resources.map handle)) := by
  simp [send, Nat.not_lt.mpr few, duplicateAll_ok]

end Framing

/-- What was sent is received as it was given if it fills the buffer up to less than a word, and `recv` accepts no other
message; a shorter message comes with zeros for handles. -/
theorem handoff_exact (T : Target) :
    (∀ (ρ : Type) (handle : ρ → Handle T) bootstrap resources written, resources.length ≤ maxResources →
      (send (fun resource => .ok (handle resource)) (fun _ => .ok ()) bootstrap resources).written = some written →
      surplus T bootstrap.bytes.length resources.length = 0 →
      (recv written resources.length).result = .ok ⟨bootstrap, resources.map handle⟩) ∧
    (∀ read expected (offer : Offer T), (recv read expected).result = .ok offer →
      ∃ remote : List (Handle T), remote.length = expected ∧ expected ≤ maxResources ∧ read = message offer.bootstrap remote ∧
        (recv (T := T) read expected).owned = offer.resources ∧
        offer.resources = remote ++ List.replicate (surplus T offer.bootstrap.bytes.length expected) 0) ∧
    ∀ len count, len ≤ maxBootstrap → count ≤ maxResources →
      (surplus T len count = 0 ↔ count = maxResources ∧ maxBootstrap - len < wordBytes T) := by
  refine ⟨?_, ?_, ?_⟩
  · intro ρ handle bootstrap resources written few sent none
    rw [send_written handle few] at sent
    cases sent
    have received := @recv_message T bootstrap (resources.map handle) (by rwa [length_map])
    rw [length_map, none, replicate_zero, append_nil] at received
    rw [received]
  · intro read expected offer accepted
    obtain ⟨remote, rfl, few, rfl⟩ := recv_eq_ok accepted
    rw [recv_message few] at accepted ⊢
    have same := congrArg Offer.resources (Except.ok.inj accepted)
    exact ⟨remote, rfl, few, rfl, same, same.symm⟩
  · intro len count small few
    have := Nat.div_eq_zero_iff_lt (x := maxBootstrap - len) (wordBytes_pos (T := T))
    rw [(room_eq small few).1, Nat.add_eq_zero_iff, this, Nat.sub_eq_zero_iff_le, and_comm]
    exact and_congr_left' ⟨Nat.le_antisymm few, fun eq => Nat.le_of_eq eq.symm⟩

/-- A bootstrap of the largest length with eight handles leaves no room in the buffer. -/
theorem handoff_exact_full :
    let T : Target := ⟨64, Target.supported_64⟩
    let bootstrap : Bootstrap := ⟨List.replicate maxBootstrap 7, Nat.le_of_eq List.length_replicate⟩
    let handles : List (Handle T) := [1, 2, 3, 4, 5, 6, 7, 8]
    (recv (message bootstrap handles) 8).result = .ok ⟨bootstrap, handles⟩ := by
  intro T bootstrap handles
  have none_left : surplus T bootstrap.bytes.length handles.length = 0 := by
    have full : bootstrap.bytes.length = maxBootstrap := List.length_replicate ..
    refine ((handoff_exact T).2.2 _ _ bootstrap.length_le (by decide)).mpr ⟨rfl, ?_⟩
    rw [full, Nat.sub_self]
    exact wordBytes_pos
  exact (handoff_exact T).1 (Handle T) id bootstrap handles _ (by decide) (send_written id (by decide)) none_left

/-- One handle behind an empty bootstrap: the receiver owns 519 more, all zero. -/
theorem recv_takes_zeros :
    let T : Target := ⟨64, .inr rfl⟩
    (recv (T := T) (message (T := T) ⟨[], by decide⟩ [4]) 1).result = .ok ⟨⟨[], by decide⟩, 4 :: List.replicate 519 0⟩ :=
  congrArg Receipt.result (recv_message (by decide))

end Evering.Handoff.Windows
