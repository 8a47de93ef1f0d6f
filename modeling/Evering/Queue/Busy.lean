import Evering.Queue.Rest

/-!
# What `Busy` says

`reserve` and `claim` tell a state that waits for the other side, `Full` or `Empty`, from one in which the caller may try again,
`Busy`, by the cursors. A lone producer that sees `Busy` sees it for ever; a lone consumer gets past it only over positions
that were skipped. When nobody has the slot in question the answer is right, but a slot in the hands of the other side reads
as `Busy` as well.
-/

namespace Evering.Queue

open Interleave Cursor

variable {α ε β : Type} {R : Route} {s s' u : Shared R.toGeometry α} {q h t : Nat} {oracle : Nat → Nat} {dead : Nat → Bool}
  {views : Views (Op α) (View R.toGeometry α)}

/-- Attempts of one participant alone that return `Busy`, one after the other -/
inductive Retries (attempt : QueueProg R.toGeometry α (Except ε β)) (busy : ε) :
    Shared R.toGeometry α → Shared R.toGeometry α → Prop
  | refl (s : Shared R.toGeometry α) : Retries attempt busy s s
  | next {s s' s'' : Shared R.toGeometry α} (again : ∀ oracle n, attempt.solo oracle n s = (s', .error busy))
    (rest : Retries attempt busy s' s'') : Retries attempt busy s s''

theorem Retries.stuck {attempt : QueueProg R.toGeometry α (Except ε β)} {busy : ε} (retries : Retries attempt busy s s')
    (same : ∀ oracle n, attempt.solo oracle n s = (s, .error busy)) : s' = s := by
  induction retries with
  | refl => rfl
  | next again rest ih =>
    obtain ⟨rfl, -⟩ := Prod.mk.inj ((again (fun _ => 0) 0).symm.trans (same (fun _ => 0) 0))
    exact ih same

theorem Shared.setSlot_control (s : Shared R.toGeometry α) {i control : Nat} (same : (s.slot i).control = control) :
    s.setSlot i { s.slot i with control } = s := by
  subst same
  simp [setSlot]

/-! ### Producers -/

/-- Nobody has a slot whose position waits for head. -/
structure Lined (R : Route) (s : Shared R.toGeometry α) (h t : Nat) : Prop where
  head : s.head = R.cursor h
  tail : s.tail = R.cursor t
  order : h ≤ t
  window : t ≤ h + R.capacity
  waiting : ∀ p, h ≤ p → p < t → ∃ complete, (s.slot (p % R.capacity)).control = (Control.available complete).word ∧
    (s.slot (p % R.capacity)).turn = R.cursor p
  only : ∀ i, i < R.capacity → ∀ complete, (s.slot i).control = (Control.available complete).word →
    ∃ p, h ≤ p ∧ p < t ∧ p % R.capacity = i

theorem Inv.lined (inv : Inv True s dead views) (unheld : ∀ p, s.trail.headPos ≤ p → p < s.trail.tailPos →
    (s.ctl (p % R.capacity)).holder = none) : Lined R s s.trail.headPos s.trail.tailPos where
  head := inv.ring.head
  tail := inv.ring.tail
  order := inv.ring.order
  window := inv.window
  waiting := by
    intro p late early
    have slot := inv.slot (p % R.capacity) (Nat.mod_lt _ R.capacity_pos)
    have here := inv.turnPos_waiting late early
    have phase := slot.phase
    have free := unheld p late early
    rw [slot.word, slot.turn, here]
    rcases ctl : s.ctl (p % R.capacity) with _ | ⟨c, d, r⟩ | c | ⟨c, d, r⟩
    · rw [ctl] at phase
      have := phase.resolve_right (inv.ring.kept trivial _)
      omega
    · rw [ctl] at free
      cases free
    · exact ⟨c, rfl, rfl⟩
    · rw [ctl] at free
      cases free
  only := by
    intro i lt complete word
    have slot := inv.slot i lt
    have ctl : s.ctl i = .available complete := by
      rw [Shared.ctl, word]
      cases complete <;> decide
    have phase := slot.phase
    rw [ctl] at phase
    exact ⟨_, phase.1, inv.ring.lt_tail phase.2.ne_unreserved, slot.mod⟩

/-- Claims over the positions from cursor `c` on: the slots that were passed before are free, and the walk ends at a position
that was published, or at tail. -/
inductive Passable (R : Route) (s : Shared R.toGeometry α) : List Nat → R.Word → Prop
  | published {passed : List Nat} {c : R.Word} (fresh : R.index c ∉ passed)
    (control : (s.slot (R.index c)).control = (Control.available true).word) (turn : (s.slot (R.index c)).turn = c) :
    Passable R s passed c
  | finished {passed : List Nat} {c : R.Word}
    (free : R.index c ∈ passed ∨ ∀ complete, (s.slot (R.index c)).control ≠ (Control.available complete).word)
    (last : s.tail = c) : Passable R s passed c
  | skipped {passed : List Nat} {c : R.Word} (fresh : R.index c ∉ passed)
    (control : (s.slot (R.index c)).control = (Control.available false).word) (turn : (s.slot (R.index c)).turn = c)
    (rest : Passable R s (R.index c :: passed) (R.next c)) : Passable R s passed c

/-- The slot at head holds nothing to claim. -/
theorem claim_missing (receiving : (s.lifecycle >>> R.recvField) &&& 0b11 = 0)
    (missing : ∀ complete, (s.slot (R.index s.head)).control ≠ (Control.available complete).word) (oracle : Nat → Nat) (n : Nat) :
    (claim R q).solo oracle n s = (s, if s.tail = s.head then .error .empty else .error .busy) := by
  have words : (s.slot (R.index s.head)).control ≠ available ∧ (s.slot (R.index s.head)).control ≠ available ||| completeBit :=
    ⟨missing false, missing true⟩
  simp [claim, fieldState, loadHead, loadHeadAt, loadControl, loadTail, receiving, words]

/-- The slot at head is available in another turn: it is given back. -/
theorem claim_stale (receiving : (s.lifecycle >>> R.recvField) &&& 0b11 = 0) {complete : Bool}
    (control : (s.slot (R.index s.head)).control = (Control.available complete).word)
    (turn : (s.slot (R.index s.head)).turn ≠ s.head) (oracle : Nat → Nat) (n : Nat) :
    (claim R q).solo oracle n s = (s, .error .busy) := by
  have words : ¬((Control.available complete).word ≠ available ∧
      (Control.available complete).word ≠ available ||| completeBit) := by cases complete <;> decide
  simpa [claim, fieldState, loadHead, loadHeadAt, loadControl, loadTurn, compareExchangeControlAt, storeControl, settleControl,
    receiving, control, turn, words, Shared.setSlot] using s.setSlot_control control

/-- `u` is `s` after claims have passed the slots `passed` and come to `c`. -/
structure Passed (R : Route) (s u : Shared R.toGeometry α) (passed : List Nat) (c : R.Word) : Prop where
  head : u.head = c
  tail : u.tail = s.tail
  lifecycle : u.lifecycle = s.lifecycle
  free : ∀ i ∈ passed, (u.slot i).control = empty
  rest : ∀ i ∉ passed, u.slot i = s.slot i

section Walk

variable {passed : List Nat} {c : R.Word}

theorem Passed.skip (walk : Passed R s u passed c) :
    Passed R s ((u.claimed q false).recycled (R.index c) (c + R.lapWord)) (R.index c :: passed) (R.next c) where
  head := congrArg R.next walk.head
  tail := walk.tail
  lifecycle := walk.lifecycle
  free := by
    intro i mem
    by_cases here : i = R.index c
    · simp [Shared.recycled, Shared.setSlot, here]
    · simpa [Shared.recycled, Shared.claimed, Shared.setSlot, walk.head, here] using
        walk.free i ((List.mem_cons.mp mem).resolve_left here)
  rest := by
    intro i fresh
    rw [List.mem_cons, not_or] at fresh
    simpa [Shared.recycled, Shared.claimed, Shared.setSlot, walk.head, fresh.1] using walk.rest i fresh.2

theorem Passed.fresh (walk : Passed R s u passed c) {complete : Bool}
    (control : (u.slot (R.index c)).control = (Control.available complete).word) : R.index c ∉ passed := by
  intro mem
  rw [walk.free _ mem] at control
  cases complete <;> cases control

/-- One claim: an answer, `Busy` for ever, or one more skipped position. -/
theorem Passed.step (walk : Passed R s u passed c) (receiving : (s.lifecycle >>> R.recvField) &&& 0b11 = 0) :
    (Passable R s passed c ∧ ∀ oracle n, ((claim R q).solo oracle n u).2 ≠ .error .busy) ∨
    (∀ oracle n, (claim R q).solo oracle n u = (u, .error .busy)) ∨
    ∃ u', (∀ oracle n, (claim R q).solo oracle n u = (u', .error .busy)) ∧ Passed R s u' (R.index c :: passed) (R.next c) ∧
      (Passable R s (R.index c :: passed) (R.next c) → Passable R s passed c) := by
  obtain rfl := walk.head
  rw [← walk.lifecycle] at receiving
  by_cases missing : ∀ complete, (u.slot (R.index u.head)).control ≠ (Control.available complete).word
  · by_cases last : u.tail = u.head
    · refine .inl ⟨.finished ?_ (walk.tail ▸ last), fun oracle n => ?_⟩
      · by_cases mem : R.index u.head ∈ passed
        · exact .inl mem
        · exact .inr (walk.rest _ mem ▸ missing)
      · simp [claim_missing receiving missing, last]
    · exact .inr (.inl fun oracle n => by rw [claim_missing receiving missing, if_neg last])
  simp only [not_forall, not_not] at missing
  obtain ⟨complete, control⟩ := missing
  by_cases turn : (u.slot (R.index u.head)).turn = u.head
  swap
  · exact .inr (.inl (claim_stale receiving control turn))
  have fresh := walk.fresh control
  have same := walk.rest _ fresh
  cases complete with
  | true =>
    refine .inl ⟨.published fresh (same ▸ control) (same ▸ turn), fun oracle n => ?_⟩
    rw [claim_complete_alone receiving control turn]
    exact nofun
  | false => exact .inr (.inr ⟨_, claim_skipped_alone receiving control turn, walk.skip,
      .skipped fresh (same ▸ control) (same ▸ turn)⟩)

theorem Passable.claims (passable : Passable R s passed c) (walk : Passed R s u passed c)
    (receiving : (s.lifecycle >>> R.recvField) &&& 0b11 = 0) :
    ∃ s', Retries (claim R q) .busy u s' ∧ ∀ oracle n, ((claim R q).solo oracle n s').2 ≠ .error .busy := by
  induction passable generalizing u with
  | published fresh control turn =>
    refine ⟨u, .refl u, fun oracle n => ?_⟩
    rw [← walk.rest _ fresh, ← walk.head] at control turn
    rw [claim_complete_alone (walk.lifecycle ▸ receiving) control turn]
    exact nofun
  | finished free last =>
    refine ⟨u, .refl u, fun oracle n => ?_⟩
    have missing : ∀ complete, (u.slot (R.index u.head)).control ≠ (Control.available complete).word := by
      intro complete control
      rw [walk.head] at control
      have fresh := walk.fresh control
      exact free.resolve_left fresh complete (walk.rest _ fresh ▸ control)
    simp [claim_missing (walk.lifecycle ▸ receiving) missing, walk.tail, walk.head, last]
  | skipped fresh control turn _ ih =>
    obtain ⟨s', retries, answers⟩ := ih (walk.skip (q := q))
    rw [← walk.rest _ fresh, ← walk.head] at control turn
    refine ⟨s', .next (claim_skipped_alone (walk.lifecycle ▸ receiving) control turn) ?_, answers⟩
    rwa [walk.head]

theorem Retries.passable (retries : Retries (claim R q) .busy u s') (walk : Passed R s u passed c)
    (receiving : (s.lifecycle >>> R.recvField) &&& 0b11 = 0)
    (answers : ∀ oracle n, ((claim R q).solo oracle n s').2 ≠ .error .busy) : Passable R s passed c := by
  induction retries generalizing passed c with
  | refl u =>
    rcases walk.step (q := q) receiving with ⟨done, -⟩ | busy | ⟨u', busy, -⟩
    · exact done
    · exact absurd (congrArg Prod.snd (busy (fun _ => 0) 0)) (answers _ _)
    · exact absurd (congrArg Prod.snd (busy (fun _ => 0) 0)) (answers _ _)
  | next again _ ih =>
    have again := again (fun _ => 0) 0
    rcases walk.step (q := q) receiving with ⟨-, other⟩ | busy | ⟨u', busy, walk', back⟩
    · exact absurd (congrArg Prod.snd again) (other _ _)
    · obtain ⟨rfl, -⟩ := Prod.mk.inj ((busy (fun _ => 0) 0).symm.trans again)
      exact ih walk answers
    · obtain ⟨rfl, -⟩ := Prod.mk.inj ((busy (fun _ => 0) 0).symm.trans again)
      exact back (ih walk' answers)

end Walk

/-- The walk over positions that nobody holds ends. -/
theorem Lined.passable (lined : Lined R s h t) {p : Nat} (late : h ≤ p) (early : p ≤ t) {passed : List Nat}
    (behind : ∀ i, i ∈ passed ↔ ∃ p', h ≤ p' ∧ p' < p ∧ p' % R.capacity = i) : Passable R s passed (R.cursor p) := by
  have window := lined.window
  induction left : t - p generalizing p passed with
  | zero =>
    have last : p = t := by omega
    refine .finished ?_ (lined.tail.trans (by rw [last]))
    by_cases mem : R.index (R.cursor p) ∈ passed
    · exact .inl mem
    refine .inr fun complete control => mem ?_
    rw [Geometry.index_cursor] at control ⊢
    obtain ⟨p', late', early', same⟩ := lined.only _ (Nat.mod_lt _ R.capacity_pos) complete control
    exact (behind _).mpr ⟨p', late', by omega, same⟩
  | succ k ih =>
    obtain ⟨complete, control, turn⟩ := lined.waiting p late (by omega)
    rw [← Geometry.index_cursor] at control turn
    have fresh : R.index (R.cursor p) ∉ passed := by
      rw [Geometry.index_cursor, behind]
      rintro ⟨p', late', early', same⟩
      have := lap_apart same early'
      omega
    cases complete with
    | true => exact .published fresh control turn
    | false =>
      refine .skipped fresh control turn ?_
      rw [Geometry.next_cursor]
      refine ih (by omega) (by omega) (fun i => ?_) (by omega)
      rw [List.mem_cons, behind, Geometry.index_cursor]
      constructor
      · rintro (rfl | ⟨p', late', early', same⟩)
        · exact ⟨p, late, Nat.lt_succ_self p, rfl⟩
        · exact ⟨p', late', by omega, same⟩
      · rintro ⟨p', late', early', rfl⟩
        by_cases here : p' = p
        · exact .inl (by rw [here])
        · exact .inr ⟨p', late', by omega, rfl⟩

end Evering.Queue
