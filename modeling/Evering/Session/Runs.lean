import Evering.Session.Model
import Evering.Queue.Repair
import Evering.Queue.Rest

/-!
# Runs of a session

Participants use the two queues of the channel, repair them for the dead, call `Session::remove`, and do anything else to the
directory, the role words and the Pools. Each direction of the channel follows the protocol of a queue, as the other parts of the
session leave its words alone. So the queues are at rest where such a run has nothing left to do.
-/

namespace Evering.Session

open Interleave Function

variable {U : Setup} {β : Type}

inductive Op (U : Setup)
  | queue (d : Fin 2) (op : Queue.Op Pool.Token)
  | remove (role : Channel.Role) (unique : Bool) (rounds : Nat)
  | dir (op : Directory.Op)
  | opening (op : Directory.OpenOp)
  | role (op : Channel.Op U.target)
  | pool (offset : Nat) (storage : Pool.Storage) (op : Pool.Op)

namespace Op

def owner : Op U → Nat
  | queue _ op => op.owner
  | remove mine _ _ => mine.owner
  | dir op => op.owner
  | opening op => op.owner
  | role op => op.owner
  | pool _ _ op => op.owner

def code : Op U → SessionProg U Unit
  | queue d op => onQueue d (op.code (U.route d))
  | remove mine unique rounds => do
    let _ ← Session.remove U mine unique rounds
  | dir op => onDir (op.code U.dir)
  | opening op => onOpen (op.code U.dir)
  | role op => onRole op.code
  | pool offset storage op => onPool offset (op.code storage)

/-- The operation as the queue of direction `d` sees it; all but its own operations are like one that only looks. -/
def seen (d : Fin 2) : Op U → Queue.Op Pool.Token
  | queue d' op => if d' = d then op else .terminal op.owner
  | op => .terminal op.owner

theorem seen_owner (d : Fin 2) (op : Op U) : (op.seen d).owner = op.owner := by
  cases op with
  | queue d' op =>
    show (if d' = d then op else .terminal op.owner).owner = op.owner
    split <;> rfl
  | _ => rfl

end Op

/-- Participants of a session. With `single` a participant repairs a slot of a queue in one thread at a time. A number is used
again when no word of the queues names it and, in a setup that is `settled`, when no repair for it is running. -/
def machine (U : Setup) (single : Bool) : Machine (Shared U) Queue.Site (Op U) where
  owner := Op.owner
  code := Op.code
  onCrash := fun p s => { s with
    dir := ((Directory.machine U.dir).onCrash p s.dir.1, s.dir.2)
    roles := (Channel.machine U.target).onCrash p s.roles }
  ready := fun s dead running op => (List.finRange 2).all fun d =>
    (Queue.machine (U.route d) Pool.Token single).ready (s.queue d) dead (running.map (Op.seen d)) (op.seen d)
  readmits := fun s running p => (List.finRange 2).all fun d =>
    ((List.range U.geometry.capacity).all fun i => decide ((((s.queue d).ctl i).holder.map Prod.fst) ≠ some p)) &&
      (!U.dir.settled || running.all fun op => decide ((op.seen d).repairs.map Prod.fst ≠ some p))

/-- Every repair judges by a head at which it loses nothing. -/
def Judged (op : Op U) (site : Queue.Site) (s : Shared U) : Prop :=
  match op with
  | .queue d op => Queue.Judged (R := U.route d) True op site (s.queue d)
  | _ => True

instance (op : Op U) (site : Queue.Site) (s : Shared U) : Decidable (Judged op site s) :=
  match op with
  | .queue d op => inferInstanceAs (Decidable (Queue.Judged (R := U.route d) True op site (s.queue d)))
  | .remove .. | .dir _ | .opening _ | .role _ | .pool .. => .isTrue trivial

/-- The protocol of the queue of direction `d` -/
def protocol (U : Setup) (d : Fin 2) : Protocol (Shared U) Queue.Site (Op U) (Queue.View U.geometry Pool.Token) :=
  (Queue.protocol (U.route d) Pool.Token True).pull (queueLens d) (Op.seen d) Judged

section Specs

variable {d : Fin 2} {op : Op U} {v : Queue.View U.geometry Pool.Token}

theorem apart_spec {prog : SessionProg U β} (keeps : prog.Keeps fun s => s.queue d) :
    (protocol U d).Triple op prog v fun _ w => w = v :=
  .apart (Queue.Keeps.refl True) keeps

theorem onOpen_spec {prog : Directory.OpenProg β} : (protocol U d).Triple op (onOpen prog) v fun _ w => w = v :=
  apart_spec (.focus fun _ _ => rfl)

theorem onRole_spec {prog : Channel.RoleProg U.target β} : (protocol U d).Triple op (onRole prog) v fun _ w => w = v :=
  apart_spec (.focus fun _ _ => rfl)

theorem onPool_spec {offset : Nat} {prog : Pool.PoolProg β} : (protocol U d).Triple op (onPool offset prog) v fun _ w => w = v :=
  apart_spec (.focus fun _ _ => rfl)

theorem onQueue_other_spec {d' : Fin 2} (other : d' ≠ d) {prog : Queue.QueueProg U.geometry Pool.Token β} :
    (protocol U d).Triple op (onQueue d' prog) v fun _ w => w = v :=
  apart_spec (.focus fun _ _ => setQueue_there other.symm)

theorem releaseToken_spec {owner : Option Nat} {token : Pool.Token} {rounds : Nat} :
    (protocol U d).Triple op (releaseToken U owner token rounds) v fun _ w => w = v := by
  have inspect : (protocol U d).Triple op (inspectPool U token.pool) v fun _ w => w = v := .next onOpen_spec fun _ => rfl
  unfold releaseToken
  split
  · exact .next inspect fun _ => rfl
  split
  · rfl
  refine .next inspect fun found => ?_
  split
  · rfl
  split
  · rfl
  split
  · rfl
  exact .next onPool_spec fun _ => onPool_spec

end Specs

/-! ### Removal -/

section Removal

variable {d e : Fin 2} {mine : Channel.Role} {unique : Bool} {most rounds : Nat} {v : Queue.View U.geometry Pool.Token}

/-- An operation on the queue of direction `e` that keeps every view. -/
theorem onQueue_spec {prog : Queue.QueueProg U.geometry Pool.Token β}
    (h : Queue.Spec (U.route e) True (.terminal mine.owner) prog v fun _ w => w = v) :
    (protocol U d).Triple (.remove mine unique most) (onQueue e prog) v fun _ w => w = v := by
  by_cases here : e = d
  · subst here
    exact .focus h fun _ _ _ => trivial
  · exact onQueue_other_spec here

/-- What a claim in direction `e` means for direction `d` -/
def Holding (d e : Fin 2) (claim : Queue.Claim U.geometry) (v : Queue.View U.geometry Pool.Token) : Prop :=
  if e = d then ∃ turn, claim.nextTurn = turn + U.geometry.lapWord ∧ v = .claimed claim.index true turn true else v = .idle

theorem claim_spec : (protocol U d).Triple (.remove mine unique most) (onQueue e (Queue.claim (U.route e) mine.owner)) .idle
    fun r v => match r with
      | .error _ => v = .idle
      | .ok claim => Holding d e claim v := by
  by_cases here : e = d
  · subst here
    refine .mono (.focus (Queue.claim_spec (.terminal mine.owner)) fun _ _ _ => trivial) ?_
    rintro (error | claim) v h
    · exact h
    · show Holding e e claim v
      rwa [Holding, if_pos rfl]
  · refine .mono (onQueue_other_spec here) ?_
    rintro (error | claim) _ rfl
    · exact rfl
    · show Holding d e claim _
      rw [Holding, if_neg here]

theorem take_spec {claim : Queue.Claim U.geometry} (holding : Holding d e claim v) :
    (protocol U d).Triple (.remove mine unique most) (onQueue e (Queue.take (R := U.route e) claim)) v fun _ w => w = .idle := by
  by_cases here : e = d
  · subst here
    rw [Holding, if_pos rfl] at holding
    obtain ⟨turn, next, rfl⟩ := holding
    obtain ⟨i, nextTurn, initialized⟩ := claim
    obtain rfl : nextTurn = turn + U.geometry.lapWord := next
    exact .focus Queue.take_spec fun _ _ _ => trivial
  · rw [Holding, if_neg here] at holding
    subst holding
    exact onQueue_other_spec here

theorem Holding.idle {claim : Queue.Claim U.geometry} (holding : Holding d e claim v) : (protocol U d).idle v := by
  unfold Holding at holding
  split at holding
  · obtain ⟨turn, -, rfl⟩ := holding
    trivial
  · exact holding ▸ trivial

/-- Only a claim that was forgotten is left. -/
theorem drain_spec (fuel : Nat) : (protocol U d).Triple (.remove mine unique most) (drain U mine.owner rounds e fuel) .idle
    fun r v => (protocol U d).idle v ∧ (r = .ok () → v = .idle) := by
  induction fuel with
  | zero => exact ⟨trivial, nofun⟩
  | succ fuel ih =>
    refine .seq claim_spec ?_
    rintro (error | claim) v h
    · obtain rfl : v = .idle := h
      cases error <;> exact ⟨trivial, fun _ => rfl⟩
    replace h : Holding d e claim v := h
    have rest (released : Bool) : (protocol U d).Triple (.remove mine unique most) (if !released then pure (.error .evidence)
        else do
          resolve U e claim.index
          let _ ← onQueue e (Queue.take (R := U.route e) claim)
          drain U mine.owner rounds e fuel) v fun r v => (protocol U d).idle v ∧ (r = .ok () → v = .idle) := by
      cases released with
      | false => exact ⟨h.idle, nofun⟩
      | true =>
        refine .next (f := fun _ => v) (apart_spec fun s => ⟨rfl, trivial⟩) fun _ => ?_
        exact .next (take_spec h) fun _ => ih
    refine .next (onQueue_spec (Queue.peek_spec fun _ => rfl)) fun item => ?_
    cases item with
    | none => exact rest false
    | some token => exact .next releaseToken_spec rest

theorem drainClosed_spec : (protocol U d).Triple (.remove mine unique most) (drainClosed U mine.owner rounds e) .idle
    fun r v => (protocol U d).idle v ∧ (r = .ok () → v = .idle) := by
  refine .seq (drain_spec rounds) ?_
  rintro (error | ⟨⟩) v ⟨idle, done⟩
  · exact ⟨idle, nofun⟩
  obtain rfl := done rfl
  refine .next (onQueue_spec Queue.sendClosed_spec) fun closed => ?_
  split
  · exact ⟨trivial, nofun⟩
  refine .next (onQueue_spec Queue.isEmpty_peek_spec) fun empty => ?_
  split
  · exact ⟨trivial, nofun⟩
  · exact ⟨trivial, fun _ => rfl⟩

theorem closeReceiving_spec : (protocol U d).Triple (.remove mine unique most) (closeReceiving U e) .idle fun _ v =>
    v = .idle := by
  refine .next (onQueue_spec Queue.fetchOr_spec) fun _ => ?_
  refine .next (onQueue_spec Queue.recvClosed_spec) fun closed => ?_
  split <;> rfl

theorem closeQueues_spec : (protocol U d).Triple (.remove mine unique most) (closeQueues U mine.owner rounds) .idle
    fun _ v => (protocol U d).idle v := by
  refine .next (onQueue_spec Queue.fetchOr_spec) fun _ => ?_
  refine .next (onQueue_spec Queue.fetchOr_spec) fun _ => ?_
  refine .seq drainClosed_spec ?_
  rintro (error | ⟨⟩) v ⟨idle, done⟩
  · exact idle
  obtain rfl := done rfl
  refine .seq drainClosed_spec ?_
  rintro (error | ⟨⟩) v ⟨idle, done⟩
  · exact idle
  obtain rfl := done rfl
  refine .next closeReceiving_spec fun r => ?_
  cases r with
  | error error => trivial
  | ok _ => exact closeReceiving_spec.mono fun _ _ h => h ▸ trivial

theorem remove_spec : (protocol U d).Triple (.remove mine unique most) (remove U mine unique rounds) .idle fun _ v =>
    (protocol U d).idle v := by
  unfold remove
  split
  · trivial
  refine .next (f := fun _ => .idle) ?_ fun found => ?_
  · refine .next onOpen_spec fun offset => ?_
    cases offset <;> rfl
  split
  · trivial
  refine .seq (R := fun _ v => (protocol U d).idle v) ?_ ?_
  · refine .next onRole_spec fun raw => ?_
    refine .next onRole_spec fun closing => ?_
    rcases closing with _ | (_ | _)
    · refine .seq closeQueues_spec ?_
      rintro (error | ⟨⟩) v idle
      · exact idle
      refine .next onRole_spec fun given => ?_
      split <;> exact idle
    · trivial
    · trivial
  rintro (error | ⟨⟩) v idle
  · exact idle
  refine .next onRole_spec fun peer => ?_
  split
  · exact idle
  refine .next onRole_spec fun own => ?_
  split
  · exact idle
  refine .next onOpen_spec fun removed => ?_
  cases removed <;> exact idle

end Removal

/-! ### Runs -/

theorem code_spec {d : Fin 2} {op : Op U} (others : ∀ p i, (op.seen d).repairs = some (p, i) → p ≠ (op.seen d).owner) :
    (protocol U d).Triple op op.code .idle fun _ v => (protocol U d).idle v := by
  have idle {β : Type} {prog : SessionProg U β} (h : (protocol U d).Triple op prog .idle fun _ w => w = .idle) :
      (protocol U d).Triple op prog .idle fun _ v => (protocol U d).idle v := h.mono fun _ _ same => same ▸ trivial
  cases op with
  | queue e op =>
    by_cases here : e = d
    · subst here
      have same : (Op.queue (U := U) e op).seen e = op := if_pos rfl
      rw [same] at others
      refine .focus (?_ : Queue.Spec (U.route e) True ((Op.queue (U := U) e op).seen e) _ _ _) fun site s judged => ?_
      · rw [same]
        exact Queue.code_spec others
      · rw [same]
        exact judged
    · exact idle (onQueue_other_spec here)
  | remove mine unique rounds => exact .seq remove_spec fun _ _ h => h
  | dir op => exact idle onOpen_spec
  | opening op => exact idle onOpen_spec
  | role op => exact idle onRole_spec
  | pool offset storage op => exact idle onPool_spec

section Sound

variable {d : Fin 2} {ops : List (Op U)} {views : Views (Op U) (Queue.View U.geometry Pool.Token)}

/-- The views as the queue of direction `d` sees them -/
def seenViews (d : Fin 2) (views : Views (Op U) (Queue.View U.geometry Pool.Token)) :
    Views (Queue.Op Pool.Token) (Queue.View U.geometry Pool.Token) := fun t => (views t).map fun th => (th.1.seen d, th.2)

theorem seenViews_some {t : Nat} {op : Queue.Op Pool.Token} {v : Queue.View U.geometry Pool.Token}
    (view : seenViews d views t = some (op, v)) : ∃ whole, views t = some (whole, v) ∧ whole.seen d = op := by
  obtain ⟨⟨whole, w⟩, old, same⟩ := Option.map_eq_some_iff.mp view
  obtain ⟨rfl, rfl⟩ := Prod.mk.inj same
  exact ⟨whole, old, rfl⟩

theorem seenViews_within (within : views.Within ops) : (seenViews d views).Within (ops.map (Op.seen d)) := by
  intro t op v view
  obtain ⟨whole, old, rfl⟩ := seenViews_some view
  exact List.mem_map.mpr ⟨whole, within t whole v old, rfl⟩

theorem seenViews_filter (p : Nat) : seenViews d (fun t => (views t).filter fun th => th.1.owner != p) =
    fun t => (seenViews d views t).filter fun th => th.1.owner != p := by
  funext t
  show Option.map _ (Option.filter _ (views t)) = Option.filter _ (Option.map _ (views t))
  rcases views t with _ | ⟨op, v⟩
  · rfl
  · by_cases same : op.owner = p <;> simp [Option.filter_some, Op.seen_owner, same]

theorem seenViews_update (t : Nat) (x : Option (Op U × Queue.View U.geometry Pool.Token)) :
    seenViews d (update views t x) = update (seenViews d views) t (x.map fun th => (th.1.seen d, th.2)) :=
  Views.map_update _ views t x

theorem protocol_inv {s : Shared U} {dead : Nat → Bool} :
    (protocol U d).inv s dead views ↔ Queue.Inv (R := U.route d) True (s.queue d) dead (seenViews d views) := Iff.rfl

theorem sound (settled : U.dir.settled = true) {s₀ : Shared U} (fresh : s₀.queue d = .init _ _) :
    (protocol U d).Sound (machine U true) s₀ where
  init := by
    rw [protocol_inv, fresh]
    exact .init
  spawn := by
    intro s dead views t op ops inv free alive within ready
    simp only [machine, List.all_eq_true] at ready
    obtain ⟨inv', others⟩ := Queue.Inv.spawn (t := t) (protocol_inv.mp inv) (by rw [seenViews, free]; rfl)
      ((congrArg dead (op.seen_owner d)).trans alive) (seenViews_within within) (ready d (List.mem_finRange d))
    refine ⟨.idle, ?_, code_spec others⟩
    rw [protocol_inv, seenViews_update]
    exact inv'
  retire := by
    intro s dead views t op v inv view idle
    rw [protocol_inv, seenViews_update]
    exact (Queue.sound (U.route d) Pool.Token True).retire (protocol_inv.mp inv) (by rw [seenViews, view]; rfl) idle
  crash := by
    intro s dead views p inv _
    obtain ⟨inv', guar⟩ := (Queue.sound (U.route d) Pool.Token True).crash (p := p) (protocol_inv.mp inv) trivial
    refine ⟨?_, guar⟩
    rw [protocol_inv]
    exact (@seenViews_filter U d views p).symm ▸ inv'
  rejoin := by
    intro s dead views p ops inv _ within readmits
    simp only [machine, List.all_eq_true, Bool.and_eq_true, settled, Bool.not_true, Bool.false_or, decide_eq_true_eq,
      List.mem_range] at readmits
    obtain ⟨unnamed, unrepaired⟩ := readmits d (List.mem_finRange d)
    refine Queue.Inv.rejoin (protocol_inv.mp inv) (fun i lt r holder => unnamed i lt (congrArg (Option.map Prod.fst) holder)) ?_
    intro t op v i view repairs
    obtain ⟨whole, old, rfl⟩ := seenViews_some view
    exact unrepaired whole (within t whole v old) (congrArg (Option.map Prod.fst) repairs)
  refl := fun _ => Queue.Keeps.refl (R := U.route d) True _

/-- Where a run from a new channel has nothing left to do: no operation is running, the participant is alive, and so is whoever a
word of the queues names. Every repair of the run has judged by a head at which it loses nothing. -/
structure Rested (U : Setup) (q : Nat) (c : Config (Shared U) Queue.Site (Op U)) : Prop where
  reached : ∃ s₀ : Shared U, (∀ d, s₀.queue d = .init _ _) ∧ (machine U true).Run (Allowed Judged fun _ _ => True) (.start s₀) c
  settled : U.dir.settled = true
  idle : c.running = []
  numbered : q < U.geometry.participants
  alive : c.dead q = false
  words : ∀ d i, i < U.geometry.capacity → ∀ p r, ((c.shared.queue d).ctl i).holder = some (p, r) → c.dead p = false

/-- **The queues at the end of a run.** -/
theorem Rested.rests {q : Nat} {c : Config (Shared U) Queue.Site (Op U)} (rested : Rested U q c) (d : Fin 2) :
    Queue.Rests (U.route d) q (c.shared.queue d) := by
  obtain ⟨s₀, fresh, run⟩ := rested.reached
  have sound := sound rested.settled (fresh d)
  obtain ⟨views, inv, follows, new⟩ := sound.run sound.start run
  have none : seenViews d views = fun _ => none := by
    funext t
    rw [seenViews, Option.map_eq_none_iff]
    refine Option.eq_none_iff_forall_ne_some.mpr fun th view => ?_
    have mem := follows.within new t th.1 th.2 view
    rw [rested.idle] at mem
    cases mem
  rw [protocol_inv, none] at inv
  exact ⟨{ shared := c.shared.queue d, threads := fun _ => Option.none, dead := c.dead, count := 0 },
    ⟨fun _ => Option.none, inv, fun _ => rfl, fun _ _ => rfl⟩, rfl, fun _ => rfl, rested.numbered, rested.alive, rested.words d⟩

end Sound

end Evering.Session
