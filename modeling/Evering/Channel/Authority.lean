import Evering.Channel.Role
import Evering.Interleave.Protocol
import Evering.Interleave.Solo

/-!
# Authority over the roles of a channel

The words of a role are ordered by a *rank*: the generation, and within a generation the open word before the
words of those who took it. No step lowers a rank, and each port that is issued and each word that is taken
enters the log at a rank above all earlier ones of the role. So a port is good for at most one adoption, and for
none after a later port.
-/

namespace Evering.Channel

open Interleave Function List Views Protocol

variable {T : Target}

/-! ### Ranks -/

/-- Twice the generation, and one more when the word was taken or closed. -/
def RoleWord.rank (word : RoleWord T) : Nat :=
  if word.owner = none ∧ word.terminal = false then 2 * word.generation else 2 * word.generation + 1

variable {word : RoleWord T}

theorem RoleWord.rank_open (unowned : word.owner = none) (still_open : word.terminal = false) :
    word.rank = 2 * word.generation := by
  simp [rank, unowned, still_open]

variable {p : Nat}

theorem RoleWord.rank_owned (owned : word.owner = some p) : word.rank = 2 * word.generation + 1 := by
  simp [rank, owned]

theorem RoleWord.rank_terminal (terminal : word.terminal = true) : word.rank = 2 * word.generation + 1 := by
  simp [rank, terminal]

theorem RoleWord.generation_le_of_rank {word' : RoleWord T} (le : word.rank ≤ word'.rank) :
    word.generation ≤ word'.generation := by
  unfold rank at le
  split at le <;> split at le <;> omega

theorem RoleWord.released_spec (owned : word.owner = some p) :
    word.rank ≤ word.released.rank ∧ (word.terminal = true → word.released.terminal = true) := by
  have retired := word.retired_parts
  have rank_retired : word.retired.rank = 2 * word.generation + 1 := by
    rw [rank_terminal retired.2.2, retired.1]
  have rank := rank_owned owned
  unfold released
  split
  · exact ⟨by omega, fun _ => retired.2.2⟩
  · refine ⟨?_, fun terminal => absurd terminal ‹_›⟩
    unfold nextUnowned
    rcases next : (RoleWord.new (word.generation + 1) none false : Option (RoleWord T)) with _ | word'
    · simp only [Option.getD_none]
      omega
    · have parts := parts_of_new next
      simp only [Option.getD_some]
      rw [rank_open parts.2.1 parts.2.2, parts.1]
      omega

/-- The rank at which an event of the role enters the log. -/
def Event.rank (index : Nat) : Event → Option Nat
  | issued i g => if i = index then some (2 * g) else none
  | claimed i g _ => if i = index then some (2 * g + 1) else none
  | adopted .. => none

def Event.adoption : Event → Option (Nat × Nat)
  | adopted i g _ => some (i, g)
  | _ => none

def ranks (index : Nat) (log : List Event) : List Nat := log.filterMap (Event.rank index)

def adoptions (log : List Event) : List (Nat × Nat) := log.filterMap Event.adoption

variable {log : List Event} {g r index : Nat} {event : Event} {role : Role} {expected raw : RoleWord T} {β : Type}
  {live : List Role}

theorem mem_adoptions {i : Nat} : (i, g) ∈ adoptions log ↔ ∃ p, Event.adopted i g p ∈ log := by
  unfold adoptions
  rw [mem_filterMap]
  constructor
  · intro ⟨event, mem, same⟩
    cases event with
    | adopted i' g' p =>
      simp only [Event.adoption, Option.some.injEq, Prod.mk.injEq] at same
      exact ⟨p, same.1 ▸ same.2 ▸ mem⟩
    | issued i' g' => simp [Event.adoption] at same
    | claimed i' g' p => simp [Event.adoption] at same
  · intro ⟨p, mem⟩
    exact ⟨_, mem, rfl⟩

/-! ### The invariant -/

structure Good (s : Shared T) : Prop where
  order : ∀ i, (ranks i s.log).Pairwise (· < ·)
  below : ∀ i, ∀ r ∈ ranks i s.log, 2 ≤ r ∧ r ≤ (s.roles i).rank
  /-- the creator's generation of its role is not for adoption -/
  first : ∀ r ∈ ranks 0 s.log, 3 < r
  adopted : ∀ i g p, Event.adopted i g p ∈ s.log → Event.claimed i g p ∈ s.log
  once : (adoptions s.log).Nodup
  live : ∀ role ∈ s.live, (role.index = 0 ∧ role.generation = 1) ∨
    Event.adopted role.index role.generation role.owner ∈ s.log
  stored : ∀ role ∈ s.live, 0 < (s.roles 1).rank
  distinct : (s.live.map fun role => (role.index, role.generation)).Nodup
  uncreated : s.created = false → ∀ i, (s.roles i).rank = 0
  created : s.created = true → 3 ≤ (s.roles 0).rank

inductive View
  | idle
  /-- the creator before its first store -/
  | starting
  /-- the creator between its stores -/
  | creating
  /-- acts for a role, so that both words were stored -/
  | acting
  /-- took the word and has not looked at the issuer -/
  | claimed (role : Role)

def View.Ok (s : Shared T) : View → Prop
  | idle => True
  | starting => s.created = false
  | creating => s.created = true ∧ (s.roles 1).rank = 0 ∧ s.live = []
  | acting => s.created = true ∧ 0 < (s.roles 1).rank
  | claimed role => s.created = true ∧ role.index < 2 ∧
      Event.claimed role.index role.generation role.owner ∈ s.log ∧ (role.index, role.generation) ∉ adoptions s.log

def View.ofCreator : View → Bool
  | starting => true
  | creating => true
  | _ => false

structure Inv (s : Shared T) (views : Views (Op T) View) : Prop where
  good : Good s
  view : ∀ {t op v}, views t = some (op, v) → v.Ok s
  creator : ∀ {t op v}, views t = some (op, v) → v.ofCreator = true → op.isCreator = true
  oneCreator : ∀ {t u op op' v w}, views t = some (op, v) → views u = some (op', w) → op.isCreator = true →
    op'.isCreator = true → t = u
  oneClaim : ∀ {t u op op' role role'}, views t = some (op, .claimed role) → views u = some (op', .claimed role') →
    role.index = role'.index → role.generation = role'.generation → t = u

structure Stays (s s' : Shared T) : Prop where
  rank : ∀ i, (s.roles i).rank ≤ (s'.roles i).rank
  terminal : ∀ i, (s.roles i).terminal = true → (s'.roles i).terminal = true
  log : s.log <+: s'.log
  created : s.created = true → s'.created = true

def authority (T : Target) : Protocol (Shared T) Unit (Op T) View where
  inv := fun s _ views => Inv s views
  idle := fun _ => True
  guar := Stays

variable {s s' : Shared T} {dead : Nat → Bool} {views : Views (Op T) View} {t i : Nat} {op : Op T} {v v' : View}

theorem Stays.refl (s : Shared T) : Stays s s :=
  ⟨fun _ => Nat.le_refl _, fun _ => id, prefix_refl _, id⟩

theorem Stays.trans {s₁ s₂ s₃ : Shared T} (h : Stays s₁ s₂) (h' : Stays s₂ s₃) : Stays s₁ s₃ :=
  ⟨fun i => Nat.le_trans (h.rank i) (h'.rank i), fun i => h'.terminal i ∘ h.terminal i, h.log.trans h'.log,
    h'.created ∘ h.created⟩

theorem Good.created_of_rank (good : Good s) (stored : 0 < (s.roles i).rank) : s.created = true := by
  by_contra not_created
  have := good.uncreated (by simpa using not_created) i
  omega

/-- **Step of one thread.** -/
theorem Inv.step (inv : Inv s views) (ht : views t = some (op, v)) (good : Good s') (stays : Stays s s')
    (others : ∀ u op' w, u ≠ t → views u = some (op', w) → w.ofCreator = true → w.Ok s')
    (adopt : ∀ i g, (i, g) ∈ adoptions s'.log → (i, g) ∈ adoptions s.log ∨ ∃ p, v = .claimed ⟨i, g, p⟩)
    (ok : v'.Ok s') (ofCreator : v'.ofCreator = true → op.isCreator = true)
    (claim : ∀ role, v' = .claimed role → v = .claimed role ∨ ∀ p, Event.claimed role.index role.generation p ∉ s.log) :
    Inv s' (update views t (some (op, v'))) where
  good := good
  view := by
    intro u op' w at_u
    rcases update_cases at_u with ⟨-, -, same⟩ | ⟨ne, old⟩
    · exact same ▸ ok
    have before := inv.view old
    cases w with
    | idle => trivial
    | starting => exact others u op' _ ne old rfl
    | creating => exact others u op' _ ne old rfl
    | acting => exact ⟨stays.created before.1, Nat.lt_of_lt_of_le before.2 (stays.rank 1)⟩
    | claimed role =>
      obtain ⟨created, lt, claimed, unadopted⟩ := before
      refine ⟨stays.created created, lt, stays.log.subset claimed, fun adopted => ?_⟩
      rcases adopt _ _ adopted with already | ⟨p, mine⟩
      · exact unadopted already
      · subst mine
        exact ne (inv.oneClaim old ht rfl rfl)
  creator := by
    exact Views.put ofCreator fun _ => inv.creator
  oneCreator := by
    intro u u' op₁ op₂ w w' at_u at_u' creates creates'
    have old : ∀ {u op' w}, update views t (some (op, v')) u = some (op', w) →
        ∃ w', views u = some (op', w') := by
      intro u op' w at_u
      rcases update_cases at_u with ⟨same, same', -⟩ | ⟨-, old⟩
      · exact ⟨v, same ▸ same' ▸ ht⟩
      · exact ⟨w, old⟩
    obtain ⟨_, old_u⟩ := old at_u
    obtain ⟨_, old_u'⟩ := old at_u'
    exact inv.oneCreator old_u old_u' creates creates'
  oneClaim := by
    intro u u' op₁ op₂ role role' at_u at_u' index generation
    -- a claim that this step made is the only one of its generation
    have fresh : ∀ {u op' role role'}, u ≠ t → views u = some (op', View.claimed role) → v' = .claimed role' →
        role.index = role'.index → role.generation = role'.generation → False := by
      intro u op' role role' ne old mine index generation
      rcases claim role' mine with had | none
      · exact ne (inv.oneClaim old (had ▸ ht) index generation)
      · refine none role.owner ?_
        rw [← index, ← generation]
        exact (inv.view old).2.2.1
    rcases update_cases at_u with ⟨same, -, mine⟩ | ⟨ne, old⟩ <;>
      rcases update_cases at_u' with ⟨same', -, mine'⟩ | ⟨ne', old'⟩
    · rw [same, same']
    · exact (fresh ne' old' mine.symm index.symm generation.symm).elim
    · exact (fresh ne old mine'.symm index generation).elim
    · exact inv.oneClaim old old' index generation

/-! ### What the actions do to the invariant -/

theorem rank_setRole (le : (s.roles i).rank ≤ word.rank) (j : Nat) :
    (s.roles j).rank ≤ ((s.setRole i word).roles j).rank := by
  unfold Shared.setRole
  by_cases here : j = i
  · subst here
    simpa using le
  · simp [update_of_ne here]

theorem Stays.setRole (le : (s.roles i).rank ≤ word.rank)
    (terminal : (s.roles i).terminal = true → word.terminal = true) : Stays s (s.setRole i word) where
  rank := rank_setRole le
  terminal := by
    intro j closed
    unfold Shared.setRole
    by_cases here : j = i
    · subst here
      simpa using terminal closed
    · simpa [update_of_ne here] using closed
  log := prefix_refl _
  created := id

theorem Good.raise (good : Good s) (rank : ∀ j, (s.roles j).rank ≤ (s'.roles j).rank) (log : s'.log = s.log)
    (live : s'.live.Sublist s.live) (created : s'.created = true) (enough : 3 ≤ (s'.roles 0).rank) : Good s' where
  order := by
    rw [log]
    exact good.order
  below := by
    intro j r mem
    rw [log] at mem
    obtain ⟨two, le⟩ := good.below j r mem
    exact ⟨two, Nat.le_trans le (rank j)⟩
  first := by
    rw [log]
    exact good.first
  adopted := by
    rw [log]
    exact good.adopted
  once := by
    rw [log]
    exact good.once
  live := by
    rw [log]
    exact fun role mem => good.live role (live.subset mem)
  stored := fun role mem => Nat.lt_of_lt_of_le (good.stored role (live.subset mem)) (rank 1)
  distinct := good.distinct.sublist (live.map _)
  uncreated := by
    intro not_created
    rw [created] at not_created
    cases not_created
  created := fun _ => enough

theorem Good.record (good : Good s) (created : s.created = true)
    (here : event.rank i = some r) (elsewhere : ∀ j, j ≠ i → event.rank j = none) (plain : event.adoption = none)
    (above : (s.roles i).rank < r) (rank : word.rank = r) (two : 2 ≤ r) (first : i = 0 → 3 < r) :
    Good ((s.setRole i word).enter event) := by
  have raised : ∀ j, (s.roles j).rank ≤ ((s.setRole i word).roles j).rank := rank_setRole (by omega)
  have here_ranks : ranks i (s.log ++ [event]) = ranks i s.log ++ [r] := by
    simp [ranks, here]
  have other_ranks : ∀ j, j ≠ i → ranks j (s.log ++ [event]) = ranks j s.log := by
    intro j ne
    simp [ranks, elsewhere j ne]
  have word_rank : ((s.setRole i word).roles i).rank = r := by
    simp [Shared.setRole, rank]
  constructor
  case order =>
    intro j
    show (ranks j (s.log ++ [event])).Pairwise (· < ·)
    by_cases same : j = i
    · subst same
      rw [here_ranks, pairwise_append]
      refine ⟨good.order j, pairwise_singleton _ _, fun a mem b last => ?_⟩
      have le := (good.below j a mem).2
      rw [mem_singleton] at last
      omega
    · rw [other_ranks j same]
      exact good.order j
  case below =>
    intro j a mem
    change a ∈ ranks j (s.log ++ [event]) at mem
    show 2 ≤ a ∧ a ≤ ((s.setRole i word).roles j).rank
    by_cases same : j = i
    · subst same
      rw [here_ranks, mem_append, mem_singleton] at mem
      rcases mem with old | last
      · obtain ⟨two, le⟩ := good.below j a old
        omega
      · omega
    · rw [other_ranks j same] at mem
      obtain ⟨two, le⟩ := good.below j a mem
      exact ⟨two, Nat.le_trans le (raised j)⟩
  case first =>
    intro a mem
    change a ∈ ranks 0 (s.log ++ [event]) at mem
    by_cases same : i = 0
    · subst same
      rw [here_ranks, mem_append, mem_singleton] at mem
      rcases mem with old | last
      · exact good.first a old
      · exact last ▸ first rfl
    · rw [other_ranks 0 (Ne.symm same)] at mem
      exact good.first a mem
  case adopted =>
    intro j g p mem
    rcases mem_append.mp mem with old | last
    · exact mem_append_left _ (good.adopted j g p old)
    · rw [mem_singleton] at last
      rw [← last] at plain
      cases plain
  case once =>
    show (adoptions (s.log ++ [event])).Nodup
    have same : adoptions (s.log ++ [event]) = adoptions s.log := by
      simp [adoptions, plain]
    rw [same]
    exact good.once
  case live => exact fun role mem => (good.live role mem).imp_right (mem_append_left _)
  case stored => exact fun role mem => Nat.lt_of_lt_of_le (good.stored role mem) (raised 1)
  case distinct => exact good.distinct
  case uncreated =>
    intro not_created
    change s.created = false at not_created
    rw [created] at not_created
    cases not_created
  case created => exact fun _ => Nat.le_trans (good.created created) (raised 0)

theorem mem_ranks_claimed (mem : Event.claimed i g p ∈ log) : 2 * g + 1 ∈ ranks i log := by
  unfold ranks
  rw [mem_filterMap]
  exact ⟨_, mem, by simp [Event.rank]⟩

theorem Good.adopt (good : Good s) (stored : 0 < (s.roles 1).rank)
    (claimed : Event.claimed role.index role.generation role.owner ∈ s.log)
    (unadopted : (role.index, role.generation) ∉ adoptions s.log) :
    Good ((s.addRole role).enter (.adopted role.index role.generation role.owner)) := by
  have same_ranks : ∀ j, ranks j (s.log ++ [.adopted role.index role.generation role.owner]) = ranks j s.log := by
    intro j
    simp [ranks, Event.rank]
  constructor
  case order =>
    intro j
    show (ranks j (s.log ++ _)).Pairwise (· < ·)
    rw [same_ranks]
    exact good.order j
  case below =>
    intro j a mem
    change a ∈ ranks j (s.log ++ _) at mem
    rw [same_ranks] at mem
    exact good.below j a mem
  case first =>
    intro a mem
    change a ∈ ranks 0 (s.log ++ _) at mem
    rw [same_ranks] at mem
    exact good.first a mem
  case adopted =>
    intro j g p mem
    rcases mem_append.mp mem with old | last
    · exact mem_append_left _ (good.adopted j g p old)
    · simp only [mem_singleton, Event.adopted.injEq] at last
      rw [last.1, last.2.1, last.2.2]
      exact mem_append_left _ claimed
  case once =>
    show (adoptions (s.log ++ [.adopted role.index role.generation role.owner])).Nodup
    have grown : adoptions (s.log ++ [.adopted role.index role.generation role.owner]) =
        adoptions s.log ++ [(role.index, role.generation)] := by
      simp [adoptions, Event.adoption]
    rw [grown, nodup_append]
    refine ⟨good.once, by simp, fun a mem b last => ?_⟩
    rw [mem_singleton] at last
    rw [last]
    exact fun same => unadopted (same ▸ mem)
  case live =>
    intro role' mem
    rcases mem_cons.mp mem with same | old
    · rw [same]
      exact .inr (mem_append_right _ (mem_singleton_self _))
    · exact (good.live role' old).imp_right (mem_append_left _)
  case stored => exact fun _ _ => stored
  case distinct =>
    show ((role :: s.live).map fun role => (role.index, role.generation)).Nodup
    rw [map_cons, nodup_cons]
    refine ⟨fun mem => ?_, good.distinct⟩
    obtain ⟨other, old, same⟩ := mem_map.mp mem
    rw [Prod.mk.injEq] at same
    rcases good.live other old with ⟨index, generation⟩ | already
    · -- the creator's own generation was never taken by an adoption
      rw [← same.1, ← same.2, index, generation] at claimed
      have := good.first _ (mem_ranks_claimed claimed)
      omega
    · rw [same.1, same.2] at already
      exact unadopted (mem_adoptions.mpr ⟨_, already⟩)
  case uncreated => exact good.uncreated
  case created => exact good.created

/-! ### Steps -/

abbrev RoleSpec {β : Type} (op : Op T) (prog : RoleProg T β) (v : View) (Q : β → View → Prop) : Prop :=
  (authority T).Triple op prog v Q

/-- A thread that is not the creator moves words that were stored, and leaves the creator's part alone. -/
theorem Inv.act (inv : Inv s views) (ht : views t = some (op, v)) (good : Good s') (stays : Stays s s')
    (created : s.created = true) (one : (s.roles 1).rank = 0 → s.live = [] → (s'.roles 1).rank = 0 ∧ s'.live = [])
    (adopt : ∀ i g, (i, g) ∈ adoptions s'.log → (i, g) ∈ adoptions s.log ∨ ∃ p, v = .claimed ⟨i, g, p⟩)
    (ok : v'.Ok s') (ofCreator : v'.ofCreator = false) (claim : ∀ role, v' = .claimed role → v = .claimed role ∨
      ∀ p, Event.claimed role.index role.generation p ∉ s.log) : Inv s' (update views t (some (op, v'))) := by
  refine inv.step ht good stays (fun u op' w ne old creates => ?_) adopt ok (by simp [ofCreator]) claim
  have before := inv.view old
  cases w with
  | starting => simp [View.Ok, created] at before
  | creating => exact ⟨stays.created created, one before.2.1 before.2.2⟩
  | idle => cases creates
  | acting => cases creates
  | claimed role => cases creates

theorem Inv.rest (inv : Inv s views) (ht : views t = some (op, v)) (created : s.created = true) :
    Inv s (update views t (some (op, .idle))) :=
  inv.act ht inv.good (.refl s) created (fun rank live => ⟨rank, live⟩) (fun _ _ => .inl) trivial rfl nofun

theorem one_of_setRole (stored : 0 < (s.roles i).rank) (zero : (s.roles 1).rank = 0) :
    ((s.setRole i word).roles 1).rank = 0 := by
  have ne : 1 ≠ i := by
    intro same
    rw [← same] at stored
    omega
  simpa [Shared.setRole, update_of_ne ne] using zero

/-- Words, log and creation stay, and no `Role` is added. -/
structure Mute (effect : Shared T → Shared T) : Prop where
  roles : ∀ s, (effect s).roles = s.roles
  log : ∀ s, (effect s).log = s.log
  live : ∀ s, (effect s).live.Sublist s.live
  created : ∀ s, (effect s).created = s.created

theorem Mute.id : Mute (T := T) fun s => s := ⟨fun _ => rfl, fun _ => rfl, fun _ => .refl _, fun _ => rfl⟩

variable {effect : Shared T → Shared T}

theorem Inv.raise (inv : Inv s views) (ht : views t = some (op, v))
    (stored : 0 < (s.roles i).rank) (le : (s.roles i).rank ≤ word.rank)
    (terminal : (s.roles i).terminal = true → word.terminal = true) (mute : Mute effect) :
    Inv (effect (s.setRole i word)) (update views t (some (op, .idle))) ∧ Stays s (effect (s.setRole i word)) := by
  have was_created := inv.good.created_of_rank stored
  have moved := Stays.setRole le terminal
  have stays : Stays s (effect (s.setRole i word)) := by
    constructor
    · rw [mute.roles]
      exact moved.rank
    · rw [mute.roles]
      exact moved.terminal
    · rw [mute.log]
      exact moved.log
    · rw [mute.created]
      exact moved.created
  have good : Good (effect (s.setRole i word)) :=
    inv.good.raise stays.rank (mute.log _) (mute.live _) ((mute.created _).trans was_created)
      (Nat.le_trans (inv.good.created was_created) (stays.rank 0))
  refine ⟨inv.act ht good stays was_created ?_ ?_ trivial rfl nofun, stays⟩
  · intro zero none
    rw [mute.roles]
    have sublist : (effect (s.setRole i word)).live.Sublist [] := none ▸ mute.live (s.setRole i word)
    exact ⟨one_of_setRole stored zero, sublist_nil.mp sublist⟩
  · intro j g mem
    rw [mute.log] at mem
    exact .inl mem

theorem exchange_spec {new : RoleWord T} (stored : 0 < expected.rank)
    (le : expected.rank ≤ new.rank) (terminal : expected.terminal = true → new.terminal = true) (mute : Mute effect) :
    RoleSpec op (compareExchange i expected new effect) .idle (fun _ w => w = .idle) ∧
      RoleSpec op (compareExchangeWeak i expected new effect) .idle fun _ w => w = .idle := by
  have exchange : ∀ {s views t}, Inv s views → views t = some (op, View.idle) → s.roles i = expected →
      Inv (effect (s.setRole i new)) (update views t (some (op, .idle))) ∧
        Stays s (effect (s.setRole i new)) := by
    intro s views t inv view found
    subst found
    exact inv.raise view stored le terminal mute
  constructor
  · refine .action fun s dead views t inv view _ => ⟨.idle, ?_⟩
    split
    · obtain ⟨inv', stays⟩ := exchange inv view ‹_›
      exact ⟨inv', stays, rfl⟩
    · exact ⟨by rwa [update_same view], Stays.refl s, rfl⟩
  · refine .pick fun spurious => .action fun s dead views t inv view _ => ⟨.idle, ?_⟩
    split
    · obtain ⟨inv', stays⟩ := exchange inv view (And.left ‹_›)
      exact ⟨inv', stays, rfl⟩
    · exact ⟨by rwa [update_same view], Stays.refl s, rfl⟩

theorem peek_spec {f : Shared T → β} : RoleSpec op (.read () f) v fun _ w => w = v :=
  .peek Stays.refl fun _ => rfl

theorem rank_pos_of_owned (owned : word.owner = some p) : 0 < word.rank := by
  rw [RoleWord.rank_owned owned]
  omega

theorem release_spec (owned : raw.owner = some p)
    (mute : Mute effect) : RoleSpec op (compareExchangeWeak i raw raw.released effect) .idle fun _ w => w = .idle :=
  (exchange_spec (rank_pos_of_owned owned) (RoleWord.released_spec owned).1 (RoleWord.released_spec owned).2 mute).2

theorem recoverLoop_spec (index d fuel : Nat) (raw : RoleWord T) :
    RoleSpec op (recoverLoop index d fuel raw) .idle fun _ w => w = .idle := by
  induction fuel generalizing raw with
  | zero => rfl
  | succ fuel ih =>
    unfold recoverLoop
    split
    · rfl
    · have owned : raw.owner = some d := by
        by_contra h
        contradiction
      refine .next (release_spec owned .id) fun observed => ?_
      cases observed with
      | none => rfl
      | some observed => exact ih observed

/-! ### `Role`s that are gone and threads that end -/

theorem Good.shrink (good : Good s) (fewer : live.Sublist s.live) : Good { s with live } where
  order := good.order
  below := good.below
  first := good.first
  adopted := good.adopted
  once := good.once
  live := fun role mem => good.live role (fewer.subset mem)
  stored := fun role mem => good.stored role (fewer.subset mem)
  distinct := good.distinct.sublist (fewer.map _)
  uncreated := good.uncreated
  created := good.created

theorem Inv.shrink (inv : Inv s views) (fewer : live.Sublist s.live) : Inv { s with live } views where
  good := inv.good.shrink fewer
  view := by
    intro t op v view
    have ok := inv.view view
    cases v with
    | creating => exact ⟨ok.1, ok.2.1, sublist_nil.mp (ok.2.2 ▸ fewer)⟩
    | idle => trivial
    | starting => exact ok
    | acting => exact ok
    | claimed role => exact ok
  creator := inv.creator
  oneCreator := inv.oneCreator
  oneClaim := inv.oneClaim

theorem Inv.leave (inv : Inv s views) {views' : Views (Op T) View}
    (sub : ∀ {u op v}, views' u = some (op, v) → views u = some (op, v)) : Inv s views' where
  good := inv.good
  view := fun at_u => inv.view (sub at_u)
  creator := fun at_u => inv.creator (sub at_u)
  oneCreator := fun at_u at_u' => inv.oneCreator (sub at_u) (sub at_u')
  oneClaim := fun at_u at_u' => inv.oneClaim (sub at_u) (sub at_u')

theorem forget_sublist (s : Shared T) (role : Role) : (s.forget role).live.Sublist s.live :=
  filter_sublist

theorem forget_spec : RoleSpec op (.write () (Shared.forget · role)) .idle fun _ w => w = .idle := by
  refine .write fun s dead views t inv view _ => ⟨.idle, ?_, ⟨fun _ => Nat.le_refl _, fun _ => id,
    prefix_refl _, id⟩, rfl⟩
  rw [update_same view]
  exact Inv.shrink inv (forget_sublist s role)

theorem dropLoop_spec (role : Role) (fuel : Nat) (raw : RoleWord T) :
    RoleSpec op (dropLoop role fuel raw) .idle fun _ w => w = .idle := by
  induction fuel generalizing raw with
  | zero => rfl
  | succ fuel ih =>
    unfold dropLoop
    split
    · exact forget_spec
    · have owned : raw.owner = some role.owner := by
        by_contra h
        exact absurd (Or.inr h) ‹_›
      refine .next (release_spec owned ⟨fun _ => rfl, fun _ => rfl, (forget_sublist · role), fun _ => rfl⟩) fun observed => ?_
      cases observed with
      | none => rfl
      | some observed => exact ih observed

theorem closingLoop_spec (role : Role) (fuel : Nat) (raw : RoleWord T) :
    RoleSpec op (closingLoop role fuel raw) .idle fun _ w => w = .idle := by
  induction fuel generalizing raw with
  | zero => rfl
  | succ fuel ih =>
    unfold closingLoop
    split
    · rfl
    have owned : raw.owner = some role.owner := by
      by_contra h
      exact absurd (Or.inr h) ‹_›
    split
    · rfl
    rcases made : RoleWord.new raw.generation raw.owner true with _ | closing
    · rfl
    obtain ⟨generation, owner, terminal⟩ := RoleWord.parts_of_new made
    have le : raw.rank ≤ closing.rank := by
      rw [RoleWord.rank_owned owned, RoleWord.rank_terminal terminal, generation]
    refine .next (exchange_spec (rank_pos_of_owned owned) le (fun _ => terminal) .id).2 fun observed => ?_
    cases observed with
    | none => rfl
    | some observed => exact ih observed

theorem closeWith_spec (role : Role) :
    RoleSpec op (closeWith role : RoleProg T (Except CloseError Unit)) .idle fun _ w => w = .idle := by
  refine .next peek_spec fun raw => ?_
  refine .pick fun fuel => .seq (closingLoop_spec role fuel raw) ?_
  intro answer w same
  subst same
  cases answer with
  | some answer => rfl
  | none =>
    refine .pick fun outcome => ?_
    split
    · rfl
    · rfl
    · rcases made : (RoleWord.new role.generation (some role.owner) true : Option (RoleWord T)) with _ | owned
      · rfl
      rcases made' : (RoleWord.new role.generation none true : Option (RoleWord T)) with _ | terminal
      · rfl
      have parts := RoleWord.parts_of_new made
      have parts' := RoleWord.parts_of_new made'
      have le : owned.rank ≤ terminal.rank := by
        rw [RoleWord.rank_terminal parts.2.2, RoleWord.rank_terminal parts'.2.2, parts.1, parts'.1]
      refine .next (exchange_spec (rank_pos_of_owned parts.2.1) le (fun _ => parts'.2.2) .id).1 fun observed => ?_
      cases observed <;> rfl

/-! ### Adoption -/

theorem Good.enter (good : Good s) (created : s.created = true) (word : RoleWord T) (event : Event)
    (found : s.roles i = raw) (still : raw.terminal = false) (here : event.rank i = some word.rank)
    (elsewhere : ∀ j, j ≠ i → event.rank j = none)
    (plain : event.adoption = none) (above : raw.rank < word.rank) (two : 2 ≤ word.rank) :
    Good ((s.setRole i word).enter event) ∧ Stays s ((s.setRole i word).enter event) ∧
      adoptions (s.log ++ [event]) = adoptions s.log := by
  subst found
  have moved : Stays s (s.setRole i word) := .setRole (Nat.le_of_lt above) (by simp [still])
  refine ⟨good.record created here elsewhere plain above rfl two fun zero => ?_,
    ⟨moved.rank, moved.terminal, prefix_append _ _, moved.created⟩, by simp [adoptions, plain]⟩
  have enough := good.created created
  rw [← zero] at enough
  omega

theorem claim_spec {port : Port T} {claimed : RoleWord T} (was : RoleWord.new port.generation none false = some expected)
    (becomes : RoleWord.new port.generation (some p) false = some claimed) :
    RoleSpec op (compareExchange port.role expected claimed (·.enter (.claimed port.role port.generation p)))
      .idle fun observed w => w = if observed.isNone then .claimed ⟨port.role, port.generation, p⟩ else .idle := by
  obtain ⟨generation, owner, terminal⟩ := RoleWord.parts_of_new was
  obtain ⟨generation', owner', terminal'⟩ := RoleWord.parts_of_new becomes
  have positive := port.generation_pos
  have rank : expected.rank = 2 * port.generation := by
    rw [RoleWord.rank_open owner terminal, generation]
  have rank' : claimed.rank = 2 * port.generation + 1 := by
    rw [RoleWord.rank_owned owner', generation']
  refine .action fun s dead views t inv view _ => ?_
  split
  · have found : s.roles port.role = expected := ‹_›
    have inv : Inv s views := inv
    have stored : 0 < (s.roles port.role).rank := by
      rw [found]
      omega
    have created := inv.good.created_of_rank stored
    obtain ⟨good, stays, same_adoptions⟩ := inv.good.enter created claimed
      (.claimed port.role port.generation p) found terminal
      (by simp [Event.rank, rank']) (fun j ne => by simp [Event.rank, Ne.symm ne]) rfl (by omega) (by omega)
    -- the generation was not taken before, or the word would not be open
    have fresh : ∀ q, Event.claimed port.role port.generation q ∉ s.log := by
      intro q mem
      have le := (inv.good.below _ _ (mem_ranks_claimed mem)).2
      rw [found] at le
      omega
    have unadopted : (port.role, port.generation) ∉ adoptions s.log := by
      intro mem
      obtain ⟨q, mem⟩ := mem_adoptions.mp mem
      exact fresh q (inv.good.adopted _ _ _ mem)
    refine ⟨.claimed ⟨port.role, port.generation, p⟩, inv.act view good stays created ?_ ?_ ?_ rfl ?_, stays, rfl⟩
    · exact fun zero none => ⟨one_of_setRole stored zero, none⟩
    · intro j g mem
      change (j, g) ∈ adoptions (s.log ++ _) at mem
      rw [same_adoptions] at mem
      exact .inl mem
    · refine ⟨created, port.role_lt, mem_append_right _ (mem_singleton_self _), ?_⟩
      show (port.role, port.generation) ∉ adoptions (s.log ++ _)
      rw [same_adoptions]
      exact unadopted
    · intro role same
      cases same
      exact .inr fresh
  · exact ⟨.idle, by rwa [update_same view], Stays.refl s, rfl⟩

theorem checkIssuer_spec : RoleSpec op (checkIssuer role : RoleProg T Bool) (.claimed role) fun _ w => w = .idle := by
  refine .action fun s dead views t inv view _ => ?_
  have inv : Inv s views := inv
  obtain ⟨created, lt, claimed, unadopted⟩ := inv.view view
  split
  · exact ⟨.idle, inv.rest view created, Stays.refl s, rfl⟩
  · have unissued : ¬((s.roles (1 - role.index)).terminal || (s.roles (1 - role.index)).owner.isNone) = true := ‹_›
    have stored : 0 < (s.roles 1).rank := by
      by_cases other : role.index = 1
      · have le := inv.good.below 1 _ (mem_ranks_claimed (other ▸ claimed))
        omega
      · have zero : role.index = 0 := by omega
        rw [zero] at unissued
        rcases owner : (s.roles 1).owner with _ | q
        · simp [owner] at unissued
        · exact rank_pos_of_owned owner
    have stays : Stays s ((s.addRole role).enter (.adopted role.index role.generation role.owner)) :=
      ⟨fun _ => Nat.le_refl _, fun _ => id, prefix_append _ _, id⟩
    refine ⟨.idle, inv.act view (inv.good.adopt stored claimed unadopted) stays created ?_ ?_ trivial rfl nofun,
      stays, rfl⟩
    · intro zero
      omega
    · intro j g mem
      obtain ⟨q, mem⟩ := mem_adoptions.mp mem
      rcases mem_append.mp mem with old | last
      · exact .inl (mem_adoptions.mpr ⟨q, old⟩)
      · simp only [mem_singleton, Event.adopted.injEq] at last
        refine .inr ⟨role.owner, ?_⟩
        rw [last.1, last.2.1]

theorem adopt_spec (p : Nat) (port : Port T) : RoleSpec op (adopt p port) .idle fun _ _ => True := by
  unfold adopt
  split
  · trivial
  refine .pick fun geometry => ?_
  split
  · trivial
  rcases was : (RoleWord.new port.generation none false : Option (RoleWord T)) with _ | expected
  · trivial
  rcases becomes : (RoleWord.new port.generation (some p) false : Option (RoleWord T)) with _ | claimed
  · trivial
  refine .seq (claim_spec was becomes) ?_
  intro observed w same
  cases observed with
  | some observed => trivial
  | none =>
    have mine : w = .claimed ⟨port.role, port.generation, p⟩ := same
    subst mine
    refine .next checkIssuer_spec fun issued => ?_
    cases issued with
    | true => trivial
    | false =>
      obtain ⟨-, owner, terminal⟩ := RoleWord.parts_of_new becomes
      have released : (claimed.nextUnowned false).getD claimed.retired = claimed.released := by
        simp [RoleWord.released, terminal]
      simp only [Bool.false_eq_true, if_false]
      rw [released]
      refine .seq (exchange_spec (rank_pos_of_owned owner) (RoleWord.released_spec owner).1
        (RoleWord.released_spec owner).2 .id).1 fun _ _ _ => trivial

theorem issue_spec {next : RoleWord T} (unowned : raw.owner = none) (still : raw.terminal = false)
    (made : raw.nextUnowned false = some next) :
    RoleSpec op (compareExchange index raw next (·.enter (.issued index next.generation))) .acting fun _ _ => True := by
  obtain ⟨generation, owner, terminal⟩ := RoleWord.parts_of_new made
  have rank : raw.rank = 2 * raw.generation := RoleWord.rank_open unowned still
  have rank' : next.rank = 2 * next.generation := RoleWord.rank_open owner terminal
  refine .action fun s dead views t inv view _ => ?_
  split
  · have found : s.roles index = raw := ‹_›
    have inv : Inv s views := inv
    obtain ⟨created, stored_one⟩ := inv.view view
    have enough := inv.good.created created
    obtain ⟨good, stays, same_adoptions⟩ := inv.good.enter created next (.issued index next.generation) found still
      (by simp [Event.rank, rank']) (fun j ne => by simp [Event.rank, Ne.symm ne]) rfl (by omega) (by omega)
    refine ⟨.idle, inv.act view good stays created ?_ ?_ trivial rfl nofun, stays, trivial⟩
    · intro zero
      omega
    · intro j g mem
      change (j, g) ∈ adoptions (s.log ++ _) at mem
      rw [same_adoptions] at mem
      exact .inl mem
  · exact ⟨.acting, by rwa [update_same view], Stays.refl s, trivial⟩

theorem retire_spec (unowned : raw.owner = none) (still : raw.terminal = false) (last : 0 < raw.generation) :
    RoleSpec op (compareExchange index raw raw.retired id) .idle fun _ w => w = .idle := by
  have rank : raw.rank = 2 * raw.generation := RoleWord.rank_open unowned still
  have parts := raw.retired_parts
  have rank' : raw.retired.rank = 2 * raw.generation + 1 := by
    rw [RoleWord.rank_terminal parts.2.2, parts.1]
  exact (exchange_spec (by omega) (by omega) (fun _ => parts.2.2) .id).1

theorem relax_spec {prog : RoleProg T β} {Q : β → View → Prop} (h : RoleSpec op prog .idle Q) :
    RoleSpec op prog .acting fun _ _ => True := by
  induction prog with
  | done a => trivial
  | choose next ih => exact fun n => ih n (h n)
  | atomic site act next ih =>
    intro s dead views t inv view cond
    have inv : Inv s views := inv
    have rested := inv.rest view (inv.view view).1
    obtain ⟨w, inv', stays, rest⟩ := h s dead _ t rested (update_self ..) cond
    rw [update_idem] at inv'
    exact ⟨w, inv', stays, rest.mono fun _ _ _ => trivial⟩

theorem maxGeneration_pos : 0 < maxGeneration T := by
  unfold maxGeneration roleGenerationShift
  rcases roleSlotBits_eq T with ⟨bits, slotBits⟩ | ⟨bits, slotBits⟩ <;> rw [bits, slotBits] <;> decide

theorem invite_spec (role : Role) :
    RoleSpec op (invite role : RoleProg T (Except InviteError Nat)) .acting fun _ _ => True := by
  refine .next peek_spec fun issuer => ?_
  split
  · trivial
  refine .next peek_spec fun raw => ?_
  split
  · trivial
  split
  · trivial
  have still : raw.terminal = false := by simpa using ‹¬raw.terminal = true›
  have unowned : raw.owner = none := by simpa using ‹¬raw.owner.isSome = true›
  rcases made : raw.nextUnowned false with _ | next
  · have last : 0 < raw.generation := by
      by_contra zero
      have room := maxGeneration_pos (T := T)
      have some : (RoleWord.new (raw.generation + 1) none false : Option (RoleWord T)).isSome = true :=
        RoleWord.new_isSome (by omega) false
      unfold RoleWord.nextUnowned at made
      rw [made] at some
      cases some
    refine relax_spec (.seq (retire_spec unowned still last) ?_ : RoleSpec op _ .idle fun _ _ => True)
    intro observed w _
    cases observed <;> trivial
  · refine .seq (issue_spec unowned still made) ?_
    intro observed w _
    cases observed <;> trivial

/-! ### The creator -/

theorem storeFirst_spec {first : RoleWord T} (made : RoleWord.new 1 (some p) false = some first)
    (creator : op.isCreator = true) : RoleSpec op (.write () fun s => { s.setRole 0 first with created := true }) .starting
      fun _ w => w = .creating := by
  obtain ⟨generation, owner, terminal⟩ := RoleWord.parts_of_new made
  have rank : first.rank = 3 := by
    rw [RoleWord.rank_owned owner, generation]
  refine .write fun s dead views t inv view _ => ?_
  have inv : Inv s views := inv
  have uncreated : s.created = false := inv.view view
  have zero := inv.good.uncreated uncreated
  have no_roles : s.live = [] := by
    rcases live : s.live with _ | ⟨role, rest⟩
    · rfl
    · have stored := inv.good.stored role (by simp [live])
      have := zero 1
      omega
  have still_open : (s.roles 0).terminal = false := by
    by_contra closed
    have := RoleWord.rank_terminal (by simpa using closed : (s.roles 0).terminal = true)
    have := zero 0
    omega
  have moved : Stays s (s.setRole 0 first) := by
    refine .setRole ?_ ?_
    · have := zero 0
      omega
    · simp [still_open]
  have stays : Stays s { s.setRole 0 first with created := true } :=
    ⟨moved.rank, moved.terminal, prefix_refl _, fun _ => rfl⟩
  have rank_zero : (({ s.setRole 0 first with created := true } : Shared T).roles 0).rank = 3 := by
    simp [Shared.setRole, rank]
  have good : Good { s.setRole 0 first with created := true } :=
    inv.good.raise stays.rank rfl (.refl _) rfl (by omega)
  refine ⟨.creating, inv.step view good stays ?_ (fun _ _ => .inl) ⟨rfl, ?_, no_roles⟩ (fun _ => creator) nofun,
    stays, rfl⟩
  · intro u op' w ne old creates
    exact absurd (inv.oneCreator old view (inv.creator old creates) creator) ne
  · simpa [Shared.setRole] using zero 1

theorem storeSecond_spec {second : RoleWord T} (made : RoleWord.new 1 none false = some second)
    (creator : op.isCreator = true) :
    RoleSpec op (.write () fun s => ((s.setRole 1 second).addRole ⟨0, 1, p⟩).enter (.issued 1 1)) .creating
      fun _ w => w = .idle := by
  obtain ⟨generation, owner, terminal⟩ := RoleWord.parts_of_new made
  have rank : second.rank = 2 := by
    rw [RoleWord.rank_open owner terminal, generation]
  refine .write fun s dead views t inv view _ => ?_
  have inv : Inv s views := inv
  obtain ⟨created, zero, no_roles⟩ := inv.view view
  have still_open : (s.roles 1).terminal = false := by
    by_contra closed
    have := RoleWord.rank_terminal (by simpa using closed : (s.roles 1).terminal = true)
    omega
  have moved : Stays s (s.setRole 1 second) := by
    refine .setRole ?_ ?_
    · omega
    · simp [still_open]
  have stays : Stays s (((s.setRole 1 second).addRole ⟨0, 1, p⟩).enter (.issued 1 1)) :=
    ⟨moved.rank, moved.terminal, prefix_append _ _, moved.created⟩
  have recorded : Good ((s.setRole 1 second).enter (.issued 1 1)) := by
    refine inv.good.record created (by simp [Event.rank]) ?_ rfl (by omega) rank (by omega) (by omega)
    intro j ne
    simp [Event.rank, Ne.symm ne]
  have stored : 0 < ((s.setRole 1 second).roles 1).rank := by
    simp [Shared.setRole, rank]
  have good : Good (((s.setRole 1 second).addRole ⟨0, 1, p⟩).enter (.issued 1 1)) :=
    { order := recorded.order
      below := recorded.below
      first := recorded.first
      adopted := recorded.adopted
      once := recorded.once
      live := by
        intro role mem
        rw [show (((s.setRole 1 second).addRole ⟨0, 1, p⟩).enter (.issued 1 1)).live = ⟨0, 1, p⟩ :: s.live from rfl,
          no_roles, mem_singleton] at mem
        exact .inl (by simp [mem])
      stored := fun _ _ => stored
      distinct := by
        show ((⟨0, 1, p⟩ :: s.live).map fun role : Role => (role.index, role.generation)).Nodup
        simp [no_roles]
      uncreated := recorded.uncreated
      created := recorded.created }
  refine ⟨.idle, inv.step view good stays ?_ ?_ trivial nofun nofun, stays, rfl⟩
  · intro u op' w ne old creates
    exact absurd (inv.oneCreator old view (inv.creator old creates) creator) ne
  · intro j g mem
    change (j, g) ∈ adoptions (s.log ++ _) at mem
    simp only [adoptions, filterMap_append, filterMap_cons, Event.adoption, filterMap_nil, append_nil] at mem
    exact .inl mem

theorem creator_spec (p : Nat) (creator : op.isCreator = true) :
    RoleSpec op (Channel.creator p : RoleProg T Unit) .starting fun _ _ => True := by
  unfold Channel.creator
  rcases made : (RoleWord.new 1 (some p) false : Option (RoleWord T)) with _ | first
  · trivial
  rcases made' : (RoleWord.new 1 none false : Option (RoleWord T)) with _ | second
  · trivial
  refine .next (storeFirst_spec made creator) fun _ => ?_
  exact (storeSecond_spec made' creator).mono fun _ _ _ => trivial

/-! ### All runs -/

def Op.start : Op T → View
  | creator _ => .starting
  | invite _ => .acting
  | _ => .idle

theorem code_spec (op : Op T) : RoleSpec op op.code op.start fun _ _ => True := by
  cases op with
  | creator p => exact creator_spec p rfl
  | adopt p port => exact .seq (adopt_spec p port) fun _ _ _ => trivial
  | invite role => exact .seq (invite_spec role) fun _ _ _ => trivial
  | dropRole role =>
    refine .next peek_spec fun raw => ?_
    exact .pick fun fuel => (dropLoop_spec role fuel raw).mono fun _ _ _ => trivial
  | closeWith role => exact .seq (closeWith_spec role) fun _ _ _ => trivial
  | recoverRole live d index =>
    refine .next peek_spec fun raw => ?_
    exact .pick fun fuel => (recoverLoop_spec index d fuel raw).mono fun _ _ _ => trivial

theorem Good.init : Good (Shared.init T) := by
  have zero : ∀ i, ((Shared.init T).roles i).rank = 0 := by
    intro i
    simp [Shared.init, RoleWord.rank, RoleWord.owner, RoleWord.terminal, RoleWord.generation]
  constructor
  case uncreated => exact fun _ => zero
  case created => exact fun created => by cases created
  all_goals simp [Shared.init, ranks, adoptions]

theorem Inv.spawn (inv : Inv s views) (ok : op.start.Ok s)
    (single : op.isCreator = true → ∀ u op' w, views u = some (op', w) → op'.isCreator = false) :
    Inv s (update views t (some (op, op.start))) where
  good := inv.good
  view := Views.put ok fun _ => inv.view
  creator := by
    intro u op' w at_u creates
    rcases update_cases at_u with ⟨-, same_op, same⟩ | ⟨-, old⟩
    · rw [same] at creates
      rw [same_op]
      cases op <;> first | rfl | cases creates
    · exact inv.creator old creates
  oneCreator := by
    intro u u' op₁ op₂ w w' at_u at_u' creates creates'
    rcases update_cases at_u with ⟨same, same_op, -⟩ | ⟨-, old⟩ <;>
      rcases update_cases at_u' with ⟨same', same_op', -⟩ | ⟨-, old'⟩
    · rw [same, same']
    · rw [single (same_op ▸ creates) _ _ _ old'] at creates'
      cases creates'
    · rw [single (same_op' ▸ creates') _ _ _ old] at creates
      cases creates
    · exact inv.oneCreator old old' creates creates'
  oneClaim := by
    intro u u' op₁ op₂ role role' at_u at_u'
    have unclaimed : ∀ role, op.start ≠ .claimed role := by
      intro role
      cases op <;> nofun
    rcases update_cases at_u with ⟨-, -, same⟩ | ⟨-, old⟩
    · exact absurd same.symm (unclaimed role)
    rcases update_cases at_u' with ⟨-, -, same⟩ | ⟨-, old'⟩
    · exact absurd same.symm (unclaimed role')
    exact inv.oneClaim old old'

theorem sound (T : Target) : (authority T).Sound (machine T) (.init T) where
  init := ⟨.init, nofun, nofun, nofun, nofun⟩
  spawn := by
    intro s dead views t op ops inv free alive within ready
    have inv : Inv s views := inv
    simp only [machine, Bool.and_eq_true, Bool.or_eq_true, Bool.not_eq_true', all_eq_true, decide_eq_true_eq] at ready
    obtain ⟨⟨-, acts⟩, creates⟩ := ready
    refine ⟨op.start, inv.spawn ?_ ?_, code_spec op⟩
    · cases op with
      | creator p => exact (creates.resolve_left (by simp [Op.isCreator])).1
      | invite role =>
        have mem : role ∈ s.live := by simpa [Op.role] using acts
        have stored := inv.good.stored role mem
        exact ⟨inv.good.created_of_rank stored, stored⟩
      | adopt p port => trivial
      | dropRole role => trivial
      | closeWith role => trivial
      | recoverRole live d index => trivial
    · intro is_creator u op' w old
      exact (creates.resolve_left (by simp [is_creator])).2 op' (within u op' w old)
  retire := by
    intro s dead views t op v inv _ _
    exact Inv.leave inv fun at_u => (retire_some at_u).2
  crash := by
    intro s dead views p inv _
    refine ⟨?_, ⟨fun _ => Nat.le_refl _, fun _ => id, prefix_refl _, id⟩⟩
    refine Inv.leave (Inv.shrink inv filter_sublist) ?_
    intro u op' w at_u
    exact (Option.filter_eq_some_iff.mp at_u).1
  rejoin := fun inv _ _ _ => inv
  refl := Stays.refl

theorem Good.one_owner (good : Good s) (index : Nat) :
    (s.live.filter fun role => decide (role.index = index ∧ Owns s role)).length ≤ 1 := by
  have distinct := good.distinct
  generalize s.live = roles at distinct ⊢
  induction roles with
  | nil => simp
  | cons role rest ih =>
    rw [map_cons, nodup_cons] at distinct
    rw [filter_cons]
    split
    · rename_i mine
      rw [decide_eq_true_eq] at mine
      -- a second owner of the word has the generation of the word as well
      have none : (rest.filter fun role => decide (role.index = index ∧ Owns s role)) = [] := by
        rw [filter_eq_nil_iff]
        intro other mem theirs
        rw [decide_eq_true_eq] at theirs
        refine distinct.1 (mem_map.mpr ⟨other, mem, ?_⟩)
        rw [Prod.mk.injEq]
        refine ⟨by omega, ?_⟩
        rw [← theirs.2.1, ← mine.2.1, theirs.1, mine.1]
      rw [none]
      simp
    · exact ih distinct.2

/-- A port is not good for an adoption after a later port or a later adoption of the role. -/
theorem Good.outdated (good : Good s) {before between after : List Event}
    (log : s.log = before ++ .issued i g :: (between ++ event :: after)) (later : event.rank i = some r) (p : Nat) :
    Event.claimed i g p ∉ after := by
  intro mem
  have order := good.order i
  rw [log] at order
  simp only [ranks, filterMap_append, filterMap_cons, later, pairwise_append] at order
  have first : 2 * g < r := by
    have ahead := order.2.1
    simp only [Event.rank, if_true, pairwise_cons] at ahead
    exact ahead.1 r (by simp)
  have second : r < 2 * g + 1 := by
    have ahead := order.2.1
    simp only [Event.rank, if_true, pairwise_cons, pairwise_append] at ahead
    exact ahead.2.2.1.1 _ (mem_ranks_claimed mem)
  omega

theorem invite_retires {role : Role} (owns : Owns s role) (issuing : (s.roles role.index).terminal = false)
    (unowned : (s.roles (1 - role.index)).owner = none) (still : (s.roles (1 - role.index)).terminal = false)
    (last : (s.roles (1 - role.index)).generation = maxGeneration T) (oracle : Nat → Nat) (n : Nat) :
    (invite role).solo oracle n s = (s.setRole (1 - role.index) (s.roles (1 - role.index)).retired, .error .retired) := by
  have none : (s.roles (1 - role.index)).nextUnowned false = none := by
    unfold RoleWord.nextUnowned RoleWord.new
    rw [dif_pos (by omega)]
  simp [invite, load, compareExchange, owns.1, owns.2, issuing, unowned, still, none]

/-- **Role authority.** Over every run of creators, inviters, adopters, drops, closes and recoveries by any participants,
with crashes: each generation of each role is adopted at most once, by who took its word; at most one `Role` that was not
dropped owns the word of a role; a port takes no word after a later port or an adoption of its role; and from any state on no
generation falls, and a word that its owner leaves, or an invitation finds unowned, at the largest generation is terminal for
ever. -/
theorem role_authority (T : Target) {c : Config (Shared T) Unit (Op T)}
    (run : (machine T).Reaches (.start (.init T)) c) :
    (adoptions c.shared.log).Nodup ∧
    (∀ i g p, Event.adopted i g p ∈ c.shared.log → Event.claimed i g p ∈ c.shared.log) ∧
    (∀ index, (c.shared.live.filter fun role => decide (role.index = index ∧ Owns c.shared role)).length ≤ 1) ∧
    (∀ i, (c.shared.roles i).generation ≤ maxGeneration T) ∧
    (∀ before between after i g event, c.shared.log = before ++ .issued i g :: (between ++ event :: after) →
      (∃ g', event = .issued i g' ∨ ∃ q, event = .claimed i g' q) → ∀ p, Event.claimed i g p ∉ after) ∧
    (∀ role, Owns c.shared role → (c.shared.roles role.index).terminal = false →
      (c.shared.roles (1 - role.index)).owner = none → (c.shared.roles (1 - role.index)).terminal = false →
      (c.shared.roles (1 - role.index)).generation = maxGeneration T → ∀ oracle n,
      ((invite role).solo oracle n c.shared).2 = .error .retired ∧
        (((invite role).solo oracle n c.shared).1.roles (1 - role.index)).terminal = true) ∧
    ∀ c', (machine T).Reaches c c' → ∀ i,
      (c.shared.roles i).generation ≤ (c'.shared.roles i).generation ∧
      ((c.shared.roles i).generation = maxGeneration T → (c.shared.roles i).owner.isSome = true →
        (c'.shared.roles i).owner = none → (c'.shared.roles i).terminal = true) ∧
      ((c.shared.roles i).terminal = true → (c'.shared.roles i).terminal = true) := by
  have allowed : ∀ {c c' : Config (Shared T) Unit (Op T)}, (machine T).Reaches c c' →
      (machine T).Run (Allowed (authority T).cond (authority T).stop) c c' := by
    refine fun run => run.mono fun c step _ => ?_
    cases step <;> simp [Allowed, authority]
  have holds := (sound T).run (sound T).start (allowed run)
  have ⟨views, inv, _⟩ := holds
  have good := (inv : Inv c.shared views).good
  refine ⟨good.once, good.adopted, good.one_owner, fun i => RoleWord.generation_le _, ?_, ?_, ?_⟩
  · intro before between after i g event log ⟨g', later⟩ p
    have rank : ∃ r, event.rank i = some r := by
      rcases later with issued | ⟨q, claimed⟩
      · exact ⟨2 * g', by simp [issued, Event.rank]⟩
      · exact ⟨2 * g' + 1, by simp [claimed, Event.rank]⟩
    obtain ⟨r, rank⟩ := rank
    exact good.outdated log rank p
  · intro role owns issuing unowned still last oracle n
    rw [invite_retires owns issuing unowned still last]
    refine ⟨rfl, ?_⟩
    simp only [Shared.setRole, Function.update_self]
    exact (RoleWord.retired_parts _).2.2
  · intro c' further i
    have stays := (sound T).run_guar (fun _ _ _ => Stays.trans) holds (allowed further)
    refine ⟨RoleWord.generation_le_of_rank (stays.rank i), fun last owned unowned => ?_, stays.terminal i⟩
    obtain ⟨p, owned⟩ := Option.isSome_iff_exists.mp owned
    have rank := RoleWord.rank_owned owned
    have le := stays.rank i
    have most := RoleWord.generation_le (c'.shared.roles i)
    by_contra still_open
    have := RoleWord.rank_open unowned (by simpa using still_open)
    omega

/-- A channel is created, its first port is adopted, and the creator invites again after the other has left. -/
theorem role_authority_relay : ∃ c, (machine ⟨64, .inr rfl⟩).Reaches (.start (.init _)) c ∧
    adoptions c.shared.log = [(1, 1)] ∧ Event.issued 1 3 ∈ c.shared.log ∧
    (adoptions c.shared.log).Nodup := by
  let T : Target := ⟨64, .inr rfl⟩
  have logs : ((machine T).execAll (.start (.init T)) [.spawn (.creator 0), .run 0 0, .run 0 0,
      .spawn (.adopt 5 ⟨1, 1, by decide, by decide, by decide⟩), .run 1 0, .run 1 0, .run 1 0,
      .spawn (.dropRole ⟨1, 1, 5⟩), .run 2 0, .run 2 1, .run 2 0, .run 2 0,
      .spawn (.invite ⟨0, 1, 0⟩), .run 3 0, .run 3 0, .run 3 0]).map
      (fun c => (adoptions c.shared.log, decide (Event.issued 1 3 ∈ c.shared.log))) = some ([(1, 1)], true) := by decide +kernel
  obtain ⟨c, run, same⟩ := Machine.exists_reaches logs
  rw [Prod.mk.injEq, decide_eq_true_eq] at same
  exact ⟨c, run, same.1, same.2, (role_authority T run).1⟩

end Evering.Channel
