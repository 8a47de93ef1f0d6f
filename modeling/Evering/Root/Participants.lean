import Evering.Interleave.Protocol
import Evering.Interleave.Solo
import Evering.Target
import Evering.Word.Bits

/-!
# Participants of a region

The root header has one `usize` word for each participant slot. It packs a status and the generation at which the slot
was joined last. `join` looks through the slots and takes the first free one; `leave`, `mark_dead` and `release_dead` are
single compare-and-swaps that name a slot and a generation. The log records, in order, which member joined, left, was
marked dead and was released.

A generation that does not fit its field loses its high bits in the shift. As long as every generation that is presented
fits, a word says exactly who is at its slot.
-/

namespace Evering.Root

open Interleave Function List

variable (T : Target)

def stateBits : Nat := 2

/-- `MEMBER_GENERATION_MAX` -/
def generationMax : Nat := (2 ^ T.bits - 1) >>> stateBits

inductive Status
  | free
  | live
  | dead
  | retired
  deriving DecidableEq

def Status.code : Status → Nat
  | free => 0
  | live => 1
  | dead => 2
  | retired => 3

def Status.ofCode : Nat → Status
  | 0 => free
  | 1 => live
  | 2 => dead
  | _ => retired

@[ext]
structure MemberWord where
  raw : Nat
  fits : raw < 2 ^ T.bits

structure Member where
  slot : Nat
  generation : Nat
  deriving DecidableEq

variable {T}

instance : DecidableEq (MemberWord T) := fun _ _ => decidable_of_iff _ MemberWord.ext_iff.symm

namespace MemberWord

/-- `(generation << MEMBER_STATE_BITS) | state` -/
def pack (generation : Nat) (status : Status) : MemberWord T :=
  ⟨((generation <<< stateBits) % 2 ^ T.bits ||| status.code) % 2 ^ T.bits, Nat.mod_lt _ (Nat.two_pow_pos _)⟩

def generation (word : MemberWord T) : Nat := word.raw >>> stateBits

def status (word : MemberWord T) : Status := .ofCode (word.raw &&& ((1 <<< stateBits) - 1))

/-! ### Words and their fields -/

theorem bits_eq (T : Target) : 2 ^ T.bits = 4 * 2 ^ (T.bits - 2) := by
  rcases T.supported with bits | bits <;> rw [bits] <;> decide

theorem generationMax_eq (T : Target) : generationMax T + 1 = 2 ^ (T.bits - 2) := by
  have bits := bits_eq T
  have pos := Nat.two_pow_pos (T.bits - 2)
  unfold generationMax stateBits
  rw [Nat.shiftRight_eq_div_pow]
  omega

theorem generation_eq (word : MemberWord T) : word.generation = word.raw / 4 :=
  Nat.shiftRight_eq_div_pow word.raw 2

theorem generation_le (word : MemberWord T) : word.generation ≤ generationMax T := by
  have fits := word.fits
  have bits := bits_eq T
  have most := generationMax_eq T
  rw [generation_eq]
  omega

theorem status_eq (word : MemberWord T) : word.status = .ofCode (word.raw % 4) := by
  unfold status stateBits
  rw [Word.and_ones]
  rfl

theorem code_lt (status : Status) : status.code < 4 := by
  cases status <;> decide

theorem ofCode_code (status : Status) : Status.ofCode status.code = status := by
  cases status <;> rfl

theorem code_ofCode {n : Nat} (lt : n < 4) : (Status.ofCode n).code = n := by
  match n, lt with
  | 0, _ => rfl
  | 1, _ => rfl
  | 2, _ => rfl
  | 3, _ => rfl

theorem pack_raw {g : Nat} (le : g ≤ generationMax T) (status : Status) :
    (pack g status : MemberWord T).raw = g * 4 + status.code := by
  have bits := bits_eq T
  have most := generationMax_eq T
  have code := code_lt status
  have small : g <<< 2 < 2 ^ T.bits := by
    rw [Nat.shiftLeft_eq]
    omega
  unfold pack stateBits
  simp only
  rw [Nat.mod_eq_of_lt small, Word.shiftLeft_or g (show status.code < 2 ^ 2 from code), Nat.mod_eq_of_lt (by omega)]
  rfl

theorem pack_generation {g : Nat} (le : g ≤ generationMax T) (status : Status) :
    (pack g status : MemberWord T).generation = g := by
  have code := code_lt status
  rw [generation_eq, pack_raw le]
  omega

theorem pack_status {g : Nat} (le : g ≤ generationMax T) (status : Status) :
    (pack g status : MemberWord T).status = status := by
  have code := code_lt status
  rw [status_eq, pack_raw le, show (g * 4 + status.code) % 4 = status.code by omega, ofCode_code]

theorem eq_of_fields {word word' : MemberWord T} (generation : word.generation = word'.generation)
    (status : word.status = word'.status) : word = word' := by
  rw [generation_eq, generation_eq] at generation
  have codes := congrArg Status.code status
  rw [status_eq, status_eq, code_ofCode (Nat.mod_lt _ (by decide)), code_ofCode (Nat.mod_lt _ (by decide))] at codes
  cases word
  cases word'
  simp only at generation codes
  congr 1
  omega

theorem eq_pack_iff {word : MemberWord T} {g : Nat} {status : Status} (le : g ≤ generationMax T) :
    word = pack g status ↔ word.generation = g ∧ word.status = status := by
  constructor
  · rintro rfl
    exact ⟨pack_generation le status, pack_status le status⟩
  · rintro ⟨generation, state⟩
    apply eq_of_fields
    · rw [pack_generation le, generation]
    · rw [pack_status le, state]

end MemberWord

/-! ### Operations -/

inductive Event
  | joined (member : Member)
  | left (member : Member)
  | died (member : Member)
  | released (member : Member)
  deriving DecidableEq

def Event.member : Event → Member
  | joined member => member
  | left member => member
  | died member => member
  | released member => member

variable (T) in
structure Shared where
  members : Nat → MemberWord T
  log : List Event

/-- After `Root::init`: every word is zero. -/
def Shared.init (T : Target) : Shared T := ⟨fun _ => ⟨0, T.zero_lt⟩, []⟩

abbrev RootProg (T : Target) := Prog (Shared T) Unit

def load (slot : Nat) : RootProg T (MemberWord T) := .read () fun s => s.members slot

def compareExchange (slot : Nat) (expected new : MemberWord T) (event : Option Event) : RootProg T Bool :=
  .action () fun s =>
    if s.members slot = expected then
      ({ members := update s.members slot new, log := s.log ++ event.toList }, true)
    else (s, false)

/-- The slots that `join` has still to look at. -/
def joinFrom : Nat → Nat → RootProg T (Option Member)
  | 0, _ => return none
  | n + 1, slot => do
    let observed ← load slot
    if observed.status ≠ .free then joinFrom n (slot + 1)
    else if observed.generation = generationMax T then
      let _ ← compareExchange slot observed (.pack observed.generation .retired) none
      joinFrom n (slot + 1)
    else
      let member : Member := ⟨slot, observed.generation + 1⟩
      if ← compareExchange slot observed (.pack member.generation .live) (some (.joined member)) then
        return some member
      else joinFrom n (slot + 1)

def join : RootProg T (Option Member) := joinFrom T.participantCapacity 0

/-- The one compare-and-swap of `leave`, `mark_dead` and `release_dead`. -/
def move (member : Member) (before after : Status) (event : Event) : RootProg T Bool :=
  if member.slot < T.participantCapacity then
    compareExchange member.slot (.pack member.generation before) (.pack member.generation after) (some event)
  else return false

def leave (member : Member) : RootProg T Bool := move member .live .free (.left member)

def markDead (member : Member) : RootProg T Bool := move member .live .dead (.died member)

def isDead (member : Member) : RootProg T Bool :=
  if member.slot < T.participantCapacity then do
    return decide ((← load member.slot) = .pack member.generation .dead)
  else return false

def releaseDead (member : Member) : RootProg T Bool :=
  move member .dead (if member.generation = generationMax T then .retired else .free) (.released member)

inductive Op
  | join (p : Nat)
  | leave (p : Nat) (member : Member)
  | markDead (p : Nat) (member : Member)
  | isDead (p : Nat) (member : Member)
  | releaseDead (p : Nat) (member : Member)

namespace Op

def owner : Op → Nat
  | join p => p
  | leave p _ => p
  | markDead p _ => p
  | isDead p _ => p
  | releaseDead p _ => p

def member : Op → Option Member
  | join _ => none
  | leave _ member => some member
  | markDead _ member => some member
  | isDead _ member => some member
  | releaseDead _ member => some member

def code : Op → RootProg T Unit
  | join _ => do let _ ← Root.join
  | leave _ member => do let _ ← Root.leave member
  | markDead _ member => do let _ ← Root.markDead member
  | isDead _ member => do let _ ← Root.isDead member
  | releaseDead _ member => do let _ ← Root.releaseDead member

end Op

/-- Processes, in any number, that call any operation for any member. -/
def machine (T : Target) : Machine (Shared T) Unit Op where
  owner := Op.owner
  code := Op.code
  readmits := fun _ _ _ => true

/-! ### What one step does -/

/-- One compare-and-swap that succeeds. -/
inductive Moves (s : Shared T) : Shared T → Prop
  | joined (slot : Nat) (free : (s.members slot).status = .free) (lt : (s.members slot).generation < generationMax T) :
      Moves s ⟨update s.members slot (.pack ((s.members slot).generation + 1) .live),
        s.log ++ [.joined ⟨slot, (s.members slot).generation + 1⟩]⟩
  | retired (slot : Nat) (free : (s.members slot).status = .free) (last : (s.members slot).generation = generationMax T) :
      Moves s ⟨update s.members slot (.pack (s.members slot).generation .retired), s.log⟩
  | left (slot : Nat) (live : (s.members slot).status = .live) :
      Moves s ⟨update s.members slot (.pack (s.members slot).generation .free),
        s.log ++ [.left ⟨slot, (s.members slot).generation⟩]⟩
  | died (slot : Nat) (live : (s.members slot).status = .live) :
      Moves s ⟨update s.members slot (.pack (s.members slot).generation .dead),
        s.log ++ [.died ⟨slot, (s.members slot).generation⟩]⟩
  | released (slot : Nat) (dead : (s.members slot).status = .dead) :
      Moves s ⟨update s.members slot (.pack (s.members slot).generation
          (if (s.members slot).generation = generationMax T then .retired else .free)),
        s.log ++ [.released ⟨slot, (s.members slot).generation⟩]⟩

/-- Who has joined and has neither left nor been marked dead. -/
def Present (s : Shared T) (member : Member) : Prop :=
  Event.joined member ∈ s.log ∧ Event.left member ∉ s.log ∧ Event.died member ∉ s.log

def joins (log : List Event) : List Member :=
  log.filterMap fun event => match event with
    | .joined member => some member
    | _ => none

structure Agrees (s : Shared T) : Prop where
  past : ∀ event ∈ s.log, event.member.generation ≤ (s.members event.member.slot).generation
  once : (joins s.log).Nodup
  present : ∀ slot g, Present s ⟨slot, g⟩ ↔ (s.members slot).status = .live ∧ (s.members slot).generation = g

structure Later (s s' : Shared T) : Prop where
  generation : ∀ slot, (s.members slot).generation ≤ (s'.members slot).generation
  log : ∃ more, s'.log = s.log ++ more
  dead : ∀ slot, (s.members slot).status = .dead → Event.released ⟨slot, (s.members slot).generation⟩ ∉ s'.log →
    s'.members slot = s.members slot
  retired : ∀ slot, (s.members slot).status = .retired → s'.members slot = s.members slot
  /-- an exhausted slot is never joined again -/
  exhausted : ∀ slot, (s.members slot).generation = generationMax T → (s.members slot).status = .free →
    (s'.members slot).status = .free ∨ (s'.members slot).status = .retired

theorem Later.refl (s : Shared T) : Later s s where
  generation := fun _ => Nat.le_refl _
  log := ⟨[], by simp⟩
  dead := fun _ _ _ => rfl
  retired := fun _ _ => rfl
  exhausted := fun _ _ free => .inl free

theorem Later.trans {s₁ s₂ s₃ : Shared T} (h : Later s₁ s₂) (h' : Later s₂ s₃) : Later s₁ s₃ where
  generation := fun slot => Nat.le_trans (h.generation slot) (h'.generation slot)
  log := by
    obtain ⟨more, log⟩ := h.log
    obtain ⟨more', log'⟩ := h'.log
    exact ⟨more ++ more', by rw [log', log, append_assoc]⟩
  dead := by
    intro slot dead unreleased
    obtain ⟨more, log⟩ := h'.log
    have same := h.dead slot dead fun released => unreleased (by rw [log]; exact mem_append_left _ released)
    rw [← same] at dead unreleased ⊢
    exact h'.dead slot dead unreleased
  retired := by
    intro slot retired
    have same := h.retired slot retired
    rw [← same] at retired ⊢
    exact h'.retired slot retired
  exhausted := by
    intro slot last free
    have le := h.generation slot
    have most := (s₂.members slot).generation_le
    rcases h.exhausted slot last free with free' | retired
    · exact h'.exhausted slot (by omega) free'
    · right
      rw [h'.retired slot retired, retired]

variable {s s' : Shared T} {slot : Nat} {word : MemberWord T} {more : List Event} {member : Member} {op : Op}

theorem Later.one (generation : (s.members slot).generation ≤ word.generation)
    (dead : (s.members slot).status = .dead → Event.released ⟨slot, (s.members slot).generation⟩ ∈ more)
    (retired : (s.members slot).status ≠ .retired)
    (exhausted : (s.members slot).generation = generationMax T → (s.members slot).status = .free →
      word.status = .retired) : Later s ⟨update s.members slot word, s.log ++ more⟩ := by
  refine ⟨fun slot' => ?_, ⟨more, rfl⟩, fun slot' => ?_, fun slot' => ?_, fun slot' => ?_⟩ <;>
    by_cases here : slot' = slot
  · subst here
    simpa using generation
  · simp [here]
  · subst here
    intro is_dead unreleased
    exact absurd (mem_append_right _ (dead is_dead)) unreleased
  · simp [here]
  · subst here
    exact fun is_retired => absurd is_retired retired
  · simp [here]
  · subst here
    intro last free
    right
    simpa using exhausted last free
  · intro last free
    left
    simpa [here] using free

theorem Moves.later (moves : Moves s s') : Later s s' := by
  have le : ∀ slot, (s.members slot).generation ≤ generationMax T := fun slot => (s.members slot).generation_le
  cases moves with
  | joined slot free lt =>
    refine .one ?_ (by simp [free]) (by simp [free]) fun last => by omega
    rw [MemberWord.pack_generation (by omega)]
    omega
  | retired slot free last =>
    have step : Later s ⟨update s.members slot (.pack (s.members slot).generation .retired), s.log ++ []⟩ := by
      refine .one ?_ (by simp [free]) (by simp [free]) fun _ _ => MemberWord.pack_status (le slot) _
      rw [MemberWord.pack_generation (le slot)]
    simpa using step
  | left slot live =>
    refine .one ?_ (by simp [live]) (by simp [live]) (by simp [live])
    rw [MemberWord.pack_generation (le slot)]
  | died slot live =>
    refine .one ?_ (by simp [live]) (by simp [live]) (by simp [live])
    rw [MemberWord.pack_generation (le slot)]
  | released slot dead =>
    refine .one ?_ (fun _ => mem_singleton_self _) (by simp [dead]) (by simp [dead])
    rw [MemberWord.pack_generation (le slot)]

theorem Agrees.one (agrees : Agrees s)
    (about : ∀ event ∈ more, event.member.slot = slot ∧ event.member.generation ≤ word.generation)
    (generation : (s.members slot).generation ≤ word.generation) (once : (joins (s.log ++ more)).Nodup)
    (present : ∀ g, Present ⟨update s.members slot word, s.log ++ more⟩ ⟨slot, g⟩ ↔
      word.status = .live ∧ word.generation = g) : Agrees ⟨update s.members slot word, s.log ++ more⟩ where
  past := by
    intro event mem
    by_cases here : event.member.slot = slot
    · rw [here]
      simp only [update_self]
      rcases mem_append.mp mem with old | new
      · have := agrees.past event old
        rw [here] at this
        omega
      · exact (about event new).2
    · rcases mem_append.mp mem with old | new
      · simpa [here] using agrees.past event old
      · exact absurd (about event new).1 here
  once := once
  present := by
    intro slot' g
    by_cases here : slot' = slot
    · subst here
      simpa using present g
    · have other : ∀ event : Event, event.member = ⟨slot', g⟩ → (event ∈ s.log ++ more ↔ event ∈ s.log) := by
        intro event same
        rw [mem_append, or_iff_left]
        intro new
        have := (about event new).1
        rw [same] at this
        exact here this
      have iff := agrees.present slot' g
      unfold Present at iff ⊢
      rw [other (.joined ⟨slot', g⟩) rfl, other (.left ⟨slot', g⟩) rfl, other (.died ⟨slot', g⟩) rfl]
      simpa only [update_of_ne here] using iff

theorem Agrees.absent (agrees : Agrees s) (status : (s.members slot).status ≠ .live) (g : Nat) : ¬Present s ⟨slot, g⟩ :=
  fun present => status ((agrees.present slot g).mp present).1

theorem joins_append (log more : List Event) : joins (log ++ more) = joins log ++ joins more :=
  filterMap_append ..

theorem mem_joins {log : List Event} : member ∈ joins log ↔ Event.joined member ∈ log := by
  unfold joins
  rw [mem_filterMap]
  constructor
  · rintro ⟨event, mem, same⟩
    cases event <;> simp_all
  · exact fun mem => ⟨_, mem, rfl⟩

/-- A step after which the slot is not live: the member that was present has left or died. -/
theorem Agrees.ended {event : Event} {status : Status} (agrees : Agrees s)
    (about : event.member = ⟨slot, (s.members slot).generation⟩) (quiet : joins [event] = []) (after : status ≠ .live)
    (ends : Present s event.member → event = .left event.member ∨ event = .died event.member) :
    Agrees ⟨update s.members slot (.pack (s.members slot).generation status), s.log ++ [event]⟩ := by
  have le := (s.members slot).generation_le
  refine agrees.one ?_ (by rw [MemberWord.pack_generation le]) ?_ fun g => ?_
  · simp [about, MemberWord.pack_generation le]
  · simpa [joins_append, quiet] using agrees.once
  · rw [MemberWord.pack_status le]
    simp only [after, false_and, iff_false]
    rintro ⟨joined, left, died⟩
    rw [← mem_joins, joins_append, quiet, append_nil, mem_joins] at joined
    have was : Present s ⟨slot, g⟩ := ⟨joined, fun h => left (mem_append_left _ h), fun h => died (mem_append_left _ h)⟩
    obtain rfl := ((agrees.present slot g).mp was).2
    rw [← about] at was left died
    rcases ends was with ended | ended
    · exact left (by simp [← ended])
    · exact died (by simp [← ended])

/-- **Step lemma.** -/
theorem Moves.agrees (moves : Moves s s') (agrees : Agrees s) : Agrees s' := by
  have le : ∀ slot, (s.members slot).generation ≤ generationMax T := fun slot => (s.members slot).generation_le
  cases moves with
  | joined slot free lt =>
    have packed := MemberWord.pack_generation (T := T) (show (s.members slot).generation + 1 ≤ generationMax T by omega) .live
    have new : ∀ event ∈ s.log, event.member ≠ ⟨slot, (s.members slot).generation + 1⟩ := by
      intro event mem same
      have := agrees.past event mem
      rw [same] at this
      simp only at this
      omega
    refine agrees.one ?_ (by rw [packed]; omega) ?_ ?_
    · simp [Event.member, packed]
    · rw [joins_append, nodup_append]
      refine ⟨agrees.once, by simp [joins], fun member mem member' mem' same => ?_⟩
      rw [mem_joins] at mem
      obtain rfl : member' = ⟨slot, (s.members slot).generation + 1⟩ := by simpa [joins] using mem'
      exact new _ mem same
    · intro g
      rw [MemberWord.pack_status (by omega), packed]
      simp only [true_and]
      constructor
      · rintro ⟨joined, left, died⟩
        by_contra other
        have old : Event.joined ⟨slot, g⟩ ∈ s.log := by
          rcases mem_append.mp joined with old | last
          · exact old
          · simp only [mem_singleton, Event.joined.injEq, Member.mk.injEq, true_and] at last
            exact absurd last.symm other
        exact agrees.absent (by simp [free]) g
          ⟨old, fun h => left (mem_append_left _ h), fun h => died (mem_append_left _ h)⟩
      · rintro rfl
        refine ⟨by simp, fun left => ?_, fun died => ?_⟩
        · rcases mem_append.mp left with old | last
          · exact new _ old rfl
          · simp at last
        · rcases mem_append.mp died with old | last
          · exact new _ old rfl
          · simp at last
  | retired slot free last =>
    have step : Agrees ⟨update s.members slot (.pack (s.members slot).generation .retired), s.log ++ []⟩ := by
      refine agrees.one (by simp) (by rw [MemberWord.pack_generation (le slot)]) (by simpa using agrees.once) fun g => ?_
      rw [MemberWord.pack_status (le slot)]
      simp only [reduceCtorEq, false_and, iff_false, append_nil]
      exact agrees.absent (by simp [free]) g
    simpa using step
  | left slot live => exact agrees.ended rfl rfl (by decide) fun _ => .inl rfl
  | died slot live => exact agrees.ended rfl rfl (by decide) fun _ => .inr rfl
  | released slot dead =>
    exact agrees.ended rfl rfl (by split <;> decide) fun was => absurd was (agrees.absent (by simp [dead]) _)

/-! ### Runs -/

/-- The generation that the operation presents fits its field. -/
def Fits (T : Target) (op : Op) : Prop := ∀ member, op.member = some member → member.generation ≤ generationMax T

instance (op : Op) : Decidable (Fits T op) :=
  match h : op.member with
  | none => .isTrue fun _ same => by rw [h] at same; cases same
  | some member => decidable_of_iff (member.generation ≤ generationMax T)
      ⟨fun le _ same => by rw [h, Option.some.injEq] at same; exact same ▸ le, fun fits => fits member h⟩

/-- Words and log agree, and no step goes back. -/
def identity (T : Target) : Protocol (Shared T) Unit Op Unit where
  inv := fun s _ _ => Agrees s
  idle := fun _ => True
  guar := Later
  cond := fun op _ _ => Fits T op

theorem compareExchange_spec {expected new : MemberWord T} {event : Option Event}
    (moves : ∀ s : Shared T, s.members slot = expected → Fits T op →
      Moves s ⟨update s.members slot new, s.log ++ event.toList⟩) :
    (identity T).Triple op (compareExchange slot expected new event) () fun _ _ => True := by
  refine .action fun s dead views t inv view fits => ⟨(), ?_⟩
  split
  · rename_i here
    have step := moves s here fits
    exact ⟨step.agrees inv, step.later, trivial⟩
  · exact ⟨inv, .refl s, trivial⟩

theorem joinFrom_spec (n slot : Nat) : (identity T).Triple op (joinFrom n slot) () fun _ _ => True := by
  induction n generalizing slot with
  | zero => trivial
  | succ n ih =>
    refine .seq (.peek .refl (fun _ => trivial) : (identity T).Triple op (load slot) () fun _ _ => True) ?_
    rintro observed ⟨⟩ -
    split
    · exact ih (slot + 1)
    rename_i free
    split
    · rename_i last
      refine .seq (compareExchange_spec fun s here fits => ?_) fun _ _ _ => ih (slot + 1)
      rw [← here] at free last ⊢
      simpa using Moves.retired slot (not_not.mp free) last
    · rename_i more
      refine .seq (compareExchange_spec fun s here fits => ?_) ?_
      · rw [← here] at free more ⊢
        have le := (s.members slot).generation_le
        exact .joined slot (not_not.mp free) (by omega)
      · rintro taken ⟨⟩ -
        split
        · trivial
        · exact ih (slot + 1)

theorem move_spec {before after : Status} {event : Event} (mine : op.member = some member)
    (moves : ∀ s : Shared T, (s.members member.slot).generation = member.generation →
      (s.members member.slot).status = before →
      Moves s ⟨update s.members member.slot (.pack member.generation after), s.log ++ [event]⟩) :
    (identity T).Triple op (move member before after event) () fun _ _ => True := by
  unfold move
  split
  · refine compareExchange_spec fun s here fits => ?_
    obtain ⟨generation, status⟩ := (MemberWord.eq_pack_iff (fits member mine)).mp here
    exact moves s generation status
  · trivial

theorem code_spec (op : Op) : (identity T).Triple op op.code () fun _ _ => True := by
  cases op with
  | join p => exact .seq (joinFrom_spec _ _) fun _ _ _ => trivial
  | leave p member =>
    refine .seq (move_spec rfl fun s generation status => ?_) fun _ _ _ => trivial
    have step := Moves.left member.slot status
    rwa [generation] at step
  | markDead p member =>
    refine .seq (move_spec rfl fun s generation status => ?_) fun _ _ _ => trivial
    have step := Moves.died member.slot status
    rwa [generation] at step
  | isDead p member =>
    refine .seq (R := fun _ _ => True) ?_ fun _ _ _ => trivial
    unfold isDead
    split
    · exact .seq (R := fun _ _ => True) (.peek .refl fun _ => trivial) fun _ _ _ => trivial
    · trivial
  | releaseDead p member =>
    refine .seq (move_spec rfl fun s generation status => ?_) fun _ _ _ => trivial
    have step := Moves.released member.slot status
    rwa [generation] at step

theorem sound (T : Target) : (identity T).Sound (machine T) (.init T) where
  init := by
    refine ⟨by simp [Shared.init], by simp [Shared.init, joins], fun slot g => ?_⟩
    have status : ((Shared.init T).members slot).status = .free := by
      rw [MemberWord.status_eq]
      rfl
    rw [status]
    simp [Present, Shared.init]
  spawn := fun inv _ _ _ _ => ⟨(), inv, (code_spec _).mono fun _ _ _ => trivial⟩
  retire := fun inv _ _ => inv
  crash := fun inv _ => ⟨inv, .refl _⟩
  rejoin := fun inv _ _ _ => inv
  refl := .refl

abbrev Fitting (T : Target) (c : Config (Shared T) Unit Op) : Step Op → Prop :=
  Allowed (fun op _ _ => Fits T op) (fun _ _ => True) c

/-- An operation for a generation that is not the one of the slot's word changes nothing. -/
theorem move_stale (fits : member.generation ≤ generationMax T)
    (stale : (s.members member.slot).generation ≠ member.generation) (before after : Status) (event : Event)
    (oracle : Nat → Nat) (n : Nat) : (move member before after event).solo oracle n s = (s, false) := by
  unfold move
  split
  · have other : s.members member.slot ≠ .pack member.generation before :=
      fun same => stale ((MemberWord.eq_pack_iff fits).mp same).1
    exact if_neg other
  · rfl

/-- **Identity of participants**, in every run of processes that join, leave, mark others dead and release them, in which
every generation that is presented fits its field: no two joins are for the same slot and generation; at most one member of a
slot is present, and the slot's word says who; an operation for another generation changes nothing; a dead slot stays as it
is until it is released, and one that ends in the last generation retires for ever. -/
theorem participant_identity (T : Target) {c c' : Config (Shared T) Unit Op}
    (run : (machine T).Run (Fitting T) (.start (.init T)) c) (further : (machine T).Run (Fitting T) c c') :
    (joins c.shared.log).Nodup ∧
    (∀ slot g, Present c.shared ⟨slot, g⟩ ↔
      (c.shared.members slot).status = .live ∧ (c.shared.members slot).generation = g) ∧
    (∀ slot g g', Present c.shared ⟨slot, g⟩ → Present c.shared ⟨slot, g'⟩ → g = g') ∧
    (∀ member : Member, member.generation ≤ generationMax T →
      (c.shared.members member.slot).generation ≠ member.generation → ∀ oracle n,
      (leave member).solo oracle n c.shared = (c.shared, false) ∧
      (markDead member).solo oracle n c.shared = (c.shared, false) ∧
      (releaseDead member).solo oracle n c.shared = (c.shared, false)) ∧
    ∀ slot,
      ((c.shared.members slot).status = .dead →
        Event.released ⟨slot, (c.shared.members slot).generation⟩ ∉ c'.shared.log →
        c'.shared.members slot = c.shared.members slot) ∧
      (c.shared.members slot).generation ≤ (c'.shared.members slot).generation ∧
      (c'.shared.members slot).generation ≤ generationMax T ∧
      ((c.shared.members slot).generation = generationMax T → (c.shared.members slot).status = .free →
        (c'.shared.members slot).status = .free ∨ (c'.shared.members slot).status = .retired) ∧
      ((c.shared.members slot).status = .retired → c'.shared.members slot = c.shared.members slot) := by
  have holds := (sound T).run (sound T).start run
  have ⟨_, inv, _⟩ := holds
  have agrees : Agrees c.shared := inv
  have later : Later c.shared c'.shared := (sound T).run_guar (fun _ _ _ => Later.trans) holds further
  refine ⟨agrees.once, agrees.present, fun slot g g' here here' => ?_, fun member fits stale oracle n => ?_, fun slot => ?_⟩
  · rw [← ((agrees.present slot g).mp here).2, ((agrees.present slot g').mp here').2]
  · exact ⟨move_stale fits stale _ _ _ oracle n, move_stale fits stale _ _ _ oracle n,
      move_stale fits stale _ _ _ oracle n⟩
  · exact ⟨later.dead slot, later.generation slot, MemberWord.generation_le _, later.exhausted slot, later.retired slot⟩

/-- A process joins and leaves, and its slot is joined again. -/
theorem participant_identity_twice : ∃ c, (machine ⟨64, .inr rfl⟩).Run (Fitting _) (.start (.init _)) c ∧
    joins c.shared.log = [⟨0, 1⟩, ⟨0, 2⟩] ∧ (joins c.shared.log).Nodup := by
  let T : Target := ⟨64, .inr rfl⟩
  have steps : ((machine T).execIf (Fitting T) (.start (.init T)) [.spawn (.join 0), .run 0 0, .run 0 0,
      .spawn (.leave 0 ⟨0, 1⟩), .run 1 0, .spawn (.join 1), .run 2 0, .run 2 0]).map
      (fun c => joins c.shared.log) = some [⟨0, 1⟩, ⟨0, 2⟩] := by decide +kernel
  obtain ⟨c, run, same⟩ := Machine.exists_run steps
  exact ⟨c, run, same, (participant_identity T run .refl).1⟩

/-- A process has joined as member 1 of slot 0. Another one presents the generation `2 ^ 62 + 1`, whose packed words are
those of generation 1: the slot is marked dead and released, and the next process joins as member 2 beside the first. -/
theorem forged_generation_releases : ∃ c, (machine ⟨64, .inr rfl⟩).Reaches (.start (.init _)) c ∧
    Present c.shared ⟨0, 1⟩ ∧ Present c.shared ⟨0, 2⟩ ∧ Event.released ⟨0, 1⟩ ∉ c.shared.log := by
  let T : Target := ⟨64, .inr rfl⟩
  have steps : ((machine T).execAll (.start (.init T)) [.spawn (.join 0), .run 0 0, .run 0 0,
      .spawn (.markDead 1 ⟨0, 2 ^ 62 + 1⟩), .run 1 0, .spawn (.releaseDead 1 ⟨0, 2 ^ 62 + 1⟩), .run 2 0,
      .spawn (.join 1), .run 3 0, .run 3 0]).map (fun c => c.shared.log) =
      some [.joined ⟨0, 1⟩, .died ⟨0, 2 ^ 62 + 1⟩, .released ⟨0, 2 ^ 62 + 1⟩, .joined ⟨0, 2⟩] := by decide +kernel
  obtain ⟨c, run, log⟩ := Machine.exists_reaches steps
  refine ⟨c, run, ?_⟩
  unfold Present
  rw [log]
  decide

end Evering.Root
