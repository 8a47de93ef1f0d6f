import Evering.Interleave.Protocol
import Evering.Pool.Ledger

/-!
# Custody of allocations and tokens

While an operation has an allocation or a token by value, no other operation touches it; a token for a
generation that is still allocated is in the hands of the operation that has the allocation, or its owner
is dead. `Custody.step` says what an atomic action has to leave alone for this to stay so.
-/

namespace Evering.Pool

open Interleave Function

/-- What a running operation has by value. -/
inductive View
  | idle
  | allocation (a : Nat) (al : Allocation)
  /-- a live transfer staged as token `k` -/
  | staged (a : Nat) (al : Allocation) (k : Nat) (tok : Token)
  /-- a token that is staged and needs no allocation any more -/
  | posted (k : Nat) (tok : Token)
  /-- a received token; `ended` when its generation is settled -/
  | received (k : Nat) (tok : Token) (ended : Bool)
  /-- a received token whose allocation was taken over -/
  | took (a : Nat) (al : Allocation) (k : Nat) (tok : Token)
  /-- a token of a dead participant, read by its repair -/
  | inspecting (dead k : Nat) (tok : Token) (ended : Bool)

namespace View

def allocationId : View → Option Nat
  | allocation a _ => some a
  | staged a _ _ _ => some a
  | took a _ _ _ => some a
  | _ => none

def tokenId : View → Option Nat
  | staged _ _ k _ => some k
  | posted k _ => some k
  | received k _ _ => some k
  | took _ _ k _ => some k
  | _ => none

end View

/-- The operation of participant `p` has the allocation. -/
structure Has (s : Shared) (p a : Nat) (al : Allocation) : Prop where
  live : s.allocation a = some al
  busy : s.busy a = true
  owner : al.owner = p

structure At (s : Shared) (k : Nat) (tok : Token) (place : Place) : Prop where
  present : s.token k = some tok
  place : s.place k = place

/-- A token `k` that the repair for `dead` has read: still there, or gone and settled. -/
structure Inspected (s : Shared) (dead k : Nat) (tok : Token) (ended : Bool) : Prop where
  started : k < s.nextToken
  present : ∀ tok', s.token k = some tok' → tok' = tok ∧ (s.place k).owner = some dead
  gone : s.token k = none → Settled s tok.key
  ended : ended = true → Settled s tok.key

def View.Ok (s : Shared) (op : Op) : View → Prop
  | idle => True
  | allocation a al => Has s op.owner a al
  | staged a al k tok => Has s op.owner a al ∧ At s k tok (.staged op.owner) ∧ tok.key = al.key
  | posted k tok => At s k tok (.staged op.owner)
  | received k tok ended => At s k tok (.claimed op.owner true) ∧ (ended = true → Settled s tok.key)
  | took a al k tok => Has s op.owner a al ∧ At s k tok (.claimed op.owner true) ∧ tok.key = al.key
  | inspecting dead k tok ended => op.reaps = some dead ∧ Inspected s dead k tok ended

structure Custody (pool : Storage) (s : Shared) (dead : Nat → Bool) (views : Views Op View) : Prop where
  alive : ∀ {t op v}, views t = some (op, v) → dead op.owner = false ∧ op.owner < pool.capacity
  reaps : ∀ {t op v d}, views t = some (op, v) → op.reaps = some d → dead d = true
  view : ∀ {t op v}, views t = some (op, v) → v.Ok s op
  allocation_one : ∀ {t t' op op' v v' a}, views t = some (op, v) → views t' = some (op', v') →
    v.allocationId = some a → v'.allocationId = some a → t = t'
  token_one : ∀ {t t' op op' v v' k}, views t = some (op, v) → views t' = some (op', v') →
    v.tokenId = some k → v'.tokenId = some k → t = t'
  tied : ∀ {a al k tok}, s.allocation a = some al → s.token k = some tok → tok.key = al.key →
    dead al.owner = true ∨
      ∃ t op v, views t = some (op, v) ∧ v.allocationId = some a ∧ v.tokenId = some k

/-- Generations never go back, and a free generation is not allocated again. -/
def Grows (s s' : Shared) : Prop :=
  ∀ c i, (s.auth c i).generation ≤ (s'.auth c i).generation ∧
    ∀ g, s.auth c i = .free g → s'.auth c i = .free g ∨ g < (s'.auth c i).generation

theorem Grows.refl (s : Shared) : Grows s s :=
  fun _ _ => ⟨Nat.le_refl _, fun _ h => .inl h⟩

variable {s s' : Shared} {c i : Nat} {x : Auth}

theorem Grows.trans {s'' : Shared} (h : Grows s s') (h' : Grows s' s'') : Grows s s'' := by
  intro c i
  obtain ⟨le, free⟩ := h c i
  obtain ⟨le', free'⟩ := h' c i
  refine ⟨le.trans le', fun g hg => ?_⟩
  rcases free g hg with same | passed
  · exact free' g same
  · exact .inr (passed.trans_le le')

theorem Grows.of_word (h : s'.word = s.word) : Grows s s' := by
  intro c i
  have auth : s'.auth c i = s.auth c i := by rw [Shared.auth, h, Shared.auth]
  rw [auth]
  exact ⟨Nat.le_refl _, fun _ h => .inl h⟩

theorem Grows.of_setWord {pool : Storage} (word : s'.word = (s.setWord c i x.word).word) (fits : x.Fits pool.capacity)
    (le : (s.auth c i).generation ≤ x.generation) (free : ∀ g, s.auth c i = .free g → g < x.generation) : Grows s s' := by
  intro c' i'
  by_cases here : c' = c ∧ i' = i
  · obtain ⟨rfl, rfl⟩ := here
    have auth : s'.auth c' i' = x := by
      rw [Shared.auth, word]
      exact auth_setWord_self fits
    rw [auth]
    exact ⟨le, fun g h => .inr (free g h)⟩
  · have auth : s'.auth c' i' = s.auth c' i' := by
      rw [Shared.auth, word, word_setWord_of_ne here, Shared.auth]
    rw [auth]
    exact ⟨Nat.le_refl _, fun _ h => .inl h⟩

theorem Grows.of_allocated (pool : Storage) (word : s'.word = (s.setWord c i x.word).word) (fits : x.Fits pool.capacity)
    (allocated : (s.auth c i).allocated = true) (generation : (s.auth c i).generation = x.generation) : Grows s s' := by
  refine .of_setWord word fits (Nat.le_of_eq generation) fun g free => ?_
  rw [free] at allocated
  cases allocated

theorem Settled.grows {key : Key} (h : Settled s key) (grows : Grows s s') : Settled s' key := by
  obtain ⟨le, free⟩ := grows key.1 key.2.1
  rcases h with zero | same | passed
  · exact .inl zero
  · exact .inr (free _ same)
  · exact .inr (.inr (passed.trans_le le))

/-- What an action of a thread with view `v` leaves to the other threads. -/
structure Untouched (s s' : Shared) (dead : Nat → Bool) (v : View) : Prop where
  grows : Grows s s'
  allocation : ∀ {a al}, s.allocation a = some al → s.busy a = true → dead al.owner = false →
    v.allocationId ≠ some a → s'.allocation a = some al ∧ s'.busy a = true
  token : ∀ {k tok p}, s.token k = some tok → s.place k = .staged p ∨ s.place k = .claimed p true →
    dead p = false → v.tokenId ≠ some k → s'.token k = some tok ∧ s'.place k = s.place k
  orphan : ∀ {k tok d}, s.token k = some tok → (s.place k).owner = some d → dead d = true →
    s'.token k = some tok ∧ s'.place k = s.place k ∨ s'.token k = none ∧ Settled s' tok.key
  started : s.nextToken ≤ s'.nextToken
  gone : ∀ {k}, k < s.nextToken → s.token k = none → s'.token k = none

section Frame

variable {pool : Storage} {s s' : Shared} {dead : Nat → Bool} {views : Views Op View} {t : Nat}
  {op : Op} {v v' : View}

theorem Untouched.view (frame : Untouched s s' dead v) (custody : Custody pool s dead views)
    (ht : views t = some (op, v)) {u : Nat} {op' : Op} {w : View} (hu : views u = some (op', w))
    (ne : u ≠ t) : w.Ok s' op' := by
  have ok := custody.view hu
  obtain ⟨alive, -⟩ := custody.alive hu
  have has : ∀ {a al}, w.allocationId = some a → Has s op'.owner a al → Has s' op'.owner a al := by
    intro a al id has
    have kept := frame.allocation has.live has.busy (has.owner ▸ alive) fun mine =>
      ne (custody.allocation_one hu ht id mine)
    exact ⟨kept.1, kept.2, has.owner⟩
  have «at» : ∀ {k tok place}, place = .staged op'.owner ∨ place = .claimed op'.owner true →
      w.tokenId = some k → At s k tok place → At s' k tok place := by
    intro k tok place which id here
    have kept := frame.token here.present (by rw [here.place]; exact which) alive fun mine =>
      ne (custody.token_one hu ht id mine)
    exact ⟨kept.1, kept.2.trans here.place⟩
  cases w with
  | idle => trivial
  | allocation a al => exact has rfl ok
  | staged a al k tok => exact ⟨has rfl ok.1, «at» (.inl rfl) rfl ok.2.1, ok.2.2⟩
  | posted k tok => exact «at» (.inl rfl) rfl ok
  | received k tok ended =>
    exact ⟨«at» (.inr rfl) rfl ok.1, fun h => (ok.2 h).grows frame.grows⟩
  | took a al k tok => exact ⟨has rfl ok.1, «at» (.inr rfl) rfl ok.2.1, ok.2.2⟩
  | inspecting d k tok ended =>
    obtain ⟨reaps, ok⟩ := ok
    refine ⟨reaps, ok.started.trans_le frame.started, ?_, ?_, fun h => (ok.ended h).grows frame.grows⟩
    · intro tok' h'
      rcases h : s.token k with _ | old
      · rw [frame.gone ok.started h] at h'
        cases h'
      · obtain ⟨rfl, owner⟩ := ok.present old h
        rcases frame.orphan h owner (custody.reaps hu reaps) with ⟨same, place⟩ | ⟨none, -⟩
        · rw [same, Option.some.injEq] at h'
          exact ⟨h'.symm, place ▸ owner⟩
        · rw [none] at h'
          cases h'
    · intro h'
      rcases h : s.token k with _ | old
      · exact (ok.gone h).grows frame.grows
      · obtain ⟨rfl, owner⟩ := ok.present old h
        rcases frame.orphan h owner (custody.reaps hu reaps) with ⟨same, -⟩ | ⟨-, settled⟩
        · rw [same] at h'
          cases h'
        · exact settled

/-- **Custody over one action.** The new view must hold in the new state, may take over only what no
other view has, and must keep together an allocation and a token that the action brought together. -/
theorem Custody.step (custody : Custody pool s dead views) (ht : views t = some (op, v))
    (frame : Untouched s s' dead v) (ok : v'.Ok s' op) (allocation : ∀ a, v'.allocationId = some a → v.allocationId = some a ∨
      ∀ u op' w, views u = some (op', w) → w.allocationId ≠ some a)
    (token : ∀ k, v'.tokenId = some k → v.tokenId = some k ∨ ∀ u op' w, views u = some (op', w) → w.tokenId ≠ some k)
    (tied : ∀ a al k tok, s'.allocation a = some al → s'.token k = some tok → tok.key = al.key →
      (s.allocation a = some al ∧ s.token k = some tok ∧ ¬(v.allocationId = some a ∧ v.tokenId = some k)) ∨
      (v'.allocationId = some a ∧ v'.tokenId = some k)) : Custody pool s' dead (update views t (some (op, v'))) := by
  constructor
  case alive => exact Views.put (custody.alive ht) fun _ => custody.alive
  case reaps => exact Views.put (custody.reaps ht) fun _ => custody.reaps
  case view => exact Views.put ok fun ne old => frame.view custody ht old ne
  case allocation_one =>
    refine Views.put_pair (fun _ _ => rfl) (fun _ old id id' => ?_) (fun _ old id id' => ?_) custody.allocation_one
    · rcases allocation _ id with mine | free
      · exact custody.allocation_one ht old mine id'
      · exact absurd id' (free _ _ _ old)
    · rcases allocation _ id' with mine | free
      · exact custody.allocation_one old ht id mine
      · exact absurd id (free _ _ _ old)
  case token_one =>
    refine Views.put_pair (fun _ _ => rfl) (fun _ old id id' => ?_) (fun _ old id id' => ?_) custody.token_one
    · rcases token _ id with mine | free
      · exact custody.token_one ht old mine id'
      · exact absurd id' (free _ _ _ old)
    · rcases token _ id' with mine | free
      · exact custody.token_one old ht id mine
      · exact absurd id (free _ _ _ old)
  case tied =>
    intro a al k tok ha hk key
    rcases tied a al k tok ha hk key with ⟨ha, hk, notMine⟩ | mine
    · rcases custody.tied ha hk key with gone | ⟨u, op', w, hu, ids⟩
      · exact .inl gone
      · refine .inr ⟨u, op', w, ?_, ids⟩
        rw [update_of_ne, hu]
        rintro rfl
        rw [ht, Option.some.injEq, Prod.mk.injEq] at hu
        exact notMine (hu.2 ▸ ids)
    · exact .inr ⟨t, op, v', update_self .., mine⟩

theorem Untouched.refl : Untouched s s dead v :=
  ⟨.refl s, fun h h' _ _ => ⟨h, h'⟩, fun h _ _ _ => ⟨h, rfl⟩, fun h _ _ => .inl ⟨h, rfl⟩,
    Nat.le_refl _, fun _ h => h⟩

theorem Custody.learn (custody : Custody pool s dead views) (ht : views t = some (op, v))
    (ok : v'.Ok s op) (allocation : v'.allocationId = v.allocationId) (token : v'.tokenId = v.tokenId) :
    Custody pool s dead (update views t (some (op, v'))) := by
  refine custody.step ht .refl ok ?_ ?_ ?_
  · exact fun a h => .inl (allocation ▸ h)
  · exact fun k h => .inl (token ▸ h)
  · intro a al k tok ha hk _
    rw [allocation, token]
    by_cases mine : v.allocationId = some a ∧ v.tokenId = some k
    · exact .inr mine
    · exact .inl ⟨ha, hk, mine⟩

variable {a k : Nat} {tok : Token} {place : Place}

theorem Custody.allocation_free (custody : Custody pool s dead views) (h : s.busy a = false ∨ s.allocation a = none) :
    ∀ u op' w, views u = some (op', w) → w.allocationId ≠ some a := by
  intro u op' w hu id
  have ok := custody.view hu
  have has : ∀ {al}, Has s op'.owner a al → False := by
    intro al has
    rcases h with h | h
    · rw [has.busy] at h
      cases h
    · rw [has.live] at h
      cases h
  cases w <;> simp only [View.allocationId, Option.some.injEq, reduceCtorEq] at id <;> subst id
  · exact has ok
  · exact has ok.1
  · exact has ok.1

theorem Custody.token_free (custody : Custody pool s dead views) (h : s.token k = none ∨ ∃ q, s.place k = .claimed q false) :
    ∀ u op' w, views u = some (op', w) → w.tokenId ≠ some k := by
  intro u op' w hu id
  have ok := custody.view hu
  have «at» : ∀ {tok place}, place = .staged op'.owner ∨ place = .claimed op'.owner true →
      At s k tok place → False := by
    intro tok place which here
    rcases h with h | ⟨q, h⟩
    · rw [here.present] at h
      cases h
    · rw [here.place] at h
      rcases which with rfl | rfl <;> simp at h
  cases w <;> simp only [View.tokenId, Option.some.injEq, reduceCtorEq] at id <;> subst id
  · exact «at» (.inl rfl) ok.2.1
  · exact «at» (.inl rfl) ok
  · exact «at» (.inr rfl) ok.1
  · exact «at» (.inr rfl) ok.2.1

/-- Of the tokens that go with the allocation in a view, only the one in that view exists. -/
theorem Custody.only_token (custody : Custody pool s dead views) (ht : views t = some (op, v))
    {al : Allocation} (ha : s.allocation a = some al)
    (id : v.allocationId = some a) (alive : dead al.owner = false) (hk : s.token k = some tok)
    (key : tok.key = al.key) : v.tokenId = some k := by
  rcases custody.tied ha hk key with gone | ⟨u, op', w, hu, id', id''⟩
  · rw [alive] at gone
    cases gone
  · have same := custody.allocation_one hu ht id' id
    subst same
    rw [ht, Option.some.injEq, Prod.mk.injEq] at hu
    rw [hu.2]
    exact id''

/-! ### What each effect leaves alone -/

theorem Untouched.setBusy {busy : Bool} (h : v.allocationId = some a ∨ s.busy a = false) :
    Untouched s (s.setBusy a busy) dead v where
  grows := .of_word rfl
  allocation := by
    intro a' al live held _ other
    refine ⟨live, (update_of_ne ?_ ..).trans held⟩
    rintro rfl
    rcases h with mine | free
    · exact other mine
    · rw [held] at free
      cases free
  token := fun h _ _ _ => ⟨h, rfl⟩
  orphan := fun h _ _ => .inl ⟨h, rfl⟩
  started := Nat.le_refl _
  gone := fun _ h => h

theorem Untouched.setPlace (alive : ∀ d, (s.place k).owner = some d → dead d = false)
    (h : v.tokenId = some k ∨ ∀ p, s.place k ≠ .staged p ∧ s.place k ≠ .claimed p true) :
    Untouched s (s.setPlace k place) dead v where
  grows := .of_word rfl
  allocation := fun h h' _ _ => ⟨h, h'⟩
  token := by
    intro k' tok p here held _ other
    refine ⟨here, update_of_ne ?_ ..⟩
    rintro rfl
    rcases h with mine | free
    · exact other mine
    · exact held.elim (free p).1 (free p).2
  orphan := by
    intro k' tok d here owner gone
    refine .inl ⟨here, update_of_ne ?_ ..⟩
    rintro rfl
    rw [alive d owner] at gone
    cases gone
  started := Nat.le_refl _
  gone := fun _ h => h

theorem Untouched.removeToken
    (h : v.tokenId = some k ∨ ∀ tok p, s.token k = some tok → (s.place k).owner = some p → dead p = true)
    (settled : ∀ tok d, s.token k = some tok → (s.place k).owner = some d → dead d = true →
      Settled s tok.key) : Untouched s (s.removeToken k) dead v where
  grows := .of_word rfl
  allocation := fun h h' _ _ => ⟨h, h'⟩
  token := by
    intro k' tok p here held alive other
    refine ⟨(update_of_ne ?_ ..).trans here, rfl⟩
    rintro rfl
    rcases h with mine | gone
    · exact other mine
    · have owner : (s.place k').owner = some p := by rcases held with held | held <;> rw [held] <;> rfl
      rw [gone tok p here owner] at alive
      cases alive
  orphan := by
    intro k' tok d here owner gone
    by_cases same : k' = k
    · subst same
      exact .inr ⟨update_self .., settled tok d here owner gone⟩
    · exact .inl ⟨(update_of_ne same ..).trans here, rfl⟩
  started := Nat.le_refl _
  gone := by
    intro k' _ none
    by_cases same : k' = k
    · subst same
      exact update_self ..
    · exact (update_of_ne same ..).trans none

theorem Untouched.addToken (fresh : s.token s.nextToken = none) : Untouched s (s.addToken tok place) dead v := by
  have old : ∀ {k tok'}, s.token k = some tok' →
      (s.addToken tok place).token k = some tok' ∧ (s.addToken tok place).place k = s.place k := by
    intro k tok' here
    have ne : k ≠ s.nextToken := by
      rintro rfl
      rw [fresh] at here
      cases here
    exact ⟨(update_of_ne ne ..).trans here, update_of_ne ne ..⟩
  exact ⟨.of_word rfl, fun h h' _ _ => ⟨h, h'⟩, fun h _ _ _ => old h, fun h _ _ => .inl (old h),
    Nat.le_succ _, fun lt h => (update_of_ne (Nat.ne_of_lt lt) ..).trans h⟩

/-- An action on a word that leaves the tokens, and of the allocations all that are in other hands. -/
theorem Untouched.ofWord (grows : Grows s s') (token : s'.token = s.token) (place : s'.place = s.place)
    (nextToken : s'.nextToken = s.nextToken)
    (allocation : ∀ {a al}, s.allocation a = some al → s.busy a = true → dead al.owner = false →
      v.allocationId ≠ some a → s'.allocation a = some al ∧ s'.busy a = true) : Untouched s s' dead v where
  grows := grows
  allocation := allocation
  token := fun h _ _ _ => ⟨token ▸ h, by rw [place]⟩
  orphan := fun h _ _ => .inl ⟨token ▸ h, by rw [place]⟩
  started := Nat.le_of_eq nextToken.symm
  gone := fun _ h => token ▸ h

end Frame

end Evering.Pool
