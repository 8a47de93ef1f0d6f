import Evering.Pool.Model

/-!
# The ledger of a Pool

What the state words, the live allocations and the tokens agree on in every reachable state:

- a word that is owned has exactly one allocation, which carries its generation and owner;
- a word that is detached has exactly one armed token, and every token for that generation is armed;
- a free word has neither, and its generation is not allocated again.

An atomic action touches the word, the allocations and the tokens of one slot, so the ledger is kept slot
by slot: `SlotLedger.frame` covers all slots an action does not touch, and one lemma per action covers the
slot it does.
-/

namespace Evering.Pool

open Function List

/-- One generation of a slot. -/
abbrev Key := Nat × Nat × Nat

def Allocation.key (al : Allocation) : Key := (al.cls, al.slot, al.generation)

def Token.key (token : Token) : Key := (token.cls, token.slot, token.generation)

def Shared.auth (s : Shared) (cls slot : Nat) : Auth :=
  (s.word cls slot).auth

/-- This generation of the slot is over: freed, or passed, or the zero of an empty allocation. -/
def Settled (s : Shared) (key : Key) : Prop :=
  key.2.2 = 0 ∨ s.auth key.1 key.2.1 = .free key.2.2 ∨ key.2.2 < (s.auth key.1 key.2.1).generation

structure SlotLedger (pool : Storage) (s : Shared) (c i : Nat) : Prop where
  fits : (s.auth c i).Fits pool.capacity ∧ s.word c i = (s.auth c i).word
  positive : (s.auth c i).allocated = true → (s.auth c i).generation ≠ 0
  allocation : ∀ {a al}, s.allocation a = some al → al.cls = c → al.slot = i →
    s.auth c i = .owned al.generation al.owner ∧ (c, i) ∈ pool.slots
  allocation_unique : ∀ {a a' al al'}, s.allocation a = some al → s.allocation a' = some al' →
    al.cls = c → al.slot = i → al'.cls = c → al'.slot = i → a = a'
  owned_held : ∀ {g p}, s.auth c i = .owned g p →
    ∃ a al, s.allocation a = some al ∧ al.cls = c ∧ al.slot = i
  armed : ∀ {k tok}, s.token k = some tok → tok.cls = c → tok.slot = i → tok.generation ≠ 0 →
    (s.armed k = true ↔ s.auth c i = .detached tok.generation)
  armed_unique : ∀ {k k' tok tok'}, s.token k = some tok → s.token k' = some tok' →
    tok.cls = c → tok.slot = i → tok'.cls = c → tok'.slot = i →
    s.armed k = true → s.armed k' = true → k = k'
  armed_empty : ∀ {k tok}, s.token k = some tok → tok.cls = c → tok.slot = i → tok.generation = 0 →
    s.armed k = false
  detached_held : ∀ {g}, s.auth c i = .detached g →
    ∃ k tok, s.token k = some tok ∧ tok.cls = c ∧ tok.slot = i ∧ s.armed k = true
  recorded : ∀ {k tok}, s.token k = some tok → tok.cls = c → tok.slot = i →
    tok.generation ≤ (s.auth c i).generation
  freed : ∀ {g}, (c, i, g) ∈ s.frees → g < (s.auth c i).generation ∨ s.auth c i = .free g
  claimed : ∀ {g}, (c, i, g) ∈ s.claims → g ≤ (s.auth c i).generation

structure Ledger (pool : Storage) (s : Shared) : Prop where
  slot : ∀ c i, SlotLedger pool s c i
  allocation_fresh : ∀ {a}, s.nextAllocation ≤ a → s.allocation a = none
  token_fresh : ∀ {k}, s.nextToken ≤ k → s.token k = none
  frees_nodup : s.frees.Nodup
  claims_increase : s.claims.Pairwise fun earlier later =>
    earlier.1 = later.1 → earlier.2.1 = later.2.1 → earlier.2.2 < later.2.2

theorem Storage.capacity_small (pool : Storage) : pool.capacity ≤ 63 :=
  pool.target.participantCapacity_le

section Slots

variable {pool : Storage} {s s' : Shared} {c i c' i' : Nat} {x : Auth}

theorem Ledger.init (pool : Storage) : Ledger pool Shared.init := by
  have zero : (Auth.free 0).Fits pool.capacity := Nat.zero_le _
  have word : ∀ c i, Shared.init.word c i = (Auth.free 0).word := fun _ _ =>
    State.free_eq (Nat.zero_le _)
  have free : ∀ c i, Shared.init.auth c i = .free 0 := fun c i => by
    rw [Shared.auth, word, Auth.auth_word pool.capacity_small zero]
  refine ⟨fun c i => ?_, by simp [Shared.init], by simp [Shared.init], nodup_nil, .nil⟩
  constructor
  case fits => rw [free]; exact ⟨zero, word c i⟩
  case positive => rw [free]; simp [Auth.allocated]
  case owned_held => rw [free]; simp
  case detached_held => rw [free]; simp
  all_goals simp [Shared.init]

theorem auth_setWord_self (fits : x.Fits pool.capacity) : (s.setWord c i x.word).auth c i = x := by
  simp only [Shared.auth, Shared.setWord, update_self]
  exact Auth.auth_word pool.capacity_small fits

theorem word_setWord_of_ne {state : State} (h : ¬(c' = c ∧ i' = i)) : (s.setWord c i state).word c' i' = s.word c' i' := by
  simp only [Shared.setWord]
  by_cases hc : c' = c
  · subst hc
    rw [update_self, update_of_ne fun hi => h ⟨rfl, hi⟩]
  · rw [update_of_ne hc]

theorem Ledger.word_iff (ledger : Ledger pool s) (fits : x.Fits pool.capacity) : s.word c i = x.word ↔ s.auth c i = x := by
  constructor
  · intro h
    rw [Shared.auth, h, Auth.auth_word pool.capacity_small fits]
  · intro h
    rw [(ledger.slot c i).fits.2, h]

theorem SlotLedger.frame (slot : SlotLedger pool s c i) (word : s'.word c i = s.word c i)
    (allocation : ∀ a al, al.cls = c → al.slot = i → (s'.allocation a = some al ↔ s.allocation a = some al))
    (token : ∀ k tok, tok.cls = c → tok.slot = i → (s'.token k = some tok ↔ s.token k = some tok))
    (armed : ∀ k tok, s.token k = some tok → tok.cls = c → tok.slot = i → s'.armed k = s.armed k)
    (frees : ∀ g, (c, i, g) ∈ s'.frees → (c, i, g) ∈ s.frees)
    (claims : ∀ g, (c, i, g) ∈ s'.claims → (c, i, g) ∈ s.claims) : SlotLedger pool s' c i := by
  have auth : s'.auth c i = s.auth c i := by rw [Shared.auth, word, Shared.auth]
  constructor
  case fits => rw [auth, word]; exact slot.fits
  case positive => rw [auth]; exact slot.positive
  case allocation =>
    intro a al h hc hi
    rw [auth]
    exact slot.allocation ((allocation a al hc hi).mp h) hc hi
  case allocation_unique =>
    intro a a' al al' h h' hc hi hc' hi'
    exact slot.allocation_unique ((allocation a al hc hi).mp h) ((allocation a' al' hc' hi').mp h') hc hi hc' hi'
  case owned_held =>
    intro g p h
    rw [auth] at h
    obtain ⟨a, al, ha, hc, hi⟩ := slot.owned_held h
    exact ⟨a, al, (allocation a al hc hi).mpr ha, hc, hi⟩
  case armed =>
    intro k tok h hc hi hg
    have old := (token k tok hc hi).mp h
    rw [auth, armed k tok old hc hi]
    exact slot.armed old hc hi hg
  case armed_unique =>
    intro k k' tok tok' h h' hc hi hc' hi' ha ha'
    have old := (token k tok hc hi).mp h
    have old' := (token k' tok' hc' hi').mp h'
    rw [armed k tok old hc hi] at ha
    rw [armed k' tok' old' hc' hi'] at ha'
    exact slot.armed_unique old old' hc hi hc' hi' ha ha'
  case armed_empty =>
    intro k tok h hc hi hg
    have old := (token k tok hc hi).mp h
    rw [armed k tok old hc hi]
    exact slot.armed_empty old hc hi hg
  case detached_held =>
    intro g h
    rw [auth] at h
    obtain ⟨k, tok, hk, hc, hi, ha⟩ := slot.detached_held h
    exact ⟨k, tok, (token k tok hc hi).mpr hk, hc, hi, by rw [armed k tok hk hc hi, ha]⟩
  case recorded =>
    intro k tok h hc hi
    rw [auth]
    exact slot.recorded ((token k tok hc hi).mp h) hc hi
  case freed =>
    intro g h
    rw [auth]
    exact slot.freed (frees g h)
  case claimed =>
    intro g h
    rw [auth]
    exact slot.claimed (claims g h)

/-- An action on one slot keeps the ledger if it keeps that slot's and leaves the others alone. -/
theorem Ledger.change (ledger : Ledger pool s) (touched : SlotLedger pool s' c i)
    (word : ∀ c' i', ¬(c' = c ∧ i' = i) → s'.word c' i' = s.word c' i')
    (allocation : ∀ a al, ¬(al.cls = c ∧ al.slot = i) → (s'.allocation a = some al ↔ s.allocation a = some al))
    (token : ∀ k tok, ¬(tok.cls = c ∧ tok.slot = i) → (s'.token k = some tok ↔ s.token k = some tok))
    (armed : ∀ k tok, s.token k = some tok → ¬(tok.cls = c ∧ tok.slot = i) → s'.armed k = s.armed k)
    (frees : ∀ key ∈ s'.frees, ¬(key.1 = c ∧ key.2.1 = i) → key ∈ s.frees)
    (claims : ∀ key ∈ s'.claims, ¬(key.1 = c ∧ key.2.1 = i) → key ∈ s.claims)
    (allocation_fresh : ∀ {a}, s'.nextAllocation ≤ a → s'.allocation a = none)
    (token_fresh : ∀ {k}, s'.nextToken ≤ k → s'.token k = none) (frees_nodup : s'.frees.Nodup)
    (claims_increase : s'.claims.Pairwise fun earlier later =>
      earlier.1 = later.1 → earlier.2.1 = later.2.1 → earlier.2.2 < later.2.2) : Ledger pool s' := by
  refine ⟨fun c' i' => ?_, allocation_fresh, token_fresh, frees_nodup, claims_increase⟩
  by_cases here : c' = c ∧ i' = i
  · obtain ⟨rfl, rfl⟩ := here
    exact touched
  · refine (ledger.slot c' i').frame (word c' i' here) ?_ ?_ ?_ ?_ ?_
    · rintro a al rfl rfl
      exact allocation a al here
    · rintro k tok rfl rfl
      exact token k tok here
    · rintro k tok h rfl rfl
      exact armed k tok h here
    · exact fun g h => frees _ h here
    · exact fun g h => claims _ h here

theorem SlotLedger.generation_le (slot : SlotLedger pool s c i) : (s.auth c i).generation ≤ maxGeneration := by
  have fits := slot.fits.1
  cases h : s.auth c i with
  | free g => rw [h] at fits; exact fits
  | owned g p => rw [h] at fits; exact fits.1
  | detached g => rw [h] at fits; exact fits

theorem Ledger.same (ledger : Ledger pool s) (word : s'.word = s.word)
    (allocation : s'.allocation = s.allocation) (nextAllocation : s'.nextAllocation = s.nextAllocation)
    (token : s'.token = s.token) (armed : s'.armed = s.armed) (nextToken : s'.nextToken = s.nextToken)
    (frees : s'.frees = s.frees) (claims : s'.claims = s.claims) : Ledger pool s' := by
  refine ⟨fun c i => (ledger.slot c i).frame ?_ ?_ ?_ ?_ ?_ ?_, ?_, ?_, ?_, ?_⟩
  · rw [word]
  · intro a al _ _
    rw [allocation]
  · intro k tok _ _
    rw [token]
  · intro k tok _ _ _
    rw [armed]
  · exact fun g h => frees ▸ h
  · exact fun g h => claims ▸ h
  · rw [allocation, nextAllocation]
    exact ledger.allocation_fresh
  · rw [token, nextToken]
    exact ledger.token_fresh
  · rw [frees]
    exact ledger.frees_nodup
  · rw [claims]
    exact ledger.claims_increase

theorem SlotLedger.attach (slot : SlotLedger pool s c i) (word : s'.word c i = x.word) (fits : x.Fits pool.capacity)
    (attached : ∀ g, x ≠ .detached g) (positive : x.allocated = true → x.generation ≠ 0)
    (mono : (s.auth c i).generation ≤ x.generation)
    (allocation : ∀ a al, s'.allocation a = some al → al.cls = c → al.slot = i →
      x = .owned al.generation al.owner ∧ (c, i) ∈ pool.slots)
    (unique : ∀ a a' al al', s'.allocation a = some al → s'.allocation a' = some al' →
      al.cls = c → al.slot = i → al'.cls = c → al'.slot = i → a = a')
    (held : ∀ g p, x = .owned g p → ∃ a al, s'.allocation a = some al ∧ al.cls = c ∧ al.slot = i)
    (token : s'.token = s.token) (unarmed : ∀ k tok, s.token k = some tok → tok.cls = c → tok.slot = i → s'.armed k = false)
    (free : ∀ g, s.auth c i = .free g → g < x.generation ∨ x = .free g)
    (frees : ∀ g, (c, i, g) ∈ s'.frees → (c, i, g) ∈ s.frees ∨ x = .free g)
    (claims : ∀ g, (c, i, g) ∈ s'.claims → (c, i, g) ∈ s.claims ∨ g = x.generation) : SlotLedger pool s' c i := by
  have auth : s'.auth c i = x := by
    rw [Shared.auth, word, Auth.auth_word pool.capacity_small fits]
  rw [← token] at unarmed
  constructor <;> try rw [auth]
  case fits => exact ⟨fits, word⟩
  case positive => exact positive
  case allocation => exact allocation _ _
  case allocation_unique => exact unique _ _ _ _
  case owned_held => exact held _ _
  case armed => exact fun h hc hi _ => iff_of_false (by simp [unarmed _ _ h hc hi]) (attached _)
  case armed_unique => exact fun h _ hc hi _ _ ha => by simp [unarmed _ _ h hc hi] at ha
  case armed_empty => exact fun h hc hi _ => unarmed _ _ h hc hi
  case detached_held => exact fun h => absurd h (attached _)
  case recorded => exact fun h hc hi => (slot.recorded (token ▸ h) hc hi).trans mono
  case freed =>
    intro g h
    rcases frees g h with old | new
    · exact (slot.freed old).elim (fun earlier => .inl (earlier.trans_le mono)) (free g)
    · exact .inr new
  case claimed =>
    intro g h
    rcases claims g h with old | rfl
    · exact (slot.claimed old).trans mono
    · exact Nat.le_refl _

theorem SlotLedger.not_freed {g : Nat} (slot : SlotLedger pool s c i)
    (allocated : (s.auth c i).allocated = true) (generation : (s.auth c i).generation = g) : (c, i, g) ∉ s.frees := by
  intro h
  rcases slot.freed h with passed | free
  · omega
  · rw [free] at allocated
    cases allocated

theorem SlotLedger.to_owned {g p a : Nat} (slot : SlotLedger pool s c i)
    (word : s'.word c i = (Auth.owned g p).word) (fits : (Auth.owned g p).Fits pool.capacity)
    (nonzero : g ≠ 0) (span : (c, i) ∈ pool.slots) (mono : (s.auth c i).generation ≤ g)
    (passed : ∀ g', s.auth c i = .free g' → g' < g) (allocated : s'.allocation a = some ⟨p, c, i, g⟩)
    (one : ∀ a' al, s'.allocation a' = some al → al.cls = c → al.slot = i → a' = a ∧ al = ⟨p, c, i, g⟩)
    (token : s'.token = s.token) (unarmed : ∀ k tok, s.token k = some tok → tok.cls = c → tok.slot = i → s'.armed k = false)
    (frees : s'.frees = s.frees) (claims : ∀ g', (c, i, g') ∈ s'.claims → (c, i, g') ∈ s.claims ∨ g' = g) :
    SlotLedger pool s' c i := by
  refine slot.attach word fits nofun (fun _ => nonzero) mono ?_ ?_ (fun _ _ _ => ⟨a, _, allocated, rfl, rfl⟩) token unarmed
    (fun g' h => .inl (passed g' h)) (fun g' h => .inl (frees ▸ h)) claims
  · intro a' al h hc hi
    rw [(one a' al h hc hi).2]
    exact ⟨rfl, span⟩
  · intro a₁ a₂ al₁ al₂ h₁ h₂ hc₁ hi₁ hc₂ hi₂
    rw [(one a₁ al₁ h₁ hc₁ hi₁).1, (one a₂ al₂ h₂ hc₂ hi₂).1]

theorem SlotLedger.to_detached {g p k : Nat} {tok : Token} (slot : SlotLedger pool s c i)
    (word : s'.word c i = (Auth.detached g).word) (old : s.auth c i = .owned g p)
    (none : ∀ a al, s'.allocation a = some al → ¬(al.cls = c ∧ al.slot = i))
    (token : s'.token = s.token) (staged : s.token k = some tok) (key : tok.key = (c, i, g))
    (only : ∀ k' tok', s.token k' = some tok' → tok'.key = (c, i, g) → k' = k) (armed : s'.armed = update s.armed k true)
    (frees : s'.frees = s.frees) (claims : s'.claims = s.claims) : SlotLedger pool s' c i := by
  have fits : (Auth.detached g).Fits pool.capacity := by
    have fits := slot.fits.1
    rw [old] at fits
    exact fits.1
  have nonzero : g ≠ 0 := by
    have positive := slot.positive
    rw [old] at positive
    exact positive rfl
  have auth : s'.auth c i = .detached g := by
    rw [Shared.auth, word, Auth.auth_word pool.capacity_small fits]
  obtain ⟨kc, ki, kg⟩ : tok.cls = c ∧ tok.slot = i ∧ tok.generation = g := by
    simpa [Token.key] using key
  -- the armed tokens of the slot are those for generation `g`, of which there is only `k`
  have armed_iff : ∀ k' tok', s.token k' = some tok' → tok'.cls = c → tok'.slot = i →
      (s'.armed k' = true ↔ k' = k) := by
    intro k' tok' h hc hi
    rw [armed]
    by_cases same : k' = k
    · subst same
      simp
    · rw [update_of_ne same]
      refine iff_of_false ?_ same
      by_cases zero : tok'.generation = 0
      · rw [slot.armed_empty h hc hi zero]
        exact Bool.false_ne_true
      · rw [slot.armed h hc hi zero, old]
        simp
  constructor
  case fits => rw [auth]; exact ⟨fits, word⟩
  case positive => rw [auth]; exact fun _ => nonzero
  case allocation => exact fun h hc hi => absurd ⟨hc, hi⟩ (none _ _ h)
  case allocation_unique => exact fun h _ hc hi => absurd ⟨hc, hi⟩ (none _ _ h)
  case owned_held => rw [auth]; simp
  case armed =>
    intro k' tok' h hc hi _
    rw [token] at h
    rw [armed_iff k' tok' h hc hi, auth]
    constructor
    · rintro rfl
      rw [staged, Option.some.injEq] at h
      rw [← h, kg]
    · intro same
      rw [Auth.detached.injEq] at same
      exact only k' tok' h (by simp [Token.key, hc, hi, same])
  case armed_unique =>
    intro k₁ k₂ tok₁ tok₂ h₁ h₂ hc₁ hi₁ hc₂ hi₂ ha₁ ha₂
    rw [token] at h₁ h₂
    rw [(armed_iff k₁ tok₁ h₁ hc₁ hi₁).mp ha₁, (armed_iff k₂ tok₂ h₂ hc₂ hi₂).mp ha₂]
  case armed_empty =>
    intro k' tok' h hc hi zero
    rw [token] at h
    rw [← Bool.not_eq_true, armed_iff k' tok' h hc hi]
    rintro rfl
    rw [staged, Option.some.injEq] at h
    rw [← h] at zero
    omega
  case detached_held =>
    refine fun _ => ⟨k, tok, by rw [token, staged], kc, ki, ?_⟩
    exact (armed_iff k tok staged kc ki).mpr rfl
  case recorded =>
    intro k' tok' h hc hi
    rw [token] at h
    have recorded := slot.recorded h hc hi
    rw [old] at recorded
    rw [auth]
    exact recorded
  case freed =>
    intro g' h
    rw [frees] at h
    rw [auth]
    rcases slot.freed h with earlier | free
    · rw [old] at earlier
      exact .inl earlier
    · rw [old] at free
      cases free
  case claimed =>
    intro g' h
    rw [claims] at h
    have claimed := slot.claimed h
    rw [old] at claimed
    rw [auth]
    exact claimed

end Slots

/-! ### The actions -/

section Actions

variable {pool : Storage} {s : Shared} {c i g p a k : Nat} {al : Allocation} {tok : Token}
variable {α : Type} {f : Nat → Option α} {n m dead a' : Nat} {y : α} {al' : Allocation}

theorem update_some_iff {x : α} : update f n (some x) m = some y ↔ (m = n ∧ x = y) ∨ (m ≠ n ∧ f m = some y) := by
  by_cases h : m = n
  · subst h
    simp
  · simp [h]

theorem update_none_iff : update f n none m = some y ↔ m ≠ n ∧ f m = some y := by
  by_cases h : m = n
  · subst h
    simp
  · simp [h]

theorem word_setWord_self {state : State} : (s.setWord c i state).word c i = state := by
  simp [Shared.setWord]

theorem SlotLedger.unarmed (slot : SlotLedger pool s c i) (h : s.token k = some tok)
    (hc : tok.cls = c) (hi : tok.slot = i) (other : s.auth c i ≠ .detached tok.generation) : s.armed k = false := by
  by_cases zero : tok.generation = 0
  · exact slot.armed_empty h hc hi zero
  · rw [← Bool.not_eq_true, slot.armed h hc hi zero]
    exact other

section

variable (ledger : Ledger pool s)

include ledger

theorem Ledger.unarmed_of_settled (h : s.token k = some tok) (settled : Settled s tok.key) : s.armed k = false := by
  have slot := ledger.slot tok.cls tok.slot
  rcases settled with zero | free | passed
  · exact slot.armed_empty h rfl rfl zero
  · refine slot.unarmed h rfl rfl fun detached => ?_
    rw [show s.auth tok.cls tok.slot = .free tok.generation from free] at detached
    cases detached
  · refine slot.unarmed h rfl rfl fun detached => ?_
    have passed' : tok.generation < (s.auth tok.cls tok.slot).generation := passed
    rw [detached] at passed'
    exact Nat.lt_irrefl _ passed'

theorem Ledger.addAllocation_fresh {a' : Nat} (h : s.nextAllocation + 1 ≤ a') :
    update s.allocation s.nextAllocation (some al) a' = none := by
  rw [update_of_ne (by omega)]
  exact ledger.allocation_fresh (by omega)

theorem Ledger.not_next {a' : Nat} (h : s.allocation a' = some al) : a' ≠ s.nextAllocation := by
  rintro rfl
  rw [ledger.allocation_fresh (Nat.le_refl _)] at h
  cases h

theorem Ledger.added_elsewhere {a' : Nat} {al' : Allocation} (elsewhere : ¬(al'.cls = al.cls ∧ al'.slot = al.slot)) :
    update s.allocation s.nextAllocation (some al) a' = some al' ↔ s.allocation a' = some al' := by
  refine update_some_iff.trans ⟨?_, fun h => .inr ⟨ledger.not_next h, h⟩⟩
  rintro (⟨-, rfl⟩ | ⟨-, old⟩)
  · exact absurd ⟨rfl, rfl⟩ elsewhere
  · exact old

theorem Ledger.claim (free : s.auth c i = .free g) (lt : g < maxGeneration)
    (hp : p < pool.capacity) (span : (c, i) ∈ pool.slots) :
    Ledger pool (((s.setWord c i (Auth.owned (g + 1) p).word).addAllocation
      ⟨p, c, i, g + 1⟩ false).logClaim c i (g + 1)) := by
  have slot := ledger.slot c i
  have generation : (s.auth c i).generation = g := by rw [free]; rfl
  refine ledger.change (c := c) (i := i) ?_ (fun _ _ h => word_setWord_of_ne h) ?_
    (fun _ _ _ => Iff.rfl) (fun _ _ _ _ => rfl) (fun _ h _ => h) ?_ ledger.addAllocation_fresh
    ledger.token_fresh ledger.frees_nodup ?_
  · refine slot.to_owned (a := s.nextAllocation) word_setWord_self ⟨lt, hp⟩ (by omega) span (by omega)
      ?_ (update_self ..) ?_ rfl ?_ rfl ?_
    · intro g' free'
      rw [free, Auth.free.injEq] at free'
      omega
    · intro a' al h hc hi
      rcases update_some_iff.mp h with ⟨rfl, rfl⟩ | ⟨-, old⟩
      · exact ⟨rfl, rfl⟩
      · have owned := slot.allocation old hc hi
        rw [free] at owned
        cases owned.1
    · intro k tok h hc hi
      exact slot.unarmed h hc hi (by rw [free]; simp)
    · intro g' h
      simpa [Shared.logClaim, Shared.addAllocation, Shared.setWord] using h
  · exact fun a' al h => ledger.added_elsewhere h
  · intro key h elsewhere
    rcases mem_append.mp h with old | new
    · exact old
    · rw [mem_singleton] at new
      subst new
      exact absurd ⟨rfl, rfl⟩ elsewhere
  · refine pairwise_append.mpr ⟨ledger.claims_increase, pairwise_singleton .., ?_⟩
    rintro ⟨c', i', g'⟩ h key new
    rw [mem_singleton] at new
    subst new
    intro hc hi
    simp only at hc hi ⊢
    subst hc hi
    have earlier := slot.claimed h
    omega

theorem Ledger.free {s' : Shared} (allocated : (s.auth c i).allocated = true) (generation : (s.auth c i).generation = g)
    (word : s'.word = (s.setWord c i (State.free g)).word) (allocation : ∀ a al, s'.allocation a = some al ↔
      s.allocation a = some al ∧ ¬(al.cls = c ∧ al.slot = i)) (token : s'.token = s.token)
    (unarmed : ∀ k tok, s.token k = some tok → tok.cls = c → tok.slot = i → s'.armed k = false)
    (armed : ∀ k tok, s.token k = some tok → ¬(tok.cls = c ∧ tok.slot = i) → s'.armed k = s.armed k)
    (frees : s'.frees = s.frees ++ [(c, i, g)]) (claims : s'.claims = s.claims)
    (nextAllocation : s'.nextAllocation = s.nextAllocation) (nextToken : s'.nextToken = s.nextToken) : Ledger pool s' := by
  have slot := ledger.slot c i
  have bound : g ≤ maxGeneration := generation ▸ slot.generation_le
  refine ledger.change (c := c) (i := i) ?_ ?_ ?_ ?_ armed ?_ ?_ ?_ ?_ ?_ ?_
  · refine slot.attach (x := .free g) ?_ bound nofun nofun (Nat.le_of_eq generation)
      (fun a al h hc hi => absurd ⟨hc, hi⟩ ((allocation a al).mp h).2)
      (fun a _ al _ h _ hc hi => absurd ⟨hc, hi⟩ ((allocation a al).mp h).2) nofun token unarmed ?_ ?_ fun g' h =>
        .inl (claims ▸ h)
    · rw [word, word_setWord_self, State.free_eq bound]
    · intro g' free
      rw [free] at generation
      exact .inr (congrArg Auth.free generation.symm)
    · intro g' h
      simpa [frees, eq_comm] using h
  · intro c' i' h
    rw [word, word_setWord_of_ne h]
  · exact fun a al h => (allocation a al).trans (and_iff_left h)
  · intro k tok _
    rw [token]
  · intro key h elsewhere
    rw [frees] at h
    rcases mem_append.mp h with old | new
    · exact old
    · rw [mem_singleton] at new
      subst new
      exact absurd ⟨rfl, rfl⟩ elsewhere
  · intro key h _
    rwa [claims] at h
  · intro a h
    rw [nextAllocation] at h
    by_contra some
    obtain ⟨al, some⟩ := Option.ne_none_iff_exists'.mp some
    have old := ((allocation a al).mp some).1
    rw [ledger.allocation_fresh h] at old
    cases old
  · intro k h
    rw [nextToken] at h
    rw [token]
    exact ledger.token_fresh h
  · rw [frees]
    refine nodup_append.mpr ⟨ledger.frees_nodup, by simp, ?_⟩
    intro key h new hnew
    rw [mem_singleton] at hnew
    rintro rfl
    exact slot.not_freed allocated generation (hnew ▸ h)
  · rw [claims]
    exact ledger.claims_increase

theorem Ledger.release (live : s.allocation a = some al) :
    Ledger pool (((s.setWord al.cls al.slot (State.free al.generation)).dropAllocation a).logFree
      al.cls al.slot al.generation) := by
  have slot := ledger.slot al.cls al.slot
  have owned := (slot.allocation live rfl rfl).1
  refine ledger.free (c := al.cls) (i := al.slot) (by rw [owned]; rfl) (by rw [owned]; rfl) rfl ?_ rfl
    ?_ (fun _ _ _ _ => rfl) rfl rfl rfl rfl
  · intro a' al'
    refine update_none_iff.trans ⟨?_, ?_⟩
    · rintro ⟨ne, h⟩
      exact ⟨h, fun ⟨hc, hi⟩ => ne (slot.allocation_unique h live hc hi rfl rfl)⟩
    · rintro ⟨h, elsewhere⟩
      refine ⟨?_, h⟩
      rintro rfl
      rw [live, Option.some.injEq] at h
      subst h
      exact elsewhere ⟨rfl, rfl⟩
  · intro k tok h hc hi
    exact slot.unarmed h hc hi (by rw [owned]; simp)

end

theorem voidAllocations_iff : (s.voidAllocations dead c i g).allocation a' = some al' ↔
      s.allocation a' = some al' ∧ al' ≠ ⟨dead, c, i, g⟩ := by
  simp only [Shared.voidAllocations, Option.filter_eq_some_iff, decide_eq_true_eq]

theorem Ledger.void_iff (ledger : Ledger pool s) (owned : s.auth c i = .owned g dead) (h : s.allocation a' = some al') :
    al' ≠ ⟨dead, c, i, g⟩ ↔ ¬(al'.cls = c ∧ al'.slot = i) := by
  refine not_congr ⟨?_, ?_⟩
  · rintro rfl
    exact ⟨rfl, rfl⟩
  · rintro ⟨hc, hi⟩
    have same := ((ledger.slot c i).allocation h hc hi).1
    rw [owned, Auth.owned.injEq] at same
    obtain ⟨owner, cls, slot, generation⟩ := al'
    simp only at hc hi same
    rw [hc, hi, same.1, same.2]

theorem Ledger.recover (ledger : Ledger pool s) (owned : s.auth c i = .owned g dead) :
    Ledger pool (((s.setWord c i (State.free g)).voidAllocations dead c i g).logFree c i g) := by
  have slot := ledger.slot c i
  refine ledger.free (c := c) (i := i) (by rw [owned]; rfl) (by rw [owned]; rfl) rfl ?_ rfl
    ?_ (fun _ _ _ _ => rfl) rfl rfl rfl rfl
  · intro a' al'
    exact voidAllocations_iff.trans (and_congr_right fun h => ledger.void_iff owned h)
  · intro k tok h hc hi
    exact slot.unarmed h hc hi (by rw [owned]; simp)

/-- After disarming token `k` no token of the slot is armed, if the slot was owned or detached
into `k`. -/
theorem SlotLedger.disarmed (slot : SlotLedger pool s c i)
    (source : (∃ p, s.auth c i = .owned g p) ∨ s.auth c i = .detached g ∧
      s.token k = some tok ∧ tok.key = (c, i, g)) {k' : Nat} {tok' : Token}
    (h : s.token k' = some tok') (hc : tok'.cls = c) (hi : tok'.slot = i) : update s.armed k false k' = false := by
  by_cases same : k' = k
  · subst same
    exact update_self ..
  · rw [update_of_ne same]
    rcases source with ⟨p, owned⟩ | ⟨detached, here, key⟩
    · exact slot.unarmed h hc hi (by rw [owned]; simp)
    · simp only [Token.key, Prod.mk.injEq] at key
      obtain ⟨kc, ki, kg⟩ := key
      have nonzero : tok.generation ≠ 0 := by
        have positive := slot.positive
        rw [detached] at positive
        rw [kg]
        exact positive rfl
      have armed : s.armed k = true := by
        rw [slot.armed here kc ki nonzero, detached, kg]
      by_contra armed'
      rw [Bool.not_eq_false] at armed'
      exact same (slot.armed_unique h here hc hi kc ki armed' armed)

/-- The compare-and-swap of `release_token`, for a detached token or for the allocation of a dead
sender. -/
theorem Ledger.releaseToken (ledger : Ledger pool s) {owner : Option Nat}
    (own : ∀ tok', s.token k = some tok' → tok' = tok) (source : (∃ dead, owner = some dead ∧
        s.auth tok.cls tok.slot = .owned tok.generation dead) ∨
      s.auth tok.cls tok.slot = .detached tok.generation ∧ s.token k = some tok) :
    Ledger pool (releaseEffect k tok owner (s.setWord tok.cls tok.slot (State.free tok.generation))) := by
  have slot := ledger.slot tok.cls tok.slot
  have allocated : (s.auth tok.cls tok.slot).allocated = true ∧
      (s.auth tok.cls tok.slot).generation = tok.generation := by
    rcases source with ⟨dead, -, owned⟩ | ⟨detached, -⟩
    · rw [owned]
      exact ⟨rfl, rfl⟩
    · rw [detached]
      exact ⟨rfl, rfl⟩
  have unarmed : ∀ k' tok', s.token k' = some tok' → tok'.cls = tok.cls → tok'.slot = tok.slot →
      update s.armed k false k' = false := fun k' tok' h hc hi =>
    slot.disarmed (source.imp (fun ⟨dead, _, owned⟩ => ⟨dead, owned⟩)
      fun ⟨detached, here⟩ => ⟨detached, here, rfl⟩) h hc hi
  have armed : ∀ k' tok', s.token k' = some tok' → ¬(tok'.cls = tok.cls ∧ tok'.slot = tok.slot) →
      update s.armed k false k' = s.armed k' := by
    intro k' tok' h elsewhere
    refine update_of_ne ?_ ..
    rintro rfl
    rw [own tok' h] at elsewhere
    exact elsewhere ⟨rfl, rfl⟩
  have vacant : s.auth tok.cls tok.slot = .detached tok.generation →
      ∀ a al, s.allocation a = some al → ¬(al.cls = tok.cls ∧ al.slot = tok.slot) := by
    rintro detached a al h ⟨hc, hi⟩
    rw [(slot.allocation h hc hi).1] at detached
    cases detached
  cases owner with
  | none =>
    have detached : s.auth tok.cls tok.slot = .detached tok.generation := by
      rcases source with ⟨dead, none, -⟩ | ⟨detached, -⟩
      · cases none
      · exact detached
    exact ledger.free allocated.1 allocated.2 rfl
      (fun a al => (and_iff_left_of_imp (vacant detached a al)).symm) rfl unarmed armed rfl rfl rfl rfl
  | some dead =>
    refine ledger.free allocated.1 allocated.2 rfl ?_ rfl unarmed armed rfl rfl rfl rfl
    intro a al
    refine voidAllocations_iff.trans (and_congr_right fun h => ?_)
    rcases source with ⟨dead', same, owned⟩ | ⟨detached, -⟩
    · rw [Option.some.injEq] at same
      subst same
      exact ledger.void_iff owned h
    · refine iff_of_true ?_ (vacant detached a al h)
      rintro rfl
      exact vacant detached a _ h ⟨rfl, rfl⟩

theorem Ledger.detach (ledger : Ledger pool s) (live : s.allocation a = some al)
    (staged : s.token k = some tok) (key : tok.key = al.key)
    (only : ∀ k' tok', s.token k' = some tok' → tok'.key = al.key → k' = k) :
    Ledger pool (((s.setWord al.cls al.slot (State.detached al.generation)).dropAllocation a).arm k true) := by
  have slot := ledger.slot al.cls al.slot
  have owned := (slot.allocation live rfl rfl).1
  have bound : al.generation ≤ maxGeneration := by
    have le := slot.generation_le
    rwa [owned] at le
  have dropped : ∀ a' al', update s.allocation a none a' = some al' → ¬(al'.cls = al.cls ∧ al'.slot = al.slot) := by
    rintro a' al' h ⟨hc, hi⟩
    obtain ⟨ne, old⟩ := update_none_iff.mp h
    exact ne (slot.allocation_unique old live hc hi rfl rfl)
  refine ledger.change (c := al.cls) (i := al.slot) ?_ (fun _ _ h => word_setWord_of_ne h) ?_
    (fun _ _ _ => Iff.rfl) ?_ (fun _ h _ => h) (fun _ h _ => h) ?_ ledger.token_fresh
    ledger.frees_nodup ledger.claims_increase
  · refine slot.to_detached (k := k) ?_ owned dropped rfl staged key only rfl rfl rfl
    exact word_setWord_self.trans (State.detached_eq bound)
  · intro a' al' elsewhere
    refine update_none_iff.trans ⟨fun h => h.2, fun h => ⟨?_, h⟩⟩
    rintro rfl
    rw [live, Option.some.injEq] at h
    subst h
    exact elsewhere ⟨rfl, rfl⟩
  · intro k' tok' h elsewhere
    refine update_of_ne ?_ ..
    rintro rfl
    rw [staged, Option.some.injEq] at h
    subst h
    simp only [Token.key, Allocation.key, Prod.mk.injEq] at key
    exact elsewhere ⟨key.1, key.2.1⟩
  · intro a' h
    by_cases same : a' = a
    · subst same
      exact update_self ..
    · exact (update_of_ne same ..).trans (ledger.allocation_fresh h)

theorem Ledger.takeover (ledger : Ledger pool s) (here : s.token k = some tok)
    (detached : s.auth tok.cls tok.slot = .detached tok.generation) (hp : p < pool.capacity)
    (span : (tok.cls, tok.slot) ∈ pool.slots) :
    Ledger pool (((s.setWord tok.cls tok.slot (Auth.owned tok.generation p).word).addAllocation
      ⟨p, tok.cls, tok.slot, tok.generation⟩ true).arm k false) := by
  have slot := ledger.slot tok.cls tok.slot
  have bound : tok.generation ≤ maxGeneration := by
    have le := slot.generation_le
    rwa [detached] at le
  have nonzero : tok.generation ≠ 0 := by
    have positive := slot.positive
    rw [detached] at positive
    exact positive rfl
  refine ledger.change (c := tok.cls) (i := tok.slot) ?_ (fun _ _ h => word_setWord_of_ne h) ?_
    (fun _ _ _ => Iff.rfl) ?_ (fun _ h _ => h) (fun _ h _ => h) ledger.addAllocation_fresh
    ledger.token_fresh ledger.frees_nodup ledger.claims_increase
  · refine slot.to_owned (a := s.nextAllocation) word_setWord_self ⟨bound, hp⟩ nonzero span
      (by rw [detached]; exact Nat.le_refl _) ?_ (update_self ..) ?_ rfl ?_ rfl
      (fun _ h => .inl h)
    · intro g' free
      rw [detached] at free
      cases free
    · intro a' al h hc hi
      rcases update_some_iff.mp h with ⟨rfl, rfl⟩ | ⟨-, old⟩
      · exact ⟨rfl, rfl⟩
      · have owned := (slot.allocation old hc hi).1
        rw [detached] at owned
        cases owned
    · exact fun k' tok' h hc hi => slot.disarmed (.inr ⟨detached, here, rfl⟩) h hc hi
  · exact fun a' al h => ledger.added_elsewhere h
  · intro k' tok' h elsewhere
    refine update_of_ne ?_ ..
    rintro rfl
    rw [here, Option.some.injEq] at h
    subst h
    exact elsewhere ⟨rfl, rfl⟩

theorem Ledger.stage (ledger : Ledger pool s) (place : Place)
    (source : tok.generation = 0 ∨ ∃ p, s.auth tok.cls tok.slot = .owned tok.generation p) :
    Ledger pool (s.addToken tok place) := by
  have fresh := ledger.token_fresh (Nat.le_refl s.nextToken)
  -- a token is the new one, unarmed, or an old one with its old flag
  have cases : ∀ {k tok'}, (s.addToken tok place).token k = some tok' →
      (tok = tok' ∧ (s.addToken tok place).armed k = false) ∨
      (s.token k = some tok' ∧ (s.addToken tok place).armed k = s.armed k) := by
    intro k tok' h
    rcases update_some_iff.mp h with ⟨rfl, same⟩ | ⟨ne, old⟩
    · exact .inl ⟨same, update_self ..⟩
    · exact .inr ⟨old, update_of_ne ne ..⟩
  refine ⟨fun c i => ?_, ledger.allocation_fresh, ?_, ledger.frees_nodup, ledger.claims_increase⟩
  · have slot := ledger.slot c i
    refine { fits := slot.fits, positive := slot.positive, allocation := slot.allocation,
             allocation_unique := slot.allocation_unique, owned_held := slot.owned_held,
             freed := slot.freed, claimed := slot.claimed, armed := ?armed,
             armed_unique := ?armed_unique, armed_empty := ?armed_empty,
             detached_held := ?detached_held, recorded := ?recorded }
    case armed =>
      intro k tok' h hc hi nonzero
      rcases cases h with ⟨rfl, unarmed⟩ | ⟨old, same⟩
      · rw [unarmed]
        refine iff_of_false Bool.false_ne_true fun detached => ?_
        rcases source with zero | ⟨p, owned⟩
        · exact nonzero zero
        · rw [hc, hi] at owned
          exact absurd (owned.symm.trans detached) (by simp)
      · rw [same]
        exact slot.armed old hc hi nonzero
    case armed_unique =>
      intro k₁ k₂ tok₁ tok₂ h₁ h₂ hc₁ hi₁ hc₂ hi₂ ha₁ ha₂
      rcases cases h₁ with ⟨-, unarmed⟩ | ⟨old₁, same₁⟩
      · rw [unarmed] at ha₁
        exact absurd ha₁ Bool.false_ne_true
      rcases cases h₂ with ⟨-, unarmed⟩ | ⟨old₂, same₂⟩
      · rw [unarmed] at ha₂
        exact absurd ha₂ Bool.false_ne_true
      rw [same₁] at ha₁
      rw [same₂] at ha₂
      exact slot.armed_unique old₁ old₂ hc₁ hi₁ hc₂ hi₂ ha₁ ha₂
    case armed_empty =>
      intro k tok' h hc hi zero
      rcases cases h with ⟨-, unarmed⟩ | ⟨old, same⟩
      · exact unarmed
      · rw [same]
        exact slot.armed_empty old hc hi zero
    case detached_held =>
      intro g detached
      obtain ⟨k, tok', h, hc, hi, ha⟩ := slot.detached_held detached
      have ne : k ≠ s.nextToken := by
        rintro rfl
        rw [fresh] at h
        cases h
      exact ⟨k, tok', (update_of_ne ne ..).trans h, hc, hi, (update_of_ne ne ..).trans ha⟩
    case recorded =>
      intro k tok' h hc hi
      rcases cases h with ⟨rfl, -⟩ | ⟨old, -⟩
      · rcases source with zero | ⟨p, owned⟩
        · rw [zero]
          exact Nat.zero_le _
        · rw [hc, hi] at owned
          change _ ≤ (s.auth c i).generation
          rw [owned]
          exact Nat.le_refl _
      · exact slot.recorded old hc hi
  · intro k h
    change s.nextToken + 1 ≤ k at h
    exact (update_of_ne (by omega) ..).trans (ledger.token_fresh (by omega))

theorem Ledger.removeToken (ledger : Ledger pool s)
    (unarmed : ∀ tok, s.token k = some tok → s.armed k = false) : Ledger pool (s.removeToken k) := by
  have old : ∀ {k' tok'}, (s.removeToken k).token k' = some tok' → s.token k' = some tok' :=
    fun h => (update_none_iff.mp h).2
  refine ⟨fun c i => ?_, ledger.allocation_fresh, ?_, ledger.frees_nodup, ledger.claims_increase⟩
  · have slot := ledger.slot c i
    refine { fits := slot.fits, positive := slot.positive, allocation := slot.allocation,
             allocation_unique := slot.allocation_unique, owned_held := slot.owned_held,
             freed := slot.freed, claimed := slot.claimed,
             armed := fun h => slot.armed (old h)
             armed_unique := fun h h' => slot.armed_unique (old h) (old h')
             armed_empty := fun h => slot.armed_empty (old h)
             recorded := fun h => slot.recorded (old h), detached_held := ?_ }
    intro g detached
    obtain ⟨k', tok', h, hc, hi, ha⟩ := slot.detached_held detached
    refine ⟨k', tok', update_none_iff.mpr ⟨?_, h⟩, hc, hi, ha⟩
    rintro rfl
    rw [unarmed tok' h] at ha
    cases ha
  · intro k' h
    by_cases same : k' = k
    · subst same
      exact update_self ..
    · exact (update_of_ne same ..).trans (ledger.token_fresh h)

end Actions

end Evering.Pool
