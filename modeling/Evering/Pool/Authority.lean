import Evering.Pool.Specs

/-!
# One reclamation authority per generation

Every run of the Pool machine keeps ledger and custody, hence at most one live allocation or token in
flight has the authority over a generation of a slot.
-/

namespace Evering.Pool

open Interleave Function Option

section Sound

variable {pool : Storage} {s : Shared} {dead : Nat → Bool} {views : Views Op View} {t : Nat} {op : Op}
  {v : View} {p : Nat}

theorem Custody.init : Custody pool Shared.init (fun _ => false) fun _ => none where
  alive := fun h => by cases h
  reaps := fun h => by cases h
  view := fun h => by cases h
  allocation_one := fun h => by cases h
  token_one := fun h => by cases h
  tied := fun h => by cases h

section

variable (custody : Custody pool s dead views)

include custody

theorem Custody.spawn (free : views t = none) (alive : dead op.owner = false) (numbered : op.owner < pool.capacity)
    (reaps : ∀ d, op.reaps = some d → dead d = true) : Custody pool s dead (update views t (some (op, .idle))) := by
  constructor
  case alive => exact Views.put ⟨alive, numbered⟩ fun _ => custody.alive
  case reaps => exact Views.put (reaps _) fun _ => custody.reaps
  case view => exact Views.put trivial fun _ => custody.view
  case allocation_one => exact Views.put_pair (fun _ _ => rfl) (fun _ _ => nofun) (fun _ _ _ => nofun) custody.allocation_one
  case token_one => exact Views.put_pair (fun _ _ => rfl) (fun _ _ => nofun) (fun _ _ _ => nofun) custody.token_one
  case tied =>
    intro a al k tok ha hk key
    rcases custody.tied ha hk key with gone | ⟨u, op', w, hu, ids⟩
    · exact .inl gone
    · refine .inr ⟨u, op', w, (update_of_ne ?_ ..).trans hu, ids⟩
      rintro rfl
      rw [free] at hu
      cases hu

theorem Custody.shrink {dead' : Nat → Bool} {views' : Views Op View}
    (sub : ∀ {u op' w}, views' u = some (op', w) → views u = some (op', w))
    (alive : ∀ {u op' w}, views' u = some (op', w) → dead' op'.owner = false) (more : ∀ d, dead d = true → dead' d = true)
    (lost : ∀ {u op' w a k}, views u = some (op', w) → w.allocationId = some a → w.tokenId = some k →
      views' u = some (op', w) ∨ dead' op'.owner = true) : Custody pool s dead' views' where
  alive := fun hu => ⟨alive hu, (custody.alive (sub hu)).2⟩
  reaps := fun hu reaps => more _ (custody.reaps (sub hu) reaps)
  view := fun hu => custody.view (sub hu)
  allocation_one := fun hu hu' => custody.allocation_one (sub hu) (sub hu')
  token_one := fun hu hu' => custody.token_one (sub hu) (sub hu')
  tied := by
    intro a al k tok ha hk key
    rcases custody.tied ha hk key with gone | ⟨u, op', w, hu, idA, idK⟩
    · exact .inl (more _ gone)
    rcases lost hu idA idK with kept | gone
    · exact .inr ⟨u, op', w, kept, idA, idK⟩
    · have owner : al.owner = op'.owner := by
        have has : Has s op'.owner a al → al.owner = op'.owner := fun has => has.owner
        have ok := custody.view hu
        cases w <;> simp only [View.allocationId, View.tokenId, Option.some.injEq, reduceCtorEq] at idA idK
        · subst idA
          rw [ok.1.live, Option.some.injEq] at ha
          exact ha ▸ ok.1.owner
        · subst idA
          rw [ok.1.live, Option.some.injEq] at ha
          exact ha ▸ ok.1.owner
      exact .inl (owner ▸ gone)

theorem Custody.retire (ht : views t = some (op, v)) (idle : v.allocationId = none ∨ v.tokenId = none) :
    Custody pool s dead (update views t none) := by
  have sub : ∀ {u op' w}, update views t none u = some (op', w) → views u = some (op', w) :=
    fun hu => (update_none_iff.mp hu).2
  refine custody.shrink sub (fun hu => (custody.alive (sub hu)).1) (fun _ h => h) ?_
  intro u op' w a k hu idA idK
  refine .inl (update_none_iff.mpr ⟨?_, hu⟩)
  rintro rfl
  rw [ht, Option.some.injEq, Prod.mk.injEq] at hu
  obtain ⟨-, rfl⟩ := hu
  rcases idle with none | none
  · rw [none] at idA
    cases idA
  · rw [none] at idK
    cases idK

theorem Custody.crash : Custody pool s (update dead p true)
      fun t => (views t).filter fun th => (machine pool true).owner th.1 != p := by
  refine custody.shrink (fun hu => (Views.crash_some hu).1) ?_ (fun _ => mark_kept) ?_
  · intro u op' w hu
    obtain ⟨old, other⟩ := Views.crash_some hu
    exact (update_of_ne other ..).trans (custody.alive old).1
  · intro u op' w a k hu _ _
    by_cases same : op'.owner = p
    · exact .inr (by rw [same, update_self])
    · exact .inl (filter_eq_some_iff.mpr ⟨hu, bne_iff_ne.mpr same⟩)

theorem Custody.rejoin (ledger : Ledger pool s) {ops : List Op}
    (within : views.Within ops) (forgotten : forgotten pool true s ops p = true) :
      Custody pool s (update dead p false) views := by
  simp only [Pool.forgotten, Bool.not_true, Bool.false_or, Bool.and_eq_true, List.all_eq_true, decide_eq_true_eq] at forgotten
  obtain ⟨⟨words, -⟩, idle⟩ := forgotten
  have still : ∀ d, d ≠ p → dead d = true → update dead p false d = true :=
    fun d ne h => (update_of_ne ne ..).trans h
  constructor
  case alive =>
    intro u op' w hu
    refine ⟨?_, (custody.alive hu).2⟩
    by_cases same : op'.owner = p
    · rw [same, update_self]
    · rw [update_of_ne same]
      exact (custody.alive hu).1
  case reaps =>
    intro u op' w d hu reaps
    refine still d ?_ (custody.reaps hu reaps)
    rintro rfl
    exact idle op' (within u op' w hu) reaps
  case view => exact custody.view
  case allocation_one => exact custody.allocation_one
  case token_one => exact custody.token_one
  case tied =>
    intro a al k tok ha hk key
    refine (custody.tied ha hk key).imp_left (still _ ?_)
    -- an allocation of `p` would be named by its word
    rintro rfl
    obtain ⟨owned, span⟩ := (ledger.slot al.cls al.slot).allocation ha rfl rfl
    refine words (al.cls, al.slot) span ?_
    rw [ledger.owner_eq, owned]
    rfl

end

theorem sound (pool : Storage) : (protocol pool).Sound (machine pool true) Shared.init where
  init := ⟨.init pool, .init⟩
  spawn := by
    intro s dead views t op ops inv free alive _ ready
    simp only [machine, Bool.and_eq_true, decide_eq_true_eq, all_eq_true] at ready
    exact ⟨.idle, ⟨inv.1, inv.2.spawn free alive ready.2 ready.1⟩, code_spec⟩
  retire := fun inv ht idle => ⟨inv.1, inv.2.retire ht idle⟩
  crash := fun inv _ => ⟨⟨inv.1, inv.2.crash⟩, .refl _⟩
  rejoin := fun inv _ within forgotten => ⟨inv.1, inv.2.rejoin inv.1 within forgotten⟩
  refl := .refl

end Sound

/-! ### Authority -/

/-- What may have the authority over a generation of a slot: a live allocation of a participant, or a
token in flight. -/
inductive Holder
  | allocation (a : Nat)
  | token (k : Nat)

def Holds (s : Shared) (key : Key) : Holder → Prop
  | .allocation a => ∃ al, s.allocation a = some al ∧ al.key = key
  | .token k => ∃ tok, s.token k = some tok ∧ s.armed k = true ∧ tok.key = key

variable {pool : Storage} {s : Shared}

theorem Ledger.owned (ledger : Ledger pool s) {a c i g : Nat} {al : Allocation} (ha : s.allocation a = some al)
    (key : al.key = (c, i, g)) : s.auth c i = .owned g al.owner := by
  cases key
  exact ((ledger.slot _ _).allocation ha rfl rfl).1

theorem Ledger.detached (ledger : Ledger pool s) {k c i g : Nat} {tok : Token} (hk : s.token k = some tok)
    (armed : s.armed k = true) (key : tok.key = (c, i, g)) : s.auth c i = .detached g := by
  cases key
  have nonzero : tok.generation ≠ 0 := by
    intro zero
    rw [(ledger.slot _ _).armed_empty hk rfl rfl zero] at armed
    cases armed
  exact ((ledger.slot _ _).armed hk rfl rfl nonzero).mp armed

theorem Ledger.holder_unique (ledger : Ledger pool s) {key : Key} {x y : Holder} (hx : Holds s key x)
    (hy : Holds s key y) : x = y := by
  have apart : ∀ {a k}, Holds s key (.allocation a) → Holds s key (.token k) → False := by
    rintro a k ⟨al, ha, rfl⟩ ⟨tok, hk, armed, same⟩
    cases (ledger.owned ha rfl).symm.trans (ledger.detached hk armed same)
  cases x with
  | allocation a =>
    cases y with
    | allocation a' =>
      obtain ⟨al, ha, rfl⟩ := hx
      obtain ⟨al', ha', same⟩ := hy
      simp only [Allocation.key, Prod.mk.injEq] at same
      rw [(ledger.slot al.cls al.slot).allocation_unique ha ha' rfl rfl same.1 same.2.1]
    | token k => exact (apart hx hy).elim
  | token k =>
    cases y with
    | allocation a => exact (apart hy hx).elim
    | token k' =>
      obtain ⟨tok, hk, armed, rfl⟩ := hx
      obtain ⟨tok', hk', armed', same⟩ := hy
      simp only [Token.key, Prod.mk.injEq] at same
      rw [(ledger.slot tok.cls tok.slot).armed_unique hk hk' rfl rfl same.1 same.2.1 armed armed']

theorem Ledger.owner_iff (ledger : Ledger pool s) (c i p : Nat) : (s.word c i).owner = some p ↔
    ∃ a al, s.allocation a = some al ∧ al.key = (c, i, (s.word c i).generation) ∧ al.owner = p := by
  rw [ledger.owner_eq, ledger.generation_eq]
  constructor
  · intro owner
    cases auth : s.auth c i with
    | owned g q =>
      obtain ⟨a, al, ha, rfl, rfl⟩ := (ledger.slot c i).owned_held auth
      cases auth.symm.trans (ledger.owned ha rfl)
      rw [auth] at owner
      exact ⟨a, al, ha, rfl, Option.some.inj owner⟩
    | free g | detached g => rw [auth] at owner; cases owner
  · rintro ⟨a, al, ha, key, rfl⟩
    rw [ledger.owned ha key]
    rfl

theorem Ledger.allocated_iff (ledger : Ledger pool s) (c i : Nat) : (s.word c i).allocated = true ↔
    ∃ x, Holds s (c, i, (s.word c i).generation) x := by
  have owner := ledger.owner_iff c i
  rw [ledger.owner_eq, ledger.generation_eq] at owner
  rw [ledger.allocated_eq, ledger.generation_eq]
  constructor
  · intro allocated
    cases auth : s.auth c i with
    | free g => rw [auth] at allocated; cases allocated
    | owned g p =>
      obtain ⟨a, al, ha, key, -⟩ := (owner p).mp (by rw [auth]; rfl)
      exact ⟨.allocation a, al, ha, auth ▸ key⟩
    | detached g =>
      obtain ⟨k, tok, hk, rfl, rfl, armed⟩ := (ledger.slot c i).detached_held auth
      cases auth.symm.trans (ledger.detached hk armed rfl)
      exact ⟨.token k, tok, hk, armed, rfl⟩
  · rintro ⟨a | k, holds⟩
    · obtain ⟨al, ha, key⟩ := holds
      rw [ledger.owned ha key]
      rfl
    · obtain ⟨tok, hk, armed, key⟩ := holds
      rw [ledger.detached hk armed key]
      rfl

/-- **One authority.** In every run of any number of participants that claim, drop, send, adopt, discard and remove, that die
at any step and are recovered: at most one holder has the authority over a generation of a slot, each generation is freed at
most once, generations stay in range and rise from claim to claim, and what is free is not allocated again. -/
theorem one_authority (pool : Storage) {c : Config Shared Unit Op}
    (run : (machine pool true).Reaches (.start .init) c) :
    (∀ key x y, Holds c.shared key x → Holds c.shared key y → x = y) ∧
    c.shared.frees.Nodup ∧
    (∀ cls slot, (c.shared.word cls slot).generation ≤ maxGeneration) ∧
    (c.shared.claims.Pairwise fun earlier later =>
      earlier.1 = later.1 → earlier.2.1 = later.2.1 → earlier.2.2 < later.2.2) ∧
    ∀ c', (machine pool true).Reaches c c' → ∀ cls slot,
      (c.shared.word cls slot).generation ≤ (c'.shared.word cls slot).generation ∧
      ((c.shared.word cls slot).allocated = false → (c'.shared.word cls slot).allocated = true →
        (c.shared.word cls slot).generation < (c'.shared.word cls slot).generation) := by
  have allowed : ∀ {c c' : Config Shared Unit Op}, (machine pool true).Reaches c c' →
      (machine pool true).Run (Allowed (protocol pool).cond (protocol pool).stop) c c' := by
    refine fun run => run.mono fun c step _ => ?_
    cases step <;> simp [Allowed, protocol]
  have holds := (sound pool).run (sound pool).start (allowed run)
  have ⟨views, ⟨ledger, _⟩, _⟩ := holds
  refine ⟨fun key x y hx hy => ledger.holder_unique hx hy, ledger.frees_nodup, fun cls slot => ?_,
    ledger.claims_increase, fun c' run' cls slot => ?_⟩
  · rw [ledger.generation_eq]
    exact (ledger.slot cls slot).generation_le
  · obtain ⟨views', ⟨ledger', -⟩, -⟩ := (sound pool).run holds (allowed run')
    have grows := (sound pool).run_guar (fun _ _ _ h h' => Grows.trans h h') holds (allowed run') cls slot
    rw [ledger.generation_eq, ledger'.generation_eq, ledger.allocated_eq, ledger'.allocated_eq]
    refine ⟨grows.1, fun free allocated => ?_⟩
    cases auth : c.shared.auth cls slot with
    | free g =>
      rcases grows.2 g auth with same | passed
      · rw [same] at allocated
        cases allocated
      · exact passed
    | owned g p => rw [auth] at free; cases free
    | detached g => rw [auth] at free; cases free

/-- A block that goes from one participant to another, which dies with it and is recovered. -/
def relayRun : List (Step Op) :=
  let steps (op : Op) (t n : Nat) : List (Step Op) := .spawn op :: List.replicate n (.run t 0)
  steps (.reserve 0 8 8) 0 2 ++ steps (.send 0 (some 0) 7 0 0 .publish) 1 4 ++ steps (.receive 1 0) 2 1 ++
    steps (.adopt 1 0 7 fun _ => some (8, 8)) 3 4 ++ [.crash 1] ++ steps (.recover 2 1 1) 4 3

def relayPool : Storage where
  target := ⟨64, Target.supported_64⟩
  id := 0
  classes := [⟨64, 1⟩]

theorem one_authority_relay : ∃ c, (machine relayPool true).Reaches (.start .init) c ∧
    c.shared.claims = [(0, 0, 1)] ∧ c.shared.frees = [(0, 0, 1)] ∧
    ∀ key x y, Holds c.shared key x → Holds c.shared key y → x = y := by
  have logs : ((machine relayPool true).execAll (.start .init) relayRun).map
      (fun c => (c.shared.claims, c.shared.frees)) = some ([(0, 0, 1)], [(0, 0, 1)]) := by decide +kernel
  obtain ⟨c, run, same⟩ := Machine.exists_reaches logs
  rw [Prod.mk.injEq] at same
  exact ⟨c, run, same.1, same.2, (one_authority relayPool run).1⟩

/-- **No block is lost.** In every reached state a slot is allocated exactly while somebody has the authority over its
generation, and its word names an owner exactly while that participant, which may be dead, has an allocation of it. What is
allocated without an owner is a token in flight. -/
theorem no_block_lost (pool : Storage) {c : Config Shared Unit Op} (run : (machine pool true).Reaches (.start .init) c)
    (cls slot : Nat) :
    ((c.shared.word cls slot).allocated = true ↔ ∃ x, Holds c.shared (cls, slot, (c.shared.word cls slot).generation) x) ∧
    ∀ p, (c.shared.word cls slot).owner = some p ↔
      ∃ a al, c.shared.allocation a = some al ∧ al.key = (cls, slot, (c.shared.word cls slot).generation) ∧ al.owner = p := by
  have allowed : (machine pool true).Run (Allowed (protocol pool).cond (protocol pool).stop) (.start .init) c :=
    run.mono fun c step _ => by cases step <;> simp [Allowed, protocol]
  obtain ⟨views, ⟨ledger, _⟩, _⟩ := (sound pool).run (sound pool).start allowed
  exact ⟨ledger.allocated_iff cls slot, ledger.owner_iff cls slot⟩

theorem no_block_lost_relay : ∃ c, (machine relayPool true).Reaches (.start .init) c ∧
    (c.shared.word 0 0).owner = some 1 ∧ ∃ x, Holds c.shared (0, 0, (c.shared.word 0 0).generation) x := by
  have word : ((machine relayPool true).execAll (.start .init) (relayRun.take 15)).map
      (fun c => ((c.shared.word 0 0).owner, (c.shared.word 0 0).allocated)) = some (some 1, true) := by decide +kernel
  obtain ⟨c, run, same⟩ := Machine.exists_reaches word
  rw [Prod.mk.injEq] at same
  exact ⟨c, run, same.1, (no_block_lost relayPool run 0 0).1.mp same.2⟩

end Evering.Pool
