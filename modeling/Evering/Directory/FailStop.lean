import Evering.Directory.Identity

/-!
# The heap is fail-stop

Whoever has claimed the heap is the only one to change its words, and is in at most one body. A participant that dies in a body
leaves its claim behind, and the others turn the claim into poison, or clear it when the directory says that the heap is
whole: the entry of a removal is `CLOSING` before the body and `RELEASED` after it. A recoverer that takes such a removal
over runs the body with the entry still `CLOSING`; if it dies there, the next one clears a claim that was left in a body.

An entry is only set to `CLOSING` or `RELEASED` with the heap claimed. So a claim that was left in a body keeps such entries away,
unless there was one when its owner died.
-/

namespace Evering.Directory.FailStop

open Interleave List Views Protocol Function

/-! ### The protocol -/

def NoClosing (d : Dir) : Prop :=
  ∀ k e, (d.entry k e).word.state ≠ .closing ∧ (d.entry k e).word.state ≠ .released

theorem NoClosing.setEntry {d : Dir} (h : NoClosing d) {k e : Nat} {y : Entry}
    (state : y.word.state ≠ .closing ∧ y.word.state ≠ .released) : NoClosing (d.setEntry k e y) := by
  intro k' e'
  by_cases here : (k, e) = (k', e')
  · obtain ⟨rfl, rfl⟩ := Prod.mk.inj here
    rwa [setEntry_same]
  · rw [setEntry_other d y here]
    exact h k' e'

inductive Stand
  | free
  /-- the thread has claimed the heap -/
  | claimed
  /-- and is in a body -/
  | inside
  deriving DecidableEq

/-- What a recoverer knows of the claim of the participant it recovers. -/
inductive Know
  | nothing
  /-- the participant had the transaction -/
  | watching
  /-- the claim was not left in a body -/
  | unfrozen
  deriving DecidableEq

structure View where
  stand : Stand
  know : Know

/-- What the thread of `op` has in its hands; a thread that gives the heap back leaves no claim. -/
def Stand.Holds (op : Op) (s : Shared) : Stand → Prop
  | free => s.heap.bodies = [] ∧ ∀ p, s.heap.mutation ≠ .owned p
  | claimed => s.heap.bodies = [] ∧ s.heap.mutation = .owned op.owner
  | inside => s.heap.bodies = [op.owner] ∧ s.heap.mutation = .owned op.owner

def Know.Holds (op : Op) (s : Shared) : Know → Prop
  | nothing => True
  | watching => ∀ p, op.recovers = some p → s.heap.mutation = .owned p → p ∈ s.heap.torn → NoClosing s.dir
  | unfrozen => ∀ p, op.recovers = some p → s.heap.mutation = .owned p → p ∉ s.heap.torn

/-- `strict` says that the runs are restricted. -/
structure Inv (strict : Prop) (s : Shared) (dead : Nat → Bool) (views : Views Op View) : Prop where
  alive : ∀ {t op v}, views t = some (op, v) → dead op.owner = false
  gone : ∀ {t op v p}, views t = some (op, v) → op.recovers = some p → dead p = true
  stand : ∀ {t op v}, views t = some (op, v) → v.stand ≠ .free → v.stand.Holds op s
  one : ∀ {t u op op' v w}, views t = some (op, v) → views u = some (op', w) → v.stand ≠ .free → w.stand ≠ .free → t = u
  know : ∀ {t op v}, strict → views t = some (op, v) → v.know.Holds op s
  bodies : ∀ p ∈ s.heap.bodies, s.heap.mutation = .owned p ∧ dead p = false
  torn : strict → ∀ p ∈ s.heap.torn, s.heap.mutation = .owned p ∧ dead p = true ∨ s.heap.mutation = .poisoned
  frozen : strict → ∀ p ∈ s.heap.torn, s.heap.mutation = .owned p → s.dir.transaction.wordOwner = some p → NoClosing s.dir

/-- `p` is in a body with the transaction in hand, and an entry says that the heap is whole. -/
def Exposed (s : Shared) (p : Nat) : Prop :=
  p ∈ s.heap.bodies ∧ s.dir.transaction.wordOwner = some p ∧ ¬NoClosing s.dir

def protocol (strict : Prop) : Protocol Shared Site Op View where
  inv := Inv strict
  idle := fun v => v.stand = .free
  guar := fun s s' => s.heap.mutation = .poisoned → s'.heap.mutation = .poisoned
  stop := fun s p => strict → ¬Exposed s p

abbrev Spec {β : Type} (strict : Prop) (op : Op) (prog : DirProg β) (v : View) (Q : β → View → Prop) : Prop :=
  (protocol strict).Triple op prog v Q

/-- The program ends without the heap. -/
abbrev Frees {β : Type} (strict : Prop) (op : Op) (prog : DirProg β) (v : View) : Prop :=
  Spec strict op prog v fun _ v' => v'.stand = .free

section Steps

variable {strict : Prop} {s s' : Shared} {dead : Nat → Bool} {views : Views Op View} {t : Nat} {op : Op}
    {v v' : View} {β γ : Type}
  {p : Nat} {site : Site}
variable {stand : Stand} {know : Know} {gone : Nat}

theorem Stand.Holds.owned (holds : stand.Holds op s) (busy : stand ≠ .free) : s.heap.mutation = .owned op.owner := by
  cases stand with
  | free => exact absurd rfl busy
  | claimed => exact holds.2
  | inside => exact holds.2

theorem Inv.whole (inv : Inv strict s dead views) (ht : views t = some (op, v)) (busy : v.stand ≠ .free) (is : strict) :
    p ∉ s.heap.torn := by
  intro torn
  have mine := (inv.stand ht busy).owned busy
  rcases inv.torn is p torn with ⟨owned, stopped⟩ | poisoned
  · rw [owned] at mine
    cases mine
    cases (inv.alive ht).symm.trans stopped
  · rw [mine] at poisoned
    cases poisoned

theorem Inv.alone (inv : Inv strict s dead views) (ht : views t = some (op, v)) (busy : v.stand ≠ .free) {u : Nat}
    {op' : Op} {w : View}
    (ne : u ≠ t) (hu : views u = some (op', w)) : w.stand = .free := by
  by_contra busy'
  exact ne (inv.one hu ht busy' busy)

/-- A thread starts or steps: what has to be shown of it, of the others and of the state. -/
theorem Inv.put (inv : Inv strict s dead views) (alive : dead op.owner = false) (gone : ∀ p, op.recovers = some p → dead p = true)
    (stand : v.stand ≠ .free → v.stand.Holds op s')
    (others : ∀ {u op' w}, u ≠ t → views u = some (op', w) → w.stand ≠ .free → w.stand.Holds op' s' ∧ v.stand = .free)
    (know : strict → v.know.Holds op s') (knows : strict → ∀ {u op' w}, views u = some (op', w) → w.know.Holds op' s')
    (bodies : ∀ p ∈ s'.heap.bodies, s'.heap.mutation = .owned p ∧ dead p = false)
    (torn : strict → ∀ p ∈ s'.heap.torn, s'.heap.mutation = .owned p ∧ dead p = true ∨ s'.heap.mutation = .poisoned)
    (frozen : strict → ∀ p ∈ s'.heap.torn, s'.heap.mutation = .owned p → s'.dir.transaction.wordOwner = some p →
      NoClosing s'.dir) :
    Inv strict s' dead (Function.update views t (some (op, v))) := by
  constructor
  case alive => exact Views.put alive fun _ => inv.alive
  case gone => exact Views.put (gone _) fun _ => inv.gone
  case stand => exact Views.put stand fun ne old busy => (others ne old busy).1
  case one =>
    exact Views.put_pair (fun _ _ => rfl) (fun ne old busy busy' => absurd (others ne old busy').2 busy)
      (fun ne old busy busy' => absurd (others ne old busy).2 busy') inv.one
  case know => exact fun is => Views.put (know is) fun _ => knows is
  case bodies => exact bodies
  case torn => exact torn
  case frozen => exact frozen

theorem Inv.turn (inv : Inv strict s dead views) (ht : views t = some (op, v))
    (alone : ∀ {u op' w}, u ≠ t → views u = some (op', w) → w.stand = .free) (stand : v'.stand.Holds op s')
    (torn : s'.heap.torn = s.heap.torn) (safe : strict → ∀ p ∈ s.heap.torn, s'.heap.mutation = .poisoned) :
    Inv strict s' dead (Function.update views t (some (op, v'))) := by
  have unowned (is : strict) (p : Nat) (owned : s'.heap.mutation = .owned p) : p ∉ s'.heap.torn := by
    intro left
    rw [torn] at left
    cases owned.symm.trans (safe is p left)
  have know (is : strict) (op' : Op) (know : Know) : know.Holds op' s' := by
    cases know with
    | nothing => trivial
    | watching => exact fun q _ owned left => absurd left (unowned is q owned)
    | unfrozen => exact fun q _ owned => unowned is q owned
  refine inv.put (inv.alive ht) (fun p => inv.gone ht) (fun _ => stand) (fun ne hu busy => absurd (alone ne hu) busy)
    (fun is => know is _ _) (fun is _ _ _ _ => know is _ _) ?_ ?_ fun is p left owned => absurd left (unowned is p owned)
  · intro p inside
    cases stands : v'.stand <;> rw [stands] at stand
    · rw [stand.1] at inside
      cases inside
    · rw [stand.1] at inside
      cases inside
    · rw [stand.1, mem_singleton] at inside
      subst inside
      exact ⟨stand.2, inv.alive ht⟩
  · intro is p left
    rw [torn] at left
    exact .inr (safe is p left)

/-! ### The directory alone -/

def face (s : Shared) : Mutation × List Nat × List Nat := (s.heap.mutation, s.heap.bodies, s.heap.torn)

/-- A step of `p` that may be taken without the heap -/
structure Mild (p : Nat) (s s' : Shared) : Prop where
  face : face s' = face s
  owner : ∀ q, s'.dir.transaction.wordOwner = some q → s.dir.transaction.wordOwner = some q ∨ q = p
  calm : NoClosing s.dir → NoClosing s'.dir

theorem Stand.Holds.same (holds : stand.Holds op s) (same : face s' = face s) : stand.Holds op s' := by
  obtain ⟨mutation, bodies, -⟩ : _ ∧ _ ∧ _ := by simpa [face] using same
  cases stand <;> simpa only [Stand.Holds, mutation, bodies] using holds

theorem Know.Holds.mild (holds : know.Holds op s) (mild : Mild p s s') : know.Holds op s' := by
  obtain ⟨mutation, -, torn⟩ : _ ∧ _ ∧ _ := by simpa [FailStop.face] using mild.face
  cases know with
  | nothing => trivial
  | watching =>
    intro q recovers owned left
    rw [mutation] at owned
    rw [torn] at left
    exact mild.calm (holds q recovers owned left)
  | unfrozen =>
    intro q recovers owned
    rw [mutation] at owned
    rw [torn]
    exact holds q recovers owned

theorem Inv.mild (inv : Inv strict s dead views) (ht : views t = some (op, v)) (mild : Mild op.owner s s') :
    Inv strict s' dead views := by
  obtain ⟨mutation, bodies, torn⟩ : _ ∧ _ ∧ _ := by simpa [FailStop.face] using mild.face
  constructor
  case alive => exact inv.alive
  case gone => exact inv.gone
  case stand => exact fun hu busy => (inv.stand hu busy).same mild.face
  case one => exact inv.one
  case know => exact fun is hu => (inv.know is hu).mild mild
  case bodies =>
    rw [mutation, bodies]
    exact inv.bodies
  case torn =>
    rw [mutation, torn]
    exact inv.torn
  case frozen =>
    rw [mutation, torn]
    intro is q left owned owner
    rcases mild.owner q owner with was | rfl
    · exact mild.calm (inv.frozen is q left owned was)
    -- the claim of a thread that runs was not left
    · rcases inv.torn is _ left with ⟨-, stopped⟩ | poisoned
      · cases (inv.alive ht).symm.trans stopped
      · rw [owned] at poisoned
        cases poisoned

/-- Programs of such steps -/
def Hushed (p : Nat) : DirProg β → Prop
  | .done _ => True
  | .choose next => ∀ n, Hushed p (next n)
  | .atomic _ act next => ∀ s, Mild p s (act s) ∧ Hushed p (next s)

variable {prog : DirProg β}

theorem Hushed.bind {k : β → DirProg γ} (first : Hushed p prog) (rest : ∀ a, Hushed p (k a)) : Hushed p (prog.bind k) := by
  induction prog with
  | done a => exact rest a
  | choose next ih => exact fun n => ih n (first n)
  | atomic site act next ih => exact fun s => ⟨(first s).1, ih s (first s).2⟩

theorem Hushed.of_keeps (keeps : prog.Keeps fun s => (face s, s.dir)) : Hushed p prog := by
  induction prog with
  | done a => trivial
  | choose next ih => exact fun n => ih n (keeps n)
  | atomic site act next ih =>
    intro s
    have dir : (act s).dir = s.dir := congrArg Prod.snd (keeps s).1
    refine ⟨⟨congrArg Prod.fst (keeps s).1, ?_, ?_⟩, ih s (keeps s).2⟩
    · rw [dir]
      exact fun _ => .inl
    · rw [dir]
      exact id

theorem Hushed.read {f : Shared → β} : Hushed p (Prog.read site f) := .of_keeps .read

variable {f : Shared → Shared × β}

theorem Hushed.action (mild : ∀ s, Mild p s (f s).1) : Hushed p (Prog.action site f) :=
  fun s => ⟨mild s, trivial⟩

theorem Hushed.spec (hushed : Hushed p prog) (mine : p = op.owner) : Spec strict op prog v fun _ v' => v' = v := by
  induction prog with
  | done a => exact rfl
  | choose next ih => exact fun n => ih n (hushed n)
  | atomic site act next ih =>
    intro s dead views t inv view _
    obtain ⟨mild, rest⟩ := hushed s
    refine ⟨v, ?_, fun poisoned => ?_, ih s rest⟩
    · rw [update_same view]
      exact Inv.mild inv view (mine ▸ mild)
    · exact (congrArg Prod.fst mild.face).trans poisoned

theorem Hushed.ends (hushed : Hushed p prog) (mine : p = op.owner) (free : v.stand = .free) : Frees strict op prog v :=
  (hushed.spec mine).mono fun _ _ same => same ▸ free

/-! ### Steps of the thread that has the heap -/

theorem holder_spec {Q : β → View → Prop} (busy : v.stand ≠ .free)
    (h : ∀ s, v.stand.Holds op s → (f s).1.heap.torn = s.heap.torn ∧
      ∃ stand : Stand, stand.Holds op (f s).1 ∧ Q (f s).2 { v with stand }) : Spec strict op (Prog.action site f) v Q := by
  intro s dead views t inv view _
  have stand := Inv.stand inv view busy
  obtain ⟨torn, stand', holds', post⟩ := h s stand
  refine ⟨{ v with stand := stand' }, ?_, fun poisoned => ?_, post⟩
  · exact Inv.turn inv view (fun ne hu => Inv.alone inv view busy ne hu) holds' torn
      fun is p left => absurd left (Inv.whole inv view busy is)
  · cases (stand.owned busy).symm.trans poisoned

theorem holds_spec (busy : v.stand ≠ .free) (keeps : prog.Keeps face) : Spec strict op prog v fun _ v' => v' = v := by
  induction prog with
  | done a => exact rfl
  | choose next ih => exact fun n => ih n (keeps n)
  | atomic site act next ih =>
    intro s dead views t inv view _
    obtain ⟨same, rest⟩ := keeps s
    have stand := Inv.stand inv view busy
    refine ⟨v, ?_, fun poisoned => (congrArg Prod.fst same).trans poisoned, ih s rest⟩
    exact Inv.turn inv view (fun ne hu => Inv.alone inv view busy ne hu) (stand.same same) (congrArg (fun x => x.2.2) same)
      fun is p left => absurd left (Inv.whole inv view busy is)

theorem Claimed.busy (claimed : v.stand = .claimed) : v.stand ≠ .free := by
  rw [claimed]
  nofun

theorem claimed_spec (claimed : v.stand = .claimed) (keeps : prog.Keeps face) :
    Spec strict op prog v fun _ v' => v'.stand = .claimed :=
  (holds_spec (Claimed.busy claimed) keeps).mono fun _ _ same => same ▸ claimed

theorem enter_spec {f : Shared → Shared} (mine : p = op.owner) (claimed : v.stand = .claimed)
    (h : ∀ s, face (f s) = (s.heap.mutation, p :: s.heap.bodies, s.heap.torn)) :
    Spec strict op (Prog.write site f) v fun _ v' => v'.stand = .inside := by
  refine holder_spec (f := fun s => (f s, ())) (Claimed.busy claimed) fun s holds => ?_
  obtain ⟨mutation, bodies, torn⟩ : _ ∧ _ ∧ _ := by simpa [face] using h s
  rw [claimed] at holds
  refine ⟨torn, .inside, ⟨?_, mutation.trans holds.2⟩, rfl⟩
  rw [bodies, holds.1, mine]

theorem leave_spec (mine : p = op.owner) (inside : v.stand = .inside)
    (h : ∀ s, face (f s).1 = (s.heap.mutation, s.heap.bodies.erase p, s.heap.torn)) :
    Spec strict op (Prog.action site f) v fun _ v' => v'.stand = .claimed := by
  refine holder_spec (by rw [inside]; nofun) fun s holds => ?_
  obtain ⟨mutation, bodies, torn⟩ : _ ∧ _ ∧ _ := by simpa [face] using h s
  rw [inside] at holds
  refine ⟨torn, .claimed, ⟨?_, mutation.trans holds.2⟩, rfl⟩
  rw [bodies, holds.1, mine, erase_cons_head]

theorem commitMutation_spec (claimed : v.stand = .claimed) : Frees strict op commitMutation v := by
  refine holder_spec (f := fun s => (_, ())) (Claimed.busy claimed) fun s holds => ?_
  rw [claimed] at holds
  exact ⟨rfl, .free, ⟨holds.1, nofun⟩, rfl⟩

/-- What follows is quiet. -/
theorem commits_spec (mine : p = op.owner) (claimed : v.stand = .claimed) (hushed : Hushed p prog) :
    Frees strict op (commitMutation >>= fun _ => prog) v :=
  .seq (commitMutation_spec claimed) fun _ _ free => hushed.ends mine free

theorem dropMutation_spec (claimed : v.stand = .claimed) : Frees strict op dropMutation v := by
  refine holder_spec (f := fun s => (_, ())) (Claimed.busy claimed) fun s holds => ?_
  rw [claimed] at holds
  exact ⟨rfl, .free, ⟨holds.1, nofun⟩, rfl⟩

theorem allocateDuring_spec (mine : p = op.owner) (claimed : v.stand = .claimed) :
    Spec strict op (allocateDuring p) v fun _ v' => v'.stand = .claimed := by
  refine .seq (enter_spec mine claimed fun _ => rfl) fun _ w inside => ?_
  refine .pick fun offset => leave_spec mine inside fun s => ?_
  split <;> rfl

theorem deallocateDuring_spec (mine : p = op.owner) (claimed : v.stand = .claimed) {offset : Nat} :
    Spec strict op (deallocateDuring p offset) v fun _ v' => v'.stand = .claimed := by
  refine .seq (enter_spec mine claimed fun _ => rfl) fun _ w inside => ?_
  exact leave_spec (f := fun s => (_, ())) mine inside fun s => rfl

/-! ### Claims -/

def Claims {ε α : Type} : Except ε α → View → Prop
  | .ok _, v => v.stand = .claimed
  | .error _, v => v.stand = .free

theorem beginMutation_spec {bound : Bool} (mine : p = op.owner) (free : v.stand = .free) :
    Spec strict op (beginMutation p bound) v Claims := by
  refine Protocol.Triple.action fun s dead views t inv view _ => ?_
  cases mutation : s.heap.mutation with
  | poisoned => exact ⟨v, by rwa [update_same view], id, free⟩
  | owned busy => exact ⟨v, by rwa [update_same view], id, free⟩
  | clean =>
    refine ⟨{ v with stand := .claimed }, ?_, fun poisoned => ?_, rfl⟩
    · refine Inv.turn inv view (fun ne hu => ?_) ⟨?_, mine ▸ rfl⟩ rfl fun is q left => ?_
      · by_contra busy
        cases mutation.symm.trans ((Inv.stand inv hu busy).owned busy)
      · refine eq_nil_iff_forall_not_mem.mpr fun q inside => ?_
        cases mutation.symm.trans (Inv.bodies inv q inside).1
      · rcases Inv.torn inv is q left with ⟨owned, -⟩ | poisoned
        · cases mutation.symm.trans owned
        · cases mutation.symm.trans poisoned
    · cases mutation.symm.trans poisoned

theorem Inv.unclaim {mutation : Mutation} (inv : Inv strict s dead views) (ht : views t = some (op, v))
    (recovers : op.recovers = some gone) (owned : s.heap.mutation = .owned gone) (free : v.stand = .free)
    (unowned : ∀ p, mutation ≠ .owned p) (safe : mutation = .poisoned ∨ v.know = .unfrozen) :
    Inv strict { s with heap := s.heap.setMutation mutation false } dead (Function.update views t (some (op, v))) := by
  have stopped := inv.gone ht recovers
  refine inv.turn ht (fun ne hu => ?_) ?_ rfl fun is q left => ?_
  · by_contra busy
    cases owned.symm.trans ((inv.stand hu busy).owned busy)
    cases stopped.symm.trans (inv.alive hu)
  · rw [free]
    refine ⟨eq_nil_iff_forall_not_mem.mpr fun q inside => ?_, unowned⟩
    obtain ⟨owned', running⟩ := inv.bodies q inside
    cases owned.symm.trans owned'
    cases stopped.symm.trans running
  · rcases safe with poisoned | unfrozen
    · exact poisoned
    · have know := inv.know is ht
      rw [unfrozen] at know
      rcases inv.torn is q left with ⟨owned', -⟩ | poisoned
      · cases owned.symm.trans owned'
        exact absurd left (know gone recovers owned)
      · cases owned.symm.trans poisoned

theorem poisonOwner_spec (recovers : op.recovers = some gone) (free : v.stand = .free) :
    Spec strict op (poisonOwner gone) v fun _ v' => v' = v := by
  refine Protocol.Triple.action fun s dead views t inv view _ => ⟨v, ?_⟩
  by_cases owned : s.heap.mutation = .owned gone
  · simp only [if_pos owned]
    exact ⟨Inv.unclaim inv view recovers owned free nofun (.inl rfl), fun _ => rfl, trivial⟩
  · simp only [if_neg owned, update_same view]
    exact ⟨inv, id, trivial⟩

theorem clearDeadOwner_spec (recovers : op.recovers = some gone) (free : v.stand = .free) (unfrozen : v.know = .unfrozen) :
    Spec strict op (clearDeadOwner gone) v fun _ v' => v' = v := by
  refine Protocol.Triple.action fun s dead views t inv view _ => ⟨v, ?_⟩
  by_cases owned : s.heap.mutation = .owned gone
  · simp only [if_pos owned]
    refine ⟨Inv.unclaim inv view recovers owned free nofun (.inr unfrozen), fun poisoned => ?_, trivial⟩
    cases owned.symm.trans poisoned
  · simp only [if_neg owned, update_same view]
    exact ⟨inv, id, trivial⟩

/-! ### What a recoverer reads -/

theorem Inv.learn (inv : Inv strict s dead views) (ht : views t = some (op, v)) (holds : strict → know.Holds op s) :
    Inv strict s dead (Function.update views t (some (op, { v with know }))) := by
  refine inv.put (inv.alive ht) (fun p => inv.gone ht) (inv.stand ht :) (fun ne hu busy => ⟨inv.stand hu busy, ?_⟩) holds
    (fun is _ _ _ hu => inv.know is hu) inv.bodies inv.torn inv.frozen
  by_contra mine
  exact ne (inv.one hu ht busy mine)

/-- A claim left in a body was left without a `CLOSING` entry, as long as its owner has the transaction. -/
theorem loadTxn_spec (free : v.stand = .free) :
    Spec strict op loadTxn v fun txn v' => v'.stand = .free ∧ (txn.wordOwner = op.recovers → v'.know = .watching) := by
  refine Protocol.Triple.read (fun _ => id) fun s dead views t inv view _ => ?_
  by_cases same : s.dir.transaction.wordOwner = op.recovers
  · refine ⟨{ v with know := .watching }, Inv.learn inv view fun is q recovers owned left => ?_, free, fun _ => rfl⟩
    exact Inv.frozen inv is q left owned (same.trans recovers)
  · exact ⟨v, by rwa [update_same view], free, fun h => absurd h same⟩

/-- An entry that says that the heap is whole -/
def Assures (word : EntryWord) : Prop := word.state = .closing ∨ word.state = .released

theorem loadState_spec {k e : Nat} (free : v.stand = .free) (watching : v.know = .watching) :
    Spec strict op (loadState k e) v fun word v' => v'.stand = .free ∧ (Assures word → v'.know = .unfrozen) := by
  refine Protocol.Triple.read (fun _ => id) fun s dead views t inv view _ => ?_
  by_cases whole : Assures (s.dir.entry k e).word
  · refine ⟨{ v with know := .unfrozen }, Inv.learn inv view fun is q recovers owned left => ?_, free, fun _ => rfl⟩
    have know := Inv.know inv is view
    rw [watching] at know
    have calm := know q recovers owned left k e
    exact whole.elim calm.1 calm.2
  · exact ⟨v, by rwa [update_same view], free, fun h => absurd h whole⟩

end Steps

/-! ### Parts of the directory operations -/

section Parts

variable {p : Nat} {β : Type} {k e : Nat} {word : EntryWord}

theorem update_hushed {f : Dir → Dir}
    (owner : ∀ d q, (f d).transaction.wordOwner = some q → d.transaction.wordOwner = some q ∨ q = p)
    (calm : ∀ d, NoClosing d → NoClosing (f d)) : Hushed p (update f) :=
  fun s => ⟨⟨rfl, owner s.dir, calm s.dir⟩, trivial⟩

theorem storeState_hushed (calm : ¬Assures word) : Hushed p (storeState k e word) :=
  update_hushed (fun _ _ => .inl) fun _ old => old.setEntry (not_or.mp calm)

theorem storeHome_hushed {account : Account → Account} (calm : ¬Assures word) : Hushed p (storeHome k e word account) :=
  update_hushed (fun _ _ => .inl) fun _ old => old.setEntry (not_or.mp calm)

theorem settleState_hushed (calm : ¬Assures word) : Hushed p (settleState k e word) :=
  update_hushed (fun _ _ => .inl) fun _ old => old.setEntry (not_or.mp calm)

theorem clearPending_hushed : Hushed p (clearPending p) :=
  update_hushed (fun _ _ mine => .inr (Option.some.inj mine).symm) fun _ => id

theorem commit_hushed {phase : Phase} {ids : List (Id × Nat)} : Hushed p (commit p phase ids) := by
  refine .action fun s => ?_
  split
  · exact ⟨rfl, nofun, id⟩
  · exact ⟨rfl, fun _ => .inl, id⟩

theorem dropTransaction_hushed {phase : Phase} : Hushed p (dropTransaction p phase) := by
  refine update_hushed (fun d q => ?_) fun d => ?_
  · split
    · exact fun mine => .inr (Option.some.inj mine).symm
    · exact .inl
  · split <;> exact id

theorem claim_hushed : Hushed p (claim p) := by
  refine .action fun s => ?_
  cases s.dir.transaction with
  | clean => exact ⟨rfl, fun _ mine => .inr (Option.some.inj mine).symm, id⟩
  | owned q phase => exact ⟨rfl, fun _ => .inl, id⟩

theorem transfer_hushed {gone : Nat} {phase next : Phase} {bound : Bool} : Hushed p (transfer p gone phase next bound) := by
  refine .action fun s => ?_
  split
  · exact ⟨rfl, fun _ mine => .inr (Option.some.inj mine).symm, id⟩
  · exact ⟨rfl, fun _ => .inl, id⟩

theorem giveUp_hushed {error : Error} : Hushed p (giveUp p error : DirProg (Except Error β)) :=
  .bind commit_hushed fun _ => trivial

theorem update_keeps {f : Dir → Dir} : (update f).Keeps face := .write fun _ => rfl

theorem persist_keeps {slab entry pointer : Nat} {kind : Kind} : (persist p slab entry pointer kind).Keeps face :=
  .bind update_keeps fun _ => .bind update_keeps fun _ => .bind update_keeps fun _ => .bind update_keeps fun _ => update_keeps

theorem storeState_vacant {slot : Slot} (vacant : slot.vacant.state = .vacant) :
    Hushed p (storeState slot.slab slot.entry slot.vacant) := by
  refine storeState_hushed ?_
  rintro (closing | released)
  · cases vacant.symm.trans closing
  · cases vacant.symm.trans released

end Parts

/-! ### Creating, removing and growing -/

section Operations

variable {strict : Prop} {S : Setup} {op : Op} {v : View} {p : Nat} (mine : p = op.owner)

include mine

variable {pointer : Nat} {slot : Slot} {id : Id}

theorem growAt_spec {k : Nat} (claimed : v.stand = .claimed) : Frees strict op (growAt p k pointer) v := by
  refine .seq (claimed_spec claimed offsetOf_keeps) ?_
  rintro (error | offset) w claimed
  · refine .seq (deallocateDuring_spec mine claimed) fun _ w claimed => ?_
    exact .seq (commitMutation_spec claimed) fun _ _ free => free
  refine .seq (claimed_spec claimed persist_keeps) fun _ w claimed => ?_
  refine .seq (commitMutation_spec claimed) fun _ w free => ?_
  have linked : Hushed p (update fun d => { d.setAccount .settled with next := Function.update d.next k offset }) :=
    update_hushed (fun _ _ => .inl) fun _ => id
  exact Hushed.ends (.bind linked fun _ => .bind clearPending_hushed fun _ => trivial) mine free

theorem grow_spec (free : v.stand = .free) : Frees strict op (grow p) v := by
  refine .seq ((Hushed.of_keeps (tailFrom_reads _ _).keeps).ends mine free) ?_
  rintro (error | k) w free
  · exact free
  dsimp only
  split
  · exact free
  refine .seq (beginMutation_spec mine free) ?_
  rintro (error | ⟨⟩) w claimed
  · exact claimed
  refine .seq (allocateDuring_spec mine claimed) ?_
  rintro (error | pointer) w claimed
  · exact .seq (commitMutation_spec claimed) fun _ _ free => free
  · exact growAt_spec mine claimed

theorem createAdmit_spec {offset : Nat} (free : v.stand = .free) : Frees strict op (createAdmit S p slot offset) v := by
  refine .seq ((Hushed.of_keeps (admitAt_keeps fun _ _ => rfl)).ends mine free) ?_
  rintro (error | ⟨⟩) w free
  · refine .seq (beginMutation_spec mine free) ?_
    rintro (error | ⟨⟩) w claimed
    · exact Hushed.ends (.bind dropTransaction_hushed fun _ => trivial) mine claimed
    refine .seq (claimed_spec claimed .read) fun pending w claimed => ?_
    refine .seq (deallocateDuring_spec mine claimed) fun _ w claimed => ?_
    refine .seq (claimed_spec claimed update_keeps) fun _ w claimed => ?_
    refine .seq (claimed_spec claimed update_keeps) fun _ w claimed => ?_
    exact commits_spec mine claimed giveUp_hushed
  · have placed : Hushed p (update fun d => d.setOffset slot.slab slot.entry offset) :=
      update_hushed (fun _ _ => .inl) fun _ old => old.setEntry (old _ _)
    have published : ¬Assures ⟨slot.generation, .published⟩ := by simp [Assures]
    exact Hushed.ends (.bind placed fun _ => .bind (settleState_hushed published) fun _ => .bind clearPending_hushed fun _ =>
      .bind commit_hushed fun _ => trivial) mine free

theorem createAllocated_spec (vacant : slot.vacant.state = .vacant) (claimed : v.stand = .claimed) :
    Frees strict op (createAllocated S p slot pointer) v := by
  refine .seq (claimed_spec claimed (.write fun _ => rfl)) fun _ w claimed => ?_
  refine .seq (claimed_spec claimed offsetOf_keeps) ?_
  rintro (error | offset) w claimed
  · refine .seq (deallocateDuring_spec mine claimed) fun _ w claimed => ?_
    exact commits_spec mine claimed ((storeState_vacant vacant).bind fun _ => giveUp_hushed)
  · refine .seq (claimed_spec claimed persist_keeps) fun _ w claimed => ?_
    exact .seq (commitMutation_spec claimed) fun _ w free => createAdmit_spec mine free

theorem createAt_spec (vacant : slot.vacant.state = .vacant) (free : v.stand = .free) :
    Frees strict op (createAt S p slot) v := by
  refine .seq ((Hushed.of_keeps (entry_reads _ _).keeps).ends mine free) ?_
  rintro (error | ⟨⟩) w free
  · exact giveUp_hushed.ends mine free
  have pending : ¬Assures ⟨slot.generation, .pending⟩ := by simp [Assures]
  refine .seq ((storeHome_hushed pending).ends mine free) fun _ w free => ?_
  refine .seq (beginMutation_spec mine free) ?_
  rintro (error | ⟨⟩) w claimed
  · exact ((storeState_vacant vacant).bind fun _ => giveUp_hushed).ends mine claimed
  refine .seq (allocateDuring_spec mine claimed) ?_
  rintro (error | pointer) w claimed
  · exact commits_spec mine claimed ((storeState_vacant vacant).bind fun _ => giveUp_hushed)
  · exact createAllocated_spec mine vacant claimed

omit mine in
theorem reserveIn_spec (k n e : Nat) :
    Spec strict op (reserveIn S k n e) v fun r v' => v' = v ∧ ∀ slot, r = some slot → slot.vacant.state = .vacant := by
  induction n generalizing e with
  | zero => exact ⟨rfl, nofun⟩
  | succ n ih =>
    refine .next (Protocol.Triple.peek (Q := fun _ v' => v' = v) (fun _ => id) fun _ => rfl) fun word => ?_
    split
    · next found =>
      refine ⟨rfl, ?_⟩
      rintro slot ⟨⟩
      exact found.1
    · exact ih (e + 1)

omit mine in
theorem reserveFrom_spec (n k : Nat) :
    Spec strict op (reserveFrom S n k) v fun r v' => v' = v ∧ ∀ slot, r = .ok slot → slot.vacant.state = .vacant := by
  induction n generalizing k with
  | zero => exact ⟨rfl, nofun⟩
  | succ n ih =>
    refine .seq (reserveIn_spec k capacity 0) ?_
    rintro (_ | slot) _ ⟨rfl, vacant⟩
    · refine .next (Protocol.Triple.peek (Q := fun _ v' => v' = _) (fun _ => id) fun _ => rfl) fun next => ?_
      split
      · exact ⟨rfl, nofun⟩
      · exact ih (k + 1)
    · refine ⟨rfl, ?_⟩
      rintro slot ⟨⟩
      exact vacant _ rfl

theorem createHeld_spec (free : v.stand = .free) : Frees strict op (createHeld S p) v := by
  refine .seq (reserveFrom_spec _ _) ?_
  rintro (error | slot) w ⟨rfl, vacant⟩
  swap
  · exact createAt_spec mine (vacant slot rfl) free
  cases error with
  | full =>
    refine .seq (grow_spec mine free) ?_
    rintro (error | ⟨⟩) w free
    · exact giveUp_hushed.ends mine free
    refine .seq (reserveFrom_spec _ _) ?_
    rintro (error | slot) w ⟨rfl, vacant⟩
    · exact giveUp_hushed.ends mine free
    · exact createAt_spec mine (vacant slot rfl) free
  | _ => exact giveUp_hushed.ends mine free

theorem removeClosed_spec {offset : Nat} (claimed : v.stand = .claimed) : Frees strict op (removeClosed p id offset) v := by
  refine .seq (claimed_spec claimed update_keeps) fun _ w claimed => ?_
  refine .seq (deallocateDuring_spec mine claimed) fun _ w claimed => ?_
  refine .seq (claimed_spec claimed update_keeps) fun _ w claimed => ?_
  refine .seq (commitMutation_spec claimed) fun _ w free => ?_
  have vacant : ¬Assures ⟨id.generation, .vacant⟩ := by simp [Assures]
  exact Hushed.ends (.bind (storeState_hushed vacant) fun _ => .bind clearPending_hushed fun _ =>
    .bind commit_hushed fun _ => trivial)
    mine free

theorem removeHeld_spec {offset : Nat} (claimed : v.stand = .claimed) : Frees strict op (removeHeld S p id offset) v := by
  refine .seq (claimed_spec claimed update_keeps) fun _ w claimed => ?_
  refine .seq (claimed_spec claimed persist_keeps) fun _ w claimed => ?_
  refine .seq (claimed_spec claimed (closeUnique_keeps fun _ _ => rfl)) ?_
  rintro (error | ⟨⟩) w claimed
  · refine .seq (claimed_spec claimed update_keeps) fun _ w claimed => ?_
    refine .seq (claimed_spec claimed update_keeps) fun _ w claimed => ?_
    exact commits_spec mine claimed giveUp_hushed
  · exact removeClosed_spec mine claimed

theorem remove_spec {heapRegion mapped : Nat} {fits inHeap : Bool} (free : v.stand = .free) :
    Frees strict op (remove S p heapRegion id mapped fits inHeap) v := by
  unfold remove
  split
  · exact free
  split
  · exact free
  refine .seq ((Hushed.of_keeps (offset_reads _).keeps).ends mine free) ?_
  rintro (error | offset) w free
  · exact free
  dsimp only
  split
  · exact free
  refine .seq (claim_hushed.ends mine free) ?_
  rintro (error | ⟨⟩) w free
  · exact free
  refine .seq ((Hushed.of_keeps (entry_reads _ _).keeps).ends mine free) ?_
  rintro (error | ⟨⟩) w free
  · exact giveUp_hushed.ends mine free
  refine .seq (Hushed.read.ends mine free) fun word w free => ?_
  split
  · exact giveUp_hushed.ends mine free
  split
  · exact giveUp_hushed.ends mine free
  refine .seq (beginMutation_spec mine free) ?_
  rintro (error | ⟨⟩) w claimed
  · exact giveUp_hushed.ends mine claimed
  · exact removeHeld_spec mine claimed

end Operations

/-! ### Recovering -/

section Recovery

variable {p gone : Nat} {S : Setup} {phase : Phase} {k e generation : Nat}
variable {result : Recovered} {dead : Bool}

theorem transferAndClear_hushed : Hushed p (transferAndClear p gone phase result) := by
  refine .bind transfer_hushed ?_
  rintro (error | ⟨⟩)
  · trivial
  · exact .bind commit_hushed fun _ => trivial

theorem finish_hushed : Hushed p (finish p result) :=
  .bind clearPending_hushed fun _ => .bind commit_hushed fun _ => trivial

theorem quarantine_hushed : Hushed p (quarantine S p gone phase k e) := by
  refine .bind transfer_hushed ?_
  rintro (error | ⟨⟩)
  · trivial
  refine .bind .read fun word => .bind (storeState_hushed (by simp [Assures])) fun _ => ?_
  split
  · exact .bind commit_hushed fun _ => trivial
  · exact .bind dropTransaction_hushed fun _ => trivial

theorem recoverUncleared_hushed : Hushed p (recoverUncleared S p gone phase k e) := by
  refine .bind .read ?_
  rintro (_ | owner | _)
  · trivial
  · trivial
  · exact quarantine_hushed

theorem recoverUnclosed_hushed : Hushed p (recoverUnclosed p gone phase k e generation) := by
  refine .bind transfer_hushed ?_
  rintro (error | ⟨⟩)
  · trivial
  · exact .bind (settleState_hushed (by simp [Assures])) fun _ => finish_hushed

theorem recoverVacated_hushed : Hushed p (recoverVacated p gone phase) := by
  refine .bind transfer_hushed ?_
  rintro (error | ⟨⟩)
  · trivial
  · exact finish_hushed

theorem recoverVacant_hushed : Hushed p (recoverVacant p gone phase) := by
  refine .bind .read ?_
  rintro (_ | owner | _)
  · exact recoverVacated_hushed
  · dsimp only
    split
    · trivial
    · exact recoverVacated_hushed
  · exact recoverVacated_hushed

theorem recoverReserved_hushed : Hushed p (recoverReserved S p gone phase k e generation) := by
  unfold recoverReserved
  split
  · exact quarantine_hushed
  refine .bind transfer_hushed ?_
  rintro (error | ⟨⟩)
  · trivial
  · exact .bind (storeState_hushed (by simp [Assures])) fun _ => .bind commit_hushed fun _ => trivial

theorem recoverLinked_hushed : Hushed p (recoverLinked p gone phase result) := by
  refine .bind transfer_hushed ?_
  rintro (error | ⟨⟩)
  · trivial
  · exact finish_hushed

variable {strict : Prop} {op : Op} {v : View} (mine : p = op.owner)

include mine

section

variable (free : v.stand = .free)

include free

theorem claimHeapAndTransfer_spec : Spec strict op (claimHeapAndTransfer p gone phase) v Claims := by
  refine .seq (beginMutation_spec mine free) ?_
  rintro (error | ⟨⟩) w claimed
  · exact claimed
  have keeps : (transfer p gone phase phase true).Keeps face := .action fun s => by
    split <;> rfl
  refine .seq (claimed_spec claimed keeps) ?_
  rintro (error | ⟨⟩) w claimed
  · exact .seq (commitMutation_spec claimed) fun _ _ free => free
  · exact claimed

theorem recoverRemoving_spec : Frees strict op (recoverRemoving p gone phase k e generation) v := by
  refine .seq (claimHeapAndTransfer_spec mine free) ?_
  rintro (error | ⟨⟩) w claimed
  · exact claimed
  refine .seq (claimed_spec claimed .read) fun pending w claimed => ?_
  refine .seq (deallocateDuring_spec mine claimed) fun _ w claimed => ?_
  refine .seq (claimed_spec claimed update_keeps) fun _ w claimed => ?_
  exact commits_spec mine claimed (.bind (storeState_hushed (by simp [Assures])) fun _ => finish_hushed)

theorem recoverPending_spec : Frees strict op (recoverPending S p gone phase k e generation) v := by
  unfold recoverPending
  split
  · exact quarantine_hushed.ends mine free
  refine .seq (claimHeapAndTransfer_spec mine free) ?_
  rintro (error | ⟨⟩) w claimed
  · exact claimed
  refine .seq (claimed_spec claimed .read) fun pending w claimed => ?_
  refine .seq (deallocateDuring_spec mine claimed) fun _ w claimed => ?_
  refine .seq (claimed_spec claimed update_keeps) fun _ w claimed => ?_
  refine .seq (claimed_spec claimed update_keeps) fun _ w claimed => ?_
  exact commits_spec mine claimed (.bind commit_hushed fun _ => trivial)

theorem recoverGuarded_spec {clean : DirProg (Except Error Recovered)}
    (goes : ∀ w : View, w.stand = .free → Frees strict op clean w) :
    Frees strict op (recoverGuarded S p gone phase k e clean) v := by
  refine .seq (Hushed.read.ends mine free) ?_
  rintro (_ | owner | _) w free
  · exact goes w free
  · exact free
  · exact quarantine_hushed.ends mine free

theorem recoverPoisoned_spec {kind : Kind} {word : EntryWord} :
    Frees strict op (recoverPoisoned S p gone phase kind k e word) v := by
  unfold recoverPoisoned
  split
  · exact recoverReserved_hushed.ends mine free
  split
  · exact recoverGuarded_spec mine free fun w free => recoverPending_spec mine free
  split
  · exact recoverGuarded_spec mine free fun w free => recoverRemoving_spec mine free
  · exact quarantine_hushed.ends mine free

theorem recoverUnlinked_spec {offset : Nat} : Frees strict op (recoverUnlinked p gone phase offset) v := by
  refine .seq (Hushed.read.ends mine free) ?_
  rintro (_ | owner | _) w free
  · refine .seq (claimHeapAndTransfer_spec mine free) ?_
    rintro (error | ⟨⟩) w claimed
    · exact claimed
    refine .seq (deallocateDuring_spec mine claimed) fun _ w claimed => ?_
    refine .seq (claimed_spec claimed update_keeps) fun _ w claimed => ?_
    exact commits_spec mine claimed (.bind commit_hushed fun _ => trivial)
  · exact free
  · exact recoverLinked_hushed.ends mine free

end

theorem poisonDead_spec (recovers : op.recovers = some gone) (free : v.stand = .free) : Frees strict op (poisonDead gone) v := by
  refine .seq (Hushed.read.ends mine free) fun word w free => ?_
  split
  · exact .seq (poisonOwner_spec recovers free) fun _ _ same => same ▸ free
  · exact free

theorem recoverLink_spec {offset link : Nat} (recovers : dead = true → op.recovers = some gone) (free : v.stand = .free) :
    Frees strict op (recoverLink p gone phase dead offset link) v := by
  unfold recoverLink
  split
  · exact recoverLinked_hushed.ends mine free
  split
  · exact recoverLinked_hushed.ends mine free
  split
  · next is => exact .seq (poisonDead_spec mine (recovers is) free) fun _ w free => recoverUnlinked_spec mine free
  · exact recoverUnlinked_spec mine free

theorem recoverGrowth_spec (recovers : dead = true → op.recovers = some gone) (free : v.stand = .free) :
    Frees strict op (recoverGrowth p gone phase dead) v := by
  refine .seq (Hushed.read.ends mine free) ?_
  rintro (_ | predecessor) w free
  · exact free
  refine .seq (Hushed.read.ends mine free) fun pending w free => ?_
  refine .seq ((Hushed.of_keeps offsetOf_keeps).ends mine free) ?_
  rintro (error | offset) w free
  · exact free
  refine .seq ((Hushed.of_keeps (walk_reads _ _).keeps).ends mine free) ?_
  rintro (error | ⟨⟩) w free
  · exact free
  exact .seq (Hushed.read.ends mine free) fun link w free => recoverLink_spec mine recovers free

variable (recovers : op.recovers = some gone)

include recovers

section

variable (free : v.stand = .free)

include free

theorem recoverClosing_spec (unfrozen : v.know = .unfrozen) :
    Frees strict op (recoverClosing S p gone phase k e generation) v := by
  refine .seq (clearDeadOwner_spec recovers free unfrozen) ?_
  rintro (_ | _) _ rfl
  · exact recoverUncleared_hushed.ends mine free
  refine .seq (Hushed.read.ends mine free) fun pending w free => ?_
  refine .seq (Hushed.read.ends mine free) fun closed w free => ?_
  split
  · exact recoverUnclosed_hushed.ends mine free
  · exact recoverRemoving_spec mine free

theorem recoverReleased_spec (unfrozen : v.know = .unfrozen) :
    Frees strict op (recoverReleased S p gone phase k e generation) v := by
  refine .seq (clearDeadOwner_spec recovers free unfrozen) ?_
  rintro (_ | _) _ rfl
  · exact recoverUncleared_hushed.ends mine free
  refine .seq (transfer_hushed.ends mine free) ?_
  rintro (error | ⟨⟩) w free
  · exact free
  · exact Hushed.ends (.bind (storeState_hushed (by simp [Assures])) fun _ => finish_hushed) mine free

theorem recoverState_spec {kind : Kind} {word : EntryWord} (unfrozen : Assures word → v.know = .unfrozen) :
    Frees strict op (recoverState S p gone phase kind k e word) v := by
  unfold recoverState
  split
  · next closing => exact recoverClosing_spec mine recovers free (unfrozen (.inl closing.2.2))
  split
  · next released => exact recoverReleased_spec mine recovers free (unfrozen (.inr released.2.2))
  split
  · exact recoverVacant_hushed.ends mine free
  · exact .seq (poisonDead_spec mine recovers free) fun _ w free => recoverPoisoned_spec mine free

theorem recoverEntry_spec {kind : Kind} (watching : v.know = .watching) :
    Frees strict op (recoverEntry S p gone phase kind k e) v := by
  refine .seq ((Hushed.of_keeps (entry_reads _ _).keeps).spec mine) ?_
  rintro (error | ⟨⟩) _ rfl
  · exact free
  · exact .seq (loadState_spec free watching) fun word w knows => recoverState_spec mine recovers knows.1 knows.2

theorem recoverHeld_spec : Frees strict op (recoverHeld p gone phase) v := by
  unfold recoverHeld
  split
  · exact free
  refine .seq (Hushed.read.ends mine free) fun word w free => ?_
  split
  · exact .seq (poisonOwner_spec recovers free) fun _ _ same => transferAndClear_hushed.ends mine (same ▸ free)
  · exact transferAndClear_hushed.ends mine free

theorem recoverOwned_spec (watching : v.know = .watching) : Frees strict op (recoverOwned S p gone phase) v := by
  refine .next (Hushed.read.spec mine) fun kind => ?_
  split
  · exact recoverGrowth_spec mine (fun _ => recovers) free
  split
  · refine .next (Hushed.read.spec mine) fun k => ?_
    refine .next (Hushed.read.spec mine) fun e => ?_
    exact recoverEntry_spec mine recovers free watching
  · refine .seq ((Hushed.of_keeps (transitionFrom_reads _ _).keeps).spec mine) ?_
    rintro (error | _ | ⟨k, e⟩) _ rfl
    · exact free
    · exact recoverHeld_spec mine recovers free
    · exact recoverEntry_spec mine recovers free watching

theorem recover_spec {heapRegion : Nat} : Frees strict op (recover S p heapRegion gone) v := by
  unfold recover
  split
  · exact free
  refine .seq (loadTxn_spec free) ?_
  rintro (_ | ⟨owner, phase⟩) w ⟨free, watching⟩
  · exact free
  dsimp only
  split
  · exact free
  · next same =>
    obtain rfl : owner = gone := not_not.mp same
    exact recoverOwned_spec mine recovers free (watching recovers.symm)

end

omit mine recovers in
theorem recoverMember_hushed : Hushed p (recoverMember gone) :=
  .bind (.of_keeps (.write fun _ => rfl)) fun _ => .bind .read fun _ => trivial

theorem finishRecovery_spec (free : v.stand = .free) : Frees strict op (finishRecovery gone) v := by
  refine .seq (Hushed.read.ends mine free) ?_
  rintro (_ | owner | _) w free
  · exact recoverMember_hushed.ends mine free
  swap
  · exact recoverMember_hushed.ends mine free
  dsimp only
  split
  · exact free
  refine .next (poisonOwner_spec recovers free) fun poisoned => ?_
  split
  · exact recoverMember_hushed.ends mine free
  refine .seq (Hushed.read.ends mine free) fun word w free => ?_
  split
  · exact recoverMember_hushed.ends mine free
  · exact free

end Recovery

/-! ### Rolling back, and users of the heap -/

section Users

variable {strict : Prop} {S : Setup} {op : Op} {v : View} {p : Nat} (mine : p = op.owner)

include mine

section

variable (free : v.stand = .free)

include free

theorem resumeCreate_spec : Frees strict op (resumeCreate p) v := by
  refine .seq (beginMutation_spec mine free) ?_
  rintro (error | ⟨⟩) w claimed
  · exact Hushed.ends (.bind dropTransaction_hushed fun _ => trivial) mine claimed
  refine .seq (claimed_spec claimed .read) fun pending w claimed => ?_
  refine .seq (deallocateDuring_spec mine claimed) fun _ w claimed => ?_
  refine .seq (claimed_spec claimed .read) fun k w claimed => ?_
  refine .seq (claimed_spec claimed .read) fun e w claimed => ?_
  refine .seq (claimed_spec claimed (entry_reads _ _).keeps) ?_
  rintro (error | ⟨⟩) w claimed
  · refine .seq (dropMutation_spec claimed) fun _ w free => ?_
    exact Hushed.ends (.bind dropTransaction_hushed fun _ => trivial) mine free
  refine .seq (claimed_spec claimed .read) fun word w claimed => ?_
  refine .seq (claimed_spec claimed update_keeps) fun _ w claimed => ?_
  refine .seq (claimed_spec claimed update_keeps) fun _ w claimed => ?_
  exact commits_spec mine claimed (.bind commit_hushed fun _ => trivial)

theorem resumeGrowth_spec : Frees strict op (resumeGrowth p) v := by
  refine .seq (recoverGrowth_spec mine nofun free) ?_
  rintro (error | result) w free
  · exact Hushed.ends (.bind (update_hushed (fun _ _ => .inl) fun _ => id) fun _ => trivial) mine free
  · exact free

theorem resumeRollback_spec : Frees strict op (resumeRollback p) v := by
  have takes : Hushed p (takeUp p) := .action fun s => by
    split <;> exact ⟨rfl, fun _ => .inl, id⟩
  have loads : Hushed p loadKindTaken := .action fun s => by
    split <;> exact ⟨rfl, fun _ => .inl, id⟩
  refine .seq (takes.ends mine free) ?_
  rintro (_ | _) w free
  · exact free
  refine .seq (loads.ends mine free) ?_
  rintro (_ | _ | _) w free
  · exact resumeCreate_spec mine free
  · exact free
  · exact resumeGrowth_spec mine free

theorem createBusy_spec {error : Error} : Frees strict op (createBusy p error) v := by
  unfold createBusy
  split
  swap
  · exact free
  refine .seq (Hushed.read.ends mine free) fun txn w free => ?_
  split
  · refine .seq (resumeRollback_spec mine free) ?_
    rintro (error | ⟨⟩) w free <;> exact free
  · exact free

theorem create_spec {heapRegion layout : Nat} {storage : Option Nat} :
    Frees strict op (create S p heapRegion storage layout) v := by
  unfold create
  split
  · exact free
  split
  · exact free
  refine .seq (claim_hushed.ends mine free) ?_
  rintro (error | ⟨⟩) w free
  · exact createBusy_spec mine free
  · exact createHeld_spec mine free

theorem allocate_spec : Frees strict op (allocate p) v := by
  refine .seq (beginMutation_spec mine free) ?_
  rintro (error | ⟨⟩) w claimed
  · exact claimed
  refine .seq (enter_spec mine claimed fun _ => rfl) fun _ w inside => .pick fun offset => ?_
  refine .seq (leave_spec mine inside fun s => ?_) fun got w claimed => ?_
  · split <;> rfl
  refine .seq (commitMutation_spec claimed) fun _ w free => ?_
  split
  · exact .pick fun value => Hushed.ends (.of_keeps (.write fun _ => rfl)) mine free
  · exact free

theorem releaseValue_spec {offset : Nat} : Frees strict op (releaseValue p offset) v := by
  refine .seq (beginMutation_spec mine free) ?_
  rintro (error | ⟨⟩) w claimed
  · exact claimed
  refine .seq (R := fun has w => w.stand = if has = true then .inside else .claimed) ?_ ?_
  · refine holder_spec (Claimed.busy claimed) fun s holds => ?_
    rw [claimed] at holds
    split
    · exact ⟨rfl, .inside, ⟨by rw [← mine]; exact congrArg (p :: ·) holds.1, holds.2⟩, rfl⟩
    · exact ⟨rfl, .claimed, holds, rfl⟩
  rintro (_ | _) w stand
  · exact commitMutation_spec stand
  · refine .seq (leave_spec (f := fun s => (_, ())) mine stand fun s => rfl) fun _ w claimed => ?_
    exact commitMutation_spec claimed

end

end Users

theorem code_spec {strict : Prop} (S : Setup) (op : Op) {v : View} (free : v.stand = .free) : Frees strict op (op.code S) v := by
  cases op with
  | create => exact .seq (create_spec rfl free) fun _ _ free => free
  | remove => exact .seq (remove_spec rfl free) fun _ _ free => free
  | recover => exact .seq (recover_spec rfl rfl free) fun _ _ free => free
  | finishRecovery => exact .seq (finishRecovery_spec rfl rfl free) fun _ _ free => free
  | allocate => exact allocate_spec rfl free
  | releaseValue => exact releaseValue_spec rfl free
  | member => exact Hushed.ends (.of_keeps (.write fun _ => rfl)) rfl free

/-! ### Runs -/

section Runs

variable {strict : Prop} {s : Shared} {dead : Nat → Bool} {views : Views Op View} {t p : Nat} {op : Op} {v : View}

theorem Inv.start : Inv strict .init (fun _ => false) fun _ => none where
  alive := nofun
  gone := nofun
  stand := nofun
  one := nofun
  know := nofun
  bodies := nofun
  torn := nofun
  frozen := nofun

theorem Inv.spawn (inv : Inv strict s dead views) (alive : dead op.owner = false)
    (gone : ∀ p, op.recovers = some p → dead p = true) :
    Inv strict s dead (Function.update views t (some (op, ⟨.free, .nothing⟩))) :=
  inv.put alive gone (absurd rfl) (fun _ hu busy => ⟨inv.stand hu busy, rfl⟩) (fun _ => trivial)
    (fun is _ _ _ hu => inv.know is hu)
    inv.bodies inv.torn inv.frozen

theorem Inv.fewer {views' : Views Op View} (inv : Inv strict s dead views)
    (sub : ∀ {u op v}, views' u = some (op, v) → views u = some (op, v)) : Inv strict s dead views' where
  alive := fun hu => inv.alive (sub hu)
  gone := fun hu => inv.gone (sub hu)
  stand := fun hu => inv.stand (sub hu)
  one := fun hu hu' => inv.one (sub hu) (sub hu')
  know := fun is hu => inv.know is (sub hu)
  bodies := inv.bodies
  torn := inv.torn
  frozen := inv.frozen

theorem Inv.retire (inv : Inv strict s dead views) : Inv strict s dead (Function.update views t none) :=
  inv.fewer fun hu => (retire_some hu).2

theorem mem_crash_torn {h : Heap} {q : Nat} (left : q ∈ (h.crash p).torn) : q ∈ h.torn ∨ q = p ∧ p ∈ h.bodies := by
  unfold Heap.crash at left
  dsimp only at left
  split at left
  · next inside =>
    rcases mem_cons.mp left with rfl | old
    · exact .inr ⟨rfl, inside⟩
    · exact .inl old
  · exact .inl left

theorem mem_crash_bodies {h : Heap} {q : Nat} : q ∈ (h.crash p).bodies ↔ q ∈ h.bodies ∧ q ≠ p := by
  simp [Heap.crash]

theorem crash_bodies_other {h : Heap} {q : Nat} (one : h.bodies = [q]) (other : q ≠ p) : (h.crash p).bodies = [q] := by
  simp [Heap.crash, one, other]

theorem crash_calm {d : Dir} (calm : NoClosing d) : NoClosing (d.crash p) := by
  unfold Dir.crash
  split <;> exact calm

theorem Inv.crash (inv : Inv strict s dead views) (stop : strict → ¬Exposed s p) :
    Inv strict { s with dir := s.dir.crash p, heap := s.heap.crash p } (Function.update dead p true)
      (fun t => (views t).filter fun th => th.1.owner != p) := by
  constructor
  case alive => exact fun hu => (update_of_ne (crash_some hu).2 ..).trans (inv.alive (crash_some hu).1)
  case gone => exact fun hu recovers => mark_kept (inv.gone (crash_some hu).1 recovers)
  case stand =>
    intro u op w hu busy
    obtain ⟨hu, other⟩ := crash_some hu
    have holds := inv.stand hu busy
    cases stand : w.stand <;> rw [stand] at holds
    · exact absurd stand busy
    · refine ⟨eq_nil_iff_forall_not_mem.mpr fun q inside => ?_, holds.2⟩
      have old := (mem_crash_bodies.mp inside).1
      rw [holds.1] at old
      cases old
    · exact ⟨crash_bodies_other holds.1 other, holds.2⟩
  case one => exact fun hu hu' => inv.one (crash_some hu).1 (crash_some hu').1
  case know =>
    intro u op w is hu
    have before := (crash_some hu).1
    have know := inv.know is before
    -- what is recovered had died before, so it is not in a body
    have old : ∀ q, op.recovers = some q → q ∈ (s.heap.crash p).torn → q ∈ s.heap.torn := by
      intro q recovers left
      rcases mem_crash_torn left with old | ⟨rfl, inside⟩
      · exact old
      · cases (inv.gone before recovers).symm.trans (inv.bodies q inside).2
    cases kind : w.know <;> rw [kind] at know
    · trivial
    · exact fun q recovers owned left => crash_calm (know q recovers owned (old q recovers left))
    · exact fun q recovers owned left => know q recovers owned (old q recovers left)
  case bodies =>
    intro q inside
    obtain ⟨inside, other⟩ := mem_crash_bodies.mp inside
    rw [update_of_ne other]
    exact inv.bodies q inside
  case torn =>
    intro is q left
    rcases mem_crash_torn left with old | ⟨rfl, inside⟩
    · exact (inv.torn is q old).imp (fun h => ⟨h.1, mark_kept h.2⟩) id
    · exact .inl ⟨(inv.bodies q inside).1, update_self ..⟩
  case frozen =>
    intro is q left owned owner
    rw [Dir.crash_transaction] at owner
    rcases mem_crash_torn left with old | ⟨rfl, inside⟩
    · exact crash_calm (inv.frozen is q old owned owner)
    · refine crash_calm ?_
      by_contra closing
      exact stop is ⟨inside, owner, closing⟩

theorem Inv.rejoin (inv : Inv strict s dead views) (unclaimed : s.heap.mutation ≠ .owned p)
    (unrecovered : ∀ {u op v}, views u = some (op, v) → op.recovers ≠ some p) :
    Inv strict s (Function.update dead p false) views := by
  refine { inv with alive := ?alive, gone := ?gone, bodies := ?bodies, torn := ?torn }
  case alive => exact fun hu => mark_kept (inv.alive hu)
  case gone =>
    intro u op v q hu recovers
    rw [update_of_ne (show q ≠ p from fun here => unrecovered hu (here ▸ recovers))]
    exact inv.gone hu recovers
  case bodies => exact fun q inside => ⟨(inv.bodies q inside).1, mark_kept (inv.bodies q inside).2⟩
  case torn =>
    intro is q left
    rcases inv.torn is q left with ⟨owned, gone⟩ | poisoned
    · rw [update_of_ne (show q ≠ p from fun here => unclaimed (here ▸ owned))]
      exact .inl ⟨owned, gone⟩
    · exact .inr poisoned

theorem sound (strict : Prop) (S : Setup) (settled : S.settled = true) : (protocol strict).Sound (machine S) .init where
  init := .start
  spawn := by
    intro s dead views t op ops inv unused alive within ready
    simp only [machine, Bool.and_eq_true] at ready
    refine ⟨⟨.free, .nothing⟩, Inv.spawn inv alive fun p recovers => ?_, code_spec S op rfl⟩
    have gone := ready.1.1
    rw [recovers] at gone
    exact gone
  retire := fun inv _ _ => Inv.retire inv
  crash := fun inv stop => ⟨Inv.crash inv stop, id⟩
  rejoin := by
    intro s dead views p ops inv _ within readmits
    simp only [machine, settled, Bool.not_true, Bool.false_or, Bool.and_eq_true, decide_eq_true_eq, all_eq_true] at readmits
    exact Inv.rejoin inv readmits.1.2 fun hu => readmits.2 _ (within _ _ _ hu)
  refl := fun _ => id

/-- **The heap is fail-stop.** In every run with crashes at any step in which a slot is joined again only after its
recoveries, a poisoned heap stays poisoned. And if nobody dies in a body with the transaction in hand while an entry is
`CLOSING` or `RELEASED`, then a heap that says it is clean was left in no body, and nobody is in one. -/
theorem heap_fail_stop (S : Setup) (settled : S.settled = true) {c c' : Config Shared Site Op}
    (run : (machine S).Reaches (.start .init) c) (further : (machine S).Reaches c c') :
    ((machine S).Run (Allowed (fun _ _ _ => True) fun s p => ¬Exposed s p) (.start .init) c → c.shared.heap.mutation = .clean →
      c.shared.heap.torn = [] ∧ c.shared.heap.bodies = []) ∧
    (c.shared.heap.mutation = .poisoned → c'.shared.heap.mutation = .poisoned) := by
  constructor
  · intro careful clean
    have allowed : (machine S).Run (Allowed (protocol True).cond (protocol True).stop) (.start .init) c :=
      careful.mono fun c step h => by
      cases step with
      | crash p => exact fun _ => h
      | _ => exact h
    obtain ⟨views, inv, -⟩ := (sound True S settled).run (sound True S settled).start allowed
    refine ⟨eq_nil_iff_forall_not_mem.mpr fun p left => ?_, eq_nil_iff_forall_not_mem.mpr fun p inside => ?_⟩
    · rcases Inv.torn inv trivial p left with ⟨owned, -⟩ | poisoned
      · cases clean.symm.trans owned
      · cases clean.symm.trans poisoned
    · cases clean.symm.trans (Inv.bodies inv p inside).1
  · have allowed (c : Config Shared Site Op) (step : Step Op) (_ : True) :
        Allowed (protocol False).cond (protocol False).stop c step := by
      cases step <;> simp [Allowed, protocol]
    have holds := (sound False S settled).run (sound False S settled).start (run.mono allowed)
    exact (sound False S settled).run_guar (fun _ _ _ first second => second ∘ first) holds (further.mono allowed)

end Runs

/-! ### A removal whose recoverer dies -/

open Identity (oneThread creation)

/-- Participant 0 dies after it has closed the layout that it removes. -/
def closedAndDead : List (Step Op) :=
  creation 0 ++ .spawn (.remove 0 1 ⟨1, 0, 0, 1⟩ 64 true true) :: List.replicate 12 (.run 1 0) ++ [.crash 0]

/-- Participant 1 clears the claim of participant 0. Then participant 2 dies while it allocates, its claim is turned into
poison, and participant 3 is refused. -/
theorem heap_fail_stop_allocation :
    ∃ c₁ c₂ c₃, (machine oneThread).Reaches (.start .init) c₁ ∧ c₁.shared.heap.mutation = .clean ∧
      (c₁.shared.dir.entry 0 0).word.state = .closing ∧ c₁.shared.heap.torn = [] ∧
      (machine oneThread).Reaches c₁ c₂ ∧ c₂.shared.heap.mutation = .poisoned ∧ c₂.shared.heap.torn = [2] ∧
      (machine oneThread).Reaches c₂ c₃ ∧ c₃.count = 6 ∧ c₃.shared.heap.mutation = .poisoned := by
  have steps : (((machine oneThread).execIf (Allowed (fun _ _ _ => True) fun s p => p ∉ s.heap.bodies) (.start .init)
      (closedAndDead ++ .spawn (.recover 1 1 0) :: List.replicate 6 (.run 2 0))).bind fun c₁ =>
      ((machine oneThread).execAll c₁ [.spawn (.allocate 2), .run 3 0, .run 3 0, .crash 2, .spawn (.finishRecovery 1 2),
        .run 4 0, .run 4 0]).bind fun c₂ =>
      ((machine oneThread).execAll c₂ [.spawn (.allocate 3), .run 5 0]).map fun c₃ => (c₁, c₂, c₃)).map (fun (c₁, c₂, c₃) =>
        ((c₁.shared.heap.mutation, (c₁.shared.dir.entry 0 0).word.state),
          (c₂.shared.heap.mutation, c₂.shared.heap.torn), c₃.count)) =
      some ((.clean, .closing), (.poisoned, [2]), 6) := by
    decide +kernel
  obtain ⟨⟨c₁, c₂, c₃⟩, executed, same⟩ := Option.map_eq_some_iff.mp steps
  obtain ⟨d₁, first, rest⟩ := Option.bind_eq_some_iff.mp executed
  obtain ⟨d₂, second, rest⟩ := Option.bind_eq_some_iff.mp rest
  obtain ⟨d₃, third, same'⟩ := Option.map_eq_some_iff.mp rest
  simp only [Prod.mk.injEq] at same same'
  obtain ⟨rfl, rfl, rfl⟩ := same'
  have careful := Machine.run_of_execIf first
  have run : (machine oneThread).Reaches (.start .init) d₁ := careful.mono fun _ _ _ => trivial
  have second := Machine.reaches_of_execAll second
  have third := Machine.reaches_of_execAll third
  have whole := (heap_fail_stop oneThread rfl run .refl).1 (careful.mono fun c step h => by
    cases step with
    | crash p => exact fun exposed => h exposed.1
    | _ => exact h) same.1.1
  exact ⟨d₁, d₂, d₃, run, same.1.1, same.1.2, whole.1, second, same.2.1.1, same.2.1.2, third, same.2.2,
    (heap_fail_stop oneThread rfl (run.trans second) third).2 same.2.1.1⟩

/-- Participant 1 takes the removal over and dies in the body of `deallocate`. The entry is still `CLOSING`, and participant
2 clears the claim of participant 1. -/
theorem heap_left_clean :
    ∃ c, (machine oneThread).Reaches (.start .init) c ∧ c.shared.heap.mutation = .clean ∧ c.shared.heap.torn = [1] ∧
      c.shared.heap.block 64 = .freeing := by
  have steps : ((machine oneThread).execAll (.start .init) (closedAndDead ++
      .spawn (.recover 1 1 0) :: List.replicate 12 (.run 2 0) ++ .crash 1 ::
      .spawn (.recover 2 1 1) :: List.replicate 6 (.run 3 0))).map
      (fun c => (c.shared.heap.mutation, c.shared.heap.torn, c.shared.heap.block 64)) = some (.clean, [1], .freeing) := by
        decide +kernel
  obtain ⟨c, run, same⟩ := Machine.exists_reaches steps
  simp only [Prod.mk.injEq] at same
  exact ⟨c, run, same⟩

end Evering.Directory.FailStop
