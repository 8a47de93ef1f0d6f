import Evering.Directory.Takeover

/-!
# Identifiers of the directory

If every participant runs one directory operation at a time, then no generation that was issued comes back, along every run
with crashes and recoveries.
-/

namespace Evering.Directory.Identity

open Interleave Option Views Function

/-! ### Runs -/

section Runs

variable {S : Setup} {s : Shared} {dead : Nat → Bool} {views : Views Op View} {t : Nat} {op : Op} {v : View} {d : Dir}

def View.fresh : View := ⟨.free, none, false⟩

theorem allocate_spec {p : Nat} (mine : p = op.owner) : Frees S op (allocate p) .fresh := by
  refine .seq (begin_spec (by nofun) mine) ?_
  rintro (error | ⟨⟩) w begun
  · exact begun ▸ rfl
  obtain ⟨rfl, -⟩ := begun
  refine .seq (keeps_spec (by exact .write fun _ => rfl)) ?_
  rintro _ _ rfl offset
  refine .seq (R := fun o v' => o = offset ∧ v'.mode = .free ∧ v'.heap = some false) ⟨rfl, rfl, rfl⟩ ?_
  rintro _ w ⟨rfl, mode, holds⟩
  refine .next (keeps_spec (.action fun s => by split <;> rfl)) fun got => ?_
  refine .next (commitMutation_spec holds fun _ has => by cases mode.symm.trans has) fun _ => ?_
  split
  · exact fun value => stays (by exact .write fun _ => rfl) rfl
  · exact rfl

theorem releaseValue_spec {p offset : Nat} (mine : p = op.owner) : Frees S op (releaseValue p offset) .fresh := by
  refine .seq (begin_spec (by nofun) mine) ?_
  rintro (error | ⟨⟩) w begun
  · exact begun ▸ rfl
  obtain ⟨rfl, -⟩ := begun
  refine .next (keeps_spec (.action fun s => by split <;> rfl)) fun has => ?_
  split
  · refine .next (keeps_spec (by exact .write fun _ => rfl)) fun _ => ?_
    exact (commitMutation_spec rfl fun _ has => by cases has).mono fun _ _ same => same ▸ rfl
  · exact (commitMutation_spec rfl fun _ has => by cases has).mono fun _ _ same => same ▸ rfl

theorem finishRecovery_spec {gone : Nat} (recovers : op.recovers = some gone) (free : v.heap = none) :
    Frees S op (finishRecovery gone) v := by
  have member : (recoverMember gone).Keeps face := .bind (by exact .write fun _ => rfl) fun _ => .bind .read fun _ => trivial
  refine .seq (keeps_spec .read) ?_
  rintro (_ | owner | _) _ rfl
  · exact stays member free
  · dsimp only
    split
    · exact free
    refine .next (poisonOwner_spec recovers) fun poisoned => ?_
    split
    · exact stays member free
    refine .next (keeps_spec .read) fun word => ?_
    split
    · exact stays member free
    · exact free
  · exact stays member free

theorem code_spec (S : Setup) (op : Op) : Frees S op (op.code S) .fresh := by
  cases op with
  | create owner heapRegion storage layout => exact .seq (create_spec rfl rfl rfl rfl) fun _ _ free => free
  | remove owner heapRegion id mapped fits inHeap => exact .seq (remove_spec rfl rfl rfl) fun _ _ free => free
  | recover live heapRegion gone => exact .seq (recover_spec rfl rfl rfl rfl rfl) fun _ _ free => free
  | finishRecovery live gone => exact .seq (finishRecovery_spec rfl rfl) fun _ _ free => free
  | allocate owner => exact allocate_spec rfl
  | releaseValue owner offset => exact releaseValue_spec rfl
  | member owner offset word => exact stays (by exact .write fun _ => rfl) rfl

theorem Inv.start : Inv S .init (fun _ => false) fun _ => none := by
  refine ⟨nofun, nofun, fun _ => nofun, nofun, nofun, nofun,
    ⟨fun _ _ => nofun, fun _ _ => nofun, fun _ _ => Nat.zero_le _, .nil, nofun⟩, ?_, nofun, nofun⟩
  exact fun is => (not_creating_clean rfl is).elim

theorem Inv.spawn (inv : Inv S s dead views) (unused : views t = none) (alive : dead op.owner = false)
    (gone : ∀ p, op.recovers = some p → dead p = true)
    (alone : S.single = true → op.isDirectory = true → ∀ {u op' w}, views u = some (op', w) → op'.isDirectory = true →
      op'.owner ≠ op.owner) :
    Inv S s dead (Function.update views t (some (op, .fresh))) := by
  constructor
  case alive => exact Views.put alive fun _ => inv.alive
  case gone => exact Views.put (gone _) fun _ => inv.gone
  case single =>
    exact fun single => Views.put_pair (fun _ _ _ => rfl)
      (fun _ old dir dir' same => (alone single dir old dir' same.symm).elim)
      (fun _ old dir dir' same => (alone single dir' old dir same).elim) (inv.single single)
  case view => exact Views.put ⟨nofun, nofun, nofun, nofun, nofun⟩ fun _ => inv.view
  case one => exact Views.put_pair (fun _ _ => rfl) (fun _ _ => nofun) (fun _ _ _ => nofun) inv.one
  case oneHeap =>
    exact Views.put_pair (fun _ _ => rfl) (fun _ _ holds => (holds rfl).elim) (fun _ _ _ holds => (holds rfl).elim) inv.oneHeap
  case books => exact inv.books
  case creating => exact inv.creating
  case bound =>
    intro bound
    obtain ⟨p, owner, mutation, works⟩ := inv.bound bound
    refine ⟨p, owner, mutation, fun alive => ?_⟩
    obtain ⟨u, op', w, d, hu, rest⟩ := works alive
    refine ⟨u, op', w, d, (update_of_ne (fun here => ?_) ..).trans hu, rest⟩
    rw [here, unused] at hu
    cases hu
  case left => exact inv.left

theorem Inv.retire (inv : Inv S s dead views) (ht : views t = some (op, v)) (free : v.heap = none) :
    Inv S s dead (Function.update views t none) := by
  have sub {u op w} (hu : Function.update views t none u = some (op, w)) := (retire_some hu).2
  refine ⟨fun hu => inv.alive (sub hu), fun hu => inv.gone (sub hu), fun h hu hu' => inv.single h (sub hu) (sub hu'),
    fun hu => inv.view (sub hu), fun hu hu' => inv.one (sub hu) (sub hu'),
    fun hu hu' => inv.oneHeap (sub hu) (sub hu'), inv.books, inv.creating, fun bound => ?_, inv.left⟩
  obtain ⟨p, owner, mutation, works⟩ := inv.bound bound
  refine ⟨p, owner, mutation, fun alive => ?_⟩
  obtain ⟨u, op', w, d, hu, has, holds⟩ := works alive
  refine ⟨u, op', w, d, (update_of_ne (fun here => ?_) ..).trans hu, has, holds⟩
  rw [here, ht] at hu
  cases hu
  rw [free] at holds
  cases holds

theorem setHandled_same {b : Bool} (same : d.trail.handled = b) : d.setHandled b = d := by
  subst same
  rfl

theorem Inv.crash_same (inv : Inv S s dead views) {p : Nat} (gone : s.dir.transaction.wordOwner = some p → dead p = true) :
    s.dir.crash p = s.dir := by
  unfold Dir.crash
  split
  · next owner => exact setHandled_same (inv.left owner (gone owner))
  · rfl

theorem Inv.crash (inv : Inv S s dead views) (p : Nat) :
    Inv S { s with dir := s.dir.crash p, heap := s.heap.crash p } (Function.update dead p true)
      (fun t => (views t).filter fun th => th.1.owner != p) := by
  constructor
  case alive => exact fun hu => (update_of_ne (crash_some hu).2 ..).trans (inv.alive (crash_some hu).1)
  case gone => exact fun hu recovers => mark_kept (inv.gone (crash_some hu).1 recovers)
  case single => exact fun h hu hu' => inv.single h (crash_some hu).1 (crash_some hu').1
  case view =>
    intro u op w hu
    obtain ⟨hu, other⟩ := crash_some hu
    have ok := inv.view hu
    refine ⟨fun has => ?_, fun {q d} saw => ?_, fun {q} lost => ?_, ok.heap, ok.cleared⟩
    · obtain ⟨rfl, owner, directory⟩ := ok.has has
      exact ⟨Dir.crash_other owner.1 other, owner, directory⟩
    · obtain ⟨recovers, owner, kept⟩ := ok.saw saw
      refine ⟨recovers, owner, fun owner' => ?_⟩
      rw [Dir.crash_transaction] at owner'
      refine (inv.crash_same fun mine => ?_).trans (kept owner')
      cases mine.symm.trans owner'
      exact inv.gone hu recovers
    · obtain ⟨recovers, owner⟩ := ok.lost lost
      exact ⟨recovers, by rwa [Dir.crash_transaction]⟩
  case one => exact fun hu hu' => inv.one (crash_some hu).1 (crash_some hu').1
  case oneHeap => exact fun hu hu' => inv.oneHeap (crash_some hu).1 (crash_some hu').1
  case books =>
    unfold Dir.crash
    split <;> exact inv.books.same rfl
  case creating =>
    unfold Dir.crash
    split <;> exact inv.creating
  case bound =>
    intro bound
    obtain ⟨q, owner, mutation, works⟩ := inv.bound bound
    refine ⟨q, by rwa [Dir.crash_transaction], mutation, fun alive => ?_⟩
    have other : q ≠ p := by
      rintro rfl
      rw [update_self] at alive
      cases alive
    rw [update_of_ne other] at alive
    obtain ⟨u, op, w, d, hu, has, holds⟩ := works alive
    obtain ⟨dir, ⟨owner', -⟩, -⟩ := (inv.view hu).has has
    rw [dir, owner'] at owner
    cases owner
    exact ⟨u, op, w, d, filter_eq_some_iff.mpr ⟨hu, by simpa using other⟩, has, holds⟩
  case left =>
    intro q owner gone
    rw [Dir.crash_transaction] at owner
    unfold Dir.crash
    split
    · rfl
    · next other =>
      have ne : q ≠ p := by
        rintro rfl
        exact other owner
      rw [update_of_ne ne] at gone
      exact inv.left owner gone

variable {ops : List Op}

theorem Inv.ready (inv : Inv S s dead views) (unused : views t = none) (alive : dead op.owner = false) (within : views.Within ops)
    (ready : (machine S).ready s dead ops op = true) : Inv S s dead (Function.update views t (some (op, .fresh))) := by
  simp only [machine, Bool.and_eq_true, Bool.or_eq_true, Bool.not_eq_true', List.all_eq_true, Bool.and_eq_false_iff,
    beq_eq_false_iff_ne] at ready
  obtain ⟨⟨gone, -⟩, alone⟩ := ready
  refine inv.spawn unused alive (fun p recovers => ?_) fun single directory u op' w hu directory' => ?_
  · rw [recovers] at gone
    exact gone
  · rcases alone with (no | no) | alone
    · cases no.symm.trans single
    · cases no.symm.trans directory
    · rcases alone op' (within u op' w hu) with no | other
      · cases no.symm.trans directory'
      · exact other

theorem Inv.rejoin (settled : S.settled = true) {p : Nat} (inv : Inv S s dead views) (within : views.Within ops)
    (readmits : (machine S).readmits s ops p = true) : Inv S s (Function.update dead p false) views := by
  simp only [machine, settled, Bool.not_true, Bool.false_or, Bool.and_eq_true, decide_eq_true_eq, List.all_eq_true] at readmits
  obtain ⟨⟨unowned, unclaimed⟩, unrecovered⟩ := readmits
  refine ⟨fun hu => mark_kept (inv.alive hu), fun {u op w q} hu recovers => ?_, inv.single, inv.view, inv.one, inv.oneHeap,
    inv.books, inv.creating, fun bound => ?_, fun {q} owner gone => ?_⟩
  · have other : q ≠ p := fun h => unrecovered op (within u op w hu) (h ▸ recovers)
    rw [update_of_ne other]
    exact inv.gone hu recovers
  · obtain ⟨q, owner, rest⟩ := inv.bound bound
    refine ⟨q, owner, ?_⟩
    rw [update_of_ne (show q ≠ p from fun h => unowned (h ▸ owner))]
    exact rest
  · rw [update_of_ne (show q ≠ p from fun h => unowned (h ▸ owner))] at gone
    exact inv.left owner gone

theorem sound (S : Setup) (settled : S.settled = true) : (protocol S).Sound (machine S) .init where
  init := .start
  spawn := fun {_ _ _ _ op _} inv unused alive within ready => ⟨.fresh, Inv.ready inv unused alive within ready, code_spec S op⟩
  retire := fun inv ht free => Inv.retire inv ht free
  crash := fun {s _ _ p} inv _ => ⟨Inv.crash inv p, by
    show Keeps s.dir (s.dir.crash p)
    unfold Dir.crash
    split <;> exact .same rfl⟩
  rejoin := fun inv _ within readmits => Inv.rejoin settled inv within readmits
  refl := fun s => .refl s.dir

/-! ### What `offset` accepts -/

/-- `offset` alone accepts exactly the identifiers whose entry is `PUBLISHED` in their generation. -/
theorem offset_accepts (S : Setup) (s : Shared) (id : Id) (o : Nat) (oracle : Nat → Nat) (n : Nat) :
    ((offset S id).solo oracle n s).2 = .ok o ↔ s.dir.Names S id o := by
  rw [(offset_reads id).solo]
  exact offset_result

/-- **Identifiers are unique for ever.** In every run in which each participant has one directory operation at a time and a
slot is joined again only after its recoveries, with crashes at any step: no identifier is issued twice; `offset` accepts
exactly what names a published entry in its generation; and an issued identifier whose entry is neither `PUBLISHED` nor
`CLOSING` in its generation any more is never accepted again. -/
theorem identifiers_unique (S : Setup) (single : S.single = true) (settled : S.settled = true)
    {c : Config Shared Site Op} (run : (machine S).Reaches (.start .init) c) :
    (c.shared.dir.trail.issued.map Prod.fst).Nodup ∧
      (∀ k e, (c.shared.dir.entry k e).word.generation ≤ generationMax S.target) ∧
      (∀ id o oracle n, ((offset S id).solo oracle n c.shared).2 = .ok o ↔ c.shared.dir.Names S id o) ∧
      (∀ x ∈ c.shared.dir.trail.issued, ∀ oracle n, (∃ o, ((offset S x.1).solo oracle n c.shared).2 = .ok o) ↔
        (c.shared.dir.entry x.1.slab x.1.entry).word = ⟨x.1.generation, .published⟩) ∧
      ∀ x ∈ c.shared.dir.trail.issued, Ended c.shared.dir x.1 → ∀ c', (machine S).Reaches c c' →
        Ended c'.shared.dir x.1 ∧ ∀ o oracle n, ((offset S x.1).solo oracle n c'.shared).2 ≠ .ok o := by
  have allowed (c : Config Shared Site Op) (step : Step Op) (_ : True) : Allowed (protocol S).cond (protocol S).stop c step := by
    cases step <;> simp [Allowed, protocol, single]
  have holds := (sound S settled).run (sound S settled).start (run.mono allowed)
  obtain ⟨views, inv, -⟩ := id holds
  refine ⟨inv.books.unique, inv.books.bounded, fun id o oracle n => offset_accepts S _ id o oracle n,
    fun x mem oracle n => ⟨fun ⟨o, accepted⟩ => ?_, fun published => ?_⟩, fun x mem ended c' further => ?_⟩
  · exact ((offset_accepts S c.shared x.1 o oracle n).mp accepted).published
  · obtain ⟨region, linked, inside⟩ := inv.books.placed x mem
    exact ⟨_, (offset_accepts S c.shared x.1 _ oracle n).mpr ⟨region, linked, inside, published, rfl⟩⟩
  have keeps : Keeps c.shared.dir c'.shared.dir :=
    (sound S settled).run_guar (fun _ _ _ => Keeps.trans) holds (further.mono allowed)
  have ended' := (keeps x mem).2 ended
  refine ⟨ended', fun o oracle n accepted => ?_⟩
  have names := (offset_accepts S c'.shared x.1 o oracle n).mp accepted
  have closed := ended' (congrArg EntryWord.generation names.published)
  exact closed.1 (congrArg EntryWord.state names.published)

end Runs

/-! ### An identifier that was removed -/

def oneThread : Setup where
  target := ⟨64, Target.supported_64⟩
  region := 1
  debug := true
  single := true
  settled := true

/-- Thread `t` of participant 0 creates a layout in block 64. -/
def creation (t : Nat) : List (Step Op) :=
  .spawn (.create 0 1 (some 8) 8) :: List.replicate 5 (.run t 0) ++ .run t 64 :: List.replicate 15 (.run t 0)

/-- The layout is removed, and the next creation uses the entry and the block again. -/
theorem identifiers_unique_removed :
    ∃ c c', (machine oneThread).Reaches (.start .init) c ∧ (machine oneThread).Reaches c c' ∧
      c.shared.dir.trail.issued = [(⟨1, 0, 0, 1⟩, 64)] ∧ (c.shared.dir.entry 0 0).word = ⟨1, .vacant⟩ ∧
      c'.shared.dir.trail.issued = [(⟨1, 0, 0, 2⟩, 64), (⟨1, 0, 0, 1⟩, 64)] ∧ (c'.shared.dir.trail.issued.map Prod.fst).Nodup ∧
      ∀ o oracle n, ((offset oneThread ⟨1, 0, 0, 1⟩).solo oracle n c'.shared).2 ≠ .ok o := by
  have steps : (((machine oneThread).execAll (.start .init) (creation 0 ++
      .spawn (.remove 0 1 ⟨1, 0, 0, 1⟩ 64 true true) :: List.replicate 20 (.run 1 0))).bind fun c =>
      ((machine oneThread).execAll c (creation 2)).map fun c' => (c, c')).map (fun (c, c') =>
        (c.shared.dir.trail.issued, (c.shared.dir.entry 0 0).word, c'.shared.dir.trail.issued)) =
      some ([(⟨1, 0, 0, 1⟩, 64)], ⟨1, .vacant⟩, [(⟨1, 0, 0, 2⟩, 64), (⟨1, 0, 0, 1⟩, 64)]) := by decide +kernel
  obtain ⟨c₁, c₂, first, second, same⟩ := exists_stages steps
  simp only [Prod.mk.injEq] at same
  obtain ⟨issued, word, issued'⟩ := same
  have run := Machine.reaches_of_execAll first
  have further := Machine.reaches_of_execAll second
  have ended : Ended c₁.shared.dir ⟨1, 0, 0, 1⟩ := by
    unfold Ended
    rw [word]
    exact fun _ => ⟨nofun, nofun⟩
  exact ⟨c₁, c₂, run, further, issued, word, issued', (identifiers_unique oneThread rfl rfl (run.trans further)).1,
    ((identifiers_unique oneThread rfl rfl run).2.2.2.2 (⟨1, 0, 0, 1⟩, 64) (by rw [issued]; exact List.mem_singleton.mpr rfl)
      ended c₂ further).2⟩

/-- Participant 0 dies with its entry reserved, and 1 and 2 both recover it. The second recovery is slow: it takes the
transaction from the next participant in slot 0, which goes on to publish the entry that 3 has reserved meanwhile. -/
def slowRecovery : List (Step Op) :=
  let reserve (t : Nat) : List (Step Op) := .spawn (.create 0 1 (some 8) 8) :: List.replicate 3 (.run t 0)
  reserve 0 ++ [.crash 0, .spawn (.recover 1 1 0), .spawn (.recover 2 1 0)] ++
    List.replicate 5 (.run 2 0) ++ List.replicate 8 (.run 1 0) ++
    .rejoin 0 :: reserve 3 ++ List.replicate 3 (.run 2 0) ++
    .spawn (.create 3 1 (some 8) 8) :: List.replicate 5 (.run 4 0) ++ .run 4 64 :: List.replicate 15 (.run 4 0) ++
    [.run 3 0, .run 3 0, .run 3 128] ++ List.replicate 15 (.run 3 0)

/-- When a slot is joined while a recovery of it runs, two creations return one identifier. -/
theorem identifier_issued_twice :
    ∃ c, (machine { oneThread with settled := false }).Reaches (.start .init) c ∧
      c.shared.dir.trail.issued = [(⟨1, 0, 0, 1⟩, 128), (⟨1, 0, 0, 1⟩, 64)] ∧
      ¬(c.shared.dir.trail.issued.map Prod.fst).Nodup := by
  have steps : ((machine { oneThread with settled := false }).execAll (.start .init) slowRecovery).map
      (fun c => c.shared.dir.trail.issued) = some [(⟨1, 0, 0, 1⟩, 128), (⟨1, 0, 0, 1⟩, 64)] := by decide +kernel
  obtain ⟨c, run, issued⟩ := Machine.exists_reaches steps
  refine ⟨c, run, issued, ?_⟩
  rw [issued]
  exact fun distinct => (List.nodup_cons.mp distinct).1 (List.mem_singleton.mpr rfl)

end Evering.Directory.Identity
