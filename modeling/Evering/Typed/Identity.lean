import Evering.Typed.Model

/-!
# Revisions in type identities

An identity is mixed from the keys of a header and a body. The revision of a slice's element, or of a schema given at run time,
reaches it twice: through the identity of a composed key and through its revision.
-/

namespace Evering.Typed

open Schema Function

def HeaderType.revise (H : HeaderType) (revision : BitVec 32) : HeaderType := { H with schema := ⟨H.schema.id, revision⟩ }

def ReprType.revise (T : ReprType) (revision : BitVec 32) : ReprType := { T with schema := ⟨T.schema.id, revision⟩ }

theorem typeIdFor_protocol_revision (id : BitVec 64) (body : SchemaKey) : Injective fun r => typeIdFor ⟨id, r⟩ body := by
  intro r r' same
  have mixed := mul_golden_injective same
  rw [BitVec.xor_left_inj, BitVec.xor_left_inj, BitVec.xor_right_inj] at mixed
  exact spread_injective (by decide) mixed

theorem typeIdFor_body_revision (protocol : SchemaKey) (id : BitVec 64) : Injective fun r => typeIdFor protocol ⟨id, r⟩ := by
  intro r r' same
  exact spread_injective (by decide) ((BitVec.xor_right_inj _).mp (mul_golden_injective same))

theorem typeIdFor_slice_revision (protocol : SchemaKey) (id : BitVec 64) :
    Injective fun r => typeIdFor protocol (sliceSchema ⟨id, r⟩) := by
  intro r r' same
  have mixed := mul_golden_injective same
  rw [BitVec.xor_assoc _ _ (spread _ 47), BitVec.xor_assoc _ _ (spread _ 47), BitVec.xor_right_inj] at mixed
  exact mixed_revision_injective (a := 31) (g := 16) (by decide) (by decide) (by decide) mixed

theorem typeIdFor_composed_revision (domain body : SchemaKey) (id : BitVec 64) :
    Injective fun r => typeIdFor (composeSchema domain ⟨id, r⟩) body := by
  intro r r' same
  have mixed := mul_golden_injective same
  rw [BitVec.xor_left_inj, BitVec.xor_left_inj, BitVec.xor_assoc, BitVec.xor_assoc, BitVec.xor_right_inj] at mixed
  exact mixed_revision_injective (a := 7) (g := 12) (by decide) (by decide) (by decide) mixed

/-- **Identities tell revisions.** Whatever the keys are, two revisions of the header, of a sized body, of the element of a
slice or of the schema given at run time have different identities. -/
theorem identity_tells_revision :
    (∀ H B, Injective fun r => typeId (HeaderType.revise H r) B) ∧
    (∀ H T, Injective (fun r => typeId H (.sized (ReprType.revise T r))) ∧
      Injective fun r => typeId H (.slice (ReprType.revise T r))) ∧
    (∀ id B, Injective fun r => encodedId ⟨id, r⟩ B) ∧
    ∀ schema T, Injective (fun r => encodedId schema (.sized (ReprType.revise T r))) ∧
      Injective fun r => encodedId schema (.slice (ReprType.revise T r)) :=
  ⟨fun H B => typeIdFor_protocol_revision H.schema.id B.schema,
    fun H T => ⟨typeIdFor_body_revision H.schema T.schema.id, typeIdFor_slice_revision H.schema T.schema.id⟩,
    fun id B => typeIdFor_composed_revision encoded.schema B.schema id,
    fun _ T => ⟨typeIdFor_body_revision _ T.schema.id, typeIdFor_slice_revision _ T.schema.id⟩⟩

end Evering.Typed
