import Evering.Word.Mix

/-!
# Schema keys

A schema key is what an opener compares before it trusts a layout: a 64-bit identity and a 32-bit revision. The key of a generic
type mixes the key of its domain with the key of its part. The mixing loses nothing on either side, so a change of a part at any
depth shows in the key of the whole.
-/

namespace Evering.Schema

open Function

structure SchemaKey where
  id : BitVec 64
  revision : BitVec 32
  deriving DecidableEq

/-- `str::as_bytes` of a name in ASCII, each byte as a word -/
def nameBytes (name : String) : List (BitVec 64) := name.toList.map fun c => BitVec.ofNat 64 c.toNat

def schemaId (name : String) : BitVec 64 :=
  (nameBytes name).foldl (fun hash byte => (hash ^^^ byte) * 0x100000001b3) 0xcbf29ce484222325

/-- `u32 as u64` and a rotation -/
def spread (revision : BitVec 32) (n : Nat) : BitVec 64 := (revision.setWidth 64).rotateLeft n

def composeSchema (domain part : SchemaKey) : SchemaKey where
  id := (domain.id ^^^ part.id.rotateLeft 17 ^^^ spread part.revision 41) * 0x9E3779B97F4A7C15
  revision := domain.revision.rotateLeft 7 * 0x9E3779B9 ^^^ part.revision

def typeIdFor (protocol body : SchemaKey) : BitVec 64 :=
  (schemaId "evering.type" ^^^ protocol.id.rotateLeft 7 ^^^ spread protocol.revision 19 ^^^ body.id.rotateLeft 31 ^^^
    spread body.revision 47) * 0x9E3779B97F4A7C15

/-! ### The mixing loses nothing -/

theorem mul_golden_injective : Injective fun x : BitVec 64 => x * 0x9E3779B97F4A7C15 :=
  Word.mul_injective_of_unit 0xF1DE83E19937733D (by decide)

theorem mul_golden_injective_revision : Injective fun x : BitVec 32 => x * 0x9E3779B9 :=
  Word.mul_injective_of_unit 0x144CBC89 (by decide)

/-- The revision of the whole gives away the revision of the part; after that the identities differ by a rotation only. -/
theorem composeSchema_part_injective (domain : SchemaKey) : Injective (composeSchema domain) := by
  intro part part' same
  have revision : part.revision = part'.revision :=
    (BitVec.xor_right_inj _).mp (congrArg SchemaKey.revision same)
  have mixed := mul_golden_injective (congrArg SchemaKey.id same)
  rw [revision, BitVec.xor_left_inj, BitVec.xor_right_inj] at mixed
  have id : part.id = part'.id := Word.rotateLeft_injective (by decide) mixed
  cases part
  cases part'
  exact congrArg₂ SchemaKey.mk id revision

theorem composeSchema_domain_injective (part : SchemaKey) : Injective fun domain => composeSchema domain part := by
  intro domain domain' same
  have turned := mul_golden_injective_revision ((BitVec.xor_left_inj _).mp (congrArg SchemaKey.revision same))
  have revision : domain.revision = domain'.revision := Word.rotateLeft_injective (by decide) turned
  have mixed := mul_golden_injective (congrArg SchemaKey.id same)
  rw [BitVec.xor_left_inj, BitVec.xor_left_inj] at mixed
  cases domain
  cases domain'
  exact congrArg₂ SchemaKey.mk mixed revision

/-! ### Revisions -/

theorem getLsbD_spread {revision : BitVec 32} {n i : Nat} (lt : n < 64) (bound : i < 64) :
    (spread revision n).getLsbD i = if i < n then revision.getLsbD (i + 64 - n) else revision.getLsbD (i - n) := by
  rw [spread, BitVec.getLsbD_rotateLeft, Nat.mod_eq_of_lt lt, BitVec.getLsbD_setWidth, BitVec.getLsbD_setWidth]
  split
  · next h =>
    simp only [h, decide_true, cond_true, show 64 - n + i < 64 by omega, Bool.true_and]
    rw [show 64 - n + i = i + 64 - n by omega]
  · next h => simp [h, bound, show i - n < 64 by omega]

theorem spread_injective {n : Nat} (lt : n < 64) : Injective (spread · n) := by
  intro r r' same
  have wide := Word.rotateLeft_injective lt same
  simpa using congrArg (BitVec.setWidth 32) wide

/-- Bit `i` of a word that is rotated by `a` stands where bit `i - g` of a revision stands that is rotated by `a + g`. -/
theorem getLsbD_spread_beside (revision : BitVec 32) {a g i : Nat} (high : g ≤ 32) (fits : a + g < 64) (bound : i < 64) :
    (spread revision (a + g)).getLsbD (if i + a < 64 then i + a else i + a - 64) =
      if i < g then false else revision.getLsbD (i - g) := by
  by_cases inside : i + a < 64
  · rw [if_pos inside, getLsbD_spread fits inside]
    by_cases early : i < g
    · rw [if_pos early, if_pos (by omega), BitVec.getLsbD_of_ge _ _ (by omega)]
    · rw [if_neg early, if_neg (by omega), show i + a - (a + g) = i - g by omega]
  · rw [if_neg inside, getLsbD_spread fits (by omega), if_pos (by omega), if_neg (by omega),
      show i + a - 64 + 64 - (a + g) = i - g by omega]

/-- A revision that is mixed into a product and stands beside the product as well, `g` bits further. The lowest bit at which two
revisions differ shows first beside the product, so the two places cannot cancel. -/
theorem mixed_revision_injective {word : BitVec 64} {c r r' : BitVec 32} {a g : Nat} (low : 9 ≤ g) (high : g ≤ 32)
    (fits : a + g < 64)
    (same : ((word ^^^ spread r 41) * 0x9E3779B97F4A7C15).rotateLeft a ^^^ spread (c ^^^ r) (a + g) =
      ((word ^^^ spread r' 41) * 0x9E3779B97F4A7C15).rotateLeft a ^^^ spread (c ^^^ r') (a + g)) : r = r' := by
  by_contra ne
  obtain ⟨t, small, here, below⟩ := Word.exists_lowest_differ ne
  generalize left : (word ^^^ spread r 41) * 0x9E3779B97F4A7C15 = x at same
  generalize right : (word ^^^ spread r' 41) * 0x9E3779B97F4A7C15 = y at same
  have bits (i : Nat) (lt : i < 64) : (x.getLsbD i ^^ if i < g then false else (c ^^^ r).getLsbD (i - g)) =
      (y.getLsbD i ^^ if i < g then false else (c ^^^ r').getLsbD (i - g)) := by
    have bit := congrArg (fun z : BitVec 64 => z.getLsbD (if i + a < 64 then i + a else i + a - 64)) same
    rwa [BitVec.getLsbD_xor, BitVec.getLsbD_xor, Word.getLsbD_of_rotateLeft _ (by omega) lt,
      Word.getLsbD_of_rotateLeft _ (by omega) lt, getLsbD_spread_beside _ high fits lt,
        getLsbD_spread_beside _ high fits lt] at bit
  have agree {k : Nat} (le : k ≤ 64) : x.setWidth k = y.setWidth k ↔ (spread r 41).setWidth k = (spread r' 41).setWidth k := by
    rw [← left, ← right, Word.setWidth_mul_eq_iff 0xF1DE83E19937733D (by decide) le, BitVec.setWidth_xor, BitVec.setWidth_xor,
      BitVec.xor_right_inj]
  -- nothing stands beside the lowest bits of the product, where the highest bits of the revision are
  have top (j : Nat) (ge : 23 ≤ j) (lt : j < 32) : r.getLsbD j = r'.getLsbD j := by
    have products : x.setWidth g = y.setWidth g := Word.setWidth_eq_iff.mpr fun i lt => by simpa [lt] using bits i (by omega)
    have spreads := Word.setWidth_eq_iff.mp ((agree (by omega)).mp products) (j - 23) (by omega)
    rwa [getLsbD_spread (by decide) (by omega), getLsbD_spread (by decide) (by omega), if_pos (by omega), if_pos (by omega),
      show j - 23 + 64 - 41 = j by omega] at spreads
  have early : t < 23 := by
    by_contra late
    exact here (top t (by omega) small)
  have products : x.setWidth (41 + t) = y.setWidth (41 + t) := by
    refine (agree (by omega)).mpr (Word.setWidth_eq_iff.mpr fun i lt => ?_)
    rw [getLsbD_spread (by decide) (by omega), getLsbD_spread (by decide) (by omega)]
    split
    · by_cases wraps : i < 9
      · exact top _ (by omega) (by omega)
      · rw [BitVec.getLsbD_of_ge _ _ (by omega), BitVec.getLsbD_of_ge _ _ (by omega)]
    · exact below _ (by omega)
  have last := bits (g + t) (by omega)
  rw [Word.setWidth_eq_iff.mp products (g + t) (by omega), if_neg (by omega), if_neg (by omega), Nat.add_sub_cancel_left,
    BitVec.getLsbD_xor, BitVec.getLsbD_xor] at last
  exact here (by simpa using last)

/-! ### Enclosing types -/

/-- The key of a type composed in these domains, outermost first, around a part -/
def enclose (domains : List SchemaKey) (part : SchemaKey) : SchemaKey := domains.foldr composeSchema part

/-- `Token::<H>::SCHEMA` -/
def tokenSchema (header : SchemaKey) : SchemaKey := enclose [⟨schemaId "evering.transfer", 1⟩] header

/-- `<[T] as Repr>::SCHEMA` -/
def sliceSchema (element : SchemaKey) : SchemaKey := enclose [⟨schemaId "evering.slice", 1⟩] element

/-- `Duplex::<H>::SCHEMA`, composed from that of `Token<H>` -/
def duplexSchema (header : SchemaKey) : SchemaKey := enclose [⟨schemaId "evering.duplex", 5⟩] (tokenSchema header)

theorem enclose_injective (domains : List SchemaKey) : Injective (enclose domains) := by
  induction domains with
  | nil => exact injective_id
  | cons domain domains ih => exact (composeSchema_part_injective domain).comp ih

/-- A composed key determines both keys it was composed from, one given the other; so the key of a type built from a header in any
number of compositions determines the key of the header. -/
theorem schema_determines_parts :
    (∀ domain, Function.Injective (composeSchema domain)) ∧
    (∀ part, Function.Injective fun domain => composeSchema domain part) ∧
    ∀ domains, Function.Injective (enclose domains) ∧
      Function.Injective (fun header => enclose domains (tokenSchema header)) ∧
      Function.Injective (fun header => enclose domains (sliceSchema header)) ∧
      Function.Injective (fun header => duplexSchema (enclose domains header)) := by
  refine ⟨composeSchema_part_injective, composeSchema_domain_injective, fun domains => ?_⟩
  have outer := enclose_injective domains
  exact ⟨outer, outer.comp (enclose_injective _), outer.comp (enclose_injective _),
    ((enclose_injective _).comp (enclose_injective _)).comp outer⟩

example : tokenSchema ⟨schemaId "core.u8", 1⟩ ≠ tokenSchema ⟨schemaId "core.u8", 2⟩ := by decide +kernel

end Evering.Schema
