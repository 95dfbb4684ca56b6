import RepoAudit.Proofs.Text.Fields
import RepoAudit.Proofs.Text.Utf8
import RepoAudit.Report.Entity

/-!
# Identifiers from IRIs

Encoded bytes can be decoded one after another, whatever follows them. So the identifier of a record
is found again in its IRI, and different records have different nodes.
-/

namespace RepoAudit.Report

open Text

/-! ### Bytes -/

/-- What the encoding of a byte looks like in bytes, and that it tells the byte. -/
def Decodes (b : UInt8) : Prop :=
  if isPlainByte b then encoded (encodeByte b) = [b] ∧ b ≠ 0x25
  else encoded (encodeByte b) = [0x25, UInt8.ofNat (upperDigit (b.toNat / 16)).toNat,
      UInt8.ofNat (upperDigit (b.toNat % 16)).toNat] ∧
    byte? (UInt8.ofNat (upperDigit (b.toNat / 16)).toNat)
      (UInt8.ofNat (upperDigit (b.toNat % 16)).toNat) = some b

instance (b : UInt8) : Decidable (Decodes b) := by
  unfold Decodes
  infer_instance

theorem decodes_byte (b : UInt8) : Decodes b := by
  have each : ∀ n < 256, Decodes (UInt8.ofNat n) := by decide +kernel
  have same := each b.toNat b.toNat_lt
  rwa [UInt8.ofNat_toNat] at same

theorem decodedBytes_of_ne {b : UInt8} (other : b ≠ 0x25) (rest : List UInt8) :
    decodedBytes (b :: rest) = b :: decodedBytes rest := by
  rw [decodedBytes.eq_def]
  split
  · rename_i same
    exact absurd (List.cons.inj same).1 other
  · rename_i same
    obtain ⟨rfl, rfl⟩ := List.cons.inj same
    rfl
  · rename_i same
    cases same

theorem decodedBytes_encodeByte (b : UInt8) (rest : List UInt8) :
    decodedBytes (encoded (encodeByte b) ++ rest) = b :: decodedBytes rest := by
  have decodes := decodes_byte b
  unfold Decodes at decodes
  split at decodes
  · rw [decodes.1]
    exact decodedBytes_of_ne decodes.2 rest
  · rw [decodes.1, List.cons_append, List.cons_append, List.cons_append, List.nil_append,
      decodedBytes, decodes.2]

theorem encoded_flatMap_encodeByte (b : UInt8) (bs : List UInt8) :
    encoded ((b :: bs).flatMap encodeByte) =
      encoded (encodeByte b) ++ encoded (bs.flatMap encodeByte) := by
  simp [encoded]

/-- Bytes that were encoded are decoded again. -/
theorem decodedBytes_encoded (bs : List UInt8) :
    decodedBytes (encoded (bs.flatMap encodeByte)) = bs := by
  induction bs with
  | nil => rfl
  | cons b rest ih => rw [encoded_flatMap_encodeByte, decodedBytes_encodeByte, ih]

/-! ### Identifiers -/

theorem decoded_encoded (cs : List Char) : decoded (encoded cs) = cs := by
  rw [decoded, decodedPieces_encoded, List.map_map]
  exact List.map_id cs

theorem entityIri_marked (name : String) : entityIri ("repo:" ++ name) =
    Rdf.Namespace.repo ++ String.ofList ((encoded name.toList).flatMap encodeByte) := by
  have chars : ("repo:" ++ name).toList = idMark ++ name.toList := String.toList_append
  rw [entityIri, chars, localPart, dropStart?_append, Option.getD_some]

/-- The identifier of a record is found again in its IRI. -/
theorem entityId?_entityIri_marked (name : String) :
    entityId? (entityIri ("repo:" ++ name)) = some ("repo:" ++ name) := by
  have mark : String.ofList idMark = "repo:" := String.ofList_toList
  rw [entityIri_marked, entityId?, String.toList_append, dropStart?_append, String.toList_ofList,
    Option.map_some, decodedBytes_encoded, decoded_encoded, String.ofList_append, mark,
    String.ofList_toList]

theorem entityIri_eq_iff {id id' : String} :
    entityIri id = entityIri id' ↔ localPart id.toList = localPart id'.toList := by
  constructor
  · intro same
    have chars := String.ofList_injective ((String.append_right_inj _).mp same)
    have bytes := congrArg (decodedBytes ∘ encoded) chars
    simp only [Function.comp_apply, decodedBytes_encoded] at bytes
    rw [← decoded_encoded (localPart id.toList), bytes, decoded_encoded]
  · intro same
    rw [entityIri, same]
    rfl

theorem node_marked_inj {name name' : String} :
    node ("repo:" ++ name) = node ("repo:" ++ name') ↔ name = name' := by
  refine ⟨fun same => ?_, fun same => same ▸ rfl⟩
  have ids := congrArg entityId? (Rdf.Term.iri.inj same)
  rw [entityId?_entityIri_marked, entityId?_entityIri_marked] at ids
  exact (String.append_right_inj _).mp (Option.some.inj ids)

/-! ### Kinds of identifiers -/

/-- An identifier of a kind of records. -/
def IdOf (kind id : String) : Prop := ∃ key, id = "repo:" ++ (kind ++ ("/" ++ key))

/-- Texts that are joined by a mark are told from each other if the first ones are free of it. -/
theorem eq_of_joined {a a' b b' mark : String} {sep : Char} (one : mark.toList = [sep])
    (absent : sep ∉ a.toList) (absent' : sep ∉ a'.toList)
    (same : a ++ (mark ++ b) = a' ++ (mark ++ b')) : a = a' ∧ b = b' := by
  have chars := congrArg String.toList same
  simp only [String.toList_append, one, List.singleton_append] at chars
  exact ((append_cons_eq_iff absent absent').mp chars).imp String.toList_inj.mp String.toList_inj.mp

/-- Records with one node have one identifier, and are of one kind. -/
theorem IdOf.of_node {kind kind' id id' : String} (known : IdOf kind id) (known' : IdOf kind' id')
    (plain : '/' ∉ kind.toList) (plain' : '/' ∉ kind'.toList) (same : node id = node id') :
    kind = kind' ∧ id = id' := by
  obtain ⟨key, rfl⟩ := known
  obtain ⟨key', rfl⟩ := known'
  have names := node_marked_inj.mp same
  exact ⟨(eq_of_joined rfl plain plain' names).1, congrArg _ names⟩

end RepoAudit.Report
