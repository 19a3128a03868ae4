import EventLedger.Base.JsonPath
import EventLedger.Common.Rows

-- A metadata object as the parser gives it.
structure Metadata where
  members : List (Text × Json)
  wf : (Json.obj members).WF

namespace Metadata

variable (m₁ m₂ : Metadata)

def value (m : Metadata) : Json :=
  .obj m.members

-- The comparison of the metadata in each `_same_event`.
def same : Bool :=
  m₁.value.pyEq m₂.value

-- At some place one object has what the other has not, by more than the way of writing a number.
def Differ : Prop :=
  ∃ path, (m₁.value.descend path).map Json.outline ≠ (m₂.value.descend path).map Json.outline

-- At some place the objects have numbers that are equal and are not written in one way.
def Blurred : Prop :=
  ∃ path x y, m₁.value.descend path = some x ∧ m₂.value.descend path = some y ∧ Json.Alias x y

variable {m₁ m₂}

theorem same_iff_not_differ : m₁.same m₂ ↔ ¬Differ m₁ m₂ :=
  (Json.pyEq_iff_outline m₁.wf m₂.wf).trans not_exists_not.symm

theorem metadataJson_eq_iff :
    metadataJson m₁.members = metadataJson m₂.members ↔ m₁.same m₂ ∧ ¬Blurred m₁ m₂ := by
  simp only [Blurred, not_exists, not_and]
  exact Json.dumps_eq_iff m₁.wf m₂.wf

theorem same_iff_metadataJson (m₁ m₂ : Metadata) :
    (m₁.same m₂ ↔ metadataJson m₁.members = metadataJson m₂.members) ↔
    Differ m₁ m₂ ∨ ¬Blurred m₁ m₂ := by
  rw [metadataJson_eq_iff, iff_self_and, same_iff_not_differ, ← or_iff_not_imp_left]

-- `{"a": 1}` and `{"a": true}`.
def one : Metadata where
  members := [("a".toList, .int 1)]
  wf := Json.wf_obj.mpr <| by simp [Json.WF]

def yes : Metadata where
  members := [("a".toList, .bool true)]
  wf := Json.wf_obj.mpr <| by simp [Json.WF]

theorem one_same_yes : ¬∀ m₁ m₂ : Metadata, m₁.value.isStandard → m₂.value.isStandard →
    (m₁.same m₂ ↔ metadataJson m₁.members = metadataJson m₂.members) := by
  intro h
  have he := (h one yes (by decide) (by decide)).mp (by decide)
  exact absurd he (by decide)

end Metadata

namespace EventPayload

variable {p q : EventPayload}

def metadataObject (p : EventPayload) : Metadata where
  members := p.metadata
  wf := p.metadata_wf

-- A replay has the stored text of the metadata, unless it writes a number in another way.
theorem SameFacts.metadataJson_eq_iff (h : p.SameFacts q) :
    p.columns.metadataJson = q.columns.metadataJson ↔
    ¬p.metadataObject.Blurred q.metadataObject := by
  have hs : p.metadataObject.same q.metadataObject := h.metadata
  exact Metadata.metadataJson_eq_iff.trans <| and_iff_right hs

end EventPayload
