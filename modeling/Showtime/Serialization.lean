import Showtime.Entity
import Showtime.Library.Split
/-!
# Serialisation of entities

An entity is built again from the buffer that it was written to. The owner is
written with the number of its path's segments for the length of its text, so
it comes back where the text is not longer than that, and is cut elsewhere.
-/

namespace Showtime

open Library

namespace ZstURI

/-- `ZstURI(const char*, size_t)`, whose `init` cuts the text at its slashes. -/
def ofText (text : String) : ZstURI :=
  if text = "" then [] else text.splitOn "/"

/-- The segments are those that the path's text is cut into, as in every
`ZstURI` that the code builds. -/
def Parsed (u : ZstURI) : Prop :=
  ofText u.path = u

theorem path_ofText (text : String) : (ofText text).path = text := by
  unfold ofText path
  split
  · rename_i hempty
    rw [hempty]
    exact String.intercalate_nil
  · exact intercalate_splitOn_slash text

/-- A path of non-empty segments without slashes is one that the code can build. -/
theorem parsed_of_segments {u : ZstURI} (hsegments : ∀ s ∈ u, s ≠ "" ∧ '/' ∉ s.toList) :
    Parsed u := by
  rcases u with - | ⟨s, rest⟩
  · rfl
  have hsplit := splitOn_slash_intercalate (fun t ht => (hsegments t ht).2) (List.cons_ne_nil s rest)
  have htext : (path (s :: rest)) ≠ "" := by
    intro hempty
    unfold path at hempty
    rw [hempty, splitOn_slash] at hsplit
    exact (hsegments s List.mem_cons_self).1 (List.cons.inj hsplit).1.symm
  unfold Parsed ofText
  rw [if_neg htext]
  exact hsplit

end ZstURI

namespace Serialization

open ZstURI

/-! ## The owner -/

theorem serializedOwner_eq (e : Entity) :
    e.serializedOwner =
      ofText (String.ofList (e.currentOwner.path.toList.take e.currentOwner.size)) :=
  rfl

/-- The owner comes back exactly if its text is not longer than the number of
its segments. -/
theorem serializedOwner_eq_currentOwner_iff {e : Entity} (howner : Parsed e.currentOwner) :
    e.serializedOwner = e.currentOwner ↔ e.currentOwner.path.length ≤ e.currentOwner.size := by
  rw [serializedOwner_eq, ← String.length_toList]
  constructor
  · intro hback
    have htext := congrArg path hback
    rw [path_ofText] at htext
    have hlength := congrArg (fun text : String => text.toList.length) htext
    simp only [String.toList_ofList, List.length_take] at hlength
    omega
  · intro hlength
    rw [List.take_of_length_le hlength, String.ofList_toList]
    exact howner

/-! ## Round trips -/

/-- The entity built from the serialised entity has the same type, URI and owner,
and what an entity of that type carries besides. -/
structure RoundTrips (e : Entity) : Prop where
  entityType : (Entity.unpack e.serialize).entityType = e.entityType
  uri : (Entity.unpack e.serialize).uri = e.uri
  currentOwner : (Entity.unpack e.serialize).currentOwner = e.currentOwner
  componentType : e.isComponent → (Entity.unpack e.serialize).componentType = e.componentType
  direction : e.entityType = .plug → (Entity.unpack e.serialize).direction = e.direction
  maxConnectedCables : e.entityType = .plug →
    (Entity.unpack e.serialize).maxConnectedCables = e.maxConnectedCables
  creatables : e.entityType = .factory →
    ∀ c, c ∈ (Entity.unpack e.serialize).creatables ↔ c ∈ e.creatables

/-- Everything but the owner comes back, for every type of entity. -/
theorem roundTrips_of_owner {e : Entity} (howner : e.serializedOwner = e.currentOwner) :
    RoundTrips e where
  entityType := rfl
  uri := rfl
  currentOwner := howner
  componentType hcomponent := if_pos hcomponent
  direction hplug := if_pos hplug
  maxConnectedCables hplug := if_pos hplug
  creatables hfactory c := by
    have hlist : (Entity.unpack e.serialize).creatables = e.creatables := if_pos hfactory
    rw [hlist]

/-- An entity comes out of its buffer as it went in exactly if the text of its
owner's path is not longer than the number of the path's segments. -/
theorem roundTrips_iff {e : Entity} (howner : Parsed e.currentOwner) :
    RoundTrips e ↔ e.currentOwner.path.length ≤ e.currentOwner.size := by
  rw [← serializedOwner_eq_currentOwner_iff howner]
  exact ⟨fun h => h.currentOwner, roundTrips_of_owner⟩

theorem roundTrips_iff_singleCharacter :
    RoundTrips { entityType := .plug, uri := ["a", "out"], currentOwner := ["b"]
                 direction := .outJack } :=
  (roundTrips_iff (parsed_of_segments (by decide))).mpr (by decide)

/-- A component that the performer `bob` has taken. -/
def takenByBob : Entity :=
  { entityType := .component, uri := ["a", "synth"], currentOwner := ["bob"] }

/-- Its owner is read back as `b`. -/
theorem longName_not_roundTrips : takenByBob.currentOwner = ofText "bob" ∧
    (Entity.unpack takenByBob.serialize).currentOwner = ofText "b" ∧ ¬ RoundTrips takenByBob := by
  have hbob : Parsed ["bob"] := parsed_of_segments (by decide)
  have hb : Parsed ["b"] := parsed_of_segments (by decide)
  have hback : (Entity.unpack takenByBob.serialize).currentOwner = ofText "b" := rfl
  refine ⟨hbob.symm, hback, fun h => ?_⟩
  have hcut : (["b"] : ZstURI) = ["bob"] := hb.symm.trans (hback.symm.trans h.currentOwner)
  exact absurd hcut (by decide)

end Serialization
end Showtime
