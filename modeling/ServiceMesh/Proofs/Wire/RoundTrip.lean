import ServiceMesh.Proofs.Json.Records
import ServiceMesh.Wire.Routes

/-!
# Values that survive the wire

Every text, every number, every route and every advert is read back from what is written of it.  How
deep a value nests depends on its type only, and adverts stay far below what a reader allows.
-/

namespace ServiceMesh

namespace Wire

variable {α β : Type} [Wire α]

/-- Values of a type are read back by readers that may open so many arrays and objects. -/
def RoundTrips (α : Type) [Wire α] (nesting : ℕ) : Prop :=
  ∀ depth, nesting ≤ depth → ∀ value : α,
    Json.Reads (read depth) (Json.encoded (write value)) value

/-- A value that is read back is decoded as it was encoded, if it does not nest too deep for a
decoder. -/
theorem RoundTrips.decode {nesting : ℕ} (h : RoundTrips α nesting)
    (hnesting : nesting ≤ greatestNesting) (value : α) :
    decode (Json.bytes (encode value)) = .ok value := by
  rw [Wire.decode, encode, Json.bytes_ofList_written]
  exact (h greatestNesting hnesting value).readAll

theorem roundTrips_string : RoundTrips String 0 := fun _ _ ↦ Json.reads_text

theorem roundTrips_int64 : RoundTrips Int64 0 := fun _ _ ↦ Json.reads_int64

/-- A list nests one deeper than its elements. -/
theorem roundTrips_list {nesting : ℕ} (h : RoundTrips α nesting) :
    RoundTrips (List α) (nesting + 1) := by
  intro depth hdepth values
  refine Json.reads_sequence ?_ (by omega)
  rw [List.forall₂_map_left_iff, List.forall₂_same]
  exact fun value _ ↦ h (depth - 1) (by omega) value

/-- A field that is read as its type is reads what is written as its type is. -/
theorem reads_field {nesting depth : ℕ} (h : RoundTrips α nesting) (hdepth : nesting ≤ depth)
    (name : String) (presence : Json.Presence) (set : β → α → β) (value : α) :
    Json.Reads (field depth name presence set).fill (Json.encoded (write value))
      fun record ↦ set record value :=
  Json.reads_field (h depth hdepth value) name presence set

/-- A type that is read as a record and written as an object is read back if, for each value, its
members fit fields of the record, have names of their own, leave out no required field, and make up
the value. -/
theorem roundTrips_record {shape : ℕ → Json.Shape α} {parts : α → List (String × Json.Written)}
    {nesting : ℕ} (sets : α → List (α → α))
    (hread : ∀ depth, (read depth : Json.Reader α) = Json.record shape depth)
    (hwrite : ∀ value : α, write value = Json.writeObject (parts value))
    (hfits : ∀ depth, nesting ≤ depth → ∀ value,
      List.Forall₂ (Json.Fits (shape depth).fields) (parts value) (sets value))
    (hnames : ∀ value, ((parts value).map Prod.fst).Nodup)
    (hrequired : ∀ depth value, ∀ field ∈ (shape depth).fields, field.presence = .required →
      field.name ∈ (parts value).map Prod.fst)
    (hsets : ∀ depth value, Json.setAll (shape depth).blank (sets value) = value) :
    RoundTrips α (nesting + 1) := by
  rintro (_ | depth) hdepth value
  · omega
  · have hrecord := Json.reads_record (hfits depth (by omega) value) (hnames value)
      (hrequired depth value)
    rwa [hsets, ← hread, ← hwrite] at hrecord

theorem roundTrips_route : RoundTrips Route 1 := by
  refine roundTrips_record
    (fun route ↦ [fun record ↦ { record with service := route.service },
      fun record ↦ { record with address := route.address },
      fun record ↦ { record with gateway := route.gateway },
      fun record ↦ { record with network := route.network },
      fun record ↦ { record with router := route.router },
      fun record ↦ { record with link := route.link },
      fun record ↦ { record with metric := route.metric }])
    (fun _ ↦ rfl) (fun _ ↦ rfl) ?fits ?names ?required fun _ _ ↦ rfl
  case fits =>
    intro depth hdepth route
    exact .cons ⟨_, rfl, reads_field roundTrips_string hdepth _ _ _ _⟩
      (.cons ⟨_, rfl, reads_field roundTrips_string hdepth _ _ _ _⟩
      (.cons ⟨_, rfl, reads_field roundTrips_string hdepth _ _ _ _⟩
      (.cons ⟨_, rfl, reads_field roundTrips_string hdepth _ _ _ _⟩
      (.cons ⟨_, rfl, reads_field roundTrips_string hdepth _ _ _ _⟩
      (.cons ⟨_, rfl, reads_field roundTrips_string hdepth _ _ _ _⟩
      (.cons ⟨_, rfl, reads_field roundTrips_int64 hdepth _ _ _ _⟩ .nil))))))
  case names =>
    intro route
    show ["service", "address", "gateway", "network", "router", "link", "metric"].Nodup
    decide
  case required => simp [Route.shape, field, Json.field, member]

theorem roundTrips_eventKind : RoundTrips EventKind 0 := by
  intro depth _ kind
  cases kind <;> exact Json.reads_variant rfl depth

theorem roundTrips_tableEvent : RoundTrips TableEvent 2 := by
  refine roundTrips_record
    (fun event ↦ [fun record ↦ { record with kind := event.kind },
      fun record ↦ { record with route := event.route }])
    (fun _ ↦ rfl) (fun _ ↦ rfl) ?fits ?names ?required fun _ _ ↦ rfl
  case fits =>
    intro depth hdepth event
    exact .cons ⟨_, rfl, reads_field roundTrips_eventKind (Nat.zero_le _) _ _ _ _⟩
      (.cons ⟨_, rfl, reads_field roundTrips_route hdepth _ _ _ _⟩ .nil)
  case names =>
    intro event
    show ["kind", "route"].Nodup
    decide
  case required => simp [TableEvent.shape, field, Json.field, member]

/-- An advert nests four deep: the route is in an event, and the event in a list. -/
theorem roundTrips_advert : RoundTrips Advert 4 := by
  have hevents : RoundTrips (List TableEvent) 3 := roundTrips_list roundTrips_tableEvent
  refine roundTrips_record
    (fun advert ↦ [fun record ↦ { record with id := advert.id },
      fun record ↦ { record with events := advert.events }])
    (fun _ ↦ rfl) (fun _ ↦ rfl) ?fits ?names ?required fun _ _ ↦ rfl
  case fits =>
    intro depth hdepth advert
    exact .cons ⟨_, rfl, reads_field roundTrips_string (Nat.zero_le _) _ _ _ _⟩
      (.cons ⟨_, rfl, reads_field hevents hdepth _ _ _ _⟩ .nil)
  case names =>
    intro advert
    show ["id", "events"].Nodup
    decide
  case required => simp [Advert.shape, field, Json.field, member]

end Wire

/-- An advert is decoded as it was encoded. -/
theorem Advert.decode_encode (advert : Advert) : decode advert.encode = .ok advert := by
  rw [decode, encode, Wire.roundTrips_advert.decode (by decide)]
  rfl

end ServiceMesh
