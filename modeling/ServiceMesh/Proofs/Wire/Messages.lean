import ServiceMesh.Proofs.Wire.RoundTrip
import ServiceMesh.Wire.Requests
import ServiceMesh.Wire.Topology

/-!
# Messages that survive the wire

Queries, requests, failures and views of nodes are read back as they were written, as routes, events
and adverts are.  A query leaves its open fields out, and a field that is left out is read as open.
-/

namespace ServiceMesh

namespace Wire

theorem roundTrips_uint64 : RoundTrips UInt64 0 := fun _ _ ↦ Json.reads_uint64

theorem roundTrips_peerAddress : RoundTrips PeerAddress 1 := by
  refine roundTrips_record (fun peer ↦ [fun _ ↦ ⟨peer.address⟩])
    (fun _ ↦ rfl) (fun _ ↦ rfl) ?fits ?names ?required fun _ _ ↦ rfl
  case fits =>
    intro depth hdepth peer
    exact .cons ⟨_, rfl, reads_field roundTrips_string hdepth _ _ _ _⟩ .nil
  case names =>
    intro peer
    show ["address"].Nodup
    decide
  case required => simp [field, Json.field, member]

theorem roundTrips_connectRequest : RoundTrips ConnectRequest 3 := by
  have hnodes : RoundTrips (List PeerAddress) 2 := roundTrips_list roundTrips_peerAddress
  refine roundTrips_record (fun request ↦ [fun _ ↦ ⟨request.nodes⟩])
    (fun _ ↦ rfl) (fun _ ↦ rfl) ?fits ?names ?required fun _ _ ↦ rfl
  case fits =>
    intro depth hdepth request
    exact .cons ⟨_, rfl, reads_field hnodes hdepth _ _ _ _⟩ .nil
  case names =>
    intro request
    show ["nodes"].Nodup
    decide
  case required => simp [field, Json.field]

theorem roundTrips_graphRequest : RoundTrips GraphRequest 1 := by
  refine roundTrips_record (fun request ↦ [fun _ ↦ ⟨request.depth⟩])
    (fun _ ↦ rfl) (fun _ ↦ rfl) ?fits ?names ?required fun _ _ ↦ rfl
  case fits =>
    intro depth hdepth request
    exact .cons ⟨_, rfl, reads_field roundTrips_uint64 hdepth _ _ _ _⟩ .nil
  case names =>
    intro request
    show ["depth"].Nodup
    decide
  case required => simp [field, Json.field]

theorem roundTrips_routeOrder : RoundTrips RouteOrder 0 := by
  intro depth _ order
  cases order with
  | insertion => exact Json.reads_variant rfl depth
  | metric => exact Json.reads_variant rfl depth

/-- What a constraint changes when it is read: nothing if it is left out. -/
def constraintSets (set : RouteQuery → Option String → RouteQuery) :
    Option String → List (RouteQuery → RouteQuery)
  | none => []
  | some value => [fun query ↦ set query (some value)]

/-- A constraint that is written is read back by the field of its name. -/
theorem fits_constraintMember {fields : List (Json.Field RouteQuery)} {name : String}
    {set : RouteQuery → Option String → RouteQuery}
    (h : fields.find? (·.name = name) = some (RouteQuery.constraint name set))
    (wanted : Option String) :
    List.Forall₂ (Json.Fits fields) (RouteQuery.constraintMember name wanted)
      (constraintSets set wanted) := by
  cases wanted with
  | none => exact .nil
  | some value =>
    exact .cons ⟨_, h, Json.reads_field (Json.reads_optionalText value) _ _ _⟩ .nil

theorem names_constraintMember_sublist (name : String) (wanted : Option String) :
    ((RouteQuery.constraintMember name wanted).map Prod.fst).Sublist [name] := by
  cases wanted with
  | none => exact List.nil_sublist _
  | some value => exact List.Sublist.refl _

/-- A constraint that was open is set as it was written, before anything else is. -/
theorem setAll_constraintSets_append {set : RouteQuery → Option String → RouteQuery}
    {query : RouteQuery} (hopen : set query none = query) (wanted : Option String)
    (sets : List (RouteQuery → RouteQuery)) :
    Json.setAll query (constraintSets set wanted ++ sets) =
      Json.setAll (set query wanted) sets := by
  cases wanted with
  | none => rw [hopen, constraintSets, List.nil_append]
  | some value => rfl

/-- A query is read back from the constraints that it shows, whichever these are. -/
theorem roundTrips_routeQuery : RoundTrips RouteQuery 1 := by
  refine roundTrips_record (fun query ↦
      constraintSets (fun record service ↦ { record with service }) query.service ++
      constraintSets (fun record address ↦ { record with address }) query.address ++
      constraintSets (fun record gateway ↦ { record with gateway }) query.gateway ++
      constraintSets (fun record router ↦ { record with router }) query.router ++
      constraintSets (fun record network ↦ { record with network }) query.network ++
      [fun record ↦ { record with order := query.order }])
    (fun _ ↦ rfl) (fun _ ↦ rfl) ?fits ?names ?required ?sets
  case fits =>
    intro depth hdepth query
    have hconstraint {name : String} {set : RouteQuery → Option String → RouteQuery}
        (h : (RouteQuery.shape depth).fields.find? (·.name = name) =
          some (RouteQuery.constraint name set)) (wanted : Option String) :=
      fits_constraintMember h wanted
    have horder : List.Forall₂ (Json.Fits (RouteQuery.shape depth).fields)
        [member "order" query.order] [fun record ↦ { record with order := query.order }] :=
      .cons ⟨_, rfl, reads_field roundTrips_routeOrder hdepth _ _ _ _⟩ .nil
    have happend := @List.rel_append _ _ (Json.Fits (RouteQuery.shape depth).fields)
    exact happend (happend (happend (happend (happend (hconstraint rfl _) (hconstraint rfl _))
      (hconstraint rfl _)) (hconstraint rfl _)) (hconstraint rfl _)) horder
  case names =>
    intro query
    have hall : (["service"] ++ ["address"] ++ ["gateway"] ++ ["router"] ++ ["network"] ++
        ["order"]).Nodup := by decide
    have hone := names_constraintMember_sublist
    refine hall.sublist ?_
    simp only [List.map_append]
    exact (((((hone _ _).append (hone _ _)).append (hone _ _)).append (hone _ _)).append
      (hone _ _)).append (List.Sublist.refl _)
  case required => simp [RouteQuery.shape, RouteQuery.constraint, field, Json.field]
  case sets =>
    intro depth query
    simp only [List.append_assoc]
    rw [setAll_constraintSets_append, setAll_constraintSets_append, setAll_constraintSets_append,
      setAll_constraintSets_append, setAll_constraintSets_append]
    all_goals rfl

theorem roundTrips_nodeView : RoundTrips NodeView 1 := by
  refine roundTrips_record
    (fun view ↦ [fun record ↦ { record with id := view.id },
      fun record ↦ { record with address := view.address }])
    (fun _ ↦ rfl) (fun _ ↦ rfl) ?fits ?names ?required fun _ _ ↦ rfl
  case fits =>
    intro depth hdepth view
    exact .cons ⟨_, rfl, reads_field roundTrips_string hdepth _ _ _ _⟩
      (.cons ⟨_, rfl, reads_field roundTrips_string hdepth _ _ _ _⟩ .nil)
  case names =>
    intro view
    show ["id", "address"].Nodup
    decide
  case required => simp [field, Json.field, member]

theorem roundTrips_errorCode : RoundTrips ErrorCode 0 := by
  intro depth _ code
  cases code <;> exact Json.reads_variant rfl depth

theorem roundTrips_errorEnvelope : RoundTrips ErrorEnvelope 1 := by
  refine roundTrips_record
    (fun envelope ↦ [fun record ↦ { record with code := envelope.code },
      fun record ↦ { record with id := envelope.id },
      fun record ↦ { record with detail := envelope.detail }])
    (fun _ ↦ rfl) (fun _ ↦ rfl) ?fits ?names ?required fun _ _ ↦ rfl
  case fits =>
    intro depth hdepth envelope
    exact .cons ⟨_, rfl, reads_field roundTrips_errorCode hdepth _ _ _ _⟩
      (.cons ⟨_, rfl, reads_field roundTrips_string hdepth _ _ _ _⟩
      (.cons ⟨_, rfl, reads_field roundTrips_string hdepth _ _ _ _⟩ .nil))
  case names =>
    intro envelope
    show ["code", "id", "detail"].Nodup
    decide
  case required => simp [field, Json.field, member]

/-- Whatever texts, numbers and lists a message holds, decoding what is encoded of it succeeds and
gives the message back. -/
theorem messages_decode_encode :
    (∀ route : Route, decode (Json.bytes (encode route)) = .ok route) ∧
    (∀ query : RouteQuery, decode (Json.bytes (encode query)) = .ok query) ∧
    (∀ request : ConnectRequest, decode (Json.bytes (encode request)) = .ok request) ∧
    (∀ request : GraphRequest, decode (Json.bytes (encode request)) = .ok request) ∧
    (∀ view : NodeView, decode (Json.bytes (encode view)) = .ok view) ∧
    (∀ envelope : ErrorEnvelope, decode (Json.bytes (encode envelope)) = .ok envelope) ∧
    (∀ event : TableEvent, decode (Json.bytes (encode event)) = .ok event) ∧
    ∀ advert : Advert, Advert.decode advert.encode = .ok advert :=
  ⟨roundTrips_route.decode (by decide), roundTrips_routeQuery.decode (by decide),
    roundTrips_connectRequest.decode (by decide), roundTrips_graphRequest.decode (by decide),
    roundTrips_nodeView.decode (by decide), roundTrips_errorEnvelope.decode (by decide),
    roundTrips_tableEvent.decode (by decide), Advert.decode_encode⟩

end Wire

end ServiceMesh
