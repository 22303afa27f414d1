import Mathlib.Data.List.Nodup
import ServiceMesh.Proofs.Json.Parts
import ServiceMesh.Proofs.Wire.RoundTrip

/-!
# The forms of a route

A route is decoded from any object that shows its service and its address, whatever the order, the
layout and the spelling, and whatever unknown members stand between.  Fields that are left out are
blank.  Nothing less will do: without its service or its address, or with a field twice, it is
refused, and so is an advert that holds it.
-/

namespace ServiceMesh

open Json (Blank Entry Item Orderly Spells Value keys objectText sequenceText)

namespace Route

/-- The fields that are texts. -/
def textFields : List (String × (Route → String)) :=
  [("service", service), ("address", address), ("gateway", gateway), ("network", network),
    ("router", router), ("link", link)]

def fieldNames : List String := textFields.map Prod.fst ++ ["metric"]

/-- A member shows a text in some spelling, or the metric in decimal, or it is none of the route's
and holds any value. -/
inductive ShowsMember (route : Route) (entry : Entry) : Prop where
  | text {field : Route → String} {spelled : Json.Bytes} (hfield : (entry.key, field) ∈ textFields)
      (hspelled : Spells spelled (Json.bytes (field route)))
      (hvalue : entry.value = Json.byte '"' :: spelled ++ [Json.byte '"'])
  | metric (hkey : entry.key = "metric")
      (hvalue : entry.value = Json.bytes (toString route.metric.toInt))
  | unknown (hkey : entry.key ∉ fieldNames) (hvalue : Value entry.value)

/-- The members of an object show a route: its service and its address are among them, no field is
shown twice, and fields that are not shown are blank. -/
structure Shows (route : Route) (entries : List Entry) : Prop where
  members : ∀ entry ∈ entries, ShowsMember route entry
  once : ∀ name ∈ fieldNames, (keys entries).count name ≤ 1
  service : "service" ∈ keys entries
  address : "address" ∈ keys entries
  gateway : "gateway" ∈ keys entries ∨ route.gateway = ""
  network : "network" ∈ keys entries ∨ route.network = ""
  router : "router" ∈ keys entries ∨ route.router = ""
  link : "link" ∈ keys entries ∨ route.link = ""
  metric : "metric" ∈ keys entries ∨ route.metric = 0

/-- The members of an object show no route: its service or its address is missing, or a field is
shown twice. -/
def Faulty (entries : List Entry) : Prop :=
  "service" ∉ keys entries ∨ "address" ∉ keys entries ∨
    ∃ name ∈ fieldNames, 1 < (keys entries).count name

theorem names_shape (depth : ℕ) : (shape depth).fields.map Json.Field.name = fieldNames := rfl

/-- The known members come once each just if no field is shown twice. -/
theorem nodup_knownKeys_iff {depth : ℕ} {entries : List Entry} :
    (Json.knownKeys (shape depth).fields entries).Nodup ↔
      ∀ name ∈ fieldNames, (keys entries).count name ≤ 1 := by
  rw [List.nodup_iff_count_le_one, Json.knownKeys, names_shape]
  refine forall_congr' fun name ↦ ?_
  by_cases hname : name ∈ fieldNames
  · rw [List.count_filter (by simpa using hname)]
    exact ⟨fun h _ ↦ h, fun h ↦ h hname⟩
  · have hzero : ((keys entries).filter (· ∈ fieldNames)).count name = 0 :=
      List.count_eq_zero_of_not_mem fun hmem ↦ hname (by simpa using (List.mem_filter.1 hmem).2)
    exact ⟨fun _ h ↦ absurd h hname, fun _ ↦ hzero.le.trans (Nat.zero_le 1)⟩

/-- A route of which only the named fields are kept. -/
def only (names : List String) (route : Route) : Route where
  service := if "service" ∈ names then route.service else ""
  address := if "address" ∈ names then route.address else ""
  gateway := if "gateway" ∈ names then route.gateway else ""
  network := if "network" ∈ names then route.network else ""
  router := if "router" ∈ names then route.router else ""
  link := if "link" ∈ names then route.link else ""
  metric := if "metric" ∈ names then route.metric else 0

/-- What is not shown is blank, so what is shown is the whole route. -/
theorem Shows.only_keys {route : Route} {entries : List Entry} (h : route.Shows entries) :
    route.only (keys entries) = route := by
  have htext {name held : String} (hname : name ∈ keys entries ∨ held = "") :
      (if name ∈ keys entries then held else "") = held :=
    ite_eq_left_iff.2 fun hmissing ↦ (hname.resolve_left hmissing).symm
  have hmetric : (if "metric" ∈ keys entries then route.metric else 0) = route.metric :=
    ite_eq_left_iff.2 fun hmissing ↦ (h.metric.resolve_left hmissing).symm
  rw [only, if_pos h.service, if_pos h.address, htext h.gateway, htext h.network, htext h.router,
    htext h.link, hmetric]

/-- Other names than those of fields make no difference, nor does the order of the names. -/
theorem only_congr (route : Route) {names names' : List String}
    (h : ∀ name ∈ fieldNames, name ∈ names ↔ name ∈ names') :
    route.only names = route.only names' := by
  simp only [only, h "service" (by decide), h "address" (by decide), h "gateway" (by decide),
    h "network" (by decide), h "router" (by decide), h "link" (by decide), h "metric" (by decide)]

/-- A member that shows a field fills in what the route holds there. -/
theorem fills_of_showsMember {route : Route} {entry : Entry} (h : route.ShowsMember entry)
    (depth : ℕ) :
    ∃ set, Json.Fills (shape depth).fields entry set ∧
      ∀ given, set (route.only given) = route.only (entry.key :: given) := by
  cases h with
  | @text held spelled hheld hspelled hvalue =>
    have hfills {name : String} {presence : Json.Presence} {set : Route → String → Route}
        (hfield : (shape depth).fields.find? (·.name = entry.key) =
          some (Json.field name presence Json.text set)) :
        Json.Fills (shape depth).fields entry fun record ↦ set record (held route) := by
      refine Json.fills_of_reads hfield (Json.orderly_field Json.orderly_text _ _ _) ?_
      rw [hvalue]
      exact Json.reads_field (Json.reads_spelled hspelled) _ _ _
    simp only [textFields, List.mem_cons, Prod.mk.injEq, List.not_mem_nil, or_false] at hheld
    rcases hheld with ⟨hkey, rfl⟩ | ⟨hkey, rfl⟩ | ⟨hkey, rfl⟩ | ⟨hkey, rfl⟩ | ⟨hkey, rfl⟩ |
      ⟨hkey, rfl⟩
    all_goals exact ⟨_, hfills (by rw [hkey]; rfl), fun given ↦ by simp [only, hkey]⟩
  | metric hkey hvalue =>
    have hfield : (shape depth).fields.find? (·.name = entry.key) = some (Json.field "metric"
        .optional Json.int64 fun (record : Route) metric ↦ { record with metric }) := by
      rw [hkey]
      rfl
    have hreads : Json.Reads Json.int64 entry.value route.metric := by
      rw [hvalue, Json.bytes_eq_flatMap]
      exact Json.reads_int64 route.metric
    exact ⟨_, Json.fills_of_reads hfield (Json.orderly_field Json.orderly_int64 _ _ _)
      (Json.reads_field hreads _ _ _), fun given ↦ by simp [only, hkey]⟩
  | unknown hkey hvalue =>
    have hfield : (shape depth).fields.find? (·.name = entry.key) = none := by
      refine List.find?_eq_none.2 fun field hmem hname ↦ hkey ?_
      rw [← names_shape depth, ← of_decide_eq_true hname]
      exact List.mem_map_of_mem hmem
    refine ⟨id, .unknown hfield hvalue, fun given ↦ only_congr route fun name hname ↦ ?_⟩
    have hother : name ≠ entry.key := fun h ↦ hkey (h ▸ hname)
    simp [hother]

/-- Members that show a route fill in all that they show of it, in whatever order. -/
theorem fills_of_shows {route : Route} {entries : List Entry}
    (h : ∀ entry ∈ entries, route.ShowsMember entry) (depth : ℕ) (given : List String) :
    ∃ sets, List.Forall₂ (Json.Fills (shape depth).fields) entries sets ∧
      Json.setAll (route.only given) sets = route.only ((keys entries).reverse ++ given) := by
  induction entries generalizing given with
  | nil => exact ⟨[], .nil, rfl⟩
  | cons entry entries ih =>
    obtain ⟨hentry, hentries⟩ := List.forall_mem_cons.1 h
    obtain ⟨set, hfills, hset⟩ := fills_of_showsMember hentry depth
    obtain ⟨sets, hsets, hall⟩ := ih hentries (entry.key :: given)
    refine ⟨set :: sets, .cons hfills hsets, ?_⟩
    rw [Json.setAll, List.foldl_cons, hset, keys, List.map_cons, List.reverse_cons,
      List.append_assoc, List.singleton_append]
    exact hall

/-- An object has to show a service and an address, and nothing more. -/
theorem required_iff {depth : ℕ} {names : List String} :
    (∀ field ∈ (shape depth).fields, field.presence = .required → field.name ∈ names) ↔
      "service" ∈ names ∧ "address" ∈ names := by
  simp [shape, Wire.field, Json.field]

/-- Whatever its layout and the order of its members, an object that shows a route is read as the
route. -/
theorem reads_of_shows {route : Route} {entries : List Entry} (h : route.Shows entries)
    {gap : Json.Bytes} (hgap : Blank gap) (depth : ℕ) :
    Json.Reads (Wire.read (depth + 1)) (objectText gap (entries.map Entry.toMember)) route := by
  obtain ⟨sets, hfills, hsets⟩ := fills_of_shows h.members depth []
  have hreads := Json.reads_object hfills (nodup_knownKeys_iff.2 h.once)
    (required_iff.2 ⟨h.service, h.address⟩) hgap
  have hroute : Json.setAll (shape depth).blank sets = route := by
    calc Json.setAll (shape depth).blank sets
      _ = route.only ((keys entries).reverse ++ []) := hsets
      _ = route.only (keys entries) := only_congr route fun name _ ↦ by simp
      _ = route := h.only_keys
  rwa [hroute] at hreads

/-! ## Routes that are refused -/

theorem orderly_fields (depth : ℕ) : ∀ field ∈ (shape depth).fields, Orderly field.fill := by
  have htext (name : String) (presence : Json.Presence) (set : Route → String → Route) :
      Orderly (Wire.field depth name presence set).fill :=
    Json.orderly_field Json.orderly_text name presence set
  have hmetric : Orderly (Wire.field depth "metric" .optional
      fun (route : Route) (metric : Int64) ↦ { route with metric }).fill :=
    Json.orderly_field Json.orderly_int64 _ _ _
  simp only [shape, List.forall_mem_cons]
  exact ⟨htext _ _ _, htext _ _ _, htext _ _ _, htext _ _ _, htext _ _ _, htext _ _ _, hmetric,
    fun _ hmem ↦ by cases hmem⟩

theorem orderly_read (depth : ℕ) : Orderly (Wire.read depth : Json.Reader Route) :=
  Json.orderly_record fun inner _ ↦ orderly_fields inner

/-- An object that shows no route is refused, whatever its values are. -/
theorem not_accepts_of_faulty {entries : List Entry} (h : Faulty entries)
    (hvalues : ∀ entry ∈ entries, Value entry.value) {gap : Json.Bytes} (hgap : Blank gap)
    (depth : ℕ) :
    ¬ Json.Accepts (Wire.read depth : Json.Reader Route)
      (objectText gap (entries.map Entry.toMember)) := by
  intro haccepts
  obtain ⟨inner, -, hnames, hrequired, -⟩ :=
    Json.accepts_object orderly_fields hvalues hgap haccepts
  obtain ⟨hservice, haddress⟩ := required_iff.1 hrequired
  rcases h with hmissing | hmissing | ⟨name, hname, hcount⟩
  · exact hmissing hservice
  · exact hmissing haddress
  · exact absurd (nodup_knownKeys_iff.1 hnames name hname) (Nat.not_le_of_lt hcount)

end Route

namespace TableEvent

theorem names_shape (depth : ℕ) :
    (shape depth).fields.map Json.Field.name = ["kind", "route"] := rfl

theorem orderly_fields (depth : ℕ) : ∀ field ∈ (shape depth).fields, Orderly field.fill := by
  have hkind : Orderly (Wire.field depth "kind" .required
      fun (event : TableEvent) (kind : EventKind) ↦ { event with kind }).fill :=
    Json.orderly_field (Json.orderly_variant _ depth) _ _ _
  have hroute : Orderly (Wire.field depth "route" .required
      fun (event : TableEvent) (route : Route) ↦ { event with route }).fill :=
    Json.orderly_field (Route.orderly_read depth) _ _ _
  simp only [shape, List.forall_mem_cons]
  exact ⟨hkind, hroute, fun _ hmem ↦ by cases hmem⟩

theorem orderly_read (depth : ℕ) : Orderly (Wire.read depth : Json.Reader TableEvent) :=
  Json.orderly_record fun inner _ ↦ orderly_fields inner

/-- An event is accepted only if its route is. -/
theorem accepts_route {depth : ℕ} {event route : Json.Bytes}
    (hroute : Json.HasPart ["kind", "route"] "route" event route)
    (h : Json.Accepts (Wire.read depth : Json.Reader TableEvent) event) :
    ∃ inner, Json.Accepts (Wire.read inner : Json.Reader Route) route := by
  obtain ⟨inner, -, field, hmem, hname, haccepts⟩ :=
    Json.accepts_part names_shape orderly_fields (by decide) hroute h
  refine ⟨inner, ?_⟩
  simp only [shape, List.mem_cons, List.not_mem_nil, or_false] at hmem
  rcases hmem with rfl | rfl
  · have hother : "kind" ≠ "route" := by decide
    exact absurd hname hother
  · exact Json.accepts_of_field haccepts

end TableEvent

namespace Advert

theorem names_shape (depth : ℕ) :
    (shape depth).fields.map Json.Field.name = ["id", "events"] := rfl

theorem orderly_fields (depth : ℕ) : ∀ field ∈ (shape depth).fields, Orderly field.fill := by
  have hid : Orderly (Wire.field depth "id" .required
      fun (advert : Advert) (id : String) ↦ { advert with id }).fill :=
    Json.orderly_field Json.orderly_text _ _ _
  have hevents : Orderly (Wire.field depth "events" .required
      fun (advert : Advert) (events : List TableEvent) ↦ { advert with events }).fill :=
    Json.orderly_field (Json.orderly_sequence (TableEvent.orderly_read (depth - 1)) depth) _ _ _
  simp only [shape, List.forall_mem_cons]
  exact ⟨hid, hevents, fun _ hmem ↦ by cases hmem⟩

theorem orderly_read (depth : ℕ) : Orderly (Wire.read depth : Json.Reader Advert) :=
  Json.orderly_record fun inner _ ↦ orderly_fields inner

/-- An advert is accepted only if each of its events is. -/
theorem accepts_events {depth : ℕ} {advert gap : Json.Bytes} {events : List Item}
    (hevents : Json.HasPart ["id", "events"] "events" advert (sequenceText gap events))
    (hvalues : ∀ event ∈ events, Value event.value)
    (h : Json.Accepts (Wire.read depth : Json.Reader Advert) advert) :
    ∃ inner, ∀ event ∈ events,
      Json.Accepts (Wire.read inner : Json.Reader TableEvent) event.value := by
  obtain ⟨inner, -, field, hmem, hname, haccepts⟩ :=
    Json.accepts_part names_shape orderly_fields (by decide) hevents h
  refine ⟨inner - 1, ?_⟩
  simp only [shape, List.mem_cons, List.not_mem_nil, or_false] at hmem
  rcases hmem with rfl | rfl
  · have hother : "id" ≠ "events" := by decide
    exact absurd hname hother
  · exact (Json.accepts_items (TableEvent.orderly_read (inner - 1)) hvalues
      (Json.accepts_of_field haccepts)).2

end Advert

namespace Wire

variable {α : Type} [Wire α] {before text after : Json.Bytes}

theorem decode_eq_ok (hread : ∀ depth, Orderly (read depth : Json.Reader α)) {value : α}
    (h : Json.Reads (read greatestNesting) text value) (hbefore : Blank before)
    (hafter : Blank after) : decode (before ++ (text ++ after)) = .ok value :=
  h.readAll_blanks (hread _) hbefore hafter

/-- A text that no reader accepts is refused with blanks around it as well. -/
theorem decode_eq_error (hread : ∀ depth, Orderly (read depth : Json.Reader α))
    (h : ∀ depth, ¬ Json.Accepts (read depth : Json.Reader α) text) (hbegins : Json.Begins text)
    (hbefore : Blank before) (hafter : Blank after) :
    ∃ fault, (decode (before ++ (text ++ after)) : Except Json.Fault α) = .error fault := by
  cases hdecode : (decode (before ++ (text ++ after)) : Except Json.Fault α) with
  | error fault => exact ⟨fault, rfl⟩
  | ok value =>
    exact absurd (Json.accepts_of_readAll (hread _) hbefore hbegins hafter hdecode) (h _)

end Wire

/-- Let an object show a route, in any layout, in any order and spelling, and with any well-formed
values under unknown names: it is decoded as the route.  An object without a service or an address,
or with a field twice, is refused whatever its values are.  So is every advert one of whose events
holds such an object as its route, be the advert and the event objects or sequences: decoding it
fails as a whole, and the fault is the sender's. -/
theorem Route.forms_decoded_or_refused :
    (∀ (route : Route) (entries : List Entry) (before gap after : Json.Bytes),
      route.Shows entries → Blank before → Blank gap → Blank after →
      Wire.decode (before ++ (objectText gap (entries.map Entry.toMember) ++ after)) =
        .ok route) ∧
    (∀ (entries : List Entry) (before gap after : Json.Bytes),
      Route.Faulty entries → (∀ entry ∈ entries, Value entry.value) →
      Blank before → Blank gap → Blank after →
      ∃ fault, (Wire.decode (before ++ (objectText gap (entries.map Entry.toMember) ++ after)) :
        Except Json.Fault Route) = .error fault) ∧
    ∀ (entries : List Entry) (events : List Item) (event : Item)
      (before advert gap gap' after : Json.Bytes),
      Route.Faulty entries → (∀ entry ∈ entries, Value entry.value) → Blank gap →
      event ∈ events → (∀ event ∈ events, Value event.value) →
      Json.HasPart ["kind", "route"] "route" event.value
        (objectText gap (entries.map Entry.toMember)) →
      Json.HasPart ["id", "events"] "events" advert (sequenceText gap' events) →
      Blank before → Blank after →
      ∃ error, Advert.decode (before ++ (advert ++ after)) = .error error ∧
        error.failure.code = .invalidArgument := by
  refine ⟨fun route entries before gap after hshows hbefore hgap hafter ↦ ?_,
    fun entries before gap after hfaulty hvalues hbefore hgap hafter ↦ ?_,
    fun entries events event before advert gap gap' after hfaulty hvalues hgap hevent hevents
      hroute hadvert hbefore hafter ↦ ?_⟩
  · exact Wire.decode_eq_ok Route.orderly_read (Route.reads_of_shows hshows hgap _) hbefore hafter
  · exact Wire.decode_eq_error Route.orderly_read
      (fun depth ↦ Route.not_accepts_of_faulty hfaulty hvalues hgap depth)
      (Json.begins_cons (by decide) (by decide) _) hbefore hafter
  · have hrefused (depth : ℕ) : ¬ Json.Accepts (Wire.read depth : Json.Reader Advert) advert := by
      intro h
      obtain ⟨inner, haccepts⟩ := Advert.accepts_events hadvert hevents h
      obtain ⟨inner', haccepts⟩ := TableEvent.accepts_route hroute (haccepts event hevent)
      exact Route.not_accepts_of_faulty hfaulty hvalues hgap inner' haccepts
    obtain ⟨fault, hfault⟩ :=
      Wire.decode_eq_error Advert.orderly_read hrefused hadvert.begins hbefore hafter
    exact ⟨.malformedAdvert fault, by rw [Advert.decode, hfault]; rfl, rfl⟩

namespace Route

/-- A name in which one letter is escaped. -/
theorem spells_escaped : Spells (Json.bytes "serv\\u0069ce") (Json.bytes "service") := by
  have hbefore : Spells (Json.bytes "serv") (Json.bytes "serv") :=
    .of_plain (List.all_eq_true.1 (by decide))
  have hafter : Spells (Json.bytes "ce") (Json.bytes "ce") :=
    .of_plain (List.all_eq_true.1 (by decide))
  have hdigit {n : ℕ} (h : n < 16) := Json.showsDigit_digitChar h
  have hunit : Json.ShowsUnit (Json.bytes "0069") 'i'.toNat :=
    .digits (hdigit (show 0 < 16 by decide)) (hdigit (show 0 < 16 by decide))
      (hdigit (show 6 < 16 by decide)) (hdigit (show 9 < 16 by decide))
  exact hbefore.append (.escape (.unit hunit) hafter)

def foreignEntries : List Entry :=
  [{ Json.writtenEntry ("x", Json.writeSequence ["null".toList]) with
      before := Json.bytes "\t", blank_before := by decide },
    Json.writtenEntry ("metric", "-7".toList),
    { Json.writtenEntry ("service", Json.writeText "a") with
      name := Json.bytes "serv\\u0069ce", spells := spells_escaped },
    Json.writtenEntry ("address", Json.writeText "b")]

theorem shows_foreignEntries :
    Shows { service := "a", address := "b", metric := -7 } foreignEntries where
  members := by
    have hnull : ∀ part ∈ ["null".toList], Value (Json.encoded part) :=
      List.forall_mem_singleton.2 (.word (by decide))
    simp only [foreignEntries, List.forall_mem_cons]
    exact ⟨.unknown (by decide) (Json.value_writeSequence hnull), .metric rfl rfl,
      .text (.head _) (Json.spells_written "a") (Json.encoded_writeText "a"),
      .text (.tail _ (.head _)) (Json.spells_written "b") (Json.encoded_writeText "b"),
      fun _ hmem ↦ by cases hmem⟩
  once := by decide
  service := by decide
  address := by decide
  gateway := .inr rfl
  network := .inr rfl
  router := .inr rfl
  link := .inr rfl
  metric := .inl (by decide)

def textEntry (name text : String) : Entry := Json.writtenEntry (name, Json.writeText text)

theorem value_textEntry (name text : String) : Value (textEntry name text).value :=
  Json.value_writeText text

/-- The members of an event whose route has no address. -/
def shortEventEntries : List Entry :=
  [textEntry "kind" "create",
    Json.writtenEntry ("route", Json.writeObject [("service", Json.writeText "a")])]

theorem value_shortEventEntries : ∀ entry ∈ shortEventEntries, Value entry.value := by
  have hroute : ∀ member ∈ [("service", Json.writeText "a")], Value (Json.encoded member.2) :=
    List.forall_mem_singleton.2 (Json.value_writeText "a")
  simp only [shortEventEntries, List.forall_mem_cons]
  exact ⟨value_textEntry _ _, Json.value_writeObject hroute, fun _ hmem ↦ by cases hmem⟩

def shortEvent : Item := Json.bareItem (objectText [] (shortEventEntries.map Entry.toMember))

theorem value_shortEvent : Value shortEvent.value :=
  .object Json.blank_nil (List.forall_mem_map.2 fun entry _ ↦ entry.spells.textForm)
    (List.forall_mem_map.2 value_shortEventEntries)

theorem hasPart_shortEvent :
    Json.HasPart ["kind", "route"] "route" shortEvent.value
      (objectText [] ([textEntry "service" "a"].map Entry.toMember)) := by
  have hroute : Json.writtenEntry ("route", Json.writeObject [("service", Json.writeText "a")]) ∈
      shortEventEntries := .tail _ (.head _)
  exact Json.encoded_writeObject [("service", Json.writeText "a")] ▸
    .member Json.blank_nil value_shortEventEntries hroute rfl

/-- What an advert that holds the event is made of. -/
def shortAdvertItems : List Item :=
  [Json.bareItem (Json.encoded (Json.writeText "r1")),
    Json.bareItem (sequenceText [] [shortEvent])]

theorem hasPart_shortAdvertItems :
    Json.HasPart ["id", "events"] "events" (sequenceText [] shortAdvertItems)
      (sequenceText [] [shortEvent]) := by
  have hitems : ∀ item ∈ shortAdvertItems, Value item.value := by
    simp only [shortAdvertItems, List.forall_mem_cons]
    exact ⟨Json.value_writeText _,
      .sequence Json.blank_nil (List.forall_mem_singleton.2 value_shortEvent),
      fun _ hmem ↦ by cases hmem⟩
  have hevents : ("events", Json.bareItem (sequenceText [] [shortEvent])) ∈
      ["id", "events"].zip shortAdvertItems := .tail _ (.head _)
  exact .item Json.blank_nil hitems hevents

/-- A route in a strange layout is decoded.  One without an address is refused, also within an
advert, and so is one with two of them. -/
theorem forms_decoded_or_refused_foreign :
    Wire.decode (Json.bytes
        " \x7b\"x\":\t[null],\"metric\":-7,\"serv\\u0069ce\":\"a\",\"address\":\"b\"\x7d\n") =
      .ok ({ service := "a", address := "b", metric := -7 } : Route) ∧
    (∃ fault, (Wire.decode (Json.bytes "\x7b\"service\":\"a\"\x7d") :
      Except Json.Fault Route) = .error fault) ∧
    (∃ fault, (Wire.decode (Json.bytes
      "\x7b\"service\":\"a\",\"address\":\"b\",\"address\":\"b\"\x7d") :
        Except Json.Fault Route) = .error fault) ∧
    ∃ error, Advert.decode (Json.bytes
        "[\"r1\",[\x7b\"kind\":\"create\",\"route\":\x7b\"service\":\"a\"\x7d\x7d]]") =
      .error error ∧ error.failure.code = .invalidArgument := by
  obtain ⟨hdecoded, hrefused, hadvert⟩ := forms_decoded_or_refused
  have hshort : ∀ entry ∈ [textEntry "service" "a"], Value entry.value :=
    List.forall_mem_singleton.2 (value_textEntry _ _)
  have htwice : ∀ entry ∈ [textEntry "service" "a", textEntry "address" "b",
      textEntry "address" "b"], Value entry.value := by
    simp only [List.forall_mem_cons, value_textEntry, true_and]
    exact fun _ hmem ↦ by cases hmem
  refine ⟨hdecoded _ foreignEntries (Json.bytes " ") [] (Json.bytes "\n") shows_foreignEntries
      (by decide) (by decide) (by decide),
    hrefused _ [] [] [] (.inr (.inl (by decide))) hshort (by decide) (by decide) (by decide),
    hrefused _ [] [] [] (.inr (.inr ⟨"address", by decide, by decide⟩)) htwice (by decide)
      (by decide) (by decide), ?_⟩
  exact hadvert [textEntry "service" "a"] [shortEvent] shortEvent [] _ [] [] []
    (.inr (.inl (by decide))) hshort (by decide) (.head _)
    (List.forall_mem_singleton.2 value_shortEvent) hasPart_shortEvent hasPart_shortAdvertItems
    (by decide) (by decide)

end Route

end ServiceMesh
