import LaneQueue.Http.EventStream
import LaneQueue.Proofs.Json.Messages
/-!
# Events over the wire

The JSON of an event has no control character, whatever texts the event has, so it is one line of the
stream (`Json.Value.isLine_render`). `Client` is the other end of the stream: it cuts what comes into
lines, takes the fields of an event from them and has the event at an empty line. What it receives are
the events that were sent (`Client.receive_render`), and with `Event.read_toJson` each of them is read
back. The server names its events by a table of its own, which agrees with the tags of the JSON
(`SentEvent.nameOf_eq_tag`).
-/
namespace LaneQueue

open Json (Value)

/-! ## One line -/

/-- No control character occurs in a text, and so no end of a line. -/
def IsLine (s : String) : Prop := ∀ c ∈ s.toList, 32 ≤ c.toNat

instance (s : String) : Decidable (IsLine s) :=
  List.decidableBAll (fun c : Char => 32 ≤ c.toNat) s.toList

namespace IsLine

theorem append {s t : String} (hs : IsLine s) (ht : IsLine t) : IsLine (s ++ t) := by
  intro c hc
  rw [String.toList_append] at hc
  exact (List.mem_append.1 hc).elim (hs c) (ht c)

theorem intercalate : ∀ {ss : List String}, (∀ s ∈ ss, IsLine s) → IsLine (",".intercalate ss)
  | [], _ => by
    rw [String.intercalate_nil]
    exact nofun
  | [s], h => by
    rw [String.intercalate_singleton]
    exact h s List.mem_cons_self
  | s :: t :: ss, h => by
    have hcomma : IsLine "," := by decide
    rw [String.intercalate_cons_cons]
    exact ((h s List.mem_cons_self).append hcomma).append
      (intercalate fun x hx => h x (List.mem_cons_of_mem _ hx))

/-- A control character is written by an escape. -/
theorem escapeChar (c : Char) : ∀ x ∈ Json.escapeChar c, 32 ≤ x.toNat := by
  have hshort {xs : List Char} (h : xs.all (fun x => 32 ≤ x.toNat) = true) :
      ∀ x ∈ xs, 32 ≤ x.toNat := fun x hx => of_decide_eq_true (List.all_eq_true.1 h x hx)
  have hhex : ∀ d : Fin 16, 32 ≤ (Json.hexDigit d.1).toNat := by decide
  unfold Json.escapeChar
  iterate 7
    split
    · exact hshort (by decide)
  split
  · have hhigh := hhex ⟨c.toNat / 16, by omega⟩
    have hlow := hhex ⟨c.toNat % 16, by omega⟩
    simpa using ⟨hhigh, hlow⟩
  · simpa using ‹¬ c.toNat < 32›

theorem quote (s : String) : IsLine (Json.quote s) := by
  intro c hc
  rw [Json.quote, String.toList_ofList, List.mem_append, List.mem_cons, List.mem_singleton] at hc
  rcases hc with (rfl | hc) | rfl
  · decide
  · obtain ⟨x, -, hx⟩ := List.mem_flatMap.1 hc
    exact escapeChar x c hx
  · decide

theorem int (i : Int) : IsLine (toString i) := by
  have hnat (n : Nat) : IsLine n.repr := by
    intro c hc
    rw [Nat.toList_repr] at hc
    have hdigit := Nat.isDigit_of_mem_toDigits (by omega) (by omega) hc
    have hge : 48 ≤ c.toNat := by
      simp only [Char.isDigit, Bool.and_eq_true, decide_eq_true_eq, ge_iff_le,
        UInt32.le_iff_toNat_le] at hdigit
      exact hdigit.1
    omega
  have hminus : IsLine "-" := by decide
  rw [Int.toString_eq_repr, Int.repr_eq_if]
  split
  · exact hnat _
  · exact hminus.append (hnat _)

end IsLine

namespace Json.Value

mutual

/-- **An exact value is written in one line.** -/
theorem isLine_render : ∀ v : Value, v.isExact = true → IsLine v.render
  | .null, _ => by decide
  | .bool true, _ => by decide
  | .bool false, _ => by decide
  | .int i, _ => .int i
  | .text s, _ => .quote s
  | .array items, h => by
    have hopen : IsLine "[" := by decide
    have hclose : IsLine "]" := by decide
    exact (hopen.append (.intercalate (isLine_items items h))).append hclose
  | .object members, h => by
    have hopen : IsLine "\x7b" := by decide
    have hclose : IsLine "\x7d" := by decide
    exact (hopen.append (.intercalate (isLine_members members h))).append hclose

theorem isLine_items : ∀ items : List Value, isExact.exactItems items = true →
    ∀ s ∈ render.renderItems items, IsLine s
  | [], _, _, hs => nomatch hs
  | v :: vs, h, s, hs => by
    have h := Bool.and_eq_true_iff.1 h
    rcases List.mem_cons.1 hs with rfl | hs
    · exact isLine_render v h.1
    · exact isLine_items vs h.2 s hs

theorem isLine_members : ∀ members : List (String × Value), isExact.exactMembers members = true →
    ∀ s ∈ render.renderMembers members, IsLine s
  | [], _, _, hs => nomatch hs
  | (k, v) :: ms, h, s, hs => by
    have h := Bool.and_eq_true_iff.1 h
    have hcolon : IsLine ":" := by decide
    rcases List.mem_cons.1 hs with rfl | hs
    · exact ((IsLine.quote k).append hcolon).append (isLine_render v h.1)
    · exact isLine_members ms h.2 s hs

end

end Json.Value

namespace Http

/-! ## Lines -/

/-- The lines of a text. A line ends with a line feed, with a carriage return or with both; what comes
behind the last end is not finished. -/
def lines (s : String) : List String := go [] s.toList
where
  go (line : List Char) : List Char → List String
    | [] => []
    | '\r' :: '\n' :: rest => String.ofList line.reverse :: go [] rest
    | c :: rest =>
      if c = '\n' ∨ c = '\r' then String.ofList line.reverse :: go [] rest else go (c :: line) rest

theorem lines_go_newline (line rest : List Char) :
    lines.go line ('\n' :: rest) = String.ofList line.reverse :: lines.go [] rest := rfl

/-- A character that ends no line belongs to it. -/
theorem lines_go_cons {c : Char} (h : 32 ≤ c.toNat) (line rest : List Char) :
    lines.go line (c :: rest) = lines.go (c :: line) rest := by
  have hfeed : c ≠ '\n' := by
    rintro rfl
    exact absurd h (by decide)
  have hreturn : c ≠ '\r' := by
    rintro rfl
    exact absurd h (by decide)
  rw [lines.go, if_neg (not_or.2 ⟨hfeed, hreturn⟩)]
  rintro - rfl -
  exact hreturn rfl

theorem lines_go_append {cs : List Char} (h : ∀ c ∈ cs, 32 ≤ c.toNat) (line rest : List Char) :
    lines.go line (cs ++ '\n' :: rest) = String.ofList (line.reverse ++ cs) :: lines.go [] rest := by
  induction cs generalizing line with
  | nil => rw [List.nil_append, List.append_nil, lines_go_newline]
  | cons c cs ih =>
    rw [List.cons_append, lines_go_cons (h c List.mem_cons_self),
      ih fun x hx => h x (List.mem_cons_of_mem _ hx)]
    simp only [List.reverse_cons, List.append_assoc, List.singleton_append]

/-- **A line without control characters** is cut off behind its end. -/
theorem lines_append {s : String} (h : IsLine s) (rest : String) :
    lines (s ++ "\n" ++ rest) = s :: lines rest := by
  have hlist : (s ++ "\n" ++ rest).toList = s.toList ++ '\n' :: rest.toList := by
    simp
  rw [lines, hlist, lines_go_append h, List.reverse_nil, List.nil_append, String.ofList_toList,
    lines]

/-! ## A client -/

/-- The field that a line gives: its name stands in front of the first colon, and its value behind it,
less one blank. -/
def fieldOf (line : String) : String × String :=
  (String.ofList (line.toList.takeWhile (· ≠ ':')), String.ofList (value (line.toList.dropWhile (· ≠ ':'))))
where
  value : List Char → List Char
    | ':' :: ' ' :: cs => cs
    | _ :: cs => cs
    | [] => []

/-- What a client of the stream has received, and what it has gathered of the next event. -/
structure Client where
  received : List SentEvent
  name : String
  data : List String

namespace Client

def start : Client := ⟨[], "", []⟩

/-- An empty line ends the event. One without data is none, and one without a name is a message. -/
def dispatch (c : Client) : Client :=
  if c.data = [] then { c with name := "" }
  else
    let event : SentEvent := ⟨if c.name = "" then "message" else c.name, "\n".intercalate c.data⟩
    ⟨c.received ++ [event], "", []⟩

/-- Takes one line. Lines that begin with a colon have no field, and fields of other names are not
looked at. -/
def take (c : Client) (line : String) : Client :=
  if line = "" then c.dispatch
  else if (fieldOf line).1 = "event" then { c with name := (fieldOf line).2 }
  else if (fieldOf line).1 = "data" then { c with data := c.data ++ [(fieldOf line).2] }
  else c

/-- The events in a stream. -/
def receive (stream : String) : List SentEvent := ((lines stream).foldl take start).received

end Client

/-- A field is told apart from its value by the colon. -/
theorem fieldOf_append {name : String} (h : ':' ∉ name.toList) (value : String) :
    fieldOf (name ++ ": " ++ value) = (name, value) := by
  have hlist : (name ++ ": " ++ value).toList = name.toList ++ ':' :: ' ' :: value.toList := by
    simp
  have hname : ∀ c ∈ name.toList, decide (c ≠ ':') = true := by
    intro c hc
    exact decide_eq_true fun he => h (he ▸ hc)
  rw [fieldOf, hlist, List.takeWhile_append_of_pos hname, List.dropWhile_append_of_pos hname,
    List.takeWhile_cons_of_neg (by decide), List.dropWhile_cons_of_neg (by decide),
    List.append_nil, String.ofList_toList, fieldOf.value, String.ofList_toList]

namespace SentEvent

/-- What goes over the wire as one event of one line. -/
structure IsWhole (s : SentEvent) : Prop where
  name : IsLine s.name
  named : s.name ≠ ""
  data : IsLine s.data

/-- **An event on the wire** is a line with its name, a line with its data and an empty line. -/
theorem lines_render {s : SentEvent} (h : s.IsWhole) (rest : String) :
    lines (s.render ++ rest) = ("event: " ++ s.name) :: ("data: " ++ s.data) :: "" :: lines rest := by
  have hname : IsLine ("event: " ++ s.name) := .append (by decide) h.name
  have hdata : IsLine ("data: " ++ s.data) := .append (by decide) h.data
  have hrender : s.render ++ rest =
      ("event: " ++ s.name) ++ "\n" ++ (("data: " ++ s.data) ++ "\n" ++ ("" ++ "\n" ++ rest)) := by
    rw [← String.toList_inj, render]
    simp
  rw [hrender, lines_append hname, lines_append hdata, lines_append (by decide)]

end SentEvent

namespace Client

/-- One event is received, whatever comes behind it. -/
theorem foldl_take_render {s : SentEvent} (h : s.IsWhole) (received : List SentEvent) (rest : String) :
    (lines (s.render ++ rest)).foldl take ⟨received, "", []⟩ =
      (lines rest).foldl take ⟨received ++ [s], "", []⟩ := by
  have hname : fieldOf ("event: " ++ s.name) = ("event", s.name) :=
    @fieldOf_append "event" (by decide) s.name
  have hdata : fieldOf ("data: " ++ s.data) = ("data", s.data) :=
    @fieldOf_append "data" (by decide) s.data
  have htake : take (take (take ⟨received, "", []⟩ ("event: " ++ s.name)) ("data: " ++ s.data)) "" =
      ⟨received ++ [s], "", []⟩ := by
    simp [take, dispatch, hname, hdata, h.named]
  rw [SentEvent.lines_render h, List.foldl_cons, List.foldl_cons, List.foldl_cons, htake]

/-- **What is received are the events that were sent**, in their order. -/
theorem receive_render {ss : List SentEvent} (h : ∀ s ∈ ss, s.IsWhole) :
    receive (String.join (ss.map SentEvent.render)) = ss := by
  suffices hgo : ∀ received, ((lines (String.join (ss.map SentEvent.render))).foldl take
      ⟨received, "", []⟩).received = received ++ ss from hgo []
  induction ss with
  | nil =>
    intro received
    rw [List.append_nil]
    rfl
  | cons s ss ih =>
    intro received
    rw [List.map_cons, String.join_cons, foldl_take_render (h s List.mem_cons_self),
      ih (fun x hx => h x (List.mem_cons_of_mem _ hx)), List.append_assoc, List.singleton_append]

end Client

/-! ## Queue events -/

/-- **Every kind of event is sent under the tag of its JSON.** -/
theorem SentEvent.nameOf_eq_tag (b : EventBody) : nameOf b = b.tag := by
  cases b <;> rfl

/-- An event is whole on the wire, whatever texts it has. -/
theorem SentEvent.isWhole_ofEvent (e : Event) : (ofEvent e).IsWhole where
  name := by
    have hname : ∀ b : EventBody, IsLine (nameOf b) := by
      intro b
      cases b <;> rw [nameOf] <;> decide
    exact hname e.body
  named := by
    have hname : ∀ b : EventBody, nameOf b ≠ "" := by
      intro b
      cases b <;> rw [nameOf] <;> decide
    exact hname e.body
  data := Value.isLine_render _ e.isExact_toJson

/-- **Events, outcomes and statuses survive the wire.** An event is read back from its JSON. On the wire
it has one line with its name, which is the tag in the JSON, and one line with the JSON; so a client of
the stream has the events that were sent. -/
theorem survives_wire :
    (∀ e : Event, e.emittedAt.WellFormed →
      Json.read Event.reader e.toJson.bytes = .ok e ∧
      lines (SentEvent.ofEvent e).render =
        ["event: " ++ (SentEvent.ofEvent e).name, "data: " ++ e.toJson.render, ""] ∧
      ∃ members, Json.Tree.parse e.toJson.bytes = ⟨.object members, false⟩ ∧
        ∀ t, (some "event", t) ∈ members ↔ t = .text (some (SentEvent.ofEvent e).name)) ∧
    (∀ es : List Event, (∀ e ∈ es, e.emittedAt.WellFormed) →
      (Client.receive (String.join (es.map fun e => (SentEvent.ofEvent e).render))).map
          (fun s => (s.name, Json.read Event.reader (Bytes.ofText s.data))) =
        es.map fun e => (e.body.tag, .ok e)) ∧
    (∀ o : Outcome, Json.read Outcome.reader o.toJson.bytes = .ok o) ∧
    ∀ s : LaneStatus, (∀ c ∈ s.current, c.startedAt.WellFormed) →
      Json.read LaneStatus.reader s.toJson.bytes = .ok s := by
  refine ⟨?_, ?_, Outcome.read_toJson, fun s h => LaneStatus.read_toJson h⟩
  · intro e h
    have hlines := SentEvent.lines_render (SentEvent.isWhole_ofEvent e) ""
    rw [String.append_empty] at hlines
    obtain ⟨members, hparse, htag⟩ := e.parse_tag
    refine ⟨Event.read_toJson h, hlines, members, hparse, fun t => ?_⟩
    rw [SentEvent.ofEvent, SentEvent.nameOf_eq_tag]
    exact htag t
  · intro es h
    have hwhole : ∀ s ∈ es.map SentEvent.ofEvent, s.IsWhole := by
      intro s hs
      obtain ⟨e, -, rfl⟩ := List.mem_map.1 hs
      exact SentEvent.isWhole_ofEvent e
    have hreceive := Client.receive_render hwhole
    rw [List.map_map] at hreceive
    refine (congrArg (List.map _) hreceive).trans ?_
    rw [List.map_map]
    refine List.map_congr_left fun e he => ?_
    exact Prod.ext (SentEvent.nameOf_eq_tag e.body) (Event.read_toJson (h e he))

/-- An event in a leap second with ends of lines, quotes and a control in its texts, and the status of a
lane whose command started in a year of five digits. -/
theorem survives_wire_escapes :
    let e : Event := ⟨.hasher, ⟨⟨2016, 12, 31⟩, 1439, 60, 123456789⟩,
      .retrying "HashFile:/a\nb" "HashFile" 4294967295 18446744073709551615 "no\r\n\ndata: \"x\"\x00"⟩
    let s : LaneStatus := ⟨.images, 18446744073709551615, true, false, .running,
      some ⟨"FetchImage:/é.png", "FetchImage", "😀\u2028", 0, ⟨⟨-10000, 2, 29⟩, 0, 0, 1000⟩⟩⟩
    (Client.receive ((SentEvent.ofEvent e).render ++ (SentEvent.ofEvent e).render)).map
        (fun s => (s.name, Json.read Event.reader (Bytes.ofText s.data))) =
      [("retrying", .ok e), ("retrying", .ok e)] ∧
    Json.read Event.reader e.toJson.bytes = .ok e ∧
    Json.read LaneStatus.reader s.toJson.bytes = .ok s := by
  intro e s
  have he : e.emittedAt.WellFormed := ⟨by decide, by decide, by decide, by decide, by decide⟩
  have hs : ∀ c ∈ s.current, c.startedAt.WellFormed := by
    rintro c ⟨⟩
    exact ⟨by decide, by decide, by decide, by decide, by decide⟩
  have hstream := survives_wire.2.1 [e, e] (by simpa using he)
  exact ⟨hstream, (survives_wire.1 e he).1, survives_wire.2.2.2 s hs⟩

end Http

end LaneQueue
