import PageMarkup.Proofs.Sessions

/-!
# What an editor has said decides what it is told

A session can be read off the messages before it. For every URI, the last notification that opened or
closed it tells whether it is open; if it is, the last one that wrote to it has its version and its
text, and the document is the parse of that text. What the server sends for a message depends on the
messages before it in this way only, and every request is answered once.
-/

namespace PageMarkup

-- ---------------------------------------------------------------------------
-- Histories
-- ---------------------------------------------------------------------------

inductive Event where
  | asked (id : RequestId) (method : String) (request : Request)
  | told (notification : Notification)
  | answered

def Message.event? : Message → Option Event
  | .request id method params => (Params.request? method params).map (.asked id method)
  | .notification method params => (Params.notification? method params).map .told
  | .response => some .answered

namespace Event

def id? : Event → Option RequestId
  | .asked id _ _ => some id
  | .told _ | .answered => none

def uri? : Event → Option String
  | .told (.opened uri _ _) | .told (.changed uri _ _) | .told (.closed uri) => some uri
  | _ => none

/-- Whether the document is open from now on, if the event opens or closes it. -/
def opens? (uri : String) : Event → Option Bool
  | .told (.opened name _ _) => if name = uri then some true else none
  | .told (.closed name) => if name = uri then some false else none
  | _ => none

/-- The version and the text that the event gives to the document. -/
def writes? (uri : String) : Event → Option (Int × String)
  | .told (.opened name version content) => if name = uri then some (version, content) else none
  | .told (.changed name version contents) =>
    if name = uri then contents.getLast?.map (version, ·) else none
  | _ => none

def settings? : Event → Option Settings
  | .told (.configured settings) => Settings.decode? settings
  | _ => none

end Event

namespace History

def last? (f : Event → Option α) (history : List Event) : Option α :=
  (history.filterMap f).getLast?

/-- The version and the text of a document that is open: what wrote to it last either opened it or
changed it since. -/
def current? (uri : String) (history : List Event) : Option (Int × String) :=
  if last? (Event.opens? uri) history = some true then last? (Event.writes? uri) history else none

def settings (client : Client) (history : List Event) : Settings :=
  (last? Event.settings? history).getD ((client.options.bind Settings.decode?).getD {})

theorem last?_concat (f : Event → Option α) (history : List Event) (e : Event) :
    last? f (history ++ [e]) = (f e).or (last? f history) := by
  rw [last?, List.filterMap_append]
  cases h : f e with
  | none => simp [h, last?]
  | some a => simp [h]

theorem last?_writes_isSome (h : last? (Event.opens? uri) history = some true) :
    (last? (Event.writes? uri) history).isSome := by
  obtain ⟨e, he, hopens⟩ := List.mem_filterMap.mp (List.mem_of_getLast? h)
  have hwrites : ∃ entry, e.writes? uri = some entry := by
    rw [Event.opens?.eq_def] at hopens
    split at hopens
    · obtain ⟨hname, -⟩ := Option.ite_none_right_eq_some.mp hopens
      exact ⟨_, if_pos hname⟩
    · simp at hopens
    · cases hopens
  obtain ⟨entry, hentry⟩ := hwrites
  have hmem : entry ∈ history.filterMap (Event.writes? uri) := List.mem_filterMap.mpr ⟨e, he, hentry⟩
  rw [last?, List.getLast?_eq_some_getLast (List.ne_nil_of_mem hmem)]
  rfl

theorem current?_isSome :
    (current? uri history).isSome ↔ last? (Event.opens? uri) history = some true := by
  rw [current?]
  split
  · next h => exact ⟨fun _ => h, fun _ => last?_writes_isSome h⟩
  · next h => simp [h]

section
variable (history : List Event)

theorem current?_opened (uri : String) (version : Int) (content : String) :
    current? uri (history ++ [.told (.opened uri version content)]) = some (version, content) := by
  simp [current?, last?_concat, Event.opens?, Event.writes?]

theorem current?_closed (uri : String) : current? uri (history ++ [.told (.closed uri)]) = none := by
  simp [current?, last?_concat, Event.opens?]

theorem current?_changed (uri : String) (version : Int) (contents : List String) :
    current? uri (history ++ [.told (.changed uri version contents)]) =
      (current? uri history).map fun entry => (contents.getLast?.map (version, ·)).getD entry := by
  simp only [current?, last?_concat, Event.opens?, Event.writes?, Option.none_or, if_true]
  by_cases h : last? (Event.opens? uri) history = some true
  · obtain ⟨entry, hentry⟩ := Option.isSome_iff_exists.mp (last?_writes_isSome h)
    rw [if_pos h, if_pos h, hentry]
    cases contents.getLast? <;> rfl
  · rw [if_neg h, if_neg h, Option.map_none]

/-- Messages about one document do not matter for another one. -/
theorem current?_of_uri?_ne {uri : String} {e : Event} (h : e.uri? ≠ some uri) :
    current? uri (history ++ [e]) = current? uri history := by
  have hnone : e.opens? uri = none ∧ e.writes? uri = none := by
    cases e with
    | told n =>
      cases n with
      | opened name | changed name | closed name =>
        have hname : name ≠ uri := fun hname => h (congrArg some hname)
        simp [Event.opens?, Event.writes?, hname]
      | _ => exact ⟨rfl, rfl⟩
    | _ => exact ⟨rfl, rfl⟩
  simp only [current?, last?_concat, hnone, Option.none_or]

theorem current?_of_uri?_none {e : Event} (h : e.uri? = none) (uri : String) :
    current? uri (history ++ [e]) = current? uri history :=
  current?_of_uri?_ne history (by simp [h])

theorem settings_concat (client : Client) (e : Event) :
    settings client (history ++ [e]) = e.settings?.getD (settings client history) := by
  rw [settings, last?_concat]
  cases e.settings? <;> rfl

end

end History

open History

-- ---------------------------------------------------------------------------
-- What is sent
-- ---------------------------------------------------------------------------

/-- The message has the defects of a text, whichever files there are when it is sent. -/
def Publishes (schema : Schema) (uri : String) (text : Text) (o : Outgoing) : Prop :=
  ∃ suspicions, o = .diagnostics uri text suspicions ∧
    ∀ has, suspicions.filter (·.stands has) =
      (Document.parse text).diagnostics schema ((Uri.path? uri).map .ofString) has

def Completes (schema : Schema) (options : CompletionOptions) (id : RequestId) (text : Text)
    (offset : Nat) (o : Outgoing) : Prop :=
  ∃ items, (Document.parse text).completions schema options offset = .ok items ∧
    o = .completions id text items

def Hovers (schema : Schema) (docs : Option String) (id : RequestId) (text : Text) (offset : Nat)
    (o : Outgoing) : Prop :=
  ∃ topic, (Document.parse text).topic? schema offset = .ok topic ∧
    o = topic.elim (.done id) fun topic => .hover id text topic docs

/-- Answers a question about a position, given the answer for an offset of the current text. -/
inductive Answers (history : List Event) (id : RequestId) (uri : String) (position : Position)
    (inside : Text → Nat → Outgoing → Prop) : Outgoing → Prop where
  | closed (h : current? uri history = none) : Answers history id uri position inside (.done id)
  | outside {version : Int} {content : String} {error : PositionError}
      (h : current? uri history = some (version, content))
      (hoffset : Text.offsetAt content.toList position = .error error) :
      Answers history id uri position inside (.failure id (.position error))
  | inside {version : Int} {content : String} {offset : Nat} {o : Outgoing}
      (h : current? uri history = some (version, content))
      (hoffset : Text.offsetAt content.toList position = .ok offset)
      (hanswer : inside content.toList offset o) : Answers history id uri position inside o

inductive Replies (schema : Schema) (client : Client) (history : List Event) :
    Event → List Outgoing → Prop where
  | opened {uri : String} {version : Int} {content : String} {o : Outgoing}
      (h : Publishes schema uri content.toList o) :
      Replies schema client history (.told (.opened uri version content)) [o]
  | changed {uri : String} {version : Int} {contents : List String} {content : String} {o : Outgoing}
      (hopen : (current? uri history).isSome) (hlast : contents.getLast? = some content)
      (h : Publishes schema uri content.toList o) :
      Replies schema client history (.told (.changed uri version contents)) [o]
  | unchanged {uri : String} {version : Int} {contents : List String}
      (h : current? uri history = none ∨ contents = []) :
      Replies schema client history (.told (.changed uri version contents)) []
  | closed (uri : String) :
      Replies schema client history (.told (.closed uri)) [.diagnostics uri [] []]
  | configured (json : Json) : Replies schema client history (.told (.configured json)) []
  | ignored : Replies schema client history (.told .other) []
  | answered : Replies schema client history .answered []
  | unknownMethod (id : RequestId) (method : String) :
      Replies schema client history (.asked id method .other) [.failure id (.unknownMethod method)]
  | completion {id : RequestId} {method uri : String} {position : Position} {o : Outgoing}
      (h : Answers history id uri position
        (Completes schema ((settings client history).options client.snippetSupport) id) o) :
      Replies schema client history (.asked id method (.completion uri position)) [o]
  | hover {id : RequestId} {method uri : String} {position : Position} {o : Outgoing}
      (h : Answers history id uri position (Hovers schema (settings client history).docs id) o) :
      Replies schema client history (.asked id method (.hover uri position)) [o]

inductive Transcript (schema : Schema) (client : Client) :
    List Event → List Event → List Outgoing → Prop where
  | nil (history : List Event) : Transcript schema client history [] []
  | cons {history events : List Event} {e : Event} {first later : List Outgoing}
      (h : Replies schema client history e first)
      (hlater : Transcript schema client (history ++ [e]) events later) :
      Transcript schema client history (e :: events) (first ++ later)

namespace Outgoing

def id? : Outgoing → Option RequestId
  | .capabilities id | .done id | .failure id _ | .completions id _ _ | .hover id _ _ _ => some id
  | .diagnostics _ _ _ => none

end Outgoing

theorem Publishes.id? (h : Publishes schema uri text o) : o.id? = none := by
  obtain ⟨_, rfl, -⟩ := h
  rfl

theorem Answers.id? {id : RequestId} {inside : Text → Nat → Outgoing → Prop}
    (hinside : ∀ text offset o, inside text offset o → o.id? = some id)
    (h : Answers history id uri position inside o) : o.id? = some id := by
  cases h with
  | closed | outside => rfl
  | inside _ _ hanswer => exact hinside _ _ _ hanswer

theorem Replies.ids (h : Replies schema client history e out) :
    out.filterMap Outgoing.id? = e.id?.toList := by
  cases h with
  | opened h | changed _ _ h => simp [h.id?, Event.id?]
  | completion h =>
    have hid := h.id? fun _ _ _ ⟨_, _, ho⟩ => ho ▸ rfl
    simp [hid, Event.id?]
  | hover h =>
    have hid := h.id? fun _ _ _ ⟨topic, _, ho⟩ => ho ▸ by cases topic <;> rfl
    simp [hid, Event.id?]
  | _ => rfl

/-- Every request is answered once, and in order. -/
theorem Transcript.ids (h : Transcript schema client history events out) :
    out.filterMap Outgoing.id? = events.filterMap Event.id? := by
  induction h with
  | nil => rfl
  | @cons _ events e _ _ h _ ih =>
    rw [List.filterMap_append, h.ids, ih, List.filterMap_cons]
    cases e.id? <;> rfl

-- ---------------------------------------------------------------------------
-- One message
-- ---------------------------------------------------------------------------

namespace Session

/-- The session after a history. -/
structure Follows (s : Session) (schema : Schema) (client : Client) (history : List Event) : Prop where
  schema : s.schema = schema
  snippetSupport : s.snippetSupport = client.snippetSupport
  settings : s.settings = History.settings client history
  documents : ∀ uri, s.workspace.get? uri = (current? uri history).map fun (version, content) =>
    { path := Uri.path? uri, version, document := .parse content.toList }

theorem start_follows (schema : Schema) (client : Client) :
    (start schema client).Follows schema client [] :=
  ⟨rfl, rfl, rfl, fun _ => rfl⟩

theorem publishes_put (s : Session) (uri : String) (version : Int) (content : String) :
    ∃ o, publish { s with workspace := s.workspace.put uri version content } uri = [o] ∧
      Publishes s.schema uri content.toList o := by
  refine ⟨_, ?_, _, rfl, fun has => rfl⟩
  simp only [publish, Workspace.get?_put, if_true]
  rfl

section
variable {s : Session} {schema : Schema} {client : Client} {history : List Event}
  (h : s.Follows schema client history)
include h

theorem Follows.keep {e : Event} (hset : e.settings? = none)
    (hdocuments : ∀ uri, current? uri (history ++ [e]) = current? uri history) :
    s.Follows schema client (history ++ [e]) where
  schema := h.schema
  snippetSupport := h.snippetSupport
  settings := by rw [settings_concat, hset]; exact h.settings
  documents uri := by rw [hdocuments]; exact h.documents uri

theorem Follows.put {e : Event} {uri content : String} {version : Int} (hset : e.settings? = none)
    (huri : e.uri? = some uri) (hcurrent : current? uri (history ++ [e]) = some (version, content)) :
    Follows { s with workspace := s.workspace.put uri version content } schema client
      (history ++ [e]) where
  schema := h.schema
  snippetSupport := h.snippetSupport
  settings := by rw [settings_concat, hset]; exact h.settings
  documents key := by
    rw [Workspace.get?_put]
    by_cases hkey : key = uri
    · rw [if_pos hkey, hkey, hcurrent]
      rfl
    · have hne : e.uri? ≠ some key := by simpa [huri] using fun heq => hkey heq.symm
      rw [if_neg hkey, current?_of_uri?_ne history hne]
      exact h.documents key

theorem Follows.close (uri : String) :
    Follows { s with workspace := s.workspace.close uri } schema client
      (history ++ [.told (.closed uri)]) where
  schema := h.schema
  snippetSupport := h.snippetSupport
  settings := by rw [settings_concat]; exact h.settings
  documents key := by
    rw [Workspace.get?_close]
    by_cases hkey : key = uri
    · rw [if_pos hkey, hkey, current?_closed]
      rfl
    · have hne : Event.uri? (.told (.closed uri)) ≠ some key :=
        fun heq => hkey (Option.some.inj heq).symm
      rw [if_neg hkey, current?_of_uri?_ne history hne]
      exact h.documents key

theorem Follows.configure (json : Json) :
    Follows { s with settings := (Settings.decode? json).getD s.settings } schema client
      (history ++ [.told (.configured json)]) where
  schema := h.schema
  snippetSupport := h.snippetSupport
  settings := by rw [settings_concat, ← h.settings]; rfl
  documents uri := by
    rw [current?_of_uri?_none history (e := .told (.configured json)) rfl]
    exact h.documents uri

theorem Follows.notify_unchanged {uri : String} {contents : List String}
    (hnone : current? uri history = none ∨ contents = []) (version : Int) :
    s.notify (.changed uri version contents) = (s, []) := by
  have hchange : contents.getLast?.bind (s.workspace.change? uri version) = none := by
    rcases hnone with hclosed | rfl
    · have hget : s.workspace.get? uri = none := by rw [h.documents, hclosed]; rfl
      simp [Workspace.change?, hget]
    · rfl
  rw [notify, hchange]

theorem Follows.notify_changed {uri : String} {contents : List String} {content : String}
    (hopen : (current? uri history).isSome) (hlast : contents.getLast? = some content) (version : Int) :
    s.notify (.changed uri version contents) =
      ({ s with workspace := s.workspace.put uri version content },
        publish { s with workspace := s.workspace.put uri version content } uri) := by
  obtain ⟨entry, hentry⟩ := Option.isSome_iff_exists.mp hopen
  have hchange : contents.getLast?.bind (s.workspace.change? uri version) =
      some (s.workspace.put uri version content) := by
    rw [hlast, Option.bind_some, Workspace.change?, h.documents, hentry]
    rfl
  rw [notify, hchange]

theorem Follows.notify (n : Notification) :
    (s.notify n).1.Follows schema client (history ++ [.told n]) ∧
      Replies schema client history (.told n) (s.notify n).2 := by
  cases n with
  | opened uri version content =>
    obtain ⟨o, hpublish, ho⟩ := s.publishes_put uri version content
    refine ⟨h.put rfl rfl (current?_opened history uri version content), ?_⟩
    rw [Session.notify, hpublish]
    exact .opened (h.schema ▸ ho)
  | changed uri version contents =>
    have hcurrent := current?_changed history uri version contents
    by_cases hnone : current? uri history = none ∨ contents = []
    · rw [h.notify_unchanged hnone]
      refine ⟨h.keep rfl fun key => ?_, .unchanged hnone⟩
      by_cases hkey : key = uri
      · rw [hkey, hcurrent]
        rcases hnone with hclosed | rfl
        · rw [hclosed, Option.map_none]
        · simp
      · exact current?_of_uri?_ne history fun heq => hkey (Option.some.inj heq).symm
    · obtain ⟨hopen, hne⟩ := not_or.mp hnone
      obtain ⟨entry, hentry⟩ := Option.ne_none_iff_exists'.mp hopen
      have hisSome : (current? uri history).isSome := by rw [hentry]; rfl
      have hlast := List.getLast?_eq_some_getLast hne
      obtain ⟨o, hpublish, ho⟩ := s.publishes_put uri version (contents.getLast hne)
      rw [h.notify_changed hisSome hlast, hpublish]
      refine ⟨h.put rfl rfl ?_, .changed hisSome hlast (h.schema ▸ ho)⟩
      rw [hcurrent, hentry, hlast]
      rfl
  | closed uri => exact ⟨h.close uri, .closed uri⟩
  | configured json => exact ⟨h.configure json, .configured json⟩
  | other => exact ⟨h.keep rfl (current?_of_uri?_none history rfl), .ignored⟩

theorem Follows.ask (id : RequestId) (uri : String) (position : Position)
    {answer : OpenDocument → Nat → Except OffsetError Outgoing} {inside : Text → Nat → Outgoing → Prop}
    (hanswer : ∀ (version : Int) (content : String) (offset : Nat), offset ≤ Text.size content.toList →
      ∃ o, answer ⟨Uri.path? uri, version, .parse content.toList⟩ offset = .ok o ∧
        inside content.toList offset o) :
    ∃ o, s.ask id uri position answer = .ok o ∧ Answers history id uri position inside o := by
  rw [Session.ask, h.documents]
  cases hcurrent : current? uri history with
  | none => exact ⟨_, rfl, .closed hcurrent⟩
  | some entry =>
    obtain ⟨version, content⟩ := entry
    have htext : OpenDocument.text ⟨Uri.path? uri, version, .parse content.toList⟩ = content.toList := rfl
    simp only [Option.map_some, htext]
    cases hoffset : Text.offsetAt content.toList position with
    | error e => exact ⟨_, rfl, .outside hcurrent hoffset⟩
    | ok offset =>
      obtain ⟨o, ho, hinside⟩ := hanswer version content offset (Text.offsetAt_isBoundary hoffset).le_size
      exact ⟨o, ho, .inside hcurrent hoffset hinside⟩

theorem Follows.complete (id : RequestId) (uri : String) (position : Position) :
    ∃ o, s.complete id uri position = .ok o ∧ Answers history id uri position
      (Completes schema ((History.settings client history).options client.snippetSupport) id) o := by
  rw [complete_eq_ask, h.schema, h.settings, h.snippetSupport]
  refine h.ask id uri position fun version content offset hsize => ?_
  obtain ⟨items, hitems⟩ := completions_ok hsize schema
    ((History.settings client history).options client.snippetSupport)
  exact ⟨.completions id content.toList items, by rw [hitems]; rfl, items, hitems, rfl⟩

theorem Follows.hover (id : RequestId) (uri : String) (position : Position) :
    ∃ o, s.hover id uri position = .ok o ∧
      Answers history id uri position (Hovers schema (History.settings client history).docs id) o := by
  rw [hover_eq_ask, h.schema, h.settings]
  refine h.ask id uri position fun version content offset hsize => ?_
  obtain ⟨topic, htopic⟩ := topic?_ok hsize schema
  exact ⟨_, by rw [htopic]; rfl, topic, htopic, rfl⟩

theorem Follows.keep_asked (id : RequestId) (method : String) (r : Request) :
    s.Follows schema client (history ++ [.asked id method r]) :=
  h.keep rfl (current?_of_uri?_none history rfl)

theorem Follows.request {r : Request} (hr : r ≠ .shutdown) (id : RequestId) (method : String) :
    ∃ o, Server.request s id method r = (.serving s, [o]) ∧
      Replies schema client history (.asked id method r) [o] := by
  cases r with
  | shutdown => exact absurd rfl hr
  | other => exact ⟨_, rfl, .unknownMethod id method⟩
  | completion uri position =>
    obtain ⟨o, hcomplete, hanswers⟩ := h.complete id uri position
    exact ⟨o, by rw [Server.request, hcomplete, Server.request.reply], .completion hanswers⟩
  | hover uri position =>
    obtain ⟨o, hhover, hanswers⟩ := h.hover id uri position
    exact ⟨o, by rw [Server.request, hhover, Server.request.reply], .hover hanswers⟩

theorem Follows.serve {message : Message} {e : Event} (hread : message.event? = some e)
    (hserving : ∀ id method, e ≠ .asked id method .shutdown) :
    ∃ s' out, Server.serve s message = (.serving s', out) ∧
      s'.Follows schema client (history ++ [e]) ∧ Replies schema client history e out := by
  cases message with
  | response =>
    cases hread
    exact ⟨s, [], rfl, h.keep rfl (current?_of_uri?_none history rfl), .answered⟩
  | notification method params =>
    obtain ⟨n, hn, rfl⟩ := Option.map_eq_some_iff.mp hread
    obtain ⟨hfollows, hreplies⟩ := h.notify n
    exact ⟨_, _, by rw [Server.serve, hn], hfollows, hreplies⟩
  | request id method params =>
    obtain ⟨r, hr, rfl⟩ := Option.map_eq_some_iff.mp hread
    have hne : r ≠ .shutdown := fun heq => hserving id method (heq ▸ rfl)
    obtain ⟨o, hrequest, hreplies⟩ := h.request hne id method
    exact ⟨s, [o], by rw [Server.serve, hr]; exact hrequest, h.keep_asked id method r, hreplies⟩

/-- A message about one document leaves all others alone. -/
theorem Follows.serve_frame {s' : Session} {message : Message} {e : Event} {uri : String}
    (hread : message.event? = some e) (hserve : Server.serve s message = (.serving s', out))
    (huri : e.uri? ≠ some uri) : s'.workspace.get? uri = s.workspace.get? uri := by
  by_cases hshutdown : ∃ id method, e = .asked id method .shutdown
  · obtain ⟨id, method, rfl⟩ := hshutdown
    cases message with
    | response => cases hread
    | notification => simp [Message.event?] at hread
    | request =>
      obtain ⟨r, hr, heq⟩ := Option.map_eq_some_iff.mp hread
      cases heq
      rw [Server.serve, hr] at hserve
      cases hserve
  · obtain ⟨s₁, _, hserve₁, hfollows, -⟩ := h.serve hread fun id method heq =>
      hshutdown ⟨id, method, heq⟩
    rw [hserve] at hserve₁
    cases hserve₁
    rw [h.documents, hfollows.documents, current?_of_uri?_ne history huri]

theorem Follows.run {messages : List Message} {events : List Event}
    (hread : messages.map Message.event? = events.map some)
    (hserving : ∀ id method, .asked id method .shutdown ∉ events) :
    ∃ s' out, Server.run schema (.serving s) messages = (.serving s', out) ∧
      s'.Follows schema client (history ++ events) ∧ Transcript schema client history events out := by
  induction messages generalizing s history events with
  | nil =>
    obtain rfl : events = [] := List.map_eq_nil_iff.mp hread.symm
    exact ⟨s, [], rfl, by rwa [List.append_nil], .nil history⟩
  | cons message messages ih =>
    obtain ⟨e, events, rfl, he, hrest⟩ := List.map_eq_cons_iff.mp hread.symm
    obtain ⟨s₁, first, hserve, hfollows, hreplies⟩ := h.serve he.symm fun id method heq =>
      hserving id method (heq ▸ List.mem_cons_self)
    obtain ⟨s₂, later, hrun, hfollows, htranscript⟩ := ih hfollows hrest.symm fun id method hmem =>
      hserving id method (List.mem_cons_of_mem e hmem)
    refine ⟨s₂, first ++ later, ?_, ?_, .cons hreplies htranscript⟩
    · rw [Server.run, Server.step, hserve]
      simp only [hrun]
    · rwa [List.append_assoc] at hfollows

end

end Session

-- ---------------------------------------------------------------------------
-- Whole sessions
-- ---------------------------------------------------------------------------

/-- From the introduction of an editor to its goodbye, for messages that can be read: which documents
are open, with which version and text, is what the editor has said about each of them, and its
requests are answered once each, in order, from that. A message about one document leaves all others
alone, and a change of a document that is not open, or to nothing, has no effect at all. -/
theorem session_follows_history (schema : Schema) {client : Client} {params : Json}
    {messages : List Message} {events : List Event} (id : RequestId) (json : Json)
    (hclient : Params.client? params = some client)
    (hread : messages.map Message.event? = events.map some)
    (hserving : ∀ id method, .asked id method .shutdown ∉ events) :
    ∃ s outgoing,
      Server.run schema .waiting
        (.request id "initialize" params :: .notification "initialized" json :: messages) =
          (.serving s, .capabilities id :: outgoing) ∧
      s.Follows schema client events ∧
      (∀ uri, (s.workspace.get? uri).isSome ↔ last? (Event.opens? uri) events = some true) ∧
      Transcript schema client [] events outgoing ∧
      outgoing.filterMap Outgoing.id? = events.filterMap Event.id? ∧
      (∀ message e s' out uri, message.event? = some e →
        Server.step schema (.serving s) message = (.serving s', out) → e.uri? ≠ some uri →
        s'.workspace.get? uri = s.workspace.get? uri) ∧
      ∀ method params uri version contents,
        Params.notification? method params = some (.changed uri version contents) →
        (s.workspace.get? uri = none ∨ contents = []) →
        Server.step schema (.serving s) (.notification method params) = (.serving s, []) := by
  obtain ⟨s, outgoing, hrun, hfollows, htranscript⟩ :=
    (Session.start_follows schema client).run hread hserving
  refine ⟨s, outgoing, ?_, hfollows, ?_, htranscript, htranscript.ids, ?_, ?_⟩
  · simp only [Server.run, Server.step, hclient, hrun, List.nil_append, List.cons_append]
  · intro uri
    rw [hfollows.documents, Option.isSome_map]
    exact current?_isSome
  · intro message e s' out uri he hstep huri
    exact hfollows.serve_frame he hstep huri
  · intro method params uri version contents hchanged hnone
    rw [hfollows.documents, Option.map_eq_none_iff] at hnone
    rw [Server.step, Server.serve, hchanged]
    simp only [hfollows.notify_unchanged hnone version]

def scattered : List Message :=
  let change (uri : String) (version : Int) (contents : List String) : Message :=
    .notification "textDocument/didChange" (.object [
      ("textDocument", .object [("uri", .string uri), ("version", .integer version)]),
      ("contentChanges", .array (contents.map fun content => .object [("text", .string content)]))])
  let opening (uri : String) (version : Int) (content : String) : Message :=
    .notification "textDocument/didOpen" (.object [
      ("textDocument", .object [("uri", .string uri), ("languageId", .string "wxml"),
        ("version", .integer version), ("text", .string content)])])
  let closing (uri : String) : Message :=
    .notification "textDocument/didClose" (.object [("textDocument", .object [("uri", .string uri)])])
  let hovering (id : Int) (uri : String) : Message :=
    .request (.number id) "textDocument/hover" (.object [
      ("textDocument", .object [("uri", .string uri)]),
      ("position", .object [("line", .integer 0), ("character", .integer 1)])])
  [change "file:///a" 1 ["x"], opening "file:///a" 2 "<a>", opening "b:" 1 "", hovering 7 "b:",
    closing "b:", change "file:///a" 3 ["y", "<é>"], change "file:///a" 4 [], hovering 8 "b:"]

def scatteredEvents : List Event := [
  .told (.changed "file:///a" 1 ["x"]),
  .told (.opened "file:///a" 2 "<a>"),
  .told (.opened "b:" 1 ""),
  .asked (.number 7) "textDocument/hover" (.hover "b:" ⟨0, 1⟩),
  .told (.closed "b:"),
  .told (.changed "file:///a" 3 ["y", "<é>"]),
  .told (.changed "file:///a" 4 []),
  .asked (.number 8) "textDocument/hover" (.hover "b:" ⟨0, 1⟩)]

theorem session_follows_scattered :
    ∃ s outgoing,
      Server.run ⟨[]⟩ .waiting
        (.request (.number 1) "initialize" (.object [("capabilities", .object [])]) ::
          .notification "initialized" .null :: scattered) =
          (.serving s, .capabilities (.number 1) :: outgoing) ∧
      s.workspace.get? "file:///a" = some ⟨some "/a", 3, .parse ['<', 'é', '>']⟩ ∧
      s.workspace.get? "b:" = none ∧
      Transcript ⟨[]⟩ ⟨none, false⟩ [] scatteredEvents outgoing ∧
      outgoing.filterMap Outgoing.id? = [.number 7, .number 8] := by
  have hclient : Params.client? (.object [("capabilities", .object [])]) = some ⟨none, false⟩ := rfl
  have hread : scattered.map Message.event? = scatteredEvents.map some := rfl
  have hserving : ∀ id method, .asked id method .shutdown ∉ scatteredEvents := by
    simp [scatteredEvents]
  obtain ⟨s, outgoing, hrun, hfollows, -, htranscript, hids, -⟩ :=
    session_follows_history ⟨[]⟩ (.number 1) .null hclient hread hserving
  have ha : current? "file:///a" scatteredEvents = some (3, "<é>") := by decide +kernel
  have hb : current? "b:" scatteredEvents = none := by decide +kernel
  have hpath : Uri.path? "file:///a" = some "/a" := by decide +kernel
  refine ⟨s, outgoing, hrun, ?_, ?_, htranscript, hids⟩
  · rw [hfollows.documents, ha, hpath]
    rfl
  · rw [hfollows.documents, hb]
    rfl

end PageMarkup
