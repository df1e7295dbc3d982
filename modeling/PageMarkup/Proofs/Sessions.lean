import PageMarkup.Proofs.Answers
import PageMarkup.Session.Server

/-!
# Sessions do not break

Whatever messages an editor sends, every open document is the parse of its text, and a position is
only ever turned into an offset that this text has. So no question that reaches a document is about
a place that the document does not have.
-/

namespace PageMarkup

-- ---------------------------------------------------------------------------
-- The workspace as a map
-- ---------------------------------------------------------------------------

namespace Workspace

theorem lookup_cons_eq_ite (key uri : String) (d : OpenDocument)
    (documents : List (String × OpenDocument)) :
    ((uri, d) :: documents).lookup key = if key = uri then some d else documents.lookup key := by
  by_cases hkey : key = uri
  · simp [hkey]
  · rw [List.lookup_cons, beq_eq_false_iff_ne.mpr hkey, if_neg hkey]

theorem get?_close (w : Workspace) (uri key : String) :
    (w.close uri).get? key = if key = uri then none else w.get? key := by
  obtain ⟨documents⟩ := w
  simp only [close, get?]
  induction documents with
  | nil => simp
  | cons entry rest ih =>
    obtain ⟨name, d⟩ := entry
    by_cases hname : name = uri
    · rw [List.filter_cons_of_neg (by simpa using hname), ih, lookup_cons_eq_ite, hname]
      split <;> rfl
    · rw [List.filter_cons_of_pos (by simpa using hname), lookup_cons_eq_ite, ih, lookup_cons_eq_ite]
      by_cases hkey : key = name
      · rw [if_pos hkey, if_pos hkey, if_neg (hkey ▸ hname)]
      · rw [if_neg hkey, if_neg hkey]

theorem get?_put (w : Workspace) (uri : String) (version : Int) (content key : String) :
    (w.put uri version content).get? key =
      if key = uri then some (.ofText uri version content) else w.get? key := by
  have hclose := w.get?_close uri key
  rw [get?] at hclose
  rw [put, get?, lookup_cons_eq_ite, hclose]
  split <;> rfl

theorem change?_eq_some {w w' : Workspace} (h : w.change? uri version content = some w') :
    (w.get? uri).isSome ∧ w' = w.put uri version content := by
  obtain ⟨d, hd, rfl⟩ := Option.map_eq_some_iff.mp h
  exact ⟨by rw [hd]; rfl, rfl⟩

end Workspace

-- ---------------------------------------------------------------------------
-- One session
-- ---------------------------------------------------------------------------

namespace Session

/-- Every open document is the parse of its text. -/
def Sound (s : Session) : Prop :=
  ∀ uri d, s.workspace.get? uri = some d → d.document = .parse d.text

theorem start_sound (schema : Schema) (client : Client) : (start schema client).Sound :=
  fun _ _ h => nomatch h

theorem Sound.put (h : Sound s) (uri : String) (version : Int) (content : String) :
    Sound { s with workspace := s.workspace.put uri version content } := by
  intro key d hd
  rw [Workspace.get?_put] at hd
  split at hd
  · cases hd
    rfl
  · exact h key d hd

theorem notify_sound (h : Sound s) (n : Notification) : (s.notify n).1.Sound := by
  cases n with
  | opened uri version content => exact h.put uri version content
  | changed uri version contents =>
    rw [notify]
    split
    · exact h
    · rename_i workspace hchange
      obtain ⟨content, -, hchange⟩ := Option.bind_eq_some_iff.mp hchange
      rw [(Workspace.change?_eq_some hchange).2]
      exact h.put uri version content
  | closed uri =>
    intro key d hd
    simp only [notify, Workspace.get?_close] at hd
    split at hd
    · cases hd
    · exact h key d hd
  | configured settings => exact h
  | other => exact h

def ask (s : Session) (id : RequestId) (uri : String) (position : Position)
    (answer : OpenDocument → Nat → Except OffsetError Outgoing) : Except OffsetError Outgoing :=
  match s.workspace.get? uri with
  | none => .ok (.done id)
  | some d =>
    match d.text.offsetAt position with
    | .error e => .ok (.failure id (.position e))
    | .ok offset => answer d offset

section
variable (s : Session) (id : RequestId) (uri : String) (position : Position)

theorem complete_eq_ask : s.complete id uri position = s.ask id uri position fun d offset =>
    (d.document.completions s.schema (s.settings.options s.snippetSupport) offset).map
      (.completions id d.text) := by
  rw [complete, ask]
  cases s.workspace.get? uri with
  | none => rfl
  | some d =>
    cases hoffset : d.text.offsetAt position with
    | error e => simp only [hoffset]; rfl
    | ok offset =>
      simp only [hoffset]
      cases d.document.completions s.schema (s.settings.options s.snippetSupport) offset <;> rfl

theorem hover_eq_ask : s.hover id uri position = s.ask id uri position fun d offset =>
    (d.document.topic? s.schema offset).map fun topic =>
      topic.elim (.done id) fun topic => .hover id d.text topic s.settings.docs := by
  rw [hover, ask]
  cases s.workspace.get? uri with
  | none => rfl
  | some d =>
    cases hoffset : d.text.offsetAt position with
    | error e => simp only [hoffset]; rfl
    | ok offset =>
      simp only [hoffset]
      cases d.document.topic? s.schema offset with
      | error e => rfl
      | ok topic => cases topic <;> rfl

end

/-- A question that is answered at all offsets of a text can be asked at any position. -/
theorem Sound.ask_ok (h : Sound s) (id : RequestId) (uri : String) (position : Position)
    {answer : OpenDocument → Nat → Except OffsetError Outgoing}
    (hanswer : ∀ d offset, d.document = .parse d.text → offset ≤ d.text.size →
      ∃ outgoing, answer d offset = .ok outgoing) :
    ∃ outgoing, s.ask id uri position answer = .ok outgoing := by
  rw [ask]
  cases hopen : s.workspace.get? uri with
  | none => exact ⟨_, rfl⟩
  | some d =>
    cases hoffset : d.text.offsetAt position with
    | error e => simp only [hoffset]; exact ⟨_, rfl⟩
    | ok offset =>
      simp only [hoffset]
      exact hanswer d offset (h uri d hopen) (Text.offsetAt_isBoundary hoffset).le_size

theorem Sound.complete_ok (h : Sound s) (id : RequestId) (uri : String) (position : Position) :
    ∃ outgoing, s.complete id uri position = .ok outgoing := by
  rw [complete_eq_ask]
  refine h.ask_ok id uri position fun d offset hparse hsize => ?_
  obtain ⟨items, hitems⟩ := completions_ok hsize s.schema (s.settings.options s.snippetSupport)
  exact ⟨.completions id d.text items, by rw [hparse, hitems]; rfl⟩

theorem Sound.hover_ok (h : Sound s) (id : RequestId) (uri : String) (position : Position) :
    ∃ outgoing, s.hover id uri position = .ok outgoing := by
  rw [hover_eq_ask]
  refine h.ask_ok id uri position fun d offset hparse hsize => ?_
  obtain ⟨topic, htopic⟩ := topic?_ok hsize s.schema
  exact ⟨_, by rw [hparse, htopic]; rfl⟩

end Session

-- ---------------------------------------------------------------------------
-- The server
-- ---------------------------------------------------------------------------

namespace Server

/-- The session that is served is sound; a session that has ended did not break. -/
def Sound : Server → Prop
  | .serving s => s.Sound
  | .ended (.broken _) => False
  | .waiting | .greeted _ | .stopping | .ended _ => True

theorem waiting_sound : Sound .waiting :=
  trivial

theorem request_sound (h : s.Sound) (id : RequestId) (method : String) (r : Request) :
    (request s id method r).1.Sound := by
  cases r with
  | shutdown => trivial
  | other => exact h
  | completion uri position =>
    obtain ⟨outgoing, hcomplete⟩ := h.complete_ok id uri position
    rw [request, hcomplete]
    exact h
  | hover uri position =>
    obtain ⟨outgoing, hhover⟩ := h.hover_ok id uri position
    rw [request, hhover]
    exact h

theorem serve_sound (h : s.Sound) (message : Message) : (serve s message).1.Sound := by
  cases message with
  | response => exact h
  | request id method params =>
    rw [serve]
    split
    · trivial
    · exact request_sound h id method _
  | notification method params =>
    rw [serve]
    split
    · trivial
    · exact Session.notify_sound h _

theorem step_sound (h : Sound server) (schema : Schema) (message : Message) :
    (step schema server message).1.Sound := by
  cases server with
  | serving s => exact serve_sound h message
  | waiting | stopping =>
    rw [step.eq_def]
    split <;> trivial
  | ended ending => exact h
  | greeted params =>
    rw [step.eq_def]
    split
    all_goals try trivial
    · split
      · exact Session.start_sound schema _
      · trivial

theorem run_sound (h : Sound server) (schema : Schema) (messages : List Message) :
    (run schema server messages).1.Sound := by
  induction messages generalizing server with
  | nil => exact h
  | cons message rest ih => exact ih (step_sound h schema message)

theorem Sound.disconnect_ne_broken (h : Sound server) (error : OffsetError) :
    server.disconnect ≠ .broken error := by
  cases server with
  | ended ending =>
    rintro rfl
    exact h
  | _ => exact nofun

theorem converse_go_ne_broken (h : Sound server) (schema : Schema) (payloads : List Json)
    (error : OffsetError) : (converse.go schema server payloads).1 ≠ .broken error := by
  induction payloads generalizing server with
  | nil => exact h.disconnect_ne_broken error
  | cons payload rest ih =>
    rw [converse.go]
    split
    · exact nofun
    · rename_i message _
      have hnext := step_sound h schema message
      simp only
      split
      · exact hnext.disconnect_ne_broken error
      · exact ih hnext

end Server

-- ---------------------------------------------------------------------------
-- No question is about a place that is not there
-- ---------------------------------------------------------------------------

/-- Completion and hovering give an answer for every cursor up to the end of a text, also for one
inside a character. A position only ever becomes an offset of the text, and an open document is the
parse of its text, so that no messages, whether they can be read or not, break the server. -/
theorem server_unbroken (schema : Schema) :
    (∀ (text : Text) (options : CompletionOptions) (cursor : Nat), cursor ≤ text.size →
      (∃ items, (Document.parse text).completions schema options cursor = .ok items) ∧
      (∃ topic, (Document.parse text).topic? schema cursor = .ok topic) ∧
      ∀ e above ts, (Document.parse text).chainBefore cursor = .ok (e :: above) →
        scanFrom text e.start .content = .ok ts →
        Completion.Grounded ⟨Document.parse text, schema, options, cursor, e, above⟩
          (CompletionSite.ofTokens text cursor [] [] ts)) ∧
    (∀ (text : Text) (position : Position) (offset : Nat), text.offsetAt position = .ok offset →
      text.IsBoundary offset) ∧
    (∀ messages, (Server.run schema .waiting messages).1.Sound) ∧
    ∀ payloads error, (Server.converse schema payloads).1 ≠ .broken error := by
  refine ⟨?_, ?_, ?_, ?_⟩
  · intro text options cursor hsize
    refine ⟨completions_ok hsize schema options, topic?_ok hsize schema, ?_⟩
    intro e above ts hchain hscan
    exact completions_grounded hsize schema options hchain hscan
  · intro text position offset h
    exact Text.offsetAt_isBoundary h
  · intro messages
    exact Server.run_sound Server.waiting_sound schema messages
  · intro payloads error
    exact Server.converse_go_ne_broken Server.waiting_sound schema payloads error

def accentedName : Text :=
  ['<', 'a', ' ', 'é', '=']

theorem server_unbroken_accentedName :
    4 ≤ accentedName.size ∧ ¬ accentedName.IsBoundary 4 ∧
      (∃ items, (Document.parse accentedName).completions ⟨[]⟩ {} 4 = .ok items) ∧
      (∃ topic, (Document.parse accentedName).topic? ⟨[]⟩ 4 = .ok topic) ∧
      CompletionSite.OnBoundaries accentedName (.attributeName ['a'] 3 5) ∧
      ∀ error, (Server.converse ⟨[]⟩ [.null]).1 ≠ .broken error := by
  have hsize : 4 ≤ accentedName.size := by decide
  obtain ⟨hanswers, -, -, hconverse⟩ := server_unbroken ⟨[]⟩
  obtain ⟨hitems, htopic, hgrounded⟩ := hanswers accentedName {} 4 hsize
  refine ⟨hsize, by decide, hitems, htopic, ?_, hconverse [.null]⟩
  have hfirst : (Element.chainBeforeAll 4 [] (Document.parse accentedName).roots).head?.map (·.start) =
      some 0 := by decide +kernel
  have hsite : CompletionSite.ofTokens accentedName 4 [] [] (tokens accentedName) =
      .attributeName ['a'] 3 5 := by decide +kernel
  cases hchain : Element.chainBeforeAll 4 [] (Document.parse accentedName).roots with
  | nil => rw [hchain] at hfirst; cases hfirst
  | cons e above =>
    rw [hchain] at hfirst
    have hstart : e.start = 0 := Option.some.inj hfirst
    rw [← hsite]
    refine (hgrounded e above (tokens accentedName) ?_ ?_).site
    · rw [parse_chainBefore hsize, hchain]
    · rw [hstart]
      rfl

end PageMarkup
