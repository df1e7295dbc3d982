import PageMarkup.Completion.Basic
import PageMarkup.Json.Record

/-!
# Settings

An editor sends settings as an object, or as the section of an object that bears the language's
name. Flags that are not set follow from what the editor can do.
-/

namespace PageMarkup

structure Settings where
  snippets : Option Bool := none
  events : Option Bool := none
  /-- The documentation directory. -/
  docs : Option String := none
  deriving DecidableEq, Repr

namespace Settings

def decodeFlags (settings : Settings) (flags : Json) : Option Settings :=
  match flags.record? ["useSnippet", "completeEvent"] with
  | some [snippets, events] => do
    return { settings with
      snippets := ← Json.optional? Json.bool? snippets
      events := ← Json.optional? Json.bool? events }
  | _ => none

def decodeFields (fields : Json) : Option Settings :=
  match fields.record? ["complete", "docsDir"] with
  | some [flags, docs] => do
    let settings : Settings := { docs := ← Json.optional? Json.string? docs }
    match flags with
    | none => return settings
    | some flags => settings.decodeFlags flags
  | _ => none

def decode? (value : Json) : Option Settings :=
  match (value.get? "wxml").getD value with
  | .null => some {}
  | fields => decodeFields fields

def options (s : Settings) (snippetSupport : Bool) : CompletionOptions where
  snippets := s.snippets.getD snippetSupport
  events := s.events.getD true

end Settings

end PageMarkup
