import PageMarkup.Document.Draft
import PageMarkup.Uri

/-! # Documents that are open in an editor -/

namespace PageMarkup

structure OpenDocument where
  path : Option String
  /-- As the editor counts. -/
  version : Int
  document : Document

namespace OpenDocument

def ofText (uri : String) (version : Int) (content : String) : OpenDocument where
  path := Uri.path? uri
  version
  document := .parse content.toList

def text (d : OpenDocument) : Text :=
  d.document.text

end OpenDocument

/-- Open documents by URI, each URI once. -/
structure Workspace where
  documents : List (String × OpenDocument) := []

namespace Workspace

def get? (w : Workspace) (uri : String) : Option OpenDocument :=
  w.documents.lookup uri

def close (w : Workspace) (uri : String) : Workspace :=
  ⟨w.documents.filter (·.1 ≠ uri)⟩

def put (w : Workspace) (uri : String) (version : Int) (content : String) : Workspace :=
  ⟨(uri, .ofText uri version content) :: (w.close uri).documents⟩

def change? (w : Workspace) (uri : String) (version : Int) (content : String) : Option Workspace :=
  (w.get? uri).map fun _ => w.put uri version content

def size (w : Workspace) : Nat :=
  w.documents.length

end Workspace

end PageMarkup
