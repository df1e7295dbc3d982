import PageMarkup.Session.Shape

/-!
# What an editor says about itself

The capabilities of an editor are a large record, of which the server uses a single flag: whether
completions may have places to fill in. All the rest still has to be well-formed.
-/

namespace PageMarkup.Capabilities

open ShapeField

def flags (names : List String) : List ShapeField :=
  names.map (optional · .flag)

def registration : Shape :=
  .record (flags ["dynamicRegistration"])

def refresh : Shape :=
  .record (flags ["refreshSupport"])

def links : Shape :=
  .record (flags ["dynamicRegistration", "linkSupport"])

def properties : Shape :=
  .record [required "properties" (.list .text)]

def codes : Shape :=
  .record [required "valueSet" (.list .signed)]

def optionalCodes : Shape :=
  .record [optional "valueSet" (.list .signed)]

/-- Tags used to be announced by a flag. -/
def tagSupport : ShapeField :=
  omissible "tagSupport" (.either .flag codes)

def markupKinds : Shape :=
  .list (.oneOf ["plaintext", "markdown"])

/-! ## Workspace -/

def workspaceEdit : Shape :=
  .record [
    optional "documentChanges" .flag,
    optional "resourceOperations" (.list (.oneOf ["create", "rename", "delete"])),
    optional "failureHandling" (.oneOf ["abort", "transactional", "textOnlyTransactional", "undo"]),
    optional "normalizesLineEndings" .flag,
    optional "changeAnnotationSupport" (.record (flags ["groupsOnLabel"]))]

def workspaceSymbol : Shape :=
  .record [
    optional "dynamicRegistration" .flag,
    optional "symbolKind" optionalCodes,
    tagSupport,
    optional "resolveSupport" properties]

def fileOperations : Shape :=
  .record (flags ["dynamicRegistration", "didCreate", "willCreate", "didRename", "willRename",
    "didDelete", "willDelete"])

def workspace : Shape :=
  .record [
    optional "applyEdit" .flag,
    optional "workspaceEdit" workspaceEdit,
    optional "didChangeConfiguration" registration,
    optional "didChangeWatchedFiles"
      (.record (flags ["dynamicRegistration", "relativePatternSupport"])),
    optional "symbol" workspaceSymbol,
    optional "executeCommand" registration,
    optional "workspaceFolders" .flag,
    optional "configuration" .flag,
    optional "semanticTokens" refresh,
    optional "codeLens" refresh,
    optional "fileOperations" fileOperations,
    optional "inlineValue" refresh,
    optional "inlayHint" refresh,
    optional "diagnostic" refresh]

/-! ## Documents -/

def completionItem : Shape :=
  .record [
    optional "snippetSupport" .flag,
    optional "commitCharactersSupport" .flag,
    optional "documentationFormat" markupKinds,
    optional "deprecatedSupport" .flag,
    optional "preselectSupport" .flag,
    tagSupport,
    optional "insertReplaceSupport" .flag,
    optional "resolveSupport" properties,
    optional "insertTextModeSupport" codes,
    optional "labelDetailsSupport" .flag]

def completion : Shape :=
  .record [
    optional "dynamicRegistration" .flag,
    optional "completionItem" completionItem,
    optional "completionItemKind" optionalCodes,
    optional "contextSupport" .flag,
    optional "insertTextMode" .signed,
    optional "completionList" (.record [optional "itemDefaults" (.list .text)])]

def hover : Shape :=
  .record [optional "dynamicRegistration" .flag, optional "contentFormat" markupKinds]

def signatureHelp : Shape :=
  .record [
    optional "dynamicRegistration" .flag,
    optional "signatureInformation" (.record [
      optional "documentationFormat" markupKinds,
      optional "parameterInformation" (.record (flags ["labelOffsetSupport"])),
      optional "activeParameterSupport" .flag]),
    optional "contextSupport" .flag]

def documentSymbol : Shape :=
  .record [
    optional "dynamicRegistration" .flag,
    optional "symbolKind" optionalCodes,
    optional "hierarchicalDocumentSymbolSupport" .flag,
    tagSupport]

def codeAction : Shape :=
  .record [
    optional "dynamicRegistration" .flag,
    optional "codeActionLiteralSupport"
      (.record [required "codeActionKind" (.record [required "valueSet" (.list .text)])]),
    optional "isPreferredSupport" .flag,
    optional "disabledSupport" .flag,
    optional "dataSupport" .flag,
    optional "resolveSupport" properties,
    optional "honorsChangeAnnotations" .flag]

def rename : Shape :=
  .record [
    optional "dynamicRegistration" .flag,
    optional "prepareSupport" .flag,
    optional "prepareSupportDefaultBehavior" .signed,
    optional "honorsChangeAnnotations" .flag]

def publishDiagnostics : Shape :=
  .record [
    optional "relatedInformation" .flag,
    tagSupport,
    optional "versionSupport" .flag,
    optional "codeDescriptionSupport" .flag,
    optional "dataSupport" .flag]

def foldingRange : Shape :=
  .record [
    optional "dynamicRegistration" .flag,
    optional "rangeLimit" .unsigned,
    optional "lineFoldingOnly" .flag,
    optional "foldingRangeKind"
      (.record [optional "valueSet" (.list (.oneOf ["comment", "imports", "region"]))]),
    optional "foldingRange" (.record (flags ["collapsedText"]))]

def semanticTokens : Shape :=
  .record [
    optional "dynamicRegistration" .flag,
    required "requests" (.record [
      optional "range" .flag,
      optional "full" (.either .flag (.record (flags ["delta"])))]),
    required "tokenTypes" (.list .text),
    required "tokenModifiers" (.list .text),
    required "formats" (.list (.oneOf ["relative"])),
    optional "overlappingTokenSupport" .flag,
    optional "multilineTokenSupport" .flag,
    optional "serverCancelSupport" .flag,
    optional "augmentsSyntaxTokens" .flag]

def textDocument : Shape :=
  .record [
    optional "synchronization"
      (.record (flags ["dynamicRegistration", "willSave", "willSaveWaitUntil", "didSave"])),
    optional "completion" completion,
    optional "hover" hover,
    optional "signatureHelp" signatureHelp,
    optional "references" registration,
    optional "documentHighlight" registration,
    optional "documentSymbol" documentSymbol,
    optional "formatting" registration,
    optional "rangeFormatting" registration,
    optional "onTypeFormatting" registration,
    optional "declaration" links,
    optional "definition" links,
    optional "typeDefinition" links,
    optional "implementation" links,
    optional "codeAction" codeAction,
    optional "codeLens" registration,
    optional "documentLink" (.record (flags ["dynamicRegistration", "tooltipSupport"])),
    optional "colorProvider" registration,
    optional "rename" rename,
    optional "publishDiagnostics" publishDiagnostics,
    optional "foldingRange" foldingRange,
    optional "selectionRange" registration,
    optional "linkedEditingRange" registration,
    optional "callHierarchy" registration,
    optional "semanticTokens" semanticTokens,
    optional "moniker" registration,
    optional "typeHierarchy" registration,
    optional "inlineValue" registration,
    optional "inlayHint"
      (.record [optional "dynamicRegistration" .flag, optional "resolveSupport" properties]),
    optional "diagnostic" (.record (flags ["dynamicRegistration", "relatedDocumentSupport"]))]

def notebookDocument : Shape :=
  .record [required "synchronization"
    (.record (flags ["dynamicRegistration", "executionSummaryReport"]))]

/-! ## Everything else -/

def window : Shape :=
  .record [
    optional "workDoneProgress" .flag,
    optional "showMessage" (.record [
      optional "messageActionItem" (.record (flags ["additionalPropertiesSupport"]))]),
    optional "showDocument" (.record [required "support" .flag])]

def general : Shape :=
  .record [
    optional "regularExpressions" (.record [required "engine" .text, optional "version" .text]),
    optional "markdown" (.record [
      required "parser" .text,
      optional "version" .text,
      optional "allowedTags" (.list .text)]),
    optional "staleRequestSupport" (.record [
      required "cancel" .flag,
      required "retryOnContentModified" (.list .text)]),
    optional "positionEncodings" (.list .text)]

def shape : Shape :=
  .record [
    optional "workspace" workspace,
    optional "textDocument" textDocument,
    optional "notebookDocument" notebookDocument,
    optional "window" window,
    optional "general" general,
    optional "experimental" .anything]

def snippetSupport (capabilities : Json) : Bool :=
  match shape.find? ["textDocument", "completion", "completionItem", "snippetSupport"] capabilities with
  | some (.bool support) => support
  | _ => false

end PageMarkup.Capabilities
