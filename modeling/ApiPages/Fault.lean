import ApiPages.Text.Quoted

namespace ApiPages

/-- Why an operation stops without a result. -/
inductive Fault where
  | missingKey (key : String)
  /-- A table is asked for something that is no text and no key of it, as it stands inside a
  list. -/
  | notAKey (given : String)
  /-- A value that is no record, or a list of the wrong things, is read as one. -/
  | wrongShape
  | notARecord
  /-- A value that is not text is to be formatted as documentation. -/
  | notText
  /-- A tag has neither a tagname nor a pattern to be called by. -/
  | namelessTag
  | untaggedRecord (pattern : String)
  | notATag
  | brokenEntryPoint (name text : String)
  | patternTaken (pattern : String)
  | tagnameTaken (tagname : String)
  | declarationKeyTaken (key : String)
  | unknownTags (names : List String)
  | unknownScope (token : String)
  /-- The text is the value that was given for the kind, as it stands inside a list. -/
  | unknownMemberKind (given : String)
  | unknownCategory (word : String)
  | unknownFile
  | duplicateMember (className id : String)
  | unknownMemberCategory
  | malformedYaml (problem : String)
  | malformedSettings (problem : String)
  | settingsNotAMapping
  | tooManyDigits
  | tooManyDigitsRead (count : Nat)
  /-- A number of a settings file is not written in its base. -/
  | notANumber (base : Nat) (written : String)
  | notADecimal (written : String)
  | noSuchDate (reason : String)
  | noSuchCharacter
  | codeTooLarge
  | namelessExtension
  | unknownExtension (name : String)
  | cannotOpen (kind reason : String)
  deriving DecidableEq, Repr

def Fault.message : Fault → String
  | .missingKey key => Text.quoted key
  | .notAKey given => given
  | .wrongShape => "the value has the wrong shape"
  | .notARecord => "the value is not a record"
  | .notText => "the value is not text"
  | .namelessTag => "the tag has no name"
  | .untaggedRecord pattern => s!"@{pattern} produced a record without a tagname"
  | .notATag => "Tag entry point must be a Tag subclass, instance, or factory"
  | .brokenEntryPoint name text => s!"Failed to load tag entry point '{name}': {text}"
  | .patternTaken pattern => s!"Pattern @{pattern} is claimed by more than one tag"
  | .tagnameTaken tagname => s!"Tagname '{tagname}' is claimed by more than one tag"
  | .declarationKeyTaken key => s!"Declaration key '{key}' is claimed by more than one tag"
  | .unknownTags names => "Unknown tags requested: " ++ String.intercalate ", " names
  | .unknownScope token => s!"Unknown merge scope: {token}"
  | .unknownMemberKind given => s!"{given} is not a valid MemberKind"
  | .unknownCategory word => s!"Unknown warning category: {word}"
  | .unknownFile => "the file of the override is not known"
  | .duplicateMember className id => s!"Class {className} already has a member '{id}'"
  | .unknownMemberCategory => "Member type category must be method_like or property_like"
  | .malformedYaml problem => problem
  | .malformedSettings problem => s!"Failed to parse .tagdoc.yml: {problem}"
  | .settingsNotAMapping => ".tagdoc.yml must contain a mapping at the root"
  | .tooManyDigits =>
    "Exceeds the limit (4300 digits) for integer string conversion; " ++
      "use sys.set_int_max_str_digits() to increase the limit"
  | .tooManyDigitsRead count =>
    s!"Exceeds the limit (4300 digits) for integer string conversion: value has {count} digits; " ++
      "use sys.set_int_max_str_digits() to increase the limit"
  | .notANumber base written =>
    s!"invalid literal for int() with base {base}: {Text.quoted written}"
  | .notADecimal written => s!"could not convert string to float: {Text.quoted written}"
  | .noSuchDate reason => reason
  | .noSuchCharacter => "chr() arg not in range(0x110000)"
  | .codeTooLarge => "the code is too large"
  | .namelessExtension => "Empty module name"
  | .unknownExtension name => s!"there is no extension called {name}"
  | .cannotOpen _ reason => reason

end ApiPages
