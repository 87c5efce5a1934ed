import PageComposer.Kind
import PageComposer.Path.Basic
import PageComposer.Glob.Fault

namespace PageComposer

/-!
# Failures

A failure is a cause with the data that its report needs.  The wording, the
diagnostic code and the help are each written once, here.
-/

/-- Why a file could not be read or written. -/
inductive StorageFault
  /-- A site that lists its files does not have this one. -/
  | unlisted (path : Path)
  | notFound
  | alreadyExists
  | notDirectory
  | isDirectory
  | nameTooLong
  | tooManyLinks
  /-- A path holds the character zero. -/
  | zeroInPath
  /-- The bytes of the file are no text. -/
  | notText
deriving DecidableEq

namespace StorageFault

/-- The wording of a storage fault. -/
def message : StorageFault -> Text
  | unlisted path => path.text
  | notFound => "No such file or directory (os error 2)".toList
  | alreadyExists => "File exists (os error 17)".toList
  | notDirectory => "Not a directory (os error 20)".toList
  | isDirectory => "Is a directory (os error 21)".toList
  | nameTooLong => "File name too long (os error 36)".toList
  | tooManyLinks => "Too many levels of symbolic links (os error 40)".toList
  | zeroInPath => "file name contained an unexpected NUL byte".toList
  | notText => "stream did not contain valid UTF-8".toList

end StorageFault

/-- Why an operation has no result. -/
inductive Failure
  /-- A file could not be read or written. -/
  | storage (fault : StorageFault)
  /-- A template without the extension of a template. -/
  | notMarkup (path : Path)
  /-- A tag with nothing for a name. -/
  | emptyName (kind : Kind) (document : Path)
  /-- A tag that is never closed; `line` is what is left of its line. -/
  | unterminated (line : Text) (document : Path)
  /-- Named and positional arguments in one tag. -/
  | mixedArguments (tag : Text)
  /-- A layout argument that is neither quoted nor of a known kind. -/
  | missingTypePrefix (value : Text)
  | missingMainSlot (wrapper : Path)
  | overlappingMainSlot (wrapper : Path)
  | wrapCycle (wrapper : Path)
  /-- Two tags, the one that starts first coming first, share bytes. -/
  | overlapping (first second : Text) (document : Path)
  /-- A linked stylesheet or script that is not there. -/
  | missingResource (kind : Kind) (template : Path) (resource : Text)
  | unknownKind (name : Text)
  /-- A name that leads to no file. -/
  | unresolved (kind : Kind) (name reason : Text)
  /-- A begin marker without its end marker. -/
  | unmatchedMarker (marker : Text)
  | symlinkCycle (path : Path)
  /-- A configuration that cannot be read. -/
  | malformedConfig
  /-- An exclude pattern that is no glob; `glob` is the pattern as it was read. -/
  | badExclude (pattern glob : Text) (fault : Glob.Fault)
  /-- Exclude patterns that cannot be searched for. -/
  | unsearchableExcludes (fault : Glob.SearchFault)
deriving DecidableEq

namespace Failure

/-- Whether a referenced file could not be found or read.  Such a failure
becomes a visible block in the page instead of ending a composition. -/
def isResolution : Failure -> Bool
  | unresolved _ _ _ | storage _ => true
  | _ => false

/-- What a missing resource is called. -/
def resourceNoun (kind : Kind) : Text :=
  if kind = .linkCss then "style".toList else "script".toList

/-- The report of a failure.  A configuration that cannot be read is reported
by its code alone. -/
def message? : Failure -> Option Text
  | storage fault => some fault.message
  | notMarkup path =>
      some ("should be an *.html file: `".toList ++ path.text ++ ['`'])
  | emptyName kind document =>
      some ("illegal empty name in `".toList ++ kind.name ++ "` placeholder in ".toList ++
        document.text)
  | unterminated line document =>
      some ("placeholder `".toList ++ line ++ "` in ".toList ++ document.text ++
        " is never closed".toList)
  | mixedArguments tag =>
      some ("All or none of the droppoints should be assigned by name : ".toList ++ tag)
  | missingTypePrefix value =>
      some ("Missing type prefix (eg file:) in ".toList ++ value)
  | missingMainSlot wrapper =>
      some ("Could not find content:main inside ".toList ++ wrapper.text ++
        " which is being invoked as wrapper".toList)
  | overlappingMainSlot wrapper =>
      some ("Overlapping content:main droppoint in ".toList ++ wrapper.text)
  | wrapCycle wrapper =>
      some ("wrapper `".toList ++ wrapper.text ++ "` wraps itself".toList)
  | overlapping first second document =>
      some ("placeholders `".toList ++ first ++ "` and `".toList ++ second ++
        "` overlap in ".toList ++ document.text)
  | missingResource kind template resource =>
      some ("There is no default ".toList ++ resourceNoun kind ++ " to include for ".toList ++
        template.text ++ ": ".toList ++ resource)
  | unknownKind name =>
      some ("unknown placeholder type: `".toList ++ name ++ ['`'])
  | unresolved kind name reason =>
      some ("could not resolve `".toList ++ kind.name ++ ':' :: name ++ "`: ".toList ++ reason)
  | unmatchedMarker marker =>
      some ("Cannot find matching end tag for ".toList ++ marker)
  | symlinkCycle path =>
      some ("symlink cycle detected at `".toList ++ path.text ++ ['`'])
  | malformedConfig => none
  | badExclude pattern glob fault =>
      some ("failed to parse config file: invalid exclude pattern `".toList ++ pattern ++
        "`: error parsing glob '".toList ++ glob ++ "': ".toList ++ fault.message)
  | unsearchableExcludes fault =>
      some ("failed to parse config file: failed to build exclude rules: ".toList ++
        fault.message)

/-- The diagnostic code of a failure. -/
def code : Failure -> Text
  | storage _ => "protostar::io_error".toList
  | notMarkup _ => "protostar::invalid_input_kind".toList
  | emptyName _ _ => "protostar::empty_name".toList
  | unterminated _ _ => "protostar::unterminated_placeholder".toList
  | mixedArguments _ => "protostar::mixed_arguments".toList
  | missingTypePrefix _ => "protostar::missing_type_prefix".toList
  | missingMainSlot _ => "protostar::missing_main_slot".toList
  | overlappingMainSlot _ => "protostar::overlapping_main_slot".toList
  | wrapCycle _ => "protostar::wrap_cycle".toList
  | overlapping _ _ _ => "protostar::overlapping_placeholders".toList
  | missingResource _ _ _ => "protostar::missing_resource".toList
  | unknownKind _ => "protostar::unknown_placeholder_type".toList
  | unresolved _ _ _ => "protostar::unresolved".toList
  | unmatchedMarker _ => "protostar::unmatched_marker".toList
  | symlinkCycle _ => "protostar::symlink_cycle".toList
  | malformedConfig => "protostar::config_parse".toList
  | badExclude _ _ _ => "protostar::config_parse".toList
  | unsearchableExcludes _ => "protostar::config_parse".toList

/-- Advice on a failure, where there is any. -/
def help? : Failure -> Option Text
  | storage _ => none
  | notMarkup _ =>
      some "only markup templates with an `.html` extension can be composed".toList
  | emptyName _ _ => some "placeholders need a name, e.g. `<!-- file:/header -->`".toList
  | unterminated _ _ => some "close the placeholder with ` -->`".toList
  | mixedArguments _ =>
      some "use either `name=value` for every argument or for none of them".toList
  | missingTypePrefix _ =>
      some ("prefix the value with a placeholder type (`file:/part`) " ++
        "or quote it as a literal").toList
  | missingMainSlot _ => some "add exactly one `<!-- content:main -->` to the wrapper".toList
  | overlappingMainSlot _ =>
      some "a wrapper may only declare a single `<!-- content:main -->`".toList
  | wrapCycle _ => none
  | overlapping _ _ _ => some "placeholder tags must not be nested inside each other".toList
  | missingResource _ _ _ => none
  | unknownKind _ =>
      some "available types: file, content, layout, wrap, linkCss, linkScript".toList
  | unresolved _ _ _ => none
  | unmatchedMarker _ =>
      some ("every `<!-- begin_… -->` marker needs its " ++
        "`<!-- end_… -->` counterpart").toList
  | symlinkCycle _ =>
      some "a symbolic link points back to one of its parent directories".toList
  | malformedConfig => some "check that protostar.toml is valid TOML".toList
  | badExclude _ _ _ => some "check that protostar.toml is valid TOML".toList
  | unsearchableExcludes _ => some "check that protostar.toml is valid TOML".toList

end Failure
end PageComposer
