import PageComposer.Site

namespace PageComposer

/-!
# Marked links

A quoted attribute value that starts with `ps:` is a marked link.  A relative
one becomes the address it has from the file that it stands in, and every
other one loses its mark.

Relative links are given their addresses in two passes, first those that climb
and then those that stay, and each pass works from the end of the text
backwards, so that a value may contain the opening of a later one.
-/

/-- The opening quote and the mark of a marked link. -/
def linkMark : Text := ['"', 'p', 's', ':']

/-- How the value of a link to a parent directory starts. -/
def climbingStart : Text := ['.', '.', '/']

/-- How the value of a link into the same directory starts. -/
def stayingStart : Text := ['.', '/']

/-- The addresses that keep their leading slash. -/
def keptLinkStart : Text := ['/', 'p', 's', '/']

/-- What a relative link of a document is replaced by.  Its leading slash is
dropped, except below `/ps/`. -/
def linkAddress (site : Site) (document : Path) (relative : Text) : Text :=
  let address := site.address (document.folder.join ⟨relative⟩).normalize
  if Text.startsWith keptLinkStart address then address
  else (Text.dropStart? ['/'] address).getD address

/-- Give its address to the link whose relative part is `start` followed by what
the text begins with, up to the next quote.  Without a quote nothing changes. -/
def addressLink (site : Site) (document : Path) (start text : Text) : Text :=
  match Text.cutAtChar? '"' (start ++ text) with
  | some (relative, after) => '"' :: linkAddress site document relative ++ '"' :: after
  | none => linkMark ++ start ++ text

/-- Give their addresses to the links that open with the mark and `start`.  The
links behind a link are done before it. -/
def addressLinks (site : Site) (document : Path) (start text : Text) : Text :=
  let pieces := Text.cutAll (linkMark ++ start) text
  match pieces.1 with
  | [] => text
  | first :: others =>
      first ++ addressAfter others pieces.2
where
  /-- Give their addresses to the link in front of the pieces and to those
  between them. -/
  addressAfter : List Text -> Text -> Text
    | [], last => addressLink site document start last
    | piece :: others, last =>
        addressLink site document start (piece ++ addressAfter others last)

/-- Give the relative links of a document their addresses, then take the mark
from all others. -/
def resolveLinks (site : Site) (document : Path) (text : Text) : Text :=
  let climbed := addressLinks site document climbingStart text
  let stayed := addressLinks site document stayingStart climbed
  Text.replaceAll linkMark ['"'] stayed

end PageComposer
