import RestPlugin.Text.Naming

/-!
# Plugin namespaces

A plugin namespace is a lower-case slug of letters, digits and single dashes.  It is the first part
of the REST namespace and the seed of the PHP namespace of the generated classes.
-/

namespace RestPlugin.Text

/-- Words that are not available as a namespace. -/
def reservedNamespaces : List String :=
  ["wp", "wordpress", "admin", "core", "system", "api", "rest", "ajax", "js", "css", "html",
   "http", "https", "www"]

/-- The PHP namespace of a slug without segments, and of an adjacent `wp`, `kernel` pair. -/
def defaultPhpNamespace : String := "WPKernel"

/-- One character of a namespace, added to the slug held in reverse: letters and digits are kept,
separators become a dash unless one was just written, and everything else is dropped. -/
def slugStep (out : List Char) (c : Char) : List Char :=
  if isLower c || isDigit c then c :: out
  else if c == '-' || c == '_' || c == ' ' || c == '\t' || c == '\n' then
    if out.head? == some '-' then out else '-' :: out
  else out

/-- The dash-separated slug of the lower case of a text, without dashes at its ends. -/
def dashSlug (l : List Char) : List Char :=
  trimBy (· == '-') (((trimBy isBlank l).flatMap fullLower).foldl slugStep []).reverse

/-- The namespace slug of a text.  There is none when the slug is reserved, does not start with a
letter, or has fewer than 3 or more than 50 characters. -/
def sanitizeNamespace (s : String) : Option String :=
  let slug := dashSlug s.toList
  if reservedNamespaces.contains (String.ofList slug) then none
  else if !(slug.head?.any isLower) then none
  else if slug.length < 3 || 50 < slug.length then none
  else some (String.ofList slug)

/-- The PHP spelling of the segments of a slug: `wp` followed by `kernel` is one segment, `wp`
alone is spelled in capitals, and any other segment is capitalised. -/
def phpSegments : List String → List String
  | [] => []
  | [segment] => [phpSegment segment]
  | segment :: next :: rest =>
      if eqIgnoreCase segment "wp" && eqIgnoreCase next "kernel" then
        defaultPhpNamespace :: phpSegments rest
      else phpSegment segment :: phpSegments (next :: rest)
where
  /-- The spelling of a segment on its own. -/
  phpSegment (segment : String) : String :=
    if eqIgnoreCase segment "wp" then "WP" else String.ofList (capitalise segment.toList)

/-- The PHP namespace of a slug. -/
def phpNamespace (s : String) : String :=
  match phpSegments ((splitOnChar '-' s).filter (· != "")) with
  | [] => defaultPhpNamespace
  | segments => join "\\" segments

end RestPlugin.Text
