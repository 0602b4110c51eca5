import BinaryImage.Error
import BinaryImage.Text.Blank

/-!
Library search paths. In a file they are one text, separated by colons, in which the directory of
the file itself is written `$ORIGIN` or `${ORIGIN}`. Here an entry below that directory is a
plain relative path, and the directory itself is `.`.
-/

namespace BinaryImage

namespace SearchPath

def origin : List Char := "$ORIGIN".toList

def bracedOrigin : List Char := "$\x7bORIGIN\x7d".toList

structure Entry where
  path : String
  deriving DecidableEq

namespace Entry

def ofPath? (path : String) : Option Entry :=
  match Text.trim path.toList with
  | [] => none
  | trimmed => some ⟨String.ofList trimmed⟩

def isRelative (entry : Entry) : Bool := entry.path.toList.head? != some '/'

def belowOrigin (spelling : List Char) : List Char → Except Error Entry
  | [] => .ok ⟨"."⟩
  | '/' :: rest =>
    match rest.dropWhile (· == '/') with
    | [] => .ok ⟨"."⟩
    | path => .ok ⟨String.ofList path⟩
  | found :: _ => .error (.invalid (.afterOrigin (String.ofList spelling) found))

def parse (item : List Char) : Except Error Entry :=
  let trimmed := Text.trim item
  if bracedOrigin.isPrefixOf trimmed then
    belowOrigin bracedOrigin (trimmed.drop bracedOrigin.length)
  else if origin.isPrefixOf trimmed then
    belowOrigin origin (trimmed.drop origin.length)
  else
    .ok ⟨String.ofList trimmed⟩

def stored (entry : Entry) : List Char :=
  let path := entry.path.toList
  if !entry.isRelative then path
  else if path = ['.'] then origin
  else if ['.', '/'].isPrefixOf path then origin ++ '/' :: path.drop 2
  else origin ++ '/' :: path

end Entry

def pieces : List Char → List (List Char)
  | [] => [[]]
  | c :: rest =>
    if c = ':' then [] :: pieces rest
    else
      match pieces rest with
      | [] => [[c]]
      | first :: others => (c :: first) :: others

end SearchPath

structure SearchPath where
  entries : List SearchPath.Entry
  deriving DecidableEq

namespace SearchPath

def empty : SearchPath := ⟨[]⟩

def ofPaths (paths : List String) : SearchPath := ⟨paths.filterMap Entry.ofPath?⟩

def parse (text : String) : Except Error SearchPath := do
  let items := (pieces text.toList).filter fun item => !(Text.trim item).isEmpty
  return ⟨← items.mapM Entry.parse⟩

def render (searchPath : SearchPath) : String :=
  String.ofList (List.intercalate [':'] (searchPath.entries.map Entry.stored))

end SearchPath

end BinaryImage
