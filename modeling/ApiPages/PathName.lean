import ApiPages.Text.Split

namespace ApiPages.PathName

def parts (path : List Char) : List (List Char) :=
  (Text.splitAt '/' path).filter fun part => part ≠ [] && part ≠ ['.']

/-- The last name of a path, whichever way its slashes lean. -/
def baseName (path : String) : String :=
  let forward := path.toList.map fun c => if c = '\\' then '/' else c
  String.ofList ((parts forward).getLast?.getD [])

/-- The slashes that a path from the root starts with: two of them stay two, and more are one. -/
def rootMark (path : List Char) : List Char :=
  match (path.takeWhile (· == '/')).length with
  | 0 => []
  | 2 => ['/', '/']
  | _ => ['/']

def normalize (path : String) : String :=
  let mark := rootMark path.toList
  let names := Text.joinWith ['/'] (parts path.toList)
  String.ofList (if mark.isEmpty && names.isEmpty then ['.'] else mark ++ names)

def above : List Char :=
  ['.', '.']

/-- A path in which no name is followed by one that leads up again: so many directories up, and
then down by some names. -/
structure Route where
  ups : Nat := 0
  names : List (List Char) := []

namespace Route

def follow (r : Route) (name : List Char) : Route :=
  if name = above then
    if r.names.isEmpty then { r with ups := r.ups + 1 } else { r with names := r.names.dropLast }
  else { r with names := r.names ++ [name] }

def text (r : Route) : String :=
  String.ofList (Text.joinWith ['/'] (List.replicate r.ups above ++ r.names))

end Route

def route (path : String) : Route :=
  (parts path.toList).foldl Route.follow {}

def isAbsolute (path : String) : Bool :=
  path.toList.head? == some '/'

end ApiPages.PathName
