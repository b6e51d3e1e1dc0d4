import ApiPages.Yaml.Token
import ApiPages.Yaml.Reader

namespace ApiPages.Yaml

def isNameChar (c : Char) : Bool :=
  c.isAlphanum || c == '-' || c == '_'

def readName (r : Reader) : Except Fault (String × Reader) :=
  match r.span isNameChar with
  | ([], _) => .error notYaml
  | (name, after) => .ok (String.ofList name, after)

def readAnchor (r : Reader) : Except Fault (String × Reader) := do
  let (name, after) ← readName r.next
  if Reader.endsWord after.rest || after.rest.head?.any ("?:,]\x7d%@\x60".toList.contains ·) then
    return (name, after)
  else .error notYaml

def isUriChar (c : Char) : Bool :=
  c.isAlphanum || "-;/?:@&=+$,_.!~*'()[]".toList.contains c

/-- Reads the name of a type, of which no character may be coded. -/
def readUri (r : Reader) : Except Fault (String × Reader) :=
  match r.span isUriChar with
  | ([], _) => .error notYaml
  | (name, after) =>
    if after.rest.head? == some '%' then .error notYaml
    else .ok (String.ofList name, after)

def readHandle (r : Reader) : Except Fault (String × Reader) :=
  let (name, after) := r.next.span isNameChar
  if r.rest.head? != some '!' then .error notYaml
  else if after.rest.head? == some '!' then
    .ok (String.ofList ('!' :: name ++ ['!']), after.next)
  else if name.isEmpty && after.rest.head? == some ' ' then .ok ("!", after)
  else .error notYaml

def readTag (r : Reader) : Except Fault (Token × Reader) := do
  let (token, after) ←
    if r.rest.drop 1 |>.head? |>.any (· == '<') then do
      let (name, after) ← readUri (r.drop 2)
      if after.rest.head? == some '>' then pure (Token.tag none name, after.next)
      else .error notYaml
    else if Reader.endsWord (r.rest.drop 1) then pure (Token.tag none "!", r.next)
    else do
      let word := (r.rest.drop 1).takeWhile fun c => c != ' ' && !isBreak c
      let (handle, after) ← if word.contains '!' then readHandle r else pure ("!", r.next)
      let (name, after) ← readUri after
      pure (Token.tag (some handle) name, after)
  if after.atLineEnd || after.rest.head? == some ' ' then return (token, after)
  else .error notYaml

def readCount (r : Reader) : Except Fault (Nat × Reader) :=
  match r.span Char.isDigit with
  | ([], _) => .error notYaml
  | (digits, after) => .ok (digits.foldl (fun n c => n * 10 + (c.toNat - '0'.toNat)) 0, after)

def readDirectiveBody (name : String) (r : Reader) : Except Fault (Token × Reader) :=
  match name with
  | "YAML" => do
    let (major, after) ← readCount r.skipSpaces
    if after.rest.head? != some '.' then .error notYaml
    else do
      let (_, after) ← readCount after.next
      if after.atLineEnd || after.rest.head? == some ' ' then return (.version major, after)
      else .error notYaml
  | "TAG" => do
    let (handle, after) ← readHandle r.skipSpaces
    if after.rest.head? != some ' ' then .error notYaml
    else do
      let (lead, after) ← readUri after.skipSpaces
      if after.atLineEnd || after.rest.head? == some ' ' then return (.handle handle lead, after)
      else .error notYaml
  | _ => return (.otherDirective, (r.span (!isBreak ·)).2)

def readDirective (r : Reader) : Except Fault (Token × Reader) := do
  let (name, after) ← readName r.next
  if !(after.atLineEnd || after.rest.head? == some ' ') then .error notYaml
  else do
    let (token, after) ← readDirectiveBody name after
    let after := after.skipComment
    if after.atLineEnd then return (token, if after.rest.isEmpty then after else after.next)
    else .error notYaml

end ApiPages.Yaml
