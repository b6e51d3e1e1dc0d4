import ApiPages.Number
import ApiPages.Table
import ApiPages.Text.Quoted

namespace ApiPages

/-- A value of a tag, an attribute or a settings file. -/
inductive Value where
  | null
  | bool (b : Bool)
  | number (n : Number)
  | text (s : String)
  | list (items : List Value)
  | record (fields : List (String × Value))
  /-- A record with keys that are no text. Only settings files have such, and what follows. -/
  | mapping (entries : List (Value × Value))
  | bytes (codes : List UInt8)
  /-- A key and its value in a list that stands for a record in order. -/
  | pair (first second : Value)
  /-- The items stand in the order in which they are shown. -/
  | set (items : List Value)
  /-- What is only ever shown, by itself or inside a list: a date, or a list or record inside
  itself. -/
  | shown (alone inside : String)
  deriving Inhabited

/-- What one occurrence of a tag says, or the attributes of a class or member. -/
abbrev Record := Table String Value

namespace Value

@[match_pattern]
abbrev int (n : Int) : Value :=
  .number (.int n)

/-- Null, false, zero and everything empty count as false. -/
def truthy : Value → Bool
  | .null => false
  | .bool b => b
  | .number n => !n.isZero
  | .text s => s != ""
  | .list items => !items.isEmpty
  | .record fields => !fields.isEmpty
  | .mapping entries => !entries.isEmpty
  | .bytes codes => !codes.isEmpty
  | .pair .. => true
  | .set items => !items.isEmpty
  | .shown .. => true

def or (a b : Value) : Value :=
  if a.truthy then a else b

def isText (v : Value) (s : String) : Bool :=
  match v with
  | .text t => t == s
  | _ => false

/-- Truth values count as one and zero among the numbers. -/
def number? : Value → Option Number
  | .bool b => some (.int (if b then 1 else 0))
  | .number n => some n
  | _ => none

def sameNumber (a b : Value) : Bool :=
  match a.number?, b.number? with
  | some x, some y => x.same y
  | _, _ => false

mutual

/-- Equal as data: numbers by their value, records whatever the order of their fields. Records with
keys that are no text and sets are not compared. -/
def same : Value → Value → Bool
  | .null, .null => true
  | .text a, .text b => a == b
  | .list as, .list bs => sameItems as bs
  | .record as, .record bs => as.length == bs.length && sameFields as bs
  | .bool a, b => sameNumber (.bool a) b
  | .number a, b => sameNumber (.number a) b
  | .bytes a, .bytes b => a == b
  | .pair a b, .pair c d => same a c && same b d
  | .shown _ a, .shown _ b => a == b
  | _, _ => false

def sameItems : List Value → List Value → Bool
  | [], [] => true
  | a :: as, b :: bs => same a b && sameItems as bs
  | _, _ => false

def sameFields : List (String × Value) → List (String × Value) → Bool
  | [], _ => true
  | (key, a) :: as, bs =>
    (match Table.get? bs key with
      | some b => same a b
      | none => false) && sameFields as bs

end

def canName : Value → Bool
  | .list _ => false
  | .record _ => false
  | .mapping _ => false
  | .set _ => false
  | .pair a b => canName a && canName b
  | _ => true

/-- A value that holds no other value, as it stands in running text. -/
def atom : Value → String
  | .null => "None"
  | .bool b => if b then "True" else "False"
  | .number n => n.display
  | .text s => Text.quoted s
  | .list _ => "[]"
  | .record _ => "\x7b\x7d"
  | .mapping _ => "\x7b\x7d"
  | .bytes codes => Text.quotedBytes codes
  | .pair .. => "()"
  | .set _ => "set()"
  | .shown _ inside => inside

mutual

def nested : Value → String
  | .list items => "[" ++ nestedItems items ++ "]"
  | .record fields => "\x7b" ++ nestedFields fields ++ "\x7d"
  | .mapping entries => "\x7b" ++ nestedEntries entries ++ "\x7d"
  | .pair a b => "(" ++ nested a ++ ", " ++ nested b ++ ")"
  | .set (v :: vs) => "\x7b" ++ nestedItems (v :: vs) ++ "\x7d"
  | v => v.atom

def nestedItems : List Value → String
  | [] => ""
  | [v] => nested v
  | v :: vs => nested v ++ ", " ++ nestedItems vs

def nestedFields : List (String × Value) → String
  | [] => ""
  | [(key, v)] => Text.quoted key ++ ": " ++ nested v
  | (key, v) :: rest => Text.quoted key ++ ": " ++ nested v ++ ", " ++ nestedFields rest

def nestedEntries : List (Value × Value) → String
  | [] => ""
  | [(key, v)] => nested key ++ ": " ++ nested v
  | (key, v) :: rest => nested key ++ ": " ++ nested v ++ ", " ++ nestedEntries rest

end

/-- A value as it stands in running text; text itself is not quoted. -/
def display : Value → String
  | .text s => s
  | .shown alone _ => alone
  | v => v.nested

@[simp]
theorem display_text (s : String) : (Value.text s).display = s := rfl

@[simp]
theorem truthy_text (s : String) : (Value.text s).truthy = (s != "") := rfl

end Value

end ApiPages
