namespace ApiPages.Text

/-- The pieces between the occurrences of `sep`; there is always at least one. -/
def splitAt (sep : Char) : List Char → List (List Char)
  | [] => [[]]
  | c :: cs =>
    if c = sep then [] :: splitAt sep cs
    else
      match splitAt sep cs with
      | [] => [[c]]
      | piece :: pieces => (c :: piece) :: pieces

theorem splitAt_ne_nil (sep : Char) (cs : List Char) : splitAt sep cs ≠ [] := by
  cases cs with
  | nil => simp [splitAt]
  | cons c cs =>
    rw [splitAt]
    split
    · simp
    · split <;> simp

def joinWith (sep : List Char) (pieces : List (List Char)) : List Char :=
  sep.intercalate pieces

def lines (cs : List Char) : List (List Char) :=
  splitAt '\n' cs

def unlines (ls : List (List Char)) : List Char :=
  joinWith ['\n'] ls

def unifyBreaks : List Char → List Char
  | '\r' :: '\n' :: cs => '\n' :: unifyBreaks cs
  | '\r' :: cs => '\n' :: unifyBreaks cs
  | c :: cs => c :: unifyBreaks cs
  | [] => []

theorem joinWith_splitAt (sep : Char) (cs : List Char) :
    joinWith [sep] (splitAt sep cs) = cs := by
  induction cs with
  | nil => rfl
  | cons c cs ih =>
    rw [splitAt]
    split
    · rename_i h
      subst h
      cases hs : splitAt c cs with
      | nil => exact absurd hs (splitAt_ne_nil c cs)
      | cons piece pieces =>
        rw [hs] at ih
        simp only [joinWith] at ih ⊢
        rw [List.intercalate_cons_cons, ih]
        simp
    · split
      · rename_i hs
        exact absurd hs (splitAt_ne_nil sep cs)
      · rename_i piece pieces hs
        rw [hs] at ih
        cases pieces with
        | nil => simpa [joinWith, List.intercalate] using ih
        | cons next pieces =>
          simp only [joinWith] at ih ⊢
          rw [List.intercalate_cons_cons] at ih ⊢
          simp [ih]

theorem unlines_lines (cs : List Char) : unlines (lines cs) = cs :=
  joinWith_splitAt '\n' cs

end ApiPages.Text
